import RedGeo.Engine.Crash
import RedGeo.Engine.Staging
import RedGeo.Rotation.Finality
import RedGeo.Rotation.Agreement
import RedGeo.Rotation.NoLoss
import RedGeo.Rotation.Reads
import RedGeo.Rotation.Lineage
import RedGeo.Store.Codec
import RedGeo.Store.Convergence
import RedGeo.Store.Dominance
import RedGeo.Store.Clients
import RedGeo.Server.Multi
import RedGeo.Repo.Ranges
import RedGeo.Repo.Expired
import RedGeo.Repo.Deadlock
import RedGeo.Repo.Positions
import RedGeo.Repo.Tally
import RedGeo.Repo.Estimates
import RedGeo.Engine.Fencing
import RedGeo.Repo.Overflow
import RedGeo.Repo.HashRenames
import RedGeo.Engine.Rollbacks
import RedGeo.Rotation.Polls
import RedGeo.Repo.Growth
import RedGeo.Json.Numbers
import RedGeo.Repo.Sweeps
import RedGeo.Json.Places
import RedGeo.Script.Replies
import RedGeo.Store.Watermark
import RedGeo.Geo.Hash
