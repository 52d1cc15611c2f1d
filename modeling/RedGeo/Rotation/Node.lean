import RedGeo.Rotation.Replica

/-!
# RedGeo — a node of the rotation protocol

The messages of `rotation/rotation.go`, the state of a `Node` for one
partition, and its handlers as a participant: `onPrepare`, `onSwitch`,
`finish`, `watchdog`, `onStatus`, `onOutcome`. The coordinator's side is
`RedGeo.Rotation.Compact`.

A handler runs under the partition's mutex, so it is one step; what the code
does outside it is a step of its own: the two halves of `watchdog` (collecting
under `n.mu`, acting later), and the goroutine that waits for the seed, which
finds it in one critical section and opens reads in another.
Timeouts may fire at any moment, so no clock is modelled.

`Out.log` records what happened, for the statements about whole runs.
-/

namespace RedGeo.Rotation

open Engine

/-! ## Messages -/

/-- What a participant answers to `prepare`. -/
structure Prepared (β : Type) where
  ok : Bool := false
  heads : List β := []
  missing : List β := []
  busy : Bool := false
  reason : String := ""
  deriving DecidableEq, Repr

/-- What a participant answers to `switch`. -/
structure Ready where
  ok : Bool := false
  reason : String := ""
  deriving DecidableEq, Repr

/-- `msg.State`. -/
inductive PeerState
  | idle
  | indoubt
  deriving DecidableEq, Repr

/-- `msg`, with the fields each kind carries. -/
inductive Msg (ι β : Type)
  | hello
  | prepare (round : RoundId ι) (union : List β)
  | prepared (round : RoundId ι) (reply : Prepared β)
  | switch (round : RoundId ι) (gen : Nat) (genesis : Option β)
  | ready (round : RoundId ι) (reply : Ready)
  | done (round : RoundId ι)
  | abort (round : RoundId ι)
  | status (gen : Nat)
  | outcome (gen : Nat) (state : PeerState)
  deriving DecidableEq, Repr

/-- A broadcast of the replicated datastore: the generation it is wrapped with,
the heads, and (a ghost) the round that activated the sender's generation. -/
structure DataMsg (ι β : Type) where
  gen : Nat
  heads : List β
  lin : Option (RoundId ι)
  deriving DecidableEq, Repr

/-! ## State -/

/-- Participant phases. -/
inductive Phase
  | prepared
  | switched
  deriving DecidableEq, Repr

/-- `pstate`; `round` is `none` for `""`, which `Start` leaves after a restart. -/
structure PState (ι β : Type) where
  round : Option (RoundId ι)
  phase : Phase
  genesis : Option β := none
  mine : Bool := false
  deriving DecidableEq, Repr

/-- Where `Compact` stands. -/
inductive Pc (β : Type)
  | freezing
  | preparing
  | staging
  | activating (genesis : Option β)
  | switching (genesis : Option β)
  | committing
  | failing
  | unwinding
  deriving DecidableEq, Repr

/-- The local variables of a running `Compact`, and its waiter channel. -/
structure Co (ι β : Type) where
  round : RoundId ι
  members : List ι
  pc : Pc β := .freezing
  union : List β := []
  stable : Nat := 0
  prepared : List (ι × Prepared β) := []
  ready : List (ι × Ready) := []
  chan : List (ι × (Prepared β ⊕ Ready)) := []
  activated : Bool := false
  deriving DecidableEq, Repr

/-- `Node`, for one partition. `stale` and `asking` are what `watchdog` has
collected and not acted on yet, `waits` the goroutines in `WaitSeed`, `seen` those
between `hasHead` and `setBlockReads`, `reads` the reads between `waitReadable` and
`active`. -/
structure Node (ι β : Type) where
  rep : Replica ι β := {}
  members : List ι := []
  st : Option (PState ι β) := none
  replies : Option (List (ι × Nat × PeerState)) := none
  stale : Option (Option (RoundId ι)) := none
  asking : Bool := false
  waits : List (RoundId ι × Option β) := []
  seen : List (RoundId ι × Option β) := []
  co : Option (Co ι β) := none
  reads : Nat := 0
  nano : Nat := 0

/-- What happened, as far as the statements about runs speak of it. -/
inductive Event (ι β : Type)
  | prepared (n : ι) (r : RoundId ι)
  | staged (r : RoundId ι) (gen : Nat) (members : List ι) (cut : List (NsEntry β))
      (seeds : List β)
  | activated (n : ι) (r : RoundId ι) (gen : Nat)
  | committed (n : ι) (r : RoundId ι) (gen : Nat)
  | rolledBack (n : ι) (r : RoundId ι) (gen : Nat)
  | acked (n : ι) (gen : Nat) (lin : Option (RoundId ι)) (b : β)
  | served (n : ι) (gen : Nat) (held : Bool)
  deriving DecidableEq, Repr

/-- What a step of a node leaves: its state, the messages it sends, and what is
recorded. -/
structure Out (ι β : Type) where
  node : Node ι β
  send : List (Msg ι β) := []
  data : List (DataMsg ι β) := []
  log : List (Event ι β) := []

variable {ι β κ ν : Type}

variable (x : Replica ι β) (self : ι)

/-- What a `Commit` of the replica means for the run. -/
def Replica.commitLog : List (Event ι β) :=
  match x.act, x.part.hasPrev with
  | some (r, g), true => [.committed self r g]
  | _, _ => []

/-- What a `Rollback` of the replica means for the run; dropping a generation
that was only staged is not one of an activated generation. -/
def Replica.rollbackLog : List (Event ι β) :=
  match x.act, x.part.hasPrev, x.part.staged with
  | some (r, g), true, none => [.rolledBack self r g]
  | _, _, _ => []

/-- A namespace holds a seed: everything below its genesis has been processed. -/
def Datastore.Holds (D : Datastore β κ ν) (es : List (NsEntry β)) (genesis : Option β) : Prop :=
  ∀ b ∈ genesis, ∀ a ∈ D.dag b, a ∈ blocks es

instance [DecidableEq β] (D : Datastore β κ ν) (es : List (NsEntry β)) (genesis : Option β) :
    Decidable (D.Holds es genesis) :=
  inferInstanceAs (Decidable (∀ b ∈ genesis, ∀ a ∈ D.dag b, a ∈ blocks es))

/-- The generation holds the seed it was activated with. -/
def Replica.holdsSeed [DecidableEq β] (D : Datastore β κ ν) (x : Replica ι β) (g : Nat) : Bool :=
  match x.origin g with
  | some (_, genesis) => decide (D.Holds (x.disk.ns g) genesis)
  | none => true

namespace Node

/-! ## Participant -/

/-- The three cases of `onPrepare`. -/
inductive PrepareCase
  | retransmit
  | busy
  | fresh
  deriving DecidableEq, Repr

/-- Which case of `onPrepare` applies. -/
def prepareCase [DecidableEq ι] (x : Node ι β) (r : RoundId ι) : PrepareCase :=
  match x.st with
  | some st => if st.round = some r ∧ st.phase = .prepared then .retransmit else .busy
  | none => if x.rep.part.inDoubt then .busy else .fresh

variable [DecidableEq ι] [DecidableEq β]

/-- The answer of a prepared participant. -/
def preparedReply (x : Node ι β) (union : List β) : Prepared β :=
  { ok := true
    heads := x.rep.heads
    missing := x.rep.missing union
    busy := !x.rep.quiescent }

variable (self : ι) (x : Node ι β)

def onPrepare (r : RoundId ι) (union : List β) : Out ι β :=
  match x.prepareCase r with
  -- the coordinator polls again: answer with the present heads
  | .retransmit => { node := x, send := [.prepared r (x.preparedReply union)] }
  | .busy => { node := x, send := [.prepared r { reason := "busy" }] }
  | .fresh =>
    if x.rep.freeze.2 then
      let x' := { x with
        rep := x.rep.freeze.1, st := some { round := some r, phase := .prepared } }
      { node := x'
        send := [.prepared r (x'.preparedReply union)]
        log := [.prepared self r] }
    else
      -- writes in flight have not drained in time
      { node := { x with rep := x.rep.freeze.1.unfreeze }
        send := [.prepared r { reason := "could not freeze: context deadline exceeded" }] }

/-- `onSwitch`. The generation of the message is not looked at. -/
def onSwitch (r : RoundId ι) (genesis : Option β) : Out ι β :=
  match x.st with
  | none => { node := x, send := [.ready r { reason := "not prepared" }] }
  | some st =>
    if st.round ≠ some r then { node := x, send := [.ready r { reason := "not prepared" }] }
    else
      match st.phase with
      | .prepared =>
        -- `Stage` refuses while another rotation is pending
        if x.rep.part.inDoubt then
          { node := x, send := [.ready r { reason := EngineErr.inProgress.error }] }
        else
          { node := { x with
              rep := x.rep.stageEmpty.activate r genesis true
              st := some { st with phase := .switched, genesis := genesis }
              waits := (r, genesis) :: x.waits }
            log := [.activated self r (x.rep.part.gen + 1)] }
      -- switched already: only wait for the seed once more
      | .switched => { node := { x with waits := (r, st.genesis) :: x.waits } }

/-- `finish`; the round `none` (`""`) matches every round. -/
def finish (round : Option (RoundId ι)) (commit : Bool) : Out ι β :=
  match x.st with
  | none => { node := x }
  | some st =>
    if round ≠ none ∧ st.round ≠ round then { node := x }
    -- a participant that has not switched has nothing to commit
    else if commit ∧ st.phase = .switched then
      { node := { x with st := none, rep := x.rep.commit.unfreeze }
        log := x.rep.commitLog self }
    else
      { node := { x with st := none, rep := x.rep.rollback.unfreeze }
        log := x.rep.rollbackLog self }

/-- The first half of `watchdog`: collect what has timed out. -/
def scan (x : Node ι β) : Node ι β :=
  match x.st with
  | none => { x with stale := none, asking := false }
  | some st =>
    -- the coordinator manages its own timeouts
    if st.mine then { x with stale := none, asking := false }
    else
      match st.phase with
      | .prepared => { x with stale := some st.round, asking := false }
      | .switched => { x with stale := none, asking := true }

/-- The second half of `watchdog`, for a prepare that was collected. -/
def abandon : Out ι β :=
  match x.stale with
  | none => { node := x }
  -- the phase is not looked at again
  | some round => finish self { x with stale := none } round false

section

variable (x : Node ι β)

/-- The second half of `watchdog`, for a rotation in doubt. -/
def ask : Out ι β :=
  if x.asking then
    { node := { x with replies := some [], asking := false }
      send := [.status x.rep.part.gen] }
  else { node := x }

def onStatus : Out ι β :=
  { node := x
    send := [.outcome x.rep.part.gen
      (if x.st.isSome || x.rep.part.inDoubt then .indoubt else .idle)] }

/-- `allInDoubt`: every member has answered that it is in the same doubt. -/
def allInDoubt : Bool :=
  !x.members.isEmpty && x.members.all fun id =>
      (x.replies.getD []).lookup id == some (x.rep.part.gen, PeerState.indoubt)

end

def onOutcome (src : ι) (gen : Nat) (state : PeerState) : Out ι β :=
  match x.st with
  | none => { node := x }
  | some st =>
    if st.phase = .prepared then { node := x }
    else
      let x' := { x with replies := x.replies.map ((src, gen, state) :: ·) }
      match state with
      -- a settled peer: ahead of us it has committed, behind us it has rolled back
      | .idle => finish self x' none (decide (x.rep.part.gen ≤ gen))
      | .indoubt => if x'.allInDoubt then finish self x' none false else { node := x' }

section

variable (x : Node ι β) (w : RoundId ι × Option β)

/-- `hasHead` has found the seed of one of the waiting goroutines among the heads of
the active generation, or there is nothing to wait for. -/
def seedSeen : Option (Out ι β) :=
  if w ∈ x.waits ∧ ∀ b ∈ w.2, b ∈ x.rep.heads then
    some { node := { x with waits := x.waits.erase w, seen := w :: x.seen } }
  else none

/-- `WaitSeed` comes to its end: reads are opened, whichever generation is active by
now. -/
def seedArrived : Option (Out ι β) :=
  if w ∈ x.seen then
    some
      { node := { x with
          seen := x.seen.erase w
          rep := { x.rep with
            part := { x.rep.part with gate := x.rep.part.gate.setBlockReads false } } }
        send := [.ready w.1 { ok := true }] }
  else none

/-- `WaitSeed` has given up. -/
def seedTimeout : Option (Out ι β) :=
  if w ∈ x.waits then
    some
      { node := { x with waits := x.waits.erase w }
        send := [.ready w.1 { reason := "engine: timed out waiting for the seeded generation" }] }
  else none

end

def learn (id : ι) : Node ι β :=
  if id = self ∨ id ∈ x.members then x else { x with members := x.members ++ [id] }

def forget (x : Node ι β) (id : ι) : Node ι β := { x with members := x.members.erase id }

/-- `New` and `Start` after a crash: the membership and the backing store are
what is left. -/
def restart (x : Node ι β) : Node ι β :=
  { rep := x.rep.restart
    members := x.members
    -- in doubt with no round to its name: any verdict fits
    st := if x.rep.restart.part.inDoubt then some { round := none, phase := .switched } else none
    nano := x.nano }

/-! ## Clients and the datastore -/

/-- `waitReadable` lets a read through. -/
def readGate (x : Node ι β) : Option (Out ι β) :=
  if x.rep.part.gate.readable then some { node := { x with reads := x.reads + 1 } } else none

/-- The read takes the active datastore and is served. -/
def readServe (D : Datastore β κ ν) : Option (Out ι β) :=
  if 0 < x.reads then
    some
      { node := { x with reads := x.reads - 1 }
        log := [.served self x.rep.part.gen (x.rep.holdsSeed D x.rep.part.gen)] }
  else none

/-- A client write passes the gate. -/
def beginWrite (x : Node ι β) : Option (Out ι β) :=
  x.rep.part.gate.beginWrite.map fun g =>
    { node := { x with rep := { x.rep with part := { x.rep.part with gate := g } } } }

variable (D : Datastore β κ ν)

/-- An admitted client write lands as block `b`, is broadcast, and is
acknowledged; `es` is what the datastore makes of the namespace. -/
def write (self : ι) (x : Node ι β) (b : β) (es : List (NsEntry β)) :
    Option (Out ι β) :=
  let g := x.rep.part.gen
  if 0 < x.rep.part.gate.inflight ∧ Advances D x.rep.ns (x.rep.jobs g) [b] es (x.rep.jobs g) then
    some
      { node := { x with
          rep := { x.rep with
            part := { x.rep.part with gate := x.rep.part.gate.endWrite }
            disk := x.rep.disk.setNs g es } }
        data := [⟨g, heads es, (x.rep.origin g).map Prod.fst⟩]
        log := [.acked self g ((x.rep.origin g).map Prod.fst) b] }
  else none

variable (x : Node ι β)

/-- `pump`: a broadcast of the current generation is queued, any other dropped. -/
def recvData (d : DataMsg ι β) : Out ι β :=
  let g := x.rep.part.gen
  if d.gen = g then
    { node := { x with
        rep := { x.rep with jobs := Function.update x.rep.jobs g (x.rep.jobs g ++ d.heads) } } }
  else { node := x }

/-- The datastore works on its queue. -/
def process (x : Node ι β) (es : List (NsEntry β)) (jobs : List β) :
    Option (Out ι β) :=
  let g := x.rep.part.gen
  if Advances D x.rep.ns (x.rep.jobs g) [] es jobs then
    some
      { node := { x with
          rep := { x.rep with
            disk := x.rep.disk.setNs g es
            jobs := Function.update x.rep.jobs g jobs } } }
  else none

/-- The datastore's periodic rebroadcast of its heads (`ResendSeed` is one). -/
def rebroadcast : Out ι β :=
  let g := x.rep.part.gen
  { node := x, data := [⟨g, x.rep.heads, (x.rep.origin g).map Prod.fst⟩] }

end Node

end RedGeo.Rotation
