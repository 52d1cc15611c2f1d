import RedGeo.Engine.Partition

/-!
# RedGeo — one replica of a partition, as the protocol sees it

The cluster protocol (`rotation/rotation.go`) drives the engine through the
primitives of `RedGeo.Engine.Partition`. Here they act on a `Replica`: the
partition, its backing store, and the job queue of its replicated datastore.
Between protocol steps nothing fails, so each operation is the run of the
primitive without faults; `engine_refines` says so.

Of go-ds-crdt the protocol sees, besides what `Stage` uses, the processed
blocks and the heads below a namespace. Blocks are content addressed: what lies
below a block (`dag`) and which keys it puts (`puts`) are functions of it.
-/

namespace RedGeo.Rotation

open Engine

/-- A round, `"<coordinator>/<partition>/<time>"`. -/
structure RoundId (ι : Type) where
  coord : ι
  nano : Nat
  deriving DecidableEq, Repr

/-- The raw entries of a namespace: processed blocks (`/b/<cid>`) and DAG heads
(`/h/<cid>`). -/
inductive NsEntry (β : Type)
  | block (b : β)
  | head (b : β)
  deriving DecidableEq, Repr

variable {ι β κ ν : Type}

/-- The processed blocks of a namespace. -/
def blocks (es : List (NsEntry β)) : List β :=
  es.filterMap fun
    | .block b => some b
    | .head _ => none

/-- The DAG heads of a namespace. -/
def heads (es : List (NsEntry β)) : List β :=
  es.filterMap fun
    | .head b => some b
    | .block _ => none

@[simp] lemma blocks_nil : blocks ([] : List (NsEntry β)) = [] := rfl

@[simp] lemma heads_nil : heads ([] : List (NsEntry β)) = [] := rfl

@[simp] lemma blocks_append (es es' : List (NsEntry β)) : blocks (es ++ es') = blocks es ++ blocks es' :=
  List.filterMap_append

@[simp] lemma heads_append (es es' : List (NsEntry β)) : heads (es ++ es') = heads es ++ heads es' :=
  List.filterMap_append

/-- The replicated datastore: `query` and `batch` as in `Crdt`, `dag b` the
blocks of the DAG below `b` with `b` itself, `puts b` the keys it puts. -/
structure Datastore (β κ ν : Type) where
  query : List (NsEntry β) → List (κ × ν)
  batch : List (NsEntry β) → List (κ × ν) → List (NsEntry β)
  dag : β → List β
  puts : β → List κ

/-- The datastore as `Stage` uses it. -/
def Datastore.toCrdt (D : Datastore β κ ν) : Crdt (NsEntry β) κ ν β where
  query := D.query
  heads := heads
  batch := D.batch

/-! ## The assumptions on processing -/

/-- The assumptions on a namespace with queue `jobs`: heads are processed, every
processed block lies below a head, and with an empty queue everything below a
processed block is processed. -/
structure Sound (D : Datastore β κ ν) (es : List (NsEntry β)) (jobs : List β) : Prop where
  heads : ∀ h ∈ heads es, h ∈ blocks es
  covered : ∀ b ∈ blocks es, ∃ h ∈ Rotation.heads es, b ∈ D.dag h
  closed : jobs = [] → ∀ b ∈ blocks es, ∀ a ∈ D.dag b, a ∈ blocks es

/-- What the datastore may do to its namespace and queue in one step: blocks are
only added, each of them new here (`fresh`) or found below a queued head, and
the assumptions hold of the result. -/
structure Advances (D : Datastore β κ ν) (es : List (NsEntry β)) (jobs fresh : List β)
    (es' : List (NsEntry β)) (jobs' : List β) : Prop where
  kept : ∀ b ∈ blocks es, b ∈ blocks es'
  source : ∀ b ∈ blocks es', b ∈ blocks es ∨ b ∈ fresh ∨ ∃ h ∈ jobs, b ∈ D.dag h
  fresh : ∀ b ∈ fresh, b ∈ blocks es' ∧ ∀ a ∈ D.dag b, a = b ∨ ∃ h ∈ heads es, a ∈ D.dag h
  queue : ∀ h ∈ jobs', h ∈ jobs
  sound : Sound D es' jobs'

section

variable [DecidableEq β]

instance (D : Datastore β κ ν) (es : List (NsEntry β)) (jobs : List β) :
    Decidable (Sound D es jobs) :=
  decidable_of_iff
    ((∀ h ∈ heads es, h ∈ blocks es) ∧ (∀ b ∈ blocks es, ∃ h ∈ heads es, b ∈ D.dag h) ∧
      (jobs = [] → ∀ b ∈ blocks es, ∀ a ∈ D.dag b, a ∈ blocks es))
    ⟨fun h => ⟨h.1, h.2.1, h.2.2⟩, fun h => ⟨h.heads, h.covered, h.closed⟩⟩

instance (D : Datastore β κ ν) (es : List (NsEntry β)) (jobs fresh : List β)
    (es' : List (NsEntry β)) (jobs' : List β) : Decidable (Advances D es jobs fresh es' jobs') :=
  decidable_of_iff
    ((∀ b ∈ blocks es, b ∈ blocks es') ∧
      (∀ b ∈ blocks es', b ∈ blocks es ∨ b ∈ fresh ∨ ∃ h ∈ jobs, b ∈ D.dag h) ∧
      (∀ b ∈ fresh, b ∈ blocks es' ∧ ∀ a ∈ D.dag b, a = b ∨ ∃ h ∈ heads es, a ∈ D.dag h) ∧
      (∀ h ∈ jobs', h ∈ jobs) ∧ Sound D es' jobs')
    ⟨fun h => ⟨h.1, h.2.1, h.2.2.1, h.2.2.2.1, h.2.2.2.2⟩,
      fun h => ⟨h.kept, h.source, h.fresh, h.queue, h.sound⟩⟩

end

lemma sound_nil (D : Datastore β κ ν) (jobs : List β) : Sound D [] jobs :=
  ⟨fun _ h => absurd h (by simp), fun _ h => absurd h (by simp), fun _ _ h => absurd h (by simp)⟩

/-! ## A plain datastore -/

/-- A datastore over numbered blocks, for concrete runs. Those from 1 to 99 form
one chain: odd ones put the key of their number, even ones delete the key
before them. Block `100 + k` is a seed that puts key `k`. -/
def plainStore : Datastore Nat Nat Nat where
  query es := (blocks es).filterMap fun b =>
    if 100 ≤ b then some (b - 100, b)
    else if b % 2 = 1 ∧ b + 1 ∉ blocks es then some (b, b)
    else none
  batch _ kvs := kvs.flatMap fun kv => [.block (100 + kv.1), .head (100 + kv.1)]
  dag b := if b = 0 ∨ 100 ≤ b then [b] else List.range' 1 b
  puts b := if 100 ≤ b then [b - 100] else if b % 2 = 1 then [b] else []

/-! ## The replica -/

/-- One replica of the partition. The last two fields are ghosts: the latest
rotation activated here, and for each generation the round and genesis it was
activated with. -/
structure Replica (ι β : Type) where
  part : Partition := {}
  disk : Backing (NsEntry β) := {}
  jobs : Nat → List β := fun _ => []
  act : Option (RoundId ι × Nat) := none
  origin : Nat → Option (RoundId ι × Option β) := fun _ => none

namespace Replica

variable (x : Replica ι β) (g : Option Nat)

/-- The entries of the active generation. -/
def ns (x : Replica ι β) : List (NsEntry β) := x.disk.ns x.part.gen

def heads (x : Replica ι β) : List β := Rotation.heads x.ns

def missing [DecidableEq β] (x : Replica ι β) (cids : List β) : List β :=
  cids.filter (· ∉ blocks x.ns)

def quiescent (x : Replica ι β) : Bool := (x.jobs x.part.gen).isEmpty

/-- Closing a datastore drops its queue. -/
def close (x : Replica ι β) (g : Option Nat) : Replica ι β :=
  match g with
  | none => x
  | some g => { x with jobs := Function.update x.jobs g [] }

@[simp] lemma close_part : (x.close g).part = x.part := by
  cases g <;> rfl

@[simp] lemma close_disk : (x.close g).disk = x.disk := by
  cases g <;> rfl

@[simp] lemma close_act : (x.close g).act = x.act := by
  cases g <;> rfl

@[simp] lemma close_origin : (x.close g).origin = x.origin := by
  cases g <;> rfl

/-- `Freeze`: the gate, and whether the wait for writes in flight ended. -/
def freeze (x : Replica ι β) : Replica ι β × Bool :=
  ({ x with part := x.part.freeze.1 }, x.part.freeze.2)

def unfreeze (x : Replica ι β) : Replica ι β := { x with part := x.part.unfreeze }

/-- `Stage(seed=false)`. -/
def stageEmpty (x : Replica ι β) : Replica ι β :=
  { x with part := { x.part with staged := some (x.part.gen + 1) } }

section

variable (D : Datastore β κ ν) (x : Replica ι β)

/-- `Stage(seed=true)`. -/
def stageSeeded : Replica ι β :=
  { x with
    part := { x.part with staged := some (x.part.gen + 1) }
    disk := x.disk.setNs (x.part.gen + 1)
      (x.disk.seededNs D.toCrdt x.part.gen (x.part.gen + 1)) }

/-- The genesis `Stage(seed=true)` returns. -/
def genesis : Option β :=
  (Rotation.heads (x.disk.seededNs D.toCrdt x.part.gen (x.part.gen + 1))).head?

section

variable (x : Replica ι β)

/-- `Activate`, in round `r` with the given genesis. -/
def activate (r : RoundId ι) (genesis : Option β) (waitSeed : Bool) :
    Replica ι β :=
  match x.part.staged with
  | none => x
  | some g =>
    { x with
      part := activated x.part g waitSeed
      disk := x.disk.persisted (activated x.part g waitSeed)
      act := some (r, g)
      origin := Function.update x.origin g (some (r, genesis)) }

def commit : Replica ι β :=
  { x with
    part := committed x.part
    disk := (x.disk.persisted (committed x.part)).purged (commitDrops x.part) }.close
      (commitDrops x.part)

def rollback : Replica ι β :=
  { x with
    part := reopenReads (rolledBack x.part)
    disk := (x.disk.persisted (rolledBack x.part)).purged (rollbackDrops x.part) }.close
      (rollbackDrops x.part)

/-- The process dies and `New` opens the partition again. What was queued is
found again by the datastore's own repair. -/
def restart : Replica ι β :=
  { x with part := restoreGen x.part.idx x.disk }

end

end

/-! ## They are the engine's primitives -/

/-- **The replica is the engine's partition.** Without storage faults, the programs of the
engine refuse or do, access by access, what the operations above do in one step. -/
theorem engine_refines [DecidableEq β] (D : Datastore β κ ν) (x : Replica ι β) (seed waitSeed : Bool)
    (r : RoundId ι) (gs : Option β) :
    Engine.stage D.toCrdt x.part seed .quiet x.disk =
      (if x.part.inDoubt then (.err .inProgress, x.disk)
      else if seed then (.ok ((x.stageSeeded D).part, x.genesis D, (D.query x.ns).length), (x.stageSeeded D).disk)
      else (.ok (x.stageEmpty.part, none, 0), x.stageEmpty.disk)) ∧
    Engine.activate x.part waitSeed .quiet x.disk = (.ok ((x.activate r gs waitSeed).part,
      if x.part.staged.isSome then .ok () else .error .nothingStaged), (x.activate r gs waitSeed).disk) ∧
    Engine.commit x.part .quiet x.disk = (.ok (x.commit.part, .ok ()), x.commit.disk) ∧
    Engine.rollback x.part .quiet x.disk = (.ok (x.rollback.part, .ok ()), x.rollback.disk) := by
  refine ⟨?_, ?_, ?_, ?_⟩
  · cases hDoubt : x.part.inDoubt with
    | false =>
      cases seed with
      | false => exact stage_quiet_unseeded _ _ hDoubt
      | true => exact stage_quiet_seeded _ _ hDoubt
    | true =>
      have hGuard : (x.part.staged.isSome || x.part.hasPrev) = true := (Bool.or_comm _ _).trans hDoubt
      rw [Engine.stage, if_pos hGuard]
      rfl
  · unfold activate
    cases hStaged : x.part.staged with
    | none => exact activate_unstaged _ hStaged
    | some g => exact activate_quiet _ _ hStaged
  · rw [commit_quiet, commit, close_part, close_disk]
  · rw [rollback_quiet, rollback, close_part, close_disk]

end Replica

end RedGeo.Rotation
