import RedGeo.Engine.Fence

/-!
# RedGeo — batches and rotations

`multiBatch` of `engine/engine.go` against the rotation primitives of
`engine/rotation.go`, on any number of partitions. A batch opens a sub-batch on
the datastore that is active when its first operation on the partition comes;
`Commit` goes through the sub-batches, and for each enters the gate, compares
the active datastore with the one the sub-batch was opened on, commits it and
leaves the gate. Comparison and commit are separate steps: what keeps a
rotation from switching between them is the gate alone.

* `Site` — one partition: its memory and namespaces, the open datastores, the
  goroutines at its gate, and the rotation under way.
* `Batch` — sub-batches and how far `Commit` is.
* `Disciplined` — a rotation activates only after its `Freeze` returned without
  error, and unfreezes only after `Commit` or `Rollback`.
* `batches_fenced` — in every such run a sub-batch is applied as a whole to the
  datastore it was opened on, while that one is active, or not at all.
-/

namespace RedGeo.Engine

open Lib Function

/-! ## Partitions -/

/-- An open datastore (`*crdt.Datastore`): the generation its namespace belongs
to, and which of the datastores opened for the partition it is. -/
structure Handle where
  gen : Nat
  id : Nat
  deriving DecidableEq, Repr

/-- One partition. -/
structure Site (ρ : Type) where
  part : Partition := {}
  disk : Backing ρ := {}
  /-- `p.crdt`. -/
  crdt : Handle := ⟨0, 0⟩
  /-- `p.staged.crdt`, while a generation is staged. -/
  stagedDs : Handle := ⟨0, 0⟩
  /-- `p.oldDS`, while a rotation is pending. -/
  oldDS : Handle := ⟨0, 0⟩
  /-- How many datastores have been opened. -/
  opened : Nat := 1
  changed : Nat := 0
  callers : List Caller := []
  log : List Notice := []
  /-- The goroutine in which the rotation under way called `Freeze`. -/
  rot : Option Nat := none
  /-- The batch whose `Commit` a goroutine belongs to. -/
  owner : Nat → Option Nat := fun _ => none

/-- What happens at a partition apart from the commits of batches. -/
inductive SiteAct (ρ : Type)
  /-- A goroutine calls or waits at the gate, or a plain write leaves it. -/
  | gate (a : GateAct)
  /-- A plain `Put` or `Delete`, admitted as goroutine `i`. -/
  | put (i : Nat) (es : List ρ)
  | freeze
  | stage (seed : Bool) (plan : Plan)
  | activate (waitSeed : Bool) (plan : Plan)
  /-- `WaitSeed` returns. -/
  | seeded
  | commit (plan : Plan)
  | rollback (plan : Plan)
  | unfreeze

namespace Site

variable {ρ κ ν γ : Type}

variable (s : Site ρ)

/-- The gate with its goroutines. -/
def fence : Fence := ⟨s.part.gate, s.changed, s.callers, s.log⟩

def withFence (f : Fence) : Site ρ :=
  { s with part := { s.part with gate := f.gate }, changed := f.changed, callers := f.callers, log := f.log }

/-- How the `Freeze` of the rotation under way ended, if it has. -/
def froze : Option (Option GateErr) :=
  match s.rot.bind fun i => s.callers[i]? with
  | some (.returned e) => some e
  | _ => none

/-- The acts of goroutines that are neither a rotation nor a batch's `Commit`. -/
def outside : GateAct → Bool
  | .call .beginWrite | .call .waitReadable => true
  | .call .freeze | .call (.set _ _) | .call (.setBlockReads _) => false
  | .run _ | .wake _ | .fail _ _ => true
  | .finish i => (s.owner i).isNone

/-- After `Activate` of a staged generation. -/
def switched (waitSeed : Bool) (p : Partition) (d : Backing ρ) : Site ρ :=
  match s.part.staged with
  | none => { s with part := p, disk := d }
  | some _ =>
    { s with
      part := p
      disk := d
      oldDS := s.crdt
      crdt := s.stagedDs
      changed := if waitSeed then s.changed + 1 else s.changed }

/-- The previous datastore, reopened if it has been closed. -/
def restored : Handle := if s.part.oldOpen then s.oldDS else ⟨s.part.prevGen, s.opened⟩

/-- After `Rollback`; `p` is the partition in memory then. -/
def fellBack (p : Partition) (d : Backing ρ) : Site ρ :=
  if s.part.staged.isNone && s.part.hasPrev then
    -- still pending: the previous generation could not be reopened
    if p.hasPrev then { s with part := p, disk := d }
    else
      { s with
        part := p
        disk := d
        crdt := s.restored
        opened := s.opened + 1
        changed := s.changed + 1 }
  else { s with part := p, disk := d, changed := s.changed + 1 }

/-- The `Commit` of batch `b` calls `beginWrite`. -/
def entered (b : Nat) : Site ρ :=
  { s with
    callers := s.callers ++ [.called .beginWrite]
    owner := update s.owner s.callers.length (some b) }

variable [DecidableEq ρ]

/-- One step of a partition. A rotation is one goroutine: its calls come after
its `Freeze` has returned. -/
def step (C : Crdt ρ κ ν γ) (s : Site ρ) : SiteAct ρ → Option (Site ρ)
  | .gate a => if s.outside a then (s.fence.step a).map s.withFence else none
  | .put i es =>
    if s.callers[i]? = some .admitted ∧ s.owner i = none then
      some { s with disk := s.disk.setNs s.crdt.gen es }
    else none
  | .freeze =>
    if s.rot = none then
      some { s with callers := s.callers ++ [.called .freeze], rot := some s.callers.length }
    else none
  | .stage seed plan =>
    if s.froze.isSome then
      match Engine.stage C s.part seed plan s.disk with
      | (.ok (p, _), d) =>
        some { s with
          part := p
          disk := d
          stagedDs := ⟨s.part.gen + 1, s.opened⟩
          opened := s.opened + 1 }
      | (.err _, d) => some { s with disk := d }
      | (.crashed, _) => none
    else none
  | .activate waitSeed plan =>
    if s.froze.isSome then
      match Engine.activate s.part waitSeed plan s.disk with
      | (.ok (p, _), d) => some (s.switched waitSeed p d)
      | (.err _, d) => some { s with disk := d }
      | (.crashed, _) => none
    else none
  | .seeded => some (s.withFence { s.fence with gate := s.part.gate.setBlockReads false }.signal)
  | .commit plan =>
    if s.froze.isSome then
      match Engine.commit s.part plan s.disk with
      | (.ok (p, _), d) => some { s with part := p, disk := d }
      | (.err _, d) => some { s with disk := d }
      | (.crashed, _) => none
    else none
  | .rollback plan =>
    if s.froze.isSome then
      match Engine.rollback s.part plan s.disk with
      | (.ok (p, _), d) => some (s.fellBack p d)
      | (.err _, d) => some { s with disk := d }
      | (.crashed, _) => none
    else none
  | .unfreeze =>
    if s.froze.isSome then
      let f := { s.fence with gate := s.part.gate.set false false }.signal.note .unfroze
      some { s.withFence f with rot := none }
    else none

end Site

/-! ## Batches -/

/-- A sub-batch: the datastore it was opened on, and the operations staged. -/
structure SubBatch (ω : Type) where
  c : Handle
  ops : List ω

/-- What `Commit` can return. -/
inductive BatchErr
  | gate (e : GateErr)
  | generationChanged
  | storage (text : String)
  deriving DecidableEq, Repr

/-- Where `Commit` is with its current partition. -/
inductive Spot
  | entering
  /-- In `beginWrite`, as goroutine `i`. -/
  | waiting (i : Nat)
  /-- The datastore was found unchanged. -/
  | checked (i : Nat)
  /-- About to call `endWrite`. -/
  | leaving (i : Nat) (r : Option BatchErr)
  deriving DecidableEq, Repr

/-- The partition `Commit` is at, those it has dealt with and those to come. -/
structure Turn where
  done : List Nat
  idx : Nat
  todo : List Nat
  spot : Spot
  deriving DecidableEq, Repr

/-- How far a batch is. An error comes with the partition it was met at. -/
inductive Progress
  | staging
  | committing (t : Turn)
  | returned (done : List Nat) (e : Option (Nat × BatchErr))
  deriving DecidableEq, Repr

/-- The head of the loop of `Commit`. -/
def Progress.next (done : List Nat) : List Nat → Progress
  | [] => .returned done none
  | idx :: todo => .committing ⟨done, idx, todo, .entering⟩

/-- `multiBatch`. -/
structure Batch (ω : Type) where
  subs : List (Nat × SubBatch ω) := []
  pc : Progress := .staging

namespace Batch

variable {ω : Type}

/-- `sub`, and the operation staged: the sub-batch of the partition, opened on
its active datastore if there is none. The wait for the partition to be readable
ends before the datastore is taken, so it may be taken at any moment. -/
def stageOp (x : Batch ω) (idx : Nat) (active : Handle) (op : ω) : Batch ω :=
  match x.subs.lookup idx with
  | none => { x with subs := x.subs ++ [(idx, ⟨active, [op]⟩)] }
  | some _ =>
    { x with subs := x.subs.map fun e =>
        if e.1 = idx then (e.1, { e.2 with ops := e.2.ops ++ [op] }) else e }

/-- `Commit` is at another spot with its current partition. -/
def goes (x : Batch ω) (t : Turn) (spot : Spot) : Batch ω :=
  { x with pc := .committing { t with spot := spot } }

end Batch

/-- A sub-batch has been applied: to which datastore, which one was active, and
which operations. -/
structure Landing (ω : Type) where
  batch : Nat
  idx : Nat
  into : Handle
  active : Handle
  ops : List ω

/-- The partitions, the batches, and what has been applied, newest first. -/
structure Hub (ρ ω : Type) where
  site : Nat → Site ρ := fun _ => {}
  batches : List (Batch ω) := []
  landed : List (Landing ω) := []

/-- What a `Commit` does next. -/
inductive CommitAct
  | enter
  | refused
  | check
  /-- The sub-batch is committed; the error its `Commit` returns. -/
  | land (fault : Option String)
  | leave
  deriving DecidableEq, Repr

/-- What can happen. -/
inductive HubAct (ρ ω : Type)
  | site (idx : Nat) (a : SiteAct ρ)
  | begin
  | add (b : Nat) (op : ω)
  /-- `Commit` is called; it walks the map of sub-batches in this order. -/
  | commit (b : Nat) (order : List Nat)
  | turn (b : Nat) (a : CommitAct)

namespace Hub

variable {ρ ω κ ν γ : Type}

variable (s : Hub ρ ω)

variable (idx : Nat) (y : Site ρ)

def setSite : Hub ρ ω :=
  { s with site := update s.site idx y }

@[simp] lemma setSite_self :
    (s.setSite idx y).site idx = y := update_self ..

lemma setSite_of_ne {idx j : Nat} (y : Site ρ) (h : j ≠ idx) :
    (s.setSite idx y).site j = s.site j := update_of_ne h ..

def setBatch (b : Nat) (x : Batch ω) : Hub ρ ω :=
  { s with batches := s.batches.set b x }

section

-- what the commit of staged operations makes of a namespace
variable (apply : List ρ → List ω → List ρ)

/-- The partition after the sub-batch is committed: its operations land in the
namespace of the datastore the sub-batch was opened on. -/
def applied (y : Site ρ) (sub : SubBatch ω) : Site ρ :=
  { y with disk := y.disk.setNs sub.c.gen (apply (y.disk.ns sub.c.gen) sub.ops) }

/-- One step of the `Commit` of batch `b`, which is at `t`. -/
def turn (s : Hub ρ ω) (b : Nat) (x : Batch ω) (t : Turn) (sub : SubBatch ω) :
    CommitAct → Option (Hub ρ ω)
  | .enter =>
    match t.spot with
    | .entering =>
      let y := s.site t.idx
      some ((s.setSite t.idx (y.entered b)).setBatch b (x.goes t (.waiting y.callers.length)))
    | _ => none
  | .refused =>
    match t.spot with
    | .waiting i =>
      match (s.site t.idx).callers[i]? with
      | some (.returned (some e)) =>
        some (s.setBatch b { x with pc := .returned t.done (some (t.idx, .gate e)) })
      | _ => none
    | _ => none
  | .check =>
    match t.spot with
    | .waiting i =>
      if (s.site t.idx).callers[i]? = some .admitted then
        -- `same := p.crdt == sb.c`
        if (s.site t.idx).crdt = sub.c then some (s.setBatch b (x.goes t (.checked i)))
        else some (s.setBatch b (x.goes t (.leaving i (some .generationChanged))))
      else none
    | _ => none
  | .land fault =>
    match t.spot with
    | .checked i =>
      match fault with
      | some text => some (s.setBatch b (x.goes t (.leaving i (some (.storage text)))))
      | none =>
        let y := s.site t.idx
        let s' := (s.setSite t.idx (applied apply y sub)).setBatch b (x.goes t (.leaving i none))
        some { s' with landed := ⟨b, t.idx, sub.c, y.crdt, sub.ops⟩ :: s.landed }
    | _ => none
  | .leave =>
    match t.spot with
    | .leaving i r =>
      let y := s.site t.idx
      let pc := match r with
        | none => Progress.next (t.done ++ [t.idx]) t.todo
        | some e => .returned t.done (some (t.idx, e))
      some ((s.setSite t.idx (y.withFence (y.fence.finish i))).setBatch b { x with pc := pc })
    | _ => none

variable [DecidableEq ρ] (C : Crdt ρ κ ν γ) (route : ω → Nat)

/-- One step; `route` is the partition an operation's key belongs to. -/
def step (s : Hub ρ ω) : HubAct ρ ω → Option (Hub ρ ω)
  | .site idx a => ((s.site idx).step C a).map (s.setSite idx)
  | .begin => some { s with batches := s.batches ++ [{}] }
  | .add b op =>
    match s.batches[b]? with
    | none => none
    | some x =>
      match x.pc with
      | .staging => some (s.setBatch b (x.stageOp (route op) (s.site (route op)).crdt op))
      | .committing _ | .returned _ _ => none
  | .commit b order =>
    match s.batches[b]? with
    | none => none
    | some x =>
      if x.pc = .staging ∧ order.Perm (x.subs.map Prod.fst) then
        some (s.setBatch b { x with pc := .next [] order })
      else none
  | .turn b a =>
    match s.batches[b]? with
    | none => none
    | some x =>
      match x.pc with
      | .staging | .returned _ _ => none
      | .committing t =>
        match x.subs.lookup t.idx with
        | none => none
        | some sub => s.turn apply b x t sub a

end

end Hub

/-! ## The discipline of rotations -/

/-- A rotation activates only after its `Freeze` returned without error, and
unfreezes only after `Commit` or `Rollback`. -/
def Site.Disciplined {ρ : Type} (s : Site ρ) : SiteAct ρ → Prop
  | .activate _ _ => s.froze = some none
  | .unfreeze => s.part.hasPrev = false
  | _ => True

/-- Every rotation, on whatever partition, keeps to the discipline. -/
def Disciplined {ρ ω : Type} (s : Hub ρ ω) : HubAct ρ ω → Prop
  | .site idx a => (s.site idx).Disciplined a
  | _ => True

instance {ρ : Type} (s : Site ρ) : (a : SiteAct ρ) → Decidable (s.Disciplined a)
  | .activate _ _ => inferInstanceAs (Decidable (_ = _))
  | .unfreeze => inferInstanceAs (Decidable (_ = _))
  | .gate _ | .put _ _ | .freeze | .stage _ _ | .seeded | .commit _ | .rollback _ =>
    isTrue trivial

instance {ρ ω : Type} (s : Hub ρ ω) : (a : HubAct ρ ω) → Decidable (Disciplined s a)
  | .site idx a => inferInstanceAs (Decidable ((s.site idx).Disciplined a))
  | .begin | .add _ _ | .commit _ _ | .turn _ _ => isTrue trivial

end RedGeo.Engine
