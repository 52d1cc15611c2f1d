import RedGeo.Lib.Run
import RedGeo.Engine.Partition

/-!
# RedGeo — one replica's partition over time

The partition in memory, its backing store, and everything that can happen to
them: the rotation primitives under any plan of faults, client writes through
the gate, the datastores' own background writes, and crashes with a restart
through `restoreGen`, whose reads may fail as well.

`decided` is a ghost: the generations whose latest round has been decided.
Calling `Commit` decides the active generation; staging a generation opens a
new round for it.
-/

namespace RedGeo.Engine

open Option

/-- Forget the rest of a result. -/
def Outcome.map {α β : Type} (f : α → β) : Outcome α → Outcome β
  | .ok a => .ok (f a)
  | .err e => .err e
  | .crashed => .crashed

/-- A partition, its store, and the decided generations. -/
structure Machine (ρ : Type) where
  part : Partition
  disk : Backing ρ
  decided : List Nat

/-- What can happen. -/
inductive Op (ρ : Type)
  | freeze
  | unfreeze
  | beginWrite
  | write (es : List ρ)
  | background (g : Nat) (es : List ρ)
  | stage (seed : Bool) (plan : Plan)
  | activate (waitSeed : Bool) (plan : Plan)
  | commit (plan : Plan)
  | rollback (plan : Plan)
  | crash (plan : Plan)

namespace Machine

variable {ρ κ ν γ : Type}

/-- A fresh replica of partition `idx`. -/
def init (idx : Nat) : Machine ρ := ⟨{ idx := idx }, {}, [0]⟩

variable (s : Machine ρ)

/-- The machine after a restart over the store `d`. -/
def restart (d : Backing ρ) (f : Plan := .quiet) : Machine ρ :=
  { s with part := restoreGen s.part.idx d f, disk := d }

/-- The machine after a call under `plan`: its result, or a restart if it never
came. -/
def land (plan : Plan) : Outcome Partition × Backing ρ → Machine ρ
  | (.ok p, d) => { s with part := p, disk := d }
  | (.err _, d) => { s with disk := d }
  | (.crashed, d) => s.restart d plan

/-- The generations a datastore is open on and still writes to by itself. -/
def isOpen (g : Nat) : Bool :=
  g == s.part.gen || (s.part.hasPrev && s.part.oldOpen && g == s.part.prevGen)

variable [DecidableEq ρ]

def step (C : Crdt ρ κ ν γ) (s : Machine ρ) : Op ρ → Option (Machine ρ)
  | .freeze => some { s with part := s.part.freeze.1 }
  | .unfreeze => some { s with part := s.part.unfreeze }
  | .beginWrite =>
    s.part.gate.beginWrite.map fun g => { s with part := { s.part with gate := g } }
  | .write es =>
    if 0 < s.part.gate.inflight then
      some { s with
        part := { s.part with gate := s.part.gate.endWrite }
        disk := s.disk.setNs s.part.gen es }
    else none
  | .background g es => if s.isOpen g then some { s with disk := s.disk.setNs g es } else none
  | .stage seed plan =>
    let r := stage C s.part seed plan s.disk
    some (land { s with decided := s.decided.filter (· ≠ s.part.gen + 1) } plan
      (r.1.map Prod.fst, r.2))
  | .activate waitSeed plan =>
    let r := activate s.part waitSeed plan s.disk
    some (s.land plan (r.1.map Prod.fst, r.2))
  | .commit plan =>
    let r := commit s.part plan s.disk
    some (land { s with decided := s.part.gen :: s.decided } plan (r.1.map Prod.fst, r.2))
  | .rollback plan =>
    let r := rollback s.part plan s.disk
    some (s.land plan (r.1.map Prod.fst, r.2))
  | .crash plan => some (s.restart s.disk plan)

omit [DecidableEq ρ] in
/-- The steps between the primitives: of the memory they change at most the
gate, and of the store at most what an open datastore has written. -/
structure Between (s s' : Machine ρ) : Prop where
  part : ∃ gate, s'.part = { s.part with gate := gate }
  disk : s'.disk = s.disk ∨ ∃ g es, s.isOpen g = true ∧ s'.disk = s.disk.setNs g es
  decided : s'.decided = s.decided

end Machine

/-- The events that are no call of a primitive and no crash. -/
inductive Op.Client {ρ : Type} : Op ρ → Prop
  | freeze : Client .freeze
  | unfreeze : Client .unfreeze
  | beginWrite : Client .beginWrite
  | write {es : List ρ} : Client (.write es)
  | background {g : Nat} {es : List ρ} : Client (.background g es)

lemma Machine.between_of_step {ρ κ ν γ : Type} [DecidableEq ρ] {C : Crdt ρ κ ν γ} {s s' : Machine ρ}
    {op : Op ρ} (hOp : op.Client) (h : s.step C op = some s') : s.Between s' := by
  cases hOp with
  | freeze =>
    obtain rfl := some.inj h
    exact ⟨⟨_, rfl⟩, .inl rfl, rfl⟩
  | unfreeze =>
    obtain rfl := some.inj h
    exact ⟨⟨_, rfl⟩, .inl rfl, rfl⟩
  | beginWrite =>
    obtain ⟨g, _, rfl⟩ := map_eq_some_iff.mp h
    exact ⟨⟨_, rfl⟩, .inl rfl, rfl⟩
  | write =>
    -- a client write lands in the active generation
    simp only [step] at h
    split at h
    · obtain rfl := some.inj h
      exact ⟨⟨_, rfl⟩, .inr ⟨_, _, by simp [isOpen], rfl⟩, rfl⟩
    · cases h
  | background =>
    simp only [step] at h
    split at h
    · next hOpen =>
      obtain rfl := some.inj h
      exact ⟨⟨_, rfl⟩, .inr ⟨_, _, hOpen, rfl⟩, rfl⟩
    · cases h

/-! ## What restart reads back -/

section

variable {ρ : Type} (idx : Nat) (d : Backing ρ)

@[simp] lemma restoreGen_gen : (restoreGen idx d).gen = d.gen.getD 0 := by
  unfold restoreGen
  split <;> rfl

@[simp] lemma restoreGen_hasPrev : (restoreGen idx d).hasPrev = d.prev.isSome := by
  unfold restoreGen
  split <;> rename_i h <;> simp_all

@[simp] lemma restoreGen_staged : (restoreGen idx d).staged = none := by
  unfold restoreGen
  split <;> rfl

lemma restoreGen_prevGen (h : d.prev = some q) : (restoreGen idx d).prevGen = q := by
  simp [restoreGen, h]

/-- The reads of a restart under this plan go through. -/
def Plan.Restores (plan : Plan) : Prop := ∀ a text, a = .getGen ∨ a = .getPrev → plan a ≠ .fail text

/-- A restart that can read finds what one without faults finds. -/
lemma Plan.Restores.restoreGen {plan : Plan} (h : plan.Restores) : restoreGen idx d plan = restoreGen idx d := by
  have hFound : ∀ a n, a = .getGen ∨ a = .getPrev → plan.found a n = n := by
    intro a n ha
    unfold found
    split
    · next text hFail => exact absurd hFail (h a text ha)
    · rfl
  simp [Engine.restoreGen, hFound]

lemma Plan.Restores.land {plan : Plan} (h : plan.Restores) (s : Machine ρ) :
    s.land plan r = s.land .quiet r := by
  rcases r with ⟨_ | _ | _, d⟩
  · rfl
  · rfl
  · rw [Machine.land, Machine.restart, h.restoreGen]
    rfl

end

end RedGeo.Engine
