import Mathlib.Data.List.Lattice

/-!
# RedGeo — the backing store

What one partition keeps in the shared backing datastore, and the monad the
rotation primitives of `engine/rotation.go` run in.

* `Backing` — the persisted generation (`genKey`), the pending previous
  generation (`prevKey`), and for every generation the raw entries below its
  namespace `nsFor gen`. The two metadata values are written with
  `strconv.Itoa` and read with `strconv.Atoi` and by nothing else, so the
  numbers stand for the texts.
* `Access` — the accesses a primitive makes, by name: no primitive makes the
  same one twice.
* `Plan` — for every access, whether it goes through, returns a storage error,
  or is the point where the process dies.
* `BackM` — a computation against the store under a plan.
-/

namespace RedGeo.Engine

/-! ## Errors and faults -/

/-- The errors of the rotation primitives. -/
inductive EngineErr
  | storage (text : String)
  | stage (idx : Nat) (text : String)
  | reopen (gen : Nat) (text : String)
  | inProgress
  | nothingStaged
  deriving DecidableEq, Repr

/-- `err.Error()`. -/
def EngineErr.error : EngineErr → String
  | .storage text => text
  | .stage idx text => s!"engine: stage partition {idx}: {text}"
  | .reopen gen text => s!"engine: reopen generation {gen}: {text}"
  | .inProgress => "engine: rotation already in progress"
  | .nothingStaged => "engine: nothing staged"

/-- What becomes of one access to the backing store. -/
inductive Fault
  | ok
  | fail (text : String)
  | crash
  deriving DecidableEq, Repr

/-- The accesses of a primitive, and the two reads of a restart. -/
inductive Access
  | openNs
  | query
  | openBatch
  | result (i : Nat)
  | put (i : Nat)
  | putGen
  | putPrev
  | deletePrev
  | purgeQuery
  | purgeDelete (i : Nat)
  | getGen
  | getPrev
  deriving DecidableEq, Repr

/-- The faults of one call. -/
def Plan : Type := Access → Fault

/-- No fault. -/
def Plan.quiet : Plan := fun _ => .ok

@[simp] lemma Plan.quiet_apply (a : Access) : Plan.quiet a = .ok := rfl

/-- The process dies at one access; what comes before it goes through. -/
def Plan.crashAt (a : Access) : Plan := fun b => if b = a then .crash else .ok

/-! ## The store -/

/-- The backing store of one partition; `ρ` is the type of raw namespace
entries. -/
structure Backing (ρ : Type) where
  gen : Option Nat := none
  prev : Option Nat := none
  ns : Nat → List ρ := fun _ => []

namespace Backing

variable {ρ : Type} (d : Backing ρ) (g : Nat) (es : List ρ)

/-- Replace the entries below one namespace. -/
def setNs (d : Backing ρ) (g : Nat) (es : List ρ) : Backing ρ :=
  { d with ns := Function.update d.ns g es }

@[simp] lemma setNs_ns_self : (d.setNs g es).ns g = es := by
  simp [setNs]

lemma setNs_ns_ne {g i : Nat} (h : i ≠ g) : (d.setNs g es).ns i = d.ns i := by
  simp [setNs, h]

@[simp] lemma setNs_same : d.setNs g (d.ns g) = d := by
  simp [setNs]

@[simp] lemma setNs_setNs (es' : List ρ) : (d.setNs g es).setNs g es' = d.setNs g es' := by
  simp [setNs]

end Backing

/-! ## Computations against the store -/

/-- How a computation ended: with a value, with an error, or not at all. -/
inductive Outcome (α : Type)
  | ok (a : α)
  | err (e : EngineErr)
  | crashed

/-- A computation against the backing store. -/
def BackM (ρ α : Type) : Type := Plan → Backing ρ → Outcome α × Backing ρ

namespace BackM

variable {ρ α β : Type}

instance : Monad (BackM ρ) where
  pure a := fun _ d => (.ok a, d)
  bind x f := fun plan d =>
    match x plan d with
    | (.ok a, d') => f a plan d'
    | (.err e, d') => (.err e, d')
    | (.crashed, d') => (.crashed, d')

variable {plan : Plan} {d d' : Backing ρ} {x : BackM ρ α} {f : α → BackM ρ β} {a : Access} {o : Outcome β}

@[simp] lemma pure_apply (a : α) (plan : Plan) (d : Backing ρ) :
    (pure a : BackM ρ α) plan d = (.ok a, d) := rfl

lemma bind_apply : (x >>= f) plan d =
    match x plan d with
    | (.ok a, d') => f a plan d'
    | (.err e, d') => (.err e, d')
    | (.crashed, d') => (.crashed, d') := rfl

lemma bind_ok {a : α} (h : x plan d = (.ok a, d')) : (x >>= f) plan d = f a plan d' := by
  rw [bind_apply, h]

lemma bind_crashed (f : α → BackM ρ β) (h : x plan d = (.crashed, d')) :
    (x >>= f) plan d = (.crashed, d') := by
  rw [bind_apply, h]

/-- What a sequence can do: go through its first part, or end there. -/
lemma bind_cases (h : (x >>= f) plan d = (o, d')) : (∃ a d₁, x plan d = (.ok a, d₁) ∧ f a plan d₁ = (o, d')) ∨
    (∃ e, x plan d = (.err e, d') ∧ o = .err e) ∨ (x plan d = (.crashed, d') ∧ o = .crashed) := by
  rw [bind_apply] at h
  rcases hx : x plan d with ⟨o₁, d₁⟩
  rw [hx] at h
  cases o₁ with
  | ok a => exact .inl ⟨a, d₁, rfl, h⟩
  | err e =>
    obtain ⟨rfl, rfl⟩ := Prod.mk.inj h
    exact .inr (.inl ⟨e, rfl, rfl⟩)
  | crashed =>
    obtain ⟨rfl, rfl⟩ := Prod.mk.inj h
    exact .inr (.inr ⟨rfl, rfl⟩)

/-- Return an error. -/
def throw (e : EngineErr) : BackM ρ α := fun _ d => (.err e, d)

/-- Take an error as a value, as Go code does; a crash is not a value. -/
def attempt (x : BackM ρ α) : BackM ρ (Except EngineErr α) := fun plan d =>
  match x plan d with
  | (.ok a, d') => (.ok (.ok a), d')
  | (.err e, d') => (.ok (.error e), d')
  | (.crashed, d') => (.crashed, d')

lemma attempt_ok {a : α} (h : x plan d = (.ok a, d')) : attempt x plan d = (.ok (.ok a), d') := by
  simp [attempt, h]

/-- An attempt ends where the computation ends, and never in an error. -/
lemma attempt_cases {o : Outcome (Except EngineErr α)} (h : attempt x plan d = (o, d')) :
    (∃ a, x plan d = (.ok a, d') ∧ o = .ok (.ok a)) ∨ (∃ e, x plan d = (.err e, d') ∧ o = .ok (.error e)) ∨
    (x plan d = (.crashed, d') ∧ o = .crashed) := by
  unfold attempt at h
  rcases hx : x plan d with ⟨o₁, d₁⟩
  rw [hx] at h
  cases o₁ <;> obtain ⟨rfl, rfl⟩ := Prod.mk.inj h <;> simp

/-- A sequence after an attempt: the computation died, or its end, good or bad,
is the value the rest goes on with. -/
lemma bind_attempt_cases {f : Except EngineErr α → BackM ρ β}
    (h : (attempt x >>= f) plan d = (o, d')) :
    (∃ r o₁ d₁, x plan d = (o₁, d₁) ∧ o₁ ≠ .crashed ∧ attempt x plan d = (.ok r, d₁) ∧
      f r plan d₁ = (o, d')) ∨ (x plan d = (.crashed, d') ∧ o = .crashed) := by
  rcases bind_cases h with ⟨r, d₁, ha, h⟩ | ⟨e, ha, _⟩ | ⟨ha, ho⟩
  · rcases attempt_cases ha with ⟨_, hx, _⟩ | ⟨_, hx, _⟩ | ⟨_, hc⟩
    · exact .inl ⟨r, _, d₁, hx, by simp, ha, h⟩
    · exact .inl ⟨r, _, d₁, hx, by simp, ha, h⟩
    · cases hc
  · -- an attempt returns no error
    rcases attempt_cases ha with ⟨_, _, hc⟩ | ⟨_, _, hc⟩ | ⟨_, hc⟩ <;> cases hc
  · rcases attempt_cases ha with ⟨_, _, hc⟩ | ⟨_, _, hc⟩ | ⟨hx, _⟩
    · cases hc
    · cases hc
    · exact .inr ⟨hx, ho⟩

/-- Wrap the text of an error (`fmt.Errorf("…: %w", err)`). -/
def wrap (f : String → EngineErr) (x : BackM ρ α) : BackM ρ α := fun plan d =>
  match x plan d with
  | (.err e, d') => (.err (f e.error), d')
  | r => r

lemma wrap_ok {f : String → EngineErr} {a : α} (h : x plan d = (.ok a, d')) :
    wrap f x plan d = (.ok a, d') := by
  simp [wrap, h]

/-- One access that changes the store by `f`. -/
def write (a : Access) (f : Backing ρ → Backing ρ) : BackM ρ Unit := fun plan d =>
  match plan a with
  | .ok => (.ok (), f d)
  | .fail text => (.err (.storage text), d)
  | .crash => (.crashed, d)

/-- One access that only reads. -/
def touch (a : Access) : BackM ρ Unit := write a id

/-- The entries below a namespace. -/
def entries (g : Nat) : BackM ρ (List ρ) := fun _ d => (.ok (d.ns g), d)

@[simp] lemma entries_apply (g : Nat) (plan : Plan) (d : Backing ρ) :
    (entries g : BackM ρ (List ρ)) plan d = (.ok (d.ns g), d) := rfl

lemma write_ok (f : Backing ρ → Backing ρ) (h : plan a = .ok) (d : Backing ρ) :
    write a f plan d = (.ok (), f d) := by
  simp [write, h]

lemma touch_ok (h : plan a = .ok) (d : Backing ρ) :
    touch a plan d = (.ok (), d) := write_ok id h d

/-- The computation leaves the store as it is. -/
def Reads (x : BackM ρ α) : Prop := ∀ ⦃plan d o d'⦄, x plan d = (o, d') → d' = d

/-- What a sequence that begins with a read can do. -/
lemma Reads.bind_cases (hx : Reads x) (h : (x >>= f) plan d = (o, d')) :
    (∃ a, x plan d = (.ok a, d) ∧ f a plan d = (o, d')) ∨ (d' = d ∧ (∀ b, o ≠ .ok b) ∧
      ((∃ e, x plan d = (.err e, d) ∧ o = .err e) ∨ (x plan d = (.crashed, d) ∧ o = .crashed))) := by
  rcases BackM.bind_cases h with ⟨a, d₁, h₁, hRest⟩ | ⟨e, h₁, rfl⟩ | ⟨h₁, rfl⟩
  · have hd : d₁ = d := hx h₁
    exact .inl ⟨a, hd ▸ h₁, hd ▸ hRest⟩
  · have hd : d' = d := hx h₁
    exact .inr ⟨hd, by simp, .inl ⟨e, hd ▸ h₁, rfl⟩⟩
  · have hd : d' = d := hx h₁
    exact .inr ⟨hd, by simp, .inr ⟨hd ▸ h₁, rfl⟩⟩

lemma Reads.bind (hx : Reads x) (hf : ∀ a, Reads (f a)) : Reads (x >>= f) := by
  intro plan d o d' h
  rcases hx.bind_cases h with ⟨a, _, hRest⟩ | ⟨hd, _⟩
  · exact hf a hRest
  · exact hd

lemma Reads.wrap (g : String → EngineErr) (hx : Reads x) : Reads (wrap g x) := by
  intro plan d o d' h
  unfold BackM.wrap at h
  split at h
  · rename_i he
    exact (Prod.mk.inj h).2 ▸ hx he
  · exact hx h

lemma reads_pure (a : α) : Reads (pure a : BackM ρ α) := by
  intro plan d o d' h
  exact (Prod.mk.inj h).2.symm

/-- Everything an access can do. -/
lemma write_cases {f : Backing ρ → Backing ρ} {o : Outcome Unit} (h : write a f plan d = (o, d')) :
    (plan a = .ok ∧ o = .ok () ∧ d' = f d) ∨
    ((∃ text, plan a = .fail text ∧ o = .err (.storage text)) ∧ d' = d) ∨
    (plan a = .crash ∧ o = .crashed ∧ d' = d) := by
  unfold write at h
  split at h <;> rename_i hp <;> obtain ⟨rfl, rfl⟩ := Prod.mk.inj h <;> simp [hp]

lemma reads_touch (a : Access) : Reads (touch a : BackM ρ Unit) := by
  intro plan d o d' h
  rcases write_cases h with ⟨_, _, rfl⟩ | ⟨_, rfl⟩ | ⟨_, _, rfl⟩ <;> rfl

end BackM

/-! ## The keys the engine writes -/

section

variable {ρ : Type}

open BackM

/-- `backing.Put(genKey)`. -/
def putGen (n : Nat) : BackM ρ Unit := write .putGen fun d => { d with gen := some n }

/-- `backing.Put(prevKey)`. -/
def putPrev (n : Nat) : BackM ρ Unit := write .putPrev fun d => { d with prev := some n }

/-- `backing.Delete(prevKey)`. -/
def deletePrev : BackM ρ Unit := write .deletePrev fun d => { d with prev := none }

/-- Put raw entries below a namespace one after the other, counting from `i`;
the first error ends it. -/
def putEntries (g : Nat) : Nat → List ρ → BackM ρ Unit
  | _, [] => pure ()
  | i, e :: es => do
    write (.put i) fun d => d.setNs g (d.ns g ++ [e])
    putEntries g (i + 1) es

variable [DecidableEq ρ]

/-- The deletes of `purgeNamespace`; a failed one is skipped
(`_ = e.backing.Delete(…)`). -/
def deleteEntries (g : Nat) : Nat → List ρ → BackM ρ Unit
  | _, [] => pure ()
  | i, e :: es => do
    let _ ← attempt (write (.purgeDelete i) fun d => d.setNs g ((d.ns g).erase e))
    deleteEntries g (i + 1) es

/-- `purgeNamespace`: query the keys below the namespace, delete each. -/
def purgeNamespace (g : Nat) : BackM ρ Unit := do
  touch .purgeQuery
  let es ← entries g
  deleteEntries g 0 es

end

/-! ## What these computations change -/

section

variable {ρ : Type} {d d' : Backing ρ} (g i : Nat) (es : List ρ)

open BackM

/-- `d'` differs from `d` at most in the entries below `g`. -/
structure SameBut (g : Nat) (d d' : Backing ρ) : Prop where
  gen : d'.gen = d.gen
  prev : d'.prev = d.prev
  ns : ∀ i, i ≠ g → d'.ns i = d.ns i

lemma SameBut.refl (d : Backing ρ) : SameBut g d d := ⟨rfl, rfl, fun _ _ => rfl⟩

lemma SameBut.trans {g : Nat} (h : SameBut g d d') (h' : SameBut g d' d'') : SameBut g d d'' :=
  ⟨h'.gen.trans h.gen, h'.prev.trans h.prev, fun i hi => (h'.ns i hi).trans (h.ns i hi)⟩

lemma SameBut.setNs (d : Backing ρ) (es : List ρ) : SameBut g d (d.setNs g es) :=
  ⟨rfl, rfl, fun _ hi => Backing.setNs_ns_ne d es hi⟩

lemma write_sameBut {g : Nat} {a : Access} {es : Backing ρ → List ρ}
    (h : write a (fun d => d.setNs g (es d)) plan d = (o, d')) : SameBut g d d' := by
  rcases write_cases h with ⟨_, _, rfl⟩ | ⟨_, rfl⟩ | ⟨_, _, rfl⟩
  · exact .setNs g d _
  · exact .refl g _
  · exact .refl g _

/-- Putting entries below `g` changes nothing else, whatever goes wrong. -/
lemma putEntries_sameBut (h : putEntries g i es plan d = (o, d')) : SameBut g d d' := by
  induction es generalizing i d with
  | nil => exact (Prod.mk.inj h).2 ▸ .refl g d
  | cons e es ih =>
    -- the first put goes through and the others follow, or it is the last one
    rcases bind_cases h with ⟨_, d₁, hw, h⟩ | ⟨_, hw, _⟩ | ⟨hw, _⟩
    · exact (write_sameBut hw).trans (ih _ h)
    · exact write_sameBut hw
    · exact write_sameBut hw

/-- If every put goes through, every entry is there. -/
lemma putEntries_ok (d : Backing ρ) (h : ∀ j, i ≤ j → j < i + es.length → plan (.put j) = .ok) :
    putEntries g i es plan d = (.ok (), d.setNs g (d.ns g ++ es)) := by
  induction es generalizing i d with
  | nil => simp [putEntries]
  | cons e es ih =>
    have h0 : plan (.put i) = .ok := h i (Nat.le_refl i) (by simp)
    rw [putEntries, bind_ok (write_ok _ h0 d), ih]
    · simp
    · intro j hj hlt
      exact h j (by omega) (by simp only [List.length_cons]; omega)

/-- A commit that ended well has put every entry. -/
lemma putEntries_done (h : putEntries g i es plan d = (.ok (), d')) : d' = d.setNs g (d.ns g ++ es) := by
  induction es generalizing i d with
  | nil =>
    rw [← (Prod.mk.inj h).2]
    simp
  | cons e es ih =>
    rcases bind_cases h with ⟨_, d₁, hw, h⟩ | ⟨_, _, hErr⟩ | ⟨_, hErr⟩
    · rcases write_cases hw with ⟨_, _, rfl⟩ | ⟨⟨_, _, hErr⟩, _⟩ | ⟨_, hErr, _⟩
      · rw [ih _ h]
        simp
      · exact absurd hErr (by simp)
      · exact absurd hErr (by simp)
    · exact absurd hErr (by simp)
    · exact absurd hErr (by simp)

variable [DecidableEq ρ] (g : Nat)

variable (i : Nat) (es : List ρ)

/-- Deleting entries below `g` changes nothing else. -/
lemma deleteEntries_sameBut (h : deleteEntries g i es plan d = (o, d')) : SameBut g d d' := by
  induction es generalizing i d with
  | nil => exact (Prod.mk.inj h).2 ▸ .refl g d
  | cons e es ih =>
    rcases bind_attempt_cases h with ⟨_, _, d₁, hw, _, _, h⟩ | ⟨hw, _⟩
    · -- a delete that fails is skipped, and the loop goes on
      exact (write_sameBut hw).trans (ih _ h)
    · exact write_sameBut hw

/-- A purge changes only its own namespace, whatever goes wrong. -/
lemma purgeNamespace_sameBut (h : purgeNamespace g plan d = (o, d')) : SameBut g d d' := by
  rcases (reads_touch _).bind_cases h with ⟨_, _, hDel⟩ | ⟨rfl, _⟩
  · exact deleteEntries_sameBut g 0 _ hDel
  · exact .refl g _

/-- A purge of an empty namespace leaves it empty. -/
lemma purgeNamespace_empty (hEmpty : d.ns g = []) (h : purgeNamespace g plan d = (o, d')) : d'.ns g = [] := by
  rcases (reads_touch _).bind_cases h with ⟨_, _, hDel⟩ | ⟨rfl, _⟩
  · rw [bind_ok (entries_apply g plan _), hEmpty] at hDel
    rw [← (Prod.mk.inj hDel).2, hEmpty]
  · exact hEmpty

private lemma diff_self_eq_nil (l : List ρ) : l.diff l = [] := by
  induction l with
  | nil => rfl
  | cons e l ih => rw [List.diff_cons, List.erase_cons_head, ih]

lemma deleteEntries_ok (d : Backing ρ) (h : ∀ j, plan (.purgeDelete j) = .ok) :
    deleteEntries g i es plan d = (.ok (), d.setNs g ((d.ns g).diff es)) := by
  induction es generalizing i d with
  | nil => simp [deleteEntries]
  | cons e es ih =>
    rw [deleteEntries, bind_ok (attempt_ok (write_ok _ (h i) d)), ih]
    simp [List.diff_cons]

/-- If every access of a purge goes through, nothing is left below the
namespace. -/
lemma purgeNamespace_ok (d : Backing ρ) (hq : plan .purgeQuery = .ok) (h : ∀ j, plan (.purgeDelete j) = .ok) :
    purgeNamespace g plan d = (.ok (), d.setNs g []) := by
  rw [purgeNamespace, bind_ok (touch_ok hq d), bind_ok (entries_apply g plan d),
    -- what is left is the list with each of its own elements taken out
    deleteEntries_ok g 0 _ d h, diff_self_eq_nil]

end

end RedGeo.Engine
