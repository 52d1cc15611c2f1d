import Mathlib.Data.Nat.Find
import Mathlib.Logic.Function.Basic
import Mathlib.Logic.Relation

/-!
# Waiting in circles

Processes hold resources and ask for more. Whoever asks for a resource that is
held waits for its holder, and a circle of processes that wait is a deadlock.

* `asked_cycle_of_waits_cycle` — in such a circle, the resources form a circle as
  well: each is held by somebody who asks for the next.
* `exists_simple_cycle` — a relation with a circle has one that visits nothing twice.
-/

namespace RedGeo.Lib

open Relation Function

section

variable {ι ρ : Type} {holds wants : ι → ρ → Prop}

/-- `i` asks for what `j` holds. -/
def WaitsOn (holds wants : ι → ρ → Prop) (i j : ι) : Prop := ∃ a, wants i a ∧ holds j a

/-- Somebody holds `a` and asks for `b`. -/
def AskedWith (holds wants : ι → ρ → Prop) (a b : ρ) : Prop := ∃ i, holds i a ∧ wants i b

/-- Along a chain of processes that wait, the resources they ask for are a chain. -/
lemma asked_of_waits {i j : ι} (h : TransGen (WaitsOn holds wants) i j) :
    ∃ a b, wants i a ∧ holds j b ∧ ReflTransGen (AskedWith holds wants) a b := by
  induction h with
  | single hWait =>
    obtain ⟨a, hWants, hHolds⟩ := hWait
    exact ⟨a, a, hWants, hHolds, .refl⟩
  | @tail j k _ hWait ih =>
    obtain ⟨a, b, hWants, hHolds, hPath⟩ := ih
    obtain ⟨c, hWants', hHolds'⟩ := hWait
    -- `j` holds `b` and asks for `c`
    exact ⟨a, c, hWants, hHolds', hPath.tail ⟨j, hHolds, hWants'⟩⟩

/-- **A deadlock is a circle of resources.** -/
theorem asked_cycle_of_waits_cycle {i : ι} (h : TransGen (WaitsOn holds wants) i i) :
    ∃ a, TransGen (AskedWith holds wants) a a := by
  obtain ⟨a, b, hWants, hHolds, hPath⟩ := asked_of_waits h
  exact ⟨b, TransGen.head' ⟨i, hHolds, hWants⟩ hPath⟩

end

section

variable {ρ : Type} {r : ρ → ρ → Prop}

/-- A walk of `n` steps, as the sequence of what it visits. -/
structure Walk (r : ρ → ρ → Prop) (n : Nat) (f : Nat → ρ) : Prop where
  step : ∀ i < n, r (f i) (f (i + 1))

lemma exists_walk {a b : ρ} (h : TransGen r a b) : ∃ n f, 0 < n ∧ f 0 = a ∧ f n = b ∧ Walk r n f := by
  induction h with
  | @single b hStep =>
    refine ⟨1, fun i => if i = 0 then a else b, by decide, rfl, rfl, ⟨fun i hi => ?_⟩⟩
    obtain rfl : i = 0 := by omega
    exact hStep
  | @tail b c _ hStep ih =>
    obtain ⟨n, f, hPos, hFirst, hLast, hWalk⟩ := ih
    refine ⟨n + 1, update f (n + 1) c, by omega, ?_, update_self _ _ _, ⟨fun i hi => ?_⟩⟩
    · rw [update_of_ne (by omega), hFirst]
    · rw [update_of_ne (by omega)]
      by_cases hEnd : i = n
      · rw [hEnd, update_self, hLast]
        exact hStep
      · rw [update_of_ne (by omega)]
        exact hWalk.step i (by omega)

/-- A walk from a place back to it. -/
def Closed (r : ρ → ρ → Prop) (n : Nat) : Prop := ∃ f, 0 < n ∧ f n = f 0 ∧ Walk r n f

/-- **A shortest circle visits nothing twice.** -/
theorem exists_simple_cycle {a : ρ} (h : TransGen r a a) :
    ∃ n f, 0 < n ∧ f n = f 0 ∧ Walk r n f ∧ ∀ i < n, ∀ j < n, f i = f j → i = j := by
  have hSome : ∃ n, Closed r n := by
    obtain ⟨n, f, hPos, hFirst, hLast, hWalk⟩ := exists_walk h
    exact ⟨n, f, hPos, by rw [hFirst, hLast], hWalk⟩
  -- the least length of a circle
  classical
  obtain ⟨n, ⟨f, hPos, hBack, hWalk⟩, hLeast⟩ : ∃ n, Closed r n ∧ ∀ m, Closed r m → n ≤ m :=
    ⟨Nat.find hSome, Nat.find_spec hSome, fun m hm => Nat.find_min' hSome hm⟩
  have hNoRepeat : ∀ i < n, ∀ j < n, i < j → f i ≠ f j := by
    intro i _ j hj hLt hEq
    -- what lies between two visits to one place is a shorter circle
    have hShort : Closed r (j - i) := by
      refine ⟨fun k => f (i + k), by omega, ?_, ⟨fun k hk => hWalk.step (i + k) (by omega)⟩⟩
      show f (i + (j - i)) = f (i + 0)
      rw [Nat.add_sub_cancel' (Nat.le_of_lt hLt), Nat.add_zero, hEq]
    have := hLeast _ hShort
    omega
  refine ⟨n, f, hPos, hBack, hWalk, fun i hi j hj hEq => ?_⟩
  rcases Nat.lt_trichotomy i j with hLt | hSame | hGt
  · exact absurd hEq (hNoRepeat i hi j hj hLt)
  · exact hSame
  · exact absurd hEq.symm (hNoRepeat j hj i hi hGt)

end

end RedGeo.Lib
