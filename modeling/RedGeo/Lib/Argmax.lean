import Mathlib.Data.List.MinMax

/-!
# RedGeo — the greatest element of a list

Mathlib's `List.argmax f` takes the first element at which `f` is greatest. Where
`f` tells the elements of the list apart there is only one, and which one it is
depends on the elements alone and not on their order.
-/

namespace RedGeo.Lib

variable {α β : Type} [DecidableEq α] [LinearOrder β] {f : α → β} {l l' : List α}

/-- `f` tells the elements of the list apart. -/
def Separates (f : α → β) (l : List α) : Prop := ∀ a ∈ l, ∀ b ∈ l, f a = f b → a = b

omit [DecidableEq α] [LinearOrder β] in
lemma Separates.mono (h : Separates f l) (hSub : ∀ a ∈ l', a ∈ l) : Separates f l' :=
  fun a ha b hb => h a (hSub a ha) b (hSub b hb)

lemma argmax_eq_some_iff (h : Separates f l) {m : α} : l.argmax f = some m ↔ m ∈ l ∧ ∀ a ∈ l, f a ≤ f m := by
  rw [List.argmax_eq_some_iff]
  constructor
  · exact fun hMax => ⟨hMax.1, hMax.2.1⟩
  · rintro ⟨hMem, hMax⟩
    refine ⟨hMem, hMax, fun a ha hLe => ?_⟩
    obtain rfl : a = m := h a ha m hMem (le_antisymm (hMax a ha) hLe)
    exact le_refl _

/-- **The order of the list does not matter**, nor do repetitions. -/
theorem argmax_congr (h : Separates f l) (hMem : ∀ a, a ∈ l ↔ a ∈ l') : l.argmax f = l'.argmax f := by
  have h' : Separates f l' := h.mono fun a => (hMem a).mpr
  cases hMax : l.argmax f with
  | none =>
    rw [List.argmax_eq_none] at hMax
    subst hMax
    have hNil : l' = [] := List.eq_nil_iff_forall_not_mem.mpr fun a ha =>
      List.not_mem_nil ((hMem a).mpr ha)
    rw [hNil]
    rfl
  | some m =>
    obtain ⟨hIn, hTop⟩ := (argmax_eq_some_iff h).mp hMax
    exact ((argmax_eq_some_iff h').mpr ⟨(hMem m).mp hIn, fun a ha => hTop a ((hMem a).mpr ha)⟩).symm

end RedGeo.Lib
