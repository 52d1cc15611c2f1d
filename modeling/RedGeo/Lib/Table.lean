import Mathlib.Data.List.AList
import Mathlib.Data.List.Sort

/-!
# Finite maps kept in the order of their keys

The standard library's extensional tree maps, for keys that are compared
lawfully: two of them with the same entries are equal, and list their entries in
the same order.

* `select t p` — the entries whose keys satisfy `p`; it depends on these only
  (`select_congr`).
* `sorted l` — a list of entries brought into the order of the keys.
-/

namespace RedGeo.Lib

open Function List

abbrev Table (κ ν : Type) [Ord κ] := Std.ExtTreeMap κ ν

namespace Table

variable {κ ν : Type} [Ord κ] [Std.TransOrd κ]

def select (t : Table κ ν) (p : κ → Bool) : List (κ × ν) := t.toList.filter fun e => p e.1

/-- Entries in the order of their keys. -/
def sorted (l : List (κ × ν)) : List (κ × ν) := (Std.ExtTreeMap.ofList l : Table κ ν).toList

/-! ## The order of the entries -/

/-- An entry comes before another. -/
def Before (a b : κ × ν) : Prop := compare a.1 b.1 = .lt

lemma before_irrefl (a : κ × ν) : ¬ Before a a := by
  rw [Before, Std.ReflOrd.compare_self]
  exact nofun

lemma before_asymm {a b : κ × ν} (h : Before a b) : ¬ Before b a := by
  rw [Before, Std.OrientedOrd.eq_swap, h]
  exact nofun

lemma pairwise_select (t : Table κ ν) (p : κ → Bool) : (t.select p).Pairwise Before :=
  t.ordered_keys_toList.filter _

/-- Lists in the order of their keys with the same entries are the same. -/
lemma eq_of_mem_iff {l l' : List (κ × ν)} (hl : l.Pairwise Before) (hl' : l'.Pairwise Before)
    (h : ∀ e, e ∈ l ↔ e ∈ l') : l = l' := by
  have : Std.Irrefl (Before (κ := κ) (ν := ν)) := ⟨before_irrefl⟩
  have : Std.Antisymm (Before (κ := κ) (ν := ν)) := ⟨fun _ _ h h' => absurd h' (before_asymm h)⟩
  exact hl.eq_of_mem_iff hl' h

lemma nodup_of_pairwise {l : List (κ × ν)} (h : l.Pairwise Before) : (l.map Prod.fst).Nodup := by
  rw [nodup_iff_pairwise_ne, pairwise_map]
  refine h.imp ?_
  intro a b hLt hEq
  rw [Before, hEq] at hLt
  exact before_irrefl b hLt

/-! ## Entries by key -/

section

variable [Std.LawfulEqOrd κ]

lemma mem_select {t : Table κ ν} : e ∈ t.select p ↔ t[e.1]? = some e.2 ∧ p e.1 := by
  rw [select, mem_filter, ← Std.ExtTreeMap.mem_toList_iff_getElem?_eq_some]

lemma select_congr {t t' : Table κ ν} (h : ∀ k, p k → t[k]? = t'[k]?) : t.select p = t'.select p := by
  refine eq_of_mem_iff (pairwise_select t p) (pairwise_select t' p) fun e => ?_
  rw [mem_select, mem_select]
  constructor
  · exact fun ⟨hEntry, hp⟩ => ⟨h e.1 hp ▸ hEntry, hp⟩
  · exact fun ⟨hEntry, hp⟩ => ⟨(h e.1 hp).symm ▸ hEntry, hp⟩

variable [DecidableEq κ]

lemma lookup_insert (t : Table κ ν) (k a : κ) (v : ν) :
    (t.insert k v)[a]? = if k = a then some v else t[a]? := by
  rw [Std.ExtTreeMap.getElem?_insert]
  simp only [Std.LawfulEqOrd.compare_eq_iff_eq]

lemma lookup_erase (t : Table κ ν) (k a : κ) : (t.erase k)[a]? = if k = a then none else t[a]? := by
  rw [Std.ExtTreeMap.getElem?_erase]
  simp only [Std.LawfulEqOrd.compare_eq_iff_eq]

lemma mem_sorted (hKeys : (l.map Prod.fst).Nodup) {e : κ × ν} : e ∈ sorted l ↔ e ∈ l := by
  have hDistinct : l.Pairwise fun a b => ¬ compare a.1 b.1 = .eq := by
    rw [nodup_iff_pairwise_ne, pairwise_map] at hKeys
    exact hKeys.imp fun hNe hEq => hNe (Std.LawfulEqOrd.eq_of_compare hEq)
  have hLookup : ∀ v, (e.1, v) ∈ l → (Std.ExtTreeMap.ofList l : Table κ ν)[e.1]? = some v :=
    fun v => Std.ExtTreeMap.getElem?_ofList_of_mem Std.ReflOrd.compare_self hDistinct
  rw [sorted, Std.ExtTreeMap.mem_toList_iff_getElem?_eq_some]
  constructor
  · intro hFound
    -- a key that is found has been listed, and then with this value
    by_cases hKey : e.1 ∈ l.map Prod.fst
    · obtain ⟨e', he', hFst⟩ := mem_map.mp hKey
      have hSame : (e.1, e'.2) ∈ l := by rwa [← hFst]
      rw [hLookup _ hSame, Option.some.injEq] at hFound
      rwa [hFound] at hSame
    · have hNone : (Std.ExtTreeMap.ofList l : Table κ ν)[e.1]? = none :=
        Std.ExtTreeMap.getElem?_ofList_of_contains_eq_false (by simpa using hKey)
      rw [hNone] at hFound
      cases hFound
  · exact hLookup e.2

end

end Table

/-! ## Functions changed in one place -/

/-- The value of an updated function is the new one or an old one. -/
lemma update_cases {α β : Type} [DecidableEq α] {f : α → β} {a a' : α} {b x : β}
    (h : update f a b a' = x) : a' = a ∧ b = x ∨ a' ≠ a ∧ f a' = x := by
  by_cases ha : a' = a
  · subst ha
    exact .inl ⟨rfl, (update_self ..).symm.trans h⟩
  · exact .inr ⟨ha, (update_of_ne ha ..).symm.trans h⟩

lemma mem_update_append {α β : Type} [DecidableEq α] {f : α → List β} {a a' : α} {b x : β}
    (h : x ∈ update f a (f a ++ [b]) a') : x ∈ f a' ∨ a' = a ∧ x = b := by
  rw [update_apply] at h
  split at h
  · next ha =>
    rw [ha]
    exact (mem_append.mp h).imp_right fun hNew => ⟨rfl, mem_singleton.mp hNew⟩
  · exact .inl h

end RedGeo.Lib
