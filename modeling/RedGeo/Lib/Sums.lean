import Mathlib.Algebra.Order.BigOperators.Group.Finset
import Mathlib.Algebra.Ring.Int.Defs
import Mathlib.Data.Finset.Option

/-!
# Sums over lists and families

A list can enumerate a family: it has no repetitions, and its members are what some
indices out of a finite set have, different indices having different members. Whatever
order it is in, sums over it are sums over the indices.

* `Enumerates.sum_map` — these sums.
* `sumOf` — sums of machine integers, without wrapping around.
-/

namespace RedGeo.Lib

open Finset List Int64

variable {ι α : Type} {M : Type} [AddCommMonoid M] {S : Finset ι} {l : List Int64}

/-- `l` has, in some order, what the indices in `S` have. -/
structure Enumerates (S : Finset ι) (e : ι → Option α) (l : List α) : Prop where
  nodup : l.Nodup
  mem_iff : ∀ a, a ∈ l ↔ ∃ i ∈ S, e i = some a
  inj : ∀ i ∈ S, ∀ j ∈ S, ∀ a, e i = some a → e j = some a → i = j

lemma Enumerates.sum_map {l : List α} (h : Enumerates S e l) (g : α → M) :
    (l.map g).sum = ∑ i ∈ S, (e i).elim 0 g := by
  classical
  have hUnion : l.toFinset = S.biUnion fun i => (e i).toFinset := by
    ext a
    rw [mem_toFinset, h.mem_iff, mem_biUnion]
    simp only [Option.mem_toFinset, Option.mem_def]
  have hDisjoint : (S : Set ι).PairwiseDisjoint fun i => (e i).toFinset := by
    intro i hi j hj hNe
    refine disjoint_left.mpr fun a ha ha' => hNe ?_
    exact h.inj i hi j hj a (Option.mem_toFinset.mp ha) (Option.mem_toFinset.mp ha')
  rw [← sum_toFinset g h.nodup, hUnion, sum_biUnion hDisjoint]
  refine sum_congr rfl fun i _ => ?_
  cases e i with
  | none => rfl
  | some a => simp

/-- One member of a sum changes. -/
lemma sum_change [DecidableEq ι] {f g : ι → Int} (hi : i ∈ S) (h : ∀ j, j ≠ i → f j = g j) :
    ∑ j ∈ S, f j = ∑ j ∈ S, g j + (f i - g i) := by
  have hRest : ∑ j ∈ S.erase i, f j = ∑ j ∈ S.erase i, g j :=
    sum_congr rfl fun j hj => h j (ne_of_mem_erase hj)
  rw [← add_sum_erase S f hi, ← add_sum_erase S g hi, hRest]
  omega

/-! ## Machine integers -/

/-- The sum of some numbers. -/
def sumOf (l : List Int64) : Int := (l.map Int64.toInt).sum

@[simp] lemma sumOf_nil : sumOf [] = 0 := rfl

@[simp] lemma sumOf_cons (n : Int64) (l : List Int64) : sumOf (n :: l) = n.toInt + sumOf l := by
  rw [sumOf, List.map_cons, List.sum_cons]
  rfl

@[simp] lemma sumOf_append (l l' : List Int64) : sumOf (l ++ l') = sumOf l + sumOf l' := by
  rw [sumOf, map_append, sum_append]
  rfl

lemma sumOf_nonneg (h : ∀ n ∈ l, 0 < n) : 0 ≤ sumOf l := by
  refine sum_nonneg fun x hx => ?_
  obtain ⟨n, hn, rfl⟩ := mem_map.mp hx
  exact (lt_iff_toInt_lt.mp (h n hn)).le

lemma sumOf_take_le (h : ∀ n ∈ l, 0 < n) (i : Nat) : sumOf (l.take i) ≤ sumOf l := by
  have hSplit := sumOf_append (l.take i) (l.drop i)
  have hRest : 0 ≤ sumOf (l.drop i) := sumOf_nonneg fun n hn => h n (mem_of_mem_drop hn)
  rw [take_append_drop] at hSplit
  omega

lemma le_sumOf_of_mem (h : ∀ n ∈ l, 0 < n) (hn : n ∈ l) : n.toInt ≤ sumOf l := by
  obtain ⟨before, after, rfl⟩ := append_of_mem hn
  have hBefore : 0 ≤ sumOf before := sumOf_nonneg fun m hm => h m (mem_append_left _ hm)
  have hAfter : 0 ≤ sumOf after := sumOf_nonneg fun m hm => h m (mem_append_right _ (mem_cons_of_mem n hm))
  rw [sumOf_append, sumOf_cons]
  omega

/-- Sums modulo 2^64. -/
lemma ofInt_sum_congr {f g : ι → Int} (h : ∀ i ∈ S, ofInt (f i) = ofInt (g i)) :
    ofInt (∑ i ∈ S, f i) = ofInt (∑ i ∈ S, g i) := by
  classical
  induction S using Finset.induction_on with
  | empty => rfl
  | insert i S hi ih =>
    rw [sum_insert hi, sum_insert hi, ofInt_add, ofInt_add,
      h i (mem_insert_self i S), ih fun j hj => h j (mem_insert_of_mem hj)]

end RedGeo.Lib
