import Mathlib.Data.List.Basic

/-!
# What is seen after each step

A list of steps, and what some function makes of the steps so far, after each of them.
-/

namespace RedGeo.Lib

open List

variable {α β : Type} (f : List α → β)

variable (l : List α)

/-- What `f` makes of the first step, of the first two, and so on. -/
def afterEach : List β := (List.range l.length).map fun i => f (l.take (i + 1))

@[simp] lemma length_afterEach : (afterEach f l).length = l.length := by
  rw [afterEach, length_map, length_range]

lemma afterEach_concat (a : α) : afterEach f (l ++ [a]) = afterEach f l ++ [f (l ++ [a])] := by
  rw [afterEach, length_append, length_singleton, range_succ, map_append]
  congr 1
  · refine map_congr_left fun i hi => ?_
    have hLt := mem_range.mp hi
    rw [take_append_of_le_length (by omega)]
  · rw [map_singleton, take_of_length_le (by simp)]

/-- What is seen at some point. -/
lemma getLast?_take_afterEach {l : List α} {i : Nat} (hLe : i ≤ l.length) :
    ((afterEach f l).take i).getLast? = if i = 0 then none else some (f (l.take i)) := by
  cases i with
  | zero => rfl
  | succ i =>
    rw [if_neg (Nat.succ_ne_zero i), getLast?_eq_getElem?, length_take, length_afterEach,
      Nat.min_eq_left hLe, Nat.add_sub_cancel, getElem?_take_of_lt (Nat.lt_succ_self i), afterEach,
      getElem?_map, getElem?_range hLe]
    rfl

end RedGeo.Lib
