import Mathlib.Data.List.AList
import Mathlib.Data.List.Induction

/-!
# RedGeo — finite maps

Mathlib's association lists without the dependency of the values on the keys.
A finite map is known by its `pairs`, each key of which occurs once; whatever
iterates over one sees a permutation of them.
-/

namespace RedGeo.Lib

open List

abbrev Dict (κ ν : Type) := AList fun _ : κ => ν

namespace Dict

variable {κ ν : Type}

/-- The entries, in the order they are kept in. -/
def pairs (m : Dict κ ν) : List (κ × ν) := m.entries.map fun e => (e.1, e.2)

lemma nodup_pairs (m : Dict κ ν) : (m.pairs.map Prod.fst).Nodup := by
  rw [pairs, map_map]
  exact m.nodupKeys

variable [DecidableEq κ] {m : Dict κ ν} {c : κ × ν} {l : List (κ × ν)}

lemma mem_pairs : (k, v) ∈ m.pairs ↔ m.lookup k = some v := by
  rw [← Option.mem_def, AList.mem_lookup_iff, pairs, mem_map]
  constructor
  · rintro ⟨e, he, hEq⟩
    obtain ⟨rfl, rfl⟩ := Prod.mk.inj hEq
    exact he
  · exact fun h => ⟨_, h, rfl⟩

/-- A key has one entry. -/
lemma eq_of_mem_pairs (hc : c ∈ m.pairs) (hd : d ∈ m.pairs) (h : c.1 = d.1) : c = d := by
  obtain ⟨k, v⟩ := c
  obtain ⟨k', v'⟩ := d
  obtain rfl : k = k' := h
  rw [mem_pairs] at hc hd
  rw [hc, Option.some.injEq] at hd
  rw [hd]

lemma mem_pairs_insert : c ∈ Dict.pairs (m.insert k v) ↔ c = (k, v) ∨ c ∈ m.pairs ∧ c.1 ≠ k := by
  obtain ⟨a, b⟩ := c
  rw [mem_pairs, mem_pairs]
  by_cases h : a = k
  · subst h
    rw [AList.lookup_insert]
    simp [eq_comm]
  · rw [AList.lookup_insert_ne h]
    simp [h]

/-- Assigning each pair in turn. -/
def ofPairs (l : List (κ × ν)) : Dict κ ν := l.foldl (fun m c => m.insert c.1 c.2) ∅

lemma ofPairs_snoc (l : List (κ × ν)) (c : κ × ν) : ofPairs (l ++ [c]) = (ofPairs l).insert c.1 c.2 := by
  rw [ofPairs, foldl_append]
  rfl

/-- Every entry has been assigned. -/
lemma mem_of_mem_ofPairs (h : c ∈ (ofPairs l).pairs) : c ∈ l := by
  induction l using reverseRecOn with
  | nil => cases h
  | append_singleton l d ih =>
    rw [ofPairs_snoc, mem_pairs_insert] at h
    rcases h with rfl | ⟨h, -⟩
    · exact mem_append_right _ (mem_singleton.mpr rfl)
    · exact mem_append_left _ (ih h)

/-- A key that is only ever assigned one value has it. -/
lemma mem_ofPairs (hMem : c ∈ l) (hOnly : ∀ d ∈ l, d.1 = c.1 → d = c) : c ∈ (ofPairs l).pairs := by
  induction l using reverseRecOn with
  | nil => cases hMem
  | append_singleton l d ih =>
    rw [ofPairs_snoc, mem_pairs_insert]
    by_cases hKey : d.1 = c.1
    · exact .inl (hOnly d (mem_append_right _ (mem_singleton.mpr rfl)) hKey).symm
    · have hOld : c ∈ l := (mem_append.mp hMem).resolve_right fun hNew =>
        hKey (congrArg Prod.fst (mem_singleton.mp hNew).symm)
      exact .inr ⟨ih hOld fun e he => hOnly e (mem_append_left _ he), fun hEq => hKey hEq.symm⟩

/-- The last pair stays. -/
lemma exists_mem_ofPairs (h : l ≠ []) : ∃ c, c ∈ (ofPairs l).pairs := by
  obtain ⟨l', d, rfl⟩ := eq_nil_or_concat l |>.resolve_left h
  refine ⟨d, ?_⟩
  rw [concat_eq_append, ofPairs_snoc, mem_pairs_insert]
  exact .inl rfl

/-- No key is assigned two values. -/
lemma mem_ofPairs_iff (hOnly : ∀ c ∈ l, ∀ d ∈ l, c.1 = d.1 → c = d) : c ∈ (ofPairs l).pairs ↔ c ∈ l :=
  ⟨mem_of_mem_ofPairs, fun hMem => mem_ofPairs hMem fun d hd hEq => hOnly d hd c hMem hEq⟩

/-- Looking up a key in the list of the entries. -/
lemma lookup_pairs [BEq κ] [LawfulBEq κ] (m : Dict κ ν) (k : κ) : m.pairs.lookup k = m.lookup k := by
  show (m.entries.map fun e => (e.1, e.2)).lookup k = m.entries.dlookup k
  induction m.entries with
  | nil => rfl
  | cons e l ih =>
    rw [map_cons]
    by_cases hEq : k = e.1
    · subst hEq
      rw [lookup_cons_self, dlookup_cons_eq]
    · rw [lookup_cons, beq_eq_false_iff_ne.mpr hEq, dlookup_cons_ne l e hEq]
      exact ih

end Dict

end RedGeo.Lib
