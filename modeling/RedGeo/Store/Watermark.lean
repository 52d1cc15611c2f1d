import RedGeo.Store.Hlc

/-!
# RedGeo — the watermark

`crdtstore/watermark.go`: the highest stamp seen of each replica, and the cut that
all the expected ones have passed. The expected replicas are a map, walked in any
order: here a list, and `safeCut_least` is about every list of the same replicas.
-/

namespace RedGeo.Store.Watermark

open Lib List Option

/-- `Observe`, of a replica and a stamp of it. -/
def observe (high : Bytes → Option Stamp) (o : Bytes × Stamp) : Bytes → Option Stamp :=
  if (high o.1).all (·.compare o.2 = .lt) then Function.update high o.1 (some o.2) else high

/-- The loop of `SafeCut`; before the first replica there is no cut. -/
def cutFrom (high : Bytes → Option Stamp) : Option Stamp → List Bytes → Option Stamp
  | cut, [] => cut
  | cut, r :: expected =>
    match high r with
    | none => none
    | some s => cutFrom high (if cut.all (s.compare · = .lt) then some s else cut) expected

def safeCut (high : Bytes → Option Stamp) (expected : List Bytes) : Option Stamp :=
  if expected.length = 0 then none else cutFrom high none expected

/-- The marks after some observations, the last one first. -/
def marks (seen : List (Bytes × Stamp)) : Bytes → Option Stamp :=
  seen.foldr (fun o high => observe high o) fun _ => none

variable {expected : List Bytes} {seen : List (Bytes × Stamp)} {r : Bytes} {c cut : Stamp}

lemma less_iff {a b : Stamp} : a.compare b = .lt ↔ a < b := by
  rw [Stamp.compare_eq_cmp, cmp_eq_lt_iff]

/-- The mark of a replica is the highest stamp that was seen of it. -/
lemma marks_eq (seen : List (Bytes × Stamp)) (r : Bytes) :
    marks seen r = ((seen.filter (·.1 = r)).map Prod.snd).max? := by
  induction seen with
  | nil => rfl
  | cons o seen ih =>
    rw [marks, foldr_cons, ← marks, observe]
    simp only [less_iff]
    by_cases hr : o.1 = r
    · subst hr
      rw [filter_cons_of_pos (by simp), map_cons, max?_cons, ← ih]
      cases hCur : marks seen o.1 with
      | none => simp
      | some cur =>
        by_cases hLt : cur < o.2
        · simp [hLt, hLt.le]
        · simp [hLt, hCur, not_lt.mp hLt]
    · rw [filter_cons_of_neg (by simpa using hr), ← ih]
      split
      · rw [Function.update_of_ne (Ne.symm hr)]
      · rfl

lemma marks_eq_some : marks seen r = some c ↔ IsGreatest {s | (r, s) ∈ seen} c := by
  rw [marks_eq, max?_eq_some_iff]
  simp [IsGreatest, upperBounds]

lemma isSome_marks : (marks seen r).isSome ↔ ∃ s, (r, s) ∈ seen := by
  rw [marks_eq, isSome_max?_iff]
  simp [eq_nil_iff_forall_not_mem]

/-- The loop arrives at the lowest mark, if all the replicas have one. -/
lemma cutFrom_eq_some {high : Bytes → Option Stamp} : cutFrom high cut₀ expected = some cut ↔
    (∀ r ∈ expected, (high r).isSome) ∧ (cut₀ = some cut ∨ ∃ r ∈ expected, high r = some cut) ∧
    (∀ s ∈ cut₀, cut ≤ s) ∧ ∀ r ∈ expected, ∀ s ∈ high r, cut ≤ s := by
  induction expected generalizing cut₀ with
  | nil => grind [cutFrom]
  | cons r expected ih =>
    rw [cutFrom]
    cases hHigh : high r with
    | none => simp [hHigh]
    | some s =>
      dsimp only
      rw [ih]
      cases cut₀ with
      | none => simp [hHigh]
      | some c =>
        by_cases hLt : s < c <;> simp [hHigh, less_iff, hLt] <;> grind

lemma isSome_cutFrom (h : ∀ r ∈ expected, (high r).isSome) (hAny : cut₀ = none → expected ≠ []) :
    (cutFrom high cut₀ expected).isSome := by
  induction expected generalizing cut₀ with
  | nil => exact isSome_iff_ne_none.mpr fun hNone => hAny hNone rfl
  | cons r expected ih =>
    obtain ⟨s, hs⟩ := isSome_iff_exists.mp (h r mem_cons_self)
    rw [cutFrom, hs]
    exact ih (fun r hr => h r (mem_cons_of_mem _ hr)) (by grind)

lemma safeCut_eq_some : safeCut (marks seen) expected = some cut ↔ (∀ r ∈ expected, ∃ s, (r, s) ∈ seen) ∧
    IsLeast {m | ∃ r ∈ expected, IsGreatest {s | (r, s) ∈ seen} m} cut := by
  simp only [← isSome_marks, ← marks_eq_some, IsLeast, lowerBounds, Set.mem_ofPred_eq, safeCut]
  split
  · next hNil => simp [length_eq_zero_iff.mp hNil]
  · rw [cutFrom_eq_some]
    simp
    grind

lemma isSome_safeCut (hNe : expected ≠ []) :
    (safeCut (marks seen) expected).isSome ↔ ∀ r ∈ expected, ∃ s, (r, s) ∈ seen := by
  simp only [← isSome_marks]
  rw [safeCut, if_neg (by simpa using hNe)]
  refine ⟨fun h => ?_, fun h => isSome_cutFrom h fun _ => hNe⟩
  obtain ⟨cut, hCut⟩ := isSome_iff_exists.mp h
  exact (cutFrom_eq_some.mp hCut).1

/-- **The cut is the lowest of the highest stamps seen of the expected replicas**,
in whatever order they are walked and were seen; it exists as soon as all were
seen, and does not decrease. -/
theorem safeCut_least (hNe : expected ≠ []) :
    ((safeCut (marks seen) expected).isSome ↔ ∀ r ∈ expected, ∃ s, (r, s) ∈ seen) ∧
    (∀ cut, safeCut (marks seen) expected = some cut →
      IsLeast {m | ∃ r ∈ expected, IsGreatest {s | (r, s) ∈ seen} m} cut) ∧
    (∀ seen' expected', seen'.Perm seen → (∀ r, r ∈ expected' ↔ r ∈ expected) →
      safeCut (marks seen') expected' = safeCut (marks seen) expected) ∧
    ∀ more cut, safeCut (marks seen) expected = some cut →
      ∃ cut', safeCut (marks (more ++ seen)) expected = some cut' ∧ cut ≤ cut' := by
  refine ⟨isSome_safeCut hNe, fun cut h => (safeCut_eq_some.mp h).2, ?_, ?_⟩
  · intro seen' expected' hPerm hSame
    ext cut
    simp only [safeCut_eq_some, hPerm.mem_iff, hSame]
  · intro more cut h
    obtain ⟨hAll, hLeast⟩ := safeCut_eq_some.mp h
    have hMore : ∀ r ∈ expected, ∃ s, (r, s) ∈ more ++ seen :=
      fun r hr => (hAll r hr).imp fun s hs => mem_append_right _ hs
    obtain ⟨cut', hCut'⟩ := isSome_iff_exists.mp ((isSome_safeCut hNe).mpr hMore)
    refine ⟨cut', hCut', ?_⟩
    -- the replica that holds the later cut back had a mark before, and no higher one
    obtain ⟨r, hr, hTop⟩ := (safeCut_eq_some.mp hCut').2.1
    obtain ⟨m, hm⟩ := isSome_iff_exists.mp (isSome_marks.mpr (hAll r hr))
    have hMark := marks_eq_some.mp hm
    exact (hLeast.2 ⟨r, hr, hMark⟩).trans (hTop.2 (mem_append_right _ hMark.1))

theorem safeCut_least_pair : safeCut (marks [([2], ⟨5, 0⟩), ([1], ⟨7, 0⟩)]) [[1], [2]] = some ⟨5, 0⟩ ∧
    ∃ cut, safeCut (marks [([2], ⟨9, 0⟩), ([2], ⟨5, 0⟩), ([1], ⟨7, 0⟩)]) [[1], [2]] = some cut ∧ ⟨5, 0⟩ ≤ cut :=
  ⟨by decide, (safeCut_least (by decide : [[(1 : UInt8)], [2]] ≠ [])).2.2.2 [_] _ (by decide)⟩

end RedGeo.Store.Watermark
