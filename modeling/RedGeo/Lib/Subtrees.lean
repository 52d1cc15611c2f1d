import RedGeo.Lib.Table

/-!
# Tables keyed by paths

Tables whose keys are lists of segments, seen as trees: what stands strictly below a path,
changes made there, and the removal of all of it.

* `subtree t p` — what is strictly below `p`, by the rest of the path.
* `graft t p cs` — changes of what is strictly below `p`; elsewhere nothing changes
  (`lookup_graft_of_not`), and there they are the changes of the subtree (`subtree_graft`).
* `prune t p` — a query for the keys strictly below `p`, each of which is then erased.
-/

namespace RedGeo.Lib

open List

/-- `k` is strictly below `p`. -/
def Beneath {α : Type} (p k : List α) : Prop := p <+: k ∧ k ≠ p

instance {α : Type} [DecidableEq α] (p k : List α) : Decidable (Beneath p k) :=
  inferInstanceAs (Decidable (_ ∧ _))

lemma beneath_iff {α : Type} {p k : List α} : Beneath p k ↔ ∃ rest, rest ≠ [] ∧ k = p ++ rest := by
  constructor
  · rintro ⟨⟨rest, rfl⟩, hNe⟩
    exact ⟨rest, by simpa using hNe, rfl⟩
  · rintro ⟨rest, hRest, rfl⟩
    exact ⟨prefix_append _ _, by simpa using hRest⟩

/-- What is below two paths of one length is below one path. -/
lemma Beneath.eq_of_length {α : Type} {p q k : List α} (hp : Beneath p k) (hq : Beneath q k)
    (hLen : p.length = q.length) : p = q :=
  (prefix_of_prefix_length_le hp.1 hq.1 hLen.le).eq_of_length hLen

namespace Table

variable {α ν : Type} [Ord α] [Std.TransOrd α] [Std.LawfulEqOrd α] [DecidableEq α]
    (t : Table (List α) ν) (p : List α)

/-- A change: a key gets a value, or is removed. -/
abbrev Change (α ν : Type) := List α × Option ν

def change (t : Table (List α) ν) (c : Change α ν) : Table (List α) ν :=
  match c.2 with
  | some v => t.insert c.1 v
  | none => t.erase c.1

section

variable (t : Table (List α) ν) (p : List α)

/-- What is strictly below a path, by the rest of the path. -/
def subtree : Table (List α) ν :=
  Std.ExtTreeMap.ofList ((t.select fun k => Beneath p k).map fun e => (e.1.drop p.length, e.2))

/-- Changes of what is strictly below a path. -/
def graft (cs : List (Change α ν)) : Table (List α) ν :=
  (cs.filter fun c => c.1 ≠ []).foldl (fun t c => t.change (p ++ c.1, c.2)) t

/-- Everything strictly below a path is erased, key by key. -/
def prune : Table (List α) ν :=
  (t.select fun k => Beneath p k).foldl (fun t e => t.erase e.1) t

end

lemma lookup_change (c : Change α ν) (k : List α) : (t.change c)[k]? = if c.1 = k then c.2 else t[k]? := by
  obtain ⟨key, v | v⟩ := c
  · exact lookup_erase t key k
  · exact lookup_insert t key k v

lemma lookup_subtree (k : List α) : (t.subtree p)[k]? = if k = [] then none else t[p ++ k]? := by
  let below := (t.select fun k => Beneath p k).map fun e => (e.1.drop p.length, e.2)
  have hMem : ∀ v, (k, v) ∈ below ↔ k ≠ [] ∧ t[p ++ k]? = some v := by
    intro v
    rw [mem_map]
    constructor
    · rintro ⟨⟨key, v'⟩, he, hEq⟩
      obtain ⟨hEntry, hBeneath⟩ := mem_select.mp he
      obtain ⟨rest, hRest, rfl⟩ := beneath_iff.mp (of_decide_eq_true hBeneath)
      rw [drop_left] at hEq
      cases hEq
      exact ⟨hRest, hEntry⟩
    · rintro ⟨hk, hEntry⟩
      have hBeneath : Beneath p (p ++ k) := beneath_iff.mpr ⟨k, hk, rfl⟩
      refine ⟨(p ++ k, v), mem_select.mpr ⟨hEntry, decide_eq_true hBeneath⟩, ?_⟩
      rw [drop_left]
  -- the rests of two paths differ, as the paths do
  have hKeys : (below.map Prod.fst).Nodup := by
    have hPaths := nodup_of_pairwise (pairwise_select t fun k => Beneath p k)
    rw [map_map]
    rw [List.Nodup, pairwise_map] at hPaths ⊢
    refine hPaths.imp_of_mem fun {a b} ha hb hNe hEq => hNe ?_
    obtain ⟨_, -, hPathA⟩ := beneath_iff.mp (of_decide_eq_true (mem_select.mp ha).2)
    obtain ⟨_, -, hPathB⟩ := beneath_iff.mp (of_decide_eq_true (mem_select.mp hb).2)
    simp only [Function.comp_apply] at hEq
    rw [hPathA, hPathB, drop_left, drop_left] at hEq
    rw [hPathA, hPathB, hEq]
  have hFound : ∀ v, (t.subtree p)[k]? = some v ↔ (k, v) ∈ below := by
    intro v
    rw [← mem_sorted hKeys, sorted, Std.ExtTreeMap.mem_toList_iff_getElem?_eq_some]
    rfl
  refine Option.ext fun v => ?_
  rw [hFound, hMem]
  by_cases hk : k = []
  · simp [hk]
  · simp [hk]

lemma subtree_congr {t t' : Table (List α) ν} {p : List α} (h : ∀ k, Beneath p k → t[k]? = t'[k]?) :
    t.subtree p = t'.subtree p := by
  rw [subtree, subtree, select_congr fun k hk => h k (of_decide_eq_true hk)]

lemma lookup_graft_of_not {p k : List α} (hk : ¬ Beneath p k) (t : Table (List α) ν) (cs : List (Change α ν)) :
    (t.graft p cs)[k]? = t[k]? := by
  rw [graft]
  have hNamed : ∀ c ∈ cs.filter (fun c => c.1 ≠ []), p ++ c.1 ≠ k := by
    rintro c hc rfl
    exact hk (beneath_iff.mpr ⟨c.1, of_decide_eq_true (mem_filter.mp hc).2, rfl⟩)
  generalize cs.filter (fun c => c.1 ≠ []) = named at hNamed
  induction named generalizing t with
  | nil => rfl
  | cons c named ih =>
    rw [foldl_cons, ih _ fun c' hc' => hNamed c' (mem_cons_of_mem _ hc'), lookup_change,
      if_neg (hNamed c mem_cons_self)]

lemma subtree_graft (cs : List (Change α ν)) : (t.graft p cs).subtree p = (t.subtree p).graft [] cs := by
  -- one change, there and here
  have hOne : ∀ (t : Table (List α) ν) (c : Change α ν), c.1 ≠ [] →
      (t.change (p ++ c.1, c.2)).subtree p = (t.subtree p).change ([] ++ c.1, c.2) := by
    intro t c hc
    refine Std.ExtTreeMap.ext_getElem? fun {k} => ?_
    rw [lookup_subtree, lookup_change, lookup_change, lookup_subtree]
    by_cases hk : k = []
    · simp [hk, hc]
    · simp [hk]
  rw [graft, graft]
  have hNamed : ∀ c ∈ cs.filter (fun c => c.1 ≠ []), c.1 ≠ [] :=
    fun c hc => of_decide_eq_true (mem_filter.mp hc).2
  generalize cs.filter (fun c => c.1 ≠ []) = named at hNamed
  induction named generalizing t with
  | nil => rfl
  | cons c named ih =>
    rw [foldl_cons, foldl_cons, ih _ fun c' hc' => hNamed c' (mem_cons_of_mem _ hc'),
      hOne t c (hNamed c mem_cons_self)]

lemma lookup_prune (k : List α) : (t.prune p)[k]? = if Beneath p k then none else t[k]? := by
  have hErase : ∀ (es : List (List α × ν)) (t : Table (List α) ν),
      (es.foldl (fun t e => t.erase e.1) t)[k]? = if k ∈ es.map Prod.fst then none else t[k]? := by
    intro es
    induction es with
    | nil => simp
    | cons e es ih =>
      intro t
      rw [foldl_cons, ih, lookup_erase]
      by_cases hMem : k ∈ es.map Prod.fst
      · simp [hMem]
      · by_cases hEq : e.1 = k
        · simp [hMem, hEq]
        · have hNot : k ∉ (e :: es).map Prod.fst := by
            rw [map_cons, mem_cons]
            exact not_or.mpr ⟨fun h => hEq h.symm, hMem⟩
          rw [if_neg hMem, if_neg hEq, if_neg hNot]
  rw [prune, hErase]
  by_cases hBeneath : Beneath p k
  · rw [if_pos hBeneath]
    cases hEntry : t[k]? with
    | none => simp
    | some v =>
      have hMem : k ∈ (t.select fun k => Beneath p k).map Prod.fst :=
        mem_map.mpr ⟨(k, v), mem_select.mpr ⟨hEntry, decide_eq_true hBeneath⟩, rfl⟩
      rw [if_pos hMem]
  · have hNot : k ∉ (t.select fun k => Beneath p k).map Prod.fst := by
      intro hMem
      obtain ⟨e, he, rfl⟩ := mem_map.mp hMem
      exact hBeneath (of_decide_eq_true (mem_select.mp he).2)
    rw [if_neg hNot, if_neg hBeneath]

end Table

end RedGeo.Lib
