import RedGeo.Engine.Partition
import RedGeo.Lib.Numerals
import RedGeo.Lib.Subtrees

/-!
# RedGeo — the backing store by its keys

All partitions and all their generations share one backing datastore. `Backing` is what one
partition has in it; here are the keys themselves, as `ds.NewKey` and `fmt.Sprintf` make
them, and what the engine does to them.

* `nsFor`, `genKey`, `prevKey` — the namespace of a generation, and the metadata.
* `gen_of_beneath` — what is below a namespace tells the partition and the generation.
* `Replicated` — go-ds-crdt over a namespace, as changes of the keys below it. It is outside
  of this repository: `Replicated.Lawful` says what is assumed.
-/

namespace RedGeo.Engine

open Lib Function Table List

/-! ## Keys -/

/-- A `ds.Key`, by its segments. -/
abbrev DsKey := List Bytes

instance transOrdDsKey : Std.TransOrd DsKey := inferInstanceAs (Std.TransOrd (List Bytes))

/-- The backing datastore. -/
abbrev Disk := Table DsKey Bytes

/-- `Namespace`, `"redgeo"`. -/
def namespaceSeg : Bytes := [114, 101, 100, 103, 101, 111]

/-- `metaPrefix`, `"_redgeo_meta"`. -/
def metaSeg : Bytes := [95, 114, 101, 100, 103, 101, 111, 95, 109, 101, 116, 97]

/-- `strconv.Itoa`, of a generation. -/
def itoa (n : Nat) : Bytes := numeral 10 0 n

/-- `nsBase`: a single partition has no segment of its own. -/
def nsBase (numParts idx : Nat) : DsKey :=
  if 1 < numParts then [namespaceSeg, 112 :: numeral 16 2 idx] else [namespaceSeg]

def nsFor (numParts idx gen : Nat) : DsKey := nsBase numParts idx ++ [103 :: itoa gen]

def genKey (idx : Nat) : DsKey := [metaSeg, [103, 101, 110], numeral 16 2 idx]

def prevKey (idx : Nat) : DsKey := [metaSeg, [112, 114, 101, 118], numeral 16 2 idx]

lemma itoa_inj (h : itoa gen = itoa gen') : gen = gen' := numeral_inj (by decide) (by decide) h

/-- **The namespaces are apart**: no key is below two of them. -/
theorem gen_of_beneath (hIdx : idx < numParts) (hIdx' : idx' < numParts) (h : Beneath (nsFor numParts idx gen) k)
    (h' : Beneath (nsFor numParts idx' gen') k) : idx = idx' ∧ gen = gen' := by
  have hEq := h.eq_of_length h' (by unfold nsFor nsBase; split <;> rfl)
  unfold nsFor nsBase at hEq
  split at hEq
  · simp only [cons_append, nil_append, cons.injEq, true_and, and_true] at hEq
    exact ⟨numeral_inj (by decide) (by decide) hEq.1, itoa_inj hEq.2⟩
  · -- a single partition
    simp only [cons_append, nil_append, cons.injEq, true_and, and_true] at hEq
    exact ⟨by omega, itoa_inj hEq⟩

lemma head_of_beneath (h : Beneath (nsFor numParts idx gen) k) : k.head? = some namespaceSeg := by
  obtain ⟨rest, -, rfl⟩ := beneath_iff.mp h
  unfold nsFor nsBase
  split <;> rfl

lemma not_beneath_genKey : ¬ Beneath (nsFor numParts idx gen) (genKey idx') := fun h => by
  have hHead : some metaSeg = some namespaceSeg := head_of_beneath h
  revert hHead
  decide

lemma not_beneath_prevKey : ¬ Beneath (nsFor numParts idx gen) (prevKey idx') := fun h => by
  have hHead : some metaSeg = some namespaceSeg := head_of_beneath h
  revert hHead
  decide

lemma genKey_inj (h : genKey idx = genKey idx') : idx = idx' := by
  simp only [genKey, cons.injEq, true_and, and_true] at h
  exact numeral_inj (by decide) (by decide) h

lemma prevKey_inj (h : prevKey idx = prevKey idx') : idx = idx' := by
  simp only [prevKey, cons.injEq, true_and, and_true] at h
  exact numeral_inj (by decide) (by decide) h

lemma genKey_ne_prevKey : genKey idx ≠ prevKey idx' := by
  simp [genKey, prevKey]

/-! ## What the engine keeps there -/

variable (d : Disk)

/-- What one partition has in the store. -/
def Disk.backing (numParts idx : Nat) : Backing (DsKey × Bytes) where
  gen := d[genKey idx]?.bind (parseNat 10)
  prev := d[prevKey idx]?.bind (parseNat 10)
  ns gen := (d.subtree (nsFor numParts idx gen)).toList

def Disk.persistGen (p : Partition) : Disk :=
  let d := d.insert (genKey p.idx) (itoa p.gen)
  if p.hasPrev then d.insert (prevKey p.idx) (itoa p.prevGen) else d.erase (prevKey p.idx)

def Disk.purgeNamespace (numParts idx gen : Nat) : Disk := d.prune (nsFor numParts idx gen)

lemma Disk.lookup_persistGen (p : Partition) (k : DsKey) :
    (d.persistGen p)[k]? = if k = genKey p.idx then some (itoa p.gen) else if k =
    prevKey p.idx then (if p.hasPrev then some (itoa p.prevGen) else none) else d[k]? := by
  simp only [eq_comm (a := k)]
  unfold persistGen
  by_cases hGen : genKey p.idx = k
  · have hPrev : prevKey p.idx ≠ k := fun h => genKey_ne_prevKey (hGen.trans h.symm)
    rw [if_pos hGen]
    split
    · rw [lookup_insert, lookup_insert, if_neg hPrev, if_pos hGen]
    · rw [lookup_erase, lookup_insert, if_neg hPrev, if_pos hGen]
  · rw [if_neg hGen]
    split
    · rw [lookup_insert, lookup_insert, if_neg hGen]
    · rw [lookup_erase, lookup_insert, if_neg hGen]

/-! ## The replicated datastore -/

/-- What a write does to live entries: keys get values, or are deleted. -/
def applyWrite {κ ν : Type} [DecidableEq κ] (ops : List (κ × Option ν)) (live : κ → Option ν) : κ → Option ν :=
  ops.foldl (fun live op => update live op.1 op.2) live

/-- go-ds-crdt over a namespace: its live entries, and the changes of the keys below the
namespace that opening it, closing it, and writing make. -/
structure Replicated (κ ν : Type) where
  query : Disk → List (κ × ν)
  opened : Disk → List (Table.Change Bytes Bytes)
  closed : Disk → List (Table.Change Bytes Bytes)
  write : Disk → List (κ × Option ν) → List (Table.Change Bytes Bytes)

namespace Replicated

variable {κ ν : Type} [DecidableEq κ] (C : Replicated κ ν)

/-- The live entries of a namespace with some raw entries. -/
def live (raw : Disk) (k : κ) : Option ν := (C.query raw).lookup k

/-- A key is live with the one value that it is listed with. -/
lemma live_eq {k : κ} (h : ∀ v, (k, v) ∈ C.query raw ↔ value = some v) : C.live raw k = value := by
  unfold live
  cases hFound : (C.query raw).lookup k with
  | some v =>
    obtain ⟨before, after, hSplit, -⟩ := lookup_eq_some_iff.mp hFound
    refine ((h v).mp ?_).symm
    rw [hSplit]
    simp
  | none =>
    cases value with
    | none => rfl
    | some v =>
      have hNe := lookup_eq_none_iff.mp hFound _ ((h v).mpr rfl)
      simp at hNe

/-- What is assumed of go-ds-crdt: opening and closing it leaves the live entries as they
are, and a local write prevails. -/
structure Lawful : Prop where
  live_opened : ∀ raw, C.live (raw.graft [] (C.opened raw)) = C.live raw
  live_closed : ∀ raw, C.live (raw.graft [] (C.closed raw)) = C.live raw
  live_write : ∀ raw ops, C.live (raw.graft [] (C.write raw ops)) = applyWrite ops (C.live raw)

end Replicated

/-! ### A datastore that meets the assumptions -/

/-- A datastore that keeps each live key under its name, and a version that opening it
writes. -/
def plainStore : Replicated Bytes Bytes where
  query raw := raw.toList.filterMap fun e =>
    match e.1 with
    | [k] => some (k, e.2)
    | _ => none
  opened _ := [([[118], [118]], some [49])]
  closed _ := []
  write _ ops := ops.map fun op => ([op.1], op.2)

lemma live_plainStore (raw : Disk) (k : Bytes) : plainStore.live raw k = raw[[k]]? := by
  have hMem : ∀ v, (k, v) ∈ plainStore.query raw ↔ raw[[k]]? = some v := by
    intro v
    rw [← Std.ExtTreeMap.mem_toList_iff_getElem?_eq_some]
    show (k, v) ∈ raw.toList.filterMap _ ↔ _
    rw [mem_filterMap]
    constructor
    · rintro ⟨⟨path, v'⟩, he, hEq⟩
      match path, he, hEq with
      | [k'], he, hEq =>
        cases hEq
        exact he
    · exact fun he => ⟨_, he, rfl⟩
  exact plainStore.live_eq hMem

lemma plainStore_lawful : plainStore.Lawful where
  live_opened raw := by
    funext k
    rw [live_plainStore, live_plainStore]
    show (raw.change ([] ++ [[118], [118]], some [49]))[[k]]? = _
    rw [lookup_change, if_neg (by simp)]
  live_closed raw := rfl
  live_write raw ops := by
    -- the changes are those of the operations, one by one
    have hOps : ∀ (ops : List (Bytes × Option Bytes)) (raw : Disk),
        plainStore.live (raw.graft [] (plainStore.write raw ops)) = applyWrite ops (plainStore.live raw) := by
      intro ops
      induction ops with
      | nil => exact fun raw => rfl
      | cons op ops ih =>
        intro raw
        have hFirst : plainStore.live (raw.change ([op.1], op.2)) =
            update (plainStore.live raw) op.1 op.2 := by
          funext k
          rw [live_plainStore, lookup_change, update_apply, live_plainStore]
          simp only [cons.injEq, and_true, eq_comm (a := k)]
        rw [applyWrite, foldl_cons, ← hFirst]
        exact ih (raw.change ([op.1], op.2))
    exact hOps ops raw

end RedGeo.Engine
