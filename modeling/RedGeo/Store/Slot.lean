import Mathlib.Data.List.Nodup
import RedGeo.Lib.Argmax
import RedGeo.Store.Hlc

/-!
# RedGeo — slots and the register they make up

`crdtstore/slot.go`. A register has one slot per replica, `(stamp, tag, value)`,
which only that replica writes. A read takes all slots that have arrived and
picks the one with the greatest stamp, equal stamps being decided by the name of
the replica; the register is absent if that slot is a deletion.

The candidates are a Go map, which is iterated in any order: here they are the
list of its entries in the order of the iteration. `winner_eq_some_iff` says
which slot is picked from the entries alone, so that the order does not matter
(`winner_perm`).
-/

namespace RedGeo.Store

open Lib List Option Prod

def tagPresent : UInt8 := 0

def tagDeleted : UInt8 := 1

/-- The text of `errBadSlot`. -/
def errBadSlot : String := "crdtstore: malformed slot envelope"

structure Slot where
  stamp : Stamp
  tag : UInt8
  value : Bytes
  deriving DecidableEq, Repr

def encodeSlot (s : Slot) : Bytes := s.stamp.encode ++ s.tag :: s.value

def decodeSlot (b : Bytes) : Except String Slot :=
  if h : b.length < 13 then .error errBadSlot
  else
    match Stamp.decode (b.take 12) with
    | none => .error errBadSlot
    | some st => .ok ⟨st, b.get ⟨12, by omega⟩, b.drop 13⟩

/-- What is written is what is read. -/
@[simp] lemma decodeSlot_encodeSlot (s : Slot) : decodeSlot (encodeSlot s) = .ok s := by
  have hLen : ¬ (encodeSlot s).length < 13 := by
    rw [encodeSlot, length_append, Stamp.length_encode, length_cons]
    omega
  have hStamp : (encodeSlot s).take 12 = s.stamp.encode := take_left' s.stamp.length_encode
  have hRest : (encodeSlot s).drop 13 = s.value := by
    rw [encodeSlot, drop_append, Stamp.length_encode]
    simp [drop_eq_nil_of_le]
  have hTag : (encodeSlot s).get ⟨12, by omega⟩ = s.tag := by
    simp [encodeSlot, getElem_append_right]
  rw [decodeSlot, dif_neg hLen, hStamp, Stamp.decode_encode]
  simp only [hTag, hRest]

lemma encodeSlot_inj : encodeSlot a = encodeSlot b ↔ a = b := by
  refine ⟨fun h => ?_, congrArg encodeSlot⟩
  have hDecoded := congrArg decodeSlot h
  rwa [decodeSlot_encodeSlot, decodeSlot_encodeSlot, Except.ok.injEq] at hDecoded

variable {ρ : Type} [LinearOrder ρ]

/-- One round of the loop of `winner`. -/
def winnerStep (best : Option (Slot × ρ)) (cand : ρ × Slot) : Option (Slot × ρ) :=
  match best with
  | none => some (cand.2, cand.1)
  | some (best, bestReplica) =>
    match best.stamp.compare cand.2.stamp with
    | .lt => some (cand.2, cand.1)
    | .eq => if bestReplica < cand.1 then some (cand.2, cand.1) else some (best, bestReplica)
    | .gt => some (best, bestReplica)

section

variable (cands : List (ρ × Slot))

def winner : Option (Slot × ρ) := cands.foldl winnerStep none

def liveValue : Option Bytes :=
  match winner cands with
  | none => none
  | some (best, _) => if best.tag = tagDeleted then none else some best.value

/-! ## The winner -/

/-- What candidates are compared by. -/
def rank (cand : ρ × Slot) : Stamp ×ₗ ρ := toLex (cand.2.stamp, cand.1)

lemma rank_lt_iff {a b : ρ × Slot} :
    rank a < rank b ↔ a.2.stamp < b.2.stamp ∨ a.2.stamp = b.2.stamp ∧ a.1 < b.1 :=
  Prod.Lex.toLex_lt_toLex

/-- A candidate replaces the best one so far if its rank is greater. -/
lemma winnerStep_some (best cand : ρ × Slot) :
    winnerStep (some best.swap) cand = some (if rank best < rank cand then cand else best).swap := by
  have hCompare := Stamp.compare_eq_cmp best.2.stamp cand.2.stamp
  simp only [winnerStep, fst_swap, snd_swap]
  rw [hCompare]
  cases h : cmp best.2.stamp cand.2.stamp with
  | lt =>
    rw [cmp_eq_lt_iff] at h
    exact congrArg some (congrArg Prod.swap (if_pos (rank_lt_iff.mpr (.inl h))).symm)
  | eq =>
    rw [cmp_eq_eq_iff] at h
    dsimp only
    split
    · next hLt => exact congrArg some (congrArg Prod.swap (if_pos (rank_lt_iff.mpr (.inr ⟨h, hLt⟩))).symm)
    · next hGe =>
      refine congrArg some (congrArg Prod.swap (if_neg ?_).symm)
      rw [rank_lt_iff, h]
      exact fun hOr => hOr.elim (lt_irrefl _) fun hAnd => hGe hAnd.2
  | gt =>
    rw [cmp_eq_gt_iff] at h
    refine congrArg some (congrArg Prod.swap (if_neg ?_).symm)
    rw [rank_lt_iff]
    exact fun hOr => hOr.elim (lt_asymm h) fun hAnd => (ne_of_gt h) hAnd.1

/-- **The loop computes a maximum.** -/
theorem winner_eq_argmax : winner cands = (cands.argmax rank).map Prod.swap := by
  show cands.foldl winnerStep (Option.map swap none) = _
  refine foldl_hom _ fun best cand => ?_
  cases best with
  | none => rfl
  | some best =>
    rw [map_some, winnerStep_some]
    show _ = Option.map Prod.swap (if rank best < rank cand then some cand else some best)
    split <;> rfl

end

omit [LinearOrder ρ] in
/-- Distinct replicas have distinct ranks. -/
lemma separates_rank {cands : List (ρ × Slot)} (hKeys : (cands.map fst).Nodup) :
    Separates rank cands := by
  intro a ha b hb hEq
  exact inj_on_of_nodup_map hKeys ha hb (mk.inj (toLex.injective hEq)).2

/-- **Which candidate wins**, replicas being distinct: the one that all others
are below. -/
theorem winner_eq_some_iff (hKeys : (cands.map Prod.fst).Nodup) {r : ρ} :
    winner cands = some (s, r) ↔ (r, s) ∈ cands ∧ ∀ c ∈ cands, c.1 ≠ r → rank c < rank (r, s) := by
  have hSwap : winner cands = some (s, r) ↔ cands.argmax rank = some (r, s) := by
    rw [winner_eq_argmax, map_eq_some_iff]
    constructor
    · rintro ⟨c, hc, hEq⟩
      rw [hc, ← swap_swap c, hEq]
      rfl
    · exact fun h => ⟨_, h, rfl⟩
  rw [hSwap, argmax_eq_some_iff (separates_rank hKeys)]
  constructor
  · rintro ⟨hMem, hMax⟩
    refine ⟨hMem, fun c hc hNe => lt_of_le_of_ne (hMax c hc) fun hEq => hNe ?_⟩
    exact (mk.inj (toLex.injective hEq)).2
  · rintro ⟨hMem, hBelow⟩
    refine ⟨hMem, fun c hc => ?_⟩
    by_cases hEq : c.1 = r
    · exact le_of_eq (congrArg rank (inj_on_of_nodup_map hKeys hc hMem hEq))
    · exact le_of_lt (hBelow c hc hEq)

/-- **The order of the iteration does not matter.** -/
theorem winner_perm {l l' : List (ρ × Slot)} (hPerm : l.Perm l') (hKeys : (l.map Prod.fst).Nodup) :
    winner l = winner l' := by
  rw [winner_eq_argmax, winner_eq_argmax, argmax_congr (separates_rank hKeys) fun _ => hPerm.mem_iff]

end RedGeo.Store
