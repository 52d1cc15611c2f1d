import RedGeo.Repo.Lists
import Mathlib.Data.Nat.Bitwise

/-!
# RedGeo — the order of positions

`encodePos` writes a number as sixteen digits, so that positions compare as texts, with
whatever stands behind the digits, as their numbers do. The bits of a number that is not
negative get the sign, and those of a negative one are inverted; `decodePos` takes that back.

* `toNat_posBits` — the bits that are written follow the rank of the number.
* `encodePos_order` — greater numbers are greater texts, and are read back.
-/

namespace RedGeo.Json

open Lib Store Repo List UInt64 Float64

def encodePos (f : Float64) : Bytes := numeral 16 16 (posBits f).toNat

/-- The digits of a text, and what stands behind them. -/
def parts (pos : Bytes) : Bytes ×ₗ Bytes := toLex (pos.take 16, pos.drop 16)

/-- Texts compare by their first bytes and then by the rest. -/
lemma parts_lt (a b : Bytes) : parts a < parts b ↔ a < b := by
  suffices h : ∀ n, a < b ↔ a.take n < b.take n ∨ a.take n = b.take n ∧ a.drop n < b.drop n from
    Prod.Lex.toLex_lt_toLex.trans (h 16).symm
  intro n
  induction n generalizing a b with
  | zero => simp
  | succ n ih =>
    obtain _ | ⟨x, a⟩ := a <;> obtain _ | ⟨y, b⟩ := b <;> try simp
    rw [cons_lt_cons_iff, cons_lt_cons_iff, ih]
    tauto

lemma length_encodePos (f : Float64) : (encodePos f).length = 16 :=
  length_numeral (by decide) (by decide) (posBits f).toNat_lt

variable {x y f : Float64}

lemma toNat_posBits (h : f.isNaN = false) :
    ((posBits f).toNat : ℤ) = if 0 ≤ f.rank then 2 ^ 63 + f.rank else 2 ^ 63 - 1 + f.rank := by
  have hBits := f.bits.toNat_lt
  have hLe : (zero false).le f ↔ 0 ≤ f.rank := by
    have hZero : (zero false).isNaN = false ∧ (zero false).rank = 0 := by decide
    simp [le, hZero, h]
  simp only [posBits, hLe, Float64.rank, Float64.negative, decide_eq_true_eq]
  split_ifs
  · rw [UInt64.toNat_or, show f.bits.toNat = 2 ^ 63 by omega]
    decide
  · rw [toNat_not, size]
    omega
  · have hOr := Nat.two_pow_add_eq_or_of_lt (i := 63) (by omega : f.bits.toNat < 2 ^ 63) 1
    rw [UInt64.toNat_or, Nat.or_comm]
    exact congrArg Nat.cast hOr.symm
  · omega

/-- What `decodePos` makes of the bits. -/
lemma toNat_unflip (u : UInt64) : (if u &&& 0x8000000000000000 ≠ 0 then u &&& 0x7fffffffffffffff else ~~~u).toNat =
    if 2 ^ 63 ≤ u.toNat then u.toNat - 2 ^ 63 else 2 ^ 64 - 1 - u.toNat := by
  have hLt := u.toNat_lt
  have hSign : u &&& 0x8000000000000000 = 0 ↔ u.toNat < 2 ^ 63 := by
    rw [← UInt64.toNat_inj, UInt64.toNat_and, show (0x8000000000000000 : UInt64).toNat = 2 ^ 63 from rfl,
      Nat.and_two_pow, Nat.testBit_eq_decide_div_mod_eq]
    by_cases h : u.toNat / 2 ^ 63 % 2 = 1 <;> simp <;> omega
  by_cases h : 2 ^ 63 ≤ u.toNat
  · rw [if_pos h, if_pos (by rw [Ne, hSign]; omega), UInt64.toNat_and]
    exact (Nat.and_two_pow_sub_one_eq_mod u.toNat 63).trans (by omega)
  · rw [if_neg h, if_neg (by rw [Ne, hSign]; omega), toNat_not, size]
    omega

lemma decodePos_encodePos (h : f.isNaN = false) :
    decodePos (encodePos f) = some (if f = .zero true then .zero false else f) := by
  have hParse : parseNat 16 ((encodePos f).take 16) = some (posBits f).toNat := by
    rw [take_of_length_le (length_encodePos f).le, encodePos, parseNat_numeral (by decide) (by decide)]
  by_cases hZero : f = .zero true
  · rw [hZero]
    decide
  rw [decodePos, if_neg (by simp [length_encodePos]), hParse, if_neg hZero]
  refine congrArg (fun b => some (mk b)) (UInt64.toNat_inj.mp ?_)
  rw [UInt64.ofNat_toNat, toNat_unflip]
  have hBits := toNat_posBits h
  have hLt := f.bits.toNat_lt
  have hNe : f.bits.toNat ≠ 2 ^ 63 := fun hEq =>
    hZero (congrArg Float64.mk ((UInt64.toNat_inj (b := (Float64.zero true).bits)).mp hEq))
  simp only [Float64.rank, Float64.negative, decide_eq_true_eq] at hBits
  split_ifs at hBits ⊢ <;> omega

/-- **The order of positions.** Greater numbers are encoded as greater texts, whatever follows a `-`
behind them, and read back, without the sign of zero. -/
theorem encodePos_order (hX : x.isNaN = false) (hY : y.isNaN = false) :
    (x.lt y → encodePos x < encodePos y ∧ ∀ s t, encodePos x ++ 45 :: s < encodePos y ++ 45 :: t) ∧
    decodePos (encodePos x) = some (if x = zero true then zero false else x) := by
  refine ⟨fun h => ?_, decodePos_encodePos hX⟩
  have hLt : encodePos x < encodePos y := by
    have hRank : x.rank < y.rank := by simpa [lt, hX, hY] using h
    have hBits := toNat_posBits hX
    have hBits' := toNat_posBits hY
    refine numeral_lt (by decide) (by decide) ((length_encodePos x).trans (length_encodePos y).symm) ?_
    split_ifs at hBits hBits' <;> omega
  refine ⟨hLt, fun s t => ?_⟩
  rw [← parts_lt, parts, parts, take_left' (length_encodePos x), take_left' (length_encodePos y),
    Prod.Lex.toLex_lt_toLex]
  exact .inl hLt

theorem encodePos_order_zero : encodePos ⟨0x8000000000000001⟩ < encodePos (zero true) :=
  ((encodePos_order (by decide) (by decide)).1 (by decide)).1

end RedGeo.Json
