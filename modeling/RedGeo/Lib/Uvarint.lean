import RedGeo.Lib.Bytes

/-!
# Variable-length numbers

`encoding/binary`: seven bits to a byte, the lowest first, and the high bit set on
every byte but the last.
-/

namespace RedGeo.Lib

open UInt8

/-- `binary.AppendUvarint`, of a number of at most `fuel` bytes. -/
def uvarintBytes : Nat → Nat → Bytes
  | 0, _ => []
  | fuel + 1, n =>
    if n < 128 then [UInt8.ofNat n] else UInt8.ofNat (n % 128 + 128) :: uvarintBytes fuel (n / 128)

def appendUvarint (n : UInt64) : Bytes := uvarintBytes 10 n.toNat

/-- `binary.Uvarint` from the byte with index `i` on: the number, and what follows
it. A tenth byte above 1 and an eleventh byte would not fit in 64 bits. -/
def uvarintFrom : Nat → Nat → Bytes → Option (Nat × Bytes)
  | _, _, [] => none
  | i, x, b :: rest =>
    if i = 10 then none
    else if b < 128 then
      if i = 9 ∧ 1 < b then none else some (x + b.toNat * 2 ^ (7 * i), rest)
    else uvarintFrom (i + 1) (x + (b.toNat - 128) * 2 ^ (7 * i)) rest

def uvarint (b : Bytes) : Option (UInt64 × Bytes) :=
  (uvarintFrom 0 0 b).map fun v => (UInt64.ofNat v.1, v.2)

lemma uvarintFrom_last {i n : Nat} (x : Nat) (rest : Bytes) (hLt : n < 128) (hRoom : i < 9 ∨ i = 9 ∧ n ≤ 1) :
    uvarintFrom i x (ofNat n :: rest) = some (x + n * 2 ^ (7 * i), rest) := by
  have hByte : (ofNat n).toNat = n := by
    rw [toNat_ofNat', Nat.mod_eq_of_lt (by omega)]
  have hLow : ofNat n < 128 := by
    rw [lt_iff_toNat_lt, hByte]
    exact hLt
  have hFits : ¬ (i = 9 ∧ 1 < ofNat n) := by
    rw [lt_iff_toNat_lt, hByte, show (1 : UInt8).toNat = 1 from rfl]
    omega
  rw [uvarintFrom, if_neg (by omega), if_pos hLow, if_neg hFits, hByte]

/-- From the byte with index `i` on there is room for `10 - i` bytes. -/
lemma uvarintFrom_uvarintBytes {fuel i n : Nat} (x : Nat) (rest : Bytes) (hRoom : i + fuel = 9)
    (hFit : n * 2 ^ (7 * i) < 2 ^ 64) :
    uvarintFrom i x (uvarintBytes (fuel + 1) n ++ rest) = some (x + n * 2 ^ (7 * i), rest) := by
  induction fuel generalizing i n x with
  | zero =>
    -- one bit is left for the tenth byte
    obtain rfl : i = 9 := by omega
    have hOne : n < 2 := by omega
    rw [uvarintBytes, if_pos (by omega)]
    exact uvarintFrom_last x rest (by omega) (.inr ⟨rfl, by omega⟩)
  | succ fuel ih =>
    rw [uvarintBytes]
    by_cases hLt : n < 128
    · rw [if_pos hLt]
      exact uvarintFrom_last x rest hLt (.inl (by omega))
    · have hByte : (ofNat (n % 128 + 128)).toNat = n % 128 + 128 := by
        rw [toNat_ofNat', Nat.mod_eq_of_lt (by omega)]
      have hHigh : ¬ ofNat (n % 128 + 128) < 128 := by
        rw [lt_iff_toNat_lt, hByte, show (128 : UInt8).toNat = 128 from rfl]
        omega
      have hPow : 2 ^ (7 * (i + 1)) = 128 * 2 ^ (7 * i) := by
        rw [Nat.mul_add, Nat.mul_one, Nat.pow_add, Nat.mul_comm]
      have hSplit : n * 2 ^ (7 * i) = n % 128 * 2 ^ (7 * i) + n / 128 * (128 * 2 ^ (7 * i)) := by
        rw [← Nat.mul_assoc, ← Nat.add_mul, Nat.mul_comm (n / 128) 128, Nat.mod_add_div]
      rw [if_neg hLt, List.cons_append, uvarintFrom, if_neg (by omega), if_neg hHigh, hByte, Nat.add_sub_cancel,
        ih (x + n % 128 * 2 ^ (7 * i)) (by omega) (by rw [hPow]; omega), hPow, hSplit, Nat.add_assoc]

/-- **What is read is what was written.** -/
theorem uvarint_appendUvarint (n : UInt64) (rest : Bytes) : uvarint (appendUvarint n ++ rest) = some (n, rest) := by
  have hFit : n.toNat * 2 ^ (7 * 0) < 2 ^ 64 := by
    rw [Nat.mul_zero, Nat.pow_zero, Nat.mul_one]
    exact n.toNat_lt
  rw [uvarint, appendUvarint, uvarintFrom_uvarintBytes 0 rest rfl hFit]
  simp

end RedGeo.Lib
