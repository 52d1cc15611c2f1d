import Mathlib.Data.Nat.Digits.Lemmas
import RedGeo.Lib.Bytes

/-!
# Numbers as text

Numerals to a base between 2 and 16, with leading zeros up to a width (`%d`,
`%02x`, `%016x`), signed decimals, and the functions that read them back. Digits
above 9 are written as small letters and read as letters of either case.

* `parseNat_numeral` — a numeral is read as the number it was written for.
* `numeral_inj`, `numeral_lt` — two numbers with one numeral are one number; numerals of one
  length compare like their numbers.
-/

namespace RedGeo.Lib

open List Nat

variable {b n w : Nat}

/-- The character of a digit. -/
def digitChar (d : Nat) : UInt8 := UInt8.ofNat (if d < 10 then 48 + d else 87 + d)

/-- The digit that a character stands for. -/
def digitValue (c : UInt8) : Option Nat :=
  if 48 ≤ c.toNat ∧ c.toNat ≤ 57 then some (c.toNat - 48)
  else if 97 ≤ c.toNat ∧ c.toNat ≤ 102 then some (c.toNat - 87)
  else if 65 ≤ c.toNat ∧ c.toNat ≤ 70 then some (c.toNat - 55)
  else none

/-- The numeral of `n` to the base `b`, at least `w` digits long. -/
def numeral (b w n : Nat) : Bytes :=
  let ds := if n = 0 then [0] else (Nat.digits b n).reverse
  (List.replicate (w - ds.length) 0 ++ ds).map digitChar

/-- One more digit. -/
def pushDigit (b n : Nat) (c : UInt8) : Option Nat :=
  match digitValue c with
  | some d => if d < b then some (n * b + d) else none
  | none => none

/-- The number that a text of digits stands for. -/
def parseNat (b : Nat) (s : Bytes) : Option Nat :=
  if s = [] then none else s.foldlM (pushDigit b) 0

lemma digitValue_digitChar (h : d < 16) : digitValue (digitChar d) = some d := by
  have hAll : ∀ d < 16, digitValue (digitChar d) = some d := by decide
  exact hAll d h

lemma pushDigit_digitChar (hb : b ≤ 16) (hd : d < b) :
    pushDigit b n (digitChar d) = some (n * b + d) := by
  rw [pushDigit, digitValue_digitChar (by omega)]
  simp only [if_pos hd]

/-- Reading digits one by one. -/
lemma foldlM_pushDigit (hb : b ≤ 16) (ds : List Nat) (hds : ∀ d ∈ ds, d < b) (n : Nat) :
    (ds.map digitChar).foldlM (pushDigit b) n = some (ds.foldl (fun n d => n * b + d) n) := by
  induction ds generalizing n with
  | nil => rfl
  | cons d ds ih =>
    rw [map_cons, foldlM_cons, pushDigit_digitChar hb (hds d mem_cons_self)]
    exact ih (fun d' hd' => hds d' (mem_cons_of_mem d hd')) _

lemma foldl_reverse_digits (b : Nat) (ds : List Nat) :
    ds.reverse.foldl (fun n d => n * b + d) 0 = ofDigits b ds := by
  induction ds with
  | nil => rfl
  | cons d ds ih =>
    rw [reverse_cons, foldl_append, ih, ofDigits_cons]
    simp only [foldl_cons, foldl_nil]
    ring

lemma foldl_replicate_zero (b w : Nat) (ds : List Nat) :
    (replicate w 0 ++ ds).foldl (fun n d => n * b + d) 0 = ds.foldl (fun n d => n * b + d) 0 := by
  induction w with
  | zero => rfl
  | succ w ih => rw [replicate_succ, cons_append, foldl_cons]; simpa using ih

/-- The digits of a numeral. -/
lemma exists_digits (hb : 1 < b) (w n : Nat) : ∃ ds ≠ [], numeral b w n = ds.map digitChar ∧
    (∀ d ∈ ds, d < b) ∧ ds.foldl (fun n d => n * b + d) 0 = n := by
  obtain ⟨ds, hds, hNe, hLt, hVal⟩ : ∃ ds, (if n = 0 then [0] else (digits b n).reverse) = ds ∧
      ds ≠ [] ∧ (∀ d ∈ ds, d < b) ∧ ds.foldl (fun n d => n * b + d) 0 = n := by
    refine ⟨_, rfl, ?_⟩
    split
    · next h => exact ⟨by simp, by simp; omega, by simp [h]⟩
    · next h =>
      refine ⟨?_, fun d hd => ?_, ?_⟩
      · rw [Ne, reverse_eq_nil_iff]
        exact digits_ne_nil_iff_ne_zero.mpr h
      · exact digits_lt_base hb (mem_reverse.mp hd)
      · rw [foldl_reverse_digits, ofDigits_digits]
  refine ⟨replicate (w - ds.length) 0 ++ ds, by simp [hNe], by rw [numeral, hds], fun d hd => ?_, ?_⟩
  · rcases mem_append.mp hd with hd | hd
    · rw [eq_of_mem_replicate hd]
      omega
    · exact hLt d hd
  · rw [foldl_replicate_zero, hVal]

/-- **A numeral is read as its number.** -/
theorem parseNat_numeral (hb : 1 < b) (hb' : b ≤ 16) (w n : Nat) : parseNat b (numeral b w n) = some n := by
  obtain ⟨ds, hNe, hNum, hLt, hVal⟩ := exists_digits hb w n
  rw [parseNat, hNum, if_neg (by simp [hNe]), foldlM_pushDigit hb' _ hLt, hVal]

lemma numeral_inj (hb : 1 < b) (hb' : b ≤ 16) (h : numeral b w n = numeral b w n') : n = n' := by
  have hParse := congrArg (parseNat b) h
  rw [parseNat_numeral hb hb', parseNat_numeral hb hb'] at hParse
  exact Option.some.inj hParse

lemma numeral_ne_nil (b w n : Nat) : numeral b w n ≠ [] := by
  intro hNil
  have hEmpty : (if n = 0 then [0] else (digits b n).reverse) = [] := by
    simp only [numeral, map_eq_nil_iff, append_eq_nil_iff] at hNil
    exact hNil.2
  split at hEmpty
  · cases hEmpty
  · next h => exact digits_ne_nil_iff_ne_zero.mpr h (reverse_eq_nil_iff.mp hEmpty)

/-- What a numeral is written with. -/
lemma exists_digit_of_mem (hb : 1 < b) (h : c ∈ numeral b w n) : ∃ d < b, c = digitChar d := by
  obtain ⟨ds, -, hNum, hLt, -⟩ := exists_digits hb w n
  obtain ⟨d, hd, rfl⟩ := mem_map.mp (hNum ▸ h)
  exact ⟨d, hLt d hd, rfl⟩

/-- A number that fits is written with exactly `w` digits. -/
lemma length_numeral (hb : 1 < b) (hw : 0 < w) (h : n < b ^ w) : (numeral b w n).length = w := by
  have hDigits : (if n = 0 then [0] else (digits b n).reverse).length ≤ w := by
    split
    · exact hw
    · rw [length_reverse]
      exact (digits_length_le_iff hb n).mpr h
  simp only [numeral, length_map, length_append, length_replicate]
  omega

/-- Digits of one length compare like the numbers that they stand for. -/
lemma foldl_lt_of_lex (hb : b ≤ 16) {ds es : List Nat} (hLen : ds.length = es.length)
    (hds : ∀ d ∈ ds, d < b) (hes : ∀ d ∈ es, d < b) {m n : Nat}
    (h : m < n ∨ m = n ∧ ds.map digitChar < es.map digitChar) :
    ds.foldl (fun n d => n * b + d) m < es.foldl (fun n d => n * b + d) n := by
  induction ds generalizing es m n with
  | nil =>
    obtain rfl := length_eq_zero_iff.mp hLen.symm
    simpa using h
  | cons d ds ih =>
    obtain _ | ⟨e, es⟩ := es
    · cases hLen
    rw [forall_mem_cons] at hds hes
    refine ih (succ.inj hLen) hds.2 hes.2 ?_
    dsimp only
    have hDigit : ∀ d < 16, ∀ e < 16, digitChar d < digitChar e → d < e := by decide
    rcases h with h | ⟨rfl, h⟩
    · left
      nlinarith [hds.1]
    · rw [map_cons, map_cons, cons_lt_cons_iff] at h
      rcases h with h | ⟨h, hRest⟩
      · exact .inl (Nat.add_lt_add_left (hDigit d (by omega) e (by omega) h) _)
      · obtain rfl : d = e := by
          have hVal := congrArg digitValue h
          rw [digitValue_digitChar (by omega), digitValue_digitChar (by omega)] at hVal
          exact Option.some.inj hVal
        exact .inr ⟨rfl, hRest⟩

/-- Numerals of one length compare like their numbers. -/
lemma numeral_lt (hb : 1 < b) (hb' : b ≤ 16) {m : Nat} (hLen : (numeral b w m).length = (numeral b w n).length)
    (h : m < n) : numeral b w m < numeral b w n := by
  obtain ⟨ds, -, hDs, hDsLt, hDsVal⟩ := exists_digits hb w m
  obtain ⟨es, -, hEs, hEsLt, hEsVal⟩ := exists_digits hb w n
  by_contra hNot
  rcases (not_lt.mp hNot).lt_or_eq with hLt | hEq
  · rw [hDs, hEs] at hLen hLt
    have hFold := foldl_lt_of_lex hb' (by simpa using hLen.symm) hEsLt hDsLt (m := 0) (.inr ⟨rfl, hLt⟩)
    rw [hEsVal, hDsVal] at hFold
    exact h.not_gt hFold
  · exact h.ne' (numeral_inj hb hb' hEq)

/-- `strconv.FormatInt(n, 10)`. -/
def formatInt (n : Int) : Bytes :=
  if n < 0 then 45 :: numeral 10 0 n.natAbs else numeral 10 0 n.natAbs

/-- The sign of a number and its digits. -/
def splitSign : Bytes → Bool × Bytes
  | [] => (false, [])
  | c :: s => if c = 45 then (true, s) else if c = 43 then (false, s) else (false, c :: s)

/-- `strconv.ParseInt(s, 10, 64)`, as far as it succeeds. -/
def parseInt (s : Bytes) : Option Int64 :=
  match parseNat 10 (splitSign s).2 with
  | none => none
  | some n =>
    let v : Int := if (splitSign s).1 then -n else n
    if -2 ^ 63 ≤ v ∧ v < 2 ^ 63 then some (Int64.ofInt v) else none

lemma splitSign_numeral (w n : Nat) : splitSign (numeral 10 w n) = (false, numeral 10 w n) := by
  have hDigit : ∀ c ∈ numeral 10 w n, c ≠ 45 ∧ c ≠ 43 := by
    intro c hc
    obtain ⟨d, hd, rfl⟩ := exists_digit_of_mem (by decide) hc
    have hAll : ∀ d < 10, digitChar d ≠ 45 ∧ digitChar d ≠ 43 := by decide
    exact hAll d hd
  cases hNum : numeral 10 w n with
  | nil => rfl
  | cons c s =>
    obtain ⟨hMinus, hPlus⟩ := hDigit c (hNum ▸ mem_cons_self)
    rw [splitSign, if_neg hMinus, if_neg hPlus]

/-- **Decimals are read as what they were written for.** -/
theorem parseInt_formatInt (n : Int64) : parseInt (formatInt n.toInt) = some n := by
  have hLow := n.le_toInt
  have hHigh := n.toInt_lt
  by_cases hNeg : n.toInt < 0
  · have hAbs : -(n.toInt.natAbs : Int) = n.toInt := by omega
    simp only [formatInt, if_pos hNeg, parseInt, splitSign, if_true,
      parseNat_numeral (by decide : 1 < 10) (by decide) 0 n.toInt.natAbs, hAbs, if_pos (And.intro hLow hHigh),
      Int64.ofInt_toInt]
  · have hAbs : (n.toInt.natAbs : Int) = n.toInt := by omega
    simp only [formatInt, if_neg hNeg, parseInt, splitSign_numeral,
      parseNat_numeral (by decide : 1 < 10) (by decide) 0 n.toInt.natAbs, hAbs, if_pos (And.intro hLow hHigh),
      Int64.ofInt_toInt, Bool.false_eq_true, if_false]

end RedGeo.Lib
