import Mathlib.Tactic.Ring

/-!
# Durations and instants in 64 bits

`time.Duration` and `time.Time` of Go's library, as far as they are numbers. A duration
is an `int64` of nanoseconds. An instant is a number of seconds and the nanoseconds that
follow. Products and sums wrap around, and nothing tells.

* `unixMilli_unix` — the milliseconds of an instant, as a function of what it was made from.
* `unixMilli_ofUnixMilli` — an instant keeps all of its milliseconds.
-/

namespace RedGeo.Lib

open Int64 Int

/-! ## Arithmetic -/

/-- What wraps around is off by a multiple of `2 ^ 64`. -/
lemma exists_wraps (n : Int) :
    ∃ k : Int, n.bmod (2 ^ 64) = n + 2 ^ 64 * k ∧ (-2 ^ 63 ≤ n ∧ n < 2 ^ 63 → k = 0) := by
  have hMod : (2 ^ 64 : Int) ∣ n.bmod (2 ^ 64) - n := dvd_bmod_sub_self
  obtain ⟨k, hk⟩ := hMod
  refine ⟨k, by omega, fun hIn => ?_⟩
  have hSelf : n.bmod (2 ^ 64) = n := bmod_eq_of_le (by omega) (by omega)
  omega

/-- Division rounds towards zero. -/
lemma exists_remainder (a : Int) {c : Int} (hc : 0 < c) :
    ∃ rem, a = c * a.tdiv c + rem ∧ -c < rem ∧ rem < c ∧ (0 ≤ a → 0 ≤ rem) ∧ (a ≤ 0 → rem ≤ 0) := by
  refine ⟨a.tmod c, (mul_tdiv_add_tmod a c).symm, ?_, tmod_lt_of_pos a hc, tmod_nonneg c, ?_⟩
  · exact lt_tmod_of_pos a hc
  · intro ha
    have hNeg := tmod_nonneg c (show 0 ≤ -a by omega)
    rw [neg_tmod] at hNeg
    omega

lemma toInt_div_of_pos (a : Int64) {c : Int64} (hc : 0 < c.toInt) : (a / c).toInt = a.toInt.tdiv c.toInt := by
  refine toInt_div_of_ne_right a c fun hEq => ?_
  rw [hEq] at hc
  exact absurd hc (by decide)

/-! ## Durations -/

/-- `time.Duration`, in nanoseconds. -/
abbrev Duration := Int64

namespace Duration

def millisecond : Duration := 1000000

def second : Duration := 1000000000

def milliseconds (d : Duration) : Int64 := d / millisecond

end Duration

/-! ## Instants -/

/-- `time.Time`, by its seconds since 1970 and nanoseconds. -/
structure Time where
  sec : Int64
  nsec : Int64
  deriving DecidableEq, Repr

namespace Time

/-- The zero value: the beginning of the year 1. -/
def zero : Time := ⟨-62135596800, 0⟩

def unix (sec nsec : Int64) : Time :=
  if nsec < 0 ∨ 1000000000 ≤ nsec then
    let n := nsec / 1000000000
    let rest := nsec - n * 1000000000
    if rest < 0 then ⟨sec + n - 1, rest + 1000000000⟩ else ⟨sec + n, rest⟩
  else ⟨sec, nsec⟩

def unixMilli (t : Time) : Int64 := t.sec * 1000 + t.nsec / 1000000

def ofUnixMilli (msec : Int64) : Time := unix (msec / 1000) (msec % 1000 * 1000000)

/-- The milliseconds of an instant, however many nanoseconds it was given. -/
lemma unixMilli_unix (sec nsec : Int64) :
    (unix sec nsec).unixMilli = sec * 1000 + ofInt (nsec.toInt / 1000000) := by
  -- both sides as exact numbers; then it is arithmetic
  have hMilli : ∀ s x : Int, 0 ≤ x → x < 2 ^ 63 →
      (⟨.ofInt s, .ofInt x⟩ : Time).unixMilli = .ofInt (s * 1000 + x / 1000000) := by
    intro s x hLow hHigh
    have hx : (ofInt x).toInt = x := toInt_ofInt_of_le (by omega) hHigh
    have hDiv : ofInt x / 1000000 = .ofInt (x / 1000000) := by
      rw [← ofInt_toInt (ofInt x / 1000000), toInt_div_of_pos _ (by decide), hx, tdiv_eq_ediv_of_nonneg hLow]
      rfl
    rw [unixMilli, hDiv, ofInt_add, ofInt_mul]
    rfl
  have hRight : sec * 1000 + ofInt (nsec.toInt / 1000000) =
      .ofInt (sec.toInt * 1000 + nsec.toInt / 1000000) := by
    rw [ofInt_add, ofInt_mul, ofInt_toInt]
    rfl
  obtain ⟨rem, hRem, hLow, hHigh, hPos, hNeg⟩ := exists_remainder nsec.toInt (c := 1000000000) (by decide)
  have hDiv : (nsec / 1000000000).toInt = nsec.toInt.tdiv 1000000000 := toInt_div_of_pos nsec (by decide)
  -- what is left after the whole seconds fits
  have hRest : nsec - nsec / 1000000000 * 1000000000 = .ofInt rem := by
    rw [← ofInt_toInt (nsec / 1000000000), hDiv]
    nth_rewrite 1 [← ofInt_toInt nsec]
    rw [show rem = nsec.toInt - nsec.toInt.tdiv 1000000000 * 1000000000 by omega, ofInt_sub, ofInt_mul]
    rfl
  have hRemInt : (ofInt rem).toInt = rem := toInt_ofInt_of_le (by omega) (by omega)
  have hSec : sec + nsec / 1000000000 = .ofInt (sec.toInt + nsec.toInt.tdiv 1000000000) := by
    rw [ofInt_add, ofInt_toInt, ← hDiv, ofInt_toInt]
  rw [hRight, unix]
  by_cases hOut : nsec < 0 ∨ 1000000000 ≤ nsec
  · rw [if_pos hOut]
    dsimp only
    rw [hRest]
    by_cases hBelow : ofInt rem < 0
    · rw [if_pos hBelow, hSec]
      have hLt : rem < 0 := by
        rw [lt_iff_toInt_lt, hRemInt] at hBelow
        exact hBelow
      have hOne : ofInt (sec.toInt + nsec.toInt.tdiv 1000000000) - 1 =
          .ofInt (sec.toInt + nsec.toInt.tdiv 1000000000 - 1) := (ofInt_sub _ 1).symm
      have hUp : ofInt rem + 1000000000 = .ofInt (rem + 1000000000) := by
        rw [ofInt_add]
        rfl
      rw [hOne, hUp, hMilli _ _ (by omega) (by omega)]
      congr 1
      omega
    · rw [if_neg hBelow, hSec]
      have hGe : 0 ≤ rem := by
        rw [lt_iff_toInt_lt, hRemInt] at hBelow
        exact not_lt.mp hBelow
      rw [hMilli _ _ hGe (by omega)]
      congr 1
      omega
  · rw [if_neg hOut]
    rw [not_or, lt_iff_toInt_lt, le_iff_toInt_le] at hOut
    have hZero : (0 : Int64).toInt = 0 := rfl
    have hBound : (1000000000 : Int64).toInt = 1000000000 := rfl
    have hEq := hMilli sec.toInt nsec.toInt (by omega) (by omega)
    rw [ofInt_toInt, ofInt_toInt] at hEq
    exact hEq

/-- **An instant keeps its milliseconds.** -/
theorem unixMilli_ofUnixMilli (msec : Int64) : (ofUnixMilli msec).unixMilli = msec := by
  obtain ⟨rem, hRem, hLow, hHigh, -, -⟩ := exists_remainder msec.toInt (c := 1000) (by decide)
  have hMod : (msec % 1000).toInt = rem := by
    have hSplit := mul_tdiv_add_tmod msec.toInt 1000
    rw [toInt_mod]
    show msec.toInt.tmod 1000 = rem
    omega
  have hDiv : (msec / 1000).toInt = msec.toInt.tdiv 1000 := toInt_div_of_pos msec (by decide)
  have hProd : (msec % 1000 * 1000000).toInt = rem * 1000000 := by
    rw [toInt_mul, hMod]
    show (rem * 1000000).bmod (2 ^ 64) = rem * 1000000
    exact bmod_eq_of_le (by omega) (by omega)
  rw [ofUnixMilli, unixMilli_unix, hProd, mul_ediv_cancel _ (by decide)]
  have hExact : msec / 1000 * 1000 = ofInt (msec.toInt.tdiv 1000 * 1000) := by
    rw [ofInt_mul, ← hDiv, ofInt_toInt]
    rfl
  rw [hExact, ← ofInt_add, show msec.toInt.tdiv 1000 * 1000 + rem = msec.toInt by omega, ofInt_toInt]

end Time

end RedGeo.Lib
