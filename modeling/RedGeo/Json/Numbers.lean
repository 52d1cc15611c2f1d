import RedGeo.Lib.Float64

/-!
# RedGeo — `JSON.NUMINCRBY` and `JSON.NUMMULTBY` on integers

`applyNum` of `command/json/json.go`. Two integers are added or multiplied in `int64`, and an
overflow is found afterwards: a sum has to lie on the side of the first number that the second
one says, and a product has to give back the second number when it is divided by the first.

* `applyInt_eq_some_iff` — what passes these checks is the exact result, but for one product.
* `applyNum_exact_iff` — so `applyNum` is exact but for that product.
-/

namespace RedGeo.Json

open Lib Int64 Int Option

/-! ## The code -/

section

variable (mul : Bool)

/-- The integers of `applyNum`; without a result it goes on with floating-point numbers. -/
def applyInt (a b : Int64) : Option Int64 :=
  if mul then
    if a ≠ 0 ∧ a * b / a ≠ b then none else some (a * b)
  else if decide (a < a + b) ≠ decide (0 < b) then none else some (a + b)

/-- `strconv.FormatFloat(f, 'g', -1, 64)`: with an exponent, of at least two digits, if it is below
-4 or above 5. -/
def formatG (f : Float64) : Bytes :=
  let digits := numeral 10 0 f.shortest.1
  let e := f.shortest.2 + digits.length - 1
  if f.units = 0 ∨ f.exponent = 2047 ∨ -4 ≤ e ∧ e < 6 then f.format
  else (if f.negative then [45] else []) ++ Float64.placePoint digits (digits.length - 1) ++
    101 :: (if e < 0 then 45 else 43) :: numeral 10 2 e.natAbs

variable (raw operand : Bytes)

/-- The numbers behind `float`: neither NaN nor infinities are a result. -/
def applyFloat : Option Bytes :=
  match Float64.parse raw, Float64.parse operand with
  | some x, some y =>
    let res := if mul then x.mul y else x.add y
    if res.isNaN ∨ res.isInf then none else some (formatG res)
  | _, _ => none

def applyNum (mul : Bool) : Option Bytes :=
  match parseInt raw, parseInt operand with
  | some a, some b =>
    match applyInt mul a b with
    | some res => some (formatInt res.toInt)
    | none => applyFloat mul raw operand
  | _, _ => applyFloat mul raw operand

/-! ## Statement -/

/-- The sum or the product. -/
def exact (a b : Int) : Int := if mul then a * b else a + b

/-- **`applyNum` is exact on two integers**: a result that fits is returned as its decimal text, and
no other result is returned for integers. -/
def NumExact (a b : Int64) : Prop :=
  (∀ res : Int64, res.toInt = exact mul a.toInt b.toInt →
    applyNum raw operand mul = some (formatInt res.toInt)) ∧
  ∀ res, applyInt mul a b = some res → res.toInt = exact mul a.toInt b.toInt

/-- The one product that is not checked: the quotient overflows as the product did. -/
def Unchecked (a b : Int64) : Prop := mul = true ∧ a = -1 ∧ b = Int64.minValue

end

instance (mul : Bool) (a b : Int64) : Decidable (Unchecked mul a b) := inferInstanceAs (Decidable (_ ∧ _))

/-! ## The checks -/

variable {mul : Bool} {a b res : Int64}

/-- The check of a sum finds every overflow. -/
lemma sum_checked_iff : (decide (a < a + b) = decide (0 < b)) ↔ (a + b).toInt = a.toInt + b.toInt := by
  have ha := a.le_toInt
  have ha' := a.toInt_lt
  have hb := b.le_toInt
  have hb' := b.toInt_lt
  rw [decide_eq_decide, lt_iff_toInt_lt, lt_iff_toInt_lt, toInt_add, bmod_def]
  change (_ ↔ (0 : Int) < _) ↔ _
  omega

/-- A product that passes the check is congruent to the exact one, and differs from it by less than
the first number. -/
lemma product_of_checked (hOne : a ≠ -1) (ha : a ≠ 0) (hDiv : a * b / a = b) :
    (a * b).toInt = a.toInt * b.toInt := by
  have hQuot : (a * b).toInt.tdiv a.toInt = b.toInt := by
    rw [← toInt_div_of_ne_right _ _ hOne, hDiv]
  have hSplit := tmod_add_mul_tdiv (a * b).toInt a.toInt
  rw [hQuot] at hSplit
  have hSmall : ((a * b).toInt.tmod a.toInt).natAbs < a.toInt.natAbs := by
    rw [natAbs_tmod]
    exact Nat.mod_lt _ (natAbs_pos.mpr fun h => ha (toInt_inj.mp h))
  have hLow := a.le_toInt
  have hHigh := a.toInt_lt
  have hMod := toInt_mul a b
  rw [bmod_def] at hMod
  omega

/-- Conversely, an exact product passes it. -/
lemma checked_of_product (ha : a ≠ 0) (hExact : (a * b).toInt = a.toInt * b.toInt) : a * b / a = b := by
  have hZero : a.toInt ≠ 0 := fun h => ha (toInt_inj.mp h)
  have hQuot : (a * b).toInt.tdiv a.toInt = b.toInt := by
    rw [hExact, mul_tdiv_cancel_left _ hZero]
  rw [← toInt_inj, toInt_div, hQuot]
  exact b.toInt_bmod_size

/-- **The checks.** What passes them is the exact result, and the exact result passes them. -/
theorem applyInt_eq_some_iff (h : ¬ Unchecked mul a b) :
    applyInt mul a b = some res ↔ res.toInt = exact mul a.toInt b.toInt := by
  cases mul with
  | false =>
    have hOf : res.toInt = a.toInt + b.toInt → res = a + b := fun hEq => by
      rw [← toInt_inj, toInt_add, ← hEq]
      exact res.toInt_bmod_size.symm
    simp only [applyInt, exact, Bool.false_eq_true, if_false, ite_not, ite_none_right_eq_some,
      some.injEq, sum_checked_iff]
    exact ⟨fun ⟨hSum, hEq⟩ => hEq ▸ hSum, fun hEq => ⟨hOf hEq ▸ hEq, (hOf hEq).symm⟩⟩
  | true =>
    have hOf : res.toInt = a.toInt * b.toInt → res = a * b := fun hEq => by
      rw [← toInt_inj, toInt_mul, ← hEq]
      exact res.toInt_bmod_size.symm
    simp only [applyInt, exact, if_true, ite_none_left_eq_some, some.injEq, not_and_not_right]
    constructor
    · rintro ⟨hDiv, rfl⟩
      by_cases ha : a = 0
      · subst ha
        simp
      by_cases hOne : a = -1
      · subst hOne
        -- `-b` fits unless `b` is the least number, which is the product left out.
        have hMin : b.toInt ≠ -2 ^ 63 := fun hEq => h ⟨rfl, rfl, toInt_inj.mp hEq⟩
        have hLow := b.le_toInt
        have hHigh := b.toInt_lt
        have hNeg : (-1 : Int64).toInt = -1 := rfl
        rw [toInt_mul, hNeg, bmod_def]
        omega
      · exact product_of_checked hOne ha (hDiv ha)
    · intro hEq
      exact ⟨fun ha => checked_of_product ha (hOf hEq ▸ hEq), (hOf hEq).symm⟩

/-- **`JSON.NUMINCRBY` and `JSON.NUMMULTBY` on integers.** Every sum and every product but one is
exact as long as it fits, and is never taken for an integer otherwise. -/
theorem applyNum_exact_iff {raw operand : Bytes} (hRaw : parseInt raw = some a)
    (hOperand : parseInt operand = some b) : NumExact mul raw operand a b ↔ ¬ Unchecked mul a b := by
  constructor
  · rintro ⟨-, hOnly⟩ ⟨rfl, rfl, rfl⟩
    exact absurd (hOnly minValue (by decide)) (by decide)
  · intro h
    refine ⟨fun res hEq => ?_, fun res hRes => (applyInt_eq_some_iff h).mp hRes⟩
    rw [applyNum, hRaw, hOperand]
    simp only [(applyInt_eq_some_iff h).mpr hEq]

/-- Seven times six. -/
theorem applyNum_exact_seven_six : NumExact true [55] [54] 7 6 :=
  (applyNum_exact_iff (by decide) (by decide)).mpr (by decide)

/-- Minus one times the least number is the least number. -/
theorem applyNum_least : parseInt [45, 49] = some (-1) ∧ parseInt (formatInt (-2 ^ 63)) = some minValue ∧
    applyNum [45, 49] (formatInt (-2 ^ 63)) true = some (formatInt (-2 ^ 63)) ∧ exact true (-1) (-2 ^ 63) =
    2 ^ 63 := by
  refine ⟨by decide, by decide +kernel, by decide +kernel, by decide⟩

end RedGeo.Json
