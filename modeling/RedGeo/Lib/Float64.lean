import RedGeo.Lib.Numerals

/-!
# Floating-point numbers

IEEE 754 numbers with 64 bits, by their bit patterns. A finite number is a whole
number of units of `2 ^ -1074`, so that sums, products and quotients are computed
exactly as fractions of whole numbers and rounded once, to the nearest and with
ties to the even one. Texts are read the same way; a number is written with the
fewest digits that are read back as the number.
-/

namespace RedGeo.Lib

structure Float64 where
  bits : UInt64
  deriving DecidableEq, Repr

namespace Float64

section

variable (f : Float64)

def negative : Bool := 2 ^ 63 ≤ f.bits.toNat

def exponent : Nat := f.bits.toNat / 2 ^ 52 % 2 ^ 11

def fraction : Nat := f.bits.toNat % 2 ^ 52

def isNaN : Bool := f.exponent = 2047 ∧ f.fraction ≠ 0

def isInf : Bool := f.exponent = 2047 ∧ f.fraction = 0

/-- The magnitude of a finite number in units of `2 ^ -1074`. -/
def units : Nat :=
  if f.exponent = 0 then f.fraction else (2 ^ 52 + f.fraction) * 2 ^ (f.exponent - 1)

/-- A finite number in units of `2 ^ -1074`. -/
def scaled : Int := if f.negative then -f.units else f.units

def ofBits (bits : Nat) : Float64 := ⟨UInt64.ofNat bits⟩

section

variable (neg : Bool)

def signBits : Nat := if neg then 2 ^ 63 else 0

def zero : Float64 := ofBits (signBits neg)

def inf : Float64 := ofBits (signBits neg + 2047 * 2 ^ 52)

def nan : Float64 := ofBits 0x7ff8000000000001

/-- The number of so many units, if there is one; infinity beyond the greatest. -/
def encode (m : Nat) : Float64 :=
  if m < 2 ^ 52 then ofBits (signBits neg + m)
  else
    let e := Nat.log2 m - 51
    if 2047 ≤ e then inf neg
    else ofBits (signBits neg + e * 2 ^ 52 + (m / 2 ^ (e - 1) - 2 ^ 52))

/-- The whole number nearest to a fraction, an even one if there are two. -/
def nearest (n d : Nat) : Nat :=
  let q := n / d
  if 2 * (n % d) < d then q
  else if d < 2 * (n % d) then q + 1
  else if q % 2 = 0 then q else q + 1

/-- The number nearest to `n / d` units. -/
def round (n d : Nat) : Float64 :=
  -- numbers with 54 and more bits come in steps of a power of two
  let step := 2 ^ (Nat.log2 (n / d) - 52)
  encode neg (nearest n (d * step) * step)

end

/-- One in units. -/
def one : Nat := 2 ^ 1074

def ofInt (n : Int) : Float64 := if n = 0 then zero false else round (n < 0) (n.natAbs * one) 1

/-- Without what is behind the point. Numbers out of range become the least
integer, as the conversion of the hardware has it. -/
def toInt64 : Int64 :=
  let n : Int := if f.negative then -(f.units / one : Nat) else (f.units / one : Nat)
  if f.exponent = 2047 ∨ n < -2 ^ 63 ∨ 2 ^ 63 ≤ n then Int64.minValue else Int64.ofInt n

def neg : Float64 := ofBits (signBits (!f.negative) + f.bits.toNat % 2 ^ 63)

variable (a b : Float64)

def add : Float64 :=
  if a.isNaN || b.isNaN then nan
  else if a.isInf then (if b.isInf && a.negative != b.negative then nan else a)
  else if b.isInf then b
  else
    let n := a.scaled + b.scaled
    if n = 0 then zero (a.negative && b.negative) else round (n < 0) n.natAbs 1

def sub : Float64 := add a b.neg

def mul : Float64 :=
  let neg := a.negative != b.negative
  if a.isNaN || b.isNaN then nan
  else if a.isInf || b.isInf then (if a.units = 0 ∨ b.units = 0 then nan else inf neg)
  else round neg (a.units * b.units) one

def div : Float64 :=
  let neg := a.negative != b.negative
  if a.isNaN || b.isNaN then nan
  else if a.isInf then (if b.isInf then nan else inf neg)
  else if b.isInf then zero neg
  else if b.units = 0 then (if a.units = 0 then nan else inf neg)
  else round neg (a.units * one) b.units

/-- A root of a whole number, marked by an odd number if it is not exact. -/
def sqrt (f : Float64) : Float64 :=
  if f.isNaN then nan
  else if f.units = 0 ∧ ¬ f.isInf then f
  else if f.negative then nan
  else if f.isInf then f
  else
    let s := Nat.sqrt (f.units * one)
    round false (2 * s + if s * s = f.units * one then 0 else 1) 2

/-- Where a number stands among the numbers; both zeros stand at the same place. -/
def rank : Int := if f.negative then -(f.bits.toNat % 2 ^ 63 : Nat) else (f.bits.toNat : Int)

def lt : Bool := !a.isNaN && !b.isNaN && a.rank < b.rank

def le : Bool := !a.isNaN && !b.isNaN && a.rank ≤ b.rank

def eq : Bool := !a.isNaN && !b.isNaN && a.rank = b.rank

def min : Float64 :=
  if a.isInf && a.negative || b.isInf && b.negative then inf true
  else if a.isNaN || b.isNaN then nan
  else if a.units = 0 && b.units = 0 then (if a.negative then a else b)
  else if lt a b then a else b

def max : Float64 :=
  if a.isInf && !a.negative || b.isInf && !b.negative then inf false
  else if a.isNaN || b.isNaN then nan
  else if a.units = 0 && b.units = 0 then (if a.negative then b else a)
  else if lt b a then a else b

/-- `math.Round`: halves go away from zero. -/
def roundHalfAway : Float64 :=
  if f.exponent = 2047 then f
  else
    let n := (2 * f.units + one) / (2 * one)
    if n = 0 then zero f.negative else round f.negative (n * one) 1

end

/-! ## Texts -/

/-- The number nearest to `m * 10 ^ e`. -/
def ofDecimal (neg : Bool) (m : Nat) (e : Int) : Float64 :=
  if m = 0 then zero neg
  else if 0 ≤ e then round neg (m * 10 ^ e.toNat * one) 1
  else round neg (m * one) (10 ^ (-e).toNat)

def isDigit (c : UInt8) : Bool := 48 ≤ c ∧ c ≤ 57

def digitsValue (s : Bytes) : Nat := s.foldl (fun n c => 10 * n + (c.toNat - 48)) 0

/-- An exponent, with its `e` in front; without it, there is none. -/
def parseExponent : Bytes → Option Int
  | [] => some 0
  | c :: s =>
    if c = 101 ∨ c = 69 then
      (parseNat 10 (splitSign s).2).map fun n => if (splitSign s).1 then -(n : Int) else n
    else none

def lower (c : UInt8) : UInt8 := if 65 ≤ c ∧ c ≤ 90 then c + 32 else c

/-- `strconv.ParseFloat` on decimal texts. -/
def parse (s : Bytes) : Option Float64 :=
  let neg := (splitSign s).1
  let t := (splitSign s).2
  if t.map lower = [105, 110, 102] ∨ t.map lower = [105, 110, 102, 105, 110, 105, 116, 121] then
    some (inf neg)
  else if s.map lower = [110, 97, 110] then some nan
  else
    let whole := t.takeWhile isDigit
    let rest := t.dropWhile isDigit
    let frac := match rest with
      | 46 :: s => s.takeWhile isDigit
      | _ => []
    let rest := match rest with
      | 46 :: s => s.dropWhile isDigit
      | _ => rest
    if whole = [] ∧ frac = [] then none
    else
      match parseExponent rest with
      | none => none
      | some e =>
        let f := ofDecimal neg (digitsValue (whole ++ frac)) (e - frac.length)
        -- out of range is an error
        if f.isInf then none else some f

variable (f : Float64)

/-- The exponent of the first digit of a number. -/
def magnitude : Int :=
  if one ≤ f.units then (numeral 10 0 (f.units / one)).length - 1
  else -(((List.range 400).find? fun k => one ≤ f.units * 10 ^ k).getD 0 : Nat)

/-- The two numbers with `n` digits around a number, the nearer one first, with
the exponent of their last digit. -/
def candidates (n : Nat) : List (Nat × Int) :=
  let e := f.magnitude - n + 1
  let num := if 0 ≤ e then f.units else f.units * 10 ^ (-e).toNat
  let den := if 0 ≤ e then one * 10 ^ e.toNat else one
  let m := nearest num den
  if num / den = m then [(m, e), (m + 1, e)] else [(m, e), (m - 1, e)]

/-- The fewest digits that are read back as the number, with the exponent of the
last one. -/
def shortest : Nat × Int :=
  let found := (List.range 17).findSome? fun n =>
    (f.candidates (n + 1)).find? fun c => ofDecimal f.negative c.1 c.2 = f
  found.getD (0, 0)

/-- Digits with a point in front of the last `k`, as far as they are not zero. -/
def placePoint (digits : Bytes) (k : Nat) : Bytes :=
  let padded : Bytes := List.replicate (k + 1 - digits.length) 48 ++ digits
  let whole := padded.take (padded.length - k)
  let frac := (padded.drop (padded.length - k)).reverse.dropWhile fun c => c = 48
  if frac = [] then whole else whole ++ 46 :: frac.reverse

/-- `strconv.FormatFloat(f, 'f', -1, 64)`. -/
def format : Bytes :=
  if f.isNaN then [78, 97, 78]
  else if f.isInf then (if f.negative then 45 else 43) :: [73, 110, 102]
  else
    let sign : Bytes := if f.negative then [45] else []
    if f.units = 0 then sign ++ [48]
    else
      let (m, e) := f.shortest
      sign ++ if 0 ≤ e then numeral 10 0 m ++ List.replicate e.toNat 48
        else placePoint (numeral 10 0 m) (-e).toNat

/-- `fmtNum`-style integers: whether a number is a whole one that fits. -/
def isInt64 : Bool := eq f (ofInt f.toInt64.toInt)

end Float64

end RedGeo.Lib
