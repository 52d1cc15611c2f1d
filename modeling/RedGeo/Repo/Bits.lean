import RedGeo.Repo.Strings

/-!
# RedGeo — bits of strings

`crdtstore/bitops.go`, and what `crdtstore/bitmap.go` makes of it. Bit 0 is the most
significant bit of the first byte.
-/

namespace RedGeo.Repo

open Lib Store

variable (r : Db)

/-- `restypes.BitRange`; a bound may be missing. -/
structure BitRange where
  start : Option Int
  stop : Option Int
  inBits : Bool

/-- `bitRange`: the bounds in a string of `n` bytes, both of them included. -/
def bitRange (n : Nat) (rng : BitRange) : Option (Nat × Nat) :=
  let total : Int := if rng.inBits then n * 8 else n
  if total = 0 then none
  else
    let s := rng.start.getD 0
    let e := rng.stop.getD (total - 1)
    let s := max 0 (if s < 0 then s + total else s)
    let e := min (total - 1) (max 0 (if e < 0 then e + total else e))
    if s ≤ e then some (s.toNat, e.toNat) else none

/-- `bits.OnesCount8`. -/
def onesCount (b : UInt8) : Nat := (List.range 8).countP fun i => b.toNat.testBit i

/-- What is counted of a byte: the first and the last are cut at the range. -/
def maskedByte (data : Bytes) (s e i : Nat) : UInt8 :=
  let b := data.getD i 0
  let b := if i = s / 8 then b &&& UInt8.ofNat (0xff / 2 ^ (s % 8)) else b
  if i = e / 8 then b &&& UInt8.ofNat (0xff * 2 ^ (7 - e % 8)) else b

def bitCountRange (data : Bytes) (s e : Nat) (inBits : Bool) : Nat :=
  if inBits then
    ((List.range' (s / 8) (e / 8 + 1 - s / 8)).map fun i => onesCount (maskedByte data s e i)).sum
  else (((data.drop s).take (e + 1 - s)).map onesCount).sum

/-- `bitPosRange` from a position on; whole bytes without the bit are skipped. -/
def bitPosFrom (data : Bytes) (bit : Bool) (last : Nat) : Nat → Nat → Option Nat
  | 0, _ => none
  | fuel + 1, pos =>
    if last < pos then none
    else
      let b := data.getD (pos / 8) 0
      if pos % 8 = 0 ∧ pos + 7 ≤ last ∧ b = (if bit then 0 else 0xff) then
        bitPosFrom data bit last fuel (pos + 8)
      else if (b &&& bitMask (UInt64.ofNat pos) ≠ 0) = (bit = true) then some pos
      else bitPosFrom data bit last fuel (pos + 1)

def bitPosRange (data : Bytes) (bit : Bool) (first last : Nat) : Option Nat :=
  bitPosFrom data bit last (last + 1 - first) first

def bitCount (key : Bytes) (rng : BitRange) : ReadM Nat := do
  let data := (← loadBytes r key).getD []
  pure (match bitRange data.length rng with
    | some (s, e) => bitCountRange data s e rng.inBits
    | none => 0)

/-- `BitPos`. Without an end given, the first bit behind a string of ones is a zero. -/
def bitPos (key : Bytes) (bit : Bool) (rng : BitRange) : ReadM Int := do
  match ← loadBytes r key with
  | none => pure (if bit then -1 else 0)
  | some data =>
    pure (match bitRange data.length rng with
      | none => -1
      | some (s, e) =>
        let (first, last) := if rng.inBits then (s, e) else (s * 8, e * 8 + 7)
        match bitPosRange data bit first last with
        | some pos => pos
        | none => if !bit && rng.stop.isNone then last + 1 else -1)

inductive BitOperation
  | and
  | or
  | xor
  | not
  deriving DecidableEq, Repr

def BitOperation.apply : BitOperation → UInt8 → UInt8 → UInt8
  | .and, a, b => a &&& b
  | .or, a, b => a ||| b
  | .xor, a, b => a ^^^ b
  | .not, a, _ => a

/-- `bitop`: shorter strings are filled up with zeros. -/
def bitop (op : BitOperation) (srcs : List Bytes) : Bytes :=
  let n := srcs.foldl (fun n s => max n s.length) 0
  (List.range n).map fun i =>
    match op, srcs.map fun s => s.getD i 0 with
    | .not, bytes => ~~~(bytes.headD 0)
    | _, [] => 0
    | op, b :: rest => rest.foldl op.apply b

end RedGeo.Repo
