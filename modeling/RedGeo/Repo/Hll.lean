import RedGeo.Lib.Murmur
import RedGeo.Repo.Reads

/-!
# RedGeo — HyperLogLog

`crdtstore/hll.go`, `crdtstore/hllfmt.go` and the writing part of
`crdtstore/hlldebug.go`. A sketch has 2^14 registers and is merged register by
register. Every replica stores the sketch of its own elements; a read merges
them. As a string, a sketch has the format that `GET` returns and `SET` takes.
-/

namespace RedGeo.Repo

open Lib Store

abbrev hllM : Nat := 16384

def hllQ : Nat := 50

/-- `hllSketch`. -/
abbrev Sketch := Vector UInt8 hllM

namespace Sketch

def empty : Sketch := Vector.replicate hllM 0

def merge (h o : Sketch) : Sketch := Vector.zipWith max h o

/-- The register of an element, and the rank it has there. The sentinel bounds the
rank. -/
def place (elem : Bytes) : Fin hllM × UInt8 :=
  let x := murmur64a elem 0xadc83b19
  let rest := (x.toNat / 2 ^ 14) ||| 2 ^ hllQ
  (⟨x.toNat % hllM, Nat.mod_lt _ (by decide)⟩,
    UInt8.ofNat (((List.range 64).find? fun i => rest.testBit i).getD 64 + 1))

section

variable (h : Sketch)

def add (elem : Bytes) : Bool × Sketch :=
  let (idx, rank) := place elem
  if h.get idx < rank then (true, h.set idx rank) else (false, h)

/-! ## The estimate -/

/-- `hllSigma`: the loop ends when the sum does not change any more. -/
def sigma (x : Float64) : Float64 :=
  let rec loop : Nat → Float64 → Float64 → Float64 → Float64
    | 0, _, _, z => z
    | fuel + 1, x, y, z =>
      let x := x.mul x
      let z' := z.add (x.mul y)
      if z'.eq z then z' else loop fuel x (y.add y) z'
  if x.eq (.ofInt 1) then .inf false else loop 2048 x (.ofInt 1) x

/-- `hllTau`. -/
def tau (x : Float64) : Float64 :=
  let rec loop : Nat → Float64 → Float64 → Float64 → Float64
    | 0, _, _, z => z.div (.ofInt 3)
    | fuel + 1, x, y, z =>
      let x := x.sqrt
      let y := y.div (.ofInt 2)
      let d := (Float64.ofInt 1).sub x
      let z' := z.sub ((d.mul d).mul y)
      if z'.eq z then z'.div (.ofInt 3) else loop fuel x y z'
  if x.eq (.zero false) || x.eq (.ofInt 1) then .zero false
  else loop 2048 x (.ofInt 1) ((Float64.ofInt 1).sub x)

/-- How many registers have a value. -/
def histogram (v : Nat) : Float64 := .ofInt (h.toList.countP fun x => x.toNat = v)

def ln2 : Float64 := .ofBits 0x3fe62e42fefa39ef

/-- `count`. The histogram has no place for registers above 51. -/
def count : Except Err Int64 :=
  if h.toList.any fun x => hllQ + 1 < x.toNat then .error .panic
  else
    let m : Float64 := .ofInt hllM
    let z := m.mul (tau ((Float64.ofInt 1).sub ((h.histogram (hllQ + 1)).div m)))
    let z := ((List.range hllQ).reverse).foldl
      (fun z k => ((Float64.ofInt 1).div (.ofInt 2)).mul (z.add (h.histogram (k + 1)))) z
    let z := z.add (m.mul (sigma ((h.histogram 0).div m)))
    if z.isInf && !z.negative || z.eq (.zero false) then .ok 0
    else .ok (((m.mul m).div ((Float64.ofInt 2).mul ln2)).div z).roundHalfAway.toInt64

/-! ## Components -/

/-- The registers that are not zero, with their numbers. -/
def nonzero : List (Nat × UInt8) :=
  (List.range hllM).zip h.toList |>.filter fun e => e.2 ≠ 0

def encode : Bytes :=
  if h.nonzero.length * 3 < hllM then
    0 :: h.nonzero.flatMap fun e => [UInt8.ofNat (e.1 / 256), UInt8.ofNat e.1, e.2]
  else 1 :: h.toList

end

/-- The triples of the sparse form. -/
def decodeTriples : Bytes → Sketch → Option Sketch
  | [], h => some h
  | hi :: lo :: v :: rest, h =>
    if hIdx : hi.toNat * 256 + lo.toNat < hllM then
      if hllQ + 1 < v.toNat then none else decodeTriples rest (h.set (hi.toNat * 256 + lo.toNat) v)
    else none
  | _, _ => none

end Sketch

def decodeHLL : Bytes → Option Sketch
  | [] => none
  | fmt :: body =>
    if fmt = 0 then (if body.length % 3 ≠ 0 then none else Sketch.decodeTriples body .empty)
    else if fmt = 1 then
      if h : body.length = hllM then some ⟨body.toArray, by simpa using h⟩ else none
    else none

/-! ## Strings -/

/-- A shift to the left in a byte. -/
def shl8 (v : UInt8) (n : Nat) : UInt8 := UInt8.ofNat (v.toNat * 2 ^ n)

/-- A shift to the right in a byte. -/
def shr8 (v : UInt8) (n : Nat) : UInt8 := UInt8.ofNat (v.toNat / 2 ^ n)

/-- `hyllHeader`, with the encoding in it. The cached cardinality is marked as
invalid. -/
def hyllHead (encoding : UInt8) : Bytes :=
  [72, 89, 76, 76, encoding, 0, 0, 0, 0, 0, 0, 0, 0, 0, 0, 0x80]

def hyllDense : Nat := 16 + hllM * 6 / 8

namespace Sketch

section

variable (h : Sketch)

/-- The registers packed into six bits each. A value may straddle into the next
byte. -/
def packed : Bytes :=
  (h.toList.zipIdx.foldl (fun out e =>
    let j := e.2 * 6 / 8
    let fb := e.2 * 6 % 8
    let out := out.modify j fun byte => byte ||| shl8 e.1 fb
    if 2 < fb then out.modify (j + 1) fun byte => byte ||| shr8 e.1 (8 - fb) else out)
    (Array.replicate (hllM * 6 / 8) 0)).toList

def encodeRedis : Bytes := hyllHead 0 ++ h.packed

/-- The codes of a run of zeros. -/
def zeroOps (run : Nat) : Bytes :=
  if run ≤ 64 then [UInt8.ofNat (run - 1)]
  else [0x40 ||| UInt8.ofNat ((run - 1) / 256), UInt8.ofNat (run - 1)]

/-- The codes of a run of a value, four registers at a time. -/
def valueOps (v : UInt8) (run : Nat) : Bytes :=
  List.replicate (run / 4) (0x80 ||| shl8 (v - 1) 2 ||| 3) ++
    if run % 4 = 0 then [] else [0x80 ||| shl8 (v - 1) 2 ||| UInt8.ofNat (run % 4 - 1)]

def sparseOps : Option Bytes :=
  let runs := h.toList.splitBy (· = ·)
  if runs.any fun run => run.any fun v => 32 < v then none
  else some (runs.flatMap fun run =>
    match run with
    | [] => []
    | v :: _ => if v = 0 then zeroOps run.length else valueOps v run.length)

def encodeSparse : Option Bytes :=
  match h.sparseOps with
  | none => none
  | some ops => if 3000 < 16 + ops.length then none else some (hyllHead 1 ++ ops)

def encodeAuto (pinDense : Bool) : Bytes :=
  if pinDense then h.encodeRedis else h.encodeSparse.getD h.encodeRedis

/-- The registers of the dense form. -/
def unpack (body : Bytes) : Option Sketch :=
  let regs : Sketch := Vector.ofFn fun i : Fin hllM =>
    let j := i.val * 6 / 8
    let fb := i.val * 6 % 8
    let v := shr8 (body.getD j 0) fb
    (if j + 1 < body.length then v ||| shl8 (body.getD (j + 1) 0) (8 - fb) else v) &&& 63
  if regs.toList.any fun v => hllQ + 1 < v.toNat then none else some regs

/-- Set a run of registers. -/
def setRun (idx run : Nat) (v : UInt8) : Sketch :=
  (List.range run).foldl (fun h i => h.setIfInBounds (idx + i) v) h

end

/-- The codes of the sparse form, from register `idx` on. -/
def decodeOps : Bytes → Nat → Sketch → Option Sketch
  | [], idx, h => if idx = hllM then some h else none
  | op :: rest, idx, h =>
    if op &&& 0xc0 = 0 then
      let idx := idx + (op &&& 0x3f).toNat + 1
      if hllM < idx then none else decodeOps rest idx h
    else if op &&& 0xc0 = 0x40 then
      match rest with
      | [] => none
      | lo :: rest =>
        let idx := idx + (op &&& 0x3f).toNat * 256 + lo.toNat + 1
        if hllM < idx then none else decodeOps rest idx h
    else
      let v := (shr8 op 2 &&& 0x1f) + 1
      let run := (op &&& 3).toNat + 1
      if hllM < idx + run ∨ hllQ + 1 < v.toNat then none
      else decodeOps rest (idx + run) (h.setRun idx run v)

end Sketch

def decodeRedis (b : Bytes) : Option Sketch :=
  if b.length < 16 ∨ b.take 4 ≠ [72, 89, 76, 76] then none
  else if b.getD 4 0 = 0 then
    if b.length ≠ hyllDense then none else Sketch.unpack (b.drop 16)
  else if b.getD 4 0 = 1 then Sketch.decodeOps (b.drop 16) 0 .empty
  else none

/-! ## Keys -/

variable (r : Db)

/-- What `hllLoad` returns: the merged sketch, this replica's own, and whether
there is any. -/
structure HllView where
  merged : Sketch
  own : Sketch
  any : Bool

/-- What `hllLoad` makes of the entries. -/
def hllView (base : List Seg) (entries : List (Path × Bytes)) : HllView :=
  entries.foldl (fun view e =>
    match decodeHLL e.2 with
    | none => view
    | some sk =>
      { merged := view.merged.merge sk
        own := if trimPrefix base e.1 = [.enc r.self.name] then view.own.merge sk else view.own
        any := true }) ⟨.empty, .empty, false⟩

section

variable (key : Bytes)

def hllLoad : ReadM HllView := do
  let base := hllBase r.num key
  let entries ← query base false
  pure (hllView r base entries)

def hllCheck : ReadM Int64 := do
  match ← probe r key with
  | none => pure 0
  | some k =>
    let m := (← readMeta r key).elim (⟨0, 0, 0, 0⟩ : MetaEnvelope) Prod.fst
    if k.type ≠ typeString ∨ ¬ isHLL m.flavor then .fail .keyType else pure m.etimeMS

variable (sk : Sketch) (etimeMS : Int64)

def hllStoreFlavor (kind : Kind .hll) : KeyM .hll Unit := do
  putComp .hll sk.encode
  writeMeta kind etimeMS

/-- `hllStore`: a key that is pinned to the dense encoding stays so. -/
def hllStore : KeyM .hll Unit := do
  let m ← (readMeta r key).attempt
  let dense := match m with
    | .ok (some (m, _)) => decide (m.flavor = flavorHLLDense)
    | _ => false
  hllStoreFlavor sk etimeMS (if dense then .hllDense else .hll)

/-- Fold the elements in; this replica's sketch gets those that changed the merged
one. -/
def hllAddAll (view : HllView) (elems : List Bytes) : Bool × HllView :=
  elems.foldl (fun acc e =>
    let (up, merged) := acc.2.merged.add e
    if up then (true, { acc.2 with merged := merged, own := (acc.2.own.add e).2 })
    else acc) (!view.any, view)

/-- `PFAdd`, with the lock of the key held. -/
def pfAdd (elems : List Bytes) : KeyM .hll Bool := do
  let etime ← hllCheck r key
  let view ← hllLoad r key
  let (changed, view) := hllAddAll view elems
  if changed then
    hllStore r key view.own etime
    pure true
  else pure false

end

/-- The union of the sketches of some keys. -/
def hllUnion (keys : List Bytes) (check : Bool) (acc : Sketch) : ReadM Sketch :=
  keys.foldlM (fun acc key => do
    if check then let _ ← hllCheck r key
    let view ← hllLoad r key
    pure (acc.merge view.merged)) acc

def pfCount (keys : List Bytes) : ReadM Int64 := do
  let union ← hllUnion r keys true .empty
  match union.count with
  | .ok n => pure n
  | .error e => .fail e

/-- What `PFMerge` does with the lock of the destination held. -/
def pfMerge (dest : Bytes) (srcs : List Bytes) : KeyM .hll Unit := do
  let etime ← hllCheck r dest
  let view ← hllLoad r dest
  let own ← hllUnion r srcs false (view.own.merge view.merged)
  hllStore r dest own etime

variable (key : Bytes)

def deleteHLL : KeyM .hll Unit := do
  let base := hllBase r.num key
  let entries ← query base true
  entries.forM fun e =>
    match trimPrefix base e.1 with
    | [.enc replica] => delComp .hll replica
    | _ => pure ()
  deleteMeta

def hllInspect : ReadM (Sketch × MetaEnvelope) := do
  match ← probe r key with
  | none => .fail (.text "ERR The specified key does not exist")
  | some k =>
    let m := (← readMeta r key).elim (⟨0, 0, 0, 0⟩ : MetaEnvelope) Prod.fst
    if k.type ≠ typeString ∨ ¬ isHLL m.flavor then .fail .keyType
    else
      let view ← hllLoad r key
      pure (view.merged, m)

/-- `PFToDense`, with the lock of the key held. -/
def pfToDense : KeyM .hll Bool := do
  let (sk, m) ← hllInspect r key
  if m.flavor = flavorHLLDense ∨ sk.encodeSparse = none then pure false
  else
    writeMeta .hllDense m.etimeMS
    pure true

end RedGeo.Repo
