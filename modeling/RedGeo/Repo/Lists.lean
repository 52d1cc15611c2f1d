import RedGeo.Repo.Reads
import RedGeo.Store.Text

/-!
# RedGeo — lists

`crdtstore/rlist.go`. An element is kept under its position, a floating-point
number in an encoding that sorts like the numbers, made unique by the replica and
a counter. The same positions are used for the elements of JSON arrays.
-/

namespace RedGeo.Repo

open Lib Store

variable (r : Db)

/-! ## Positions -/

/-- The bits that `encodePos` writes: the sign is flipped for numbers that are not
negative, all bits are for the others. -/
def posBits (f : Float64) : UInt64 :=
  if (Float64.zero false).le f then f.bits ||| 0x8000000000000000 else ~~~f.bits

def decodePos (text : Bytes) : Option Float64 :=
  if text.length < 16 then none
  else
    match parseNat 16 (text.take 16) with
    | none => none
    | some n =>
      let u := UInt64.ofNat n
      some ⟨if u &&& 0x8000000000000000 ≠ 0 then u &&& 0x7fffffffffffffff else ~~~u⟩

def makePosKey (pos : Float64) : ReadM Bytes := do
  let seq ← nextSeq
  pure (posText (posBits pos) r.self seq)

/-! ## Elements -/

structure ListEntry where
  posKey : List Seg
  pos : Float64
  value : Bytes
  deriving DecidableEq, Repr

/-- The text of what stands below the prefix. -/
def restText (rest : List Seg) : Bytes := (rest.map Seg.text).intersperse [47] |>.flatten

/-- What `entries` makes of what is stored: the elements in the order of their
positions. -/
def listEntries (base : List Seg) (stored : List (Path × Bytes)) : List ListEntry :=
  let found := stored.filterMap fun e =>
    let rest := trimPrefix base e.1
    (decodePos (restText rest)).map fun pos => (⟨rest, pos, e.2⟩ : ListEntry)
  found.mergeSort fun a b => restText a.posKey ≤ restText b.posKey

section

variable (key : Bytes)

/-- `entries`. -/
def listLoad : ReadM (List ListEntry) := do
  let base := listBase r.num key
  let stored ← query base false
  pure (listEntries base stored)

/-- The elements of a list, if the key is one. -/
def listOpen : ReadM (List ListEntry) := do
  ensureType r typeList key
  listLoad r key

def absIndex (idx : Int) (n : Nat) : Int := if idx < 0 then n + idx else idx

def rangeBounds (start stop : Int) (n : Nat) : Int × Int :=
  if n = 0 then (0, -1)
  else (max 0 (absIndex start n), min (n - 1 : Int) (absIndex stop n))

/-- The element at an index. -/
def entryAt (es : List ListEntry) (idx : Int) : Option ListEntry :=
  let i := absIndex idx es.length
  if i < 0 then none else es[i.toNat]?

/-! ## Reading -/

def listLen : ReadM Nat := do
  let es ← listOpen r key
  pure es.length

def listGet (idx : Int) : ReadM Bytes := do
  let es ← listOpen r key
  match entryAt es idx with
  | some e => pure e.value
  | none => .fail .notFound

/-- The elements between two indexes. -/
def slice (es : List ListEntry) (start stop : Int) : List ListEntry :=
  let (lo, hi) := rangeBounds start stop es.length
  if hi < lo then [] else (es.drop lo.toNat).take (hi - lo + 1).toNat

def listRange (start stop : Int) : ReadM (List Bytes) := do
  let es ← listOpen r key
  pure ((slice es start stop).map ListEntry.value)

end

/-! ## Writing, with the lock of the key held -/

/-- Put an element at a new position. -/
def putElem (pos : Float64) (b : Bytes) : KeyM .list Unit := do
  let posKey ← makePosKey r pos
  putComp (.elem [.pos posKey]) b

/-- The position in front of a list or behind it. -/
def endPos (es : List ListEntry) (front : Bool) : Float64 :=
  match es.head?, es.getLast? with
  | some first, some last => if front then first.pos.sub (.ofInt 1) else last.pos.add (.ofInt 1)
  | _, _ => .zero false

def listPush (key b : Bytes) (front : Bool) : KeyM .list Nat := do
  let es ← listOpen r key
  putElem r (endPos es front) b
  writeMeta .list 0
  pure (es.length + 1)

variable (key : Bytes)

def listPop (front : Bool) : KeyM .list Bytes := do
  let es ← listOpen r key
  match if front then es.head? else es.getLast? with
  | none => .fail .notFound
  | some victim =>
    delComp (.elem victim.posKey) []
    if es.length = 1 then let _ ← (deleteMeta : KeyM .list Unit).attempt
    pure victim.value

def listSet (idx : Int) (b : Bytes) : KeyM .list Unit := do
  let es ← listOpen r key
  match entryAt es idx with
  | some e => putComp (.elem e.posKey) b
  | none => .fail .notFound

/-- The position next to an element. -/
def besidePos (es : List ListEntry) (i : Nat) (before : Bool) : Float64 :=
  let at_ (j : Nat) : Float64 := (es[j]?.map ListEntry.pos).getD (.zero false)
  if before then
    if i = 0 then (at_ 0).sub (.ofInt 1) else ((at_ (i - 1)).add (at_ i)).div (.ofInt 2)
  else if i = es.length - 1 then (at_ i).add (.ofInt 1)
  else ((at_ i).add (at_ (i + 1))).div (.ofInt 2)

/-- `insert`: without the pivot, nothing is inserted. -/
def listInsert (key pivot b : Bytes) (before : Bool) : KeyM .list Int := do
  let es ← listOpen r key
  match es.findIdx? fun e => e.value = pivot with
  | none => pure (-1)
  | some i =>
    putElem r (besidePos es i before) b
    pure (es.length + 1)

/-- Remove some elements of a list, and the metadata if they are all. -/
def removeEntries (es victims : List ListEntry) : KeyM .list Nat := do
  victims.forM fun e => delComp (.elem e.posKey) []
  if victims.length = es.length then let _ ← (deleteMeta : KeyM .list Unit).attempt
  pure victims.length

/-- `deleteMatching`: `count` elements from the front, or from the back if it is
negative, or all if it is zero. -/
def listDeleteMatching (key elem : Bytes) (count : Int) : KeyM .list Nat := do
  let es ← listOpen r key
  let order := if count < 0 then es.reverse else es
  let found := order.filter fun e => e.value = elem
  removeEntries es (if count = 0 then found else found.take count.natAbs)

def listTrim (start stop : Int) : KeyM .list Nat := do
  let es ← listOpen r key
  let (lo, hi) := rangeBounds start stop es.length
  removeEntries es ((es.zipIdx.filter fun e => ¬ (lo ≤ (e.2 : Int) ∧ (e.2 : Int) ≤ hi)).map Prod.fst)

def listPopBackPushFront (src dest : Bytes) : StoreM Bytes := do
  let v ← r.locked src (listPop r src false)
  let _ ← r.locked dest (listPush r dest v true)
  pure v

end RedGeo.Repo
