import RedGeo.Lib.Float64
import RedGeo.Repo.Spaces

/-!
# RedGeo — what is stored under a key

The reading half of `crdtstore`: `readSlots`, `readMeta`, `probe` with `isLive`,
and for each type what it makes of the entries below its prefix. Every load is
one query followed by a pure function of what it returns. Go maps are lists of
pairs here, in the order in which the query returns the entries.
-/

namespace RedGeo.Repo

open Lib Store

/-! ## Slots -/

def readSlots (base : List Seg) : ReadM (List (Bytes × Slot)) := do
  let entries ← query base false
  pure (Store.readSlots base entries).pairs

/-- Entries as slots of several registers: `parse` says which register an entry
belongs to, and which replica. -/
def groupSlots {κ : Type} [DecidableEq κ] (parse : Path → Option (κ × Bytes))
    (entries : List (Path × Bytes)) : List (κ × List (Bytes × Slot)) :=
  let found := entries.filterMap fun e =>
    match parse e.1, decodeSlot e.2 with
    | some (name, replica), .ok sl => some (name, replica, sl)
    | _, _ => none
  (found.map Prod.fst).dedup.map fun name =>
    (name, (Dict.ofPairs ((found.filter fun c => c.1 = name).map Prod.snd)).pairs)

/-- The registers that are live, with their values. -/
def liveSlots {κ : Type} (regs : List (κ × List (Bytes × Slot))) : List (κ × Bytes) :=
  regs.filterMap fun reg => (liveValue reg.2).map fun v => (reg.1, v)

def anyPrefix (base : List Seg) : ReadM Bool := do
  let entries ← query base true
  pure !entries.isEmpty

/-- A name and a replica below a prefix. -/
def namedSlot (base : List Seg) (k : Path) : Option (Bytes × Bytes) :=
  match trimPrefix base k with
  | [.enc name, .enc replica] => some (name, replica)
  | _ => none

/-! ## Counters -/

section

variable (r : Db) (key : Bytes)

def counterComponentsInt : ReadM (List (Bytes × Int64)) := do
  let base := counterBase r.num key
  let entries ← query base false
  pure (Dict.ofPairs (entries.filterMap fun e =>
    match trimPrefix base e.1, parseInt e.2 with
    | [.enc replica], some n => some (replica, n)
    | _, _ => none)).pairs

def counterComponentsFloat : ReadM (List (Bytes × Float64)) := do
  let base := counterBase r.num key
  let entries ← query base false
  pure (Dict.ofPairs (entries.filterMap fun e =>
    match trimPrefix base e.1, Float64.parse e.2 with
    | [.enc replica], some f => some (replica, f)
    | _, _ => none)).pairs

def sumInt (comps : List (Bytes × Int64)) : Int64 := comps.foldl (fun sum c => sum + c.2) 0

def sumFloat (comps : List (Bytes × Float64)) : Float64 :=
  comps.foldl (fun sum c => sum.add c.2) (.zero false)

def counterSumInt : ReadM Int64 := do
  let comps ← counterComponentsInt r key
  pure (sumInt comps)

def counterSumFloat : ReadM Float64 := do
  let comps ← counterComponentsFloat r key
  pure (sumFloat comps)

def counterExists : ReadM Bool := anyPrefix (counterBase r.num key)

/-! ## Bitmaps -/

def chunkSlot (base : List Seg) (k : Path) : Option (Nat × Bytes) :=
  match trimPrefix base k with
  | [.chunk idx, .enc replica] => if idx < 2 ^ 32 then some (idx, replica) else none
  | _ => none

/-- The winning present chunks. -/
def liveChunks (base : List Seg) (entries : List (Path × Bytes)) : List (Nat × Bytes) :=
  liveSlots (groupSlots (chunkSlot base) entries)

def bitmapLoad : ReadM (List (Nat × Bytes)) := do
  let base := bitBase r.num key
  let entries ← query base false
  pure (liveChunks base entries)

/-! ## Hashes -/

def fmtNum (f : Float64) : Bytes := if f.isInt64 then formatInt f.toInt64.toInt else f.format

/-- A component of a counter field. -/
def fieldComponent (base : List Seg) (e : Path × Bytes) : Option (Bytes × Float64) :=
  match trimPrefix base e.1, Float64.parse e.2 with
  | [.enc field, .word .c, _], some n => some (field, n)
  | _, _ => none

section

variable (base : List Seg) (entries : List (Path × Bytes))

/-- The sums of the counter fields. -/
def counterFields : List (Bytes × Bytes) :=
  let found := entries.filterMap (fieldComponent base)
  (found.map Prod.fst).dedup.map fun field =>
    (field, fmtNum (sumFloat (found.filter fun c => c.1 = field)))

/-- What `hashLiveFields` makes of the entries: the counter fields, then the plain
fields that are not counters as well. -/
def liveFields : List (Bytes × Bytes) :=
  let counters := counterFields base entries
  counters ++ (liveSlots (groupSlots (namedSlot base) entries)).filter fun f =>
    f.1 ∉ counters.map Prod.fst

end

def hashLiveFields : ReadM (List (Bytes × Bytes)) := do
  let base := hashBase r.num key
  let entries ← query base false
  pure (liveFields base entries)

/-! ## Sorted sets -/

def encodeScore (f : Float64) : Bytes := toBe 8 f.bits.toNat

def decodeScore (b : Bytes) : Option Float64 :=
  if b.length = 8 then some (.ofBits (ofBe b)) else none

def liveScores (base : List Seg) (entries : List (Path × Bytes)) : List (Bytes × Float64) :=
  (liveSlots (groupSlots (namedSlot base) entries)).filterMap fun m =>
    (decodeScore m.2).map fun score => (m.1, score)

def zsetLiveScores : ReadM (List (Bytes × Float64)) := do
  let base := zsetBase r.num key
  let entries ← query base false
  pure (liveScores base entries)

/-! ## Documents and sketches -/

def jsonAnyLive : ReadM Bool := do
  let cands ← readSlots (jsonNodeBase r.num key [])
  pure (match liveValue cands with
    | some v => v ≠ []
    | none => false)

/-- `sketchParams`: the data are below the hash of the whole value. -/
structure SketchParams where
  kind : UInt8
  raw : Bytes
  hash : UInt64
  deriving DecidableEq, Repr

/-- The parameters that a value of the register stands for. -/
def sketchParams : Bytes → Option SketchParams
  | [] => none
  | kind :: raw => some ⟨kind, raw, fnv64a (kind :: raw)⟩

def readSketchParams : ReadM (Option SketchParams) := do
  let cands ← readSlots (sketchParamsBase r.num key)
  pure ((liveValue cands).bind sketchParams)

/-! ## Metadata -/

def readMeta (r : Db) (key : Bytes) : ReadM (Option (MetaEnvelope × Int64)) := do
  let cands ← readSlots (metaBase r.num key)
  pure (Store.readMeta cands)

def isCounter (flavor : UInt8) : Bool := flavor = 2 ∨ flavor = 3

def isHLL (flavor : UInt8) : Bool := flavor = 4 ∨ flavor = 6

def flavorString : UInt8 := 1

def flavorCounter : UInt8 := 2

def flavorCounterFloat : UInt8 := 3

def flavorBitmap : UInt8 := 5

def flavorHLLDense : UInt8 := 6

def typeString : UInt8 := 1

def typeList : UInt8 := 2

def typeSet : UInt8 := 3

def typeHash : UInt8 := 4

def typeZSet : UInt8 := 5

def typeStream : UInt8 := 6

def typeJSON : UInt8 := 7

def typeBloom : UInt8 := 8

def typeCMS : UInt8 := 9

def typeTopK : UInt8 := 10

/-- Where the data of a key are, by what its metadata say. -/
def spaceOf (m : MetaEnvelope) : Option Space :=
  if m.type = typeString then
    some (if isCounter m.flavor then .counter
      else if isHLL m.flavor then .hll
      else if m.flavor = flavorBitmap then .bitmap
      else .str)
  else if m.type = typeSet then some .set
  else if m.type = typeHash then some .hash
  else if m.type = typeZSet then some .zset
  else if m.type = typeList then some .list
  else if m.type = typeJSON then some .json
  else if m.type = typeBloom ∨ m.type = typeCMS ∨ m.type = typeTopK then some .sketch
  else if m.type = typeStream then some .stream
  else none

/-- `isLive`, for each space. -/
def spaceLive : Space → ReadM Bool
  | .counter => counterExists r key
  | .hll => anyPrefix (hllBase r.num key)
  | .bitmap => do
    let live ← bitmapLoad r key
    pure !live.isEmpty
  | .str => do
    let cands ← readSlots (strBase r.num key)
    pure (liveValue cands).isSome
  | .set => anyPrefix (setBase r.num key)
  | .hash => do
    let items ← hashLiveFields r key
    pure !items.isEmpty
  | .zset => do
    let scores ← zsetLiveScores r key
    pure !scores.isEmpty
  | .list => anyPrefix (listBase r.num key)
  | .json => jsonAnyLive r key
  | .sketch => do
    let params ← readSketchParams r key
    pure params.isSome
  | .stream => anyPrefix (streamLastBase r.num key)

def isLive (m : MetaEnvelope) : ReadM Bool :=
  match spaceOf m with
  | some X => spaceLive r key X
  | none => pure false

/-- Whether an expiry has passed; the clock is asked only if there is one. -/
def hasExpired (etimeMS : Int64) : ReadM Bool :=
  if 0 < etimeMS then do
    let now ← nowMS
    pure (etimeMS ≤ now)
  else pure false

def probe : ReadM (Option KeyInfo) := do
  match ← readMeta r key with
  | none => pure none
  | some (m, mtime) =>
    if ← hasExpired m.etimeMS then pure none
    else if ← isLive r key m then
      pure (some ⟨key, m.type, mtime, if 0 < m.etimeMS then some m.etimeMS else none⟩)
    else pure none

end

/-- `ensureHashType` and the like: the key is absent, or of the type. -/
def ensureType (r : Db) (type : UInt8) (key : Bytes) : ReadM Unit := do
  match ← probe r key with
  | some k => if k.type ≠ type then .fail .keyType else pure ()
  | none => pure ()

/-! ## What a node answers -/

section

variable (data : Datastore) (r : Db) (key : Bytes)

/-- The slots below a prefix. -/
def slotsAt (base : List Seg) : List (Bytes × Slot) := (Store.readSlots base (data.entries base)).pairs

/-- The metadata of a key. -/
def metaAt : Option (MetaEnvelope × Int64) := Store.readMeta (slotsAt data (metaBase r.num key))

/-- Whether a space of a key has live data. -/
def liveAt : Space → Bool
  | .counter => !(data.entries (counterBase r.num key)).isEmpty
  | .hll => !(data.entries (hllBase r.num key)).isEmpty
  | .bitmap => !(liveChunks (bitBase r.num key) (data.entries (bitBase r.num key))).isEmpty
  | .str => (liveValue (slotsAt data (strBase r.num key))).isSome
  | .set => !(data.entries (setBase r.num key)).isEmpty
  | .hash => !(liveFields (hashBase r.num key) (data.entries (hashBase r.num key))).isEmpty
  | .zset => !(liveScores (zsetBase r.num key) (data.entries (zsetBase r.num key))).isEmpty
  | .list => !(data.entries (listBase r.num key)).isEmpty
  | .json => match liveValue (slotsAt data (jsonNodeBase r.num key [])) with
    | some v => v ≠ []
    | none => false
  | .sketch => ((liveValue (slotsAt data (sketchParamsBase r.num key))).bind sketchParams).isSome
  | .stream => !(data.entries (streamLastBase r.num key)).isEmpty

end

variable (base : List Seg)

@[simp] lemma exec_query (keysOnly : Bool) (w : World) :
    (query base keysOnly).exec w = (.ok ((w.data.entries base).map (keyEntry keysOnly)), w) := rfl

lemma map_keyEntry_false (l : List (Path × Bytes)) : l.map (keyEntry false) = l :=
  List.map_id l

/-- A load is a function of what its query returns. -/
lemma exec_load {α : Type} (base : List Seg) (f : List (Path × Bytes) → α) (w : World) :
    ReadM.exec (do let entries ← query base false; pure (f entries)) w =
      (.ok (f (w.data.entries base)), w) := by
  show (Except.ok (f ((w.data.entries base).map (keyEntry false))), w) = _
  rw [map_keyEntry_false]

lemma exec_readSlots (w : World) :
    (readSlots base).exec w = (.ok (slotsAt w.data base), w) := exec_load _ _ w

lemma exec_anyPrefix (w : World) : (anyPrefix base).exec w = (.ok (!(w.data.entries base).isEmpty), w) := by
  show (Except.ok (!((w.data.entries base).map (keyEntry true)).isEmpty), w) = _
  rw [List.isEmpty_map]

end RedGeo.Repo
