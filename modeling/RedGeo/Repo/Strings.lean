import Mathlib.Data.UInt
import RedGeo.Lib.Time
import RedGeo.Repo.Hll

/-!
# RedGeo — strings

`crdtstore/rstring.go`, `crdtstore/counter.go` and `crdtstore/bitmap.go`. A string
key is stored in one of four ways, which its flavor tells: as a register, as a
counter with a component for each replica, as a HyperLogLog sketch, or as a
bitmap in chunks. `SET` and `SETBIT` go from one to another.
-/

namespace RedGeo.Repo

open Lib Store

variable (r : Db)

/-! ## Bitmaps -/

def bitChunk : Nat := 512

/-- The length of the string that the chunks make up: the last one fixes it. -/
def bitmapLength (live : List (Nat × Bytes)) : Nat :=
  let last := live.foldl (fun best c => match best with
    | none => some c
    | some b => if b.1 < c.1 then some c else some b) (none : Option (Nat × Bytes))
  last.elim 0 fun c => c.1 * bitChunk + c.2.length

/-- The bytes of that string. -/
def bitmapBytes (live : List (Nat × Bytes)) : Bytes :=
  (List.range (bitmapLength live)).map fun i => ((live.lookup (i / bitChunk)).getD []).getD (i % bitChunk) 0

/-- The chunks of a string that are written: those that are not all zeros, and the
last one, which fixes the length. -/
def bitmapChunks (data : Bytes) : List (Nat × Bytes) :=
  let n := (data.length + bitChunk - 1) / bitChunk
  ((List.range n).map fun idx => (idx, (data.drop (idx * bitChunk)).take bitChunk)).filter fun c =>
    ¬ (c.1 < n - 1 ∧ c.2.all (· = 0))

def bitmapWrite (key data : Bytes) (etimeMS : Int64) : KeyM .bitmap Unit := do
  let old ← bitmapLoad r key
  let chunks := bitmapChunks data
  chunks.forM fun c => writeSlot (.chunk c.1) tagPresent c.2
  (old.filter fun c => c.1 ∉ chunks.map Prod.fst).forM fun c => writeSlot (.chunk c.1) tagDeleted []
  writeMeta .bitmap etimeMS

section

variable (key : Bytes)

def deleteBitmap : KeyM .bitmap Unit := do
  let live ← bitmapLoad r key
  live.forM fun c => writeSlot (.chunk c.1) tagDeleted []
  deleteMeta

/-! ## Reading -/

/-- The flavor, of a key whose metadata are read a second time. -/
def flavorOf : ReadM MetaEnvelope := do
  let m ← readMeta r key
  pure (m.elim ⟨0, 0, 0, 0⟩ Prod.fst)

def readValue : ReadM Bytes := do
  match ← probe r key with
  | none => .fail .notFound
  | some k =>
    if k.type ≠ typeString then .fail .keyType
    else
      let m ← flavorOf r key
      if isHLL m.flavor then
        let view ← hllLoad r key
        pure (view.merged.encodeAuto (m.flavor = flavorHLLDense))
      else if m.flavor = flavorBitmap then
        let live ← bitmapLoad r key
        pure (bitmapBytes live)
      else if m.flavor = flavorCounter then
        let sum ← counterSumInt r key
        pure (formatInt sum.toInt)
      else if m.flavor = flavorCounterFloat then
        let sum ← counterSumFloat r key
        pure sum.format
      else
        let cands ← readSlots (strBase r.num key)
        match liveValue cands with
        | some v => pure v
        | none => .fail .notFound

def strGet : ReadM Bytes := readValue r key

end

/-- `GetMany`: missing keys and keys of other types are left out. -/
def strGetMany (keys : List Bytes) : ReadM (List (Bytes × Bytes)) :=
  keys.foldlM (fun out key => do
    match ← (readValue r key).attempt with
    | .ok v => pure (out ++ [(key, v)])
    | .error .notFound | .error .keyType => pure out
    | .error e => .fail e) []

/-! ## Writing -/

variable (key : Bytes)

/-- What `writeString` does about the way the key has been stored so far. -/
def clearFlavor (m : MetaEnvelope) : StoreM Unit := do
  if isCounter m.flavor then
    let live ← (counterExists r key).attempt
    if live.toOption = some true then .fail .keyType
  else if isHLL m.flavor then r.on key (deleteHLL r key)
  else if m.flavor = flavorBitmap then r.on key (deleteBitmap r key)

section

variable (key b : Bytes)

section

variable (etimeMS : Int64)

def writeString (keepTTL : Bool) : StoreM Unit := do
  match ← (readMeta r key).attempt with
  | .ok (some (m, _)) => clearFlavor r key m
  | _ => pure ()
  let etimeMS ← if keepTTL then do
      match ← (readMeta r key).attempt with
      | .ok (some (m, _)) => pure m.etimeMS
      | _ => pure etimeMS
    else pure etimeMS
  match decodeRedis b with
  | some sk =>
    -- a dense value stays dense
    r.on key (hllStoreFlavor sk etimeMS (if b.getD 4 0 = 0 then .hllDense else .hll))
  | none =>
    r.on key do
      writeSlot .value tagPresent b
      writeMeta .string etimeMS

/-- How `writeString` ends: the value is put, as a sketch if it is one. -/
def putString : StoreM Unit :=
  match decodeRedis b with
  | some sk => r.on key (hllStoreFlavor sk etimeMS (if b.getD 4 0 = 0 then .hllDense else .hll))
  | none => r.on key do
    writeSlot .value tagPresent b
    writeMeta .string etimeMS

/-- What `writeString` does after clearing: with `KEEPTTL` the metadata are read again. -/
def storeString (keepTTL : Bool) : StoreM Unit := do
  let etimeMS ← if keepTTL then do
      match ← (readMeta r key).attempt with
      | .ok (some (m, _)) => pure m.etimeMS
      | _ => pure etimeMS
    else pure etimeMS
  putString r key b etimeMS

end

def strSetExpire (ttl : Duration) : StoreM Unit := do
  let etimeMS ← if 0 < ttl then do
      let now ← nowMS
      pure (now + ttl.milliseconds)
    else pure 0
  withLock (lockKey r.num key) (writeString r key b etimeMS false)

def strSet : StoreM Unit := strSetExpire r key b 0

def strSetMany (items : List (Bytes × Bytes)) : StoreM Unit :=
  items.forM fun item => strSet r item.1 item.2

structure SetOpts where
  ifNotExists : Bool := false
  ifExists : Bool := false
  get : Bool := false
  atMS : Int64 := 0
  ttlMS : Int64 := 0
  keepTTL : Bool := false
  deriving DecidableEq, Repr

structure SetOut where
  prev : Option Bytes := none
  created : Bool := false
  updated : Bool := false
  deriving DecidableEq, Repr

/-- What `SetWith` does with the lock of the key held. -/
def setWithLocked (opts : SetOpts) : StoreM SetOut := do
  let prev ← (readValue r key).attempt
  let found := prev.toOption.isSome
  if opts.get ∧ prev.map (fun _ => ()) = .error .keyType then .fail .keyType
  else
    let out : SetOut := { prev := if opts.get then prev.toOption else none }
    if opts.ifNotExists ∧ found then pure out
    else if opts.ifExists ∧ ¬ found then pure out
    else
      let etimeMS ← if 0 < opts.atMS then pure opts.atMS
        else if 0 < opts.ttlMS then do
          let now ← nowMS
          pure (now + opts.ttlMS)
        else pure 0
      writeString r key b etimeMS opts.keepTTL
      pure { out with created := !found, updated := found }

def strSetWith (opts : SetOpts) : StoreM SetOut :=
  withLock (lockKey r.num key) (setWithLocked r key b opts)

end

/-! ## Counters -/

/-- `counterFlavor`: the key is absent, or a counter of the flavor. -/
def counterFlavorCheck (want : UInt8) : ReadM Unit := do
  match ← probe r key with
  | none => pure ()
  | some k =>
    if k.type ≠ typeString then .fail .keyType
    else
      let m ← flavorOf r key
      if ¬ isCounter m.flavor ∨ m.flavor ≠ want then .fail .valueType else pure ()

def keepETime : ReadM Int64 := do
  match ← readMeta r key with
  | some (m, _) => pure m.etimeMS
  | none => pure 0

/-- This replica's component, and those of the others. -/
def ownComponent {α : Type} (comps : List (Bytes × α)) : Option α × List (Bytes × α) :=
  (comps.lookup r.self.name, comps.filter fun c => c.1 ≠ r.self.name)

def incrInt (delta etimeMS : Int64) : KeyM .counter Int64 := do
  let comps ← counterComponentsInt r key
  let (own, others) := ownComponent r comps
  let mine := own.getD 0 + delta
  putComp .counter (formatInt mine.toInt)
  writeMeta .counter etimeMS
  pure (sumInt others + mine)

def incrFloat (delta : Float64) (etimeMS : Int64) : KeyM .counter Float64 := do
  let comps ← counterComponentsFloat r key
  let (own, others) := ownComponent r comps
  let mine := (own.getD (.zero false)).add delta
  putComp .counter mine.format
  writeMeta .counterFloat etimeMS
  pure ((sumFloat others).add mine)

/-- `Incr`, with the lock of the key held. -/
def strIncr (delta : Int64) : KeyM .counter Int64 := do
  counterFlavorCheck r key flavorCounter
  let etimeMS ← keepETime r key
  incrInt r key delta etimeMS

/-- `IncrFloat`, with the lock of the key held. -/
def strIncrFloat (delta : Float64) : KeyM .counter Float64 := do
  counterFlavorCheck r key flavorCounterFloat
  let etimeMS ← keepETime r key
  incrFloat r key delta etimeMS

def deleteCounter : KeyM .counter Unit := do
  let base := counterBase r.num key
  let entries ← query base true
  entries.forM fun e =>
    match trimPrefix base e.1 with
    | [.enc replica] => delComp .counter replica
    | _ => pure ()
  deleteMeta

/-! ## Bits -/

/-- `bitmapKind`, with the expiry. -/
inductive BitKind
  | absent
  | bitmap (etimeMS : Int64)
  | string (etimeMS : Int64)

def bitKind : ReadM BitKind := do
  match ← probe r key with
  | none => pure .absent
  | some k =>
    if k.type ≠ typeString then .fail .keyType
    else
      let m ← flavorOf r key
      pure (if m.flavor = flavorBitmap then .bitmap m.etimeMS else .string m.etimeMS)

/-- The bit of an offset in its byte; the first one is the most significant. -/
def bitMask (offset : UInt64) : UInt8 := 0x80 >>> (UInt8.ofNat (offset.toNat % 8))

/-- The byte with the bit on or off. -/
def putBit (byte mask : UInt8) (on : Bool) : UInt8 :=
  if on then byte ||| mask else byte &&& ~~~mask

/-- A string with a bit set, extended by zeros as far as needed. -/
def setBitIn (data : Bytes) (pos : Nat) (mask : UInt8) (on : Bool) : Bytes :=
  (data ++ List.replicate (pos + 1 - data.length) 0).modify pos fun byte => putBit byte mask on

def errBitOffset : Err := .text "ERR bit offset is not an integer or out of range"

def maxBitIndex : UInt64 := 2 ^ 32 - 1

/-- `SetBit` on a key stored as a plain string: it becomes a bitmap. -/
def setBitString (pos : Nat) (mask : UInt8) (on : Bool) (etimeMS : Int64) :
    StoreM Bool := do
  let m ← flavorOf r key
  if m.flavor ≠ flavorString then .fail .keyType
  else
    let v ← readValue r key
    r.on key (writeSlot .value tagDeleted [])
    r.on key (bitmapWrite r key (setBitIn v pos mask on) etimeMS)
    pure (v.getD pos 0 &&& mask ≠ 0)

/-- `SetBit` on a chunk, for a key that is absent or a bitmap. -/
def setBitChunk (pos : Nat) (mask : UInt8) (on isNew : Bool) : KeyM .bitmap Bool := do
  let idx := pos / bitChunk
  let at_ := pos % bitChunk
  let chunk ← if isNew then pure [] else do
    let live ← bitmapLoad r key
    pure ((live.lookup idx).getD [])
  let old : Bool := chunk.getD at_ 0 &&& mask ≠ 0
  if old = on ∧ ¬ isNew ∧ at_ < chunk.length then pure old
  else
    writeSlot (.chunk idx) tagPresent (setBitIn chunk at_ mask on)
    if isNew then writeMeta .bitmap 0
    pure old

def setBit (offset : UInt64) (on : Bool) : StoreM Bool := do
  if maxBitIndex < offset then .fail errBitOffset
  else
    let pos := offset.toNat / 8
    let mask := bitMask offset
    withLock (lockKey r.num key) do
      match ← bitKind r key with
      | .string etimeMS => setBitString r key pos mask on etimeMS
      | .bitmap _ => r.on key (setBitChunk r key pos mask on false)
      | .absent => r.on key (setBitChunk r key pos mask on true)

def loadBytes : ReadM (Option Bytes) := do
  match ← (readValue r key).attempt with
  | .ok v => pure (some v)
  | .error .notFound => pure none
  | .error e => .fail e

def getBit (offset : UInt64) : ReadM Bool := do
  if maxBitIndex < offset then .fail errBitOffset
  else
    let pos := offset.toNat / 8
    match ← bitKind r key with
    | .absent => pure false
    | .bitmap _ =>
      let cands ← readSlots (bitChunkBase r.num key (pos / bitChunk))
      let chunk := (liveValue cands).getD []
      pure (chunk.getD (pos % bitChunk) 0 &&& bitMask offset ≠ 0)
    | .string _ =>
      let v ← loadBytes r key
      pure ((v.getD []).getD pos 0 &&& bitMask offset ≠ 0)

end RedGeo.Repo
