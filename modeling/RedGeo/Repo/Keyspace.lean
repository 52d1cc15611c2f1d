import RedGeo.Repo.Bits
import RedGeo.Repo.Counts
import RedGeo.Repo.Hashes
import RedGeo.Repo.Json
import RedGeo.Repo.Streams
import RedGeo.Repo.ZSets

/-!
# RedGeo — keys

`crdtstore/keyops.go`, `crdtstore/rkey.go`, `crdtstore/expire.go`, and the commands on
strings that delete what is at their destination. Here a key is of whichever type
its metadata say, and what is done to it depends on that.
-/

namespace RedGeo.Repo

open Lib Store

variable (r : Db)

/-! ## Deleting -/

/-- What `deleteKey` does with a string that is a plain register. -/
def deleteString : KeyM .str Unit := do
  writeSlot .value tagDeleted []
  deleteMeta

section

variable (key : Bytes)

def deleteHash : KeyM .hash Unit := do
  deleteHashData r key
  deleteMeta

def deleteSet : KeyM .set Unit := do
  let names ← members r key
  names.forM fun m => delComp (.member m) []
  deleteMeta

def deleteZSet : KeyM .zset Unit := do
  let scores ← zsetLiveScores r key
  scores.forM fun m => writeSlot (.score m.1) tagDeleted []
  deleteMeta

def deleteList : KeyM .list Unit := do
  let base := listBase r.num key
  let entries ← query base true
  entries.forM fun e => delComp (.elem (trimPrefix base e.1)) []
  deleteMeta

/-- The string case of `deleteKey`; metadata that cannot be read are those of a plain
string. -/
def deleteStringKey : StoreM Unit := do
  match ← (readMeta r key).attempt with
  | .ok (some (m, _)) =>
    if isCounter m.flavor then r.on key (deleteCounter r key)
    else if isHLL m.flavor then r.on key (deleteHLL r key)
    else if m.flavor = flavorBitmap then r.on key (deleteBitmap r key)
    else r.on key deleteString
  | _ => r.on key deleteString

def deleteKey (type : UInt8) : StoreM Unit :=
  if type = typeString then deleteStringKey r key
  else if type = typeHash then r.on key (deleteHash r key)
  else if type = typeSet then r.on key (deleteSet r key)
  else if type = typeZSet then r.on key (deleteZSet r key)
  else if type = typeList then r.on key (deleteList r key)
  else if type = typeJSON then r.on key (deleteJSON r key)
  else if type = typeBloom ∨ type = typeCMS ∨ type = typeTopK then r.on key (deleteSketch r key)
  else if type = typeStream then r.on key (deleteStream r key)
  else putSlot r.self (metaBase r.num key) tagDeleted []

end

/-! ## Copying, for `RENAME`

Each copy is a program on the new key. What is there is not removed. -/

section

variable (key : Bytes)

section

variable (m : MetaEnvelope)

def copyHLL : KeyM .hll Unit := do
  let view ← hllLoad r key
  hllStoreFlavor view.merged m.etimeMS (if m.flavor = flavorHLLDense then .hllDense else .hll)

def copyBitmap (key newKey : Bytes) (m : MetaEnvelope) : KeyM .bitmap Unit := do
  let live ← bitmapLoad r key
  bitmapWrite r newKey (bitmapBytes live) m.etimeMS

/-- A counter becomes one component, of this replica. -/
def copyCounter : KeyM .counter Unit := do
  if m.flavor = flavorCounter then
    let sum ← counterSumInt r key
    putComp .counter (formatInt sum.toInt)
    writeMeta .counter m.etimeMS
  else
    let sum ← counterSumFloat r key
    putComp .counter sum.format
    writeMeta .counterFloat m.etimeMS

def copyString : KeyM .str Unit := do
  let cands ← readSlots (strBase r.num key)
  match liveValue cands with
  | none => pure ()
  | some v =>
    writeSlot .value tagPresent v
    writeMeta .string m.etimeMS

end

def copySet : KeyM .set Unit := do
  let names ← members r key
  names.forM fun m => putComp (.member m) presence
  writeMeta .set 0

def copyZSet : KeyM .zset Unit := do
  let scores ← zsetLiveScores r key
  scores.forM fun m => writeSlot (.score m.1) tagPresent (encodeScore m.2)
  writeMeta .zset 0

def copyList : KeyM .list Unit := do
  let base := listBase r.num key
  let entries ← query base false
  entries.forM fun e => putComp (.elem (trimPrefix base e.1)) e.2
  writeMeta .list 0

/-- The string case of `copyKey`: only strings keep their expiry. -/
def copyStringKey (key newKey : Bytes) : StoreM Unit := do
  let m ← flavorOf r key
  if isHLL m.flavor then r.on newKey (copyHLL r key m)
  else if m.flavor = flavorBitmap then r.on newKey (copyBitmap r key newKey m)
  else if isCounter m.flavor then r.on newKey (copyCounter r key m)
  else r.on newKey (copyString r key m)

/-- `copyKey`. No key that exists is of another type. -/
def copyKey (key newKey : Bytes) (type : UInt8) : StoreM Unit :=
  if type = typeString then copyStringKey r key newKey
  else if type = typeHash then do
    copyHashData r key newKey
    r.on newKey (writeMeta .hash 0)
  else if type = typeSet then r.on newKey (copySet r key)
  else if type = typeZSet then r.on newKey (copyZSet r key)
  else if type = typeList then r.on newKey (copyList r key)
  else if type = typeJSON then r.on newKey (copyJSON r key)
  else if type = typeBloom ∨ type = typeCMS ∨ type = typeTopK then r.on newKey (copySketch r key newKey)
  else if type = typeStream then r.on newKey (copyStream r key)
  else .fail (.text "crdtstore: RENAME of type unknown not yet supported")

/-! ## `RKey` -/

def keyGet : ReadM KeyInfo := do
  match ← probe r key with
  | some k => pure k
  | none => .fail .notFound

def keyExists : ReadM Bool := do
  let k ← probe r key
  pure k.isSome

end

def keyCount (keys : List Bytes) : ReadM Nat :=
  keys.foldlM (fun n key => do
    let found ← keyExists r key
    pure (if found then n + 1 else n)) 0

/-- The names in some metadata. A slot that has no segment for the name of its key
gives the name of its replica. -/
def metaNames (base : List Seg) (entries : List (Path × Bytes)) : List Bytes :=
  entries.filterMap fun e =>
    match trimPrefix base e.1 with
    | .enc name :: _ => some name
    | _ => none

/-- `listKeys`, from one prefix: the names that have been seen, and those of keys
that exist. -/
def listKeysIn (acc : List Bytes × List Bytes) (base : List Seg) : ReadM (List Bytes × List Bytes) := do
  let entries ← query base true
  (metaNames base entries).foldlM (fun acc key =>
    if key ∈ acc.1 then pure acc
    else do
      let found ← keyExists r key
      pure (key :: acc.1, if found then key :: acc.2 else acc.2)) acc

def listKeys : ReadM (List Bytes) := do
  let acc ← (dbMetaBases r.num).foldlM (listKeysIn r) ([], [])
  pure (sortBytes acc.2)

def keyLen : ReadM Nat := do
  let names ← listKeys r
  pure names.length

/-- `Keys`, with the names that the pattern matches. -/
def keyKeys (matching : Bytes → Bool) : ReadM (List KeyInfo) := do
  let names ← listKeys r
  let found ← (names.filter matching).mapM (probe r)
  pure (found.filterMap id)

def keyRandom : ReadM (Option KeyInfo) := do
  match ← listKeys r with
  | [] => .fail .notFound
  | name :: names =>
    let i ← random (names.length + 1)
    probe r ((name :: names).getD i [])

/-- `Delete`, of one key. -/
def deleteOne (key : Bytes) : StoreM Bool :=
  withLock (lockKey r.num key) do
    match ← (probe r key : ReadM _) with
    | none => pure false
    | some k =>
      deleteKey r key k.type
      pure true

def keyDelete (keys : List Bytes) : StoreM Nat :=
  keys.foldlM (fun n key => do
    let gone ← deleteOne r key
    pure (if gone then n + 1 else n)) 0

def deleteAll : StoreM Unit := do
  let names ← listKeys r
  let _ ← keyDelete r names

variable (key : Bytes)

def setETime (etimeMS : Int64) : StoreM Unit :=
  withLock (lockKey r.num key) do
    match ← (probe r key : ReadM _) with
    | none => .fail .notFound
    | some _ =>
      match ← (readMeta r key : ReadM _) with
      | none => .fail .notFound
      | some (m, _) =>
        putSlot r.self (metaBase r.num key) tagPresent (encodeMeta { m with etimeMS := etimeMS })

def keyExpire (ttlMS : Int64) : StoreM Unit := do
  let now ← nowMS
  setETime r key (now + ttlMS)

def keyExpireAt (atMS : Int64) : StoreM Unit := setETime r key atMS

def keyPersist : StoreM Unit := setETime r key 0

def keyRename (key newKey : Bytes) : StoreM Unit :=
  if key = newKey then do
    let found ← keyExists r key
    if found then pure () else .fail .notFound
  else
    withLocks (lockKey r.num key) (lockKey r.num newKey) do
      match ← (probe r key : ReadM _) with
      | none => .fail .notFound
      | some k =>
        copyKey r key newKey k.type
        deleteKey r key k.type

/-- `RenameNotExists`: the new key is looked at before the locks are taken. -/
def keyRenameNotExists (key newKey : Bytes) : StoreM Bool := do
  let found ← keyExists r newKey
  if found then pure false
  else
    keyRename r key newKey
    pure true

/-! ## Expiry -/

/-- The keys below a metadata prefix that have expired, with their types. -/
def expiredKeys (now : Int64) (base : List Seg) (entries : List (Path × Bytes)) : List (Bytes × UInt8) :=
  (liveSlots (groupSlots (namedSlot base) entries)).filterMap fun e =>
    match decodeMeta e.2 with
    | some m => if m.etimeMS = 0 ∨ now < m.etimeMS then none else some (e.1, m.type)
    | none => none

/-- `SweepExpired`, below one prefix. -/
def sweepIn (now : Int64) (base : List Seg) : StoreM Nat := do
  let entries ← query base false
  let expired := expiredKeys now base entries
  expired.forM fun k => withLock (lockKey r.num k.1) (deleteKey r k.1 k.2)
  pure expired.length

def numDBs : Nat := 16

def sweepExpired (self : Replica) : StoreM Nat := do
  let now ← nowMS
  (List.range numDBs).foldlM (fun swept db =>
    let r : Db := ⟨self, Int64.ofNat db⟩
    (dbMetaBases r.num).foldlM (fun swept base => do
      let n ← sweepIn r now base
      pure (swept + n)) swept) 0

/-! ## Strings -/

def strPFMerge (dest : Bytes) (srcs : List Bytes) : StoreM Unit := do
  srcs.forM fun src => do
    let _ ← (hllCheck r src : ReadM _)
  r.locked dest (pfMerge r dest srcs)

/-- What is at the destination of `BitOp` goes, unless it is a bitmap. -/
def clearForBitmap (dest : Bytes) (type : UInt8) : StoreM Unit := do
  match ← (bitKind r dest : ReadM _).attempt with
  | .ok (.bitmap _) => pure ()
  | .ok _ | .error .keyType => deleteKey r dest type
  | .error _ => pure ()

def bitOp (op : BitOperation) (dest : Bytes) (srcs : List Bytes) : StoreM Nat := do
  let data ← (srcs.mapM fun src => do
    let v ← loadBytes r src
    pure (v.getD []) : ReadM _)
  let out := bitop op data
  withLock (lockKey r.num dest) do
    let found ← (probe r dest : ReadM _)
    if out = [] then
      match found with
      | some k => deleteKey r dest k.type
      | none => pure ()
    else
      match found with
      | some k => clearForBitmap r dest k.type
      | none => pure ()
      r.on dest (bitmapWrite r dest out 0)
    pure out.length

end RedGeo.Repo
