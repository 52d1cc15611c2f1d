import RedGeo.Repo.Reads

/-!
# RedGeo — hashes

`crdtstore/rhash.go`. A field is a register, or a counter with a component for
each replica; which of the two, is told by whether there are components.
-/

namespace RedGeo.Repo

open Lib Store

variable (r : Db)

section

variable (key field : Bytes)

def fieldSlots : ReadM (List (Bytes × Slot)) :=
  readSlots (hashFieldBase r.num key field)

/-- Whether a field is live as a plain one. -/
def fieldLive : ReadM Bool := do
  let cands ← fieldSlots r key field
  pure (liveValue cands).isSome

def hashFieldIsCounter : ReadM Bool :=
  anyPrefix (hashFieldCounterBase r.num key field)

def hashCounterSum : ReadM Float64 := do
  let entries ← query (hashFieldCounterBase r.num key field) false
  pure (entries.foldl (fun sum e => match Float64.parse e.2 with
    | some n => sum.add n
    | none => sum) (.zero false))

/-! ## Reading -/

def hashGet : ReadM Bytes := do
  ensureType r typeHash key
  if ← hashFieldIsCounter r key field then do
    let sum ← hashCounterSum r key field
    pure (fmtNum sum)
  else
    let cands ← fieldSlots r key field
    match liveValue cands with
    | some v => pure v
    | none => .fail .notFound

end

def hashGetMany (key : Bytes) (fields : List Bytes) : ReadM (List (Bytes × Bytes)) := do
  ensureType r typeHash key
  fields.foldlM (fun out field => do
    let cands ← fieldSlots r key field
    match liveValue cands with
    | some v => pure (out ++ [(field, v)])
    | none => pure out) []

def hashExists (key field : Bytes) : ReadM Bool := do
  match ← (hashGet r key field).attempt with
  | .ok _ => pure true
  | .error .notFound => pure false
  | .error e => .fail e

def hashItems (key : Bytes) : ReadM (List (Bytes × Bytes)) := do
  ensureType r typeHash key
  hashLiveFields r key

def hashLen (key : Bytes) : ReadM Nat := do
  let items ← hashItems r key
  pure items.length

/-! ## Writing, with the lock of the key held -/

section

variable (key field b : Bytes)

def setField : KeyM .hash Bool := do
  if ← hashFieldIsCounter r key field then .fail .keyType
  else
    let live ← fieldLive r key field
    writeSlot (.field field) tagPresent b
    writeMeta .hash 0
    pure !live

def hashSet : KeyM .hash Bool := do
  ensureType r typeHash key
  setField r key field b

def hashSetMany (key : Bytes) (items : List (Bytes × Bytes)) : KeyM .hash Nat := do
  ensureType r typeHash key
  items.foldlM (fun n item => do
    let created ← setField r key item.1 item.2
    pure (if created then n + 1 else n)) 0

def hashSetNotExists : KeyM .hash Bool := do
  ensureType r typeHash key
  if ← fieldLive r key field then pure false
  else do
    let _ ← setField r key field b
    pure true

end

/-- Tombstone the metadata if no field is left; whatever fails here is ignored. -/
def dropEmptyHash (key : Bytes) : KeyM .hash Unit := do
  match ← (hashLiveFields r key : ReadM _).attempt with
  | .ok [] => let _ ← (deleteMeta : KeyM .hash Unit).attempt
  | _ => pure ()

def hashDelete (key : Bytes) (fields : List Bytes) : KeyM .hash Nat := do
  ensureType r typeHash key
  let n ← fields.foldlM (fun n field => do
    if ← fieldLive r key field then do
      writeSlot (.field field) tagDeleted []
      pure (n + 1)
    else pure n) 0
  dropEmptyHash r key
  pure n

section

variable (key field : Bytes)

def rejectLWWField : ReadM Unit := do
  if ← fieldLive r key field then .fail .valueType else pure ()

/-- This replica's component of a counter field, and the sum of the others. -/
def fieldComponents (entries : List (Path × Bytes)) : Float64 × Float64 :=
  entries.foldl (fun acc e => match Float64.parse e.2 with
    | none => acc
    | some n =>
      if e.1.getLast? = some (.enc r.self.name) then (n, acc.2) else (acc.1, acc.2.add n))
    (.zero false, .zero false)

def hashFieldIncr (delta : Float64) : KeyM .hash Float64 := do
  let entries ← query (hashFieldCounterBase r.num key field) false
  let (mine, others) := fieldComponents r entries
  let mine := mine.add delta
  putComp (.fieldCounter field) (fmtNum mine)
  writeMeta .hash 0
  pure (others.add mine)

def hashIncrFloat (delta : Float64) : KeyM .hash Float64 := do
  ensureType r typeHash key
  rejectLWWField r key field
  hashFieldIncr r key field delta

def hashIncr (delta : Int64) : KeyM .hash Int64 := do
  let total ← hashIncrFloat r key field (.ofInt delta.toInt)
  pure total.toInt64

end

/-! ## Whole hashes -/

/-- What `deleteHashData` does about an entry, given the fields that have been
tombstoned already. -/
def deleteHashEntry (base : List Seg) (done : List Bytes) (e : Path × Bytes) :
    KeyM .hash (List Bytes) :=
  match trimPrefix base e.1 with
  | [.enc field, _] =>
    if field ∈ done then pure done
    else do
      writeSlot (.field field) tagDeleted []
      pure (field :: done)
  | [a, .word .c, z] => do
    act (.drop .h (by decide) [a, .word .c, z])
    pure done
  | _ => pure done

def deleteHashData (key : Bytes) : KeyM .hash Unit := do
  let base := hashBase r.num key
  let entries ← query base false
  let _ ← entries.foldlM (deleteHashEntry base) []

/-- What `copyHashData` does about an entry. The components of counter fields are
copied as they are, in the name of whichever replica they are of. -/
def copyHashEntry (base : List Seg) (newKey : Bytes) (e : Path × Bytes) : StoreM Unit :=
  match trimPrefix base e.1 with
  | [.enc field, _] =>
    match decodeSlot e.2 with
    | .ok sl =>
      if sl.tag = tagDeleted then pure () else r.on newKey (writeSlot (.field field) tagPresent sl.value)
    | .error _ => pure ()
  | [.enc field, .word .c, .enc replica] =>
    put (slotAt (hashFieldCounterBase r.num newKey field) replica) e.2
  | _ => pure ()

def copyHashData (key newKey : Bytes) : StoreM Unit := do
  let base := hashBase r.num key
  let entries ← query base false
  entries.forM (copyHashEntry r base newKey)

end RedGeo.Repo
