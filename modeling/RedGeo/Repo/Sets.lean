import RedGeo.Repo.Reads

/-!
# RedGeo — sets

`crdtstore/rset.go`. A member is a key of its own with nothing in it.
-/

namespace RedGeo.Repo

open Lib Store

variable (r : Db)

def presence : Bytes := [1]

/-- Strings in order. -/
def sortBytes (l : List Bytes) : List Bytes := l.mergeSort (· ≤ ·)

/-- What `members` makes of the entries. -/
def memberNames (base : List Seg) (entries : List (Path × Bytes)) : List Bytes :=
  sortBytes (entries.filterMap fun e =>
    match trimPrefix base e.1 with
    | [.enc name] => some name
    | _ => none)

section

variable (key : Bytes)

def members : ReadM (List Bytes) := do
  let base := setBase r.num key
  let entries ← query base true
  pure (memberNames base entries)

/-! ## Reading -/

def setExists (key elem : Bytes) : ReadM Bool := do
  ensureType r typeSet key
  has (setMember r.num key elem)

/-- `Items`, which is also what set algebra starts from (`memberSet`). -/
def setItems : ReadM (List Bytes) := do
  ensureType r typeSet key
  members r key

def setLen : ReadM Nat := do
  let mem ← setItems r key
  pure mem.length

def setRandom : ReadM Bytes := do
  match ← setItems r key with
  | [] => .fail .notFound
  | m :: mem =>
    let i ← random (mem.length + 1)
    pure ((m :: mem).getD i [])

end

def setDiff : List Bytes → ReadM (List Bytes)
  | [] => pure []
  | key :: keys => do
    let base ← setItems r key
    let out ← keys.foldlM (fun base k => do
      let other ← setItems r k
      pure (base.filter fun m => m ∉ other)) base
    pure (sortBytes out)

def setInter : List Bytes → ReadM (List Bytes)
  | [] => pure []
  | key :: keys => do
    let base ← setItems r key
    let out ← keys.foldlM (fun base k => do
      let other ← setItems r k
      pure (base.filter fun m => m ∈ other)) base
    pure (sortBytes out)

def setUnion (keys : List Bytes) : ReadM (List Bytes) := do
  let out ← keys.foldlM (fun acc k => do
    let other ← setItems r k
    pure (acc ++ other)) []
  pure (sortBytes out.dedup)

/-! ## Writing, with the lock of the key held -/

variable (key : Bytes) (elems : List Bytes)

/-- Add some members, counting the new ones. -/
def addMembers : KeyM .set Nat :=
  elems.foldlM (fun n m => do
    let found ← has (setMember r.num key m)
    putComp (.member m) presence
    pure (if found then n else n + 1)) 0

def setAdd : KeyM .set Nat := do
  ensureType r typeSet key
  let added ← addMembers r key elems
  writeMeta .set 0
  pure added

/-- Tombstone the metadata if no member is left; whatever fails here is ignored. -/
def dropEmptySet (key : Bytes) : KeyM .set Unit := do
  match ← (members r key : ReadM _).attempt with
  | .ok [] => let _ ← (deleteMeta : KeyM .set Unit).attempt
  | _ => pure ()

def setDelete : KeyM .set Nat := do
  ensureType r typeSet key
  let removed ← elems.foldlM (fun n m => do
    if ← has (setMember r.num key m) then do
      delComp (.member m) []
      pure (n + 1)
    else pure n) 0
  dropEmptySet r key
  pure removed

def setPop (key : Bytes) : KeyM .set Bytes := do
  match ← setItems r key with
  | [] => .fail .notFound
  | m :: mem =>
    let i ← random (mem.length + 1)
    let pick := (m :: mem).getD i []
    delComp (.member pick) []
    if mem = [] then let _ ← (deleteMeta : KeyM .set Unit).attempt
    pure pick

/-- `storeResult`: whatever set is there is overwritten. -/
def storeResult (dest : Bytes) (vals : List Bytes) : KeyM .set Nat := do
  match ← (probe r dest).attempt with
  | .ok (some k) =>
    if k.type = typeSet then
      let mem ← (members r dest).attempt
      (mem.toOption.getD []).forM fun m => do
        let _ ← (delComp (.member m) [] : KeyM .set Unit).attempt
  | _ => pure ()
  vals.forM fun v => putComp (.member v) presence
  if vals = [] then let _ ← (deleteMeta : KeyM .set Unit).attempt
  else writeMeta .set 0
  pure vals.length

/-! ## Two keys -/

/-- Take two locks in the order of their names. -/
def withLocks {α : Type} (a b : Bytes) (body : StoreM α) : StoreM α :=
  if b < a then withLock b (withLock a body) else withLock a (withLock b body)

/-- What `Move` does with both locks held. -/
def setMoveLocked (src dest m : Bytes) : StoreM Unit := do
  ensureType r typeSet src
  ensureType r typeSet dest
  if ← has (setMember r.num src m) then do
    r.on src (delComp (.member m) [])
    r.on dest do
      putComp (.member m) presence
      writeMeta .set 0
    r.on src (dropEmptySet r src)
  else .fail .notFound

def setMove (src dest m : Bytes) : StoreM Unit :=
  withLocks (lockKey r.num src) (lockKey r.num dest) (setMoveLocked r src dest m)

variable (dest : Bytes) (keys : List Bytes)

def setDiffStore : StoreM Nat := do
  let vals ← setDiff r keys
  r.locked dest (storeResult r dest vals)

def setInterStore : StoreM Nat := do
  let vals ← setInter r keys
  r.locked dest (storeResult r dest vals)

def setUnionStore : StoreM Nat := do
  let vals ← setUnion r keys
  r.locked dest (storeResult r dest vals)

end RedGeo.Repo
