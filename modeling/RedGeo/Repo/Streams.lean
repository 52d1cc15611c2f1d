import RedGeo.Lib.Uvarint
import RedGeo.Repo.Sets

/-!
# RedGeo — streams and consumer groups

`crdtstore/rstream.go` and `crdtstore/rstream_group.go`. The entries of a stream are
registers under their IDs, and the highest ID that a replica has used is a
component of its own: the stream exists while there is one. What a group knows is
in registers too, but for the last ID it has delivered, which is a component.
-/

namespace RedGeo.Repo

open Lib Store

variable (r : Db)

/-! ## IDs -/

structure StreamID where
  ms : UInt64
  seq : UInt64
  deriving DecidableEq, Repr

/-- `Cmp`, as far as it says which comes first. -/
def StreamID.lt (a b : StreamID) : Bool := if a.ms ≠ b.ms then a.ms < b.ms else a.seq < b.seq

def encodeID (id : StreamID) : Bytes := toBe 8 id.ms.toNat ++ toBe 8 id.seq.toNat

def decodeID (b : Bytes) : Option StreamID :=
  if b.length = 16 then some ⟨UInt64.ofNat (ofBe (b.take 8)), UInt64.ofNat (ofBe (b.drop 8))⟩ else none

def discriminator (replica : Bytes) : UInt64 := (fnv32a replica &&& 0xffff).toUInt64

/-- `StreamIDMode`, with the part of the ID that it has. -/
inductive IDMode
  | explicit (id : StreamID)
  | auto
  | autoSeq (ms : UInt64)

def errXaddZero : Err := .text "ERR The ID specified in XADD must be greater than 0-0"

def errXaddSmall : Err :=
  .text "ERR The ID specified in XADD is equal or smaller than the target stream top item"

def nextStreamID (now : UInt64) (last : StreamID) (mode : IDMode) (disc : UInt64) : Except Err StreamID :=
  let bump : StreamID := ⟨last.ms, (((last.seq >>> 16) + 1) <<< 16) ||| disc⟩
  match mode with
  | .auto => .ok (if last.ms < now then ⟨now, disc⟩ else bump)
  | .autoSeq ms =>
    if last.ms < ms then .ok ⟨ms, if ms = 0 ∧ disc = 0 then 1 else disc⟩
    else if ms = last.ms then .ok bump
    else .error errXaddSmall
  | .explicit id =>
    if id = ⟨0, 0⟩ then .error errXaddZero
    else if last.lt id then .ok id
    else .error errXaddSmall

/-! ## Entries -/

/-- `restypes.StreamEntry`; an entry that has been deleted has no fields. -/
structure StreamEntry where
  id : StreamID
  fields : Option (List Bytes)
  deriving DecidableEq, Repr

def encodeFields (f : List Bytes) : Bytes :=
  appendUvarint (UInt64.ofNat f.length) ++ f.flatMap fun b => appendUvarint (UInt64.ofNat b.length) ++ b

def decodeFieldList : Nat → Bytes → Option (List Bytes)
  | 0, _ => some []
  | n + 1, b =>
    match uvarint b with
    | none => none
    | some (l, rest) =>
      if rest.length < l.toNat then none
      else (decodeFieldList n (rest.drop l.toNat)).map (rest.take l.toNat :: ·)

def decodeFields (b : Bytes) : Option (List Bytes) :=
  match uvarint b with
  | none => none
  | some (n, rest) => if b.length < n.toNat then none else decodeFieldList n.toNat rest

def entrySlot (base : List Seg) (k : Path) : Option (StreamID × Bytes) :=
  match trimPrefix base k with
  | [.id ms seq, .enc replica] => some (⟨ms, seq⟩, replica)
  | _ => none

/-- What `streamLive` makes of what is stored. -/
def liveEntries (base : List Seg) (stored : List (Path × Bytes)) : List StreamEntry :=
  let found := (liveSlots (groupSlots (entrySlot base) stored)).filterMap fun e =>
    (decodeFields e.2).map fun f => (⟨e.1, some f⟩ : StreamEntry)
  found.mergeSort fun a b => !b.id.lt a.id

section

variable (key : Bytes)

def streamLive : ReadM (List StreamEntry) := do
  let base := streamBase r.num key
  let stored ← query base false
  pure (liveEntries base stored)

/-- `streamLast`: the highest ID, and this replica's. -/
def streamLast : ReadM (StreamID × StreamID) := do
  let base := streamLastBase r.num key
  let stored ← query base false
  pure (stored.foldl (fun acc e =>
    match decodeID e.2 with
    | none => acc
    | some id =>
      (if acc.1.lt id then id else acc.1,
        if trimPrefix base e.1 = [.enc r.self.name] then id else acc.2)) (⟨0, 0⟩, ⟨0, 0⟩))

/-- `ensureStream`: the expiry of a stream that exists. -/
def ensureStream : ReadM (Option Int64) := do
  match ← probe r key with
  | none => pure none
  | some k => if k.type ≠ typeStream then .fail .keyType else pure (some (k.etime.getD 0))

/-- What all reading methods do: without a stream, they return a default. -/
def withStream {α : Type} (key : Bytes) (absent : α) (p : ReadM α) : ReadM α := do
  match ← ensureStream r key with
  | none => pure absent
  | some _ => p

/-! ## Reading -/

def streamLen : ReadM Nat :=
  withStream r key 0 do
    let es ← streamLive r key
    pure es.length

structure StreamBound where
  id : StreamID
  excl : Bool

variable (lo hi : StreamBound)

/-- Whether an ID is between two bounds. -/
def inBounds (id : StreamID) : Bool :=
  !(id.lt lo.id || id = lo.id && lo.excl) && (id.lt hi.id || id = hi.id && !hi.excl)

/-- The first `count` of a list, or all of it if that is not positive. -/
def limited {α : Type} (count : Int) (l : List α) : List α := if 0 < count then l.take count.toNat else l

def streamRange (count : Int) (rev : Bool) : ReadM (List StreamEntry) :=
  withStream r key [] do
    let es ← streamLive r key
    let es := if rev then es.reverse else es
    pure (limited count (es.filter fun e => inBounds lo hi e.id))

def streamLastID : ReadM StreamID :=
  withStream r key ⟨0, 0⟩ do
    let last ← streamLast r key
    pure last.1

end

/-! ## Writing, with the lock of the key held -/

def streamBumpLast (id : StreamID) : KeyM .stream Unit := putComp .last (encodeID id)

def streamTombstone (id : StreamID) : KeyM .stream Unit := writeSlot (.entry id.ms id.seq) tagDeleted []

structure StreamTrim where
  maxLen : Option Nat
  minID : Option StreamID

/-- How many of the oldest entries a trim removes. -/
def StreamTrim.cut (t : StreamTrim) (es : List StreamEntry) : Nat :=
  let byID := match t.minID with
    | some id => (es.takeWhile fun e => e.id.lt id).length
    | none => 0
  match t.maxLen with
  | some n => if n < es.length then es.length - n else byID
  | none => byID

variable (key : Bytes)

def trimLocked (t : StreamTrim) : KeyM .stream Nat := do
  let es ← streamLive r key
  (es.take (t.cut es)).forM fun e => streamTombstone e.id
  pure (t.cut es)

structure StreamAddOpts where
  noMkStream : Bool
  mode : IDMode
  trim : Option StreamTrim

def streamAdd (opts : StreamAddOpts) (fields : List Bytes) :
    KeyM .stream (Option StreamID) := do
  let found ← ensureStream r key
  if found.isNone ∧ opts.noMkStream then pure none
  else
    let (last, own) ← streamLast r key
    let now ← nowMS
    match nextStreamID now.toUInt64 last opts.mode (discriminator r.self.name) with
    | .error e => .fail e
    | .ok id =>
      writeSlot (.entry id.ms id.seq) tagPresent (encodeFields fields)
      if own.lt id then streamBumpLast id
      if found.isNone then writeMeta .stream 0
      match opts.trim with
      | some t => let _ ← trimLocked r key t
      | none => pure ()
      pure (some id)

/-- `Del`: an ID that is given twice counts once. -/
def streamDel (ids : List StreamID) : KeyM .stream Nat := do
  match ← ensureStream r key with
  | none => pure 0
  | some _ =>
    let es ← streamLive r key
    let gone := ids.eraseDups.filter fun id => id ∈ es.map StreamEntry.id
    gone.forM streamTombstone
    pure gone.length

def streamTrim (t : StreamTrim) : KeyM .stream Nat := do
  match ← ensureStream r key with
  | none => pure 0
  | some _ => trimLocked r key t

/-! ## Groups -/

structure PelValue where
  consumer : Bytes
  deliveredMS : Int64
  count : Int
  deriving DecidableEq, Repr

def encodePel (v : PelValue) : Bytes :=
  toBe 8 v.deliveredMS.toUInt64.toNat ++ toBe 4 (v.count % 2 ^ 32).toNat ++ v.consumer

def decodePel (b : Bytes) : Option PelValue :=
  if b.length < 12 then none
  else some ⟨b.drop 12, (UInt64.ofNat (ofBe (b.take 8))).toInt64, (ofBe ((b.drop 8).take 4) : Nat)⟩

structure GroupData where
  slots : List (Bytes × Slot)
  epoch : UInt64
  last : StreamID
  pel : List (StreamID × List (Bytes × Slot))
  cons : List (Bytes × List (Bytes × Slot))

def groupMetaEntry : Path → Option (Unit × Bytes)
  | [.word .m, .enc replica] => some ((), replica)
  | _ => none

def groupPelEntry : Path → Option (StreamID × Bytes)
  | [.word .p, .id ms seq, .enc replica] => some (⟨ms, seq⟩, replica)
  | _ => none

def groupConsumerEntry : Path → Option (Bytes × Bytes)
  | [.word .c, .enc name, .enc replica] => some (name, replica)
  | _ => none

/-- The last-delivered ID: the later epoch wins, and in one epoch the higher ID. -/
def groupLast (entries : List (Path × Bytes)) : UInt64 × StreamID :=
  entries.foldl (fun acc e =>
    match e.1, decodeID (e.2.drop 8) with
    | [.word .l, .enc _], some id =>
      let epoch := UInt64.ofNat (ofBe (e.2.take 8))
      if acc.1 < epoch ∨ epoch = acc.1 ∧ acc.2.lt id then (epoch, id) else acc
    | _, _ => acc) (0, ⟨0, 0⟩)

/-- The state of a group, from what is below its prefix. -/
def groupDataOf (entries : List (Path × Bytes)) : GroupData :=
  let (epoch, last) := groupLast entries
  ⟨((groupSlots groupMetaEntry entries).lookup ()).getD [], epoch, last,
    groupSlots groupPelEntry entries, groupSlots groupConsumerEntry entries⟩

def GroupData.live (g : GroupData) : Bool := (liveValue g.slots).isSome

/-- All groups, from what is below the prefix of all of them. -/
def allGroups (base : List Seg) (entries : List (Path × Bytes)) : List (Bytes × GroupData) :=
  let found := entries.filterMap fun e =>
    match trimPrefix base e.1 with
    | .enc name :: a :: b :: rest => some (name, (a :: b :: rest, e.2))
    | _ => none
  (found.map Prod.fst).dedup.map fun name =>
    (name, groupDataOf ((found.filter fun c => c.1 = name).map Prod.snd))

/-- `loadGroups` of all groups. -/
def loadGroups : ReadM (List (Bytes × GroupData)) := do
  let base := groupsBase r.num key
  let entries ← query base false
  pure ((allGroups base entries).filter fun g => g.2.live)

section

variable (key group : Bytes)

/-- `loadGroups` of one group. An empty name asks for all of them, and none of those
has it. -/
def loadGroup : ReadM (Option GroupData) :=
  if group = [] then do
    let groups ← loadGroups r key
    pure (groups.lookup group)
  else do
    let base := groupBase r.num key group
    let entries ← query base false
    let g := groupDataOf (entries.map fun e => (trimPrefix base e.1, e.2))
    pure (if g.live then some g else none)

structure PendingEntry where
  id : StreamID
  value : PelValue
  deriving DecidableEq, Repr

structure ConsumerInfo where
  name : Bytes
  pending : Nat
  seenMS : Int64
  deriving DecidableEq, Repr

namespace GroupData

variable (g : GroupData)

/-- The pending entries, by ID. -/
def pending : List PendingEntry :=
  ((liveSlots g.pel).filterMap fun e => (decodePel e.2).map fun v => (⟨e.1, v⟩ : PendingEntry)).mergeSort
    fun a b => !b.id.lt a.id

/-- The consumers, by name. -/
def consumers : List ConsumerInfo :=
  ((liveSlots g.cons).map fun c =>
    (⟨c.1, g.pending.countP fun p => p.value.consumer = c.1,
      if c.2.length = 8 then (UInt64.ofNat (ofBe c.2)).toInt64 else 0⟩ : ConsumerInfo)).mergeSort
    fun a b => a.name ≤ b.name

/-- The value of a pending entry, if it is one. -/
def pelOf (id : StreamID) : Option Bytes := liveValue ((g.pel.lookup id).getD [])

def consumerLive (name : Bytes) : Bool := (liveValue ((g.cons.lookup name).getD [])).isSome

end GroupData

structure GroupInfo where
  name : Bytes
  lastID : StreamID
  consumers : List ConsumerInfo
  pending : List PendingEntry

def GroupData.info (g : GroupData) (name : Bytes) : GroupInfo := ⟨name, g.last, g.consumers, g.pending⟩

/-! ## What groups are written with -/

section

variable (group : Bytes)

def gWriteMeta (tag : UInt8) : KeyM .stream Unit := writeSlot (.group group) tag []

def gWriteLast (epoch : UInt64) (id : StreamID) : KeyM .stream Unit :=
  putComp (.delivered group) (toBe 8 epoch.toNat ++ encodeID id)

def gWritePel (id : StreamID) (v : PelValue) : KeyM .stream Unit :=
  writeSlot (.pending group id.ms id.seq) tagPresent (encodePel v)

def gDelPel (id : StreamID) : KeyM .stream Unit :=
  writeSlot (.pending group id.ms id.seq) tagDeleted []

end

def gTouchConsumer (group consumer : Bytes) : KeyM .stream Unit := do
  let now ← nowMS
  writeSlot (.consumer group consumer) tagPresent (toBe 8 now.toUInt64.toNat)

def destroyGroupData (g : GroupData) : KeyM .stream Unit := do
  (liveSlots g.pel).forM fun e => gDelPel group e.1
  (liveSlots g.cons).forM fun c => writeSlot (.consumer group c.1) tagDeleted []
  let last ← query (groupLastBase r.num key group) true
  last.forM fun e => act (.drop .xg (by decide) (e.1.drop (newKey (groupsBase r.num key)).length))
  gWriteMeta group tagDeleted

/-! ## Group commands -/

def groupOpen : ReadM GroupData := do
  match ← ensureStream r key with
  | none => .fail .noGroup
  | some _ =>
    match ← loadGroup r key group with
    | none => .fail .noGroup
    | some g => pure g

/-- `open`, where a group that is missing is not an error. -/
def groupFind : ReadM (Option GroupData) := do
  match ← ensureStream r key with
  | none => pure none
  | some _ => loadGroup r key group

def groupCreate (id : StreamID) (mkstream : Bool) : KeyM .stream Unit := do
  let found ← ensureStream r key
  if found.isNone ∧ !mkstream then .fail .noGroup
  else
    if found.isNone then
      streamBumpLast ⟨0, 0⟩
      writeMeta .stream 0
    let g ← loadGroup r key group
    if g.isSome then .fail .groupExists
    else
      gWriteMeta group tagPresent
      gWriteLast group 0 id

def groupDestroy : KeyM .stream Bool := do
  match ← groupFind r key group with
  | none => pure false
  | some g =>
    destroyGroupData r key group g
    pure true

def groupSetID (id : StreamID) : KeyM .stream Unit := do
  let g ← groupOpen r key group
  gWriteLast group (g.epoch + 1) id

end

def consumerCreate (key group consumer : Bytes) : KeyM .stream Bool := do
  let g ← groupOpen r key group
  gTouchConsumer group consumer
  pure !g.consumerLive consumer

def consumerDelete (key group consumer : Bytes) : KeyM .stream Nat := do
  let g ← groupOpen r key group
  let gone := g.pending.filter fun p => p.value.consumer = consumer
  gone.forM fun p => gDelPel group p.id
  if g.consumerLive consumer then writeSlot (.consumer group consumer) tagDeleted []
  pure gone.length

def streamGroups : ReadM (List GroupInfo) := do
  match ← ensureStream r key with
  | none => .fail .noGroup
  | some _ =>
    let groups ← loadGroups r key
    pure ((groups.mergeSort fun a b => a.1 ≤ b.1).map fun g => g.2.info g.1)

def streamGroup (key group : Bytes) : ReadM GroupInfo := do
  let g ← groupOpen r key group
  pure (g.info group)

section

variable (key group consumer : Bytes)

def readNew (count : Int) (noack : Bool) : KeyM .stream (List StreamEntry) := do
  let g ← groupOpen r key group
  let all ← streamLive r key
  let out := limited count (all.filter fun e => g.last.lt e.id)
  gTouchConsumer group consumer
  match out.getLast? with
  | none => pure []
  | some final =>
    let now ← nowMS
    if !noack then
      out.forM fun e =>
        let prev := ((g.pelOf e.id).bind decodePel).elim 0 PelValue.count
        gWritePel group e.id ⟨consumer, now, prev + 1⟩
    gWriteLast group g.epoch final.id
    pure out

def readPending (after : StreamID) (count : Int) :
    KeyM .stream (List StreamEntry) := do
  let g ← groupOpen r key group
  let all ← streamLive r key
  let mine := g.pending.filter fun p => p.value.consumer = consumer ∧ after.lt p.id
  gTouchConsumer group consumer
  pure (limited count (mine.map fun p => (all.find? fun e => e.id = p.id).getD ⟨p.id, none⟩))

/-- `Ack`: an ID that is given twice counts once. -/
def ack (key group : Bytes) (ids : List StreamID) : KeyM .stream Nat := do
  match ← groupFind r key group with
  | none => pure 0
  | some g =>
    let acked := ids.eraseDups.filter fun id => (g.pelOf id).isSome
    acked.forM (gDelPel group)
    pure acked.length

structure ClaimOpts where
  minIdleMS : Int64
  idleMS : Int64
  timeMS : Int64
  retryCount : Int
  force : Bool
  justID : Bool

/-- What a claimed entry is recorded with. -/
def ClaimOpts.value (o : ClaimOpts) (now : Int64) (consumer : Bytes) (old : Option PelValue) : PelValue :=
  let count := (old.elim 0 PelValue.count)
  let count := if 0 ≤ o.retryCount then o.retryCount else if !o.justID then count + 1 else count
  ⟨consumer, if 0 < o.timeMS then o.timeMS else if 0 < o.idleMS then now - o.idleMS else now,
    if old.isNone ∧ count = 0 then 1 else count⟩

/-- `Claim`, of one ID. -/
def claimOne (group consumer : Bytes) (o : ClaimOpts) (g : GroupData) (all : List StreamEntry)
    (now : Int64) (acc : List StreamEntry × List StreamID) (id : StreamID) :
    KeyM .stream (List StreamEntry × List StreamID) := do
  -- A value that does not decode still makes the entry a pending one.
  let old := (g.pelOf id).map fun v => (decodePel v).getD ⟨[], 0, 0⟩
  match old, all.find? fun e => e.id = id with
  | some _, none =>
    gDelPel group id
    pure (acc.1, acc.2 ++ [id])
  | none, none => pure acc
  | none, some entry =>
    if o.force then
      gWritePel group id (o.value now consumer none)
      pure (acc.1 ++ [entry], acc.2)
    else pure acc
  | some pv, some entry =>
    if now - pv.deliveredMS < o.minIdleMS then pure acc
    else
      gWritePel group id (o.value now consumer (some pv))
      pure (acc.1 ++ [entry], acc.2)

/-- `Claim`: what was claimed, and what is no longer in the stream. -/
def claim (ids : List StreamID) (o : ClaimOpts) :
    KeyM .stream (List StreamEntry × List StreamID) := do
  let g ← groupOpen r key group
  let all ← streamLive r key
  let now ← nowMS
  let out ← ids.foldlM (claimOne group consumer o g all now) ([], [])
  gTouchConsumer group consumer
  pure out

end

/-! ## Deleting and renaming -/

def deleteGroups : KeyM .stream Unit := do
  let groups ← loadGroups r key
  groups.forM fun g => destroyGroupData r key g.1 g.2

def deleteStream : KeyM .stream Unit := do
  let es ← streamLive r key
  es.forM fun e => streamTombstone e.id
  deleteGroups r key
  let base := streamLastBase r.num key
  let last ← query base true
  last.forM fun e =>
    match trimPrefix base e.1 with
    | [.enc replica] => delComp .last replica
    | _ => pure ()
  deleteMeta

/-- `copyGroups`, as a program on the new key. -/
def copyGroups : KeyM .stream Unit := do
  let groups ← loadGroups r key
  groups.forM fun (name, g) => do
    gWriteMeta name tagPresent
    gWriteLast name g.epoch g.last
    (liveSlots g.pel).forM fun e =>
      match decodePel e.2 with
      | some pv => gWritePel name e.1 pv
      | none => pure ()
    g.consumers.forM fun c => gTouchConsumer name c.name

/-- `copyStream`, as a program on the new key. -/
def copyStream : KeyM .stream Unit := do
  let es ← streamLive r key
  es.forM fun e => writeSlot (.entry e.id.ms e.id.seq) tagPresent (encodeFields (e.fields.getD []))
  let last ← streamLast r key
  streamBumpLast last.1
  copyGroups r key
  writeMeta .stream 0

end RedGeo.Repo
