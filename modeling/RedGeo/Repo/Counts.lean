import RedGeo.Lib.Uvarint
import RedGeo.Repo.Sets
import RedGeo.Repo.Sketches

/-!
# RedGeo — count-min sketches and top-k

`crdtstore/cms.go`, `crdtstore/topk.go` and `copySketch`. Every cell of a count-min
sketch is a counter with a component for each replica. For top-k, every replica
keeps a Space-Saving summary of its own stream, and a read adds up the summaries.
-/

namespace RedGeo.Repo

open Lib Store

variable (r : Db)

/-! ## Count-min sketches -/

structure CmsParams where
  width : Int
  depth : Int
  deriving DecidableEq, Repr

namespace CmsParams

variable (p : CmsParams)

def encode : Bytes := toBe 4 (p.width % 2 ^ 32).toNat ++ toBe 4 (p.depth % 2 ^ 32).toNat

/-- `decodeCMSParams`. -/
def decode (b : Bytes) : Option CmsParams :=
  if b.length = 8 then some ⟨(ofBe (b.take 4) : Nat), (ofBe (b.drop 4) : Nat)⟩ else none

def validate : Except Err Unit :=
  if p.width < 1 ∨ p.depth < 1 ∨ 2 ^ 31 < p.width ∨ 2 ^ 16 < p.depth ∨ 2 ^ 36 < p.width * p.depth then
    .error (.text "CMS: invalid width or depth")
  else .ok ()

def cells (item : Bytes) : List UInt64 :=
  let h1 := murmur64a item 0x5bd1e995
  let h2 := murmur64a item 0xdeadbeef ||| 1
  let width := UInt64.ofNat p.width.toNat
  (List.range p.depth.toNat).map fun row =>
    UInt64.ofNat row * width + (h1 + UInt64.ofNat row * h2) % width

end CmsParams

/-- `cmsView`; `data` is the prefix of the components. -/
structure CmsView where
  data : List Seg
  hash : UInt64
  p : CmsParams

def errCorruptCMS : Err := .text "CMS: corrupt sketch parameters"

variable (key : Bytes)

def cmsViewOf (sp : SketchParams) : ReadM CmsView :=
  match CmsParams.decode sp.raw with
  | none => .fail errCorruptCMS
  | some p => pure ⟨sketchSpace r.num key sp.hash, sp.hash, p⟩

/-- `cmsOpen`, for the commands: all of them need the sketch to be there. -/
def cmsOpen : ReadM CmsView := do
  let found ← sketchOpen r key skCMS
  match found.1 with
  | none => .fail .notFound
  | some sp => cmsViewOf r key sp

namespace CmsView

def cell (v : CmsView) (idx : UInt64) : ReadM (Int64 × Int64) := do
  let entries ← query (v.data ++ [.word .c, .cell idx]) false
  pure (sumComponents r entries)

variable (v : CmsView)

def total : ReadM (Int64 × Int64) := do
  let entries ← query (v.data ++ [.word .t]) false
  pure (sumComponents r entries)

def setTotalOwn (n : Int64) : KeyM .sketch Unit := putComp (.total v.hash) (putI64 n)

/-- `allCells`: for each cell the sum, and the component of this replica. -/
def allCells : ReadM (List (UInt64 × Int64 × Int64)) := do
  let base := v.data ++ [.word .c]
  let entries ← query base false
  let found := entries.filterMap fun e =>
    match trimPrefix base e.1, i64 e.2 with
    | [.cell idx, _], some _ => some (idx, e)
    | _, _ => none
  pure ((found.map Prod.fst).dedup.map fun idx =>
    (idx, sumComponents r ((found.filter fun c => c.1 = idx).map Prod.snd)))

end CmsView

def cmsInit (p : CmsParams) : StoreM Unit :=
  match p.validate with
  | .error e => .fail e
  | .ok _ => r.locked key (sketchReserve r key skCMS p.encode)

/-- Add to the cells of an item; the estimate is the least of them. -/
def cmsIncrCells (v : CmsView) (inc : Int64) (cells : List UInt64) : KeyM .sketch Int64 :=
  cells.foldlM (fun est idx => do
    let (sum, own) ← v.cell r idx
    if Int64.maxValue - inc < sum then .fail (.text "CMS: INCRBY overflow")
    else
      putComp (.cell v.hash idx) (putI64 (own + inc))
      pure (min est (sum + inc))) Int64.maxValue

/-- `CMSIncr`. What was added before a failure stays in the cells, and is not in the
total. -/
def cmsIncr (items : List (Bytes × Int64)) : KeyM .sketch (List Int64) := do
  let v ← cmsOpen r key
  let (_, totalOwn) ← v.total r
  let out ← items.mapM fun it =>
    if it.2 ≤ 0 then .fail (.text "CMS: Increment must be a positive integer")
    else cmsIncrCells r v it.2 (v.p.cells it.1)
  v.setTotalOwn (items.foldl (fun n it => n + it.2) totalOwn)
  pure out

def cmsQuery (items : List Bytes) : ReadM (List Int64) := do
  let v ← cmsOpen r key
  items.mapM fun it => do
    let est ← (v.p.cells it).foldlM (fun est idx => do
      let (sum, _) ← v.cell r idx
      pure (min est sum)) Int64.maxValue
    pure (max est 0)

def cmsInfo : ReadM (Int × Int × Int64) := do
  let v ← cmsOpen r key
  let (count, _) ← v.total r
  pure (v.p.width, v.p.depth, count)

/-- What `CMSMerge` takes from a source. -/
structure CmsSnap where
  p : CmsParams
  cells : List (UInt64 × Int64)
  total : Int64
  weight : Int64

def cmsSnap (src : Bytes × Int64) : ReadM CmsSnap := do
  let v ← cmsOpen r src.1
  let sums ← v.allCells r
  let (total, _) ← v.total r
  pure ⟨v.p, sums.map fun c => (c.1, c.2.1), total, src.2⟩

/-- The weighted sum of the sources in a cell. -/
def cmsTarget (snaps : List CmsSnap) (idx : UInt64) : Int64 :=
  snaps.foldl (fun n s => n + (s.cells.lookup idx).getD 0 * s.weight) 0

/-- `CMSMerge`, with the lock of the destination held: its contents are replaced. -/
def cmsReplace (dest : Bytes) (snaps : List CmsSnap) : KeyM .sketch Unit := do
  let d ← cmsOpen r dest
  if snaps.any fun s => s.p ≠ d.p then .fail .cmsDims
  else
    let now ← d.allCells r
    let touch := (snaps.flatMap (fun s => s.cells.map Prod.fst) ++ now.map Prod.fst).dedup
    touch.forM fun idx => do
      let (sum, own) := (now.lookup idx).getD (0, 0)
      -- The components of the others stay, so that this replica's makes up for them.
      let want := cmsTarget snaps idx - (sum - own)
      if want = own then pure ()
      else if want = 0 then delComp (.cell d.hash idx) r.self.name
      else putComp (.cell d.hash idx) (putI64 want)
    let (tsum, town) ← d.total r
    let targetTotal := snaps.foldl (fun n s => n + s.total * s.weight) 0
    d.setTotalOwn (targetTotal - (tsum - town))

def cmsMerge (dest : Bytes) (srcs : List (Bytes × Int64)) : StoreM Unit := do
  let snaps ← (srcs.mapM (cmsSnap r) : ReadM _)
  r.locked dest (cmsReplace r dest snaps)

variable (source dest : SketchParams)

/-- `copyCMS`, as a program on the new key. -/
def copyCMS : KeyM .sketch Unit := do
  let src ← cmsViewOf r key source
  let sums ← src.allCells r
  sums.forM fun c =>
    if c.2.1 = 0 then pure () else putComp (.cell dest.hash c.1) (putI64 c.2.1)
  let (total, _) ← src.total r
  putComp (.total dest.hash) (putI64 total)

/-! ## Space-Saving summaries -/

structure TopkParams where
  k : Int
  width : Int
  depth : Int
  decay : Float64
  deriving DecidableEq, Repr

namespace TopkParams

variable (p : TopkParams)

def slots : Nat := max (4 * p.k.toNat) 32

def encode : Bytes :=
  toBe 4 (p.k % 2 ^ 32).toNat ++ toBe 4 (p.width % 2 ^ 32).toNat ++ toBe 4 (p.depth % 2 ^ 32).toNat ++
    toBe 8 p.decay.bits.toNat

/-- `decodeTopKParams`. -/
def decode (b : Bytes) : Option TopkParams :=
  if b.length = 20 then
    some ⟨(ofBe (b.take 4) : Nat), (ofBe ((b.drop 4).take 4) : Nat), (ofBe ((b.drop 8).take 4) : Nat),
      .ofBits (ofBe (b.drop 12))⟩
  else none

def validate : Except Err Unit :=
  if p.k < 1 ∨ 2 ^ 20 < p.k then .error (.text "TOPK: invalid k")
  else if p.width < 1 ∨ 2 ^ 24 < p.width then .error (.text "TOPK: invalid width")
  else if p.depth < 1 ∨ 2 ^ 10 < p.depth then .error (.text "TOPK: invalid depth")
  else if !((Float64.zero false).lt p.decay && p.decay.le (.ofInt 1)) then
    .error (.text "TOPK: invalid decay value. must be between 0 and 1")
  else .ok ()

end TopkParams

structure SsEntry where
  count : Int64
  err : Int64
  deriving DecidableEq, Repr

abbrev Summary := Dict Bytes SsEntry

namespace Summary

/-- `encodeSummary`: by name, so that equal summaries are equal bytes. -/
def encode (s : Summary) : Bytes :=
  let items := Dict.pairs s |>.mergeSort fun a b => a.1 ≤ b.1
  appendUvarint (UInt64.ofNat items.length) ++ items.flatMap fun it =>
    appendUvarint (UInt64.ofNat it.1.length) ++ it.1 ++ appendUvarint it.2.count.toUInt64 ++
      appendUvarint it.2.err.toUInt64

/-- One item of `decodeSummary`. -/
def decodeItem (b : Bytes) : Option ((Bytes × SsEntry) × Bytes) := do
  let (l, b) ← uvarint b
  if b.length < l.toNat then none
  else
    let (count, rest) ← uvarint (b.drop l.toNat)
    let (err, rest) ← uvarint rest
    some ((b.take l.toNat, ⟨count.toInt64, err.toInt64⟩), rest)

def decodeItems : Nat → Summary → Bytes → Option Summary
  | 0, s, _ => some s
  | n + 1, s, b =>
    match decodeItem b with
    | none => none
    | some (it, rest) => decodeItems n (s.insert it.1 it.2) rest

/-- `decodeSummary`. -/
def decode (b : Bytes) : Option Summary :=
  match uvarint b with
  | none => none
  | some (n, rest) => if b.length < n.toNat then none else decodeItems n.toNat ∅ rest

/-- The item with the least count, and of those the first by name. -/
def least (s : Summary) : Option (Bytes × SsEntry) :=
  (Dict.pairs s).foldl (fun best it =>
    match best with
    | none => some it
    | some b =>
      if it.2.count < b.2.count ∨ it.2.count = b.2.count ∧ it.1 < b.1 then some it else some b) none

/-- `add`: an item that finds no place takes that of the least, and its count. -/
def add (s : Summary) (item : Bytes) (inc : Int64) (slots : Nat) : Summary :=
  match s.lookup item with
  | some e => s.insert item { e with count := e.count + inc }
  | none =>
    if (Dict.pairs s).length < slots then s.insert item ⟨inc, 0⟩
    else
      match least s with
      | none => s
      | some (name, e) => (s.erase name).insert item ⟨e.count + inc, e.count⟩

end Summary

/-! ## Top-k -/

structure TopkView where
  hash : UInt64
  p : TopkParams
  others : Dict Bytes Int64
  own : Summary

/-- The counts of a summary, added to what others have. -/
def addCounts (others : Dict Bytes Int64) (s : Summary) : Dict Bytes Int64 :=
  (Dict.pairs s).foldl (fun acc it => acc.insert it.1 ((acc.lookup it.1).getD 0 + it.2.count)) others

def errCorruptTopK : Err := .text "TOPK: corrupt sketch parameters"

/-- What `topkOpen` makes of an entry. -/
def topkEntry (v : TopkView) (e : Path × Bytes) : TopkView :=
  match Summary.decode e.2 with
  | none => v
  | some s =>
    if replicaOf e.1 = some r.self.name then { v with own := s }
    else { v with others := addCounts v.others s }

/-- `topkOpen`, for the commands: all of them need the sketch to be there. -/
def topkOpen : ReadM TopkView := do
  let found ← sketchOpen r key skTopK
  match found.1 with
  | none => .fail .notFound
  | some sp =>
    match TopkParams.decode sp.raw with
    | none => .fail errCorruptTopK
    | some p =>
      let entries ← query (sketchSpace r.num key sp.hash ++ [.word .k]) false
      pure (entries.foldl (topkEntry r) ⟨sp.hash, p, ∅, ∅⟩)

namespace TopkView

def count (v : TopkView) (item : Bytes) : Int64 :=
  (v.others.lookup item).getD 0 + ((v.own.lookup item).elim 0 SsEntry.count)

variable (v : TopkView)

/-- `ranked`: the heaviest first, and by name among equals. -/
def ranked : List (Bytes × Int64) :=
  let names := ((Dict.pairs v.others).map Prod.fst ++ (Dict.pairs v.own).map Prod.fst).dedup
  (names.map fun n => (n, v.count n)).mergeSort fun a b =>
    if a.2 ≠ b.2 then b.2 < a.2 else a.1 ≤ b.1

def top : List (Bytes × Int64) := v.ranked.take v.p.k.toNat

def save : KeyM .sketch Unit := putComp (.summary v.hash) v.own.encode

end TopkView

def topkReserve (p : TopkParams) : StoreM Unit :=
  match p.validate with
  | .error e => .fail e
  | .ok _ => r.locked key (sketchReserve r key skTopK p.encode)

/-- Add items one by one, and say for each what fell out of the first `k` by it. -/
def topkAddAll : List (Bytes × Int64) → TopkView → Except Err (List (Option Bytes) × TopkView)
  | [], v => .ok ([], v)
  | (item, inc) :: rest, v =>
    if inc ≤ 0 then .error (.text "TOPK: Increment must be a positive integer")
    else
      let next := { v with own := v.own.add item inc v.p.slots }
      let after := next.top.map Prod.fst
      let gone := (v.top.map Prod.fst).filter fun n => n ∉ after
      match topkAddAll rest next with
      | .error e => .error e
      | .ok (expelled, last) => .ok ((sortBytes gone).head? :: expelled, last)

/-- `TopKAdd`: after a failure nothing is saved. -/
def topkAdd (items : List (Bytes × Int64)) : KeyM .sketch (List (Option Bytes)) := do
  let v ← topkOpen r key
  match topkAddAll items v with
  | .error e => .fail e
  | .ok (expelled, v) =>
    v.save
    pure expelled

def topkQuery (items : List Bytes) : ReadM (List Bool) := do
  let v ← topkOpen r key
  pure (items.map fun it => it ∈ v.top.map Prod.fst)

def topkCount (items : List Bytes) : ReadM (List Int64) := do
  let v ← topkOpen r key
  pure (items.map v.count)

def topkList : ReadM (List (Bytes × Int64)) := do
  let v ← topkOpen r key
  pure v.top

def topkInfo : ReadM TopkParams := do
  let v ← topkOpen r key
  pure v.p

/-- `copyTopK`, as a program on the new key. -/
def copyTopK : KeyM .sketch Unit := do
  match TopkParams.decode source.raw with
  | none => .fail errCorruptTopK
  | some p =>
    let entries ← query (sketchSpace r.num key source.hash ++ [.word .k]) false
    let others := (entries.filterMap fun e => Summary.decode e.2).foldl addCounts ∅
    let ranked := (⟨source.hash, p, others, ∅⟩ : TopkView).ranked.take p.slots
    let own : Summary := ranked.foldl (fun s e => s.insert e.1 ⟨e.2, 0⟩) ∅
    (⟨dest.hash, p, ∅, own⟩ : TopkView).save

/-! ## Renaming -/

/-- `copySketch`, as a program on the new key. -/
def copySketch (key newKey : Bytes) : KeyM .sketch Unit := do
  match ← readSketchParams r key with
  | none => pure ()
  | some sp =>
    let np ← writeSketchParams sp.kind sp.raw 0
    if sp.kind = skBloom then copyBloom r key sp np newKey
    else if sp.kind = skCMS then copyCMS r key sp np
    else if sp.kind = skTopK then copyTopK r key sp np
    else .fail (.text ("crdtstore: RENAME of sketch kind " ++ toString sp.kind.toNat ++ " not supported"))

end RedGeo.Repo
