import RedGeo.Lib.Murmur
import RedGeo.Repo.Reads

/-!
# RedGeo — sketches

`crdtstore/sketch.go` and `crdtstore/bloom.go`. The parameters of a sketch are a
register, and its data are below a hash of them. A command on a Bloom filter works
on its own view of the filter, in which every chunk and every count is loaded at
most once, and writes what has changed at its end.
-/

namespace RedGeo.Repo

open Lib Store

variable (r : Db)

/-! ## Parameters -/

def skBloom : UInt8 := 1

def skCMS : UInt8 := 2

def skTopK : UInt8 := 3

/-- `sketchType`. -/
def sketchKind (kind : UInt8) : Kind .sketch :=
  if kind = skBloom then .bloom else if kind = skCMS then .cms else .topk

def writeSketchParams (kind : UInt8) (raw : Bytes) (etimeMS : Int64) : KeyM .sketch SketchParams := do
  writeSlot .params tagPresent (kind :: raw)
  writeMeta (sketchKind kind) etimeMS
  pure ⟨kind, raw, fnv64a (kind :: raw)⟩

variable (key : Bytes)

/-- `sketchOpen`: the parameters, if there are any, and the expiry. -/
def sketchOpen (kind : UInt8) : ReadM (Option SketchParams × Int64) := do
  match ← probe r key with
  | none => pure (none, 0)
  | some k =>
    if k.type ≠ (sketchKind kind).type then .fail .keyType
    else
      let sp ← readSketchParams r key
      pure (sp, k.etime.getD 0)

/-- The reservation of a sketch of any kind. -/
def sketchReserve (kind : UInt8) (raw : Bytes) : KeyM .sketch Unit := do
  let found ← sketchOpen r key kind
  if found.1.isSome then .fail .sketchExists
  else
    let _ ← writeSketchParams kind raw 0

def deleteSketch : KeyM .sketch Unit := do
  let entries ← query (sketchBase r.num key) true
  entries.forM fun e =>
    if sketchParamsBase r.num key <+: e.1 then pure ()
    else act (.drop .s (by decide) (e.1.drop (newKey (sketchBase r.num key)).length))
  writeSlot .params tagDeleted []
  deleteMeta

/-- A component that is a number: `i64`. -/
def i64 (b : Bytes) : Option Int64 := if b.length = 8 then some (UInt64.ofNat (ofBe b)).toInt64 else none

def putI64 (n : Int64) : Bytes := toBe 8 n.toUInt64.toNat

/-- The sum of the components of all replicas, and the component of this one. -/
def sumComponents (entries : List (Path × Bytes)) : Int64 × Int64 :=
  entries.foldl (fun acc e =>
    match i64 e.2 with
    | none => acc
    | some n => (acc.1 + n, if replicaOf e.1 = some r.self.name then n else acc.2)) (0, 0)

/-! ## The geometry of a Bloom filter -/

def bloomChunkBytes : Nat := 4096

def bloomChunkBits : UInt64 := 32768

def bloomMaxLayers : Nat := 32

structure BloomParams where
  errRate : Float64
  capacity : Int64
  expansion : Int
  deriving DecidableEq, Repr

namespace BloomParams

def encode (p : BloomParams) : Bytes :=
  toBe 8 p.errRate.bits.toNat ++ toBe 8 p.capacity.toUInt64.toNat ++ toBe 4 (p.expansion % 2 ^ 32).toNat

/-- `decodeBloomParams`. -/
def decode (b : Bytes) : Option BloomParams :=
  if b.length = 20 then
    some ⟨.ofBits (ofBe (b.take 8)), (UInt64.ofNat (ofBe ((b.drop 8).take 8))).toInt64,
      (ofBe (b.drop 16) : Nat)⟩
  else none

/-- `layer`: the capacity, the number of bits and the number of hash functions. The
logarithms and powers are those of the hardware. -/
def layer (p : BloomParams) (i : Nat) : Except Err (Int64 × UInt64 × Nat) :=
  if bloomMaxLayers ≤ i ∨ p.expansion = 0 ∧ 0 < i then
    .error (.text "ERR non scaling filter is full")
  else
    let ofInt (n : Int) : Float := Float.ofBits (Float64.ofInt n).bits
    let c := if p.expansion = 0 then ofInt p.capacity.toInt
      else ofInt p.capacity.toInt * Float.pow (ofInt p.expansion) (ofInt i)
    let e := Float.ofBits p.errRate.bits * Float.pow 0.5 (ofInt i)
    let ln2 : Float := 0.693147180559945309417232121458176568
    let ln2Squared : Float := 0.480453013918201424667102526326664972
    let m := Float.ceil (c * -Float.log e / ln2Squared)
    if c > 9007199254740992 || m > 4294967296 || m < 1 then .error (.text "ERR bad capacity")
    else .ok (c.toInt64, m.toUInt64, (Float.ceil (-Float.log e / ln2)).toUInt64.toNat)

def validate (p : BloomParams) : Except Err Unit :=
  if !((Float64.zero false).lt p.errRate && p.errRate.lt (.ofInt 1)) then
    .error (.text "ERR (0 < error rate range < 1)")
  else if p.capacity < 1 then .error (.text "ERR (capacity should be larger than 0)")
  else if p.expansion < 0 ∨ 32768 < p.expansion then .error (.text "ERR bad expansion")
  else
    match p.layer 0 with
    | .ok (_, bits, _) => if bits = 0 then .error (.text "ERR bad capacity") else .ok ()
    | .error _ => .error (.text "ERR bad capacity")

end BloomParams

def bloomPositions (item : Bytes) (bits : UInt64) (hashes : Nat) : List UInt64 :=
  let h1 := murmur64a item 0x9747b28c
  let h2 := murmur64a item 0xc2b2ae35 ||| 1
  (List.range hashes).map fun j => (h1 + UInt64.ofNat j * h2) % bits

/-! ## A view of a filter -/

abbrev ChunkID := Nat × Nat

/-- `bloomState`; `data` is the prefix of the components. -/
structure BloomState where
  data : List Seg
  hash : UInt64
  p : BloomParams
  merged : Dict ChunkID Bytes
  own : Dict ChunkID Bytes
  dirty : List ChunkID
  counts : Dict Nat Int64
  mine : Dict Nat Int64
  ndirty : List Nat
  layers : Nat

/-- `newBloomState`: the highest layer with a count says how many there are. -/
def newBloomState (sp : SketchParams) : ReadM BloomState :=
  match BloomParams.decode sp.raw with
  | none => .fail (.text "ERR corrupt filter parameters")
  | some p => do
    let data := sketchSpace r.num key sp.hash
    let base := data ++ [.word .n]
    let entries ← query base true
    let layers := entries.foldl (fun n e =>
      match trimPrefix base e.1 with
      | .layer l :: _ => if l < 256 then max n (l + 1) else n
      | _ => n) 1
    pure ⟨data, sp.hash, p, ∅, ∅, [], ∅, ∅, [], layers⟩

namespace BloomState

def chunk (st : BloomState) (c : ChunkID) : ReadM (Bytes × BloomState) :=
  match st.merged.lookup c with
  | some b => pure (b, st)
  | none => do
    let entries ← query (st.data ++ [.word .b, .layer c.1, .chunk c.2]) false
    let whole := entries.filter fun e => e.2.length = bloomChunkBytes
    let blank : Bytes := List.replicate bloomChunkBytes 0
    let merged := whole.foldl (fun m e => List.zipWith (· ||| ·) m e.2) blank
    let own := whole.foldl (fun o e => if replicaOf e.1 = some r.self.name then e.2 else o) blank
    pure (merged, { st with merged := st.merged.insert c merged, own := st.own.insert c own })

def count (st : BloomState) (layer : Nat) : ReadM (Int64 × BloomState) :=
  match st.counts.lookup layer with
  | some n => pure (n, st)
  | none => do
    let entries ← query (st.data ++ [.word .n, .layer layer]) false
    let (sum, own) := sumComponents r entries
    pure (sum, { st with counts := st.counts.insert layer sum, mine := st.mine.insert layer own })

def chunkOf (layer : Nat) (pos : UInt64) : ChunkID := (layer, (pos / bloomChunkBits).toNat)

def byteOf (pos : UInt64) : Nat := (pos % bloomChunkBits / 8).toNat

def bitOf (pos : UInt64) : UInt8 := 1 <<< UInt8.ofNat (pos % 8).toNat

/-- Whether all of some positions of a layer are set. -/
def allSet (layer : Nat) : List UInt64 → BloomState → ReadM (Bool × BloomState)
  | [], st => pure (true, st)
  | pos :: rest, st => do
    let (b, st) ← st.chunk r (chunkOf layer pos)
    if b.getD (byteOf pos) 0 &&& bitOf pos = 0 then pure (false, st) else allSet layer rest st

/-- `has`, in some layers: the first that does not exist ends the search. -/
def hasIn (item : Bytes) : List Nat → BloomState → ReadM (Bool × BloomState)
  | [], st => pure (false, st)
  | l :: rest, st =>
    match st.p.layer l with
    | .error _ => pure (false, st)
    | .ok (_, bits, hashes) => do
      let (all, st) ← allSet r l (bloomPositions item bits hashes) st
      if all then pure (true, st) else hasIn item rest st

def has (st : BloomState) (item : Bytes) : ReadM (Bool × BloomState) :=
  hasIn r item (List.range st.layers) st

/-- Set some positions of a layer. An error leaves those that have been set. -/
def setAll (layer : Nat) : List UInt64 → BloomState → ReadM (Option Err × BloomState)
  | [], st => pure (none, st)
  | pos :: rest, st => do
    let c := chunkOf layer pos
    match ← (st.chunk r c).attempt with
    | .error e => pure (some e, st)
    | .ok (m, st) =>
      let set (b : Bytes) : Bytes := b.modify (byteOf pos) (· ||| bitOf pos)
      setAll layer rest { st with
        merged := st.merged.insert c (set m)
        own := st.own.insert c (set ((st.own.lookup c).getD []))
        dirty := if c ∈ st.dirty then st.dirty else c :: st.dirty }

/-- One more item in a layer. -/
def bump (st : BloomState) (layer : Nat) : BloomState :=
  { st with
    counts := st.counts.insert layer ((st.counts.lookup layer).getD 0 + 1)
    mine := st.mine.insert layer ((st.mine.lookup layer).getD 0 + 1)
    ndirty := if layer ∈ st.ndirty then st.ndirty else layer :: st.ndirty
    layers := max st.layers (layer + 1) }

/-- `add`, from a layer on: into the first that is not full. There is no layer
behind the last, so that the search ends. -/
def addFrom (item : Bytes) : Nat → Nat → BloomState → ReadM (Option Err × BloomState)
  | 0, _, st => pure (none, st)
  | fuel + 1, layer, st =>
    match st.p.layer layer with
    | .error e => pure (some e, st)
    | .ok (capacity, bits, hashes) => do
      match ← (st.count r layer).attempt with
      | .error e => pure (some e, st)
      | .ok (n, st) =>
        if capacity ≤ n then addFrom item fuel (layer + 1) st
        else
          let (failed, st) ← setAll r layer (bloomPositions item bits hashes) st
          if failed.isSome then pure (failed, st) else pure (none, st.bump layer)

def add (st : BloomState) (item : Bytes) : ReadM (Option Err × BloomState) :=
  addFrom r item (bloomMaxLayers + 1) 0 st

def flush (st : BloomState) : KeyM .sketch Unit := do
  st.dirty.forM fun c => putComp (.bloomBits st.hash c.1 c.2) ((st.own.lookup c).getD [])
  st.ndirty.forM fun l => putComp (.bloomCount st.hash l) (putI64 ((st.mine.lookup l).getD 0))

end BloomState

/-! ## Bloom filters -/

def bloomOpen : ReadM (Option BloomState × Int64) := do
  let found ← sketchOpen r key skBloom
  match found.1 with
  | none => pure (none, found.2)
  | some sp =>
    let st ← newBloomState r key sp
    pure (some st, found.2)

def bfReserve (p : BloomParams) : StoreM Unit :=
  match p.validate with
  | .error e => .fail e
  | .ok _ => r.locked key (sketchReserve r key skBloom p.encode)

/-- The items that were not there are added; what was inserted before a failure is
kept. -/
def bfAddAll : List Bytes → BloomState → KeyM .sketch (List Bool × BloomState)
  | [], st => pure ([], st)
  | item :: rest, st => do
    let (found, st) ← st.has r item
    if found then
      let (added, st) ← bfAddAll rest st
      pure (false :: added, st)
    else
      let (failed, st) ← st.add r item
      match failed with
      | some e =>
        let _ ← st.flush.attempt
        .fail e
      | none =>
        let (added, st) ← bfAddAll rest st
        pure (true :: added, st)

/-- The filter that `BFAdd` works on: one that is not there may be created. -/
def bloomOpenOrCreate (create : Option BloomParams) : KeyM .sketch BloomState := do
  let found ← bloomOpen r key
  match found.1, create with
  | some st, _ => pure st
  | none, none => .fail .notFound
  | none, some p =>
    match p.validate with
    | .error e => .fail e
    | .ok _ =>
      let sp ← writeSketchParams skBloom p.encode found.2
      newBloomState r key sp

def bfAdd (items : List Bytes) (create : Option BloomParams) : KeyM .sketch (List Bool) := do
  let st ← bloomOpenOrCreate r key create
  let (added, st) ← bfAddAll r items st
  st.flush
  pure added

/-- Which of some items are there. -/
def bfHasAll : List Bytes → BloomState → ReadM (List Bool)
  | [], _ => pure []
  | item :: rest, st => do
    let (found, st) ← st.has r item
    let others ← bfHasAll rest st
    pure (found :: others)

def bfExists (items : List Bytes) : ReadM (List Bool) := do
  let found ← bloomOpen r key
  match found.1 with
  | none => pure (items.map fun _ => false)
  | some st => bfHasAll r items st

structure BloomInfo where
  capacity : Int64
  sizeBytes : Int64
  filters : Nat
  items : Int64
  expansion : Int

/-- The layers that exist, added up. -/
def bloomInfoFrom : List Nat → BloomState → BloomInfo → ReadM BloomInfo
  | [], _, info => pure info
  | l :: rest, st, info =>
    match st.p.layer l with
    | .error _ => pure info
    | .ok (capacity, bits, _) => do
      let (n, st) ← st.count r l
      bloomInfoFrom rest st { info with
        capacity := info.capacity + capacity
        sizeBytes := info.sizeBytes + ((bits + 7) / 8).toInt64
        items := info.items + n }

def bfInfo : ReadM BloomInfo := do
  let found ← bloomOpen r key
  match found.1 with
  | none => .fail .notFound
  | some st => bloomInfoFrom r (List.range st.layers) st ⟨0, 0, st.layers, 0, st.p.expansion⟩

/-- The chunks of a filter. -/
def bloomChunks (base : List Seg) (entries : List (Path × Bytes)) : List ChunkID :=
  (entries.filterMap fun e =>
    match trimPrefix base e.1 with
    | [.layer l, .chunk i, _] => if l < 256 ∧ i < 2 ^ 32 then some (l, i) else none
    | _ => none).dedup

/-- `copyBloom`, as a program on the new key: what all replicas have set becomes
this replica's. -/
def copyBloom (source dest : SketchParams) (newKey : Bytes) : KeyM .sketch Unit := do
  let src ← newBloomState r key source
  let dst ← newBloomState r newKey dest
  let base := src.data ++ [.word .b]
  let entries ← query base true
  let chunks := bloomChunks base entries
  let (src, own) ← (chunks.foldlM (fun acc c => do
    let (m, st) ← acc.1.chunk r c
    pure (st, acc.2.insert c m)) (src, dst.own) : ReadM (BloomState × Dict ChunkID Bytes))
  let (_, mine) ← ((List.range src.layers).foldlM (fun acc l => do
    let (n, st) ← acc.1.count r l
    pure (st, acc.2.insert l n)) (src, dst.mine) : ReadM (BloomState × Dict Nat Int64))
  ({ dst with own, dirty := chunks, mine, ndirty := List.range src.layers } : BloomState).flush

end RedGeo.Repo
