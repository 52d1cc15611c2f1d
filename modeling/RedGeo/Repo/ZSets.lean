import RedGeo.Repo.Sets

/-!
# RedGeo — sorted sets

`crdtstore/rzset.go`. The score of a member is a register. Ranges are taken from
the members in the order of their scores.
-/

namespace RedGeo.Repo

open Lib Store

variable (r : Db)

/-- `restypes.ZSetItem`. -/
abbrev ZItem := Bytes × Float64

/-- The order of the items: by score, then by name. -/
def zLess (a b : ZItem) : Bool := if a.2.eq b.2 then a.1 < b.1 else a.2.lt b.2

/-- `mapToSortedItems`. Scores that are not numbers have no place in this order, and
`sort.Slice` does not say where it leaves them. -/
def sortItems (items : List ZItem) : List ZItem := items.mergeSort fun a b => !zLess b a

section

variable (key : Bytes)

def sortedItems : ReadM (List ZItem) := do
  let scores ← zsetLiveScores r key
  pure (sortItems scores)

/-! ## Ranges -/

/-- `restypes.RangeOpts`, with the bounds that the kind of range has. -/
inductive RangeBy
  | score (min max : Float64)
  | rank (start stop : Int)
  | all

structure RangeOpts where
  range : RangeBy
  desc : Bool := false
  offset : Int := 0
  count : Int := 0

def normIndex (i : Int) (n : Nat) : Int := if i < 0 then i + n else i

/-- The items of a range, in ascending order. -/
def selectRange (items : List ZItem) : RangeBy → List ZItem
  | .score min max => items.filter fun it => min.le it.2 && it.2.le max
  | .rank start stop =>
    let start := max 0 (normIndex start items.length)
    let stop := min (items.length - 1 : Int) (normIndex stop items.length)
    if start ≤ stop ∧ start < items.length then
      (items.drop start.toNat).take (stop - start + 1).toNat
    else []
  | .all => items

def applyRange (items : List ZItem) (opts : RangeOpts) : List ZItem :=
  let sel := selectRange items opts.range
  let sel := if opts.desc then sel.reverse else sel
  let sel := if 0 < opts.offset then sel.drop opts.offset.toNat else sel
  if 0 < opts.count then sel.take opts.count.toNat else sel

/-! ## Reading -/

/-- `GetScore`: the score of a value that does not decode is zero. -/
def zsetGetScore (key elem : Bytes) : ReadM Float64 := do
  ensureType r typeZSet key
  let cands ← readSlots (zsetMemberBase r.num key elem)
  match liveValue cands with
  | some v => pure ((decodeScore v).getD (.zero false))
  | none => .fail .notFound

def zsetRank (key elem : Bytes) (rev : Bool) : ReadM (Nat × Float64) := do
  ensureType r typeZSet key
  let items ← sortedItems r key
  let items := if rev then items.reverse else items
  match items.findIdx? fun it => it.1 = elem with
  | some i => pure (i, (items.map Prod.snd).getD i (.zero false))
  | none => .fail .notFound

def zsetLen : ReadM Nat := do
  ensureType r typeZSet key
  let scores ← zsetLiveScores r key
  pure scores.length

def zsetCount (min max : Float64) : ReadM Nat := do
  ensureType r typeZSet key
  let scores ← zsetLiveScores r key
  pure (scores.countP fun m => min.le m.2 && m.2.le max)

def zsetRange (opts : RangeOpts) : ReadM (List ZItem) := do
  ensureType r typeZSet key
  let items ← sortedItems r key
  pure (applyRange items opts)

end

/-! ## Writing, with the lock of the key held -/

def writeScore (key member : Bytes) (score : Float64) : KeyM .zset Bool := do
  let cands ← readSlots (zsetMemberBase r.num key member)
  writeSlot (.score member) tagPresent (encodeScore score)
  writeMeta .zset 0
  pure (liveValue cands).isNone

def zsetAdd (key elem : Bytes) (score : Float64) : KeyM .zset Bool := do
  ensureType r typeZSet key
  writeScore r key elem score

variable (key : Bytes)

def zsetAddMany (items : List ZItem) : KeyM .zset Nat := do
  ensureType r typeZSet key
  items.foldlM (fun n it => do
    let isNew ← writeScore r key it.1 it.2
    pure (if isNew then n + 1 else n)) 0

/-- Tombstone the metadata if no member is left; whatever fails here is ignored. -/
def dropEmptyZSet : KeyM .zset Unit := do
  match ← (zsetLiveScores r key : ReadM _).attempt with
  | .ok [] => let _ ← (deleteMeta : KeyM .zset Unit).attempt
  | _ => pure ()

def zsetDelete (elems : List Bytes) : KeyM .zset Nat := do
  ensureType r typeZSet key
  let n ← elems.foldlM (fun n m => do
    let cands ← readSlots (zsetMemberBase r.num key m)
    if (liveValue cands).isSome then do
      writeSlot (.score m) tagDeleted []
      pure (n + 1)
    else pure n) 0
  dropEmptyZSet r key
  pure n

def zsetDeleteRange (opts : RangeOpts) : KeyM .zset Nat := do
  ensureType r typeZSet key
  let items ← sortedItems r key
  let victims := applyRange items opts
  victims.forM fun it => writeSlot (.score it.1) tagDeleted []
  dropEmptyZSet r key
  pure victims.length

/-- The score that `Incr` starts from. -/
def currentScore (cands : List (Bytes × Slot)) : Float64 :=
  match winner cands with
  | some (best, _) => if best.tag = tagPresent then (decodeScore best.value).getD (.zero false) else .zero false
  | none => .zero false

def zsetIncr (key elem : Bytes) (delta : Float64) : KeyM .zset Float64 := do
  ensureType r typeZSet key
  let cands ← readSlots (zsetMemberBase r.num key elem)
  let next := (currentScore cands).add delta
  let _ ← writeScore r key elem next
  pure next

/-! ## Set algebra -/

inductive Aggregate
  | sum
  | min
  | max
  deriving DecidableEq, Repr

/-- `strings.ToLower`, as far as it can give a text of the letters of `min` and
`max`. -/
def lowerText : Bytes → Bytes
  -- The dotted capital I is the one letter beyond ASCII whose lower case is among them.
  | 0xc4 :: 0xb0 :: t => 105 :: lowerText t
  | c :: t => (if 65 ≤ c ∧ c ≤ 90 then c + 32 else c) :: lowerText t
  | [] => []

/-- `normAgg`: the client's own text, and whatever else it says is a sum. -/
def normAgg (a : Bytes) : Aggregate :=
  if lowerText a = [109, 105, 110] then .min
  else if lowerText a = [109, 97, 120] then .max
  else .sum

def aggregate : Aggregate → Float64 → Float64 → Float64
  | .min, a, b => a.min b
  | .max, a, b => a.max b
  | .sum, a, b => a.add b

def gather (keys : List Bytes) : ReadM (List (List ZItem)) :=
  keys.mapM fun k => do
    ensureType r typeZSet k
    zsetLiveScores r k

section

variable (agg : Aggregate) (keys : List Bytes)

/-- `unionAgg`. -/
def zsetUnion : ReadM (List ZItem) := do
  let maps ← gather r keys
  let acc := maps.flatten.foldl (fun (acc : Dict Bytes Float64) it =>
    match acc.lookup it.1 with
    | some sc => acc.insert it.1 (aggregate agg sc it.2)
    | none => acc.insert it.1 it.2) ∅
  pure (sortItems acc.pairs)

/-- `interAgg`. -/
def zsetInter : ReadM (List ZItem) := do
  match ← gather r keys with
  | [] => pure []
  | first :: rest =>
    pure (sortItems (rest.foldl (fun acc m => acc.filterMap fun it =>
      (m.lookup it.1).map fun sc => (it.1, aggregate agg it.2 sc)) first))

end

/-- `storeItems`: whatever members are there are overwritten. -/
def storeItems (dest : Bytes) (items : List ZItem) : KeyM .zset Nat := do
  let old ← (zsetLiveScores r dest : ReadM _).attempt
  (old.toOption.getD []).forM fun m => do
    let _ ← (writeSlot (.score m.1) tagDeleted [] : KeyM .zset Unit).attempt
  items.forM fun it => do
    let _ ← writeScore r dest it.1 it.2
  if items = [] then let _ ← (deleteMeta : KeyM .zset Unit).attempt
  pure items.length

variable (dest : Bytes) (agg : Bytes) (keys : List Bytes)

def zsetUnionStore : StoreM Nat := do
  let items ← zsetUnion r (normAgg agg) keys
  r.locked dest (storeItems r dest items)

def zsetInterStore : StoreM Nat := do
  let items ← zsetInter r (normAgg agg) keys
  r.locked dest (storeItems r dest items)

end RedGeo.Repo
