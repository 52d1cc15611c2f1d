import RedGeo.Repo.Keyspace

/-!
# RedGeo — the methods of the store

`redisapi/redka.go`: the interface through which every command, whether it is sent
alone, queued or called by a script, meets the store. One type for each part of the
interface, with what a method returns and the program that it is.

The change of a document (`jsondoc`) is a parameter of the JSON methods; what they
return is the reply as bytes. The `SCAN` family only reads, with cursors that are
kept by the node, and is left out.
-/

namespace RedGeo.Repo

open Lib Store

/-! ## Strings -/

inductive RStr
  | get (key : Bytes)
  | getMany (keys : List Bytes)
  | set (key value : Bytes)
  | setExpire (key value : Bytes) (ttl : Duration)
  | setMany (items : List (Bytes × Bytes))
  | setWith (key value : Bytes) (opts : SetOpts)
  | incr (key : Bytes) (delta : Int64)
  | incrFloat (key : Bytes) (delta : Float64)
  | pfAdd (key : Bytes) (elems : List Bytes)
  | pfCount (keys : List Bytes)
  | pfMerge (dest : Bytes) (srcs : List Bytes)
  /-- `PFEncoding` and `PFDecode`, which only differ in the text they make of it. -/
  | pfInspect (key : Bytes)
  | pfRegisters (key : Bytes)
  | pfToDense (key : Bytes)
  | setBit (key : Bytes) (offset : UInt64) (on : Bool)
  | getBit (key : Bytes) (offset : UInt64)
  | bitCount (key : Bytes) (rng : BitRange)
  | bitPos (key : Bytes) (bit : Bool) (rng : BitRange)
  | bitOp (op : BitOperation) (dest : Bytes) (srcs : List Bytes)

namespace RStr

def Result : RStr → Type
  | get _ => Bytes
  | getMany _ => List (Bytes × Bytes)
  | set _ _ | setExpire _ _ _ | setMany _ | pfMerge _ _ => Unit
  | setWith _ _ _ => SetOut
  | incr _ _ | pfCount _ => Int64
  | incrFloat _ _ => Float64
  | pfAdd _ _ | pfToDense _ | setBit _ _ _ | getBit _ _ => Bool
  | pfInspect _ => Sketch × MetaEnvelope
  | pfRegisters _ => Sketch
  | bitCount _ _ | bitOp _ _ _ => Nat
  | bitPos _ _ _ => Int

def program (r : Db) : (m : RStr) → StoreM m.Result
  | get key => (strGet r key : ReadM _)
  | getMany keys => (strGetMany r keys : ReadM _)
  | set key value => strSet r key value
  | setExpire key value ttl => strSetExpire r key value ttl
  | setMany items => strSetMany r items
  | setWith key value opts => strSetWith r key value opts
  | incr key delta => r.locked key (strIncr r key delta)
  | incrFloat key delta => r.locked key (strIncrFloat r key delta)
  | pfAdd key elems => r.locked key (Repo.pfAdd r key elems)
  | pfCount keys => (Repo.pfCount r keys : ReadM _)
  | pfMerge dest srcs => strPFMerge r dest srcs
  | pfInspect key => (hllInspect r key : ReadM _)
  | pfRegisters key => do
    let _ ← r.locked key (Repo.pfToDense r key)
    let (sk, _) ← (hllInspect r key : ReadM _)
    pure sk
  | pfToDense key => r.locked key (Repo.pfToDense r key)
  | setBit key offset on => Repo.setBit r key offset on
  | getBit key offset => (Repo.getBit r key offset : ReadM _)
  | bitCount key rng => (Repo.bitCount r key rng : ReadM _)
  | bitPos key bit rng => (Repo.bitPos r key bit rng : ReadM _)
  | bitOp op dest srcs => Repo.bitOp r op dest srcs

end RStr

/-! ## Keys -/

inductive RKey
  | count (keys : List Bytes)
  | delete (keys : List Bytes)
  | deleteAll
  | exists (key : Bytes)
  | expire (key : Bytes) (ttlMS : Int64)
  | expireAt (key : Bytes) (atMS : Int64)
  | persist (key : Bytes)
  | get (key : Bytes)
  | keys (matching : Bytes → Bool)
  | len
  | random
  | rename (key newKey : Bytes)
  | renameNotExists (key newKey : Bytes)

namespace RKey

def Result : RKey → Type
  | count _ | delete _ | len => Nat
  | deleteAll | expire _ _ | expireAt _ _ | persist _ | rename _ _ => Unit
  | .exists _ | renameNotExists _ _ => Bool
  | get _ => KeyInfo
  | keys _ => List KeyInfo
  | random => Option KeyInfo

def program (r : Db) : (m : RKey) → StoreM m.Result
  | count names => (keyCount r names : ReadM _)
  | delete names => keyDelete r names
  | deleteAll => Repo.deleteAll r
  | .exists key => (keyExists r key : ReadM _)
  | expire key ttlMS => keyExpire r key ttlMS
  | expireAt key atMS => keyExpireAt r key atMS
  | persist key => keyPersist r key
  | get key => (keyGet r key : ReadM _)
  | keys matching => (keyKeys r matching : ReadM _)
  | len => (keyLen r : ReadM _)
  | random => (keyRandom r : ReadM _)
  | rename key newKey => keyRename r key newKey
  | renameNotExists key newKey => keyRenameNotExists r key newKey

end RKey

/-! ## Hashes -/

inductive RHash
  | delete (key : Bytes) (fields : List Bytes)
  | exists (key field : Bytes)
  | get (key field : Bytes)
  | getMany (key : Bytes) (fields : List Bytes)
  | incr (key field : Bytes) (delta : Int64)
  | incrFloat (key field : Bytes) (delta : Float64)
  /-- `Items`, with `Fields` and `Values`, which are made from it. -/
  | items (key : Bytes)
  | len (key : Bytes)
  | set (key field value : Bytes)
  | setMany (key : Bytes) (items : List (Bytes × Bytes))
  | setNotExists (key field value : Bytes)

namespace RHash

def Result : RHash → Type
  | delete _ _ | len _ | setMany _ _ => Nat
  | .exists _ _ | set _ _ _ | setNotExists _ _ _ => Bool
  | get _ _ => Bytes
  | getMany _ _ | items _ => List (Bytes × Bytes)
  | incr _ _ _ => Int64
  | incrFloat _ _ _ => Float64

def program (r : Db) : (m : RHash) → StoreM m.Result
  | delete key fields => r.locked key (hashDelete r key fields)
  | .exists key field => (hashExists r key field : ReadM _)
  | get key field => (hashGet r key field : ReadM _)
  | getMany key fields => (hashGetMany r key fields : ReadM _)
  | incr key field delta => r.locked key (hashIncr r key field delta)
  | incrFloat key field delta => r.locked key (hashIncrFloat r key field delta)
  | items key => (hashItems r key : ReadM _)
  | len key => (hashLen r key : ReadM _)
  | set key field value => r.locked key (hashSet r key field value)
  | setMany key fields => r.locked key (hashSetMany r key fields)
  | setNotExists key field value => r.locked key (hashSetNotExists r key field value)

end RHash

/-! ## Sets -/

inductive RSet
  | add (key : Bytes) (elems : List Bytes)
  | delete (key : Bytes) (elems : List Bytes)
  | diff (keys : List Bytes)
  | diffStore (dest : Bytes) (keys : List Bytes)
  | exists (key elem : Bytes)
  | inter (keys : List Bytes)
  | interStore (dest : Bytes) (keys : List Bytes)
  | items (key : Bytes)
  | len (key : Bytes)
  | move (src dest elem : Bytes)
  | pop (key : Bytes)
  | random (key : Bytes)
  | union (keys : List Bytes)
  | unionStore (dest : Bytes) (keys : List Bytes)

namespace RSet

def Result : RSet → Type
  | add _ _ | delete _ _ | diffStore _ _ | interStore _ _ | unionStore _ _ | len _ => Nat
  | diff _ | inter _ | union _ | items _ => List Bytes
  | .exists _ _ => Bool
  | move _ _ _ => Unit
  | pop _ | random _ => Bytes

def program (r : Db) : (m : RSet) → StoreM m.Result
  | add key elems => r.locked key (setAdd r key elems)
  | delete key elems => r.locked key (setDelete r key elems)
  | diff keys => (setDiff r keys : ReadM _)
  | diffStore dest keys => setDiffStore r dest keys
  | .exists key elem => (setExists r key elem : ReadM _)
  | inter keys => (setInter r keys : ReadM _)
  | interStore dest keys => setInterStore r dest keys
  | items key => (setItems r key : ReadM _)
  | len key => (setLen r key : ReadM _)
  | move src dest elem => setMove r src dest elem
  | pop key => r.locked key (setPop r key)
  | random key => (setRandom r key : ReadM _)
  | union keys => (setUnion r keys : ReadM _)
  | unionStore dest keys => setUnionStore r dest keys

end RSet

/-! ## Sorted sets -/

inductive RZSet
  | add (key elem : Bytes) (score : Float64)
  | addMany (key : Bytes) (items : List ZItem)
  | count (key : Bytes) (min max : Float64)
  | delete (key : Bytes) (elems : List Bytes)
  | deleteRange (key : Bytes) (opts : RangeOpts)
  /-- `GetRank` and `GetRankRev`. -/
  | getRank (key elem : Bytes) (rev : Bool)
  | getScore (key elem : Bytes)
  | incr (key elem : Bytes) (delta : Float64)
  | inter (keys : List Bytes)
  | interStore (dest aggregate : Bytes) (keys : List Bytes)
  | len (key : Bytes)
  | range (key : Bytes) (opts : RangeOpts)
  | union (keys : List Bytes)
  | unionStore (dest aggregate : Bytes) (keys : List Bytes)

namespace RZSet

def Result : RZSet → Type
  | add _ _ _ => Bool
  | addMany _ _ | count _ _ _ | delete _ _ | deleteRange _ _ | len _ => Nat
  | interStore _ _ _ | unionStore _ _ _ => Nat
  | getRank _ _ _ => Nat × Float64
  | getScore _ _ | incr _ _ _ => Float64
  | inter _ | union _ | range _ _ => List ZItem

def program (r : Db) : (m : RZSet) → StoreM m.Result
  | add key elem score => r.locked key (zsetAdd r key elem score)
  | addMany key items => r.locked key (zsetAddMany r key items)
  | count key min max => (zsetCount r key min max : ReadM _)
  | delete key elems => r.locked key (zsetDelete r key elems)
  | deleteRange key opts => r.locked key (zsetDeleteRange r key opts)
  | getRank key elem rev => (zsetRank r key elem rev : ReadM _)
  | getScore key elem => (zsetGetScore r key elem : ReadM _)
  | incr key elem delta => r.locked key (zsetIncr r key elem delta)
  | inter keys => (zsetInter r .sum keys : ReadM _)
  | interStore dest agg keys => zsetInterStore r dest agg keys
  | len key => (zsetLen r key : ReadM _)
  | range key opts => (zsetRange r key opts : ReadM _)
  | union keys => (zsetUnion r .sum keys : ReadM _)
  | unionStore dest agg keys => zsetUnionStore r dest agg keys

end RZSet

/-! ## Lists -/

inductive RList
  /-- `Delete`, `DeleteFront` and `DeleteBack`: none, a positive and a negative count. -/
  | delete (key elem : Bytes) (count : Int)
  | get (key : Bytes) (idx : Int)
  | insert (key pivot elem : Bytes) (before : Bool)
  | len (key : Bytes)
  | pop (key : Bytes) (front : Bool)
  | popBackPushFront (src dest : Bytes)
  | push (key elem : Bytes) (front : Bool)
  | range (key : Bytes) (start stop : Int)
  | set (key : Bytes) (idx : Int) (elem : Bytes)
  | trim (key : Bytes) (start stop : Int)

namespace RList

def Result : RList → Type
  | delete _ _ _ | len _ | push _ _ _ | trim _ _ _ => Nat
  | get _ _ | pop _ _ | popBackPushFront _ _ => Bytes
  | insert _ _ _ _ => Int
  | range _ _ _ => List Bytes
  | set _ _ _ => Unit

def program (r : Db) : (m : RList) → StoreM m.Result
  | delete key elem count => r.locked key (listDeleteMatching r key elem count)
  | get key idx => (listGet r key idx : ReadM _)
  | insert key pivot elem before => r.locked key (listInsert r key pivot elem before)
  | len key => (listLen r key : ReadM _)
  | pop key front => r.locked key (listPop r key front)
  | popBackPushFront src dest => listPopBackPushFront r src dest
  | push key elem front => r.locked key (listPush r key elem front)
  | range key start stop => (listRange r key start stop : ReadM _)
  | set key idx elem => r.locked key (listSet r key idx elem)
  | trim key start stop => r.locked key (listTrim r key start stop)

end RList

/-! ## Streams -/

inductive RStream
  | add (key : Bytes) (opts : StreamAddOpts) (fields : List Bytes)
  | len (key : Bytes)
  | range (key : Bytes) (lo hi : StreamBound) (count : Int) (rev : Bool)
  | del (key : Bytes) (ids : List StreamID)
  | trim (key : Bytes) (t : StreamTrim)
  | lastID (key : Bytes)
  | groupCreate (key group : Bytes) (id : StreamID) (mkstream : Bool)
  | groupDestroy (key group : Bytes)
  | groupSetID (key group : Bytes) (id : StreamID)
  | consumerCreate (key group consumer : Bytes)
  | consumerDelete (key group consumer : Bytes)
  | groups (key : Bytes)
  | group (key name : Bytes)
  | readNew (key group consumer : Bytes) (count : Int) (noack : Bool)
  | readPending (key group consumer : Bytes) (after : StreamID) (count : Int)
  | ack (key group : Bytes) (ids : List StreamID)
  | claim (key group consumer : Bytes) (ids : List StreamID) (opts : ClaimOpts)

namespace RStream

def Result : RStream → Type
  | add _ _ _ => Option StreamID
  | len _ | del _ _ | trim _ _ | consumerDelete _ _ _ | ack _ _ _ => Nat
  | range _ _ _ _ _ | readNew _ _ _ _ _ | readPending _ _ _ _ _ => List StreamEntry
  | lastID _ => StreamID
  | groupCreate _ _ _ _ | groupSetID _ _ _ => Unit
  | groupDestroy _ _ | consumerCreate _ _ _ => Bool
  | groups _ => List GroupInfo
  | group _ _ => GroupInfo
  | claim _ _ _ _ _ => List StreamEntry × List StreamID

def program (r : Db) : (m : RStream) → StoreM m.Result
  | add key opts fields => r.locked key (streamAdd r key opts fields)
  | len key => (streamLen r key : ReadM _)
  | range key lo hi count rev => (streamRange r key lo hi count rev : ReadM _)
  | del key ids => r.locked key (streamDel r key ids)
  | trim key t => r.locked key (streamTrim r key t)
  | lastID key => (streamLastID r key : ReadM _)
  | groupCreate key name id mkstream => r.locked key (Repo.groupCreate r key name id mkstream)
  | groupDestroy key name => r.locked key (Repo.groupDestroy r key name)
  | groupSetID key name id => r.locked key (Repo.groupSetID r key name id)
  | consumerCreate key name consumer => r.locked key (Repo.consumerCreate r key name consumer)
  | consumerDelete key name consumer => r.locked key (Repo.consumerDelete r key name consumer)
  | groups key => (streamGroups r key : ReadM _)
  | group key name => (streamGroup r key name : ReadM _)
  | readNew key name consumer count noack => r.locked key (Repo.readNew r key name consumer count noack)
  | readPending key name consumer after count =>
    r.locked key (Repo.readPending r key name consumer after count)
  | ack key name ids => r.locked key (Repo.ack r key name ids)
  | claim key name consumer ids opts => r.locked key (Repo.claim r key name consumer ids opts)

end RStream

/-! ## Documents -/

inductive RJSON
  | view (key : Bytes) (fn : Option Node → ReadM Bytes)
  | update (key : Bytes) (create : Bool) (fn : Option Node → ReadM (Bytes × Option Node))

namespace RJSON

def program (r : Db) : RJSON → StoreM Bytes
  | view key fn => (jsonView r key fn : ReadM _)
  | update key create fn => r.locked key (jsonUpdate r key create fn)

end RJSON

/-! ## Sketches -/

inductive RSketch
  | bfReserve (key : Bytes) (opts : BloomParams)
  | bfAdd (key : Bytes) (items : List Bytes) (create : Option BloomParams)
  | bfExists (key : Bytes) (items : List Bytes)
  | bfInfo (key : Bytes)
  | cmsInit (key : Bytes) (params : CmsParams)
  | cmsIncr (key : Bytes) (items : List (Bytes × Int64))
  | cmsQuery (key : Bytes) (items : List Bytes)
  | cmsMerge (dest : Bytes) (srcs : List (Bytes × Int64))
  | cmsInfo (key : Bytes)
  | topkReserve (key : Bytes) (params : TopkParams)
  | topkAdd (key : Bytes) (items : List (Bytes × Int64))
  | topkQuery (key : Bytes) (items : List Bytes)
  | topkCount (key : Bytes) (items : List Bytes)
  | topkList (key : Bytes)
  | topkInfo (key : Bytes)

namespace RSketch

def Result : RSketch → Type
  | bfReserve _ _ | cmsInit _ _ | cmsMerge _ _ | topkReserve _ _ => Unit
  | bfAdd _ _ _ | bfExists _ _ | topkQuery _ _ => List Bool
  | bfInfo _ => BloomInfo
  | cmsIncr _ _ | cmsQuery _ _ | topkCount _ _ => List Int64
  | cmsInfo _ => Int × Int × Int64
  | topkAdd _ _ => List (Option Bytes)
  | topkList _ => List (Bytes × Int64)
  | topkInfo _ => TopkParams

def program (r : Db) : (m : RSketch) → StoreM m.Result
  | bfReserve key opts => Repo.bfReserve r key opts
  | bfAdd key items create => r.locked key (Repo.bfAdd r key items create)
  | bfExists key items => (Repo.bfExists r key items : ReadM _)
  | bfInfo key => (Repo.bfInfo r key : ReadM _)
  | cmsInit key params => Repo.cmsInit r key params
  | cmsIncr key items => r.locked key (Repo.cmsIncr r key items)
  | cmsQuery key items => (Repo.cmsQuery r key items : ReadM _)
  | cmsMerge dest srcs => Repo.cmsMerge r dest srcs
  | cmsInfo key => (Repo.cmsInfo r key : ReadM _)
  | topkReserve key params => Repo.topkReserve r key params
  | topkAdd key items => r.locked key (Repo.topkAdd r key items)
  | topkQuery key items => (Repo.topkQuery r key items : ReadM _)
  | topkCount key items => (Repo.topkCount r key items : ReadM _)
  | topkList key => (Repo.topkList r key : ReadM _)
  | topkInfo key => (Repo.topkInfo r key : ReadM _)

end RSketch

/-! ## All of them -/

/-- `Redka`, and the sweeper, which works on all databases. -/
inductive Method
  | str (m : RStr)
  | key (m : RKey)
  | hash (m : RHash)
  | set (m : RSet)
  | zset (m : RZSet)
  | list (m : RList)
  | stream (m : RStream)
  | json (m : RJSON)
  | sketch (m : RSketch)
  | sweep

namespace Method

def Result : Method → Type
  | str m => m.Result
  | key m => m.Result
  | hash m => m.Result
  | set m => m.Result
  | zset m => m.Result
  | list m => m.Result
  | stream m => m.Result
  | json _ => Bytes
  | sketch m => m.Result
  | sweep => Nat

def program (r : Db) : (m : Method) → StoreM m.Result
  | str m => m.program r
  | key m => m.program r
  | hash m => m.program r
  | set m => m.program r
  | zset m => m.program r
  | list m => m.program r
  | stream m => m.program r
  | json m => m.program r
  | sketch m => m.program r
  | sweep => sweepExpired r.self

end Method

end RedGeo.Repo
