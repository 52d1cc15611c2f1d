import RedGeo.Lib.Bytes

/-!
# RedGeo — datastore keys

`crdtstore/keys.go`, and the key builders of `rjson.go`, `sketch.go`, `bloom.go`,
`cms.go` and `topk.go`. A datastore key is a path of `/`-separated segments.
Names that come from users are base32-encoded, which keeps them apart from the
fixed words and from each other; a `Seg` is a segment before it becomes text.

An empty name encodes to an empty segment, and `ds.NewKey` cleans those away.
The prefix of a query is cleaned the same way, so that a prefix with an empty
name in it is the prefix of more than the code means by it (`Under`).
-/

namespace RedGeo.Store

open Lib Function List

/-- The fixed words, by their text; `leaf` is the `_` that ends a path in a JSON
document. -/
inductive Word
  | m
  | d
  | v
  | c
  | p
  | b
  | x
  | xl
  | xg
  | l
  | h
  | e
  | z
  | j
  | s
  | n
  | t
  | k
  | r
  | leaf
  deriving DecidableEq, Repr

/-- A segment: a partition bucket (`%02x`), a fixed word, a database number
(`%d`), an encoded name (`encSeg`), the number of a chunk (`%08x`), of a layer
(`%02x`) or of a cell (`%010x`), a stream ID (`%016x-%016x`), the position of a
list element, a step of a JSON path (`f` with an encoded name, `a` with a
position), the namespace of a sketch (`h%016x`). -/
inductive Seg
  | bucket (p : Nat)
  | word (w : Word)
  | db (n : Int64)
  | enc (name : Bytes)
  | chunk (n : Nat)
  | layer (n : Nat)
  | cell (n : UInt64)
  | id (ms seq : UInt64)
  | pos (text : Bytes)
  | field (name : Bytes)
  | elem (text : Bytes)
  | space (hash : UInt64)
  deriving DecidableEq, Repr

abbrev Path := List Seg

instance lawfulBEqPath : LawfulBEq Path := inferInstanceAs (LawfulBEq (List Seg))

def newKey (segs : List Seg) : Path := segs.filter (· ≠ .enc [])

/-- The name of a replica, which is not empty. -/
@[ext] structure Replica where
  name : Bytes
  nonempty : name ≠ []
  deriving DecidableEq

/-- A replica with a name of one letter. -/
def Replica.named (letter : UInt8) : Replica := ⟨[letter], List.cons_ne_nil letter []⟩

def numBuckets : Nat := 256

/-- FNV-1a with 32 bits. -/
def fnv32a (bs : Bytes) : UInt32 := bs.foldl (fun h b => (h ^^^ b.toUInt32) * 16777619) 2166136261

section

variable (db : Int64) (key : Bytes)

/-- `bucket`: the database number goes in with its least significant byte first. -/
def bucket : Nat :=
  (fnv32a ((toBe 8 db.toUInt64.toNat).reverse ++ key)).toNat % numBuckets

def part : Seg := .bucket (bucket db key)

def metaBase : List Seg := [part db key, .word .m, .db db, .enc key]

def strBase : List Seg :=
  [part db key, .word .d, .db db, .enc key, .word .v]

/-- The slot of one replica below a base: `metaSlot`, `strSlot` and the like. -/
def slotKey (base : List Seg) (replica : Replica) : Path := newKey (base ++ [.enc replica.name])

/-- The part of a path that names the key it belongs to: the prefix of all its
data. -/
def dataBase : List Seg := [part db key, .word .d, .db db, .enc key]

/-- The slot of a replica that is known by its name only. -/
def slotAt (base : List Seg) (name : Bytes) : Path := newKey (base ++ [.enc name])

def counterBase : List Seg := dataBase db key ++ [.word .c]

def hllBase : List Seg := dataBase db key ++ [.word .p]

def bitBase : List Seg := dataBase db key ++ [.word .b]

def bitChunkBase (chunk : Nat) : List Seg :=
  bitBase db key ++ [.chunk chunk]

def streamBase : List Seg := dataBase db key ++ [.word .x]

/-- The slots of one stream entry (`streamSlot`). -/
def streamEntryBase (ms seq : UInt64) : List Seg :=
  streamBase db key ++ [.id ms seq]

def streamLastBase : List Seg := dataBase db key ++ [.word .xl]

def groupsBase : List Seg := dataBase db key ++ [.word .xg]

section

variable (db : Int64) (key group : Bytes)

def groupBase : List Seg := groupsBase db key ++ [.enc group]

/-- The slots that say whether a group exists (`groupMetaSlot`). -/
def groupMetaBase : List Seg := groupBase db key group ++ [.word .m]

/-- The last-delivered IDs of a group (`groupLastSlot`). -/
def groupLastBase : List Seg := groupBase db key group ++ [.word .l]

/-- The slots of one pending entry (`groupPelSlot`). -/
def groupPelBase (ms seq : UInt64) : List Seg :=
  groupBase db key group ++ [.word .p, .id ms seq]

end

/-- The slots of one consumer (`groupConsumerSlot`). -/
def groupConsumerBase (db : Int64) (key group consumer : Bytes) : List Seg :=
  groupBase db key group ++ [.word .c, .enc consumer]

def hashBase : List Seg := dataBase db key ++ [.word .h]

def hashFieldBase (db : Int64) (key field : Bytes) : List Seg := hashBase db key ++ [.enc field]

def hashFieldCounterBase (db : Int64) (key field : Bytes) : List Seg :=
  hashFieldBase db key field ++ [.word .c]

def setBase : List Seg := dataBase db key ++ [.word .e]

def setMember (db : Int64) (key member : Bytes) : Path := newKey (setBase db key ++ [.enc member])

def zsetBase : List Seg := dataBase db key ++ [.word .z]

def zsetMemberBase (db : Int64) (key member : Bytes) : List Seg := zsetBase db key ++ [.enc member]

def listBase : List Seg := dataBase db key ++ [.word .l]

/-- `listElem`, of whatever stands below the base. -/
def listElem (rest : List Seg) : Path := newKey (listBase db key ++ rest)

def jsonBase : List Seg := dataBase db key ++ [.word .j]

/-- The slots of one node of a document (`jsonSlotKey`). -/
def jsonNodeBase (path : List Seg) : List Seg :=
  jsonBase db key ++ path ++ [.word .leaf]

def sketchBase : List Seg := dataBase db key ++ [.word .s]

def sketchParamsBase : List Seg := sketchBase db key ++ [.word .p]

end

/-- FNV-1a with 64 bits. -/
def fnv64a (bs : Bytes) : UInt64 :=
  bs.foldl (fun h b => (h ^^^ b.toUInt64) * 1099511628211) 14695981039346656037

/-- `dbMetaPrefixes`. -/
def dbMetaBases (db : Int64) : List (List Seg) :=
  (List.range numBuckets).map fun p => [.bucket p, .word .m, .db db]

/-- Whether a query with prefix `base` returns the key. -/
def Under (base : List Seg) (k : Path) : Prop := newKey base <+: k ∧ k ≠ newKey base

instance (base : List Seg) (k : Path) : Decidable (Under base k) :=
  inferInstanceAs (Decidable (_ ∧ _))

/-- `strings.TrimPrefix`: what is not below the prefix stays as it is. The prefix
is not cleaned first, so that one with an empty name in it trims nothing. -/
def trimPrefix (base k : List Seg) : List Seg := if base <+: k then k.drop base.length else k

/-- `decSeg(lastSegment(key))`: only an encoded name decodes. -/
def replicaOf (k : Path) : Option Bytes :=
  match k.getLast? with
  | some (.enc name) => some name
  | _ => none

variable (base : List Seg) (r : Replica)

lemma slotKey_eq : slotKey base r = newKey base ++ [.enc r.name] := by
  simp [slotKey, newKey, r.nonempty]

lemma slotKey_injective : Injective (slotKey base) := by
  intro r r' h
  rw [slotKey_eq, slotKey_eq] at h
  exact Replica.ext (by simpa using append_cancel_left h)

lemma under_slotKey : Under base (slotKey base r) := by
  rw [slotKey_eq]
  exact ⟨prefix_append _ _, by simp⟩

lemma replicaOf_slotKey : replicaOf (slotKey base r) = some r.name := by
  rw [slotKey_eq, replicaOf, getLast?_concat]

/-! ## An order

It is what finite maps over paths are kept by. As in the order of the texts, names
come before words. -/

namespace Seg

def code : Seg → List Nat
  | bucket p => [0, p]
  | word w => [12, w.ctorIdx]
  | db n => [2, n.toUInt64.toNat]
  | enc name => 3 :: name.map UInt8.toNat
  | chunk n => [4, n]
  | layer n => [5, n]
  | cell n => [6, n.toNat]
  | id ms seq => [7, ms.toNat, seq.toNat]
  | pos text => 8 :: text.map UInt8.toNat
  | field name => 9 :: name.map UInt8.toNat
  | elem text => 10 :: text.map UInt8.toNat
  | space hash => [11, hash.toNat]

lemma code_injective : Injective code := by
  have hBytes : Injective (map UInt8.toNat) :=
    map_injective_iff.mpr fun _ _ => UInt8.toNat_inj.mp
  have hDb : ∀ a b : Int64, a.toUInt64 = b.toUInt64 → a = b := fun a b h => by
    have hBits := congrArg UInt64.toBitVec h
    exact Int64.toBitVec_inj.mp hBits
  intro a b h
  cases a <;> cases b <;>
    simp only [code, cons.injEq, Nat.reduceEqDiff, false_and, reduceCtorEq, true_and, and_true,
      hBytes.eq_iff, UInt64.toNat_inj] at h
  all_goals first
    | rw [h]
    | rw [hDb _ _ h]
    | rw [h.1, h.2]
    | skip
  case word.word w w' =>
    rw [← Word.ofNat_ctorIdx w, ← Word.ofNat_ctorIdx w', h]

instance : Ord Seg := ⟨compareOn code⟩

instance : Std.TransOrd Seg := inferInstanceAs (Std.TransCmp (compareOn code))

instance : Std.LawfulEqOrd Seg :=
  ⟨fun h => code_injective (Std.LawfulEqOrd.eq_of_compare (α := List Nat) h)⟩

end Seg

end RedGeo.Store
