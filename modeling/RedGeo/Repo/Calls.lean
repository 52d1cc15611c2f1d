import RedGeo.Lib.Numerals
import RedGeo.Lib.Prog
import RedGeo.Lib.Table
import RedGeo.Store.Registers

/-!
# RedGeo — what the store asks of its surroundings

Every command of `crdtstore` is made of a few calls: to the datastore (`get`,
`has`, `query`, `put`, `del`), to the clocks, to the counter that makes list
positions unique, to the random numbers, and to the key locks. A command is a
program over these calls (`StoreM`), and what it does depends on who answers:
the datastore itself (`World.serve`), or a transaction in front of it.

The source does not fix the order in which a query lists its entries. `World.serve`
lists them by their keys; what holds for any order is stated over `Order`.
-/

namespace RedGeo.Repo

open Lib Store

/-- What the datastore holds. -/
abbrev Datastore := Table Path Bytes

namespace Datastore

/-- `QueryPrefix`: the entries strictly below the prefix. -/
def entries (data : Datastore) (base : List Seg) : List (Path × Bytes) :=
  data.select fun k => Under base k

lemma mem_entries {data : Datastore} : e ∈ data.entries base ↔ data[e.1]? = some e.2 ∧ Under base e.1 := by
  rw [entries, Table.mem_select, decide_eq_true_iff]

/-- A query sees what is below its prefix and nothing else. -/
lemma entries_congr {data data' : Datastore}
    (h : ∀ k, Under base k → data[k]? = data'[k]?) : data.entries base = data'.entries base :=
  Table.select_congr fun k hk => h k (of_decide_eq_true hk)

end Datastore

/-- What is left of an entry if only keys are asked for. -/
def keyEntry (keysOnly : Bool) (e : Path × Bytes) : Path × Bytes := if keysOnly then (e.1, []) else e

/-- The errors, by what they are called in `core` and `redisapi`, or by text. -/
inductive Err
  | keyType
  | notFound
  | valueType
  | noGroup
  | groupExists
  | sketchExists
  | cmsDims
  | text (msg : String)
  /-- A run-time panic. -/
  | panic
  /-- What the engine returns, such as the `TRYAGAIN` of a rotated partition. -/
  | storage (msg : String)
  deriving DecidableEq, Repr

inductive Call
  | get (k : Path)
  | has (k : Path)
  | query (base : List Seg) (keysOnly : Bool)
  | put (k : Path) (v : Bytes)
  | del (k : Path)
  /-- The hybrid logical clock. -/
  | stamp
  /-- The wall clock. -/
  | nowMS
  /-- `atomic.AddUint64(&s.listSeq, 1)`. -/
  | nextSeq
  /-- `rand.Intn(n)`. -/
  | random (n : Nat)
  | lock (k : Bytes)
  | unlock (k : Bytes)
  deriving DecidableEq, Repr

/-- What a call returns if it does not fail. -/
def Result : Call → Type
  | .get _ => Option Bytes
  | .has _ => Bool
  | .query _ _ => List (Path × Bytes)
  | .stamp => Stamp
  | .nowMS => Int64
  | .nextSeq => UInt64
  | .random _ => Nat
  | .put _ _ | .del _ | .lock _ | .unlock _ => Unit

abbrev Answer (c : Call) : Type := Except Err (Result c)

/-- A program over these calls. -/
abbrev StoreM (α : Type) := Prog Call Answer Err α

def perform (c : Call) : StoreM (Result c) :=
  .call c fun
    | .ok x => .done x
    | .error e => .fail e

def put (k : Path) (v : Bytes) : StoreM Unit := perform (.put k v)

def del (k : Path) : StoreM Unit := perform (.del k)

def stamp : StoreM Stamp := perform .stamp

/-- What happens between taking a lock and the deferred unlocking. -/
def withLock {α : Type} (k : Bytes) (body : StoreM α) : StoreM α := do
  let _ ← perform (.lock k)
  let out ← body.attempt
  let _ ← perform (.unlock k)
  match out with
  | .ok a => pure a
  | .error e => .fail e

def lockKey (db : Int64) (key : Bytes) : Bytes := formatInt db.toInt ++ 47 :: key

/-! ## The datastore answers -/

/-- A node: its datastore, its clocks with the readings to come, the counter of
positions and the random numbers to come. -/
structure World where
  data : Datastore := ∅
  clock : Clock
  now : Nat → Int64
  listSeq : UInt64 := 0
  rand : Nat → Nat := fun _ => 0

/-- A node without data. -/
def World.fresh : World := { clock := { wall := fun _ => 1 }, now := fun _ => 1 }

namespace World

/-- What the calls of a plain command do. There is only one client here, who
finds every lock free. -/
def serve : Prog.Handler Call Answer World
  | .get k, w => (.ok w.data[k]?, w)
  | .has k, w => (.ok (w.data.contains k), w)
  | .query base keysOnly, w => (.ok ((w.data.entries base).map (keyEntry keysOnly)), w)
  | .put k v, w => (.ok (), { w with data := w.data.insert k v })
  | .del k, w => (.ok (), { w with data := w.data.erase k })
  | .stamp, w => (.ok w.clock.now.1, { w with clock := w.clock.now.2 })
  | .nowMS, w => (.ok (w.now 0), { w with now := fun i => w.now (i + 1) })
  | .nextSeq, w => (.ok (w.listSeq + 1), { w with listSeq := w.listSeq + 1 })
  | .random n, w => (.ok (w.rand 0 % n), { w with rand := fun i => w.rand (i + 1) })
  | .lock _, w => (.ok (), w)
  | .unlock _, w => (.ok (), w)

end World

/-- Run a plain command. -/
def exec {α : Type} (p : StoreM α) (w : World) : Except Err α × World := p.run World.serve w

end RedGeo.Repo
