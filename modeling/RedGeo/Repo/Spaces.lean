import RedGeo.Repo.Calls

/-!
# RedGeo — what a command may touch

The data of a key live in spaces, one for each way of storing it: a plain string,
a counter, a HyperLogLog sketch, a bitmap, and one for each of the other types.
A command reads what it likes (`ReadM`), but what it writes is in one space of
one key and in the metadata of that key, and everything that carries the name of
a replica it writes in the name of its own. Programs over `KeyOp` can do nothing
else; `Db.on` says which calls they make.

* `exec_on` — what such a program does to a node, operation by operation.
-/

namespace RedGeo.Repo

open Lib Store Prog

inductive Space
  | str
  | counter
  | hll
  | bitmap
  | hash
  | set
  | zset
  | list
  | json
  | sketch
  | stream
  deriving DecidableEq, Repr

/-- The word below which a space is. Streams have three. -/
def Space.words : Space → List Word
  | .str => [.v]
  | .counter => [.c]
  | .hll => [.p]
  | .bitmap => [.b]
  | .hash => [.h]
  | .set => [.e]
  | .zset => [.z]
  | .list => [.l]
  | .json => [.j]
  | .sketch => [.s]
  | .stream => [.x, .xl, .xg]

/-- What a key can be said to be: its type, and the flavor of a string. -/
inductive Kind : Space → Type
  | string : Kind .str
  | counter : Kind .counter
  | counterFloat : Kind .counter
  | hll : Kind .hll
  | hllDense : Kind .hll
  | bitmap : Kind .bitmap
  | hash : Kind .hash
  | set : Kind .set
  | zset : Kind .zset
  | list : Kind .list
  | json : Kind .json
  | bloom : Kind .sketch
  | cms : Kind .sketch
  | topk : Kind .sketch
  | stream : Kind .stream
  deriving DecidableEq, Repr

namespace Kind

variable {X : Space}

/-- `core.TypeID`. -/
def type : Kind X → UInt8
  | string | counter | counterFloat | hll | hllDense | bitmap => 1
  | list => 2
  | set => 3
  | hash => 4
  | zset => 5
  | stream => 6
  | json => 7
  | bloom => 8
  | cms => 9
  | topk => 10

/-- `strFlavor`. -/
def flavor : Kind X → UInt8
  | string => 1
  | counter => 2
  | counterFloat => 3
  | hll => 4
  | bitmap => 5
  | hllDense => 6
  | list | set | hash | zset | stream | json | bloom | cms | topk => 0

/-- The envelope that says so. -/
def envelope (k : Kind X) (etimeMS : Int64) : MetaEnvelope := ⟨k.type, k.flavor, etimeMS, 0⟩

end Kind

/-- A register: a prefix below which every replica has its slot. -/
inductive Reg : Space → Type
  | value : Reg .str
  | chunk (idx : Nat) : Reg .bitmap
  | field (name : Bytes) : Reg .hash
  | score (member : Bytes) : Reg .zset
  | node (path : List Seg) : Reg .json
  | params : Reg .sketch
  | entry (ms seq : UInt64) : Reg .stream
  | group (name : Bytes) : Reg .stream
  | pending (group : Bytes) (ms seq : UInt64) : Reg .stream
  | consumer (group name : Bytes) : Reg .stream
  deriving DecidableEq, Repr

/-- The prefix of a register: `strBase`, `bitChunkBase` and so on. -/
def Reg.base {X : Space} (db : Int64) (key : Bytes) : Reg X → List Seg
  | .value => strBase db key
  | .chunk idx => bitChunkBase db key idx
  | .field name => hashFieldBase db key name
  | .score member => zsetMemberBase db key member
  | .node path => jsonNodeBase db key path
  | .params => sketchParamsBase db key
  | .entry ms seq => streamEntryBase db key ms seq
  | .group name => groupMetaBase db key name
  | .pending g ms seq => groupPelBase db key g ms seq
  | .consumer g name => groupConsumerBase db key g name

/-- The data that are not in registers: components that belong to a replica, and
the members and elements that do not. The data of a sketch are below a hash of
its parameters. -/
inductive Comp : Space → Type
  | counter : Comp .counter
  | hll : Comp .hll
  | fieldCounter (field : Bytes) : Comp .hash
  | member (name : Bytes) : Comp .set
  | elem (rest : List Seg) : Comp .list
  | bloomBits (hash : UInt64) (layer chunk : Nat) : Comp .sketch
  | bloomCount (hash : UInt64) (layer : Nat) : Comp .sketch
  | cell (hash idx : UInt64) : Comp .sketch
  | total (hash : UInt64) : Comp .sketch
  | summary (hash : UInt64) : Comp .sketch
  | last : Comp .stream
  | delivered (group : Bytes) : Comp .stream
  deriving DecidableEq, Repr

/-- The prefix of the data of a sketch, by the hash of its parameters. -/
def sketchSpace (db : Int64) (key : Bytes) (hash : UInt64) : List Seg :=
  sketchBase db key ++ [.space hash]

/-- Where a component of a replica is: `counterSlot`, `setMember` and so on. -/
def Comp.path {X : Space} (db : Int64) (key : Bytes) (replica : Bytes) : Comp X → Path
  | .counter => slotAt (counterBase db key) replica
  | .hll => slotAt (hllBase db key) replica
  | .fieldCounter field => slotAt (hashFieldCounterBase db key field) replica
  | .member name => setMember db key name
  | .elem rest => listElem db key rest
  | .bloomBits hash layer chunk =>
    slotAt (sketchSpace db key hash ++ [.word .b, .layer layer, .chunk chunk]) replica
  | .bloomCount hash layer => slotAt (sketchSpace db key hash ++ [.word .n, .layer layer]) replica
  | .cell hash idx => slotAt (sketchSpace db key hash ++ [.word .c, .cell idx]) replica
  | .total hash => slotAt (sketchSpace db key hash ++ [.word .t]) replica
  | .summary hash => slotAt (sketchSpace db key hash ++ [.word .k]) replica
  | .last => slotAt (streamLastBase db key) replica
  | .delivered group => slotAt (groupLastBase db key group) replica

/-! ## Reading -/

/-- The calls that change nothing of the datastore. -/
inductive Ask
  | has (k : Path)
  | query (base : List Seg) (keysOnly : Bool)
  | nowMS
  | nextSeq
  | random (n : Nat)
  deriving DecidableEq, Repr

def Ask.call : Ask → Call
  | .has k => .has k
  | .query base keysOnly => .query base keysOnly
  | .nowMS => .nowMS
  | .nextSeq => .nextSeq
  | .random n => .random n

/-- A program that reads. -/
abbrev ReadM (α : Type) := Prog Ask (fun a => Answer a.call) Err α

def ask (a : Ask) : ReadM (Result a.call) :=
  .call a fun
    | .ok x => .done x
    | .error e => .fail e

def has (k : Path) : ReadM Bool := ask (.has k)

def query (base : List Seg) (keysOnly : Bool) : ReadM (List (Path × Bytes)) :=
  ask (.query base keysOnly)

def nowMS : ReadM Int64 := ask .nowMS

def nextSeq : ReadM UInt64 := ask .nextSeq

def random (n : Nat) : ReadM Nat := ask (.random n)

/-- The calls of a reading program. -/
def ReadM.calls {α : Type} (p : ReadM α) : StoreM α := p.compile fun a : Ask => .call a.call .done

instance : MonadLift ReadM StoreM := ⟨ReadM.calls⟩

/-! ## Writing -/

/-- What a command may do in a space of a key. -/
inductive KeyOp (X : Space)
  | ask (a : Ask)
  /-- `writeSlot`. -/
  | slot (reg : Reg X) (tag : UInt8) (value : Bytes)
  /-- `put`, of this replica's component. -/
  | put (c : Comp X) (value : Bytes)
  /-- `del`, of any replica's component. -/
  | del (c : Comp X) (replica : Bytes)
  /-- `del`, of what a query found below one of the words of the space. -/
  | drop (w : Word) (h : w ∈ X.words) (rest : List Seg)
  /-- `writeMeta`. -/
  | mark (kind : Kind X) (etimeMS : Int64)
  /-- `deleteMeta`. -/
  | unmark

def KeyResult {X : Space} : KeyOp X → Type
  | .ask a => Result a.call
  | .slot _ _ _ | .put _ _ | .del _ _ | .drop _ _ _ | .mark _ _ | .unmark => Unit

/-- A program that works on one space of one key. -/
abbrev KeyM (X : Space) (α : Type) := Prog (KeyOp X) (fun op => Except Err (KeyResult op)) Err α

def act {X : Space} (op : KeyOp X) : KeyM X (KeyResult op) :=
  .call op fun
    | .ok x => .done x
    | .error e => .fail e

section

variable {X : Space}

def ReadM.keyed {α : Type} (p : ReadM α) : KeyM X α := p.compile fun a : Ask => .call (.ask a) .done

instance : MonadLift ReadM (KeyM X) := ⟨ReadM.keyed⟩

def writeSlot (reg : Reg X) (tag : UInt8) (value : Bytes) : KeyM X Unit := act (.slot reg tag value)

def putComp (c : Comp X) (value : Bytes) : KeyM X Unit := act (.put c value)

def delComp (c : Comp X) (replica : Bytes) : KeyM X Unit := act (.del c replica)

def writeMeta (kind : Kind X) (etimeMS : Int64) : KeyM X Unit := act (.mark kind etimeMS)

def deleteMeta : KeyM X Unit := act .unmark

end

/-! ## The calls -/

/-- A replica's view of a database: `strRepo`, `hashRepo` and so on. -/
structure Db where
  self : Replica
  num : Int64

/-- `writeSlot`. -/
def putSlot (self : Replica) (base : List Seg) (tag : UInt8) (value : Bytes) : StoreM Unit := do
  let st ← stamp
  put (slotKey base self) (encodeSlot ⟨st, tag, value⟩)

/-- What is below one of the words of the data of a key. -/
def wordBase (db : Int64) (key : Bytes) (w : Word) : List Seg := dataBase db key ++ [.word w]

/-- The calls behind an operation on a key. -/
def KeyOp.calls {X : Space} (r : Db) (key : Bytes) (op : KeyOp X) : StoreM (KeyResult op) :=
  match op with
  | .ask a => perform a.call
  | .slot reg tag value => putSlot r.self (reg.base r.num key) tag value
  | .put c value => Repo.put (c.path r.num key r.self.name) value
  | .del c replica => Repo.del (c.path r.num key replica)
  | .drop w _ rest => Repo.del (newKey (wordBase r.num key w) ++ rest)
  | .mark kind etimeMS => putSlot r.self (metaBase r.num key) tagPresent (encodeMeta (kind.envelope etimeMS))
  | .unmark => putSlot r.self (metaBase r.num key) tagDeleted []

/-- A program on a key, as calls. -/
def Db.on {X : Space} {α : Type} (r : Db) (key : Bytes) (p : KeyM X α) : StoreM α :=
  p.compile fun op => (op.calls r key).attempt

/-- The same with the lock of the key held. -/
def Db.locked {X : Space} {α : Type} (r : Db) (key : Bytes) (p : KeyM X α) : StoreM α :=
  withLock (lockKey r.num key) (r.on key p)

/-! ## What they do to a node -/

namespace World

/-- `writeSlot` on a node. -/
def putSlot (self : Replica) (base : List Seg) (tag : UInt8) (value : Bytes) (w : World) : World :=
  { w with
    clock := w.clock.now.2
    data := w.data.insert (slotKey base self) (encodeSlot ⟨w.clock.now.1, tag, value⟩) }

/-- What reading does. -/
def answer (a : Ask) (w : World) : Answer a.call × World := serve a.call w

/-- What an operation on a key does. -/
def keyServe {X : Space} (r : Db) (key : Bytes) :
    Prog.Handler (KeyOp X) (fun op => Except Err (KeyResult op)) World
  | .ask a, w => serve a.call w
  | .slot reg tag value, w => (.ok (), w.putSlot r.self (reg.base r.num key) tag value)
  | .put c value, w => (.ok (), { w with data := w.data.insert (c.path r.num key r.self.name) value })
  | .del c replica, w => (.ok (), { w with data := w.data.erase (c.path r.num key replica) })
  | .drop word _ rest, w =>
    (.ok (), { w with data := w.data.erase (newKey (wordBase r.num key word) ++ rest) })
  | .mark kind etimeMS, w =>
    (.ok (), w.putSlot r.self (metaBase r.num key) tagPresent (encodeMeta (kind.envelope etimeMS)))
  | .unmark, w => (.ok (), w.putSlot r.self (metaBase r.num key) tagDeleted [])

end World

lemma World.lookup_putSlot (self : Replica) (base : List Seg) (tag : UInt8) (value : Bytes) (w : World)
    (k : Path) : (w.putSlot self base tag value).data[k]? = if slotKey base self =
    k then some (encodeSlot ⟨w.clock.now.1, tag, value⟩) else w.data[k]? :=
  Table.lookup_insert ..

/-- Run a reading program. -/
def ReadM.exec {α : Type} (p : ReadM α) (w : World) : Except Err α × World := p.run World.answer w

/-- Run a program on a key. -/
def KeyM.exec {X : Space} {α : Type} (r : Db) (key : Bytes) (p : KeyM X α) (w : World) :
    Except Err α × World :=
  p.run (World.keyServe r key) w

variable {X : Space}

section

variable (r : Db) (key : Bytes)

lemma exec_calls (op : KeyOp X) (w : World) : exec (op.calls r key) w = World.keyServe r key op w := by
  cases op with
  | ask a => cases a <;> rfl
  | _ => rfl

variable {α : Type}

/-- **A program on a key, run by its calls.** -/
theorem exec_on (p : KeyM X α) (w : World) : exec (r.on key p) w = p.exec r key w := by
  refine run_compile (fun op w => ?_) p w
  rw [run_attempt]
  have hOp := exec_calls r key op w
  rw [exec] at hOp
  rw [hOp]

lemma exec_keyed (p : ReadM α) (w : World) : KeyM.exec r key (p.keyed : KeyM X α) w = p.exec w :=
  run_compile (fun _ _ => rfl) p w

end

/-! Programs on a key, step by step. -/

section

variable {X : Space} {α β : Type} {r : Db} {key : Bytes} {w w' : World} {a : α} {p : ReadM α}

lemma KeyM.exec_bind {p : KeyM X α} (h : p.exec r key w = (.ok a, w')) (f : α → KeyM X β) :
    (p >>= f).exec r key w = (f a).exec r key w' :=
  run_bind_ok _ h f

lemma KeyM.exec_bind_error {p : KeyM X α} (h : p.exec r key w = (.error e, w')) (f : α → KeyM X β) :
    (p >>= f).exec r key w = (.error e, w') :=
  run_bind_error _ h f

/-- A reading program at the beginning of a program on a key. -/
lemma KeyM.exec_read (h : p.exec w = (.ok a, w')) (f : α → KeyM X β) :
    ((liftM p : KeyM X α) >>= f).exec r key w = (f a).exec r key w' :=
  KeyM.exec_bind ((exec_keyed r key p w).trans h) f

/-- Programs that all succeed, one after the other. -/
lemma KeyM.exec_forM {xs : List α} {f : α → KeyM X PUnit}
    (h : ∀ x ∈ xs, ∀ w, (f x).exec r key w = (.ok (), g w x)) (w : World) :
    KeyM.exec r key (xs.forM f) w = (.ok (), xs.foldl g w) := by
  induction xs generalizing w with
  | nil => rfl
  | cons x xs ih =>
    rw [List.forM_eq_forM, List.forM_cons]
    refine (KeyM.exec_bind (h x List.mem_cons_self w) _).trans ?_
    exact ih (fun y hy => h y (List.mem_cons_of_mem _ hy)) (g w x)

lemma exec_bind {p : StoreM α} (h : exec p w = (.ok a, w')) (f : α → StoreM β) :
    exec (p >>= f) w = exec (f a) w' :=
  run_bind_ok _ h f

/-- What succeeds as a whole succeeds step by step. -/
lemma exec_bind_ok {p : StoreM α} {f : α → StoreM β} (h : exec (p >>= f) w = (.ok b, w')) :
    ∃ a w₁, exec p w = (.ok a, w₁) ∧ exec (f a) w₁ = (.ok b, w') := by
  rcases hp : exec p w with ⟨res, w₁⟩
  cases res with
  | ok a => exact ⟨a, w₁, rfl, (exec_bind hp f).symm.trans h⟩
  | error e =>
    have hError : exec (p >>= f) w = (.error e, w₁) := run_bind_error _ hp f
    cases hError.symm.trans h

lemma exec_bind_error {p : StoreM α} (h : exec p w = (.error e, w')) (f : α → StoreM β) :
    exec (p >>= f) w = (.error e, w') :=
  run_bind_error _ h f

/-- A reading program at the beginning of a command. -/
lemma exec_read (h : p.exec w = (.ok a, w')) (f : α → StoreM β) :
    exec ((liftM p : StoreM α) >>= f) w = exec (f a) w' :=
  exec_bind ((run_compile (fun _ _ => rfl) p w).trans h) f

end

/-- A lock that is always free does nothing. -/
lemma exec_withLock (k : Bytes) (body : StoreM α) (w : World) : exec (withLock k body) w = exec body w := by
  show (body.attempt >>= _).run World.serve w = body.run World.serve w
  rw [run_bind, run_attempt]
  cases h : body.run World.serve w with
  | mk out w' => cases out <;> rfl

lemma exec_locked (r : Db) (key : Bytes) (p : KeyM X α) (w : World) :
    exec (r.locked key p) w = p.exec r key w := by
  rw [Db.locked, exec_withLock, exec_on]

end RedGeo.Repo
