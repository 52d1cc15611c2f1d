import RedGeo.Repo.Orders
import RedGeo.Repo.Overlay
import RedGeo.Repo.Strings

/-!
# RedGeo — connections and transactions

`server/handlers.go` with the batch of `engine/engine.go`. A connection sends
requests. Some are handled by the connection itself (`SELECT`, `MULTI`, `EXEC`,
`DISCARD`, publishing, authentication, administration); all others are commands
of the store, which are run at once, or queued between `MULTI` and `EXEC`. `EXEC`
and `EVAL` run on a store bound to a transaction and commit its batch at the end.

Meanwhile partitions may be frozen, blocked or rotated, and other clients and
replicas write. What an operation finds is given by its `Surroundings`, moment
by moment.

* `exec_reports_iff` — when a client can rely on the reply to `EXEC` and `EVAL`.
-/

namespace RedGeo.Server

open Lib Store Repo

/-! ## Replies and commands -/

inductive Reply
  | status (msg : String)
  | error (msg : String)
  | int (n : Int64)
  | bulk (b : Bytes)
  | null
  | array (rs : List Reply)

mutual

/-- An error is part of the reply. -/
def Reply.hasError : Reply → Bool
  | .error _ => true
  | .array rs => anyError rs
  | .status _ | .int _ | .bulk _ | .null => false

def anyError : List Reply → Bool
  | [] => false
  | r :: rs => r.hasError || anyError rs

end

lemma anyError_iff (rs : List Reply) : anyError rs ↔ ∃ r ∈ rs, r.hasError := by
  induction rs with
  | nil => simp [anyError]
  | cons r rs ih => simp [anyError, ih]

/-- The text of an error, as `BaseCmd.Error` has it. -/
def Err.message : Err → String
  | .keyType => "key type mismatch"
  | .notFound => "ERR no such key"
  | .valueType => "invalid value type"
  | .noGroup => "NOGROUP No such key or consumer group"
  | .groupExists => "BUSYGROUP Consumer Group name already exists"
  | .sketchExists => "ERR item exists"
  | .cmsDims => "CMS: width/depth doesn't match"
  | .text msg => msg
  | .panic => "ERR internal"
  | .storage msg => msg

/-- A parsed command of the store, and what it does in a database. `EVAL` and its
variants are told by their name. -/
structure Command where
  name : String
  run : Int64 → StoreM Reply

/-- `strings.HasPrefix(name, "eval")`. -/
def Command.isEval (c : Command) : Bool := "eval".toList.isPrefixOf c.name.toList

/-- `Run`: a command that fails writes its error. -/
def Command.reply (c : Command) : Except Err Reply → Reply
  | .ok r => r
  | .error e => .error (Err.message e ++ " (" ++ c.name ++ ")")

/-! ## The partitions -/

/-- A partition at one moment, as an operation finds it when its wait at the
gate is over. -/
structure Part where
  /-- Which generation `p.crdt` is. -/
  gen : Nat := 0
  writable : Bool := true
  readable : Bool := true
  /-- What the datastore fails with. -/
  fault : Option String := none

/-- What happens meanwhile: at each moment the partitions, what others do to the
datastore before it, and how a query lists what it finds; and in which order a batch
goes through its partitions. -/
structure Surroundings where
  part : Nat → Nat → Part := fun _ _ => {}
  others : Nat → Datastore → Datastore := fun _ data => data
  lists : Nat → Order := fun _ => .byKey
  order : List (Nat × Nat) → List (Nat × Nat) := id
  order_perm : ∀ l, (order l).Perm l := by exact fun l => .refl l

def errPartitionBusy : Err := .storage "LOADING partition is being compacted, retry"

def errGenerationChanged : Err := .storage "TRYAGAIN partition rotated during transaction, retry"

namespace Part

/-- `readable`, and then the datastore. -/
def read (p : Part) : Except Err Unit :=
  if p.readable then p.fault.elim (.ok ()) (.error ∘ .storage) else .error errPartitionBusy

/-- `beginWrite`, and then the datastore. -/
def write (p : Part) : Except Err Unit :=
  if p.writable then p.fault.elim (.ok ()) (.error ∘ .storage) else .error errPartitionBusy

end Part

/-- A node, and how many moments have passed. -/
structure Node where
  world : World
  moment : Nat := 0

/-- The node when the next moment comes. -/
def Node.next (env : Surroundings) (n : Node) : Node :=
  { world := { n.world with data := env.others n.moment n.world.data }, moment := n.moment + 1 }

/-- Whether the engine lets a call through. -/
def admits (numParts : Nat) (part : Nat → Part) : Call → Except Err Unit
  | .get k => (part (partIdx numParts k)).read
  | .has k => (part (partIdx numParts k)).read
  | .query base _ => (part (partIdx numParts base)).read
  | .put k _ => (part (partIdx numParts k)).write
  | .del k => (part (partIdx numParts k)).write
  | .stamp | .nowMS | .nextSeq | .random _ | .lock _ | .unlock _ => .ok ()

/-- What the calls of a plain command do. -/
def Node.serve (env : Surroundings) (numParts : Nat) : Prog.Handler Call Answer Node := fun c n =>
  match admits numParts (env.part n.moment) c with
  | .error e => (.error e, n.next env)
  | .ok () =>
    let out := World.serveIn (env.lists n.moment) c (n.next env).world
    (out.1, { n.next env with world := out.2 })

/-! ## Transactions -/

/-- A node with a transaction under way. For each partition with a sub-batch, the
generation it was opened on. -/
structure TxnNode where
  txn : TxnWorld
  moment : Nat
  subs : List (Nat × Nat) := []

namespace TxnNode

/-- `BeginTxn`. -/
def begin (n : Node) : TxnNode := { txn := .begin n.world, moment := n.moment }

def next (env : Surroundings) (x : TxnNode) : TxnNode :=
  { x with
    txn := { x.txn with world := { x.txn.world with data := env.others x.moment x.txn.world.data } }
    moment := x.moment + 1 }

/-- Whether the overlay answers for a key by itself. -/
def overlaid (x : TxnNode) (k : Path) : Bool :=
  x.txn.txn.dels.contains k || x.txn.txn.puts.contains k

/-- `sub`: the sub-batch of a partition, opened if there is none. -/
def sub (part : Nat → Part) (x : TxnNode) (p : Nat) : Except Err (List (Nat × Nat)) :=
  if x.subs.any fun s => s.1 = p then .ok x.subs
  else
    match (part p).read with
    | .error e => .error e
    | .ok () => .ok (x.subs ++ [(p, (part p).gen)])

/-- Whether a call is let through, and the sub-batches then. -/
def admits (numParts : Nat) (part : Nat → Part) (x : TxnNode) : Call → Except Err (List (Nat × Nat))
  | .get k | .has k =>
    if x.overlaid k then .ok x.subs else (part (partIdx numParts k)).read.map fun _ => x.subs
  | .query base _ => (part (partIdx numParts base)).read.map fun _ => x.subs
  | .put k _ | .del k => x.sub part (partIdx numParts k)
  | .stamp | .nowMS | .nextSeq | .random _ | .lock _ | .unlock _ => .ok x.subs

/-- What the calls of a command inside a transaction do, if queries list in some order.
The code lists the puts of the overlay last, and both parts as a map is iterated. -/
def serveIn (o : Order) (numParts : Nat) : Prog.Handler Call Answer TxnWorld
  | .query base keysOnly, x => (.ok (o.list (x.query base keysOnly)), x)
  | c, x => TxnWorld.serve numParts c x

def serve (env : Surroundings) (numParts : Nat) : Prog.Handler Call Answer TxnNode := fun c x =>
  match x.admits numParts (env.part x.moment) c with
  | .error e => (.error e, x.next env)
  | .ok subs =>
    let out := serveIn (env.lists x.moment) numParts c (x.next env).txn
    (out.1, { x.next env with txn := out.2, subs := subs })

/-- One command of a transaction. -/
def runCommand (env : Surroundings) (numParts : Nat) (db : Int64) (c : Command) (x : TxnNode) :
    Reply × TxnNode :=
  let out := (c.run db).run (serve env numParts) x
  (c.reply out.1, out.2)

/-- The commands of a transaction, one after the other. -/
def runCommands (env : Surroundings) (numParts : Nat) (db : Int64) :
    List Command → TxnNode → List Reply × TxnNode
  | [], x => ([], x)
  | c :: cs, x =>
    let out := x.runCommand env numParts db c
    let rest := runCommands env numParts db cs out.2
    (out.1 :: rest.1, rest.2)

end TxnNode

/-- The datastore after the operations of a batch. -/
def applyOps (ops : List BatchOp) (data : Datastore) : Datastore :=
  ops.foldl (fun data op => match op.2 with
    | some v => data.insert op.1 v
    | none => data.erase op.1) data

/-- What `Commit` checks for one sub-batch: the gate, the generation, and that the
datastore takes it. -/
def Part.commits (p : Part) (gen : Nat) : Except Err Unit :=
  if p.writable then
    if p.gen = gen then p.fault.elim (.ok ()) (.error ∘ .storage) else .error errGenerationChanged
  else .error errPartitionBusy

def commit (env : Surroundings) (batch : Nat → List BatchOp) :
    List (Nat × Nat) → Node → Except Err Unit × Node
  | [], n => (.ok (), n)
  | (p, gen) :: subs, n =>
    match (env.part n.moment p).commits gen with
    | .error e => (.error e, n.next env)
    | .ok () =>
      commit env batch subs { n.next env with world :=
        { (n.next env).world with data := applyOps (batch p) (n.next env).world.data } }

/-- Commit a transaction that was begun on a store with this counter of positions:
the bound store had a copy of it. -/
def TxnNode.commit (env : Surroundings) (listSeq : UInt64) (x : TxnNode) : Except Err Unit × Node :=
  Server.commit env x.txn.txn.batch (env.order x.subs)
    { world := { x.txn.world with listSeq := listSeq }, moment := x.moment }

/-! ## Connections -/

/-- `connState`. -/
structure Conn where
  db : Int64 := 0
  inMulti : Bool := false
  aborted : Bool := false
  cmds : List Command := []

inductive Request
  | select (args : List Bytes)
  | multi
  | exec
  | discard
  /-- Publishing, authentication, administration: handled by the connection
  without the store. -/
  | aside (reply : Reply)
  /-- A command that does not parse. -/
  | malformed (msg : String)
  | command (c : Command)

/-- What the client is told, and how the commit ended if there was one. -/
structure Outcome where
  reply : Reply
  commit : Option (Except Err Unit) := none

section

variable (env : Surroundings) (numParts : Nat)

def numDBs : Int64 := 16

def doSelect (args : List Bytes) (st : Conn) : Reply × Conn :=
  match args with
  | [arg] =>
    match parseInt arg with
    | none => (.error "ERR value is not an integer", st)
    | some idx =>
      if idx < 0 ∨ idx ≥ numDBs then (.error "ERR DB index is out of range", st)
      else (.status "OK", { st with db := idx })
  | _ => (.error "ERR wrong number of arguments (select)", st)

variable (st : Conn)

def doMulti : Reply × Conn :=
  if st.inMulti then (.error "ERR MULTI calls can not be nested", st)
  else (.status "OK", { st with inMulti := true, aborted := false, cmds := [] })

def doDiscard : Reply × Conn :=
  if st.inMulti then (.status "OK", { st with inMulti := false, aborted := false, cmds := [] })
  else (.error "ERR EXEC without MULTI", st)

/-- The state of the connection that `doExec` leaves. -/
def Conn.leaveMulti : Conn := { st with inMulti := false, aborted := false, cmds := [] }

def doExec (n : Node) : Outcome × Conn × Node :=
  if st.inMulti then
    if st.aborted then
      ({ reply := .error "EXECABORT Transaction discarded because of previous errors." }, st.leaveMulti, n)
    else
      let out := (TxnNode.begin n).runCommands env numParts st.db st.cmds
      -- the replies are written before the commit, whose error nobody looks at
      let done := out.2.commit env n.world.listSeq
      ({ reply := .array out.1, commit := some done.1 }, st.leaveMulti, done.2)
  else ({ reply := .error "ERR EXEC without MULTI" }, st, n)

/-- A command outside of `MULTI`. -/
def runPlain (c : Command) (st : Conn) (n : Node) : Outcome × Conn × Node :=
  if c.isEval then
    let out := (TxnNode.begin n).runCommand env numParts st.db c
    let done := out.2.commit env n.world.listSeq
    ({ reply := out.1, commit := some done.1 }, st, done.2)
  else
    let out := (c.run st.db).run (Node.serve env numParts) n
    ({ reply := c.reply out.1 }, st, out.2)

def serve (r : Request) (st : Conn) (n : Node) : Outcome × Conn × Node :=
  match r with
  | .select args => ({ reply := (doSelect args st).1 }, (doSelect args st).2, n)
  | .multi => ({ reply := (doMulti st).1 }, (doMulti st).2, n)
  | .exec => doExec env numParts st n
  | .discard => ({ reply := (doDiscard st).1 }, (doDiscard st).2, n)
  | .aside reply => ({ reply := reply }, st, n)
  | .malformed msg => ({ reply := .error msg }, { st with aborted := st.aborted || st.inMulti }, n)
  | .command c =>
    if st.inMulti then ({ reply := .status "QUEUED" }, { st with cmds := st.cmds ++ [c] }, n)
    else runPlain env numParts c st n

end

/-! ## What the reply says of the commit -/

/-- When its turn comes, every sub-batch finds its partition unfrozen, on the
generation it was opened on, and with a datastore that takes it. -/
def Undisturbed (env : Surroundings) (subs : List (Nat × Nat)) (moment : Nat) : Prop :=
  ∀ i p gen, subs[i]? = some (p, gen) →
    (env.part (moment + i) p).writable = true ∧ (env.part (moment + i) p).gen = gen ∧
      (env.part (moment + i) p).fault = none

lemma Part.commits_ok_iff {p : Part} {gen : Nat} :
    p.commits gen = .ok () ↔ p.writable = true ∧ p.gen = gen ∧ p.fault = none := by
  rw [Part.commits]
  by_cases hWritable : p.writable = true
  · by_cases hGen : p.gen = gen
    · cases hFault : p.fault <;> simp [hWritable, hGen]
    · simp [hWritable, hGen]
  · simp [hWritable]

lemma undisturbed_cons {env : Surroundings} {s : Nat × Nat} {t : Nat} :
    Undisturbed env (s :: subs) t ↔ (env.part t s.1).commits s.2 = .ok () ∧ Undisturbed env subs (t + 1) := by
  rw [Part.commits_ok_iff]
  constructor
  · intro h
    refine ⟨h 0 s.1 s.2 rfl, fun i p gen hSub => ?_⟩
    have hLater := h (i + 1) p gen hSub
    rwa [show t + (i + 1) = t + 1 + i by omega] at hLater
  · rintro ⟨hNow, hLater⟩ i p gen hSub
    cases i with
    | zero =>
      obtain rfl := Option.some.inj hSub
      exact hNow
    | succ i =>
      rw [show t + (i + 1) = t + 1 + i by omega]
      exact hLater i p gen hSub

/-- **When a commit succeeds.** -/
theorem commit_ok_iff (env : Surroundings) (batch : Nat → List BatchOp) (subs : List (Nat × Nat)) (n : Node) :
    (commit env batch subs n).1 = .ok () ↔ Undisturbed env subs n.moment := by
  induction subs generalizing n with
  | nil => exact ⟨fun _ i _ _ h => by simp at h, fun _ => rfl⟩
  | cons s subs ih =>
    obtain ⟨p, gen⟩ := s
    rw [undisturbed_cons, commit]
    split
    · next e hFail =>
      -- the loop is left at once
      rw [hFail]
      simp
    · next hCommits =>
      rw [ih, hCommits]
      exact ⟨fun h => ⟨rfl, h⟩, fun h => h.2⟩

/-- The commands that a request runs in a transaction. -/
def Request.transaction (st : Conn) : Request → Option (List Command)
  | .exec => if st.inMulti ∧ ¬ st.aborted then some st.cmds else none
  | .command c => if c.isEval ∧ ¬ st.inMulti then some [c] else none
  | .select _ | .multi | .discard | .aside _ | .malformed _ => none

/-- Without a transaction there is no commit. -/
lemma commit_of_transaction_none (h : r.transaction st = none) :
    (serve env numParts r st n).1.commit = none := by
  cases r with
  | exec =>
    rw [Request.transaction] at h
    rw [serve, doExec]
    split
    · next hIn =>
      split
      · rfl
      · next hAborted => simp [hIn, hAborted] at h
    · rfl
  | command c =>
    rw [Request.transaction] at h
    rw [serve]
    split
    · rfl
    · next hIn =>
      rw [runPlain, if_neg]
      intro hEval
      simp [hIn, hEval] at h
  | _ => rfl

/-- With one, the commit is that of its batch, and the reply has an error if one
of its commands wrote one. -/
lemma outcome_of_transaction (env : Surroundings) (numParts : Nat) (n : Node) (h : r.transaction st = some cmds) :
    let out := (TxnNode.begin n).runCommands env numParts st.db cmds
    (serve env numParts r st n).1.commit = some (out.2.commit env n.world.listSeq).1 ∧
      ((serve env numParts r st n).1.reply.hasError ↔ ∃ reply ∈ out.1, reply.hasError) := by
  cases r with
  | exec =>
    rw [Request.transaction] at h
    split at h
    · next hRuns =>
      obtain rfl := Option.some.inj h
      rw [serve, doExec, if_pos hRuns.1, if_neg hRuns.2]
      exact ⟨rfl, anyError_iff _⟩
    · cases h
  | command c =>
    rw [Request.transaction] at h
    split at h
    · next hRuns =>
      obtain rfl := Option.some.inj h
      rw [serve, if_neg hRuns.2, runPlain, if_pos hRuns.1]
      refine ⟨rfl, ?_⟩
      simp [TxnNode.runCommands]
    · cases h
  | _ => cases h

/-- **What the reply says of the commit.** An error of the commit shows in the
reply only by accident: a request tells of it if it could not fail, or if one of
the commands had written an error on its own. -/
theorem exec_reports_iff (env : Surroundings) (numParts : Nat) (r : Request) (st : Conn) (n : Node) :
    (∀ e, (serve env numParts r st n).1.commit = some (.error e) →
        (serve env numParts r st n).1.reply.hasError = true) ↔
      ∀ cmds, r.transaction st = some cmds → let out := (TxnNode.begin n).runCommands env numParts st.db cmds
        Undisturbed env (env.order out.2.subs) out.2.moment ∨ ∃ reply ∈ out.1, reply.hasError = true := by
  cases hTransaction : r.transaction st with
  | none =>
    rw [commit_of_transaction_none hTransaction]
    exact ⟨fun _ _ h => (nomatch h), fun _ _ h => (nomatch h)⟩
  | some cmds =>
    obtain ⟨hCommit, hError⟩ :=
      outcome_of_transaction env numParts n hTransaction
    rw [hCommit, hError]
    set out := (TxnNode.begin n).runCommands env numParts st.db cmds with hOut
    have hOk := commit_ok_iff env out.2.txn.txn.batch (env.order out.2.subs)
      { world := { out.2.txn.world with listSeq := n.world.listSeq }, moment := out.2.moment }
    constructor
    · intro h cmds' hCmds
      obtain rfl := Option.some.inj hCmds
      cases hResult : (out.2.commit env n.world.listSeq).1 with
      | ok u => exact .inl (hOk.mp hResult)
      | error e => exact .inr (h e (by rw [hResult]))
    · intro h e hFail
      rcases h cmds rfl with hQuiet | hSome
      · have hDone : (out.2.commit env n.world.listSeq).1 = .ok () := hOk.mpr hQuiet
        rw [hDone] at hFail
        cases hFail
      · exact hSome

/-! ## A rotation before the commit -/

/-- `SET key value`, as a replica runs it. -/
def setCommand (self : Replica) (key b : Bytes) : Command :=
  { name := "set"
    run := fun db => do
      strSet ⟨self, db⟩ key b
      pure (.status "OK") }

private def host : Replica := .named 101

/-- A node on which nothing has been written. -/
private def blank : Node := { world := .fresh }

/-- The partition is rotated once the seven calls of a `SET` are through. -/
private def rotating : Surroundings := { part := fun t _ => { gen := if t < 7 then 0 else 1 } }

/-- `MULTI`, `SET a 1`, and then `EXEC`: the client is told `OK`, the commit has failed,
and nothing has been written. -/
theorem exec_hides_rotation :
    let st : Conn := { inMulti := true, cmds := [setCommand host [97] [49]] }
    let out := serve rotating 1 .exec st blank
    out.1.commit = some (.error errGenerationChanged) ∧ out.1.reply.hasError = false ∧
      out.2.2.world.data.isEmpty = true := by
  refine ⟨?_, ?_, ?_⟩ <;> rfl

end RedGeo.Server
