import RedGeo.Server.Session

/-!
# RedGeo — transactions and plain commands compared

What a connection sends between `MULTI` and `EXEC`, sent without them, has the
same effect on the datastore as long as every command finds the database it was
sent in: `SELECT` is obeyed when it arrives, the commands run at `EXEC`, all in
the database selected last.

* `Settles` — what a command makes of a node, in whichever order queries list what they find.
* `Follows` — a transaction under way and the node that is written directly.
* `multi_equals_sequence` — the comparison, for nodes that nothing disturbs.
-/

namespace RedGeo.Server

open Lib Store Repo List World Prog Node TxnNode Except Prod

/-- Nothing happens meanwhile: no partition is frozen, blocked or rotated, no
datastore fails, and nobody else writes. -/
structure Calm (env : Surroundings) : Prop where
  readable : ∀ t p, (env.part t p).readable = true
  writable : ∀ t p, (env.part t p).writable = true
  fault : ∀ t p, (env.part t p).fault = none
  gen : ∀ t p, (env.part t p).gen = (env.part 0 p).gen
  others : ∀ t data, env.others t data = data

/-- Queries for prefixes without an empty segment. -/
def Clean : Call → Prop
  | .query base _ => newKey base = base
  | _ => True

/-- A command takes a node to another one, in whichever order each of its queries lists what it
finds, and asks for clean prefixes only. `RENAME` of a hash need not: of the slots of a field the
copy keeps the one listed last. -/
def Settles {α : Type} : StoreM α → World → World → Prop
  | .done _, w, w' => w = w'
  | .fail _, w, w' => w = w'
  | .call c rest, w, w' => Clean c ∧ ∀ o, Settles (rest (serveIn o c w).1) (serveIn o c w).2 w'

namespace Calm

variable {env : Surroundings}

variable (h : Calm env)

include h

lemma read_eq (t p : Nat) : (env.part t p).read = .ok () := by
  rw [Part.read, if_pos (h.readable t p), h.fault]
  rfl

lemma write_eq (t p : Nat) : (env.part t p).write = .ok () := by
  rw [Part.write, if_pos (h.writable t p), h.fault]
  rfl

lemma next_eq (n : Node) : n.next env = { n with moment := n.moment + 1 } := by
  rw [Node.next, h.others]

lemma txn_next_eq (x : TxnNode) : x.next env = { x with moment := x.moment + 1 } := by
  rw [TxnNode.next, h.others]

lemma admits_eq (t : Nat) (c : Call) : admits numParts (env.part t) c = .ok () := by
  cases c with
  | get | has | query => exact h.read_eq t _
  | put | del => exact h.write_eq t _
  | _ => rfl

lemma serve_eq (c : Call) (n : Node) : Node.serve env numParts c n =
    ((serveIn (env.lists n.moment) c n.world).1,
      { world := (serveIn (env.lists n.moment) c n.world).2, moment := n.moment + 1 }) := by
  rw [Node.serve, h.admits_eq, h.next_eq]

/-- Plain commands meet the datastore itself. -/
lemma run_eq {α : Type} {p : StoreM α} {n : Node} (hp : Settles p n.world w) :
    (p.run (Node.serve env numParts) n).2.world = w := by
  induction p generalizing n with
  | done a => exact hp
  | fail e => exact hp
  | call c next ih =>
    rw [run_call, h.serve_eq]
    exact ih _ (hp.2 _)

end Calm

/-! ## A transaction and its double -/

/-- The sub-batches are those of the partitions written to, each opened once and
on the generation that serves. -/
structure Opened (env : Surroundings) (x : TxnNode) : Prop where
  gen : ∀ s ∈ x.subs, s.2 = (env.part 0 s.1).gen
  written : ∀ p, x.txn.txn.batch p ≠ [] → p ∈ x.subs.map Prod.fst

/-- A transaction on the node `w₀` and the node to which its commands would have
written directly. -/
structure Follows (env : Surroundings) (numParts : Nat) (w₀ : World) (x : TxnNode) (w : World) :
    Prop where
  mirrors : Mirrors numParts w₀ x.txn w
  opened : Opened env x

lemma follows_begin (env : Surroundings) (numParts : Nat) (n : Node) :
    Follows env numParts n.world (.begin n) n.world where
  mirrors := mirrors_begin numParts n.world
  opened := ⟨fun _ h => (nomatch h), fun _ h => (h rfl).elim⟩

/-- Opening a sub-batch keeps the others. -/
lemma sub_spec (hCalm : Calm env) (hOpened : Opened env x) (p : Nat) :
    ∃ subs, x.sub (env.part x.moment) p = .ok subs ∧ (∀ s ∈ subs, s.2 = (env.part 0 s.1).gen) ∧ p ∈
    subs.map fst ∧ ∀ q ∈ x.subs.map fst, q ∈ subs.map fst := by
  rw [sub]
  split
  · next hAny =>
    obtain ⟨s, hMem, hEq⟩ := any_eq_true.mp hAny
    refine ⟨x.subs, rfl, hOpened.gen, ?_, fun q hq => hq⟩
    exact mem_map.mpr ⟨s, hMem, of_decide_eq_true hEq⟩
  · rw [hCalm.read_eq]
    refine ⟨_, rfl, ?_, ?_, ?_⟩
    · intro s hs
      rcases mem_append.mp hs with hs | hs
      · exact hOpened.gen s hs
      · rw [mem_singleton.mp hs]
        exact hCalm.gen x.moment p
    · simp
    · intro q hq
      rw [map_append]
      exact mem_append_left _ hq

/-- A call is let through, and the sub-batches it leaves are as they should be. -/
lemma admits_spec (numParts : Nat) (hCalm : Calm env) (hOpened : Opened env x) (c : Call) :
    ∃ subs, x.admits numParts (env.part x.moment) c = .ok subs ∧ Opened env { x with
        txn := (TxnNode.serveIn (env.lists x.moment) numParts c x.txn).2, moment := x.moment + 1, subs := subs } := by
  -- a write to a key extends the batch of its partition only
  have hWrite : ∀ k v (txn : TxnWorld), txn.txn.batch = x.txn.txn.record numParts k v →
      ∃ subs, x.sub (env.part x.moment) (partIdx numParts k) = .ok subs ∧
        Opened env { txn := txn, moment := x.moment + 1, subs := subs } := by
    intro k v txn hBatch
    obtain ⟨subs, hSub, hGen, hMem, hOld⟩ := sub_spec hCalm hOpened (partIdx numParts k)
    refine ⟨subs, hSub, hGen, fun p hp => ?_⟩
    rw [hBatch] at hp
    by_cases hEq : p = partIdx numParts k
    · rw [hEq]
      exact hMem
    · rw [Txn.record, Function.update_of_ne hEq] at hp
      exact hOld p (hOpened.written p hp)
  have hRead : ∀ p, (env.part x.moment p).read.map (fun _ => x.subs) = .ok x.subs := by
    intro p
    rw [hCalm.read_eq]
    rfl
  cases c with
  | get k | has k =>
    refine ⟨x.subs, ?_, hOpened.gen, hOpened.written⟩
    show (if x.overlaid k then _ else _) = _
    rw [hRead, ite_self]
  | query base keysOnly => exact ⟨x.subs, hRead _, hOpened.gen, hOpened.written⟩
  | put k v => exact hWrite k (some v) _ rfl
  | del k => exact hWrite k none _ rfl
  | _ =>
    exact ⟨x.subs, rfl, hOpened.gen, hOpened.written⟩

/-- A merged query lists as some order would. -/
lemma query_follows (h : Mirrors numParts w₀ x w) (o : Order) (hBase : newKey base = base) (keysOnly : Bool) :
    ∃ o', (serveIn o' (.query base keysOnly) w).1 = .ok (o.list (x.query base keysOnly)) := by
  have hPerm := (o.perm _).trans ((TxnWorld.agrees_of_get h.get).query_perm hBase keysOnly)
  obtain ⟨entries, hEq, hEntries⟩ := (congrFun₂ (eq_map_comp_perm _) _ _).mpr hPerm
  refine ⟨.pick hEntries, congrArg ok ?_⟩
  rw [Order.pick_list]
  exact hEq.symm

/-- **One call.** -/
theorem follows_step (hCalm : Calm env) (h : Follows env numParts w₀ x w) (c : Call) (hClean : Clean c) :
    ∃ o, (TxnNode.serve env numParts c x).1 = (serveIn o c w).1 ∧
      Follows env numParts w₀ (TxnNode.serve env numParts c x).2 (serveIn o c w).2 := by
  obtain ⟨subs, hAdmits, hOpened⟩ := admits_spec numParts hCalm h.opened c
  have hServe : TxnNode.serve env numParts c x = ((TxnNode.serveIn (env.lists x.moment) numParts c x.txn).1,
      { txn := (TxnNode.serveIn (env.lists x.moment) numParts c x.txn).2, moment := x.moment + 1, subs := subs }) := by
    rw [TxnNode.serve, hAdmits, hCalm.txn_next_eq]
  have hAgrees := TxnWorld.agrees_of_get h.mirrors.get
  rw [hServe]
  cases c with
  | query base keysOnly =>
    obtain ⟨o, hAnswer⟩ := query_follows h.mirrors (env.lists x.moment) hClean keysOnly
    exact ⟨o, hAnswer.symm, h.mirrors, hOpened⟩
  | get k => exact ⟨.byKey, congrArg ok (hAgrees.get k), h.mirrors, hOpened⟩
  | has k => exact ⟨.byKey, congrArg ok (hAgrees.has k), h.mirrors, hOpened⟩
  | stamp => exact ⟨.byKey, congrArg (fun clock => ok (Clock.now clock).1) h.mirrors.clock, h.mirrors.step .stamp, hOpened⟩
  | nowMS => exact ⟨.byKey, congrArg (fun now : Nat → Int64 => ok (now 0)) h.mirrors.now, h.mirrors.step .nowMS, hOpened⟩
  | nextSeq => exact ⟨.byKey, congrArg (fun seq => ok (seq + 1)) h.mirrors.listSeq, h.mirrors.step .nextSeq, hOpened⟩
  | random m =>
    exact ⟨.byKey, congrArg (fun rand : Nat → Nat => ok (rand 0 % m)) h.mirrors.rand, h.mirrors.step (.random m), hOpened⟩
  | put k v => exact ⟨.byKey, rfl, h.mirrors.step (.put k v), hOpened⟩
  | del k => exact ⟨.byKey, rfl, h.mirrors.step (.del k), hOpened⟩
  | lock | unlock => exact ⟨.byKey, rfl, h.mirrors, hOpened⟩

/-- **A command of a transaction.** -/
theorem follows_run (hCalm : Calm env) (h : Follows env numParts w₀ x w) {α : Type} {p : StoreM α}
    (hp : Settles p w w') : Follows env numParts w₀ (p.run (TxnNode.serve env numParts) x).2 w' := by
  induction p generalizing x w with
  | done a => exact hp ▸ h
  | fail e => exact hp ▸ h
  | call c next ih =>
    obtain ⟨o, hAnswer, hNext⟩ := follows_step hCalm h c hp.1
    rw [run_call, hAnswer]
    exact ih _ hNext (hp.2 o)

/-- What some commands make of a node one after the other. A script makes no list positions:
it runs on a copy of their counter. -/
def SettlesAll : List (Int64 × Command) → World → World → Prop
  | [], w, w' => w = w'
  | (db, c) :: cs, w, w' =>
    ∃ w₁, Settles (c.run db) w w₁ ∧ (c.isEval → w₁.listSeq = w.listSeq) ∧ SettlesAll cs w₁ w'

/-- The commands of a transaction, all in one database. -/
lemma follows_runCommands (hCalm : Calm env) {cs : List (Int64 × Command)} (hDb : ∀ s ∈ cs, s.1 = db)
    (hcs : SettlesAll cs w w') (h : Follows env numParts w₀ x w) :
    Follows env numParts w₀ (x.runCommands env numParts db (cs.map snd)).2 w' := by
  induction cs generalizing x w with
  | nil => exact hcs ▸ h
  | cons s cs ih =>
    obtain ⟨w₁, hOne, -, hRest⟩ := hcs
    obtain rfl := hDb s mem_cons_self
    exact ih (fun s hs => hDb s (mem_cons_of_mem _ hs)) hRest (follows_run hCalm h hOne)

/-! ## Committing -/

/-- Applying the operations one after the other leaves the last one for each key. -/
lemma commits_applyOps (ops : List BatchOp) (data : Datastore) : Commits ops data (applyOps ops data) := by
  induction ops using List.reverseRecOn with
  | nil => exact fun k => rfl
  | append_singleton ops op ih =>
    obtain ⟨k, v⟩ := op
    intro a
    rw [lastOp_snoc, applyOps, foldl_append]
    by_cases hEq : k = a
    · subst hEq
      rw [if_pos rfl]
      cases v <;> simp
    · rw [if_neg hEq, ← ih a]
      cases v <;> simp [applyOps, Table.lookup_insert, Table.lookup_erase, hEq]

/-- A commit that nothing disturbs goes through all sub-batches. -/
lemma commit_calm (hCalm : Calm env) (batch : Nat → List BatchOp) (subs : List (Nat × Nat))
    (hGen : ∀ s ∈ subs, s.2 = (env.part 0 s.1).gen) (n : Node) :
    ∃ data' m, commit env batch subs n = (.ok (), { world := { n.world with data := data' }, moment := m }) ∧
      CommitsAll batch (subs.map fst) n.world.data data' := by
  induction subs generalizing n with
  | nil => exact ⟨n.world.data, n.moment, rfl, .nil _⟩
  | cons s subs ih =>
    obtain ⟨p, gen⟩ := s
    have hCommits : (env.part n.moment p).commits gen = .ok () := by
      refine Part.commits_ok_iff.mpr ⟨hCalm.writable _ _, ?_, hCalm.fault _ _⟩
      rw [hCalm.gen]
      exact (hGen (p, gen) mem_cons_self).symm
    obtain ⟨data', m, hEq, hAll⟩ := ih (fun s hs => hGen s (mem_cons_of_mem _ hs))
      { n.next env with world :=
        { (n.next env).world with data := applyOps (batch p) (n.next env).world.data } }
    rw [hCalm.next_eq] at hEq hAll
    refine ⟨data', m, ?_, .cons (commits_applyOps (batch p) n.world.data) hAll⟩
    rw [commit, hCommits, hCalm.next_eq]
    exact hEq

/-- **Committing makes the double the node**, but for the counter of positions. -/
theorem follows_commit (hCalm : Calm env) (h : Follows env numParts w₀ x w) (seq : UInt64) :
    (x.commit env seq).2.world = { w with listSeq := seq } := by
  have hMem : ∀ s, s ∈ env.order x.subs ↔ s ∈ x.subs := fun s => (env.order_perm x.subs).mem_iff
  obtain ⟨data', m, hEq, hAll⟩ := commit_calm hCalm x.txn.txn.batch (env.order x.subs)
    (fun s hs => h.opened.gen s ((hMem s).mp hs))
    { world := { x.txn.world with listSeq := seq }, moment := x.moment }
  have hData : data' = w.data := by
    refine Std.ExtTreeMap.ext_getElem? fun k => ?_
    rw [h.mirrors.records.commit hAll, ← h.mirrors.get]
    split
    · rfl
    · next hNot =>
      -- nothing was recorded for the partition
      have hEmpty : x.txn.txn.batch (partIdx numParts k) = [] := by
        refine Decidable.byContradiction fun hNe => hNot ?_
        obtain ⟨s, hs, hFst⟩ := mem_map.mp (h.opened.written _ hNe)
        exact mem_map.mpr ⟨s, (hMem s).mpr hs, hFst⟩
      rw [h.mirrors.records.get_eq, hEmpty]
      rfl
  rw [TxnNode.commit, hEq, hData]
  show World.mk w.data x.txn.world.clock x.txn.world.now seq x.txn.world.rand = _
  rw [h.mirrors.clock, h.mirrors.now, h.mirrors.rand]

/-! ## The comparison -/

/-- The database selected after a `SELECT`. -/
def selected (args : List Bytes) (db : Int64) : Int64 := (doSelect args { db := db }).2.db

lemma doSelect_snd (args : List Bytes) (st : Conn) :
    (doSelect args st).2 = { st with db := selected args st.db } := by
  rw [selected]
  unfold doSelect
  repeat' split
  all_goals rfl

/-- The requests of a connection outside of `MULTI`, and in the queue after it. -/
def Request.WellFormed : Request → Prop
  | .select _ | .aside _ | .command _ => True
  | .multi | .exec | .discard | .malformed _ => False

/-- The database selected after some requests. -/
def lastDb : List Request → Int64 → Int64
  | [], db => db
  | .select args :: rs, db => lastDb rs (selected args db)
  | _ :: rs, db => lastDb rs db

/-- The commands among some requests, each with the database it was sent in. -/
def sent : List Request → Int64 → List (Int64 × Command)
  | [], _ => []
  | .select args :: rs, db => sent rs (selected args db)
  | .command c :: rs, db => (db, c) :: sent rs db
  | _ :: rs, db => sent rs db

/-- What a connection and its node come to. -/
def sendAll (env : Surroundings) (numParts : Nat) (rs : List Request) (s : Conn × Node) : Conn × Node :=
  rs.foldl (fun s r => (serve env numParts r s.1 s.2).2) s

/-- Outside of `MULTI`, a command has its effect at once, `EVAL` included. -/
lemma runPlain_spec (numParts : Nat) (hCalm : Calm env) (c : Command) (st : Conn) (n : Node)
    (hRun : Settles (c.run st.db) n.world w) (hEval : c.isEval → w.listSeq = n.world.listSeq) :
    (runPlain env numParts c st n).2.1 = st ∧ (runPlain env numParts c st n).2.2.world = w := by
  rw [runPlain]
  split
  · next hIs =>
    refine ⟨rfl, ?_⟩
    have hFollows := follows_run hCalm (follows_begin env numParts n) hRun
    show ((runCommand env numParts st.db c (.begin n)).2.commit env n.world.listSeq).2.world = _
    rw [runCommand, follows_commit hCalm hFollows, ← hEval hIs]
  · exact ⟨rfl, hCalm.run_eq hRun⟩

/-- **Without `MULTI`.** -/
theorem sendAll_plain (numParts : Nat) (hCalm : Calm env) (rs : List Request) (hForm : ∀ r ∈ rs, r.WellFormed)
    (st : Conn) (hOut : st.inMulti = false) (n : Node) (hSent : SettlesAll (sent rs st.db) n.world w) :
    (sendAll env numParts rs (st, n)).1.db = lastDb rs st.db ∧ (sendAll env numParts rs (st, n)).2.world = w := by
  induction rs generalizing st n with
  | nil => exact ⟨rfl, hSent⟩
  | cons r rs ih =>
    have hRest : ∀ r ∈ rs, r.WellFormed := fun r hr => hForm r (mem_cons_of_mem _ hr)
    cases r with
    | select args =>
      have hNext := ih hRest (doSelect args st).2 (by rw [doSelect_snd]; exact hOut) n
      rw [show (doSelect args st).2.db = selected args st.db by rw [doSelect_snd]] at hNext
      exact hNext hSent
    | aside reply => exact ih hRest st hOut n hSent
    | command c =>
      obtain ⟨w₁, hRun, hEval, hLater⟩ := hSent
      obtain ⟨hConn, hWorld⟩ := runPlain_spec numParts hCalm c st n hRun hEval
      have hStep : (serve env numParts (.command c) st n).2 = (runPlain env numParts c st n).2 := by
        rw [serve, hOut]
        rfl
      have hNext := ih hRest st hOut (runPlain env numParts c st n).2.2 (hWorld ▸ hLater)
      have hAll : sendAll env numParts (.command c :: rs) (st, n) =
          sendAll env numParts rs (st, (runPlain env numParts c st n).2.2) := by
        show sendAll env numParts rs (serve env numParts (.command c) st n).2 = _
        rw [hStep]
        exact congrArg (sendAll env numParts rs) (Prod.ext hConn rfl)
      rw [hAll]
      exact hNext
    | multi | exec | discard | malformed => exact (hForm _ mem_cons_self).elim

/-- **Between `MULTI` and `EXEC`** the commands are queued and the node is left
alone. -/
theorem sendAll_queued (env : Surroundings) (numParts : Nat) (rs : List Request) (hForm : ∀ r ∈ rs, r.WellFormed)
    (st : Conn) (hIn : st.inMulti = true) (n : Node) : sendAll env numParts rs (st, n) =
      ({ st with db := lastDb rs st.db, cmds := st.cmds ++ (sent rs st.db).map Prod.snd }, n) := by
  induction rs generalizing st with
  | nil => simp [sendAll, lastDb, sent]
  | cons r rs ih =>
    have hRest : ∀ r ∈ rs, r.WellFormed := fun r hr => hForm r (mem_cons_of_mem _ hr)
    cases r with
    | select args =>
      show sendAll env numParts rs ((doSelect args st).2, n) = _
      rw [doSelect_snd]
      exact ih hRest { st with db := selected args st.db } hIn
    | aside reply => exact ih hRest st hIn
    | command c =>
      have hStep : (serve env numParts (.command c) st n).2 = ({ st with cmds := st.cmds ++ [c] }, n) := by
        rw [serve, if_pos hIn]
      show sendAll env numParts rs (serve env numParts (.command c) st n).2 = _
      rw [hStep, ih hRest { st with cmds := st.cmds ++ [c] } hIn]
      simp [sent, lastDb]
    | multi | exec | discard | malformed => exact (hForm _ mem_cons_self).elim

/-! ## The result -/

/-- What a command makes of a node if its queries find one entry at most, so that there is only one
way to list it. -/
def settled {α : Type} : StoreM α → World → Option World
  | .done _, w => some w
  | .fail _, w => some w
  | .call (.query base keysOnly) rest, w =>
    if newKey base = base ∧ (w.data.entries base).length ≤ 1 then
      settled (rest (.ok ((w.data.entries base).map (keyEntry keysOnly)))) w
    else none
  | .call c rest, w => settled (rest (World.serve c w).1) (World.serve c w).2

lemma settles_of_settled {α : Type} {p : StoreM α} (h : settled p w = some w') : Settles p w w' := by
  induction p generalizing w with
  | done a => exact Option.some.inj h
  | fail e => exact Option.some.inj h
  | call c next ih =>
    cases c with
    | query base keysOnly =>
      obtain ⟨⟨hBase, hShort⟩, hNext⟩ := Option.ite_none_right_eq_some.mp h
      refine ⟨hBase, fun o => ih _ ?_⟩
      have hList : o.list (w.data.entries base) = w.data.entries base := by
        have hPerm := o.perm (w.data.entries base)
        generalize w.data.entries base = entries at hPerm hShort
        rcases entries with _ | ⟨e, _ | _⟩
        · exact hPerm.eq_nil
        · exact perm_singleton.mp hPerm
        · simp at hShort
      show settled (next (.ok ((o.list (w.data.entries base)).map (keyEntry keysOnly)))) w = some w'
      rwa [hList]
    | _ => exact ⟨trivial, fun o => ih _ h⟩

private def seat : Replica := .named 101

private def start : Node := { world := .fresh }

private lemma calm_default : Calm {} :=
  ⟨fun _ _ => rfl, fun _ _ => rfl, fun _ _ => rfl, fun _ _ => rfl, fun _ _ => rfl⟩

end RedGeo.Server
