import RedGeo.Repo.Overlay
import RedGeo.Repo.Walk

/-!
# RedGeo — whose keys a replica writes

Slots and components belong to the replica that the last segment of their key
names, and only this replica is to write them. In a space of a key that holds by
construction: a program there can only write in the name of its own replica. The
exception is `RENAME` of a hash, which copies the components of counter fields as
they are.

* `Belongs` — the keys that belong to a replica.
* `Sites.step` — replicas with any number of clients, alone or in transactions, their
  calls interleaved in any way, while the datastores change by themselves.
* `single_writer` — who writes what, in every run in which no replica renames a hash
  that has another one's components.
-/

namespace RedGeo.Repo

open Lib Store List Option
open Function (update update_of_ne update_self)

variable {k : Path} {self n : Replica} {numParts : Nat} {name : Bytes}

/-! ## Keys that belong to a replica -/

/-- The components that every replica has for itself. -/
def Comp.owned {X : Space} : Comp X → Bool
  | .member _ | .elem _ => false
  | _ => true

/-- The slots and components of a replica. -/
inductive Belongs (name : Bytes) : Path → Prop
  | metadata (db : Int64) (key : Bytes) : Belongs name (slotAt (metaBase db key) name)
  | slot {X : Space} (reg : Reg X) (db : Int64) (key : Bytes) :
    Belongs name (slotAt (reg.base db key) name)
  | comp {X : Space} (c : Comp X) (hOwned : c.owned = true) (db : Int64) (key : Bytes) :
    Belongs name (c.path db key name)

lemma getLast_slotAt (hName : name ≠ []) (base : List Seg) :
    (slotAt base name).getLast? = some (.enc name) := by
  rw [slotAt, newKey, filter_append]
  simp [hName]

/-- The last segment says whose key it is. -/
lemma Belongs.getLast (hName : name ≠ []) (h : Belongs name k) : k.getLast? = some (.enc name) := by
  cases h with
  | metadata db key => exact getLast_slotAt hName _
  | slot reg db key => exact getLast_slotAt hName _
  | comp c hOwned db key =>
    cases c with
    | member | elem => cases hOwned
    | _ => exact getLast_slotAt hName _

/-- The word below which the data of a space are, in a key of it. A key with an empty
name has no segment for it. -/
def spaceWord : Path → Option Word
  | _ :: .word .d :: _ :: .enc _ :: .word w :: _ => some w
  | _ :: .word .d :: _ :: .word w :: _ => some w
  | _ => none

lemma spaceWord_newKey (db : Int64) (key : Bytes) (w : Word) (rest : List Seg) :
    spaceWord (newKey (dataBase db key ++ .word w :: rest)) = some w := by
  by_cases hKey : key = []
  · simp [newKey, dataBase, Store.part, hKey, spaceWord]
  · simp [newKey, dataBase, Store.part, hKey, spaceWord]

/-- Neither members nor elements belong to a replica. -/
lemma Belongs.spaceWord_ne (h : Belongs name k) : spaceWord k ≠ some .e ∧ spaceWord k ≠ some .l := by
  have hData : ∀ db key (w : Word) (rest : List Seg) (base : List Seg),
      base = dataBase db key ++ .word w :: rest → w ≠ .e → w ≠ .l →
      spaceWord (slotAt base name) ≠ some .e ∧ spaceWord (slotAt base name) ≠ some .l := by
    rintro db key w rest base rfl hE hL
    rw [slotAt, append_assoc, cons_append, spaceWord_newKey]
    exact ⟨fun h => hE (some.inj h), fun h => hL (some.inj h)⟩
  cases h with
  | metadata db key =>
    by_cases hKey : key = [] <;> by_cases hName : name = [] <;>
      simp [slotAt, newKey, metaBase, Store.part, hKey, hName, spaceWord]
  | slot reg db key =>
    cases reg <;> exact hData db key _ _ _ rfl (by decide) (by decide)
  | comp c hOwned db key =>
    cases c with
    | member | elem => cases hOwned
    | _ => exact hData db key _ _ _ rfl (by decide) (by decide)

/-! ## What a program writes -/

section

variable (self : Replica)

/-- A key that belongs to nobody else. -/
def Own (k : Path) : Prop := ∀ owner : Replica, Belongs owner.name k → owner = self

/-- What is put is a replica's own. -/
def OwnPut : Call → Prop
  | .put k _ => Own self k
  | _ => True

section

variable (base : List Seg)

lemma ownPut_slotAt (v : Bytes) : OwnPut self (.put (slotAt base self.name) v) := by
  intro owner hOwner
  have hLast := hOwner.getLast owner.nonempty
  rw [getLast_slotAt self.nonempty] at hLast
  exact Replica.ext (Seg.enc.inj (some.inj hLast)).symm

lemma ownPut_comp (r : Db) (key : Bytes) (c : Comp X) (v : Bytes) :
    OwnPut r.self (.put (c.path r.num key r.self.name) v) := by
  have hShared : ∀ (w : Word) (rest : List Seg), w = .e ∨ w = .l →
      OwnPut r.self (.put (newKey (dataBase r.num key ++ .word w :: rest)) v) := by
    intro w rest hw owner hOwner
    have hNe := hOwner.spaceWord_ne
    rw [spaceWord_newKey] at hNe
    rcases hw with rfl | rfl
    · exact absurd rfl hNe.1
    · exact absurd rfl hNe.2
  cases c with
  | member name => exact hShared .e [.enc name] (.inl rfl)
  | elem rest =>
    show OwnPut r.self (.put (newKey (listBase r.num key ++ rest)) v)
    rw [listBase, append_assoc]
    exact hShared .l rest (.inr rfl)
  | _ => exact ownPut_slotAt _ _ _

/-- Whether an entry is a component of a counter field that another replica has. -/
def foreignComponent (e : Path × Bytes) : Bool :=
  match trimPrefix base e.1 with
  | [.enc _, .word .c, .enc owner] => owner ≠ self.name
  | _ => false

/-- The hash that a method copies, should the key be one. -/
def Method.copies (r : Db) : Method → Option (List Seg)
  | .key (.rename src _) => some (hashBase r.num src)
  | .key (.renameNotExists src _) => some (hashBase r.num src)
  | _ => none

/-- Whether a call is a query for a prefix. -/
def queries : Call → Bool
  | .query b _ => b = base
  | _ => false

end

/-- The entries that a query returned. -/
def found : (c : Call) → Answer c → List (Path × Bytes)
  | .query _ _, .ok entries => entries
  | _, _ => []

variable (copied : Option (List Seg))

/-- A query for the hash that is copied finds no other replica's components. -/
def tameAnswer (c : Call) (x : Answer c) : Bool :=
  match copied with
  | some base => (found c x).all fun e => !(queries base c && foreignComponent self base e)
  | none => true

/-- Only own keys are written, as long as that is so. -/
def tameContract : Prog.Contract Call Answer where
  allowed := OwnPut self
  answers c x := tameAnswer self copied c x = true

end

/-- A program that keeps to it. -/
abbrev Tame {α : Type} (self : Replica) (copied : Option (List Seg)) (p : StoreM α) : Prop :=
  p.Obeys (tameContract self copied) fun _ => True

section

variable {α β : Type} {c : Prog.Contract Call Answer}

/-- A program that obeys a contract, whatever it returns. -/
abbrev Abides (c : Prog.Contract Call Answer) (p : StoreM α) : Prop := p.Obeys c fun _ => True

lemma abides_bind {p : StoreM α} {f : α → StoreM β} (hp : Abides c p) (hf : ∀ a, Abides c (f a)) :
    Abides c (p >>= f) :=
  Prog.obeys_bind hp fun a _ => hf a

lemma abides_perform (h : c.allowed op) : Abides c (perform op) :=
  ⟨h, fun x _ => by cases x <;> trivial⟩

lemma abides_attempt {p : StoreM α} (hp : Abides c p) : Abides c p.attempt :=
  (Prog.obeys_attempt hp).mono fun _ _ => trivial

/-- The contract is about what is put. -/
def AboutPuts (c : Prog.Contract Call Answer) : Prop := ∀ op, (∀ k v, op ≠ .put k v) → c.allowed op

variable (hPuts : AboutPuts c)

include hPuts

/-- What only reads puts nothing. -/
lemma abides_calls (p : ReadM α) : Abides c p.calls := by
  induction p with
  | done a => trivial
  | fail e => trivial
  | call a next ih => exact ⟨hPuts _ (by cases a <;> nofun), fun x _ => ih x⟩

lemma abides_putSlot {self : Replica} (tag : UInt8) (value : Bytes)
    (h : ∀ sl, c.allowed (.put (slotKey base self) (encodeSlot sl))) : Abides c (putSlot self base tag value) :=
  abides_bind (abides_perform (hPuts _ nofun)) fun _ => abides_perform (h _)

/-- In a space of a key, a program puts slots, metadata and components. -/
lemma abides_on (r : Db) (key : Bytes) (p : KeyM X α)
    (hSlot : ∀ (reg : Reg X) sl, c.allowed (.put (slotKey (reg.base r.num key) r.self) (encodeSlot sl)))
    (hMeta : ∀ sl, c.allowed (.put (slotKey (metaBase r.num key) r.self) (encodeSlot sl)))
    (hComp : ∀ (comp : Comp X) v, c.allowed (.put (comp.path r.num key r.self.name) v)) :
    Abides c (r.on key p) := by
  induction p with
  | done a => trivial
  | fail e => trivial
  | call op next ih =>
    have hOp : Abides c (op.calls r key) := by
      cases op with
      | ask a => exact abides_perform (hPuts _ (by cases a <;> nofun))
      | slot reg tag value => exact abides_putSlot hPuts tag value (hSlot reg)
      | mark | unmark => exact abides_putSlot hPuts _ _ hMeta
      | put comp value => exact abides_perform (hComp comp value)
      | del | drop => exact abides_perform (hPuts _ nofun)
    exact abides_bind (abides_attempt hOp) ih

lemma abides_withLock {k : Bytes} (h : Abides c body) : Abides c (withLock k body) := by
  refine abides_bind (abides_perform (hPuts _ nofun)) fun _ => abides_bind (abides_attempt h) fun out => ?_
  refine abides_bind (abides_perform (hPuts _ nofun)) fun _ => ?_
  cases out <;> trivial

lemma abides_withLocks {a b : Bytes} {body : StoreM α} (h : Abides c body) : Abides c (withLocks a b body) := by
  rw [withLocks]
  split <;> exact abides_withLock hPuts (abides_withLock hPuts h)

end

/-! ## The methods -/

variable (self : Replica)

lemma tame_aboutPuts : AboutPuts (tameContract self copied) := by
  intro op hOp
  cases op with
  | put k v => exact absurd rfl (hOp k v)
  | _ => trivial

/-- **In a space of a key, a program writes own keys only**, whatever it does. -/
theorem tame_on {α : Type} (r : Db) (key : Bytes) (p : KeyM X α) : Tame r.self copied (r.on key p) :=
  abides_on (tame_aboutPuts r.self) r key p (fun _ sl => ownPut_slotAt r.self _ (encodeSlot sl))
    (fun sl => ownPut_slotAt r.self _ (encodeSlot sl)) (ownPut_comp r key)

variable (copied : Option (List Seg))

/-- Own keys are written by whatever methods are made of. -/
lemma tame_parts :
    Parts self (fun _ p => Tame self copied p) (fun _ p => Tame self copied p) where
  done _ := trivial
  fail _ := trivial
  bindIn := abides_bind
  bindOut := abides_bind
  whole := id
  calls := abides_calls (tame_aboutPuts self)
  on r hSelf key p := hSelf ▸ tame_on r key p
  marked _ _ tag value := abides_putSlot (tame_aboutPuts self) tag value fun sl =>
    ownPut_slotAt self _ (encodeSlot sl)
  withLock _ := abides_withLock (tame_aboutPuts self)

/-- The copy of a hash in which nobody else has components. -/
lemma tame_copyHashData (key newKey : Bytes) :
    Tame r.self (some (hashBase r.num key)) (copyHashData r key newKey) := by
  refine ⟨trivial, fun x hx => ?_⟩
  cases x with
  | error e => trivial
  | ok entries =>
    refine Prog.obeys_forM fun e hMem => ?_
    have hOwn : foreignComponent r.self (hashBase r.num key) e = false := by
      have hAll := all_eq_true.mp hx e hMem
      simpa [queries, Ask.call] using hAll
    rw [foreignComponent] at hOwn
    rw [copyHashEntry]
    split
    · next field last hTrim =>
      split
      · split
        · trivial
        · exact tame_on r newKey _
      · trivial
    · next field owner hTrim =>
      rw [hTrim] at hOwn
      have hName : owner = r.self.name := by simpa using hOwn
      subst hName
      exact abides_perform (ownPut_slotAt r.self _ e.2)
    · trivial

/-- What is copied, by the keys of a renaming. -/
lemma copies_of_renames {m : Method} (h : m.renames = some (src, dest)) :
    m.copies r = some (hashBase r.num src) := by
  unfold Method.renames at h
  split at h
  · cases h
    rfl
  · cases h
    rfl
  · cases h

/-- **Every method writes own keys only**, but for the copy of a hash. -/
theorem tame_program (r : Db) (m : Method) : Tame r.self (m.copies r) (m.program r) := by
  refine (tame_parts r.self (m.copies r)).program m (fun src dest hRenames => ?_)
    (fun a b _ => abides_withLocks (tame_aboutPuts r.self))
  rw [copies_of_renames hRenames]
  exact tame_copyHashData src dest

/-! ## Runs -/

/-- A method under way. -/
structure Task where
  db : Int64
  method : Method
  rest : StoreM method.Result

/-- A client: the overlay of its transaction with the copy of the counter of
positions, and what it is doing. -/
structure Caller where
  txn : Option (Txn × UInt64) := none
  task : Option Task := none

structure Site where
  world : World
  caller : Nat → Caller := fun _ => {}

/-- The replicas, and who has put which keys. -/
structure Sites where
  site : Replica → Site
  log : List (Replica × Path) := []

inductive Happening
  | start (c : Nat) (db : Int64) (m : Method)
  /-- The next call of a client's method, or its end. -/
  | call (c : Nat)
  /-- The next call fails. -/
  | fault (c : Nat) (e : Err)
  | beginTxn (c : Nat)
  /-- The batches of some partitions are committed, and the transaction is over. -/
  | commit (c : Nat) (parts : List Nat)
  /-- Replication, rotation or anything else changes the datastore. -/
  | change (data : Datastore)

/-- What a call of a client does, in a transaction or without one. -/
def Caller.serve (numParts : Nat) (x : Caller) (w : World) (c : Call) :
    Answer c × World × Option (Txn × UInt64) :=
  match x.txn with
  | none => ((World.serve c w).1, (World.serve c w).2, none)
  | some (txn, seq) =>
    let out := TxnWorld.serve numParts c ⟨w, txn, seq⟩
    (out.1, out.2.world, some (out.2.txn, out.2.listSeq))

/-- The key that a call puts. -/
def putKey : Call → List Path
  | .put k _ => [k]
  | _ => []

/-- The keys that a batch puts. -/
def batchKeys (txn : Txn) (parts : List Nat) : List Path :=
  parts.flatMap fun p => (txn.batch p).filterMap fun op => if op.2.isSome then some op.1 else none

section

variable (numParts : Nat) (n : Replica) (x : Site)

/-- What happens at a site, and the keys that are put by it. -/
def Site.step : Happening → Option (Site × List Path)
  | .start c db m =>
    if ((x.caller c).task).isSome then none
    else
      let task : Task := ⟨db, m, m.program ⟨n, db⟩⟩
      some ({ x with caller := update x.caller c ⟨(x.caller c).txn, some task⟩ }, [])
  | .call c =>
    match (x.caller c).task with
    | none => none
    | some ⟨db, m, .call op next⟩ =>
      let out := (x.caller c).serve numParts x.world op
      let task : Task := ⟨db, m, next out.1⟩
      some ({ world := out.2.1, caller := update x.caller c ⟨out.2.2, some task⟩ },
        if (x.caller c).txn.isNone then putKey op else [])
    | some ⟨_, _, _⟩ =>
      some ({ x with caller := update x.caller c ⟨(x.caller c).txn, none⟩ }, [])
  | .fault c e =>
    match (x.caller c).task with
    | some ⟨db, m, .call _ next⟩ =>
      let task : Task := ⟨db, m, next (.error e)⟩
      some ({ x with caller := update x.caller c ⟨(x.caller c).txn, some task⟩ }, [])
    | _ => none
  | .beginTxn c =>
    if ((x.caller c).task).isSome then none
    else some ({ x with caller := update x.caller c ⟨some ({}, x.world.listSeq), none⟩ }, [])
  | .commit c parts =>
    match x.caller c with
    | ⟨some (txn, _), none⟩ =>
      let data := parts.foldl (fun data p => (txn.batch p).foldl (fun data op =>
        match op.2 with
        | some v => data.insert op.1 v
        | none => data.erase op.1) data) x.world.data
      some ({ world := { x.world with data }, caller := update x.caller c {} }, batchKeys txn parts)
    | _ => none
  | .change data => some ({ x with world := { x.world with data } }, [])

def Sites.step (numParts : Nat) (s : Sites) (l : Replica × Happening) : Option Sites :=
  ((s.site l.1).step numParts l.1 l.2).map fun out =>
    { site := update s.site l.1 out.1, log := out.2.map (fun k => (l.1, k)) ++ s.log }

/-- The next call of a method that renames a hash is not answered with another
replica's components of it. -/
def Site.copiesOwn : Happening → Bool
  | .call c =>
    match (x.caller c).task with
    | some ⟨db, m, .call op _⟩ =>
      tameAnswer n (m.copies ⟨n, db⟩) op ((x.caller c).serve numParts x.world op).1
    | _ => true
  | _ => true

end

/-- No replica renames a hash in which it finds another one's components. -/
def CopiesOwn (numParts : Nat) (s : Sites) (l : Replica × Happening) : Prop :=
  (s.site l.1).copiesOwn numParts l.1 l.2 = true

instance (numParts : Nat) (s : Sites) (l : Replica × Happening) :
    Decidable (CopiesOwn numParts s l) :=
  inferInstanceAs (Decidable (_ = true))

/-! ## The invariant -/

/-- A client that puts its own replica's keys: what is left of its method does, and
its transaction has. -/
structure Caller.Tidy (n : Replica) (x : Caller) : Prop where
  task : ∀ t, x.task = some t → Tame n (t.method.copies ⟨n, t.db⟩) t.rest
  txn : ∀ txn seq, x.txn = some (txn, seq) → ∀ p k v, (k, some v) ∈ txn.batch p → Own n k

lemma Caller.Tidy.doing {x : Caller} (h : x.Tidy n)
    (ht : Tame n (t.method.copies ⟨n, t.db⟩) t.rest) : Caller.Tidy n ⟨x.txn, some t⟩ where
  task _ hEq := some.inj hEq ▸ ht
  txn := h.txn

lemma Caller.Tidy.done {n : Replica} {x : Caller} (h : x.Tidy n) :
    Caller.Tidy n ⟨x.txn, none⟩ where
  task _ hEq := (some_ne_none _ hEq.symm).elim
  txn := h.txn

lemma Caller.tidy_new (n : Replica) : Caller.Tidy n {} where
  task _ hEq := (some_ne_none _ hEq.symm).elim
  txn _ _ hEq := (some_ne_none _ hEq.symm).elim

/-- A transaction begins with nothing recorded. -/
lemma Caller.tidy_begin (n : Replica) (seq : UInt64) : Caller.Tidy n ⟨some ({}, seq), none⟩ where
  task _ hEq := (some_ne_none _ hEq.symm).elim
  txn _ _ hEq _ _ _ hMem := by
    cases hEq
    cases hMem

def Site.Tidy (n : Replica) (x : Site) : Prop := ∀ c, (x.caller c).Tidy n

lemma tidy_update {x : Site} (h : x.Tidy n) (c : Nat) (hy : y.Tidy n) (w : World) :
    Site.Tidy n ⟨w, update x.caller c y⟩ :=
  (Function.forall_update_iff _ fun _ y => Caller.Tidy n y).mpr ⟨hy, fun c' _ => h c'⟩

lemma tameAnswer_error (op : Call) (e : Err) :
    tameAnswer self copied op (.error e) = true := by
  cases copied with
  | none => rfl
  | some base => cases op <;> rfl

/-- What a call adds to the batch of a transaction is what it puts. -/
lemma mem_batch_serve (h : (k, some v) ∈ (TxnWorld.serve numParts op x).2.txn.batch p) :
    (k, some v) ∈ x.txn.batch p ∨ op = .put k v := by
  have hRecord : ∀ k' v', (k, some v) ∈ x.txn.record numParts k' v' p →
      (k, some v) ∈ x.txn.batch p ∨ (k', v') = (k, some v) := by
    intro k' v' hMem
    by_cases hp : p = partIdx numParts k'
    · rw [Txn.record, hp, update_self, mem_append, mem_singleton, ← hp] at hMem
      exact hMem.imp_right Eq.symm
    · rw [Txn.record, update_of_ne hp] at hMem
      exact .inl hMem
  cases op with
  | put k' v' =>
    rcases hRecord k' (some v') h with hOld | hNew
    · exact .inl hOld
    · cases hNew
      exact .inr rfl
  | del k' =>
    rcases hRecord k' none h with hOld | hNew
    · exact .inl hOld
    · cases hNew
  | _ => exact .inl h

/-- What is allowed to a call keeps the batch tidy. -/
lemma txn_tidy_serve {x : Caller} (h : x.Tidy n) (hOp : OwnPut n op) (w : World) : ∀ txn seq,
    (x.serve numParts w op).2.2 = some (txn, seq) → ∀ p k v, (k, some v) ∈ txn.batch p → Own n k := by
  intro txn seq hTxn p k v hMem
  obtain ⟨old, task⟩ := x
  cases old with
  | none => cases hTxn
  | some old =>
    cases hTxn
    rcases mem_batch_serve hMem with hOld | rfl
    · exact h.txn _ _ rfl p k v hOld
    · exact hOp

lemma own_of_mem_putKey (hOp : OwnPut n op) (h : k ∈ putKey op) : Own n k := by
  cases op with
  | put k' v =>
    rw [putKey, mem_singleton] at h
    exact h ▸ hOp
  | _ => cases h

lemma own_of_mem_batchKeys (hTxn : ∀ p k v, (k, some v) ∈ txn.batch p → Own n k)
    (h : k ∈ batchKeys txn parts) : Own n k := by
  obtain ⟨p, -, hp⟩ := mem_flatMap.mp h
  obtain ⟨⟨k', v⟩, hMem, hSome⟩ := mem_filterMap.mp hp
  cases v with
  | none => cases hSome
  | some v =>
    cases hSome
    exact hTxn p k' v hMem

/-- **The step lemma.** A tidy site stays tidy, and the keys it puts are its own. -/
theorem tidy_step {x x' : Site} {keys : List Path} (h : x.Tidy n) (hTame : x.copiesOwn numParts n a = true)
    (hs : x.step numParts n a = some (x', keys)) : x'.Tidy n ∧ ∀ k ∈ keys, Own n k := by
  cases a with
  | start c db m =>
    rw [Site.step] at hs
    split at hs
    · cases hs
    · cases hs
      exact ⟨tidy_update h c ((h c).doing (tame_program ⟨n, db⟩ m)) _, by simp⟩
  | call c =>
    have hCaller := h c
    rw [Site.step] at hs
    rw [Site.copiesOwn] at hTame
    split at hs
    · cases hs
    · next db m op next hTask =>
      cases hs
      obtain ⟨hOp, hNext⟩ := hCaller.task _ hTask
      rw [hTask] at hTame
      refine ⟨tidy_update h c ⟨fun t ht => ?_, txn_tidy_serve hCaller hOp _⟩ _, fun k hk => ?_⟩
      · cases ht
        exact hNext _ hTame
      · split at hk
        · exact own_of_mem_putKey hOp hk
        · cases hk
    · cases hs
      exact ⟨tidy_update h c hCaller.done _, by simp⟩
  | fault c e =>
    rw [Site.step] at hs
    split at hs
    · next db m op next hTask =>
      cases hs
      have hNext := ((h c).task _ hTask).2 _ (tameAnswer_error _ _ op e)
      exact ⟨tidy_update h c ((h c).doing hNext) _, by simp⟩
    · cases hs
  | beginTxn c =>
    rw [Site.step] at hs
    split at hs
    · cases hs
    · cases hs
      exact ⟨tidy_update h c (Caller.tidy_begin n _) _, by simp⟩
  | commit c parts =>
    rw [Site.step] at hs
    split at hs
    · next txn seq hTxn =>
      cases hs
      refine ⟨tidy_update h c (Caller.tidy_new n) _, fun k hk => ?_⟩
      exact own_of_mem_batchKeys ((h c).txn txn seq (by rw [hTxn])) hk
    · cases hs
  | change data =>
    cases hs
    exact ⟨h, by simp⟩

/-- Every site is tidy, and every key was put by the replica it belongs to. -/
structure Sites.Tidy (s : Sites) : Prop where
  site : ∀ n, (s.site n).Tidy n
  log : ∀ n k, (n, k) ∈ s.log → Own n k

/-- Nobody is doing anything. -/
def Sites.idle (world : Replica → World) : Sites where
  site n := { world := world n }

lemma Sites.Tidy.step (h : s.Tidy) (hOwn : CopiesOwn numParts s l) (hs : s.step numParts l = some s') :
    s'.Tidy := by
  obtain ⟨n, a⟩ := l
  obtain ⟨⟨x', keys⟩, hSite, rfl⟩ := map_eq_some_iff.mp hs
  obtain ⟨hTidy, hKeys⟩ := tidy_step (h.site n) hOwn hSite
  refine ⟨fun n' => ?_, fun n' k hMem => ?_⟩
  · show (update s.site n x' n').Tidy n'
    by_cases hn : n' = n
    · subst hn
      rw [update_self]
      exact hTidy
    · rw [update_of_ne hn]
      exact h.site n'
  · rcases mem_append.mp hMem with hNew | hOld
    · obtain ⟨k', hk', hEq⟩ := mem_map.mp hNew
      cases hEq
      exact hKeys k hk'
    · exact h.log n' k hOld

/-- **Each key has one writer.** In a run from any datastores, with any methods of
any clients interleaved call by call, calls that fail, transactions, and any change
of the datastores by replication in between: as long as no replica renames a hash in
which it finds components of another one, a key that belongs to a replica is put by
that replica only. -/
theorem single_writer {numParts : Nat} {world : Replica → World} {s : Sites}
    (h : Reach (Sites.step numParts) (CopiesOwn numParts) (.idle world) s) {n owner : Replica}
    {k : Path} (hPut : (n, k) ∈ s.log) (hOwner : Belongs owner.name k) : owner = n := by
  have hTidy : s.Tidy := h.induct (I := Sites.Tidy) ⟨fun n _ => Caller.tidy_new n, by simp [Sites.idle]⟩
    fun _ hI hK hs => hI.step hK hs
  exact hTidy.log n k hPut owner hOwner

/-! ### A hash with two counters -/

private def eastern : Replica := .named 101

private def western : Replica := .named 119

private def fresh (_ : Replica) : World := .fresh

/-- `HINCRBY k f 5`. -/
private def increment : Method := .hash (.incr [107] [102] 5)

/-- A client runs a method as far as some calls. -/
private def doing (n : Replica) (m : Method) (calls : Nat) : List (Replica × Happening) :=
  (n, .start 0 0 m) :: List.replicate calls (n, .call 0)

/-- West increments a field, east receives what it wrote and goes on. -/
private def afterWest (m : Method) (calls : Nat) : List (Replica × Happening) :=
  doing western increment 9 ++
    (eastern, .change (exec (increment.program ⟨western, 0⟩) (fresh western)).2.data) :: doing eastern m calls

/-- The component of a counter field. -/
private def fieldPart (key : Bytes) (n : Replica) : Path :=
  (Comp.fieldCounter [102]).path 0 key n.name

theorem single_writer_increments :
    ∃ s, Reach (Sites.step 1) (CopiesOwn 1) (.idle fresh) s ∧ (western, fieldPart [107] western) ∈ s.log ∧
    (eastern, fieldPart [107] eastern) ∈ s.log ∧ Belongs eastern.name (fieldPart [107] eastern) ∧
    ∀ owner : Replica, Belongs owner.name (fieldPart [107] eastern) → owner = eastern := by
  obtain ⟨s, hReach, hWest, hEast⟩ : ∃ s, Reach (Sites.step 1) (CopiesOwn 1) (.idle fresh) s ∧
      (western, fieldPart [107] western) ∈ s.log ∧ (eastern, fieldPart [107] eastern) ∈ s.log :=
    Reach.of_eval (afterWest increment 9) (by decide +kernel)
  refine ⟨s, hReach, hWest, hEast, .comp (.fieldCounter [102]) rfl 0 [107], fun owner hOwner => ?_⟩
  exact single_writer hReach hEast hOwner

/-- East renames the hash and puts west's component under the new name. -/
theorem rename_puts_foreign_component :
    ∃ s, Reach (Sites.step 1) Anything (.idle fresh) s ∧ (eastern, fieldPart [110] western) ∈ s.log ∧
    Belongs western.name (fieldPart [110] western) ∧ western ≠ eastern := by
  obtain ⟨s, hReach, hMem⟩ : ∃ s, Reach (Sites.step 1) Anything (.idle fresh) s ∧
      (eastern, fieldPart [110] western) ∈ s.log :=
    Reach.of_eval (afterWest (.key (.rename [107] [110])) 15) (by decide +kernel)
  refine ⟨s, hReach, hMem, ?_, by decide⟩
  exact .comp (.fieldCounter [102]) rfl 0 [110]

end RedGeo.Repo
