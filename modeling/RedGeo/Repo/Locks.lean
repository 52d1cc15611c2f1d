import RedGeo.Repo.Ownership

/-!
# RedGeo — the locks

`crdtstore/locks.go`. A lock is named by a key and taken on a shard, a mutex that all
keys with one hash share. Here the clients of a node wait for the shards they ask for.

* `Host.step` — the node, and `Host.Effect`, everything that can happen there.
* `balanced_program` — every method gives back the locks it takes, and holds two at a
  time only if it is a command on two keys.
* `orderly_of_reach` — who holds which locks, in every state of every run.
-/

namespace RedGeo.Repo

open Lib Store List Option Caller
open Function (update update_eq_self update_of_ne update_self)

/-! ## Shards -/

/-- `lockManager`: how many mutexes there are, and the bits that choose one. -/
structure LockManager where
  shards : Nat
  mask : UInt32

/-- Double a number until it is large enough. -/
def doubled (enough : Nat) : Nat → Nat → Nat
  | 0, n => n
  | fuel + 1, n => if n < enough then doubled enough fuel (n * 2) else n

def newLockManager (nShards : Nat) : LockManager :=
  let n := doubled nShards nShards 1
  ⟨n, UInt32.ofNat (n - 1)⟩

/-- `shardFor`, as the number of the mutex. -/
def LockManager.shardFor (m : LockManager) (logicalKey : Bytes) : Nat :=
  (fnv32a logicalKey &&& m.mask).toNat

def lockShards : Nat := 1024

/-- The shard of a lock, in a store. -/
def shardOf (k : Bytes) : Nat := (newLockManager lockShards).shardFor k

/-! ## A node with locks -/

/-- A node, and who holds which shard. -/
structure Host where
  site : Site
  holder : Nat → Option Nat := fun _ => none

variable {c : Nat} {n : Replica} {x : Host} {C : Set (Int64 × Method)}

namespace Host

section

variable (x : Host)

/-- The next call of a client. -/
def nextCall (c : Nat) : Option Call :=
  match (x.site.caller c).task with
  | some ⟨_, _, .call op _⟩ => some op
  | _ => none

/-- The shards after a call, unless it has to wait. -/
def grant (c : Nat) : Call → Option (Nat → Option Nat)
  | .lock k =>
    if x.holder (shardOf k) = none then some (update x.holder (shardOf k) (some c)) else none
  | .unlock k => some (update x.holder (shardOf k) none)
  | _ => some x.holder

/-- Locking and unlocking do not fail. -/
def mayFail : Call → Bool
  | .lock _ | .unlock _ => false
  | _ => true

/-- What happens at a node. -/
def step (numParts : Nat) (n : Replica) (x : Host) : Happening → Option Host
  | .call c =>
    match x.nextCall c with
    | some op =>
      match x.grant c op, x.site.step numParts n (.call c) with
      | some holder, some out => some ⟨out.1, holder⟩
      | _, _ => none
    | none => (x.site.step numParts n (.call c)).map fun out => ⟨out.1, x.holder⟩
  | .fault c e =>
    if (x.nextCall c).all mayFail then
      (x.site.step numParts n (.fault c e)).map fun out => ⟨out.1, x.holder⟩
    else none
  | a => (x.site.step numParts n a).map fun out => ⟨out.1, x.holder⟩

/-- Nobody is doing anything. -/
def idle (world : World) : Host := { site := { world } }

/-- The clients after one of them has changed. -/
def setCaller (c : Nat) (y : Caller) : Nat → Caller := update x.site.caller c y

@[simp] lemma setCaller_self (c : Nat) (y : Caller) : x.setCaller c y c = y := by
  rw [setCaller, update_self]

lemma setCaller_of_ne (h : c' ≠ c) (y : Caller) : x.setCaller c y c' = x.site.caller c' := by
  rw [setCaller, update_of_ne h]

end

/-- What a batch makes of a datastore. -/
def committed (txn : Txn) (parts : List Nat) (data : Datastore) : Datastore :=
  parts.foldl (fun data p => (txn.batch p).foldl (fun data op =>
    match op.2 with
    | some v => data.insert op.1 v
    | none => data.erase op.1) data) data

/-- Everything that can happen at a node, with what becomes of it. -/
inductive Effect (numParts : Nat) (n : Replica) (x : Host) : Happening → Host → Prop
  | start {c : Nat} {db : Int64} {m : Method} (hIdle : (x.site.caller c).task = none) :
    Effect numParts n x (.start c db m)
      ⟨⟨x.site.world, x.setCaller c ⟨(x.site.caller c).txn, some ⟨db, m, m.program ⟨n, db⟩⟩⟩⟩, x.holder⟩
  | call {c : Nat} {db : Int64} {m : Method} {op : Call} {next : Answer op → StoreM m.Result}
    {holder : Nat → Option Nat} (hTask : (x.site.caller c).task = some ⟨db, m, .call op next⟩)
    (hGrant : x.grant c op = some holder) :
    Effect numParts n x (.call c)
      ⟨⟨((x.site.caller c).serve numParts x.site.world op).2.1,
        x.setCaller c ⟨((x.site.caller c).serve numParts x.site.world op).2.2,
          some ⟨db, m, next ((x.site.caller c).serve numParts x.site.world op).1⟩⟩⟩, holder⟩
  | finish {c : Nat} {db : Int64} {m : Method} {rest : StoreM m.Result}
    (hTask : (x.site.caller c).task = some ⟨db, m, rest⟩) (hNext : x.nextCall c = none) :
    Effect numParts n x (.call c)
      ⟨⟨x.site.world, x.setCaller c ⟨(x.site.caller c).txn, none⟩⟩, x.holder⟩
  | fault {c : Nat} {e : Err} {db : Int64} {m : Method} {op : Call}
    {next : Answer op → StoreM m.Result} (hTask : (x.site.caller c).task = some ⟨db, m, .call op next⟩)
    (hFail : mayFail op = true) :
    Effect numParts n x (.fault c e)
      ⟨⟨x.site.world, x.setCaller c ⟨(x.site.caller c).txn, some ⟨db, m, next (.error e)⟩⟩⟩, x.holder⟩
  | beginTxn {c : Nat} (hIdle : (x.site.caller c).task = none) :
    Effect numParts n x (.beginTxn c)
      ⟨⟨x.site.world, x.setCaller c ⟨some ({}, x.site.world.listSeq), none⟩⟩, x.holder⟩
  | commit {c : Nat} {parts : List Nat} {txn : Txn} {seq : UInt64}
    (hTxn : x.site.caller c = ⟨some (txn, seq), none⟩) :
    Effect numParts n x (.commit c parts)
      ⟨⟨{ x.site.world with data := committed txn parts x.site.world.data }, x.setCaller c {}⟩, x.holder⟩
  | change {data : Datastore} :
    Effect numParts n x (.change data) ⟨⟨{ x.site.world with data }, x.site.caller⟩, x.holder⟩

/-- **What a step can do.** -/
theorem effect_of_step (hs : x.step numParts n a = some x') : Effect numParts n x a x' := by
  cases a with
  | start c db m =>
    obtain ⟨out, hOut, rfl⟩ := map_eq_some_iff.mp hs
    rw [Site.step] at hOut
    split at hOut
    · cases hOut
    · next hIdle =>
      cases hOut
      exact .start (not_isSome_iff_eq_none.mp hIdle)
  | call c =>
    rw [step] at hs
    split at hs
    · next op hNext =>
      split at hs
      · next holder out hGrant hOut =>
        cases hs
        rw [nextCall] at hNext
        split at hNext
        · next db m op' next hTask =>
          cases hNext
          rw [Site.step, hTask] at hOut
          cases hOut
          exact .call hTask hGrant
        · cases hNext
      · cases hs
    · next hNext =>
      obtain ⟨out, hOut, rfl⟩ := map_eq_some_iff.mp hs
      rw [Site.step] at hOut
      split at hOut
      · cases hOut
      · next hTask =>
        rw [nextCall, hTask] at hNext
        cases hNext
      · next hTask =>
        cases hOut
        exact .finish hTask hNext
  | fault c e =>
    rw [step] at hs
    split at hs
    · next hFail =>
      obtain ⟨out, hOut, rfl⟩ := map_eq_some_iff.mp hs
      rw [Site.step] at hOut
      split at hOut
      · next hTask =>
        cases hOut
        rw [nextCall, hTask] at hFail
        exact .fault hTask hFail
      · cases hOut
    · cases hs
  | beginTxn c =>
    obtain ⟨out, hOut, rfl⟩ := map_eq_some_iff.mp hs
    rw [Site.step] at hOut
    split at hOut
    · cases hOut
    · next hIdle =>
      cases hOut
      exact .beginTxn (not_isSome_iff_eq_none.mp hIdle)
  | commit c parts =>
    obtain ⟨out, hOut, rfl⟩ := map_eq_some_iff.mp hs
    rw [Site.step] at hOut
    split at hOut
    · next hTxn =>
      cases hOut
      exact .commit hTxn
    · cases hOut
  | change data =>
    cases hs
    exact .change

end Host

/-! ## How programs take locks -/

/-- The locks that a program holds, the last one first. It asks for a lock while it
holds another only if `nest` says so, and gives them back in the opposite order. -/
def lockProtocol (nest : Bytes → Bytes → Prop) : Prog.Protocol Call Answer (List Bytes) where
  allowed held
    | .lock k => ∀ a ∈ held, nest a k
    | .unlock k => held.head? = some k
    | _ => True
  answers _
    | .lock _, x => x = .ok ()
    | .unlock _, x => x = .ok ()
    | _, _ => True
  after held
    | .lock k, _ => k :: held
    | .unlock _, _ => held.tail
    | _, _ => held

/-- A program that gives back what it takes. -/
abbrev Balanced (nest : Bytes → Bytes → Prop) (held : List Bytes) {α : Type} (p : StoreM α) : Prop :=
  p.Heeds (lockProtocol nest) (fun g _ => g = held) held

section

variable {α β : Type} {nest : Bytes → Bytes → Prop}

lemma balanced_bind {p : StoreM α} {f : α → StoreM β} (hp : Balanced nest held p)
    (hf : ∀ a, Balanced nest held (f a)) : Balanced nest held (p >>= f) :=
  Prog.heeds_bind hp (fun _ a hg => hg ▸ hf a) fun _ _ hg => hg

/-- Calls that do not concern locks. -/
lemma balanced_perform {c : Call} (hc : Host.mayFail c = true) : Balanced nest held (perform c) := by
  cases c with
  | lock | unlock => cases hc
  | _ => exact ⟨trivial, fun x _ => by cases x <;> rfl⟩

lemma balanced_calls (p : ReadM α) : Balanced nest held p.calls := by
  induction p with
  | done a => rfl
  | fail e => rfl
  | call a next ih => cases a <;> exact ⟨trivial, fun x _ => ih x⟩

lemma balanced_putSlot (self : Replica) (base : List Seg) (tag : UInt8) (value : Bytes) :
    Balanced nest held (putSlot self base tag value) :=
  balanced_bind (balanced_perform rfl) fun _ => balanced_perform rfl

lemma balanced_on (r : Db) (key : Bytes) (p : KeyM X α) : Balanced nest held (r.on key p) := by
  induction p with
  | done a => rfl
  | fail e => rfl
  | call op next ih =>
    have hOp : Balanced nest held (op.calls r key) := by
      cases op with
      | ask a => exact balanced_perform (by cases a <;> rfl)
      | slot | mark | unmark => exact balanced_putSlot _ _ _ _
      | put | del | drop => exact balanced_perform rfl
    exact balanced_bind ((Prog.heeds_attempt hOp).mono fun _ _ hEnds => hEnds.choose_spec.2) ih

/-- A lock around a program that leaves it alone. -/
lemma balanced_withLock {k : Bytes} {body : StoreM α} (hNest : ∀ a ∈ held, nest a k)
    (h : Balanced nest (k :: held) body) : Balanced nest held (withLock k body) := by
  refine ⟨hNest, fun x hx => ?_⟩
  subst hx
  show (body.attempt >>= _).Heeds _ _ (k :: held)
  refine Prog.heeds_bind (Prog.heeds_attempt h) (fun g out hg => ?_) fun g e hg => ?_
  · obtain ⟨o, -, rfl⟩ := hg
    refine ⟨rfl, fun x hx => ?_⟩
    subst hx
    cases out <;> rfl
  · -- `attempt` does not fail
    obtain ⟨o, hOk, -⟩ := hg
    cases hOk

end

/-! ## How methods take locks -/

/-- A method asks for `b` while it holds `a`. -/
def Nests (r : Db) (m : Method) (a b : Bytes) : Prop :=
  ∃ p, m.nested r = some p ∧ ordered p.1 p.2 = (a, b)

lemma balanced_parts (self : Replica) (nest : Bytes → Bytes → Prop) :
    Parts self (fun _ p => ∀ held, Balanced nest held p) (fun _ p => Balanced nest [] p) where
  done _ _ := rfl
  fail _ _ := rfl
  bindIn hp hf held := balanced_bind (hp held) fun a => hf a held
  bindOut := balanced_bind
  whole h := h []
  calls p _ := balanced_calls p
  on r _ key p _ := balanced_on r key p
  marked db key tag value _ := balanced_putSlot self (metaBase db key) tag value
  withLock _ _ h := balanced_withLock (by simp) (h _)

variable {nest : Bytes → Bytes → Prop}

lemma balanced_copyHashData (r : Db) (src dest : Bytes) (held : List Bytes) :
    Balanced nest held (copyHashData r src dest) := by
  refine balanced_bind (balanced_calls _) fun entries => ?_
  induction entries with
  | nil => rfl
  | cons e entries ih =>
    refine balanced_bind ?_ fun _ => ih
    rw [copyHashEntry]
    split
    · split
      · split
        · rfl
        · exact balanced_on r dest _
      · rfl
    · exact balanced_perform rfl
    · rfl

/-- Two locks, taken in the order of their names. -/
lemma balanced_withLocks {a b : Bytes} {body : StoreM Unit} (hNest : nest (ordered a b).1 (ordered a b).2)
    (h : ∀ held, Balanced nest held body) : Balanced nest [] (withLocks a b body) := by
  have hTwo : ∀ first second, nest first second →
      Balanced nest [] (withLock first (withLock second body)) := by
    intro first second hNest
    refine balanced_withLock (by simp) (balanced_withLock (fun k hk => ?_) (h _))
    exact mem_singleton.mp hk ▸ hNest
  rw [withLocks]
  rw [ordered] at hNest
  split
  · next hLt =>
    rw [if_pos hLt] at hNest
    exact hTwo b a hNest
  · next hLe =>
    rw [if_neg hLe] at hNest
    exact hTwo a b hNest

/-- **Every method gives back the locks it takes**, and holds two at once only if it
is a command on two keys. -/
theorem balanced_program (r : Db) (m : Method) : Balanced (Nests r m) [] (m.program r) :=
  (balanced_parts r.self (Nests r m)).program m
    (fun src dest _ held => balanced_copyHashData r src dest held)
    fun a b hNested _ h => balanced_withLocks ⟨(a, b), hNested, rfl⟩ h

/-! ## Who holds what -/

/-- The commands that are started are some of those in `C`. -/
def Starts (C : Set (Int64 × Method)) (_ : Host) : Happening → Prop
  | .start _ db m => (db, m) ∈ C
  | _ => True

/-- What is left of a client's method agrees with the locks that the client holds. -/
structure Caller.Holding (n : Replica) (C : Set (Int64 × Method)) (y : Caller) (locks : List Bytes) :
    Prop where
  task : ∀ t, y.task = some t → (t.db, t.method) ∈ C ∧
    t.rest.Heeds (lockProtocol (Nests ⟨n, t.db⟩ t.method)) (fun g _ => g = []) locks
  free : y.task = none → locks = []

/-- Every lock that is held is on a shard of its own, and these are the shards that
have a holder. -/
structure Shared (holder : Nat → Option Nat) (held : Nat → List Bytes) : Prop where
  holder : ∀ sh c, holder sh = some c ↔ ∃ k ∈ held c, shardOf k = sh
  apart : ∀ c, ((held c).map shardOf).Nodup

variable {held : Nat → List Bytes}

/-- A client takes a shard that is free. -/
lemma Shared.lock {holder : Nat → Option Nat} (h : Shared holder held) (hFree : holder (shardOf k) = none)
    (c : Nat) : Shared (update holder (shardOf k) (some c)) (update held c (k :: held c)) := by
  have hNobody : ∀ c' k', k' ∈ held c' → shardOf k' ≠ shardOf k := by
    intro c' k' hMem hEq
    have hHolds := (h.holder _ c').mpr ⟨k', hMem, hEq⟩
    rw [hFree] at hHolds
    cases hHolds
  refine ⟨fun sh c' => ?_, fun c' => ?_⟩
  · by_cases hSh : sh = shardOf k
    · subst hSh
      rw [update_self, some.injEq]
      constructor
      · rintro rfl
        rw [update_self]
        exact ⟨k, mem_cons_self, rfl⟩
      · rintro ⟨k', hk', hEq⟩
        by_contra hc
        rw [update_of_ne (Ne.symm hc)] at hk'
        exact hNobody c' k' hk' hEq
    · rw [update_of_ne hSh, h.holder]
      by_cases hc : c' = c
      · subst hc
        rw [update_self, exists_mem_cons_iff]
        exact (or_iff_right fun hEq => hSh hEq.symm).symm
      · rw [update_of_ne hc]
  · by_cases hc : c' = c
    · subst hc
      rw [update_self, map_cons, nodup_cons]
      refine ⟨fun hMem => ?_, h.apart c'⟩
      obtain ⟨k', hk', hEq⟩ := mem_map.mp hMem
      exact hNobody c' k' hk' hEq
    · rw [update_of_ne hc]
      exact h.apart c'

/-- A client gives back the shard that it took last. -/
lemma Shared.unlock {holder : Nat → Option Nat} (h : Shared holder held)
    (hHeld : held c = k :: rest) : Shared (update holder (shardOf k) none) (update held c rest) := by
  have hApart := h.apart c
  rw [hHeld, map_cons, nodup_cons] at hApart
  have hMine : holder (shardOf k) = some c :=
    (h.holder _ c).mpr ⟨k, by rw [hHeld]; exact mem_cons_self, rfl⟩
  refine ⟨fun sh c' => ?_, fun c' => ?_⟩
  · by_cases hSh : sh = shardOf k
    · subst hSh
      rw [update_self]
      refine ⟨fun hEq => (nomatch hEq), fun ⟨k', hk', hEq⟩ => ?_⟩
      by_cases hc : c' = c
      · subst hc
        rw [update_self] at hk'
        exact absurd (mem_map.mpr ⟨k', hk', hEq⟩) hApart.1
      · -- the shard was the client's, so that it was nobody else's
        rw [update_of_ne hc] at hk'
        have hOther := (h.holder _ c').mpr ⟨k', hk', hEq⟩
        rw [hMine] at hOther
        exact absurd (some.inj hOther).symm hc
    · rw [update_of_ne hSh, h.holder]
      by_cases hc : c' = c
      · subst hc
        rw [update_self, hHeld, exists_mem_cons_iff]
        exact or_iff_right fun hEq => hSh hEq.symm
      · rw [update_of_ne hc]
  · by_cases hc : c' = c
    · subst hc
      rw [update_self]
      exact hApart.2
    · rw [update_of_ne hc]
      exact h.apart c'

/-- The invariant. -/
structure Host.Orderly (n : Replica) (C : Set (Int64 × Method)) (x : Host) (held : Nat → List Bytes) :
    Prop where
  client : ∀ c, (x.site.caller c).Holding n C (held c)
  shared : Shared x.holder held

lemma holding_update (h : ∀ c, (x.site.caller c).Holding n C (held c)) (hy : y.Holding n C locks) (c' : Nat) :
    (x.setCaller c y c').Holding n C (update held c locks c') := by
  by_cases hc : c' = c
  · subst hc
    rw [Host.setCaller_self, update_self]
    exact hy
  · rw [Host.setCaller_of_ne x hc, update_of_ne hc]
    exact h c'

/-- A client that goes on without locks. -/
lemma holding_same (h : ∀ c, (x.site.caller c).Holding n C (held c)) (hy : y.Holding n C (held c))
    (c' : Nat) : (x.setCaller c y c').Holding n C (held c') := by
  have hUpdate := holding_update (c := c) h hy c'
  rwa [update_eq_self] at hUpdate

lemma Caller.holding_task {txn : Option (Txn × UInt64)}
    (hMem : (t.db, t.method) ∈ C)
    (hRest : t.rest.Heeds (lockProtocol (Nests ⟨n, t.db⟩ t.method)) (fun g _ => g = []) locks) :
    Caller.Holding n C ⟨txn, some t⟩ locks where
  task _ hEq := some.inj hEq ▸ ⟨hMem, hRest⟩
  free hEq := nomatch hEq

lemma Caller.holding_none {txn : Option (Txn × UInt64)}
    (hLocks : locks = []) : Caller.Holding n C ⟨txn, none⟩ locks where
  task _ hEq := nomatch hEq
  free _ := hLocks

/-- **The step lemma.** -/
theorem Host.Orderly.step (h : x.Orderly n C held) (hStart : Starts C x a)
    (hs : x.step numParts n a = some x') : ∃ held', x'.Orderly n C held' := by
  cases Host.effect_of_step hs with
  | @start c db m hIdle =>
    refine ⟨held, holding_same h.client (holding_task hStart ?_), h.shared⟩
    rw [(h.client c).free hIdle]
    exact balanced_program ⟨n, db⟩ m
  | @call c db m op next holder hTask hGrant =>
    obtain ⟨hMem, hAllowed, hNext⟩ := (h.client c).task _ hTask
    -- only locks change what is held
    have hOther : (∀ x, (next x).Heeds (lockProtocol (Nests ⟨n, db⟩ m)) (fun g _ => g = []) (held c)) →
        holder = x.holder → ∃ held', Host.Orderly n C
          ⟨⟨((x.site.caller c).serve numParts x.site.world op).2.1,
            x.setCaller c ⟨((x.site.caller c).serve numParts x.site.world op).2.2,
              some ⟨db, m, next ((x.site.caller c).serve numParts x.site.world op).1⟩⟩⟩, holder⟩ held' := by
      rintro hRest rfl
      exact ⟨held, holding_same h.client (holding_task hMem (hRest _)), h.shared⟩
    cases op with
    | lock k =>
      rw [grant] at hGrant
      split at hGrant
      · next hFree =>
        cases hGrant
        refine ⟨_, holding_update h.client (holding_task hMem ?_), h.shared.lock hFree c⟩
        exact hNext _ (by cases hTxn : (x.site.caller c).txn <;> simp [serve, hTxn] <;> rfl)
      · cases hGrant
    | unlock k =>
      cases hGrant
      have hHead : (held c).head? = some k := hAllowed
      obtain ⟨rest, hRest⟩ := List.head?_eq_some_iff.mp hHead
      refine ⟨_, holding_update h.client (holding_task hMem ?_), h.shared.unlock hRest⟩
      have hTail := hNext ((x.site.caller c).serve numParts x.site.world (.unlock k)).1
        (by cases hTxn : (x.site.caller c).txn <;> simp [serve, hTxn] <;> rfl)
      rw [show (lockProtocol (Nests ⟨n, db⟩ m)).after (held c) (.unlock k) _ = (held c).tail from rfl,
        hRest] at hTail
      exact hTail
    | _ => exact hOther (fun y => hNext y trivial) (some.inj hGrant).symm
  | @finish c db m rest hTask hNext =>
    refine ⟨held, holding_same h.client (holding_none ?_), h.shared⟩
    have hRest := ((h.client c).task _ hTask).2
    rw [nextCall, hTask] at hNext
    cases rest with
    | done a => exact hRest
    | fail e => exact hRest
    | call op next => cases hNext
  | @fault c e db m op next hTask hFail =>
    obtain ⟨hMem, -, hNext⟩ := (h.client c).task _ hTask
    refine ⟨held, holding_same h.client (holding_task hMem ?_), h.shared⟩
    cases op with
    | lock | unlock => cases hFail
    | _ => exact hNext _ trivial
  | @beginTxn c hIdle =>
    exact ⟨held, holding_same h.client (holding_none ((h.client c).free hIdle)), h.shared⟩
  | @commit c parts txn seq hTxn =>
    refine ⟨held, holding_same h.client (holding_none ((h.client c).free ?_)), h.shared⟩
    rw [hTxn]
  | change => exact ⟨held, h.client, h.shared⟩

/-- In every state that is reached, the locks are in order. -/
lemma orderly_of_reach (h : Reach (Host.step numParts n) (Starts C) (.idle world) x) :
    ∃ held, x.Orderly n C held :=
  h.induct (I := fun x => ∃ held, x.Orderly n C held)
    ⟨fun _ => [], fun _ => holding_none rfl, by simp [Host.idle], by simp⟩
    fun _ ⟨_, hI⟩ hK hs => hI.step hK hs

end RedGeo.Repo
