import RedGeo.Store.Registers

/-!
# RedGeo — clients, locks and transactions

One node serves many clients. A command holds the lock of the key it writes; it
draws a stamp and, on its own, stores the slot before it lets go of the lock.
Within `EXEC` or `EVAL` the store is bound to a transaction: the stamp is drawn
then as well, but the slot goes into a batch, and the batch is committed when
all commands have run and no lock is held any more. Between the two another
client can write the same slot with a later stamp.

* `InOrder` — no commit brings a slot that a later command has overtaken, and
  the counter of the clock does not wrap around.
* `slots_advance` — in every such run the stamps stored at a slot key increase
  from one to the next; `exec_overtaken` is a run in which they do not.

The plain commands need no condition: while one is on its way to the store it
holds the lock, and nobody draws a later stamp for its key (`Locked.latest`).
-/

namespace RedGeo.Store

open Lib Function List Option

/-! ## The model -/

/-- A slot on its way to its key. `no` is a ghost: how many stamps had been drawn
before its own. -/
structure SlotPut where
  key : Path
  slot : Slot
  no : Nat
  deriving DecidableEq

/-- The goroutine of a client: the `Put` it is waiting for, and the batch of the
transaction that its store is bound to. -/
structure Client where
  pending : Option SlotPut := none
  txn : Option (List SlotPut) := none

namespace Client

def put (x : Client) (p : SlotPut) : Client :=
  match x.txn with
  | none => { x with pending := some p }
  | some batch => { x with txn := some (batch ++ [p]) }

def batch (x : Client) : List SlotPut := x.txn.getD []

end Client

/-- What the goroutine of a client does. -/
inductive Deal (Λ π : Type)
  | lock (l : Λ)
  | unlock (l : Λ)
  | beginTxn
  /-- A stamp is drawn for a slot that is not stored, or for something else. -/
  | stamp
  | writeSlot (base : List Seg) (tag : UInt8) (value : Bytes)
  /-- The `Put` reaches the store. -/
  | stored
  /-- The `Put` returns an error. -/
  | failed
  /-- The sub-batch of one partition is committed. -/
  | commit (part : π)
  /-- The transaction is over; what has not been committed is dropped. -/
  | endTxn
  deriving DecidableEq

/-- The node: its clock, who holds which lock, the clients, and every slot that
has reached the store, the last one first. -/
structure Server (γ Λ : Type) where
  clock : Clock
  owner : Λ → Option γ := fun _ => none
  client : γ → Client := fun _ => {}
  log : List SlotPut := []

variable {γ Λ π : Type}

namespace Server

variable [DecidableEq γ] [DecidableEq Λ] [DecidableEq π]

/-- A node that has just started. -/
def init (wall : Nat → Int64) : Server γ Λ := { clock := { wall := wall } }

variable (me : Replica) (lockOf : Path → Λ) (partOf : Path → π)

variable (s : Server γ Λ)

/-- What the commit of one partition brings. -/
def landing (c : γ) (part : π) : List SlotPut :=
  (s.client c).batch.filter (partOf ·.key = part)

/-- What a client can do next. Every write is done under the lock of the key it
belongs to, and a function that waits for a `Put` has not returned. -/
def may (c : γ) : Deal Λ π → Prop
  | .lock l => s.owner l = none
  | .unlock l => s.owner l = some c ∧ (s.client c).pending = none
  | .beginTxn => (s.client c).txn = none ∧ (s.client c).pending = none
  | .writeSlot base _ _ =>
    s.owner (lockOf (slotKey base me)) = some c ∧ (s.client c).pending = none
  | _ => True

instance (s : Server γ Λ) (c : γ) (a : Deal Λ π) : Decidable (s.may me lockOf c a) := by
  unfold may
  split <;> infer_instance

/-- The slot a `writeSlot` puts. -/
def drawn (base : List Seg) (tag : UInt8) (value : Bytes) : SlotPut :=
  ⟨slotKey base me, ⟨s.clock.now.1, tag, value⟩, s.clock.calls⟩

/-- The node after that. -/
def after (c : γ) : Deal Λ π → Server γ Λ
  | .lock l => { s with owner := update s.owner l (some c) }
  | .unlock l => { s with owner := update s.owner l none }
  | .beginTxn =>
    { s with client := update s.client c { s.client c with txn := some [] } }
  | .stamp => { s with clock := s.clock.now.2 }
  | .writeSlot base tag value =>
    { s with
      clock := s.clock.now.2
      client := update s.client c ((s.client c).put (s.drawn me base tag value)) }
  | .stored =>
    { s with
      log := (s.client c).pending.toList ++ s.log
      client := update s.client c { s.client c with pending := none } }
  | .failed =>
    { s with client := update s.client c { s.client c with pending := none } }
  | .commit part =>
    { s with
      log := (s.landing partOf c part).reverse ++ s.log
      client := update s.client c
        { s.client c with txn := (s.client c).txn.map (·.filter (partOf ·.key ≠ part)) } }
  | .endTxn =>
    { s with client := update s.client c { s.client c with txn := none } }

/-- One step of one client. -/
def step (l : γ × Deal Λ π) : Option (Server γ Λ) :=
  if s.may me lockOf l.1 l.2 then some (s.after me partOf l.1 l.2) else none

end Server

/-! ## Statement -/

/-- **Slots advance**: of any two slots stored at one key the later one has the
later stamp. -/
def Server.Advances (s : Server γ Λ) : Prop :=
  s.log.Pairwise fun later earlier =>
    later.key = earlier.key → earlier.slot.stamp < later.slot.stamp

/-- No slot that a commit brings has been overtaken by one of a later command, and
no stamp is drawn with the counter at its end. -/
def InOrder [DecidableEq π] (partOf : Path → π) (s : Server γ Λ) (l : γ × Deal Λ π) : Prop :=
  match l.2 with
  | .stamp => ¬ s.clock.Wraps
  | .writeSlot _ _ _ => ¬ s.clock.Wraps
  | .commit part =>
    ∀ p ∈ s.landing partOf l.1 part, ∀ q ∈ s.log, q.key = p.key → q.no < p.no
  | _ => True

instance [DecidableEq π] (partOf : Path → π) (s : Server γ Λ) (l : γ × Deal Λ π) :
    Decidable (InOrder partOf s l) := by
  unfold InOrder
  split <;> infer_instance

/-! ## Stamps follow the draws -/

section

/-- The client has the slot in its batch or on its way. -/
def Client.Holds (x : Client) (p : SlotPut) : Prop := p ∈ x.batch ∨ x.pending = some p

/-- A slot that has been stored or may still be. -/
def Server.Has (s : Server γ Λ) (p : SlotPut) : Prop :=
  p ∈ s.log ∨ ∃ c, (s.client c).Holds p

/-- The order of the stamps is the order in which they were drawn. -/
structure Timed (s : Server γ Λ) : Prop where
  past : ∀ p, s.Has p → p.no < s.clock.calls ∧ p.slot.stamp ≤ s.clock.last
  mono : ∀ p q, s.Has p → s.Has q → p.no < q.no → p.slot.stamp < q.slot.stamp

namespace Timed

variable {s s' : Server γ Λ}

/-- Slots that are stored or dropped were there. -/
lemma shrink (h : Timed s) (hClock : s'.clock = s.clock) (hHas : ∀ p, s'.Has p → s.Has p) :
    Timed s' where
  past p hp := hClock ▸ h.past p (hHas p hp)
  mono p q hp hq := h.mono p q (hHas p hp) (hHas q hq)

/-- A stamp is drawn, for a slot or not. -/
lemma draw (h : Timed s) (hWraps : ¬ s.clock.Wraps) (hClock : s'.clock = s.clock.now.2)
    (hHas : ∀ p, s'.Has p → s.Has p ∨ p.no = s.clock.calls ∧ p.slot.stamp = s.clock.now.1) : Timed s' := by
  have hNext : s.clock.last < s.clock.now.1 := Clock.last_lt_now hWraps
  refine ⟨fun p hp => ?_, fun p q hp hq hLt => ?_⟩
  · rw [hClock, Clock.now_last]
    change p.no < s.clock.calls + 1 ∧ _
    rcases hHas p hp with hOld | ⟨hNo, hStamp⟩
    · obtain ⟨hNo, hStamp⟩ := h.past p hOld
      exact ⟨by omega, hStamp.trans hNext.le⟩
    · exact ⟨by omega, hStamp.le⟩
  · rcases hHas p hp with hp | ⟨hpNo, -⟩ <;> rcases hHas q hq with hq | ⟨hqNo, hqStamp⟩
    · exact h.mono p q hp hq hLt
    · exact hqStamp ▸ (h.past p hp).2.trans_lt hNext
    · -- the new slot is not drawn before an old one
      have := (h.past q hq).1
      omega
    · omega

end Timed

/-! ## What a client drops -/

/-- The client is left with some of the slots it had. -/
structure Client.Drops (x y : Client) : Prop where
  batch : y.batch.Sublist x.batch
  pending : ∀ p, y.pending = some p → x.pending = some p

namespace Client

variable {x y : Client} {p q : SlotPut}

lemma drops_txn (ht : t.getD [] = []) :
    x.Drops { x with txn := t } where
  batch := by
    change (t.getD []).Sublist x.batch
    rw [ht]
    exact nil_sublist _
  pending p hp := hp

lemma drops_pending : x.Drops { x with pending := none } where
  batch := List.Sublist.refl _
  pending p hp := by cases hp

lemma drops_filter (f : SlotPut → Bool) : x.Drops { x with txn := x.txn.map (·.filter f) } where
  batch := by
    rw [batch, batch]
    cases x.txn with
    | none => exact nil_sublist _
    | some b => exact filter_sublist
  pending p hp := hp

lemma put_of_none (h : x.txn = none) : x.put p = { x with pending := some p } := by
  rw [put, h]

lemma put_of_some (h : x.txn = some b) : x.put p = { x with txn := some (b ++ [p]) } := by
  rw [put, h]

lemma holds_put (h : (x.put p).Holds q) : x.Holds q ∨ q = p := by
  cases hTxn : x.txn with
  | none =>
    rw [put_of_none hTxn] at h
    rcases h with h | h
    · exact .inl (.inl h)
    · exact .inr (some.inj h).symm
  | some b =>
    rw [put_of_some hTxn] at h
    rcases h with h | h
    · rcases mem_append.mp h with h | h
      · exact .inl (.inl (by rwa [batch, hTxn]))
      · exact .inr (mem_singleton.mp h)
    · exact .inl (.inr h)

lemma Drops.holds (h : x.Drops y) (hp : y.Holds p) : x.Holds p :=
  hp.imp (fun hMem => h.batch.mem hMem) (h.pending p)

end Client

variable [DecidableEq γ]
variable {s : Server γ Λ} {c d : γ} {x : Client}

lemma Server.holds_update (hx : (s.client c).Drops x) {p : SlotPut} (hp : (update s.client c x d).Holds p) :
    (s.client d).Holds p := by
  rw [update_apply] at hp
  split at hp
  · next hd => exact hd ▸ hx.holds hp
  · exact hp

/-- Slots of one client are stored or dropped. -/
lemma Timed.drop (h : Timed s) (hx : (s.client c).Drops x)
    (hLog : ∀ p ∈ log, p ∈ s.log ∨ (s.client c).Holds p) :
    Timed { s with log := log, client := update s.client c x } := by
  refine h.shrink rfl fun p hp => ?_
  rcases hp with hp | ⟨d, hp⟩
  · exact (hLog p hp).imp_right fun h => ⟨c, h⟩
  · exact .inr ⟨d, Server.holds_update hx hp⟩

variable [DecidableEq Λ] [DecidableEq π]
variable {me : Replica} {lockOf : Path → Λ} {partOf : Path → π}

lemma Timed.after (h : Timed s) (hK : InOrder partOf s (c, a)) : Timed (s.after me partOf c a) := by
  cases a with
  | lock l => exact h.shrink rfl fun _ hp => hp
  | unlock l => exact h.shrink rfl fun _ hp => hp
  | beginTxn => exact h.drop (Client.drops_txn rfl) fun p hp => .inl hp
  | stamp => exact h.draw hK rfl fun p hp => .inl hp
  | writeSlot base tag value =>
    refine h.draw hK rfl fun p hp => ?_
    rcases hp with hp | ⟨d, hp⟩
    · exact .inl (.inl hp)
    · change (update s.client c _ d).Holds p at hp
      rw [update_apply] at hp
      split at hp
      · rcases Client.holds_put hp with hp | rfl
        · exact .inl (.inr ⟨c, hp⟩)
        · exact .inr ⟨rfl, rfl⟩
      · exact .inl (.inr ⟨d, hp⟩)
  | stored =>
    refine h.drop Client.drops_pending fun p hp => ?_
    rcases mem_append.mp hp with hp | hp
    · exact .inr (.inr (mem_toList.mp hp))
    · exact .inl hp
  | failed => exact h.drop Client.drops_pending fun p hp => .inl hp
  | commit part =>
    refine h.drop (Client.drops_filter _) fun p hp => ?_
    rcases mem_append.mp hp with hp | hp
    · exact .inr (.inl (mem_of_mem_filter (mem_reverse.mp hp)))
    · exact .inl hp
  | endTxn => exact h.drop (Client.drops_txn rfl) fun p hp => .inl hp

/-! ## The locks keep plain commands in order -/

/-- A slot that is stored or waits for a commit. -/
def Server.Placed (s : Server γ Λ) (p : SlotPut) : Prop :=
  p ∈ s.log ∨ ∃ c, p ∈ (s.client c).batch

/-- A `Put` that is on its way has its lock and is the latest of its key; batches
are filled, and slots stored, in the order of their draws. -/
structure Locked (lockOf : Path → Λ) (s : Server γ Λ) : Prop where
  owner : ∀ c p, (s.client c).pending = some p → s.owner (lockOf p.key) = some c
  latest : ∀ c p, (s.client c).pending = some p → ∀ q, s.Placed q → q.key = p.key → q.no < p.no
  batch : ∀ c, (s.client c).batch.Pairwise (·.no < ·.no)
  log : s.log.Pairwise fun q p => q.key = p.key → p.no < q.no

namespace Locked

omit [DecidableEq γ] [DecidableEq Λ] in
/-- Nobody but the owner of a lock has a `Put` under it on its way. -/
lemma pending_ne (h : Locked lockOf s) (hOwner : s.owner (lockOf k) = some c)
    (hIdle : (s.client c).pending = none) {p : SlotPut} (hp : (s.client d).pending = some p) : p.key ≠ k := by
  rintro rfl
  obtain rfl : c = d := some.inj (hOwner.symm.trans (h.owner d p hp))
  rw [hIdle] at hp
  cases hp

omit [DecidableEq Λ] in
lemma drop (h : Locked lockOf s) (hx : (s.client c).Drops x) :
    Locked lockOf { s with client := update s.client c x } := by
  have hAll : ∀ d, (s.client d).Drops (update s.client c x d) := by
    refine (forall_update_iff s.client (p := fun d y => (s.client d).Drops y)).mpr
      ⟨hx, fun d _ => ⟨List.Sublist.refl _, fun p hp => hp⟩⟩
  refine ⟨fun d p hp => h.owner d p ((hAll d).pending p hp), fun d p hp q hq => ?_,
    fun d => (h.batch d).sublist (hAll d).batch, h.log⟩
  refine h.latest d p ((hAll d).pending p hp) q ?_
  exact hq.imp_right fun ⟨e, he⟩ => ⟨e, (hAll e).batch.mem he⟩

omit [DecidableEq γ] [DecidableEq Λ] in
/-- Slots are stored that nothing in the store has overtaken, and that no `Put` on
its way will find later than itself. -/
lemma land (h : Locked lockOf s) {ps : List SlotPut} (hSorted : ps.Pairwise (·.no < ·.no))
    (hLog : ∀ p ∈ ps, ∀ q ∈ s.log, q.key = p.key → q.no < p.no)
    (hPending : ∀ p ∈ ps, ∀ d r, (s.client d).pending = some r → p.key = r.key → p.no < r.no) :
    Locked lockOf { s with log := ps.reverse ++ s.log } where
  owner := h.owner
  latest d r hr q hq hKey := by
    rcases hq with hq | hq
    · rcases mem_append.mp hq with hq | hq
      · exact hPending q (mem_reverse.mp hq) d r hr hKey
      · exact h.latest d r hr q (.inl hq) hKey
    · exact h.latest d r hr q (.inr hq) hKey
  batch := h.batch
  log := by
    refine pairwise_append.mpr ⟨?_, h.log, fun p hp q hq hKey => ?_⟩
    · rw [pairwise_reverse]
      exact hSorted.imp fun {p q} (hLt : p.no < q.no) _ => hLt
    · exact hLog p (mem_reverse.mp hp) q hq hKey.symm

section

omit [DecidableEq Λ]

lemma put_plain (h : Locked lockOf s) {p : SlotPut}
    (hOwner : s.owner (lockOf p.key) = some c) (hNo : ∀ q, s.Has q → q.no < p.no) : Locked lockOf
    { s with clock := clock, client := update s.client c { s.client c with pending := some p } } := by
  -- the batches are what they were
  have hBatch : ∀ d, (update s.client c { s.client c with pending := some p } d).batch =
      (s.client d).batch := by
    refine (forall_update_iff s.client
      (p := fun d y => y.batch = (s.client d).batch)).mpr ⟨rfl, fun d _ => rfl⟩
  have hPlaced : ∀ q, Server.Placed { s with
      clock := clock
      client := update s.client c { s.client c with pending := some p } } q →
      s.Placed q :=
    fun q hq => hq.imp_right fun ⟨d, hd⟩ => ⟨d, hBatch d ▸ hd⟩
  refine ⟨?_, ?_, fun d => (hBatch d).symm ▸ h.batch d, h.log⟩
  · refine (forall_update_iff s.client (p := fun d y => ∀ r, y.pending = some r →
      s.owner (lockOf r.key) = some d)).mpr ⟨?_, fun d _ => h.owner d⟩
    rintro r hr
    obtain rfl : p = r := some.inj hr
    exact hOwner
  · refine (forall_update_iff s.client (p := fun d y => ∀ r, y.pending = some r →
      ∀ q, Server.Placed _ q → q.key = r.key → q.no < r.no)).mpr ⟨?_, fun d _ r hr q hq =>
        h.latest d r hr q (hPlaced q hq)⟩
    rintro r hr q hq -
    obtain rfl : p = r := some.inj hr
    exact hNo q ((hPlaced q hq).imp_right fun ⟨d, hd⟩ => ⟨d, .inl hd⟩)

/-- A command within a transaction puts a slot. -/
lemma put_txn (h : Locked lockOf s) {p : SlotPut}
    (hOwner : s.owner (lockOf p.key) = some c) (hIdle : (s.client c).pending = none)
    (hTxn : (s.client c).txn = some b) (hNo : ∀ q, s.Has q → q.no < p.no) : Locked lockOf
    { s with clock := clock, client := update s.client c { s.client c with txn := some (b ++ [p]) } } := by
  have hb : (s.client c).batch = b := by rw [Client.batch, hTxn]; rfl
  have hPending : ∀ d, (update s.client c
      { s.client c with txn := some (b ++ [p]) } d).pending = (s.client d).pending := by
    refine (forall_update_iff s.client
      (p := fun d y => y.pending = (s.client d).pending)).mpr ⟨rfl, fun d _ => rfl⟩
  have hPlaced : ∀ q, Server.Placed { s with
      clock := clock
      client := update s.client c { s.client c with txn := some (b ++ [p]) } } q →
      s.Placed q ∨ q = p := by
    rintro q (hq | ⟨d, hd⟩)
    · exact .inl (.inl hq)
    · change q ∈ (update s.client c _ d).batch at hd
      rw [update_apply] at hd
      split at hd
      · rcases mem_append.mp hd with hd | hd
        · exact .inl (.inr ⟨c, hb ▸ hd⟩)
        · exact .inr (mem_singleton.mp hd)
      · exact .inl (.inr ⟨d, hd⟩)
  refine ⟨fun d r hr => h.owner d r (hPending d ▸ hr), fun d r hr q hq hKey => ?_, ?_, h.log⟩
  · have hOld : (s.client d).pending = some r := hPending d ▸ hr
    rcases hPlaced q hq with hq | rfl
    · exact h.latest d r hOld q hq hKey
    · -- the lock is this client's, so nobody has a slot of this key on its way
      exact absurd hKey.symm (h.pending_ne hOwner hIdle hOld)
  · refine (forall_update_iff s.client
      (p := fun _ y => y.batch.Pairwise (·.no < ·.no))).mpr ⟨?_, fun d _ => h.batch d⟩
    refine pairwise_append.mpr ⟨hb ▸ h.batch c, pairwise_singleton _ _, ?_⟩
    rintro q hq r hr
    obtain rfl := mem_singleton.mp hr
    exact hNo q (.inr ⟨c, .inl (hb ▸ hq)⟩)

end

/-- **Every step keeps the order**, with the commits in order. -/
theorem after (h : Locked lockOf s) (hTimed : Timed s) {a : Deal Λ π} (hMay : s.may me lockOf c a)
    (hK : InOrder partOf s (c, a)) : Locked lockOf (s.after me partOf c a) := by
  cases a with
  | lock l =>
    refine ⟨fun d p hp => ?_, h.latest, h.batch, h.log⟩
    have hOwner := h.owner d p hp
    have hNe : lockOf p.key ≠ l := by
      rintro rfl
      rw [show s.owner _ = none from hMay] at hOwner
      cases hOwner
    exact (update_of_ne hNe _ _).trans hOwner
  | unlock l =>
    obtain ⟨hMine, hIdle⟩ := hMay
    refine ⟨fun d p hp => ?_, h.latest, h.batch, h.log⟩
    have hNe : lockOf p.key ≠ l := by
      rintro rfl
      exact h.pending_ne hMine hIdle hp rfl
    exact (update_of_ne hNe _ _).trans (h.owner d p hp)
  | beginTxn => exact h.drop (Client.drops_txn rfl)
  | stamp => exact ⟨h.owner, h.latest, h.batch, h.log⟩
  | writeSlot base tag value =>
    obtain ⟨hMine, hIdle⟩ := hMay
    have hNo : ∀ q, s.Has q → q.no < (s.drawn me base tag value).no :=
      fun q hq => (hTimed.past q hq).1
    rw [Server.after]
    cases hTxn : (s.client c).txn with
    | none =>
      rw [Client.put_of_none hTxn]
      exact h.put_plain hMine hNo
    | some b =>
      rw [Client.put_of_some hTxn]
      exact h.put_txn hMine hIdle hTxn hNo
  | stored =>
    cases hPending : (s.client c).pending with
    | none =>
      rw [Server.after, hPending]
      exact h.drop Client.drops_pending
    | some p =>
      rw [Server.after, hPending]
      have hDropped := h.drop (c := c) Client.drops_pending
      refine hDropped.land (pairwise_singleton _ p) ?_ ?_
      · rintro q hq r hr hKey
        obtain rfl := mem_singleton.mp hq
        exact h.latest c q hPending r (.inl hr) hKey
      · -- the lock is still held, and this client waits for nothing any more
        rintro q hq d r hr hKey
        obtain rfl := mem_singleton.mp hq
        exact absurd hKey.symm
          (hDropped.pending_ne (h.owner c q hPending) (by simp) hr)
  | failed => exact h.drop Client.drops_pending
  | commit part =>
    have hSub : ∀ p ∈ s.landing partOf c part, p ∈ (s.client c).batch :=
      fun p hp => mem_of_mem_filter hp
    have hLand := h.land ((h.batch c).filter _) hK fun p hp d r hr hKey =>
      h.latest d r hr p (.inr ⟨c, hSub p hp⟩) hKey
    exact hLand.drop (Client.drops_filter _)
  | endTxn => exact h.drop (Client.drops_txn rfl)

end Locked

variable {wall : Nat → Int64}

/-- **Slots advance** in every run whose commits are in order. -/
theorem slots_advance (h : Reach (Server.step me lockOf partOf) (InOrder partOf) (Server.init wall) s) :
    s.Advances := by
  have hInv : Timed s ∧ Locked lockOf s := by
    refine h.induct (I := fun s => Timed s ∧ Locked lockOf s) ?_ ?_
    · -- nothing has been drawn yet
      have hNone : ∀ p, ¬ (Server.init wall : Server γ Λ).Has p := by
        rintro p (hp | ⟨c, hp | hp⟩) <;> cases hp
      refine ⟨⟨fun p hp => absurd hp (hNone p), fun p _ hp => absurd hp (hNone p)⟩, ?_⟩
      exact ⟨fun _ _ => nofun, fun _ _ => nofun, fun _ => .nil, .nil⟩
    · rintro s s' ⟨c, a⟩ - ⟨hTimed, hLocked⟩ hK hStep
      rw [Server.step] at hStep
      split at hStep
      · next hMay =>
        obtain rfl := some.inj hStep
        exact ⟨hTimed.after hK, hLocked.after hTimed hMay hK⟩
      · cases hStep
  obtain ⟨hTimed, hLocked⟩ := hInv
  refine hLocked.log.imp_of_mem fun {q p} hq hp hLt hKey => ?_
  exact hTimed.mono p q (.inl hp) (.inl hq) (hLt hKey)

end

/-! ## Overtaken by a later command -/

private def node : Replica := .named 101

private def still (_ : Nat) : Int64 := 5

/-- The string register of the key `k`. -/
private def reg : List Seg := strBase 0 [107]

/-- `SET k` of client 0 within `EXEC`, up to its commit. -/
private def queued : List (Nat × Deal Unit Unit) :=
  [(0, .beginTxn), (0, .lock ()), (0, .writeSlot reg tagPresent [1]), (0, .unlock ())]

/-- `SET k` of client 1 on its own. -/
private def plain : List (Nat × Deal Unit Unit) :=
  [(1, .lock ()), (1, .writeSlot reg tagPresent [2]), (1, .stored), (1, .unlock ())]

private def committed : List (Nat × Deal Unit Unit) := [(0, .commit ()), (0, .endTxn)]

/-- The plain command runs before the commit: the stored slot goes back in time. -/
theorem exec_overtaken :
    ∃ s : Server Nat Unit, Reach (Server.step node (fun _ => ()) fun _ => ()) Anything (Server.init still) s ∧
    s.log.map (fun p => (p.key, p.slot.stamp)) = [(slotKey reg node, ⟨5, 0⟩), (slotKey reg node, ⟨5, 1⟩)] ∧
    ¬ s.Advances := by
  obtain ⟨s, hRun, hLog, hBack⟩ :
      ∃ s : Server Nat Unit, runChecked (Server.step node (fun _ => ()) fun _ => ()) Anything
        (Server.init still) (queued ++ plain ++ committed) = some s ∧
        s.log.map (fun p => (p.key, p.slot.stamp)) =
          [(slotKey reg node, ⟨5, 0⟩), (slotKey reg node, ⟨5, 1⟩)] ∧
        ¬ s.Advances :=
    ⟨_, rfl, by decide, by unfold Server.Advances; decide⟩
  exact ⟨s, .of_runChecked hRun, hLog, hBack⟩

/-- The plain command runs after the commit. -/
theorem exec_then_plain_advances : ∃ s : Server Nat Unit,
    Reach (Server.step node (fun _ => ()) fun _ => ()) (InOrder fun _ => ()) (Server.init still) s ∧
    s.log.map (fun p => (p.key, p.slot.stamp)) = [(slotKey reg node, ⟨5, 1⟩), (slotKey reg node, ⟨5, 0⟩)] ∧
    s.Advances := by
  obtain ⟨s, hReach, hLog⟩ : ∃ s : Server Nat Unit, Reach (Server.step node (fun _ => ()) fun _ => ())
      (InOrder fun _ => ()) (Server.init still) s ∧ s.log.map (fun p => (p.key, p.slot.stamp)) =
          [(slotKey reg node, ⟨5, 1⟩), (slotKey reg node, ⟨5, 0⟩)] :=
    Reach.of_eval (queued ++ committed ++ plain) (by decide)
  exact ⟨s, hReach, hLog, slots_advance hReach⟩

end RedGeo.Store
