import RedGeo.Store.Registers

/-!
# RedGeo — registers converge

A register seen from above is the list of all writes ever made to it, and its
value is that of the greatest, by stamp and then by replica (`register`). Below,
each replica overwrites its own slot, so that all but the latest write of each
is gone, and what the datastore delivers, in any order and in batches, is again
the latest of each. `read_register` is the refinement: reading the slots gives
the value of the register of the writes received.

* `registers_converge` — replicas that have received the same writes read the
  same, and with all writes received they read the register of all writes.
-/

namespace RedGeo.Store

open Lib Function List Option

/-! ## The register -/

/-- A write or, by its tag, a deletion. -/
structure Write where
  replica : Replica
  slot : Slot
  deriving DecidableEq

/-- What writes are compared by. -/
def Write.key (w : Write) : Stamp ×ₗ Bytes := rank (w.replica.name, w.slot)

/-- **The register.** -/
def register (writes : List Write) : Option Bytes :=
  match writes.argmax Write.key with
  | none => none
  | some w => if w.slot.tag = tagDeleted then none else some w.slot.value

/-- The latest write of its replica. -/
def Latest (writes : List Write) (w : Write) : Prop :=
  w ∈ writes ∧ ∀ w' ∈ writes, w'.replica = w.replica → w'.slot.stamp ≤ w.slot.stamp

instance (writes : List Write) (w : Write) : Decidable (Latest writes w) :=
  inferInstanceAs (Decidable (_ ∧ _))

/-- What is assumed of the datastore: of each replica it has the latest write
received, and no other slot of the register. -/
structure Stores (base : List Seg) (kv : Kv) (received : List Write) : Prop where
  held : ∀ w ∈ received, Latest received w → (slotKey base w.replica, encodeSlot w.slot) ∈ kv.pairs
  source : ∀ e ∈ kv.pairs, slotOf base e ≠ none →
    ∃ w ∈ received, Latest received w ∧ e = (slotKey base w.replica, encodeSlot w.slot)

instance (base : List Seg) (kv : Kv) (received : List Write) :
    Decidable (Stores base kv received) :=
  decidable_of_iff
    ((∀ w ∈ received, Latest received w → (slotKey base w.replica, encodeSlot w.slot) ∈ kv.pairs) ∧
      ∀ e ∈ kv.pairs, slotOf base e ≠ none →
        ∃ w ∈ received, Latest received w ∧ e = (slotKey base w.replica, encodeSlot w.slot))
    ⟨fun h => ⟨h.1, h.2⟩, fun h => ⟨h.held, h.source⟩⟩

/-! ## The cluster -/

/-- One replica: the writes it has received, its own included, and its datastore. -/
structure Peer where
  received : List Write := []
  kv : Kv := ∅

structure Cluster where
  issued : List Write := []
  node : Replica → Peer := fun _ => {}

inductive Deed
  /-- `writeSlot`, with the stamp it has drawn. -/
  | write (slot : Slot)
  /-- A batch arrives, and `kv` is what the datastore makes of it. -/
  | deliver (batch : List Write) (kv : Kv)

namespace Cluster

/-- One step. The stamps a replica draws increase, and what is delivered has been
written. -/
def step (base : List Seg) (s : Cluster) (l : Replica × Deed) : Option Cluster :=
  let x := s.node l.1
  match l.2 with
  | .write slot =>
    if ∀ w ∈ s.issued, w.replica = l.1 → w.slot.stamp < slot.stamp then
      some {
        issued := ⟨l.1, slot⟩ :: s.issued
        node := update s.node l.1 {
          received := ⟨l.1, slot⟩ :: x.received
          kv := x.kv.insert (slotKey base l.1) (encodeSlot slot) } }
    else none
  | .deliver batch kv =>
    if (∀ w ∈ batch, w ∈ s.issued) ∧ Stores base kv (batch ++ x.received) then
      some { s with
        node := update s.node l.1 { received := batch ++ x.received, kv := kv } }
    else none

end Cluster

/-- **Convergence.** Replicas that have received the same writes read the same,
and one that has received all writes reads the register of all. -/
def Converges (base : List Seg) (s : Cluster) : Prop :=
  (∀ n m, (∀ w, w ∈ (s.node n).received ↔ w ∈ (s.node m).received) →
    ∀ cands cands', Candidates (s.node n).kv base cands →
      Candidates (s.node m).kv base cands' → liveValue cands = liveValue cands') ∧
  ∀ n, (∀ w ∈ s.issued, w ∈ (s.node n).received) →
    ∀ cands, Candidates (s.node n).kv base cands → liveValue cands = register s.issued

/-! ## Reading -/

/-- The greatest write is the latest of its replica. -/
lemma latest_of_max (hMem : m ∈ ws) (hMax : ∀ w ∈ ws, w.key ≤ m.key) : Latest ws m := by
  refine ⟨hMem, fun w hw hReplica => ?_⟩
  rcases Prod.Lex.toLex_le_toLex.mp (hMax w hw) with hLt | ⟨hEq, -⟩
  · exact le_of_lt hLt
  · exact le_of_eq hEq

/-- What an entry of the register is read as. -/
lemma Stores.slotOf (h : Stores base kv ws) (he : e ∈ kv.pairs) (hc : slotOf base e = some c) :
    ∃ w, Latest ws w ∧ c = (w.replica.name, w.slot) := by
  obtain ⟨w, -, hLatest, rfl⟩ := h.source e he (hc ▸ some_ne_none c)
  exact ⟨w, hLatest, some.inj (hc.symm.trans (slotOf_slotKey base w.replica w.slot))⟩

/-- **Reading the slots is reading the register** of the writes received. -/
theorem read_register (h : Stores base kv ws) (hSep : Separates Write.key ws)
    (hCands : Candidates kv base cands) : liveValue cands = register ws := by
  have hWinner : winner cands = (ws.argmax Write.key).map fun w => (w.slot, w.replica.name) := by
    cases hMax : ws.argmax Write.key with
    | none =>
      -- nothing received, nothing stored
      rw [argmax_eq_none] at hMax
      subst hMax
      have hNil : cands = [] := eq_nil_iff_forall_not_mem.mpr fun c hc => by
        obtain ⟨e, he, hSlot⟩ := hCands.entry hc
        obtain ⟨w, hw, -⟩ := h.source e he (hSlot ▸ some_ne_none c)
        cases hw
      rw [hNil]
      rfl
    | some m =>
      obtain ⟨hMem, hTop⟩ := (argmax_eq_some_iff hSep).mp hMax
      have hLatest := latest_of_max hMem hTop
      refine (winner_eq_some_iff hCands.nodup).mpr ⟨?_, fun c hc hNe => ?_⟩
      · refine mem_candidates hCands (h.held m hMem hLatest) (slotOf_slotKey base _ _) ?_
        intro e he c hc hName
        obtain ⟨w, hLatest', rfl⟩ := h.slotOf he hc
        -- the two are latest writes of one replica
        have hReplica : w.replica = m.replica := Replica.ext hName
        have hStamp : w.slot.stamp = m.slot.stamp :=
          le_antisymm (hLatest.2 w hLatest'.1 hReplica) (hLatest'.2 m hMem hReplica.symm)
        have hKey : w.key = m.key := by rw [Write.key, Write.key, rank, rank, hStamp, hReplica]
        rw [hSep w hLatest'.1 m hMem hKey]
      · obtain ⟨e, he, hSlot⟩ := hCands.entry hc
        obtain ⟨w, hLatest', rfl⟩ := h.slotOf he hSlot
        refine lt_of_le_of_ne (hTop w hLatest'.1) fun hEq => hNe ?_
        exact (Prod.mk.inj (toLex.injective hEq)).2
  rw [liveValue, register, hWinner]
  cases ws.argmax Write.key <;> rfl

/-- The register depends on which writes there are, not on their order. -/
lemma register_congr (hSep : Separates Write.key ws) (hMem : ∀ w, w ∈ ws ↔ w ∈ ws') :
    register ws = register ws' := by
  rw [register, register, argmax_congr hSep hMem]

/-! ## In every run -/

/-- What a replica has received has been issued, and its datastore has the latest
of it. -/
structure Peer.Consistent (base : List Seg) (issued : List Write) (x : Peer) : Prop where
  received : ∀ w ∈ x.received, w ∈ issued
  stores : Stores base x.kv x.received

/-- Writes of one replica have different stamps, and every replica is consistent
with what has been issued. -/
structure Cluster.Consistent (base : List Seg) (s : Cluster) : Prop where
  distinct : Separates Write.key s.issued
  node : ∀ n, (s.node n).Consistent base s.issued

section

variable {base : List Seg} {s : Cluster}

/-- A write above all earlier ones of its replica takes the place of the slot. -/
lemma Stores.write {x : Peer} {n : Replica} {slot : Slot} (h : Stores base x.kv x.received)
    (hNew : ∀ w ∈ x.received, w.replica = n → w.slot.stamp < slot.stamp) :
    Stores base (x.kv.insert (slotKey base n) (encodeSlot slot)) (⟨n, slot⟩ :: x.received) := by
  have hSlot : ∀ w : Write, w.replica ≠ n → slotKey base w.replica ≠ slotKey base n :=
    fun w hNe hEq => hNe (slotKey_injective base hEq)
  constructor
  · intro w hw hLatest
    refine Dict.mem_pairs_insert.mpr ?_
    rcases mem_cons.mp hw with rfl | hOld
    · exact .inl rfl
    · -- an older write of the same replica is not the latest any more
      have hNe : w.replica ≠ n := fun hEq =>
        absurd (hNew w hOld hEq) (not_lt.mpr (hLatest.2 _ mem_cons_self hEq.symm))
      have hBefore : Latest x.received w :=
        ⟨hOld, fun w' hw' => hLatest.2 w' (mem_cons_of_mem _ hw')⟩
      exact .inr ⟨h.held w hOld hBefore, hSlot w hNe⟩
  · intro e he hSlot
    rcases Dict.mem_pairs_insert.mp he with rfl | ⟨hOld, hNe⟩
    · refine ⟨⟨n, slot⟩, mem_cons_self, ⟨mem_cons_self, fun w hw hReplica => ?_⟩, rfl⟩
      rcases mem_cons.mp hw with rfl | hw
      · exact le_refl _
      · exact le_of_lt (hNew w hw hReplica)
    · obtain ⟨w, hw, hLatest, rfl⟩ := h.source e hOld hSlot
      refine ⟨w, mem_cons_of_mem _ hw, ⟨mem_cons_of_mem _ hw, fun w' hw' hReplica => ?_⟩, rfl⟩
      rcases mem_cons.mp hw' with rfl | hw'
      · exact absurd (congrArg (slotKey base) hReplica.symm) hNe
      · exact hLatest.2 w' hw' hReplica

lemma Peer.Consistent.issue {x : Peer} (h : x.Consistent base issued) (w : Write) :
    x.Consistent base (w :: issued) :=
  ⟨fun w' hw' => mem_cons_of_mem _ (h.received w' hw'), h.stores⟩

lemma Peer.Consistent.write {x : Peer} {n : Replica} {slot : Slot}
    (h : x.Consistent base issued)
    (hNew : ∀ w ∈ issued, w.replica = n → w.slot.stamp < slot.stamp) :
    Peer.Consistent base (⟨n, slot⟩ :: issued)
      { received := ⟨n, slot⟩ :: x.received
        kv := x.kv.insert (slotKey base n) (encodeSlot slot) } where
  received w hw := by
    rcases mem_cons.mp hw with rfl | hw
    · exact mem_cons_self
    · exact mem_cons_of_mem _ (h.received w hw)
  stores := h.stores.write fun w hw => hNew w (h.received w hw)

lemma separates_cons (h : Separates Write.key issued)
    (hNew : ∀ w ∈ issued, w.replica = n → w.slot.stamp < slot.stamp) :
    Separates Write.key (⟨n, slot⟩ :: issued) := by
  have hFresh : ∀ w ∈ issued, w.key ≠ Write.key ⟨n, slot⟩ := by
    intro w hw hEq
    obtain ⟨hStamp, hName⟩ := Prod.mk.inj (toLex.injective hEq)
    exact absurd hStamp (ne_of_lt (hNew w hw (Replica.ext hName)))
  intro w hw w' hw' hEq
  rcases mem_cons.mp hw with rfl | hw <;> rcases mem_cons.mp hw' with rfl | hw'
  · rfl
  · exact absurd hEq.symm (hFresh w' hw')
  · exact absurd hEq (hFresh w hw)
  · exact h w hw w' hw' hEq

/-- **Every step keeps the cluster consistent.** -/
theorem Cluster.Consistent.step {s' : Cluster} (h : s.Consistent base)
    (hStep : s.step base l = some s') : s'.Consistent base := by
  obtain ⟨n, deed⟩ := l
  cases deed with
  | write slot =>
    simp only [Cluster.step] at hStep
    split at hStep
    · next hNew =>
      obtain rfl := some.inj hStep
      refine ⟨separates_cons h.distinct hNew, ?_⟩
      refine (forall_update_iff s.node
        (p := fun _ x => x.Consistent base (⟨n, slot⟩ :: s.issued))).mpr ⟨?_, fun m _ => ?_⟩
      · exact (h.node n).write hNew
      · exact (h.node m).issue _
    · cases hStep
  | deliver batch kv =>
    simp only [Cluster.step] at hStep
    split at hStep
    · next hBatch =>
      obtain rfl := some.inj hStep
      refine ⟨h.distinct, ?_⟩
      refine (forall_update_iff s.node
        (p := fun _ x => x.Consistent base s.issued)).mpr ⟨?_, fun m _ => h.node m⟩
      exact ⟨fun w hw => (mem_append.mp hw).elim (hBatch.1 w) ((h.node n).received w), hBatch.2⟩
    · cases hStep

lemma consistent_of_reach (h : Reach (Cluster.step base) Anything {} s) : s.Consistent base := by
  refine h.induct (I := Cluster.Consistent base) ⟨?_, fun n => ⟨?_, ?_, ?_⟩⟩ ?_
  · exact fun _ hw => absurd hw not_mem_nil
  · exact fun _ hw => absurd hw not_mem_nil
  · exact fun _ hw => absurd hw not_mem_nil
  · exact fun _ he => absurd he not_mem_nil
  · exact fun _ hInv _ hStep => hInv.step hStep

/-- **Registers converge.** -/
theorem registers_converge (h : Reach (Cluster.step base) Anything {} s) : Converges base s := by
  have hInv := consistent_of_reach h
  have hSep : ∀ n, Separates Write.key (s.node n).received :=
    fun n => hInv.distinct.mono (hInv.node n).received
  constructor
  · intro n m hSame cands cands' hCands hCands'
    calc liveValue cands
        = register (s.node n).received := read_register (hInv.node n).stores (hSep n) hCands
      _ = register (s.node m).received := register_congr (hSep n) hSame
      _ = liveValue cands' := (read_register (hInv.node m).stores (hSep m) hCands').symm
  · intro n hAll cands hCands
    rw [read_register (hInv.node n).stores (hSep n) hCands]
    exact register_congr (hSep n) fun w => ⟨(hInv.node n).received w, hAll w⟩

end

/-! ## Two replicas -/

private def east : Replica := .named 101

private def west : Replica := .named 119

private def greeting : List Seg := strBase 0 [107]

private def eastSlot : Slot := ⟨⟨5, 0⟩, tagPresent, [1]⟩

private def westSlot : Slot := ⟨⟨5, 0⟩, tagPresent, [2]⟩

private def bothSlots : Kv :=
  .ofPairs [(slotKey greeting east, encodeSlot eastSlot), (slotKey greeting west, encodeSlot westSlot)]

/-- Two writes with one stamp, delivered both ways: both replicas read the one
of the greater name. -/
theorem crossing_writes_converge :
    ∃ s, Reach (Cluster.step greeting) Anything {} s ∧ (s.node east).received.length = 2 ∧
    (s.node west).received.length = 2 ∧ register s.issued = some [2] ∧ Converges greeting s := by
  obtain ⟨s, hReach, hEast, hWest, hRegister⟩ : ∃ s, Reach (Cluster.step greeting) Anything {} s ∧
      (s.node east).received.length = 2 ∧ (s.node west).received.length = 2 ∧
      register s.issued = some [2] :=
    Reach.of_eval [(east, .write eastSlot), (west, .write westSlot), (east, .deliver [⟨west, westSlot⟩] bothSlots),
      (west, .deliver [⟨east, eastSlot⟩] bothSlots)] (by decide)
  exact ⟨s, hReach, hEast, hWest, hRegister, registers_converge hReach⟩

end RedGeo.Store
