import RedGeo.Repo.Deliveries

/-!
# RedGeo — stream IDs only grow

`nextStreamID` counts up the upper 48 bits of the sequence number and keeps the lower
ones for the discriminator of the replica. The counter wraps around, and an explicit ID
can bring it to its end at once.

* `grows_iff` — the ID is above the last one, unless the counter wraps around.
* `stream_ids_grow` — what that means for `XADD`s one after the other, each a plain command.
  An `XADD` in an open transaction takes its ID from the overlay and stores at the commit.
-/

namespace RedGeo.Repo

open Lib Store List StreamID

/-! ## One ID -/

section

variable (now : UInt64) (last : StreamID)

/-- The counter is counted up. -/
def Bumps : IDMode → Prop
  | .auto => ¬ last.ms < now
  | .autoSeq ms => ms = last.ms
  | .explicit _ => False

/-- The counter is counted up and at its end. -/
def Exhausted (mode : IDMode) : Prop :=
  Bumps now last mode ∧ last.counter + 1 = 2 ^ 48

/-- An ID that is made is above the last one, and not `0-0`. -/
def Grows (mode : IDMode) (disc : UInt64) : Prop :=
  ∀ id, nextStreamID now last mode disc = .ok id → last.lt id = true ∧ id ≠ ⟨0, 0⟩

end

section

variable {now disc : UInt64} {last id : StreamID} {mode : IDMode}

lemma grows_ok (h : nextStreamID now last mode disc = .ok id) :
    Grows now last mode disc ↔ last.toNat < id.toNat := by
  refine ⟨fun hGrows => lt_iff.mp (hGrows id h).1, fun hLt id' h' => ?_⟩
  obtain rfl : id = id' := Except.ok.inj (h.symm.trans h')
  refine ⟨lt_iff.mpr hLt, ?_⟩
  rintro rfl
  exact absurd hLt (Nat.not_lt_zero _)

lemma grows_error (h : nextStreamID now last mode disc = .error e) : Grows now last mode disc := by
  intro id hId
  cases h.symm.trans hId

/-- **One ID**, for every last one, reading of the clock, mode and requested ID. -/
theorem grows_iff (hDisc : disc.toNat < 2 ^ 16) : Grows now last mode disc ↔ ¬ Exhausted now last mode := by
  cases mode with
  | auto =>
    by_cases hLater : last.ms < now
    · have hNext : nextStreamID now last .auto disc = .ok ⟨now, disc⟩ := congrArg Except.ok (if_pos hLater)
      simp [grows_ok hNext, Exhausted, Bumps, hLater, toNat_lt_of_ms]
    · have hNext : nextStreamID now last .auto disc = .ok _ := congrArg Except.ok (if_neg hLater)
      simp [grows_ok hNext, lt_bump_iff hDisc, Exhausted, Bumps, hLater]
  | autoSeq ms =>
    by_cases hLater : last.ms < ms
    · have hNext : nextStreamID now last (.autoSeq ms) disc = .ok _ := if_pos hLater
      simp [grows_ok hNext, Exhausted, Bumps, (UInt64.ne_of_lt hLater).symm, toNat_lt_of_ms hLater]
    · by_cases hEq : ms = last.ms
      · have hNext : nextStreamID now last (.autoSeq ms) disc = .ok _ := (if_neg hLater).trans (if_pos hEq)
        rw [grows_ok hNext, lt_bump_iff hDisc]
        simp [Exhausted, Bumps, hEq]
      · exact iff_of_true (grows_error ((if_neg hLater).trans (if_neg hEq))) fun h => hEq h.1
  | explicit id =>
    refine iff_of_true ?_ And.left
    by_cases hZero : id = ⟨0, 0⟩
    · exact grows_error (if_pos hZero)
    · by_cases hLt : last.lt id = true
      · have hNext : nextStreamID now last (.explicit id) disc = .ok id := (if_neg hZero).trans (if_pos hLt)
        exact (grows_ok hNext).mpr (lt_iff.mp hLt)
      · exact grows_error ((if_neg hZero).trans (if_neg hLt))

end

/-! ## One after the other -/

variable {id : StreamID}

/-- What a slot is of, whether the key has a name or not. -/
lemma id_of_entrySlot
    (h : entrySlot (streamBase db key) (entryKey db key id o) = some (id', name)) : id = id' := by
  by_cases hKey : key = []
  · simp [hKey, entryKey, slotKey, streamEntryBase, streamBase, dataBase, newKey, Store.part, entrySlot, trimPrefix,
      o.nonempty] at h
  · rw [entrySlot_entryKey hKey] at h
    exact congrArg Prod.fst (Option.some.inj h)

lemma id_of_entryKey (h : entryKey db key id o = entryKey db key id' o') : id = id' := by
  have hBoth : (id.ms = id'.ms ∧ id.seq = id'.seq) ∧ o.name = o'.name := by
    simpa [entryKey, slotKey, streamEntryBase, newKey, Store.part, o.nonempty, o'.nonempty] using h
  cases id
  cases id'
  exact congrArg₂ _ hBoth.1.1 hBoth.1.2

variable (r : Db) (key : Bytes)

/-- The highest ID that the node knows of. -/
def lastAt (data : Datastore) : StreamID :=
  (lastIn (streamLastBase r.num key) r.self.name (data.entries (streamLastBase r.num key))).1

/-- Every entry that is stored is of an ID up to `top`. -/
def UpTo (top : StreamID) (data : Datastore) : Prop :=
  ∀ k, Under (streamBase r.num key) k → data[k]? ≠ none →
    ∃ id o, k = entryKey r.num key id o ∧ id.toNat ≤ top.toNat

/-- What is stored of a stream: entries up to an ID, if that was so at the start, and the own last ID. -/
structure Filled (P : Prop) (top : StreamID) (own : Option Bytes) (data : Datastore) : Prop where
  upTo : P → UpTo r key top data
  own : data[lastKey r.num key r.self]? = own

variable {r key} {P : Prop} {top : StreamID} {own : Option Bytes} {w : World}

lemma UpTo.mono (h : UpTo r key top data) (hLe : top.toNat ≤ id.toNat) : UpTo r key id data := by
  intro k hUnder hSome
  obtain ⟨id', o, hEq, hId⟩ := h k hUnder hSome
  exact ⟨id', o, hEq, hId.trans hLe⟩

namespace Filled

/-- Something else is stored than a last ID. -/
lemma insert (h : Filled r key P top own data) (hLast : lastKey r.num key r.self ≠ k)
    (hEntry : P → Under (streamBase r.num key) k → ∃ id o, k = entryKey r.num key id o ∧ id.toNat ≤ top.toNat)
    (v : Bytes) : Filled r key P top own (data.insert k v) where
  upTo hP k' hUnder hSome := by
    rw [Table.lookup_insert] at hSome
    split at hSome
    · next hEq =>
      subst hEq
      exact hEntry hP hUnder
    · exact h.upTo hP k' hUnder hSome
  own := (Table.lookup_insert ..).trans ((if_neg hLast.symm).trans h.own)

lemma entry (h : Filled r key P top own w.data) (hId : P → id.toNat ≤ top.toNat) (tag : UInt8) (v : Bytes) :
    Filled r key P top own (w.putSlot r.self (streamEntryBase r.num key id.ms id.seq) tag v).data :=
  h.insert (lastKey_ne_entryKey _ _ id) (fun hP _ => ⟨id, r.self, rfl, hId hP⟩) _

lemma mark (h : Filled r key P top own w.data) (tag : UInt8) (v : Bytes) :
    Filled r key P top own (w.putSlot r.self (metaBase r.num key) tag v).data :=
  h.insert (lastKey_ne_metaSlot _ _) (fun _ hUnder => absurd hUnder (not_entry_meta r.self)) _

lemma last (h : Filled r key P top own w.data) (id : StreamID) : Filled r key P top (some (encodeID id))
    { w with data := w.data.insert (lastKey r.num key r.self) (encodeID id) }.data where
  upTo hP k hUnder hSome := by
    rw [Table.lookup_insert, if_neg] at hSome
    · exact h.upTo hP k hUnder hSome
    · rintro rfl
      exact not_entry_last r.self hUnder
  own := (Table.lookup_insert ..).trans (if_pos rfl)

lemma tombstones {old : List StreamEntry} (h : Filled r key P top own w.data)
    (hIds : P → ∀ e ∈ old, e.id.toNat ≤ top.toNat) : Filled r key P top own (old.foldl (fun w e =>
      w.putSlot r.self (streamEntryBase r.num key e.id.ms e.id.seq) tagDeleted []) w).data := by
  induction old generalizing w with
  | nil => exact h
  | cons e old ih =>
    exact ih (h.entry (fun hP => hIds hP e mem_cons_self) _ _) fun hP e' he' => hIds hP e' (mem_cons_of_mem e he')

/-- What is trimmed are entries of before. -/
lemma trim (h : Filled r key P top own w.data) (t : StreamTrim) :
    ∃ n w', KeyM.exec r key (trimLocked r key t) w = (.ok n, w') ∧ Filled r key P top own w'.data := by
  have hLive : (streamLive r key).exec w =
      (.ok (liveEntries (streamBase r.num key) (w.data.entries (streamBase r.num key))), w) := exec_load _ _ _
  rw [trimLocked, KeyM.exec_read hLive]
  set es := liveEntries (streamBase r.num key) (w.data.entries (streamBase r.num key))
  have hIds : P → ∀ e ∈ es.take (t.cut es), e.id.toNat ≤ top.toNat := by
    intro hP e he
    obtain ⟨p, hp, name, hSlot⟩ := id_of_liveEntries (mem_of_mem_take he)
    obtain ⟨hStored, hUnder⟩ := Datastore.mem_entries.mp hp
    obtain ⟨id, o, hEq, hLe⟩ := h.upTo hP p.1 hUnder (by simp [hStored])
    rw [hEq] at hSlot
    exact id_of_entrySlot hSlot ▸ hLe
  exact ⟨_, _, KeyM.exec_bind (KeyM.exec_forM (fun _ _ _ => rfl) w) _, h.tombstones hIds⟩

/-- The own last ID is not above the highest. -/
lemma le_lastAt (h : Filled r key P top (some (encodeID id)) data) : id.toNat ≤ (lastAt r key data).toNat :=
  have he : (lastKey r.num key r.self, encodeID id) ∈ data.entries (streamLastBase r.num key) :=
    Datastore.mem_entries.mpr ⟨h.own, under_slotKey _ r.self⟩
  le_lastIn he (decodeID_encodeID id)

end Filled

/-- The last ID of a replica is not above the highest. -/
lemma own_le_lastIn (base : List Seg) (name : Bytes) (es : List (Path × Bytes)) :
    (lastIn base name es).2.toNat ≤ (lastIn base name es).1.toNat := by
  induction es using List.reverseRecOn with
  | nil => exact Nat.le_refl _
  | append_singleton es e ih =>
    rw [lastIn_concat]
    split
    · exact ih
    · simp only
      split
      · exact le_later_right _ _
      · exact ih.trans (le_later_left _ _)

structure Xadd where
  opts : StreamAddOpts
  fields : List Bytes

variable (r key) in
/-- An `XADD` on a node, with the IDs returned so far, the latest first. -/
def xadd (s : World × List StreamID) (c : Xadd) : Option (World × List StreamID) :=
  let out := exec (r.locked key (streamAdd r key c.opts c.fields)) s.1
  some (out.2, out.1.toOption.join.toList ++ s.2)

variable (r key) in
/-- The counter is not at its end when it is counted up. -/
def HasRoom (s : World × List StreamID) (c : Xadd) : Prop :=
  ¬ Exhausted ((s.1.probed r key).now 0).toUInt64 (lastAt r key s.1.data) c.opts.mode

/-- An `XADD` that returns no ID leaves the stream, and one that returns an ID has it for the last. -/
lemma exec_streamAdd (h : Filled r key P (lastAt r key w.data) own w.data)
    (hRoom : HasRoom r key (w, ids) c) : ∃ out w',
      KeyM.exec r key (streamAdd r key c.opts c.fields) w = (out, w') ∧
      (w'.data = w.data ∧ out.toOption.join = none ∨ ∃ id, out = .ok (some id) ∧
        (lastAt r key w.data).lt id = true ∧ Filled r key P id (some (encodeID id)) w'.data) := by
  have hData := World.data_probed r key w
  obtain ⟨out, hStream⟩ : ∃ out, (ensureStream r key).exec w = (out, w.probed r key) :=
    exec_ensureStream_cases r.num key r.self w
  have hLast : (streamLast r key).exec (w.probed r key) = (.ok (lastIn (streamLastBase r.num key) r.self.name
      ((w.probed r key).data.entries (streamLastBase r.num key))), w.probed r key) := exec_load _ _ _
  have hNow : nowMS.exec (w.probed r key) = (.ok ((w.probed r key).now 0), (w.probed r key).later) := rfl
  rw [streamAdd]
  rcases out with e | found
  · exact ⟨_, _, KeyM.exec_bind_error ((exec_keyed r key _ w).trans hStream) _, .inl ⟨hData, rfl⟩⟩
  rw [KeyM.exec_read hStream]
  split
  · exact ⟨_, _, rfl, .inl ⟨hData, rfl⟩⟩
  rw [KeyM.exec_read hLast, KeyM.exec_read hNow, hData]
  split
  · exact ⟨_, _, rfl, .inl ⟨hData, rfl⟩⟩
  next id hNext =>
  have hLt : (lastAt r key w.data).lt id = true := (((grows_iff (discriminator_lt _)).mpr hRoom) id hNext).1
  have hTop := lt_iff.mp hLt
  have hOwn := lt_iff.mpr ((own_le_lastIn ..).trans_lt hTop)
  have hLater : Filled r key P id own (w.probed r key).later.data :=
    ⟨fun hP k hk hSome => (h.upTo hP).mono hTop.le k hk (hData ▸ hSome), (congrArg (·[_]?) hData).trans h.own⟩
  have hBumped := (hLater.entry (fun _ => Nat.le_refl _) tagPresent (encodeFields c.fields)).last id
  -- only a new stream is given metadata
  obtain ⟨w₃, hMarked, hRest⟩ : ∃ w₃ : World, Filled r key P id (some (encodeID id)) w₃.data ∧
      ∀ rest : KeyM .stream (Option StreamID), KeyM.exec r key (if found.isNone then do
        writeMeta .stream 0; rest else rest) _ = rest.exec r key w₃ := by
    by_cases hFound : found.isNone = true
    · refine ⟨_, hBumped.mark tagPresent (encodeMeta (Kind.stream.envelope 0)), fun rest => ?_⟩
      rw [if_pos hFound]
      rfl
    · exact ⟨_, hBumped, fun rest => by rw [if_neg hFound]⟩
  rw [if_pos hOwn]
  cases hTrim : c.opts.trim with
  | none => exact ⟨_, _, hRest _, .inr ⟨id, rfl, hLt, hMarked⟩⟩
  | some t =>
    obtain ⟨n, w', hRun, hFilled⟩ := hMarked.trim t
    exact ⟨_, _, (hRest _).trans (KeyM.exec_bind hRun _), .inr ⟨id, rfl, hLt, hFilled⟩⟩

/-- What holds after `XADD`s. -/
structure Increasing (r : Db) (key : Bytes) (P : Prop) (data : Datastore) (ids : List StreamID) : Prop where
  upTo : P → UpTo r key (lastAt r key data) data
  below : ∀ x ∈ ids, x.toNat ≤ (lastAt r key data).toNat
  sorted : ids.Pairwise fun a b => b.lt a = true

lemma Increasing.step (h : Increasing r key P s.1.data s.2) (hRoom : HasRoom r key s c)
    (hs : xadd r key s c = some s') : Increasing r key P s'.1.data s'.2 ∧
      ∀ id o, P → s'.2 = id :: s.2 → s.1.data[entryKey r.num key id o]? = none := by
  obtain ⟨w, ids⟩ := s
  obtain ⟨out, w', hRun, hCases⟩ := exec_streamAdd ⟨h.upTo, rfl⟩ hRoom
  rw [xadd, exec_locked, hRun] at hs
  obtain rfl := Option.some.inj hs
  obtain ⟨hData, hNone⟩ | ⟨id, rfl, hLt, hFilled⟩ := hCases
  · simp only [hData, hNone]
    exact ⟨h, fun id o _ hEq => absurd hEq (by simp)⟩
  · have hTop := lt_iff.mp hLt
    have hLe := hFilled.le_lastAt
    refine ⟨⟨fun hP => (hFilled.upTo hP).mono hLe, ?_, ?_⟩, ?_⟩
    · intro x hx
      obtain rfl | hx := mem_cons.mp hx
      · exact hLe
      · exact (h.below x hx).trans (hTop.le.trans hLe)
    · exact pairwise_cons.mpr ⟨fun x hx => lt_iff.mpr ((h.below x hx).trans_lt hTop), h.sorted⟩
    · intro id' o hP hEq
      obtain ⟨rfl, -⟩ : id = id' ∧ _ := cons.inj hEq
      by_contra hSome
      obtain ⟨id', o', hKey, hId⟩ := h.upTo hP _ (under_entryKey id o) hSome
      obtain rfl := id_of_entryKey hKey
      omega

/-- **Stream IDs only grow**, unless the counter wraps around: the ID that is made is above
the last one and not `0-0` exactly if the counter has room, and in a run of `XADD`s on a node
that all have room the IDs grow, and none is of an entry that is stored, unless there were
entries above the last ID at the start. -/
theorem stream_ids_grow (now disc : UInt64) (last : StreamID) (mode : IDMode) (hDisc : disc.toNat < 2 ^ 16) :
    (Grows now last mode disc ↔ ¬ Exhausted now last mode) ∧
    ∀ r key w s, Reach (xadd r key) (HasRoom r key) (w, []) s → s.2.Pairwise (fun a b => b.lt a = true) ∧
      ∀ c s', HasRoom r key s c → xadd r key s c = some s' → ∀ id o, UpTo r key (lastAt r key w.data) w.data →
        s'.2 = id :: s.2 → s.1.data[entryKey r.num key id o]? = none := by
  refine ⟨grows_iff hDisc, fun r key w s hReach => ?_⟩
  let start := UpTo r key (lastAt r key w.data) w.data
  have hNone : Increasing r key start w.data [] := ⟨id, fun x hx => absurd hx not_mem_nil, .nil⟩
  have hAll : Increasing r key start s.1.data s.2 := by
    refine Reach.induct (I := fun s => Increasing r key start s.1.data s.2) hNone ?_ hReach
    intro s s' c _ h hRoom hs
    exact (Increasing.step h hRoom hs).1
  exact ⟨hAll.sorted, fun c s' hRoom hs => (hAll.step hRoom hs).2⟩

private def author : Db := ⟨.named 101, 0⟩

private def bare : World := .fresh

private def note : Xadd := ⟨⟨false, .auto, none⟩, [[102], [118]]⟩

/-- After the first `XADD`. -/
private def noted : World × List StreamID := (xadd author [107] (bare, []) note).getD (bare, [])

/-- Two `XADD`s at the same millisecond: the second counts up, and stores where nothing is. -/
theorem stream_ids_grow_twice : Grows 9 ⟨9, 0⟩ .auto 3 ∧ ∃ a b s, xadd author [107] noted note = some s ∧
    s.2 = [b, a] ∧ a.ms = b.ms ∧ s.2.Pairwise (fun a b => b.lt a = true) ∧
    noted.1.data[entryKey 0 [107] b author.self]? = none := by
  have hUpTo : UpTo author [107] (lastAt author [107] bare.data) bare.data := fun k _ hSome =>
    absurd Std.ExtTreeMap.getElem?_empty hSome
  have hFirst : HasRoom author [107] (bare, []) note := fun h => h.1 (by decide)
  have hSecond : HasRoom author [107] noted note := fun h => absurd h.2 (by decide +kernel)
  have hOnce : Reach (xadd author [107]) (HasRoom author [107]) (bare, []) noted := .next .init hFirst rfl
  obtain ⟨hOne, hRun⟩ := stream_ids_grow 9 3 ⟨9, 0⟩ .auto (by decide)
  refine ⟨hOne.mpr fun h => absurd h.2 (by decide), _, _, _, rfl, rfl, by decide +kernel, ?_, ?_⟩
  · exact (hRun author [107] bare _ (hOnce.next hSecond rfl)).1
  · exact (hRun author [107] bare _ hOnce).2 note _ hSecond rfl _ author.self hUpTo rfl

/-- After `XADD k 5-18446744073709551615`, `XADD k 5-*` is given an ID of before. -/
theorem counter_wraps : ∃ now last mode, ∃ disc : UInt64, disc.toNat < 2 ^ 16 ∧ ∃ id,
    nextStreamID now last mode disc = .ok id ∧ id.lt last = true :=
  ⟨5, ⟨5, 18446744073709551615⟩, .autoSeq 5, 7, by decide, ⟨5, 7⟩, by decide, by decide⟩

end RedGeo.Repo
