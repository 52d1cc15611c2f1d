import RedGeo.Repo.Opening
import RedGeo.Repo.Streams

/-!
# RedGeo — stream IDs and entries

What `nextStreamID` makes of the clock and of the highest ID that is known, and what
`streamLast` and `streamLive` make of the entries that are stored.

* `autoID_low`, `lt_autoID` — the ID of an `XADD *` ends in the discriminator of the
  replica, and it is above the highest known one while the counter has room.
* `decodeFields_encodeFields` — the fields of an entry are read as they were written.
* `Filed.exists_slot`, `Filed.exists_live` — the entries that are live.
-/

namespace RedGeo.Repo

open Lib Store List Option

variable {a b id : StreamID} {e : Path × Bytes}

/-! ## The order of IDs -/

namespace StreamID

/-- An ID as a number of 128 bits. -/
def toNat (id : StreamID) : Nat := id.ms.toNat * 2 ^ 64 + id.seq.toNat

lemma toNat_inj (h : a.toNat = b.toNat) : a = b := by
  unfold toNat at h
  have hA := a.seq.toNat_lt
  have hB := b.seq.toNat_lt
  have hMs : a.ms.toNat = b.ms.toNat := by omega
  have hSeq : a.seq.toNat = b.seq.toNat := by omega
  cases a
  cases b
  simp only [mk.injEq]
  exact ⟨UInt64.toNat_inj.mp hMs, UInt64.toNat_inj.mp hSeq⟩

lemma lt_iff : a.lt b = true ↔ a.toNat < b.toNat := by
  have hA := a.seq.toNat_lt
  have hB := b.seq.toNat_lt
  unfold lt toNat
  split
  · next hNe =>
    rw [decide_eq_true_iff, UInt64.lt_iff_toNat_lt]
    have hMs : a.ms.toNat ≠ b.ms.toNat := fun hEq => hNe (UInt64.toNat_inj.mp hEq)
    omega
  · next hEq =>
    rw [not_not] at hEq
    rw [hEq, decide_eq_true_iff, UInt64.lt_iff_toNat_lt]
    omega

lemma not_lt_iff : ¬ a.lt b = true ↔ b.toNat ≤ a.toNat := by
  rw [lt_iff, Nat.not_lt]

variable (a b : StreamID)

/-- The higher one of two. -/
def later : StreamID := if a.lt b then b else a

lemma later_cases : a.later b = a ∨ a.later b = b := by
  unfold later
  split
  · exact .inr rfl
  · exact .inl rfl

lemma le_later_left : a.toNat ≤ (a.later b).toNat := by
  unfold later
  split
  · next hLt => exact (lt_iff.mp hLt).le
  · exact Nat.le_refl a.toNat

lemma le_later_right : b.toNat ≤ (a.later b).toNat := by
  unfold later
  split
  · exact Nat.le_refl b.toNat
  · next hNot => exact not_lt_iff.mp hNot

/-- The counter in the sequence number, above the discriminator. -/
def counter (id : StreamID) : Nat := id.seq.toNat / 2 ^ 16

end StreamID

/-! ## Minting -/

/-- What `nextStreamID` makes for `XADD *`. -/
def autoID (now : UInt64) (last : StreamID) (disc : UInt64) : StreamID :=
  if last.ms < now then ⟨now, disc⟩ else ⟨last.ms, (((last.seq >>> 16) + 1) <<< 16) ||| disc⟩

lemma discriminator_lt (replica : Bytes) : (discriminator replica).toNat < 2 ^ 16 := by
  unfold discriminator
  rw [UInt32.toNat_toUInt64, UInt32.toNat_and]
  exact Nat.and_lt_two_pow _ (by decide)

/-- A later time is a higher ID. -/
lemma toNat_lt_of_ms {last : StreamID} (h : last.ms < ms) (seq : UInt64) :
    last.toNat < StreamID.toNat ⟨ms, seq⟩ := by
  have hSeq := last.seq.toNat_lt
  rw [UInt64.lt_iff_toNat_lt] at h
  show last.ms.toNat * 2 ^ 64 + last.seq.toNat < ms.toNat * 2 ^ 64 + seq.toNat
  omega

section

variable {disc : UInt64}

variable (hDisc : disc.toNat < 2 ^ 16)

include hDisc

/-- The counter goes up by one, modulo 2^48, and the discriminator is below it. -/
lemma toNat_bump (seq : UInt64) : ((((seq >>> 16) + 1) <<< 16) ||| disc).toNat =
    (seq.toNat / 2 ^ 16 + 1) % 2 ^ 48 * 2 ^ 16 + disc.toNat := by
  have hShift : ((seq >>> 16) + 1).toNat = seq.toNat / 2 ^ 16 + 1 := by
    have hLt := seq.toNat_lt
    rw [UInt64.toNat_add, UInt64.toNat_shiftRight, Nat.shiftRight_eq_div_pow]
    show (seq.toNat / 2 ^ 16 + 1) % 2 ^ 64 = _
    omega
  have hUp : (((seq >>> 16) + 1) <<< 16).toNat = 2 ^ 16 * ((seq.toNat / 2 ^ 16 + 1) % 2 ^ 48) := by
    rw [UInt64.toNat_shiftLeft, hShift, Nat.shiftLeft_eq]
    show (seq.toNat / 2 ^ 16 + 1) * 2 ^ 16 % 2 ^ 64 = _
    omega
  rw [UInt64.toNat_or, hUp, ← Nat.two_pow_add_eq_or_of_lt hDisc]
  omega

/-- The ID ends in the discriminator. -/
lemma autoID_low : (autoID now last disc).seq.toNat % 2 ^ 16 = disc.toNat := by
  unfold autoID
  split
  · exact Nat.mod_eq_of_lt hDisc
  · show ((((last.seq >>> 16) + 1) <<< 16) ||| disc).toNat % 2 ^ 16 = _
    rw [toNat_bump hDisc]
    omega

/-- The counter goes up by one at most. -/
lemma counter_autoID : (autoID now last disc).counter ≤ last.counter + 1 := by
  unfold autoID StreamID.counter
  split
  · show disc.toNat / 2 ^ 16 ≤ _
    omega
  · show ((((last.seq >>> 16) + 1) <<< 16) ||| disc).toNat / 2 ^ 16 ≤ _
    rw [toNat_bump hDisc]
    omega

/-- The ID is above the last one, unless the counter wraps around. -/
lemma lt_bump_iff {last : StreamID} :
    last.toNat < StreamID.toNat ⟨last.ms, (((last.seq >>> 16) + 1) <<< 16) ||| disc⟩ ↔ ¬ last.counter + 1 = 2 ^ 48 := by
  have hSeq := last.seq.toNat_lt
  rw [StreamID.counter]
  show last.ms.toNat * 2 ^ 64 + last.seq.toNat < last.ms.toNat * 2 ^ 64 + _ ↔ _
  rw [toNat_bump hDisc]
  omega

/-- The ID is above the highest that is known, while the counter has room. -/
lemma lt_autoID (hRoom : last.counter + 1 < 2 ^ 48) : last.toNat < (autoID now last disc).toNat := by
  unfold autoID
  split
  · next hLater => exact toNat_lt_of_ms hLater disc
  · exact (lt_bump_iff hDisc).mpr hRoom.ne

end

/-! ## Encodings -/

@[simp] lemma length_encodeID (id : StreamID) : (encodeID id).length = 16 := by
  rw [encodeID, length_append, length_toBe, length_toBe]

lemma decodeID_encodeID (id : StreamID) : decodeID (encodeID id) = some id := by
  rw [decodeID, if_pos (length_encodeID id), encodeID]
  have hMs : id.ms.toNat < 256 ^ 8 := id.ms.toNat_lt
  have hSeq : id.seq.toNat < 256 ^ 8 := id.seq.toNat_lt
  rw [take_left' (length_toBe 8 _), drop_left' (length_toBe 8 _), ofBe_toBe_of_lt hMs,
    ofBe_toBe_of_lt hSeq, UInt64.ofNat_toNat, UInt64.ofNat_toNat]

lemma encodeID_inj (h : encodeID a = encodeID b) : a = b := by
  have hDecode := congrArg decodeID h
  rw [decodeID_encodeID, decodeID_encodeID] at hDecode
  exact some.inj hDecode

/-- The fields of an entry: a slice of slices, with the lengths that slices have. -/
structure Fields where
  list : List Bytes
  count : list.length < 2 ^ 63
  lengths : ∀ b ∈ list, b.length < 2 ^ 63
  deriving DecidableEq

lemma decodeFieldList_encode (hLengths : ∀ b ∈ f, b.length < 2 ^ 63) :
    decodeFieldList f.length (f.flatMap fun b => appendUvarint (UInt64.ofNat b.length) ++ b) = some f := by
  induction f with
  | nil => rfl
  | cons b f ih =>
    have hLt : b.length < 2 ^ 63 := hLengths b mem_cons_self
    have hLen : (UInt64.ofNat b.length).toNat = b.length := by
      rw [UInt64.toNat_ofNat', Nat.mod_eq_of_lt (by omega)]
    have hRest := ih fun b' hb' => hLengths b' (mem_cons_of_mem b hb')
    rw [length_cons, flatMap_cons, append_assoc, decodeFieldList, uvarint_appendUvarint]
    simp only [hLen]
    rw [if_neg (by rw [length_append]; omega), drop_left, take_left, hRest]
    rfl

/-- A field takes a byte at least. -/
lemma length_le_encode (f : List Bytes) :
    f.length ≤ (f.flatMap fun b => appendUvarint (UInt64.ofNat b.length) ++ b).length := by
  have hOne : ∀ m : UInt64, 1 ≤ (appendUvarint m).length := by
    intro m
    rw [appendUvarint, uvarintBytes]
    split
    · exact Nat.le_refl 1
    · rw [length_cons]
      omega
  induction f with
  | nil => exact Nat.le_refl 0
  | cons b f ih =>
    have hHead := hOne (UInt64.ofNat b.length)
    rw [flatMap_cons, length_append, length_append, length_cons]
    omega

/-- **Fields are read as they were written.** -/
theorem decodeFields_encodeFields (f : Fields) : decodeFields (encodeFields f.list) = some f.list := by
  have hLt := f.count
  have hLen : (UInt64.ofNat f.list.length).toNat = f.list.length := by
    rw [UInt64.toNat_ofNat', Nat.mod_eq_of_lt (by omega)]
  have hFits := length_le_encode f.list
  rw [decodeFields, encodeFields, uvarint_appendUvarint]
  simp only [hLen]
  rw [if_neg (by rw [length_append]; omega)]
  exact decodeFieldList_encode f.lengths

/-! ## The last IDs -/

/-- What `streamLast` makes of the entries: the highest ID, and the one of a replica. -/
def lastIn (base : List Seg) (name : Bytes) (entries : List (Path × Bytes)) : StreamID × StreamID :=
  entries.foldl (fun acc e =>
    match decodeID e.2 with
    | none => acc
    | some id => (acc.1.later id, if trimPrefix base e.1 = [.enc name] then id else acc.2))
    (⟨0, 0⟩, ⟨0, 0⟩)

lemma lastIn_concat (e : Path × Bytes) : lastIn base name (entries ++ [e]) = match decodeID e.2 with
    | none => lastIn base name entries
    | some id => ((lastIn base name entries).1.later id,
        if trimPrefix base e.1 = [.enc name] then id else (lastIn base name entries).2) := by
  rw [lastIn, foldl_append]
  rfl

/-- No entry has a higher ID. -/
lemma le_lastIn (he : e ∈ entries) (hId : decodeID e.2 = some id) :
    id.toNat ≤ (lastIn base name entries).1.toNat := by
  -- along the entries, from the first to the last
  induction entries using List.reverseRecOn with
  | nil => cases he
  | append_singleton entries e' ih =>
    rw [lastIn_concat]
    rcases mem_append.mp he with hOld | hNew
    · have hLe := ih hOld
      split
      · exact hLe
      · exact hLe.trans (StreamID.le_later_left _ _)
    · obtain rfl := mem_singleton.mp hNew
      simp only [hId]
      exact StreamID.le_later_right _ _

/-- The highest ID is that of an entry, if there is one. -/
lemma lastIn_mem : (lastIn base name entries).1 = ⟨0, 0⟩ ∨
    ∃ e ∈ entries, decodeID e.2 = some (lastIn base name entries).1 := by
  induction entries using List.reverseRecOn with
  | nil => exact .inl rfl
  | append_singleton entries e ih =>
    have hOld : (lastIn base name entries).1 = ⟨0, 0⟩ ∨
        ∃ e' ∈ entries ++ [e], decodeID e'.2 = some (lastIn base name entries).1 :=
      ih.imp_right fun ⟨e', he', hId⟩ => ⟨e', mem_append_left _ he', hId⟩
    rw [lastIn_concat]
    split
    · exact hOld
    · next id hId =>
      obtain hEq | hEq := (lastIn base name entries).1.later_cases id
      · simp only [hEq]
        exact hOld
      · simp only [hEq]
        exact .inr ⟨e, mem_append_right _ mem_cons_self, hId⟩

/-- The ID of the replica, if one entry is its own. -/
lemma lastIn_own (he : e ∈ entries) (hId : decodeID e.2 = some id) (hOwn : trimPrefix base e.1 = [.enc name])
    (hOnly : ∀ e' ∈ entries, trimPrefix base e'.1 = [.enc name] → e' = e) :
    (lastIn base name entries).2 = id := by
  induction entries using List.reverseRecOn with
  | nil => cases he
  | append_singleton entries e' ih =>
    rw [lastIn_concat]
    by_cases hLast : trimPrefix base e'.1 = [.enc name]
    · obtain rfl := hOnly e' (mem_append_right _ mem_cons_self) hLast
      simp only [hId]
      exact if_pos hLast
    · have hBefore : e ∈ entries := by
        rcases mem_append.mp he with hOld | hNew
        · exact hOld
        · exact absurd (mem_singleton.mp hNew ▸ hOwn) hLast
      have hRest := ih hBefore fun e'' he'' => hOnly e'' (mem_append_left _ he'')
      split
      · exact hRest
      · exact (if_neg hLast).trans hRest

/-- A replica without an entry has no ID. -/
lemma lastIn_none (hNone : ∀ e ∈ entries, trimPrefix base e.1 ≠ [.enc name]) :
    (lastIn base name entries).2 = ⟨0, 0⟩ := by
  induction entries using List.reverseRecOn with
  | nil => rfl
  | append_singleton entries e ih =>
    have hRest := ih fun e' he' => hNone e' (mem_append_left _ he')
    rw [lastIn_concat]
    split
    · exact hRest
    · exact (if_neg (hNone e (mem_append_right _ mem_cons_self))).trans hRest

/-! ## Registers, one by one -/

section

variable {κ : Type} [DecidableEq κ]

section

variable (parse : Path → Option (κ × Bytes))

/-- A slot, with the register that `parse` says it is of. -/
def parsedSlot (e : Path × Bytes) : Option (κ × Bytes × Slot) :=
  match parse e.1, decodeSlot e.2 with
  | some (name, replica), .ok sl => some (name, replica, sl)
  | _, _ => none

/-- The slots of one register. -/
def slotsFor (entries : List (Path × Bytes)) (name : κ) :
    List (Bytes × Slot) :=
  (Dict.ofPairs (((entries.filterMap (parsedSlot parse)).filter fun c => c.1 = name).map Prod.snd)).pairs

end

lemma mem_slotsFor {name : κ} (h : c ∈ slotsFor parse entries name) :
    ∃ e ∈ entries, parsedSlot parse e = some (name, c) := by
  obtain ⟨c', hc', rfl⟩ := mem_map.mp (Dict.mem_of_mem_ofPairs h)
  obtain ⟨hMem, hName⟩ := mem_filter.mp hc'
  obtain ⟨e, he, hParsed⟩ := mem_filterMap.mp hMem
  exact ⟨e, he, hParsed.trans (by rw [← of_decide_eq_true hName])⟩

lemma exists_mem_slotsFor {name : κ} (he : e ∈ entries) (hParsed : parsedSlot parse e = some (name, c)) :
    ∃ c', c' ∈ slotsFor parse entries name := by
  refine Dict.exists_mem_ofPairs (ne_nil_of_mem (a := c) (mem_map.mpr ⟨(name, c), ?_, rfl⟩))
  exact mem_filter.mpr ⟨mem_filterMap.mpr ⟨e, he, hParsed⟩, decide_eq_true rfl⟩

/-- A register is live with a value if its slots say so. -/
lemma mem_liveSlots {name : κ} :
    (name, v) ∈ liveSlots (groupSlots parse entries) ↔ liveValue (slotsFor parse entries name) = some v := by
  rw [groupSlots, liveSlots, filterMap_map, mem_filterMap]
  constructor
  · rintro ⟨name', -, hValue⟩
    obtain ⟨v', hLive, hEq⟩ := map_eq_some_iff.mp hValue
    cases hEq
    exact hLive
  · intro hLive
    refine ⟨name, ?_, map_eq_some_iff.mpr ⟨v, hLive, rfl⟩⟩
    -- a live register has a slot
    have hSlots : slotsFor parse entries name ≠ [] := by
      intro hNil
      rw [hNil] at hLive
      cases hLive
    obtain ⟨c, hc⟩ := exists_mem_of_ne_nil _ hSlots
    obtain ⟨e, he, hParsed⟩ := mem_slotsFor hc
    exact mem_dedup.mpr (mem_map.mpr ⟨_, mem_filterMap.mpr ⟨e, he, hParsed⟩, rfl⟩)

end

/-! ## Entries -/

section

variable (db : Int64) (key : Bytes)

/-- Where a replica has an entry. -/
def entryKey (id : StreamID) (o : Replica) : Path := slotKey (streamEntryBase db key id.ms id.seq) o

/-- Below the prefix of the stream there are entries, none of which has been deleted. -/
def Filed (data : Datastore) : Prop :=
  ∀ k v, Under (streamBase db key) k → data[k]? = some v → ∃ id o st, ∃ f : Fields,
    k = entryKey db key id o ∧ v = encodeSlot ⟨st, tagPresent, encodeFields f.list⟩

variable {db : Int64} {key : Bytes}

lemma under_entryKey (id : StreamID) (o : Replica) : Under (streamBase db key) (entryKey db key id o) :=
  under_of_append (under_slotKey (streamEntryBase db key id.ms id.seq) o)

lemma mine_entryKey (id : StreamID) (o : Replica) : Mine db key o (entryKey db key id o) :=
  mine_slotKey db key [.word .x, .id id.ms id.seq] o

lemma entrySlot_entryKey (hKey : key ≠ []) (id : StreamID) (o : Replica) :
    entrySlot (streamBase db key) (entryKey db key id o) = some (id, o.name) := by
  have hPath : entryKey db key id o = streamBase db key ++ [.id id.ms id.seq, .enc o.name] := by
    simp [entryKey, slotKey, streamEntryBase, streamBase, dataBase, Store.part, newKey, hKey, o.nonempty]
  rw [entrySlot, hPath, trimPrefix, if_pos (prefix_append _ _), drop_left]

lemma entryKey_inj (hKey : key ≠ []) (h : entryKey db key id o = entryKey db key id' o') :
    id = id' ∧ o = o' := by
  have hSlot := congrArg (entrySlot (streamBase db key)) h
  rw [entrySlot_entryKey hKey, entrySlot_entryKey hKey] at hSlot
  obtain ⟨hId, hName⟩ := Prod.mk.inj (some.inj hSlot)
  exact ⟨hId, Replica.ext hName⟩

lemma mem_liveEntries {e : StreamEntry} :
    e ∈ liveEntries base stored ↔ ∃ v f, liveValue (slotsFor (entrySlot base) stored e.id) = some v ∧
    decodeFields v = some f ∧ e.fields = some f := by
  rw [liveEntries, mem_mergeSort, mem_filterMap]
  constructor
  · rintro ⟨⟨id, v⟩, hMem, hEq⟩
    obtain ⟨f, hFields, rfl⟩ := map_eq_some_iff.mp hEq
    exact ⟨v, f, mem_liveSlots.mp hMem, hFields, rfl⟩
  · rintro ⟨v, f, hLive, hFields, hEq⟩
    refine ⟨(e.id, v), mem_liveSlots.mpr hLive, map_eq_some_iff.mpr ⟨f, hFields, ?_⟩⟩
    cases e
    simp only at hEq
    rw [hEq]

/-- The ID of a live entry is that of a slot. -/
lemma id_of_liveEntries {e : StreamEntry} (he : e ∈ liveEntries base stored) :
    ∃ p ∈ stored, ∃ replica, entrySlot base p.1 = some (e.id, replica) := by
  obtain ⟨v, f, hValue, -⟩ := mem_liveEntries.mp he
  have hSlots : slotsFor (entrySlot base) stored e.id ≠ [] := by
    intro hNil
    rw [hNil] at hValue
    cases hValue
  obtain ⟨c, hc⟩ := exists_mem_of_ne_nil _ hSlots
  obtain ⟨p, hp, hParsed⟩ := mem_slotsFor hc
  refine ⟨p, hp, c.1, ?_⟩
  rw [parsedSlot] at hParsed
  split at hParsed
  · next id replica sl hSlot _ =>
    cases hParsed
    exact hSlot
  · cases hParsed

/-- Live entries are sorted by ID, -/
lemma sorted_liveEntries (base : List Seg) (stored : List (Path × Bytes)) :
    (liveEntries base stored).Pairwise fun a b => a.id.toNat ≤ b.id.toNat := by
  have hLe : ∀ a b : StreamEntry, (!b.id.lt a.id) = true ↔ a.id.toNat ≤ b.id.toNat := by
    intro a b
    rw [Bool.not_eq_true', ← Bool.not_eq_true, StreamID.not_lt_iff]
  have hSorted : (liveEntries base stored).Pairwise fun a b => (!b.id.lt a.id) = true :=
    pairwise_mergeSort (fun a b c hab hbc => (hLe a c).mpr (((hLe a b).mp hab).trans ((hLe b c).mp hbc)))
      (fun a b => by
        rw [Bool.or_eq_true, hLe, hLe]
        exact Nat.le_total _ _) _
  exact hSorted.imp fun {a b} hab => (hLe a b).mp hab

/-- and no two have the same. -/
lemma unique_liveEntries {a b : StreamEntry} (ha : a ∈ liveEntries base stored)
    (hb : b ∈ liveEntries base stored) (hId : a.id = b.id) : a = b := by
  obtain ⟨v, f, hValue, hDecode, hFields⟩ := mem_liveEntries.mp ha
  obtain ⟨v', f', hValue', hDecode', hFields'⟩ := mem_liveEntries.mp hb
  rw [hId, hValue', some.injEq] at hValue
  rw [← hValue, hDecode', some.injEq] at hDecode
  cases a
  cases b
  simp only at hId hFields hFields'
  rw [hId, hFields, hFields', hDecode]

namespace Filed

variable {data : Datastore}

/-- What is read of a slot. -/
lemma parsed (hKey : key ≠ []) (h : Filed db key data) (he : e ∈ data.entries (streamBase db key)) :
    ∃ id o st, ∃ f : Fields, data[entryKey db key id o]? =
    some (encodeSlot ⟨st, tagPresent, encodeFields f.list⟩) ∧ parsedSlot (entrySlot (streamBase db key)) e =
    some (id, o.name, ⟨st, tagPresent, encodeFields f.list⟩) := by
  obtain ⟨hEntry, hUnder⟩ := Datastore.mem_entries.mp he
  obtain ⟨id, o, st, f, hk, hv⟩ := h e.1 e.2 hUnder hEntry
  rw [hk, hv] at hEntry
  refine ⟨id, o, st, f, hEntry, ?_⟩
  rw [parsedSlot, hk, hv, entrySlot_entryKey hKey, decodeSlot_encodeSlot]

/-- The candidates of an entry are the slots of its ID. -/
lemma of_candidate (hKey : key ≠ []) (h : Filed db key data)
    (hc : c ∈ slotsFor (entrySlot (streamBase db key)) (data.entries (streamBase db key)) id) :
    ∃ o st, ∃ f : Fields, c.2 = ⟨st, tagPresent, encodeFields f.list⟩ ∧ data[entryKey db key id o]? =
    some (encodeSlot ⟨st, tagPresent, encodeFields f.list⟩) := by
  obtain ⟨e, he, hParsed⟩ := mem_slotsFor hc
  obtain ⟨id', o, st, f, hEntry, hEq⟩ := h.parsed hKey he
  rw [hParsed] at hEq
  cases hEq
  exact ⟨o, st, f, rfl, hEntry⟩

/-- **A live entry has a slot**, from which it is read. -/
theorem exists_slot (hKey : key ≠ []) (h : Filed db key data) {e : StreamEntry}
    (he : e ∈ liveEntries (streamBase db key) (data.entries (streamBase db key))) :
    ∃ o st, ∃ f : Fields, e.fields = some f.list ∧ data[entryKey db key e.id o]? =
    some (encodeSlot ⟨st, tagPresent, encodeFields f.list⟩) := by
  obtain ⟨v, f', hLive, hFields, hEq⟩ := mem_liveEntries.mp he
  rw [Store.liveValue] at hLive
  split at hLive
  · cases hLive
  · next sl o' hWinner =>
    have hMem := ((winner_eq_some_iff (Dict.nodup_pairs _)).mp hWinner).1
    obtain ⟨o, st, f, hSlot, hEntry⟩ := h.of_candidate hKey hMem
    obtain rfl : sl = ⟨st, tagPresent, encodeFields f.list⟩ := hSlot
    rw [if_neg (show tagPresent ≠ tagDeleted by decide)] at hLive
    cases hLive
    rw [decodeFields_encodeFields] at hFields
    cases hFields
    exact ⟨o, st, f, hEq, hEntry⟩

/-- **An entry with a slot is live.** -/
theorem exists_live (hKey : key ≠ []) (h : Filed db key data) (hSome : (data[entryKey db key id o]?).isSome) :
    ∃ f, (⟨id, some f⟩ : StreamEntry) ∈
    liveEntries (streamBase db key) (data.entries (streamBase db key)) := by
  obtain ⟨v, hv⟩ := isSome_iff_exists.mp hSome
  have he : (entryKey db key id o, v) ∈ data.entries (streamBase db key) :=
    Datastore.mem_entries.mpr ⟨hv, under_entryKey id o⟩
  -- the register of the ID has a candidate, so it has a winner
  obtain ⟨c, hc⟩ : ∃ c, c ∈ slotsFor (entrySlot (streamBase db key)) (data.entries (streamBase db key)) id := by
    obtain ⟨id', o', st, f, -, hParsed⟩ := h.parsed hKey he
    have hSame : id' = id := by
      rw [parsedSlot, entrySlot_entryKey hKey] at hParsed
      cases hDecode : decodeSlot v with
      | error e => simp [hDecode] at hParsed
      | ok sl =>
        simp only [hDecode, some.injEq, Prod.mk.injEq] at hParsed
        exact hParsed.1.symm
    exact exists_mem_slotsFor he (hSame ▸ hParsed)
  cases hWinner : winner (slotsFor (entrySlot (streamBase db key)) (data.entries (streamBase db key)) id) with
  | none =>
    rw [winner_eq_argmax, map_eq_none_iff, argmax_eq_none] at hWinner
    rw [hWinner] at hc
    cases hc
  | some found =>
    obtain ⟨sl, o'⟩ := found
    have hMem := ((winner_eq_some_iff (Dict.nodup_pairs _)).mp hWinner).1
    obtain ⟨o'', st, f, hSlot, -⟩ := h.of_candidate hKey hMem
    obtain rfl : sl = ⟨st, tagPresent, encodeFields f.list⟩ := hSlot
    refine ⟨f.list, mem_liveEntries.mpr ⟨encodeFields f.list, f.list, ?_, decodeFields_encodeFields f, rfl⟩⟩
    rw [Store.liveValue, hWinner]
    rfl

end Filed

end

end RedGeo.Repo
