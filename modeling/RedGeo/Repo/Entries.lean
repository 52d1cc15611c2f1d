import RedGeo.Repo.Appends

/-!
# RedGeo — streams lose no entry

Plain `XADD *` on one stream at any number of replicas (in a transaction, an ID is minted
long before its entry is stored). IDs are minted without coordination: the
discriminators of the replicas keep them apart, and the last IDs let those of one replica go
up.

* `Journal.Sound` — what holds in every run in which discriminators are different and the
  counter of the IDs has room.
* `streams_keep_entries` — all IDs are different, and all entries are read.
* `same_discriminator_loses` — two replicas with one discriminator mint one ID.
-/

namespace RedGeo.Repo

open Lib Store Function List Option

variable {n : Replica} {id : StreamID} {fields : Fields}

/-! ## What is remembered -/

/-- An entry that has been put. -/
structure NewEntry where
  origin : Replica
  id : StreamID
  fields : Fields
  deriving DecidableEq

/-- The entries that have been put, and those that were acknowledged. -/
structure Journal where
  put : List NewEntry := []
  acked : List (StreamID × Fields) := []

section

variable (db : Int64) (key : Bytes)

/-- The entry that a call puts. -/
def entryOf (c : StreamCmd) (n : Replica) (k : Path) : Option NewEntry :=
  match c, entrySlot (streamBase db key) k with
  | .add _ _ fields, some (id, _) => if Under (streamBase db key) k then some ⟨n, id, fields⟩ else none
  | _, _ => none

def Journal.watch (h : Journal) (s : Net (streamService db key)) : Net.Event (streamService db key) → Journal
  | .call n =>
    match s.job n with
    | some ⟨c, .call (.put k _) _⟩ => { h with put := h.put ++ (entryOf db key c n k).toList }
    | _ => h
  | .finish n =>
    match s.job n with
    | some ⟨.add _ _ fields, .done (some id)⟩ => { h with acked := h.acked ++ [(id, fields)] }
    | _ => h
  | _ => h

/-- `XADD *` is issued, at the replicas in `R`. -/
def AutoAdds (R : Finset Replica) {σ : Type} (_ : σ) : Net.Event (streamService db key) → Prop
  | .start n c => n ∈ R ∧ ∃ noMkStream fields, c = .add noMkStream .auto fields
  | _ => True

/-- No other replica has the discriminator of one that issues a command, and the entries are
fewer than the counter of an ID can count. -/
def Spaced (R : Finset Replica) (s : Traced (streamService db key) Journal) :
    Net.Event (streamService db key) → Prop
  | .start n _ => ∀ o ∈ R, discriminator o.name = discriminator n.name → o = n
  | .call _ => s.past.put.length + 1 < 2 ^ 48
  | _ => True

instance (R : Finset Replica) {σ : Type} (s : σ) (a : Net.Event (streamService db key)) :
    Decidable (AutoAdds db key R s a) :=
  match a with
  | .start n (.add noMkStream .auto fields) =>
    decidable_of_iff (n ∈ R) ⟨fun hn => ⟨hn, noMkStream, fields, rfl⟩, fun h => h.1⟩
  | .start _ (.add _ (.autoSeq _) _) | .start _ (.add _ (.explicit _) _) | .start _ (.create _ _ _)
  | .start _ (.readNew _ _ _ _) => isFalse fun ⟨_, _, _, hEq⟩ => nomatch hEq
  | .call _ | .finish _ | .receive _ _ _ | .forget _ _ _ | .other _ _ _ => isTrue trivial

instance (R : Finset Replica) (s : Traced (streamService db key) Journal) (a : Net.Event (streamService db key)) :
    Decidable (Spaced db key R s a) :=
  match a with
  | .start n _ => inferInstanceAs (Decidable (∀ o ∈ R, discriminator o.name = discriminator n.name → o = n))
  | .call _ => inferInstanceAs (Decidable (_ < _))
  | .finish _ | .receive _ _ _ | .forget _ _ _ | .other _ _ _ => isTrue trivial

/-- The entries that have been put are logged, each under its own ID, and nothing else is. -/
structure Booked (put : List NewEntry) (v : View (streamService db key) Streaming) : Prop where
  nodup : (put.map NewEntry.id).Nodup
  logged : ∀ e ∈ put, ∃ st, v.log (entryKey db key e.id e.origin) =
    [encodeSlot ⟨st, tagPresent, encodeFields e.fields.list⟩]
  only : ∀ id n, v.log (entryKey db key id n) ≠ [] → ∃ e ∈ put, e.id = id ∧ e.origin = n

/-- What has been acknowledged has been put. -/
structure Journal.Matches (past : Journal) (v : View (streamService db key) Streaming) : Prop
    extends Booked db key past.put v where
  acked : ∀ a ∈ past.acked, (∃ e ∈ past.put, e.id = a.1 ∧ e.fields = a.2) ∧
    v.Has (metaBase db key) ∧ v.Has (streamLastBase db key)
  once : (past.acked.map Prod.fst).Nodup

/-- The last IDs that a command was told are IDs of entries, and the own one is among them
until the command puts its entry. -/
def Told (put : List NewEntry) (n : Replica) (own : Path → Option Bytes) (d : Streaming) : Prop :=
  ∀ es, d.heard (streamLastBase db key) = some es → (∀ p ∈ es, ∃ e ∈ put, decodeID p.2 = some e.id) ∧
    (d.wrote = none → (ownLast db key n own).toNat ≤ (lastIn (streamLastBase db key) n.name es).1.toNat)

/-- What is known of the IDs that have been minted. -/
structure Journal.Minted (R : Finset Replica) (past : Journal) (v : View (streamService db key) Streaming) : Prop where
  low : ∀ e ∈ past.put, 0 < e.id.toNat ∧ e.id.seq.toNat % 2 ^ 16 = (discriminator e.origin.name).toNat ∧
    ∀ o ∈ R, discriminator o.name = discriminator e.origin.name → o = e.origin
  counter : ∀ e ∈ past.put, e.id.counter ≤ past.put.length
  own : ∀ e ∈ past.put, e.id.toNat ≤ (ownLast db key e.origin (v.own db key e.origin)).toNat ∨
    (v.cmd e.origin).isSome ∧ (v.notes e.origin).wrote = some e.id
  wrote : ∀ n id, (v.cmd n).isSome → (v.notes n).wrote = some id → id ∉ past.acked.map Prod.fst ∧
    ∃ e ∈ past.put, e.id = id ∧ e.origin = n ∧ ∃ noMkStream, v.cmd n = some (.add noMkStream .auto e.fields)
  lasts : ∀ n id, encodeID id ∈ v.log (lastKey db key n) → ∃ e ∈ past.put, e.id = id
  told : ∀ n, (v.cmd n).isSome → Told db key past.put n (v.own db key n) (v.notes n)

/-- What holds in every run. -/
structure Journal.Sound (R : Finset Replica) (past : Journal) (v : View (streamService db key) Streaming) : Prop
    extends past.Matches db key v, past.Minted db key R v where
  streamed : v.Streamed db key
  running : ∀ n c, v.cmd n = some c → n ∈ R ∧ (∃ noMkStream fields, c = .add noMkStream .auto fields) ∧
    ∀ o ∈ R, discriminator o.name = discriminator n.name → o = n

end

/-! ## Moves -/

section

variable {db : Int64} {key : Bytes} {R : Finset Replica} {past : Journal}
  {v : View (streamService db key) Streaming}

/-- The last ID of a replica, where something else is put. -/
lemma ownLast_put (hk : lastKey db key n' ≠ k) (val : Bytes) (d : Streaming) :
    ownLast db key n' ((v.put n k val d).own db key n') = ownLast db key n' (v.own db key n') := by
  rw [ownLast, ownLast, View.own_put_of_ne hk]

namespace Booked

variable {put : List NewEntry}

lemma init (d : Replica → Streaming) : Booked db key [] ⟨fun _ => [], fun _ => none, d⟩ :=
  ⟨nodup_nil, fun _ he => (nomatch he), fun _ _ hNe => absurd rfl hNe⟩

lemma keep (h : Booked db key put v)
    (hLog : ∀ id n, v'.log (entryKey db key id n) = v.log (entryKey db key id n)) : Booked db key put v' := by
  refine ⟨h.nodup, fun e he => ?_, fun id n hNe => ?_⟩
  · rw [hLog]
    exact h.logged e he
  · rw [hLog] at hNe
    exact h.only id n hNe

/-- An entry is put, under an ID that is new. -/
lemma entry (h : Booked db key put v) (hKey : key ≠ []) (hNew : id ∉ put.map NewEntry.id)
    (st : Stamp) (d : Streaming) : Booked db key (put ++ [⟨n, id, fields⟩])
      (v.put n (entryKey db key id n) (encodeSlot ⟨st, tagPresent, encodeFields fields.list⟩) d) := by
  have hOther : ∀ id' o, entryKey db key id' o ≠ entryKey db key id n → (v.put n (entryKey db key id n)
      (encodeSlot ⟨st, tagPresent, encodeFields fields.list⟩) d).log (entryKey db key id' o) =
        v.log (entryKey db key id' o) := fun id' o hk => update_of_ne hk _ _
  -- nothing has been put under this ID
  have hEmpty : v.log (entryKey db key id n) = [] := by
    by_contra hNe
    obtain ⟨e, he, hId, -⟩ := h.only id n hNe
    exact hNew (mem_map.mpr ⟨e, he, hId⟩)
  refine ⟨?_, fun e he => ?_, fun id' o hNe => ?_⟩
  · rw [map_append, map_singleton, ← concat_eq_append]
    exact List.Nodup.concat hNew h.nodup
  · rcases mem_append.mp he with hOld | hLast
    · rw [hOther e.id e.origin fun hk => hNew (mem_map.mpr ⟨e, hOld, (entryKey_inj hKey hk).1⟩)]
      exact h.logged e hOld
    · obtain rfl := mem_singleton.mp hLast
      refine ⟨st, (update_self _ _ _).trans ?_⟩
      rw [hEmpty]
      rfl
  · by_cases hk : entryKey db key id' o = entryKey db key id n
    · obtain ⟨rfl, rfl⟩ := entryKey_inj hKey hk
      exact ⟨_, mem_append_right _ mem_cons_self, rfl, rfl⟩
    · rw [hOther id' o hk] at hNe
      obtain ⟨e, he, hEq⟩ := h.only id' o hNe
      exact ⟨e, mem_append_left _ he, hEq⟩

section

variable {s : Net (streamService db key)} {d : Replica → Streaming} (hKey : key ≠ [])
  (hKept : s.Kept db key (streamRules db key) d) (h : Booked db key put (s.view d)) {n : Replica}
  (hFiled : Filed db key (s.world n).data)

include hKey hKept h hFiled

/-- A live entry has been put, and it has arrived. -/
lemma of_live (hx : x ∈ liveEntries (streamBase db key) ((s.world n).data.entries (streamBase db key))) :
    ∃ e ∈ put, x = ⟨e.id, some e.fields.list⟩ ∧
    ((s.world n).data[entryKey db key e.id e.origin]?).isSome := by
  obtain ⟨o, st, f, hFields, hSlot⟩ := hFiled.exists_slot hKey hx
  have hMem := hKept.mem_log (mine_entryKey x.id o).1 hSlot
  obtain ⟨e, he, hId, rfl⟩ := h.only x.id o (ne_nil_of_mem hMem)
  -- the slot is the one that was put
  obtain ⟨st', hLog⟩ := h.logged e he
  change s.copies.log _ = _ at hLog
  rw [← hId, hLog, mem_singleton] at hMem
  have hList : f.list = e.fields.list := by
    have hDecode := congrArg decodeSlot hMem
    rw [decodeSlot_encodeSlot, decodeSlot_encodeSlot] at hDecode
    injection hDecode with hEq
    have hBytes := congrArg decodeFields (congrArg Slot.value hEq)
    rw [decodeFields_encodeFields, decodeFields_encodeFields] at hBytes
    exact some.inj hBytes
  refine ⟨e, he, ?_, ?_⟩
  · cases x
    simp only at hId hFields
    rw [hId, hFields, hList]
  · rw [hId, hSlot]
    rfl

/-- An entry that has arrived is live, with its fields. -/
lemma live (he : e ∈ put) (hSome : ((s.world n).data[entryKey db key e.id e.origin]?).isSome) :
    (⟨e.id, some e.fields.list⟩ : StreamEntry) ∈
    liveEntries (streamBase db key) ((s.world n).data.entries (streamBase db key)) := by
  obtain ⟨f, hLive⟩ := hFiled.exists_live hKey hSome
  obtain ⟨e', he', hEq, -⟩ := h.of_live hKey hKept hFiled hLive
  -- no other entry has this ID
  obtain ⟨hId, hFields⟩ := StreamEntry.mk.inj hEq
  obtain rfl := inj_on_of_nodup_map h.nodup he he' hId
  rw [← hFields]
  exact hLive

end

/-- Where everything has arrived. -/
lemma arrived {s : Net (streamService db key)} {d : Replica → Streaming} (h : Booked db key put (s.view d))
    (hKept : s.Kept db key (streamRules db key) d) (hDelivered : s.Delivered db key n)
    (he : e ∈ put) : ((s.world n).data[entryKey db key e.id e.origin]?).isSome := by
  obtain ⟨st, hLog⟩ := h.logged e he
  rw [hKept.of_delivered hDelivered (mine_entryKey e.id e.origin).1, List.getLast?_isSome]
  rw [show s.copies.log _ = _ from hLog]
  exact cons_ne_nil _ _

end Booked

lemma Told.mono {put put' : List NewEntry} (hPut : ∀ e ∈ put, e ∈ put')
    {d : Streaming} (h : Told db key put n own d) : Told db key put' n own d := by
  intro es hHeard
  obtain ⟨hKnown, hOwn⟩ := h es hHeard
  refine ⟨fun p hp => ?_, hOwn⟩
  obtain ⟨e, he, hId⟩ := hKnown p hp
  exact ⟨e, hPut e he, hId⟩

namespace Journal

/-- The ID that is minted next. -/
lemma Sound.mint (h : past.Sound db key R v) (hRoom : past.put.length + 1 < 2 ^ 48) (hCmd : (v.cmd n).isSome)
    (hWrote : (v.notes n).wrote = none) (hHeard : (v.notes n).heard (streamLastBase db key) = some es)
    (hMint : id = autoID now (lastIn (streamLastBase db key) n.name es).1 (discriminator n.name)) :
    0 < id.toNat ∧ id.seq.toNat % 2 ^ 16 = (discriminator n.name).toNat ∧ id.counter ≤ past.put.length + 1 ∧
    id ∉ past.put.map NewEntry.id := by
  obtain ⟨hKnown, hOwn⟩ := h.told n hCmd es hHeard
  have hLast : (lastIn (streamLastBase db key) n.name es).1 = ⟨0, 0⟩ ∨
      ∃ p ∈ es, decodeID p.2 = some (lastIn (streamLastBase db key) n.name es).1 := lastIn_mem
  -- the highest known ID is one that has been minted
  have hCounter : (lastIn (streamLastBase db key) n.name es).1.counter ≤ past.put.length := by
    obtain hZero | ⟨p, hp, hDecode⟩ := hLast
    · rw [hZero]
      exact Nat.zero_le _
    · obtain ⟨e, he, hId⟩ := hKnown p hp
      rw [hDecode, some.injEq] at hId
      rw [hId]
      exact h.counter e he
  have hDisc := discriminator_lt n.name
  have hLow : id.seq.toNat % 2 ^ 16 = (discriminator n.name).toNat := by
    rw [hMint]
    exact autoID_low hDisc
  have hCount : id.counter ≤ (lastIn (streamLastBase db key) n.name es).1.counter + 1 := by
    rw [hMint]
    exact counter_autoID hDisc
  have hLt : (lastIn (streamLastBase db key) n.name es).1.toNat < id.toNat := by
    rw [hMint]
    exact lt_autoID hDisc (by omega)
  refine ⟨by omega, hLow, by omega, fun hMem => ?_⟩
  obtain ⟨e, he, rfl⟩ := mem_map.mp hMem
  obtain ⟨-, hLow', hUnique⟩ := h.low e he
  obtain ⟨c, hc⟩ := isSome_iff_exists.mp hCmd
  -- the discriminators say that it is one of the same replica
  have hSame : n = e.origin := by
    refine hUnique n (h.running n c hc).1 (UInt64.toNat_inj.mp ?_)
    rw [← hLow, ← hLow']
  have hBelow : e.id.toNat ≤ (ownLast db key n (v.own db key n)).toNat := by
    rcases h.own e he with hLe | ⟨-, hEq⟩
    · exact hSame ▸ hLe
    · rw [← hSame, hWrote] at hEq
      cases hEq
  have hOwnLe := hOwn hWrote
  omega

lemma Matches.keep {s : Net (streamService db key)} {d : Replica → Streaming}
    (h : past.Matches db key (s.view d)) (hMove : s.Move db key (streamRules db key) d a v)
    (hLog : ∀ id n, v.log (entryKey db key id n) = (s.view d).log (entryKey db key id n)) :
    past.Matches db key v := by
  refine ⟨h.toBooked.keep hLog, fun a ha => ?_, h.once⟩
  obtain ⟨hPut, hMeta, hLast⟩ := h.acked a ha
  exact ⟨hPut, hMeta.move hMove, hLast.move hMove⟩

/-- An entry is put, under an ID that is new. -/
lemma Matches.entry (h : past.Matches db key v) (hKey : key ≠ [])
    (hNew : id ∉ past.put.map NewEntry.id) (st : Stamp) (d : Streaming) :
    Matches db key { past with put := past.put ++ [⟨n, id, fields⟩] }
      (v.put n (entryKey db key id n) (encodeSlot ⟨st, tagPresent, encodeFields fields.list⟩) d) := by
  refine ⟨h.toBooked.entry hKey hNew st d, fun a ha => ?_, h.once⟩
  obtain ⟨⟨e, he, hEq⟩, hMeta, hLast⟩ := h.acked a ha
  exact ⟨⟨e, mem_append_left _ he, hEq⟩, hMeta.put _ _ _ _, hLast.put _ _ _ _⟩

lemma Sound.minted_entry (h : past.Sound db key R v) (hRoom : past.put.length + 1 < 2 ^ 48)
    (hCmd : v.cmd n = some (.add noMkStream .auto fields))
    (hWrote : (v.notes n).wrote = none) (hHeard : (v.notes n).heard (streamLastBase db key) = some es)
    (hMint : id = autoID now (lastIn (streamLastBase db key) n.name es).1 (discriminator n.name))
    (val : Bytes) : Minted db key R { past with put := past.put ++ [⟨n, id, fields⟩] }
    (v.put n (entryKey db key id n) val { v.notes n with wrote := some id }) := by
  have hSome : (v.cmd n).isSome := isSome_of_eq_some hCmd
  obtain ⟨hPos, hLow, hCounter, hNew⟩ := h.mint hRoom hSome hWrote hHeard hMint
  have hOwn : ∀ o, ownLast db key o ((v.put n (entryKey db key id n) val
      { v.notes n with wrote := some id }).own db key o) = ownLast db key o (v.own db key o) := fun o =>
    ownLast_put (lastKey_ne_entryKey n o id) _ _
  refine ⟨fun e he => ?_, fun e he => ?_, fun e he => ?_, fun o id' hCmd' hWrote' => ?_, fun o id' hMem => ?_,
    fun o hCmd' => ?_⟩
  · rcases mem_append.mp he with hOld | hLast
    · exact h.low e hOld
    · obtain rfl := mem_singleton.mp hLast
      exact ⟨hPos, hLow, (h.running n _ hCmd).2.2⟩
  · rw [length_append, length_singleton]
    rcases mem_append.mp he with hOld | hLast
    · exact (h.counter e hOld).trans (Nat.le_succ _)
    · obtain rfl := mem_singleton.mp hLast
      exact hCounter
  · rw [hOwn]
    rcases mem_append.mp he with hOld | hLast
    · refine (h.own e hOld).imp_right fun ⟨hRuns, hEq⟩ => ?_
      have hOther : e.origin ≠ n := by
        intro hn
        rw [hn, hWrote] at hEq
        cases hEq
      exact ⟨hRuns, (congrArg Streaming.wrote (update_of_ne hOther _ _)).trans hEq⟩
    · obtain rfl := mem_singleton.mp hLast
      refine .inr ⟨hSome, ?_⟩
      show (update v.notes n _ n).wrote = some id
      rw [update_self]
  · change (update v.notes n _ o).wrote = _ at hWrote'
    by_cases ho : o = n
    · subst ho
      rw [update_self] at hWrote'
      cases hWrote'
      refine ⟨fun hMem => ?_, _, mem_append_right _ mem_cons_self, rfl, rfl, noMkStream, hCmd⟩
      -- what was acknowledged has been put
      obtain ⟨a, ha, rfl⟩ := mem_map.mp hMem
      obtain ⟨⟨e, he, hId, -⟩, -⟩ := h.acked a ha
      exact hNew (mem_map.mpr ⟨e, he, hId⟩)
    · rw [update_of_ne ho] at hWrote'
      obtain ⟨hOnce, e, he, hRest⟩ := h.wrote o id' hCmd' hWrote'
      exact ⟨hOnce, e, mem_append_left _ he, hRest⟩
  · change _ ∈ update v.log (entryKey db key id n) _ (lastKey db key o) at hMem
    rw [update_of_ne (lastKey_ne_entryKey n o id)] at hMem
    obtain ⟨e, he, hId⟩ := h.lasts o id' hMem
    exact ⟨e, mem_append_left _ he, hId⟩
  · show Told db key _ o _ (update v.notes n _ o)
    by_cases ho : o = n
    · subst ho
      rw [update_self]
      -- it has put its entry: what it was told of its last ID does not matter any more
      intro es' hHeard'
      obtain ⟨hKnown, -⟩ := (h.told o hSome).mono (fun e he => mem_append_left _ he) es' hHeard'
      exact ⟨hKnown, fun hNone => (nomatch hNone)⟩
    · rw [update_of_ne ho, Told, hOwn]
      exact (h.told o hCmd').mono fun e he => mem_append_left _ he

/-- The last ID is put: that of the entry. -/
lemma Minted.last (h : past.Minted db key R v) (hCmd : (v.cmd n).isSome)
    (hWrote : (v.notes n).wrote = some id) (hAbove : (ownLast db key n (v.own db key n)).toNat < id.toNat) :
    past.Minted db key R (v.put n (lastKey db key n) (encodeID id) (v.notes n)) := by
  have hNotes : (v.put n (lastKey db key n) (encodeID id) (v.notes n)).notes = v.notes :=
    update_eq_self n v.notes
  have hSelf : ownLast db key n ((v.put n (lastKey db key n) (encodeID id) (v.notes n)).own db key n) = id := by
    rw [ownLast, View.own_put_self (mine_lastKey n), bind_some, decodeID_encodeID]
    rfl
  have hOther : ∀ o, o ≠ n → ownLast db key o ((v.put n (lastKey db key n) (encodeID id) (v.notes n)).own db key o) =
      ownLast db key o (v.own db key o) := fun o ho => ownLast_put (fun hEq => ho (slotKey_injective _ hEq)) _ _
  refine ⟨h.low, h.counter, fun e he => ?_, fun o id' hCmd' hWrote' => ?_, fun o id' hMem => ?_, fun o hCmd' => ?_⟩
  · rw [hNotes]
    refine (h.own e he).imp_left fun hLe => ?_
    by_cases ho : e.origin = n
    · rw [ho] at hLe ⊢
      rw [hSelf]
      omega
    · rw [hOther e.origin ho]
      exact hLe
  · rw [hNotes] at hWrote'
    exact h.wrote o id' hCmd' hWrote'
  · change encodeID id' ∈ update v.log (lastKey db key n) _ (lastKey db key o) at hMem
    by_cases ho : lastKey db key o = lastKey db key n
    · rw [ho, update_self] at hMem
      rcases mem_append.mp hMem with hOld | hNew
      · exact h.lasts n id' hOld
      · -- the last ID is that of the entry
        have hId : id' = id := encodeID_inj (mem_singleton.mp hNew)
        obtain ⟨-, e, he, hEq, -⟩ := h.wrote n id hCmd hWrote
        exact ⟨e, he, hEq.trans hId.symm⟩
    · rw [update_of_ne ho] at hMem
      exact h.lasts o id' hMem
  · rw [hNotes]
    intro es hHeard
    obtain ⟨hKnown, hOwn⟩ := h.told o hCmd' es hHeard
    refine ⟨hKnown, fun hNone => ?_⟩
    have ho : o ≠ n := by
      rintro rfl
      rw [hWrote] at hNone
      cases hNone
    rw [hOther o ho]
    exact hOwn hNone

lemma Minted.keep (h : past.Minted db key R v)
    (hLog : ∀ n, v'.log (lastKey db key n) = v.log (lastKey db key n))
    (hWrote : ∀ n id, (v'.cmd n).isSome → (v'.notes n).wrote = some id →
      v'.cmd n = v.cmd n ∧ (v.notes n).wrote = some id)
    (hDone : ∀ n id, (v.cmd n).isSome → (v.notes n).wrote = some id →
      id.toNat ≤ (ownLast db key n (v.own db key n)).toNat ∨ (v'.cmd n).isSome ∧ (v'.notes n).wrote = some id)
    (hTold : ∀ n, (v'.cmd n).isSome → Told db key past.put n (v.own db key n) (v'.notes n)) :
    past.Minted db key R v' := by
  have hOwn : ∀ n, ownLast db key n (v'.own db key n) = ownLast db key n (v.own db key n) := by
    intro n
    rw [ownLast, ownLast, View.own_of_mine (mine_lastKey n), View.own_of_mine (mine_lastKey n), hLog]
  refine ⟨h.low, h.counter, fun e he => ?_, fun n id hCmd hEq => ?_, fun n id hMem => ?_, fun n hCmd => ?_⟩
  · rw [hOwn]
    rcases h.own e he with hLe | ⟨hRuns, hEq⟩
    · exact .inl hLe
    · exact hDone e.origin e.id hRuns hEq
  · obtain ⟨hSame, hOld⟩ := hWrote n id hCmd hEq
    rw [hSame] at hCmd ⊢
    exact h.wrote n id hCmd hOld
  · rw [hLog] at hMem
    exact h.lasts n id hMem
  · rw [Told, hOwn]
    exact hTold n hCmd

lemma Matches.ack (h : past.Matches db key v)
    (hAck : id ∉ past.acked.map Prod.fst ∧ (∃ e ∈ past.put, e.id = id ∧ e.origin = n ∧ e.fields = fields) ∧
      v.Has (metaBase db key) ∧ v.Has (streamLastBase db key)) :
    Matches db key { past with acked := past.acked ++ [(id, fields)] } v := by
  obtain ⟨hOnce, ⟨e, he, hId, -, hFields⟩, hHas⟩ := hAck
  refine ⟨h.toBooked, fun a ha => ?_, ?_⟩
  · rcases mem_append.mp ha with hOld | hNew
    · exact h.acked a hOld
    · obtain rfl := mem_singleton.mp hNew
      exact ⟨⟨e, he, hId, hFields⟩, hHas⟩
  · rw [map_append, map_singleton, ← concat_eq_append]
    exact List.Nodup.concat hOnce h.once

lemma Minted.ack (h : past.Minted db key R v) (hNodup : (past.put.map NewEntry.id).Nodup)
    (hPut : ∃ e ∈ past.put, e.id = id ∧ e.origin = n ∧ e.fields = fields) (hIdle : v.cmd n = none) :
    Minted db key R { past with acked := past.acked ++ [(id, fields)] } v := by
  refine ⟨h.low, h.counter, h.own, fun o id' hCmd hWrote => ?_, h.lasts, h.told⟩
  obtain ⟨hOnce, e', he', hId', hOrigin', hRest⟩ := h.wrote o id' hCmd hWrote
  refine ⟨fun hMem => ?_, e', he', hId', hOrigin', hRest⟩
  rw [map_append, map_singleton] at hMem
  rcases mem_append.mp hMem with hOld | hNew
  · exact hOnce hOld
  · -- that entry is of another replica
    obtain ⟨e, he, hId, hOrigin, -⟩ := hPut
    have hSame : e.id = e'.id := by
      rw [hId, hId', mem_singleton.mp hNew]
    rw [inj_on_of_nodup_map hNodup he he' hSame] at hOrigin
    rw [← hOrigin', hOrigin, hIdle] at hCmd
    cases hCmd

end Journal

end

/-! ## Runs -/

section

variable {db : Int64} {key : Bytes} {R : Finset Replica} {past : Journal} {s : Net (streamService db key)}
  {d : Replica → Streaming}

lemma entryOf_entryKey (hKey : key ≠ []) (noMkStream : Bool) (mode : IDMode) (fields : Fields) (n : Replica)
    (id : StreamID) :
    entryOf db key (.add noMkStream mode fields) n (entryKey db key id n) = some ⟨n, id, fields⟩ := by
  simp only [entryOf, entrySlot_entryKey hKey, if_pos (under_entryKey id n)]

lemma entryOf_of_not (c : StreamCmd) (n : Replica) (hk : ¬ Under (streamBase db key) k) :
    entryOf db key c n k = none := by
  unfold entryOf
  split
  · exact if_neg hk
  · rfl

namespace Journal.Sound

variable (hKept : s.Kept db key (streamRules db key) d) (h : past.Sound db key R (s.view d))

include hKept h in
lemma told_query (n : Replica)
    (hCmd : ((s.view d).cmd n).isSome) (base : List Seg) (keysOnly : Bool) :
    Told db key past.put n ((s.view d).own db key n)
      ((d n).note db key (.query base keysOnly) (.ok (((s.world n).data.entries base).map (keyEntry keysOnly)))) := by
  intro es hHeard
  obtain ⟨hWrote, hCases⟩ := note_asked db key (d n) base keysOnly
    (((s.world n).data.entries base).map (keyEntry keysOnly))
  rw [hWrote]
  rcases hCases _ _ hHeard with hOld | ⟨rfl, rfl, rfl⟩
  · exact h.told n hCmd es hOld
  · rw [map_keyEntry_false]
    have hLasts := h.streamed.lastSlots hKept n
    constructor
    · intro p hp
      obtain ⟨hEntry, hUnder⟩ := Datastore.mem_entries.mp hp
      obtain ⟨o, id, hk, hv⟩ := hLasts p.1 p.2 hUnder hEntry
      have hMem := hKept.mem_log (.inr (under_of_append hUnder)) hEntry
      rw [hk, hv] at hMem
      obtain ⟨e, he, hId⟩ := h.lasts o id hMem
      refine ⟨e, he, ?_⟩
      rw [hv, decodeID_encodeID, hId]
    · intro _
      rw [← hKept.own_view, ownLast, ownOf_of_mine (mine_lastKey n)]
      cases hv : (s.world n).data[lastKey db key n]? with
      | none => exact Nat.zero_le _
      | some v =>
        obtain ⟨o, id, -, rfl⟩ := hLasts _ _ (under_slotKey _ n) hv
        rw [bind_some, decodeID_encodeID]
        have he : (lastKey db key n, encodeID id) ∈ (s.world n).data.entries (streamLastBase db key) :=
          Datastore.mem_entries.mpr ⟨hv, under_slotKey _ n⟩
        exact le_lastIn he (decodeID_encodeID id)

include h in
/-- A command ends: its entry is not above its replica's last ID. -/
lemma minted_finish (hPost : postAdd db key n ⟨(s.view d).own db key n, known, d n⟩ out) :
    past.Minted db key R ((s.view d).finishing n) := by
  have hRuns : ∀ n', (((s.view d).finishing n).cmd n').isSome → n' ≠ n := by
    rintro n' hSome rfl
    change (update (s.view d).cmd n' none n').isSome at hSome
    rw [update_self] at hSome
    cases hSome
  have hCmd : ∀ n', n' ≠ n → ((s.view d).finishing n).cmd n' = (s.view d).cmd n' := fun n' hn =>
    update_of_ne hn _ _
  refine h.toMinted.keep (fun _ => rfl) (fun n' id hSome hWrote => ?_) (fun n' id hSome hWrote => ?_) fun n' hSome => ?_
  · exact ⟨hCmd n' (hRuns n' hSome), hWrote⟩
  · by_cases hn : n' = n
    · subst hn
      have hWrote' : (d n').wrote = some id := hWrote
      match out, hPost with
      | .ok (some id'), ⟨hEq, hLe, _⟩ =>
        obtain rfl : id' = id := some.inj (Eq.trans (Eq.symm hEq) hWrote')
        exact .inl hLe
      | .ok none, hNone => exact absurd (Eq.trans (Eq.symm hNone) hWrote') nofun
      | .error e, hNone => exact absurd (Eq.trans (Eq.symm hNone) hWrote') nofun
    · rw [hCmd n' hn]
      exact .inr ⟨hSome, hWrote⟩
  · rw [hCmd n' (hRuns n' hSome)] at hSome
    exact h.told n' hSome

include hKept h in
/-- What an acknowledged command leaves. -/
lemma acked_finish (hCmd : (s.view d).cmd n = some (.add noMkStream .auto fields))
    (hStays : Stays db key known (s.world n).data)
    (hPost : postAdd db key n ⟨(s.view d).own db key n, known, d n⟩ (.ok (some id))) :
    id ∉ past.acked.map Prod.fst ∧ (∃ e ∈ past.put, e.id = id ∧ e.origin = n ∧ e.fields = fields) ∧
    (s.view d).Has (metaBase db key) ∧ (s.view d).Has (streamLastBase db key) := by
  obtain ⟨hWrote, hLe, hMeta⟩ := hPost
  obtain ⟨hOnce, e, he, hId, hOrigin, noMkStream', hCmd'⟩ := h.wrote n id (isSome_of_eq_some hCmd) hWrote
  refine ⟨hOnce, ⟨e, he, hId, hOrigin, ?_⟩, ?_, ?_⟩
  · rw [hCmd] at hCmd'
    cases hCmd'
    rfl
  · rcases hMeta with hSighted | hOwn
    · exact hKept.has_of_sighted hSighted (fun _ hk => .inl hk) hStays
    · refine ⟨slotKey (metaBase db key) n, under_slotKey _ n, ?_⟩
      change ((s.view d).own db key n (slotKey (metaBase db key) n)).isSome at hOwn
      rw [View.own_of_mine (mine_metaSlot db key n), List.getLast?_isSome] at hOwn
      exact hOwn
  · -- its own last ID is not zero
    refine ⟨lastKey db key n, under_slotKey _ n, fun hNil => ?_⟩
    have hPos := (h.low e he).1
    change id.toNat ≤ (ownLast db key n ((s.view d).own db key n)).toNat at hLe
    rw [ownLast, View.own_of_mine (mine_lastKey n), hNil, ← hId] at hLe
    exact absurd hLe (Nat.not_le.mpr hPos)

/-- Something is put: an entry, its ID as the last one, or metadata. -/
lemma parts_put (hKey : key ≠ []) (h : past.Sound db key R (s.view d))
    (hRoom : past.put.length + 1 < 2 ^ 48)
    (hCmd : (s.view d).cmd n = some (.add noMkStream .auto fields))
    (hMove : s.Move db key (streamRules db key) d (.call n)
      ((s.view d).put n k val ((d n).note db key (.put k val) (.ok ()))))
    (hMay : mayAdd db key n .auto fields ((s.view d).own db key n) (d n) k val) :
    Matches db key { past with put := past.put ++ (entryOf db key (.add noMkStream .auto fields) n k).toList }
        ((s.view d).put n k val ((d n).note db key (.put k val) (.ok ()))) ∧
      Minted db key R { past with put := past.put ++ (entryOf db key (.add noMkStream .auto fields) n k).toList }
        ((s.view d).put n k val ((d n).note db key (.put k val) (.ok ()))) := by
  have hSome : ((s.view d).cmd n).isSome := isSome_of_eq_some hCmd
  obtain ⟨hWrote, es, now, id, st, hHeard, hMint, rfl, rfl⟩ | ⟨id, hWrote, hAbove, rfl, rfl⟩ | ⟨rfl, -⟩ := hMay
  · have hId : id = autoID now (lastIn (streamLastBase db key) n.name es).1 (discriminator n.name) :=
      (Except.ok.inj hMint).symm
    obtain ⟨-, -, -, hNew⟩ := h.mint hRoom hSome hWrote hHeard hId
    rw [note_entry hKey, entryOf_entryKey hKey]
    exact ⟨h.toMatches.entry hKey hNew st _, h.minted_entry hRoom hCmd hWrote hHeard hId _⟩
  · rw [note_other _ (not_entry_last n)] at hMove ⊢
    rw [entryOf_of_not _ n (not_entry_last n), toList_none, append_nil]
    refine ⟨h.toMatches.keep hMove fun id' n' => ?_, h.toMinted.last hSome hWrote hAbove⟩
    exact update_of_ne (lastKey_ne_entryKey n' n id').symm _ _
  · rw [note_other _ (not_entry_meta n)] at hMove ⊢
    rw [entryOf_of_not _ n (not_entry_meta n), toList_none, append_nil]
    refine ⟨h.toMatches.keep hMove fun id' n' => ?_, ?_⟩
    · exact update_of_ne (fun hEq => not_entry_meta n (hEq ▸ under_entryKey id' n')) _ _
    · have hNotes : ((s.view d).put n (slotKey (metaBase db key) n) val (d n)).notes = d := update_eq_self n d
      refine h.toMinted.keep (fun n' => update_of_ne (lastKey_ne_metaSlot n n') _ _) ?_ ?_ ?_
      · rw [hNotes]
        exact fun n' id _ hEq => ⟨rfl, hEq⟩
      · rw [hNotes]
        exact fun n' id hRuns hEq => .inr ⟨hRuns, hEq⟩
      · rw [hNotes]
        exact fun n' hRuns => h.told n' hRuns

include h in
lemma minted_start (hIdle : (s.view d).cmd n = none) (c : StreamCmd) :
    past.Minted db key R ((s.view d).starting n c {}) := by
  have hCmd : ∀ n', n' ≠ n → ((s.view d).starting n c {}).cmd n' = (s.view d).cmd n' := fun n' hn =>
    update_of_ne hn _ _
  have hNotes : ∀ n', n' ≠ n → ((s.view d).starting n c {}).notes n' = (s.view d).notes n' := fun n' hn =>
    update_of_ne hn _ _
  have hFresh : ((s.view d).starting n c {}).notes n = {} := update_self _ _ _
  refine h.toMinted.keep (fun _ => rfl) (fun n' id hSome hWrote => ?_) (fun n' id hSome hWrote => ?_) fun n' hSome => ?_
  · by_cases hn : n' = n
    · rw [hn, hFresh] at hWrote
      cases hWrote
    · rw [hNotes n' hn] at hWrote
      exact ⟨hCmd n' hn, hWrote⟩
  · have hn : n' ≠ n := by
      rintro rfl
      rw [hIdle] at hSome
      cases hSome
    rw [hCmd n' hn, hNotes n' hn]
    exact .inr ⟨hSome, hWrote⟩
  · by_cases hn : n' = n
    · rw [hn, hFresh]
      exact fun es hHeard => (nomatch hHeard)
    · rw [hCmd n' hn] at hSome
      rw [hNotes n' hn]
      exact h.told n' hSome

include hKept h in
lemma minted_query (n : Replica)
    (hCmd : ((s.view d).cmd n).isSome) (base : List Seg) (keysOnly : Bool) :
    past.Minted db key R ((s.view d).noting n ((d n).note db key (.query base keysOnly)
      (.ok (((s.world n).data.entries base).map (keyEntry keysOnly))))) := by
  obtain ⟨hSame, -⟩ := note_asked db key (d n) base keysOnly
    (((s.world n).data.entries base).map (keyEntry keysOnly))
  have hWrote : ∀ n', (((s.view d).noting n ((d n).note db key (.query base keysOnly)
      (.ok (((s.world n).data.entries base).map (keyEntry keysOnly))))).notes n').wrote = (d n').wrote := by
    intro n'
    show (update d n _ n').wrote = _
    by_cases hn : n' = n
    · rw [hn, update_self]
      exact hSame
    · rw [update_of_ne hn]
  refine h.toMinted.keep (fun _ => rfl) (fun n' id hSome hEq => ?_) (fun n' id hSome hEq => ?_) fun n' hSome => ?_
  · rw [hWrote] at hEq
    exact ⟨rfl, hEq⟩
  · rw [hWrote]
    exact .inr ⟨hSome, hEq⟩
  · show Told db key past.put n' _ (update d n _ n')
    by_cases hn : n' = n
    · subst hn
      rw [update_self]
      exact h.told_query hKept n' hCmd base keysOnly
    · rw [update_of_ne hn]
      exact h.told n' hSome

lemma parts_move {v : View (streamService db key) Streaming} (hKey : key ≠ [])
    (hKept : s.Kept db key (streamRules db key) d) (h : past.Sound db key R (s.view d))
    (hRoom : ∀ n, a = .call n → past.put.length + 1 < 2 ^ 48) (hMove : s.Move db key (streamRules db key) d a v) :
    (past.watch db key s a).Matches db key v ∧ (past.watch db key s a).Minted db key R v := by
  have hStill := hMove
  cases hMove with
  | @start n c hIdle =>
    have hNone : (s.view d).cmd n = none := congrArg (Option.map Sigma.fst) hIdle
    exact ⟨h.toMatches.keep hStill fun _ _ => rfl, h.minted_start hNone c⟩
  | @put n c k val next hJob hMine hMay =>
    have hCmd : (s.view d).cmd n = some c := cmd_of_job hJob
    obtain ⟨-, ⟨noMkStream, fields, rfl⟩, -⟩ := h.running n c hCmd
    have hWatch : past.watch db key s (.call n) =
        { past with put := past.put ++ (entryOf db key (.add noMkStream .auto fields) n k).toList } := by
      rw [Journal.watch, hJob]
    rw [hWatch]
    exact h.parts_put hKey (hRoom n rfl) hCmd hStill hMay
  | @query n c base keysOnly next hJob =>
    have hCmd : (s.view d).cmd n = some c := cmd_of_job hJob
    have hWatch : past.watch db key s (.call n) = past := by
      rw [Journal.watch, hJob]
    rw [hWatch]
    exact ⟨h.toMatches.keep hStill fun _ _ => rfl,
      h.minted_query hKept n (isSome_of_eq_some hCmd) base keysOnly⟩
  | @silent n c op next hJob hSilent =>
    have hWatch : past.watch db key s (.call n) = past := by
      rw [Journal.watch, hJob]
      cases op with
      | put => exact hSilent.elim
      | _ => rfl
    rw [hWatch]
    exact ⟨h.toMatches, h.toMinted⟩
  | @finish n c rest out known hJob hEnds hStays hPost =>
    have hCmd : (s.view d).cmd n = some c := cmd_of_job hJob
    obtain ⟨-, ⟨noMkStream, fields, rfl⟩, -⟩ := h.running n c hCmd
    have hMinted := h.minted_finish hPost
    have hMatches : past.Matches db key ((s.view d).finishing n) := h.toMatches.keep hStill fun _ _ => rfl
    match out, hEnds, hPost with
    | .ok (some id), hEnds, hPost =>
      have hDone : rest = .done (some id) := hEnds
      subst hDone
      have hWatch : past.watch db key s (.finish n) = { past with acked := past.acked ++ [(id, fields)] } := by
        rw [Journal.watch, hJob]
      rw [hWatch]
      have hAck := h.acked_finish hKept hCmd hStays hPost
      have hNone : ((s.view d).finishing n).cmd n = none := update_self _ _ _
      exact ⟨hMatches.ack hAck, hMinted.ack hMatches.nodup hAck.2.1 hNone⟩
    | .ok none, hEnds, hPost =>
      have hDone : rest = .done none := hEnds
      subst hDone
      have hWatch : past.watch db key s (.finish n) = past := by
        rw [Journal.watch, hJob]
      rw [hWatch]
      exact ⟨hMatches, hMinted⟩
    | .error e, hEnds, hPost =>
      have hFail : rest = .fail e := hEnds
      subst hFail
      have hWatch : past.watch db key s (.finish n) = past := by
        rw [Journal.watch, hJob]
      rw [hWatch]
      exact ⟨hMatches, hMinted⟩
  | receive => exact ⟨h.toMatches, h.toMinted⟩
  | forget => exact ⟨h.toMatches, h.toMinted⟩
  | other => exact ⟨h.toMatches, h.toMinted⟩

end Journal.Sound

/-- **Every run.** -/
theorem Journal.sound_of_reach (hKey : key ≠ [])
    (hLacks : ∀ n, Lacks (world n).data db key) {s : Traced (streamService db key) Journal}
    (h : Reach (Traced.step db key (Journal.watch db key)) (fun s a => AutoAdds db key R s a ∧ Spaced db key R s a)
      ⟨{ world }, {}⟩ s) :
    ∃ d, s.net.Kept db key (streamRules db key) d ∧ s.past.Sound db key R (s.net.view d) := by
  refine Rules.sound_of_reach (I := Journal.Sound db key R) (fun n c own => keeps_stream hKey n c own) ?_ ?_ hLacks
    (fun _ => {}) ?_ h
  · intro s d past hKept hI n _ _
    exact ⟨hI.streamed.metaSlots hKept n, hI.streamed.lastSlots hKept n⟩
  · intro s d a v hKept hI hK hMove
    have hRoom : ∀ n, a = .call n → s.past.put.length + 1 < 2 ^ 48 := by
      rintro n rfl
      exact hK.2
    obtain ⟨hMatches, hMinted⟩ := hI.parts_move hKey hKept hRoom hMove
    refine ⟨hMatches, hMinted, hI.streamed.move hMove, View.running_move hI.running hMove ?_⟩
    rintro n c rfl
    exact ⟨hK.1.1, hK.1.2, hK.2⟩
  · refine ⟨⟨.init _, fun _ ha => (nomatch ha), nodup_nil⟩,
      ⟨fun _ he => (nomatch he), fun _ he => (nomatch he), fun _ he => (nomatch he), fun _ _ hCmd => (nomatch hCmd),
        fun _ _ hMem => (nomatch hMem), fun _ hCmd => (nomatch hCmd)⟩, .init _, fun _ _ hCmd => (nomatch hCmd)⟩

/-- Where everything has arrived, an acknowledged entry is live, with its fields. -/
lemma Journal.Sound.live (hKey : key ≠ []) (hKept : s.Kept db key (streamRules db key) d)
    (h : past.Sound db key R (s.view d)) (ha : a ∈ past.acked)
    (hDelivered : s.Delivered db key n) : (⟨a.1, some a.2.list⟩ : StreamEntry) ∈
    liveEntries (streamBase db key) ((s.world n).data.entries (streamBase db key)) := by
  obtain ⟨⟨e, he, hId, hFields⟩, -⟩ := h.acked a ha
  have hSome := h.toBooked.arrived hKept hDelivered he
  rw [← hId, ← hFields]
  exact h.toBooked.live hKey hKept (h.streamed.filed hKept n) he hSome

end

/-- Every ID is between the lowest and the highest. -/
lemma inBounds_all (id : StreamID) :
    inBounds ⟨⟨0, 0⟩, false⟩ ⟨⟨.ofNat (2 ^ 64 - 1), .ofNat (2 ^ 64 - 1)⟩, false⟩ id = true := by
  have hMs := id.ms.toNat_lt
  have hSeq := id.seq.toNat_lt
  have hLow : id.lt ⟨0, 0⟩ = false := by
    rw [← Bool.not_eq_true, StreamID.not_lt_iff]
    exact Nat.zero_le _
  have hHigh : id.lt ⟨.ofNat (2 ^ 64 - 1), .ofNat (2 ^ 64 - 1)⟩ = true ∨
      id = ⟨.ofNat (2 ^ 64 - 1), .ofNat (2 ^ 64 - 1)⟩ := by
    rw [StreamID.lt_iff]
    by_cases hEq : id.toNat = (⟨.ofNat (2 ^ 64 - 1), .ofNat (2 ^ 64 - 1)⟩ : StreamID).toNat
    · exact .inr (StreamID.toNat_inj hEq)
    · refine .inl (Nat.lt_of_le_of_ne ?_ hEq)
      show id.ms.toNat * 2 ^ 64 + id.seq.toNat ≤ (2 ^ 64 - 1) * 2 ^ 64 + (2 ^ 64 - 1)
      omega
  simpa [inBounds, hLow] using hHigh

/-- **Streams lose no entry**, if the replicas that issue `XADD *` have different
discriminators and there are not more entries than the counter of an ID can count. All IDs
are different, those that were put and those that were acknowledged; and where everything
has arrived, `XRANGE` over all IDs finds every acknowledged entry, with the fields it was
added with. Clocks, other commands on other keys, and the order in which entries arrive are
arbitrary. -/
theorem streams_keep_entries {db : Int64} {key : Bytes} {R : Finset Replica} (hKey : key ≠ [])
    {world : Replica → World} (hLacks : ∀ n, Lacks (world n).data db key)
    {s : Traced (streamService db key) Journal}
    (h : Reach (Traced.step db key (Journal.watch db key)) (fun s a => AutoAdds db key R s a ∧ Spaced db key R s a)
      ⟨{ world }, {}⟩ s) :
    (s.past.put.map NewEntry.id).Nodup ∧ (s.past.acked.map Prod.fst).Nodup ∧
    ∀ n, s.net.Delivered db key n → ∀ a ∈ s.past.acked, ∃ es,
      ((streamRange ⟨n, db⟩ key ⟨⟨0, 0⟩, false⟩ ⟨⟨.ofNat (2 ^ 64 - 1), .ofNat (2 ^ 64 - 1)⟩, false⟩ 0 false).exec
        (s.net.world n)).1 = .ok es ∧ ⟨a.1, some a.2.list⟩ ∈ es := by
  obtain ⟨d, hKept, hd⟩ := Journal.sound_of_reach hKey hLacks h
  refine ⟨hd.nodup, hd.once, fun n hDelivered a ha => ?_⟩
  obtain ⟨-, hMeta, hLast⟩ := hd.acked a ha
  have hOpens := hd.streamed.opens hKept n hDelivered hMeta hLast
  refine ⟨_, by rw [exec_streamRange hOpens], mem_filter.mpr ⟨hd.live hKey hKept ha hDelivered, ?_⟩⟩
  exact inBounds_all a.1

/-- The field `a` with a digit. -/
def fieldA (digit : UInt8) : Fields := ⟨[[97], [digit]], by simp, by simp⟩

open Net.Event in
/-- Two replicas add an entry each, and the first one is told of both. -/
private def appending (n o : Replica) (id : StreamID) : List (Net.Event (streamService 0 [107])) :=
  Net.running n (StreamCmd.add false .auto (fieldA 49)) 10 ++ [finish n] ++
    Net.running o (StreamCmd.add false .auto (fieldA 50)) 10 ++ [finish o] ++
    [receive n (entryKey 0 [107] id o) 0, receive n (lastKey 0 [107] o) 0,
      receive n (slotKey (metaBase 0 [107]) o) 0]

/-- What they put. -/
private def appended (n o : Replica) (id id' : StreamID) : List Path :=
  [entryKey 0 [107] id n, lastKey 0 [107] n, slotKey (metaBase 0 [107]) n,
    entryKey 0 [107] id' o, lastKey 0 [107] o, slotKey (metaBase 0 [107]) o]

/-- Two replicas add entries in the same millisecond; one of them has both in the end. -/
theorem streams_keep_entries_pair : ∃ s, Reach (Traced.step 0 [107] (Journal.watch 0 [107]))
        (fun s a => AutoAdds 0 [107] {east, west} s a ∧ Spaced 0 [107] {east, west} s a)
        ⟨{ world := fun _ => .fresh }, {}⟩ s ∧
      s.past.acked.map (fun a => (a.1, a.2.list)) = [(⟨1, 8928⟩, [[97], [49]]), (⟨1, 16182⟩, [[97], [50]])] ∧
      s.net.Delivered 0 [107] east ∧ ∀ a ∈ s.past.acked, ∃ es,
        ((streamRange ⟨east, 0⟩ [107] ⟨⟨0, 0⟩, false⟩ ⟨⟨.ofNat (2 ^ 64 - 1), .ofNat (2 ^ 64 - 1)⟩, false⟩ 0 false).exec
          (s.net.world east)).1 = .ok es ∧ ⟨a.1, some a.2.list⟩ ∈ es := by
  obtain ⟨s, hPuts, hAcked, hAll⟩ : ∃ s, Reach (Traced.step 0 [107] (Journal.watch 0 [107]))
      (fun s a => (AutoAdds 0 [107] {east, west} s a ∧ Spaced 0 [107] {east, west} s a) ∧
        PutsIn (appended east west ⟨1, 8928⟩ ⟨1, 16182⟩) s.net a) ⟨{ world := fun _ => .fresh }, {}⟩ s ∧
      s.past.acked.map (fun a => (a.1, a.2.list)) = [(⟨1, 8928⟩, [[97], [49]]), (⟨1, 16182⟩, [[97], [50]])] ∧
        ∀ k ∈ appended east west ⟨1, 8928⟩ ⟨1, 16182⟩,
          s.net.copies.got east k = Finset.range (s.net.copies.log k).length :=
    Reach.of_eval (appending east west ⟨1, 16182⟩) (by decide +kernel)
  have hReach := hPuts.mono fun _ _ hBoth => hBoth.1
  have hDelivered := Net.delivered_of_putsIn hPuts hAll
  exact ⟨s, hReach, hAcked, hDelivered,
    (streams_keep_entries (by decide) (fun _ => World.lacks_fresh 0 [107]) hReach).2.2 east hDelivered⟩

/-- Two replicas with different names, `fa` and `mcy`, and the same discriminator. -/
private def fa : Replica := ⟨[102, 97], by decide⟩

private def mcy : Replica := ⟨[109, 99, 121], by decide⟩

/-- Two replicas with one discriminator mint one ID in one millisecond. Both commands are
acknowledged with it; where everything has arrived, the entry has the fields of one of
them, and those of the other are lost. -/
theorem same_discriminator_loses :
    ∃ s, Reach (Traced.step 0 [107] (Journal.watch 0 [107])) (AutoAdds 0 [107] {fa, mcy})
        ⟨{ world := fun _ => .fresh }, {}⟩ s ∧
      s.past.acked.map (fun a => (a.1, a.2.list)) = [(⟨1, 60264⟩, [[97], [49]]), (⟨1, 60264⟩, [[97], [50]])] ∧
      s.net.Delivered 0 [107] fa ∧ ∀ es,
        ((streamRange ⟨fa, 0⟩ [107] ⟨⟨0, 0⟩, false⟩ ⟨⟨.ofNat (2 ^ 64 - 1), .ofNat (2 ^ 64 - 1)⟩, false⟩ 0 false).exec
          (s.net.world fa)).1 = .ok es → ⟨⟨1, 60264⟩, some [[97], [49]]⟩ ∉ es := by
  obtain ⟨s, hPuts, hAcked, hAll, hMeta, hLive, hFields⟩ : ∃ s, Reach (Traced.step 0 [107] (Journal.watch 0 [107]))
      (fun s a => AutoAdds 0 [107] {fa, mcy} s a ∧ PutsIn (appended fa mcy ⟨1, 60264⟩ ⟨1, 60264⟩) s.net a)
      ⟨{ world := fun _ => .fresh }, {}⟩ s ∧
      s.past.acked.map (fun a => (a.1, a.2.list)) = [(⟨1, 60264⟩, [[97], [49]]), (⟨1, 60264⟩, [[97], [50]])] ∧
        (∀ k ∈ appended fa mcy ⟨1, 60264⟩ ⟨1, 60264⟩,
          s.net.copies.got fa k = Finset.range (s.net.copies.log k).length) ∧
        (metaAt (s.net.world fa).data ⟨fa, 0⟩ [107]).map Prod.fst = some (Kind.stream.envelope 0) ∧
        (s.net.world fa).data.entries (streamLastBase 0 [107]) ≠ [] ∧
        (liveValue (slotsFor (entrySlot (streamBase 0 [107]))
          ((s.net.world fa).data.entries (streamBase 0 [107])) ⟨1, 60264⟩)).bind decodeFields =
            some [[97], [50]] :=
    Reach.of_eval (appending fa mcy ⟨1, 60264⟩) (by decide +kernel)
  refine ⟨s, hPuts.mono fun _ _ hBoth => hBoth.1, hAcked, Net.delivered_of_putsIn hPuts hAll, fun es hEs hMem => ?_⟩
  obtain ⟨⟨m, mtime⟩, hMetaAt, rfl⟩ := map_eq_some_iff.mp hMeta
  rw [exec_streamRange (exec_ensureStream hMetaAt hLive)] at hEs
  cases hEs
  -- the slot of the other replica is the winner
  obtain ⟨v, f, hValue, hDecode, hEq⟩ := mem_liveEntries.mp (mem_filter.mp hMem).1
  rw [hValue, bind_some, hDecode] at hFields
  rw [hFields] at hEq
  exact absurd hEq (by decide)

end RedGeo.Repo
