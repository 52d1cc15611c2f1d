import RedGeo.Repo.Entries

/-!
# RedGeo — groups deliver at least once

`XADD` and `XREADGROUP >` of one group on one stream, at any number of replicas and outside
transactions. The last delivered ID of the group is the highest one that any replica knows; an
entry that arrives below it is not handed out any more.

* `Handouts.Sound` — everything up to a mark has been taken by a call, in every run in
  which readers miss no entry below one that has arrived.
* `groups_deliver` — once a call returns nothing, every entry has been handed out.
* `late_entry_is_skipped` — an entry with an ID below the mark never is.
-/

namespace RedGeo.Repo

open Lib Store Function List Option StreamID Streaming

variable {last : StreamID} {k : Path} {c : StreamCmd} {d : Streaming} {val : Bytes}

/-! ## What is remembered -/

/-- An entry as readers get it. -/
def NewEntry.entry (e : NewEntry) : StreamEntry := ⟨e.id, some e.fields.list⟩

/-- The entries that have been put; the last delivered ID that the running call of a replica
was told, and what it hands out; what was taken by any call, and what was returned. -/
structure Handouts where
  put : List NewEntry := []
  told : Replica → Option StreamID := fun _ => none
  reading : Replica → Option (List StreamEntry) := fun _ => none
  taken : List StreamEntry := []
  handed : List StreamEntry := []

section

variable (db : Int64) (key : Bytes)

/-- A call is told the state of its group, or the entries. -/
def Handouts.hear (h : Handouts) (n : Replica) (group : GroupName) (count : Int) (base : List Seg)
    (entries : List (Path × Bytes)) : Handouts :=
  if h.reading n = none then
    if base = groupBase db key group.name then
      { h with told := update h.told n (some (groupIn db key group entries).last) }
    else if base = streamBase db key then
      let out := (h.told n).elim [] fun last => handOut count last (liveEntries base entries)
      { h with reading := update h.reading n (some out), taken := h.taken ++ out }
    else h
  else h

def Handouts.watch (h : Handouts) (s : Net (streamService db key)) : Net.Event (streamService db key) → Handouts
  | .start n _ =>
    { h with told := update h.told n none, reading := update h.reading n none }
  | .call n =>
    match s.job n with
    | some ⟨c, .call (.put k _) _⟩ => { h with put := h.put ++ (entryOf db key c n k).toList }
    | some ⟨.readNew group _ count _, .call (.query base false) _⟩ =>
      h.hear db key n group count base ((s.world n).data.entries base)
    | _ => h
  | .finish n =>
    match s.job n with
    | some ⟨.readNew _ _ _ _, .done out⟩ => { h with handed := h.handed ++ (show List StreamEntry from out) }
    | _ => h
  | _ => h

section

variable (group : GroupName) (first : StreamID)

/-- Commands of one group, which is created with one ID wherever it is. -/
def Joins : StreamCmd → Prop
  | .add _ _ _ => True
  | .create g id _ => g = group ∧ id = first
  | .readNew g _ _ _ => g = group

def InGroup {σ : Type} (_ : σ) : Net.Event (streamService db key) → Prop
  | .start _ c => Joins group first c
  | _ => True

end

section

variable (first : StreamID) (past : Handouts) (n : Replica)

/-- What a replica lacks is below the ID that its call was told, or above all it has. -/
def Gapless (data : Datastore) : Prop :=
  ∀ e ∈ past.put, first.lt e.id → (∀ last ∈ past.told n, last.lt e.id) →
    (data[entryKey db key e.id e.origin]?).isSome ∨
      ∀ e' ∈ past.put, (data[entryKey db key e'.id e'.origin]?).isSome → e'.id.lt e.id

/-- What a command is about to do: an entry is put under an ID that is new and above those
that were taken, and the entries are read where none is missing below others. -/
def Proceeds (data : Datastore) :
    Option ((c : StreamCmd) × StoreM ((streamService db key).Out c)) → Prop
  | some ⟨c, .call (.put k _) _⟩ => ∀ e ∈ (entryOf db key c n k).toList, e.id ∉ past.put.map NewEntry.id ∧
    (first.lt e.id → ∀ x ∈ past.taken, x.id.lt e.id)
  | some ⟨.readNew _ _ _ _, .call (.query base false) _⟩ =>
    base = streamBase db key → Gapless db key first past n data
  | _ => True

end

def Sequenced (first : StreamID) (s : Traced (streamService db key) Handouts) :
    Net.Event (streamService db key) → Prop
  | .call n => Proceeds db key first s.past n (s.net.world n).data (s.net.job n)
  | _ => True

section

variable (first : StreamID)

instance (group : GroupName) : DecidablePred (Joins group first)
  | .add _ _ _ => isTrue trivial
  | .create g id _ => inferInstanceAs (Decidable (g = group ∧ id = first))
  | .readNew g _ _ _ => inferInstanceAs (Decidable (g = group))

instance (group : GroupName) {σ : Type} (s : σ) (a : Net.Event (streamService db key)) :
    Decidable (InGroup db key group first s a) :=
  match a with
  | .start _ c => inferInstanceAs (Decidable (Joins group first c))
  | .call _ | .finish _ | .receive _ _ _ | .forget _ _ _ | .other _ _ _ => isTrue trivial

instance (past : Handouts) (n : Replica) (data : Datastore) : Decidable (Gapless db key first past n data) :=
  inferInstanceAs (Decidable (∀ e ∈ past.put, first.lt e.id → (∀ last ∈ past.told n, last.lt e.id) →
    (data[entryKey db key e.id e.origin]?).isSome ∨
      ∀ e' ∈ past.put, (data[entryKey db key e'.id e'.origin]?).isSome → e'.id.lt e.id))

instance (past : Handouts) (n : Replica) (data : Datastore)
    (job : Option ((c : StreamCmd) × StoreM ((streamService db key).Out c))) :
    Decidable (Proceeds db key first past n data job) := by
  unfold Proceeds
  split
  · infer_instance
  · infer_instance
  · infer_instance

instance (s : Traced (streamService db key) Handouts) (a : Net.Event (streamService db key)) :
    Decidable (Sequenced db key first s a) :=
  match a with
  | .call n => inferInstanceAs (Decidable (Proceeds db key first s.past n (s.net.world n).data (s.net.job n)))
  | .start _ _ | .finish _ | .receive _ _ _ | .forget _ _ _ | .other _ _ _ => isTrue trivial

end

/-- Everything up to an ID has been taken, and entries to come are above it. -/
def Reached (first : StreamID) (put : List NewEntry) (taken : List StreamEntry) (id : StreamID) : Prop :=
  (id.toNat ≤ first.toNat ∨ ∃ x ∈ taken, id.toNat ≤ x.id.toNat) ∧
  ∀ e ∈ put, first.toNat < e.id.toNat → e.id.toNat ≤ id.toNat → e.entry ∈ taken

/-- Entries and marks, and what calls know of them. -/
structure Handouts.Tracks (group : GroupName) (first : StreamID) (past : Handouts)
    (v : View (streamService db key) Streaming) : Prop where
  booked : Booked db key past.put v
  marks : v.Logged (groupLastBase db key group.name) fun _ val =>
    ∃ epoch id, val = toBe 8 epoch ++ encodeID id ∧ Reached first past.put past.taken id
  told : ∀ n last, past.told n = some last → Reached first past.put past.taken last
  reading : ∀ n out final, past.reading n = some out → out.getLast? = some final →
    Reached first past.put past.taken final.id
  noted : ∀ n consumer count noack, v.cmd n = some (.readNew group consumer count noack) →
    past.told n = ((v.notes n).heard (groupBase db key group.name)).map (fun es => (groupIn db key group es).last) ∧
    past.reading n = ((v.notes n).heard (streamBase db key)).map (fun _ => (v.notes n).given db key group count)
  taken : ∀ x ∈ past.taken, x ∈ past.handed ∨ ∃ n consumer count noack out,
    v.cmd n = some (.readNew group consumer count noack) ∧ past.reading n = some out ∧ x ∈ out

/-- What holds in every run. -/
structure Handouts.Sound (group : GroupName) (first : StreamID) (past : Handouts)
    (v : View (streamService db key) Streaming) : Prop extends past.Tracks db key group first v where
  streamed : v.Streamed db key
  running : ∀ n c, v.cmd n = some c → Joins group first c

end

/-! ## Marks -/

section

variable {put : List NewEntry} {id : StreamID}

/-- There is nothing to take up to the ID with which the group was created. -/
lemma Reached.of_le (h : id.toNat ≤ first.toNat) : Reached first put taken id := by
  refine ⟨.inl h, fun e _ hAbove hLe => ?_⟩
  omega

lemma Reached.take (h : Reached first put taken id) (out : List StreamEntry) :
    Reached first put (taken ++ out) id := by
  refine ⟨h.1.imp_right fun ⟨x, hx, hLe⟩ => ⟨x, mem_append_left _ hx, hLe⟩, fun e he hAbove hLe => ?_⟩
  exact mem_append_left _ (h.2 e he hAbove hLe)

/-- An entry may be put above what was taken. -/
lemma Reached.add (h : Reached first put taken id) {e : NewEntry}
    (hAbove : first.toNat < e.id.toNat → ∀ x ∈ taken, x.id.toNat < e.id.toNat) :
    Reached first (put ++ [e]) taken id := by
  refine ⟨h.1, fun e' he' hFirst hLe => ?_⟩
  rcases mem_append.mp he' with hOld | hNew
  · exact h.2 e' hOld hFirst hLe
  · -- the mark is not above what was taken
    obtain rfl := mem_singleton.mp hNew
    rcases h.1 with hLow | ⟨x, hx, hHigh⟩
    · omega
    · have hLt := hAbove hFirst x hx
      omega

/-- The first elements of a sorted list: what is not among them is not below them. -/
lemma mem_limited_or {α : Type} {r : α → α → Prop} {l : List α} (hSorted : l.Pairwise r) (count : Int) {x : α}
    (hx : x ∈ l) : x ∈ limited count l ∨ ∀ y ∈ limited count l, r y x := by
  unfold limited
  split
  · rw [← take_append_drop count.toNat l] at hx hSorted
    rcases mem_append.mp hx with hTake | hDrop
    · exact .inl hTake
    · exact .inr fun y hy => (pairwise_append.mp hSorted).2.2 y hy x hDrop
  · exact .inl hx

lemma mem_of_mem_limited {α : Type} {count : Int} {l : List α} {x : α} (hx : x ∈ limited count l) : x ∈ l := by
  unfold limited at hx
  split at hx
  · exact mem_of_mem_take hx
  · exact hx

lemma limited_eq_nil {α : Type} {count : Int} {l : List α} (h : limited count l = []) : l = [] := by
  unfold limited at h
  split at h
  · next hPos =>
    rcases take_eq_nil_iff.mp h with hZero | hNil
    · omega
    · exact hNil
  · exact h

/-- **What a call hands out.** If nothing is missing between the mark and what is there, the
last of it is the next mark. -/
theorem Reached.handOut {all : List StreamEntry} (h : Reached first put taken last)
    (hSorted : all.Pairwise fun a b => a.id.toNat ≤ b.id.toNat)
    (hUnique : ∀ a ∈ all, ∀ b ∈ all, a.id = b.id → a = b)
    (hGap : ∀ e ∈ put, first.toNat < e.id.toNat → last.toNat < e.id.toNat →
      e.entry ∈ all ∨ ∀ x ∈ all, x.id.toNat < e.id.toNat) (count : Int) {final : StreamEntry}
    (hFinal : (Repo.handOut count last all).getLast? = some final) :
    Reached first put (taken ++ Repo.handOut count last all) final.id := by
  have hOut : final ∈ Repo.handOut count last all := mem_of_getLast? hFinal
  have hAll : final ∈ all := (mem_filter.mp (mem_of_mem_limited hOut)).1
  refine ⟨.inr ⟨final, mem_append_right _ hOut, Nat.le_refl _⟩, fun e he hFirst hLe => ?_⟩
  by_cases hOld : e.id.toNat ≤ last.toNat
  · exact mem_append_left _ (h.2 e he hFirst hOld)
  · refine mem_append_right _ ?_
    rw [Nat.not_le] at hOld
    rcases hGap e he hFirst hOld with hHere | hMissing
    · have hFilter : e.entry ∈ all.filter fun x => last.lt x.id :=
        mem_filter.mpr ⟨hHere, lt_iff.mpr hOld⟩
      rcases mem_limited_or (hSorted.filter _) count hFilter with hMem | hAfter
      · exact hMem
      · -- it is not after the last one, so it is that
        have hId : final.id = e.entry.id := toNat_inj (Nat.le_antisymm (hAfter final hOut) hLe)
        rw [← hUnique final hAll e.entry hHere hId]
        exact hOut
    · have hLt := hMissing final hAll
      omega

/-- The last delivered ID is one that is stored, if there is one. -/
lemma groupLast_mem (entries : List (Path × Bytes)) : (groupLast entries).2 = ⟨0, 0⟩ ∨
    ∃ e ∈ entries, ∃ replica, e.1 = [.word .l, .enc replica] ∧ decodeID (e.2.drop 8) = some (groupLast entries).2 := by
  induction entries using List.reverseRecOn with
  | nil => exact .inl rfl
  | append_singleton entries e ih =>
    have hOld : (groupLast entries).2 = ⟨0, 0⟩ ∨ ∃ e' ∈ entries ++ [e], ∃ replica,
        e'.1 = [.word .l, .enc replica] ∧ decodeID (e'.2.drop 8) = some (groupLast entries).2 :=
      ih.imp_right fun ⟨e', he', hRest⟩ => ⟨e', mem_append_left _ he', hRest⟩
    rw [groupLast, foldl_append]
    change (groupLast entries).2 = _ ∨ _ at hOld
    simp only [foldl_cons, foldl_nil]
    rw [← groupLast]
    split
    · next replica id hPath hDecode =>
      split
      · exact .inr ⟨e, mem_append_right _ mem_cons_self, replica, hPath, hDecode⟩
      · exact hOld
    · exact hOld

end

/-! ## Where marks are -/

section

variable {db : Int64} {key : Bytes} {group : GroupName} {first : StreamID} {past : Handouts}

lemma newKey_groupBase (hKey : key ≠ []) (group : GroupName) :
    newKey (groupBase db key group.name) = groupBase db key group.name := by
  simp [newKey, groupBase, groupsBase, dataBase, Store.part, hKey, group.nonempty]

/-- What is read as a mark is where marks are. -/
lemma under_last_of_trim (hKey : key ≠ []) (hUnder : Under (groupBase db key group.name) k)
    (hTrim : trimPrefix (groupBase db key group.name) k = [.word .l, .enc replica]) :
    Under (groupLastBase db key group.name) k := by
  obtain ⟨hPrefix, -⟩ := hUnder
  rw [newKey_groupBase hKey] at hPrefix
  obtain ⟨rest, rfl⟩ := hPrefix
  rw [trimPrefix, if_pos (prefix_append _ _), drop_left] at hTrim
  subst hTrim
  have hBase : newKey (groupLastBase db key group.name) = groupBase db key group.name ++ [.word .l] := by
    rw [groupLastBase, newKey, filter_append, ← newKey, newKey_groupBase hKey]
    rfl
  rw [Under, hBase]
  refine ⟨⟨[.enc replica], by simp⟩, fun hEq => ?_⟩
  have hLength := congrArg List.length hEq
  simp at hLength

/-- What is not of a group is elsewhere. -/
lemma not_mark_of_not (hk : ¬ Under (groupsBase db key) k) : ¬ Under (groupLastBase db key group.name) k := by
  intro hUnder
  have hPath : groupLastBase db key group.name = groupsBase db key ++ [.enc group.name, .word .l] := by
    simp [groupLastBase, groupBase]
  rw [hPath] at hUnder
  exact hk (under_of_append hUnder)

lemma not_mark_entry (id : StreamID) (n : Replica) :
    ¬ Under (groupLastBase db key group.name) (entryKey db key id n) :=
  not_mark_of_not (not_under_apart _ (by decide) [.id id.ms id.seq] n)

/-- The marks that commands put: the ID with which the group is created, and the last of what
a call hands out. -/
lemma mark_of_may {first : StreamID} {n : Replica} (hJoins : Joins group first c)
    (hMay : (streamRules db key).may n c own d k val) (hUnder : Under (groupLastBase db key group.name) k) :
    val = toBe 8 0 ++ encodeID first ∨ ∃ consumer count noack epoch final, c =
    .readNew group consumer count noack ∧ (d.given db key group count).getLast? = some final ∧ val =
    toBe 8 epoch ++ encodeID final.id := by
  have hMeta : ¬ Under (groupLastBase db key group.name) (slotKey (metaBase db key) n) :=
    not_mark_of_not (not_under_metaSlot db key [.word .xg] n)
  have hLast : ¬ Under (groupLastBase db key group.name) (lastKey db key n) :=
    not_mark_of_not (not_under_apart _ (by decide) [] n)
  cases c with
  | add noMkStream mode fields =>
    obtain ⟨-, es, now, id, st, -, -, rfl, -⟩ | ⟨id, -, -, rfl, -⟩ | ⟨rfl, -⟩ := hMay
    · exact absurd hUnder (not_mark_entry id n)
    · exact absurd hUnder hLast
    · exact absurd hUnder hMeta
  | create g id mkstream =>
    obtain ⟨rfl, rfl⟩ := hJoins
    obtain ⟨rfl, -⟩ | ⟨rfl, -⟩ | ⟨rfl, -⟩ | ⟨-, rfl⟩ := hMay
    · exact absurd hUnder hLast
    · exact absurd hUnder hMeta
    · exact absurd hUnder (not_under_apart (groupBase _ _ _) (by decide) [] n)
    · exact .inl rfl
  | readNew g consumer count noack =>
    obtain rfl : g = group := hJoins
    obtain rfl | ⟨id, rfl⟩ | ⟨-, ofGroup, final, -, hFinal, rfl⟩ := hMay
    · exact absurd hUnder (not_under_apart (groupBase _ _ _) (by decide) [.enc consumer] n)
    · exact absurd hUnder (not_under_apart (groupBase _ _ _) (by decide) [.id id.ms id.seq] n)
    · exact .inr ⟨consumer, count, noack, _, final, rfl, hFinal, rfl⟩

/-- Only `XADD` puts an entry. -/
lemma entry_of_may {n : Replica} (hMay : (streamRules db key).may n c own d k val)
    (hUnder : Under (streamBase db key) k) : ∃ noMkStream mode fields id st, c = .add noMkStream mode fields ∧
    k = entryKey db key id n ∧ val = encodeSlot ⟨st, tagPresent, encodeFields fields.list⟩ := by
  cases c with
  | add noMkStream mode fields =>
    obtain ⟨-, es, now, id, st, -, -, hk, hVal⟩ | ⟨id, -, -, rfl, -⟩ | ⟨rfl, -⟩ := hMay
    · exact ⟨noMkStream, mode, fields, id, st, rfl, hk, hVal⟩
    · exact absurd hUnder (not_entry_last n)
    · exact absurd hUnder (not_entry_meta n)
  | create g id mkstream =>
    obtain ⟨rfl, -⟩ | ⟨rfl, -⟩ | ⟨rfl, -⟩ | ⟨rfl, -⟩ := hMay
    · exact absurd hUnder (not_entry_last n)
    · exact absurd hUnder (not_entry_meta n)
    · exact absurd hUnder (not_entry_group n [.enc g.name, .word .m])
    · exact absurd hUnder (not_entry_group n [.enc g.name, .word .l])
  | readNew g consumer count noack =>
    obtain rfl | ⟨id, rfl⟩ | ⟨rfl, -⟩ := hMay
    · exact absurd hUnder (not_entry_group n [.enc g.name, .word .c, .enc consumer])
    · exact absurd hUnder (not_entry_group n [.enc g.name, .word .p, .id id.ms id.seq])
    · exact absurd hUnder (not_entry_group n [.enc g.name, .word .l])

/-! ## Moves -/

namespace Handouts

section

variable {v : View (streamService db key) Streaming}

variable (h : past.Tracks db key group first v)

include h

/-- A command starts: it has been told nothing. -/
lemma Tracks.start {n : Replica} (hIdle : v.cmd n = none) (c : StreamCmd) :
    Tracks db key group first
      { past with told := update past.told n none, reading := update past.reading n none }
      (v.starting n c {}) := by
  refine ⟨h.booked.keep fun _ _ => rfl, h.marks, fun n' last hTold => ?_, fun n' out final hReading hFinal => ?_,
    fun n' consumer count noack hCmd => ?_, fun x hx => ?_⟩
  · obtain ⟨-, hNone⟩ | ⟨-, hOld⟩ := update_cases hTold
    · cases hNone
    · exact h.told n' last hOld
  · obtain ⟨-, hNone⟩ | ⟨-, hOld⟩ := update_cases hReading
    · cases hNone
    · exact h.reading n' out final hOld hFinal
  · change update v.cmd n _ n' = _ at hCmd
    show update past.told n none n' = _ ∧ update past.reading n none n' = _
    by_cases hn : n' = n
    · have hNotes : (v.starting n c {}).notes n' = {} := by
        rw [hn]
        exact update_self _ _ _
      rw [hNotes, hn, update_self, update_self]
      exact ⟨rfl, rfl⟩
    · have hNotes : (v.starting n c {}).notes n' = v.notes n' := update_of_ne hn _ _
      rw [update_of_ne hn] at hCmd
      rw [hNotes, update_of_ne hn, update_of_ne hn]
      exact h.noted n' consumer count noack hCmd
  · refine (h.taken x hx).imp_right ?_
    rintro ⟨n', consumer, count, noack, out, hCmd, hReading, hMem⟩
    have hn : n' ≠ n := by
      rintro rfl
      rw [hIdle] at hCmd
      cases hCmd
    exact ⟨n', consumer, count, noack, out, (update_of_ne hn _ _).trans hCmd,
      (update_of_ne hn _ _).trans hReading, hMem⟩

/-- What calls have heard is as before when something is put. -/
lemma Tracks.noted_put (hHeard : d.heard = (v.notes n).heard) (k : Path) (val : Bytes) (n' : Replica)
    (consumer : Bytes) (count : Int) (noack : Bool)
    (hCmd : v.cmd n' = some (.readNew group consumer count noack)) :
    past.told n' = (((v.put n k val d).notes n').heard (groupBase db key group.name)).map
        (fun es => (groupIn db key group es).last) ∧
      past.reading n' = (((v.put n k val d).notes n').heard (streamBase db key)).map
        (fun _ => ((v.put n k val d).notes n').given db key group count) := by
  have hSame : ((v.put n k val d).notes n').heard = (v.notes n').heard := by
    show (update v.notes n d n').heard = _
    by_cases hn : n' = n
    · rw [hn, update_self]
      exact hHeard
    · rw [update_of_ne hn]
  rw [given, hSame]
  exact h.noted n' consumer count noack hCmd

/-- An entry is put, above all that were taken. -/
lemma Tracks.add (hKey : key ≠ []) {id : StreamID}
    {fields : Fields} (hNew : id ∉ past.put.map NewEntry.id)
    (hAbove : first.toNat < id.toNat → ∀ x ∈ past.taken, x.id.toNat < id.toNat) (st : Stamp)
    (hHeard : d.heard = (v.notes n).heard) :
    Tracks db key group first { past with put := past.put ++ [⟨n, id, fields⟩] }
      (v.put n (entryKey db key id n) (encodeSlot ⟨st, tagPresent, encodeFields fields.list⟩) d) := by
  refine ⟨h.booked.entry hKey hNew st d, fun k val hUnder hMem => ?_, fun n' last hTold => (h.told n' last hTold).add hAbove,
    fun n' out final hReading hFinal => (h.reading n' out final hReading hFinal).add hAbove, h.noted_put hHeard _ _,
    h.taken⟩
  have hk : k ≠ entryKey db key id n := by
    rintro rfl
    exact not_mark_entry id n hUnder
  change val ∈ update v.log (entryKey db key id n) _ k at hMem
  rw [update_of_ne hk] at hMem
  obtain ⟨epoch, id', hVal, hReached⟩ := h.marks k val hUnder hMem
  exact ⟨epoch, id', hVal, hReached.add hAbove⟩

/-- Something else is put; if it is a mark, it has been reached. -/
lemma Tracks.record
    (hEntry : ¬ Under (streamBase db key) k) (hMark : Under (groupLastBase db key group.name) k →
      ∃ epoch id, val = toBe 8 epoch ++ encodeID id ∧ Reached first past.put past.taken id)
    (hHeard : d.heard = (v.notes n).heard) : past.Tracks db key group first (v.put n k val d) := by
  refine ⟨h.booked.keep fun id n' => ?_, fun k' val' hUnder hMem => ?_, h.told, h.reading, h.noted_put hHeard k val,
    h.taken⟩
  · refine update_of_ne ?_ _ _
    rintro rfl
    exact hEntry (under_entryKey id n')
  · obtain hOld | ⟨rfl, rfl⟩ := mem_update_append hMem
    · exact h.marks k' val' hUnder hOld
    · exact hMark hUnder

omit h

/-- A command that runs after one has ended ran before. -/
lemma cmd_of_finishing {n' : Replica} (hCmd : (v.finishing n).cmd n' = some c) : v.cmd n' = some c := by
  obtain ⟨-, hNone⟩ | ⟨-, hOld⟩ := update_cases hCmd
  · cases hNone
  · exact hOld

/-- A command ends that has taken nothing. -/
lemma Tracks.finish (h : past.Tracks db key group first v) {n : Replica}
    (hUnread : ∀ consumer count noack, v.cmd n = some (.readNew group consumer count noack) → past.reading n = none) :
    past.Tracks db key group first (v.finishing n) := by
  refine ⟨h.booked.keep fun _ _ => rfl, h.marks, h.told, h.reading,
    fun n' consumer count noack hCmd => h.noted n' consumer count noack (cmd_of_finishing hCmd),
    fun x hx => (h.taken x hx).imp_right ?_⟩
  rintro ⟨n', consumer, count, noack, out, hCmd, hReading, hMem⟩
  have hn : n' ≠ n := by
    rintro rfl
    rw [hUnread consumer count noack hCmd] at hReading
    cases hReading
  exact ⟨n', consumer, count, noack, out, (update_of_ne hn _ _).trans hCmd, hReading, hMem⟩

/-- A call returns what it has taken. -/
lemma Tracks.hand (h : past.Tracks db key group first v) {out : List StreamEntry}
    (hOut : ∀ out', past.reading n = some out' → out' = out) :
    Tracks db key group first { past with handed := past.handed ++ out } (v.finishing n) := by
  refine ⟨h.booked.keep fun _ _ => rfl, h.marks, h.told, h.reading,
    fun n' consumer count noack hCmd => h.noted n' consumer count noack (cmd_of_finishing hCmd), fun x hx => ?_⟩
  rcases h.taken x hx with hOld | ⟨n', consumer, count, noack, out', hCmd, hReading, hMem⟩
  · exact .inl (mem_append_left _ hOld)
  · by_cases hn : n' = n
    · rw [hn] at hReading
      rw [hOut out' hReading] at hMem
      exact .inl (mem_append_right _ hMem)
    · exact .inr ⟨n', consumer, count, noack, out', (update_of_ne hn _ _).trans hCmd, hReading, hMem⟩

end

/-! ## Reading -/

section

variable {s : Net (streamService db key)} {d : Replica → Streaming}

/-- The last delivered ID that a node knows of has been reached. -/
lemma Tracks.reached_last (hKey : key ≠ []) (hKept : s.Kept db key (streamRules db key) d)
    (h : past.Tracks db key group first (s.view d)) (n : Replica) :
    Reached first past.put past.taken
      (groupIn db key group ((s.world n).data.entries (groupBase db key group.name))).last := by
  show Reached first past.put past.taken (groupLast _).2
  obtain hZero | ⟨e, he, replica, hTrim, hDecode⟩ := groupLast_mem
    (((s.world n).data.entries (groupBase db key group.name)).map fun e =>
      (trimPrefix (groupBase db key group.name) e.1, e.2))
  · rw [hZero]
    exact Reached.of_le (Nat.zero_le _)
  · obtain ⟨e', he', rfl⟩ := mem_map.mp he
    obtain ⟨hEntry, hUnder⟩ := Datastore.mem_entries.mp he'
    have hMem := hKept.mem_log (.inr (under_of_append (under_of_append hUnder))) hEntry
    obtain ⟨epoch, id, hVal, hReached⟩ := h.marks e'.1 e'.2 (under_last_of_trim hKey hUnder hTrim) hMem
    -- the ID is what follows the epoch
    have hId : decodeID (e'.2.drop 8) = some id := by
      rw [hVal, drop_left' (length_toBe 8 epoch), decodeID_encodeID]
    change decodeID (e'.2.drop 8) = some _ at hDecode
    rw [hId, some.injEq] at hDecode
    rw [← hDecode]
    exact hReached

/-- What a call hands out, where no entry is missing below others. -/
lemma Tracks.reached_handOut (hKey : key ≠ []) (hKept : s.Kept db key (streamRules db key) d)
    (h : past.Tracks db key group first (s.view d)) {n : Replica}
    (hFiled : Filed db key (s.world n).data)
    (hGapless : Gapless db key first past n (s.world n).data) (hTold : past.told n = some last)
    (count : Int)
    (hFinal : (handOut count last (liveEntries (streamBase db key)
      ((s.world n).data.entries (streamBase db key)))).getLast? = some final) :
    Reached first past.put (past.taken ++ handOut count last (liveEntries (streamBase db key)
      ((s.world n).data.entries (streamBase db key)))) final.id := by
  refine (h.told n last hTold).handOut (sorted_liveEntries _ _) (fun a ha b hb => unique_liveEntries ha hb)
    (fun e he hFirst hLast => ?_) count hFinal
  have hAbove : ∀ last' ∈ past.told n, last'.lt e.id := by
    intro last' hMem
    rw [hTold, mem_some_iff] at hMem
    exact hMem ▸ lt_iff.mpr hLast
  rcases hGapless e he (lt_iff.mpr hFirst) hAbove with hHere | hMissing
  · exact .inl (h.booked.live hKey hKept hFiled he hHere)
  · refine .inr fun x hx => ?_
    obtain ⟨e', he', rfl, hHere⟩ := h.booked.of_live hKey hKept hFiled hx
    exact lt_iff.mp (hMissing e' he' hHere)

/-- What a command is told is neither of the group nor an entry, or it is no call of the group. -/
lemma Tracks.hear_else (h : past.Tracks db key group first (s.view d)) {n : Replica}
    (hHeard : ∀ consumer count noack, (s.view d).cmd n = some (.readNew group consumer count noack) →
      ∀ base, base = groupBase db key group.name ∨ base = streamBase db key → d'.heard base = (d n).heard base) :
    past.Tracks db key group first ((s.view d).noting n d') := by
  refine ⟨h.booked.keep fun _ _ => rfl, h.marks, h.told, h.reading, fun n' consumer count noack hCmd => ?_, h.taken⟩
  have hNoted := h.noted n' consumer count noack hCmd
  by_cases hn : n' = n
  · subst hn
    have hSame := hHeard consumer count noack hCmd
    have hNotes : ((s.view d).noting n' d').notes n' = d' := update_self _ _ _
    have hGiven : d'.given db key group count = (d n').given db key group count := by
      unfold given
      rw [hSame _ (.inl rfl), hSame _ (.inr rfl)]
    rw [hNotes, hGiven, hSame _ (.inl rfl), hSame _ (.inr rfl)]
    exact hNoted
  · have hNotes : ((s.view d).noting n d').notes n' = (s.view d).notes n' := update_of_ne hn _ _
    rw [hNotes]
    exact hNoted

section

variable (hKey : key ≠ []) (hKept : s.Kept db key (streamRules db key) d)
  (h : past.Tracks db key group first (s.view d)) {n : Replica} {consumer : Bytes} {count : Int} {noack : Bool}
  (hCmd : (s.view d).cmd n = some (.readNew group consumer count noack)) (hUnread : past.reading n = none)

include hCmd hUnread h

lemma Tracks.unheard : (d n).heard (streamBase db key) = none := by
  have hNoted := (h.noted n consumer count noack hCmd).2
  rw [hUnread] at hNoted
  exact map_eq_none_iff.mp hNoted.symm

include hKey hKept

/-- A call is told the state of its group. -/
lemma Tracks.hear_group {d' : Streaming} (hHeard : d'.heard = update (d n).heard
      (groupBase db key group.name) (some ((s.world n).data.entries (groupBase db key group.name))))
    (hLast : last = (groupIn db key group ((s.world n).data.entries (groupBase db key group.name))).last) :
    Tracks db key group first { past with told := update past.told n (some last) }
      ((s.view d).noting n d') := by
  have hUnheard := h.unheard hCmd hUnread
  refine ⟨h.booked.keep fun _ _ => rfl, h.marks, fun n' last' hTold => ?_, h.reading,
    fun n' consumer' count' noack' hCmd' => ?_, h.taken⟩
  · obtain ⟨rfl, hNew⟩ | ⟨-, hOld⟩ := update_cases hTold
    · rw [← some.inj hNew, hLast]
      exact h.reached_last hKey hKept n'
    · exact h.told n' last' hOld
  · show update past.told n _ n' = _ ∧ past.reading n' = _
    by_cases hn : n' = n
    · subst hn
      have hNotes : ((s.view d).noting n' d').notes n' = d' := update_self _ _ _
      rw [hNotes, hHeard, update_self, update_self,
        update_of_ne (streamBase_ne_groupBase group.name), hUnheard, hUnread, hLast]
      exact ⟨rfl, rfl⟩
    · have hNotes : ((s.view d).noting n d').notes n' = (s.view d).notes n' := update_of_ne hn _ _
      rw [hNotes, update_of_ne hn]
      exact h.noted n' consumer' count' noack' hCmd'

/-- A call is told the entries, and takes what it hands out. -/
lemma Tracks.hear_entries (hFiled : Filed db key (s.world n).data)
    (hGapless : Gapless db key first past n (s.world n).data) {d' : Streaming}
    (hHeard : d'.heard = update (d n).heard (streamBase db key)
      (some ((s.world n).data.entries (streamBase db key))))
    (hOut : out = (past.told n).elim [] fun last =>
      handOut count last (liveEntries (streamBase db key) ((s.world n).data.entries (streamBase db key)))) :
    Tracks db key group first
      { past with reading := update past.reading n (some out), taken := past.taken ++ out }
      ((s.view d).noting n d') := by
  have hNotedTold := (h.noted n consumer count noack hCmd).1
  -- what the notes say it hands out
  have hGiven : d'.given db key group count = out := by
    have hGroup : d'.heard (groupBase db key group.name) = (d n).heard (groupBase db key group.name) := by
      rw [hHeard, update_of_ne (streamBase_ne_groupBase group.name).symm]
    have hEntries : d'.heard (streamBase db key) = some ((s.world n).data.entries (streamBase db key)) := by
      rw [hHeard, update_self]
    rw [hOut, hNotedTold, given, hGroup, hEntries]
    change _ = Option.elim (((d n).heard (groupBase db key group.name)).map _) _ _
    cases (d n).heard (groupBase db key group.name) with
    | none => rfl
    | some es => rfl
  refine ⟨h.booked.keep fun _ _ => rfl, fun k val hUnder hMem => ?_, fun n' last hTold => (h.told n' last hTold).take out,
    fun n' out' final hReading hFinal => ?_, fun n' consumer' count' noack' hCmd' => ?_, fun x hx => ?_⟩
  · obtain ⟨epoch, id, hVal, hReached⟩ := h.marks k val hUnder hMem
    exact ⟨epoch, id, hVal, hReached.take out⟩
  -- no entry up to the last one that this call hands out has been missed
  · obtain ⟨rfl, hNew⟩ | ⟨-, hOld⟩ := update_cases hReading
    · obtain rfl := some.inj hNew
      cases hTold : past.told n' with
      | none =>
        rw [hOut, hTold] at hFinal
        cases hFinal
      | some last =>
        rw [hTold] at hOut
        subst hOut
        exact h.reached_handOut hKey hKept hFiled hGapless hTold count hFinal
    · exact (h.reading n' out' final hOld hFinal).take out
  · show past.told n' = _ ∧ update past.reading n (some out) n' = _
    by_cases hn : n' = n
    · subst hn
      have hNotes : ((s.view d).noting n' d').notes n' = d' := update_self _ _ _
      have hCount : count' = count := by
        rw [show (s.view d).cmd n' = some (.readNew group consumer' count' noack') from hCmd'] at hCmd
        injection hCmd with hEq
        injection hEq
      rw [hNotes, hCount, hGiven, hHeard, update_self, update_self,
        update_of_ne (streamBase_ne_groupBase group.name).symm]
      exact ⟨hNotedTold, rfl⟩
    · have hNotes : ((s.view d).noting n d').notes n' = (s.view d).notes n' := update_of_ne hn _ _
      rw [hNotes, update_of_ne hn]
      exact h.noted n' consumer' count' noack' hCmd'
  -- what was taken before is in other hands, since this call had read nothing
  · rcases mem_append.mp hx with hOld | hNew
    · refine (h.taken x hOld).imp_right ?_
      rintro ⟨n', consumer', count', noack', out', hCmd', hReading, hMem⟩
      have hn : n' ≠ n := by
        rintro rfl
        rw [hUnread] at hReading
        cases hReading
      exact ⟨n', consumer', count', noack', out', hCmd', (update_of_ne hn _ _).trans hReading, hMem⟩
    · exact .inr ⟨n, consumer, count, noack, out, hCmd, update_self _ _ _, hNew⟩

end

end

end Handouts

/-! ## Runs -/

variable {s : Net (streamService db key)} {d : Replica → Streaming}

namespace Handouts.Sound

variable (hKey : key ≠ []) (hKept : s.Kept db key (streamRules db key) d)
  (h : past.Sound db key group first (s.view d))

include hKey h in
lemma tracks_put (hCmd : (s.view d).cmd n = some c)
    (hMay : (streamRules db key).may n c ((s.view d).own db key n) (d n) k val)
    (hFresh : ∀ e ∈ (entryOf db key c n k).toList, e.id ∉ past.put.map NewEntry.id ∧
      (first.lt e.id → ∀ x ∈ past.taken, x.id.lt e.id)) :
    Tracks db key group first { past with put := past.put ++ (entryOf db key c n k).toList }
      ((s.view d).put n k val ((d n).note db key (.put k val) (.ok ()))) := by
  have hHeard : ((d n).note db key (.put k val) (.ok ())).heard = ((s.view d).notes n).heard := by
    by_cases hk : Under (streamBase db key) k
    · rw [note, if_pos hk]
      rfl
    · rw [note_other _ hk]
      rfl
  by_cases hEntry : Under (streamBase db key) k
  · -- only an `XADD` puts an entry
    obtain ⟨noMkStream, mode, fields, id, st, rfl, rfl, rfl⟩ := entry_of_may hMay hEntry
    rw [entryOf_entryKey hKey] at hFresh ⊢
    obtain ⟨hNew, hAbove⟩ := hFresh _ mem_cons_self
    exact h.toTracks.add hKey hNew
      (fun hFirst x hx => lt_iff.mp (hAbove (lt_iff.mpr hFirst) x hx)) st hHeard
  · rw [entryOf_of_not c n hEntry, toList_none, append_nil]
    refine h.toTracks.record hEntry (fun hUnder => ?_) hHeard
    obtain hVal | ⟨consumer, count, noack, epoch, final, rfl, hFinal, hVal⟩ :=
      mark_of_may (h.running n c hCmd) hMay hUnder
    · exact ⟨0, first, hVal, Reached.of_le (Nat.le_refl _)⟩
    · -- a call that hands something out has been told the entries
      refine ⟨epoch, final.id, hVal, ?_⟩
      have hReading : past.reading n = ((d n).heard (streamBase db key)).map _ :=
        (h.noted n consumer count noack hCmd).2
      cases hEntries : (d n).heard (streamBase db key) with
      | none =>
        have hNil : (d n).given db key group count = [] := by
          unfold given
          rw [hEntries]
          split
          · next hSome => cases hSome
          · rfl
        rw [hNil] at hFinal
        cases hFinal
      | some es =>
        rw [hEntries] at hReading
        exact h.reading n _ final hReading hFinal

include hKey hKept h in
/-- A call of the group asks for something. -/
lemma tracks_hear {consumer : Bytes} {count : Int} {noack : Bool}
    (hCmd : (s.view d).cmd n = some (.readNew group consumer count noack)) (base : List Seg)
    (hGapless : base = streamBase db key → Gapless db key first past n (s.world n).data) :
    (past.hear db key n group count base ((s.world n).data.entries base)).Tracks db key group first
      ((s.view d).noting n ((d n).note db key (.query base false) (.ok ((s.world n).data.entries base)))) := by
  unfold hear
  by_cases hUnread : past.reading n = none
  · rw [if_pos hUnread]
    have hUnheard := h.toTracks.unheard hCmd hUnread
    by_cases hGroup : base = groupBase db key group.name
    · subst hGroup
      rw [if_pos rfl, note_heard _ (noted_group group) hUnheard]
      exact h.toTracks.hear_group hKey hKept hCmd hUnread rfl rfl
    · rw [if_neg hGroup]
      by_cases hEntries : base = streamBase db key
      · subst hEntries
        rw [if_pos rfl, note_heard _ noted_entries hUnheard]
        exact h.toTracks.hear_entries hKey hKept hCmd hUnread (h.streamed.filed hKept n) (hGapless rfl) rfl rfl
      · rw [if_neg hEntries]
        -- it hears something else
        refine h.toTracks.hear_else fun _ _ _ _ base' hBase' => ?_
        by_cases hNoted : Noted db key base
        · rw [note_heard _ hNoted hUnheard]
          refine update_of_ne ?_ _ _
          rintro rfl
          rcases hBase' with hEq | hEq
          · exact hGroup hEq
          · exact hEntries hEq
        · have hSame : (d n).note db key (.query base false) (.ok ((s.world n).data.entries base)) = d n :=
            if_neg fun hBoth => hNoted hBoth.1
          rw [hSame]
  · rw [if_neg hUnread]
    have hHeard : (d n).heard (streamBase db key) ≠ none := by
      intro hNone
      have hReading : past.reading n = ((d n).heard (streamBase db key)).map _ :=
        (h.noted n consumer count noack hCmd).2
      rw [hNone] at hReading
      exact hUnread hReading
    rw [note_read _ _ _ hHeard]
    exact h.toTracks.hear_else fun _ _ _ _ _ _ => rfl

include hKey hKept h in
lemma tracks_query {keysOnly : Bool}
    {next : Answer (.query base keysOnly) → StoreM ((streamService db key).Out c)}
    (hJob : s.job n = some ⟨c, .call (.query base keysOnly) next⟩)
    (hK : Sequenced db key first ⟨s, past⟩ (.call n)) :
    (past.watch db key s (.call n)).Tracks db key group first
      ((s.view d).noting n ((d n).note db key (.query base keysOnly)
        (.ok (((s.world n).data.entries base).map (keyEntry keysOnly))))) := by
  have hCmd : (s.view d).cmd n = some c := cmd_of_job hJob
  cases c with
  | add | create =>
    have hWatch : past.watch db key s (.call n) = past := by
      rw [Handouts.watch, hJob]
      cases keysOnly <;> rfl
    rw [hWatch]
    refine h.toTracks.hear_else fun consumer count noack hEq => ?_
    rw [hCmd] at hEq
    cases hEq
  | readNew g consumer count noack =>
    obtain rfl : g = group := h.running n _ hCmd
    cases keysOnly with
    | true =>
      have hWatch : past.watch db key s (.call n) = past := by
        rw [Handouts.watch, hJob]
      rw [hWatch]
      exact h.toTracks.hear_else fun _ _ _ _ _ _ => rfl
    | false =>
      have hWatch : past.watch db key s (.call n) =
          past.hear db key n g count base ((s.world n).data.entries base) := by
        rw [Handouts.watch, hJob]
      rw [hWatch, map_keyEntry_false]
      refine h.tracks_hear hKey hKept hCmd base fun hBase => ?_
      change Proceeds db key first past n (s.world n).data (s.job n) at hK
      rw [hJob] at hK
      exact hK hBase

include h in
lemma tracks_finish {out : Except Err ((streamService db key).Out c)} (hJob : s.job n = some ⟨c, rest⟩)
    (hEnds : Net.Ends rest out)
    (hPost : (streamRules db key).post n c ⟨(s.view d).own db key n, known, d n⟩ out) :
    (past.watch db key s (.finish n)).Tracks db key group first ((s.view d).finishing n) := by
  have hCmd : (s.view d).cmd n = some c := cmd_of_job hJob
  cases c with
  | add | create =>
    have hWatch : past.watch db key s (.finish n) = past := by
      rw [Handouts.watch, hJob]
    rw [hWatch]
    refine h.toTracks.finish fun consumer count noack hEq => ?_
    rw [hCmd] at hEq
    cases hEq
  | readNew g consumer count noack =>
    obtain rfl : g = group := h.running n _ hCmd
    have hReading : past.reading n = ((d n).heard (streamBase db key)).map _ :=
      (h.noted n consumer count noack hCmd).2
    cases out with
    | ok out =>
      have hDone : rest = .done out := hEnds
      subst hDone
      have hWatch : past.watch db key s (.finish n) =
          { past with handed := past.handed ++ (show List StreamEntry from out) } := by
        rw [Handouts.watch, hJob]
      rw [hWatch]
      refine h.toTracks.hand fun out' hOut' => ?_
      -- the reply is what the notes say
      have hOut : out = (d n).given db key g count := hPost
      rw [hReading] at hOut'
      obtain ⟨es, -, rfl⟩ := map_eq_some_iff.mp hOut'
      exact hOut.symm
    | error e =>
      have hFail : rest = .fail e := hEnds
      subst hFail
      have hWatch : past.watch db key s (.finish n) = past := by
        rw [Handouts.watch, hJob]
      rw [hWatch]
      refine h.toTracks.finish fun _ _ _ _ => ?_
      have hNone : (d n).heard (streamBase db key) = none := hPost
      rw [hReading, hNone]
      rfl

include hKey in
/-- **What a move leaves of it.** -/
theorem tracks_move {s : Traced (streamService db key) Handouts} {a : Net.Event (streamService db key)}
    {v : View (streamService db key) Streaming} (hKept : s.net.Kept db key (streamRules db key) d)
    (h : s.past.Sound db key group first (s.net.view d)) (hK : Sequenced db key first s a)
    (hMove : s.net.Move db key (streamRules db key) d a v) :
    (s.past.watch db key s.net a).Tracks db key group first v := by
  cases hMove with
  | @start n c hIdle => exact h.toTracks.start (congrArg (Option.map Sigma.fst) hIdle) c
  | @put n c k val next hJob hMine hMay =>
    have hWatch : s.past.watch db key s.net (.call n) =
        { s.past with put := s.past.put ++ (entryOf db key c n k).toList } := by
      rw [Handouts.watch, hJob]
    rw [hWatch]
    change Proceeds db key first s.past n (s.net.world n).data (s.net.job n) at hK
    rw [hJob] at hK
    exact h.tracks_put hKey (cmd_of_job hJob) hMay hK
  | @query n c base keysOnly next hJob => exact h.tracks_query hKey hKept hJob hK
  | @silent n c op next hJob hSilent =>
    have hWatch : s.past.watch db key s.net (.call n) = s.past := by
      rw [Handouts.watch, hJob]
      cases op with
      | put => exact hSilent.elim
      | query => exact hSilent.elim
      | _ => cases c <;> rfl
    rw [hWatch]
    exact h.toTracks
  | @finish n c rest out known hJob hEnds hStays hPost => exact h.tracks_finish hJob hEnds hPost
  | receive => exact h.toTracks
  | forget => exact h.toTracks
  | other => exact h.toTracks

end Handouts.Sound

/-- **Every run.** -/
theorem Handouts.sound_of_reach (hKey : key ≠ [])
    (hLacks : ∀ n, Lacks (world n).data db key) {s : Traced (streamService db key) Handouts}
    (h : Reach (Traced.step db key (Handouts.watch db key))
      (fun s a => InGroup db key group first s a ∧ Sequenced db key first s a) ⟨{ world }, {}⟩ s) :
    ∃ d, s.net.Kept db key (streamRules db key) d ∧ s.past.Sound db key group first (s.net.view d) := by
  refine Rules.sound_of_reach (I := Handouts.Sound db key group first) (fun n c own => keeps_stream hKey n c own)
    ?_ ?_ hLacks (fun _ => {}) ?_ h
  · intro s d past hKept hI n _ _
    exact ⟨hI.streamed.metaSlots hKept n, hI.streamed.lastSlots hKept n⟩
  · intro s d a v hKept hI hK hMove
    refine ⟨hI.tracks_move hKey hKept hK.2 hMove, hI.streamed.move hMove, View.running_move hI.running hMove ?_⟩
    rintro n c rfl
    exact hK.1
  · exact ⟨⟨.init _, fun _ _ _ hMem => (nomatch hMem), fun _ _ hTold => (nomatch hTold),
      fun _ _ _ hReading => (nomatch hReading), fun _ _ _ _ hCmd => (nomatch hCmd), fun _ hx => (nomatch hx)⟩,
      .init _, fun _ _ hCmd => (nomatch hCmd)⟩

end

/-! ## A call alone -/

section

variable (db : Int64) (key : Bytes) (n : Replica)

/-- `ensureStream`, whatever the key is. -/
lemma exec_ensureStream_cases (w : World) :
    ∃ out, (ensureStream ⟨n, db⟩ key).exec w = (out, w.probed ⟨n, db⟩ key) := by
  have hProbe := exec_probe ⟨n, db⟩ key w
  rw [ensureStream, read_bind hProbe]
  cases probeAt ⟨n, db⟩ key w.data (w.now 0) with
  | none => exact ⟨_, rfl⟩
  | some found =>
    show ∃ out, ReadM.exec (if found.type ≠ typeStream then .fail .keyType else pure _) _ = _
    split
    · exact ⟨_, rfl⟩
    · exact ⟨_, rfl⟩

/-- `groupOpen` fails, or it returns the state of the group. -/
lemma exec_groupOpen (w : World) (group : GroupName) :
    ∃ w', w'.data = w.data ∧ ((groupOpen ⟨n, db⟩ key group.name).exec w =
        (.ok (groupIn db key group (w.data.entries (groupBase db key group.name))), w') ∨
      ∃ e, (groupOpen ⟨n, db⟩ key group.name).exec w = (.error e, w')) := by
  refine ⟨w.probed ⟨n, db⟩ key, World.data_probed ⟨n, db⟩ key w, ?_⟩
  have hLoad : (loadGroup ⟨n, db⟩ key group.name).exec (w.probed ⟨n, db⟩ key) =
      (.ok (if (groupIn db key group (w.data.entries (groupBase db key group.name))).live then
        some (groupIn db key group (w.data.entries (groupBase db key group.name))) else none),
        w.probed ⟨n, db⟩ key) := by
    rw [loadGroup, if_neg group.nonempty, ← World.data_probed ⟨n, db⟩ key w]
    exact exec_load (groupBase db key group.name) (fun entries =>
      if (groupIn db key group entries).live then some (groupIn db key group entries) else none) _
  obtain ⟨out, hStream⟩ := exec_ensureStream_cases db key n w
  rw [groupOpen]
  rcases out with e | _ | etime
  · exact .inr ⟨e, read_bind_error hStream _⟩
  · exact .inr ⟨.noGroup, read_bind hStream _⟩
  · rw [read_bind hStream]
    show ReadM.exec (loadGroup ⟨n, db⟩ key group.name >>= _) _ = _ ∨ ∃ e, ReadM.exec (loadGroup _ _ _ >>= _) _ = _
    rw [read_bind hLoad]
    by_cases hLive : (groupIn db key group (w.data.entries (groupBase db key group.name))).live = true
    · rw [if_pos hLive]
      exact .inl rfl
    · rw [if_neg hLive]
      exact .inr ⟨.noGroup, rfl⟩

end

/-- **What a call returns** is what it hands out, unless it finds no group. -/
theorem exec_readNew (group : GroupName) (consumer : Bytes) (count : Int) (noack : Bool) :
    (exec ((streamService db key).program n (.readNew group consumer count noack)) w).1 =
      ((groupOpen ⟨n, db⟩ key group.name).exec w).1.map fun g =>
        handOut count g.last (liveEntries (streamBase db key) (w.data.entries (streamBase db key))) := by
  show (exec (Db.locked ⟨n, db⟩ key (readNew ⟨n, db⟩ key group.name consumer count noack)) w).1 = _
  rw [exec_locked, readNew]
  obtain ⟨w', hData, hOpen | ⟨e, hOpen⟩⟩ := exec_groupOpen db key n w group
  · have hLive : (streamLive ⟨n, db⟩ key).exec w' =
        (.ok (liveEntries (streamBase db key) (w.data.entries (streamBase db key))), w') := by
      rw [← hData]
      exact exec_load (streamBase db key) (liveEntries (streamBase db key)) w'
    -- the consumer is touched, and then it depends on whether there is something to hand out
    obtain ⟨w₁, hTouch⟩ : ∃ w₁, KeyM.exec ⟨n, db⟩ key (gTouchConsumer group.name consumer) w' = (.ok (), w₁) := ⟨_, rfl⟩
    rw [KeyM.exec_read hOpen, KeyM.exec_read hLive, KeyM.exec_bind hTouch, hOpen]
    dsimp only [Except.map, handOut]
    generalize limited count (filter _ _) = out
    cases hFinal : out.getLast? with
    | none =>
      rw [List.getLast?_eq_none_iff.mp hFinal]
      rfl
    | some final =>
      cases noack with
      | true => rfl
      | false =>
        show (KeyM.exec ⟨n, db⟩ key (out.forM _ >>= fun _ => _) w₁.later).1 = _
        rw [KeyM.exec_bind (KeyM.exec_forM (fun _ _ _ => rfl) _)]
        rfl
  · rw [KeyM.exec_bind_error (p := liftM (groupOpen ⟨n, db⟩ key group.name))
        ((exec_keyed _ _ _ _).trans hOpen), hOpen]
    rfl

/-- **Groups deliver at least once**, if every entry is put under an ID that is new and above
all that calls have taken, and if calls read the entries where none is missing below others.
Then, when no command runs and a call at a replica where everything has arrived returns
nothing, every entry above the ID with which the group was created has been returned by some
call, with its fields. -/
theorem groups_deliver {db : Int64} {key : Bytes} {group : GroupName} {first : StreamID} (hKey : key ≠ [])
    {world : Replica → World} (hLacks : ∀ n, Lacks (world n).data db key)
    {s : Traced (streamService db key) Handouts}
    (h : Reach (Traced.step db key (Handouts.watch db key))
      (fun s a => InGroup db key group first s a ∧ Sequenced db key first s a) ⟨{ world }, {}⟩ s)
    (hIdle : s.net.Idle) {n : Replica} (hDelivered : s.net.Delivered db key n) {consumer : Bytes} {count : Int}
    {noack : Bool}
    (hNothing : (exec ((streamService db key).program n (.readNew group consumer count noack)) (s.net.world n)).1 =
      .ok []) : ∀ e ∈ s.past.put, first.lt e.id → ⟨e.id, some e.fields.list⟩ ∈ s.past.handed := by
  obtain ⟨d, hKept, hd⟩ := Handouts.sound_of_reach hKey hLacks h
  intro e he hFirst
  -- nothing live is above the mark of the replica
  obtain ⟨w', -, hOpen | ⟨err, hOpen⟩⟩ := exec_groupOpen db key n (s.net.world n) group
  · rw [exec_readNew, hOpen] at hNothing
    have hNone := limited_eq_nil (Except.ok.inj hNothing)
    have hLive := hd.booked.live hKey hKept (hd.streamed.filed hKept n) he (hd.booked.arrived hKept hDelivered he)
    have hLe := filter_eq_nil_iff.mp hNone _ hLive
    rw [not_lt_iff] at hLe
    -- so the entry was taken, and who took it has returned it
    have hTaken := (hd.toTracks.reached_last hKey hKept n).2 e he (lt_iff.mp hFirst) hLe
    rcases hd.taken _ hTaken with hHanded | ⟨n', consumer', count', noack', out, hCmd, -⟩
    · exact hHanded
    · have hIdleCmd : (s.net.view d).cmd n' = none := congrArg (Option.map Sigma.fst) (hIdle n')
      rw [hIdleCmd] at hCmd
      cases hCmd
  · rw [exec_readNew, hOpen] at hNothing
    cases hNothing

/-- The entries of a reply. -/
private def returned : Except Err (List StreamEntry) → Option (List StreamEntry) := Except.toOption

private lemma ok_of_returned {out : List StreamEntry} (h : returned reply = some out) : reply = .ok out := by
  cases reply with
  | error e => cases h
  | ok out' => exact congrArg Except.ok (some.inj h)

private def crew : GroupName := ⟨[103], by decide⟩

open Net.Event in
/-- A group is created at one replica; another one learns of it, adds an entry, and reads it
for the group. -/
private def consuming : List (Net.Event (streamService 0 [107])) :=
  Net.running east (StreamCmd.create crew ⟨0, 0⟩ true) 10 ++ [finish east] ++
    [receive west (lastKey 0 [107] east) 0, receive west (slotKey (metaBase 0 [107]) east) 0,
      receive west (slotKey (groupMetaBase 0 [107] crew.name) east) 0, receive west (deliveredKey 0 [107] crew east) 0] ++
    Net.running west (StreamCmd.add false .auto (fieldA 49)) 9 ++ [finish west] ++
    Net.running west (StreamCmd.readNew crew [99] 0 false) 13 ++ [finish west]

/-- What is put meanwhile. -/
private def consumed : List Path :=
  [lastKey 0 [107] east, slotKey (metaBase 0 [107]) east, slotKey (groupMetaBase 0 [107] crew.name) east,
    deliveredKey 0 [107] crew east, entryKey 0 [107] ⟨1, 16182⟩ west, lastKey 0 [107] west,
    slotKey (groupConsumerBase 0 [107] crew.name [99]) west, slotKey (groupPelBase 0 [107] crew.name 1 16182) west,
    deliveredKey 0 [107] crew west]

/-- One entry, handed out by the first call; the second one returns nothing. -/
theorem groups_deliver_one : ∃ s, Reach (Traced.step 0 [107] (Handouts.watch 0 [107]))
        (fun s a => InGroup 0 [107] crew ⟨0, 0⟩ s a ∧ Sequenced 0 [107] ⟨0, 0⟩ s a)
        ⟨{ world := fun _ => .fresh }, {}⟩ s ∧ s.net.Idle ∧ s.net.Delivered 0 [107] west ∧
      (exec ((streamService 0 [107]).program west (.readNew crew [99] 0 false)) (s.net.world west)).1 = .ok [] ∧
      s.past.put.map NewEntry.id = [⟨1, 16182⟩] ∧
      ∀ e ∈ s.past.put, (⟨0, 0⟩ : StreamID).lt e.id → ⟨e.id, some e.fields.list⟩ ∈ s.past.handed := by
  obtain ⟨s, hPuts, hJobs, hAll, hPut, hNothing⟩ : ∃ s, Reach (Traced.step 0 [107] (Handouts.watch 0 [107]))
      (fun s a => ((InGroup 0 [107] crew ⟨0, 0⟩ s a ∧ Sequenced 0 [107] ⟨0, 0⟩ s a) ∧ IssuedAt {east, west} s a) ∧
        PutsIn consumed s.net a) ⟨{ world := fun _ => .fresh }, {}⟩ s ∧
      (∀ n ∈ ({east, west} : Finset Replica), (s.net.job n).isNone) ∧
        (∀ k ∈ consumed, s.net.copies.got west k = Finset.range (s.net.copies.log k).length) ∧
        s.past.put.map NewEntry.id = [⟨1, 16182⟩] ∧
        returned (exec ((streamService 0 [107]).program west (.readNew crew [99] 0 false)) (s.net.world west)).1 =
          some [] :=
    Reach.of_eval consuming (by decide +kernel)
  have hIssued := hPuts.mono fun _ _ hBoth => hBoth.1
  have hReach := hIssued.mono fun _ _ hBoth => hBoth.1
  have hIdle := Net.idle_of_issuedAt hIssued fun n hn => isNone_iff_eq_none.mp (hJobs n hn)
  have hDelivered := Net.delivered_of_putsIn hPuts hAll
  have hReply := ok_of_returned hNothing
  exact ⟨s, hReach, hIdle, hDelivered, hReply, hPut,
    groups_deliver (by decide) (fun _ => World.lacks_fresh 0 [107]) hReach hIdle hDelivered hReply⟩

/-- A call that finds all entries up to the mark returns nothing. -/
private lemma nothing_above {n : Replica} {w : World} (consumer : Bytes) (count : Int)
    (noack : Bool)
    (hOpen : ((groupOpen ⟨n, 0⟩ [107] crew.name).exec w).1.toOption.map GroupData.last = some last)
    (hIds : ∀ p ∈ w.data.entries (streamBase 0 [107]), ∀ slot ∈ entrySlot (streamBase 0 [107]) p.1, ¬ last.lt slot.1) :
    (exec ((streamService 0 [107]).program n (.readNew crew consumer count noack)) w).1 = .ok [] := by
  rw [exec_readNew]
  cases hGroup : ((groupOpen ⟨n, 0⟩ [107] crew.name).exec w).1 with
  | error e =>
    rw [hGroup] at hOpen
    cases hOpen
  | ok g =>
    rw [hGroup] at hOpen
    have hLast : g.last = last := some.inj hOpen
    have hNil : (liveEntries (streamBase 0 [107]) (w.data.entries (streamBase 0 [107]))).filter
        (fun e => g.last.lt e.id) = [] := by
      rw [filter_eq_nil_iff, hLast]
      intro e he
      obtain ⟨p, hp, replica, hSlot⟩ := id_of_liveEntries he
      exact hIds p hp (e.id, replica) hSlot
    show Except.ok (limited count _) = .ok []
    rw [hNil]
    unfold limited
    split
    · rw [take_nil]
    · rfl

open Net.Event in
/-- Then the first replica adds an entry, under a lower ID, and each is told everything. -/
private def overtaking : List (Net.Event (streamService 0 [107])) :=
  consuming ++ Net.running east (StreamCmd.add false .auto (fieldA 50)) 9 ++ [finish east] ++
    [receive west (entryKey 0 [107] ⟨1, 8928⟩ east) 0, receive west (lastKey 0 [107] east) 1] ++
    [entryKey 0 [107] ⟨1, 16182⟩ west, lastKey 0 [107] west, slotKey (groupConsumerBase 0 [107] crew.name [99]) west,
      slotKey (groupPelBase 0 [107] crew.name 1 16182) west, deliveredKey 0 [107] crew west].map fun k =>
        receive east k 0

/-- An entry that is added under an ID below the last delivered one is never handed out:
when everything has arrived at both replicas, calls at both return nothing. -/
theorem late_entry_is_skipped :
    ∃ s, Reach (Traced.step 0 [107] (Handouts.watch 0 [107])) (InGroup 0 [107] crew ⟨0, 0⟩)
        ⟨{ world := fun _ => .fresh }, {}⟩ s ∧ s.net.Idle ∧
      (∀ n ∈ [east, west], s.net.Delivered 0 [107] n ∧ ∀ consumer count noack,
        (exec ((streamService 0 [107]).program n (.readNew crew consumer count noack)) (s.net.world n)).1 = .ok []) ∧
      s.past.put.map NewEntry.id = [⟨1, 16182⟩, ⟨1, 8928⟩] ∧ s.past.handed.map StreamEntry.id = [⟨1, 16182⟩] := by
  obtain ⟨s, hPuts, hJobs, hNodes, hPut, hHanded⟩ : ∃ s, Reach (Traced.step 0 [107] (Handouts.watch 0 [107]))
      (fun s a => (InGroup 0 [107] crew ⟨0, 0⟩ s a ∧ IssuedAt {east, west} s a) ∧
        PutsIn (entryKey 0 [107] ⟨1, 8928⟩ east :: consumed) s.net a) ⟨{ world := fun _ => .fresh }, {}⟩ s ∧
      (∀ n ∈ ({east, west} : Finset Replica), (s.net.job n).isNone) ∧ (∀ n ∈ [east, west],
          (∀ k ∈ entryKey 0 [107] ⟨1, 8928⟩ east :: consumed,
            s.net.copies.got n k = Finset.range (s.net.copies.log k).length) ∧
          ((groupOpen ⟨n, 0⟩ [107] crew.name).exec (s.net.world n)).1.toOption.map GroupData.last =
            some ⟨1, 16182⟩ ∧
          ∀ p ∈ (s.net.world n).data.entries (streamBase 0 [107]), ∀ slot ∈ entrySlot (streamBase 0 [107]) p.1,
            ¬ (⟨1, 16182⟩ : StreamID).lt slot.1) ∧
        s.past.put.map NewEntry.id = [⟨1, 16182⟩, ⟨1, 8928⟩] ∧
        s.past.handed.map StreamEntry.id = [⟨1, 16182⟩] :=
    Reach.of_eval overtaking (by decide +kernel)
  have hIssued := hPuts.mono fun _ _ hBoth => hBoth.1
  refine ⟨s, hIssued.mono fun _ _ hBoth => hBoth.1,
    Net.idle_of_issuedAt hIssued fun n hn => isNone_iff_eq_none.mp (hJobs n hn), fun n hn => ?_, hPut, hHanded⟩
  obtain ⟨hAll, hOpen, hIds⟩ := hNodes n hn
  exact ⟨Net.delivered_of_putsIn hPuts hAll, fun consumer count noack =>
    nothing_above consumer count noack hOpen hIds⟩

end RedGeo.Repo
