import RedGeo.Repo.Presence

/-!
# RedGeo — reading while the datastore changes

A command asks the datastore several times, and what others have written may arrive in
between. `Finds` is about programs whose queries are each answered from some datastore
out of a set, not always from the same one; but entries of the key that have been seen
once stay.

* `finds_probe` — what `probe` finds if the metadata in all of these datastores are alike.
* `Finds.exec` — on a node where nothing changes, a program finds what it finds there.
-/

namespace RedGeo.Repo

open Lib Store List Option Datastore

/-- The keys of some entries. -/
def keysIn (entries : List (Path × Bytes)) : Set Path := {k | ∃ e ∈ entries, e.1 = k}

/-- The entries that an answer shows. -/
def seenIn : (op : Call) → Answer op → Set Path
  | .query _ _, .ok entries => keysIn entries
  | _, _ => ∅

/-- Entries of the key that are known are there. -/
def Stays (db : Int64) (key : Bytes) (known : Set Path) (data : Datastore) : Prop :=
  ∀ k ∈ known, OfKey db key k → (data[k]?).isSome

section

variable (db : Int64) (key : Bytes)

/-- Questions that satisfy `A` are asked, and each is answered from some datastore that
satisfies `F` and has what is known. -/
def changing (A : Ask → Prop) (F : Datastore → Prop) :
    Prog.Protocol Ask (fun a => Answer a.call) (Set Path) where
  allowed _ a := A a
  answers known a x := ∃ w : World, F w.data ∧ Stays db key known w.data ∧ x = (World.serve a.call w).1
  after known a x := known ∪ seenIn a.call x

/-- However the datastore changes, what is known in the end and the outcome are as `Q`
says. -/
abbrev Finds {α : Type} (A : Ask → Prop) (F : Datastore → Prop) (Q : Set Path → Except Err α → Prop)
    (p : ReadM α) (known : Set Path) : Prop :=
  p.Heeds (changing db key A F) Q known

end

section

variable {α β : Type} {A : Ask → Prop} {F : Datastore → Prop} {Q : Set Path → Except Err α → Prop}
  {Q' : Set Path → Except Err β → Prop}

lemma finds_bind (hp : Finds db key A F Q p known)
    (hOk : ∀ known a, Q known (.ok a) → Finds db key A F Q' (f a) known)
    (hError : ∀ known e, Q known (.error e) → Q' known (.error e)) : Finds db key A F Q' (p >>= f) known :=
  Prog.heeds_bind hp hOk hError

lemma finds_query (hA : A (.query base keysOnly)) (h : ∀ data, F data → Stays db key known data →
      Finds db key A F Q (f ((data.entries base).map (keyEntry keysOnly)))
        (known ∪ keysIn ((data.entries base).map (keyEntry keysOnly)))) :
    Finds db key A F Q (query base keysOnly >>= f) known := by
  refine ⟨hA, fun x hx => ?_⟩
  obtain ⟨w, hF, hStays, rfl⟩ := hx
  exact h w.data hF hStays

lemma finds_anyPrefix (hA : A (.query base true)) :
    Finds db key A F (fun known' out => known ⊆ known' ∧ ∃ b, out = .ok b) (anyPrefix base) known :=
  finds_query hA fun _ _ _ => ⟨Set.subset_union_left, _, rfl⟩

end

/-! ## Registers -/

/-- All slots of a register are present, with values that satisfy `P`. -/
def SlotsAre (base : List Seg) (P : Bytes → Prop) (data : Datastore) : Prop :=
  ∀ k v, Under base k → data[k]? = some v →
    ∃ o st value, k = slotKey base o ∧ P value ∧ v = encodeSlot ⟨st, tagPresent, value⟩

section

variable {base : List Seg} {P : Bytes → Prop} {data : Datastore}

variable (h : SlotsAre base P data)

include h

/-- What is read of an entry. -/
lemma SlotsAre.slotOf (he : e ∈ data.entries base) : ∃ o st value, e.1 = slotKey base o ∧ P value ∧
    Store.slotOf base e = some (o.name, ⟨st, tagPresent, value⟩) := by
  obtain ⟨hEntry, hUnder⟩ := mem_entries.mp he
  obtain ⟨o, st, value, hk, hP, hv⟩ := h e.1 e.2 hUnder hEntry
  refine ⟨o, st, value, hk, hP, ?_⟩
  rw [show e = (slotKey base o, encodeSlot ⟨st, tagPresent, value⟩) from Prod.ext hk hv]
  exact slotOf_slotKey base o _

/-- Every candidate is present. -/
lemma SlotsAre.candidate (hc : c ∈ slotsAt data base) : c.2.tag = tagPresent ∧ P c.2.value := by
  obtain ⟨e, he, hSlot⟩ := mem_filterMap.mp (Dict.mem_of_mem_ofPairs hc)
  obtain ⟨o, st, value, -, hP, hOf⟩ := h.slotOf he
  rw [hOf] at hSlot
  cases hSlot
  exact ⟨rfl, hP⟩

/-- The value that is read. -/
lemma SlotsAre.of_winner (hWinner : winner (slotsAt data base) = some (sl, o)) :
    sl.tag = tagPresent ∧ P sl.value :=
  h.candidate ((winner_eq_some_iff (Dict.nodup_pairs _)).mp hWinner).1

/-- A register with a slot has a value. -/
lemma SlotsAre.exists_winner (hUnder : Under base k) (hSome : (data[k]?).isSome) :
    ∃ sl o, winner (slotsAt data base) = some (sl, o) := by
  obtain ⟨v, hv⟩ := isSome_iff_exists.mp hSome
  have he : (k, v) ∈ data.entries base := mem_entries.mpr ⟨hv, hUnder⟩
  obtain ⟨o, st, value, -, -, hOf⟩ := h.slotOf he
  -- a replica has one slot
  have hOnly : ∀ c ∈ (data.entries base).filterMap (Store.slotOf base),
      ∀ c' ∈ (data.entries base).filterMap (Store.slotOf base), c.1 = c'.1 → c = c' := by
    intro c hc c' hc' hEq
    obtain ⟨e₁, he₁, hc⟩ := mem_filterMap.mp hc
    obtain ⟨e₂, he₂, hc'⟩ := mem_filterMap.mp hc'
    obtain ⟨o₁, st₁, value₁, hk₁, -, hOf₁⟩ := h.slotOf he₁
    obtain ⟨o₂, st₂, value₂, hk₂, -, hOf₂⟩ := h.slotOf he₂
    rw [hOf₁] at hc
    rw [hOf₂] at hc'
    cases hc
    cases hc'
    obtain rfl : o₁ = o₂ := Replica.ext hEq
    have hSame : e₁ = e₂ := Prod.ext (hk₁.trans hk₂.symm) (by
      have h₁ := (mem_entries.mp he₁).1
      have h₂ := (mem_entries.mp he₂).1
      rw [hk₁, ← hk₂, h₂] at h₁
      exact (some.inj h₁).symm)
    exact some.inj (hOf₁.symm.trans (hSame ▸ hOf₂))
  have hMem : (o.name, (⟨st, tagPresent, value⟩ : Slot)) ∈ slotsAt data base :=
    (Dict.mem_ofPairs_iff hOnly).mpr (mem_filterMap.mpr ⟨_, he, hOf⟩)
  cases hWinner : winner (slotsAt data base) with
  | some w => exact ⟨w.1, w.2, rfl⟩
  | none =>
    rw [winner_eq_argmax, map_eq_none_iff, argmax_eq_none] at hWinner
    rw [hWinner] at hMem
    cases hMem

end

/-! ## Metadata -/

/-- All metadata slots of a key are present, with envelopes that satisfy `P`. -/
def MetaSlots (db : Int64) (key : Bytes) (P : MetaEnvelope → Prop) : Datastore → Prop :=
  SlotsAre (metaBase db key) fun value => ∃ m, P m ∧ value = encodeMeta m

/-- A slot of a register is known. -/
def Sighted (base : List Seg) (known : Set Path) : Prop := ∃ k ∈ known, Under base k

lemma Sighted.mono {base : List Seg} (h : Sighted base known)
    (hSub : known ⊆ known') : Sighted base known' := by
  obtain ⟨k, hk, hUnder⟩ := h
  exact ⟨k, hSub hk, hUnder⟩

section

variable {P : MetaEnvelope → Prop}

lemma MetaSlots.of_metaAt (h : MetaSlots db key P data)
    (hMeta : metaAt data ⟨n, db⟩ key = some (m, mtime)) : P m := by
  rw [metaAt, Store.readMeta] at hMeta
  split at hMeta
  · cases hMeta
  · next sl o hWinner =>
    obtain ⟨hTag, m', hP, hValue⟩ := h.of_winner hWinner
    rw [if_neg (by rw [hTag]; decide), hValue, decodeMeta_encodeMeta] at hMeta
    cases hMeta
    exact hP

lemma MetaSlots.exists_metaAt (h : MetaSlots db key P data) (hUnder : Under (metaBase db key) k)
    (hSome : (data[k]?).isSome) : ∃ m mtime, metaAt data ⟨n, db⟩ key = some (m, mtime) := by
  obtain ⟨sl, o, hWinner⟩ := h.exists_winner hUnder hSome
  obtain ⟨hTag, m, -, hValue⟩ := h.of_winner hWinner
  refine ⟨m, sl.stamp.wallMS, ?_⟩
  rw [metaAt, Store.readMeta, hWinner]
  simp only [hTag, hValue, decodeMeta_encodeMeta]
  rfl

/-- Where there are metadata, there is a slot. -/
lemma exists_entry_of_metaAt (hMeta : metaAt data ⟨n, db⟩ key = some (m, mtime)) :
    ∃ e, e ∈ data.entries (metaBase db key) := by
  by_contra hNone
  have hNil : data.entries (metaBase db key) = [] :=
    eq_nil_iff_forall_not_mem.mpr fun e he => hNone ⟨e, he⟩
  rw [metaAt, slotsAt_eq_nil hNil] at hMeta
  cases hMeta

variable {A : Ask → Prop} {F : Datastore → Prop}

/-- **What `readMeta` finds**: something, once a slot is known. -/
theorem finds_readMeta (hA : A (.query (metaBase db key) false))
    (hF : ∀ data, F data → MetaSlots db key P data) :
    Finds db key A F (fun known' out => known ⊆ known' ∧ ∃ found, out = .ok found ∧
        (∀ m mtime, found = some (m, mtime) → P m ∧ Sighted (metaBase db key) known') ∧
        (Sighted (metaBase db key) known → found ≠ none)) (readMeta ⟨n, db⟩ key) known := by
  rw [readMeta, readSlots, Prog.bind_assoc]
  refine finds_query hA fun data hData hStays => ?_
  rw [map_keyEntry_false]
  refine ⟨Set.subset_union_left, metaAt data ⟨n, db⟩ key, rfl, fun m mtime hMeta => ?_, ?_⟩
  · obtain ⟨e, he⟩ := exists_entry_of_metaAt hMeta
    exact ⟨(hF data hData).of_metaAt hMeta, e.1, .inr ⟨e, he, rfl⟩, (mem_entries.mp he).2⟩
  · rintro ⟨k, hk, hUnder⟩
    obtain ⟨m, mtime, hMeta⟩ := (hF data hData).exists_metaAt (n := n) hUnder (hStays k hk (.inl hUnder))
    rw [hMeta]
    exact some_ne_none _

/-- Whether a key with such metadata is alive is found out. -/
def SeesLive (db : Int64) (key : Bytes) (A : Ask → Prop) (F : Datastore → Prop) (P : MetaEnvelope → Prop)
    (n : Replica) : Prop := ∀ m known, P m →
  Finds db key A F (fun known' out => known ⊆ known' ∧ ∃ b, out = .ok b) (isLive ⟨n, db⟩ key m) known

/-- **What `probe` finds** of a key that is of one type and does not expire. -/
theorem finds_probe (hA : A (.query (metaBase db key) false))
    (hF : ∀ data, F data → MetaSlots db key P data) (hP : ∀ m, P m → m.type = type ∧ m.etimeMS = 0)
    (hLive : SeesLive db key A F P n) :
    Finds db key A F (fun known' out => known ⊆ known' ∧ ∃ found, out = .ok found ∧
        ∀ k, found = some k → k.type = type ∧ k.etime = none ∧ Sighted (metaBase db key) known')
      (probe ⟨n, db⟩ key) known := by
  refine finds_bind (finds_readMeta hA hF) ?_ ?_
  · rintro known' found ⟨hSub, found', hEq, hFound, -⟩
    cases hEq
    cases found with
    | none => exact ⟨hSub, none, rfl, fun k hk => (nomatch hk)⟩
    | some e =>
      obtain ⟨m, mtime⟩ := e
      obtain ⟨hPm, hSighted⟩ := hFound m mtime rfl
      obtain ⟨hType, hTime⟩ := hP m hPm
      have hNow : hasExpired m.etimeMS = pure false := by rw [hTime]; rfl
      show Finds db key A F _ (hasExpired m.etimeMS >>= _) known'
      rw [hNow]
      show Finds db key A F _ (isLive ⟨n, db⟩ key m >>= _) known'
      refine finds_bind (hLive m known' hPm) ?_ ?_
      · rintro known'' live ⟨hSub', -⟩
        cases live with
        | false => exact ⟨hSub.trans hSub', none, rfl, fun k hk => (nomatch hk)⟩
        | true =>
          refine ⟨hSub.trans hSub', _, rfl, fun k hk => ?_⟩
          cases hk
          exact ⟨hType, by rw [hTime]; rfl, hSighted.mono hSub'⟩
      · rintro known'' e ⟨-, b, hb⟩
        cases hb
  · rintro known' e ⟨-, found, hEq, -⟩
    cases hEq

end

end RedGeo.Repo
