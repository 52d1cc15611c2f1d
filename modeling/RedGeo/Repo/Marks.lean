import RedGeo.Repo.Presence

/-!
# RedGeo — who wins a register after a write

A node that writes to a register puts its own slot and leaves those of the others. What is
read afterwards is the new slot, unless one of the others ranks above it; nothing in the
code makes sure that none does.

* `winner_iff` — the winner, in terms of the slots that are stored.
* `winner_of_put`, `winner_of_outranked` — the winner after a slot has been replaced.
-/

namespace RedGeo.Repo

open Lib Store Datastore

section

variable (base : List Seg) (data : Datastore)

/-- What stands below a register are slots of replicas. -/
def Slotted : Prop :=
  ∀ k v, Under base k → data[k]? = some v → ∃ o sl, k = slotKey base o ∧ v = encodeSlot sl

/-- The slot of a replica. -/
def SlotOf (o : Replica) (sl : Slot) : Prop :=
  data[slotKey base o]? = some (encodeSlot sl)

end

section

variable {base : List Seg} {data data' : Datastore} {self : Replica} {sl : Slot}

/-- A replica has one slot. -/
lemma SlotOf.unique (h : SlotOf base data o sl) (h' : SlotOf base data o sl') : sl = sl' :=
  encodeSlot_inj.mp (Option.some.inj (h.symm.trans h'))

lemma nodup_slotsAt (base : List Seg) (data : Datastore) : ((slotsAt data base).map Prod.fst).Nodup :=
  Dict.nodup_pairs _

/-- The candidates are the slots. -/
lemma mem_slotsAt_iff (hSlots : Slotted base data) :
    c ∈ slotsAt data base ↔ ∃ o, c.1 = o.name ∧ SlotOf base data o c.2 := by
  have hSlot : ∀ e ∈ data.entries base, ∃ o sl, e = (slotKey base o, encodeSlot sl) ∧
      slotOf base e = some (o.name, sl) := by
    intro e he
    obtain ⟨hv, hUnder⟩ := mem_entries.mp he
    obtain ⟨o, sl, hk, hv'⟩ := hSlots e.1 e.2 hUnder hv
    obtain rfl : e = (slotKey base o, encodeSlot sl) := Prod.ext hk hv'
    exact ⟨o, sl, rfl, slotOf_slotKey base o sl⟩
  have hOnly : ∀ c ∈ (data.entries base).filterMap (slotOf base),
      ∀ d ∈ (data.entries base).filterMap (slotOf base), c.1 = d.1 → c = d := by
    intro c hc d hd hEq
    obtain ⟨e, he, hc⟩ := List.mem_filterMap.mp hc
    obtain ⟨e', he', hd⟩ := List.mem_filterMap.mp hd
    obtain ⟨o, sl, rfl, hSl⟩ := hSlot e he
    obtain ⟨o', sl', rfl, hSl'⟩ := hSlot e' he'
    cases hSl.symm.trans hc
    cases hSl'.symm.trans hd
    obtain rfl : o = o' := Replica.ext hEq
    have h : SlotOf base data o sl := (mem_entries.mp he).1
    have h' : SlotOf base data o sl' := (mem_entries.mp he').1
    rw [h.unique h']
  rw [slotsAt, Store.readSlots, Dict.mem_ofPairs_iff hOnly, List.mem_filterMap]
  constructor
  · rintro ⟨e, he, hc⟩
    obtain ⟨o, sl, rfl, hSl⟩ := hSlot e he
    cases hSl.symm.trans hc
    exact ⟨o, rfl, (mem_entries.mp he).1⟩
  · rintro ⟨o, hName, hStored⟩
    refine ⟨(slotKey base o, encodeSlot c.2), mem_entries.mpr ⟨hStored, under_slotKey base o⟩, ?_⟩
    rw [slotOf_slotKey, ← hName]

/-- **The winner** is the slot that all others are below. -/
theorem winner_iff (hSlots : Slotted base data) : winner (slotsAt data base) = some (sl, o.name) ↔
      SlotOf base data o sl ∧ ∀ o' sl', SlotOf base data o' sl' → o' ≠ o → rank (o'.name, sl') < rank (o.name, sl) := by
  rw [winner_eq_some_iff (nodup_slotsAt base data), mem_slotsAt_iff hSlots]
  constructor
  · rintro ⟨⟨o₁, hName, hStored⟩, hAbove⟩
    obtain rfl : o = o₁ := Replica.ext hName
    refine ⟨hStored, fun o' sl' h hNe => ?_⟩
    refine hAbove (o'.name, sl') ((mem_slotsAt_iff hSlots).mpr ⟨o', rfl, h⟩) fun hEq => hNe (Replica.ext hEq)
  · rintro ⟨hStored, hAbove⟩
    refine ⟨⟨o, rfl, hStored⟩, fun c hc hNe => ?_⟩
    obtain ⟨o', hName, h⟩ := (mem_slotsAt_iff hSlots).mp hc
    have hLt := hAbove o' c.2 h fun hEq => hNe (hName.trans (congrArg Replica.name hEq))
    rw [← hName] at hLt
    exact hLt

/-- Every winner is the slot of a replica. -/
lemma exists_replica_of_winner (hSlots : Slotted base data)
    (h : winner (slotsAt data base) = some (sl, name)) : ∃ o : Replica, o.name = name := by
  have hMem := ((winner_eq_some_iff (nodup_slotsAt base data)).mp h).1
  obtain ⟨o, hName, -⟩ := (mem_slotsAt_iff hSlots).mp hMem
  exact ⟨o, hName.symm⟩

/-- The slot of one replica has been replaced, and nothing else below the register. -/
def Replaced (base : List Seg) (self : Replica) (sl : Slot) (data data' : Datastore) : Prop :=
  ∀ k, Under base k → data'[k]? = if slotKey base self = k then some (encodeSlot sl) else data[k]?

variable (hPut : Replaced base self sl data data')

include hPut

lemma Replaced.slotted (hSlots : Slotted base data) : Slotted base data' := by
  intro k v hUnder hv
  rw [hPut k hUnder] at hv
  split at hv
  · next hEq => exact ⟨self, sl, hEq.symm, (Option.some.inj hv).symm⟩
  · exact hSlots k v hUnder hv

lemma Replaced.slotOf_self : SlotOf base data' self sl := by
  rw [SlotOf, hPut _ (under_slotKey base self), if_pos rfl]

lemma Replaced.slotOf_iff (hNe : o ≠ self) : SlotOf base data' o sl' ↔ SlotOf base data o sl' := by
  have hKey : slotKey base self ≠ slotKey base o := fun hEq => hNe (slotKey_injective base hEq).symm
  rw [SlotOf, hPut _ (under_slotKey base o), if_neg hKey]
  rfl

omit hPut

/-- **The new slot wins** if it ranks above those of the others. -/
theorem winner_of_put (hSlots : Slotted base data) (hPut : Replaced base self sl data data')
    (hAbove : ∀ o sl', SlotOf base data o sl' → o ≠ self → rank (o.name, sl') < rank (self.name, sl)) :
    winner (slotsAt data' base) = some (sl, self.name) := by
  refine (winner_iff (hPut.slotted hSlots)).mpr ⟨hPut.slotOf_self, fun o' sl' h hNe => ?_⟩
  exact hAbove o' sl' ((hPut.slotOf_iff hNe).mp h) hNe

/-- **The old winner stays** if it is another replica's and ranks above the new slot. -/
theorem winner_of_outranked (hSlots : Slotted base data) (hPut : Replaced base self sl data data')
    (hWinner : winner (slotsAt data base) = some (sl₀, o.name)) (hNe : o ≠ self)
    (hBelow : rank (self.name, sl) < rank (o.name, sl₀)) :
    winner (slotsAt data' base) = some (sl₀, o.name) := by
  obtain ⟨hStored, hAbove⟩ := (winner_iff hSlots).mp hWinner
  refine (winner_iff (hPut.slotted hSlots)).mpr ⟨(hPut.slotOf_iff hNe).mpr hStored, fun o' sl' h hOther => ?_⟩
  by_cases hSelf : o' = self
  · subst hSelf
    rw [h.unique hPut.slotOf_self]
    exact hBelow
  · exact hAbove o' sl' ((hPut.slotOf_iff hSelf).mp h) hOther

/-- A slot that ranks above the one it replaces ranks above what that one had won against. -/
lemma above_of_winner (hSlots : Slotted base data)
    (hWinner : winner (slotsAt data base) = some (sl₀, self.name)) (hLater : sl₀.stamp < sl.stamp)
    (o : Replica) (sl' : Slot) (h : SlotOf base data o sl') (hNe : o ≠ self) :
    rank (o.name, sl') < rank (self.name, sl) :=
  (((winner_iff hSlots).mp hWinner).2 o sl' h hNe).trans (rank_lt_iff.mpr (.inl hLater))

end

/-! ## Metadata -/

/-- What is read, by the winner. -/
lemma metaAt_of_winner {sl : Slot}
    (h : winner (slotsAt data (metaBase r.num key)) = some (sl, name)) : metaAt data r key = if sl.tag =
    tagDeleted then none else (decodeMeta sl.value).map fun m => (m, sl.stamp.wallMS) := by
  rw [metaAt, Store.readMeta, h]

lemma exists_winner_of_metaAt (h : metaAt data r key = some (m, mtime)) :
    ∃ sl name, winner (slotsAt data (metaBase r.num key)) = some (sl, name) ∧ sl.tag ≠ tagDeleted ∧
    decodeMeta sl.value = some m := by
  cases hWinner : winner (slotsAt data (metaBase r.num key)) with
  | none =>
    rw [metaAt, Store.readMeta, hWinner] at h
    cases h
  | some best =>
    obtain ⟨sl, name⟩ := best
    rw [metaAt_of_winner hWinner] at h
    split at h
    · cases h
    · next hTag =>
      obtain ⟨m', hm, hEq⟩ := Option.map_eq_some_iff.mp h
      cases hEq
      exact ⟨sl, name, rfl, hTag, hm⟩

end RedGeo.Repo
