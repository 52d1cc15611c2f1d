import RedGeo.Repo.Keyspace
import RedGeo.Repo.Marks
import RedGeo.Repo.Overwrites

/-!
# RedGeo — `KEEPTTL`

`writeString` removes what a sketch or a bitmap was stored as, the metadata included, and
only then looks up the expiry that it is to keep. By that time the tombstone of the node
itself is what it reads, unless another replica's metadata rank above it.

* `keepTTL_iff` — which keys keep their expiry.
-/

namespace RedGeo.Repo

open Lib Store Kind

/-! ## What is put in the metadata -/

section

variable (r : Db) (key : Bytes)

/-- Two datastores have the same metadata of the key. -/
def SameMeta (data data' : Datastore) : Prop := ∀ k, Under (metaBase r.num key) k → data'[k]? = data[k]?

lemma under_slotAt (word : Word) (name : Bytes) :
    Under (dataBase r.num key) (slotAt (dataBase r.num key ++ [.word word]) name) := by
  have hPath : slotAt (dataBase r.num key ++ [.word word]) name =
      newKey (dataBase r.num key) ++ .word word :: newKey [.enc name] := by
    simp [slotAt, newKey, List.filter_append]
  rw [hPath]
  exact ⟨List.prefix_append _ _, by simp⟩

variable {r key}

lemma SameMeta.refl (data : Datastore) : SameMeta r key data data := fun _ _ => rfl

section

variable {data data' : Datastore} (h : SameMeta r key data data') {k : Path} (hk : Under (dataBase r.num key) k)
include h hk

lemma SameMeta.insert (v : Bytes) : SameMeta r key data (data'.insert k v) := by
  intro k' hUnder
  rw [Table.lookup_insert, if_neg, h k' hUnder]
  rintro rfl
  exact not_under_metaBase hk hUnder

lemma SameMeta.erase : SameMeta r key data (data'.erase k) := by
  intro k' hUnder
  rw [Table.lookup_erase, if_neg, h k' hUnder]
  rintro rfl
  exact not_under_metaBase hk hUnder

end

/-- The metadata are put after something that has left them alone. -/
lemma SameMeta.replaced {data : Datastore} {w : World} (h : SameMeta r key data w.data) (tag : UInt8)
    (value : Bytes) : Replaced (metaBase r.num key) r.self ⟨w.clock.now.1, tag, value⟩ data
      (w.putSlot r.self (metaBase r.num key) tag value).data := by
  intro k hUnder
  rw [World.lookup_putSlot, h k hUnder]

/-- The components of a sketch are removed one by one. -/
lemma same_eraseComponents (r : Db) (key : Bytes) (entries : List (Path × Bytes)) (w : World) :
    let w' := entries.foldl (fun w e =>
      match trimPrefix (hllBase r.num key) e.1 with
      | [.enc replica] => { w with data := w.data.erase (Comp.hll.path r.num key replica) }
      | _ => w) w
    SameMeta r key w.data w'.data ∧ w'.clock = w.clock := by
  induction entries generalizing w with
  | nil => exact ⟨.refl _, rfl⟩
  | cons e entries ih =>
    rw [List.foldl_cons]
    split
    · next replica _ =>
      obtain ⟨hSame, hClock⟩ := ih { w with data := w.data.erase (Comp.hll.path r.num key replica) }
      refine ⟨fun k hUnder => ?_, hClock⟩
      exact (hSame k hUnder).trans ((SameMeta.refl w.data).erase (under_slotAt r key .p replica) k hUnder)
    · exact ih w

/-- The chunks of a bitmap are tombstoned one by one, and a stamp is drawn for each. -/
lemma same_dropChunks (r : Db) (key : Bytes) (chunks : List (Nat × Bytes)) (w : World) :
    let w' := chunks.foldl (fun w c => w.putSlot r.self (bitChunkBase r.num key c.1) tagDeleted []) w
    SameMeta r key w.data w'.data ∧ w'.clock = w.clock.after chunks.length := by
  induction chunks generalizing w with
  | nil => exact ⟨.refl _, rfl⟩
  | cons c chunks ih =>
    obtain ⟨hSame, hClock⟩ := ih (w.putSlot r.self (bitChunkBase r.num key c.1) tagDeleted [])
    have hChunk : Under (dataBase r.num key) (slotKey (bitChunkBase r.num key c.1) r.self) :=
      under_of_append (under_slotKey (dataBase r.num key ++ [.word .b, .chunk c.1]) r.self)
    refine ⟨fun k hUnder => ?_, ?_⟩
    · exact (hSame k hUnder).trans ((SameMeta.refl w.data).insert hChunk _ k hUnder)
    · exact hClock.trans (Clock.after_now w.clock chunks.length)

variable (r key)

/-- How many stamps are drawn before the metadata are tombstoned. -/
def drawsOf (data : Datastore) (m : MetaEnvelope) : Nat :=
  if isHLL m.flavor then 0 else (liveChunks (bitBase r.num key) (data.entries (bitBase r.num key))).length

/-- What `writeString` leaves of the metadata of a sketch or a bitmap. -/
lemma replaced_cleared (hCounter : ¬ isCounter m.flavor = true)
    (hFlavor : isHLL m.flavor = true ∨ m.flavor = flavorBitmap) (w : World) : Replaced (metaBase r.num key)
    r.self ⟨(w.clock.after (drawsOf r key w.data m)).now.1, tagDeleted, []⟩ w.data (w.cleared r key m).data ∧
    (w.cleared r key m).clock = w.clock.after (drawsOf r key w.data m + 1) := by
  rw [World.cleared, if_neg hCounter, drawsOf]
  by_cases hHLL : isHLL m.flavor = true
  · rw [if_pos hHLL, if_pos hHLL]
    obtain ⟨hSame, hClock⟩ := same_eraseComponents r key (w.data.entries (hllBase r.num key)) w
    have hPut := hSame.replaced tagDeleted []
    rw [hClock] at hPut
    exact ⟨hPut, congrArg (fun c => c.now.2) hClock⟩
  · rw [if_neg hHLL, if_neg hHLL, if_pos (hFlavor.resolve_left hHLL)]
    obtain ⟨hSame, hClock⟩ := same_dropChunks r key
      (liveChunks (bitBase r.num key) (w.data.entries (bitBase r.num key))) w
    have hPut := hSame.replaced tagDeleted []
    rw [hClock] at hPut
    exact ⟨hPut, congrArg (fun c => c.now.2) hClock⟩

/-- What it puts in the end. -/
lemma replaced_stored (b : Bytes) (etimeMS : Int64) (w : World) : ∃ j < 2, ∃ env, env.etimeMS = etimeMS ∧
    Replaced (metaBase r.num key) r.self ⟨(w.clock.after j).now.1, tagPresent, encodeMeta env⟩ w.data
      (w.stored r key b etimeMS).data := by
  rw [World.stored]
  cases decodeRedis b with
  | some sk =>
    refine ⟨0, by omega, (if b.getD 4 0 = 0 then hllDense else .hll).envelope etimeMS, by split <;> rfl, ?_⟩
    have hSame : SameMeta r key w.data (w.data.insert (Comp.hll.path r.num key r.self.name) sk.encode) :=
      (SameMeta.refl w.data).insert (under_slotAt r key .p r.self.name) _
    exact SameMeta.replaced (w := { w with data := w.data.insert (Comp.hll.path r.num key r.self.name) sk.encode })
      hSame _ _
  | none =>
    refine ⟨1, by omega, string.envelope etimeMS, rfl, ?_⟩
    have hSame : SameMeta r key w.data (w.putSlot r.self (strBase r.num key) tagPresent b).data :=
      (SameMeta.refl w.data).insert (under_slotAt r key .v r.self.name) _
    exact hSame.replaced _ _

end

/-! ## Expiries -/

/-- The expiry in the metadata of a key. -/
def expiryAt (r : Db) (key : Bytes) (data : Datastore) : Option Int64 :=
  (metaAt data r key).map fun m => m.1.etimeMS

lemma expiryAt_of_winner (h : winner (slotsAt data (metaBase r.num key)) = some (sl, name))
    (hTag : sl.tag ≠ tagDeleted) (hm : decodeMeta sl.value = some m) :
    expiryAt r key data = some m.etimeMS := by
  rw [expiryAt, metaAt_of_winner h, if_neg hTag, hm]
  rfl

/-- Two replicas never rank alike. -/
lemma rank_ne {o o' : Replica} (hNe : o ≠ o') (sl sl' : Slot) : rank (o.name, sl) ≠ rank (o'.name, sl') := by
  intro hEq
  exact hNe (Replica.ext (Prod.mk.inj (toLex.injective hEq)).2)

/-- New metadata with the expiry of the old ones leave it as it is, whether they win or not. -/
lemma expiryAt_put_same (hSlots : Slotted (metaBase r.num key) data) {sl₀ : Slot}
    (hWinner : winner (slotsAt data (metaBase r.num key)) = some (sl₀, o.name))
    (hTag : sl₀.tag ≠ tagDeleted) (hm : decodeMeta sl₀.value = some m)
    (hPut : Replaced (metaBase r.num key) r.self ⟨st, tagPresent, encodeMeta env⟩ data data')
    (hEnv : env.etimeMS = m.etimeMS) (hOwn : o = r.self → sl₀.stamp < st) :
    expiryAt r key data' = some m.etimeMS := by
  have hWins : (∀ o' sl', SlotOf (metaBase r.num key) data o' sl' → o' ≠ r.self →
      rank (o'.name, sl') < rank (r.self.name, ⟨st, tagPresent, encodeMeta env⟩)) →
      expiryAt r key data' = some m.etimeMS := by
    intro hAbove
    have hPresent : tagPresent ≠ tagDeleted := by decide
    rw [expiryAt_of_winner (winner_of_put hSlots hPut hAbove) hPresent (decodeMeta_encodeMeta env), hEnv]
  by_cases hSelf : o = r.self
  · subst hSelf
    exact hWins (above_of_winner hSlots hWinner (hOwn rfl))
  rcases lt_or_gt_of_ne (rank_ne (Ne.symm hSelf) ⟨st, tagPresent, encodeMeta env⟩ sl₀) with hLt | hGt
  · exact expiryAt_of_winner (winner_of_outranked hSlots hPut hWinner hSelf hLt) hTag hm
  · -- what the old winner was above, the new one is above
    refine hWins fun o' sl' h hNe => ?_
    by_cases hSame : o' = o
    · subst hSame
      rw [h.unique ((winner_iff hSlots).mp hWinner).1]
      exact hGt
    · exact (((winner_iff hSlots).mp hWinner).2 o' sl' h hSame).trans hGt

/-! ## `KEEPTTL` -/

section

variable (r : Db) (key b : Bytes)

/-- **What `KEEPTTL` asks for.** A `SET` that succeeds leaves the expiry as it was. -/
def KeepsExpiry (opts : SetOpts) (w : World) : Prop :=
  let out := exec (strSetWith r key b opts) w
  ∀ res, out.1 = .ok res → expiryAt r key out.2.data = expiryAt r key w.data

/-- The metadata are slots of replicas, the clock is past the own one, and the stamps that the
command may draw do not wrap around. -/
structure Timely (m : MetaEnvelope) (w : World) : Prop where
  slots : Slotted (metaBase r.num key) w.data
  own : ∀ sl, SlotOf (metaBase r.num key) w.data r.self sl → sl.stamp ≤ w.clock.last
  steady : w.clock.Steady (drawsOf r key w.data m + 3)

/-- The metadata of another replica rank above the tombstone that `writeString` will put. -/
def Outranks (m : MetaEnvelope) (w : World) : Prop :=
  ∃ o sl, o ≠ r.self ∧ SlotOf (metaBase r.num key) w.data o sl ∧
    rank (r.self.name, ⟨(w.clock.after (drawsOf r key w.data m)).now.1, tagDeleted, []⟩) < rank (o.name, sl)

variable {r key} {m : MetaEnvelope} {w : World} {sl₀ : Slot} {o : Replica}

variable (hTimely : Timely r key m w)

include hTimely

lemma Timely.later (hStored : SlotOf (metaBase r.num key) w.data r.self sl₀)
    (hLt : n < drawsOf r key w.data m + 3) : sl₀.stamp < (w.clock.after n).now.1 :=
  (hTimely.own sl₀ hStored).trans_lt (hTimely.steady.last_lt hLt)

lemma expiryAt_stored_plain (hWinner : winner (slotsAt w.data (metaBase r.num key)) = some (sl₀, o.name))
    (hTag : sl₀.tag ≠ tagDeleted) (hm : decodeMeta sl₀.value = some m) :
    expiryAt r key (w.stored r key b m.etimeMS).data = some m.etimeMS := by
  obtain ⟨j, hj, env, hEnv, hPut⟩ := replaced_stored r key b m.etimeMS w
  refine expiryAt_put_same hTimely.slots hWinner hTag hm hPut hEnv fun hSelf => ?_
  have hStored := ((winner_iff hTimely.slots).mp hWinner).1
  rw [hSelf] at hStored
  exact hTimely.later hStored (by omega)

/-- A sketch or a bitmap whose metadata are still found when they have been removed. -/
lemma expiryAt_stored_outranked (hCounter : ¬ isCounter m.flavor = true)
    (hFlavor : isHLL m.flavor = true ∨ m.flavor = flavorBitmap)
    (hWinner : winner (slotsAt w.data (metaBase r.num key)) = some (sl₀, o.name)) (hTag : sl₀.tag ≠ tagDeleted)
    (hm : decodeMeta sl₀.value = some m) (hOutranks : Outranks r key m w) (etimeMS : Int64) :
    let w' := w.cleared r key m
    expiryAt r key (w'.stored r key b (keptETime r key w'.data etimeMS true)).data = some m.etimeMS := by
  intro w'
  obtain ⟨hDropped, -⟩ := replaced_cleared r key hCounter hFlavor w
  obtain ⟨o', sl', hOther, hStored', hAbove⟩ := hOutranks
  have hStored := ((winner_iff hTimely.slots).mp hWinner).1
  have hSelf : o ≠ r.self := by
    -- the tombstone is later than an own slot, and so above all that this one was above
    rintro rfl
    refine lt_asymm hAbove (above_of_winner hTimely.slots hWinner ?_ o' sl' hStored' hOther)
    exact hTimely.later hStored (Nat.lt_add_of_pos_right (by omega))
  have hBelow : rank (r.self.name, ⟨(w.clock.after (drawsOf r key w.data m)).now.1, tagDeleted, []⟩) <
      rank (o.name, sl₀) := by
    by_cases hSame : o' = o
    · subst hSame
      rwa [hStored'.unique hStored] at hAbove
    · exact hAbove.trans (((winner_iff hTimely.slots).mp hWinner).2 o' sl' hStored' hSame)
  have hWinner' : winner (slotsAt w'.data (metaBase r.num key)) = some (sl₀, o.name) :=
    winner_of_outranked hTimely.slots hDropped hWinner hSelf hBelow
  have hKept : keptETime r key w'.data etimeMS true = m.etimeMS := by
    rw [keptETime, if_pos rfl, metaAt_of_winner hWinner', if_neg hTag, hm]
    rfl
  rw [hKept]
  obtain ⟨j, -, env, hEnv, hPut⟩ := replaced_stored r key b m.etimeMS w'
  exact expiryAt_put_same (hDropped.slotted hTimely.slots) hWinner' hTag hm hPut hEnv fun h => absurd h hSelf

/-- A sketch or a bitmap whose metadata are gone. -/
lemma expiryAt_stored_dropped (hCounter : ¬ isCounter m.flavor = true)
    (hFlavor : isHLL m.flavor = true ∨ m.flavor = flavorBitmap) (hOutranks : ¬ Outranks r key m w)
    (etimeMS : Int64) : let w' := w.cleared r key m
    expiryAt r key (w'.stored r key b (keptETime r key w'.data etimeMS true)).data = some etimeMS := by
  intro w'
  obtain ⟨hDropped, hClock⟩ := replaced_cleared r key hCounter hFlavor w
  have hSlots := hDropped.slotted hTimely.slots
  have hWinner := winner_of_put hTimely.slots hDropped fun o sl hStored hOther =>
    (lt_or_gt_of_ne (rank_ne hOther _ _)).resolve_right fun hAbove => hOutranks ⟨o, sl, hOther, hStored, hAbove⟩
  have hKept : keptETime r key w'.data etimeMS true = etimeMS := by
    rw [keptETime, if_pos rfl, metaAt_of_winner hWinner]
    rfl
  rw [hKept]
  obtain ⟨j, hj, env, hEnv, hPut⟩ := replaced_stored r key b etimeMS w'
  rw [hClock, Clock.after_after] at hPut
  -- the new metadata are later than the tombstone that has won
  have hLater : (w.clock.after (drawsOf r key w.data m)).now.1 <
      (w.clock.after (drawsOf r key w.data m + 1 + j)).now.1 := hTimely.steady.now_lt (by omega) (by omega)
  have hPresent : tagPresent ≠ tagDeleted := by decide
  rw [expiryAt_of_winner (winner_of_put hSlots hPut (above_of_winner hSlots hWinner hLater)) hPresent
    (decodeMeta_encodeMeta env), hEnv]

omit hTimely

omit b in
lemma keepsExpiry_iff_of_ok {b : Bytes} (h : exec (strSetWith r key b opts) w = (.ok res, w')) :
    KeepsExpiry r key b opts w ↔ expiryAt r key w'.data = expiryAt r key w.data := by
  rw [KeepsExpiry, h]
  exact ⟨fun hKeeps => hKeeps res rfl, fun hKeeps _ _ => hKeeps⟩

omit b in
lemma KeepsExpiry.ne {b : Bytes} (hKeeps : KeepsExpiry r key b opts w)
    (hOk : (exec (strSetWith r key b opts) w).1 = .ok res) (hBefore : expiryAt r key w.data = e)
    (hAfter : expiryAt r key (exec (strSetWith r key b opts) w).2.data = e') (hNe : e' ≠ e) : False :=
  hNe (hAfter.symm.trans ((hKeeps res hOk).trans hBefore))

/-- **`SET` with `KEEPTTL`** keeps the expiry of a string just if nothing is written, or the
string is a plain one, or the metadata of another replica are found when those of the key
have been removed, or the expiry is what is set without `KEEPTTL` (which is none, as the two
are not taken together). -/
theorem keepTTL_iff {k : KeyInfo} {mtime : Int64} {opts : SetOpts} (hKeep : opts.keepTTL = true)
    (hProbe : probeAt r key w.data (w.now 0) = some k) (hType : k.type = typeString)
    (hMeta : metaAt w.data r key = some (m, mtime)) (hCounter : ¬ isCounter m.flavor = true)
    (hTimely : Timely r key m w) : KeepsExpiry r key b opts w ↔ opts.ifNotExists = true ∨
    ¬ (isHLL m.flavor = true ∨ m.flavor = flavorBitmap) ∨ Outranks r key m w ∨ m.etimeMS =
    opts.due ((w.probed r key).now 0) := by
  obtain ⟨sl₀, name, hWinner, hTag, hm⟩ := exists_winner_of_metaAt hMeta
  obtain ⟨o, rfl⟩ := exists_replica_of_winner hTimely.slots hWinner
  have hBefore : expiryAt r key w.data = some m.etimeMS := expiryAt_of_winner hWinner hTag hm
  have hSome := (isSome_valueAt_iff r key).mpr ⟨k, hProbe, hType⟩
  have hRight : ¬ opts.Refuses (valueAt r key w.data (w.now 0)) := by
    rintro ⟨-, hWrong⟩
    rw [hWrong] at hSome
    cases hSome
  by_cases hNX : opts.ifNotExists = true
  · have hSkip := exec_strSetWith_skip b hRight (.inl ⟨hNX, hSome⟩)
    rw [keepsExpiry_iff_of_ok hSkip, World.data_probed]
    exact iff_of_true rfl (.inl hNX)
  have hSkip : ¬ opts.Skips (valueAt r key w.data (w.now 0)) := fun h => h.elim (fun h => hNX h.1) fun h => h.2 hSome
  obtain ⟨w', hData, hClock, hExec⟩ := exec_strSetWith_write b hRight hSkip
  have hFree : ¬ Counts r key w'.data := by
    rintro ⟨m', mtime', hMeta', hBlocked⟩
    rw [hData, hMeta] at hMeta'
    cases hMeta'
    exact hCounter hBlocked.1
  have hVacated : w'.vacated r key = w'.cleared r key m := by
    rw [World.vacated, hData, hMeta]
    rfl
  rw [exec_bind (exec_writeString r key hFree b _ _), hKeep, hVacated] at hExec
  -- all that counts is the data and the clock, which are those of before
  rw [← hData] at hWinner
  have hTimely' : Timely r key m w' :=
    ⟨hData ▸ hTimely.slots, by rw [hData, hClock]; exact hTimely.own, by rw [hData, hClock]; exact hTimely.steady⟩
  have hSame : Outranks r key m w' ↔ Outranks r key m w := by rw [Outranks, Outranks, hData, hClock]
  have hIff := keepsExpiry_iff_of_ok hExec
  rw [hBefore] at hIff
  rw [hIff]
  by_cases hFlavor : isHLL m.flavor = true ∨ m.flavor = flavorBitmap
  · by_cases hOutranks : Outranks r key m w
    · have hEnd := expiryAt_stored_outranked b hTimely' hCounter hFlavor hWinner hTag hm (hSame.mpr hOutranks)
        (opts.due ((w.probed r key).now 0))
      exact iff_of_true hEnd (.inr (.inr (.inl hOutranks)))
    · have hEnd := expiryAt_stored_dropped b hTimely' hCounter hFlavor (mt hSame.mp hOutranks)
        (opts.due ((w.probed r key).now 0))
      rw [hEnd]
      simp only [hNX, hFlavor, hOutranks, not_true_eq_false, Bool.false_eq_true, false_or, Option.some.injEq]
      exact eq_comm
  · -- nothing is removed, and the metadata are found
    have hCleared : w'.cleared r key m = w' := by
      rw [World.cleared, if_neg hCounter, if_neg fun h => hFlavor (.inl h), if_neg fun h => hFlavor (.inr h)]
    have hKept : keptETime r key w'.data (opts.due ((w.probed r key).now 0)) true = m.etimeMS := by
      rw [keptETime, if_pos rfl, hData, hMeta]
      rfl
    have hEnd := expiryAt_stored_plain b hTimely' hWinner hTag hm
    rw [hCleared, hKept]
    exact iff_of_true hEnd (.inr (.inl hFlavor))

end

private def keeper : Db := ⟨.named 101, 0⟩

private def dawn : World := { clock := { wall := fun _ => 1 }, now := fun _ => 1 }

/-- After `SET k x PXAT 1000`. -/
private def dated : World := dawn.stored keeper [107] [120] 1000

private lemma timely_dated : Timely keeper [107] (string.envelope 1000) dated := by
  have hStored : SlotOf (metaBase 0 [107]) dated.data keeper.self
      ⟨⟨1, 1⟩, tagPresent, encodeMeta (string.envelope 1000)⟩ := by
    show dated.data[slotKey (metaBase 0 [107]) keeper.self]? = _
    decide +kernel
  refine ⟨?_, fun sl hSl => ?_, by decide +kernel⟩
  · obtain ⟨j, -, env, -, hPut⟩ := replaced_stored keeper [107] [120] 1000 dawn
    exact hPut.slotted fun k v _ hv => by simp [dawn] at hv
  · rw [hSl.unique hStored]
    decide +kernel

/-- `SET k y KEEPTTL` over a plain string. -/
theorem keepTTL_plain : Timely keeper [107] (Kind.string.envelope 1000) dated ∧
    KeepsExpiry keeper [107] [121] { keepTTL := true } dated := by
  have hProbe : probeAt keeper [107] dated.data (dated.now 0) = some ⟨[107], typeString, 1, some 1000⟩ := by
    decide +kernel
  have hMeta : metaAt dated.data keeper [107] = some (string.envelope 1000, 1) := by decide +kernel
  refine ⟨timely_dated, (keepTTL_iff [121] rfl hProbe rfl hMeta ?_ timely_dated).mpr (.inr (.inl ?_))⟩
  all_goals decide +kernel

/-- After `SETBIT k 0 1` and `PEXPIREAT k 1000`. -/
private def flagged : World :=
  (exec (do
    let _ ← setBit keeper [107] 0 true
    keyExpireAt keeper [107] 1000) dawn).2

/-- Then `SET k x KEEPTTL` leaves no expiry. -/
theorem keepTTL_drops_bitmap : expiryAt keeper [107] flagged.data = some 1000 ∧
    (exec (strSetWith keeper [107] [120] { keepTTL := true }) flagged).1 = .ok { updated := true } ∧
    expiryAt keeper [107] (exec (strSetWith keeper [107] [120] { keepTTL := true }) flagged).2.data = some 0 ∧
    ¬ KeepsExpiry keeper [107] [120] { keepTTL := true } flagged := by
  have hBefore : expiryAt keeper [107] flagged.data = some 1000 := by decide +kernel
  have hOk : (exec (strSetWith keeper [107] [120] { keepTTL := true }) flagged).1 = .ok { updated := true } := by
    decide +kernel
  have hAfter : expiryAt keeper [107] (exec (strSetWith keeper [107] [120] { keepTTL := true }) flagged).2.data =
      some 0 := by decide +kernel
  exact ⟨hBefore, hOk, hAfter, fun hKeeps => hKeeps.ne hOk hBefore hAfter (by decide)⟩

end RedGeo.Repo
