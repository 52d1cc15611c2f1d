import RedGeo.Repo.Deadlines
import RedGeo.Repo.Fields
import RedGeo.Repo.StreamIDs

/-!
# RedGeo — lazy expiry and the sweeper

`probe` hides a key whose expiry has passed, and `SweepExpired` deletes it. The two look at the
same metadata in different ways: `probe` takes an expiry that is not positive for none, the
sweeper does so for zero only.

* `swept_iff` — which keys the sweeper finds to have expired.
* `expiries_agree_iff` — the instants for which `probe` and the sweeper agree.
* `Sweep.deletes_expired` — a pass among other clients deletes what has expired, unless they
  change a key between the query and the lock.
-/

namespace RedGeo.Repo

open Lib Store List Int64

/-! ## What the sweeper finds -/

/-- The prefix below which the metadata of a key are found by a scan. -/
def bucketBase (db : Int64) (key : Bytes) : List Seg := [part db key, .word .m, .db db]

/-- Below the metadata prefixes of a database are slots of replicas, each in the bucket of its
key. -/
def MetaShaped (db : Int64) (data : Datastore) : Prop :=
  ∀ base ∈ dbMetaBases db, ∀ k v, Under base k → data[k]? = some v →
    ∃ key o sl, base = bucketBase db key ∧ k = slotKey (metaBase db key) o ∧ v = encodeSlot sl

/-- `SweepExpired` finds that a key of a type has expired. -/
def Swept (r : Db) (key : Bytes) (type : UInt8) (data : Datastore) (now : Int64) : Prop :=
  ∃ base ∈ dbMetaBases r.num, (key, type) ∈ expiredKeys now base (data.entries base)

variable {r : Db} {key : Bytes} {data : Datastore} {now : Int64}

lemma bucketBase_mem (db : Int64) (key : Bytes) : bucketBase db key ∈ dbMetaBases db :=
  mem_map.mpr ⟨bucket db key, mem_range.mpr (Nat.mod_lt _ (by decide)), rfl⟩

/-- The slot of a key, as a scan sees it; one without a name is not seen. -/
lemma namedSlot_slotKey (db : Int64) (key : Bytes) (o : Replica) :
    namedSlot (bucketBase db key) (slotKey (metaBase db key) o) = if key =
    [] then none else some (key, o.name) := by
  by_cases hKey : key = []
  · have hPath : slotKey (metaBase db key) o = bucketBase db key ++ [.enc o.name] := by
      simp [slotKey, metaBase, bucketBase, newKey, part, o.nonempty, hKey]
    rw [namedSlot, hPath, trimPrefix_append, if_pos hKey]
  · have hPath : slotKey (metaBase db key) o = bucketBase db key ++ [.enc key, .enc o.name] := by
      simp [slotKey, metaBase, bucketBase, newKey, part, o.nonempty, hKey]
    rw [namedSlot, hPath, trimPrefix_append, if_neg hKey]

lemma not_under_otherMeta (hKey : key ≠ []) (hNe : key' ≠ key) (o : Replica) :
    ¬ Under (metaBase db key) (slotKey (metaBase db key') o) := by
  rintro ⟨⟨tail, hTail⟩, hSame⟩
  by_cases hKey' : key' = []
  · simp [slotKey, metaBase, newKey, part, o.nonempty, hKey, hKey'] at hTail hSame
    exact hSame hTail.1.symm hTail.2.1.symm
  · simp [slotKey, metaBase, newKey, part, o.nonempty, hKey, hKey'] at hTail
    exact hNe hTail.2.1.symm

variable (hShaped : MetaShaped r.num data)

include hShaped

lemma parsedSlot_of_shaped (hBase : base ∈ dbMetaBases r.num) (he : e ∈ data.entries base) :
    ∃ key' o sl, base = bucketBase r.num key' ∧ e = (slotKey (metaBase r.num key') o, encodeSlot sl) ∧
    parsedSlot (namedSlot base) e = if key' = [] then none else some (key', o.name, sl) := by
  obtain ⟨hEntry, hUnder⟩ := Datastore.mem_entries.mp he
  obtain ⟨key', o, sl, rfl, hk, hv⟩ := hShaped base hBase e.1 e.2 hUnder hEntry
  refine ⟨key', o, sl, rfl, Prod.ext hk hv, ?_⟩
  rw [parsedSlot, hk, hv, namedSlot_slotKey, decodeSlot_encodeSlot]
  by_cases hKey : key' = [] <;> simp [hKey]

/-- The sweeper takes the same slots for the metadata of a key as `readMeta`. -/
lemma slotsFor_bucket (hKey : key ≠ []) :
    slotsFor (namedSlot (bucketBase r.num key)) (data.entries (bucketBase r.num key)) key =
    slotsAt data (metaBase r.num key) := by
  have hEntries : data.entries (metaBase r.num key) = _ := (filter_entries data (bucketBase r.num key) [.enc key]).symm
  rw [slotsFor, slotsAt, Store.readSlots, hEntries, filter_filterMap, map_filterMap, filterMap_filter]
  refine congrArg (fun l => (Dict.ofPairs l).pairs) (filterMap_congr fun e he => ?_)
  obtain ⟨key', o, sl, hBucket, rfl, hParsed⟩ := parsedSlot_of_shaped hShaped (bucketBase_mem _ _) he
  rw [hParsed]
  by_cases hEq : key' = key
  · subst hEq
    have hUnder : Under (bucketBase r.num key' ++ [.enc key']) (slotKey (metaBase r.num key') o) := under_slotKey _ o
    simp [hKey, hUnder, slotOf_slotKey]
  · have hUnder : ¬ Under (bucketBase r.num key ++ [.enc key]) (slotKey (metaBase r.num key') o) :=
      not_under_otherMeta hKey hEq o
    simp only [hUnder, decide_false, Bool.false_eq_true, if_false]
    by_cases hKey' : key' = [] <;> simp [hKey', hEq]

/-- **What the sweeper finds**: the keys whose metadata have an expiry that is not zero and not
after the current time, if they have a name. -/
theorem swept_iff : Swept r key type data now ↔ key ≠ [] ∧ ∃ m mtime, metaAt data r key =
    some (m, mtime) ∧ m.type = type ∧ m.etimeMS ≠ 0 ∧ m.etimeMS ≤ now := by
  -- the metadata are those of the live slot, decoded
  have hRead : ∀ cands m, (∃ v, liveValue cands = some v ∧ decodeMeta v = some m) ↔
      ∃ mtime, Store.readMeta cands = some (m, mtime) := by
    intro cands m
    rw [liveValue, Store.readMeta]
    rcases winner cands with _ | ⟨best, o⟩
    · simp
    · by_cases hTag : best.tag = tagDeleted <;> simp [hTag]
  have hExpired : ∀ base, (key, type) ∈ expiredKeys now base (data.entries base) ↔
      ∃ m, (∃ v, liveValue (slotsFor (namedSlot base) (data.entries base) key) = some v ∧ decodeMeta v = some m) ∧
        m.type = type ∧ m.etimeMS ≠ 0 ∧ m.etimeMS ≤ now := by
    intro base
    rw [expiredKeys, mem_filterMap]
    constructor
    · rintro ⟨⟨name, v⟩, hMem, hSome⟩
      split at hSome
      · next m hDecode =>
        split at hSome
        · cases hSome
        · next hDue =>
          cases hSome
          rw [not_or, Int64.not_lt] at hDue
          exact ⟨m, ⟨v, mem_liveSlots.mp hMem, hDecode⟩, rfl, hDue.1, hDue.2⟩
      · cases hSome
    · rintro ⟨m, ⟨v, hLive, hDecode⟩, rfl, hSet, hDue⟩
      refine ⟨(key, v), mem_liveSlots.mpr hLive, ?_⟩
      simp only [hDecode, hSet, Int64.not_lt.mpr hDue, or_self, if_false]
  constructor
  · rintro ⟨base, hBase, hMem⟩
    obtain ⟨m, ⟨v, hLive, hDecode⟩, hType, hDue⟩ := (hExpired base).mp hMem
    -- a slot that is found is below the bucket of the key
    have hSlots : slotsFor (namedSlot base) (data.entries base) key ≠ [] := by
      intro hNil
      rw [hNil] at hLive
      cases hLive
    obtain ⟨c, hc⟩ := exists_mem_of_ne_nil _ hSlots
    obtain ⟨e, he, hParsed⟩ := mem_slotsFor hc
    obtain ⟨key', o, sl, rfl, -, hEq⟩ := parsedSlot_of_shaped hShaped hBase he
    rw [hEq] at hParsed
    split at hParsed
    · cases hParsed
    · next hKey =>
      cases hParsed
      rw [slotsFor_bucket hShaped hKey] at hLive
      obtain ⟨mtime, hMeta⟩ := (hRead _ m).mp ⟨v, hLive, hDecode⟩
      exact ⟨hKey, m, mtime, hMeta, hType, hDue⟩
  · rintro ⟨hKey, m, mtime, hMeta, hType, hDue⟩
    refine ⟨_, bucketBase_mem r.num key, (hExpired _).mpr ⟨m, ?_, hType, hDue⟩⟩
    rw [slotsFor_bucket hShaped hKey]
    exact (hRead _ m).mpr ⟨mtime, hMeta⟩

omit hShaped

/-! ## Lazy and active expiry -/

/-- `EXISTS` does not count the key. -/
def Hidden (r : Db) (key : Bytes) (w : World) : Prop := ((keyExists r key).exec w).1 = .ok false

instance (r : Db) (key : Bytes) (w : World) : Decidable (Hidden r key w) := inferInstanceAs (Decidable (_ = _))

/-- The instants, as the argument of `EXPIREAT` or `PEXPIREAT`, for which all agree that a key
has or has not expired. -/
def Agrees (key : Bytes) (unit : Unit64) (n now : Int64) : Prop :=
  if unit.exact n ≤ now.toInt then key ≠ [] ∧ Passed (unit.multi * n) now
  else unit.multi * n = 0 ∨ now < unit.multi * n ∨ key = [] ∧ unit.multi * n < 0

instance (key : Bytes) (unit : Unit64) (n now : Int64) : Decidable (Agrees key unit n now) :=
  inferInstanceAs (Decidable (ite _ _ _))

lemma hidden_iff (hMeta : metaAt w.data r key = some (m, mtime))
    (hLive : namedLive r key w.data m = true) : Hidden r key w ↔ Passed m.etimeMS (w.now 0) := by
  rw [Hidden, keyExists, read_bind (exec_probe r key w)]
  show Except.ok (probeAt r key w.data (w.now 0)).isSome = .ok false ↔ _
  by_cases hPassed : Passed m.etimeMS (w.now 0) <;> simp [probeAt, hMeta, hLive, hPassed]

/-- **Lazy and active expiry agree** with each other and with the instant that was asked for,
just under this condition. A key has the expiry that the commands store (`ownExpiry_run`). -/
theorem expiries_agree_iff {m : MetaEnvelope} {mtime n : Int64} {unit : Unit64} {w : World}
    (hShaped : MetaShaped r.num w.data) (hMeta : metaAt w.data r key = some (m, mtime))
    (hLive : namedLive r key w.data m = true) (hStored : m.etimeMS = unit.multi * n) :
    (Hidden r key w ↔ Swept r key m.type w.data (w.now 0)) ∧
    (Hidden r key w ↔ unit.exact n ≤ (w.now 0).toInt) ↔ Agrees key unit n (w.now 0) := by
  have hSwept : Swept r key m.type w.data (w.now 0) ↔ key ≠ [] ∧ m.etimeMS ≠ 0 ∧ m.etimeMS ≤ w.now 0 := by
    rw [swept_iff hShaped, hMeta]
    simp
  rw [hidden_iff hMeta hLive, hSwept, hStored, Agrees, Passed]
  generalize unit.multi * n = e
  generalize w.now 0 = now
  have hZero : e = 0 ↔ e.toInt = 0 := toInt_inj.symm
  simp only [ne_eq, hZero, lt_iff_toInt_lt, le_iff_toInt_le, toInt_zero]
  by_cases hKey : key = []
  · simp only [hKey, not_true_eq_false, false_and, true_and, iff_false]
    split
    · rw [iff_false]
      omega
    · omega
  · simp only [hKey, not_false_eq_true, true_and, false_and, or_false]
    split <;> omega

private def sweeper : Db := ⟨.named 101, 0⟩

/-- `SET k x` and `PEXPIREAT k e`, read at another time. -/
private def expiring (e now : Int64) : World :=
  { (exec (do strSet sweeper [107] [120]; keyExpireAt sweeper [107] e)
      { clock := { wall := fun _ => 1 }, now := fun _ => 1 }).2 with now := fun _ => now }

private lemma metaAt_expiring : metaAt (expiring 5 7).data sweeper [107] = some (⟨typeString, 1, 5, 0⟩, 1) := by
  decide +kernel

private lemma shaped_expiring : MetaShaped 0 (expiring 5 7).data := by
  have hEntries : ∀ base ∈ dbMetaBases 0, ∀ e ∈ (expiring 5 7).data.entries base, base = bucketBase 0 [107] ∧
      e = (slotKey (metaBase 0 [107]) sweeper.self, encodeSlot ⟨⟨1, 2⟩, tagPresent, encodeMeta ⟨1, 1, 5, 0⟩⟩) := by
    decide +kernel
  intro base hBase k v hUnder hEntry
  obtain ⟨hBucket, hEq⟩ := hEntries base hBase (k, v) (Datastore.mem_entries.mpr ⟨hEntry, hUnder⟩)
  exact ⟨_, _, _, hBucket, (Prod.mk.inj hEq).1, (Prod.mk.inj hEq).2⟩

/-- An expiry that has passed. -/
theorem expiries_agree_past : Agrees [107] .ms 5 7 ∧ Hidden sweeper [107] (expiring 5 7) ∧
    (Hidden sweeper [107] (expiring 5 7) ↔ Swept sweeper [107] typeString (expiring 5 7).data 7) := by
  have hAgrees : Agrees [107] .ms 5 7 := by decide
  exact ⟨hAgrees, by decide +kernel,
    ((expiries_agree_iff shaped_expiring metaAt_expiring (by decide +kernel) rfl).mpr hAgrees).1⟩

/-- `PEXPIREAT k -5`: `EXISTS` finds the key and the sweeper deletes it. -/
theorem expiries_differ_negative :
    ¬ Hidden sweeper [107] (expiring (-5) 7) ∧ Swept sweeper [107] typeString (expiring (-5) 7).data 7 :=
  ⟨by decide +kernel, _, bucketBase_mem 0 [107], by decide +kernel⟩

/-! ## The sweeper among other clients -/

/-- A deletion: what the sweeper takes the key for, and the state in which it gets the lock. -/
structure Deletion where
  r : Db
  key : Bytes
  type : UInt8
  data : Datastore
  now : Int64

/-- The key, if there is one, is hidden by its expiry when `probe` looks for it (so it is a
positive one that has passed, and not only a stored number that is at most the clock), and it
is of the type that is deleted. -/
def Deletion.Due (d : Deletion) : Prop :=
  ∀ m mtime, metaAt d.data d.r d.key = some (m, mtime) → m.type = d.type ∧ Passed m.etimeMS d.now

/-- A pass of `SweepExpired`, between two of its steps. What the last query has found is
recorded, and so are the deletions. -/
structure Sweep where
  r : Db
  world : World
  now : Int64
  seen : Datastore := ∅
  pending : List (Bytes × UInt8) := []
  log : List Deletion := []

/-- The steps of the pass, and between them whatever other clients do. -/
inductive SweepAct
  | others (world : World)
  | look (num : Int64) (base : List Seg)
  | delete (key : Bytes) (type : UInt8)

namespace Sweep

def start (r : Db) (world : World) : Sweep := { r, world, now := world.now 0 }

/-- `deleteKey`, under the lock. -/
def deleted (s : Sweep) (key : Bytes) (type : UInt8) : Sweep :=
  { s with
    world := (exec (withLock (lockKey s.r.num key) (deleteKey s.r key type)) s.world).2
    pending := s.pending.erase (key, type)
    log := ⟨s.r, key, type, s.world.data, s.world.now 0⟩ :: s.log }

/-- The keys that a query finds to have expired are deleted one at a time, in any order. -/
def step (s : Sweep) : SweepAct → Option Sweep
  | .others world => some { s with world }
  | .look num base =>
    if base ∈ dbMetaBases num ∧ s.pending = [] then
      some { s with
        r := ⟨s.r.self, num⟩
        seen := s.world.data
        pending := expiredKeys s.now base (s.world.data.entries base) }
    else none
  | .delete key type => if (key, type) ∈ s.pending then some (s.deleted key type) else none

/-- Between the query and the lock, nobody has changed the metadata of a key other than by
deleting it, and the clock has not gone back; and the expiry that the query has found is not
negative. `EXPIREAT k 9223372036854776` stores a negative one, which hides nothing and which
the sweeper takes for one long past. -/
def Unmoved (s : Sweep) : SweepAct → Prop
  | .others _ => True
  | .look num _ => MetaShaped num s.world.data
  | .delete key _ => s.now ≤ s.world.now 0 ∧
      (∀ m mtime, metaAt s.seen s.r key = some (m, mtime) → 0 ≤ m.etimeMS) ∧
      (metaAt s.world.data s.r key = metaAt s.seen s.r key ∨ metaAt s.world.data s.r key = none)

/-- What is going to be deleted had expired when it was looked at. -/
structure Sound (s : Sweep) : Prop where
  pending : ∀ p ∈ s.pending, MetaShaped s.r.num s.seen ∧ Swept s.r p.1 p.2 s.seen s.now
  log : ∀ d ∈ s.log, d.Due

lemma Sound.step {s s' : Sweep} {a : SweepAct} (h : s.Sound) (hUnmoved : s.Unmoved a)
    (hStep : s.step a = some s') : s'.Sound := by
  cases a with
  | others world =>
    cases hStep
    exact ⟨h.pending, h.log⟩
  | look num base =>
    obtain ⟨⟨hBase, -⟩, hEq⟩ := Option.ite_none_right_eq_some.mp hStep
    cases hEq
    exact ⟨fun p hp => ⟨hUnmoved, base, hBase, hp⟩, h.log⟩
  | delete key type =>
    obtain ⟨hMem, hEq⟩ := Option.ite_none_right_eq_some.mp hStep
    cases hEq
    refine ⟨fun p hp => h.pending p (mem_of_mem_erase hp), fun d hd => ?_⟩
    rcases mem_cons.mp hd with rfl | hd
    · -- the metadata are still those that were found to have expired
      obtain ⟨hShaped, hSwept⟩ := h.pending _ hMem
      obtain ⟨-, m, mtime, hMeta, hType, hSet, hDue⟩ := (swept_iff hShaped).mp hSwept
      obtain ⟨hClock, hSign, hSame | hGone⟩ := hUnmoved
      · intro m' mtime' hMeta'
        cases hMeta'.symm.trans (hSame.trans hMeta)
        have hPos : 0 < m.etimeMS := Int64.lt_of_le_of_ne (hSign _ _ hMeta) hSet.symm
        exact ⟨hType, hPos, Int64.le_trans hDue hClock⟩
      · intro m' mtime' hMeta'
        cases hGone.symm.trans hMeta'
    · exact h.log d hd

/-- **The sweeper deletes expired keys only**, in every run in which the metadata of a key that
it deletes are still those of the query when it gets the lock.

The decision is made on what a query has found before any lock is taken, and `deleteKey` does
not look again. So the invariant (`Sound`) is about the keys still to be deleted: each was found
with an expiry at most the clock the pass has read at its start. If its metadata are the same
under the lock, and the clock is no earlier, what was true at the query is true at the deletion. -/
theorem deletes_expired {r : Db} {w : World} {s : Sweep} (h : Reach step Unmoved (start r w) s) :
    ∀ d ∈ s.log, d.Due :=
  (h.induct (I := Sound) ⟨by simp [start], by simp [start]⟩ fun _ hs hK hStep => hs.step hK hStep).log

/-- The pass after a query below the prefix of a key, with what others have done since. -/
private def looked (r : Db) (key : Bytes) (w w' : World) : Sweep :=
  { start r w with
    world := w'
    seen := w.data
    pending := expiredKeys (w.now 0) (bucketBase r.num key) (w.data.entries (bucketBase r.num key)) }

private lemma reach_deleted {K : Sweep → SweepAct → Prop} (r : Db) (key : Bytes) (type : UInt8) (w w' : World)
    (hLook : K (start r w) (.look r.num (bucketBase r.num key))) (hOthers : K (looked r key w w) (.others w'))
    (hDelete : K (looked r key w w') (.delete key type)) (hMem : (key, type) ∈ (looked r key w w').pending) :
    Reach step K (start r w) ((looked r key w w').deleted key type) := by
  refine .next (.next (.next .init hLook ?_) hOthers rfl) hDelete ?_
  · rw [step, if_pos ⟨bucketBase_mem r.num key, rfl⟩]
    rfl
  · rw [step]
    exact if_pos hMem

/-- The sweeper deletes `k`, which nobody has touched. -/
theorem deletes_expired_quiet : ∃ s, Reach step Unmoved (start sweeper (expiring 5 7)) s ∧
    s.log.map (·.key) = [[107]] ∧ ∀ d ∈ s.log, d.Due := by
  have hSign : ∀ m mtime, metaAt (expiring 5 7).data sweeper [107] = some (m, mtime) → 0 ≤ m.etimeMS := by
    intro m mtime hMeta
    cases metaAt_expiring.symm.trans hMeta
    decide
  have hReach : Reach step Unmoved (start sweeper (expiring 5 7)) _ :=
    reach_deleted sweeper [107] typeString (expiring 5 7) (expiring 5 7) shaped_expiring trivial
      ⟨Int64.le_refl 7, hSign, .inl rfl⟩ (by decide +kernel)
  exact ⟨_, hReach, rfl, deletes_expired hReach⟩

/-- `SET k y`, before the sweeper gets the lock. -/
private def refreshed : World := (exec (strSet sweeper [107] [121]) (expiring 5 7)).2

/-- The key that `SET` has made between the query and the lock is deleted. -/
theorem deletes_fresh :
    ∃ s, Reach step Anything (start sweeper (expiring 5 7)) s ∧ Hidden sweeper [107] s.world ∧ ∃ d ∈ s.log,
    ¬ d.Due ∧ (probeAt d.r d.key d.data d.now).map (·.etime) = some none := by
  have hReach : Reach step Anything (start sweeper (expiring 5 7)) _ :=
    reach_deleted sweeper [107] typeString (expiring 5 7) refreshed trivial trivial trivial (by decide +kernel)
  have hMeta : metaAt refreshed.data sweeper [107] = some (⟨typeString, 1, 0, 0⟩, 1) := by decide +kernel
  refine ⟨_, hReach, ?_, _, mem_cons_self, fun hDue => absurd (hDue _ _ hMeta).2.1 (by decide), ?_⟩
  · show Hidden sweeper [107] (exec (withLock (lockKey 0 [107]) (deleteKey sweeper [107] typeString)) refreshed).2
    decide +kernel
  · show (probeAt sweeper [107] refreshed.data 7).map (·.etime) = some none
    decide +kernel

end Sweep

end RedGeo.Repo
