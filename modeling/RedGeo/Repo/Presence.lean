import RedGeo.Repo.Reads

/-!
# RedGeo — whether a key is there

What a node answers to the reads that every command starts with: the metadata of
the key, whether the space they name has live data, and whether the expiry has
passed. All of it depends on the entries of the key alone.

* `exec_probe` — `probe`, as a function of the datastore and one reading of the clock.
* `Lacks` — the datastore has nothing of a key; every load finds nothing then.
-/

namespace RedGeo.Repo

variable {α β : Type} {w : World}

open Lib Store ReadM World Prog Datastore List

/-! ## Reading in steps -/

lemma read_bind (h : p.exec w = (.ok a, w')) (f : α → ReadM β) : (p >>= f).exec w = (f a).exec w' :=
  run_bind_ok _ h f

lemma read_bind_error (h : p.exec w = (.error e, w')) (f : α → ReadM β) : (p >>= f).exec w = (.error e, w') :=
  run_bind_error _ h f

lemma read_attempt (p : ReadM α) (w : World) : ReadM.exec p.attempt w = (.ok (p.exec w).1, (p.exec w).2) :=
  run_attempt _ p w

/-! ## `probe` on a node -/

/-- The clock has been read once more. -/
def World.later (w : World) : World := { w with now := fun i => w.now (i + 1) }

section

variable (r : Db) (key : Bytes) (w : World)

lemma exec_readMeta : (readMeta r key).exec w = (.ok (metaAt w.data r key), w) :=
  read_bind (exec_readSlots (metaBase r.num key) w) _

/-- Each space is live as its entries say. -/
lemma exec_spaceLive (X : Space) (w : World) :
    (spaceLive r key X).exec w = (.ok (liveAt w.data r key X), w) := by
  cases X with
  | counter => exact exec_anyPrefix _ w
  | hll => exact exec_anyPrefix _ w
  | set => exact exec_anyPrefix _ w
  | list => exact exec_anyPrefix _ w
  | stream => exact exec_anyPrefix _ w
  | bitmap => exact read_bind (exec_load _ _ w) _
  | hash => exact read_bind (exec_load _ _ w) _
  | zset => exact read_bind (exec_load _ _ w) _
  | str => exact read_bind (exec_readSlots _ w) _
  | json => exact read_bind (exec_readSlots _ w) _
  | sketch =>
    have hParams : (readSketchParams r key).exec w =
        (.ok ((liveValue (slotsAt w.data (sketchParamsBase r.num key))).bind sketchParams), w) :=
      read_bind (exec_readSlots _ w) _
    exact read_bind hParams _

/-- Whether the space that the metadata name is live. -/
def namedLive (data : Datastore) (m : MetaEnvelope) : Bool := (spaceOf m).any (liveAt data r key)

lemma exec_isLive (m : MetaEnvelope) (w : World) :
    (isLive r key m).exec w = (.ok (namedLive r key w.data m), w) := by
  rw [isLive, namedLive]
  cases spaceOf m with
  | none => rfl
  | some X => exact exec_spaceLive r key X w

/-- Whether an expiry has passed. -/
def Passed (etimeMS now : Int64) : Prop := 0 < etimeMS ∧ etimeMS ≤ now

instance (etimeMS now : Int64) : Decidable (Passed etimeMS now) :=
  inferInstanceAs (Decidable (_ ∧ _))

lemma exec_hasExpired (etimeMS : Int64) (w : World) : (hasExpired etimeMS).exec w =
    (.ok (decide (Passed etimeMS (w.now 0))), if 0 < etimeMS then w.later else w) := by
  rw [hasExpired]
  by_cases hSet : 0 < etimeMS
  · rw [if_pos hSet, if_pos hSet]
    simp only [Passed, hSet, true_and]
    rfl
  · rw [if_neg hSet, if_neg hSet]
    simp only [Passed, hSet, false_and]
    rfl

/-- What `probe` finds at a time. -/
def probeAt (data : Datastore) (now : Int64) : Option KeyInfo :=
  match metaAt data r key with
  | none => none
  | some (m, mtime) =>
    if Passed m.etimeMS now then none
    else if namedLive r key data m then
      some ⟨key, m.type, mtime, if 0 < m.etimeMS then some m.etimeMS else none⟩
    else none

/-- What `probe` leaves: the clock was read if there is an expiry. -/
def World.probed (w : World) : World :=
  match metaAt w.data r key with
  | some (m, _) => if 0 < m.etimeMS then w.later else w
  | none => w

/-- **What `probe` finds.** -/
theorem exec_probe : (probe r key).exec w = (.ok (probeAt r key w.data (w.now 0)), w.probed r key) := by
  have hMeta := exec_readMeta r key w
  rw [probe, read_bind hMeta, probeAt, World.probed]
  cases metaAt w.data r key with
  | none => rfl
  | some found =>
    obtain ⟨m, mtime⟩ := found
    have hLater : (if 0 < m.etimeMS then w.later else w).data = w.data := by split <;> rfl
    refine (read_bind (exec_hasExpired m.etimeMS w) _).trans ?_
    by_cases hPassed : Passed m.etimeMS (w.now 0)
    · simp only [hPassed, decide_true, if_true]
      rfl
    · simp only [hPassed, decide_false, if_false, Bool.false_eq_true]
      refine (read_bind (exec_isLive r key m _) _).trans ?_
      rw [hLater]
      cases namedLive r key w.data m with
      | false => rfl
      | true => rfl

@[simp] lemma World.data_probed : (w.probed r key).data = w.data := by
  rw [probed]
  split
  · split <;> rfl
  · rfl

lemma World.clock_probed : (w.probed r key).clock = w.clock := by
  rw [probed]
  split
  · split <;> rfl
  · rfl

/-- A key that `probe` finds: there are metadata, the expiry has not passed, and there are
data. -/
lemma probeAt_eq_some_iff {data : Datastore} {now : Int64} : probeAt r key data now = some k ↔ ∃ m mtime,
    metaAt data r key = some (m, mtime) ∧ ¬ Passed m.etimeMS now ∧ namedLive r key data m = true ∧ k =
    ⟨key, m.type, mtime, if 0 < m.etimeMS then some m.etimeMS else none⟩ := by
  rw [probeAt]
  cases metaAt data r key with
  | none => simp
  | some found =>
    obtain ⟨m, mtime⟩ := found
    dsimp only
    constructor
    · intro h
      split at h
      · cases h
      · next hPassed =>
        split at h
        · next hLive => exact ⟨m, mtime, rfl, hPassed, hLive, (Option.some.inj h).symm⟩
        · cases h
    · rintro ⟨m', mtime', hEq, hPassed, hLive, rfl⟩
      cases hEq
      rw [if_neg hPassed, if_pos hLive]

/-- A key that `probe` does not find passes the check of every type. -/
lemma exec_ensureType_none {w : World} (h : probeAt r key w.data (w.now 0) = none) (type : UInt8) :
    (ensureType r type key).exec w = (.ok (), w.probed r key) := by
  have hProbe := exec_probe r key w
  rw [h] at hProbe
  exact read_bind hProbe _

end

/-! ## The entries of a key -/

/-- The entries of a key: its metadata and its data. -/
def OfKey (db : Int64) (key : Bytes) (k : Path) : Prop :=
  Under (metaBase db key) k ∨ Under (dataBase db key) k

instance (db : Int64) (key : Bytes) (k : Path) : Decidable (OfKey db key k) :=
  inferInstanceAs (Decidable (_ ∨ _))

/-- What is below a longer prefix is below the shorter one. -/
lemma under_of_append (h : Under (base ++ rest) k) : Under base k := by
  obtain ⟨hPrefix, hNe⟩ := h
  have hAppend : newKey (base ++ rest) = newKey base ++ newKey rest := filter_append ..
  rw [hAppend] at hPrefix hNe
  refine ⟨(prefix_append _ _).trans hPrefix, ?_⟩
  rintro rfl
  -- the longer prefix is a prefix of the shorter one, so nothing was added
  have hLen := hPrefix.length_le
  rw [length_append] at hLen
  have hNil : newKey rest = [] := eq_nil_of_length_eq_zero (by omega)
  rw [hNil, append_nil] at hNe
  exact hNe rfl

/-- Metadata are not data. -/
lemma not_under_metaSlot (db : Int64) (key : Bytes) (rest : List Seg) (n : Replica) :
    ¬ Under (dataBase db key ++ rest) (slotKey (metaBase db key) n) := by
  intro hUnder
  obtain ⟨more, hEq⟩ := (under_of_append hUnder).1
  have hWord := congrArg (fun k : Path => k[1]?) hEq
  simp [newKey, dataBase, metaBase, slotKey, Store.part] at hWord

/-- Data are not metadata. -/
lemma not_under_metaBase {key : Bytes} (h : Under (dataBase db key) k) : ¬ Under (metaBase db key) k := by
  intro hMeta
  obtain ⟨more, hData⟩ := h.1
  obtain ⟨more', hMore⟩ := hMeta.1
  have hWord := congrArg (fun k : Path => k[1]?) (hData.trans hMore.symm)
  simp [newKey, dataBase, metaBase, Store.part] at hWord

lemma not_under_dataSlot (db : Int64) (key : Bytes) (rest : List Seg) (n : Replica) :
    ¬ Under (metaBase db key) (slotKey (dataBase db key ++ rest) n) :=
  not_under_metaBase (under_of_append (under_slotKey (dataBase db key ++ rest) n))

/-- What branches off above a prefix is not below it. -/
lemma not_under_apart (base : List Seg) (h : g ≠ g' ∧ g ≠ .enc [] ∧ g' ≠ .enc [])
    (rest : List Seg) (n : Replica) : ¬ Under (base ++ g :: more) (slotKey (base ++ g' :: rest) n) := by
  rintro ⟨hPrefix, -⟩
  rw [slotKey, newKey, newKey, append_assoc, filter_append, filter_append, prefix_append_right_inj] at hPrefix
  simp only [cons_append, filter_cons, h.2.1, h.2.2, ne_eq, not_false_eq_true, decide_true, if_true,
    cons_prefix_cons] at hPrefix
  exact h.1 hPrefix.1

/-- Two datastores agree on a key. -/
def SameOn (db : Int64) (key : Bytes) (data data' : Datastore) : Prop :=
  ∀ k, OfKey db key k → data[k]? = data'[k]?

section

variable {data data' : Datastore} {r : Db} {key : Bytes}

variable (h : SameOn r.num key data data')

include h

lemma SameOn.entries_data (rest : List Seg) :
    data.entries (dataBase r.num key ++ rest) = data'.entries (dataBase r.num key ++ rest) :=
  entries_congr fun k hk => h k (.inr (under_of_append hk))

lemma SameOn.metaAt : metaAt data r key = metaAt data' r key := by
  have hEntries : data.entries (metaBase r.num key) = data'.entries (metaBase r.num key) :=
    entries_congr fun k hk => h k (.inl hk)
  rw [Repo.metaAt, Repo.metaAt, slotsAt, slotsAt, hEntries]

/-- Each space is live in both or in neither. -/
lemma SameOn.liveAt (X : Space) : liveAt data r key X = liveAt data' r key X := by
  have hWord := fun w => h.entries_data [.word w]
  cases X with
  | str => exact congrArg (fun l => (liveValue (Store.readSlots _ l).pairs).isSome) (hWord .v)
  | counter => exact congrArg (fun l => !l.isEmpty) (hWord .c)
  | hll => exact congrArg (fun l => !l.isEmpty) (hWord .p)
  | bitmap => exact congrArg (fun l => !(liveChunks _ l).isEmpty) (hWord .b)
  | hash => exact congrArg (fun l => !(liveFields _ l).isEmpty) (hWord .h)
  | set => exact congrArg (fun l => !l.isEmpty) (hWord .e)
  | zset => exact congrArg (fun l => !(liveScores _ l).isEmpty) (hWord .z)
  | list => exact congrArg (fun l => !l.isEmpty) (hWord .l)
  | stream => exact congrArg (fun l => !l.isEmpty) (hWord .xl)
  | json =>
    have hRoot := h.entries_data [.word .j, .word .leaf]
    have hSlots : slotsAt data (jsonNodeBase r.num key []) = slotsAt data' (jsonNodeBase r.num key []) :=
      congrArg (fun l => (Store.readSlots _ l).pairs) hRoot
    rw [Repo.liveAt, Repo.liveAt, hSlots]
  | sketch =>
    have hParams := h.entries_data [.word .s, .word .p]
    have hSlots : slotsAt data (sketchParamsBase r.num key) = slotsAt data' (sketchParamsBase r.num key) :=
      congrArg (fun l => (Store.readSlots _ l).pairs) hParams
    rw [Repo.liveAt, Repo.liveAt, hSlots]

/-- What `probe` finds depends on the entries of the key. -/
lemma SameOn.probeAt (now : Int64) : probeAt r key data now = probeAt r key data' now := by
  have hNamed : ∀ m, namedLive r key data m = namedLive r key data' m := by
    intro m
    rw [namedLive, namedLive, (funext h.liveAt : Repo.liveAt data r key = Repo.liveAt data' r key)]
  rw [Repo.probeAt, Repo.probeAt, h.metaAt]
  simp only [hNamed]

end

/-- The datastore has nothing of a key. -/
def Lacks (data : Datastore) (db : Int64) (key : Bytes) : Prop := ∀ k, OfKey db key k → data[k]? = none

section

variable {data : Datastore}

lemma Datastore.entries_eq_nil (h : ∀ k, Under base k → data[k]? = none) : data.entries base = [] := by
  refine eq_nil_iff_forall_not_mem.mpr fun e he => ?_
  obtain ⟨hEntry, hUnder⟩ := mem_entries.mp he
  rw [h e.1 hUnder] at hEntry
  cases hEntry

lemma Lacks.entries_data (h : Lacks data db key) (rest : List Seg) :
    data.entries (dataBase db key ++ rest) = [] :=
  entries_eq_nil fun k hk => h k (.inr (under_of_append hk))

lemma slotsAt_eq_nil (h : data.entries base = []) : slotsAt data base = [] := by
  rw [slotsAt, h]
  rfl

lemma Lacks.metaAt {r : Db} (h : Lacks data r.num key) : metaAt data r key = none := by
  rw [Repo.metaAt, slotsAt_eq_nil (entries_eq_nil fun k hk => h k (.inl hk))]
  rfl

lemma Lacks.probeAt {r : Db} (h : Lacks data r.num key) (now : Int64) : probeAt r key data now = none := by
  rw [Repo.probeAt, h.metaAt]

end

variable (data : Datastore) (db : Int64) (key : Bytes)

/-- The datastore without a key. -/
def Datastore.without : Datastore :=
  data.filter fun k _ => ¬ OfKey db key k

lemma Datastore.getElem?_without (k : Path) :
    (data.without db key)[k]? = if OfKey db key k then none else data[k]? := by
  rw [without, Std.ExtTreeMap.getElem?_filter']
  by_cases hKey : OfKey db key k
  · simp [hKey]
  · cases data[k]? <;> simp [hKey]

lemma lacks_without : Lacks (data.without db key) db key := by
  intro k hk
  rw [getElem?_without, if_pos hk]

/-- Keys with different names have no entries in common. -/
lemma not_ofKey_of_ne {db : Int64} {key key' : Bytes} (hKey : key ≠ []) (hKey' : key' ≠ [])
    (hNe : key' ≠ key) (h : OfKey db key' k) : ¬ OfKey db key k := by
  -- the fourth segment is the name
  have hName : ∀ (w : Word) (name : Bytes), name ≠ [] → ∀ k,
      Under [Store.part db name, .word w, .db db, .enc name] k → k[3]? = some (.enc name) := by
    intro w name hName k hUnder
    have hClean : newKey [Store.part db name, .word w, .db db, .enc name] =
        [Store.part db name, .word w, .db db, .enc name] := by
      simp [newKey, Store.part, hName]
    obtain ⟨rest, rfl⟩ := hClean ▸ hUnder.1
    rfl
  have hBoth : ∀ name, name ≠ [] → OfKey db name k → k[3]? = some (.enc name) := fun name hne hk =>
    hk.elim (hName .m name hne k) (hName .d name hne k)
  intro hk
  have hEq := (hBoth key' hKey' h).symm.trans (hBoth key hKey hk)
  exact hNe (Seg.enc.inj (Option.some.inj hEq))

end RedGeo.Repo
