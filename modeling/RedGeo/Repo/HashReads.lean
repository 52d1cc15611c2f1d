import RedGeo.Repo.Fields
import RedGeo.Repo.Scans

/-!
# RedGeo — whether the reads of a hash agree

`HGET`, `HMGET` and `HEXISTS` look a field up below its own prefix; `HGETALL`, `HKEYS`,
`HVALS`, `HLEN` and `HSCAN` take the whole hash apart. Of these, `HMGET` alone does not
ask whether the field is a counter, and takes what is below its prefix for slots.

* `ReadsAgree` — there is one map that all of them describe.
* `hash_reads_agree_iff` — when there is. The sum of a counter field is added up in the
  order of a Go map by the listings and in the order of the query by `HGET`.
-/

namespace RedGeo.Repo

open Lib Store List Option Reader Except Prod Datastore

/-! ## What the commands return -/

/-- The metadata of a key, in whatever order their slots are listed, say that it is a hash,
if they say anything. -/
def IsHash (r : Db) (key : Bytes) (data : Datastore) : Prop :=
  ∀ l : List (Path × Bytes), l.Perm (data.entries (metaBase r.num key)) → ∀ m mtime,
    Store.readMeta (Store.readSlots (metaBase r.num key) l).pairs = some (m, mtime) → m.type = typeHash

/-- Reading goes on with later times of the clock. -/
lemma ReadM.now_execIn {α : Type} (p : ReadM α) {P : Int64 → Prop} (h : ∀ i, P (w.now i)) :
    ∀ i, P ((p.execIn o w).2.now i) := by
  induction p generalizing w with
  | done a => exact h
  | fail e => exact h
  | call a next ih =>
    refine ih _ ?_
    cases a with
    | nowMS => exact fun i => h (i + 1)
    | has | query | nextSeq | random => exact h

section

variable {data : Datastore} {r : Db} {key : Bytes}

/-- A hash passes the check of its type, and so does a key that is not there. -/
lemma execIn_ensureType (hHash : IsHash r key data) (v : Reader data) :
    ∃ w, (ensureType r typeHash key).execIn v.order v.world = (.ok (), w) := by
  have hMeta : (readMeta r key).execIn v.order v.world = (.ok (Store.readMeta (Store.readSlots
      (metaBase r.num key) (v.order.list (data.entries (metaBase r.num key)))).pairs), v.world) := by
    have hSlots : (readSlots (metaBase r.num key)).execIn v.order v.world = (.ok (Store.readSlots
        (metaBase r.num key) (v.order.list (data.entries (metaBase r.num key)))).pairs, v.world) := by
      rw [readSlots, execIn_load, v.here]
    exact readIn_bind hSlots _
  -- what `probe` finds is a hash
  suffices hProbe : ∃ found w, (probe r key).execIn v.order v.world = (.ok found, w) ∧
      ∀ k, found = some k → k.type = typeHash by
    obtain ⟨found, w, hRun, hType⟩ := hProbe
    refine ⟨w, (readIn_bind hRun _).trans ?_⟩
    cases found with
    | none => rfl
    | some k =>
      simp only [hType k rfl, ne_eq, not_true_eq_false, if_false]
      rfl
  rw [probe, readIn_bind hMeta]
  cases hFound : Store.readMeta (Store.readSlots (metaBase r.num key)
      (v.order.list (data.entries (metaBase r.num key)))).pairs with
  | none => exact ⟨none, _, rfl, (by simp)⟩
  | some found =>
    obtain ⟨m, mtime⟩ := found
    have hType := hHash _ (v.order.perm _) m mtime hFound
    obtain ⟨late, w₁, hLate⟩ : ∃ late w₁, (hasExpired m.etimeMS).execIn v.order v.world = (.ok late, w₁) := by
      rw [hasExpired]
      split
      · exact ⟨_, _, rfl⟩
      · exact ⟨_, _, rfl⟩
    obtain ⟨live, w₂, hLive⟩ : ∃ live w₂, (isLive r key m).execIn v.order w₁ = (.ok live, w₂) := by
      have hSpace : spaceOf m = some .hash := by
        rw [spaceOf, hType]
        rfl
      rw [isLive, hSpace]
      exact ⟨_, _, readIn_bind (execIn_load _ _) _⟩
    simp only [readIn_bind hLate]
    cases late with
    | true => exact ⟨none, w₁, rfl, (by simp)⟩
    | false =>
      simp only [Bool.false_eq_true, if_false, readIn_bind hLive]
      cases live with
      | false => exact ⟨none, w₂, rfl, (by simp)⟩
      | true =>
        refine ⟨_, w₂, rfl, fun k hk => ?_⟩
        cases hk
        exact hType

/-- The type once checked, a command goes on with the same data. -/
lemma Reader.after (hHash : IsHash r key data) (v : Reader data) : ∃ v' : Reader data, v'.order = v.order ∧
    ∀ {α : Type} (p : ReadM α), v.run (ensureType r typeHash key >>= fun _ => p) = v'.run p := by
  obtain ⟨w, hRun⟩ := execIn_ensureType hHash v
  have hData : w.data = data := (ReadM.data_of_execIn hRun).trans v.here
  exact ⟨⟨v.order, w, hData⟩, rfl, fun p => congrArg fst (readIn_bind hRun fun _ => p)⟩

variable {v : Reader data}

lemma run_hashItems (hHash : IsHash r key data) : v.run (hashItems r key) =
    .ok (liveFields (hashBase r.num key) (v.order.list (data.entries (hashBase r.num key)))) := by
  obtain ⟨v', hOrder, hRun⟩ := v.after hHash
  rw [hashItems, hRun, run, hashLiveFields, execIn_load, v'.here, hOrder]

lemma run_hashGet (hHash : IsHash r key data) (field : Bytes) : v.run (hashGet r key field) =
    if componentsAt r.num key field data = [] then
      (readsAs (hashFieldBase r.num key field) (v.order.list (belowField r.num key field data))).elim
        (.error .notFound) .ok
    else .ok (fmtNum (fieldTotal (v.order.list (componentsAt r.num key field data)))) := by
  obtain ⟨v', hOrder, hRun⟩ := v.after hHash
  have hCounter : (hashFieldIsCounter r key field).execIn v'.order v'.world =
      (.ok (!(componentsAt r.num key field data).isEmpty), v'.world) := by
    rw [hashFieldIsCounter, execIn_anyPrefix, v'.here]
    rfl
  rw [hashGet, hRun, run, readIn_bind hCounter]
  by_cases hNone : componentsAt r.num key field data = []
  · have hSlots : (fieldSlots r key field).execIn v'.order v'.world = (.ok (Store.readSlots
        (hashFieldBase r.num key field) (v'.order.list (belowField r.num key field data))).pairs, v'.world) := by
      rw [fieldSlots, readSlots, execIn_load, v'.here]
      rfl
    simp only [hNone, isEmpty_nil, Bool.not_true, Bool.false_eq_true, if_false, if_true]
    rw [readIn_bind hSlots, hOrder, readsAs]
    cases liveValue (Store.readSlots (hashFieldBase r.num key field)
      (v.order.list (belowField r.num key field data))).pairs <;> rfl
  · have hSum : (hashCounterSum r key field).execIn v'.order v'.world =
        (.ok (fieldTotal (v'.order.list (componentsAt r.num key field data))), v'.world) := by
      rw [hashCounterSum, execIn_load, v'.here]
      rfl
    rw [if_pos (by simpa using hNone), if_neg hNone, readIn_bind hSum, hOrder]
    rfl

lemma run_hashExists {value : Option Bytes}
    (hGet : v.run (hashGet r key field) = value.elim (.error .notFound) .ok) :
    v.run (hashExists r key field) = .ok value.isSome := by
  rw [run] at hGet
  rw [run, hashExists, readIn_bind (readIn_attempt _), hGet]
  cases value <;> rfl

/-- One round of `hashGetMany`. -/
def getRound (r : Db) (key : Bytes) (out : List (Bytes × Bytes)) (field : Bytes) :
    ReadM (List (Bytes × Bytes)) := do
  let cands ← fieldSlots r key field
  match liveValue cands with
  | some v => pure (out ++ [(field, v)])
  | none => pure out

lemma run_hashGetMany (hHash : IsHash r key data) (fields : List Bytes) : v.run (hashGetMany r key fields) =
    .ok (fields.filterMap fun f =>
      (readsAs (hashFieldBase r.num key f) (v.order.list (belowField r.num key f data))).map fun value => (f, value)) := by
  obtain ⟨v', hOrder, hRun⟩ := v.after hHash
  let found (f : Bytes) : Option (Bytes × Bytes) :=
    (readsAs (hashFieldBase r.num key f) (v'.order.list (belowField r.num key f data))).map fun value => (f, value)
  -- one round of the loop
  have hStep : ∀ (out : List (Bytes × Bytes)), ∀ f ∈ fields, Prog.run (fun a w => World.serveIn v'.order a.call w)
      (getRound r key out f) v'.world = (.ok (out ++ (found f).toList), v'.world) := by
    intro out f _
    have hSlots : (fieldSlots r key f).execIn v'.order v'.world = (.ok (Store.readSlots
        (hashFieldBase r.num key f) (v'.order.list (belowField r.num key f data))).pairs, v'.world) := by
      rw [fieldSlots, readSlots, execIn_load, v'.here]
      rfl
    refine (readIn_bind hSlots _).trans ?_
    simp only [found, readsAs]
    cases liveValue (Store.readSlots (hashFieldBase r.num key f)
      (v'.order.list (belowField r.num key f data))).pairs with
    | none => simp [ReadM.execIn]
    | some value => rfl
  rw [hashGetMany, hRun, ← hOrder, filterMap_eq_flatMap_toList, flatMap_eq_foldl]
  exact congrArg fst (Prog.run_foldlM _ hStep [])

end

/-! ## Listings -/

/-- A finite map, listed by its keys. -/
structure Listing where
  items : List (Bytes × Bytes)
  sorted : (items.map Prod.fst).Pairwise (· < ·)

section

variable {a : List (Bytes × Bytes)}

variable (ha : (a.map Prod.fst).Nodup)

include ha

lemma lookup_eq_some_iff {f v : Bytes} : a.lookup f = some v ↔ (f, v) ∈ a := by
  induction a with
  | nil => simp
  | cons c a ih =>
    obtain ⟨g, u⟩ := c
    obtain ⟨hNew, hRest⟩ := nodup_cons.mp ha
    rw [lookup_cons, mem_cons]
    by_cases hEq : f = g
    · subst hEq
      have hNot : (f, v) ∉ a := fun hMem => hNew (mem_map.mpr ⟨(f, v), hMem, rfl⟩)
      simp [hNot, eq_comm]
    · rw [beq_eq_false_iff_ne.mpr hEq]
      simpa [hEq] using ih hRest

/-- Lists of pairs that say the same of every key. -/
lemma perm_of_lookup (hb : (b.map fst).Nodup) (h : ∀ f, a.lookup f = b.lookup f) : a.Perm b := by
  refine (perm_ext_iff_of_nodup ha.of_map hb.of_map).mpr fun ⟨f, v⟩ => ?_
  rw [← lookup_eq_some_iff ha, ← lookup_eq_some_iff hb, h]

lemma lookup_of_perm (h : a.Perm b) (f : Bytes) : a.lookup f = b.lookup f := by
  have hb : (b.map fst).Nodup := (h.map fst).nodup_iff.mp ha
  refine Option.ext fun v => ?_
  rw [lookup_eq_some_iff ha, lookup_eq_some_iff hb, h.mem_iff]

omit ha

lemma sortNames_le (names : List Bytes) : (sortNames names).Pairwise (· ≤ ·) := by
  have hPairwise := @pairwise_mergeSort Bytes (fun a b => decide (a ≤ b))
    (fun a b c hab hbc => decide_eq_true ((of_decide_eq_true hab).trans (of_decide_eq_true hbc)))
    (fun a b => by simpa using le_total a b) names
  exact hPairwise.imp fun h => of_decide_eq_true h

lemma sortNames_lt (hNodup : names.Nodup) : (sortNames names).Pairwise (· < ·) := by
  have hNodup' : (sortNames names).Nodup := (mergeSort_perm names _).nodup_iff.mpr hNodup
  exact ((sortNames_le names).and hNodup').imp fun h => lt_of_le_of_ne h.1 h.2

lemma sortNames_perm (names : List Bytes) : (sortNames names).Perm names := mergeSort_perm names _

/-- Sorting puts distinct names into the one order that they have. -/
lemma sortNames_eq (hSorted : sorted.Pairwise (· < ·))
    (hPerm : names.Perm sorted) : sortNames names = sorted :=
  ((mergeSort_perm names _).trans hPerm).eq_of_pairwise (fun _ _ _ _ h h' => le_antisymm h h')
    (sortNames_le names) (hSorted.imp fun h => h.le)

lemma Listing.nodup (m : Listing) : (m.items.map fst).Nodup :=
  m.sorted.imp fun h => ne_of_lt h

/-- The listing of distinct pairs. -/
def Listing.ofItems (items : List (Bytes × Bytes)) (hNodup : (items.map Prod.fst).Nodup) : Listing where
  items := (sortNames (items.map Prod.fst)).map fun f => (f, (items.lookup f).getD [])
  sorted := by
    rw [List.map_map]
    exact (map_id _).symm ▸ sortNames_lt hNodup

lemma Listing.lookup_ofItems (hNodup : (a.map fst).Nodup) (f : Bytes) :
    (Listing.ofItems a hNodup).items.lookup f = a.lookup f := by
  rw [Listing.ofItems, lookup_map_pair]
  by_cases hMem : f ∈ a.map fst
  · obtain ⟨⟨g, v⟩, hc, rfl⟩ := mem_map.mp hMem
    have hSome := (lookup_eq_some_iff hNodup).mpr hc
    rw [if_pos ((sortNames_perm _).mem_iff.mpr hMem), hSome]
    rfl
  · rw [if_neg fun h => hMem ((sortNames_perm _).mem_iff.mp h)]
    cases hFound : a.lookup f with
    | none => rfl
    | some v => exact absurd (mem_map.mpr ⟨_, (lookup_eq_some_iff hNodup).mp hFound, rfl⟩) hMem

end

/-! ## One map -/

/-- A call of a scan whose cursor is still known. -/
structure ScanCall {data : Datastore} (r : Db) (key : Bytes) (keep : Bytes → Bool) (cursor : Int64)
    (rt : ResumeTable) (out : List (Bytes × Bytes)) (next : Int64) (rt' : ResumeTable) (v : Reader data) : Prop where
  held : cursor ≠ 0 → ∃ e, rt.entries cursor.toUInt64 = some e ∧ ∀ i, v.world.now i < e.expiresMS
  call : ∃ count, v.run (hashScan r key cursor keep count rt) = .ok ((out, next), rt')

/-- The calls of a scan from a cursor on to the end, and what they return. In between,
the table may change in every other way. -/
inductive Scanned (data : Datastore) (r : Db) (key : Bytes) (keep : Bytes → Bool) :
    Int64 → ResumeTable → List (Bytes × Bytes) → Prop
  | last {v : Reader data} {cursor : Int64} {rt rt' : ResumeTable} {out : List (Bytes × Bytes)}
    (hCall : ScanCall r key keep cursor rt out 0 rt' v) : Scanned data r key keep cursor rt out
  | more {v : Reader data} {cursor next : Int64} {rt rt' later : ResumeTable} {out rest : List (Bytes × Bytes)}
    (hCall : ScanCall r key keep cursor rt out next rt' v) (hNext : next ≠ 0)
    (hKept : (later.entries next.toUInt64).map ResumeEntry.place =
      (rt'.entries next.toUInt64).map ResumeEntry.place)
    (hRest : Scanned data r key keep next later rest) : Scanned data r key keep cursor rt (out ++ rest)

/-- What the reads of a node say, in terms of one map. `HGET`, `HMGET` and `HEXISTS` are
asked for some fields. -/
structure Describes {data : Datastore} (r : Db) (key : Bytes) (asked : List Bytes) (m : Listing)
    (v : Reader data) : Prop where
  hget : ∀ f ∈ asked, v.run (hashGet r key f) = (m.items.lookup f).elim (.error .notFound) .ok
  hmget : ∃ out, v.run (hashGetMany r key asked) = .ok out ∧ ∀ f ∈ asked, out.lookup f = m.items.lookup f
  hexists : ∀ f ∈ asked, v.run (hashExists r key f) = .ok (m.items.lookup f).isSome
  hgetall : ∃ out, v.run (hashItems r key) = .ok out ∧ out.Perm m.items
  hkeys : v.run (hashFields r key) = .ok (m.items.map Prod.fst)
  hvals : v.run (hashValues r key) = .ok (m.items.map Prod.snd)
  hlen : v.run (hashLen r key) = .ok m.items.length
  hscan : ∀ keep count rt, ∃ next rt', v.run (hashScan r key 0 keep count rt) =
    .ok (((m.items.filter fun it => keep it.1).take (scanCount count), next), rt')

/-- The reads of a hash agree: there is one map that all of them describe, whatever the
order in which a node lists its entries, and that a whole scan returns. -/
def ReadsAgree (r : Db) (key : Bytes) (data : Datastore) (asked : List Bytes) : Prop :=
  ∃ m : Listing, (∀ v : Reader data, Describes r key asked m v) ∧
    ∀ keep rt out, Scanned data r key keep 0 rt out → out = m.items.filter fun it => keep it.1

/-- The sum of components does not depend on the order in which they are added. -/
def Settled (comps : List (Path × Bytes)) : Prop :=
  ∀ l : List (Path × Bytes), l.Perm comps → fmtNum (fieldTotal l) = fmtNum (fieldTotal comps)

/-- What is stored of a field is read as the same by `HGET`, by `HMGET` and by the
listings. For names that are not empty, it is enough that the field is not a counter. -/
def FieldAgrees (db : Int64) (key field : Bytes) (data : Datastore) : Prop :=
  let comps := componentsAt db key field data
  let AllRead (value : Option Bytes) :=
    ∀ l : List (Path × Bytes), l.Perm (belowField db key field data) → readsAs (hashFieldBase db key field) l = value
  if key = [] ∨ field = [] then comps = [] ∧ AllRead none
  else comps = [] ∨ AllRead (some (fmtNum (fieldTotal comps))) ∧
      (HasNumber comps ∨ plainAt db key field data = some (fmtNum (fieldTotal comps)))

section

variable {data : Datastore} {r : Db} {key : Bytes} {m : Listing}

/-- What one page holds, and what comes behind it. -/
lemma run_hashScan {v : Reader data} (hItems : v.run (hashItems r key) = .ok items)
    (hPerm : items.Perm m.items) (hHeld : Held r key rt v.world.now cursor place) (keep : Bytes → Bool)
    (count : Int64) : ∃ page next rt', v.run (hashScan r key cursor keep count rt) =
    .ok ((page.map fun f => (f, (m.items.lookup f).getD []), next), rt') ∧ page =
    (remaining keep (m.items.map fst) place).take (scanCount count) ∧
    Continues r key keep (m.items.map fst) place page next rt' := by
  have hNodup : (items.map fst).Nodup := (hPerm.map fst).nodup_iff.mpr m.nodup
  have hFields : sortNames (items.map fst) = m.items.map fst :=
    sortNames_eq m.sorted (hPerm.map fst)
  -- the clock of the node after the fields have been read
  obtain ⟨w, hRun, hNow⟩ : ∃ w, (hashItems r key).execIn v.order v.world = (.ok items, w) ∧
      Held r key rt w.now cursor place := by
    exact ⟨((hashItems r key).execIn v.order v.world).2, Prod.ext hItems rfl,
      hHeld.later fun P => ReadM.now_execIn (hashItems r key)⟩
  obtain ⟨idx, next, rt', w', hPage, hTake, hContinues⟩ :=
    execIn_scanPage m.sorted hNow count keep v.order
  refine ⟨idx.map fun i => (m.items.map fst).getD i [], next, rt', ?_, hTake, hContinues⟩
  rw [run, hashScan, readIn_bind hRun, hFields, readIn_bind hPage]
  show ok ((idx.map fun i => ((m.items.map fst).getD i [],
    (items.lookup ((m.items.map fst).getD i [])).getD []), next), rt') = _
  simp only [lookup_of_perm hNodup hPerm, List.map_map]
  rfl

lemma items_of_names (m : Listing) (keep : Bytes → Bool) :
    ((m.items.map fst).filter keep).map (fun f => (f, (m.items.lookup f).getD [])) =
    m.items.filter fun it => keep it.1 := by
  rw [List.filter_map, List.map_map]
  refine (map_congr_left fun it hMem => ?_).trans (map_id _)
  have hFound := (lookup_eq_some_iff m.nodup).mpr (mem_of_mem_filter hMem)
  simp [hFound]

/-- **The pages of a scan**: from a position on, everything that is to come. -/
theorem Scanned.eq (hItems : ∀ v : Reader data,
      ∃ items, v.run (hashItems r key) = .ok items ∧ items.Perm m.items)
    (h : Scanned data r key keep cursor rt out) (place : Option Bytes)
    (hPlace : if cursor = 0 then place = none else
      ∃ last, place = some last ∧ (rt.entries cursor.toUInt64).map ResumeEntry.place = some (r.num, key, last)) :
    out = (remaining keep (m.items.map Prod.fst) place).map fun f => (f, (m.items.lookup f).getD []) := by
  -- what a call returns, if the position is known
  have hPage : ∀ {v : Reader data} {cursor next : Int64} {rt rt' : ResumeTable} {out : List (Bytes × Bytes)}
      {place : Option Bytes}, ScanCall r key keep cursor rt out next rt' v →
      (if cursor = 0 then place = none else ∃ last, place = some last ∧
        (rt.entries cursor.toUInt64).map ResumeEntry.place = some (r.num, key, last)) →
      ∃ page, out = page.map (fun f => (f, (m.items.lookup f).getD [])) ∧
        Continues r key keep (m.items.map fst) place page next rt' := by
    intro v cursor next rt rt' out place hCall hPlace
    obtain ⟨items, hRun, hPerm⟩ := hItems v
    obtain ⟨count, hScan⟩ := hCall.call
    have hHeld : Held r key rt v.world.now cursor place := by
      rw [Held]
      by_cases hZero : cursor = 0
      · rw [if_pos hZero] at hPlace ⊢
        exact hPlace
      · rw [if_neg hZero] at hPlace ⊢
        obtain ⟨e, hEntry, hTime⟩ := hCall.held hZero
        obtain ⟨last, rfl, hWhere⟩ := hPlace
        rw [hEntry, map_some, some.injEq, ResumeEntry.place, Prod.mk.injEq, Prod.mk.injEq] at hWhere
        obtain ⟨hDb, hKey, rfl⟩ := hWhere
        exact ⟨e, hEntry, rfl, hDb, hKey, hTime⟩
    obtain ⟨page, next', rt₁, hRun', -, hContinues⟩ := run_hashScan hRun hPerm hHeld keep count
    rw [hRun', ok.injEq, Prod.mk.injEq, Prod.mk.injEq] at hScan
    obtain ⟨⟨rfl, rfl⟩, rfl⟩ := hScan
    exact ⟨page, rfl, hContinues⟩
  induction h generalizing place with
  | last hCall =>
    obtain ⟨page, rfl, hContinues⟩ := hPage hCall hPlace
    rw [hContinues.done rfl]
  | more hCall hNext hKept hRest ih =>
    obtain ⟨page, rfl, hContinues⟩ := hPage hCall hPlace
    obtain ⟨last, e, hEntry, hWhere, hSplit⟩ := hContinues.more hNext
    have hAt := ih (some last) (by
      rw [if_neg hNext]
      exact ⟨last, rfl, by rw [hKept, hEntry, map_some, hWhere]⟩)
    rw [hAt, hSplit, map_append]

/-- A node whose listing is the map. -/
lemma describes_of_items (hHash : IsHash r key data)
    (hItems : ∀ v : Reader data, ∃ items, v.run (hashItems r key) = .ok items ∧ items.Perm m.items)
    {v : Reader data}
    (hGet : ∀ f ∈ asked, v.run (hashGet r key f) = (m.items.lookup f).elim (.error .notFound) .ok)
    (hMany : ∀ f ∈ asked, readsAs (hashFieldBase r.num key f) (v.order.list (belowField r.num key f data)) =
      m.items.lookup f) : Describes r key asked m v := by
  obtain ⟨items, hRun, hPerm⟩ := hItems v
  have hExec : (hashItems r key).execIn v.order v.world = (.ok items, ((hashItems r key).execIn v.order v.world).2) :=
    Prod.ext hRun rfl
  have hNames : sortNames (items.map Prod.fst) = m.items.map Prod.fst :=
    sortNames_eq m.sorted (hPerm.map fst)
  refine ⟨hGet, ?_, fun f hf => run_hashExists (hGet f hf), ⟨items, hRun, hPerm⟩, ?_, ?_, ?_, ?_⟩
  · refine ⟨_, run_hashGetMany hHash asked, fun f hf => ?_⟩
    rw [lookup_filterMap_pair, if_pos hf, hMany f hf]
  · rw [run, hashFields, readIn_bind hExec, hNames]
    rfl
  · -- the fields are read once more
    let v' : Reader data := ⟨v.order, ((hashItems r key).execIn v.order v.world).2,
      (ReadM.data_execIn _ _).trans v.here⟩
    obtain ⟨items', hRun', hPerm'⟩ := hItems v'
    have hNodup' : (items'.map fst).Nodup := (hPerm'.map fst).nodup_iff.mpr m.nodup
    have hFields : (hashFields r key).execIn v.order v.world = (.ok (m.items.map fst), v'.world) := by
      rw [hashFields, readIn_bind hExec, hNames]
      rfl
    have hAgain : ReadM.execIn v.order (hashItems r key).attempt v'.world =
        (.ok (.ok items'), ((hashItems r key).execIn v.order v'.world).2) := by
      rw [readIn_attempt]
      exact congrArg (fun out => (ok out, _)) hRun'
    rw [run, hashValues, readIn_bind hFields, readIn_bind hAgain]
    show ok ((m.items.map fst).map fun f => (items'.lookup f).getD []) = _
    rw [List.map_map]
    refine congrArg ok (map_congr_left fun it hMem => ?_)
    have hFound := (lookup_eq_some_iff hNodup').mpr (hPerm'.mem_iff.mpr hMem)
    simp [hFound]
  · rw [run, hashLen, readIn_bind hExec, ← hPerm.length_eq]
    rfl
  · intro keep count rt
    obtain ⟨page, next, rt', hScan, hTake, -⟩ := run_hashScan hRun hPerm
      (show Held r key rt _ 0 none by rw [Held, if_pos rfl]) keep count
    refine ⟨next, rt', ?_⟩
    rw [hScan, hTake, map_take, remaining, items_of_names]

/-- What is listed of a field depends on the order only where the sum does. -/
lemma fieldIn_eq_of_settled (hShaped : ShapedAt r.num key data)
    (hSettled : key ≠ [] → ∀ f : Bytes, f ≠ [] → Settled (componentsAt r.num key f data))
    (hl : l.Perm (data.entries (hashBase r.num key))) (f : Bytes) :
    (liveFields (hashBase r.num key) l).lookup f =
    (liveFields (hashBase r.num key) (data.entries (hashBase r.num key))).lookup f := by
  by_cases hKey : key = []
  · subst hKey
    rw [liveFields_nameless hl, liveFields_nameless (.refl _)]
  rw [lookup_liveFields, lookup_liveFields]
  by_cases hField : f = []
  · subst hField
    rw [fieldIn_nameless hShaped hKey hl, fieldIn_nameless hShaped hKey (.refl _)]
  rw [fieldIn_eq hShaped hKey hField hl, fieldIn_eq hShaped hKey hField (.refl _)]
  rw [hSettled hKey f hField _ (perm_components hl), hSettled hKey f hField _ (perm_components (.refl _))]

end

section

variable {data : Datastore} {r : Db} {key : Bytes} {asked : List Bytes} {f : Bytes}

/-- The map of a hash, by the listing in the order of the keys. -/
def mapOf (r : Db) (key : Bytes) (data : Datastore) : Listing :=
  .ofItems (liveFields (hashBase r.num key) (data.entries (hashBase r.num key))) (nodup_liveFields _ _)

lemma lookup_mapOf (f : Bytes) : (mapOf r key data).items.lookup f =
    (liveFields (hashBase r.num key) (data.entries (hashBase r.num key))).lookup f :=
  Listing.lookup_ofItems _ f

/-- A plain field with a name, read below its own prefix. -/
lemma readsAs_of_plain (hShaped : ShapedAt r.num key data) (hKey : key ≠ []) (hField : f ≠ [])
    (hPlain : componentsAt r.num key f data = []) (hl : l.Perm (belowField r.num key f data)) :
    readsAs (hashFieldBase r.num key f) l = plainAt r.num key f data := by
  have hAll : (belowField r.num key f data).filter
      (fun e => ¬ Under (hashFieldCounterBase r.num key f) e.1) = belowField r.num key f data := by
    rw [filter_eq_self]
    intro e he
    refine decide_eq_true fun hUnder => ?_
    have hMem : e ∈ componentsAt r.num key f data :=
      mem_entries.mpr ⟨(mem_entries.mp he).1, hUnder⟩
    rw [hPlain] at hMem
    cases hMem
  rw [plainAt, ← liveValue_slotsIn hShaped hKey hField (.refl _) (.refl _)]
  exact (liveValue_slotsIn hShaped hKey hField (.refl _) (hAll.symm ▸ hl)).symm

lemma components_filter (f : Bytes) : (data.entries (hashBase r.num key)).filter
    (fun e => Under (hashFieldCounterBase r.num key f) e.1) = componentsAt r.num key f data := by
  have hBase : hashFieldCounterBase r.num key f = hashBase r.num key ++ [.enc f, .word .c] := by
    rw [hashFieldCounterBase, hashFieldBase, append_assoc]
    rfl
  rw [componentsAt, hBase, filter_entries]

variable (hShaped : ShapedAt r.num key data)

include hShaped

/-- What the map says of a field with a name. -/
lemma lookup_mapOf_eq (hKey : key ≠ []) (hField : f ≠ []) :
    (mapOf r key data).items.lookup f =
      if HasNumber (componentsAt r.num key f data) then some (fmtNum (fieldTotal (componentsAt r.num key f data)))
      else plainAt r.num key f data := by
  rw [lookup_mapOf, lookup_liveFields, fieldIn_eq hShaped hKey hField (.refl _), components_filter]

/-- Without a name for the key or the field, the map says nothing. -/
lemma lookup_mapOf_nameless (hName : key = [] ∨ f = []) : (mapOf r key data).items.lookup f = none := by
  rw [lookup_mapOf]
  by_cases hKey : key = []
  · subst hKey
    rw [liveFields_nameless (.refl _)]
    rfl
  · obtain rfl := hName.resolve_left hKey
    rw [lookup_liveFields, fieldIn_nameless hShaped hKey (.refl _)]

/-- The condition is enough. -/
lemma readsAgree_of_settled (hHash : IsHash r key data)
    (hSettled : key ≠ [] → ∀ f : Bytes, f ≠ [] → Settled (componentsAt r.num key f data))
    (hFields : ∀ f ∈ asked, FieldAgrees r.num key f data) : ReadsAgree r key data asked := by
  have hItems : ∀ v : Reader data,
      ∃ items, v.run (hashItems r key) = .ok items ∧ items.Perm (mapOf r key data).items := by
    intro v
    refine ⟨_, run_hashItems hHash, perm_of_lookup (nodup_liveFields _ _) (mapOf r key data).nodup fun f => ?_⟩
    rw [lookup_mapOf, fieldIn_eq_of_settled hShaped hSettled (v.order.perm _)]
  -- what the map says of a field that is asked for, `HGET` and `HMGET` say as well
  have hAsked : ∀ (v : Reader data), ∀ f ∈ asked,
      v.run (hashGet r key f) = ((mapOf r key data).items.lookup f).elim (.error .notFound) .ok ∧
      readsAs (hashFieldBase r.num key f) (v.order.list (belowField r.num key f data)) =
        (mapOf r key data).items.lookup f := by
    intro v f hf
    have hAgrees := hFields f hf
    rw [run_hashGet hHash]
    by_cases hName : key = [] ∨ f = []
    · rw [FieldAgrees, if_pos hName] at hAgrees
      rw [if_pos hAgrees.1, hAgrees.2 _ (v.order.perm _), lookup_mapOf_nameless hShaped hName]
      exact ⟨rfl, rfl⟩
    rw [FieldAgrees, if_neg hName] at hAgrees
    obtain ⟨hKey, hField⟩ := not_or.mp hName
    rw [lookup_mapOf_eq hShaped hKey hField]
    by_cases hPlain : componentsAt r.num key f data = []
    · have hNumber : ¬ HasNumber (componentsAt r.num key f data) := by
        rw [hPlain]
        rintro ⟨e, he, -⟩
        cases he
      rw [if_pos hPlain, if_neg hNumber, readsAs_of_plain hShaped hKey hField hPlain (v.order.perm _)]
      exact ⟨rfl, rfl⟩
    · obtain ⟨hRead, hNumber⟩ := hAgrees.resolve_left hPlain
      have hSum := hSettled hKey f hField _ (v.order.perm (componentsAt r.num key f data))
      have hValue : (if HasNumber (componentsAt r.num key f data)
          then some (fmtNum (fieldTotal (componentsAt r.num key f data)))
          else plainAt r.num key f data) = some (fmtNum (fieldTotal (componentsAt r.num key f data))) := by
        split
        · rfl
        · next hNot => exact hNumber.resolve_left hNot
      rw [if_neg hPlain, hValue, hSum, hRead _ (v.order.perm _)]
      exact ⟨rfl, rfl⟩
  refine ⟨mapOf r key data, fun v => describes_of_items hHash hItems (fun f hf => (hAsked v f hf).1)
    fun f hf => (hAsked v f hf).2, fun keep rt out hScan => ?_⟩
  rw [hScan.eq hItems none (by simp), remaining, items_of_names]

omit hShaped

/-- Without a number, a sum is nothing. -/
lemma fieldTotal_of_no_number (h : ¬ HasNumber comps) : fieldTotal comps = .zero false := by
  have hNone : comps.filterMap (fun e => (Float64.parse e.2).map fun n => (([] : Bytes), n)) = [] := by
    rw [filterMap_eq_nil_iff]
    intro e he
    rw [map_eq_none_iff, ← not_isSome_iff_eq_none]
    exact fun hSome => h ⟨e, he, hSome⟩
  rw [← sumFloat_filterMap [], hNone]
  rfl

/-- If a field is listed as the same in every order, the sum of its components is, too. -/
lemma settled_of_fieldIn (hShaped : ShapedAt r.num key data) (hKey : key ≠ []) (hField : f ≠ [])
    (hSame : ∀ l : List (Path × Bytes), l.Perm (data.entries (hashBase r.num key)) →
      fieldIn (hashBase r.num key) l f = fieldIn (hashBase r.num key) (data.entries (hashBase r.num key)) f) :
    Settled (componentsAt r.num key f data) := by
  intro l hl
  by_cases hNumber : HasNumber (componentsAt r.num key f data)
  · -- the listing with these components first
    let rest := (data.entries (hashBase r.num key)).filter fun e => ¬ Under (hashFieldCounterBase r.num key f) e.1
    have hOrder : (l ++ rest).Perm (data.entries (hashBase r.num key)) := by
      have hSplit := filter_append_perm
        (fun e : Path × Bytes => decide (Under (hashFieldCounterBase r.num key f) e.1)) (data.entries (hashBase r.num key))
      rw [components_filter] at hSplit
      refine (hl.append_right rest).trans ?_
      simpa [rest] using hSplit
    have hFirst : (l ++ rest).filter (fun e => Under (hashFieldCounterBase r.num key f) e.1) = l := by
      have hl' : l.filter (fun e => Under (hashFieldCounterBase r.num key f) e.1) = l := by
        rw [filter_eq_self]
        intro e he
        exact decide_eq_true (mem_entries.mp (hl.mem_iff.mp he)).2
      have hRest : rest.filter (fun e => Under (hashFieldCounterBase r.num key f) e.1) = [] := by
        rw [filter_eq_nil_iff]
        intro e he
        simpa using (mem_filter.mp he).2
      rw [filter_append, hl', hRest, append_nil]
    have hListed := hSame _ hOrder
    rw [fieldIn_eq hShaped hKey hField hOrder, fieldIn_eq hShaped hKey hField (.refl _),
      if_pos hNumber, if_pos hNumber, hFirst, components_filter, some.injEq] at hListed
    exact hListed
  · have hNumber' : ¬ HasNumber l := fun ⟨e, he, hSome⟩ => hNumber ⟨e, hl.mem_iff.mp he, hSome⟩
    rw [fieldTotal_of_no_number hNumber, fieldTotal_of_no_number hNumber']

/-- The condition is necessary. -/
lemma settled_of_readsAgree (hShaped : ShapedAt r.num key data) (hHash : IsHash r key data)
    (hAgree : ReadsAgree r key data asked) :
    (key ≠ [] → ∀ f : Bytes, f ≠ [] → Settled (componentsAt r.num key f data)) ∧ ∀ f ∈ asked,
    FieldAgrees r.num key f data := by
  obtain ⟨m, hDescribes, -⟩ := hAgree
  let node (o : Order) : Reader data := ⟨o, ⟨data, { wall := fun _ => 0 }, fun _ => 0, 0, fun _ => 0⟩, rfl⟩
  -- what is listed, in any order, is the map
  have hListed : ∀ {l : List (Path × Bytes)}, l.Perm (data.entries (hashBase r.num key)) → ∀ f,
      (liveFields (hashBase r.num key) l).lookup f = m.items.lookup f := by
    intro l hl f
    have hRun := run_hashItems hHash (v := node (.pick hl))
    obtain ⟨out, hOut, hPerm⟩ := (hDescribes (node (.pick hl))).hgetall
    rw [hRun, ok.injEq] at hOut
    have hList : (node (.pick hl)).order.list (data.entries (hashBase r.num key)) = l := Order.pick_list hl
    rw [hList] at hOut
    subst hOut
    exact lookup_of_perm (nodup_liveFields _ _) hPerm f
  have hMap : ∀ f, m.items.lookup f = (mapOf r key data).items.lookup f := by
    intro f
    rw [lookup_mapOf, hListed (.refl _)]
  refine ⟨fun hKey f hField => ?_, fun f hf => ?_⟩
  · refine settled_of_fieldIn hShaped hKey hField fun l hl => ?_
    rw [← lookup_liveFields, hListed hl, hMap, lookup_mapOf, lookup_liveFields]
  · have hGet := (hDescribes (node .byKey)).hget f hf
    rw [run_hashGet hHash, hMap] at hGet
    have hMany : ∀ l : List (Path × Bytes), l.Perm (belowField r.num key f data) →
        readsAs (hashFieldBase r.num key f) l = (mapOf r key data).items.lookup f := by
      intro l hl
      obtain ⟨out, hOut, hValue⟩ := (hDescribes (node (.pick hl))).hmget
      rw [run_hashGetMany hHash, ok.injEq] at hOut
      have hList : (node (.pick hl)).order.list (belowField r.num key f data) = l := Order.pick_list hl
      have hSame := (hValue f hf).trans (hMap f)
      rw [← hOut, lookup_filterMap_pair, if_pos hf, hList] at hSame
      exact hSame
    rw [FieldAgrees]
    by_cases hName : key = [] ∨ f = []
    · have hNone := lookup_mapOf_nameless hShaped hName (r := r)
      rw [if_pos hName]
      refine ⟨?_, fun l hl => (hMany l hl).trans hNone⟩
      by_contra hComps
      rw [if_neg hComps, hNone] at hGet
      cases hGet
    rw [if_neg hName]
    obtain ⟨hKey, hField⟩ := not_or.mp hName
    by_cases hPlain : componentsAt r.num key f data = []
    · exact .inl hPlain
    · rw [if_neg hPlain] at hGet
      have hLookup : (mapOf r key data).items.lookup f =
          some (fmtNum (fieldTotal (componentsAt r.num key f data))) := by
        cases hValue : (mapOf r key data).items.lookup f with
        | none =>
          rw [hValue] at hGet
          cases hGet
        | some value =>
          rw [hValue] at hGet
          exact congrArg some (ok.inj hGet).symm
      refine .inr ⟨fun l hl => (hMany l hl).trans hLookup, ?_⟩
      rw [lookup_mapOf_eq hShaped hKey hField] at hLookup
      by_cases hNumber : HasNumber (componentsAt r.num key f data)
      · exact .inl hNumber
      · exact .inr ((if_neg hNumber).symm.trans hLookup)

/-- **When the reads of a hash agree.** In every run, at every replica, for every hash and
every list of fields asked for: the sums of its counter fields do not depend on the order
in which the components are added, and each of the fields is one whose entries `HGET`,
`HMGET` and the listings take for the same; a field with a name that has no components
always is. -/
theorem hash_reads_agree_iff {numParts : Nat} {world : Replica → World} (hEmpty : ∀ n, (world n).data = ∅)
    {s : Sites} (hReach : Reach (Sites.step numParts) Arrives (.idle world) s) (n : Replica) (db : Int64)
    (key : Bytes) (hHash : IsHash ⟨n, db⟩ key (s.site n).world.data) (asked : List Bytes) :
    ReadsAgree ⟨n, db⟩ key (s.site n).world.data asked ↔
    (key ≠ [] → ∀ f : Bytes, f ≠ [] → Settled (componentsAt db key f (s.site n).world.data)) ∧ ∀ f ∈ asked,
    FieldAgrees db key f (s.site n).world.data := by
  have hShaped : ShapedAt db key (s.site n).world.data := fun k v _ => shaped_of_reach hEmpty hReach n k v
  constructor
  · exact settled_of_readsAgree hShaped hHash
  · exact fun ⟨hSettled, hFields⟩ => readsAgree_of_settled hShaped hHash hSettled hFields

end

/-! ### A field, and a counter -/

private def reader : Replica := .named 101

private def startingAt (_ : Replica) : World := .fresh

/-- Nothing arrives from elsewhere. -/
private def Alone (_ : Sites) (l : Replica × Happening) : Prop :=
  match l.2 with
  | .change _ => False
  | _ => True

private instance instDecidableAlone (s : Sites) (l : Replica × Happening) : Decidable (Alone s l) :=
  match l with
  | (_, .change _) => isFalse id
  | (_, .start ..) | (_, .call _) | (_, .fault ..) | (_, .beginTxn _) | (_, .commit ..) => isTrue trivial

private lemma arrives_of_alone (s : Sites) (l : Replica × Happening) (h : Alone s l) : Arrives s l := by
  obtain ⟨n, a⟩ := l
  cases a with
  | change data => exact h.elim
  | _ => trivial

/-- A method, as far as some calls. -/
private def oneMethod (m : Method) (calls : Nat) : List (Replica × Happening) :=
  (reader, .start 0 0 m) :: List.replicate calls (reader, .call 0)

/-- `HSET k f v`. -/
private def oneField : Method := .hash (.set [107] [102] [118])

/-- `HINCRBY k f 5`. -/
private def oneCounter : Method := .hash (.incr [107] [102] 5)

/-- A key with one slot of metadata, that of a hash. -/
private def singleHash (data : Datastore) : Prop := (data.entries (metaBase 0 [107])).length = 1 ∧
  ∀ e ∈ data.entries (metaBase 0 [107]), ∀ found ∈ Store.readMeta (Store.readSlots (metaBase 0 [107]) [e]).pairs,
    found.1.type = typeHash

private instance decidableSingleHash (data : Datastore) : Decidable (singleHash data) :=
  inferInstanceAs (Decidable (_ ∧ _))

private lemma isHash_of_single {data : Datastore} (h : singleHash data) : IsHash ⟨reader, 0⟩ [107] data := by
  intro l hl m mtime hMeta
  obtain ⟨e, hEntries⟩ := length_eq_one_iff.mp h.1
  rw [hEntries] at hl
  rw [perm_singleton.mp hl] at hMeta
  exact h.2 e (by simp [hEntries]) _ hMeta

/-- The reads of a hash with one plain field agree on it, and on a field it does not have. -/
theorem hash_reads_agree_plain : ∃ s, Reach (Sites.step 1) Arrives (.idle startingAt) s ∧
    ReadsAgree ⟨reader, 0⟩ [107] (s.site reader).world.data [[102], [103]] := by
  obtain ⟨s, hRun, hSingle, hLength, hF, hG⟩ : ∃ s, Reach (Sites.step 1) Alone (.idle startingAt) s ∧
      (let data := (s.site reader).world.data
      singleHash data ∧ (data.entries (hashBase 0 [107])).length = 1 ∧
        componentsAt 0 [107] [102] data = [] ∧ componentsAt 0 [107] [103] data = []) :=
    Reach.of_eval (oneMethod oneField 9) (by decide +kernel)
  have hReach := hRun.mono arrives_of_alone
  have hHash := isHash_of_single hSingle
  refine ⟨s, hReach, (hash_reads_agree_iff (fun _ => rfl) hReach reader 0 [107] hHash [[102], [103]]).mpr ⟨?_, ?_⟩⟩
  · -- there is not enough below the prefix for an order to matter
    intro _ f _ l hl
    have hShort : (componentsAt 0 [107] f (s.site reader).world.data).length ≤ 1 := by
      rw [← components_filter (r := ⟨reader, 0⟩), ← hLength]
      exact length_filter_le _ _
    obtain hNone | ⟨e, hOne⟩ : componentsAt 0 [107] f (s.site reader).world.data = [] ∨
        ∃ e, componentsAt 0 [107] f (s.site reader).world.data = [e] := by
      rcases Nat.le_one_iff_eq_zero_or_eq_one.mp hShort with hZero | hOne
      · exact .inl (eq_nil_of_length_eq_zero hZero)
      · exact .inr (length_eq_one_iff.mp hOne)
    · rw [hNone] at hl ⊢
      rw [hl.eq_nil]
    · rw [hOne] at hl ⊢
      rw [perm_singleton.mp hl]
  · intro f hf
    rw [FieldAgrees, if_neg (by rintro (hKey | rfl) <;> simp_all)]
    rcases mem_pair.mp hf with rfl | rfl
    · exact .inl hF
    · exact .inl hG

/-- `HINCRBY k f 5` makes a counter field, which `HGET` and `HGETALL` return as 5 and which
`HMGET` does not find. -/
theorem hmget_misses_counter : ∃ s, Reach (Sites.step 1) Arrives (.idle startingAt) s ∧
    IsHash ⟨reader, 0⟩ [107] (s.site reader).world.data ∧
    ((hashGet ⟨reader, 0⟩ [107] [102]).exec (s.site reader).world).1.toOption = some [53] ∧
    ((hashItems ⟨reader, 0⟩ [107]).exec (s.site reader).world).1.toOption = some [([102], [53])] ∧
    ((hashGetMany ⟨reader, 0⟩ [107] [[102]]).exec (s.site reader).world).1.toOption = some [] ∧
    ¬ ReadsAgree ⟨reader, 0⟩ [107] (s.site reader).world.data [[102]] := by
  obtain ⟨s, hRun, hSingle, hGet, hItems, hMany, hComps, hRead⟩ :
      ∃ s, Reach (Sites.step 1) Alone (.idle startingAt) s ∧ (let data := (s.site reader).world.data
      singleHash data ∧
        ((hashGet ⟨reader, 0⟩ [107] [102]).exec (s.site reader).world).1.toOption = some [53] ∧
        ((hashItems ⟨reader, 0⟩ [107]).exec (s.site reader).world).1.toOption = some [([102], [53])] ∧
        ((hashGetMany ⟨reader, 0⟩ [107] [[102]]).exec (s.site reader).world).1.toOption = some [] ∧
        componentsAt 0 [107] [102] data ≠ [] ∧
        readsAs (hashFieldBase 0 [107] [102]) (belowField 0 [107] [102] data) = none) :=
    Reach.of_eval (oneMethod oneCounter 9) (by decide +kernel)
  have hReach := hRun.mono arrives_of_alone
  have hHash := isHash_of_single hSingle
  refine ⟨s, hReach, hHash, hGet, hItems, hMany, fun hAgree => ?_⟩
  have hShaped : ShapedAt 0 [107] (s.site reader).world.data :=
    fun k v _ => shaped_of_reach (fun _ => rfl) hReach reader k v
  have hFields := (settled_of_readsAgree (r := ⟨reader, 0⟩) hShaped hHash hAgree).2 [102] mem_cons_self
  rw [FieldAgrees, if_neg (by simp)] at hFields
  have hSum := (hFields.resolve_left hComps).1 _ (.refl _)
  rw [hRead] at hSum
  cases hSum

end RedGeo.Repo
