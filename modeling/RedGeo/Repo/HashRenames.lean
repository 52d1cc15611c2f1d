import RedGeo.Repo.HashCopies

/-!
# RedGeo — renaming a hash

`RENAME` finds the key, copies it, and deletes what was copied. Neither the metadata of the
new key nor the deletion touches the new hash, so it is read as the copy.

* `execIn_keyRename` — what it leaves below the prefix of the new key.
* `rename_exact_iff` — when the new hash has the fields and values of the old one, whatever
  the order of the entries.
-/

namespace RedGeo.Repo

open Lib Store List Option ReadM Table Datastore Prod

/-! ## `RENAME` -/

/-- The entries of a hash, as they are listed. -/
abbrev listed (o : Order) (r : Db) (key : Bytes) (w : World) : List (Path × Bytes) :=
  o.list (w.data.entries (hashBase r.num key))

variable {db : Int64} {r : Db} {key newKey : Bytes} {data : Datastore}

/-- Metadata are not below the prefix of a hash. -/
lemma not_under_meta (self : Replica) (db : Int64) (key newKey : Bytes) :
    ¬ Under (hashBase db newKey) (slotKey (metaBase db key) self) := by
  rintro ⟨⟨tail, hTail⟩, -⟩
  by_cases hKey : key = [] <;> by_cases hNew : newKey = [] <;>
    simp_all [slotKey, Store.newKey, metaBase, hashBase, dataBase, Store.part]

/-- What is written in the name of another key is not below the prefix of a hash. -/
lemma keyServeIn_frame (hKey : key ≠ []) (hApart : key ≠ newKey) (hk : Under (hashBase r.num newKey) k)
    (op : KeyOp .hash) (w : World) : (World.keyServeIn o r key op w).2.data[k]? = w.data[k]? := by
  have hOther : ∀ rest : List Seg, Store.newKey (hashBase r.num key ++ rest) ≠ k := by
    rintro rest rfl
    exact hApart (hash_of_under hk).2
  have hMeta : slotKey (metaBase r.num key) r.self ≠ k := by
    rintro rfl
    exact not_under_meta _ _ _ _ hk
  cases op with
  | ask a => cases a <;> rfl
  | slot reg tag value =>
    cases reg with
    | field name =>
      have hPath : slotKey (hashFieldBase r.num key name) r.self ≠ k := by
        rw [slotKey, hashFieldBase, append_assoc]
        exact hOther _
      exact (lookup_insert ..).trans (if_neg hPath)
  | put c value =>
    cases c with
    | fieldCounter field =>
      have hPath : slotAt (hashFieldCounterBase r.num key field) r.self.name ≠ k := by
        rw [slotAt, hashFieldCounterBase, hashFieldBase, append_assoc, append_assoc]
        exact hOther _
      exact (lookup_insert ..).trans (if_neg hPath)
  | del c replica =>
    cases c with
    | fieldCounter field =>
      have hPath : slotAt (hashFieldCounterBase r.num key field) replica ≠ k := by
        rw [slotAt, hashFieldCounterBase, hashFieldBase, append_assoc, append_assoc]
        exact hOther _
      exact (lookup_erase ..).trans (if_neg hPath)
  | drop word hWord rest =>
    obtain rfl : word = .h := by simpa [Space.words] using hWord
    have hPath : Store.newKey (wordBase r.num key .h) ++ rest ≠ k := by
      rintro rfl
      obtain ⟨⟨tail, hTail⟩, -⟩ := hk
      by_cases hNew : newKey = [] <;>
        simp_all [Store.newKey, wordBase, hashBase, dataBase, Store.part]
    exact (lookup_erase ..).trans (if_neg hPath)
  | mark kind etimeMS => exact (lookup_insert ..).trans (if_neg hMeta)
  | unmark => exact (lookup_insert ..).trans (if_neg hMeta)

/-- A program on the old key leaves the new hash as it is. -/
lemma KeyM.frame_execIn {α : Type} (hKey : key ≠ []) (hApart : key ≠ newKey) (p : KeyM .hash α) :
    (p.execIn o r key w).2.data.entries (hashBase r.num newKey) = w.data.entries (hashBase r.num newKey) := by
  refine entries_congr fun k hk => ?_
  have hRun := Prog.Obeys.run (h := World.keyServeIn o r key) (I := fun w' => w'.data[k]? = w.data[k]?)
    (Prog.obeys_anything p) (fun op w' hSame _ => ⟨trivial, (keyServeIn_frame hKey hApart hk op w').trans hSame⟩) rfl
  exact hRun.1

/-- `deleteHash` does not fail. -/
lemma execIn_deleteHash (key : Bytes) (w : World) :
    ∃ w', (deleteHash r key).execIn o r key w = (.ok (), w') := by
  have hEntry : ∀ (done : List Bytes) (e : Path × Bytes) (w : World), ∃ done' w',
      (deleteHashEntry (hashBase r.num key) done e).execIn o r key w = (.ok done', w') := by
    intro done e w
    rw [deleteHashEntry]
    split
    · split
      · exact ⟨_, _, rfl⟩
      · exact ⟨_, _, rfl⟩
    · exact ⟨_, _, rfl⟩
    · exact ⟨_, _, rfl⟩
  have hLoop : ∀ (es : List (Path × Bytes)) (done : List Bytes) (w : World), ∃ done' w',
      KeyM.execIn o r key (es.foldlM (deleteHashEntry (hashBase r.num key)) done) w = (.ok done', w') := by
    intro es
    induction es with
    | nil => exact fun done w => ⟨_, _, rfl⟩
    | cons e es ih =>
      intro done w
      obtain ⟨done', w', hFirst⟩ := hEntry done e w
      obtain ⟨done'', w'', hRest⟩ := ih done' w'
      exact ⟨done'', w'', (KeyM.execIn_bind hFirst _).trans hRest⟩
  have hQuery : KeyM.execIn o r key ((query (hashBase r.num key) false).keyed : KeyM .hash _) w =
      (.ok (listed o r key w), w) :=
    (Prog.run_compile (fun _ _ => rfl) _ w).trans (execIn_load (o := o) (w := w) (hashBase r.num key) id)
  obtain ⟨done, w₁, hDone⟩ := hLoop (listed o r key w) [] w
  have hData : (deleteHashData r key).execIn o r key w = (.ok (), w₁) := by
    rw [deleteHashData]
    exact (KeyM.execIn_bind hQuery _).trans (KeyM.execIn_bind hDone _)
  exact ⟨_, KeyM.execIn_bind hData _⟩

/-- What `RENAME` does with both locks. -/
def renameLocked (r : Db) (key newKey : Bytes) : StoreM Unit := do
  match ← (probe r key : ReadM _) with
  | none => .fail .notFound
  | some k =>
    copyKey r key newKey k.type
    deleteKey r key k.type

/-- What `RENAME` leaves of a hash: the copy, and nothing else below the new prefix. -/
lemma execIn_keyRename (hKey : key ≠ []) (hApart : key ≠ newKey)
    (hProbe : (probe r key).execIn o w = (.ok (some k), w₁)) (hType : k.type = typeHash) : ∃ w', execIn o
    (keyRename r key newKey) w = (.ok (), w') ∧ w'.data.entries (hashBase r.num newKey) =
    ((listed o r key w).foldl (copyEffect r (hashBase r.num key) newKey) w₁).data.entries
    (hashBase r.num newKey) := by
  have hSame : w₁.data = w.data := data_of_execIn hProbe
  let w₂ := (listed o r key w).foldl (copyEffect r (hashBase r.num key) newKey) w₁
  let w₃ := w₂.putSlot r.self (metaBase r.num newKey) tagPresent (encodeMeta ((Kind.hash).envelope 0))
  have hCopy : execIn o (copyKey r key newKey k.type) w₁ = (.ok (), w₃) := by
    have hData := execIn_copyHashData (o := o) (r := r) key newKey w₁
    rw [hSame] at hData
    rw [copyKey, hType]
    exact (execIn_bind hData _).trans (execIn_on _)
  obtain ⟨w₄, hDelete⟩ := execIn_deleteHash (o := o) (r := r) key w₃
  have hLeave : w₄.data.entries (hashBase r.num newKey) = w₃.data.entries (hashBase r.num newKey) := by
    have hFrame := KeyM.frame_execIn (o := o) (r := r) (w := w₃) hKey hApart (deleteHash r key)
    rw [hDelete] at hFrame
    exact hFrame
  have hMark : w₃.data.entries (hashBase r.num newKey) = w₂.data.entries (hashBase r.num newKey) := by
    refine entries_congr fun path hPath => (lookup_insert ..).trans (if_neg ?_)
    rintro rfl
    exact not_under_meta _ _ _ _ hPath
  refine ⟨w₄, ?_, hLeave.trans hMark⟩
  have hBody : execIn o (renameLocked r key newKey) w = (.ok (), w₄) := by
    refine (execIn_bind ((execIn_readCalls _).trans hProbe) _).trans ((execIn_bind hCopy _).trans ?_)
    rw [deleteKey, hType]
    exact (execIn_on _).trans hDelete
  rw [keyRename, if_neg hApart, withLocks]
  split
  · rw [execIn_withLock, execIn_withLock]
    exact hBody
  · rw [execIn_withLock, execIn_withLock]
    exact hBody

/-- An entry of a hash that replicas have written. -/
inductive OfReplica (db : Int64) (key : Bytes) : Path → Bytes → Prop
  | slot (field : Bytes) (o : Replica) (sl : Slot) :
    OfReplica db key (slotKey (hashFieldBase db key field) o) (encodeSlot sl)
  | component (field : Bytes) (o : Replica) (value : Bytes) :
    OfReplica db key (slotKey (hashFieldCounterBase db key field) o) value

/-- A hash that holds slots, tombstones among them, and components of replicas. -/
def HashOf (db : Int64) (key : Bytes) (data : Datastore) : Prop :=
  ∀ (k : Path) (v : Bytes), Under (hashBase db key) k → data[k]? = some v → OfReplica db key k v

section

variable {field : Bytes} {es : List (Path × Bytes)}

variable (h : HashOf db key data)

include h

lemma HashOf.shapedAt : ShapedAt db key data := by
  intro k v hUnder hEntry _
  have hOf := h k v hUnder hEntry
  cases hOf with
  | slot f o sl => exact .slot db key f o sl
  | component f o => exact .component db key f o.name v

lemma HashOf.cell (hKey : key ≠ []) (hes : es.Perm (data.entries (hashBase db key))) :
    ∀ e ∈ es, Cell db key e := by
  intro e he
  refine ⟨below_entries h.shapedAt hKey hes e he, fun f hStray => ?_⟩
  obtain ⟨hEntry, hUnder⟩ := mem_entries.mp (hes.mem_iff.mp he)
  have hOf := h e.1 e.2 hUnder hEntry
  rw [hStray] at hOf
  clear hStray hEntry hUnder
  generalize hPath : hashBase db key ++ [Seg.enc f, Seg.word .c] = path at hOf
  generalize e.2 = v at hOf
  cases hOf with
  | slot f' o sl =>
    by_cases hField : f' = [] <;>
      simp [slotKey, Store.newKey, hashFieldBase, hashBase, dataBase, Store.part, hKey, hField, o.nonempty] at hPath
  | component f' o =>
    by_cases hField : f' = [] <;>
      simp [slotKey, Store.newKey, hashFieldCounterBase, hashFieldBase, hashBase, dataBase, Store.part, hKey, hField,
        o.nonempty] at hPath

/-- The values that are copied are those of the slots that are not deletions. -/
lemma HashOf.mem_presents (hKey : key ≠ []) (hField : field ≠ [])
    (hes : es.Perm (data.entries (hashBase db key))) : v ∈ presents (hashBase db key) field es ↔
    ∃ (o : Replica) (sl : Slot), data[slotKey (hashFieldBase db key field) o]? = some (encodeSlot sl) ∧
    sl.tag ≠ tagDeleted ∧ v = sl.value := by
  have hBelow := below_entries h.shapedAt hKey hes
  rw [presents, mem_filterMap]
  constructor
  · rintro ⟨e, he, hValue⟩
    split at hValue
    · next name replica sl hScanned =>
      split at hValue
      · next hHere =>
        obtain ⟨rfl, hPresent⟩ := hHere
        have hEntry := (mem_entries.mp (hes.mem_iff.mp he)).1
        have hCell : Below db key e := hBelow e he
        cases hCell with
        | slot f hf o sl' =>
          simp only [scannedSlot, namedSlot, trimPrefix_append, decodeSlot_encodeSlot, some.injEq,
            mk.injEq] at hScanned
          obtain ⟨rfl, -, rfl⟩ := hScanned
          rw [← slotKey_field hKey hf] at hEntry
          exact ⟨o, sl', hEntry, hPresent, (some.inj hValue).symm⟩
        | component | stray | nameless | unnamed => simp [scannedSlot, namedSlot] at hScanned
      · cases hValue
    · cases hValue
  · rintro ⟨o, sl, hEntry, hPresent, rfl⟩
    rw [slotKey_field hKey hField] at hEntry
    have hUnder : Under (hashBase db key) (hashBase db key ++ [.enc field, .enc o.name]) :=
      (under_hash hKey).mpr ⟨_, by simp, rfl⟩
    refine ⟨(_, encodeSlot sl), hes.mem_iff.mpr (mem_entries.mpr ⟨hEntry, hUnder⟩), ?_⟩
    simp [scannedSlot, namedSlot, hPresent]

/-- A value that is read is that of a slot that is not a deletion. -/
lemma HashOf.presents_of_plainAt (hKey : key ≠ []) (hField : field ≠ [])
    (hes : es.Perm (data.entries (hashBase db key))) (hRead : plainAt db key field data = some v) :
    v ∈ presents (hashBase db key) field es := by
  have hNodup : (es.map fst).Nodup :=
    (hes.map fst).nodup_iff.mpr (nodup_of_pairwise (pairwise_select _ _))
  rw [plainAt, ← liveValue_slotsIn h.shapedAt hKey hField hes (.refl _), liveValue] at hRead
  split at hRead
  · cases hRead
  · next best replica hWinner =>
    split at hRead
    · cases hRead
    · next hPresent =>
      have hMem := ((winner_eq_some_iff (Dict.nodup_pairs _)).mp hWinner).1
      obtain ⟨e, he, hScanned⟩ := (mem_slotsIn (below_entries h.shapedAt hKey hes) hNodup).mp hMem
      refine mem_filterMap.mpr ⟨e, he, ?_⟩
      rw [hScanned]
      simpa [hPresent] using hRead

omit h

/-- A hash that is found has a field. -/
lemma live_of_probe (hProbe : (probe r key).execIn o w = (.ok (some k), w₁)) (hType : k.type = typeHash) :
    liveFields (hashBase r.num key) (listed o r key w) ≠ [] := by
  have hMeta : ∃ found, (readMeta r key).execIn o w = (.ok found, w) := by
    have hSlots := execIn_load (o := o) (w := w) (metaBase r.num key)
      fun l => (Store.readSlots (metaBase r.num key) l).pairs
    exact ⟨_, readIn_bind hSlots _⟩
  obtain ⟨found, hMeta⟩ := hMeta
  rw [probe, readIn_bind hMeta] at hProbe
  rcases found with _ | ⟨m, mtime⟩
  · cases hProbe
  · obtain ⟨late, w', hLate⟩ : ∃ late w', (hasExpired m.etimeMS).execIn o w = (.ok late, w') := by
      rw [hasExpired]
      split
      · exact ⟨_, _, rfl⟩
      · exact ⟨_, _, rfl⟩
    have hSame : w'.data = w.data := data_of_execIn hLate
    simp only [readIn_bind hLate] at hProbe
    cases late with
    | true => cases hProbe
    | false =>
      simp only [Bool.false_eq_true, if_false] at hProbe
      rcases hLive : (isLive r key m).execIn o w' with ⟨e | live, w''⟩
      · cases (Prog.run_bind_error _ hLive _).symm.trans hProbe
      rw [readIn_bind hLive] at hProbe
      cases live with
      | false => cases hProbe
      | true =>
        obtain rfl : ⟨key, m.type, mtime, if 0 < m.etimeMS then some m.etimeMS else none⟩ = k :=
          some.inj (Except.ok.inj (congrArg fst hProbe))
        have hSpace : spaceOf m = some .hash := by
          rw [spaceOf, show m.type = typeHash from hType]
          rfl
        have hRead : (isLive r key m).execIn o w' = (.ok (!(liveFields (hashBase r.num key) (listed o r key w)).isEmpty), w') := by
          rw [isLive, hSpace, listed, ← hSame]
          exact readIn_bind (execIn_load _ _) _
        rw [hRead] at hLive
        intro hNone
        rw [hNone] at hLive
        cases hLive

/-- The key is found, and is a hash, in whatever order its entries are listed. -/
def FoundHash (r : Db) (key : Bytes) (w : World) : Prop :=
  ∀ o : Order, ∃ k w₁, (probe r key).execIn o w = (.ok (some k), w₁) ∧ k.type = typeHash

/-- `RENAME` succeeds, and the new key has the fields and values that the old one had, in
whatever order the entries are listed when one is read, copied, and the other is read. -/
def RenamesExactly (r : Db) (key newKey : Bytes) (w : World) : Prop :=
  ∀ o : Order, ∃ w', execIn o (keyRename r key newKey) w = (.ok (), w') ∧
    ∀ l l' : List (Path × Bytes), l.Perm (w.data.entries (hashBase r.num key)) →
      l'.Perm (w'.data.entries (hashBase r.num newKey)) → ∀ field,
      (liveFields (hashBase r.num newKey) l').lookup field = (liveFields (hashBase r.num key) l).lookup field

/-- A field is copied as it is read: its sum does not depend on the order, and if there is
none, every slot that is not a deletion holds the value of the field. -/
def CopiedAsRead (db : Int64) (key field : Bytes) (data : Datastore) : Prop :=
  Settled (componentsAt db key field data) ∧ (HasNumber (componentsAt db key field data) ∨
      ∀ (o : Replica) (sl : Slot), data[slotKey (hashFieldBase db key field) o]? = some (encodeSlot sl) →
        sl.tag ≠ tagDeleted → plainAt db key field data = some sl.value)

section

variable {w : World} (hHash : HashOf r.num key w.data) (hKey : key ≠ []) (hNew : newKey ≠ []) (hApart : key ≠ newKey)
  (hFresh : w.data.entries (hashBase r.num newKey) = []) (hFound : FoundHash r key w)
include hHash hKey hNew hApart hFresh hFound

/-- **What the new key is read as.** -/
theorem fieldIn_renamed (o : Order) : ∃ w', execIn o (keyRename r key newKey) w = (.ok (), w') ∧
    ∀ l' : List (Path × Bytes), l'.Perm (w'.data.entries (hashBase r.num newKey)) →
      fieldIn (hashBase r.num newKey) l' [] = none ∧
      ∀ field : Bytes, field ≠ [] → ∃ comps : List (Path × Bytes), comps.Perm (componentsAt r.num key field w.data) ∧
        fieldIn (hashBase r.num newKey) l' field =
          if HasNumber (componentsAt r.num key field w.data) then some (fmtNum (fieldTotal comps))
          else (presents (hashBase r.num key) field (listed o r key w)).getLast? := by
  obtain ⟨k, w₁, hProbe, hType⟩ := hFound o
  have hSame : w₁.data = w.data := data_of_execIn hProbe
  obtain ⟨w', hRun, hEntries⟩ := execIn_keyRename hKey hApart hProbe hType
  refine ⟨w', hRun, fun l' hl' => ?_⟩
  rw [hEntries] at hl'
  have hPerm := o.perm (w.data.entries (hashBase r.num key))
  have hNodup : ((listed o r key w).map fst).Nodup :=
    (hPerm.map fst).nodup_iff.mpr (nodup_of_pairwise (pairwise_select _ _))
  have hCopied := copied_foldl (w := w₁) hNew (hHash.cell hKey hPerm) hNodup (hSame ▸ hFresh)
  generalize (List.foldl (copyEffect r (hashBase r.num key) newKey) w₁
    (listed o r key w)).data = copy at hl' hCopied
  have hShaped := hCopied.shapedAt hNew
  refine ⟨fieldIn_nameless hShaped hNew hl', fun field hField => ?_⟩
  have hComps := hCopied.perm_components hNew hKey hHash.shapedAt hPerm hField
  refine ⟨_, ((perm_components hl').map (rebase (hashBase r.num newKey) (hashBase r.num key))).trans hComps, ?_⟩
  have hNumber : HasNumber (componentsAt r.num newKey field copy) ↔ HasNumber (componentsAt r.num key field w.data) := by
    refine (hasNumber_rebase (hashBase r.num newKey) (hashBase r.num key) _).symm.trans ?_
    simp only [HasNumber, hComps.mem_iff]
  rw [fieldIn_eq hShaped hNew hField hl', hCopied.plainAt hNew hField, fieldTotal_rebase]
  simp only [hNumber]

/-- If every field is copied as it is read, `RENAME` is exact. -/
lemma renamesExactly_of_copiedAsRead
    (hFields : ∀ field : Bytes, field ≠ [] → CopiedAsRead r.num key field w.data) : RenamesExactly r key newKey w := by
  intro o
  obtain ⟨w', hRun, hRead⟩ := fieldIn_renamed hHash hKey hNew hApart hFresh hFound o
  refine ⟨w', hRun, fun l l' hl hl' field => ?_⟩
  obtain ⟨hNameless, hNamed⟩ := hRead l' hl'
  rw [lookup_liveFields, lookup_liveFields]
  by_cases hField : field = []
  · subst hField
    rw [hNameless, fieldIn_nameless hHash.shapedAt hKey hl]
  obtain ⟨comps, hComps, hValue⟩ := hNamed field hField
  obtain ⟨hSettled, hPlain⟩ := hFields field hField
  rw [hValue, fieldIn_eq hHash.shapedAt hKey hField hl, hSettled comps hComps, hSettled _ (perm_components hl)]
  by_cases hNumber : HasNumber (componentsAt r.num key field w.data)
  · rw [if_pos hNumber, if_pos hNumber]
  rw [if_neg hNumber, if_neg hNumber]
  have hOrder := o.perm (w.data.entries (hashBase r.num key))
  cases hLast : (presents (hashBase r.num key) field (listed o r key w)).getLast? with
  | none =>
    -- nothing is there, so nothing is read
    rw [List.getLast?_eq_none_iff] at hLast
    cases hPlainAt : plainAt r.num key field w.data with
    | none => rfl
    | some v =>
      have hMem := hHash.presents_of_plainAt hKey hField hOrder hPlainAt
      rw [hLast] at hMem
      cases hMem
  | some v =>
    obtain ⟨replica, sl, hEntry, hPresent, rfl⟩ :=
      (hHash.mem_presents hKey hField hOrder).mp (mem_of_getLast? hLast)
    exact (hPlain.resolve_left hNumber replica sl hEntry hPresent).symm

/-- If `RENAME` is exact, every field is copied as it is read. -/
lemma copiedAsRead_of_renamesExactly (hExact : RenamesExactly r key newKey w) (hField : field ≠ []) :
    CopiedAsRead r.num key field w.data := by
  refine ⟨settled_of_fieldIn hHash.shapedAt hKey hField fun l hl => ?_, or_iff_not_imp_left.mpr fun hNumber => ?_⟩
  · -- both listings are compared with the same copy
    obtain ⟨w', -, hSame⟩ := hExact .byKey
    rw [← lookup_liveFields, ← lookup_liveFields, ← hSame l _ hl (.refl _), ← hSame _ _ (.refl _) (.refl _)]
  · intro replica sl hEntry hPresent
    rw [slotKey_field hKey hField] at hEntry
    let slot : Path × Bytes := (hashBase r.num key ++ [.enc field, .enc replica.name], encodeSlot sl)
    have hUnder : Under (hashBase r.num key) slot.1 := (under_hash hKey).mpr ⟨_, by simp, rfl⟩
    have hMem : slot ∈ w.data.entries (hashBase r.num key) := mem_entries.mpr ⟨hEntry, hUnder⟩
    -- an order in which this slot comes last
    have hPerm : ((w.data.entries (hashBase r.num key)).erase slot ++ [slot]).Perm
        (w.data.entries (hashBase r.num key)) :=
      (perm_append_singleton _ _).trans (perm_cons_erase hMem).symm
    obtain ⟨w', hRun, hRead⟩ := fieldIn_renamed hHash hKey hNew hApart hFresh hFound (.pick hPerm)
    obtain ⟨w'', hRun', hSame⟩ := hExact (.pick hPerm)
    obtain rfl : w' = w'' := congrArg snd (hRun.symm.trans hRun')
    obtain ⟨comps, -, hValue⟩ := (hRead _ (.refl _)).2 field hField
    have hLast : presents (hashBase r.num key) field [slot] = [sl.value] := by
      simp [presents, slot, scannedSlot, namedSlot, hPresent]
    rw [listed, if_neg hNumber, Order.pick_list, presents_snoc, hLast, List.getLast?_append_cons,
      List.getLast?_singleton] at hValue
    have hListed := hSame _ _ (.refl _) (.refl _) field
    rw [lookup_liveFields, lookup_liveFields, hValue, fieldIn_eq hHash.shapedAt hKey hField (.refl _),
      if_neg hNumber] at hListed
    exact hListed.symm

end

/-- **When `RENAME` of a hash is exact.** For every hash of slots, tombstones and components
of any replicas, and every fresh new key: that key has a name, the sums of the counter fields
do not depend on the order in which the components are added, and in every other field all
slots that are not deletions hold the value that the field is read as. -/
theorem rename_exact_iff {w : World} (hHash : HashOf r.num key w.data) (hApart : key ≠ newKey)
    (hFresh : w.data.entries (hashBase r.num newKey) = []) (hFound : FoundHash r key w) :
    RenamesExactly r key newKey w ↔ newKey ≠ [] ∧ ∀ field : Bytes, field ≠ [] →
    CopiedAsRead r.num key field w.data := by
  obtain ⟨k, w₁, hProbe, hType⟩ := hFound .byKey
  have hLive := live_of_probe hProbe hType
  have hKey : key ≠ [] := by
    rintro rfl
    exact hLive (liveFields_nameless (.refl _))
  constructor
  · intro hExact
    have hNew : newKey ≠ [] := by
      rintro rfl
      -- the old key has a field, and the new one none
      obtain ⟨w', -, hSame⟩ := hExact .byKey
      obtain ⟨⟨f, v⟩, rest, hFields⟩ := exists_cons_of_ne_nil hLive
      have hListed := hSame _ _ (.refl _) (.refl _) f
      rw [liveFields_nameless (.refl _), show liveFields (hashBase r.num key) (w.data.entries (hashBase r.num key)) =
        (f, v) :: rest from hFields, lookup_cons_self] at hListed
      cases hListed
    exact ⟨hNew, fun field hField =>
      copiedAsRead_of_renamesExactly hHash hKey hNew hApart hFresh hFound hExact hField⟩
  · rintro ⟨hNew, hFields⟩
    exact renamesExactly_of_copiedAsRead hHash hKey hNew hApart hFresh hFound hFields

end

/-! ### Two replicas' slots of a field -/

section

variable {cells : List (Bytes × Replica × Slot)}

/-- A hash of slots alone. -/
def HoldsSlots (db : Int64) (key : Bytes) (data : Datastore) (cells : List (Bytes × Replica × Slot)) : Prop :=
  data.entries (hashBase db key) = cells.map fun c => (slotKey (hashFieldBase db key c.1) c.2.1, encodeSlot c.2.2)

variable (h : HoldsSlots db key data cells)

include h

lemma HoldsSlots.hashOf : HashOf db key data := by
  intro k v hUnder hEntry
  have hMem : (k, v) ∈ data.entries (hashBase db key) := mem_entries.mpr ⟨hEntry, hUnder⟩
  rw [h, List.mem_map] at hMem
  obtain ⟨⟨f, o, sl⟩, -, hEq⟩ := hMem
  cases hEq
  exact .slot f o sl

lemma HoldsSlots.componentsAt (hKey : key ≠ []) {f : Bytes} (hField : f ≠ []) :
    componentsAt db key f data = [] := by
  refine eq_nil_iff_forall_not_mem.mpr fun e he => ?_
  obtain ⟨name, v, hName, -, hEntry⟩ := (mem_componentsAt h.hashOf.shapedAt hKey hField).mp he
  have hMem : (hashBase db key ++ [.enc f, .word .c, .enc name], v) ∈ data.entries (hashBase db key) :=
    mem_entries.mpr ⟨hEntry, (under_hash hKey).mpr ⟨_, by simp, rfl⟩⟩
  rw [h, List.mem_map] at hMem
  obtain ⟨⟨g, o, sl⟩, -, hEq⟩ := hMem
  have hPath := congrArg fst hEq
  by_cases hg : g = [] <;>
    simp [slotKey, Store.newKey, hashFieldBase, hashBase, dataBase, Store.part, hKey, hg, o.nonempty] at hPath

lemma HoldsSlots.mem (hKey : key ≠ []) (hField : f ≠ [])
    (hEntry : data[slotKey (hashFieldBase db key f) o]? = some (encodeSlot sl)) : (f, o, sl) ∈ cells := by
  have hMem : (slotKey (hashFieldBase db key f) o, encodeSlot sl) ∈ data.entries (hashBase db key) := by
    rw [slotKey_field hKey hField] at hEntry ⊢
    exact mem_entries.mpr ⟨hEntry, (under_hash hKey).mpr ⟨_, by simp, rfl⟩⟩
  rw [h, List.mem_map] at hMem
  obtain ⟨⟨g, o', sl'⟩, hCell, hEq⟩ := hMem
  obtain ⟨hPath, hSlot⟩ := mk.inj hEq
  obtain rfl := encodeSlot_inj.mp hSlot
  by_cases hg : g = []
  · simp [slotKey, Store.newKey, hashFieldBase, hashBase, dataBase, Store.part, hKey, hg, hField, o.nonempty,
      o'.nonempty] at hPath
  · rw [slotKey_field hKey hg, slotKey_field hKey hField] at hPath
    simp only [append_cancel_left_eq, List.cons.injEq, Seg.enc.injEq, and_true] at hPath
    obtain rfl : g = f := hPath.1
    obtain rfl : o' = o := Replica.ext hPath.2
    exact hCell

omit h

/-- A key with one slot of metadata, and a field that is read. -/
lemma foundHash_of_single {w : World} (h : HoldsSlots r.num key w.data cells) (hKey : key ≠ [])
    (hEntries : w.data.entries (metaBase r.num key) = [e])
    (hMeta : Store.readMeta (Store.readSlots (metaBase r.num key) [e]).pairs = some (m, mtime))
    (hType : m.type = typeHash) (hLasts : m.etimeMS = 0) (hField : f ≠ [])
    (hRead : plainAt r.num key f w.data = some v) : FoundHash r key w := by
  intro o
  have hProbed : (readMeta r key).execIn o w = (.ok (some (m, mtime)), w) := by
    have hSlots := execIn_load (o := o) (w := w) (metaBase r.num key)
      fun l => (Store.readSlots (metaBase r.num key) l).pairs
    have hOne : o.list (w.data.entries (metaBase r.num key)) = [e] := by
      have hPerm := o.perm (w.data.entries (metaBase r.num key))
      rw [hEntries] at hPerm ⊢
      exact perm_singleton.mp hPerm
    refine (readIn_bind hSlots _).trans ?_
    rw [hOne, hMeta]
    rfl
  have hLate : (hasExpired m.etimeMS).execIn o w = (.ok false, w) := by
    rw [hasExpired, hLasts]
    rfl
  have hListed : liveFields (hashBase r.num key) (listed o r key w) ≠ [] := by
    intro hNone
    have hLookup := lookup_liveFields (hashBase r.num key) (listed o r key w) f
    rw [hNone, fieldIn_eq h.hashOf.shapedAt hKey hField (o.perm _), h.componentsAt hKey hField, hRead] at hLookup
    simp [HasNumber] at hLookup
  have hLive : (isLive r key m).execIn o w = (.ok true, w) := by
    have hSpace : spaceOf m = some .hash := by
      rw [spaceOf, hType]
      rfl
    have hFields := execIn_load (o := o) (w := w) (hashBase r.num key) (liveFields (hashBase r.num key))
    rw [isLive, hSpace]
    refine (readIn_bind hFields _).trans ?_
    show (Except.ok (!(liveFields _ _).isEmpty), w) = _
    rw [isEmpty_eq_false_iff.mpr hListed]
    rfl
  refine ⟨⟨key, m.type, mtime, if 0 < m.etimeMS then some m.etimeMS else none⟩, w, ?_, hType⟩
  rw [probe, readIn_bind hProbed]
  simp only [readIn_bind hLate, readIn_bind hLive, Bool.false_eq_true, if_false]
  rfl

private def copier : Replica := .named 101

private def peer : Replica := .named 119

/-- A node with slots of the field `f` of the hash `k`. -/
private def holding (slots : List (Replica × Slot)) : World where
  data := slots.foldl (fun data c => data.insert (slotKey (hashFieldBase 0 [107] [102]) c.1) (encodeSlot c.2))
    ((∅ : Datastore).insert (slotKey (metaBase 0 [107]) copier)
      (encodeSlot ⟨⟨1, 0⟩, tagPresent, encodeMeta ((Kind.hash).envelope 0)⟩))
  clock := { wall := fun _ => 5 }
  now := fun _ => 5

private lemma found_holding (hSlots : HoldsSlots 0 [107] (holding slots).data (slots.map fun c => ([102], c)))
    (hMeta : (holding slots).data.entries (metaBase 0 [107]) = (holding []).data.entries (metaBase 0 [107]))
    (hRead : plainAt 0 [107] [102] (holding slots).data = some v) :
    FoundHash ⟨copier, 0⟩ [107] (holding slots) := by
  have hOne : (holding []).data.entries (metaBase 0 [107]) = [(slotKey (metaBase 0 [107]) copier,
      encodeSlot ⟨⟨1, 0⟩, tagPresent, encodeMeta ((Kind.hash).envelope 0)⟩)] := by decide +kernel
  have hKind : (Store.readMeta (Store.readSlots (metaBase 0 [107]) [(slotKey (metaBase 0 [107]) copier,
      encodeSlot ⟨⟨1, 0⟩, tagPresent, encodeMeta ((Kind.hash).envelope 0)⟩)]).pairs).map fst =
      some ((Kind.hash).envelope 0) := by decide +kernel
  obtain ⟨⟨m, mtime⟩, hFound, rfl⟩ := map_eq_some_iff.mp hKind
  exact foundHash_of_single (r := ⟨copier, 0⟩) hSlots (by decide) (hMeta.trans hOne) hFound rfl rfl (by decide) hRead

/-- The same value from two replicas. -/
theorem rename_exact_agreeing : RenamesExactly ⟨copier, 0⟩ [107] [109]
      (holding [(copier, ⟨⟨3, 0⟩, tagPresent, [118]⟩), (peer, ⟨⟨2, 0⟩, tagPresent, [118]⟩)]) := by
  generalize hSlots : [(copier, (⟨⟨3, 0⟩, tagPresent, [118]⟩ : Slot)), (peer, ⟨⟨2, 0⟩, tagPresent, [118]⟩)] = slots
  have hAre : HoldsSlots 0 [107] (holding slots).data (slots.map fun c => ([102], c)) := by
    subst hSlots
    unfold HoldsSlots
    decide +kernel
  have hMeta : (holding slots).data.entries (metaBase 0 [107]) = (holding []).data.entries (metaBase 0 [107]) := by
    subst hSlots
    decide +kernel
  have hRead : plainAt 0 [107] [102] (holding slots).data = some [118] := by
    subst hSlots
    decide +kernel
  have hFresh : (holding slots).data.entries (hashBase 0 [109]) = [] := by
    subst hSlots
    decide +kernel
  have hExact := rename_exact_iff (r := ⟨copier, 0⟩) hAre.hashOf (by decide) hFresh (found_holding hAre hMeta hRead)
  refine hExact.mpr ⟨by decide, fun f hField => ⟨?_, .inr fun o sl hEntry _ => ?_⟩⟩
  · rw [hAre.componentsAt (by decide) hField]
    intro l hl
    rw [hl.eq_nil]
  · obtain ⟨c, hc, hEq⟩ := mem_map.mp (hAre.mem (by decide) hField hEntry)
    cases hEq
    rw [hRead]
    subst hSlots
    simp only [mem_cons, mk.injEq, not_mem_nil, or_false] at hc
    rcases hc with ⟨-, rfl⟩ | ⟨-, rfl⟩ <;> rfl

/-- The older slot is listed last, and the new key is read as its value. -/
theorem rename_revives_older :
    ∃ w : World, w = holding [(copier, ⟨⟨3, 0⟩, tagPresent, [118]⟩), (peer, ⟨⟨2, 0⟩, tagPresent, [117]⟩)] ∧
      HashOf 0 [107] w.data ∧ w.data.entries (hashBase 0 [109]) = [] ∧ FoundHash ⟨copier, 0⟩ [107] w ∧
      liveFields (hashBase 0 [107]) (w.data.entries (hashBase 0 [107])) = [([102], [118])] ∧
      (∃ w', execIn .byKey (keyRename ⟨copier, 0⟩ [107] [109]) w = (.ok (), w') ∧
        liveFields (hashBase 0 [109]) (w'.data.entries (hashBase 0 [109])) = [([102], [117])]) ∧
      ¬ RenamesExactly ⟨copier, 0⟩ [107] [109] w := by
  generalize hSlots : [(copier, (⟨⟨3, 0⟩, tagPresent, [118]⟩ : Slot)), (peer, ⟨⟨2, 0⟩, tagPresent, [117]⟩)] = slots
  have hAre : HoldsSlots 0 [107] (holding slots).data (slots.map fun c => ([102], c)) := by
    subst hSlots
    unfold HoldsSlots
    decide +kernel
  have hFacts : (holding slots).data.entries (metaBase 0 [107]) = (holding []).data.entries (metaBase 0 [107]) ∧
      plainAt 0 [107] [102] (holding slots).data = some [118] ∧
      (holding slots).data.entries (hashBase 0 [109]) = [] ∧
      liveFields (hashBase 0 [107]) ((holding slots).data.entries (hashBase 0 [107])) = [([102], [118])] := by
    subst hSlots
    decide +kernel
  have hRenamed : (execIn .byKey (keyRename ⟨copier, 0⟩ [107] [109]) (holding slots)).1.toOption = some () ∧
      liveFields (hashBase 0 [109]) ((execIn .byKey (keyRename ⟨copier, 0⟩ [107] [109])
        (holding slots)).2.data.entries (hashBase 0 [109])) = [([102], [117])] := by
    subst hSlots
    decide +kernel
  obtain ⟨hMeta, hRead, hFresh, hOld⟩ := hFacts
  obtain ⟨hOk, hNew⟩ := hRenamed
  refine ⟨_, rfl, hAre.hashOf, hFresh, found_holding hAre hMeta hRead, hOld, ?_, fun hExact => ?_⟩
  · rcases hRun : execIn .byKey (keyRename ⟨copier, 0⟩ [107] [109]) (holding slots) with ⟨e | _, w'⟩
    · rw [hRun] at hOk
      cases hOk
    · rw [hRun] at hNew
      exact ⟨w', rfl, hNew⟩
  · obtain ⟨w', hRun, hSame⟩ := hExact .byKey
    have hField := hSame _ _ (.refl _) (.refl _) [102]
    rw [hRun] at hNew
    rw [show liveFields (hashBase 0 [109]) (w'.data.entries (hashBase 0 [109])) = _ from hNew,
      show liveFields (hashBase 0 [107]) ((holding slots).data.entries (hashBase 0 [107])) = _ from hOld] at hField
    revert hField
    decide

end

end RedGeo.Repo
