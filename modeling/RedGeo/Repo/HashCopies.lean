import RedGeo.Repo.HashReads

/-!
# RedGeo — copying a hash

`copyHashData` goes over a hash entry by entry: every slot that is not a deletion is written
anew, in the order in which the query returns them, and the components of counters are copied
as they are. A read, by contrast, takes the slot with the greatest stamp.

* `Copied` — what is below the prefix of the new key when some entries have been copied. One
  entry keeps it (`Copied.step`), and so does the whole loop (`copied_foldl`).
* `Copied.plainAt`, `Copied.perm_components` — what the copy is read as: of the slots of a
  field, the one that was copied last; of its components, the same numbers.
-/

namespace RedGeo.Repo

open Lib Store List Option Table Datastore Prod
open Seg (enc)

/-! ## The copy, entry by entry -/

/-- What `copyHashEntry` does to a node. -/
def copyEffect (r : Db) (base : List Seg) (newKey : Bytes) (w : World) (e : Path × Bytes) : World :=
  match trimPrefix base e.1 with
  | [.enc field, _] =>
    match decodeSlot e.2 with
    | .ok sl =>
      if sl.tag = tagDeleted then w
      else w.putSlot r.self (hashFieldBase r.num newKey field) tagPresent sl.value
    | .error _ => w
  | [.enc field, .word .c, .enc replica] =>
    { w with data := w.data.insert (slotAt (hashFieldCounterBase r.num newKey field) replica) e.2 }
  | _ => w

section

variable {newKey : Bytes}

lemma execIn_copyHashEntry (base : List Seg) (newKey : Bytes) (e : Path × Bytes) (w : World) :
    execIn o (copyHashEntry r base newKey e) w = (.ok (), copyEffect r base newKey w e) := by
  rw [copyHashEntry]
  fun_cases copyEffect r base newKey w e with
  | case1 field seg hRest sl hSlot hDeleted =>
    simp only [hRest, hSlot, if_pos hDeleted]
    rfl
  | case2 field seg hRest sl hSlot hDeleted =>
    simp only [hRest, hSlot, if_neg hDeleted]
    exact execIn_on _
  | case3 field seg hRest msg hSlot =>
    simp only [hRest, hSlot]
    rfl
  | case4 field replica hRest =>
    simp only [hRest]
    rfl
  | case5 =>
    simp only
    rfl

lemma execIn_copyHashData (key newKey : Bytes) (w : World) :
    execIn o (copyHashData r key newKey) w = (.ok (), (o.list (w.data.entries (hashBase r.num key))).foldl
        (copyEffect r (hashBase r.num key) newKey) w) := by
  have hLoop : ∀ (es : List (Path × Bytes)) (w : World),
      execIn o (es.forM (copyHashEntry r (hashBase r.num key) newKey)) w =
        (.ok (), es.foldl (copyEffect r (hashBase r.num key) newKey) w) := by
    intro es
    induction es with
    | nil => exact fun w => rfl
    | cons e es ih =>
      intro w
      exact (execIn_bind (execIn_copyHashEntry _ _ e w) _).trans (ih _)
  have hQuery : execIn o (ReadM.calls (query (hashBase r.num key) false)) w =
      (.ok (o.list (w.data.entries (hashBase r.num key))), w) := by
    rw [execIn_readCalls]
    have hLoad := execIn_load (o := o) (w := w) (hashBase r.num key) id
    exact hLoad
  rw [copyHashData]
  exact (execIn_bind hQuery _).trans (hLoop _ w)

end

/-- The values of a field that are copied, in the order of the entries. -/
def presents (base : List Seg) (field : Bytes) (es : List (Path × Bytes)) : List Bytes :=
  es.filterMap fun e => match scannedSlot base e with
    | some (name, _, sl) => if name = field ∧ sl.tag ≠ tagDeleted then some sl.value else none
    | none => none

/-- What is below the prefix of the new key when some entries have been copied: for each
field the last value that is there, and the components. -/
structure Copied (r : Db) (key newKey : Bytes) (es : List (Path × Bytes)) (data : Datastore) : Prop where
  slot : ∀ field : Bytes, field ≠ [] → match (presents (hashBase r.num key) field es).getLast? with
    | some v => ∃ st, data[hashBase r.num newKey ++ [.enc field, .enc r.self.name]]? =
        some (encodeSlot ⟨st, tagPresent, v⟩)
    | none => data[hashBase r.num newKey ++ [.enc field, .enc r.self.name]]? = none
  component : ∀ field name v : Bytes, field ≠ [] → name ≠ [] →
    (data[hashBase r.num newKey ++ [.enc field, .word .c, .enc name]]? = some v ↔
      (hashBase r.num key ++ [.enc field, .word .c, .enc name], v) ∈ es)
  only : ∀ k : Path, Under (hashBase r.num newKey) k → data[k]? ≠ none →
    (∃ field : Bytes, field ≠ [] ∧ k = hashBase r.num newKey ++ [.enc field, .enc r.self.name]) ∨
      ∃ field name : Bytes, field ≠ [] ∧ name ≠ [] ∧
        k = hashBase r.num newKey ++ [.enc field, .word .c, .enc name]

section

variable {key newKey : Bytes}

/-- The entry of a hash that is given by slots and components of replicas. -/
def Cell (db : Int64) (key : Bytes) (e : Path × Bytes) : Prop :=
  Below db key e ∧ ∀ field, e.1 ≠ hashBase db key ++ [enc field, .word .c]

lemma presents_snoc (base : List Seg) (field : Bytes) (es : List (Path × Bytes)) (e : Path × Bytes) :
    presents base field (es ++ [e]) = presents base field es ++ presents base field [e] :=
  filterMap_append

/-- An entry that is not copied leaves everything as it is. -/
lemma Copied.skip (h : Copied r key newKey es data)
    (hSlot : ∀ field, presents (hashBase r.num key) field [e] = [])
    (hComponent : ∀ field name, e.1 ≠ hashBase r.num key ++ [enc field, .word .c, .enc name]) :
    Copied r key newKey (es ++ [e]) data where
  slot field hField := by
    rw [presents_snoc, hSlot, append_nil]
    exact h.slot field hField
  component field name v hField hName := by
    rw [h.component field name v hField hName, mem_append, mem_singleton]
    exact ⟨.inl, fun hMem => hMem.resolve_right fun hEq => hComponent field name (congrArg fst hEq).symm⟩
  only := h.only

lemma slotKey_field (hNew : newKey ≠ []) (hField : field ≠ []) (o : Replica) (db : Int64) :
    slotKey (hashFieldBase db newKey field) o = hashBase db newKey ++ [enc field, .enc o.name] := by
  have hClean : newKey ≠ [] := hNew
  simp [slotKey, Store.newKey, hashFieldBase, hashBase, dataBase, Store.part, hClean, hField, o.nonempty]

lemma slotAt_counter (hNew : newKey ≠ []) (hField : field ≠ []) (hName : name ≠ [])
    (db : Int64) : slotAt (hashFieldCounterBase db newKey field) name =
    hashBase db newKey ++ [enc field, .word .c, .enc name] := by
  simp [slotAt, Store.newKey, hashFieldCounterBase, hashFieldBase, hashBase, dataBase, Store.part, hNew, hField, hName]

lemma Copied.write (h : Copied r key newKey es data) {f : Bytes}
    (hf : f ≠ []) {st : Stamp} {value : Bytes}
    (hSlot : ∀ field, presents (hashBase r.num key) field [e] = if f = field then [value] else [])
    (hComponent : ∀ field name, e.1 ≠ hashBase r.num key ++ [enc field, .word .c, .enc name]) :
    Copied r key newKey (es ++ [e]) (data.insert (hashBase r.num newKey ++ [enc f, .enc r.self.name])
      (encodeSlot ⟨st, tagPresent, value⟩)) where
  slot field hField := by
    rw [presents_snoc, hSlot, lookup_insert]
    by_cases hEq : f = field
    · subst hEq
      simp only [if_true, List.getLast?_append_cons, List.getLast?_singleton]
      exact ⟨st, rfl⟩
    · have hPath : hashBase r.num newKey ++ [enc f, .enc r.self.name] ≠
          hashBase r.num newKey ++ [enc field, .enc r.self.name] := by simpa using hEq
      rw [if_neg hEq, append_nil, if_neg hPath]
      exact h.slot field hField
  component field name v hField hName := by
    rw [lookup_insert, if_neg (by simp), h.component field name v hField hName, mem_append, mem_singleton]
    exact ⟨.inl, fun hMem => hMem.resolve_right fun hEq => hComponent field name (congrArg fst hEq).symm⟩
  only k hUnder hSome := by
    rw [lookup_insert] at hSome
    split at hSome
    · next hEq => exact .inl ⟨f, hf, hEq.symm⟩
    · exact h.only k hUnder hSome

lemma Copied.add (h : Copied r key newKey es data) {f n v : Bytes} (hf : f ≠ [])
    (hn : n ≠ []) (hOnce : hashBase r.num key ++ [enc f, .word .c, .enc n] ∉ es.map fst) :
    Copied r key newKey (es ++ [(hashBase r.num key ++ [enc f, .word .c, .enc n], v)])
      (data.insert (hashBase r.num newKey ++ [enc f, .word .c, .enc n]) v) where
  slot field hField := by
    have hNone : presents (hashBase r.num key) field
        [(hashBase r.num key ++ [enc f, .word .c, .enc n], v)] = [] := by
      simp [presents, scannedSlot, namedSlot]
    rw [presents_snoc, hNone, append_nil, lookup_insert, if_neg (by simp)]
    exact h.slot field hField
  component field name u hField hName := by
    rw [lookup_insert, mem_append, mem_singleton]
    by_cases hEq : f = field ∧ n = name
    · obtain ⟨rfl, rfl⟩ := hEq
      have hNot : (hashBase r.num key ++ [enc f, .word .c, .enc n], u) ∉ es :=
        fun hMem => hOnce (mem_map.mpr ⟨_, hMem, rfl⟩)
      simp [hNot, eq_comm]
    · have hPath : hashBase r.num newKey ++ [enc f, .word .c, .enc n] ≠
          hashBase r.num newKey ++ [enc field, .word .c, .enc name] := by simpa using hEq
      rw [if_neg hPath, h.component field name u hField hName]
      refine ⟨.inl, fun hMem => hMem.resolve_right fun hSame => hEq ?_⟩
      have hBoth : field = f ∧ name = n := by simpa using congrArg fst hSame
      exact ⟨hBoth.1.symm, hBoth.2.symm⟩
  only k hUnder hSome := by
    rw [lookup_insert] at hSome
    split at hSome
    · next hEq => exact .inr ⟨f, n, hf, hn, hEq.symm⟩
    · exact h.only k hUnder hSome

/-- **One entry is copied.** -/
theorem Copied.step (hNew : newKey ≠ []) (h : Copied r key newKey es w.data)
    (hCell : Cell r.num key e) (hOnce : e.1 ∉ es.map Prod.fst) :
    Copied r key newKey (es ++ [e]) (copyEffect r (hashBase r.num key) newKey w e).data := by
  obtain ⟨hBelow, hStray⟩ := hCell
  cases hBelow with
  | slot f hf o sl =>
    by_cases hDeleted : sl.tag = tagDeleted
    · have hEffect : copyEffect r (hashBase r.num key) newKey w
          (hashBase r.num key ++ [enc f, .enc o.name], encodeSlot sl) = w := by
        simp [copyEffect, hDeleted]
      rw [hEffect]
      refine h.skip (fun field => ?_) (by simp)
      simp [presents, scannedSlot, namedSlot, hDeleted]
    · have hData : (copyEffect r (hashBase r.num key) newKey w
          (hashBase r.num key ++ [enc f, .enc o.name], encodeSlot sl)).data =
          w.data.insert (hashBase r.num newKey ++ [enc f, .enc r.self.name])
            (encodeSlot ⟨w.clock.now.1, tagPresent, sl.value⟩) := by
        simp only [copyEffect, trimPrefix_append, decodeSlot_encodeSlot, if_neg hDeleted, World.putSlot,
          slotKey_field hNew hf]
      rw [hData]
      refine h.write hf (fun field => ?_) (by simp)
      simp only [presents, filterMap_cons, filterMap_nil, scannedSlot, namedSlot, trimPrefix_append,
        decodeSlot_encodeSlot, ne_eq, hDeleted, not_false_eq_true, and_true]
      by_cases hEq : f = field
      · simp only [if_pos hEq]
      · simp only [if_neg hEq]
  | component f name hf hName v =>
    have hData : (copyEffect r (hashBase r.num key) newKey w
        (hashBase r.num key ++ [enc f, .word .c, .enc name], v)).data =
        w.data.insert (hashBase r.num newKey ++ [enc f, .word .c, .enc name]) v := by
      simp only [copyEffect, trimPrefix_append, slotAt_counter hNew hf hName]
    rw [hData]
    exact h.add hf hName hOnce
  | stray f v hf => exact absurd rfl (hStray f)
  | nameless o v =>
    have hEffect : copyEffect r (hashBase r.num key) newKey w (hashBase r.num key ++ [enc o.name], v) = w := by
      simp [copyEffect]
    rw [hEffect]
    refine h.skip (fun field => ?_) (by simp)
    simp [presents, scannedSlot, namedSlot]
  | unnamed rest v =>
    have hEffect : copyEffect r (hashBase r.num key) newKey w (hashBase r.num key ++ .word .c :: rest, v) = w := by
      simp [copyEffect]
    rw [hEffect]
    refine h.skip (fun field => ?_) (by simp)
    simp [presents, scannedSlot, namedSlot]

lemma under_hash (hKey : key ≠ []) :
    Under (hashBase db key) k ↔ ∃ rest : List Seg, rest ≠ [] ∧ k = hashBase db key ++ rest := by
  rw [Under, newKey_hashBase hKey]
  constructor
  · rintro ⟨⟨rest, rfl⟩, hNe⟩
    exact ⟨rest, by simpa using hNe, rfl⟩
  · rintro ⟨rest, hRest, rfl⟩
    exact ⟨prefix_append _ _, by simpa using hRest⟩

/-- **The whole copy.** -/
theorem copied_foldl (hNew : newKey ≠ []) (hCells : ∀ e ∈ es, Cell r.num key e) (hNodup : (es.map Prod.fst).Nodup)
    (hFresh : w.data.entries (hashBase r.num newKey) = []) :
    Copied r key newKey es (es.foldl (copyEffect r (hashBase r.num key) newKey) w).data := by
  have hNone : ∀ rest, rest ≠ [] → w.data[hashBase r.num newKey ++ rest]? = none := by
    intro rest hRest
    cases hFound : w.data[hashBase r.num newKey ++ rest]? with
    | none => rfl
    | some v =>
      have hUnder : Under (hashBase r.num newKey) (hashBase r.num newKey ++ rest) :=
        (under_hash hNew).mpr ⟨rest, hRest, rfl⟩
      have hMem : (hashBase r.num newKey ++ rest, v) ∈ w.data.entries (hashBase r.num newKey) :=
        mem_entries.mpr ⟨hFound, hUnder⟩
      rw [hFresh] at hMem
      cases hMem
  induction es using List.reverseRecOn with
  | nil =>
    refine ⟨fun field _ => hNone _ (by simp), fun field name v _ _ => ?_, fun k hUnder hSome => ?_⟩
    · rw [foldl_nil, hNone _ (by simp)]
      simp
    · obtain ⟨rest, hRest, rfl⟩ := (under_hash hNew).mp hUnder
      exact absurd (hNone rest hRest) hSome
  | append_singleton es e ih =>
    rw [foldl_append, foldl_cons, foldl_nil]
    rw [map_append, map_singleton] at hNodup
    obtain ⟨hBefore, -, hApart⟩ := nodup_append.mp hNodup
    have hSoFar := ih (fun e' he' => hCells e' (mem_append_left _ he')) hBefore
    refine hSoFar.step hNew (hCells e (mem_append_right _ (mem_singleton.mpr rfl))) fun hMem => ?_
    exact hApart e.1 hMem e.1 (mem_singleton.mpr rfl) rfl

end

/-! ## Reading the copy -/

lemma nodup_entries (data : Datastore) (base : List Seg) : (data.entries base).Nodup := by
  have hKeys : ((data.entries base).map fst).Nodup := nodup_of_pairwise (pairwise_select _ _)
  exact hKeys.of_map

section

variable {newKey : Bytes}

lemma Copied.shapedAt (h : Copied r key newKey es data) (hNew : newKey ≠ []) : ShapedAt r.num newKey data := by
  intro k v hUnder hEntry _
  rcases h.only k hUnder (by rw [hEntry]; simp) with ⟨field, hField, rfl⟩ | ⟨field, name, hField, hName, rfl⟩
  · have hSlot := h.slot field hField
    split at hSlot
    · next value _ =>
      obtain ⟨st, hStored⟩ := hSlot
      rw [hStored, some.injEq] at hEntry
      rw [← hEntry, ← slotKey_field hNew hField]
      exact .slot r.num newKey field r.self _
    · rw [hSlot] at hEntry
      cases hEntry
  · rw [← slotAt_counter hNew hField hName]
    exact .component r.num newKey field name v

/-- A copied register has the value that was copied last. -/
lemma Copied.plainAt (h : Copied r key newKey es data) (hNew : newKey ≠ []) (hField : field ≠ []) :
    plainAt r.num newKey field data = (presents (hashBase r.num key) field es).getLast? := by
  have hShaped := h.shapedAt hNew
  have hBelow := below_entries hShaped hNew (.refl _)
  have hNodup : ((data.entries (hashBase r.num newKey)).map fst).Nodup :=
    nodup_of_pairwise (pairwise_select _ _)
  -- the slot of this replica is the only one
  have hMem : ∀ c : Bytes × Slot, c ∈ slotsIn (hashBase r.num newKey) (data.entries (hashBase r.num newKey)) field ↔
      c.1 = r.self.name ∧
        data[hashBase r.num newKey ++ [enc field, .enc r.self.name]]? = some (encodeSlot c.2) := by
    rintro ⟨o, sl⟩
    rw [mem_slotsIn hBelow hNodup]
    constructor
    · rintro ⟨e, he, hScanned⟩
      obtain ⟨-, rfl⟩ := (hBelow e he).scannedSlot_eq_some hScanned
      obtain ⟨hEntry, hUnder⟩ := mem_entries.mp he
      have hOwn : o = r.self.name := by
        rcases h.only _ hUnder (by rw [hEntry]; simp) with ⟨f, -, hEq⟩ | ⟨f, name, -, -, hEq⟩
        · simp only [append_cancel_left_eq, List.cons.injEq, Seg.enc.injEq, and_true] at hEq
          exact hEq.2
        · simp at hEq
      subst hOwn
      exact ⟨rfl, hEntry⟩
    · rintro ⟨rfl, hEntry⟩
      have hUnder : Under (hashBase r.num newKey) (hashBase r.num newKey ++ [enc field, .enc r.self.name]) :=
        (under_hash hNew).mpr ⟨_, by simp, rfl⟩
      refine ⟨(_, encodeSlot sl), mem_entries.mpr ⟨hEntry, hUnder⟩, ?_⟩
      simp [scannedSlot, namedSlot]
  rw [Repo.plainAt, ← liveValue_slotsIn hShaped hNew hField (.refl _) (.refl _)]
  have hSlot := h.slot field hField
  cases hLast : (presents (hashBase r.num key) field es).getLast? with
  | none =>
    rw [hLast] at hSlot
    have hNil : slotsIn (hashBase r.num newKey) (data.entries (hashBase r.num newKey)) field = [] := by
      refine eq_nil_iff_forall_not_mem.mpr fun c hc => ?_
      have hStored := ((hMem c).mp hc).2
      rw [hSlot] at hStored
      cases hStored
    rw [hNil]
    rfl
  | some v =>
    rw [hLast] at hSlot
    obtain ⟨st, hStored⟩ := hSlot
    have hOne : liveValue (slotsIn (hashBase r.num newKey) (data.entries (hashBase r.num newKey)) field) =
        liveValue [(r.self.name, ⟨st, tagPresent, v⟩)] := by
      refine liveValue_congr (Dict.nodup_pairs _) (by simp) fun c => ?_
      rw [hMem, hStored, mem_singleton, some.injEq, encodeSlot_inj]
      constructor
      · rintro ⟨hName, hSlot⟩
        exact Prod.ext hName hSlot.symm
      · rintro rfl
        exact ⟨rfl, rfl⟩
    rw [hOne]
    rfl

/-- An entry moved from below one prefix to below another. -/
def rebase (old base : List Seg) (e : Path × Bytes) : Path × Bytes := (base ++ trimPrefix old e.1, e.2)

variable (old base : List Seg) (l : List (Path × Bytes))

lemma fieldTotal_rebase : fieldTotal (l.map (rebase old base)) = fieldTotal l := by
  rw [fieldTotal, fieldTotal, foldl_map]
  rfl

lemma hasNumber_rebase : HasNumber (l.map (rebase old base)) ↔ HasNumber l := by
  simp only [HasNumber, List.mem_map, rebase]
  constructor
  · rintro ⟨_, ⟨e, he, rfl⟩, hNumber⟩
    exact ⟨e, he, hNumber⟩
  · rintro ⟨e, he, hNumber⟩
    exact ⟨_, ⟨e, he, rfl⟩, hNumber⟩

/-- The components of a field with a name. -/
lemma mem_componentsAt (hShaped : ShapedAt db key data) (hKey : key ≠ []) (hField : field ≠ [])
    {e : Path × Bytes} : e ∈ componentsAt db key field data ↔ ∃ name v : Bytes, name ≠ [] ∧ e =
    (hashBase db key ++ [enc field, .word .c, .enc name], v) ∧
    data[hashBase db key ++ [enc field, .word .c, .enc name]]? = some v := by
  rw [componentsAt, mem_entries]
  constructor
  · rintro ⟨hEntry, hUnder⟩
    have hHash : Under (hashBase db key) e.1 := by
      rw [hashFieldCounterBase, hashFieldBase, append_assoc] at hUnder
      exact under_of_append hUnder
    have hBelow : Below db key e := below_of_shaped hKey (hShaped e.1 e.2 hHash hEntry) hHash
    cases hBelow with
    | component f name hf hName v =>
      rw [under_counter hKey hField] at hUnder
      obtain rfl : field = f := by simpa using hUnder.1
      exact ⟨name, v, hName, rfl, hEntry⟩
    | stray f v hf =>
      rw [under_counter hKey hField] at hUnder
      exact absurd (hUnder.1.eq_of_length rfl).symm hUnder.2
    | slot | nameless | unnamed =>
      rw [under_counter hKey hField] at hUnder
      simp at hUnder
  · rintro ⟨name, v, hName, rfl, hEntry⟩
    refine ⟨hEntry, (under_counter hKey hField _).mpr ⟨⟨[.enc name], rfl⟩, by simp⟩⟩

/-- The components of a field are those of the old hash. -/
lemma Copied.perm_components (h : Copied r key newKey es data)
    (hNew : newKey ≠ []) (hKey : key ≠ []) (hShaped : ShapedAt r.num key source)
    (hes : es.Perm (source.entries (hashBase r.num key))) (hField : field ≠ []) :
    ((componentsAt r.num newKey field data).map (rebase (hashBase r.num newKey) (hashBase r.num key))).Perm
      (componentsAt r.num key field source) := by
  have hNewShaped := h.shapedAt hNew
  have hMoved : ∀ name v : Bytes, rebase (hashBase r.num newKey) (hashBase r.num key)
      (hashBase r.num newKey ++ [enc field, .word .c, .enc name], v) =
        (hashBase r.num key ++ [enc field, .word .c, .enc name], v) := by
    intro name v
    rw [rebase, trimPrefix_append]
  have hOnce : ((componentsAt r.num newKey field data).map
      (rebase (hashBase r.num newKey) (hashBase r.num key))).Nodup := by
    refine List.Nodup.map_on (fun a ha b hb hEq => ?_) (nodup_entries data _)
    obtain ⟨name, v, -, rfl, -⟩ := (mem_componentsAt hNewShaped hNew hField).mp ha
    obtain ⟨name', v', -, rfl, -⟩ := (mem_componentsAt hNewShaped hNew hField).mp hb
    rw [hMoved, hMoved] at hEq
    simp_all
  refine (perm_ext_iff_of_nodup hOnce (nodup_entries source _)).mpr fun e => ?_
  show _ ↔ e ∈ componentsAt r.num key field source
  rw [List.mem_map, mem_componentsAt hShaped hKey hField]
  -- a component stands there with a value iff it was among the entries
  have hCopied : ∀ name v : Bytes, name ≠ [] →
      (data[hashBase r.num newKey ++ [enc field, .word .c, .enc name]]? = some v ↔
        source[hashBase r.num key ++ [enc field, .word .c, .enc name]]? = some v) := by
    intro name v hName
    rw [h.component field name v hField hName, hes.mem_iff, mem_entries]
    exact and_iff_left ((under_hash hKey).mpr ⟨_, by simp, rfl⟩)
  constructor
  · rintro ⟨e', he', rfl⟩
    obtain ⟨name, v, hName, rfl, hEntry⟩ := (mem_componentsAt hNewShaped hNew hField).mp he'
    exact ⟨name, v, hName, hMoved name v, (hCopied name v hName).mp hEntry⟩
  · rintro ⟨name, v, hName, rfl, hEntry⟩
    exact ⟨_, (mem_componentsAt hNewShaped hNew hField).mpr ⟨name, v, hName, rfl, (hCopied name v hName).mpr hEntry⟩,
      hMoved name v⟩

end

end RedGeo.Repo
