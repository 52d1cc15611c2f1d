import RedGeo.Repo.Reading
import RedGeo.Repo.Shapes

/-!
# RedGeo — the fields of a hash, scanned and looked up

`hashLiveFields` takes a whole hash apart; a point read looks below the prefix of one
field. Both see the entries in some order.

* `lookup_liveFields` — what the listing of a hash says of a field.
* `fieldIn_eq` — the same in terms of what is below the prefix of the field: the sum of
  its components, added in the order of the listing, or its winning slot.
* `fieldIn_nameless`, `liveFields_nameless` — fields and keys without a name are not
  listed, whatever is stored of them.
-/

namespace RedGeo.Repo

open Lib Store List Option Table Dict Float64 Datastore Prod
open Seg (enc)

/-! ## The entries of a hash, by their paths -/

section

variable {db : Int64} {key : Bytes}

/-- A prefix without empty names is what it is. -/
lemma newKey_hashBase (hKey : key ≠ []) : newKey (hashBase db key) = hashBase db key := by
  simp [newKey, hashBase, dataBase, Store.part, hKey]

/-- The prefix of a hash says which hash it is. -/
lemma hash_of_under (h : Under (hashBase db key) (newKey (hashBase db' key' ++ rest))) :
    db' = db ∧ key' = key := by
  obtain ⟨⟨tail, hTail⟩, -⟩ := h
  by_cases hKey : key = [] <;> by_cases hKey' : key' = [] <;>
    simp_all [newKey, hashBase, dataBase, Store.part]

/-- What stands below the prefix of a hash with a name. -/
inductive Below (db : Int64) (key : Bytes) : Path × Bytes → Prop
  /-- A slot of a field. -/
  | slot (field : Bytes) (hField : field ≠ []) (o : Replica) (sl : Slot) :
    Below db key (hashBase db key ++ [.enc field, .enc o.name], encodeSlot sl)
  /-- A component of a field. -/
  | component (field name : Bytes) (hField : field ≠ []) (hName : name ≠ []) (v : Bytes) :
    Below db key (hashBase db key ++ [.enc field, .word .c, .enc name], v)
  /-- A component of no replica. -/
  | stray (field v : Bytes) (hField : field ≠ []) :
    Below db key (hashBase db key ++ [.enc field, .word .c], v)
  /-- A slot of the field without a name. -/
  | nameless (o : Replica) (v : Bytes) : Below db key (hashBase db key ++ [.enc o.name], v)
  /-- Its components. -/
  | unnamed (rest : List Seg) (v : Bytes) : Below db key (hashBase db key ++ .word .c :: rest, v)

lemma below_of_shaped (hKey : key ≠ []) (hShaped : Shaped e.1 e.2) (hUnder : Under (hashBase db key) e.1) :
    Below db key e := by
  obtain ⟨k, v⟩ := e
  have hWord : spaceWord k = some .h := by
    obtain ⟨tail, rfl⟩ := hUnder.1
    rw [newKey_hashBase hKey]
    rfl
  have hEntry : HashEntry k v := hShaped hWord
  clear hShaped hWord
  cases hEntry with
  | slot db' key' field o sl =>
    have hHash : slotKey (hashFieldBase db' key' field) o =
        newKey (hashBase db' key' ++ [enc field, .enc o.name]) := by
      simp [slotKey, hashFieldBase]
    rw [hHash] at hUnder ⊢
    obtain ⟨rfl, rfl⟩ := hash_of_under hUnder
    rw [newKey, filter_append, ← newKey, newKey_hashBase hKey]
    by_cases hField : field = []
    · simpa [hField, o.nonempty] using Below.nameless o (encodeSlot sl)
    · simpa [hField, o.nonempty] using Below.slot field hField o sl
  | component db' key' field name =>
    have hHash : slotAt (hashFieldCounterBase db' key' field) name =
        newKey (hashBase db' key' ++ [enc field, .word .c, .enc name]) := by
      simp [slotAt, hashFieldCounterBase, hashFieldBase]
    rw [hHash] at hUnder ⊢
    obtain ⟨rfl, rfl⟩ := hash_of_under hUnder
    rw [newKey, filter_append, ← newKey, newKey_hashBase hKey]
    by_cases hField : field = []
    · simpa [hField] using Below.unnamed ([Seg.enc name].filter (· ≠ .enc [])) v
    · by_cases hName : name = []
      · simpa [hField, hName] using Below.stray field v hField
      · simpa [hField, hName] using Below.component field name hField hName v

lemma under_tail (hKey : key ≠ []) {tail : List Seg} (hTail : newKey tail = tail) (rest : List Seg) :
    Under (hashBase db key ++ tail) (hashBase db key ++ rest) ↔ tail <+: rest ∧ rest ≠ tail := by
  rw [Under, newKey_append, newKey_hashBase hKey, hTail, prefix_append_right_inj, ne_eq, append_cancel_left_eq]

lemma under_field (hKey : key ≠ []) (hField : field ≠ []) (rest : List Seg) :
    Under (hashFieldBase db key field) (hashBase db key ++ rest) ↔ [.enc field] <+: rest ∧ rest ≠
    [.enc field] :=
  under_tail hKey (by simp [newKey, hField]) rest

lemma under_counter (hKey : key ≠ []) (hField : field ≠ []) (rest : List Seg) :
    Under (hashFieldCounterBase db key field) (hashBase db key ++ rest) ↔ [.enc field, .word .c] <+: rest ∧
    rest ≠ [.enc field, .word .c] := by
  rw [hashFieldCounterBase, hashFieldBase, append_assoc]
  exact under_tail hKey (by simp [newKey, hField]) rest

@[simp] lemma trimPrefix_append (base rest : List Seg) : trimPrefix base (base ++ rest) = rest := by
  rw [trimPrefix, if_pos (prefix_append _ _), drop_left]

/-- An entry as the slot of a field, as the scan of a hash has it. -/
def scannedSlot (base : List Seg) (e : Path × Bytes) : Option (Bytes × Bytes × Slot) :=
  match namedSlot base e.1, decodeSlot e.2 with
  | some (name, replica), .ok sl => some (name, replica, sl)
  | _, _ => none

section

variable {e : Path × Bytes} (h : Below db key e)
include h

/-- What the scan takes for a slot. -/
lemma Below.scannedSlot_eq_some (hSlot : scannedSlot (hashBase db key) e = some (field, replica, sl)) :
    field ≠ [] ∧ e = (hashBase db key ++ [enc field, .enc replica], encodeSlot sl) := by
  cases h with
  | slot f hf o sl' =>
    simp only [scannedSlot, namedSlot, trimPrefix_append, decodeSlot_encodeSlot, some.injEq,
      Prod.mk.injEq] at hSlot
    obtain ⟨rfl, rfl, rfl⟩ := hSlot
    exact ⟨hf, rfl⟩
  | component | stray | nameless | unnamed => simp [scannedSlot, namedSlot] at hSlot

/-- What the scan takes for a component of a field. -/
lemma Below.fieldComponent_eq_some (hKey : key ≠ []) : fieldComponent (hashBase db key) e = some (field, n) ↔
    field ≠ [] ∧ Under (hashFieldCounterBase db key field) e.1 ∧ parse e.2 = some n := by
  by_cases hField : field = []
  · subst hField
    cases h with
    | component f name hf hName v =>
      cases hParse : parse v <;> simp [fieldComponent, hParse, hf]
    | slot | stray | nameless | unnamed => simp [fieldComponent]
  · cases h with
    | component f name hf hName v =>
      rw [under_counter hKey hField]
      cases hParse : parse v <;>
        simp [fieldComponent, hParse, hField, eq_comm]
    | stray f v hf =>
      rw [under_counter hKey hField]
      simp only [fieldComponent, trimPrefix_append, reduceCtorEq, false_iff]
      rintro ⟨-, ⟨hPrefix, hNe⟩, -⟩
      exact hNe (hPrefix.eq_of_length rfl).symm
    | slot | nameless | unnamed =>
      rw [under_counter hKey hField]
      simp [fieldComponent]

/-- What a field is read from, if it is not a component, the scan takes for its slot. -/
lemma Below.slotOf_eq (hKey : key ≠ []) (hField : field ≠ [])
    (hPlain : ¬ Under (hashFieldCounterBase db key field) e.1) : slotOf (hashFieldBase db key field) e =
    some (replica, sl) ↔ scannedSlot (hashBase db key) e = some (field, replica, sl) := by
  rw [slotOf]
  cases h with
  | slot f hf o sl' =>
    simp only [under_field hKey hField]
    by_cases hEq : f = field
    · simp [scannedSlot, namedSlot, hEq, replicaOf]
    · simp [scannedSlot, namedSlot, hEq, Ne.symm hEq]
  | component f name hf hName v =>
    rw [under_counter hKey hField] at hPlain
    have hNe : f ≠ field := by
      rintro rfl
      exact hPlain (by simp)
    simp [scannedSlot, namedSlot, under_field hKey hField, Ne.symm hNe]
  | stray f v hf =>
    simp [scannedSlot, namedSlot, replicaOf]
  | nameless o v =>
    have hNot : ¬ Under (hashFieldBase db key field) (hashBase db key ++ [enc o.name]) := by
      rw [under_field hKey hField]
      exact fun hBoth => hBoth.2 (hBoth.1.eq_of_length rfl).symm
    simp [scannedSlot, namedSlot, hNot]
  | unnamed rest v =>
    simp [scannedSlot, namedSlot, under_field hKey hField]

end

end

/-! ## What a scan makes of the entries -/

section

variable {κ ν : Type} [DecidableEq κ] [BEq κ] [LawfulBEq κ] (names : List κ)

lemma lookup_map_pair (g : κ → ν) (k : κ) :
    (names.map fun n => (n, g n)).lookup k = if k ∈ names then some (g k) else none := by
  induction names with
  | nil => rfl
  | cons n names ih =>
    rw [map_cons, lookup_cons]
    by_cases hEq : k = n
    · simp [hEq]
    · rw [beq_eq_false_iff_ne.mpr hEq, ih]
      simp [hEq]

lemma lookup_filterMap_pair (g : κ → Option ν) (k : κ) :
    (names.filterMap fun n => (g n).map fun v => (n, v)).lookup k = if k ∈ names then g k else none := by
  induction names with
  | nil => rfl
  | cons n names ih =>
    by_cases hEq : k = n
    · subst hEq
      cases hValue : g k with
      | none =>
        rw [filterMap_cons_none (by rw [hValue]; rfl), ih, hValue]
        simp
      | some v =>
        rw [filterMap_cons_some (by rw [hValue]; rfl)]
        simp
    · cases hValue : g n with
      | none =>
        rw [filterMap_cons_none (by rw [hValue]; rfl), ih]
        simp [hEq]
      | some v =>
        rw [filterMap_cons_some (by rw [hValue]; rfl), lookup_cons, beq_eq_false_iff_ne.mpr hEq, ih]
        simp [hEq]

lemma lookup_filter_fst (l : List (κ × ν)) (p : κ → Bool) (k : κ) :
    (l.filter fun c => p c.1).lookup k = if p k then l.lookup k else none := by
  induction l with
  | nil => simp
  | cons c l ih =>
    obtain ⟨a, v⟩ := c
    rw [filter_cons, lookup_cons]
    by_cases hEq : k = a
    · subst hEq
      by_cases hp : p k
      · simp [hp]
      · simp [hp, ih]
    · rw [beq_eq_false_iff_ne.mpr hEq]
      split
      · rw [lookup_cons, beq_eq_false_iff_ne.mpr hEq]
        exact ih
      · exact ih

omit [DecidableEq κ] [BEq κ] [LawfulBEq κ] in
lemma map_fst_filterMap_sublist {α : Type} (f : α → κ) (g : α → Option ν) (l : List α) :
    ((l.filterMap fun a => (g a).map fun v => (f a, v)).map fst).Sublist (l.map f) := by
  induction l with
  | nil => exact .slnil
  | cons a l ih =>
    cases hValue : g a with
    | none =>
      rw [filterMap_cons_none (by rw [hValue]; rfl)]
      exact ih.cons (f a)
    | some v =>
      rw [filterMap_cons_some (by rw [hValue]; rfl)]
      exact ih.cons_cons (f a)

lemma nodup_liveSlots (parse : Path → Option (Bytes × Bytes)) (l : List (Path × Bytes)) :
    ((liveSlots (groupSlots parse l)).map fst).Nodup := by
  refine (map_fst_filterMap_sublist _ _ _).nodup ?_
  rw [groupSlots, List.map_map]
  exact (map_id _).symm ▸ nodup_dedup _

end

section

variable (base : List Seg) (l : List (Path × Bytes)) (field : Bytes)

/-- The slots of a field. -/
def slotsIn : List (Bytes × Slot) :=
  (ofPairs (((l.filterMap (scannedSlot base)).filter fun c => c.1 = field).map Prod.snd)).pairs

/-- The components of a field that are numbers. -/
def numbersIn : List (Bytes × Float64) := (l.filterMap (fieldComponent base)).filter fun c => c.1 = field

/-- The value of a field: the sum of its components, or else its winning slot. -/
def fieldIn : Option Bytes :=
  if numbersIn base l field = [] then liveValue (slotsIn base l field)
  else some (fmtNum (sumFloat (numbersIn base l field)))

lemma mem_counterFields : field ∈ (counterFields base l).map fst ↔ numbersIn base l field ≠ [] := by
  rw [counterFields, List.map_map, numbersIn, ne_eq, List.filter_eq_nil_iff]
  simp

lemma lookup_counterFields : (counterFields base l).lookup field =
    if numbersIn base l field = [] then none else some (fmtNum (sumFloat (numbersIn base l field))) := by
  have hMem := mem_counterFields base l field
  rw [counterFields, List.map_map, show (fst ∘ fun f : Bytes => _) = id from rfl, List.map_id] at hMem
  rw [counterFields, lookup_map_pair]
  by_cases hNone : numbersIn base l field = []
  · rw [if_pos hNone, if_neg fun h => hMem.mp h hNone]
  · rw [if_neg hNone, if_pos (hMem.mpr hNone)]
    rfl

lemma plainFields_eq : liveSlots (groupSlots (namedSlot base) l) =
    ((l.filterMap (scannedSlot base)).map fst).dedup.filterMap fun name =>
      (liveValue (slotsIn base l name)).map fun v => (name, v) := by
  have hGroups : groupSlots (namedSlot base) l =
      ((l.filterMap (scannedSlot base)).map fst).dedup.map fun name => (name, slotsIn base l name) := by
    refine congrArg (fun found : List (Bytes × Bytes × Slot) => (found.map fst).dedup.map fun name =>
      (name, (ofPairs ((found.filter fun c => c.1 = name).map snd)).pairs))
      (filterMap_congr fun e _ => ?_)
    rw [scannedSlot]
    cases namedSlot base e.1 <;> cases decodeSlot e.2 <;> rfl
  rw [hGroups, liveSlots, filterMap_map]
  rfl

lemma lookup_plainFields :
    (liveSlots (groupSlots (namedSlot base) l)).lookup field = liveValue (slotsIn base l field) := by
  rw [plainFields_eq, lookup_filterMap_pair]
  split
  · rfl
  · next hNone =>
    have hEmpty : ((l.filterMap (scannedSlot base)).filter fun c => c.1 = field) = [] := by
      rw [filter_eq_nil_iff]
      intro c hc hEq
      refine hNone (mem_dedup.mpr ?_)
      rw [← of_decide_eq_true hEq]
      exact mem_map_of_mem hc
    rw [slotsIn, hEmpty]
    rfl

/-- **What the listing says of a field.** -/
theorem lookup_liveFields : (liveFields base l).lookup field = fieldIn base l field := by
  have hMem := mem_counterFields base l field
  rw [liveFields, lookup_append, lookup_counterFields, fieldIn]
  by_cases hNone : numbersIn base l field = []
  · have hNotMem : field ∉ (counterFields base l).map fst := fun h => hMem.mp h hNone
    have hFilter := lookup_filter_fst (liveSlots (groupSlots (namedSlot base) l))
      (fun f => f ∉ (counterFields base l).map fst) field
    rw [if_pos (by simpa using hNotMem), lookup_plainFields] at hFilter
    rw [if_pos hNone, if_pos hNone, none_or]
    exact hFilter
  · rw [if_neg hNone, if_neg hNone, some_or]

lemma nodup_liveFields : ((liveFields base l).map fst).Nodup := by
  have hCounters : ((counterFields base l).map fst).Nodup := by
    rw [counterFields, List.map_map]
    exact (map_id _).symm ▸ nodup_dedup _
  rw [liveFields, map_append, nodup_append]
  refine ⟨hCounters, (filter_sublist.map fst).nodup (nodup_liveSlots _ l), ?_⟩
  rintro f hf f' hf' rfl
  obtain ⟨c, hc, rfl⟩ := mem_map.mp hf'
  exact of_decide_eq_true (mem_filter.mp hc).2 hf

end

/-! ## One field, read below its own prefix -/

/-- A query for a longer prefix finds some of what one for the shorter one does. -/
lemma filter_entries (data : Datastore) (base rest : List Seg) :
    (data.entries base).filter (fun e => Under (base ++ rest) e.1) = data.entries (base ++ rest) := by
  refine eq_of_mem_iff ((pairwise_select _ _).filter _) (pairwise_select _ _) fun e => ?_
  show e ∈ (data.entries base).filter _ ↔ e ∈ data.entries (base ++ rest)
  rw [mem_filter, mem_entries, mem_entries, decide_eq_true_iff]
  exact ⟨fun h => ⟨h.1.1, h.2⟩, fun h => ⟨⟨h.1, under_of_append h.2⟩, h.2⟩⟩

/-- Candidates are compared by what they are, not by how they are listed. -/
lemma liveValue_congr {a b : List (Bytes × Slot)} (ha : (a.map fst).Nodup)
    (hb : (b.map fst).Nodup) (h : ∀ c, c ∈ a ↔ c ∈ b) : liveValue a = liveValue b := by
  have hPerm : a.Perm b := (perm_ext_iff_of_nodup ha.of_map hb.of_map).mpr h
  rw [liveValue, liveValue, winner_perm hPerm ha]

section

variable (db : Int64) (key field : Bytes) (data : Datastore)

/-- The components of a field. -/
def componentsAt : List (Path × Bytes) := data.entries (hashFieldCounterBase db key field)

/-- Everything below the prefix of a field. -/
def belowField : List (Path × Bytes) := data.entries (hashFieldBase db key field)

/-- What a register is read as, in some order. -/
def readsAs (base : List Seg) (l : List (Path × Bytes)) : Option Bytes :=
  liveValue (Store.readSlots base l).pairs

/-- The slots of a field, without its components. -/
def plainAt : Option Bytes :=
  readsAs (hashFieldBase db key field)
    ((belowField db key field data).filter fun e => ¬ Under (hashFieldCounterBase db key field) e.1)

end

/-- A hash holds slots and components. -/
def ShapedAt (db : Int64) (key : Bytes) (data : Datastore) : Prop :=
  ∀ (k : Path) (v : Bytes), Under (hashBase db key) k → data[k]? = some v → Shaped k v

section

variable {db : Int64} {key field : Bytes} {data : Datastore} {l : List (Path × Bytes)}

variable (hShaped : ShapedAt db key data) (hBelow : ∀ e ∈ l, Below db key e) (hKey : key ≠ [])
  (hl : l.Perm (data.entries (hashBase db key))) (hField : field ≠ [])

include hShaped hKey hl in
lemma below_entries : ∀ e ∈ l, Below db key e := by
  intro e he
  have hMem := mem_entries.mp (hl.mem_iff.mp he)
  exact below_of_shaped hKey (hShaped e.1 e.2 hMem.2 hMem.1) hMem.2

include hl in
lemma perm_components :
    (l.filter fun e => Under (hashFieldCounterBase db key field) e.1).Perm (componentsAt db key field data) := by
  have hBase : hashFieldCounterBase db key field = hashBase db key ++ [enc field, .word .c] := by
    rw [hashFieldCounterBase, hashFieldBase, append_assoc]
    rfl
  rw [componentsAt, hBase, ← filter_entries]
  exact hl.filter _

include hBelow hKey hField in
/-- The sum of a field, from the whole hash and from its components alone. -/
lemma numbersIn_eq :
    numbersIn (hashBase db key) l field =
      (l.filter fun e => Under (hashFieldCounterBase db key field) e.1).filterMap fun e =>
        (parse e.2).map fun n => (field, n) := by
  rw [numbersIn, filter_filterMap, filterMap_filter]
  refine filterMap_congr fun e he => ?_
  -- both take the entry for the same number, or for none
  refine Option.ext fun c => ?_
  obtain ⟨f, n⟩ := c
  rw [filter_eq_some_iff, (hBelow e he).fieldComponent_eq_some hKey, decide_eq_true_iff]
  constructor
  · rintro ⟨⟨-, hUnder, hNumber⟩, rfl⟩
    rw [if_pos (decide_eq_true hUnder), hNumber]
    rfl
  · intro hSome
    split at hSome
    · next hUnder =>
      obtain ⟨n', hNumber, hEq⟩ := map_eq_some_iff.mp hSome
      cases hEq
      exact ⟨⟨hField, of_decide_eq_true hUnder, hNumber⟩, rfl⟩
    · cases hSome

lemma sumFloat_filterMap (field : Bytes) (l : List (Path × Bytes)) :
    sumFloat (l.filterMap fun e => (parse e.2).map fun n => (field, n)) = fieldTotal l := by
  rw [sumFloat, fieldTotal, foldl_filterMap]
  congr 1
  funext sum e
  cases parse e.2 <;> rfl

include hBelow in
/-- What the scan takes for the slots of a field. -/
lemma mem_slotsIn (hNodup : (l.map fst).Nodup) : c ∈ slotsIn (hashBase db key) l field ↔ ∃ e ∈ l,
    scannedSlot (hashBase db key) e = some (field, c.1, c.2) := by
  have hMem : ∀ c : Bytes × Slot, c ∈ ((l.filterMap (scannedSlot (hashBase db key))).filter
      fun c => c.1 = field).map snd ↔
        ∃ e ∈ l, scannedSlot (hashBase db key) e = some (field, c.1, c.2) := by
    intro c
    simp only [List.mem_map, List.mem_filter, List.mem_filterMap, decide_eq_true_iff]
    constructor
    · rintro ⟨⟨f, c'⟩, ⟨⟨e, he, hSlot⟩, hEq⟩, rfl⟩
      obtain rfl : f = field := hEq
      exact ⟨e, he, hSlot⟩
    · rintro ⟨e, he, hSlot⟩
      exact ⟨(field, c), ⟨⟨e, he, hSlot⟩, rfl⟩, rfl⟩
  rw [slotsIn, mem_ofPairs_iff, hMem]
  -- a replica has one slot, since a path stands for one entry
  intro c hc d hd hEq
  obtain ⟨e, he, hSlot⟩ := (hMem c).mp hc
  obtain ⟨e', he', hSlot'⟩ := (hMem d).mp hd
  obtain ⟨-, hPath⟩ := (hBelow e he).scannedSlot_eq_some hSlot
  obtain ⟨-, hPath'⟩ := (hBelow e' he').scannedSlot_eq_some hSlot'
  have hSame : e = e' := inj_on_of_nodup_map hNodup he he' (by rw [hPath, hPath', hEq])
  subst hSame
  rw [hSlot'] at hSlot
  cases c
  cases d
  simp_all

include hShaped hKey hField in
/-- The slots of a field, as a point read has them if it meets no component. -/
lemma liveValue_slotsIn (hl : l.Perm (data.entries (hashBase db key))) {l' : List (Path × Bytes)}
    (hl' : l'.Perm ((belowField db key field data).filter
      fun e => ¬ Under (hashFieldCounterBase db key field) e.1)) :
    liveValue (slotsIn (hashBase db key) l field) = readsAs (hashFieldBase db key field) l' := by
  have hBelow := below_entries hShaped hKey hl
  have hNodup : (l.map fst).Nodup :=
    (hl.map fst).nodup_iff.mpr (nodup_of_pairwise (pairwise_select _ _))
  have hMem' : ∀ e, e ∈ l' ↔ (e ∈ l ∧ Under (hashFieldBase db key field) e.1) ∧
      ¬ Under (hashFieldCounterBase db key field) e.1 := by
    intro e
    rw [hl'.mem_iff, mem_filter, decide_eq_true_iff, belowField, hashFieldBase, ← filter_entries,
      mem_filter, decide_eq_true_iff, hl.mem_iff]
  refine liveValue_congr (nodup_pairs _) (nodup_pairs _) fun c => ?_
  have hSeen : ∀ c : Bytes × Slot, (∃ e ∈ l', slotOf (hashFieldBase db key field) e = some c) ↔
      ∃ e ∈ l, scannedSlot (hashBase db key) e = some (field, c.1, c.2) := by
    intro c
    constructor
    · rintro ⟨e, he, hSlot⟩
      obtain ⟨⟨heL, -⟩, hPlain⟩ := (hMem' e).mp he
      exact ⟨e, heL, ((hBelow e heL).slotOf_eq hKey hField hPlain).mp hSlot⟩
    · rintro ⟨e, he, hSlot⟩
      obtain ⟨-, hPath⟩ := (hBelow e he).scannedSlot_eq_some hSlot
      have hPlain : ¬ Under (hashFieldCounterBase db key field) e.1 := by
        rw [hPath, under_counter hKey hField]
        simp
      have hRead := ((hBelow e he).slotOf_eq hKey hField hPlain).mpr hSlot
      have hUnder : Under (hashFieldBase db key field) e.1 := by
        by_contra hNot
        rw [slotOf, if_neg hNot] at hRead
        cases hRead
      exact ⟨e, (hMem' e).mpr ⟨⟨he, hUnder⟩, hPlain⟩, hRead⟩
  have hSlots : ∀ c : Bytes × Slot, c ∈ l'.filterMap (slotOf (hashFieldBase db key field)) ↔
      c ∈ slotsIn (hashBase db key) l field := by
    intro c
    rw [mem_filterMap, mem_slotsIn hBelow hNodup]
    exact hSeen c
  show _ ↔ c ∈ (ofPairs (l'.filterMap (slotOf (hashFieldBase db key field)))).pairs
  rw [mem_ofPairs_iff fun c hc d hd hEq => eq_of_mem_pairs ((hSlots c).mp hc) ((hSlots d).mp hd) hEq, hSlots]

/-- Whether a field has a component that is a number. -/
def HasNumber (comps : List (Path × Bytes)) : Prop := ∃ e ∈ comps, (Float64.parse e.2).isSome

instance (comps : List (Path × Bytes)) : Decidable (HasNumber comps) :=
  inferInstanceAs (Decidable (∃ e ∈ comps, _))

include hShaped hKey hField in
/-- **What the listing says of a field with a name**, in terms of what is below the prefix
of the field: the sum of its components in the order of the listing, or its slots. -/
theorem fieldIn_eq (hl : l.Perm (data.entries (hashBase db key))) : fieldIn (hashBase db key) l field =
      if HasNumber (componentsAt db key field data) then
        some (fmtNum (fieldTotal (l.filter fun e => Under (hashFieldCounterBase db key field) e.1)))
      else plainAt db key field data := by
  have hBelow := below_entries hShaped hKey hl
  have hCounted : numbersIn (hashBase db key) l field = [] ↔ ¬ HasNumber (componentsAt db key field data) := by
    rw [numbersIn_eq hBelow hKey hField, filterMap_eq_nil_iff]
    simp only [HasNumber, ← (perm_components hl).mem_iff, map_eq_none_iff, not_exists, not_and,
      not_isSome_iff_eq_none]
  rw [fieldIn]
  by_cases hSome : HasNumber (componentsAt db key field data)
  · rw [if_neg fun hNil => hCounted.mp hNil hSome, if_pos hSome, numbersIn_eq hBelow hKey hField,
      sumFloat_filterMap]
  · rw [if_pos (hCounted.mpr hSome), if_neg hSome]
    exact liveValue_slotsIn hShaped hKey hField hl (.refl _)

include hShaped hKey hl in
/-- The field without a name is not listed. -/
lemma fieldIn_nameless : fieldIn (hashBase db key) l [] = none := by
  have hBelow := below_entries hShaped hKey hl
  have hNumbers : numbersIn (hashBase db key) l [] = [] := by
    rw [numbersIn, filter_eq_nil_iff]
    rintro ⟨f, n⟩ hMem hEq
    obtain ⟨e, he, hNumber⟩ := mem_filterMap.mp hMem
    exact (((hBelow e he).fieldComponent_eq_some hKey).mp hNumber).1 (of_decide_eq_true hEq)
  have hSlots : (l.filterMap (scannedSlot (hashBase db key))).filter (fun c => c.1 = ([] : Bytes)) = [] := by
    rw [filter_eq_nil_iff]
    rintro ⟨f, o, sl⟩ hMem hEq
    obtain ⟨e, he, hSlot⟩ := mem_filterMap.mp hMem
    exact ((hBelow e he).scannedSlot_eq_some hSlot).1 (of_decide_eq_true hEq)
  rw [fieldIn, if_pos hNumbers, slotsIn, hSlots]
  rfl

/-- Nor is anything of a key without a name. -/
lemma liveFields_nameless (hl : l.Perm (data.entries (hashBase db []))) :
    liveFields (hashBase db []) l = [] := by
  have hTrim : ∀ e ∈ l, ∃ rest, trimPrefix (hashBase db []) e.1 = .bucket (bucket db []) :: rest := by
    intro e he
    obtain ⟨tail, hTail⟩ := (mem_entries.mp (hl.mem_iff.mp he)).2.1
    have hPath : e.1 = [part db [], .word .d, .db db, .word .h] ++ tail := by
      rw [← hTail]
      simp [newKey, hashBase, dataBase, Store.part]
    refine ⟨[.word .d, .db db, .word .h] ++ tail, ?_⟩
    rw [trimPrefix, if_neg, hPath]
    · rfl
    · rw [hPath]
      simp [hashBase, dataBase]
  have hCounters : counterFields (hashBase db []) l = [] := by
    have hFound : l.filterMap (fieldComponent (hashBase db [])) = [] := by
      rw [filterMap_eq_nil_iff]
      intro e he
      obtain ⟨rest, hRest⟩ := hTrim e he
      simp [fieldComponent, hRest]
    rw [counterFields, hFound]
    rfl
  have hSlots : l.filterMap (scannedSlot (hashBase db [])) = [] := by
    rw [filterMap_eq_nil_iff]
    intro e he
    obtain ⟨rest, hRest⟩ := hTrim e he
    simp [scannedSlot, namedSlot, hRest]
  rw [liveFields, hCounters, plainFields_eq, hSlots]
  rfl

end

end RedGeo.Repo
