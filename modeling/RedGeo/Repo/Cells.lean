import RedGeo.Repo.Increments
import RedGeo.Repo.Components
import RedGeo.Repo.Methods

/-!
# RedGeo — the cells of a count-min sketch

`CMS.INITBYDIM` and `CMS.INCRBY` on one key at any number of replicas, all with the same
dimensions (`crdtstore/cms.go`). A cell is a number for each replica, its component, and so
is the total.

* `IntSlots.sumComponents` — what a read of a cell adds up to.
* `keeps_cms` — what `CMS.INCRBY` puts, step by step, as long as nothing overflows.
-/

namespace RedGeo.Repo

open Lib Store List Option Prog Int64

/-! ## Numbers as components -/

lemma i64_putI64 (t : Int64) : i64 (putI64 t) = some t := by
  have hLt : t.toUInt64.toNat < 256 ^ 8 := t.toUInt64.toNat_lt
  rw [i64, putI64, if_pos (length_toBe 8 _), ofBe_toBe_of_lt hLt, UInt64.ofNat_toNat]
  rfl

section

variable (R : Finset Replica) (base : List Seg) (data : Datastore)

/-- Below the prefix there are numbers, of replicas in `R`. -/
def IntSlots : Prop :=
  ∀ k v, Under base k → data[k]? = some v → ∃ o ∈ R, k = slotKey base o ∧ ∃ t, v = putI64 t

/-- The number of a replica, 0 if there is none. -/
def slotInt (o : Replica) : Int64 := ((data[slotKey base o]?).bind i64).getD 0

variable {R base data}

lemma IntSlots.components (h : IntSlots R base data) :
    Components R base (fun o => data[slotKey base o]?) data where
  value _ _ := rfl
  only k v hUnder hv := by
    obtain ⟨o, ho, hk, -⟩ := h k v hUnder hv
    exact ⟨o, ho, hk⟩

/-- One round of `sumComponents`. -/
def addComponent (r : Db) (acc : Int64 × Int64) (e : Path × Bytes) : Int64 × Int64 :=
  match i64 e.2 with
  | none => acc
  | some n => (acc.1 + n, if replicaOf e.1 = some r.self.name then n else acc.2)

/-- The sum, in any order. -/
lemma sumComponents_fst (r : Db) (entries : List (Path × Bytes)) :
    (sumComponents r entries).1 = Int64.ofInt ((entries.map fun e => ((i64 e.2).getD 0).toInt).sum) := by
  have hFold : ∀ (entries : List (Path × Bytes)) (acc : Int64 × Int64),
      (entries.foldl (addComponent r) acc).1 =
      acc.1 + Int64.ofInt ((entries.map fun e => ((i64 e.2).getD 0).toInt).sum) := by
    intro entries
    induction entries with
    | nil => intro acc; simp
    | cons e entries ih =>
      intro acc
      rw [foldl_cons, ih, map_cons, sum_cons, ofInt_add, ofInt_toInt, addComponent]
      cases i64 e.2 with
      | none => simp
      | some n => simp [Int64.add_assoc]
  exact (hFold entries (0, 0)).trans (Int64.zero_add _)

/-- The component of the replica itself, of which there is one at most. -/
lemma sumComponents_snd (r : Db) (entries : List (Path × Bytes))
    (h : ∀ e ∈ entries, replicaOf e.1 = some r.self.name → ∀ n, i64 e.2 = some n → n = t) :
    (sumComponents r entries).2 = t ∨ (sumComponents r entries).2 = 0 ∧ ∀ e ∈ entries, replicaOf e.1 =
    some r.self.name → i64 e.2 = none := by
  have hFold : ∀ (entries : List (Path × Bytes)) (acc : Int64 × Int64),
      (∀ e ∈ entries, replicaOf e.1 = some r.self.name → ∀ n, i64 e.2 = some n → n = t) →
      (entries.foldl (addComponent r) acc).2 = t ∨
      (entries.foldl (addComponent r) acc).2 = acc.2 ∧
        ∀ e ∈ entries, replicaOf e.1 = some r.self.name → i64 e.2 = none := by
    intro entries
    induction entries with
    | nil => exact fun acc _ => .inr ⟨rfl, by simp⟩
    | cons e entries ih =>
      intro acc hAll
      rw [foldl_cons, addComponent]
      have hRest := fun e' he' => hAll e' (mem_cons_of_mem e he')
      cases hi : i64 e.2 with
      | none =>
        obtain hEq | ⟨hEq, hNone⟩ := ih acc hRest
        · exact .inl hEq
        · exact .inr ⟨hEq, forall_mem_cons.mpr ⟨fun _ => hi, hNone⟩⟩
      | some n =>
        by_cases hOwn : replicaOf e.1 = some r.self.name
        · obtain rfl := hAll e mem_cons_self hOwn n hi
          obtain hEq | ⟨hEq, -⟩ := ih (acc.1 + n, if replicaOf e.1 = some r.self.name then n else acc.2) hRest
          · exact .inl hEq
          · rw [if_pos hOwn] at hEq
            simp only [if_pos hOwn]
            exact .inl hEq
        · obtain hEq | ⟨hEq, hNone⟩ := ih (acc.1 + n, if replicaOf e.1 = some r.self.name then n else acc.2) hRest
          · exact .inl hEq
          · rw [if_neg hOwn] at hEq
            simp only [if_neg hOwn]
            exact .inr ⟨hEq, forall_mem_cons.mpr ⟨fun h => absurd h hOwn, hNone⟩⟩
  exact hFold entries (0, 0) h

/-- **What a read of numbers adds up to.** -/
theorem IntSlots.sumComponents (h : IntSlots R base data) (n : Replica) (db : Int64) :
    Repo.sumComponents ⟨n, db⟩ (data.entries base) =
    (Int64.ofInt (∑ o ∈ R, (slotInt base data o).toInt), slotInt base data n) := by
  refine Prod.ext ?_ ?_
  · rw [sumComponents_fst, h.components.enumerates.sum_map]
    refine congrArg Int64.ofInt (Finset.sum_congr rfl fun o _ => ?_)
    rw [component, slotInt]
    cases data[slotKey base o]? <;> rfl
  · -- entries of this replica are in its slot
    have hMine : ∀ e ∈ data.entries base, replicaOf e.1 = some n.name → data[slotKey base n]? = some e.2 := by
      intro e he hOwn
      obtain ⟨hEntry, hUnder⟩ := Datastore.mem_entries.mp he
      obtain ⟨o, -, hk, -⟩ := h e.1 e.2 hUnder hEntry
      rw [hk, replicaOf_slotKey] at hOwn
      obtain rfl : o = n := Replica.ext (some.inj hOwn)
      rw [← hk]
      exact hEntry
    obtain hEq | ⟨hEq, hNone⟩ := sumComponents_snd ⟨n, db⟩ (data.entries base) (t := slotInt base data n)
      (fun e he hOwn t ht => by rw [slotInt, hMine e he hOwn, bind_some, ht]; rfl)
    · exact hEq
    · refine hEq.trans ?_
      rw [slotInt]
      cases hv : data[slotKey base n]? with
      | none => rfl
      | some v =>
        have hMem : (slotKey base n, v) ∈ data.entries base := Datastore.mem_entries.mpr ⟨hv, under_slotKey _ n⟩
        rw [bind_some, hNone _ hMem (replicaOf_slotKey _ n)]
        rfl

end

/-! ## The commands -/

inductive CmsCmd
  | init
  | incr (items : List (Bytes × Int64))

/-- What it adds. -/
def CmsCmd.called : CmsCmd → Option (List (Bytes × Int64))
  | .init => none
  | .incr items => some items

def CmsCmd.method (key : Bytes) (p : CmsParams) : CmsCmd → RSketch
  | .init => .cmsInit key p
  | .incr items => .cmsIncr key items

/-- `CMS.INITBYDIM` and `CMS.INCRBY` on the key. -/
abbrev cmsService (db : Int64) (key : Bytes) (p : CmsParams) : Service where
  Cmd := CmsCmd
  Out c := (c.method key p).Result
  program n c := (c.method key p).program ⟨n, db⟩

/-- What is added to which cell, in order. -/
def cmsSteps (p : CmsParams) (items : List (Bytes × Int64)) : List (UInt64 × Int64) :=
  items.flatMap fun it => (p.cells it.1).map fun idx => (idx, it.2)

section

variable (db : Int64) (key : Bytes) (p : CmsParams) (R : Finset Replica)

/-- The prefix of the data of a sketch with these dimensions. -/
def cmsSpace : List Seg := sketchSpace db key (fnv64a (skCMS :: p.encode))

/-- Below the key. -/
abbrev cmsTail (p : CmsParams) (rest : List Seg) : List Seg := .word .s :: .space (fnv64a (skCMS :: p.encode)) :: rest

def cellsBase : List Seg := cmsSpace db key p ++ [.word .c]

def cellBase (idx : UInt64) : List Seg := cmsSpace db key p ++ [.word .c, .cell idx]

def totalBase : List Seg := cmsSpace db key p ++ [.word .t]

/-- What `CMS.INCRBY` has still to do. -/
structure Adding where
  todo : List (UInt64 × Int64) := []
  total : Bool := false

def Adding.note (d : Adding) : (op : Call) → Answer op → Adding
  | .put k _, _ =>
    if Under (cellsBase db key p) k then { d with todo := d.todo.tail }
    else if Under (totalBase db key p) k then { d with total := true }
    else d
  | _, _ => d

def Adding.init : CmsCmd → Adding
  | .init => {}
  | .incr items => { todo := cmsSteps p items }

/-- All that is stored is of one sketch, and nothing overflows that is still to be done. -/
structure CmsData (items : List (Bytes × Int64)) (todo : List (UInt64 × Int64)) (data : Datastore) : Prop where
  metas : MetaSlots db key (IsSketch skCMS) data
  params : ParamSlots db key skCMS p.encode data
  cells : ∀ idx, IntSlots R (cellBase db key p idx) data
  totals : IntSlots R (totalBase db key p) data
  positive : ∀ it ∈ items, 0 < it.2
  fits : ∀ e ∈ todo, 0 ≤ ∑ o ∈ R, (slotInt (cellBase db key p e.1) data o).toInt ∧
    ∑ o ∈ R, (slotInt (cellBase db key p e.1) data o).toInt + e.2.toInt < 2 ^ 63

/-- The number of a replica in its own entries. -/
def ownInt (base : List Seg) (n : Replica) (own : Path → Option Bytes) : Int64 :=
  ((own (slotKey base n)).bind i64).getD 0

/-- `CMS.INCRBY` adds to one cell after the other, and then to the total. -/
def cmsRules : Rules (cmsService db key p) Adding where
  init := Adding.init p
  note := Adding.note db key p
  note_silent d op x hOp := by cases op <;> first | rfl | exact hOp.elim
  trust _ c d data := CmsData db key p R (c.called.getD []) d.todo data
  may n c own d k v :=
    k = slotKey (sketchParamsBase db key) n ∧ (∃ st, v = encodeSlot ⟨st, tagPresent, skCMS :: p.encode⟩) ∨
    k = slotKey (metaBase db key) n ∧
      (∃ st, v = encodeSlot ⟨st, tagPresent, encodeMeta ((sketchKind skCMS).envelope 0)⟩) ∨
    (∃ idx inc rest, d.todo = (idx, inc) :: rest ∧ k = slotKey (cellBase db key p idx) n ∧
      v = putI64 (ownInt (cellBase db key p idx) n own + inc)) ∨
    (∃ items, c = .incr items ∧ d.todo = [] ∧ d.total = false ∧ k = slotKey (totalBase db key p) n ∧
      v = putI64 (ownInt (totalBase db key p) n own + Int64.ofInt (weight items)))
  post _ c g out := match c with
    | .init => g.notes = {}
    | .incr items => match out with
      | .ok _ => g.notes = ⟨[], true⟩ ∧ Sighted (metaBase db key) g.known ∧ Sighted (sketchParamsBase db key) g.known
      | .error _ => g.notes = { todo := cmsSteps p items }

end

section

variable {key : Bytes}

lemma clean_cellsBase (hKey : key ≠ []) : Clean (cellsBase db key p) := by
  show Clean (dataBase db key ++ cmsTail p [.word .c])
  exact clean_dataBase hKey db rfl

lemma clean_cellBase (hKey : key ≠ []) (idx : UInt64) : Clean (cellBase db key p idx) := by
  show Clean (dataBase db key ++ cmsTail p [.word .c, .cell idx])
  exact clean_dataBase hKey db rfl

lemma mine_cell (idx : UInt64) (n : Replica) : Mine db key n (slotKey (cellBase db key p idx) n) :=
  mine_slotKey db key (cmsTail p [.word .c, .cell idx]) n

lemma mine_total (n : Replica) : Mine db key n (slotKey (totalBase db key p) n) :=
  mine_slotKey db key (cmsTail p [.word .t]) n

lemma ofKey_of_cells (h : Under (cellsBase db key p) k) : OfKey db key k :=
  .inr (under_of_append (show Under (dataBase db key ++ cmsTail p [.word .c]) k from h))

lemma ofKey_of_total (h : Under (totalBase db key p) k) : OfKey db key k :=
  .inr (under_of_append (show Under (dataBase db key ++ cmsTail p [.word .t]) k from h))

variable (n : Replica)

lemma not_under_cells_total : ¬ Under (cellsBase db key p) (slotKey (totalBase db key p) n) :=
  not_under_apart _ (by decide) [] n

lemma not_under_cells_params : ¬ Under (cellsBase db key p) (slotKey (sketchParamsBase db key) n) :=
  not_under_apart (sketchBase db key) (by simp) [] n

lemma not_under_total_params : ¬ Under (totalBase db key p) (slotKey (sketchParamsBase db key) n) :=
  not_under_apart (sketchBase db key) (by simp) [] n

variable (hKey : key ≠ [])

include hKey

lemma under_cells (idx : UInt64) : Under (cellsBase db key p) (slotKey (cellBase db key p idx) n) := by
  rw [under_slotKey_iff (clean_cellsBase hKey) (clean_cellBase hKey idx)]
  exact ⟨[.cell idx], by simp [cellsBase, cellBase]⟩

lemma cell_ne_total (idx : UInt64) : slotKey (totalBase db key p) n ≠ slotKey (cellBase db key p idx) n := by
  exact (slot_ne_of_under (under_cells n hKey idx) (not_under_cells_total n)).symm

end

section

variable (d : Adding) (n : Replica)

lemma note_meta (v : Bytes) (x : Answer (.put (slotKey (metaBase db key) n) v)) :
    d.note db key p (.put (slotKey (metaBase db key) n) v) x = d := by
  have hCells : ¬ Under (cellsBase db key p) (slotKey (metaBase db key) n) :=
    not_under_metaSlot db key (cmsTail p [.word .c]) n
  have hTotal : ¬ Under (totalBase db key p) (slotKey (metaBase db key) n) :=
    not_under_metaSlot db key (cmsTail p [.word .t]) n
  exact (if_neg hCells).trans (if_neg hTotal)

lemma note_total (v : Bytes) (x : Answer (.put (slotKey (totalBase db key p) n) v)) :
    d.note db key p (.put (slotKey (totalBase db key p) n) v) x = { d with total := true } :=
  (if_neg (not_under_cells_total n)).trans (if_pos (under_slotKey _ n))

lemma note_params (v : Bytes) (x : Answer (.put (slotKey (sketchParamsBase db key) n) v)) :
    d.note db key p (.put (slotKey (sketchParamsBase db key) n) v) x = d :=
  (if_neg (not_under_cells_params n)).trans (if_neg (not_under_total_params n))

lemma note_cell (hKey : key ≠ []) (idx : UInt64) (v : Bytes)
    (x : Answer (.put (slotKey (cellBase db key p idx) n) v)) :
    d.note db key p (.put (slotKey (cellBase db key p idx) n) v) x = { d with todo := d.todo.tail } :=
  if_pos (under_cells n hKey idx)

end

/-! ## What `CMS.INCRBY` does -/

lemma toInt_ofInt_of_lt (h0 : 0 ≤ S) (h : S < 2 ^ 63) : (Int64.ofInt S).toInt = S :=
  toInt_ofInt_of_le (by omega) h

lemma not_overflow (h0 : 0 ≤ S) (hInc : 0 < inc) (h : S + inc.toInt < 2 ^ 63) :
    ¬ maxValue - inc < Int64.ofInt S := by
  have hPos : 0 < inc.toInt := lt_iff_toInt_lt.mp hInc
  have hLe : inc.toInt < 2 ^ 63 := inc.toInt_lt
  rw [lt_iff_toInt_lt, toInt_ofInt_of_lt h0 (by omega), toInt_sub, toInt_maxValue]
  rw [Int.bmod_eq_of_le (by omega) (by omega)]
  omega

lemma CmsParams.range_of_valid {p : CmsParams} (h : p.validate = .ok ()) :
    1 ≤ p.width ∧ 1 ≤ p.depth ∧ p.width ≤ 2 ^ 31 ∧ p.depth ≤ 2 ^ 16 := by
  have hRange : ¬ (p.width < 1 ∨ p.depth < 1 ∨ 2 ^ 31 < p.width ∨ 2 ^ 16 < p.depth ∨ 2 ^ 36 < p.width * p.depth) := by
    intro hBad
    rw [validate, if_pos hBad] at h
    cases h
  push Not at hRange
  obtain ⟨hWidth, hDepth, hWidth', hDepth', -⟩ := hRange
  exact ⟨hWidth, hDepth, hWidth', hDepth'⟩

lemma CmsParams.decode_encode {p : CmsParams} (h : p.validate = .ok ()) : CmsParams.decode p.encode = some p := by
  obtain ⟨hWidth, hDepth, hWidth', hDepth'⟩ := range_of_valid h
  have hLen : (toBe 4 (p.width % 2 ^ 32).toNat).length = 4 := length_toBe 4 _
  have hTake : p.encode.take 4 = toBe 4 (p.width % 2 ^ 32).toNat := by
    rw [encode, take_left' hLen]
  have hDrop : p.encode.drop 4 = toBe 4 (p.depth % 2 ^ 32).toNat := by
    rw [encode, drop_left' hLen]
  rw [decode, if_pos (by rw [encode, length_append, length_toBe, length_toBe]), hTake, hDrop,
    ofBe_toBe_of_lt (by omega), ofBe_toBe_of_lt (by omega)]
  congr 1
  rw [CmsParams.mk.injEq]
  omega

lemma foldl_add_eq (items : List (Bytes × Int64)) (t : Int64) :
    items.foldl (fun n it => n + it.2) t = t + Int64.ofInt (weight items) := by
  induction items generalizing t with
  | nil => simp [weight]
  | cons it items ih =>
    rw [foldl_cons, ih, weight, weight, map_cons, sum_cons, ofInt_add, ofInt_toInt, Int64.add_assoc]

section

variable {db : Int64} {key : Bytes} {p : CmsParams} {R : Finset Replica} {n : Replica}
    {items : List (Bytes × Int64)} {total : Int64} {g : Knows Adding}

/-- What is kept while cells are added to: these are still to be done, the total is as it
was, and the sketch has been seen. -/
def AddsOn (db : Int64) (key : Bytes) (p : CmsParams) (n : Replica) (total : Int64) (todo : List (UInt64 × Int64))
    (g : Knows Adding) : Prop :=
  g.notes = ⟨todo, false⟩ ∧ ownInt (totalBase db key p) n g.own = total ∧
    Sighted (metaBase db key) g.known ∧ Sighted (sketchParamsBase db key) g.known

/-- The view of the sketch. -/
abbrev cmsViewAt (db : Int64) (key : Bytes) (p : CmsParams) : CmsView :=
  ⟨cmsSpace db key p, fnv64a (skCMS :: p.encode), p⟩

variable (hKey : key ≠ [])

include hKey

variable {fault : Knows Adding → Err → Prop}

lemma heeds_cell
    (h : AddsOn db key p n total ((idx, inc) :: more) g) (hPos : 0 < inc) : (Db.on ⟨n, db⟩ key (do
        let (sum, own) ← (cmsViewAt db key p).cell ⟨n, db⟩ idx
        if maxValue - inc < sum then .fail (.text "CMS: INCRBY overflow") else
          putComp (.cell (fnv64a (skCMS :: p.encode)) idx) (putI64 (own + inc))
          pure (min est (sum + inc)))).Heeds ((cmsRules db key p R).protocol db key n (.incr items))
      (Prog.Either (fun g _ => AddsOn db key p n total more g) fault) g := by
  obtain ⟨own, known, notes⟩ := g
  obtain ⟨rfl, hTotal, hMeta, hParams⟩ := h
  refine heeds_load fun data hMeets => ?_
  obtain ⟨hOwn, -, hTrust⟩ := hMeets
  change CmsData db key p R items ((idx, inc) :: more) data at hTrust
  have hSlot : slotInt (cellBase db key p idx) data n = ownInt (cellBase db key p idx) n own := by
    rw [slotInt, ownInt, ← show ownOf db key n data = own from hOwn, ownOf_of_mine (mine_cell idx n)]
  have hSum : sumComponents ⟨n, db⟩ (data.entries ((cmsViewAt db key p).data ++ [.word .c, .cell idx])) = _ :=
    (hTrust.cells idx).sumComponents n db
  obtain ⟨hNonneg, hLt⟩ := hTrust.fits (idx, inc) mem_cons_self
  rw [hSum, hSlot]
  show (Db.on ⟨n, db⟩ key (if maxValue - inc < _ then _ else _)).Heeds _ _ _
  rw [if_neg (not_overflow hNonneg hPos hLt)]
  refine heeds_putComp (mine_cell idx n) (.inr (.inr (.inl ⟨idx, inc, more, rfl, rfl, rfl⟩))) ?_
  refine ⟨note_cell ⟨(idx, inc) :: more, false⟩ n hKey idx
      (putI64 (ownInt (cellBase db key p idx) n own + inc)) (.ok ()), ?_, hMeta.mono Set.subset_union_left,
    hParams.mono Set.subset_union_left⟩
  show ownInt (totalBase db key p) n (Function.update own (slotKey (cellBase db key p idx) n) _) = total
  rw [ownInt, Function.update_of_ne (cell_ne_total n hKey idx)]
  exact hTotal

lemma heeds_incrCells
    (h : AddsOn db key p n total (cells.map (fun idx => (idx, inc)) ++ more) g) (hPos : 0 < inc) :
    (Db.on ⟨n, db⟩ key (cmsIncrCells ⟨n, db⟩ (cmsViewAt db key p) inc cells)).Heeds
    ((cmsRules db key p R).protocol db key n (.incr items))
    (Prog.Either (fun g _ => AddsOn db key p n total more g) fault) g := by
  rw [cmsIncrCells, Db.on, compile_foldlM]
  exact heeds_foldlM (I := fun cells g _ => AddsOn db key p n total (cells.map (fun idx => (idx, inc)) ++ more) g)
    h fun idx _ cells g est hInv => heeds_cell hKey hInv hPos

lemma heeds_incrItems {all : List (Bytes × Int64)}
    {E : Knows Adding → Err → Prop} (hPos : ∀ it ∈ items, 0 < it.2)
    (h : AddsOn db key p n total (cmsSteps p items) g) : (Db.on ⟨n, db⟩ key (items.mapM fun it =>
        if it.2 ≤ 0 then .fail (.text "CMS: Increment must be a positive integer")
        else cmsIncrCells ⟨n, db⟩ (cmsViewAt db key p) it.2 (p.cells it.1))).Heeds
      ((cmsRules db key p R).protocol db key n (.incr all))
      (Prog.Either (fun g _ => AddsOn db key p n total [] g) E) g := by
  rw [Db.on, compile_mapM]
  refine heeds_mapM (I := fun items g => AddsOn db key p n total (cmsSteps p items) g) h
    fun it hIt rest g hInv => ?_
  rw [if_neg (Int64.not_le.mpr (hPos it hIt))]
  exact heeds_incrCells hKey hInv (hPos it hIt)

/-- What `CMS.INCRBY` does once it has read the total. -/
lemma heeds_incrRest (hPos : ∀ it ∈ items, 0 < it.2) (hMeta : Sighted (metaBase db key) known)
    (hParams : Sighted (sketchParamsBase db key) known) : (Db.on ⟨n, db⟩ key (do
        let out ← items.mapM fun it =>
          if it.2 ≤ 0 then .fail (.text "CMS: Increment must be a positive integer")
          else cmsIncrCells ⟨n, db⟩ (cmsViewAt db key p) it.2 (p.cells it.1)
        (cmsViewAt db key p).setTotalOwn (items.foldl (fun n it => n + it.2) (ownInt (totalBase db key p) n own))
        pure out)).Heeds
      ((cmsRules db key p R).protocol db key n (.incr items)) ((cmsRules db key p R).post n (.incr items))
      ⟨own, known, ⟨cmsSteps p items, false⟩⟩ := by
  rw [Db.on, compile_bind, foldl_add_eq]
  refine heeds_bind (heeds_incrItems (E := fun _ _ => False) hKey hPos ⟨rfl, rfl, hMeta, hParams⟩) ?_
    fun _ _ hFalse => hFalse.elim
  -- the cells are done, the total is left
  rintro ⟨own', known', notes'⟩ out ⟨hNotes, hTotal, hMeta', hParams'⟩
  change notes' = _ at hNotes
  subst hNotes
  refine heeds_putComp (mine_total n) (.inr (.inr (.inr ⟨items, rfl, rfl, rfl, rfl, ?_⟩))) ?_
  · rw [← hTotal]
  · exact ⟨note_total ⟨[], false⟩ n
      (putI64 (ownInt (totalBase db key p) n own + Int64.ofInt (weight items))) (.ok ()), hMeta', hParams'⟩

/-- **What `CMS.INCRBY` does**, whatever arrives while it runs. -/
theorem keeps_cmsIncr (hValid : p.validate = .ok ()) (items : List (Bytes × Int64))
    (own : Path → Option Bytes) :
    (cmsRules db key p R).Keeps db key n (.incr items) ((cmsService db key p).program n (.incr items))
      ⟨own, ∅, { todo := cmsSteps p items }⟩ := by
  refine heeds_withLock ?_
  have hOpen : Finds db key (Opens db key)
      (fun data => MetaSlots db key (IsSketch skCMS) data ∧ ParamSlots db key skCMS p.encode data)
      (fun known out => out = .error .notFound ∨ out = .ok (cmsViewAt db key p) ∧
        Sighted (metaBase db key) known ∧ Sighted (sketchParamsBase db key) known)
      (cmsOpen ⟨n, db⟩ key) ∅ := by
    refine finds_bind (finds_sketchOpen fun data hData => hData) ?_ ?_
    · rintro known found ⟨found', hEq, hFound⟩
      cases hEq
      cases found' with
      | none => exact .inl rfl
      | some sp =>
        obtain ⟨rfl, hMeta, hParams⟩ := hFound sp rfl
        show Finds db key _ _ _ (cmsViewOf ⟨n, db⟩ key (paramsOf skCMS p.encode)) known
        rw [cmsViewOf, show (paramsOf skCMS p.encode).raw = p.encode from rfl, CmsParams.decode_encode hValid]
        exact .inr ⟨rfl, hMeta, hParams⟩
    · rintro known e ⟨found, hEq, -⟩
      cases hEq
  refine heeds_read hOpen (fun _ data hMeets => ⟨hMeets.2.2.metas, hMeets.2.2.params⟩) (fun a ha x => ?_) ?_ ?_
  · rcases ha with rfl | rfl <;> rfl
  · rintro known v (hEq | ⟨hEq, hMeta, hParams⟩)
    · cases hEq
    · cases hEq
      refine heeds_load fun data hMeets => ?_
      obtain ⟨hOwn, -, hTrust⟩ := hMeets
      change CmsData db key p R items (cmsSteps p items) data at hTrust
      have hSlot : slotInt (totalBase db key p) data n = ownInt (totalBase db key p) n own := by
        rw [slotInt, ownInt, ← show ownOf db key n data = own from hOwn, ownOf_of_mine (mine_total n)]
      have hSum : sumComponents ⟨n, db⟩ (data.entries ((cmsViewAt db key p).data ++ [.word .t])) = _ :=
        hTrust.totals.sumComponents n db
      rw [hSum, hSlot]
      exact heeds_incrRest hKey hTrust.positive (hMeta.mono Set.subset_union_left)
        (hParams.mono Set.subset_union_left)
  · rintro known e (hEq | ⟨hEq, -⟩)
    · rfl
    · cases hEq

/-- **What both commands do**, whatever arrives while they run. -/
theorem keeps_cms (hValid : p.validate = .ok ()) (n : Replica) (c : CmsCmd) (own : Path → Option Bytes) :
    (cmsRules db key p R).Keeps db key n c ((cmsService db key p).program n c) ⟨own, ∅, Adding.init p c⟩ := by
  cases c with
  | incr items => exact keeps_cmsIncr hKey hValid items own
  | init =>
    have hProgram : (cmsService db key p).program n .init =
        Db.locked ⟨n, db⟩ key (sketchReserve ⟨n, db⟩ key skCMS p.encode) := by
      show cmsInit ⟨n, db⟩ key p = _
      rw [cmsInit, hValid]
    rw [hProgram]
    refine heeds_withLock (heeds_reserve (fun known data hMeets => ⟨hMeets.2.2.metas, hMeets.2.2.params⟩) ?_
      (fun _ st => .inl ⟨rfl, st, rfl⟩) (fun _ st => .inr (.inl ⟨rfl, st, rfl⟩))
      (fun v x => note_params {} n v x) (fun v x => note_meta {} n v x) fun _ _ _ => rfl)
    rintro a (rfl | rfl) x <;> rfl

end

end RedGeo.Repo
