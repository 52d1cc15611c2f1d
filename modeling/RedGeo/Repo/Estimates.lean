import RedGeo.Lib.Prefixes
import RedGeo.Repo.Cells

/-!
# RedGeo — count-min sketches never undercount

Runs of `CMS.INITBYDIM` and `CMS.INCRBY` on one key, with the successful calls remembered
beside the net. The component of a cell goes through the running totals of what was added
to it. An item has one cell in each row, so that what is in a cell is at least what was
added for an item, and at most what was added altogether: nothing overflows.

* `Added.Sound` — what holds in every run.
* `cms_estimates` — what `CMS.QUERY` and `CMS.INFO` reply once everything has arrived.
-/

namespace RedGeo.Repo

open Lib Store Function List Option Int64 CmsCmd Adding CmsParams

variable {items : List (Bytes × Int64)} {o : Replica}

/-! ## What is added to a cell -/

/-- The increments of a cell. -/
def incsAt (idx : UInt64) (steps : List (UInt64 × Int64)) : List Int64 :=
  (steps.filter fun e => e.1 = idx).map Prod.snd

section

variable {p : CmsParams} {idx : UInt64}

@[simp] lemma incsAt_append (l l' : List (UInt64 × Int64)) : incsAt idx (l ++ l') = incsAt idx l ++ incsAt idx l' := by
  rw [incsAt, filter_append, map_append]
  rfl

lemma incsAt_self (inc : Int64) : incsAt idx [(idx, inc)] = [inc] := by
  simp [incsAt]

lemma incsAt_of_ne (h : idx' ≠ idx) (inc : Int64) : incsAt idx [(idx', inc)] = [] := by
  simp [incsAt, h]

lemma cmsSteps_cons (it : Bytes × Int64) (items : List (Bytes × Int64)) :
    cmsSteps p (it :: items) = (p.cells it.1).map (fun idx => (idx, it.2)) ++ cmsSteps p items := rfl

@[simp] lemma cmsSteps_append (items items' : List (Bytes × Int64)) :
    cmsSteps p (items ++ items') = cmsSteps p items ++ cmsSteps p items' :=
  flatMap_append

lemma pos_of_mem_incsAt (hPos : ∀ e ∈ steps, 0 < e.2) (h : inc ∈ incsAt idx steps) : 0 < inc := by
  obtain ⟨e, he, rfl⟩ := mem_map.mp h
  exact hPos e (mem_of_mem_filter he)

/-- The row of a cell can be read off it. -/
lemma CmsParams.row_of_cell (hValid : p.validate = .ok ()) (hRow : row < p.depth.toNat) (x : UInt64) :
    (UInt64.ofNat row * UInt64.ofNat p.width.toNat + x % UInt64.ofNat p.width.toNat).toNat / p.width.toNat =
    row := by
  obtain ⟨hWidth, -, hWidth', hDepth'⟩ := range_of_valid hValid
  obtain ⟨W, hW⟩ : ∃ W, W = p.width.toNat := ⟨_, rfl⟩
  have hPos : 0 < W := by omega
  have hRest : x.toNat % W < W := Nat.mod_lt _ hPos
  -- nothing wraps around
  have hProd : row * W ≤ 2 ^ 16 * 2 ^ 31 := Nat.mul_le_mul (by omega) (by omega)
  rw [← hW, UInt64.toNat_add, UInt64.toNat_mul, UInt64.toNat_mod, UInt64.toNat_ofNat', UInt64.toNat_ofNat',
    Nat.mod_eq_of_lt (show row < 2 ^ 64 by omega), Nat.mod_eq_of_lt (show W < 2 ^ 64 by omega),
    Nat.mod_eq_of_lt (show row * W < 2 ^ 64 by omega), Nat.mod_eq_of_lt (by omega), Nat.mul_comm row W,
    Nat.mul_add_div hPos, Nat.div_eq_of_lt hRest, Nat.add_zero]

/-- The cells of an item are in different rows. -/
lemma CmsParams.nodup_cells (hValid : p.validate = .ok ()) (item : Bytes) : (p.cells item).Nodup := by
  refine List.Nodup.map_on (fun row hRow row' hRow' hEq => ?_) nodup_range
  rw [← row_of_cell hValid (mem_range.mp hRow), hEq, row_of_cell hValid (mem_range.mp hRow')]

lemma CmsParams.exists_mem_cells (hValid : p.validate = .ok ()) (item : Bytes) : ∃ idx, idx ∈ p.cells item := by
  obtain ⟨-, hDepth, -, -⟩ := range_of_valid hValid
  have hRow : 0 ∈ List.range p.depth.toNat := mem_range.mpr (by omega)
  exact ⟨_, mem_map.mpr ⟨0, hRow, rfl⟩⟩

/-- What an item adds to a cell. -/
lemma sumOf_incsAt_item (cells : List UInt64) (inc : Int64) :
    sumOf (incsAt idx (cells.map fun idx => (idx, inc))) = cells.count idx * inc.toInt := by
  induction cells with
  | nil => simp [incsAt]
  | cons c cells ih =>
    have hCons : incsAt idx ((c :: cells).map fun idx => (idx, inc)) =
        incsAt idx [(c, inc)] ++ incsAt idx (cells.map fun idx => (idx, inc)) := incsAt_append [(c, inc)] _
    rw [hCons, sumOf_append, ih]
    by_cases hc : c = idx
    · subst hc
      rw [incsAt_self, count_cons_self, sumOf_cons, sumOf_nil]
      push_cast
      ring
    · rw [incsAt_of_ne hc, count_cons_of_ne (by simpa using hc), sumOf_nil]
      ring

/-- A cell has at most what was added altogether. -/
lemma sumOf_incsAt_le (hValid : p.validate = .ok ()) (hPos : ∀ it ∈ items, 0 < it.2) :
    sumOf (incsAt idx (cmsSteps p items)) ≤ weight items := by
  induction items with
  | nil => exact le_refl _
  | cons it items ih =>
    obtain ⟨hIt, hRest⟩ := forall_mem_cons.mp hPos
    have hInc : 0 < it.2.toInt := lt_iff_toInt_lt.mp hIt
    have hCount : (p.cells it.1).count idx ≤ 1 := nodup_iff_count_le_one.mp (nodup_cells hValid it.1) idx
    have hOnce : ((p.cells it.1).count idx : Int) * it.2.toInt ≤ 1 * it.2.toInt :=
      Int.mul_le_mul_of_nonneg_right (by omega) hInc.le
    have hMore := ih hRest
    rw [cmsSteps_cons, incsAt_append, sumOf_append, sumOf_incsAt_item, weight_cons]
    omega

/-- A cell of an item has at least what was added for it. -/
lemma freq_le_sumOf_incsAt (hIdx : idx ∈ p.cells item) (hPos : ∀ it ∈ items, 0 < it.2) :
    freq item items ≤ sumOf (incsAt idx (cmsSteps p items)) := by
  induction items with
  | nil => exact le_refl _
  | cons it items ih =>
    obtain ⟨hIt, hRest⟩ := forall_mem_cons.mp hPos
    have hInc : 0 < it.2.toInt := lt_iff_toInt_lt.mp hIt
    have hMore := ih hRest
    rw [cmsSteps_cons, incsAt_append, sumOf_append, sumOf_incsAt_item]
    by_cases hItem : it.1 = item
    · subst hItem
      have hCount : 1 ≤ (p.cells it.1).count idx := count_pos_iff.mpr hIdx
      have hOnce : 1 * it.2.toInt ≤ ((p.cells it.1).count idx : Int) * it.2.toInt :=
        Int.mul_le_mul_of_nonneg_right (by omega) hInc.le
      rw [freq_cons_self]
      omega
    · have hNonneg : 0 ≤ ((p.cells it.1).count idx : Int) * it.2.toInt :=
        Int.mul_nonneg (by omega) hInc.le
      rw [freq_cons_of_ne hItem]
      omega

end

lemma le_foldl_min {g : UInt64 → Int64} {cells : List UInt64} (h : ∀ idx ∈ cells, F ≤ (g idx).toInt)
    (hEst : F ≤ est.toInt) : F ≤ (cells.foldl (fun est idx => min est (g idx)) est).toInt := by
  induction cells generalizing est with
  | nil => exact hEst
  | cons idx cells ih =>
    obtain ⟨hIdx, hRest⟩ := forall_mem_cons.mp h
    refine ih hRest ?_
    show F ≤ (if est ≤ g idx then est else g idx).toInt
    split
    · exact hEst
    · exact hIdx

lemma le_max_zero (est : Int64) : est.toInt ≤ (max est 0).toInt := by
  show est.toInt ≤ (if est ≤ 0 then 0 else est).toInt
  split
  · next hLe => exact le_iff_toInt_le.mp hLe
  · exact le_refl _

/-! ## Numbers that go through totals -/

section

variable {α : Type} (f : List α → Int)

/-- A number after some steps. -/
def numberOf (l : List α) : Bytes := putI64 (Int64.ofInt (f l))

variable {f}

/-- A number as it is read, up to some step. -/
lemma slotInt_numberOf (hNil : f [] = 0) (hLe : i ≤ l.length)
    (hVal : data[slotKey base o]? = ((afterEach (numberOf f) l).take i).getLast?) :
    slotInt base data o = ofInt (f (l.take i)) := by
  rw [slotInt, hVal, getLast?_take_afterEach (numberOf f) hLe]
  split
  · next hZero =>
    rw [hZero, take_zero, hNil]
    rfl
  · rw [bind_some, numberOf, i64_putI64]
    rfl

lemma getLast?_afterEach_take (l : List α) :
    (afterEach (numberOf f) l).getLast? = ((afterEach (numberOf f) l).take l.length).getLast? := by
  rw [take_of_length_le (length_afterEach _ l).le]

lemma slotInt_numberOf_all (hNil : f [] = 0)
    (hVal : data[slotKey base o]? = (afterEach (numberOf f) l).getLast?) :
    slotInt base data o = ofInt (f l) := by
  rw [getLast?_afterEach_take] at hVal
  rw [slotInt_numberOf hNil (le_refl l.length) hVal, take_length]

lemma ownInt_numberOf (hNil : f [] = 0) (hVal : own (slotKey base n) = (afterEach (numberOf f) l).getLast?) :
    ownInt base n own = ofInt (f l) := by
  have hLast := getLast?_take_afterEach (numberOf f) (le_refl l.length)
  rw [ownInt, hVal, getLast?_afterEach_take, hLast, take_length]
  split
  · next hZero =>
    rw [length_eq_zero_iff.mp hZero, hNil]
    rfl
  · rw [bind_some, numberOf, i64_putI64]
    rfl

end

/-! ## What is remembered -/

section

variable (db : Int64) (key : Bytes) (p : CmsParams) (R : Finset Replica)

/-- The cells that it has still to add to. -/
def Adding.left (d : Adding) (cmd : Option CmsCmd) : List (UInt64 × Int64) := if cmd.isSome then d.todo else []

/-- Its items, once the total has them. -/
def Adding.counted (d : Adding) : Option CmsCmd → List (List (Bytes × Int64))
  | some (.incr items) => if d.total then [items] else []
  | _ => []

/-- What some calls add altogether. -/
def callsWeight (calls : List (List (Bytes × Int64))) : Int := weight calls.flatten

/-- What a replica has put, after calls that have succeeded: its cells have gone through the
totals of what was added to them, the running command included as far as it has got. -/
structure AddedBy (calls : List (List (Bytes × Int64))) (cmd : Option CmsCmd) (d : Adding) (log : Path → List Bytes)
    (n : Replica) : Prop where
  cells : ∃ l, (∀ idx, log (slotKey (cellBase db key p idx) n) =
      afterEach (numberOf sumOf) (incsAt idx (cmsSteps p calls.flatten ++ l))) ∧
    cmsSteps p (running CmsCmd.called cmd) = l ++ d.left cmd
  total : log (slotKey (totalBase db key p) n) = afterEach (numberOf callsWeight) (calls ++ d.counted cmd)

/-- What holds in every run. -/
structure Added.Sound (past : Added) (v : View (cmsService db key p) Adding) : Prop
    extends past.Counts CmsCmd.called R v where
  sketched : v.Sketched db key skCMS p.encode
  opened : past.Opened db key v
  cells : v.Logged (cellsBase db key p) fun k val => ∃ idx, ∃ o ∈ R, k = slotKey (cellBase db key p idx) o ∧
    ∃ t, val = putI64 t
  totals : v.Logged (totalBase db key p) fun k val => ∃ o ∈ R, k = slotKey (totalBase db key p) o ∧ ∃ t, val = putI64 t
  byEach : ∀ n, AddedBy db key p (past.calls n) (v.cmd n) (v.notes n) v.log n

end

/-! ## One replica -/

namespace AddedBy

variable {p : CmsParams} {calls : List (List (Bytes × Int64))} {cmd : Option CmsCmd} {d : Adding}

/-- The slots of the replica are as they were. -/
lemma congr (h : AddedBy db key p calls cmd d log n)
    (hCells : ∀ idx, log' (slotKey (cellBase db key p idx) n) = log (slotKey (cellBase db key p idx) n))
    (hTotal : log' (slotKey (totalBase db key p) n) = log (slotKey (totalBase db key p) n)) :
    AddedBy db key p calls cmd d log' n := by
  obtain ⟨l, hLog, hSteps⟩ := h.cells
  exact ⟨⟨l, fun idx => (hCells idx).trans (hLog idx), hSteps⟩, hTotal.trans h.total⟩

lemma start (h : AddedBy db key p calls none d log n) (c : CmsCmd) :
    AddedBy db key p calls (some c) (init p c) log n := by
  obtain ⟨l, hLog, hSteps⟩ := h.cells
  obtain rfl : l = [] := (append_eq_nil_iff.mp hSteps.symm).1
  refine ⟨⟨[], hLog, ?_⟩, ?_⟩
  · cases c <;> rfl
  · have hNone : (init p c).counted (some c) = [] := by cases c <;> rfl
    rw [hNone]
    exact h.total

lemma put_cell (h : AddedBy db key p calls cmd d log n) (hKey : key ≠ []) (hCmd : cmd.isSome) {idx : UInt64}
    (hTodo : d.todo = (idx, inc) :: rest)
    (hOwn : own (slotKey (cellBase db key p idx) n) = (log (slotKey (cellBase db key p idx) n)).getLast?) :
    AddedBy db key p calls cmd { d with todo := d.todo.tail } (update log (slotKey (cellBase db key p idx) n)
      (log (slotKey (cellBase db key p idx) n) ++ [putI64 (ownInt (cellBase db key p idx) n own + inc)])) n := by
  obtain ⟨l, hLog, hSteps⟩ := h.cells
  have hLeft : d.left cmd = (idx, inc) :: rest := by rw [left, if_pos hCmd, hTodo]
  have hRest : left { d with todo := d.todo.tail } cmd = rest := by rw [left, if_pos hCmd, hTodo]; rfl
  refine ⟨⟨l ++ [(idx, inc)], fun idx' => ?_, ?_⟩, ?_⟩
  · rw [← append_assoc, incsAt_append]
    by_cases hIdx : idx' = idx
    · subst hIdx
      rw [hLog idx'] at hOwn
      rw [update_self, ownInt_numberOf sumOf_nil hOwn, incsAt_self, afterEach_concat, ← hLog idx', numberOf,
        sumOf_append, sumOf_cons, sumOf_nil, Int.add_zero, ofInt_add, ofInt_toInt]
    · have hSlot : slotKey (cellBase db key p idx') n ≠ slotKey (cellBase db key p idx) n := by
        rw [(clean_cellBase hKey idx').slotKey, (clean_cellBase hKey idx).slotKey]
        simp [cellBase, hIdx]
      rw [update_of_ne hSlot, incsAt_of_ne (Ne.symm hIdx), append_nil]
      exact hLog idx'
  · rw [hSteps, hLeft, hRest, append_assoc]
    rfl
  · rw [update_of_ne (cell_ne_total n hKey idx)]
    exact h.total

lemma put_total (h : AddedBy db key p calls (some (.incr items)) d log n) (hKey : key ≠ [])
    (hTotal : d.total = false)
    (hOwn : own (slotKey (totalBase db key p) n) = (log (slotKey (totalBase db key p) n)).getLast?) :
    AddedBy db key p calls (some (.incr items)) { d with total := true } (update log
      (slotKey (totalBase db key p) n) (log (slotKey (totalBase db key p) n) ++
        [putI64 (ownInt (totalBase db key p) n own + ofInt (weight items))])) n := by
  obtain ⟨l, hLog, hSteps⟩ := h.cells
  have hNone : d.counted (some (.incr items)) = [] := by rw [counted, hTotal]; rfl
  have hAll := h.total
  rw [hNone, append_nil] at hAll
  refine ⟨⟨l, fun idx => ?_, hSteps⟩, ?_⟩
  · rw [update_of_ne (cell_ne_total n hKey idx).symm]
    exact hLog idx
  · have hNil : callsWeight [] = 0 := rfl
    have hSum : callsWeight (calls ++ [items]) = callsWeight calls + weight items := by simp [callsWeight]
    rw [hAll] at hOwn
    rw [update_self, ownInt_numberOf hNil hOwn, hAll]
    show _ = afterEach _ (calls ++ [items])
    rw [afterEach_concat, numberOf, hSum, ofInt_add]

lemma succeed (h : AddedBy db key p calls (some (.incr items)) ⟨[], true⟩ log n) (d : Adding) :
    AddedBy db key p (calls ++ [items]) none d log n := by
  obtain ⟨l, hLog, hSteps⟩ := h.cells
  have hAll : cmsSteps p items = l := hSteps.trans (append_nil l)
  have hSum : (calls ++ [items]).flatten = calls.flatten ++ items := by simp
  refine ⟨⟨[], fun idx => ?_, rfl⟩, ?_⟩
  · rw [hSum, cmsSteps_append, hAll, append_nil]
    exact hLog idx
  · rw [show d.counted none = [] from rfl, append_nil]
    exact h.total

lemma fail (h : AddedBy db key p calls (some c) (init p c) log n) (d : Adding) :
    AddedBy db key p calls none d log n := by
  obtain ⟨l, hLog, hSteps⟩ := h.cells
  obtain rfl : l = [] := by
    have hLeft : (init p c).left (some c) = cmsSteps p (running called (some c)) := by cases c <;> rfl
    rw [hLeft] at hSteps
    exact self_eq_append_left.mp hSteps
  have hNone : (init p c).counted (some c) = [] := by cases c <;> rfl
  refine ⟨⟨[], hLog, rfl⟩, ?_⟩
  rw [show d.counted none = [] from rfl, ← hNone]
  exact h.total

/-- Where its items are positive, what is in a cell, with what the running command has still
to add to it, is no more than what is added altogether. -/
lemma sumOf_cell_le (hPos : ∀ it ∈ calls.flatten ++ running called cmd, 0 < it.2)
    (hValid : p.validate = .ok ()) (idx : UInt64)
    (hSteps : cmsSteps p (running called cmd) = l ++ d.left cmd) :
    sumOf (incsAt idx (cmsSteps p calls.flatten ++ l)) + sumOf (incsAt idx (d.left cmd)) ≤
    weight (calls.flatten ++ running called cmd) := by
  rw [← sumOf_append, ← incsAt_append, append_assoc, ← hSteps, ← cmsSteps_append]
  exact sumOf_incsAt_le hValid hPos

lemma steps_positive (hPos : ∀ it ∈ calls.flatten ++ running called cmd, 0 < it.2)
    (hSteps : cmsSteps p (running called cmd) = l ++ d.left cmd) (idx : UInt64) :
    (∀ inc ∈ incsAt idx (cmsSteps p calls.flatten ++ l), 0 < inc) ∧ ∀ inc ∈ incsAt idx (d.left cmd), 0 < inc := by
  have hAll : ∀ e ∈ cmsSteps p calls.flatten ++ (l ++ d.left cmd), 0 < e.2 := by
    rw [← hSteps, ← cmsSteps_append]
    intro e he
    obtain ⟨it, hit, he⟩ := mem_flatMap.mp he
    obtain ⟨idx, -, rfl⟩ := mem_map.mp he
    exact hPos it hit
  refine ⟨fun inc hInc => pos_of_mem_incsAt (fun e he => hAll e ?_) hInc,
    fun inc hInc => pos_of_mem_incsAt (fun e he => hAll e ?_) hInc⟩
  · rw [← append_assoc]
    exact mem_append_left _ he
  · exact mem_append_right _ (mem_append_right _ he)

lemma put (h : AddedBy db key p calls (some c) d log n) (hKey : key ≠ [])
    (hOwn : ∀ k, Mine db key n k → own k = (log k).getLast?) {R : Finset Replica}
    (hMay : (cmsRules db key p R).may n c own d k val) :
    AddedBy db key p calls (some c) (d.note db key p (.put k val) (.ok ()))
      (update log k (log k ++ [val])) n := by
  obtain ⟨rfl, -⟩ | ⟨rfl, -⟩ | ⟨idx, inc, rest, hTodo, rfl, rfl⟩ | ⟨items, rfl, -, hTotal, rfl, rfl⟩ := hMay
  · rw [note_params d n val (.ok ())]
    refine h.congr (fun idx => update_of_ne ?_ _ _) (update_of_ne ?_ _ _)
    · exact slot_ne_of_under (under_cells n hKey idx) (not_under_cells_params n)
    · exact slot_ne_of_under (under_slotKey _ n) (not_under_total_params n)
  · rw [note_meta d n val (.ok ())]
    refine h.congr (fun idx => update_of_ne ?_ _ _) (update_of_ne ?_ _ _)
    · exact slot_ne_of_under (under_cells n hKey idx)
        (not_under_metaSlot db key (cmsTail p [.word .c]) n)
    · exact slot_ne_of_under (under_slotKey (totalBase db key p) n)
        (not_under_metaSlot db key (cmsTail p [.word .t]) n)
  · rw [note_cell d n hKey idx _ (.ok ())]
    exact h.put_cell hKey rfl hTodo (hOwn _ (mine_cell idx n))
  · rw [note_total d n _ (.ok ())]
    exact h.put_total hKey hTotal (hOwn _ (mine_total n))

lemma kept (hKey : key ≠ []) (R : Finset Replica) :
    Added.Local db key (cmsRules db key p R) called fun n calls cmd d log => AddedBy db key p calls cmd d log n where
  frame h hLog := h.congr (fun idx => hLog _ (mine_cell idx _)) (hLog _ (mine_total _))
  start h := h.start _
  put h hOwn hMay := h.put hKey hOwn hMay
  query h := h
  succeed {n calls c d log own known out} h hPost := by
    cases c with
    | init =>
      obtain rfl : d = init p .init := hPost
      rw [show calls ++ (called .init).toList = calls from append_nil calls]
      exact h.fail _
    | incr items =>
      obtain ⟨hNotes, -⟩ := hPost
      change d = _ at hNotes
      subst hNotes
      exact h.succeed _
  fail {n calls c d log own known e} h hPost := by
    obtain rfl : d = init p c := by cases c <;> exact hPost
    exact h.fail _

end AddedBy

/-! ## All replicas -/

section

variable {db : Int64} {key : Bytes} {p : CmsParams} {R : Finset Replica} {s : Net (cmsService db key p)}
  {d : Replica → Adding} {past : Added}

namespace Added.Sound

variable (hKept : s.Kept db key (cmsRules db key p R) d) (h : Added.Sound db key p R past (s.view d))

include hKept h

lemma cellSlots (hKey : key ≠ []) (n : Replica) (idx : UInt64) : IntSlots R (cellBase db key p idx) (s.world n).data := by
  intro k val hUnder hVal
  have hBase : cellBase db key p idx = cellsBase db key p ++ [.cell idx] := by simp [cellBase, cellsBase]
  have hCells : Under (cellsBase db key p) k := by
    rw [hBase] at hUnder
    exact under_of_append hUnder
  obtain ⟨idx', o, ho, rfl, ht⟩ := hKept.of_logged h.cells (fun _ hk => ofKey_of_cells hk) n k val hCells hVal
  -- a slot is below one cell only
  rw [under_slotKey_iff (clean_cellBase hKey idx) (clean_cellBase hKey idx')] at hUnder
  obtain rfl : idx = idx' := by
    simpa [cellBase, prefix_append_right_inj] using hUnder
  exact ⟨o, ho, rfl, ht⟩

lemma totalSlots (n : Replica) : IntSlots R (totalBase db key p) (s.world n).data :=
  fun k val hUnder hVal => hKept.of_logged h.totals (fun _ hk => ofKey_of_total hk) n k val hUnder hVal

/-- A cell as a node has it. -/
lemma cell_le (hValid : p.validate = .ok ()) (n : Replica) (ho : o ∈ R) (idx : UInt64) :
    0 ≤ (slotInt (cellBase db key p idx) (s.world n).data o).toInt ∧
      (slotInt (cellBase db key p idx) (s.world n).data o).toInt +
          sumOf (incsAt idx ((d o).left ((s.view d).cmd o))) ≤
        weight ((past.calls o).flatten ++ Repo.running called ((s.view d).cmd o)) := by
  obtain ⟨l, hLog, hSteps⟩ := (h.byEach o).cells
  obtain ⟨hPos, hPosLeft⟩ := AddedBy.steps_positive (h.positive o) hSteps idx
  have hLe := s.copies.last_le n (slotKey (cellBase db key p idx) o)
  have hVal := hKept.synced n _ (mine_cell (p := p) idx o).1
  have hLogIdx : s.copies.log (slotKey (cellBase db key p idx) o) = _ := hLog idx
  rw [hLogIdx, length_afterEach] at hLe
  rw [Copies.value, hLogIdx] at hVal
  have hPart := sumOf_take_le hPos (s.copies.last n (slotKey (cellBase db key p idx) o))
  have hNonneg : 0 ≤ sumOf ((incsAt idx (cmsSteps p (past.calls o).flatten ++ l)).take
      (s.copies.last n (slotKey (cellBase db key p idx) o))) :=
    sumOf_nonneg fun inc hInc => hPos inc (mem_of_mem_take hInc)
  have hAll : _ + sumOf (incsAt idx ((d o).left ((s.view d).cmd o))) ≤ _ :=
    AddedBy.sumOf_cell_le (h.positive o) hValid idx hSteps
  have hLeft : 0 ≤ sumOf (incsAt idx ((d o).left ((s.view d).cmd o))) := sumOf_nonneg hPosLeft
  have hBound := h.weight_lt ho
  rw [slotInt_numberOf sumOf_nil hLe hVal, toInt_ofInt_of_lt hNonneg (by omega)]
  exact ⟨hNonneg, by omega⟩

/-- Nothing overflows that a running command has still to add. -/
lemma fits (hValid : p.validate = .ok ()) (hCmd : (s.view d).cmd n = some c) (e : UInt64 × Int64)
    (he : e ∈ (d n).todo) : 0 ≤ ∑ o ∈ R, (slotInt (cellBase db key p e.1) (s.world n).data o).toInt ∧ ∑ o ∈ R,
    (slotInt (cellBase db key p e.1) (s.world n).data o).toInt + e.2.toInt < 2 ^ 63 := by
  refine ⟨Finset.sum_nonneg fun o ho => (h.cell_le hKept hValid n ho e.1).1, ?_⟩
  have hLe : ∑ o ∈ R, ((slotInt (cellBase db key p e.1) (s.world n).data o).toInt +
      sumOf (incsAt e.1 ((d o).left ((s.view d).cmd o)))) ≤ past.issued := by
    rw [h.sum]
    exact Finset.sum_le_sum fun o ho => (h.cell_le hKept hValid n ho e.1).2
  -- what is left at this replica has the increment
  have hOne : e.2.toInt ≤ sumOf (incsAt e.1 ((d n).left ((s.view d).cmd n))) := by
    obtain ⟨l, -, hSteps⟩ := (h.byEach n).cells
    obtain ⟨-, hPos⟩ := AddedBy.steps_positive (h.positive n) hSteps e.1
    refine le_sumOf_of_mem hPos ?_
    rw [left, hCmd]
    exact mem_map.mpr ⟨e, mem_filter.mpr ⟨he, by simp⟩, rfl⟩
  have hLeft := Finset.single_le_sum (f := fun o => sumOf (incsAt e.1 ((d o).left ((s.view d).cmd o))))
    (fun o _ => by
      obtain ⟨l, -, hSteps⟩ := (h.byEach o).cells
      exact sumOf_nonneg (AddedBy.steps_positive (h.positive o) hSteps e.1).2) (h.running n c hCmd)
  have hBound := h.bound
  rw [Finset.sum_add_distrib] at hLe
  omega

lemma trusts (hKey : key ≠ []) (hValid : p.validate = .ok ()) (hCmd : (s.view d).cmd n = some c) :
    CmsData db key p R (c.called.getD []) (d n).todo (s.world n).data where
  metas := hKept.metaSlots h.sketched n
  params := hKept.paramSlots h.sketched n
  cells := h.cellSlots hKept hKey n
  totals := h.totalSlots hKept n
  positive it hIt := by
    refine h.positive n it (mem_append_right _ ?_)
    rw [hCmd]
    exact hIt
  fits := h.fits hKept hValid hCmd

omit hKept

/-! ### Moves -/

variable {a : Net.Event (cmsService db key p)} {v : View (cmsService db key p) Adding}
  (hMove : s.Move db key (cmsRules db key p R) d a v)

include hMove

lemma cells_move : v.Logged (cellsBase db key p) fun k val => ∃ idx, ∃ o ∈ R, k =
    slotKey (cellBase db key p idx) o ∧ ∃ t, val = putI64 t := by
  refine h.cells.move hMove fun n c k val hCmd _ hMay hUnder => ?_
  obtain ⟨rfl, -⟩ | ⟨rfl, -⟩ | ⟨idx, inc, rest, -, rfl, rfl⟩ | ⟨items, -, -, -, rfl, -⟩ := hMay
  · exact absurd hUnder (not_under_cells_params n)
  · exact absurd hUnder (not_under_metaSlot db key (cmsTail p [.word .c]) n)
  · exact ⟨idx, n, h.running n c hCmd, rfl, _, rfl⟩
  · exact absurd hUnder (not_under_cells_total n)

lemma totals_move :
    v.Logged (totalBase db key p) fun k val => ∃ o ∈ R, k = slotKey (totalBase db key p) o ∧ ∃ t, val = putI64 t := by
  refine h.totals.move hMove fun n c k val hCmd _ hMay hUnder => ?_
  obtain ⟨rfl, -⟩ | ⟨rfl, -⟩ | ⟨idx, inc, rest, -, rfl, rfl⟩ | ⟨items, -, -, -, rfl, rfl⟩ := hMay
  · exact absurd hUnder (not_under_total_params n)
  · exact absurd hUnder (not_under_metaSlot db key (cmsTail p [.word .t]) n)
  · exact absurd hUnder (not_under_apart _ (by decide) [.cell idx] n)
  · exact ⟨n, h.running n c hCmd, rfl, _, rfl⟩

lemma sketched_move : v.Sketched db key skCMS p.encode := by
  refine h.sketched.move hMove fun n c own d k val hMay => ?_
  obtain hParams | hMeta | ⟨idx, inc, rest, -, rfl, -⟩ | ⟨items, -, -, -, rfl, -⟩ := hMay
  · exact .inl (.inl hParams)
  · exact .inl (.inr hMeta)
  · exact .inr ⟨not_under_dataSlot db key (cmsTail p [.word .c, .cell idx]) n,
      not_under_apart (sketchBase db key) (by simp) [.word .c, .cell idx] n⟩
  · exact .inr ⟨not_under_dataSlot db key (cmsTail p [.word .t]) n,
      not_under_apart (sketchBase db key) (by simp) [.word .t] n⟩

end Added.Sound

/-- **Every run.** -/
theorem Added.sound_of_reach (hKey : key ≠ []) (hValid : p.validate = .ok ()) (hLacks : ∀ n, Lacks (world n).data db key)
    {s : Traced (cmsService db key p) Added}
    (h : Reach (Traced.step db key (Added.watch CmsCmd.called))
      (Added.Admits (cmsService db key p) CmsCmd.called R) ⟨{ world }, {}⟩ s) :
    ∃ d, s.net.Kept db key (cmsRules db key p R) d ∧ Added.Sound db key p R s.past (s.net.view d) := by
  refine Rules.sound_of_reach (fun n c own => keeps_cms hKey hValid n c own) ?_ ?_ hLacks (fun _ => {}) ?_ h
  · intro s d past hKept hI n c hCmd
    exact hI.trusts hKept hKey hValid hCmd
  · intro s d a v hKept hI hK hMove
    refine ⟨hI.toCounts.move hMove hK, hI.sketched_move hMove, hI.opened.move hKept hMove ?_,
      hI.cells_move hMove, hI.totals_move hMove, (AddedBy.kept hKey R).move hI.byEach hMove⟩
    intro n c g out hCalled hPost
    cases c with
    | init => cases hCalled
    | incr items => exact hPost.2
  · exact ⟨.init _, .init _, fun _ hCalls => absurd rfl hCalls, fun _ _ _ hMem => (nomatch hMem),
      fun _ _ _ hMem => (nomatch hMem), fun n => ⟨⟨[], fun _ => rfl, rfl⟩, rfl⟩⟩

/-! ## Reading -/

namespace Added.Sound

section

variable (hKept : s.Kept db key (cmsRules db key p R) d) (h : Added.Sound db key p R past (s.view d)) (hKey : key ≠ [])
  (hValid : p.validate = .ok ()) {n : Replica} (hDelivered : s.Delivered db key n)

include hKept h hValid hDelivered

lemma exec_cmsOpen (hCalls : past.calls o ≠ []) :
    (cmsOpen ⟨n, db⟩ key).exec (s.world n) = (.ok (cmsViewAt db key p), s.world n) := by
  obtain ⟨hMeta, hParams⟩ := h.opened o hCalls
  rw [cmsOpen, read_bind (hKept.exec_open h.sketched hDelivered hMeta hParams)]
  show (cmsViewOf ⟨n, db⟩ key (paramsOf skCMS p.encode)).exec _ = _
  rw [cmsViewOf, show (paramsOf skCMS p.encode).raw = p.encode from rfl, decode_encode hValid]
  rfl

/-- A cell of a replica has what its calls have added. -/
lemma le_cell (ho : o ∈ R) (idx : UInt64) : sumOf (incsAt idx (cmsSteps p (past.calls o).flatten)) ≤
    (slotInt (cellBase db key p idx) (s.world n).data o).toInt ∧
    (slotInt (cellBase db key p idx) (s.world n).data o).toInt ≤
    weight ((past.calls o).flatten ++ Repo.running called ((s.view d).cmd o)) := by
  obtain ⟨l, hLog, hSteps⟩ := (h.byEach o).cells
  obtain ⟨hPos, hPosLeft⟩ := AddedBy.steps_positive (h.positive o) hSteps idx
  have hVal := hKept.of_delivered hDelivered (mine_cell (p := p) idx o).1
  rw [show s.copies.log (slotKey (cellBase db key p idx) o) = _ from hLog idx] at hVal
  have hAll := AddedBy.sumOf_cell_le (h.positive o) hValid idx hSteps
  have hLeft : 0 ≤ sumOf (incsAt idx ((d o).left ((s.view d).cmd o))) := sumOf_nonneg hPosLeft
  change _ + sumOf (incsAt idx ((d o).left ((s.view d).cmd o))) ≤ _ at hAll
  have hBound := h.weight_lt ho
  rw [slotInt_numberOf_all sumOf_nil hVal, toInt_ofInt_of_lt (sumOf_nonneg hPos) (by omega)]
  refine ⟨?_, by omega⟩
  rw [incsAt_append, sumOf_append]
  have hMore : 0 ≤ sumOf (incsAt idx l) := sumOf_nonneg fun inc hInc => hPos inc (by
    rw [incsAt_append]
    exact mem_append_right _ hInc)
  omega

/-- A cell of an item has at least what was added for it. -/
lemma freq_le_cell {idx : UInt64} (hIdx : idx ∈ p.cells item) : ∑ o ∈ R, freq item (past.calls o).flatten ≤
    (ofInt (∑ o ∈ R, (slotInt (cellBase db key p idx) (s.world n).data o).toInt)).toInt := by
  have hFreq : ∑ o ∈ R, freq item (past.calls o).flatten ≤
      ∑ o ∈ R, (slotInt (cellBase db key p idx) (s.world n).data o).toInt := by
    refine Finset.sum_le_sum fun o ho => ?_
    refine (freq_le_sumOf_incsAt hIdx fun it hIt => ?_).trans (h.le_cell hKept hValid hDelivered ho idx).1
    exact h.positive o it (mem_append_left _ hIt)
  have hNonneg : 0 ≤ ∑ o ∈ R, (slotInt (cellBase db key p idx) (s.world n).data o).toInt :=
    Finset.sum_nonneg fun o ho => (h.cell_le hKept hValid n ho idx).1
  have hLe : ∑ o ∈ R, (slotInt (cellBase db key p idx) (s.world n).data o).toInt ≤ past.issued := by
    rw [h.sum]
    exact Finset.sum_le_sum fun o ho => (h.le_cell hKept hValid hDelivered ho idx).2
  have hBound := h.bound
  rw [toInt_ofInt_of_lt hNonneg (by omega)]
  exact hFreq

omit hValid in
/-- The total of a replica, when no command runs. -/
lemma total_eq (hIdle : s.Idle) (ho : o ∈ R) :
    (slotInt (totalBase db key p) (s.world n).data o).toInt = weight (past.calls o).flatten := by
  have hNone : (s.view d).cmd o = none := congrArg (Option.map Sigma.fst) (hIdle o)
  have hVal := hKept.of_delivered hDelivered (mine_total (p := p) o).1
  have hLog : s.copies.log (slotKey (totalBase db key p) o) = _ := (h.byEach o).total
  rw [hNone, show ((s.view d).notes o).counted none = [] from rfl, append_nil] at hLog
  rw [hLog] at hVal
  have hNil : callsWeight [] = 0 := rfl
  have hNonneg := weight_nonneg (h.positive o)
  have hBound := h.weight_lt ho
  rw [Added.weight_of_idle hIdle past d o] at hNonneg hBound
  rw [slotInt_numberOf_all hNil hVal]
  exact toInt_ofInt_of_lt hNonneg hBound

/-- What `CMS.INFO` replies, when no command runs. -/
lemma exec_count (hCalls : past.calls o ≠ []) (hIdle : s.Idle) :
    ∃ count : Int64, ((cmsInfo ⟨n, db⟩ key).exec (s.world n)).1 = .ok (p.width, p.depth, count) ∧
    count.toInt = ∑ o ∈ R, weight (past.calls o).flatten := by
  have hSum : sumComponents ⟨n, db⟩ ((s.world n).data.entries (totalBase db key p)) = _ :=
    (h.totalSlots hKept n).sumComponents n db
  have hTotal : ((cmsViewAt db key p).total ⟨n, db⟩).exec (s.world n) = (.ok _, s.world n) :=
    exec_load (totalBase db key p) (sumComponents ⟨n, db⟩) (s.world n)
  rw [hSum, Finset.sum_congr rfl fun o ho => h.total_eq hKept hDelivered hIdle ho] at hTotal
  refine ⟨ofInt (∑ o ∈ R, weight (past.calls o).flatten), ?_, ?_⟩
  · rw [cmsInfo, read_bind (h.exec_cmsOpen hKept hValid hDelivered hCalls), read_bind hTotal]
    rfl
  · have hIssued : past.issued = ∑ o ∈ R, weight (past.calls o).flatten := by
      rw [h.sum]
      exact Finset.sum_congr rfl fun o _ => Added.weight_of_idle hIdle past d o
    have hNonneg : 0 ≤ ∑ o ∈ R, weight (past.calls o).flatten := by
      refine Finset.sum_nonneg fun o _ => ?_
      exact weight_nonneg fun it hIt => h.positive o it (mem_append_left _ hIt)
    have hBound := h.bound
    exact toInt_ofInt_of_lt hNonneg (by omega)

include hKey

/-- What `CMS.QUERY` replies for an item. -/
lemma exec_estimate (item : Bytes) :
    ∃ est : Int64, ReadM.exec (do
        let est ← (p.cells item).foldlM (fun est idx => do
          let (sum, _) ← (cmsViewAt db key p).cell ⟨n, db⟩ idx
          pure (min est sum)) maxValue
        pure (max est 0)) (s.world n) = (.ok est, s.world n) ∧
      ∑ o ∈ R, freq item (past.calls o).flatten ≤ est.toInt := by
  obtain ⟨cellSum, hCellSum⟩ : ∃ g : UInt64 → Int64, g = fun idx =>
      ofInt (∑ o ∈ R, (slotInt (cellBase db key p idx) (s.world n).data o).toInt) := ⟨_, rfl⟩
  have hRound : ∀ (est : Int64), ∀ idx ∈ p.cells item, ReadM.exec (do
      let (sum, _) ← (cmsViewAt db key p).cell ⟨n, db⟩ idx
      pure (min est sum)) (s.world n) = (.ok (min est (cellSum idx)), s.world n) := by
    intro est idx _
    have hSum : sumComponents ⟨n, db⟩ ((s.world n).data.entries (cellBase db key p idx)) = _ :=
      (h.cellSlots hKept hKey n idx).sumComponents n db
    have hCell : ((cmsViewAt db key p).cell ⟨n, db⟩ idx).exec (s.world n) = (.ok _, s.world n) :=
      exec_load (cellBase db key p idx) (sumComponents ⟨n, db⟩) (s.world n)
    rw [hSum] at hCell
    rw [read_bind hCell, hCellSum]
    rfl
  refine ⟨_, read_bind (Prog.run_foldlM _ hRound maxValue) _, ?_⟩
  have hCells : ∀ idx ∈ p.cells item, ∑ o ∈ R, freq item (past.calls o).flatten ≤ (cellSum idx).toInt := by
    intro idx hIdx
    rw [hCellSum]
    exact h.freq_le_cell hKept hValid hDelivered hIdx
  refine (le_foldl_min hCells ?_).trans (le_max_zero _)
  -- there is a row
  obtain ⟨idx, hIdx⟩ := exists_mem_cells hValid item
  have hLe := hCells idx hIdx
  have hLt := (cellSum idx).toInt_lt
  rw [toInt_maxValue]
  omega

end

end Added.Sound

end

/-- **Count-min never undercounts.** In every run of `CMS.INITBYDIM` and `CMS.INCRBY` on one
key at the replicas in `R`, all with the same dimensions, where the increments are positive
and total less than 2^63: a replica where everything has arrived estimates an item at no less
than what the successful calls have added for it anywhere. When no command runs, it counts
exactly what they have added altogether. -/
theorem cms_estimates {db : Int64} {key : Bytes} {p : CmsParams} {R : Finset Replica} (hKey : key ≠ [])
    (hValid : p.validate = .ok ()) {world : Replica → World} (hLacks : ∀ n, Lacks (world n).data db key)
    {s : Traced (cmsService db key p) Added}
    (h : Reach (Traced.step db key (Added.watch CmsCmd.called))
      (Added.Admits (cmsService db key p) CmsCmd.called R) ⟨{ world }, {}⟩ s)
    {n : Replica} (hDelivered : s.net.Delivered db key n) (hSome : ∃ o, s.past.calls o ≠ []) :
    (∀ items, ∃ ests, ((cmsQuery ⟨n, db⟩ key items).exec (s.net.world n)).1 = .ok ests ∧
      List.Forall₂ (fun item est => ∑ o ∈ R, freq item (s.past.calls o).flatten ≤ est.toInt) items ests) ∧
    (s.net.Idle → ∃ count : Int64, ((cmsInfo ⟨n, db⟩ key).exec (s.net.world n)).1 = .ok (p.width, p.depth, count) ∧
      count.toInt = ∑ o ∈ R, weight (s.past.calls o).flatten) := by
  obtain ⟨d, hKept, hd⟩ := Added.sound_of_reach hKey hValid hLacks h
  obtain ⟨o, hCalls⟩ := hSome
  refine ⟨fun items => ?_, hd.exec_count hKept hValid hDelivered hCalls⟩
  choose est hExec hLe using fun item => hd.exec_estimate hKept hKey hValid hDelivered item
  refine ⟨items.map est, ?_, forall₂_map_right_iff.mpr (forall₂_same.mpr fun item _ => hLe item)⟩
  rw [cmsQuery, read_bind (hd.exec_cmsOpen hKept hValid hDelivered hCalls)]
  exact congrArg Prod.fst (Prog.run_mapM _ fun item _ => hExec item)

/-- Two cells in one row. -/
private def dims : CmsParams := ⟨2, 1⟩

open Net.Event in
/-- One replica makes the sketch; both add to it, and the second one hears of the first. -/
private def estimating : List (Net.Event (cmsService 0 [107] dims)) :=
  Net.running east CmsCmd.init 7 ++ [finish east, receive west (slotKey (metaBase 0 [107]) east) 0,
      receive west (slotKey (sketchParamsBase 0 [107]) east) 0] ++
    Net.running east (CmsCmd.incr [([97], 3)]) 9 ++ Net.running west (CmsCmd.incr [([97], 4), ([98], 1)]) 11 ++
    [finish west, finish east, receive west (slotKey (cellBase 0 [107] dims 1) east) 0,
      receive west (slotKey (totalBase 0 [107] dims) east) 0]

private def estimated : List Path :=
  [slotKey (metaBase 0 [107]) east, slotKey (sketchParamsBase 0 [107]) east,
    slotKey (cellBase 0 [107] dims 1) east, slotKey (totalBase 0 [107] dims) east,
    slotKey (cellBase 0 [107] dims 1) west, slotKey (cellBase 0 [107] dims 0) west,
    slotKey (totalBase 0 [107] dims) west]

/-- An item that both have added to. -/
theorem cms_estimates_pair :
    ∃ s, Reach (Traced.step 0 [107] (Added.watch CmsCmd.called))
        (Added.Admits (cmsService 0 [107] dims) CmsCmd.called {east, west}) ⟨{ world := fun _ => .fresh }, {}⟩ s ∧
      s.past.calls east = [[([97], 3)]] ∧ s.past.calls west = [[([97], 4), ([98], 1)]] ∧
      s.net.Delivered 0 [107] west ∧
      ∃ ests, ((cmsQuery ⟨west, 0⟩ [107] [[97]]).exec (s.net.world west)).1 = .ok ests ∧
        List.Forall₂ (fun item est => ∑ o ∈ {east, west}, freq item (s.past.calls o).flatten ≤ est.toInt) [[97]] ests := by
  obtain ⟨s, hPuts, hEast, hWest, hAll⟩ : ∃ s, Reach (Traced.step 0 [107] (Added.watch called))
      (fun s a => Added.Admits (cmsService 0 [107] dims) called {east, west} s a ∧ PutsIn estimated s.net a)
      ⟨{ world := fun _ => .fresh }, {}⟩ s ∧
      s.past.calls east = [[([97], 3)]] ∧ s.past.calls west = [[([97], 4), ([98], 1)]] ∧
        ∀ k ∈ estimated, s.net.copies.got west k = Finset.range (s.net.copies.log k).length :=
    Reach.of_eval estimating (by decide +kernel)
  have hReach := hPuts.mono fun _ _ hBoth => hBoth.1
  have hDelivered := Net.delivered_of_putsIn hPuts hAll
  exact ⟨s, hReach, hEast, hWest, hDelivered, (cms_estimates (by decide) (by decide)
    (fun _ => World.lacks_fresh 0 [107]) hReach hDelivered ⟨east, by simp [hEast]⟩).1 [[97]]⟩

end RedGeo.Repo
