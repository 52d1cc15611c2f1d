import RedGeo.Repo.Counters

/-!
# RedGeo — `INCRBY` at the limits of `int64`

A counter is the sum of the components of the replicas. `incrInt` adds the delta to its
own component and then adds up all of them, both in `int64`, and checks neither sum.

* `exec_incr` — what `INCRBY` returns and stores, whatever the components are.
* `incr_exact_iff` — it is exact as long as neither sum leaves the range.
-/

namespace RedGeo.Repo

open Lib Store Int64 Finset

/-! ## Statement -/

/-- The range of `int64`. -/
def InInt64 (n : Int) : Prop := -2 ^ 63 ≤ n ∧ n < 2 ^ 63

instance (n : Int) : Decidable (InInt64 n) := inferInstanceAs (Decidable (_ ∧ _))

/-- The component of a replica as an integer. -/
def componentInt (db : Int64) (key : Bytes) (data : Datastore) (o : Replica) : Int :=
  (componentAt db key data o).elim 0 Int64.toInt

/-- The exact sum of the components. -/
def exactSum (db : Int64) (key : Bytes) (R : Finset Replica) (data : Datastore) : Int :=
  ∑ o ∈ R, componentInt db key data o

/-- A key that `INCRBY` takes for a counter: there are no metadata, or those of a counter, and
the components are numbers of replicas in `R`. -/
structure CounterState (r : Db) (key : Bytes) (R : Finset Replica) (w : World) : Prop where
  self : r.self ∈ R
  counted : Counted r.num key R w.data
  marked : metaAt w.data r key = none ∨
    ∃ etimeMS mtime, metaAt w.data r key = some (Kind.counter.envelope etimeMS, mtime)

/-- **`INCRBY` is exact**: it returns the sum of all components and the delta and that is then
the sum of the components; or it fails, the components are as before, and the sum or the own
component would leave the range of `int64`. -/
def IncrExact (r : Db) (key : Bytes) (R : Finset Replica) (delta : Int64) (w : World) : Prop :=
  let out := exec ((Method.str (.incr key delta)).program r) w
  let sum := exactSum r.num key R w.data + delta.toInt
  (∃ total : Int64, out.1 = .ok total ∧ total.toInt = sum ∧ exactSum r.num key R out.2.data = sum) ∨
  ((∃ e, out.1 = .error e) ∧ (∀ o, componentAt r.num key out.2.data o = componentAt r.num key w.data o) ∧
    ¬ (InInt64 sum ∧ InInt64 (componentInt r.num key w.data r.self + delta.toInt)))

/-! ## What `INCRBY` does -/

section

variable {r : Db} {key : Bytes} {R : Finset Replica} {w : World}

/-- The data after `INCRBY`: the component and the metadata of the replica are put. -/
def incremented (r : Db) (key : Bytes) (mine : Int64) (v : Bytes) (data : Datastore) : Datastore :=
  (data.insert (counterSlot r.num key r.self) (formatInt mine.toInt)).insert
    (slotKey (metaBase r.num key) r.self) v

lemma componentAt_incremented (mine : Int64) (v : Bytes) (data : Datastore) (o : Replica) :
    componentAt r.num key (incremented r key mine v data) o = if o =
    r.self then some mine else componentAt r.num key data o := by
  unfold componentAt incremented
  rw [Table.lookup_insert, if_neg (counterSlot_ne_meta r.num key o r.self).symm, Table.lookup_insert]
  by_cases ho : o = r.self
  · rw [if_pos ho, if_pos (by rw [ho]), Option.bind_some, parseInt_formatInt]
  · rw [if_neg ho, if_neg fun hEq => ho (slotKey_injective _ hEq.symm)]

/-- `counterFlavor` accepts the key. -/
lemma exec_counterFlavorCheck (h : metaAt w.data r key = none ∨
    ∃ etimeMS mtime, metaAt w.data r key = some (Kind.counter.envelope etimeMS, mtime)) :
    ∃ w', (counterFlavorCheck r key flavorCounter).exec w = (.ok (), w') ∧ w'.data = w.data := by
  have hData : (w.probed r key).data = w.data := by
    unfold World.probed
    split
    · split <;> rfl
    · rfl
  refine ⟨w.probed r key, ?_, hData⟩
  rw [counterFlavorCheck, read_bind (exec_probe r key w)]
  rcases h with hNone | ⟨etimeMS, mtime, hMeta⟩
  · simp only [probeAt, hNone]
    rfl
  · -- an expired counter, or one without components, is a new key
    cases hProbe : probeAt r key w.data (w.now 0) with
    | none => rfl
    | some k =>
      have hType : k.type = typeString := by
        rw [probeAt, hMeta] at hProbe
        simp only at hProbe
        split at hProbe
        · cases hProbe
        · split at hProbe
          · obtain rfl := Option.some.inj hProbe
            rfl
          · cases hProbe
      have hFlavor : (flavorOf r key).exec (w.probed r key) =
          (.ok (Kind.counter.envelope etimeMS), w.probed r key) := by
        refine (read_bind (exec_readMeta r key _) _).trans ?_
        rw [hData, hMeta]
        rfl
      simp only [hType, ne_eq, not_true_eq_false, if_false]
      rw [read_bind hFlavor]
      rfl

lemma exec_keepETime (r : Db) (key : Bytes) (w : World) :
    ∃ etimeMS, (keepETime r key).exec w = (.ok etimeMS, w) := by
  cases hMeta : metaAt w.data r key with
  | none => exact ⟨0, (read_bind (exec_readMeta r key w) _).trans (by rw [hMeta]; rfl)⟩
  | some found =>
    exact ⟨found.1.etimeMS, (read_bind (exec_readMeta r key w) _).trans (by rw [hMeta]; rfl)⟩

/-- **What `INCRBY` returns and stores**: the delta is added to the own component it has
read, and the others that it has read to that. -/
theorem exec_incr (h : CounterState r key R w) (delta : Int64) : ∃ v,
      let comps := intComponents (counterBase r.num key) (w.data.entries (counterBase r.num key))
      let mine := (comps.lookup r.self.name).getD 0 + delta
      let out := exec ((Method.str (.incr key delta)).program r) w
      out.1 = .ok (sumInt (comps.filter fun c => c.1 ≠ r.self.name) + mine) ∧
        out.2.data = incremented r key mine v w.data := by
  obtain ⟨w₁, hFlavor, hData⟩ := exec_counterFlavorCheck h.marked
  obtain ⟨etimeMS, hTime⟩ := exec_keepETime r key w₁
  have hLoad : (counterComponentsInt r key).exec w₁ = (.ok (compsIn r.num key w.data), w₁) := by
    rw [← hData]
    exact exec_load (counterBase r.num key) (intComponents (counterBase r.num key)) w₁
  refine ⟨encodeSlot ⟨w₁.clock.now.1, tagPresent, encodeMeta (Kind.counter.envelope etimeMS)⟩, ?_⟩
  have hExec : exec ((Method.str (.incr key delta)).program r) w =
      KeyM.exec r key (incrInt r key delta etimeMS) w₁ := by
    refine (exec_locked r key (strIncr r key delta) w).trans ?_
    rw [strIncr, KeyM.exec_read hFlavor, KeyM.exec_read hTime]
  simp only [hExec, incrInt, KeyM.exec_read hLoad]
  exact ⟨rfl, by rw [← hData]; rfl⟩

lemma toInt_ofInt_iff (n : Int) : (ofInt n).toInt = n ↔ InInt64 n := by
  constructor
  · intro hEq
    have hLow := (ofInt n).le_toInt
    have hHigh := (ofInt n).toInt_lt
    rw [hEq] at hLow hHigh
    exact ⟨hLow, hHigh⟩
  · rintro ⟨hLow, hHigh⟩
    exact toInt_ofInt_of_le hLow hHigh

/-- The sum after the own component has become `mine`. -/
lemma exactSum_incremented (key : Bytes) (hSelf : r.self ∈ R) (mine : Int64) (v : Bytes) (data : Datastore) :
    exactSum r.num key R (incremented r key mine v data) =
    exactSum r.num key R data - componentInt r.num key data r.self + mine.toInt := by
  have hOthers : ∑ o ∈ R.erase r.self, componentInt r.num key (incremented r key mine v data) o =
      ∑ o ∈ R.erase r.self, componentInt r.num key data o := by
    refine sum_congr rfl fun o ho => ?_
    rw [componentInt, componentAt_incremented, if_neg (ne_of_mem_erase ho)]
    rfl
  have hOwn : componentInt r.num key (incremented r key mine v data) r.self = mine.toInt := by
    rw [componentInt, componentAt_incremented, if_pos rfl]
    rfl
  have hBefore := add_sum_erase R (componentInt r.num key data) hSelf
  have hAfter := add_sum_erase R (componentInt r.num key (incremented r key mine v data)) hSelf
  rw [hOwn, hOthers] at hAfter
  unfold exactSum
  omega

/-- The components of the key with the empty name are not found: the prefix that is cut off
has an empty segment, and the paths do not. -/
lemma intComponents_unnamed (h : Counted r.num [] R w.data) :
    intComponents (counterBase r.num []) (w.data.entries (counterBase r.num [])) = [] := by
  have hNone : (w.data.entries (counterBase r.num [])).filterMap
      (intComponent (counterBase r.num [])) = [] := by
    rw [List.filterMap_eq_nil_iff]
    intro e he
    obtain ⟨hv, hUnder⟩ := Datastore.mem_entries.mp he
    obtain ⟨o, -, hSlot, -⟩ := h e.1 e.2 hUnder hv
    have hTrim : trimPrefix (counterBase r.num []) e.1 =
        [part r.num [], .word .d, .db r.num, .word .c, .enc o.name] := by
      have hPath : e.1 = [part r.num [], .word .d, .db r.num, .word .c, .enc o.name] := by
        rw [hSlot]
        simp [counterSlot, slotKey, counterBase, dataBase, Store.part, newKey_enc, o.nonempty]
      rw [trimPrefix, if_neg, hPath]
      rw [hPath]
      simp [counterBase, dataBase]
    rw [intComponent, hTrim]
    cases parseInt e.2 <;> rfl
  rw [intComponents, hNone]
  rfl

end

/-! ## The result -/

/-- When `INCRBY` is exact. The key with the empty name starts from nothing every time. -/
def IncrFits (r : Db) (key : Bytes) (R : Finset Replica) (delta : Int64) (w : World) : Prop :=
  if key = [] then componentInt r.num key w.data r.self = 0 ∧ exactSum r.num key R w.data = 0
  else InInt64 (componentInt r.num key w.data r.self + delta.toInt) ∧
    InInt64 (exactSum r.num key R w.data + delta.toInt)

lemma componentInt_eq (db : Int64) (key : Bytes) (data : Datastore) (o : Replica) :
    componentInt db key data o = ((componentAt db key data o).getD 0).toInt := by
  unfold componentInt
  cases componentAt db key data o <;> rfl

variable {R : Finset Replica}

/-- What has to be compared, given what `INCRBY` returns and stores. -/
lemma incrExact_iff_of_exec {r : Db} {key : Bytes} {w : World} {delta total mine : Int64} {v : Bytes}
    (hSelf : r.self ∈ R) (hOut : (exec ((Method.str (.incr key delta)).program r) w).1 = .ok total)
    (hData : (exec ((Method.str (.incr key delta)).program r) w).2.data = incremented r key mine v w.data) :
    IncrExact r key R delta w ↔ total.toInt = exactSum r.num key R w.data + delta.toInt ∧ mine.toInt =
    componentInt r.num key w.data r.self + delta.toInt := by
  have hSum := exactSum_incremented key hSelf mine v w.data
  rw [← hData] at hSum
  constructor
  · rintro (⟨total', hTotal, hExact, hStored⟩ | ⟨⟨e, he⟩, _⟩)
    · obtain rfl : total = total' := Except.ok.inj (hOut.symm.trans hTotal)
      exact ⟨hExact, by omega⟩
    · rw [hOut] at he
      cases he
  · rintro ⟨hExact, hStored⟩
    exact .inl ⟨total, hOut, hExact, by omega⟩

/-- With the empty name nothing is found, so that the delta is returned and stored. -/
lemma incrExact_iff_unnamed {r : Db} {w : World} (delta : Int64) (h : CounterState r [] R w) :
    IncrExact r [] R delta w ↔ componentInt r.num [] w.data r.self = 0 ∧ exactSum r.num [] R w.data = 0 := by
  obtain ⟨v, hOut, hData⟩ := exec_incr h delta
  have hTotal : sumInt (([] : List (Bytes × Int64)).filter fun c => c.1 ≠ r.self.name) +
      (((([] : List (Bytes × Int64)).lookup r.self.name).getD 0) + delta) = delta := by
    simp [sumInt]
  have hMine : ((([] : List (Bytes × Int64)).lookup r.self.name).getD 0) + delta = delta := by
    simp
  rw [incrExact_iff_of_exec h.self hOut hData, intComponents_unnamed h.counted, hTotal, hMine]
  omega

/-- Otherwise both sums are exact up to a multiple of `2 ^ 64`. -/
lemma incrExact_iff_named {r : Db} {key : Bytes} {w : World} (delta : Int64) (hKey : key ≠ [])
    (h : CounterState r key R w) :
    IncrExact r key R delta w ↔ InInt64 (componentInt r.num key w.data r.self + delta.toInt) ∧
    InInt64 (exactSum r.num key R w.data + delta.toInt) := by
  obtain ⟨v, hOut, hData⟩ := exec_incr h delta
  have hMine : (componentAt r.num key w.data r.self).getD 0 + delta =
      ofInt (componentInt r.num key w.data r.self + delta.toInt) := by
    rw [componentInt_eq, ofInt_add, ofInt_toInt, ofInt_toInt]
  have hOthers : ∑ o ∈ R.erase r.self, (componentAt r.num key w.data o).elim 0 toInt =
      exactSum r.num key R w.data - componentInt r.num key w.data r.self := by
    rw [exactSum, ← add_sum_erase R (componentInt r.num key w.data) h.self]
    exact (add_sub_cancel_left _ _).symm
  have hTotal : exactSum r.num key R w.data - componentInt r.num key w.data r.self +
      (componentInt r.num key w.data r.self + delta.toInt) =
      exactSum r.num key R w.data + delta.toInt := by
    omega
  rw [incrExact_iff_of_exec h.self hOut hData, h.counted.lookup hKey, h.counted.sum_others hKey, and_comm,
    hMine, hOthers, ← ofInt_add, hTotal, toInt_ofInt_iff, toInt_ofInt_iff]

/-- **`INCRBY` is exact** just as long as neither the own component nor the sum of all leaves
the range of `int64`; it never fails. -/
theorem incr_exact_iff {r : Db} {key : Bytes} {R : Finset Replica} {w : World} (delta : Int64)
    (h : CounterState r key R w) : IncrExact r key R delta w ↔ IncrFits r key R delta w := by
  unfold IncrFits
  by_cases hKey : key = []
  · subst hKey
    rw [if_pos rfl]
    exact incrExact_iff_unnamed delta h
  · rw [if_neg hKey]
    exact incrExact_iff_named delta hKey h

section

variable (r : Db) (key : Bytes) (t : Int64)

/-- A node that stores one component of a counter, its own. -/
private def singleCounter : World where
  data := (∅ : Datastore).insert (counterSlot r.num key r.self) (formatInt t.toInt)
  clock := { wall := fun _ => 0 }
  now _ := 0

private lemma componentAt_single : componentAt r.num key (singleCounter r key t).data r.self = some t := by
  rw [componentAt, singleCounter, Table.lookup_insert, if_pos rfl, Option.bind_some, parseInt_formatInt]

private lemma counterState_single : CounterState r key {r.self} (singleCounter r key t) := by
  have hOnly : ∀ k v, (singleCounter r key t).data[k]? = some v →
      k = counterSlot r.num key r.self ∧ v = formatInt t.toInt := by
    intro k v hv
    rw [singleCounter, Table.lookup_insert] at hv
    split at hv
    · next hk => exact ⟨hk.symm, (Option.some.inj hv).symm⟩
    · simp at hv
  refine ⟨mem_singleton_self _, fun k v _ hv => ?_, .inl ?_⟩
  · obtain ⟨hk, hv'⟩ := hOnly k v hv
    exact ⟨r.self, mem_singleton_self _, hk, t, hv'⟩
  · -- there are no metadata
    have hNone : (singleCounter r key t).data.entries (metaBase r.num key) = [] := by
      refine List.eq_nil_iff_forall_not_mem.mpr fun e he => ?_
      obtain ⟨hv, hPrefix, -⟩ := Datastore.mem_entries.mp he
      rw [(hOnly e.1 e.2 hv).1] at hPrefix
      simp [metaBase, counterSlot, slotKey, counterBase, dataBase, Store.part] at hPrefix
    rw [metaAt, slotsAt_eq_nil hNone]
    rfl

private lemma componentInt_single : componentInt r.num key (singleCounter r key t).data r.self = t.toInt := by
  rw [componentInt, componentAt_single]
  rfl

end

theorem incr_exact_iff_eight : let r : Db := ⟨.named 97, 0⟩
    ∃ w : World, componentAt r.num [107] w.data r.self = some 5 ∧
      CounterState r [107] {r.self} w ∧ IncrExact r [107] {r.self} 3 w := by
  intro r
  have hState := counterState_single r [107] 5
  refine ⟨singleCounter r [107] 5, componentAt_single r [107] 5, hState, (incr_exact_iff 3 hState).mpr ?_⟩
  rw [IncrFits, if_neg (by decide), exactSum, sum_singleton, componentInt_single]
  decide

/-- One more than the largest number: the sum wraps around. -/
theorem incr_wraps : let r : Db := ⟨.named 97, 0⟩
    ∃ w : World, componentAt r.num [107] w.data r.self = some 9223372036854775807 ∧
      CounterState r [107] {r.self} w ∧ ¬ IncrExact r [107] {r.self} 1 w := by
  intro r
  have hState := counterState_single r [107] 9223372036854775807
  refine ⟨singleCounter r [107] 9223372036854775807, componentAt_single r [107] _, hState, fun hExact => ?_⟩
  have hFits := (incrExact_iff_named 1 (by decide) hState).mp hExact
  rw [componentInt_single] at hFits
  exact absurd hFits.1 (by decide)

end RedGeo.Repo
