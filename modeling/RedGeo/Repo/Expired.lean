import RedGeo.Repo.Keyspace
import RedGeo.Repo.Reading

/-!
# RedGeo — expired keys that have not been swept

Until the sweeper has been there, the entries of an expired key are still stored.
`probe` does not find the key any more, and the commands that stop at it reply as if
it were absent. The others go on to read what is stored.

* `Reading.Hidden` — when there is nothing that a command would show.
* `expired_reads` — an expired key looks absent exactly then.
-/

namespace RedGeo.Repo

open Lib Store List Reading World

/-- How many members a range takes, at most 0 if none. -/
def RangeBy.width (items : List ZItem) : RangeBy → Int
  | .score lo hi => items.countP fun it => lo.le it.2 && it.2.le hi
  | .rank start stop =>
    min (items.length - 1 : Int) (normIndex stop items.length) + 1 - max 0 (normIndex start items.length)
  | .all => items.length

namespace Reading

/-- A command would show nothing of what is stored for the key. Ranges and indexes are compared
with the number of elements alone. -/
def Hidden (r : Db) (key : Bytes) (data : Datastore) : Reading → Prop
  | hget field =>
    data.entries (hashFieldCounterBase r.num key field) = [] ∧ fieldAt r key data field = none
  | hmget fields => ∀ f ∈ fields, fieldAt r key data f = none
  | hgetall | hlen => fieldsAt r key data = []
  | smembers | scard => membersAt r key data = []
  | sismember elem => setMember r.num key elem ∉ data
  | zscore elem => scoreAt r key data elem = none
  | zrange opts _ => opts.range.width (sortItems (scoresAt r key data)) ≤ max 0 opts.offset
  | zcard => scoresAt r key data = []
  | lrange start stop =>
    let (lo, hi) := rangeBounds start stop (elementsAt r key data).length
    hi < lo
  | llen => elementsAt r key data = []
  | lindex idx =>
    let i := absIndex idx (elementsAt r key data).length
    i < 0 ∨ (elementsAt r key data).length ≤ i
  | get | strlen | getbit _ | xrange _ _ _ _ | jsonGet _ | bfExists _ _ | cmsQuery _ | topkCount _ =>
    True

end Reading

section

variable {r : Db} {key : Bytes} {data' : Datastore} (h : Lacks data' r.num key)
include h

lemma fieldsAt_lacks : fieldsAt r key data' = [] := by
  rw [fieldsAt, hashBase, h.entries_data]
  rfl

lemma fieldAt_lacks (field : Bytes) : fieldAt r key data' field = none := by
  rw [fieldAt, hashFieldBase, hashBase, append_assoc, slotsAt_eq_nil (h.entries_data _)]
  rfl

lemma entries_fieldCounter_lacks (field : Bytes) :
    data'.entries (hashFieldCounterBase r.num key field) = [] := by
  rw [hashFieldCounterBase, hashFieldBase, hashBase, append_assoc, append_assoc]
  exact h.entries_data _

lemma membersAt_lacks : membersAt r key data' = [] := by
  rw [membersAt, setBase, h.entries_data, memberNames, filterMap_nil, sortBytes, mergeSort_nil]

lemma not_mem_lacks (elem : Bytes) : setMember r.num key elem ∉ data' := by
  have hUnder : Under (dataBase r.num key) (setMember r.num key elem) := by
    have hAppend : setMember r.num key elem = newKey (dataBase r.num key) ++ .word .e :: newKey [.enc elem] := by
      simp [setMember, setBase, newKey, filter_append]
    exact ⟨hAppend ▸ prefix_append _ _, by rw [hAppend]; simp⟩
  rw [← Std.ExtTreeMap.isSome_getElem?_iff_mem, h _ (.inr hUnder)]
  exact Bool.false_ne_true

lemma scoresAt_lacks : scoresAt r key data' = [] := by
  rw [scoresAt, zsetBase, h.entries_data]
  rfl

lemma scoreAt_lacks (elem : Bytes) : scoreAt r key data' elem = none := by
  rw [scoreAt, zsetMemberBase, zsetBase, append_assoc, slotsAt_eq_nil (h.entries_data _)]
  rfl

lemma elementsAt_lacks : elementsAt r key data' = [] := by
  rw [elementsAt, listBase, h.entries_data, listEntries, filterMap_nil, mergeSort_nil]

end

/-! ## What is shown -/

lemma applyRange_eq_nil_iff (items : List ZItem) (opts : RangeOpts) :
    applyRange items opts = [] ↔ opts.range.width items ≤ max 0 opts.offset := by
  have hWidth : (selectRange items opts.range).length = max 0 (opts.range.width items) := by
    cases opts.range with
    | score => simp [selectRange, RangeBy.width, countP_eq_length_filter]
    | all => simp [selectRange, RangeBy.width]
    | rank start stop =>
      simp only [selectRange, RangeBy.width, apply_ite length, length_take, length_drop, length_nil]
      split_ifs <;> omega
  simp only [applyRange, ← length_eq_zero_iff, apply_ite length, length_take, length_drop, length_reverse]
  split_ifs <;> omega

lemma slice_eq_nil_iff (es : List ListEntry) (start stop : Int) :
    slice es start stop = [] ↔ (rangeBounds start stop es.length).2 < (rangeBounds start stop es.length).1 := by
  have hBounds : 0 ≤ (rangeBounds start stop es.length).1 ∧ (rangeBounds start stop es.length).2 < es.length := by
    simp only [rangeBounds]
    split_ifs <;> simp
    omega
  simp only [slice, ← length_eq_zero_iff, apply_ite length, length_nil, length_take, length_drop]
  split_ifs <;> omega

lemma entryAt_eq_none_iff (es : List ListEntry) (idx : Int) :
    entryAt es idx = none ↔ absIndex idx es.length < 0 ∨ es.length ≤ absIndex idx es.length := by
  simp only [entryAt]
  split_ifs <;> simp <;> omega

lemma applyRange_nil (opts : RangeOpts) : applyRange [] opts = [] := by
  have hSelect : selectRange [] opts.range = [] := by
    cases opts.range <;> simp [selectRange]
  simp [applyRange, hSelect]

lemma writeItems_eq_nil_iff (items : List ZItem) (withScores : Bool) :
    writeItems items withScores = .array [] ↔ items = [] := by
  cases items with
  | nil => simp [writeItems]
  | cons it items => cases withScores <;> simp [writeItems]

variable {key : Bytes}

/-- A reply is that for an absent key if and only if there is nothing to show. -/
lemma unseen_eq_iff {r : Db} {data data' : Datastore} (h : Lacks data' r.num key) (c : Reading) :
    c.unseen r key data = c.unseen r key data' ↔ c.Hidden r key data := by
  cases c with
  | hget field =>
    simp only [unseen, Reading.Hidden, entries_fieldCounter_lacks h, fieldAt_lacks h]
    cases hEntries : data.entries (hashFieldCounterBase r.num key field) with
    | nil => cases fieldAt r key data field <;> simp
    | cons e es => simp
  | hmget fields =>
    simp only [unseen, Reading.Hidden, fieldAt_lacks h]
    simp only [Except.ok.injEq, Output.array.injEq, map_inj_left]
    refine forall₂_congr fun f _ => ?_
    cases fieldAt r key data f <;> simp
  | hgetall =>
    simp only [unseen, Reading.Hidden, fieldsAt_lacks h]
    cases fieldsAt r key data <;> simp
  | hlen => simp [unseen, Reading.Hidden, fieldsAt_lacks h]
  | smembers => simp [unseen, Reading.Hidden, membersAt_lacks h]
  | scard => simp [unseen, Reading.Hidden, membersAt_lacks h]
  | sismember elem =>
    simp only [unseen, Reading.Hidden, Except.ok.injEq]
    have hAbsent : data'.contains (setMember r.num key elem) = false := by
      rw [← Bool.not_eq_true, Std.ExtTreeMap.contains_iff_mem]
      exact not_mem_lacks h elem
    rw [hAbsent, ← Std.ExtTreeMap.contains_iff_mem]
    cases data.contains (setMember r.num key elem) <;> simp [Output.bool]
  | zscore elem =>
    simp only [unseen, Reading.Hidden, scoreAt_lacks h]
    cases scoreAt r key data elem <;> simp
  | zrange opts withScores =>
    simp only [unseen, Reading.Hidden, scoresAt_lacks h, Except.ok.injEq]
    have hNone : writeItems (applyRange (sortItems []) opts) withScores = .array [] := by
      rw [writeItems_eq_nil_iff, sortItems, mergeSort_nil, applyRange_nil]
    rw [hNone, writeItems_eq_nil_iff, applyRange_eq_nil_iff]
  | zcard => simp [unseen, Reading.Hidden, scoresAt_lacks h]
  | lrange start stop =>
    simp only [unseen, Reading.Hidden, elementsAt_lacks h, ← slice_eq_nil_iff]
    simp [slice]
  | llen => simp [unseen, Reading.Hidden, elementsAt_lacks h]
  | lindex idx =>
    simp only [unseen, Reading.Hidden, elementsAt_lacks h, ← entryAt_eq_none_iff,
      show entryAt [] idx = none by simp [entryAt]]
    cases entryAt (elementsAt r key data) idx <;> simp
  | _ => exact iff_of_true rfl trivial

/-! ## `PFCOUNT`

It may name other keys, whose own expiries are checked as well. To compare two runs of
it, the clock stands still. -/

section

variable (r : Db) (key : Bytes)

/-- The sketch that `PFCOUNT` takes from a key. -/
def sketchAt (data : Datastore) : Sketch :=
  (hllView r (hllBase r.num key) (data.entries (hllBase r.num key))).merged

/-- What `hllCheck` says at a time. -/
def hllCheckAt (data : Datastore) (now : Int64) : Except Err Int64 :=
  match probeAt r key data now with
  | none => .ok 0
  | some k =>
    let m := (metaAt data r key).elim (⟨0, 0, 0, 0⟩ : MetaEnvelope) Prod.fst
    if k.type ≠ typeString ∨ ¬ isHLL m.flavor then .error .keyType else .ok m.etimeMS

lemma exec_hllCheck (w : World) :
    (hllCheck r key).exec w = (hllCheckAt r key w.data (w.now 0), w.probed r key) := by
  refine (read_bind (exec_probe r key w) _).trans ?_
  rw [hllCheckAt]
  cases probeAt r key w.data (w.now 0) with
  | none => rfl
  | some k =>
    have hMeta := exec_readMeta r key (w.probed r key)
    rw [data_probed] at hMeta
    refine (read_bind hMeta _).trans ?_
    simp only
    split <;> rfl

end

section

variable {r : Db} {w : World} (hStill : ∀ i, w.now i = w.now 0)

include hStill in
lemma probed_of_still (key : Bytes) : w.probed r key = w := by
  have hLater : w.later = w := by
    have hNow : (fun i => w.now (i + 1)) = w.now := funext fun i => (hStill _).trans (hStill i).symm
    rw [later, hNow]
  rw [probed]
  split
  · split
    · exact hLater
    · rfl
  · rfl

include hStill in
/-- One round of the loop over the keys. -/
lemma exec_hllRound (key : Bytes) (acc : Sketch) : ReadM.exec (do
      let _ ← hllCheck r key
      let view ← hllLoad r key
      pure (acc.merge view.merged)) w =
      ((hllCheckAt r key w.data (w.now 0)).map fun _ => acc.merge (sketchAt r key w.data), w) := by
  have hCheck := exec_hllCheck r key w
  rw [probed_of_still hStill] at hCheck
  cases hOut : hllCheckAt r key w.data (w.now 0) with
  | error e =>
    rw [hOut] at hCheck
    exact read_bind_error hCheck _
  | ok etime =>
    rw [hOut] at hCheck
    have hLoad : (hllLoad r key).exec w =
        (.ok (hllView r (hllBase r.num key) (w.data.entries (hllBase r.num key))), w) :=
      exec_load _ _ w
    exact (read_bind hCheck _).trans (read_bind hLoad _)

/-- Datastores that agree on what the loop sees of each key lead to the same union. -/
lemma exec_hllUnion (hStill : ∀ i, w.now i = w.now 0)
    (hStill' : ∀ i, w'.now i = w'.now 0) (keys : List Bytes) (hKeys : ∀ k ∈ keys,
      hllCheckAt r k w.data (w.now 0) = hllCheckAt r k w'.data (w'.now 0) ∧
      sketchAt r k w.data = sketchAt r k w'.data) (acc : Sketch) :
    ∃ out, (hllUnion r keys true acc).exec w = (out, w) ∧ (hllUnion r keys true acc).exec w' = (out, w') := by
  induction keys generalizing acc with
  | nil => exact ⟨.ok acc, rfl, rfl⟩
  | cons k keys ih =>
    have hRound := exec_hllRound (r := r) hStill k acc
    have hRound' := exec_hllRound (r := r) hStill' k acc
    obtain ⟨hCheck, hSketch⟩ := hKeys k mem_cons_self
    rw [← hCheck, ← hSketch] at hRound'
    cases hOut : hllCheckAt r k w.data (w.now 0) with
    | error e =>
      rw [hOut] at hRound hRound'
      exact ⟨.error e, read_bind_error hRound _, read_bind_error hRound' _⟩
    | ok etime =>
      rw [hOut] at hRound hRound'
      obtain ⟨out, hRest, hRest'⟩ :=
        ih (fun k hk => hKeys k (mem_cons_of_mem _ hk)) (acc.merge (sketchAt r k w.data))
      exact ⟨out, (read_bind hRound _).trans hRest, (read_bind hRound' _).trans hRest'⟩

end

/-! ## The result -/

/-- A key whose expiry has passed whenever the clock is read, and that is still stored. -/
def Expired (r : Db) (key : Bytes) (w : World) : Prop :=
  ∃ m mtime, metaAt w.data r key = some (m, mtime) ∧ 0 < m.etimeMS ∧ ∀ i, m.etimeMS ≤ w.now i

lemma Expired.probeAt {r : Db} {w : World} (h : Expired r key w) : probeAt r key w.data (w.now 0) = none := by
  obtain ⟨m, mtime, hMeta, hSet, hPassed⟩ := h
  simp only [Repo.probeAt, hMeta]
  exact if_pos ⟨hSet, hPassed 0⟩

/-- The node without a key. -/
def World.without (w : World) (db : Int64) (key : Bytes) : World :=
  { w with data := w.data.without db key }

/-- What `PFCOUNT` takes from keys with a name does not change without an expired one
that has no registers set. -/
lemma pfcount_round_eq {r : Db} {w : World} (hProbe : probeAt r key w.data (w.now 0) = none)
    (hEmpty : sketchAt r key w.data = .empty) {k : Bytes} (hNames : k = key ∨ key ≠ [] ∧ k ≠ []) :
    hllCheckAt r k w.data (w.now 0) = hllCheckAt r k (w.data.without r.num key) (w.now 0) ∧
    sketchAt r k w.data = sketchAt r k (w.data.without r.num key) := by
  by_cases hEq : k = key
  · subst hEq
    have hLacks := lacks_without w.data r.num k
    rw [hllCheckAt, hllCheckAt, hProbe, hLacks.probeAt, hEmpty, sketchAt, hllBase, hLacks.entries_data]
    exact ⟨rfl, rfl⟩
  · obtain ⟨hKey, hK⟩ := hNames.resolve_left hEq
    have hSame : SameOn r.num k w.data (w.data.without r.num key) := fun _ hk => by
      rw [Datastore.getElem?_without, if_neg (not_ofKey_of_ne hKey hK hEq hk)]
    rw [hllCheckAt, hllCheckAt, hSame.probeAt, hSame.metaAt, sketchAt, sketchAt, hllBase, hSame.entries_data]
    exact ⟨rfl, rfl⟩

/-- `PFCOUNT` replies with the estimate of the union. -/
lemma reply_pfcount (r : Db) (keys : List Bytes) (w : World) : ((readPFCount r keys).exec w).1 =
    ((hllUnion r keys true .empty).exec w).1.bind fun union => union.count.map fun n => .int n.toInt := by
  cases hUnion : (hllUnion r keys true .empty).exec w with
  | mk out w' =>
    cases out with
    | error e => exact congrArg Prod.fst (read_bind_error (read_bind_error hUnion _) _)
    | ok union =>
      show _ = union.count.map fun n => Output.int n.toInt
      cases hCount : union.count with
      | error e =>
        have hFail : (pfCount r keys).exec w = (.error e, w') := by
          rw [pfCount, read_bind hUnion, hCount]
          rfl
        exact congrArg Prod.fst (read_bind_error hFail _)
      | ok n =>
        have hDone : (pfCount r keys).exec w = (.ok n, w') := by
          rw [pfCount, read_bind hUnion, hCount]
          rfl
        exact congrArg Prod.fst (read_bind hDone _)

/-- A single key that is not found still gives its registers. -/
lemma union_alone {r : Db} {w : World} (hProbe : probeAt r key w.data (w.now 0) = none) :
    ((hllUnion r [key] true .empty).exec w).1 = .ok (Sketch.empty.merge (sketchAt r key w.data)) := by
  have hCheck := exec_hllCheck r key w
  rw [hllCheckAt, hProbe] at hCheck
  have hLoad : (hllLoad r key).exec (w.probed r key) =
      (.ok (hllView r (hllBase r.num key) (w.data.entries (hllBase r.num key))), w.probed r key) := by
    rw [← data_probed r key w]
    exact exec_load _ _ _
  exact congrArg Prod.fst
    (read_bind ((read_bind hCheck _).trans (read_bind hLoad _)) _)

/-- **Expired keys.** A command that reads an expired key replies as without the key
exactly if there is nothing it would show of what is stored. For `PFCOUNT` it is
enough that no register is set; other keys may be named next to it. -/
theorem expired_reads {r : Db} {key : Bytes} {w : World} (hExpired : Expired r key w) :
    (∀ c : Reading, ((c.run r key).exec w).1 = ((c.run r key).exec (w.without r.num key)).1 ↔
      c.Hidden r key w.data) ∧ ∀ before after, sketchAt r key w.data = .empty →
      (before ++ after = [] ∨ key ≠ [] ∧ [] ∉ before ++ after ∧ ∀ i, w.now i = w.now 0) →
      ((readPFCount r (before ++ key :: after)).exec w).1 =
        ((readPFCount r (before ++ key :: after)).exec (w.without r.num key)).1 := by
  have hLacks := lacks_without w.data r.num key
  have hProbe := hExpired.probeAt
  have hAbsent : probeAt r key (w.without r.num key).data ((w.without r.num key).now 0) = none :=
    hLacks.probeAt _
  refine ⟨fun c => ?_, fun before after hEmpty hNames => ?_⟩
  · rw [reply_unseen hProbe, reply_unseen hAbsent]
    exact unseen_eq_iff hLacks c
  · rw [reply_pfcount, reply_pfcount]
    rcases hNames with hAlone | ⟨hKey, hOthers, hStill⟩
    · obtain ⟨rfl, rfl⟩ := append_eq_nil_iff.mp hAlone
      rw [nil_append, union_alone hProbe, union_alone hAbsent, hEmpty]
      rw [(pfcount_round_eq hProbe hEmpty (.inl rfl)).2] at hEmpty
      rw [without, hEmpty]
    · have hKeys : ∀ k ∈ before ++ key :: after, k = key ∨ key ≠ [] ∧ k ≠ [] := by
        intro k hk
        by_cases hEq : k = key
        · exact .inl hEq
        · refine .inr ⟨hKey, ?_⟩
          rintro rfl
          refine hOthers ?_
          simpa [hKey.symm] using hk
      have hStill' : ∀ i, (w.without r.num key).now i = (w.without r.num key).now 0 := hStill
      obtain ⟨out, hRun, hRun'⟩ := exec_hllUnion hStill hStill' (before ++ key :: after)
        (fun k hk => pfcount_round_eq hProbe hEmpty (hKeys k hk)) .empty
      rw [hRun, hRun']

private def station : Db := ⟨.named 101, 0⟩

/-- `SADD k a`, then `PEXPIREAT k 5`; now it is 10. -/
private def overdue : World :=
  let w := (exec (station.locked [107] (setAdd station [107] [[97]])) { clock := { wall := fun _ => 1 }, now := fun _ => 1 }).2
  { (exec (keyExpireAt station [107] 5) w).2 with now := fun _ => 10 }

private lemma expired_overdue : Expired station [107] overdue :=
  ⟨⟨3, 0, 5, 0⟩, 1, by decide +kernel, by decide, fun _ => show (5 : Int64) ≤ 10 by decide⟩

theorem expired_reads_one_member : Expired station [107] overdue ∧
    Reading.hgetall.Hidden station [107] overdue.data ∧ ((Reading.hgetall.run station [107]).exec overdue).1 =
    ((Reading.hgetall.run station [107]).exec (overdue.without 0 [107])).1 := by
  have hHidden : hgetall.Hidden station [107] overdue.data := by
    show fieldsAt station [107] overdue.data = []
    decide +kernel
  exact ⟨expired_overdue, hHidden, ((expired_reads expired_overdue).1 .hgetall).mpr hHidden⟩

/-- The member of a set whose expiry has passed is still shown. -/
theorem expired_member_shown : Expired station [107] overdue ∧
    ((Reading.smembers.run station [107]).exec overdue).1 = .ok (.array [.bulk [97]]) ∧
    ((Reading.smembers.run station [107]).exec (overdue.without 0 [107])).1 = .ok (.array []) := by
  have hLacks : Lacks (overdue.without 0 [107]).data station.num [107] := lacks_without overdue.data 0 [107]
  have hMembers : membersAt station [107] overdue.data = [[97]] := by decide +kernel
  refine ⟨expired_overdue, ?_, ?_⟩
  · rw [reply_unseen expired_overdue.probeAt, unseen, hMembers]
    rfl
  · rw [reply_unseen (hLacks.probeAt _), unseen, membersAt_lacks hLacks]
    rfl

end RedGeo.Repo
