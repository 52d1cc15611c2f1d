import RedGeo.Lib.Prefixes
import RedGeo.Repo.Counters
import RedGeo.Repo.Moves

/-!
# RedGeo — counters converge

`INCRBY` on one key at any number of replicas, with what has been issued remembered
beside the net. The component of a replica goes through the running totals of what it has
been asked to add, one for each command; so a replica that has a component knows of as
many commands as there were up to it.

* `Tally.Sound.matches_move` — what a move leaves of this.
* `counters_converge` — replies and final values are the sums of what was added.
-/

namespace RedGeo.Repo

open Lib Store Function List Option Int64

/-! ## Running totals -/

/-- A component after some deltas. -/
def totalOf (deltas : List Int64) : Bytes := formatInt (Int64.ofInt (sumOf deltas)).toInt

lemma parseInt_totalOf (deltas : List Int64) : parseInt (totalOf deltas) = some (ofInt (sumOf deltas)) :=
  parseInt_formatInt _

/-! ## What is remembered -/

section

variable (db : Int64) (key : Bytes)

/-- The deltas that were issued at each replica, and how many of those of the others had
arrived at a replica when it last read the components. -/
structure Tally where
  issued : Replica → List Int64 := fun _ => []
  known : Replica → Replica → Nat := fun _ _ => 0

def Tally.watch (h : Tally) (s : Net (counterService db key)) : Net.Event (counterService db key) → Tally
  | .start n delta => { h with issued := update h.issued n (h.issued n ++ [delta]) }
  | .call n =>
    match s.job n with
    | some ⟨_, .call (.query base false) _⟩ =>
      if base = counterBase db key then
        { h with known := update h.known n fun o => s.copies.last n (counterSlot db key o) }
      else h
    | _ => h
  | _ => h

/-- What the running command has still to add. -/
def pending (cmd : Option Int64) (d : Counting) : List Int64 := if d.wrote then [] else cmd.toList

/-- The components that a command has read are those after the commands that its replica
knew of. -/
def Heard (R : Finset Replica) (issued : Replica → List Int64) (log : Path → List Bytes) (known : Replica → Nat)
    (n : Replica) (entries : List (Path × Bytes)) : Prop :=
  (∀ o, known o ≤ (log (counterSlot db key o)).length) ∧
  sumInt ((intComponents (counterBase db key) entries).filter fun c => c.1 ≠ n.name) =
    Int64.ofInt (∑ o ∈ R.erase n, sumOf ((issued o).take (known o)))

/-- The components have gone through the totals of what was issued, what has been read of
them is remembered, and whoever has finished a command has said what the key is. -/
structure Tally.Matches (R : Finset Replica) (past : Tally) (v : View (counterService db key) Counting) : Prop where
  log : ∀ n, ∃ l, v.log (counterSlot db key n) = afterEach totalOf l ∧
    past.issued n = l ++ pending (v.cmd n) (v.notes n)
  heard : ∀ n entries, (v.notes n).heard = some entries →
    Heard db key R past.issued v.log (past.known n) n entries
  marked : ∀ n, v.log (slotKey (metaBase db key) n) = [] → past.issued n = (v.cmd n).toList

/-- What holds in every run. -/
structure Tally.Sound (R : Finset Replica) (past : Tally) (v : View (counterService db key) Counting) : Prop
    extends past.Matches db key R v where
  metas : v.Logged (metaBase db key) fun k val => ∃ o st value, k = slotKey (metaBase db key) o ∧
    (∃ m, IsCounter m ∧ value = encodeMeta m) ∧ val = encodeSlot ⟨st, tagPresent, value⟩
  comps : v.Logged (counterBase db key) fun k val => ∃ o ∈ R, k = counterSlot db key o ∧
    ∃ t : Int64, val = formatInt t.toInt
  running : v.RunningIn R

end

section

variable {db : Int64} {key : Bytes} {R : Finset Replica}

lemma Heard.mono (h : Heard db key R issued log known n entries)
    (hLog : ∀ o, (log (counterSlot db key o)).length ≤ (log' (counterSlot db key o)).length)
    (hIssued : ∀ o i, i ≤ (log (counterSlot db key o)).length → (issued' o).take i = (issued o).take i) :
    Heard db key R issued' log' known n entries := by
  refine ⟨fun o => (h.1 o).trans (hLog o), h.2.trans (congrArg ofInt ?_)⟩
  exact Finset.sum_congr rfl fun o _ => by rw [hIssued o _ (h.1 o)]

/-- Two commands that differ in their notes only have the same to add. -/
lemma pending_congr (h : d'.wrote = d.wrote) : pending cmd d' = pending cmd d := by
  rw [pending, pending, h]

namespace Tally

variable {past : Tally} {v : View (counterService db key) Counting}

/-- The replica's own running total. -/
lemma ownTotal_eq (hLog : v.log (counterSlot db key n) = afterEach totalOf l) :
    ownTotal db key n (v.own db key n) = ofInt (sumOf l) := by
  have hTake : v.log (counterSlot db key n) = (afterEach totalOf l).take l.length := by
    rw [hLog, take_of_length_le (length_afterEach totalOf l).le]
  rw [ownTotal, View.own_of_mine (mine_counterSlot n), hTake,
    getLast?_take_afterEach totalOf (le_refl l.length), take_length]
  split
  · next hZero =>
    rw [length_eq_zero_iff.mp hZero]
    rfl
  · rw [bind_some, parseInt_totalOf]
    rfl

namespace Matches

variable (h : past.Matches db key R v)

include h

lemma start (hIdle : v.cmd n = none) : Tally.Matches db key R
    { past with issued := update past.issued n (past.issued n ++ [delta]) } (v.starting n delta {}) := by
  refine ⟨fun n' => ?_, fun n' entries hHeard => ?_, fun n' hLog => ?_⟩
  · obtain ⟨l, hLog, hIssued⟩ := h.log n'
    refine ⟨l, hLog, ?_⟩
    show update past.issued n _ n' = l ++ pending (update v.cmd n _ n') (update v.notes n _ n')
    by_cases hn : n' = n
    · subst hn
      have hAll : past.issued n' = l := by
        rw [hIssued, hIdle, pending]
        split <;> exact append_nil l
      rw [update_self, update_self, update_self, hAll]
      rfl
    · rw [update_of_ne hn, update_of_ne hn, update_of_ne hn]
      exact hIssued
  · change (update v.notes n _ n').heard = _ at hHeard
    by_cases hn : n' = n
    · rw [hn, update_self] at hHeard
      cases hHeard
    · rw [update_of_ne hn] at hHeard
      refine (h.heard n' entries hHeard).mono (fun o => le_refl _) fun o i hLe => ?_
      show (update past.issued n _ o).take i = _
      by_cases ho : o = n
      · subst ho
        -- no component counts it yet
        obtain ⟨l, hLog, hIssued⟩ := h.log o
        rw [hLog, length_afterEach] at hLe
        have hLength : l.length ≤ (past.issued o).length := by
          rw [hIssued, length_append]
          omega
        rw [update_self, take_append_of_le_length (hLe.trans hLength)]
      · rw [update_of_ne ho]
  · show update past.issued n _ n' = (update v.cmd n _ n').toList
    have hOld := h.marked n' hLog
    by_cases hn : n' = n
    · subst hn
      rw [hIdle] at hOld
      rw [update_self, update_self, hOld]
      rfl
    · rw [update_of_ne hn, update_of_ne hn, hOld]

lemma put_component {n : Replica} {delta : Int64} (hCmd : v.cmd n = some delta)
    (hWrote : (v.notes n).wrote = false) : past.Matches db key R (v.put n (counterSlot db key n)
      (formatInt (ownTotal db key n (v.own db key n) + delta).toInt) { v.notes n with wrote := true }) := by
  refine ⟨fun n' => ?_, fun n' entries hHeard => ?_, fun n' hLog => ?_⟩
  · obtain ⟨l, hLog, hIssued⟩ := h.log n'
    show ∃ l, update v.log (counterSlot db key n) _ (counterSlot db key n') = _ ∧
      past.issued n' = l ++ pending (v.cmd n') (update v.notes n _ n')
    by_cases hn : n' = n
    · subst hn
      -- one more total in the component, and nothing more to add
      rw [hCmd, pending, hWrote] at hIssued
      refine ⟨l ++ [delta], ?_, ?_⟩
      · rw [update_self, afterEach_concat, ← hLog, ownTotal_eq hLog, totalOf, sumOf_append,
          sumOf_cons, sumOf_nil, Int.add_zero, ofInt_add, ofInt_toInt]
      · rw [update_self, hIssued]
        exact (append_nil _).symm
    · have hSlot : counterSlot db key n' ≠ counterSlot db key n := fun hEq => hn (slotKey_injective _ hEq)
      rw [update_of_ne hSlot, update_of_ne hn]
      exact ⟨l, hLog, hIssued⟩
  · have hOldHeard : (v.notes n').heard = some entries := by
      change (update v.notes n _ n').heard = _ at hHeard
      by_cases hn : n' = n
      · subst hn
        rwa [update_self] at hHeard
      · rwa [update_of_ne hn] at hHeard
    refine (h.heard n' entries hOldHeard).mono (fun o => ?_) fun _ _ _ => rfl
    show _ ≤ (update v.log (counterSlot db key n) _ (counterSlot db key o)).length
    by_cases ho : counterSlot db key o = counterSlot db key n
    · rw [ho, update_self, length_append]
      omega
    · rw [update_of_ne ho]
  · refine h.marked n' ?_
    change update v.log (counterSlot db key n) _ (slotKey (metaBase db key) n') = [] at hLog
    rwa [update_of_ne fun hEq => ?_] at hLog
    have hUnder : Under (counterBase db key) (counterSlot db key n) := under_counterSlot n
    rw [← hEq] at hUnder
    exact not_under_metaSlot db key _ n' hUnder

lemma put_meta (n : Replica) (val : Bytes) :
    past.Matches db key R (v.put n (slotKey (metaBase db key) n) val (v.notes n)) := by
  have hSlot : ∀ o, (v.put n (slotKey (metaBase db key) n) val (v.notes n)).log (counterSlot db key o) =
      v.log (counterSlot db key o) := by
    intro o
    exact update_of_ne (counterSlot_ne_meta db key o n) _ _
  have hNotes : (v.put n (slotKey (metaBase db key) n) val (v.notes n)).notes = v.notes :=
    update_eq_self n v.notes
  refine ⟨fun n' => ?_, fun n' entries hHeard => ?_, fun n' hLog => ?_⟩
  · rw [hSlot, hNotes]
    exact h.log n'
  · rw [hNotes] at hHeard
    exact (h.heard n' entries hHeard).mono (fun o => by rw [hSlot]) fun _ _ _ => rfl
  · refine h.marked n' ?_
    change update v.log (slotKey (metaBase db key) n) _ (slotKey (metaBase db key) n') = [] at hLog
    by_cases hk : slotKey (metaBase db key) n' = slotKey (metaBase db key) n
    · rw [hk, update_self] at hLog
      exact absurd hLog (by simp)
    · rwa [update_of_ne hk] at hLog

/-- A command ends that has put its component and the metadata. -/
lemma finish (hWrote : (v.notes n).wrote = true) (hMarked : v.log (slotKey (metaBase db key) n) ≠ []) :
    past.Matches db key R (v.finishing n) := by
  refine ⟨fun n' => ?_, h.heard, fun n' hLog => ?_⟩
  · obtain ⟨l, hLog, hIssued⟩ := h.log n'
    refine ⟨l, hLog, ?_⟩
    show past.issued n' = l ++ pending (update v.cmd n none n') (v.notes n')
    by_cases hn : n' = n
    · subst hn
      rw [hIssued, pending, pending, hWrote]
      rfl
    · rw [update_of_ne hn]
      exact hIssued
  · show past.issued n' = (update v.cmd n none n').toList
    by_cases hn : n' = n
    · subst hn
      exact absurd hLog hMarked
    · rw [update_of_ne hn]
      exact h.marked n' hLog

end Matches

end Tally

variable {s : Net (counterService db key)} {d : Replica → Counting} {past : Tally}

namespace Tally.Sound

section

variable (hKept : s.Kept db key (counterRules db key R) d) (h : Tally.Sound db key R past (s.view d))

include hKept h

lemma metaSlots (n : Replica) : MetaSlots db key IsCounter (s.world n).data :=
  fun k v hUnder hv => hKept.of_logged h.metas (fun _ hk => .inl hk) n k v hUnder hv

lemma counted (n : Replica) : Counted db key R (s.world n).data :=
  fun k v hUnder hv => hKept.of_logged h.comps (fun _ hk => .inr (under_of_append hk)) n k v hUnder hv

/-- The component of a replica, where its commands are known up to some point. -/
lemma component (n o : Replica) : ofInt ((componentAt db key (s.world n).data o).elim 0 toInt) =
    ofInt (sumOf ((past.issued o).take (s.copies.last n (counterSlot db key o)))) := by
  obtain ⟨l, hLog, hIssued⟩ := h.log o
  have hLe := s.copies.last_le n (counterSlot db key o)
  change s.copies.log (counterSlot db key o) = _ at hLog
  rw [hLog, length_afterEach] at hLe
  rw [hIssued, take_append_of_le_length hLe, componentAt, hKept.synced n _ (mine_counterSlot o).1]
  rw [Copies.value, hLog, getLast?_take_afterEach totalOf hLe]
  split
  · next hZero =>
    rw [hZero]
    rfl
  · rw [bind_some, parseInt_totalOf]
    exact ofInt_toInt _

lemma hear (hKey : key ≠ []) (n : Replica) : Tally.Matches db key R
      { past with known := update past.known n fun o => s.copies.last n (counterSlot db key o) }
      ((s.view d).noting n { d n with heard := some ((s.world n).data.entries (counterBase db key)) }) := by
  refine ⟨fun n' => ?_, fun n' entries hHeard => ?_, h.marked⟩
  · obtain ⟨l, hLog, hIssued⟩ := h.log n'
    refine ⟨l, hLog, hIssued.trans (congrArg (l ++ ·) (pending_congr ?_))⟩
    show (d n').wrote = (update d n _ n').wrote
    by_cases hn : n' = n
    · subst hn
      rw [update_self]
    · rw [update_of_ne hn]
  · change (update d n _ n').heard = _ at hHeard
    show Heard db key R past.issued s.copies.log (update past.known n _ n') n' entries
    by_cases hn : n' = n
    · subst hn
      rw [update_self] at hHeard
      cases hHeard
      rw [update_self]
      refine ⟨fun o => s.copies.last_le n' _, ?_⟩
      rw [(h.counted hKept n').sum_others hKey]
      exact ofInt_sum_congr fun o _ => h.component hKept n' o
    · rw [update_of_ne hn] at hHeard ⊢
      exact h.heard n' entries hHeard

omit hKept

lemma metas_move (hMove : s.Move db key (counterRules db key R) d a v) :
    v.Logged (metaBase db key) fun k val => ∃ o st value, k = slotKey (metaBase db key) o ∧
    (∃ m, IsCounter m ∧ value = encodeMeta m) ∧ val = encodeSlot ⟨st, tagPresent, value⟩ := by
  refine h.metas.move hMove fun n delta k val _ _ hMay hUnder => ?_
  obtain ⟨rfl, -⟩ | ⟨rfl, st, m, hm, rfl⟩ := hMay
  · exact absurd hUnder (not_under_dataSlot db key [.word .c] n)
  · exact ⟨n, st, _, rfl, ⟨m, hm, rfl⟩, rfl⟩

lemma comps_move (hMove : s.Move db key (counterRules db key R) d a v) :
    v.Logged (counterBase db key) fun k val => ∃ o ∈ R, k = counterSlot db key o ∧ ∃ t : Int64, val =
    formatInt t.toInt := by
  refine h.comps.move hMove fun n delta k val hCmd _ hMay hUnder => ?_
  obtain ⟨rfl, -, rfl⟩ | ⟨rfl, -⟩ := hMay
  · exact ⟨n, h.running n delta hCmd, rfl, _, rfl⟩
  · exact absurd hUnder (not_under_metaSlot db key [.word .c] n)

include hKept in
/-- What is remembered matches what the move leaves. -/
lemma matches_move (hKey : key ≠ []) (hMove : s.Move db key (counterRules db key R) d a v) :
    (past.watch db key s a).Matches db key R v := by
  cases hMove with
  | @start n delta hIdle => exact h.toMatches.start (congrArg (Option.map Sigma.fst) hIdle)
  | @put n delta k val next hJob hMine hMay =>
    have hWatch : past.watch db key s (.call n) = past := by
      rw [Tally.watch, hJob]
    rw [hWatch]
    obtain ⟨rfl, hWrote, rfl⟩ | ⟨rfl, -⟩ := hMay
    · rw [show (counterRules db key R).note = Counting.note db key from rfl, note_put _ (under_counterSlot n)]
      exact h.toMatches.put_component (cmd_of_job hJob) hWrote
    · rw [show (counterRules db key R).note = Counting.note db key from rfl,
        note_put_of_not _ (not_under_metaSlot db key _ n)]
      exact h.toMatches.put_meta n val
  | @query n delta base keysOnly next hJob =>
    rw [show (counterRules db key R).note = Counting.note db key from rfl]
    by_cases hHears : base = counterBase db key ∧ keysOnly = false
    · obtain ⟨rfl, rfl⟩ := hHears
      have hWatch : past.watch db key s (.call n) =
          { past with known := update past.known n fun o => s.copies.last n (counterSlot db key o) } := by
        rw [Tally.watch, hJob]
        exact if_pos rfl
      rw [hWatch, map_keyEntry_false, note_query]
      exact h.hear hKept hKey n
    · have hUnnoted : Unnoted db key (.query base keysOnly) := by
        intro hEq
        injection hEq with hBase hKeys
        exact hHears ⟨hBase, hKeys⟩
      have hWatch : past.watch db key s (.call n) = past := by
        rw [Tally.watch, hJob]
        cases keysOnly with
        | true => rfl
        | false => exact if_neg fun hBase => hHears ⟨hBase, rfl⟩
      have hNote : (d n).note db key (.query base keysOnly)
          (.ok (((s.world n).data.entries base).map (keyEntry keysOnly))) = d n := note_unnoted (d n) hUnnoted _
      have hView : (s.view d).noting n (d n) = s.view d := by
        rw [View.noting]
        exact congrArg _ (update_eq_self n d)
      rw [hWatch, hNote, hView]
      exact h.toMatches
  | @silent n delta op next hJob hSilent =>
    have hWatch : past.watch db key s (.call n) = past := by
      rw [Tally.watch, hJob]
      cases op with
      | query => exact hSilent.elim
      | _ => rfl
    rw [hWatch]
    exact h.toMatches
  | @finish n delta rest out known hJob hEnds hStays hPost =>
    obtain ⟨hSome, entries, -, hWrote, -⟩ := hPost
    refine h.toMatches.finish hWrote fun hNil => ?_
    have hOwn : ((s.view d).own db key n (slotKey (metaBase db key) n)).isSome := hSome
    rw [View.own_of_mine (mine_metaSlot db key n), hNil] at hOwn
    cases hOwn
  | receive => exact h.toMatches
  | forget => exact h.toMatches
  | other => exact h.toMatches

end

end Tally.Sound

/-- **Every run.** -/
theorem Tally.sound_of_reach (hKey : key ≠ [])
    (hLacks : ∀ n, Lacks (world n).data db key) {s : Traced (counterService db key) Tally}
    (h : Reach (Traced.step db key (Tally.watch db key)) (IssuedAt R) ⟨{ world }, {}⟩ s) :
    ∃ d, s.net.Kept db key (counterRules db key R) d ∧ Tally.Sound db key R s.past (s.net.view d) := by
  refine Rules.sound_of_reach (fun n delta own => keeps_incr hKey n delta own) ?_ ?_ hLacks (fun _ => {}) ?_ h
  · intro s d past hKept hI n _ _
    exact ⟨hI.metaSlots hKept n, hI.counted hKept n⟩
  · intro s d a v hKept hI hK hMove
    exact ⟨hI.matches_move hKept hKey hMove, hI.metas_move hMove, hI.comps_move hMove, hI.running.move hMove hK⟩
  · exact ⟨⟨fun n => ⟨[], rfl, rfl⟩, fun _ _ hHeard => (nomatch hHeard), fun _ _ => rfl⟩,
      fun _ _ _ hMem => (nomatch hMem), fun _ _ _ hMem => (nomatch hMem), fun _ _ hCmd => (nomatch hCmd)⟩

namespace Tally.Sound

variable (hKept : s.Kept db key (counterRules db key R) d) (h : Tally.Sound db key R past (s.view d))

include h

include hKept in
lemma reply {n : Replica} {delta : Int64} {rest : StoreM Int64} {out : Except Err Int64}
    (hJob : s.job n = some ⟨delta, rest⟩) (hEnds : Net.Ends rest out) : out = .ok (ofInt
      ((∑ o ∈ R.erase n, sumOf ((past.issued o).take (past.known n o))) + sumOf (past.issued n))) := by
  obtain ⟨known, -, -, entries, hHeard, hWritten, hOut⟩ := hKept.post hJob hEnds
  have hWrote : (d n).wrote = true := hWritten
  obtain ⟨l, hLog, hIssued⟩ := h.log n
  have hAll : past.issued n = l := by
    rw [hIssued, pending, show ((s.view d).notes n).wrote = true from hWrote]
    exact append_nil l
  rw [hOut, (h.heard n entries hHeard).2, hAll, ofInt_add, hKept.own_view, ownTotal_eq hLog]

/-- With nothing running, all that was issued is in the components. -/
lemma log_of_idle (hIdle : s.Idle) (o : Replica) :
    s.copies.log (counterSlot db key o) = afterEach totalOf (past.issued o) := by
  obtain ⟨l, hLog, hIssued⟩ := h.log o
  have hNone : (s.view d).cmd o = none := congrArg (Option.map Sigma.fst) (hIdle o)
  have hAll : past.issued o = l := by
    rw [hIssued, hNone, pending]
    split <;> exact append_nil l
  rw [hAll]
  exact hLog

include hKept in
lemma sum_of_delivered (hKey : key ≠ []) (hIdle : s.Idle) (hDelivered : s.Delivered db key n) :
    sumInt (intComponents (counterBase db key) ((s.world n).data.entries (counterBase db key))) =
    ofInt (∑ o ∈ R, sumOf (past.issued o)) := by
  rw [(h.counted hKept n).sum hKey]
  refine ofInt_sum_congr fun o _ => ?_
  rw [componentAt, hKept.of_delivered hDelivered (mine_counterSlot o).1, h.log_of_idle hIdle o]
  have hLast := getLast?_take_afterEach totalOf (le_refl (past.issued o).length)
  rw [take_of_length_le (length_afterEach totalOf _).le, take_length] at hLast
  rw [hLast]
  split
  · next hZero =>
    rw [length_eq_zero_iff.mp hZero]
    rfl
  · rw [bind_some, parseInt_totalOf]
    exact ofInt_toInt _

include hKept in
/-- Once something was issued, the key is a counter everywhere. -/
lemma live_of_delivered (hIdle : s.Idle) (hDelivered : s.Delivered db key n) (hIssued : past.issued o ≠ []) :
    (∃ mtime, metaAt (s.world n).data ⟨n, db⟩ key = some (Kind.counter.envelope 0, mtime)) ∧
    (s.world n).data.entries (counterBase db key) ≠ [] := by
  constructor
  · have hLog : s.copies.log (slotKey (metaBase db key) o) ≠ [] := by
      intro hNil
      have hNone : (s.view d).cmd o = none := congrArg (Option.map Sigma.fst) (hIdle o)
      have hMarked := h.marked o hNil
      rw [hNone] at hMarked
      exact hIssued hMarked
    have hSome : ((s.world n).data[slotKey (metaBase db key) o]?).isSome := by
      rw [hKept.of_delivered hDelivered (mine_metaSlot db key o).1, List.getLast?_isSome]
      exact hLog
    obtain ⟨m, mtime, hMeta⟩ := (h.metaSlots hKept n).exists_metaAt (n := n) (under_slotKey _ o) hSome
    have hIs : m = Kind.counter.envelope 0 := (h.metaSlots hKept n).of_metaAt hMeta
    exact ⟨mtime, hIs ▸ hMeta⟩
  · have hLog : s.copies.log (counterSlot db key o) ≠ [] := by
      rw [h.log_of_idle hIdle o, ← length_pos_iff, length_afterEach, length_pos_iff]
      exact hIssued
    have hSome : ((s.world n).data[counterSlot db key o]?).isSome := by
      rw [hKept.of_delivered hDelivered (mine_counterSlot o).1, List.getLast?_isSome]
      exact hLog
    obtain ⟨v, hv⟩ := isSome_iff_exists.mp hSome
    have hMem : (counterSlot db key o, v) ∈ (s.world n).data.entries (counterBase db key) :=
      Datastore.mem_entries.mpr ⟨hv, under_counterSlot o⟩
    exact ne_nil_of_mem hMem

end Tally.Sound

end

/-- **Counters converge.** In every run of `INCRBY` on one key at the replicas in `R`, a
reply is the sum of all deltas issued at its replica and of those of the others that had
arrived when the components were read. When no command runs, a replica where everything has
arrived reads the sum of all deltas issued anywhere; `GET` shows it once there is one. All
sums are modulo 2^64. -/
theorem counters_converge {db : Int64} {key : Bytes} {R : Finset Replica} (hKey : key ≠ [])
    {world : Replica → World} (hLacks : ∀ n, Lacks (world n).data db key)
    {s : Traced (counterService db key) Tally}
    (h : Reach (Traced.step db key (Tally.watch db key)) (IssuedAt R) ⟨{ world }, {}⟩ s) :
    (∀ (n : Replica) (delta : Int64) (rest : StoreM Int64) (out : Except Err Int64),
      s.net.job n = some ⟨delta, rest⟩ → Net.Ends rest out → out = .ok (Int64.ofInt
        ((∑ o ∈ R.erase n, sumOf ((s.past.issued o).take (s.past.known n o))) + sumOf (s.past.issued n)))) ∧
    (s.net.Idle → ∀ n, s.net.Delivered db key n →
      ((counterSumInt ⟨n, db⟩ key).exec (s.net.world n)).1 = .ok (Int64.ofInt (∑ o ∈ R, sumOf (s.past.issued o))) ∧
      ((∃ o, s.past.issued o ≠ []) → ((strGet ⟨n, db⟩ key).exec (s.net.world n)).1 =
        .ok (formatInt (Int64.ofInt (∑ o ∈ R, sumOf (s.past.issued o))).toInt))) := by
  obtain ⟨d, hKept, hd⟩ := Tally.sound_of_reach hKey hLacks h
  refine ⟨fun n delta rest out => hd.reply hKept, fun hIdle n hDelivered => ⟨?_, ?_⟩⟩
  · rw [exec_counterSumInt, hd.sum_of_delivered hKept hKey hIdle hDelivered]
  · rintro ⟨o, hIssued⟩
    obtain ⟨⟨mtime, hMeta⟩, hLive⟩ := hd.live_of_delivered hKept hIdle hDelivered hIssued
    rw [exec_strGet_counter hMeta hLive, hd.sum_of_delivered hKept hKey hIdle hDelivered]

open Net.Event in
/-- One replica adds twice, another one once in between. -/
private def adding : List (Net.Event (counterService 0 [107])) :=
  Net.running east (5 : Int64) 8 ++ [finish east] ++
    [receive west (counterSlot 0 [107] east) 0, receive west (slotKey (metaBase 0 [107]) east) 0] ++
    Net.running east (7 : Int64) 10 ++ Net.running west (3 : Int64) 10

/-- Two replicas count: the second one has the component of the first, and its metadata,
when it adds its own. -/
theorem counters_converge_pair :
    ∃ s, Reach (Traced.step 0 [107] (Tally.watch 0 [107])) (IssuedAt {east, west}) ⟨{ world := fun _ => .fresh }, {}⟩ s ∧
      s.past.issued east = [5, 7] ∧ s.past.issued west = [3] ∧ s.past.known west east = 1 ∧
      ∃ out rest, s.net.job west = some ⟨3, rest⟩ ∧ Net.Ends rest out ∧ out = .ok (Int64.ofInt
        ((∑ o ∈ ({east, west} : Finset Replica).erase west, sumOf ((s.past.issued o).take (s.past.known west o))) +
          sumOf (s.past.issued west))) := by
  obtain ⟨s, hReach, hEast, hWest, hKnown, hJob⟩ : ∃ s, Reach (Traced.step 0 [107] (Tally.watch 0 [107]))
      (IssuedAt {east, west}) ⟨{ world := fun _ => .fresh }, {}⟩ s ∧
      s.past.issued east = [5, 7] ∧ s.past.issued west = [3] ∧ s.past.known west east = 1 ∧
        (s.net.job west).map (fun job => (job.1, Net.outcome job.2)) = some (3, some (.ok 8)) :=
    Reach.of_eval adding (by decide +kernel)
  obtain ⟨⟨delta, rest⟩, hJob, hEq⟩ := map_eq_some_iff.mp hJob
  obtain ⟨rfl, hOutcome⟩ := Prod.mk.inj hEq
  have hEnds : Net.Ends rest (.ok 8) := Net.ends_of_outcome hOutcome
  exact ⟨s, hReach, hEast, hWest, hKnown, _, rest, hJob, hEnds,
    (counters_converge (by decide) (fun _ => World.lacks_fresh 0 [107]) hReach).1 west 3 rest _ hJob hEnds⟩

end RedGeo.Repo
