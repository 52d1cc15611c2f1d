import RedGeo.Lib.Sums
import RedGeo.Repo.Opening

/-!
# RedGeo — calls that count

Count-min sketches and top-k summaries are told how often items have occurred. What all
such calls add is remembered beside the net: what those that have not failed add
altogether, and the calls that have succeeded, replica by replica.

* `Added.Admits` — the runs in which positive increments total less than 2^63.
* `Added.Counts.move` — what is remembered adds up in all of these.
* `Added.Local.move` — what commands keep of their own replica's entries.
-/

namespace RedGeo.Repo

open Lib Store Function List Option Repo

/-! ## Increments -/

/-- The sum of the increments. -/
def weight (items : List (Bytes × Int64)) : Int := (items.map fun it => it.2.toInt).sum

/-- The increments of an item, added up. -/
def freq (item : Bytes) (items : List (Bytes × Int64)) : Int := weight (items.filter fun it => it.1 = item)

lemma weight_cons (it : Bytes × Int64) (items : List (Bytes × Int64)) :
    weight (it :: items) = it.2.toInt + weight items := by
  rw [weight, map_cons, sum_cons]
  rfl

@[simp] lemma weight_append (items items' : List (Bytes × Int64)) :
    weight (items ++ items') = weight items + weight items' := by
  rw [weight, map_append, sum_append]
  rfl

lemma weight_nonneg (h : ∀ it ∈ items, 0 < it.2) : 0 ≤ weight items := by
  refine sum_nonneg fun x hx => ?_
  obtain ⟨it, hIt, rfl⟩ := mem_map.mp hx
  exact (Int64.lt_iff_toInt_lt.mp (h it hIt)).le

lemma freq_cons_self (it : Bytes × Int64) (items : List (Bytes × Int64)) :
    freq it.1 (it :: items) = it.2.toInt + freq it.1 items := by
  rw [freq, filter_cons_of_pos (by simp), weight_cons]
  rfl

lemma freq_cons_of_ne (h : it.1 ≠ item) (items : List (Bytes × Int64)) :
    freq item (it :: items) = freq item items := by
  rw [freq, filter_cons_of_neg (by simpa using h)]
  rfl

/-! ## What is remembered -/

/-- What the calls that have not failed add altogether, and the calls that have succeeded at
each replica. -/
structure Added where
  issued : Int := 0
  calls : Replica → List (List (Bytes × Int64)) := fun _ => []

/-- What a command adds. -/
def itemsOf {C : Type} (called : C → Option (List (Bytes × Int64))) (c : C) : List (Bytes × Int64) :=
  (called c).getD []

/-- The items of the running command. -/
def running {C : Type} (called : C → Option (List (Bytes × Int64))) (cmd : Option C) : List (Bytes × Int64) :=
  cmd.elim [] (itemsOf called)

section

variable {S : Service} (called : S.Cmd → Option (List (Bytes × Int64))) (R : Finset Replica)

def Added.watch (h : Added) (s : Net S) : Net.Event S → Added
  | .start _ c => { h with issued := h.issued + weight (itemsOf called c) }
  | .finish n =>
    match s.job n with
    | some ⟨c, .done _⟩ =>
      { h with calls := update h.calls n (h.calls n ++ (called c).toList) }
    | some ⟨c, .fail _⟩ => { h with issued := h.issued - weight (itemsOf called c) }
    | _ => h
  | _ => h

variable (S) in
/-- Commands are issued at the replicas in `R`, with positive increments that total less
than 2^63. -/
def Added.Admits (s : Traced S Added) : Net.Event S → Prop
  | .start n c => n ∈ R ∧ (∀ it ∈ itemsOf called c, 0 < it.2) ∧ s.past.issued + weight (itemsOf called c) < 2 ^ 63
  | _ => True

instance (s : Traced S Added) (a : Net.Event S) : Decidable (Added.Admits S called R s a) :=
  match a with
  | .start n c => inferInstanceAs (Decidable (n ∈ R ∧ (∀ it ∈ itemsOf called c, 0 < it.2) ∧
      s.past.issued + weight (itemsOf called c) < 2 ^ 63))
  | .call _ | .finish _ | .receive _ _ _ | .forget _ _ _ | .other _ _ _ => isTrue trivial

/-- What is remembered adds up. -/
structure Added.Sums {δ : Type} (past : Added) (v : View S δ) : Prop where
  positive : ∀ n, ∀ it ∈ (past.calls n).flatten ++ running called (v.cmd n), 0 < it.2
  sum : past.issued = ∑ n ∈ R, weight ((past.calls n).flatten ++ running called (v.cmd n))
  bound : past.issued < 2 ^ 63

structure Added.Counts {δ : Type} (past : Added) (v : View S δ) : Prop extends past.Sums called R v where
  running : v.RunningIn R

/-- Whoever has succeeded has seen the sketch. -/
def Added.Opened {δ : Type} (db : Int64) (key : Bytes) (past : Added) (v : View S δ) : Prop :=
  ∀ n, past.calls n ≠ [] → v.Has (metaBase db key) ∧ v.Has (sketchParamsBase db key)

end

namespace Added

section

variable {S : Service} {δ : Type} {called : S.Cmd → Option (List (Bytes × Int64))} {R : Finset Replica}
  {past : Added} {v : View S δ}

variable (h : past.Sums called R v)

include h

/-- What was added at one replica is no more than what was added altogether. -/
lemma Sums.weight_lt (ho : o ∈ R) :
    weight ((past.calls o).flatten ++ running called (v.cmd o)) < 2 ^ 63 := by
  have hLe := Finset.single_le_sum (f := fun o => weight ((past.calls o).flatten ++ running called (v.cmd o)))
    (fun o _ => weight_nonneg (h.positive o)) ho
  have hSum := h.sum
  have hBound := h.bound
  omega

variable {n : Replica} {c : S.Cmd}

lemma Sums.start (hIdle : v.cmd n = none) (hn : n ∈ R)
    (hPos : ∀ it ∈ itemsOf called c, 0 < it.2) (hBound : past.issued + weight (itemsOf called c) < 2 ^ 63) (d : δ) :
    Added.Sums called R { past with issued := past.issued + weight (itemsOf called c) } (v.starting n c d) := by
  refine ⟨fun o it hIt => ?_, ?_, hBound⟩
  · change it ∈ _ ++ running called (update v.cmd n (some c) o) at hIt
    by_cases ho : o = n
    · subst ho
      rw [update_self] at hIt
      rcases mem_append.mp hIt with hOld | hNew
      · exact h.positive o it (mem_append_left _ hOld)
      · exact hPos it hNew
    · rw [update_of_ne ho] at hIt
      exact h.positive o it hIt
  · show past.issued + weight (itemsOf called c) =
      ∑ o ∈ R, weight ((past.calls o).flatten ++ running called (update v.cmd n (some c) o))
    rw [sum_change hn (fun o ho => by rw [update_of_ne ho]), ← h.sum, update_self, hIdle,
      weight_append, weight_append]
    show _ = past.issued + (_ + weight (itemsOf called c) - (_ + 0))
    omega

lemma Sums.fail (hn : n ∈ R) (hCmd : v.cmd n = some c) :
    Added.Sums called R { past with issued := past.issued - weight (itemsOf called c) } (v.finishing n) := by
  have hItems : running called (v.cmd n) = itemsOf called c := by
    rw [hCmd]
    rfl
  refine ⟨fun o it hIt => ?_, ?_, ?_⟩
  · change it ∈ _ ++ running called (update v.cmd n none o) at hIt
    by_cases ho : o = n
    · subst ho
      rw [update_self] at hIt
      rcases mem_append.mp hIt with hOld | hNew
      · exact h.positive o it (mem_append_left _ hOld)
      · cases hNew
    · rw [update_of_ne ho] at hIt
      exact h.positive o it hIt
  · show past.issued - weight (itemsOf called c) =
      ∑ o ∈ R, weight ((past.calls o).flatten ++ running called (update v.cmd n none o))
    rw [sum_change hn (fun o ho => by rw [update_of_ne ho]), ← h.sum,
      update_self, hItems, weight_append, weight_append]
    show _ = past.issued + (_ + 0 - (_ + weight (itemsOf called c)))
    omega
  · have hNonneg : 0 ≤ weight (itemsOf called c) := weight_nonneg fun it hIt =>
      h.positive n it (mem_append_right _ (hItems ▸ hIt))
    have hBound := h.bound
    show past.issued - weight (itemsOf called c) < 2 ^ 63
    omega

lemma Sums.succeed (hCmd : v.cmd n = some c) :
    Added.Sums called R { past with calls := update past.calls n (past.calls n ++ (called c).toList) }
      (v.finishing n) := by
  -- what was running is in the calls now
  have hSame : ∀ o, (update past.calls n (past.calls n ++ (called c).toList) o).flatten ++
      running called (update v.cmd n none o) =
      (past.calls o).flatten ++ running called (v.cmd o) := by
    intro o
    by_cases ho : o = n
    · subst ho
      rw [update_self, update_self, hCmd]
      cases hCalled : called c <;> simp [running, itemsOf, hCalled]
    · rw [update_of_ne ho, update_of_ne ho]
  refine ⟨fun o it hIt => h.positive o it (hSame o ▸ hIt), ?_, h.bound⟩
  rw [h.sum]
  exact Finset.sum_congr rfl fun o _ => by rw [← hSame o]; rfl

omit h

variable {db : Int64} {key : Bytes} {rules : Rules S δ} {s : Net S} {d : Replica → δ}

lemma watch_finish (past : Added)
    (hJob : s.job n = some ⟨c, rest⟩) (hEnds : Net.Ends rest out) :
    past.watch called s (.finish n) = match out with
      | .ok _ => { past with calls := update past.calls n (past.calls n ++ (called c).toList) }
      | .error _ => { past with issued := past.issued - weight (itemsOf called c) } := by
  cases out with
  | ok a =>
    have hDone : rest = .done a := hEnds
    subst hDone
    rw [watch, hJob]
  | error e =>
    have hFail : rest = .fail e := hEnds
    subst hFail
    rw [watch, hJob]

/-- **What a move leaves.** -/
theorem Counts.move (h : past.Counts called R (s.view d)) (hMove : s.Move db key rules d a v)
    (hK : Admits S called R ⟨s, past⟩ a) : (past.watch called s a).Counts called R v := by
  have hIssued : IssuedAt R (⟨s, past⟩ : Traced S Added) a := by
    cases a with
    | start => exact hK.1
    | _ => trivial
  refine ⟨?_, h.running.move hMove hIssued⟩
  cases hMove with
  | @start n c hIdle => exact h.toSums.start (congrArg (Option.map Sigma.fst) hIdle) hK.1 hK.2.1 hK.2.2 _
  | @finish n c rest out known hJob hEnds hStays hPost =>
    have hCmd : (s.view d).cmd n = some c := cmd_of_job hJob
    rw [watch_finish past hJob hEnds]
    cases out with
    | ok a => exact h.toSums.succeed hCmd
    | error e => exact h.toSums.fail (h.running n c hCmd) hCmd
  | _ => exact ⟨h.positive, h.sum, h.bound⟩

lemma Opened.move (hKept : s.Kept db key rules d) (h : past.Opened db key (s.view d))
    (hMove : s.Move db key rules d a v)
    (hSees : ∀ n c g out, (called c).isSome → rules.post n c g (.ok out) →
      Sighted (metaBase db key) g.known ∧ Sighted (sketchParamsBase db key) g.known) :
    (past.watch called s a).Opened db key v := by
  intro o hCalls
  have hOld : past.calls o ≠ [] → v.Has (metaBase db key) ∧ v.Has (sketchParamsBase db key) := fun hSome =>
    ⟨(h o hSome).1.move hMove, (h o hSome).2.move hMove⟩
  cases hMove with
  | @finish n c rest out known hJob hEnds hStays hPost =>
    rw [watch_finish past hJob hEnds] at hCalls
    cases out with
    | error e => exact hOld hCalls
    | ok out =>
      by_cases hCalled : (called c).isSome
      · obtain ⟨hMeta, hParams⟩ := hSees n c _ out hCalled hPost
        exact ⟨hKept.has_of_sighted hMeta (fun _ hk => .inl hk) hStays,
          hKept.has_of_sighted hParams (fun _ hk => ofKey_of_params hk) hStays⟩
      · -- it does not count as a call
        refine hOld fun hNil => hCalls ?_
        show update past.calls n _ o = []
        rw [not_isSome_iff_eq_none.mp hCalled]
        by_cases ho : o = n
        · subst ho
          rw [update_self, hNil]
          rfl
        · rw [update_of_ne ho, hNil]
  | _ => exact hOld hCalls

/-- A property of each replica that its own commands keep: it speaks of the calls that have
succeeded there, of the running command with its notes, and of what the replica has put. -/
structure Local (db : Int64) (key : Bytes) (rules : Rules S δ) (called : S.Cmd → Option (List (Bytes × Int64)))
    (P : Replica → List (List (Bytes × Int64)) → Option S.Cmd → δ → (Path → List Bytes) → Prop) : Prop where
  frame : ∀ {n calls cmd d log log'}, P n calls cmd d log → (∀ k, Mine db key n k → log' k = log k) →
    P n calls cmd d log'
  start : ∀ {n calls c d log}, P n calls none d log → P n calls (some c) (rules.init c) log
  put : ∀ {n calls c d log own k val}, P n calls (some c) d log →
    (∀ k, Mine db key n k → own k = (log k).getLast?) → rules.may n c own d k val →
    P n calls (some c) (rules.note d (.put k val) (.ok ())) (update log k (log k ++ [val]))
  query : ∀ {n calls c d log base keysOnly x}, P n calls (some c) d log →
    P n calls (some c) (rules.note d (.query base keysOnly) x) log
  succeed : ∀ {n calls c d log own known out}, P n calls (some c) d log →
    rules.post n c ⟨own, known, d⟩ (.ok out) → P n (calls ++ (called c).toList) none d log
  fail : ∀ {n calls c d log own known e}, P n calls (some c) d log →
    rules.post n c ⟨own, known, d⟩ (.error e) → P n calls none d log

/-- **What a move leaves of it.** -/
theorem Local.move {P : Replica → List (List (Bytes × Int64)) → Option S.Cmd → δ → (Path → List Bytes) → Prop}
    (hLocal : Local db key rules called P)
    (h : ∀ n, P n (past.calls n) ((s.view d).cmd n) ((s.view d).notes n) (s.view d).log)
    (hMove : s.Move db key rules d a v) (n : Replica) :
    P n ((past.watch called s a).calls n) (v.cmd n) (v.notes n) v.log := by
  have hAt := h n
  cases hMove with
  | @start o c hIdle =>
    show P n (past.calls n) (update (s.view d).cmd o _ n) (update d o _ n) _
    by_cases hn : n = o
    · subst hn
      rw [show (s.view d).cmd n = none from congrArg (Option.map Sigma.fst) hIdle] at hAt
      rw [update_self, update_self]
      exact hLocal.start hAt
    · rw [update_of_ne hn, update_of_ne hn]
      exact hAt
  | @put o c k val next hJob hMine hMay =>
    show P n (past.calls n) ((s.view d).cmd n) (update d o _ n) (update (s.view d).log k _)
    by_cases hn : n = o
    · subst hn
      have hCmd : (s.view d).cmd n = some c := cmd_of_job hJob
      rw [hCmd] at hAt ⊢
      rw [update_self]
      exact hLocal.put hAt (fun k hk => View.own_of_mine hk) hMay
    · rw [update_of_ne hn]
      exact hLocal.frame hAt fun k' hk' =>
        update_of_ne (fun hEq => hn ((hEq ▸ hMine).unique hk')) _ _
  | @query o c base keysOnly next hJob =>
    show P n (past.calls n) ((s.view d).cmd n) (update d o _ n) _
    by_cases hn : n = o
    · subst hn
      have hCmd : (s.view d).cmd n = some c := cmd_of_job hJob
      rw [hCmd] at hAt ⊢
      rw [update_self]
      exact hLocal.query hAt
    · rw [update_of_ne hn]
      exact hAt
  | @finish o c rest out known hJob hEnds hStays hPost =>
    show P n _ (update (s.view d).cmd o none n) (d n) _
    rw [watch_finish past hJob hEnds]
    have hCmd : (s.view d).cmd o = some c := cmd_of_job hJob
    by_cases hn : n = o
    · subst hn
      rw [hCmd] at hAt
      rw [update_self]
      cases out with
      | ok a =>
        show P n (update past.calls n _ n) none (d n) _
        rw [update_self]
        exact hLocal.succeed hAt hPost
      | error e => exact hLocal.fail hAt hPost
    · rw [update_of_ne hn]
      cases out with
      | ok a =>
        show P n (update past.calls o _ n) _ (d n) _
        rw [update_of_ne hn]
        exact hAt
      | error e => exact hAt
  | _ => exact hAt

lemma Counts.init (d : Replica → δ) : Counts called R {} (⟨fun _ => [], fun _ => none, d⟩ : View S δ) := by
  refine ⟨⟨fun _ _ hIt => (nomatch hIt), ?_, by decide⟩, fun _ _ hCmd => (nomatch hCmd)⟩
  exact (Finset.sum_eq_zero fun _ _ => rfl).symm

/-- With no command running, all that was added is in the calls. -/
lemma weight_of_idle (hIdle : s.Idle) (past : Added) (d : Replica → δ) (o : Replica) :
    weight ((past.calls o).flatten ++ running called ((s.view d).cmd o)) = weight (past.calls o).flatten := by
  have hNone : (s.view d).cmd o = none := congrArg (Option.map Sigma.fst) (hIdle o)
  rw [hNone]
  exact congrArg weight (append_nil _)

end

end Added

end RedGeo.Repo
