import RedGeo.Lib.Waiting
import RedGeo.Repo.Locks

/-!
# RedGeo — deadlocks

A command on two keys takes the two locks in the order of their names, which is not an
order of the shards: the two can be one, which the command then waits for forever, and
of two commands each can hold what the other one wants.

* `deadlock_free_iff` — which commands can run together without a deadlock.
* `two_key_commands_deadlock` — some that cannot.
-/

namespace RedGeo.Repo

variable {n : Replica} {C : Set (Int64 × Method)} {x : Host} {m : Method} {numParts : Nat}

open Lib Store Relation Function Host World

/-- A client holds a shard. -/
def Host.Holds (x : Host) (c sh : Nat) : Prop := x.holder sh = some c

/-- A client asks for a shard. -/
def Host.Wants (x : Host) (c sh : Nat) : Prop := ∃ k, x.nextCall c = some (.lock k) ∧ shardOf k = sh

/-- A client waits for another, or for itself. -/
abbrev Host.WaitsFor (x : Host) : Nat → Nat → Prop := WaitsOn x.Holds x.Wants

/-! ## What is asked for with a shard in hand -/

/-- Some command takes the shard `a` and then the shard `b`. -/
def TakesBoth (n : Replica) (C : Set (Int64 × Method)) (a b : Nat) : Prop :=
  ∃ db m p, (db, m) ∈ C ∧ m.nested ⟨n, db⟩ = some p ∧
    shardOf (ordered p.1 p.2).1 = a ∧ shardOf (ordered p.1 p.2).2 = b

/-- Whoever waits with a shard in hand runs a command that takes both. -/
lemma Host.Orderly.takesBoth (h : x.Orderly n C held)
    (hAsked : AskedWith x.Holds x.Wants a b) : TakesBoth n C a b := by
  obtain ⟨c, hHolds, k, hNext, hShard⟩ := hAsked
  obtain ⟨k', hMem, hShard'⟩ := (h.shared.holder a c).mp hHolds
  rw [nextCall] at hNext
  split at hNext
  · next db m op next hTask =>
    cases hNext
    obtain ⟨hC, hAllowed, -⟩ := (h.client c).task _ hTask
    obtain ⟨p, hNested, hOrdered⟩ := hAllowed k' hMem
    refine ⟨db, m, p, hC, hNested, ?_, ?_⟩ <;> rw [hOrdered]
    · exact hShard'
    · exact hShard
  · cases hNext

/-- A program that asks for two locks at once. -/
def TakesTwo {α : Type} (first second : Bytes) (p : StoreM α) : Prop :=
  ∃ next, p = .call (.lock first) next ∧ ∃ next', next (.ok ()) = .call (.lock second) next'

lemma takesTwo_withLocks {α : Type} (a b : Bytes) (body : StoreM α) :
    TakesTwo (ordered a b).1 (ordered a b).2 (withLocks a b body) := by
  rw [withLocks, ordered]
  split <;> exact ⟨_, rfl, _, rfl⟩

lemma TakesTwo.bind {α β : Type} {p : StoreM α}
    (h : TakesTwo first second p) (f : α → StoreM β) : TakesTwo first second (p >>= f) := by
  obtain ⟨next, rfl, next', hNext⟩ := h
  refine ⟨fun x => next x >>= f, rfl, fun x => next' x >>= f, ?_⟩
  show next (.ok ()) >>= f = _
  rw [hNext]
  rfl

/-- What a command on two keys does first. `RENAMENX` looks at the new key before it
takes the locks, and goes on if there is nothing. -/
lemma takesTwo_program {r : Db} (h : m.nested r = some p) :
    TakesTwo (ordered p.1 p.2).1 (ordered p.1 p.2).2 (m.program r) ∨ ∃ base next, m.program r =
    .call (.query base false) next ∧ TakesTwo (ordered p.1 p.2).1 (ordered p.1 p.2).2 (next (.ok [])) := by
  have hRename : ∀ src dest, src ≠ dest → TakesTwo
      (ordered (lockKey r.num src) (lockKey r.num dest)).1
      (ordered (lockKey r.num src) (lockKey r.num dest)).2 (keyRename r src dest) := by
    intro src dest hNe
    rw [keyRename, if_neg hNe]
    exact takesTwo_withLocks _ _ _
  unfold Method.nested at h
  split at h
  · next src dest =>
    split at h
    · cases h
    · next hNe =>
      cases h
      exact .inl (hRename src dest hNe)
  · next src dest =>
    split at h
    · cases h
    · next hNe =>
      cases h
      exact .inr ⟨metaBase r.num dest, _, rfl, (hRename src dest hNe).bind _⟩
  · cases h
    exact .inl (takesTwo_withLocks _ _ _)
  · cases h

/-- The next call of a client that is not in a transaction. -/
lemma Host.step_call
    {holder : Nat → Option Nat} (hCaller : x.site.caller c = ⟨none, some ⟨db, m, .call op next⟩⟩)
    (hGrant : x.grant c op = some holder) :
    x.step numParts n (.call c) = some ⟨⟨(serve op x.site.world).2,
      x.setCaller c ⟨none, some ⟨db, m, next (serve op x.site.world).1⟩⟩⟩, holder⟩ := by
  have hNext : x.nextCall c = some op := by rw [nextCall, hCaller]
  have hSite : x.site.step numParts n (.call c) = some (⟨(serve op x.site.world).2,
      x.setCaller c ⟨none, some ⟨db, m, next (serve op x.site.world).1⟩⟩⟩, putKey op) := by
    rw [Site.step, hCaller]
    rfl
  rw [step, hNext]
  simp only [hGrant, hSite]

/-- A client has taken the first of two locks and asks for the second, and nothing
else has changed. -/
structure Host.Halfway (x : Host) (c : Nat) (p : Bytes × Bytes) (x' : Host) : Prop where
  empty : x'.site.world.data = ∅
  others : ∀ c' ≠ c, x'.site.caller c' = x.site.caller c'
  asks : x'.nextCall c = some (.lock (ordered p.1 p.2).2)
  holder : x'.holder = update x.holder (shardOf (ordered p.1 p.2).1) (some c)

/-- A client that is idle starts a command on two keys and gets as far as that. -/
lemma Host.reach_halfway (h : Reach (step numParts n) (Starts C) (.idle world) x)
    (hEmpty : x.site.world.data = ∅) (hIdle : x.site.caller c = {}) (hMem : (db, m) ∈ C)
    (hNested : m.nested ⟨n, db⟩ = some p) (hFree : x.holder (shardOf (ordered p.1 p.2).1) = none) :
    ∃ x', Reach (step numParts n) (Starts C) (.idle world) x' ∧ x.Halfway c p x' := by
  have hStart : x.step numParts n (.start c db m) = some
      ⟨⟨x.site.world, x.setCaller c ⟨none, some ⟨db, m, m.program ⟨n, db⟩⟩⟩⟩, x.holder⟩ := by
    simp [step, Site.step, hIdle, setCaller]
  have hStarted := h.next (show Starts C x (.start c db m) from hMem) hStart
  -- from a state in which the locks come next
  have hLock : ∀ y rest, Reach (step numParts n) (Starts C) (.idle world) y →
      y.site.world.data = ∅ → y.holder = x.holder → y.site.caller c = ⟨none, some ⟨db, m, rest⟩⟩ →
      (∀ c' ≠ c, y.site.caller c' = x.site.caller c') →
      TakesTwo (ordered p.1 p.2).1 (ordered p.1 p.2).2 rest →
      ∃ x', Reach (step numParts n) (Starts C) (.idle world) x' ∧ x.Halfway c p x' := by
    rintro y rest hReach hData hHolder hCaller hOthers ⟨next, rfl, next', hNext⟩
    have hGrant : y.grant c (.lock (ordered p.1 p.2).1) =
        some (update x.holder (shardOf (ordered p.1 p.2).1) (some c)) := by
      rw [grant, hHolder, if_pos hFree]
    have hStep := hReach.next (show Starts C y (.call c) from trivial) (step_call hCaller hGrant)
    refine ⟨_, hStep, hData, fun c' hc => ?_, ?_, rfl⟩
    · rw [← hOthers c' hc]
      exact setCaller_of_ne y hc _
    · simp only [nextCall, setCaller_self]
      rw [show serve (.lock (ordered p.1 p.2).1) y.site.world = (.ok (), y.site.world) from rfl]
      simp only [hNext]
  rcases takesTwo_program hNested with hTwo | ⟨base, next, hProgram, hTwo⟩
  · exact hLock _ _ hStarted hEmpty rfl (setCaller_self _ _ _) (fun c' hc => setCaller_of_ne x hc _) hTwo
  · -- the metadata are asked for first, and there are none
    rw [hProgram] at hStarted
    have hCaller := setCaller_self x c ⟨none, some ⟨db, m, .call (.query base false) next⟩⟩
    have hStep := hStarted.next (show Starts C _ (.call c) from trivial) (step_call hCaller rfl)
    refine hLock _ _ hStep hEmpty rfl (setCaller_self _ _ _) (fun c' hc => ?_) ?_
    · exact (setCaller_of_ne _ hc _).trans (setCaller_of_ne x hc _)
    · have hAnswer : (serve (.query base false) x.site.world).1 = .ok [] := by
        show Except.ok ((x.site.world.data.entries base).map (keyEntry false)) = _
        rw [hEmpty]
        rfl
      rw [hAnswer]
      exact hTwo

/-- From a circle of shards without repetitions: one command after the other takes its
first lock. -/
lemma Host.reach_circle (hWalk : Lib.Walk (TakesBoth n C) len f)
    (hSimple : ∀ i < len, ∀ j < len, f i = f j → i = j) :
    ∀ j ≤ len, ∃ x, Reach (step numParts n) (Starts C) (.idle world) x ∧ x.site.world.data = ∅ ∧
    (∀ i < j, x.Wants i (f (i + 1)) ∧ x.Holds i (f i)) ∧ (∀ i, j ≤ i → x.site.caller i = {}) ∧ ∀ sh,
    x.holder sh ≠ none → ∃ i < j, sh = f i := by
  intro j
  induction j with
  | zero =>
    intro _
    have hChange : (idle world).step numParts n (.change ∅) =
        some ⟨⟨{ world with data := ∅ }, fun _ => {}⟩, fun _ => none⟩ := rfl
    refine ⟨_, Reach.init.next (show Starts C _ (.change ∅) from trivial) hChange, rfl, ?_, ?_, ?_⟩
    · exact fun i hi => absurd hi (Nat.not_lt_zero i)
    · exact fun i _ => rfl
    · exact fun sh hSh => absurd rfl hSh
  | succ j ih =>
    intro hj
    obtain ⟨x, hReach, hEmpty, hDone, hIdle, hHeld⟩ := ih (by omega)
    obtain ⟨db, m, p, hMem, hNested, hFirst, hSecond⟩ := hWalk.step j (by omega)
    -- the shard is free: what is held are other places of the circle
    have hFree : x.holder (shardOf (ordered p.1 p.2).1) = none := by
      rw [hFirst]
      by_contra hTaken
      obtain ⟨i, hi, hEq⟩ := hHeld _ hTaken
      have := hSimple j (by omega) i (by omega) hEq
      omega
    obtain ⟨x', hReach', hHalf⟩ := reach_halfway hReach hEmpty (hIdle j le_rfl) hMem hNested hFree
    refine ⟨x', hReach', hHalf.empty, fun i hi => ?_, fun i hi => ?_, fun sh hSh => ?_⟩
    · by_cases hij : i = j
      · subst hij
        refine ⟨⟨_, hHalf.asks, hSecond⟩, ?_⟩
        rw [Holds, hHalf.holder, hFirst, update_self]
      · obtain ⟨⟨k, hNext, hShard⟩, hHolds⟩ := hDone i (by omega)
        refine ⟨⟨k, ?_, hShard⟩, ?_⟩
        · rw [nextCall, hHalf.others i hij]
          exact hNext
        · rw [Holds, hHalf.holder, hFirst, update_of_ne]
          · exact hHolds
          · exact fun hEq => hij (hSimple i (by omega) j (by omega) hEq)
    · rw [hHalf.others i (by omega)]
      exact hIdle i (by omega)
    · rw [hHalf.holder] at hSh
      by_cases hEq : sh = shardOf (ordered p.1 p.2).1
      · exact ⟨j, by omega, by rw [hEq, hFirst]⟩
      · rw [update_of_ne hEq] at hSh
        obtain ⟨i, hi, hShard⟩ := hHeld sh hSh
        exact ⟨i, by omega, hShard⟩

/-- **When commands can deadlock.** Clients of a node start commands out of `C`, as
often and interleaved in any way. No client ever waits for a shard that it holds, and
none are ever waiting for each other in a circle, if and only if the pairs of shards
that single commands take, one while the other is held, form no circle; a pair of one
shard with itself is a circle. -/
theorem deadlock_free_iff (numParts : Nat) (n : Replica) (world : World) (C : Set (Int64 × Method)) :
    (∀ x, Reach (Host.step numParts n) (Starts C) (.idle world) x →
      (∀ c, ¬ x.WaitsFor c c) ∧ ∀ c, ¬ TransGen x.WaitsFor c c) ↔
    ∀ sh, ¬ TransGen (TakesBoth n C) sh sh := by
  constructor
  · intro hFree sh hCycle
    obtain ⟨len, f, hPos, hBack, hWalk, hSimple⟩ := exists_simple_cycle hCycle
    obtain ⟨x, hReach, -, hDone, -, -⟩ : ∃ x, Reach (step numParts n) (Starts C) (.idle world) x ∧ _ :=
      reach_circle hWalk hSimple len le_rfl
    -- each waits for the next, and the last one for the first
    have hChain : ∀ i < len, ∀ j, j ≤ i → ReflTransGen x.WaitsFor j i := by
      intro i
      induction i with
      | zero =>
        intro _ j hj
        obtain rfl : j = 0 := by omega
        exact .refl
      | succ i ih =>
        intro hi j hj
        by_cases hEq : j = i + 1
        · rw [hEq]
        · exact (ih (by omega) j (by omega)).tail
            ⟨f (i + 1), (hDone i (by omega)).1, (hDone (i + 1) hi).2⟩
    have hLast : x.WaitsFor (len - 1) 0 := by
      refine ⟨f len, ?_, ?_⟩
      · have hWants := (hDone (len - 1) (by omega)).1
        rwa [Nat.sub_add_cancel hPos] at hWants
      · rw [hBack]
        exact (hDone 0 hPos).2
    exact (hFree x hReach).2 0 (.tail' (hChain (len - 1) (by omega) 0 (by omega)) hLast)
  · intro hAcyclic x hReach
    obtain ⟨held, hOrderly⟩ := orderly_of_reach hReach
    have hNone : ∀ c, ¬ TransGen x.WaitsFor c c := by
      intro c hCycle
      obtain ⟨sh, hShards⟩ := asked_cycle_of_waits_cycle hCycle
      exact hAcyclic sh (TransGen.mono (fun _ _ => hOrderly.takesBoth) _ _ hShards)
    exact ⟨fun c hSelf => hNone c (.single hSelf), hNone⟩

private def here : Replica := .named 114

private def empty : World := .fresh

/-- `RENAME a m`, `RENAME m sh`, `RENAME a sh` and `SMOVE a a x`. -/
private def renameAM : Method := .key (.rename [97] [109])

private def renameMS : Method := .key (.rename [109] [115, 104])

private def renameAS : Method := .key (.rename [97] [115, 104])

private def moveAA : Method := .set (.move [97] [97] [120])

/-- A command that takes one shard twice. -/
private lemma waits_for_itself {m : Method} (h : m.nested ⟨here, 0⟩ = some p)
    (hShard : shardOf (ordered p.1 p.2).1 = shardOf (ordered p.1 p.2).2) :
    ∃ x, Reach (step 1 here) (Starts {(0, m)}) (.idle empty) x ∧ x.WaitsFor 0 0 := by
  have hWalk : Lib.Walk (TakesBoth here {(0, m)}) 1 fun _ => shardOf (ordered p.1 p.2).1 :=
    ⟨fun _ _ => ⟨0, m, p, rfl, h, rfl, hShard.symm⟩⟩
  obtain ⟨x, hReach, -, hDone, -, -⟩ : ∃ x, Reach (step 1 here) (Starts {(0, m)}) (.idle empty) x ∧ _ :=
    reach_circle hWalk (by omega) 1 le_rfl
  exact ⟨x, hReach, _, hDone 0 (by decide)⟩

/-- `SMOVE` of a key to itself and `RENAME` between keys of one shard wait for what they
hold, and two renamings between three keys wait for each other. -/
theorem two_key_commands_deadlock :
    (∃ x, Reach (Host.step 1 here) (Starts {(0, moveAA)}) (.idle empty) x ∧ x.WaitsFor 0 0) ∧
    (∃ x, Reach (Host.step 1 here) (Starts {(0, renameAS)}) (.idle empty) x ∧ x.WaitsFor 0 0) ∧ ∃ x,
    Reach (Host.step 1 here) (Starts {(0, renameAM), (0, renameMS)}) (.idle empty) x ∧ x.WaitsFor 0 1 ∧
    x.WaitsFor 1 0 := by
  refine ⟨waits_for_itself rfl rfl, waits_for_itself rfl (by decide +kernel), ?_⟩
  have hWalk : Lib.Walk (TakesBoth here {(0, renameAM), (0, renameMS)}) 2 fun i =>
      shardOf (if i = 1 then lockKey 0 [109] else lockKey 0 [97]) := by
    refine ⟨fun i hi => ?_⟩
    obtain rfl | rfl : i = 0 ∨ i = 1 := by omega
    · exact ⟨0, renameAM, _, .inl rfl, rfl, by decide +kernel, by decide +kernel⟩
    · exact ⟨0, renameMS, _, .inr rfl, rfl, by decide +kernel, by decide +kernel⟩
  obtain ⟨x, hReach, -, hDone, -, -⟩ : ∃ x, Reach (step 1 here)
      (Starts {(0, renameAM), (0, renameMS)}) (.idle empty) x ∧ _ := by
    refine reach_circle hWalk (fun i hi j hj hEq => ?_) 2 le_rfl
    have hApart : shardOf (lockKey 0 [109]) ≠ shardOf (lockKey 0 [97]) := by decide +kernel
    obtain rfl | rfl : i = 0 ∨ i = 1 := by omega
    all_goals obtain rfl | rfl : j = 0 ∨ j = 1 := by omega
    · rfl
    · exact absurd hEq.symm hApart
    · exact absurd hEq hApart
    · rfl
  refine ⟨x, hReach, ⟨_, (hDone 0 (by decide)).1, (hDone 1 (by decide)).2⟩, ?_⟩
  exact ⟨_, (hDone 1 (by decide)).1, (hDone 0 (by decide)).2⟩

end RedGeo.Repo
