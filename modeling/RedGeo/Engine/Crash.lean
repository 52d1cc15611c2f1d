import RedGeo.Engine.Machine

/-!
# RedGeo — crashes in the middle of a rotation primitive

`Activate`, `Commit` and `Rollback` write the two metadata keys one after the
other and purge a namespace entry by entry; the process can die at any of these
accesses. This module settles what `restoreGen` then finds.

* `CrashSafe` — what a restart should find: a settled partition on a decided
  generation, or an in-doubt one with two different, untouched generations that
  either resolution leaves in order.
* `Call.Torn` — the two crash points where it does not: between the two writes
  of `Activate`, and between the two writes of the `Rollback` of an activated
  generation.
* `crash_safe_iff` — in every run without storage errors in which no earlier
  crash was torn, a crash at any access of any call is safe exactly when it is
  not torn.

The invariant behind it is `Coherent`: memory and metadata agree.
-/

namespace RedGeo.Engine

open Lib List Option Partition Machine Prod

variable {ρ κ ν γ : Type}

/-! ## What a restart should find -/

section

variable [DecidableEq ρ]

/-- Either resolution of an in-doubt partition leaves the namespace of the
generation it makes active as it was. -/
def ResolvesSafely (p : Partition) (d : Backing ρ) : Prop :=
  ∀ plan p' err d', commit p plan d = (.ok (p', err), d') ∨
    rollback p plan d = (.ok (p', err), d') → d'.ns p'.gen = d.ns p'.gen

/-- **What a restart should find**, given the machine before the call that
crashed and the one after the restart. -/
structure CrashSafe (before after : Machine ρ) : Prop where
  recovered :
    (after.part.inDoubt = false ∧ after.part.gen ∈ after.decided) ∨
    (after.part.inDoubt = true ∧ after.part.prevGen ≠ after.part.gen ∧
      after.disk.ns after.part.gen = before.disk.ns after.part.gen ∧
      after.disk.ns after.part.prevGen = before.disk.ns after.part.prevGen)
  resolved : after.part.inDoubt = true → ResolvesSafely after.part after.disk

/-- The calls that write metadata. -/
inductive Call
  | activate (waitSeed : Bool)
  | commit
  | rollback
  deriving DecidableEq, Repr

namespace Call

/-- The call itself. -/
def run : Call → Partition → BackM ρ (Partition × Except EngineErr Unit)
  | .activate waitSeed, p => Engine.activate p waitSeed
  | .commit, p => Engine.commit p
  | .rollback, p => Engine.rollback p

/-- The call as an event of a run. -/
def op : Call → Plan → Op ρ
  | .activate waitSeed, plan => .activate waitSeed plan
  | .commit, plan => .commit plan
  | .rollback, plan => .rollback plan

/-- The crash points between the two metadata writes where the half-written
pair means something else: a new generation without its `prev`, or the previous
generation as its own `prev`. -/
def Torn : Call → Partition → Access → Prop
  | .activate _, _, a => a = .putPrev
  | .commit, _, _ => False
  | .rollback, p, a => p.hasPrev = true ∧ a = .deletePrev

end Call

/-- The steps of the runs considered: no storage error, and no torn crash. -/
def Whole (s : Machine ρ) : Op ρ → Prop
  | .stage _ plan => ∀ a text, plan a ≠ .fail text
  | .activate w plan => (∀ a text, plan a ≠ .fail text) ∧
      ∀ a, plan a = .crash → ¬ (Call.activate w).Torn s.part a
  | .commit plan => ∀ a text, plan a ≠ .fail text
  | .rollback plan => (∀ a text, plan a ≠ .fail text) ∧ ∀ a, plan a = .crash → ¬ Call.rollback.Torn s.part a
  | .crash plan => ∀ a text, plan a ≠ .fail text
  | _ => True

end

/-! ## Memory and metadata agree -/

section

variable {s : Machine ρ}

/-- Memory and metadata agree, and the base generation is decided. -/
structure Coherent (s : Machine ρ) : Prop where
  gen : s.disk.gen.getD 0 = s.part.gen
  prev : s.disk.prev = if s.part.hasPrev then some s.part.prevGen else none
  next : s.part.hasPrev = true → s.part.gen = s.part.prevGen + 1
  staged : ∀ g, s.part.staged = some g → g = s.part.gen + 1 ∧ s.part.hasPrev = false ∧ g ∉ s.decided
  base : s.part.base ∈ s.decided

lemma coherent_init (idx : Nat) : Coherent (Machine.init idx : Machine ρ) where
  gen := rfl
  prev := rfl
  next h := absurd h (by simp [init])
  staged g h := absurd h (by simp [init])
  base := by simp [init, base]

/-- A restart over settled metadata. -/
lemma coherent_restart_settled (hGen : d.gen.getD 0 = G)
    (hPrev : d.prev = none) (hDec : G ∈ s.decided) : Coherent (s.restart d) where
  gen := by simp [restart]
  prev := by simp [restart, hPrev]
  next h := absurd h (by simp [restart, hPrev])
  staged g h := absurd h (by simp [restart])
  base := by
    have hBase : (s.restart d).part.base = G := by
      simp [restart, base, hPrev, hGen]
    rw [hBase]
    exact hDec

/-- A restart over the metadata as they were before the crash. -/
lemma Coherent.restart (hs : Coherent s) (hGen : d.gen.getD 0 = s.part.gen) (hPrev : d.prev = s.disk.prev)
    (hDec : ∀ g ∈ s.decided, g ∈ dec) : Coherent ({ s with decided := dec }.restart d) := by
  cases hp : s.part.hasPrev with
  | false =>
    refine coherent_restart_settled hGen (by rw [hPrev, hs.prev]; simp [hp]) (hDec _ ?_)
    have := hs.base
    rwa [Partition.base, hp] at this
  | true =>
    have hq : d.prev = some s.part.prevGen := by rw [hPrev, hs.prev]; simp [hp]
    have hBase : s.part.prevGen ∈ dec := hDec _ (by simpa [Partition.base, hp] using hs.base)
    exact
      { gen := by simp [Machine.restart]
        prev := by simp [Machine.restart, restoreGen_prevGen _ _ hq, hq]
        next := fun _ => by
          simp only [Machine.restart, restoreGen_gen, restoreGen_prevGen _ _ hq, hGen]
          exact hs.next hp
        staged := fun g h => absurd h (by simp [Machine.restart])
        base := by
          simpa [Machine.restart, Partition.base, restoreGen_prevGen _ _ hq, hq] using hBase }

lemma Coherent.rolledBack_hasPrev (hs : Coherent s) : (rolledBack s.part).hasPrev = false := by
  unfold rolledBack
  split
  · next g hg => exact (hs.staged g hg).2.1
  · split
    · rfl
    · next hp => simpa using hp

lemma Coherent.rolledBack_gen (hs : Coherent s) : (rolledBack s.part).gen = s.part.base := by
  unfold rolledBack Partition.base
  split
  · next g hg => simp [(hs.staged g hg).2.1]
  · split <;> rfl

end

/-! ## What a crash leaves -/

section

variable [DecidableEq ρ] {s : Machine ρ} {d' : Backing ρ}

/-- The metadata say what they said before the call, and no namespace changed. -/
structure AsBefore (s : Machine ρ) (d' : Backing ρ) : Prop where
  gen : d'.gen.getD 0 = s.part.gen
  prev : d'.prev = s.disk.prev
  ns : d'.ns = s.disk.ns

/-- The metadata are settled on a generation the call had decided. -/
structure SettledBy (s : Machine ρ) (call : Call) (d' : Backing ρ) : Prop where
  prev : d'.prev = none
  gen : d'.gen.getD 0 = s.part.base ∨ (call = .commit ∧ d'.gen.getD 0 = s.part.gen)

section

omit [DecidableEq ρ]

lemma Coherent.asBefore (hs : Coherent s) : AsBefore s s.disk := ⟨hs.gen, rfl, rfl⟩

lemma asBefore_putGen (h : n = s.part.gen) :
    AsBefore s { s.disk with gen := some n } := ⟨by simpa using h, rfl, rfl⟩

end

/-- A crash during the purge comes after both metadata writes. -/
lemma persistAndPurge_crashed {drop : Option Nat} (hPlan : ∀ a text, plan a ≠ .fail text)
    (hp : p.hasPrev = false) (h : persistAndPurge p drop plan d = (.crashed, d')) :
    (plan .putGen = .crash ∧ d' = d) ∨ (plan .deletePrev = .crash ∧ d' = { d with gen := some p.gen }) ∨
    (d'.gen = some p.gen ∧ d'.prev = none) := by
  rcases persistAndPurge_cases h with ⟨_, hCrash⟩ | ⟨o₀, d₁, o₁, hPersist, ho₀, hPurge, _⟩
  · have hAccess : prevAccess p = .deletePrev := by simp [prevAccess, hp]
    rcases persistGen_crashed hCrash with hFirst | hSecond
    · exact .inl hFirst
    · exact .inr (.inl (hAccess ▸ hSecond))
  · have hd₁ := persistGen_whole hPlan hPersist ho₀
    have hPurged := (purgeDropped_cases hPurge).1
    refine .inr (.inr ⟨?_, ?_⟩)
    · rw [hPurged.gen, hd₁, Backing.persisted_gen]
    · rw [hPurged.prev, hd₁, Backing.persisted_prev, hp]
      rfl

/-- **A crash that is not torn** leaves the metadata as they were, or settled on
a decided generation. -/
theorem call_crashed_safe (hs : Coherent s) (call : Call) (hPlan : ∀ a text, plan a ≠ .fail text)
    (hTorn : ∀ a, plan a = .crash → ¬ call.Torn s.part a) (h : call.run s.part plan s.disk = (.crashed, d')) :
    AsBefore s d' ∨ SettledBy s call d' := by
  cases call with
  | activate w =>
    obtain ⟨g, _, hPersist⟩ := activate_crashed h
    rcases persistGen_crashed hPersist with ⟨_, rfl⟩ | ⟨hPut, _⟩
    · exact .inl hs.asBefore
    · exact absurd rfl (hTorn _ hPut)
  | commit =>
    obtain ⟨o₁, hBody, ⟨_, rfl⟩ | ⟨_, hc, _⟩⟩ := commit_cases h
    · rcases persistAndPurge_crashed hPlan rfl hBody with ⟨_, rfl⟩ | ⟨_, rfl⟩ | ⟨hGen, hPrev⟩
      · exact .inl hs.asBefore
      · exact .inl (asBefore_putGen rfl)
      · exact .inr ⟨hPrev, .inr ⟨rfl, by rw [hGen]; rfl⟩⟩
    · cases hc
  | rollback =>
    rcases rollback_cases h with ⟨rfl, _⟩ | ⟨o₁, hBody, ⟨_, rfl⟩ | ⟨_, hc, _⟩⟩
    · exact .inl hs.asBefore
    · rcases persistAndPurge_crashed hPlan hs.rolledBack_hasPrev hBody with
        ⟨_, rfl⟩ | ⟨hDelete, rfl⟩ | ⟨hGen, hPrev⟩
      · exact .inl hs.asBefore
      · refine .inl (asBefore_putGen ?_)
        -- no activated generation is being rolled back, or the crash would be torn
        have hp : s.part.hasPrev = false := by
          by_contra hp
          exact hTorn _ hDelete ⟨by simpa using hp, rfl⟩
        rw [hs.rolledBack_gen, base, hp]
        rfl
      · refine .inr ⟨hPrev, .inl ?_⟩
        rw [hGen, getD_some, hs.rolledBack_gen]
    · cases hc

end

/-! ## Runs keep memory and metadata in agreement -/

section

variable [DecidableEq ρ] {s : Machine ρ}

/-- The decided generations once the call is made. -/
def Call.decides (call : Call) (s : Machine ρ) : List Nat :=
  match call with
  | .commit => s.part.gen :: s.decided
  | _ => s.decided

lemma Call.run_land (C : Crdt ρ κ ν γ) (call : Call) (s : Machine ρ) (plan : Plan) :
    step C s (call.op plan) = some (land { s with decided := call.decides s } plan
        ((call.run s.part plan s.disk).1.map fst, (call.run s.part plan s.disk).2)) := by
  cases call <;> rfl

section

omit [DecidableEq ρ]

lemma Call.mem_decides {call : Call} (h : g ∈ s.decided) : g ∈ call.decides s := by
  cases call
  · exact h
  · exact mem_cons_of_mem _ h
  · exact h

/-- A restart after a crash that is not torn. -/
lemma Coherent.after_crash {call : Call} {d' : Backing ρ} (hs : Coherent s)
    (h : AsBefore s d' ∨ SettledBy s call d') :
    Coherent ({ s with decided := call.decides s }.restart d') := by
  rcases h with hBefore | hSettled
  · exact hs.restart hBefore.gen hBefore.prev fun g => Call.mem_decides
  · refine coherent_restart_settled rfl hSettled.prev ?_
    rcases hSettled.gen with hBase | ⟨rfl, hGen⟩
    · rw [hBase]
      exact Call.mem_decides hs.base
    · rw [hGen]
      exact mem_cons_self

/-- A call that returned, its metadata written. -/
lemma coherent_persisted {d d' : Backing ρ}
    (hGen : d'.gen = (d.persisted p).gen) (hPrev : d'.prev = (d.persisted p).prev)
    (hNext : p.hasPrev = true → p.gen = p.prevGen + 1)
    (hStaged : ∀ g, p.staged = some g → g = p.gen + 1 ∧ p.hasPrev = false ∧ g ∉ dec)
    (hBase : p.base ∈ dec) : Coherent ⟨p, d', dec⟩ where
  gen := by simp [hGen]
  prev := hPrev
  next := hNext
  staged := hStaged
  base := hBase

end

/-- `Activate`, `Commit` and `Rollback` keep the agreement. -/
lemma Coherent.call (hs : Coherent s) (call : Call) (hPlan : ∀ a text, plan a ≠ .fail text)
    (hTorn : ∀ a, plan a = .crash → ¬ call.Torn s.part a) :
    Coherent (land { s with decided := call.decides s } plan
      ((call.run s.part plan s.disk).1.map fst, (call.run s.part plan s.disk).2)) := by
  rw [Plan.Restores.land fun a text _ => hPlan a text]
  rcases hRun : call.run s.part plan s.disk with ⟨o, d'⟩
  cases call with
  | activate w =>
    cases hStaged : s.part.staged with
    | none =>
      have hRun' : activate s.part w plan s.disk = (o, d') := hRun
      rw [activate_unstaged w hStaged] at hRun'
      obtain ⟨rfl, rfl⟩ := mk.inj hRun'
      exact hs
    | some g =>
      obtain ⟨hg, hp, hUndecided⟩ := hs.staged g hStaged
      obtain ⟨o₁, hPersist, ⟨rfl, rfl⟩ | ⟨err, rfl, ho₁⟩⟩ := activate_cases hStaged hRun
      · exact hs.after_crash (call_crashed_safe hs _ hPlan hTorn hRun)
      · have hd := persistGen_whole hPlan hPersist ho₁
        refine coherent_persisted (p := activated s.part g w) (by rw [hd]) (by rw [hd])
          (fun _ => hg) (fun g' hg' => absurd hg' (by simp [activated])) ?_
        have hBase := hs.base
        rw [Partition.base, hp] at hBase
        exact hBase
  | commit =>
    obtain ⟨o₁, hBody, ⟨rfl, rfl⟩ | ⟨err, rfl, rfl⟩⟩ := commit_cases hRun
    · exact hs.after_crash (call_crashed_safe hs _ hPlan hTorn hRun)
    · obtain ⟨hGen, hPrev⟩ := persistAndPurge_done hPlan hBody
      refine coherent_persisted (p := committed s.part) hGen hPrev
        (fun h => absurd h (by simp [committed])) ?_ mem_cons_self
      -- a generation staged above the active one is still undecided
      intro g hg
      obtain ⟨hNext, _, hUndecided⟩ := hs.staged g hg
      refine ⟨hNext, rfl, fun hMem => ?_⟩
      rcases mem_cons.mp hMem with hEq | hMem
      · omega
      · exact hUndecided hMem
  | rollback =>
    rcases rollback_cases hRun with ⟨rfl, _, _, ⟨rfl, _⟩ | ⟨e, rfl⟩⟩ |
      ⟨o₁, hBody, ⟨rfl, rfl⟩ | ⟨err, rfl, rfl⟩⟩
    · exact hs.after_crash (call_crashed_safe hs _ hPlan hTorn hRun)
    · exact hs
    · exact hs.after_crash (call_crashed_safe hs _ hPlan hTorn hRun)
    · obtain ⟨hGen, hPrev⟩ := persistAndPurge_done hPlan hBody
      have hp := hs.rolledBack_hasPrev
      refine coherent_persisted (p := reopenReads (rolledBack s.part)) hGen hPrev
        (fun h => absurd (hp ▸ h : false = true) (by simp)) ?_ ?_
      · -- nothing is staged any more
        intro g hg
        refine absurd hg ?_
        simp only [reopenReads, rolledBack]
        split
        · simp
        · next hNone => split <;> simp [hNone]
      · have hBase : (reopenReads (rolledBack s.part)).base = s.part.base := by
          rw [← hs.rolledBack_gen]
          simp [reopenReads, Partition.base, hp]
        rw [hBase]
        exact hs.base

section

omit [DecidableEq ρ]

/-- `Stage` keeps the agreement: it writes no metadata. -/
lemma Coherent.stage (hs : Coherent s) (C : Crdt ρ κ ν γ) (seed : Bool) (hPlan : ∀ a text, plan a ≠ .fail text) :
    Coherent (land { s with decided := s.decided.filter (· ≠ s.part.gen + 1) } plan
      ((stage C s.part seed plan s.disk).1.map fst, (stage C s.part seed plan s.disk).2)) := by
  rw [Plan.Restores.land fun a text _ => hPlan a text]
  have hNew : s.part.gen + 1 ∉ s.decided.filter (· ≠ s.part.gen + 1) := by simp
  have hBase : s.part.base ∈ s.decided.filter (· ≠ s.part.gen + 1) := by
    refine mem_filter.mpr ⟨hs.base, ?_⟩
    have : s.part.base ≠ s.part.gen + 1 := by
      unfold Partition.base
      split
      · next hp =>
        have := hs.next hp
        omega
      · omega
    simpa using this
  have hStaged : ∀ g, s.part.staged = some g →
      g = s.part.gen + 1 ∧ s.part.hasPrev = false ∧ g ∉ s.decided.filter (· ≠ s.part.gen + 1) :=
    fun g hg => ⟨(hs.staged g hg).1, (hs.staged g hg).2.1,
      fun hMem => (hs.staged g hg).2.2 (mem_of_mem_filter hMem)⟩
  have hErr : ∀ {d' : Backing ρ}, SameBut (s.part.gen + 1) s.disk d' →
      Coherent ⟨s.part, d', s.decided.filter (· ≠ s.part.gen + 1)⟩ :=
    fun hSame => ⟨by rw [hSame.gen]; exact hs.gen, by rw [hSame.prev]; exact hs.prev, hs.next, hStaged, hBase⟩
  rcases hRun : Engine.stage C s.part seed plan s.disk with ⟨o, d'⟩
  rcases stage_cases hRun with ⟨_, rfl, rfl⟩ | ⟨hDoubt, ⟨r, rfl⟩, hd⟩ | ⟨hDoubt, ho, hSame, _⟩
  · exact hErr (.refl _ _)
  · have hp : s.part.hasPrev = false := (inDoubt_eq_false.mp hDoubt).1
    have hSame : SameBut (s.part.gen + 1) s.disk d' := by
      rw [hd]
      split
      · exact .setNs _ _ _
      · exact .refl _ _
    refine ⟨(congrArg (·.getD 0) hSame.gen).trans hs.gen, hSame.prev.trans hs.prev, hs.next, ?_, hBase⟩
    intro g hg
    obtain rfl : s.part.gen + 1 = g := some.inj hg
    exact ⟨rfl, hp, hNew⟩
  · cases o with
    | ok r => exact absurd rfl (ho r)
    | err e => exact hErr hSame
    | crashed =>
      have hPrev : s.part.hasPrev = false := (inDoubt_eq_false.mp hDoubt).1
      rw [Partition.base, hPrev] at hBase
      exact coherent_restart_settled ((congrArg (·.getD 0) hSame.gen).trans hs.gen)
        (by rw [hSame.prev, hs.prev, hPrev]; rfl) hBase

/-- Between the primitives nothing touches the metadata. -/
lemma Coherent.between (hs : Coherent s) (h : s.Between s') : Coherent s' := by
  obtain ⟨⟨gate, hPart⟩, hDisk, hDecided⟩ := h
  have hMeta : s'.disk.gen = s.disk.gen ∧ s'.disk.prev = s.disk.prev := by
    rcases hDisk with hEq | ⟨_, _, _, hEq⟩
    · rw [hEq]
      exact ⟨rfl, rfl⟩
    · rw [hEq]
      exact ⟨rfl, rfl⟩
  refine ⟨?_, ?_, ?_, ?_, ?_⟩
  · rw [hMeta.1, hPart]
    exact hs.gen
  · rw [hMeta.2, hPart]
    exact hs.prev
  · rw [hPart]
    exact hs.next
  · rw [hPart, hDecided]
    exact hs.staged
  · rw [hPart, hDecided]
    exact hs.base

end

/-- **Memory and metadata agree** in every state of a run without storage
errors and torn crashes. -/
theorem coherent_of_reach {C : Crdt ρ κ ν γ} {idx : Nat} (hReach : Reach (step C) Whole (init idx) s) :
    Coherent s := by
  refine hReach.induct (coherent_init idx) ?_
  intro s s' op _ hs hK hStep
  cases op with
  | freeze | unfreeze | beginWrite | write es | background g es =>
    exact hs.between (between_of_step (by constructor) hStep)
  | stage seed plan =>
    obtain rfl := some.inj hStep
    exact hs.stage C seed hK
  | activate w plan =>
    obtain rfl := some.inj hStep
    exact hs.call (.activate w) hK.1 hK.2
  | commit plan =>
    obtain rfl := some.inj hStep
    exact hs.call .commit hK fun _ _ => id
  | rollback plan =>
    obtain rfl := some.inj hStep
    exact hs.call .rollback hK.1 hK.2
  | crash =>
    obtain rfl := some.inj hStep
    rw [restart, Plan.Restores.restoreGen _ _ fun a text _ => hK a text]
    exact hs.restart hs.gen rfl fun _ hg => hg

end

/-! ## When a crash is safe -/

section

variable [DecidableEq ρ] {s s' : Machine ρ} {d' : Backing ρ}

/-- With two different generations, neither resolution purges the one it
leaves active. -/
lemma resolvesSafely_of_ne {d : Backing ρ} (hStaged : p.staged = none)
    (hPrev : p.hasPrev = true) (hNe : p.prevGen ≠ p.gen) : ResolvesSafely p d := by
  intro plan p' err d' h
  -- the namespaces other than the dropped one keep their entries
  have hKeep : ∀ {q : Partition} {drop : Option Nat} {err : Except EngineErr Unit} {i : Nat},
      persistAndPurge q drop plan d = (.ok err, d') → drop ≠ some i → d'.ns i = d.ns i := by
    intro q drop err i hBody hi
    rcases persistAndPurge_cases hBody with ⟨hc, _⟩ | ⟨_, d₁, _, hPersist, _, hPurge, _⟩
    · cases hc
    · rw [(purgeDropped_cases hPurge).1.ns i hi, (persistGen_partly hPersist).ns]
  rcases h with hCommit | hRollback
  · obtain ⟨o₁, hBody, ⟨hc, _⟩ | ⟨_, ho, rfl⟩⟩ := commit_cases hCommit
    · cases hc
    · obtain ⟨rfl, rfl⟩ := mk.inj (Outcome.ok.inj ho)
      exact hKeep hBody (by simpa [commitDrops, hPrev, committed] using hNe)
  · rcases rollback_cases hRollback with ⟨rfl, _, _, ⟨hc, _⟩ | ⟨e, ho⟩⟩ |
      ⟨o₁, hBody, ⟨hc, _⟩ | ⟨_, ho, rfl⟩⟩
    · cases hc
    · rfl
    · cases hc
    · obtain ⟨rfl, rfl⟩ := mk.inj (Outcome.ok.inj ho)
      refine hKeep hBody ?_
      simpa [rollbackDrops, rolledBack, reopenReads, hStaged, hPrev] using hNe.symm

lemma crashSafe_of_leavings (hs : Coherent s)
    (h : AsBefore s d' ∨ SettledBy s call d') :
    CrashSafe s ({ s with decided := call.decides s }.restart d') := by
  have hAfter := hs.after_crash h
  have hStaged : ({ s with decided := call.decides s }.restart d').part.staged = none := by
    simp [restart]
  cases hp : ({ s with decided := call.decides s }.restart d').part.hasPrev with
  | false =>
    have hDoubt : ({ s with decided := call.decides s }.restart d').part.inDoubt = false := by
      simp [inDoubt, hp, hStaged]
    refine ⟨.inl ⟨hDoubt, ?_⟩, fun hc => absurd hc (by simp [hDoubt])⟩
    have hBase := hAfter.base
    rwa [base, hp] at hBase
  | true =>
    have hDoubt : ({ s with decided := call.decides s }.restart d').part.inDoubt = true := by
      simp [inDoubt, hp]
    have hNext := hAfter.next hp
    have hNs : d'.ns = s.disk.ns := by
      rcases h with hBefore | hSettled
      · exact hBefore.ns
      · simp [restart, hSettled.prev] at hp
    refine ⟨.inr ⟨hDoubt, by omega, ?_, ?_⟩, fun _ => resolvesSafely_of_ne hStaged hp (by omega)⟩
    · exact congrFun hNs _
    · exact congrFun hNs _

lemma crashAt_ne_fail (b : Access) (text : String) : Plan.crashAt a b ≠ .fail text := by
  unfold Plan.crashAt
  split <;> simp

lemma crashAt_crash (h : Plan.crashAt a b = .crash) : b = a := by
  unfold Plan.crashAt at h
  split at h
  · assumption
  · cases h

/-- A crash between the two writes of `Activate` is not safe: the restart is
settled on the new generation, which nobody has decided. -/
lemma not_crashSafe_activate (hs : Coherent s) (hDec : ∀ g, s.part.staged = some g → g ∉ dec)
    (h : activate s.part w (.crashAt .putPrev) s.disk = (.crashed, d')) : ¬ CrashSafe s
    ({ s with decided := dec }.restart d') := by
  rintro ⟨hSafe, _⟩
  obtain ⟨g, hStaged, hPersist⟩ := activate_crashed h
  have hPrev : s.disk.prev = none := by
    rw [hs.prev, (hs.staged g hStaged).2.1]
    rfl
  rcases persistGen_crashed hPersist with ⟨hPut, _⟩ | ⟨_, rfl⟩
  · exact absurd (crashAt_crash hPut) (by simp)
  · rcases hSafe with ⟨_, hMem⟩ | ⟨hDoubt, _⟩
    · rw [restart, restoreGen_gen] at hMem
      exact hDec g hStaged hMem
    · simp [restart, inDoubt, hPrev] at hDoubt

/-- A crash between the two writes of the `Rollback` of an activated generation is
not safe: the previous generation has become its own `prev`. -/
lemma not_crashSafe_rollback (hs : Coherent s) (hp : s.part.hasPrev = true)
    (h : rollback s.part (.crashAt .deletePrev) s.disk = (.crashed, d')) :
    ¬ CrashSafe s ({ s with decided := dec }.restart d') := by
  rintro ⟨hSafe, _⟩
  have hPrev : s.disk.prev = some s.part.prevGen := by
    rw [hs.prev, hp]
    rfl
  have hGen : (rolledBack s.part).gen = s.part.prevGen := by
    rw [hs.rolledBack_gen, base, hp]
    rfl
  rcases rollback_cases h with ⟨_, _, _, ⟨_, hOpen⟩ | ⟨_, hc⟩⟩ |
    ⟨o₁, hBody, ⟨_, rfl⟩ | ⟨_, hc, _⟩⟩
  · exact absurd (crashAt_crash hOpen) (by simp)
  · cases hc
  · rcases persistAndPurge_cases hBody with ⟨_, hCrash⟩ | ⟨o₀, d₁, o₁, hPersist, ho₀, _⟩
    · rcases persistGen_crashed hCrash with ⟨hPut, _⟩ | ⟨_, rfl⟩
      · exact absurd (crashAt_crash hPut) (by simp)
      · rcases hSafe with ⟨hDoubt, _⟩ | ⟨_, hNe, _⟩
        · simp [restart, inDoubt, hPrev] at hDoubt
        · have hq : (restoreGen s.part.idx
              { s.disk with gen := some (rolledBack s.part).gen }).prevGen = s.part.prevGen :=
            restoreGen_prevGen _ _ hPrev
          refine hNe (hq.trans ?_)
          rw [restart, restoreGen_gen]
          exact hGen.symm
    · -- under this plan no `persistGen` that deletes `prev` comes to its end
      rw [persistGen_eq] at hPersist
      have hAccess : prevAccess (rolledBack s.part) = .deletePrev := by
        simp [prevAccess, hs.rolledBack_hasPrev]
      simp only [hAccess, Plan.crashAt] at hPersist
      exact ho₀ (mk.inj hPersist).1.symm
  · cases hc

/-- A torn crash is not safe. -/
lemma not_crashSafe_of_torn {call : Call} (hs : Coherent s)
    (hTorn : call.Torn s.part a) (h : call.run s.part (.crashAt a) s.disk = (.crashed, d')) :
    ¬ CrashSafe s ({ s with decided := call.decides s }.restart d') := by
  cases call with
  | activate w =>
    obtain rfl : a = .putPrev := hTorn
    exact not_crashSafe_activate hs (fun g hg => (hs.staged g hg).2.2) h
  | commit => exact hTorn.elim
  | rollback =>
    obtain ⟨hp, rfl⟩ := hTorn
    exact not_crashSafe_rollback hs hp h

/-- **When a crash is safe.** In every run without storage errors and torn
crashes, whichever of the three calls is made next and at whichever of its
accesses the process dies, the restart finds what it should exactly when the
crash is not torn. -/
theorem crash_safe_iff (C : Crdt ρ κ ν γ) {idx : Nat} (hReach : Reach (step C) Whole (init idx) s)
    (call : Call) (a : Access) (hCrash : call.run s.part (.crashAt a) s.disk = (.crashed, d'))
    (hStep : step C s (call.op (.crashAt a)) = some s') : CrashSafe s s' ↔ ¬ call.Torn s.part a := by
  have hs := coherent_of_reach hReach
  have hs' : s' = { s with decided := call.decides s }.restart d' := by
    rw [Call.run_land, hCrash, Plan.Restores.land fun b text _ => crashAt_ne_fail b text, some.injEq] at hStep
    exact hStep.symm
  rw [hs']
  constructor
  · intro hSafe hTorn
    exact not_crashSafe_of_torn hs hTorn hCrash hSafe
  · intro hTorn
    refine crashSafe_of_leavings hs (call_crashed_safe hs call crashAt_ne_fail ?_ hCrash)
    intro b hb
    exact crashAt_crash hb ▸ hTorn

end

/-! ## The torn crashes -/

/-- `Stage` on a fresh replica. -/
private def stagedOnce : Machine KvEntry := ⟨{ staged := some 1 }, {}, [0]⟩

/-- `Stage` and `Activate` on a fresh replica. -/
private def activatedOnce : Machine KvEntry :=
  ⟨{ gen := 1, hasPrev := true, oldOpen := true }, { gen := some 1, prev := some 0 }, [0]⟩

private lemma stagedOnce_reach : Reach (step kvCrdt) Whole (init 0) stagedOnce :=
  .next (a := .stage false .quiet) .init (fun a text => by simp) rfl

private lemma activatedOnce_reach : Reach (step kvCrdt) Whole (init 0) activatedOnce :=
  .next (a := .activate false .quiet) stagedOnce_reach
    ⟨fun a text => by simp, fun a h => absurd h (by simp)⟩ rfl

/-- Both torn crashes happen. A participant that dies between the two writes of
`Activate` restarts settled on generation 1, which nobody has decided; one that
dies between the two writes of `Rollback` restarts with generation 0 as its own
previous generation, and either resolution then empties the namespace it
leaves active. -/
theorem torn_crashes :
    (∃ s', step kvCrdt stagedOnce (.activate false (.crashAt .putPrev)) = some s' ∧
      s'.part.inDoubt = false ∧ s'.part.gen = 1 ∧ ¬ CrashSafe stagedOnce s') ∧
    (∃ s', step kvCrdt activatedOnce (.rollback (.crashAt .deletePrev)) = some s' ∧
      s'.part.gen = 0 ∧ s'.part.hasPrev = true ∧ s'.part.prevGen = 0 ∧
      ¬ CrashSafe activatedOnce s') ∧ Reach (step kvCrdt) Whole (init 0) stagedOnce ∧
    Reach (step kvCrdt) Whole (init 0) activatedOnce := by
  refine ⟨⟨_, rfl, rfl, rfl, ?_⟩, ⟨_, rfl, rfl, rfl, rfl, ?_⟩, stagedOnce_reach, activatedOnce_reach⟩
  · rintro ⟨⟨_, hMem⟩ | ⟨hDoubt, _⟩, _⟩
    · exact absurd hMem (by decide)
    · exact absurd hDoubt (by decide)
  · rintro ⟨⟨hDoubt, _⟩ | ⟨_, hNe, _⟩, _⟩
    · exact absurd hDoubt (by decide)
    · exact absurd rfl hNe

/-- A crash at the first write of `Commit`, after a whole activation. -/
theorem commit_first_write_crash : ∃ s', step kvCrdt activatedOnce (Call.commit.op (.crashAt .putGen)) =
    some s' ∧ CrashSafe activatedOnce s' :=
  ⟨_, rfl, (crash_safe_iff kvCrdt activatedOnce_reach .commit .putGen rfl rfl).mpr id⟩

end RedGeo.Engine
