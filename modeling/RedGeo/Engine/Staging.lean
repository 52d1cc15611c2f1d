import RedGeo.Engine.Machine

/-!
# RedGeo — staging is exact

A successful `Stage` opens the namespace of the next generation as it finds it
and adds the seed's puts to it. The staged generation therefore equals the
active one only if no earlier attempt on the same number left entries there.

* `StagedExactly` — the live map of the staged generation is the active one's
  (with a seed) or empty (without).
* `Tolerated` — the steps after which no such residue can remain.
* `stage_exact` — in every run of these steps, faults and crashes included,
  every successful `Stage` is exact.

The invariant is `Clean`: no namespace above the newest generation the
partition knows of holds entries, and the same would hold after a restart.
-/

namespace RedGeo.Engine

open Lib Option Partition Machine Engine Backing Prod

variable {ρ κ ν γ : Type}

/-! ## Statement -/

/-- The staged generation's live map is the active one's, or empty. -/
def StagedExactly [DecidableEq κ] (C : Crdt ρ κ ν γ) (p : Partition) (seed : Bool)
    (d : Backing ρ) : Prop :=
  ∀ k, C.live (d.ns (p.gen + 1)) k = if seed then C.live (d.ns p.gen) k else none

/-- The generation a restart would be on. -/
def Backing.genOnDisk (d : Backing ρ) : Nat := d.gen.getD 0

/-- The faults after which nothing is left behind in a namespace that is still
to be staged:

* a batch commit of `Stage` is not interrupted after its first entry;
* the process does not die while a staged generation holds entries;
* the first write of `Activate` does not fail, and its second is interrupted
  only if no stale `prev` is on disk;
* the purge of `Rollback` goes through, and `Rollback` does not die between its
  two metadata writes or, with entries in a generation above the persisted one,
  before them;
* a restart can read the two numbers: it drops the error of a `Get`, and a node
  that resumes on generation 0 stages onto the namespaces it has forgotten.

Every other fault of `Commit`, and every error of the metadata writes of `Rollback`,
is tolerated. -/
def Tolerated (s : Machine ρ) : Op ρ → Prop
  | .stage seed plan => plan.Restores ∧ (seed = true → ∀ i, 0 < i → plan (.put i) = .ok)
  | .activate _ plan => plan.Restores ∧ ∀ g, s.part.staged = some g → (plan .putGen = .ok ∨
        (plan .putGen = .crash ∧ (s.disk.ns g = [] ∨ g ≤ s.disk.genOnDisk))) ∧
      (plan .putPrev = .ok ∨ ∀ q, s.disk.prev = some q → s.part.gen ≤ q)
  | .commit plan => plan.Restores ∧ ∀ g, s.part.staged = some g → s.disk.ns g ≠ [] →
      plan .putGen ≠ .crash ∧ plan .deletePrev ≠ .crash
  | .rollback plan => plan.Restores ∧ ∀ g, rollbackDrops s.part = some g → s.disk.ns g ≠ [] →
      plan .purgeQuery = .ok ∧ (∀ i, plan (.purgeDelete i) = .ok) ∧
      plan .deletePrev ≠ .crash ∧ (plan .putGen = .crash → g ≤ s.disk.genOnDisk)
  | .crash plan => plan.Restores ∧ ∀ g, s.part.staged = some g → s.disk.ns g = [] ∨ g ≤ s.disk.genOnDisk
  | _ => True

/-! ## The invariant -/

/-- A store a restart can stage from: nothing above the persisted generation,
and a pending `prev` right below it. -/
structure CleanDisk (d : Backing ρ) : Prop where
  above : ∀ i, d.genOnDisk < i → d.ns i = []
  prev : ∀ q, d.prev = some q → q ≤ d.genOnDisk ∧ d.genOnDisk ≤ q + 1

/-- Nothing is left above the newest generation the partition knows of; memory
is never ahead of the metadata. -/
structure Clean (s : Machine ρ) : Prop where
  above : ∀ i, s.part.gen < i → s.part.staged ≠ some i → s.disk.ns i = []
  staged : ∀ g, s.part.staged = some g → g = s.part.gen + 1 ∧ s.part.hasPrev = false
  gen : s.part.gen ≤ s.disk.genOnDisk
  prevGen : s.part.hasPrev = true → s.part.prevGen ≤ s.part.gen ∧ s.part.gen ≤ s.part.prevGen + 1
  prev : ∀ q, s.disk.prev = some q → q ≤ s.part.base ∧ q ≤ s.disk.genOnDisk ∧ s.disk.genOnDisk ≤ q + 1

lemma clean_init (idx : Nat) : Clean (Machine.init idx : Machine ρ) where
  above _ _ _ := rfl
  staged g h := absurd h (by simp [init])
  gen := Nat.le_refl 0
  prevGen h := absurd h (by simp [init])
  prev q h := absurd h (by simp [init])

/-- A restart over a clean store. -/
lemma CleanDisk.restart (hd : CleanDisk d) (s : Machine ρ) :
    Clean (s.restart d) where
  above i hi _ := hd.above i (by simpa [Machine.restart, genOnDisk] using hi)
  staged g h := absurd h (by simp [Machine.restart])
  gen := by simp [Machine.restart, genOnDisk]
  prevGen h := by
    cases hq : d.prev with
    | none => simp [Machine.restart, hq] at h
    | some q =>
      have := hd.prev q hq
      simpa [Machine.restart, restoreGen_prevGen _ _ hq, genOnDisk] using this
  prev q hq := by
    have hq' : d.prev = some q := hq
    have hBase : (s.restart d).part.base = q := by
      simp [Machine.restart, Partition.base, restoreGen_prevGen _ _ hq', hq']
    exact ⟨Nat.le_of_eq hBase.symm, hd.prev q hq'⟩

section

variable {s : Machine ρ} {d' : Backing ρ}

lemma Clean.base_le (hs : Clean s) : s.part.base ≤ s.part.gen := by
  unfold base
  split
  · next hp => exact (hs.prevGen hp).1
  · exact Nat.le_refl _

/-- A crash right here would leave a clean store. -/
lemma Clean.disk (hs : Clean s)
    (hStaged : ∀ g, s.part.staged = some g → s.disk.ns g = [] ∨ g ≤ s.disk.genOnDisk) :
    CleanDisk s.disk where
  above i hi := by
    by_cases hg : s.part.staged = some i
    · rcases hStaged i hg with hEmpty | hle
      · exact hEmpty
      · omega
    · exact hs.above i (Nat.lt_of_le_of_lt hs.gen hi) hg
  prev q hq := (hs.prev q hq).2

lemma Partly.genOnDisk (h : Partly p d d₁) : d₁.genOnDisk = d.genOnDisk ∨ d₁.genOnDisk = p.gen := by
  cases h
  · exact .inl rfl
  · exact .inr rfl
  · exact .inr rfl

/-- What the common end of `Commit` and `Rollback` leaves of the metadata and of
the namespaces that were empty. -/
structure Settling (s : Machine ρ) (G : Nat) (d' : Backing ρ) : Prop where
  gen : d'.genOnDisk = s.disk.genOnDisk ∨ d'.genOnDisk = G
  prev : d'.prev = s.disk.prev ∨ d'.prev = none
  empty : ∀ i, s.disk.ns i = [] → d'.ns i = []

lemma settling_of_partly (h : Partly p s.disk d₁) (hp : p.hasPrev = false)
    (hPurged : Purged drop d₁ d') : Settling s p.gen d' where
  gen := by
    have hGen : d'.genOnDisk = d₁.genOnDisk := congrArg (·.getD 0) hPurged.gen
    rw [hGen]
    exact h.genOnDisk
  prev := by
    rw [hPurged.prev]
    cases h
    · exact .inl rfl
    · exact .inl rfl
    · exact .inr (by simp [hp])
  empty i hi := hPurged.empty i (by rw [h.ns, hi])

/-- The same of a whole end, however it went. -/
lemma settling_of_body [DecidableEq ρ] (hp : p.hasPrev = false)
    (hBody : persistAndPurge p drop plan s.disk = (o, d')) : Settling s p.gen d' := by
  rcases persistAndPurge_cases hBody with ⟨_, hCrash⟩ | ⟨_, d₁, _, hPersist, _, hPurge, _⟩
  · exact settling_of_partly (persistGen_partly hCrash) hp (.refl none d')
  · exact settling_of_partly (persistGen_partly hPersist) hp (purgeDropped_cases hPurge).1

/-- The metadata stay in step when `base ≤ G ≤ gen` is written. -/
lemma Settling.meta (hs : Clean s) (h : Settling s G d') (hLo : s.part.base ≤ G) (hHi : G ≤ s.part.gen) :
    G ≤ d'.genOnDisk ∧ ∀ q, d'.prev = some q → q ≤ G ∧ q ≤ d'.genOnDisk ∧ d'.genOnDisk ≤ q + 1 := by
  have hGen := hs.gen
  refine ⟨by rcases h.gen with hg | hg <;> omega, ?_⟩
  intro q hq
  rcases h.prev with hp | hp
  · have := hs.prev q (hp ▸ hq)
    rcases h.gen with hg | hg <;> omega
  · rw [hp] at hq
    cases hq

/-- Above the base generation only the dropped one can hold entries. -/
lemma Clean.above_base (hs : Clean s) (hi : s.part.base < i) (hDrop : rollbackDrops s.part ≠ some i) :
    s.disk.ns i = [] := by
  cases hStaged : s.part.staged with
  | some g =>
    have hp := (hs.staged g hStaged).2
    rw [base, hp] at hi
    refine hs.above i hi fun hg => hDrop ?_
    rw [rollbackDrops, hg]
  | none =>
    cases hp : s.part.hasPrev with
    | false =>
      rw [base, hp] at hi
      exact hs.above i hi (by simp [hStaged])
    | true =>
      have hBase : s.part.base = s.part.prevGen := by simp [base, hp]
      have hNe : s.part.gen ≠ i := by
        rintro rfl
        exact hDrop (by simp [rollbackDrops, hStaged, hp])
      have := hs.prevGen hp
      exact hs.above i (by omega) (by simp [hStaged])

lemma Clean.rolledBack_eq (hs : Clean s) : (rolledBack s.part).gen = s.part.base ∧
    (rolledBack s.part).hasPrev = false ∧ (rolledBack s.part).staged = none := by
  unfold rolledBack base
  split
  · next g hg => simp [(hs.staged g hg).2]
  · next hNone => split <;> simp_all

end

/-! ## Each step keeps it -/

section

variable [DecidableEq ρ] {s : Machine ρ} {plan : Plan}

lemma Clean.commit (hs : Clean s) (dec : List Nat) (hK : Tolerated s (.commit plan)) :
    Clean (land { s with decided := dec } plan
      ((commit s.part plan s.disk).1.map fst, (commit s.part plan s.disk).2)) := by
  rw [hK.1.land]
  rcases hRun : Engine.commit s.part plan s.disk with ⟨o, d'⟩
  obtain ⟨o₁, hBody, hEnd⟩ := commit_cases hRun
  have hSettling : Settling s s.part.gen d' := settling_of_body (p := committed s.part) rfl hBody
  have hMeta := hSettling.meta hs hs.base_le (Nat.le_refl _)
  rcases hEnd with ⟨rfl, rfl⟩ | ⟨err, rfl, rfl⟩
  · refine CleanDisk.restart ⟨fun i hi => hSettling.empty i ?_, fun q hq => (hMeta.2 q hq).2⟩ _
    by_cases hg : s.part.staged = some i
    · -- with a staged generation the only accesses are the two metadata writes
      by_contra hNe
      obtain ⟨hPut, hDelete⟩ := hK.2 i hg hNe
      have hDrop : commitDrops s.part = none := by simp [commitDrops, (hs.staged i hg).2]
      rcases persistAndPurge_cases hBody with ⟨_, hCrash⟩ |
        ⟨_, _, _, _, _, hPurge, ⟨_, rfl⟩ | ⟨_, hc, _⟩⟩
      · rcases persistGen_crashed hCrash with ⟨h, _⟩ | ⟨h, _⟩
        · exact hPut h
        · exact hDelete h
      · rcases (purgeDropped_cases hPurge).2 with hc | ⟨_, hc⟩
        · cases hc
        · exact hc hDrop
      · cases hc
    · exact hs.above i (Nat.lt_of_le_of_lt hMeta.1 hi) hg
  · exact
      { above := fun i hi hg => hSettling.empty i (hs.above i hi hg)
        staged := fun g hg => ⟨(hs.staged g hg).1, rfl⟩
        gen := hMeta.1
        prevGen := fun h => absurd h (by simp [land, Outcome.map, committed])
        prev := hMeta.2 }

/-- A rollback that gets past its first write leaves nothing above the base
generation. -/
lemma Clean.rollback_empties (hs : Clean s) (hK : Tolerated s (.rollback plan))
    {o : Outcome (Except EngineErr Unit)} {d' : Backing ρ}
    (hBody : persistAndPurge (rolledBack s.part) (rollbackDrops s.part) plan s.disk = (o, d'))
    (hFirst : plan .putGen ≠ .crash) {i : Nat} (hi : s.part.base < i) : d'.ns i = [] := by
  have hPrev : (rolledBack s.part).hasPrev = false := hs.rolledBack_eq.2.1
  have hSettling := settling_of_body hPrev hBody
  by_cases hDrop : rollbackDrops s.part = some i
  swap
  · exact hSettling.empty i (hs.above_base hi hDrop)
  by_cases hEmpty : s.disk.ns i = []
  · exact hSettling.empty i hEmpty
  -- the dropped generation holds entries, so its purge goes through
  obtain ⟨hQuery, hDelete, hSecond, _⟩ := hK.2 i hDrop hEmpty
  rcases persistAndPurge_cases hBody with ⟨_, hCrash⟩ | ⟨_, d₁, _, _, _, hPurge, _⟩
  · have hAccess : prevAccess (rolledBack s.part) = .deletePrev := by
      simp [prevAccess, hPrev]
    rcases persistGen_crashed hCrash with ⟨hPut, _⟩ | ⟨hPut, _⟩
    · exact absurd hPut hFirst
    · exact absurd (hAccess ▸ hPut) hSecond
  · rw [hDrop, purgeDropped_ok d₁ hQuery hDelete] at hPurge
    obtain ⟨_, rfl⟩ := mk.inj hPurge
    exact setNs_ns_self d₁ i []

lemma Clean.rollback (hs : Clean s) (hK : Tolerated s (.rollback plan)) :
    Clean (s.land plan ((rollback s.part plan s.disk).1.map fst, (rollback s.part plan s.disk).2)) := by
  rw [hK.1.land]
  rcases hRun : Engine.rollback s.part plan s.disk with ⟨o, d'⟩
  obtain ⟨hGen, hPrev, hStaged⟩ := hs.rolledBack_eq
  rcases rollback_cases hRun with ⟨rfl, _, hNone, ⟨rfl, _⟩ | ⟨e, rfl⟩⟩ | ⟨o₁, hBody, hEnd⟩
  · exact (hs.disk fun g hg => absurd hg (by simp [hNone])).restart s
  · exact hs
  by_cases hFirst : plan .putGen = .crash
  · -- it died at its first write: the store is as it was
    rw [persistAndPurge_first_crash hFirst] at hBody
    obtain ⟨rfl, rfl⟩ := mk.inj hBody
    rcases hEnd with ⟨rfl, _⟩ | ⟨_, _, hc⟩
    · refine (hs.disk fun g hg => ?_).restart s
      by_cases hEmpty : s.disk.ns g = []
      · exact .inl hEmpty
      · exact .inr ((hK.2 g (by simp [rollbackDrops, hg]) hEmpty).2.2.2 hFirst)
    · cases hc
  have hMeta := (settling_of_body hPrev hBody).meta hs (Nat.le_of_eq hGen.symm)
    (hGen ▸ hs.base_le)
  rw [hGen] at hMeta
  have hEmpties : ∀ i, s.part.base < i → d'.ns i = [] :=
    fun i hi => hs.rollback_empties hK hBody hFirst hi
  rcases hEnd with ⟨rfl, rfl⟩ | ⟨err, rfl, rfl⟩
  · exact CleanDisk.restart ⟨fun i hi => hEmpties i (Nat.lt_of_le_of_lt hMeta.1 hi),
      fun q hq => (hMeta.2 q hq).2⟩ s
  · have hBase : (reopenReads (rolledBack s.part)).base = s.part.base := by
      rw [← hGen]
      simp [reopenReads, base, hPrev]
    refine
      { above := fun i hi _ => hEmpties i (hGen ▸ hi)
        staged := fun g hg => absurd (hStaged.symm.trans hg) (by simp)
        gen := hGen ▸ hMeta.1
        prevGen := fun h => absurd (hPrev.symm.trans h) (by simp)
        prev := fun q hq => ?_ }
    rw [show (land s .quiet (Outcome.map fst
      (Outcome.ok (reopenReads (rolledBack s.part), err)), d')).part.base = s.part.base from hBase]
    exact hMeta.2 q hq

section

omit [DecidableEq ρ]

/-- After `Activate` has written the new generation. -/
lemma Clean.switched (hs : Clean s) {g : Nat} (hStaged : s.part.staged = some g)
    {d' : Backing ρ} (hGen : d'.gen = some g) (hNs : d'.ns = s.disk.ns)
    (hPrev : ∀ q, d'.prev = some q → q = s.part.gen) (w : Bool) :
    Clean { s with part := activated s.part g w, disk := d' } ∧ CleanDisk d' := by
  obtain ⟨hg, hp⟩ := hs.staged g hStaged
  have hDisk : d'.genOnDisk = g := congrArg (·.getD 0) hGen
  have hAbove : ∀ i, g < i → d'.ns i = [] := by
    intro i hi
    rw [hNs]
    refine hs.above i (by omega) ?_
    rw [hStaged, ne_eq, some.injEq]
    omega
  refine ⟨⟨fun i hi _ => hAbove i hi, fun g' hg' => absurd hg' (by simp [activated]),
    Nat.le_of_eq hDisk.symm, fun _ => ?_, fun q hq => ?_⟩, ⟨fun i hi => hAbove i (hDisk ▸ hi), ?_⟩⟩
  · show s.part.gen ≤ g ∧ g ≤ s.part.gen + 1
    omega
  · have hBase : (activated s.part g w).base = s.part.gen := rfl
    have := hPrev q hq
    simp only [hBase, hDisk]
    omega
  · intro q hq
    have := hPrev q hq
    omega

lemma Clean.activate (hs : Clean s) (w : Bool) (hK : Tolerated s (.activate w plan)) :
    Clean (s.land plan ((activate s.part w plan s.disk).1.map fst, (activate s.part w plan s.disk).2)) := by
  rw [hK.1.land]
  rcases hRun : Engine.activate s.part w plan s.disk with ⟨o, d'⟩
  cases hStaged : s.part.staged with
  | none =>
    rw [activate_unstaged w hStaged] at hRun
    obtain ⟨rfl, rfl⟩ := mk.inj hRun
    exact hs
  | some g =>
    obtain ⟨o₁, hPersist, hEnd⟩ := activate_cases hStaged hRun
    obtain ⟨hPut, hPutPrev⟩ := hK.2 g hStaged
    rw [persistGen_eq] at hPersist
    rcases hPut with hPut | ⟨hPut, hEmpty⟩
    · -- the new generation is on disk; its `prev` is, or nothing else is
      have hAfter : d'.gen = some g ∧ d'.ns = s.disk.ns ∧ ∀ q, d'.prev = some q → q = s.part.gen := by
        have hBase : s.part.base = s.part.gen := by
          simp [base, (hs.staged g hStaged).2]
        have hStale : plan .putPrev ≠ .ok → ∀ q, s.disk.prev = some q → q = s.part.gen := by
          intro hNe q hq
          rcases hPutPrev with hOk | hLe
          · exact absurd hOk hNe
          · have := (hs.prev q hq).1
            have := hLe q hq
            omega
        have hAccess : prevAccess (activated s.part g w) = .putPrev := rfl
        simp only [hPut, hAccess] at hPersist
        rcases hSecond : plan .putPrev with _ | text | _ <;>
          simp only [hSecond] at hPersist <;> obtain ⟨_, rfl⟩ := mk.inj hPersist
        · exact ⟨rfl, rfl, fun q hq => (some.inj hq).symm⟩
        · exact ⟨rfl, rfl, hStale (by simp [hSecond])⟩
        · exact ⟨rfl, rfl, hStale (by simp [hSecond])⟩
      obtain ⟨hClean, hDisk⟩ := hs.switched hStaged hAfter.1 hAfter.2.1 hAfter.2.2 w
      rcases hEnd with ⟨rfl, rfl⟩ | ⟨err, rfl, _⟩
      · exact hDisk.restart s
      · exact hClean
    · simp only [hPut] at hPersist
      obtain ⟨rfl, rfl⟩ := mk.inj hPersist
      rcases hEnd with ⟨rfl, _⟩ | ⟨_, _, hc⟩
      · refine (hs.disk fun g' hg' => ?_).restart s
        obtain rfl : g = g' := some.inj (hStaged.symm.trans hg')
        exact hEmpty
      · exact absurd rfl hc

lemma Clean.stage (hs : Clean s) (C : Crdt ρ κ ν γ) (seed : Bool) (dec : List Nat)
    (hK : Tolerated s (.stage seed plan)) :
    Clean (land { s with decided := dec } plan
      ((stage C s.part seed plan s.disk).1.map fst, (stage C s.part seed plan s.disk).2)) := by
  rw [hK.1.land]
  rcases hRun : Engine.stage C s.part seed plan s.disk with ⟨o, d'⟩
  rcases stage_cases hRun with ⟨_, rfl, rfl⟩ | ⟨hDoubt, ⟨r, rfl⟩, hd⟩ | ⟨hDoubt, ho, _, hKeep⟩
  · exact ⟨hs.above, hs.staged, hs.gen, hs.prevGen, hs.prev⟩
  · obtain ⟨hp, hNone⟩ := inDoubt_eq_false.mp hDoubt
    have hSame : SameBut (s.part.gen + 1) s.disk d' := by
      rw [hd]
      split
      · exact .setNs _ _ _
      · exact .refl _ _
    have hDisk : d'.genOnDisk = s.disk.genOnDisk := congrArg (·.getD 0) hSame.gen
    refine ⟨fun i hi hNe => ?_, fun g hg => ⟨(some.inj hg).symm, hp⟩, ?_, hs.prevGen, ?_⟩
    · have hi' : i ≠ s.part.gen + 1 := by
        rintro rfl
        exact hNe rfl
      exact (hSame.ns i hi').trans (hs.above i hi (by simp [hNone]))
    · exact hDisk ▸ hs.gen
    · intro q hq
      show q ≤ s.part.base ∧ q ≤ d'.genOnDisk ∧ d'.genOnDisk ≤ q + 1
      rw [hDisk]
      exact hs.prev q (hSame.prev ▸ hq)
  · obtain rfl := hKeep hK.2
    cases o with
    | ok r => exact absurd rfl (ho r)
    | err e => exact ⟨hs.above, hs.staged, hs.gen, hs.prevGen, hs.prev⟩
    | crashed =>
      refine (hs.disk fun g hg => ?_).restart _
      have hNone := (inDoubt_eq_false.mp hDoubt).2
      simp [hg] at hNone

/-- The open datastores write at or below the active generation. -/
lemma Clean.between (hs : Clean s) (h : s.Between s') : Clean s' := by
  obtain ⟨⟨gate, hPart⟩, hDisk, -⟩ := h
  have hMeta : s'.disk.gen = s.disk.gen ∧ s'.disk.prev = s.disk.prev ∧
      ∀ i, s.part.gen < i → s'.disk.ns i = s.disk.ns i := by
    rcases hDisk with hEq | ⟨g, es, hOpen, hEq⟩
    · rw [hEq]
      exact ⟨rfl, rfl, fun _ _ => rfl⟩
    · have hLe : g ≤ s.part.gen := by
        simp only [isOpen, Bool.or_eq_true, Bool.and_eq_true, beq_iff_eq] at hOpen
        rcases hOpen with rfl | ⟨⟨hp, _⟩, rfl⟩
        · exact Nat.le_refl _
        · exact (hs.prevGen hp).1
      rw [hEq]
      exact ⟨rfl, rfl, fun i hi => setNs_ns_ne s.disk es (by omega)⟩
  have hGen : s'.disk.genOnDisk = s.disk.genOnDisk := congrArg (·.getD 0) hMeta.1
  refine ⟨?_, ?_, ?_, ?_, ?_⟩
  · rw [hPart]
    intro i hi hNe
    exact (hMeta.2.2 i hi).trans (hs.above i hi hNe)
  · rw [hPart]
    exact hs.staged
  · rw [hPart, hGen]
    exact hs.gen
  · rw [hPart]
    exact hs.prevGen
  · rw [hPart, hMeta.2.1, hGen]
    exact hs.prev

end

/-- **No residue.** The invariant holds in every run of tolerated steps. -/
theorem clean_of_reach {C : Crdt ρ κ ν γ} {idx : Nat} (hReach : Reach (step C) Tolerated (init idx) s) :
    Clean s := by
  refine hReach.induct (clean_init idx) ?_
  intro s s' op _ hs hK hStep
  cases op with
  | freeze | unfreeze | beginWrite | write es | background g es =>
    exact hs.between (between_of_step (by constructor) hStep)
  | stage seed plan =>
    obtain rfl := some.inj hStep
    exact hs.stage C seed _ hK
  | activate w plan =>
    obtain rfl := some.inj hStep
    exact hs.activate w hK
  | commit plan =>
    obtain rfl := some.inj hStep
    exact hs.commit _ hK
  | rollback plan =>
    obtain rfl := some.inj hStep
    exact hs.rollback hK
  | crash =>
    obtain rfl := some.inj hStep
    rw [restart, hK.1.restoreGen]
    exact (hs.disk hK.2).restart s

end

/-! ## Exactness -/

section

variable [DecidableEq κ] {C : Crdt ρ κ ν γ} {s : Machine ρ} {plan : Plan} {d' : Backing ρ} {p' : Partition}
  {seed : Bool} {r : Option γ × Nat}

/-- The live map a successful `Stage` leaves: the seed, over whatever the
namespace already held. -/
lemma live_of_stage (hC : C.Lawful) (h : stage C p seed plan d = (.ok (p', r), d')) (k : κ) :
    C.live (d'.ns (p.gen + 1)) k =
    (if seed then C.live (d.ns p.gen) k else none).or (C.live (d.ns (p.gen + 1)) k) ∧ d'.ns p.gen =
    d.ns p.gen := by
  rcases stage_cases h with ⟨_, hc, _⟩ | ⟨_, _, hd⟩ | ⟨_, ho, _⟩
  · cases hc
  · cases seed with
    | false => simp [hd]
    | true =>
      rw [hd, if_pos rfl, setNs_ns_self, if_pos rfl, setNs_ns_ne _ _ (Nat.ne_of_lt (Nat.lt_succ_self p.gen))]
      exact ⟨hC.live_batch _ _ k (hC.query_nodup _), rfl⟩
  · exact absurd rfl (ho _)

/-- A successful `Stage` is exact if and only if every key that the next
namespace still held is a live key that the seed overwrites. -/
lemma stagedExactly_iff (hC : C.Lawful) (h : stage C p seed plan d = (.ok (p', r), d')) :
    StagedExactly C p seed d' ↔ ∀ k, C.live (d.ns (p.gen + 1)) k ≠ none → seed = true ∧
    C.live (d.ns p.gen) k ≠ none := by
  refine forall_congr' fun k => ?_
  obtain ⟨hLive, hNs⟩ := live_of_stage hC h k
  rw [hLive, hNs]
  cases seed with
  | false => cases hk : C.live (d.ns (p.gen + 1)) k <;> simp
  | true =>
    cases ha : C.live (d.ns p.gen) k <;> cases hk : C.live (d.ns (p.gen + 1)) k <;> simp

/-- **Staging is exact** in every run of tolerated steps: whatever storage
errors and crashes came before, a `Stage` that succeeds yields the active
generation's live map, or an empty one. -/
theorem stage_exact [DecidableEq ρ] (hC : C.Lawful) {idx : Nat}
    (hReach : Reach (step C) Tolerated (init idx) s)
    (hStage : stage C s.part seed plan s.disk = (.ok (p', r), d')) : StagedExactly C s.part seed d' := by
  have hs := clean_of_reach hReach
  have hNone : s.part.staged = none := by
    rcases stage_cases hStage with ⟨_, hc, _⟩ | ⟨hDoubt, _⟩ | ⟨_, ho, _⟩
    · cases hc
    · exact (inDoubt_eq_false.mp hDoubt).2
    · exact absurd rfl (ho _)
  rw [stagedExactly_iff hC hStage, hs.above _ (Nat.lt_succ_self _) (by simp [hNone])]
  intro k hk
  exact absurd (by simp [Crdt.live, hC.query_nil]) hk

end

/-! ## Residue -/

/-- A key is written, the generation staged with it, the process restarted, and
the key deleted. -/
private def staleRun : List (Op KvEntry) :=
  [.beginWrite, .write [(1, some 7)], .stage true .quiet, .crash .quiet,
    .beginWrite, .write [(1, some 7), (1, none)]]

/-- A crash while a seeded generation is staged leaves its entries behind; the
next `Stage` of that number brings the deleted key back. -/
theorem stage_resurrects : ∃ s p' r d', Reach (step kvCrdt) Anything (init 0) s ∧
    stage kvCrdt s.part true .quiet s.disk = (.ok (p', r), d') ∧ kvCrdt.live (d'.ns s.part.gen) 1 = none ∧
    kvCrdt.live (d'.ns (s.part.gen + 1)) 1 = some 7 ∧ ¬ StagedExactly kvCrdt s.part true d' := by
  have hRun : runChecked (step kvCrdt) Anything (init 0) staleRun = some _ := rfl
  refine ⟨_, _, _, _, Reach.of_runChecked hRun, rfl, rfl, rfl, fun h => ?_⟩
  exact absurd (h 1) (by decide)

/-- A seeded rotation whose `Commit` cannot write its metadata, then the staging
of the next one. -/
theorem stage_exact_after_fault :
    ∃ (s : Machine KvEntry) (p' : Partition) (r : Option Nat × Nat) (d' : Backing KvEntry),
    stage kvCrdt s.part true .quiet s.disk = (.ok (p', r), d') ∧ s.part.gen = 1 ∧
    kvCrdt.live (d'.ns s.part.gen) 1 = some 7 ∧ StagedExactly kvCrdt s.part true d' := by
  have hWritten : Reach (step kvCrdt) Tolerated (init 0) _ :=
    .next (a := .write [(1, some 7)]) (.next (a := .beginWrite) .init trivial rfl) trivial rfl
  have hActivated : Reach (step kvCrdt) Tolerated (init 0) _ :=
    .next (a := .activate false .quiet)
      (.next (a := .stage true .quiet) hWritten ⟨by simp [Plan.Restores], fun _ _ _ => rfl⟩ rfl)
      ⟨by simp [Plan.Restores], fun _ _ => ⟨.inl rfl, .inl rfl⟩⟩ rfl
  have hCommitted : Reach (step kvCrdt) Tolerated (init 0) _ :=
    .next (a := .commit fun a => if a = .putGen then .fail "disk full" else .ok) hActivated
      ⟨by rintro a text (rfl | rfl) <;> simp, fun g (hg : none = some g) => nomatch hg⟩ rfl
  obtain ⟨s, hReach, hDoubt, hGen, hLive⟩ : ∃ s : Machine KvEntry,
      Reach (step kvCrdt) Tolerated (init 0) s ∧ s.part.inDoubt = false ∧
      s.part.gen = 1 ∧ kvCrdt.live (s.disk.ns s.part.gen) 1 = some 7 :=
    ⟨_, hCommitted, rfl, rfl, rfl⟩
  have hStage := stage_quiet_seeded kvCrdt s.disk hDoubt
  refine ⟨s, _, _, _, hStage, hGen, ?_, stage_exact kvCrdt_lawful hReach hStage⟩
  rwa [setNs_ns_ne _ _ (Nat.ne_of_lt (Nat.lt_succ_self s.part.gen))]

end RedGeo.Engine
