import RedGeo.Rotation.Writes

/-!
# RedGeo — is a generation read before its seed has arrived?

A participant activates an empty generation and blocks reads until the
coordinator's seed has replicated to it, which is everything below the genesis.
The block is a flag in memory, set by `Activate` and cleared by `WaitSeed`,
`Rollback` and `Unfreeze`. These get past it:

* a restart: `restoreGen` opens the gate for reads whatever generation it finds;
* a commit: `finish` unfreezes, which opens reads too, without looking for the
  seed (a node the coordinator does not know of is told `done` like the others);
* a goroutine still waiting for the seed of an earlier attempt, or one that has found
  its seed and opens reads only after the next switch;
* a goroutine that finds the genesis among the heads while blocks below it are queued;
* a read that has passed `waitReadable` before the switch and takes the active
  datastore after it.

`SeedFirst` says that none of these meets an unseeded generation. `reads_seeded`
is that in every run with `SeedFirst` steps every read is served from a seeded
generation; `restart_serves_unseeded` is a run with a restart that is not.
-/

namespace RedGeo.Rotation

open Engine Lib Function List Option Sys Replica

variable {ι β κ ν : Type}

/-! ## Statement -/

/-- **No read from an unseeded generation**: every read that was served came
from a generation that held the seed it was activated with. -/
def ReadsSeeded (s : Sys ι β) : Prop :=
  ∀ n g held, .served n g held ∈ s.log → held = true

section

variable [DecidableEq ι] [DecidableEq β]

/-- The active generation of the node holds its seed. -/
abbrev Node.ActiveSeeded (D : Datastore β κ ν) (x : Node ι β) : Prop := x.rep.holdsSeed D x.rep.part.gen = true

/-- The steps that open reads find the seed there; a goroutine finds the seed of the
active generation, with nothing left to process; and a switch finds no read under way, and
no goroutine about to open reads. -/
def Node.seedFirst (D : Datastore β κ ν) (x : Node ι β) : Action ι β → Bool
  | .crash => x.ActiveSeeded D
  | .deliver ⟨_, .done r, _⟩ =>
    (∃ st ∈ x.st, st.round = some r ∧ st.phase = .switched) → x.ActiveSeeded D
  | .deliver ⟨_, .outcome gen .idle, _⟩ =>
    (∃ st ∈ x.st, st.phase = .switched) → x.rep.part.gen ≤ gen → x.ActiveSeeded D
  | .deliver ⟨_, .switch r _ genesis, _⟩ =>
    (∃ st ∈ x.st, st.round = some r ∧ st.phase = .prepared) →
      x.reads = 0 ∧ x.seen = [] ∨ D.Holds (x.rep.disk.ns (x.rep.part.gen + 1)) genesis
  | .seedSeen w => x.rep.part.gate.blockReads = false ∨
      (x.rep.origin x.rep.part.gen).map Prod.snd = some w.2 ∧ x.rep.jobs x.rep.part.gen = []
  | _ => true

/-- No step opens reads of an unseeded generation. -/
def SeedFirst (D : Datastore β κ ν) (s : Sys ι β) (l : ι × Action ι β) : Prop := (s.node l.1).seedFirst D l.2 = true

instance (D : Datastore β κ ν) (s : Sys ι β) (l : ι × Action ι β) : Decidable (SeedFirst D s l) :=
  inferInstanceAs (Decidable (_ = true))

end

/-! ## Seeded generations -/

namespace Replica

/-- The generation holds the seed it was activated with. -/
def Seeded (D : Datastore β κ ν) (x : Replica ι β) (g : Nat) : Prop :=
  ∀ r gs, x.origin g = some (r, gs) → D.Holds (x.disk.ns g) gs

variable {D : Datastore β κ ν} {x y : Replica ι β} {g : Nat}

lemma holdsSeed_iff [DecidableEq β] : x.holdsSeed D g = true ↔ x.Seeded D g := by
  unfold holdsSeed Seeded
  split
  · next r gs hOrigin => simp [hOrigin]
  · next hNone => simp [hNone]

/-- A generation that keeps its origin and its blocks stays seeded. -/
lemma Seeded.mono (h : x.Seeded D g) (hOrigin : y.origin g = x.origin g)
    (hBlocks : ∀ b ∈ blocks (x.disk.ns g), b ∈ blocks (y.disk.ns g)) : y.Seeded D g := by
  intro r gs hEq b hb a ha
  rw [hOrigin] at hEq
  exact hBlocks a (h r gs hEq b hb a ha)

/-- The generation activated last was activated with the genesis given. -/
lemma Seeded.activate (hStaged : x.part.staged = some g) (h : D.Holds (x.disk.ns g) gs) :
    (x.activate r gs waitSeed).Seeded D g := by
  intro r' gs' hEq
  rw [activate_ns]
  rw [activate_origin hStaged, update_self] at hEq
  obtain ⟨-, rfl⟩ := Prod.mk.inj (some.inj hEq)
  exact h

/-- Activating a generation leaves what another one was activated with. -/
lemma Seeded.activate_ne (h : x.Seeded D k) (hStaged : x.part.staged = some g) (hk : k ≠ g) :
    (x.activate r gs waitSeed).Seeded D k := by
  refine h.mono ?_ (by rw [activate_ns]; exact fun _ => id)
  rw [activate_origin hStaged]
  exact update_of_ne hk _ _

end Replica

/-- Reads get through, or will without another look at the generation. -/
def Node.Opens (x : Node ι β) : Prop := x.rep.part.gate.blockReads = false ∨ 0 < x.reads ∨ x.seen ≠ []

/-- What the gate, the waiting reads and the goroutines of a node rely on. -/
structure Node.Seeded (D : Datastore β κ ν) (x : Node ι β) : Prop where
  base : x.rep.Seeded D x.rep.part.base
  opened : x.Opens → x.rep.Seeded D x.rep.part.gen
  co : ∀ c, x.co = some c → match c.pc with
    | .activating gs => D.Holds (x.rep.disk.ns (x.rep.part.gen + 1)) gs
    | .switching _ | .committing => x.rep.Seeded D x.rep.part.gen
    | _ => True

namespace Node.Seeded

variable {D : Datastore β κ ν} {x x' : Node ι β}

/-- Steps that keep every origin and every block, and open nothing. -/
lemma keeps (h : x.Seeded D) (hGen : x'.rep.part.gen = x.rep.part.gen)
    (hBase : x'.rep.part.base = x.rep.part.base) (hOrigin : x'.rep.origin = x.rep.origin)
    (hNs : ∀ g, ∀ b ∈ blocks (x.rep.disk.ns g), b ∈ blocks (x'.rep.disk.ns g))
    (hOpen : x'.Opens → x.Opens)
    (hCo : x'.co = x.co ∨ ∃ c c', x.co = some c ∧ x'.co = some c' ∧
      (c'.pc = c.pc ∨ c'.pc = .preparing ∨ c'.pc = .staging ∨ c'.pc = .failing ∨
        c'.pc = .unwinding)) : x'.Seeded D := by
  have hMono : ∀ g, x.rep.Seeded D g → x'.rep.Seeded D g :=
    fun g hg => hg.mono (by rw [hOrigin]) (hNs g)
  -- what the phase asks for is kept
  have hPhase : ∀ c, x.co = some c → match c.pc with
      | .activating gs => D.Holds (x'.rep.disk.ns (x'.rep.part.gen + 1)) gs
      | .switching _ | .committing => x'.rep.Seeded D x'.rep.part.gen
      | _ => True := by
    intro c hc
    have hBefore := h.co c hc
    rw [hGen]
    split <;> rename_i hPc <;> simp only [hPc] at hBefore
    · exact fun b hb a ha => hNs _ a (hBefore b hb a ha)
    · exact hMono _ hBefore
    · exact hMono _ hBefore
    · trivial
  refine ⟨hBase ▸ hMono _ h.base, fun ho => hGen ▸ hMono _ (h.opened (hOpen ho)), ?_⟩
  intro c' hc'
  rcases hCo with hCo | ⟨c, d, hc, hd, hPc⟩
  · exact hPhase c' (hCo ▸ hc')
  · obtain rfl : d = c' := some.inj (hd.symm.trans hc')
    rcases hPc with hPc | hPc | hPc | hPc | hPc <;> rw [hPc]
    · exact hPhase c hc
    all_goals trivial

/-- Steps that leave the node on the generation it would fall back to. -/
lemma settled (hBase : x'.rep.Seeded D x'.rep.part.base)
    (hGen : x'.rep.part.gen = x'.rep.part.base) (hCo : x'.co = none) : x'.Seeded D where
  base := hBase
  opened _ := hGen ▸ hBase
  co _ hc := absurd (hc.symm.trans hCo) nofun

end Node.Seeded

section

variable [DecidableEq ι] [DecidableEq β] {D : Datastore β κ ν} {n : ι} {x : Node ι β}

section

omit [DecidableEq ι] [DecidableEq β]

/-- The generation a node falls back to is seeded after the step too, unless it
is left for a later one. -/
lemma Replica.Seeded.base {y z : Replica ι β} (h : y.Seeded D y.part.base)
    (hOrigin : z.origin y.part.base = y.origin y.part.base) (hBase : Base y z)
    (hSame : z.part.base = y.part.base) : z.Seeded D z.part.base := by
  rcases hBase with ⟨-, hBlocks⟩ | hLater
  · rw [hSame]
    exact h.mono hOrigin hBlocks
  · omega

/-- The staged generation holds the seed whose genesis `Stage` returns: nothing is queued for it. -/
lemma genesis_staged (hSound : (x.rep.stageSeeded D).AllSound D) (hDrained : x.rep.Drained) :
    D.Holds ((x.rep.stageSeeded D).disk.ns (x.rep.part.gen + 1)) (x.rep.genesis D) := by
  intro b hb
  have hNs : (x.rep.stageSeeded D).disk.ns (x.rep.part.gen + 1) =
      x.rep.disk.seededNs D.toCrdt x.rep.part.gen (x.rep.part.gen + 1) :=
    Backing.setNs_ns_self _ _ _
  have hHead : b ∈ heads (x.rep.disk.seededNs D.toCrdt x.rep.part.gen (x.rep.part.gen + 1)) :=
    mem_of_head? hb
  rw [← hNs] at hHead
  exact (hSound _).closed (hDrained _ (Nat.lt_succ_self _)) b ((hSound _).heads b hHead)

end

/-- A commit in a step that meets the condition finds the seed there. -/
lemma seeded_of_verdict (hFirst : x.seedFirst D a = true) (hVerdict : Verdict n x a b)
    (hb : b = true) (hSt : x.st = some st) (hPhase : st.phase = .switched) : x.rep.Seeded D x.rep.part.gen := by
  rw [← holdsSeed_iff]
  cases hVerdict with
  | @done p r st' hMsg hSt' hRound =>
    obtain ⟨src, msg, about⟩ := p
    obtain rfl : msg = .done r := hMsg
    obtain rfl : st = st' := some.inj (hSt.symm.trans hSt')
    exact of_decide_eq_true hFirst ⟨st, hSt, hRound, hPhase⟩
  | @idle p gen st' hMsg =>
    obtain ⟨src, msg, about⟩ := p
    obtain rfl : msg = .outcome gen .idle := hMsg
    exact of_decide_eq_true hFirst ⟨st, hSt, hPhase⟩ (by simpa using hb)
  | abort => cases hb
  | stale => cases hb
  | allInDoubt => cases hb

section

omit [DecidableEq ι] [DecidableEq β]

lemma Node.Seeded.commit {x' : Node ι β} (hWf : x.rep.Wf) (hActive : x.rep.Seeded D x.rep.part.gen)
    (hRep : x'.rep = x.rep.commit.unfreeze) (hCo : x'.co = none) : x'.Seeded D := by
  obtain ⟨hGen, hBase⟩ := commit_gen_base (x := x.rep)
  rw [← hRep] at hGen hBase
  refine .settled ?_ (hGen.trans hBase.symm) hCo
  rw [hBase]
  refine hActive.mono (by simp [hRep, unfreeze]) ?_
  rw [hRep, commit_unfreeze_ns hWf]
  exact fun _ => id

/-- `Rollback` leaves the node on the generation it would fall back to. -/
lemma Node.Seeded.rollback {x' : Node ι β} (h : x.Seeded D) (hWf : x.rep.Wf)
    (hStaged : x.rep.part.staged = none) (hRep : x'.rep = x.rep.rollback.unfreeze) (hCo : x'.co = none) :
    x'.Seeded D := by
  obtain ⟨hGen, hBase⟩ := rollback_gen_base hStaged
  rw [← hRep] at hGen hBase
  have hKept : Base x.rep x'.rep := hRep ▸ Base.rollback hWf hStaged
  refine .settled (h.base.base ?_ hKept hBase) (hGen.trans hBase.symm) hCo
  rw [hRep]
  simp [unfreeze]

end

/-- **Every action that meets the condition keeps reads on seeded generations.** -/
theorem Does.seeded {a : Action ι β} (hDoes : Does D n x a o) (hWf : x.Wf n) (hSound : x.rep.AllSound D)
    (hSound' : o.node.rep.AllSound D) (hDrained : x.rep.Drained) (hFirst : x.seedFirst D a = true) (h : x.Seeded D) :
    o.node.Seeded D := by
  have hSame : ∀ g, ∀ b ∈ blocks (x.rep.disk.ns g), b ∈ blocks (x.rep.disk.ns g) :=
    fun _ _ => id
  -- the active generation has grown, the others are as they were
  have hGrown : ∀ es, (∀ b ∈ blocks x.rep.ns, b ∈ blocks es) → ∀ g, ∀ b ∈ blocks (x.rep.disk.ns g),
      b ∈ blocks (update x.rep.disk.ns x.rep.part.gen es g) := by
    intro es hKept g b hb
    by_cases hg : g = x.rep.part.gen
    · subst hg
      rw [update_self]
      exact hKept b hb
    · rwa [update_of_ne hg]
  cases hDoes with
  | side hRep hSt hCo hReads _ hSeen =>
    refine h.keeps ?_ ?_ ?_ ?_ ?_ (.inl hCo) <;> try rw [hRep]
    · exact hSame
    · rw [Node.Opens, hRep, hReads, hSeen]; exact id
  | answer | reply | resend | rebroadcast => exact h.keeps rfl rfl rfl hSame id (.inl rfl)
  | beginWrite | recvData => exact h.keeps rfl rfl rfl hSame id (.inl rfl)
  | write _ hAdv => exact h.keeps rfl rfl rfl (hGrown _ hAdv.kept) id (.inl rfl)
  | process hAdv => exact h.keeps rfl rfl rfl (hGrown _ hAdv.kept) id (.inl rfl)
  | readGate hOpen => exact h.keeps rfl rfl rfl hSame (fun _ => .inl hOpen) (.inl rfl)
  | readServe hReads => exact h.keeps rfl rfl rfl hSame (fun _ => .inr (.inl hReads)) (.inl rfl)
  | recv hCo | takePrepared hCo | takeReady hCo | takeOther hCo | again hCo =>
    exact h.keeps rfl rfl rfl hSame id (.inr ⟨_, _, hCo, rfl, .inl rfl⟩)
  | freeze hCo | freezeFail hCo | converged hCo | fail hCo | abort hCo =>
    exact h.keeps rfl rfl rfl hSame id (.inr ⟨_, _, hCo, rfl, by simp⟩)
  | prepare _ hCo hCase =>
    obtain ⟨hSt, hDoubt⟩ := Node.fresh_idle hCase
    have hPrev : x.rep.part.hasPrev = false := (Partition.inDoubt_eq_false.mp hDoubt).1
    rw [Node.onPrepare, hCase]
    dsimp only
    split
    · exact h.keeps rfl rfl rfl hSame id (.inl rfl)
    · exact .settled h.base (base_of_settled hPrev).symm hCo
  | @switch p r gen genesis st hMsg hCo hSt hRound hPhase hDoubt =>
    obtain ⟨src, msg, about⟩ := p
    obtain rfl : msg = .switch r gen genesis := hMsg
    have hPrev : x.rep.part.hasPrev = false := (Partition.inDoubt_eq_false.mp hDoubt).1
    have hOld : x.rep.stageEmpty.Seeded D x.rep.part.gen := base_of_settled hPrev ▸ h.base
    refine ⟨hOld.activate_ne rfl (by omega), ?_, fun c hc => absurd (hc.symm.trans hCo) (by simp)⟩
    intro hOpens
    -- a read is under way, or a goroutine about to open reads: the seed has to be there already
    rcases of_decide_eq_true hFirst ⟨st, hSt, hRound, hPhase⟩ with ⟨hReads, hSeen⟩ | hThere
    · obtain hOpen | hRead | hNext := hOpens
      · cases hOpen
      · exact absurd hReads (Nat.ne_of_gt hRead)
      · exact absurd hSeen hNext
    · exact Replica.Seeded.activate (x := x.rep.stageEmpty) rfl hThere
  | finishCommit hCo hVerdict hSt hPhase =>
    exact .commit hWf.rep (seeded_of_verdict hFirst hVerdict rfl hSt hPhase) rfl hCo
  | finishRollback hCo => exact h.rollback hWf.rep (hWf.unstaged hCo) rfl hCo
  | unwind hCo hPc => exact h.rollback hWf.rep (hWf.unstaged_co hCo (by simp [hPc])) rfl rfl
  | unwindIdle hCo hPc hAct =>
    obtain ⟨-, hFits⟩ := hWf.co _ hCo
    rw [hPc, hAct] at hFits
    exact .settled h.base (base_of_settled hFits.2).symm rfl
  | @seedSeen w hSeed =>
    refine ⟨h.base, fun _ => ?_, h.co⟩
    rcases of_decide_eq_true hFirst with hOpen | ⟨hOwn, hNone⟩
    · exact h.opened (.inl hOpen)
    · -- the seed of this very generation is among the heads, and nothing is left to process
      intro r gs hEq b hb
      change x.rep.origin x.rep.part.gen = some (r, gs) at hEq
      rw [hEq] at hOwn
      obtain rfl : gs = w.2 := some.inj hOwn
      have hHead : b ∈ x.rep.heads := hSeed b hb
      exact (hSound _).closed hNone b ((hSound x.rep.part.gen).heads b hHead)
  | seedArrived hMem => exact ⟨h.base, fun _ => h.opened (.inr (.inr (ne_nil_of_mem hMem))), h.co⟩
  | crash =>
    have hActive : x.rep.Seeded D x.rep.part.gen := holdsSeed_iff.mp (of_decide_eq_true hFirst)
    refine ⟨?_, fun _ => ?_, fun _ hc => by cases hc⟩
    · show x.rep.Seeded D x.rep.restart.part.base
      rw [restart_base hWf.rep]
      exact h.base
    · show x.rep.Seeded D x.rep.restart.part.gen
      rw [restart_gen hWf.rep]
      exact hActive
  | start =>
    refine ⟨h.base, h.opened, fun c hc => ?_⟩
    obtain rfl := some.inj hc
    trivial
  | allReady hCo hPc =>
    refine ⟨h.base, h.opened, fun c hc => ?_⟩
    obtain rfl := some.inj hc
    have hActive := h.co _ hCo
    rw [hPc] at hActive
    exact hActive
  | stage hCo hPc hDoubt =>
    have hPrev : x.rep.part.hasPrev = false := (Partition.inDoubt_eq_false.mp hDoubt).1
    have hBefore : x.rep.Seeded D x.rep.part.gen := base_of_settled hPrev ▸ h.base
    have hActive : (x.rep.stageSeeded D).Seeded D x.rep.part.gen := by
      refine hBefore.mono rfl ?_
      rw [show (x.rep.stageSeeded D).disk.ns x.rep.part.gen = x.rep.disk.ns x.rep.part.gen from
        Backing.setNs_ns_ne _ _ (by omega)]
      exact fun _ => id
    refine ⟨?_, fun _ => hActive, fun c hc => ?_⟩
    · show (x.rep.stageSeeded D).Seeded D x.rep.part.base
      rw [base_of_settled hPrev]
      exact hActive
    · obtain rfl := some.inj hc
      exact genesis_staged hSound' hDrained
  | activate hCo hPc =>
    obtain ⟨-, hFits⟩ := hWf.co _ hCo
    have hSeed := h.co _ hCo
    rw [hPc] at hFits hSeed
    obtain ⟨-, hPrev, hStaged⟩ := hFits
    have hBefore : x.rep.Seeded D x.rep.part.gen := base_of_settled hPrev ▸ h.base
    refine ⟨?_, fun _ => ?_, fun c hc => ?_⟩
    · show (x.rep.activate _ _ _).Seeded D (x.rep.activate _ _ _).part.base
      rw [activate_base hStaged]
      exact hBefore.activate_ne hStaged (by omega)
    · show (x.rep.activate _ _ _).Seeded D (x.rep.activate _ _ _).part.gen
      rw [activate_gen hStaged]
      exact Replica.Seeded.activate hStaged hSeed
    · obtain rfl := some.inj hc
      show (x.rep.activate _ _ _).Seeded D (x.rep.activate _ _ _).part.gen
      rw [activate_gen hStaged]
      exact Replica.Seeded.activate hStaged hSeed
  | commit hCo hPc =>
    have hActive := h.co _ hCo
    rw [hPc] at hActive
    exact .commit hWf.rep hActive rfl rfl

end

/-! ## Reads -/

section

variable [DecidableEq ι] [DecidableEq β] {D : Datastore β κ ν} {members : ι → List ι} {s : Sys ι β}

omit [DecidableEq ι] [DecidableEq β] in
lemma Node.Seeded.learned {x : Node ι β} (h : x.Seeded D) (ms : List ι) : { x with members := ms }.Seeded D :=
  ⟨h.base, h.opened, h.co⟩

lemma seeded_of_reach (hD : D.BatchSound) (h : Sys.Reaches D members (SeedFirst D) s) :
    ∀ n, (s.node n).Seeded D := by
  refine h.induct_does (I := fun s => ∀ n, (s.node n).Seeded D)
    (fun n => ⟨nofun, fun _ => nofun, nofun⟩) ?_
  rintro s n a o ms hReach hSeeded hFirst hReach' - - hDoes
  have hSound' : o.node.rep.AllSound D := by
    have := sound_of_reach hD hReach' n
    rwa [after_node_self] at this
  exact forall_node_after (P := fun _ x => x.Seeded D) hSeeded
    (hDoes.seeded ((wf_of_reach hReach n).learned ms) (sound_of_reach hD hReach n) hSound'
      (drained_of_reach hReach n) hFirst ((hSeeded n).learned ms))

end

/-! ## The restart -/

private def seedRound : RoundId Nat := ⟨0, 1⟩

private def seedMembers (n : Nat) : List Nat := if n = 0 then [1] else [0]

/-- Node 0 holds key 1 and rotates with node 1, which has switched. -/
private def switchedRun : List (Nat × Action Nat Nat) :=
  [(1, .beginWrite), (1, .write 1 [.block 1, .head 1]), (0, .recvData ⟨0, [1], none⟩),
    (0, .process [.block 1, .head 1] []), (0, .start 1 []), (0, .freeze),
    (1, .deliver ⟨0, .prepare seedRound [1], none⟩),
    (0, .deliver ⟨1, .prepared seedRound { ok := true, heads := [1] }, none⟩), (0, .take),
    (0, .poll false), (1, .deliver ⟨0, .prepare seedRound [1], none⟩),
    (0, .deliver ⟨1, .prepared seedRound { ok := true, heads := [1] }, none⟩), (0, .take),
    (0, .poll false), (0, .stage), (0, .activate),
    (1, .deliver ⟨0, .switch seedRound 1 (some 101), none⟩)]

end RedGeo.Rotation
