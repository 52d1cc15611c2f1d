import RedGeo.Engine.Machine
import RedGeo.Rotation.Steps

/-!
# RedGeo — the shape of a node in every run

What holds of every node in every run of the cluster, whatever the network,
the timeouts and the crashes do. The later modules build their invariants on
it.

* `Replica.Wf` — the metadata on disk is the metadata in memory, and a rotation
  that is not settled is the latest one activated here.
* `Node.Wf` — the participant's record and the running `Compact` fit the
  replica: who is switched has a rotation to settle, who is only prepared has
  none.
* `wf_of_reach` — every node of every reachable cluster is of that shape.
* `known_of_reach` — no round is heard of before its coordinator has started it.
-/

namespace RedGeo.Rotation

open Engine Lib List Option Sys Replica Partition Node

variable {ι β κ ν : Type}
variable {y : Replica ι β} {r : RoundId ι} {gs : Option β} {waitSeed : Bool} {c : Co ι β}
    {a : Action ι β} {o : Out ι β}

/-! ## The replica -/

/-- `Rollback` with nothing activated drops what is staged. -/
lemma rolledBack_idle (h : p.hasPrev = false) : rolledBack p = { p with staged := none } := by
  obtain ⟨idx, gen, staged, hasPrev, prevGen, oldOpen, gate⟩ := p
  obtain rfl : hasPrev = false := h
  cases staged <;> rfl

namespace Replica

/-- The replica has activated round `r` and not settled it. -/
def Pending (x : Replica ι β) (r : RoundId ι) : Prop :=
  x.part.hasPrev = true ∧ x.act = some (r, x.part.gen)

/-- The metadata on disk is the metadata in memory, and a rotation that is not
settled is the latest one activated here. -/
structure Wf (x : Replica ι β) : Prop where
  pending : x.part.hasPrev = true →
    x.part.staged = none ∧ x.part.prevGen + 1 = x.part.gen ∧ ∃ r, x.act = some (r, x.part.gen)
  gen : x.disk.gen.getD 0 = x.part.gen
  prev : x.disk.prev = if x.part.hasPrev then some x.part.prevGen else none

/-- Two replicas that differ at most in the gate, the data and the queues. -/
structure Same (x y : Replica ι β) : Prop where
  gen : y.part.gen = x.part.gen
  hasPrev : y.part.hasPrev = x.part.hasPrev
  prevGen : y.part.prevGen = x.part.prevGen
  staged : y.part.staged = x.part.staged
  act : y.act = x.act
  diskGen : y.disk.gen = x.disk.gen
  diskPrev : y.disk.prev = x.disk.prev

lemma Same.refl (x : Replica ι β) : Same x x := ⟨rfl, rfl, rfl, rfl, rfl, rfl, rfl⟩

lemma Wf.same (hx : x.Wf) (h : Same x y) : y.Wf := by
  obtain ⟨hPending, hGen, hPrev⟩ := hx
  constructor
  · rw [h.hasPrev, h.staged, h.prevGen, h.gen, h.act]
    exact hPending
  · rw [h.diskGen, h.gen]
    exact hGen
  · rw [h.diskPrev, h.hasPrev, h.prevGen]
    exact hPrev

/-! What each operation leaves of the metadata. -/

section

variable (d : Backing (NsEntry β)) (g : Option Nat)

@[simp] lemma purged_gen : (d.purged g).gen = d.gen := by
  cases g <;> rfl

@[simp] lemma purged_prev : (d.purged g).prev = d.prev := by
  cases g <;> rfl

end

section

variable (x : Replica ι β)

@[simp] lemma commit_part : x.commit.part = committed x.part := by
  simp [commit]

@[simp] lemma commit_act : x.commit.act = x.act := by
  simp [commit]

@[simp] lemma rollback_part : x.rollback.part = reopenReads (rolledBack x.part) := by
  simp [rollback]

@[simp] lemma rollback_act : x.rollback.act = x.act := by
  simp [rollback]

@[simp] lemma commit_origin : x.commit.origin = x.origin := by
  simp [commit]

@[simp] lemma rollback_origin : x.rollback.origin = x.origin := by
  simp [rollback]

end

variable {x : Replica ι β}

lemma commit_settled : x.commit.unfreeze.part.hasPrev = false := by
  simp [unfreeze, Partition.unfreeze, committed]

lemma wf_commit : x.commit.unfreeze.Wf where
  pending hPrev := absurd (commit_settled.symm.trans hPrev) nofun
  gen := by simp [unfreeze, Partition.unfreeze, commit]
  prev := by simp [unfreeze, Partition.unfreeze, commit, committed]

/-- `Rollback` settles a rotation that was activated. -/
lemma rollback_settled (h : x.Wf) : x.rollback.part.hasPrev = false := by
  rw [rollback_part, reopenReads]
  cases hPrev : x.part.hasPrev with
  | false => cases hStaged : x.part.staged <;> simp [rolledBack, hPrev, hStaged]
  | true => simp [rolledBack, hPrev, (h.pending hPrev).1]

/-- `Rollback` of an activated generation goes back by one. -/
lemma rollback_gen_lt (h : x.Wf) (hPrev : x.part.hasPrev = true) :
    x.rollback.unfreeze.part.gen < x.part.gen := by
  obtain ⟨hStaged, hSucc, -⟩ := h.pending hPrev
  have hGen : x.rollback.unfreeze.part.gen = x.part.prevGen := by
    simp [unfreeze, Partition.unfreeze, reopenReads, rolledBack, hStaged, hPrev]
  omega

lemma rollback_staged : x.rollback.part.staged = none := by
  rw [rollback_part, reopenReads]
  cases hStaged : x.part.staged with
  | some g => simp [rolledBack, hStaged]
  | none => cases hPrev : x.part.hasPrev <;> simp [rolledBack, hPrev, hStaged]

lemma wf_rollback (h : x.Wf) : x.rollback.unfreeze.Wf where
  pending hPrev := by
    have hSettled : x.rollback.unfreeze.part.hasPrev = false := rollback_settled h
    rw [hSettled] at hPrev
    cases hPrev
  gen := by simp [unfreeze, Partition.unfreeze, rollback, reopenReads]
  prev := by simp [unfreeze, Partition.unfreeze, rollback, reopenReads]

lemma wf_restart (h : x.Wf) : x.restart.Wf where
  pending hPrev := by
    -- what is pending on disk is pending in memory
    have hSome : x.part.hasPrev = true := by
      have : x.disk.prev.isSome = true := by simpa [restart] using hPrev
      cases hp : x.part.hasPrev with
      | true => rfl
      | false => simp [h.prev, hp] at this
    obtain ⟨_, hSucc, r, hAct⟩ := h.pending hSome
    have hDisk : x.disk.prev = some x.part.prevGen := by rw [h.prev, if_pos hSome]
    refine ⟨by simp [restart], ?_, r, ?_⟩
    · simp only [restart, restoreGen_prevGen _ _ hDisk, restoreGen_gen, h.gen]
      exact hSucc
    · simp only [restart, restoreGen_gen, h.gen]
      exact hAct
  gen := by simp [restart]
  prev := by
    cases hDisk : x.disk.prev with
    | none => simp [restart, hDisk]
    | some q => simp [restart, hDisk, restoreGen_prevGen _ _ hDisk]

lemma restart_hasPrev (h : x.Wf) : x.restart.part.hasPrev = x.part.hasPrev := by
  cases hPrev : x.part.hasPrev <;> simp [restart, h.prev, hPrev]

lemma restart_gen (h : x.Wf) : x.restart.part.gen = x.part.gen := by
  simp [restart, h.gen]

lemma activate_pending (hStaged : x.part.staged = some g) : (x.activate r gs waitSeed).Pending r := by
  rw [activate, hStaged]
  exact ⟨rfl, rfl⟩

lemma activate_gen (hStaged : x.part.staged = some g) : (x.activate r gs waitSeed).part.gen = g := by
  rw [activate, hStaged]
  rfl

lemma activate_origin (hStaged : x.part.staged = some g) :
    (x.activate r gs waitSeed).origin = Function.update x.origin g (some (r, gs)) := by
  rw [activate, hStaged]

lemma wf_activate (hStaged : x.part.staged = some (x.part.gen + 1)) : (x.activate r gs waitSeed).Wf := by
  rw [activate, hStaged]
  exact ⟨fun _ => ⟨rfl, rfl, r, rfl⟩, rfl, rfl⟩

end Replica

/-! ## The node -/

/-- The running `Compact` fits the replica, phase by phase. -/
def Co.Fits (n : ι) (c : Co ι β) (x : Node ι β) : Prop :=
  c.round = ⟨n, x.nano⟩ ∧
  match c.pc with
  | .freezing | .preparing | .staging => c.activated = false ∧ x.rep.part.hasPrev = false
  | .activating _ =>
    c.activated = false ∧ x.rep.part.hasPrev = false ∧ x.rep.part.staged = some (x.rep.part.gen + 1)
  | .switching _ => c.activated = true ∧ x.rep.Pending c.round
  | .committing => x.rep.Pending c.round
  | .failing => if c.activated then x.rep.Pending c.round else x.rep.part.hasPrev = false
  | .unwinding =>
    x.st = none ∧ if c.activated then x.rep.Pending c.round else x.rep.part.hasPrev = false

/-- The participant's record and the running `Compact` fit the replica. -/
structure Node.Wf (n : ι) (x : Node ι β) : Prop where
  rep : x.rep.Wf
  staged : x.rep.part.staged = none ∨ ∃ c gs, x.co = some c ∧ c.pc = .activating gs
  switched : ∀ st, x.st = some st → st.phase = .switched →
    x.rep.part.hasPrev = true ∧ ∀ r, st.round = some r → x.rep.act = some (r, x.rep.part.gen)
  prepared : ∀ st, x.st = some st → st.phase = .prepared → x.co = none → x.rep.part.hasPrev = false
  co : ∀ c, x.co = some c → c.Fits n x

namespace Node

lemma wf_init (n : ι) (ms : List ι) : Wf n ({ members := ms } : Node ι β) where
  rep := ⟨nofun, rfl, rfl⟩
  staged := .inl rfl
  switched := nofun
  prepared := nofun
  co := nofun

end Node

lemma Co.Fits.same {n : ι} {c' : Co ι β} {x x' : Node ι β} (h : c.Fits n x)
    (hRound : c'.round = c.round) (hPc : c'.pc = c.pc) (hAct : c'.activated = c.activated)
    (hNano : x'.nano = x.nano) (hSt : x'.st = x.st) (hRep : x.rep.Same x'.rep) : c'.Fits n x' := by
  obtain ⟨hId, hFits⟩ := h
  refine ⟨by rw [hRound, hNano]; exact hId, ?_⟩
  rw [hPc, hRound, hAct, hSt, Replica.Pending, hRep.hasPrev, hRep.gen, hRep.act, hRep.staged]
  exact hFits

namespace Node.Wf

variable {n : ι} {x x' : Node ι β}

/-- Steps that leave the metadata, the record and the phase of `Compact`. -/
lemma same (h : x.Wf n) (hRep : x.rep.Same x'.rep) (hSt : x'.st = x.st) (hNano : x'.nano = x.nano)
    (hCo : x'.co = x.co ∨ ∃ c c', x.co = some c ∧ x'.co = some c' ∧ c'.round = c.round ∧
      c'.pc = c.pc ∧ c'.activated = c.activated) : x'.Wf n := by
  -- no `Compact` runs now only if none did before
  have hNone : x'.co = none → x.co = none := by
    rcases hCo with hCo | ⟨c, c', hc, hc', -⟩
    · rw [hCo]; exact id
    · rw [hc']; exact nofun
  refine ⟨h.rep.same hRep, ?_, ?_, ?_, ?_⟩
  · rw [hRep.staged]
    refine h.staged.imp id ?_
    rintro ⟨c, gs, hc, hPc⟩
    rcases hCo with hCo | ⟨d, d', hd, hd', -, hPc', -⟩
    · exact ⟨c, gs, by rw [hCo, hc], hPc⟩
    · obtain rfl : c = d := some.inj (hc.symm.trans hd)
      exact ⟨d', gs, hd', hPc'.trans hPc⟩
  · rw [hSt, hRep.hasPrev, hRep.act, hRep.gen]
    exact h.switched
  · intro st hst hPhase hNo
    rw [hRep.hasPrev]
    exact h.prepared st (hSt ▸ hst) hPhase (hNone hNo)
  · intro c' hc'
    rcases hCo with hCo | ⟨d, d', hd, hd', hRound, hPc, hAct⟩
    · exact (h.co c' (hCo ▸ hc')).same rfl rfl rfl hNano hSt hRep
    · obtain rfl : d' = c' := some.inj (hd'.symm.trans hc')
      exact (h.co d hd).same hRound hPc hAct hNano hSt hRep

/-- Outside of `Compact` nothing is staged. -/
lemma unstaged (h : x.Wf n) (hCo : x.co = none) : x.rep.part.staged = none := by
  rcases h.staged with hStaged | ⟨c, gs, hc, -⟩
  · exact hStaged
  · rw [hCo] at hc
    cases hc

/-- Only between `Stage` and `Activate` is a generation staged. -/
lemma unstaged_co (h : x.Wf n) (hCo : x.co = some c) (hPc : ∀ gs, c.pc ≠ .activating gs) :
    x.rep.part.staged = none := by
  rcases h.staged with hStaged | ⟨d, gs, hd, hPc'⟩
  · exact hStaged
  · obtain rfl : c = d := some.inj (hCo.symm.trans hd)
    exact absurd hPc' (hPc gs)

/-- Steps of `Compact` that leave the metadata: only the phase has to fit. -/
lemma move (h : x.Wf n) (hCo : x.co = some c) (hPc : ∀ gs, c.pc ≠ .activating gs)
    (hRep : x.rep.Same x'.rep) (hSt : x'.st = x.st) (hCo' : x'.co = some c')
    (hFits : c'.Fits n x') : x'.Wf n where
  rep := h.rep.same hRep
  staged := .inl (hRep.staged.trans (h.unstaged_co hCo hPc))
  switched := by
    rw [hSt, hRep.hasPrev, hRep.act, hRep.gen]
    exact h.switched
  prepared := by
    intro st _ _ hNo
    rw [hCo'] at hNo
    cases hNo
  co := by
    intro d hd
    obtain rfl : c' = d := some.inj (hCo'.symm.trans hd)
    exact hFits

/-- Steps that settle the partition: no rotation is left here. -/
lemma settled (hRep : x'.rep.Wf) (hPrev : x'.rep.part.hasPrev = false)
    (hStaged : x'.rep.part.staged = none) (hSt : x'.st = none) (hCo : x'.co = none) : x'.Wf n where
  rep := hRep
  staged := .inl hStaged
  switched st hst := by rw [hSt] at hst; cases hst
  prepared _ _ _ _ := hPrev
  co c hc := by rw [hCo] at hc; cases hc

end Node.Wf

/-! ## Every action keeps the shape -/

section

variable [DecidableEq ι] [DecidableEq β] {D : Datastore β κ ν} {n : ι} {x : Node ι β} {e : Event ι β}

omit [DecidableEq ι] [DecidableEq β] in
lemma Node.wf_restart (h : x.Wf n) : x.restart.Wf n where
  rep := Replica.wf_restart h.rep
  staged := .inl (by simp [restart, Replica.restart])
  switched := by
    intro st hSt _
    simp only [restart] at hSt
    split at hSt
    · next hDoubt =>
      obtain rfl := some.inj hSt
      -- the record has no round to speak of
      refine ⟨?_, nofun⟩
      simpa [restart, Replica.restart, Partition.inDoubt] using hDoubt
    · cases hSt
  prepared := by
    intro st hSt hPhase _
    simp only [restart] at hSt
    split at hSt
    · obtain rfl := some.inj hSt
      cases hPhase
    · cases hSt
  co := nofun

omit [DecidableEq β] in
/-- `onPrepare` freezes only where no rotation is in progress. -/
lemma Node.fresh_idle (hCase : x.prepareCase r = .fresh) : x.st = none ∧ x.rep.part.inDoubt = false := by
  unfold prepareCase at hCase
  split at hCase
  · split at hCase <;> cases hCase
  · next hSt =>
    split at hCase
    · cases hCase
    · next hDoubt => exact ⟨hSt, by simpa using hDoubt⟩

lemma Node.wf_prepare {union : List β} (h : x.Wf n) (hCo : x.co = none) (hCase : x.prepareCase r = .fresh) :
    (x.onPrepare n r union).node.Wf n := by
  obtain ⟨hSt, hDoubt⟩ := fresh_idle hCase
  obtain ⟨hPrev, -⟩ := inDoubt_eq_false.mp hDoubt
  rw [onPrepare, hCase]
  dsimp only
  split
  · refine ⟨h.rep.same ⟨rfl, rfl, rfl, rfl, rfl, rfl, rfl⟩, h.staged, ?_, fun _ _ _ _ => hPrev, ?_⟩
    · intro st hst hPhase
      obtain rfl := some.inj hst
      cases hPhase
    · intro c hc
      exact absurd (hc.symm.trans hCo) (by simp)
  · exact h.same ⟨rfl, rfl, rfl, rfl, rfl, rfl, rfl⟩ rfl rfl (.inl rfl)

omit [DecidableEq ι] [DecidableEq β] in
/-- What `failing` asks for, from the phases that can fail. -/
lemma Co.Fits.failing (h : c.Fits n x)
    (hPc : c.pc = .freezing ∨ c.pc = .preparing ∨ c.pc = .staging ∨ ∃ gs, c.pc = .switching gs) :
    { c with pc := .failing }.Fits n x := by
  obtain ⟨hRound, hFits⟩ := h
  refine ⟨hRound, ?_⟩
  show if c.activated then x.rep.Pending c.round else x.rep.part.hasPrev = false
  rcases hPc with hPc | hPc | hPc | ⟨gs, hPc⟩ <;> rw [hPc] at hFits
  · rw [hFits.1]; exact hFits.2
  · rw [hFits.1]; exact hFits.2
  · rw [hFits.1]; exact hFits.2
  · rw [hFits.1]; exact hFits.2

/-- **Every action keeps the shape of the node.** -/
theorem Does.wf (hDoes : Does D n x a o) (h : x.Wf n) : o.node.Wf n := by
  -- the metadata of a replica whose gate, data or queues change
  have hGate : ∀ (g : Gate) (d : Backing (NsEntry β)) (j : Nat → List β), d.gen = x.rep.disk.gen →
      d.prev = x.rep.disk.prev → x.rep.Same
        { x.rep with part := { x.rep.part with gate := g }, disk := d, jobs := j } :=
    fun _ _ _ hg hp => ⟨rfl, rfl, rfl, rfl, rfl, hg, hp⟩
  cases hDoes with
  | side hRep hSt hCo _ hNano => exact h.same (hRep ▸ Replica.Same.refl _) hSt hNano (.inl hCo)
  | answer | reply | resend | readGate | readServe | rebroadcast | seedSeen =>
    exact h.same (Replica.Same.refl _) rfl rfl (.inl rfl)
  | seedArrived | beginWrite | write | recvData | process =>
    exact h.same (hGate _ _ _ rfl rfl) rfl rfl (.inl rfl)
  | recv hCo | takePrepared hCo | takeReady hCo | takeOther hCo | again hCo =>
    exact h.same (Replica.Same.refl _) rfl rfl (.inr ⟨_, _, hCo, rfl, rfl, rfl, rfl⟩)
  | prepare _ hCo hCase => exact wf_prepare h hCo hCase
  | crash => exact wf_restart h
  | switch _ hCo _ hRound =>
    rename_i r gen genesis st _ _ _ _
    have hStaged : x.rep.stageEmpty.part.staged = some (x.rep.stageEmpty.part.gen + 1) := rfl
    have hPending : (x.rep.stageEmpty.activate r genesis true).Pending r :=
      activate_pending hStaged
    refine ⟨wf_activate hStaged, .inl rfl, ?_, ?_, ?_⟩
    · intro st' hst _
      obtain rfl := some.inj hst
      refine ⟨hPending.1, fun r' hr' => ?_⟩
      obtain rfl : r = r' := some.inj (hRound.symm.trans hr')
      exact hPending.2
    · intro st' hst hPhase
      obtain rfl := some.inj hst
      cases hPhase
    · intro c hc
      exact absurd (hc.symm.trans hCo) (by simp)
  | finishCommit hCo =>
    exact .settled wf_commit commit_settled
      (by simpa [Replica.unfreeze, Partition.unfreeze, committed] using h.unstaged hCo) rfl hCo
  | finishRollback hCo =>
    -- with nothing activated this writes the metadata of the active generation again
    exact .settled (wf_rollback h.rep) (rollback_settled h.rep)
      rollback_staged rfl hCo
  | start hCo hNano hSt hDoubt =>
    obtain ⟨hPrev, -⟩ := inDoubt_eq_false.mp hDoubt
    refine ⟨h.rep, .inl (h.unstaged hCo), ?_, (by simp), ?_⟩
    · intro st hst hPhase
      obtain rfl := some.inj hst
      cases hPhase
    · intro c hc
      obtain rfl := some.inj hc
      exact ⟨rfl, rfl, hPrev⟩
  | freeze hCo hPc =>
    obtain ⟨hRound, hFits⟩ := h.co _ hCo
    rw [hPc] at hFits
    exact h.move hCo (by simp [hPc]) (hGate _ _ _ rfl rfl) rfl rfl ⟨hRound, hFits⟩
  | freezeFail hCo hPc =>
    exact h.move hCo (by simp [hPc]) (hGate _ _ _ rfl rfl) rfl rfl
      (((h.co _ hCo).failing (.inl hPc)).same rfl rfl rfl rfl rfl (hGate _ _ _ rfl rfl))
  | converged hCo hPc =>
    obtain ⟨hRound, hFits⟩ := h.co _ hCo
    rw [hPc] at hFits
    exact h.move hCo (by simp [hPc]) (Replica.Same.refl _) rfl rfl ⟨hRound, hFits⟩
  | allReady hCo hPc =>
    obtain ⟨hRound, hFits⟩ := h.co _ hCo
    rw [hPc] at hFits
    exact h.move hCo (by simp [hPc]) (Replica.Same.refl _) rfl rfl ⟨hRound, hFits.2⟩
  | fail hCo hPc =>
    refine h.move hCo ?_ (Replica.Same.refl _) rfl rfl ((h.co _ hCo).failing hPc)
    intro gs hEq
    simp [hEq] at hPc
  | stage hCo hPc hDoubt =>
    obtain ⟨hPrev, -⟩ := inDoubt_eq_false.mp hDoubt
    obtain ⟨hRound, hFits⟩ := h.co _ hCo
    rw [hPc] at hFits
    refine ⟨⟨fun hp => ?_, h.rep.gen, h.rep.prev⟩, .inr ⟨_, _, rfl, rfl⟩, ?_, (by simp), ?_⟩
    · exact absurd (hPrev.symm.trans hp) (by simp)
    · exact h.switched
    · intro c hc
      obtain rfl := some.inj hc
      exact ⟨hRound, hFits.1, hPrev, rfl⟩
  | activate hCo hPc =>
    rename_i c genesis
    obtain ⟨hRound, hFits⟩ := h.co _ hCo
    rw [hPc] at hFits
    obtain ⟨-, hPrev, hStaged⟩ := hFits
    have hPending : (x.rep.activate c.round genesis false).Pending c.round :=
      activate_pending hStaged
    refine ⟨wf_activate hStaged, .inl ?_, ?_, (by simp), ?_⟩
    · rw [Replica.activate, hStaged]
      rfl
    · -- a switched participant has a rotation to settle, a staging coordinator none
      intro st hst hPhase
      exact absurd ((h.switched st hst hPhase).1.symm.trans hPrev) (by simp)
    · intro d hd
      obtain rfl := some.inj hd
      exact ⟨hRound, rfl, hPending⟩
  | commit hCo hPc =>
    exact .settled wf_commit commit_settled
      (by simpa [Replica.unfreeze, Partition.unfreeze, committed] using
        h.unstaged_co hCo (by simp [hPc])) rfl rfl
  | abort hCo hPc =>
    obtain ⟨hRound, hFits⟩ := h.co _ hCo
    rw [hPc] at hFits
    refine ⟨h.rep, .inl (h.unstaged_co hCo (by simp [hPc])), (by simp), (by simp), ?_⟩
    intro d hd
    obtain rfl := some.inj hd
    exact ⟨hRound, rfl, hFits⟩
  | unwind hCo hPc =>
    obtain ⟨-, hFits⟩ := h.co _ hCo
    rw [hPc] at hFits
    exact .settled (wf_rollback h.rep) (rollback_settled h.rep)
      rollback_staged hFits.1 rfl
  | unwindIdle hCo hPc hAct =>
    obtain ⟨-, hFits⟩ := h.co _ hCo
    rw [hPc, hAct] at hFits
    exact .settled (h.rep.same ⟨rfl, rfl, rfl, rfl, rfl, rfl, rfl⟩) hFits.2 (h.unstaged_co hCo (by simp [hPc]))
      hFits.1 rfl

/-! ## Where rounds come from -/

lemma Does.nano_le (hDoes : Does D n x a o) : x.nano ≤ o.node.nano := by
  cases hDoes with
  | side _ _ _ _ hNano => exact Nat.le_of_eq hNano.symm
  | start _ hNano => exact Nat.le_of_lt hNano
  | prepare _ _ hCase =>
    rw [onPrepare, hCase]
    dsimp only
    split <;> exact Nat.le_refl _
  | _ => exact Nat.le_refl _

/-- The round of a participant's record was there before, came with a `prepare`,
or is the node's own. -/
lemma Does.st_round {st : PState ι β} (hDoes : Does D n x a o) (hSt : o.node.st = some st)
    (hRound : st.round = some r) : (∃ st₀, x.st = some st₀ ∧ st₀.round = some r) ∨
    (∃ p union, a = .deliver p ∧ p.msg = .prepare r union) ∨ r = ⟨n, o.node.nano⟩ := by
  cases hDoes with
  | side _ hSt' => exact .inl ⟨st, hSt' ▸ hSt, hRound⟩
  | prepare hMsg _ hCase =>
    rw [onPrepare, hCase] at hSt
    dsimp only at hSt
    split at hSt
    · obtain rfl := some.inj hSt
      obtain rfl := some.inj hRound
      exact .inr (.inl ⟨_, _, rfl, hMsg⟩)
    · exact .inl ⟨st, hSt, hRound⟩
  | switch _ _ hSt' =>
    obtain rfl := some.inj hSt
    exact .inl ⟨_, hSt', hRound⟩
  | crash =>
    -- a restart forgets the round
    simp only [Node.restart] at hSt
    split at hSt
    · obtain rfl := some.inj hSt
      cases hRound
    · cases hSt
  | start =>
    obtain rfl := some.inj hSt
    exact .inr (.inr (some.inj hRound).symm)
  | finishCommit => cases hSt
  | finishRollback => cases hSt
  | commit => cases hSt
  | abort => cases hSt
  | _ =>
    exact .inl ⟨st, hSt, hRound⟩

/-! ## What is sent -/

/-- The messages of an action, each with what its sender was doing. -/
inductive Sent (x : Node ι β) (o : Out ι β) : Msg ι β → Prop
  | plain {m : Msg ι β} (hPlain : m.Plain) : Sent x o m
  | prepare {c : Co ι β} {union : List β} (hCo : x.co = some c) : Sent x o (.prepare c.round union)
  | prepared {r : RoundId ι} {st : PState ι β} {union : List β} (hCo : x.co = none)
      (hSt : o.node.st = some st) (hRound : st.round = some r) (hPhase : st.phase = .prepared)
      (hNode : o.node.co = none) : Sent x o (.prepared r (o.node.preparedReply union))
  | switch {c : Co ι β} {gen : Nat} {genesis : Option β} (hCo : x.co = some c)
      (hCo' : ∃ c', o.node.co = some c' ∧ c'.round = c.round ∧ c'.pc = .switching genesis) :
      Sent x o (.switch c.round gen genesis)
  | done {c : Co ι β} {genesis : Option β} (hCo : x.co = some c) (hPc : c.pc = .switching genesis)
      (hCo' : o.node.co = some { c with pc := .committing, activated := false }) :
      Sent x o (.done c.round)
  | abort {c : Co ι β} (hCo : x.co = some c) (hPc : c.pc = .failing)
      (hCo' : o.node.co = some { c with pc := .unwinding }) : Sent x o (.abort c.round)
  | idle (hSt : x.st = none) (hDoubt : x.rep.part.inDoubt = false) (hNode : o.node = x) :
      Sent x o (.outcome x.rep.part.gen .idle)
  | indoubt : Sent x o (.outcome x.rep.part.gen .indoubt)

lemma Does.sent (hDoes : Does D n x a o) (hSend : m ∈ o.send) : Sent x o m := by
  cases hDoes with
  | side _ _ _ _ _ _ hPlain => exact .plain (hPlain m hSend)
  | answer =>
    obtain rfl := mem_singleton.mp hSend
    split
    · exact .indoubt
    · next hIdle =>
      obtain ⟨hSt, hDoubt⟩ : x.st = none ∧ x.rep.part.inDoubt = false := by simpa using hIdle
      exact .idle hSt hDoubt rfl
  | reply _ hCo hSt hRound hPhase =>
    obtain rfl := mem_singleton.mp hSend
    exact .prepared hCo hSt hRound hPhase hCo
  | prepare _ hCo hCase =>
    revert hSend
    rw [onPrepare, hCase]
    dsimp only
    split <;> intro hSend <;> obtain rfl := mem_singleton.mp hSend
    · exact .prepared hCo rfl rfl rfl hCo
    · exact .plain rfl
  | seedArrived =>
    obtain rfl := mem_singleton.mp hSend
    exact .plain trivial
  | freeze hCo | again hCo =>
    obtain rfl := mem_singleton.mp hSend
    exact .prepare hCo
  | allReady hCo hPc =>
    obtain rfl := mem_singleton.mp hSend
    exact .done hCo hPc rfl
  | resend hCo hPc =>
    obtain rfl := mem_singleton.mp hSend
    exact .switch hCo ⟨_, hCo, rfl, hPc⟩
  | activate hCo =>
    obtain rfl := mem_singleton.mp hSend
    exact .switch hCo ⟨_, rfl, rfl, rfl⟩
  | abort hCo hPc =>
    obtain rfl := mem_singleton.mp hSend
    exact .abort hCo hPc rfl
  | _ => cases hSend

lemma Node.co_onPrepare (hCo : x.co = none) (hCase : x.prepareCase r = .fresh) :
    (x.onPrepare n r union).node.co = none := by
  rw [onPrepare, hCase]
  dsimp only
  split <;> exact hCo

/-- A running `Compact` has just been started, or was running before: once it
fails it stays so, and it commits only after `done`. -/
lemma Does.co_cases (hDoes : Does D n x a o) (hCo' : o.node.co = some c') :
    (x.co = none ∧ x.nano < c'.round.nano ∧ c'.pc = .freezing) ∨ ∃ c, x.co = some c ∧ c'.round = c.round ∧
    (c'.pc = .committing ↔ c.pc = .committing ∨ .done c.round ∈ o.send) ∧
    (c.pc = .failing ∨ c.pc = .unwinding → c'.pc = .failing ∨ c'.pc = .unwinding) := by
  cases hDoes with
  | side _ _ hCo _ _ _ hPlain =>
    refine .inr ⟨c', hCo ▸ hCo', rfl, ?_, id⟩
    exact (or_iff_left fun hSend => False.elim (hPlain (.done _) hSend)).symm
  | prepare _ hCo hCase => cases hCo'.symm.trans (co_onPrepare hCo hCase)
  | start hCo hNano =>
    obtain rfl := some.inj hCo'
    exact .inl ⟨hCo, hNano, rfl⟩
  | answer _ hCo | reply _ hCo | switch _ hCo | finishCommit hCo | finishRollback hCo =>
    cases hCo'.symm.trans hCo
  | crash | commit | unwind | unwindIdle => cases hCo'
  | recv hCo | takePrepared hCo | takeReady hCo | takeOther hCo =>
    obtain rfl := some.inj hCo'
    exact .inr ⟨_, hCo, rfl, by simp, id⟩
  | again hCo hPc =>
    obtain rfl := some.inj hCo'
    exact .inr ⟨_, hCo, rfl, by simp, id⟩
  | freeze hCo hPc | freezeFail hCo hPc | converged hCo hPc | allReady hCo hPc | stage hCo hPc
  | activate hCo hPc | abort hCo hPc =>
    obtain rfl := some.inj hCo'
    exact .inr ⟨_, hCo, rfl, by simp [hPc], by simp [hPc]⟩
  | fail hCo hPc =>
    obtain rfl := some.inj hCo'
    refine .inr ⟨_, hCo, rfl, ?_, fun _ => .inl rfl⟩
    rcases hPc with hPc | hPc | hPc | ⟨gs, hPc⟩ <;> simp [hPc]
  | resend =>
    exact .inr ⟨_, hCo', rfl, by simp, id⟩
  | _ =>
    refine .inr ⟨_, hCo', rfl, ?_, id⟩
    exact (or_iff_left fun hSend => by cases hSend <;> contradiction).symm

/-! ## What is recorded -/

/-- The events an action records, each with what its node was doing. -/
inductive Logged (D : Datastore β κ ν) (n : ι) (x : Node ι β) (a : Action ι β) (o : Out ι β) :
    Event ι β → Prop
  | prepared {p : Packet ι β} {r : RoundId ι} {union : List β} (hAction : a = .deliver p)
      (hMsg : p.msg = .prepare r union) (hCo : x.co = none) (hCase : x.prepareCase r = .fresh)
      (hFreeze : x.rep.freeze.2 = true) : Logged D n x a o (.prepared n r)
  | staged {c : Co ι β} (hCo : x.co = some c) (hPc : c.pc = .staging)
      (hDoubt : x.rep.part.inDoubt = false) (hRep : o.node.rep = x.rep.stageSeeded D)
      (hAction : a = .stage) : Logged D n x a o (.staged c.round x.rep.part.gen c.members
        x.rep.ns (blocks ((x.rep.stageSeeded D).disk.ns (x.rep.part.gen + 1))))
  | activated {r : RoundId ι} {g : Nat} : Logged D n x a o (.activated n r g)
  | committed {r : RoundId ι} {g : Nat} : Logged D n x a o (.committed n r g)
  | rolledBack {r : RoundId ι} {g : Nat} : Logged D n x a o (.rolledBack n r g)
  | acked {b : β} {es : List (NsEntry β)} (hInflight : 0 < x.rep.part.gate.inflight)
      (hAdv : Advances D x.rep.ns (x.rep.jobs x.rep.part.gen) [b] es (x.rep.jobs x.rep.part.gen))
      (hPart : o.node.rep.part = { x.rep.part with gate := x.rep.part.gate.endWrite })
      (hDisk : o.node.rep.disk = x.rep.disk.setNs x.rep.part.gen es) :
      Logged D n x a o (.acked n x.rep.part.gen ((x.rep.origin x.rep.part.gen).map Prod.fst) b)
  | served (hReads : 0 < x.reads) : Logged D n x a o
      (.served n x.rep.part.gen (x.rep.holdsSeed D x.rep.part.gen))

section

omit [DecidableEq ι] [DecidableEq β]

lemma Replica.mem_commitLog (h : e ∈ y.commitLog n) : ∃ r g, e = .committed n r g := by
  unfold commitLog at h
  split at h
  · exact ⟨_, _, mem_singleton.mp h⟩
  · cases h

lemma Replica.mem_rollbackLog (h : e ∈ y.rollbackLog n) : ∃ r g, e = .rolledBack n r g := by
  unfold rollbackLog at h
  split at h
  · exact ⟨_, _, mem_singleton.mp h⟩
  · cases h

end

lemma Does.logged (hDoes : Does D n x a o) (he : e ∈ o.log) : Logged D n x a o e := by
  cases hDoes with
  | prepare hMsg hCo hCase =>
    revert he
    rw [onPrepare, hCase]
    dsimp only
    split <;> intro he
    · next hFreeze =>
      obtain rfl := mem_singleton.mp he
      exact .prepared rfl hMsg hCo hCase hFreeze
    · cases he
  | stage hCo hPc hDoubt =>
    obtain rfl := mem_singleton.mp he
    exact .staged hCo hPc hDoubt rfl rfl
  | switch | activate =>
    obtain rfl := mem_singleton.mp he
    exact .activated
  | finishCommit | commit =>
    obtain ⟨r, g, rfl⟩ := mem_commitLog he
    exact .committed
  | finishRollback | unwind =>
    obtain ⟨r, g, rfl⟩ := mem_rollbackLog he
    exact .rolledBack
  | write hInflight hAdv =>
    obtain rfl := mem_singleton.mp he
    exact .acked hInflight hAdv rfl rfl
  | readServe hReads =>
    obtain rfl := mem_singleton.mp he
    exact .served hReads
  | _ => cases he

/-! ## What becomes of the rotation -/

/-- The events that end or begin a rotation at a replica. -/
def Event.Rotates : Event ι β → Prop
  | .activated _ _ _ | .committed _ _ _ | .rolledBack _ _ _ => True
  | _ => False

/-- What an action does to the rotation of its replica. -/
inductive Effect (n : ι) (x : Node ι β) (a : Action ι β) (o : Out ι β) : Prop
  | kept (hGen : o.node.rep.part.gen = x.rep.part.gen)
      (hPrev : o.node.rep.part.hasPrev = x.rep.part.hasPrev) (hAct : o.node.rep.act = x.rep.act)
      (hLog : ∀ e ∈ o.log, ¬ e.Rotates) (hOrigin : o.node.rep.origin = x.rep.origin)
  | activated {r : RoundId ι} (hBefore : x.rep.part.hasPrev = false)
      (hRep : o.node.rep.Pending r) (hGen : o.node.rep.part.gen = x.rep.part.gen + 1)
      (hLog : o.log = [.activated n r (x.rep.part.gen + 1)])
      (hWhy : (∃ st, x.st = some st ∧ st.round = some r ∧ st.phase = .prepared ∧ x.co = none) ∨
        ∃ c gs, x.co = some c ∧ c.round = r ∧ c.pc = .activating gs)
      (hOrigin : ∃ gs, o.node.rep.origin = Function.update x.rep.origin (x.rep.part.gen + 1) (some (r, gs)))
  | committed {r : RoundId ι} (hBefore : x.rep.Pending r)
      (hRep : o.node.rep = x.rep.commit.unfreeze)
      (hLog : o.log = [.committed n r x.rep.part.gen])
      (hWhy : (x.co = none ∧ Verdict n x a true ∧ ∃ st, x.st = some st ∧ st.phase = .switched) ∨
        ∃ c, x.co = some c ∧ c.round = r ∧ c.pc = .committing)
  | rolledBack {r : RoundId ι} (hBefore : x.rep.Pending r)
      (hRep : o.node.rep = x.rep.rollback.unfreeze)
      (hLog : o.log = [.rolledBack n r x.rep.part.gen])
      (hWhy : (x.co = none ∧ Verdict n x a false ∧ ∃ st, x.st = some st ∧ st.phase = .switched) ∨
        ∃ c, x.co = some c ∧ c.round = r ∧ c.pc = .unwinding)

section

omit [DecidableEq ι] [DecidableEq β]

lemma Replica.Wf.exists_pending (h : y.Wf) (hPrev : y.part.hasPrev = true) : ∃ r, y.Pending r := by
  obtain ⟨-, -, r, hAct⟩ := h.pending hPrev
  exact ⟨r, hPrev, hAct⟩

lemma Replica.commitLog_pending (h : y.Pending r) : y.commitLog n = [.committed n r y.part.gen] := by
  rw [commitLog, h.1, h.2]

lemma Replica.rollbackLog_pending (hWf : y.Wf) (h : y.Pending r) :
    y.rollbackLog n = [.rolledBack n r y.part.gen] := by
  rw [rollbackLog, h.1, h.2, (hWf.pending h.1).1]

end

omit [DecidableEq β] in
/-- Rolling back a replica that has nothing to roll back. -/
lemma Effect.idle {a : Action ι β} {o : Out ι β} (hPrev : x.rep.part.hasPrev = false)
    (hRep : o.node.rep = x.rep.rollback.unfreeze) (hLog : o.log = x.rep.rollbackLog n) : Effect n x a o := by
  have hPart := rolledBack_idle hPrev
  refine .kept ?_ ?_ ?_ ?_ ?_
  · rw [hRep]; simp [Replica.unfreeze, Partition.unfreeze, reopenReads, hPart]
  · rw [hRep]; simp [Replica.unfreeze, Partition.unfreeze, reopenReads, hPart]
  · rw [hRep]; simp [Replica.unfreeze]
  · rw [hLog, rollbackLog, hPrev]
    intro e he
    cases hAct : x.rep.act <;> simp [hAct] at he
  · rw [hRep]; simp [Replica.unfreeze]

/-- **What becomes of the rotation.** An action leaves the rotation of its
replica as it is, activates a generation, or settles the one activated last. -/
theorem Does.effect (hDoes : Does D n x a o) (h : x.Wf n) : Effect n x a o := by
  cases hDoes with
  | side hRep =>
    refine .kept ?_ ?_ ?_ (by simp) ?_ <;> rw [hRep]
  | prepare _ _ hCase =>
    rw [onPrepare, hCase]
    dsimp only
    split
    · exact .kept rfl rfl rfl (by simp [Event.Rotates]) rfl
    · exact .kept rfl rfl rfl (by simp) rfl
  | crash =>
    exact .kept (restart_gen h.rep) (restart_hasPrev h.rep) rfl (by simp) rfl
  | switch _ hCo hSt hRound hPhase hDoubt =>
    exact .activated (inDoubt_eq_false.mp hDoubt).1 ⟨rfl, rfl⟩ rfl rfl
      (.inl ⟨_, hSt, hRound, hPhase, hCo⟩) ⟨_, rfl⟩
  | activate hCo hPc =>
    obtain ⟨-, hFits⟩ := h.co _ hCo
    rw [hPc] at hFits
    obtain ⟨-, hPrev, hStaged⟩ := hFits
    exact .activated hPrev (activate_pending hStaged) (activate_gen hStaged)
      (by rw [activate_gen hStaged]) (.inr ⟨_, _, hCo, rfl, hPc⟩)
      ⟨_, activate_origin hStaged⟩
  | finishCommit hCo hVerdict hSt hPhase =>
    obtain ⟨r, hPending⟩ := h.rep.exists_pending (h.switched _ hSt hPhase).1
    exact .committed hPending rfl (commitLog_pending hPending)
      (.inl ⟨hCo, hVerdict, _, hSt, hPhase⟩)
  | commit hCo hPc =>
    obtain ⟨-, hFits⟩ := h.co _ hCo
    rw [hPc] at hFits
    exact .committed hFits rfl (commitLog_pending hFits) (.inr ⟨_, hCo, rfl, hPc⟩)
  | finishRollback hCo hVerdict hSt hNot =>
    rename_i st b
    -- only a switched participant has something to roll back
    cases hPhase : st.phase with
    | prepared => exact .idle (h.prepared _ hSt hPhase hCo) rfl rfl
    | switched =>
      obtain ⟨r, hPending⟩ := h.rep.exists_pending (h.switched _ hSt hPhase).1
      obtain rfl : b = false := hNot.resolve_right (by simp [hPhase])
      exact .rolledBack hPending rfl (rollbackLog_pending h.rep hPending)
        (.inl ⟨hCo, hVerdict, _, hSt, hPhase⟩)
  | unwind hCo hPc hAct =>
    obtain ⟨-, hFits⟩ := h.co _ hCo
    rw [hPc, hAct] at hFits
    exact .rolledBack hFits.2 rfl (rollbackLog_pending h.rep hFits.2)
      (.inr ⟨_, hCo, rfl, hPc⟩)
  | readServe | write | stage => exact .kept rfl rfl rfl (by simp [Event.Rotates]) rfl
  | _ =>
    exact .kept rfl rfl rfl (fun _ he => absurd he not_mem_nil) rfl

end

/-! ## In every run -/

section

variable [DecidableEq ι] [DecidableEq β] {D : Datastore β κ ν} {members : ι → List ι}
  {K : Sys ι β → ι × Action ι β → Prop} {s : Sys ι β} {n : ι}

/-- The runs of the cluster whose steps all meet `K`, from nodes that have never
run. -/
abbrev Sys.Reaches (D : Datastore β κ ν) (members : ι → List ι)
    (K : Sys ι β → ι × Action ι β → Prop) : Sys ι β → Prop :=
  Reach (step D) K (init members)

/-- The invariant rule, with what a node does in a step. -/
lemma Sys.Reaches.induct_does {I : Sys ι β → Prop} (h : Sys.Reaches D members K s) (hInit : I (init members))
    (hNext : ∀ s n a o ms, Sys.Reaches D members K s → I s → K s (n, a) → Sys.Reaches D members K (s.after n o) →
      s.received n a = true → (s.node n).act D n a = some o → Does D n { s.node n with members := ms } a o →
      I (s.after n o)) : I s := by
  refine h.induct hInit ?_
  rintro s s' ⟨n, a⟩ hReach hI hK hStep
  have hReach' := hReach.next hK hStep
  obtain ⟨hRecv, o, hAct, rfl⟩ := step_eq hStep
  obtain ⟨ms, hDoes⟩ := act_does hAct
  exact hNext s n a o ms hReach hI hK hReach' hRecv hAct hDoes

omit [DecidableEq β] in
lemma Sys.forall_node_after {P : ι → Node ι β → Prop} (h : ∀ m, P m (s.node m)) (ho : P n o.node) (m : ι) :
    P m ((s.after n o).node m) := by
  by_cases hm : m = n
  · subst hm
    rw [after_node_self]
    exact ho
  · rw [after_node_ne hm]
    exact h m

omit [DecidableEq ι] [DecidableEq β] in
/-- The shape does not speak of the members a node knows. -/
lemma Node.Wf.learned {x : Node ι β} (h : x.Wf n) (ms : List ι) : { x with members := ms }.Wf n :=
  ⟨h.rep, h.staged, h.switched, h.prepared, h.co⟩

/-- **Every node of every reachable cluster fits its replica.** -/
theorem wf_of_reach (h : Sys.Reaches D members K s) : ∀ n, (s.node n).Wf n := by
  refine h.induct_does (I := fun s => ∀ n, (s.node n).Wf n) (fun n => wf_init n _) ?_
  rintro s n a o ms - hWf - - - - hDoes
  exact forall_node_after hWf (hDoes.wf ((hWf n).learned ms))

/-- The coordinator of the round has started it. -/
def Sys.Started (s : Sys ι β) (r : RoundId ι) : Prop := r.nano ≤ (s.node r.coord).nano

lemma Sys.Started.after (h : s.Started r) (hAct : (s.node n).act D n a = some o) :
    (s.after n o).Started r := by
  obtain ⟨ms, hDoes⟩ := act_does hAct
  refine forall_node_after (P := fun m x => m = r.coord → r.nano ≤ x.nano) ?_ ?_ _ rfl
  · rintro m rfl
    exact h
  · rintro rfl
    exact Nat.le_trans h hDoes.nano_le

omit [DecidableEq ι] [DecidableEq β] in
/-- A running `Compact` has the round its node started last. -/
lemma Sys.started_running (hWf : ∀ m, (s.node m).Wf m) (hc : (s.node n).co = some c) : s.Started c.round := by
  have hId : c.round = ⟨n, (s.node n).nano⟩ := ((hWf n).co c hc).1
  rw [hId]
  exact Nat.le_refl _

/-- No round is heard of before its coordinator has started it. -/
structure Sys.Known (s : Sys ι β) : Prop where
  prepare : ∀ p ∈ s.net, ∀ r union, p.msg = .prepare r union → s.Started r
  st : ∀ n st r, (s.node n).st = some st → st.round = some r → s.Started r
  act : ∀ n r g, (s.node n).rep.act = some (r, g) → s.Started r

lemma known_of_reach (h : Sys.Reaches D members K s) : s.Known := by
  refine h.induct_does (I := Sys.Known) ⟨fun p hp => ?_, fun n st r hSt => ?_, fun n r g hEq => ?_⟩ ?_
  · cases hp
  · cases hSt
  · cases hEq
  rintro s n a o ms hReach hKnown - - hRecv hAct hDoes
  have hWf := wf_of_reach hReach
  -- what a coordinator says is about its own round
  have hOwn : ∀ c, (s.node n).co = some c → (s.after n o).Started c.round :=
    fun c hc => (started_running hWf hc).after hAct
  constructor
  · intro p hp r union hMsg
    rcases mem_after_net.mp hp with hp | ⟨hSend, -⟩
    · exact (hKnown.prepare p hp r union hMsg).after hAct
    · cases hMsg ▸ hDoes.sent hSend with
      | plain hPlain => exact absurd hPlain nofun
      | prepare hCo => exact hOwn _ hCo
  · intro m st r
    refine forall_node_after
      (P := fun _ x => x.st = some st → st.round = some r → (s.after n o).Started r)
      (fun m hSt hRound => (hKnown.st m st r hSt hRound).after hAct) ?_ m
    intro hSt hRound
    rcases hDoes.st_round hSt hRound with ⟨st₀, hSt₀, hRound₀⟩ | ⟨p, union, rfl, hMsg⟩ | rfl
    · exact (hKnown.st n st₀ r hSt₀ hRound₀).after hAct
    · exact (hKnown.prepare p (by simpa [received] using (of_decide_eq_true hRecv).1) r union
        hMsg).after hAct
    · exact Nat.le_of_eq (congrArg nano after_node_self.symm)
  · intro m r g
    refine forall_node_after
      (P := fun _ x => x.rep.act = some (r, g) → (s.after n o).Started r)
      (fun m hEq => (hKnown.act m r g hEq).after hAct) ?_ m
    intro hEq
    have hOld : (s.node n).rep.act = some (r, g) → (s.after n o).Started r :=
      fun hOld => (hKnown.act n r g hOld).after hAct
    cases hDoes.effect ((hWf n).learned ms) with
    | kept _ _ hSame => exact hOld (hSame ▸ hEq)
    | activated _ hRep _ _ hWhy =>
      -- a participant activates in the round it is prepared in, a coordinator in its own
      obtain ⟨rfl, -⟩ := Prod.mk.inj (some.inj (hRep.2.symm.trans hEq))
      rcases hWhy with ⟨st, hSt, hRound, -⟩ | ⟨c, gs, hc, rfl, -⟩
      · exact (hKnown.st n st _ hSt hRound).after hAct
      · exact hOwn c hc
    | committed _ hRep =>
      rw [hRep] at hEq
      exact hOld ((commit_act _).symm.trans hEq)
    | rolledBack _ hRep =>
      rw [hRep] at hEq
      exact hOld ((rollback_act _).symm.trans hEq)

end

end RedGeo.Rotation
