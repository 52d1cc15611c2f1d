import RedGeo.Rotation.Rounds

/-!
# RedGeo — the gate and the data of a node in every run

Three facts that hold of every node in every run:

* `gated_of_reach` — while a node is prepared, or has a rotation to settle, its
  partition is frozen and no admitted write is left (`Still`);
* `sound_of_reach` — the assumptions on go-ds-crdt hold of every namespace, as
  long as committing a batch keeps them (`BatchSound`);
* `drained_of_reach` — nothing is queued for a generation to come;
* `acked_of_reach` — an acknowledged write of the generation a node would fall
  back to is in that generation.
-/

namespace RedGeo.Rotation

open Engine Lib Function List Option Sys Replica Partition Node

variable {ι β κ ν : Type} {D : Datastore β κ ν}

/-! ## The gate -/

/-- The partition is frozen and no admitted write is left. -/
def Replica.Still (x : Replica ι β) : Prop :=
  x.part.gate.frozen = true ∧ x.part.gate.inflight = 0

/-- The partition is still where the protocol relies on it. -/
structure Node.Gated (x : Node ι β) : Prop where
  pending : x.rep.part.hasPrev = true → x.rep.Still
  prepared : ∀ st, x.st = some st → st.phase = .prepared → x.co = none → x.rep.Still
  co : ∀ c, x.co = some c → (c.pc = .preparing ∨ c.pc = .staging ∨ ∃ gs, c.pc = .activating gs) → x.rep.Still

namespace Node.Gated

variable {x x' : Node ι β}

/-- Steps that keep the partition still if it was, and the phases as they are. -/
lemma same (h : x.Gated) (hStill : x.rep.Still → x'.rep.Still)
    (hPrev : x'.rep.part.hasPrev = x.rep.part.hasPrev) (hSt : x'.st = x.st)
    (hCo : x'.co = x.co ∨ ∃ c c', x.co = some c ∧ x'.co = some c' ∧ c'.pc = c.pc) : x'.Gated := by
  refine ⟨fun hp => hStill (h.pending (hPrev ▸ hp)), fun st hst hPhase hNo => ?_, fun c' hc' hPc => ?_⟩
  · refine hStill (h.prepared st (hSt ▸ hst) hPhase ?_)
    rcases hCo with hCo | ⟨c, c', -, hc', -⟩
    · exact hCo ▸ hNo
    · exact absurd (hc'.symm.trans hNo) nofun
  · rcases hCo with hCo | ⟨c, d, hc, hd, hSame⟩
    · exact hStill (h.co c' (hCo ▸ hc') hPc)
    · obtain rfl : d = c' := some.inj (hd.symm.trans hc')
      exact hStill (h.co c hc (hSame ▸ hPc))

/-- A partition with nothing to settle and no record may be open. -/
lemma idle (hPrev : x'.rep.part.hasPrev = false) (hSt : x'.st = none) (hCo : x'.co = none) : x'.Gated := by
  refine ⟨fun hp => absurd (hPrev.symm.trans hp) nofun, fun st hst => ?_, fun c hc => ?_⟩
  · exact absurd (hSt.symm.trans hst) nofun
  · exact absurd (hCo.symm.trans hc) nofun

/-- A running `Compact` that relies on the gate only for a rotation to settle. -/
lemma running (hPrev : x'.rep.part.hasPrev = true → x'.rep.Still) (hCo : x'.co = some c)
    (hPc : c.pc = .preparing ∨ c.pc = .staging ∨ (∃ gs, c.pc = .activating gs) → x'.rep.Still) : x'.Gated := by
  refine ⟨hPrev, fun st _ _ hNo => absurd (hCo.symm.trans hNo) nofun, fun d hd hPc' => ?_⟩
  obtain rfl : c = d := some.inj (hCo.symm.trans hd)
  exact hPc hPc'

lemma learned (h : x.Gated) (ms : List ι) : { x with members := ms }.Gated :=
  ⟨h.pending, h.prepared, h.co⟩

/-- A step only a partition that is not still allows. -/
lemma open_ (h : x.Gated) (hOpen : ¬ x.rep.Still) (hPrev : x'.rep.part.hasPrev = x.rep.part.hasPrev)
    (hSt : x'.st = x.st) (hCo : x'.co = x.co) : x'.Gated :=
  h.same (fun hStill => absurd hStill hOpen) hPrev hSt (.inl hCo)

end Node.Gated

section

variable [DecidableEq ι] [DecidableEq β] {n : ι} {x : Node ι β}

lemma Node.gated_prepare {union : List β} (hCo : x.co = none) (hCase : x.prepareCase r = .fresh) :
    (x.onPrepare n r union).node.Gated := by
  obtain ⟨hSt, hDoubt⟩ := fresh_idle hCase
  obtain ⟨hPrev, -⟩ := inDoubt_eq_false.mp hDoubt
  rw [onPrepare, hCase]
  dsimp only
  split
  · next hOk =>
    have hStill : x.rep.freeze.1.Still :=
      ⟨rfl, by simpa [Replica.freeze, Partition.freeze, Gate.freeze] using hOk⟩
    exact ⟨fun _ => hStill, fun _ _ _ _ => hStill, fun _ _ _ => hStill⟩
  · exact .idle hPrev hSt hCo

/-- **Every action keeps the gate.** -/
theorem Does.gated (hDoes : Does D n x a o) (hWf : x.Wf n) (h : x.Gated) : o.node.Gated := by
  cases hDoes with
  | side hRep hSt hCo => exact h.same (by rw [hRep]; exact id) (by rw [hRep]) hSt (.inl hCo)
  | answer | reply | resend | readGate | readServe | rebroadcast | seedSeen | seedArrived | recvData
  | process => exact h.same id rfl rfl (.inl rfl)
  | recv hCo | takePrepared hCo | takeReady hCo | takeOther hCo | again hCo =>
    exact h.same id rfl rfl (.inr ⟨_, _, hCo, rfl, rfl⟩)
  | beginWrite hFrozen =>
    exact h.open_ (fun hStill => by simp [hStill.1] at hFrozen) rfl rfl rfl
  | write hInflight => exact h.open_ (fun hStill => by simp [hStill.2] at hInflight) rfl rfl rfl
  | prepare _ hCo hCase => exact gated_prepare hCo hCase
  | switch _ hCo hSt _ hPhase =>
    have hStill := h.prepared _ hSt hPhase hCo
    refine ⟨fun _ => hStill, fun st hst hPrepared => ?_, fun c hc => ?_⟩
    · obtain rfl := some.inj hst
      cases hPrepared
    · exact absurd (hc.symm.trans hCo) (by simp)
  | finishCommit hCo => exact .idle commit_settled rfl hCo
  | finishRollback hCo => exact .idle (rollback_settled hWf.rep) rfl hCo
  | commit => exact .idle commit_settled rfl rfl
  | unwind hCo hPc =>
    obtain ⟨-, hFits⟩ := hWf.co _ hCo
    rw [hPc] at hFits
    exact .idle (rollback_settled hWf.rep) hFits.1 rfl
  | unwindIdle hCo hPc hAct =>
    obtain ⟨-, hFits⟩ := hWf.co _ hCo
    rw [hPc, hAct] at hFits
    exact .idle hFits.2 hFits.1 rfl
  | crash =>
    refine ⟨fun hPrev => ?_, fun st hst hPhase => ?_, fun _ hc => by cases hc⟩
    · obtain ⟨q, hq⟩ : ∃ q, x.rep.disk.prev = some q :=
        isSome_iff_exists.mp (by simpa [Node.restart, Replica.restart] using hPrev)
      constructor <;> simp [Node.restart, Replica.restart, restoreGen, hq, Gate.set]
    · simp only [Node.restart] at hst
      split at hst
      · obtain rfl := some.inj hst
        cases hPhase
      · cases hst
  | start _ _ _ hDoubt =>
    obtain ⟨hPrev, -⟩ := inDoubt_eq_false.mp hDoubt
    exact .running (fun hp => absurd (hPrev.symm.trans hp) (by simp)) rfl (by simp)
  | freeze hCo hPc hOk =>
    have hStill : x.rep.freeze.1.Still :=
      ⟨rfl, by simpa [Replica.freeze, Partition.freeze, Gate.freeze] using hOk⟩
    exact .running (fun _ => hStill) rfl fun _ => hStill
  | freezeFail hCo hPc =>
    obtain ⟨-, hFits⟩ := hWf.co _ hCo
    rw [hPc] at hFits
    exact .running (fun hp => absurd (hFits.2.symm.trans hp) (by simp)) rfl (by simp)
  | converged hCo hPc => exact .running h.pending rfl fun _ => h.co _ hCo (.inl hPc)
  | allReady | fail | abort => exact .running h.pending rfl (by simp)
  | stage hCo hPc => exact .running h.pending rfl fun _ => h.co _ hCo (.inr (.inl hPc))
  | activate hCo hPc =>
    have hStill := h.co _ hCo (.inr (.inr ⟨_, hPc⟩))
    refine .running (fun _ => ?_) rfl (by simp)
    rw [Replica.activate]
    split <;> exact hStill

end

/-! ## The namespaces -/

/-- What is assumed of the commit of a batch: the assumptions on the namespace
hold of the result. -/
def Datastore.BatchSound (D : Datastore β κ ν) : Prop :=
  ∀ es kvs jobs, Sound D es jobs → Sound D (es ++ D.batch es kvs) jobs

/-- A batch of the plain datastore is a list of seeds, each its own head. -/
lemma plainStore_batch (es : List (NsEntry Nat)) (kvs : List (Nat × Nat)) : blocks (plainStore.batch es kvs) =
    kvs.map (100 + ·.1) ∧ heads (plainStore.batch es kvs) = kvs.map (100 + ·.1) := by
  induction kvs with
  | nil => exact ⟨rfl, rfl⟩
  | cons kv kvs ih =>
    constructor
    · exact congrArg (List.cons (100 + kv.1)) ih.1
    · exact congrArg (List.cons (100 + kv.1)) ih.2

lemma plainStore_batchSound : plainStore.BatchSound := by
  intro es kvs jobs h
  obtain ⟨hBlocks, hHeads⟩ := plainStore_batch es kvs
  have hSeed : ∀ b ∈ kvs.map (100 + ·.1), 100 ≤ b := by
    intro b hb
    obtain ⟨kv, -, rfl⟩ := mem_map.mp hb
    exact Nat.le_add_right _ _
  -- nothing lies below a seed
  have hDag : ∀ b, 100 ≤ b → plainStore.dag b = [b] := fun b hb => if_pos (.inr hb)
  refine ⟨fun b hb => ?_, fun b hb => ?_, fun hNil b hb a ha => ?_⟩
  · rw [heads_append, hHeads, mem_append] at hb
    rw [blocks_append, hBlocks, mem_append]
    exact hb.imp_left (h.heads b)
  · rw [blocks_append, hBlocks, mem_append] at hb
    rw [heads_append, hHeads]
    rcases hb with hb | hb
    · obtain ⟨k, hk, hDagK⟩ := h.covered b hb
      exact ⟨k, mem_append_left _ hk, hDagK⟩
    · refine ⟨b, mem_append_right _ hb, ?_⟩
      rw [hDag b (hSeed b hb)]
      exact mem_singleton_self b
  · rw [blocks_append, hBlocks, mem_append] at hb ⊢
    rcases hb with hb | hb
    · exact .inl (h.closed hNil b hb a ha)
    · rw [hDag b (hSeed b hb), mem_singleton] at ha
      exact .inr (ha ▸ hb)

/-- The assumptions hold of every namespace of the replica. -/
def Replica.AllSound (D : Datastore β κ ν) (x : Replica ι β) : Prop :=
  ∀ g, Sound D (x.disk.ns g) (x.jobs g)

/-- A queue may grow. -/
lemma Sound.queued {D : Datastore β κ ν} {jobs : List β} (h : Sound D es jobs) (more : List β) :
    Sound D es (jobs ++ more) :=
  ⟨h.heads, h.covered, fun hNil => h.closed (append_eq_nil_iff.mp hNil).1⟩

namespace Replica

variable (x : Replica ι β)

/-- One namespace is replaced, with its queue. -/
lemma AllSound.update {D : Datastore β κ ν} {x : Replica ι β} {jobs : List β} (h : x.AllSound D)
    (hNew : Sound D es jobs) (k : Nat) : Sound D (update x.disk.ns g es k) (update x.jobs g jobs k) := by
  by_cases hk : k = g
  · subst hk
    rw [update_self, update_self]
    exact hNew
  · rw [update_of_ne hk, update_of_ne hk]
    exact h k

/-- What `Commit` and `Rollback` drop is emptied, with its queue. -/
lemma AllSound.settle {D : Datastore β κ ν} {x y : Replica ι β} {drop : Option Nat} (h : x.AllSound D)
    (hNs : y.disk.ns = (x.disk.purged drop).ns) (hJobs : y.jobs = (x.close drop).jobs) : y.AllSound D := by
  intro k
  rw [hNs, hJobs]
  cases drop with
  | none => exact h k
  | some g => exact h.update (sound_nil D []) k

lemma commit_ns : x.commit.disk.ns = (x.disk.purged (commitDrops x.part)).ns := by
  rw [commit, close_disk]
  cases commitDrops x.part <;> rfl

lemma commit_jobs : x.commit.jobs = (x.close (commitDrops x.part)).jobs := by
  rw [commit]
  cases commitDrops x.part <;> rfl

lemma rollback_ns : x.rollback.disk.ns = (x.disk.purged (rollbackDrops x.part)).ns := by
  rw [rollback, close_disk]
  cases rollbackDrops x.part <;> rfl

lemma rollback_jobs : x.rollback.jobs = (x.close (rollbackDrops x.part)).jobs := by
  rw [rollback]
  cases rollbackDrops x.part <;> rfl

lemma activate_ns (r : RoundId ι) (gs : Option β) (waitSeed : Bool) :
    (x.activate r gs waitSeed).disk.ns = x.disk.ns := by
  rw [activate]
  split <;> rfl

/-- An activated generation falls back to the one before. -/
lemma activate_base {x : Replica ι β} (hStaged : x.part.staged = some g) :
    (x.activate r gs waitSeed).part.base = x.part.gen := by
  rw [activate, hStaged]
  rfl

lemma activate_jobs (r : RoundId ι) (gs : Option β) (waitSeed : Bool) :
    (x.activate r gs waitSeed).jobs = x.jobs := by
  rw [activate]
  split <;> rfl

end Replica

section

variable [DecidableEq ι] [DecidableEq β] {n : ι} {x : Node ι β}

/-- **Every action keeps the assumptions on the namespaces.** -/
theorem Does.sound (hDoes : Does D n x a o) (hD : D.BatchSound) (h : x.rep.AllSound D) :
    o.node.rep.AllSound D := by
  cases hDoes with
  | side hRep => rw [hRep]; exact h
  | prepare _ _ hCase =>
    rw [onPrepare, hCase]
    dsimp only
    split <;> exact h
  | switch =>
    intro g
    rw [activate_ns, activate_jobs]
    exact h g
  | activate =>
    intro g
    rw [activate_ns, activate_jobs]
    exact h g
  | finishCommit | commit => exact h.settle (commit_ns _) (commit_jobs _)
  | finishRollback | unwind => exact h.settle (rollback_ns _) (rollback_jobs _)
  | write _ hAdv =>
    have hNew := h.update (g := x.rep.part.gen) hAdv.sound
    rwa [update_eq_self] at hNew
  | process hAdv => exact h.update hAdv.sound
  | @recvData d =>
    have hNew := h.update (g := x.rep.part.gen) ((h x.rep.part.gen).queued d.heads)
    rwa [update_eq_self] at hNew
  | stage =>
    have hNew := h.update (g := x.rep.part.gen + 1)
      (hD _ (D.query x.rep.ns) _ (h (x.rep.part.gen + 1)))
    rwa [update_eq_self] at hNew
  | _ => exact h

end

/-! ## Acknowledged writes -/

/-- A generation whose number is not purged keeps its entries. -/
lemma purged_ns_ne {d : Backing (NsEntry β)} {drop : Option Nat} (h : drop ≠ some k) :
    (d.purged drop).ns k = d.ns k := by
  cases drop with
  | none => rfl
  | some g => exact update_of_ne (fun hk => h (congrArg some hk.symm)) _ _

/-- A generation whose number is not closed keeps its queue. -/
lemma close_jobs_ne {x : Replica ι β} {drop : Option Nat} (h : drop ≠ some k) :
    (x.close drop).jobs k = x.jobs k := by
  cases drop with
  | none => rfl
  | some g => exact update_of_ne (fun hk => h (congrArg some hk.symm)) _ _

/-- With nothing to settle a node is on the generation it would fall back to. -/
lemma base_of_settled {p : Partition} (h : p.hasPrev = false) : p.base = p.gen := by
  simp [base, h]

namespace Replica

variable {x : Replica ι β}

lemma Wf.base_succ (h : x.Wf) (hPrev : x.part.hasPrev = true) : x.part.base + 1 = x.part.gen := by
  obtain ⟨-, hSucc, -⟩ := h.pending hPrev
  simpa [base, hPrev] using hSucc

/-- What `Commit` drops lies below the active generation. -/
lemma commitDrops_ne (h : x.Wf) (hk : x.part.gen ≤ k) : commitDrops x.part ≠ some k := by
  cases hPrev : x.part.hasPrev with
  | false => simp [commitDrops, hPrev]
  | true =>
    obtain ⟨-, hSucc, -⟩ := h.pending hPrev
    simp only [commitDrops, hPrev, if_true, ne_eq, some.injEq]
    omega

/-- `Rollback` drops the active generation, if there is one to fall back to. -/
lemma rollbackDrops_eq (hStaged : x.part.staged = none) :
    rollbackDrops x.part = if x.part.hasPrev then some x.part.gen else none := by
  cases hPrev : x.part.hasPrev <;> simp [rollbackDrops, hStaged, hPrev]

lemma rollbackDrops_ne (h : x.Wf) (hStaged : x.part.staged = none) :
    rollbackDrops x.part ≠ some x.part.base := by
  rw [rollbackDrops_eq hStaged]
  cases hPrev : x.part.hasPrev with
  | false => simp
  | true =>
    have hSucc := h.base_succ hPrev
    simp only [if_true, ne_eq, some.injEq]
    omega

/-- `Commit` stays on its generation and falls back to it from then on. -/
lemma commit_gen_base :
    x.commit.unfreeze.part.gen = x.part.gen ∧ x.commit.unfreeze.part.base = x.part.gen := by
  simp [Partition.base, unfreeze, Partition.unfreeze, committed]

/-- `Rollback` goes back to the generation there is to fall back to. -/
lemma rollback_gen_base (hStaged : x.part.staged = none) :
    x.rollback.unfreeze.part.gen = x.part.base ∧ x.rollback.unfreeze.part.base = x.part.base := by
  cases hPrev : x.part.hasPrev <;>
    simp [Partition.base, unfreeze, Partition.unfreeze, reopenReads, rolledBack, hStaged, hPrev]

/-- `Commit` keeps the entries of its generation. -/
lemma commit_unfreeze_ns (h : x.Wf) : x.commit.unfreeze.disk.ns x.part.gen = x.disk.ns x.part.gen := by
  show x.commit.disk.ns _ = _
  rw [commit_ns]
  exact purged_ns_ne (commitDrops_ne h (Nat.le_refl _))

/-- `Rollback` keeps the entries of the generation it goes back to. -/
lemma rollback_unfreeze_ns (h : x.Wf) (hStaged : x.part.staged = none) :
    x.rollback.unfreeze.disk.ns x.part.base = x.disk.ns x.part.base := by
  show x.rollback.disk.ns _ = _
  rw [rollback_ns]
  exact purged_ns_ne (rollbackDrops_ne h hStaged)

end Replica

/-- A restart falls back to the same generation. -/
lemma Replica.restart_base {x : Replica ι β} (h : x.Wf) : x.restart.part.base = x.part.base := by
  cases hPrev : x.part.hasPrev with
  | false => simp [base, restart, h.prev, hPrev, h.gen]
  | true =>
    have hDisk : x.disk.prev = some x.part.prevGen := by rw [h.prev, if_pos hPrev]
    simp [base, restart, hDisk, hPrev, restoreGen_prevGen _ _ hDisk]

/-- What a step may do to the generation a node would fall back to: leave it,
with its blocks, or replace it by a later one. -/
def Base (x y : Replica ι β) : Prop :=
  (y.part.base = x.part.base ∧ ∀ b ∈ blocks (x.disk.ns x.part.base),
    b ∈ blocks (y.disk.ns x.part.base)) ∨ x.part.base < y.part.base

namespace Base

variable {x y : Replica ι β}

lemma same (hBase : y.part.base = x.part.base) (hNs : y.disk.ns x.part.base = x.disk.ns x.part.base) :
    Base x y :=
  .inl ⟨hBase, by rw [hNs]; exact fun _ => id⟩

/-- Only the entries of the active generation have grown. -/
lemma grown {es : List (NsEntry β)} (hWf : x.Wf) (hPart : y.part.base = x.part.base)
    (hNs : y.disk.ns = update x.disk.ns x.part.gen es) (hKept : ∀ b ∈ blocks x.ns, b ∈ blocks es) :
    Base x y := by
  refine .inl ⟨hPart, fun b hb => ?_⟩
  rw [hNs]
  cases hPrev : x.part.hasPrev with
  | false =>
    rw [base_of_settled hPrev] at hb ⊢
    rw [update_self]
    exact hKept b hb
  | true =>
    have hSucc := hWf.base_succ hPrev
    rwa [update_of_ne (by omega)]

lemma commit (hWf : x.Wf) : Base x x.commit.unfreeze := by
  have hAfter := (commit_gen_base (x := x)).2
  cases hPrev : x.part.hasPrev with
  | false =>
    have hBase := base_of_settled hPrev
    refine same (hAfter.trans hBase.symm) ?_
    rw [hBase]
    exact commit_unfreeze_ns hWf
  | true =>
    have hSucc := hWf.base_succ hPrev
    refine .inr ?_
    omega

lemma rollback (hWf : x.Wf) (hStaged : x.part.staged = none) : Base x x.rollback.unfreeze :=
  same (rollback_gen_base hStaged).2 (rollback_unfreeze_ns hWf hStaged)

end Base

/-- Nothing is queued for a generation to come. -/
def Replica.Drained (x : Replica ι β) : Prop := ∀ g, x.part.gen < g → x.jobs g = []

namespace Replica.Drained

variable {x : Replica ι β} (h : x.Drained) (hWf : x.Wf)

include h hWf

lemma commit : x.commit.unfreeze.Drained := by
  intro g hg
  rw [commit_gen_base.1] at hg
  show x.commit.jobs g = []
  rw [commit_jobs, close_jobs_ne (commitDrops_ne hWf (Nat.le_of_lt hg))]
  exact h g hg

/-- The queue of the dropped generation is gone, later ones were empty. -/
lemma rollback (hStaged : x.part.staged = none) : x.rollback.unfreeze.Drained := by
  intro g hg
  rw [(rollback_gen_base hStaged).1] at hg
  show x.rollback.jobs g = []
  rw [rollback_jobs, rollbackDrops_eq hStaged]
  cases hPrev : x.part.hasPrev with
  | false => exact h g (base_of_settled hPrev ▸ hg)
  | true =>
    have hSucc := hWf.base_succ hPrev
    by_cases hEq : g = x.part.gen
    · subst hEq
      exact update_self _ _ _
    · exact (update_of_ne hEq _ _).trans (h g (by omega))

end Replica.Drained

section

variable [DecidableEq ι] [DecidableEq β] {n : ι}

/-- **Every action keeps the generation a node would fall back to**, or leaves
it for a later one. -/
theorem Does.base {a : Action ι β} (hDoes : Does D n x a o) (h : x.Wf n) : Base x.rep o.node.rep := by
  cases hDoes with
  | side hRep => rw [hRep]; exact .same rfl rfl
  | prepare _ _ hCase =>
    rw [onPrepare, hCase]
    dsimp only
    split <;> exact .same rfl rfl
  | switch _ hCo _ _ _ hDoubt =>
    obtain ⟨hPrev, -⟩ := inDoubt_eq_false.mp hDoubt
    refine .same ?_ rfl
    rw [Partition.base, Partition.base, hPrev]
    rfl
  | activate hCo hPc =>
    obtain ⟨-, hFits⟩ := h.co _ hCo
    rw [hPc] at hFits
    obtain ⟨-, hPrev, hStaged⟩ := hFits
    refine .same ?_ (by rw [activate_ns])
    rw [Replica.activate_base hStaged, Partition.base, hPrev]
    rfl
  | finishCommit | commit => exact .commit h.rep
  | finishRollback hCo => exact .rollback h.rep (h.unstaged hCo)
  | unwind hCo hPc => exact .rollback h.rep (h.unstaged_co hCo (by simp [hPc]))
  | write _ hAdv => exact .grown h.rep rfl rfl hAdv.kept
  | process hAdv => exact .grown h.rep rfl rfl hAdv.kept
  | stage hCo hPc hDoubt =>
    obtain ⟨hPrev, -⟩ := inDoubt_eq_false.mp hDoubt
    refine .same rfl ?_
    rw [base_of_settled hPrev]
    exact update_of_ne (by omega) _ _
  | crash => exact .same (restart_base h.rep) rfl
  | _ => exact .same rfl rfl

/-- **Every action leaves the queues of later generations empty.** -/
theorem Does.drained (hDoes : Does D n x a o) (hWf : x.Wf n) (h : x.rep.Drained) : o.node.rep.Drained := by
  cases hDoes with
  | side hRep => rw [hRep]; exact h
  | prepare _ _ hCase =>
    rw [onPrepare, hCase]
    dsimp only
    split <;> exact h
  | crash => exact fun g hg => h g (restart_gen hWf.rep ▸ hg)
  | switch => exact fun g hg => h g (Nat.lt_of_succ_lt hg)
  | activate hCo hPc =>
    obtain ⟨-, hFits⟩ := hWf.co _ hCo
    rw [hPc] at hFits
    intro g hg
    rw [activate_gen hFits.2.2] at hg
    rw [activate_jobs]
    exact h g (by omega)
  | finishCommit | commit => exact h.commit hWf.rep
  | finishRollback hCo => exact h.rollback hWf.rep (hWf.unstaged hCo)
  | unwind hCo hPc => exact h.rollback hWf.rep (hWf.unstaged_co hCo (by simp [hPc]))
  | process | recvData => exact fun g hg => (update_of_ne (Nat.ne_of_gt hg) _ _).trans (h g hg)
  | _ => exact h

/-- A write is acknowledged by its node, while it has nothing to settle, with
its block in the active generation. -/
lemma Does.acked (hDoes : Does D n x a o) (hGated : x.Gated) (he : .acked m g lin b ∈ o.log) :
    m = n ∧ ¬ x.rep.Still ∧ g = x.rep.part.gen ∧ g = o.node.rep.part.base ∧ lin =
    (x.rep.origin g).map Prod.fst ∧ b ∈ blocks (o.node.rep.disk.ns g) := by
  cases hDoes.logged he with
  | acked hInflight hAdv hPart hDisk =>
    have hOpen : ¬ x.rep.Still := fun hStill => by simp [hStill.2] at hInflight
    have hPrev : x.rep.part.hasPrev = false := by
      cases hp : x.rep.part.hasPrev with
      | false => rfl
      | true => exact absurd (hGated.pending hp) hOpen
    refine ⟨rfl, hOpen, rfl, by simp [hPart, Partition.base, hPrev], rfl, ?_⟩
    rw [hDisk, Backing.setNs_ns_self]
    exact (hAdv.fresh b (mem_singleton.mpr rfl)).1

end

/-! ## In every run -/

section

variable [DecidableEq ι] [DecidableEq β] {members : ι → List ι} {K : Sys ι β → ι × Action ι β → Prop}
  {s : Sys ι β}

lemma gated_of_reach (h : Sys.Reaches D members K s) : ∀ n, (s.node n).Gated := by
  refine h.induct_does (I := fun s => ∀ n, (s.node n).Gated)
    (fun n => ⟨nofun, nofun, nofun⟩) ?_
  rintro s n a o ms hReach hGated - - - - hDoes
  exact forall_node_after (P := fun _ x => x.Gated) hGated
    (hDoes.gated ((wf_of_reach hReach n).learned ms) ((hGated n).learned ms))

lemma drained_of_reach (h : Sys.Reaches D members K s) : ∀ n, (s.node n).rep.Drained := by
  refine h.induct_does (I := fun s => ∀ n, (s.node n).rep.Drained) (fun n g _ => rfl) ?_
  rintro s n a o ms hReach hDrained - - - - hDoes
  exact forall_node_after (P := fun _ x => x.rep.Drained) hDrained
    (hDoes.drained ((wf_of_reach hReach n).learned ms) (hDrained n))

lemma sound_of_reach (hD : D.BatchSound) (h : Sys.Reaches D members K s) :
    ∀ n, (s.node n).rep.AllSound D := by
  refine h.induct_does (I := fun s => ∀ n, (s.node n).rep.AllSound D)
    (fun n g => sound_nil D _) ?_
  rintro s n a o ms - hSound - - - - hDoes
  exact forall_node_after (P := fun _ x => x.rep.AllSound D) hSound (hDoes.sound hD (hSound n))

/-- An acknowledged write is not above the generation its node would fall back
to, and if it is of that generation it is in it. -/
def Sys.AckedKept (s : Sys ι β) : Prop :=
  ∀ n g lin b, .acked n g lin b ∈ s.log → g ≤ (s.node n).rep.part.base ∧
    (g = (s.node n).rep.part.base → b ∈ blocks ((s.node n).rep.disk.ns g))

lemma acked_of_reach (h : Sys.Reaches D members K s) : s.AckedKept := by
  refine h.induct_does (I := Sys.AckedKept) (fun n g lin b he => absurd he not_mem_nil) ?_
  rintro s n a o ms hReach hKept - - - - hDoes m g lin b he
  have hWf := (wf_of_reach hReach n).learned ms
  rcases mem_after_log.mp he with hNew | hOld
  · obtain ⟨rfl, -, -, hBase, -, hBlock⟩ :=
      hDoes.acked ((gated_of_reach hReach n).learned ms) hNew
    rw [after_node_self]
    exact ⟨Nat.le_of_eq hBase, fun _ => hBlock⟩
  · by_cases hm : m = n
    · subst hm
      obtain ⟨hLe, hIn⟩ := hKept m g lin b hOld
      rw [after_node_self]
      rcases hDoes.base hWf with ⟨hSame, hBlocks⟩ | hLater
      · refine ⟨hSame ▸ hLe, fun hEq => ?_⟩
        have hEq' : g = (s.node m).rep.part.base := hEq.trans hSame
        rw [hEq']
        exact hBlocks b (hEq' ▸ hIn hEq')
      · exact ⟨Nat.le_of_lt (Nat.lt_of_le_of_lt hLe hLater),
          fun hEq => absurd (hEq ▸ hLe) (Nat.not_le.mpr hLater)⟩
    · rw [after_node_ne hm]
      exact hKept m g lin b hOld

end

end RedGeo.Rotation
