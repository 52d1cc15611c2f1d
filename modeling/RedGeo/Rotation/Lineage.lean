import RedGeo.Rotation.Writes

/-!
# RedGeo — does an aborted attempt stay out of the next one?

A generation number can be activated more than once: a round that is rolled back
leaves it to a later one. The broadcasts of both attempts carry the same number,
and the number is all a replica looks at; a late broadcast of the aborted
attempt is merged into the committed generation, and its seed brings back keys
that were deleted in between.

Every generation has an origin, the round that activated it. `Allowed` are the
blocks that belong to a generation of that origin: the coordinator's seed and
the writes acknowledged in it. The invariant `Traced` is that the blocks of a
generation, and whatever is queued or broadcast for it, lie above allowed blocks
only.

* `SameOrigin` — a broadcast is accepted only from a generation of the same
  origin, and a generation is staged only in an empty namespace.
* `aborted_stays_out` — in every run with `SameOrigin` steps no deleted key comes
  back; `late_seed_resurrects` is a run in which one does.
-/

namespace RedGeo.Rotation

open Engine Lib Function List Option Sys Replica Nat Backing Prod

variable {ι β κ ν : Type} {D : Datastore β κ ν}
variable {a : Action ι β} {o : Out ι β}

/-! ## Statement -/

section

variable (D : Datastore β κ ν)

/-- The live keys of a namespace. -/
def Datastore.liveKeys (es : List (NsEntry β)) : List κ :=
  (D.query es).map Prod.fst

/-- **Aborted attempts stay out.** Round `r₁` staged generation `g + 1` and every
replica that had activated it rolled it back; then round `r₂` staged the same
generation, and replica `n` committed it and is on it. A key that was live when
`r₁` staged and not when `r₂` did, and that nobody has put in the generation
`r₂` activated, is not live there. -/
def AbortedStaysOut (s : Sys ι β) : Prop :=
  ∀ r₁ r₂ g ms₁ cut₁ seeds₁ ms₂ cut₂ seeds₂ post pre n k,
    s.log = post ++ .staged r₂ g ms₂ cut₂ seeds₂ :: pre →
    .staged r₁ g ms₁ cut₁ seeds₁ ∈ pre →
    (∀ m, .activated m r₁ (g + 1) ∈ pre → .rolledBack m r₁ (g + 1) ∈ pre) →
    .committed n r₂ (g + 1) ∈ s.log → (s.node n).rep.part.gen = g + 1 →
    k ∈ D.liveKeys cut₁ → k ∉ D.liveKeys cut₂ →
    (∀ m b, .acked m (g + 1) (some r₂) b ∈ s.log → k ∉ D.puts b) →
    k ∉ D.liveKeys (s.node n).rep.ns

section

variable [DecidableEq ι] [DecidableEq β]

/-- A broadcast is accepted only from a generation of the same origin, and a
generation is staged only in an empty namespace. -/
def Node.SameOrigin (x : Node ι β) : Action ι β → Prop
  | .recvData d =>
    d.gen = x.rep.part.gen → d.lin = (x.rep.origin x.rep.part.gen).map Prod.fst
  | .stage => x.rep.disk.ns (x.rep.part.gen + 1) = []
  | .deliver ⟨_, .switch r _ _, _⟩ =>
    (∃ st ∈ x.st, st.round = some r ∧ st.phase = .prepared) → x.rep.disk.ns (x.rep.part.gen + 1) = []
  | _ => True

/-- No step mixes two attempts at one generation. -/
def SameOrigin (s : Sys ι β) (l : ι × Action ι β) : Prop := (s.node l.1).SameOrigin l.2

instance (x : Node ι β) (a : Action ι β) : Decidable (x.SameOrigin a) := by
  unfold Node.SameOrigin
  split <;> infer_instance

instance (s : Sys ι β) (l : ι × Action ι β) : Decidable (SameOrigin s l) :=
  inferInstanceAs (Decidable ((s.node l.1).SameOrigin l.2))

end

/-- What is assumed of go-ds-crdt about blocks: a DAG contains its root and the
DAGs of its members; a live key was put by a block of the namespace; and the
blocks of a batch in an empty namespace put keys of the batch only and have
nothing else below them. -/
structure Datastore.Lineal (D : Datastore β κ ν) : Prop where
  self : ∀ b, b ∈ D.dag b
  trans : ∀ a b c, b ∈ D.dag a → c ∈ D.dag b → c ∈ D.dag a
  live : ∀ es, ∀ k ∈ D.liveKeys es, ∃ b ∈ blocks es, k ∈ D.puts b
  batch_puts : ∀ kvs, ∀ b ∈ blocks (D.batch [] kvs), ∀ k ∈ D.puts b, k ∈ kvs.map Prod.fst
  batch_dag : ∀ kvs, ∀ b ∈ blocks (D.batch [] kvs), ∀ a ∈ D.dag b, a ∈ blocks (D.batch [] kvs)

lemma plainStore_lineal : plainStore.Lineal where
  self b := by
    show b ∈ if b = 0 ∨ 100 ≤ b then [b] else List.range' 1 b
    split
    · exact mem_singleton_self b
    · rw [mem_range'_1]
      omega
  trans a b c hb hc := by
    change b ∈ (if a = 0 ∨ 100 ≤ a then [a] else List.range' 1 a) at hb
    change c ∈ (if b = 0 ∨ 100 ≤ b then [b] else List.range' 1 b) at hc
    show c ∈ if a = 0 ∨ 100 ≤ a then [a] else List.range' 1 a
    split at hb
    · next ha =>
      obtain rfl := mem_singleton.mp hb
      rw [if_pos ha] at hc ⊢
      exact hc
    · next ha =>
      rw [mem_range'_1] at hb
      rw [if_neg (by omega), mem_range'_1] at hc
      rw [if_neg ha, mem_range'_1]
      omega
  live es k hk := by
    obtain ⟨⟨k', v⟩, hq, rfl⟩ := mem_map.mp hk
    obtain ⟨b, hb, hEq⟩ := mem_filterMap.mp hq
    refine ⟨b, hb, ?_⟩
    show k' ∈ if 100 ≤ b then [b - 100] else if b % 2 = 1 then [b] else []
    split at hEq
    · next hSeed =>
      obtain ⟨rfl, -⟩ := mk.inj (some.inj hEq)
      rw [if_pos hSeed]
      exact mem_singleton_self _
    · next hSeed =>
      split at hEq
      · next hOdd =>
        obtain ⟨rfl, -⟩ := mk.inj (some.inj hEq)
        rw [if_neg hSeed, if_pos hOdd.1]
        exact mem_singleton_self _
      · cases hEq
  batch_puts kvs b hb k hk := by
    rw [(plainStore_batch [] kvs).1] at hb
    obtain ⟨kv, hkv, rfl⟩ := mem_map.mp hb
    have hPuts : plainStore.puts (100 + kv.1) = [kv.1] := by
      show (if 100 ≤ 100 + kv.1 then [100 + kv.1 - 100] else _) = [kv.1]
      rw [if_pos (Nat.le_add_right _ _), Nat.add_sub_cancel_left]
    rw [hPuts, mem_singleton] at hk
    exact hk ▸ mem_map_of_mem hkv
  batch_dag kvs b hb a ha := by
    have hSeed : 100 ≤ b := by
      rw [(plainStore_batch [] kvs).1] at hb
      obtain ⟨kv, -, rfl⟩ := mem_map.mp hb
      exact le_add_right _ _
    have hDag : plainStore.dag b = [b] := if_pos (.inr hSeed)
    rw [hDag, mem_singleton] at ha
    exact ha ▸ hb

/-! ## Where the blocks of a generation come from -/

variable (log : List (Event ι β))

section

variable (r : RoundId ι) (g : Nat) (b : β)

/-- The blocks that belong to generation `g` of origin `r`: its seed, and the
writes acknowledged in it. -/
def Allowed : Prop :=
  (∃ g₀ ms cut seeds, g = g₀ + 1 ∧ .staged r g₀ ms cut seeds ∈ log ∧ b ∈ seeds) ∨
  ∃ m, .acked m g (some r) b ∈ log

/-- Everything below the block belongs to the generation. -/
def Below : Prop :=
  ∀ a ∈ D.dag b, Allowed log r g a

end

/-- What a replica has of generation `g`, processed or queued, belongs to it. -/
def TracedNs (x : Replica ι β) (g : Nat) : Prop :=
  ∀ r gs, x.origin g = some (r, gs) →
    (∀ b ∈ blocks (x.disk.ns g), Below D log r g b) ∧ ∀ h ∈ x.jobs g, Below D log r g h

end

/-- What a node has of the generation it is on and of the one it would fall back
to belongs to it; and what is staged is the seed. -/
structure NodeTraced (D : Datastore β κ ν) (log : List (Event ι β)) (x : Node ι β) : Prop where
  active : TracedNs D log x.rep x.rep.part.gen
  base : TracedNs D log x.rep x.rep.part.base
  co : ∀ c, x.co = some c → ∀ gs, c.pc = .activating gs →
    ∀ b ∈ blocks (x.rep.disk.ns (x.rep.part.gen + 1)), Below D log c.round (x.rep.part.gen + 1) b

section

variable {log : List (Event ι β)} {b : β}

lemma Allowed.mono (hLog : ∀ e ∈ log, e ∈ log') (h : Allowed log r g b) : Allowed log' r g b := by
  rcases h with ⟨g₀, ms, cut, seeds, hg, he, hb⟩ | ⟨m, he⟩
  · exact .inl ⟨g₀, ms, cut, seeds, hg, hLog _ he, hb⟩
  · exact .inr ⟨m, hLog _ he⟩

lemma Below.mono (hLog : ∀ e ∈ log, e ∈ log') (h : Below D log r g b) : Below D log' r g b :=
  fun a ha => (h a ha).mono hLog

/-- What is below a block of a DAG is below its root. -/
lemma Below.trans (hD : D.Lineal) (h : Below D log r g b) {a : β} (ha : a ∈ D.dag b) : Below D log r g a :=
  fun c hc => h c (hD.trans b a c ha hc)

/-- A generation that keeps its origin, its entries and its queue. -/
lemma TracedNs.same (h : TracedNs D log x g) (hLog : ∀ e ∈ log, e ∈ log') (hOrigin : y.origin g = x.origin g)
    (hNs : y.disk.ns g = x.disk.ns g) (hJobs : y.jobs g = x.jobs g) : TracedNs D log' y g := by
  intro r gs hEq
  rw [hOrigin] at hEq
  rw [hNs, hJobs]
  exact ⟨fun b hb => ((h r gs hEq).1 b hb).mono hLog, fun k hk => ((h r gs hEq).2 k hk).mono hLog⟩

end

namespace NodeTraced

variable {log : List (Event ι β)} {x : Node ι β}

variable (h : NodeTraced D log x)

include h

/-- Steps that leave origins, entries and queues. -/
lemma same (hLog : ∀ e ∈ log, e ∈ log')
    (hGen : x'.rep.part.gen = x.rep.part.gen) (hBase : x'.rep.part.base = x.rep.part.base)
    (hOrigin : x'.rep.origin = x.rep.origin) (hNs : x'.rep.disk.ns = x.rep.disk.ns)
    (hJobs : x'.rep.jobs = x.rep.jobs) (hCo : ∀ c' gs, x'.co = some c' → c'.pc = .activating gs →
      ∃ c, x.co = some c ∧ c'.round = c.round ∧ c.pc = .activating gs) : NodeTraced D log' x' := by
  refine ⟨?_, ?_, ?_⟩
  · rw [hGen]
    exact h.active.same hLog (by rw [hOrigin]) (by rw [hNs]) (by rw [hJobs])
  · rw [hBase]
    exact h.base.same hLog (by rw [hOrigin]) (by rw [hNs]) (by rw [hJobs])
  · intro c' hc' gs hPc' b hb
    obtain ⟨c, hc, hRound, hPc⟩ := hCo c' gs hc' hPc'
    rw [hNs, hGen] at hb
    rw [hRound, hGen]
    exact (h.co c hc gs hPc b hb).mono hLog

/-- Steps that only change the entries and the queue of the active generation. -/
lemma grown (hLog : ∀ e ∈ log, e ∈ log')
    (hPart : ∃ gate, x'.rep.part = { x.rep.part with gate := gate })
    (hOrigin : x'.rep.origin = x.rep.origin)
    (hNs : ∀ g, g ≠ x.rep.part.gen → x'.rep.disk.ns g = x.rep.disk.ns g)
    (hJobs : ∀ g, g ≠ x.rep.part.gen → x'.rep.jobs g = x.rep.jobs g)
    (hNew : TracedNs D log' x'.rep x.rep.part.gen) (hCo : x'.co = x.co) : NodeTraced D log' x' := by
  obtain ⟨gate, hPart⟩ := hPart
  have hGen : x'.rep.part.gen = x.rep.part.gen := by rw [hPart]
  refine ⟨hGen ▸ hNew, ?_, ?_⟩
  · have hBase : x'.rep.part.base = x.rep.part.base := by rw [hPart]; rfl
    rw [hBase]
    by_cases hEq : x.rep.part.base = x.rep.part.gen
    · exact hEq ▸ hNew
    · exact h.base.same hLog (by rw [hOrigin]) (hNs _ hEq) (hJobs _ hEq)
  · intro c hc gs hPc b hb
    rw [hGen] at hb ⊢
    rw [hNs _ (by omega)] at hb
    exact (h.co c (hCo ▸ hc) gs hPc b hb).mono hLog

/-- `Activate`: what the next generation holds so far has to belong to the round
that activates it. -/
lemma activate {r : RoundId ι} (hDrained : x.rep.Drained) (hLog : ∀ e ∈ log, e ∈ log')
    (hGen : x'.rep.part.gen = x.rep.part.gen + 1) (hBase : x'.rep.part.base = x.rep.part.gen)
    (hOrigin : x'.rep.origin = update x.rep.origin (x.rep.part.gen + 1) (some (r, gs)))
    (hNs : x'.rep.disk.ns = x.rep.disk.ns) (hJobs : x'.rep.jobs = x.rep.jobs)
    (hNew : ∀ b ∈ blocks (x.rep.disk.ns (x.rep.part.gen + 1)), Below D log r (x.rep.part.gen + 1) b)
    (hCo : ∀ c, x'.co = some c → ∀ gs, c.pc ≠ .activating gs) : NodeTraced D log' x' := by
  refine ⟨?_, ?_, fun c hc gs hPc => absurd hPc (hCo c hc gs)⟩
  · intro r' gs' hEq
    rw [hGen, hOrigin, update_self] at hEq
    obtain ⟨rfl, -⟩ := mk.inj (some.inj hEq)
    rw [hGen, hNs, hJobs, hDrained _ (lt_succ_self _)]
    exact ⟨fun b hb => (hNew b hb).mono hLog, fun k hk => absurd hk not_mem_nil⟩
  · rw [hBase]
    refine h.active.same hLog ?_ (by rw [hNs]) (by rw [hJobs])
    rw [hOrigin]
    exact update_of_ne (Nat.ne_of_lt (lt_succ_self _)) _ _

/-- `Commit` drops the generation before. -/
lemma commit (hWf : x.rep.Wf) (hLog : ∀ e ∈ log, e ∈ log')
    (hRep : x'.rep = x.rep.commit.unfreeze) (hCo : x'.co = none) : NodeTraced D log' x' := by
  obtain ⟨hGen, hBase⟩ := commit_gen_base (x := x.rep)
  rw [← hRep] at hGen hBase
  have hJobs : x'.rep.jobs x.rep.part.gen = x.rep.jobs x.rep.part.gen := by
    rw [hRep]
    show x.rep.commit.jobs _ = _
    rw [commit_jobs]
    exact close_jobs_ne (commitDrops_ne hWf (Nat.le_refl _))
  have hActive : TracedNs D log' x'.rep x.rep.part.gen :=
    h.active.same hLog (by simp [hRep, unfreeze])
      (by rw [hRep, commit_unfreeze_ns hWf]) hJobs
  exact ⟨hGen ▸ hActive, hBase ▸ hActive, fun c hc => absurd (hc.symm.trans hCo) (by simp)⟩

/-- `Rollback` drops the active generation, with its queue. -/
lemma rollback (hWf : x.rep.Wf) (hStaged : x.rep.part.staged = none) (hLog : ∀ e ∈ log, e ∈ log')
    (hRep : x'.rep = x.rep.rollback.unfreeze) (hCo : x'.co = none) : NodeTraced D log' x' := by
  obtain ⟨hGen, hBase⟩ := rollback_gen_base hStaged
  rw [← hRep] at hGen hBase
  have hKept : TracedNs D log' x'.rep x.rep.part.base := by
    refine h.base.same hLog (by simp [hRep, unfreeze])
      (by rw [hRep, rollback_unfreeze_ns hWf hStaged]) ?_
    rw [hRep]
    show x.rep.rollback.jobs _ = _
    rw [rollback_jobs]
    exact close_jobs_ne (rollbackDrops_ne hWf hStaged)
  exact ⟨hGen ▸ hKept, hBase ▸ hKept, fun c hc => absurd (hc.symm.trans hCo) (by simp)⟩

end NodeTraced

/-! ## Every action keeps it -/

section

variable [DecidableEq ι] [DecidableEq β] {log : List (Event ι β)} {n : ι} {x : Node ι β}

section

omit [DecidableEq ι] [DecidableEq β]

/-- What the datastore adds to a generation belongs to it, if what is new does. -/
lemma TracedNs.advances {g : Nat} {jobs : List β} (hD : D.Lineal) (h : TracedNs D log x.rep g)
    (hLog : ∀ e ∈ log, e ∈ log') (hAdv : Advances D (x.rep.disk.ns g) (x.rep.jobs g) fresh es jobs)
    (hOrigin : y.origin g = x.rep.origin g) (hNs : y.disk.ns g = es) (hJobs : y.jobs g = jobs)
    (hFresh : ∀ r gs, x.rep.origin g = some (r, gs) → ∀ b ∈ fresh, Below D log' r g b) :
    TracedNs D log' y g := by
  intro r gs hEq
  rw [hOrigin] at hEq
  rw [hNs, hJobs]
  obtain ⟨hBlocks, hQueue⟩ := h r gs hEq
  refine ⟨fun b hb => ?_, fun k hk => (hQueue k (hAdv.queue k hk)).mono hLog⟩
  rcases hAdv.source b hb with hOld | hNew | ⟨k, hk, hDag⟩
  · exact (hBlocks b hOld).mono hLog
  · exact hFresh r gs hEq b hNew
  · exact ((hQueue k hk).trans hD hDag).mono hLog

/-- What is staged in an empty namespace is the batch of the live keys. -/
lemma stageSeeded_empty (hEmpty : x.rep.disk.ns (x.rep.part.gen + 1) = []) :
    (x.rep.stageSeeded D).disk.ns (x.rep.part.gen + 1) = D.batch [] (D.query x.rep.ns) := by
  refine (setNs_ns_self _ _ _).trans ?_
  show x.rep.disk.ns (x.rep.part.gen + 1) ++ D.batch (x.rep.disk.ns (x.rep.part.gen + 1)) _ = _
  rw [hEmpty]
  rfl

end

/-- **Every action that keeps attempts apart keeps blocks in their generation.** -/
theorem Does.traced (hDoes : Does D n x a o) (hD : D.Lineal) (hWf : x.Wf n)
    (hSound : x.rep.AllSound D) (hDrained : x.rep.Drained) (hSame : x.SameOrigin a)
    (hData : ∀ d r, a = .recvData d → d.lin = some r → ∀ h ∈ d.heads, Below D log r d.gen h)
    (h : NodeTraced D log x) : NodeTraced D (o.log ++ log) o.node := by
  have hLog : ∀ e ∈ log, e ∈ o.log ++ log := fun _ => mem_append_right _
  -- steps that leave the phase of `Compact`, or move it away from `activating`
  have hStay : ∀ c' gs, x.co = some c' → c'.pc = .activating gs →
      ∃ c, x.co = some c ∧ c'.round = c.round ∧ c.pc = .activating gs :=
    fun c' gs hc hPc => ⟨c', hc, rfl, hPc⟩
  have hMove : ∀ {y : Node ι β} {d : Co ι β}, y.co = some d → (∀ gs, d.pc ≠ .activating gs) →
      ∀ c' gs, y.co = some c' → c'.pc = .activating gs →
        ∃ c, x.co = some c ∧ c'.round = c.round ∧ c.pc = .activating gs := by
    intro y d hd hPc c' gs hc hPc'
    obtain rfl : d = c' := some.inj (hd.symm.trans hc)
    exact absurd hPc' (hPc gs)
  cases hDoes with
  | side hRep _ hCo =>
    refine h.same hLog ?_ ?_ ?_ ?_ ?_ (hCo ▸ hStay) <;> rw [hRep]
  | answer | reply | resend | readGate | readServe | rebroadcast | beginWrite | seedSeen | seedArrived =>
    exact h.same hLog rfl rfl rfl rfl rfl hStay
  | recv hCo | takePrepared hCo | takeReady hCo | takeOther hCo | again hCo =>
    refine h.same hLog rfl rfl rfl rfl rfl fun c' gs hc hPc => ?_
    obtain rfl := some.inj hc
    exact ⟨_, hCo, rfl, hPc⟩
  | start | freeze | freezeFail | converged | allReady | fail | abort =>
    exact h.same hLog rfl rfl rfl rfl rfl (hMove rfl (by simp))
  | unwindIdle => exact h.same hLog rfl rfl rfl rfl rfl (by simp)
  | crash =>
    exact h.same hLog (restart_gen hWf.rep) (restart_base hWf.rep) rfl rfl rfl (fun _ _ hc => by cases hc)
  | prepare _ hCo hCase =>
    rw [Node.onPrepare, hCase]
    dsimp only
    split <;> exact h.same (fun _ => mem_append_right _) rfl rfl rfl rfl rfl hStay
  | finishCommit hCo => exact h.commit hWf.rep hLog rfl hCo
  | commit => exact h.commit hWf.rep hLog rfl rfl
  | finishRollback hCo => exact h.rollback hWf.rep (hWf.unstaged hCo) hLog rfl hCo
  | unwind hCo hPc => exact h.rollback hWf.rep (hWf.unstaged_co hCo (by simp [hPc])) hLog rfl rfl
  | @write b es hInflight hAdv =>
    refine h.grown hLog ⟨_, rfl⟩ rfl (fun g hg => setNs_ns_ne _ _ hg) (fun _ _ => rfl) ?_ rfl
    refine h.active.advances hD hLog hAdv rfl (setNs_ns_self _ _ _) rfl ?_
    intro r gs hEq b' hb'
    obtain rfl := mem_singleton.mp hb'
    intro c hc
    rcases (hAdv.fresh b' hb').2 c hc with rfl | ⟨k, hk, hDag⟩
    · -- the block itself: its write is acknowledged with this origin
      refine .inr ⟨n, mem_append_left _ (mem_singleton.mpr ?_)⟩
      rw [hEq]
      rfl
    · -- what is below it was below a head before
      have hHead := (hSound x.rep.part.gen).heads k hk
      exact (((h.active r gs hEq).1 k hHead) c hDag).mono hLog
  | process hAdv =>
    refine h.grown hLog ⟨_, rfl⟩ rfl (fun g hg => setNs_ns_ne _ _ hg)
      (fun g hg => update_of_ne hg _ _) ?_ rfl
    exact h.active.advances hD hLog hAdv rfl (setNs_ns_self _ _ _)
      (update_self _ _ _) (fun _ _ _ b hb => absurd hb (by simp))
  | @recvData d hGen =>
    refine h.grown hLog ⟨_, rfl⟩ rfl (fun _ _ => rfl) (fun g hg => update_of_ne hg _ _) ?_ rfl
    intro r gs hEq
    have hLin : d.lin = some r := by
      rw [hSame hGen, show x.rep.origin x.rep.part.gen = some (r, gs) from hEq]
      rfl
    refine ⟨fun b hb => ((h.active r gs hEq).1 b hb).mono hLog, fun k hk => ?_⟩
    change k ∈ update x.rep.jobs x.rep.part.gen _ x.rep.part.gen at hk
    rw [update_self] at hk
    rcases mem_append.mp hk with hOld | hNew
    · exact ((h.active r gs hEq).2 k hOld).mono hLog
    · exact (hGen ▸ hData d r rfl hLin k hNew).mono hLog
  | @switch p r gen genesis st hMsg hCo hSt hRound hPhase =>
    obtain ⟨src, msg, about⟩ := p
    obtain rfl : msg = .switch r gen genesis := hMsg
    have hEmpty : x.rep.disk.ns (x.rep.part.gen + 1) = [] := hSame ⟨st, hSt, hRound, hPhase⟩
    refine h.activate hDrained hLog rfl rfl rfl rfl rfl (fun b hb => ?_)
      (fun c hc => absurd (hc.symm.trans hCo) (by simp))
    rw [hEmpty] at hb
    exact absurd hb not_mem_nil
  | @stage c hCo hPc hDoubt =>
    have hPrev : x.rep.part.hasPrev = false := (Partition.inDoubt_eq_false.mp hDoubt).1
    have hActive : TracedNs D ([.staged c.round x.rep.part.gen c.members x.rep.ns
        (blocks ((x.rep.stageSeeded D).disk.ns (x.rep.part.gen + 1)))] ++ log)
        (x.rep.stageSeeded D) x.rep.part.gen :=
      h.active.same hLog rfl (setNs_ns_ne _ _ (Nat.ne_of_lt (lt_succ_self _))) rfl
    refine ⟨hActive, (base_of_settled hPrev).symm ▸ hActive, ?_⟩
    intro c' hc gs _ b hb k hk
    obtain rfl := some.inj hc
    refine .inl ⟨_, _, _, _, rfl, mem_append_left _ (mem_singleton.mpr rfl), ?_⟩
    change b ∈ blocks ((x.rep.stageSeeded D).disk.ns (x.rep.part.gen + 1)) at hb
    rw [stageSeeded_empty hSame] at hb ⊢
    exact hD.batch_dag _ b hb k hk
  | @activate c genesis hCo hPc =>
    obtain ⟨-, hFits⟩ := hWf.co _ hCo
    rw [hPc] at hFits
    obtain ⟨-, hPrev, hStaged⟩ := hFits
    refine h.activate hDrained hLog (activate_gen hStaged) (activate_base hStaged)
      (activate_origin hStaged) (activate_ns _ _ _ _) (activate_jobs _ _ _ _)
      (h.co c hCo genesis hPc) ?_
    intro d hd
    obtain rfl := some.inj hd
    exact (by simp)

/-- What is broadcast: the heads of the active generation, or those of the seed
just staged. -/
lemma Does.data (hDoes : Does D n x a o) (hd : d ∈ o.data) :
    d = ⟨o.node.rep.part.gen, o.node.rep.heads, (o.node.rep.origin o.node.rep.part.gen).map fst⟩ ∨
    ∃ c gs, o.node.co = some c ∧ c.pc = .activating gs ∧ d =
    ⟨o.node.rep.part.gen + 1, heads (o.node.rep.disk.ns (o.node.rep.part.gen + 1)), some c.round⟩ := by
  cases hDoes with
  | @write b es =>
    obtain rfl := mem_singleton.mp hd
    have hNs : (x.rep.disk.setNs x.rep.part.gen es).ns x.rep.part.gen = es :=
      setNs_ns_self _ _ _
    exact .inl (by simp only [Replica.heads, Replica.ns, hNs])
  | rebroadcast => exact .inl (mem_singleton.mp hd)
  | stage => exact .inr ⟨_, _, rfl, rfl, mem_singleton.mp hd⟩
  | prepare _ _ hCase =>
    revert hd
    rw [Node.onPrepare, hCase]
    dsimp only
    split <;> exact fun hd => absurd hd not_mem_nil
  | _ => cases hd

/-- `Compact` has not staged yet. -/
def Co.Unstaged (c : Co ι β) : Prop :=
  c.pc = .freezing ∨ c.pc = .preparing ∨ c.pc = .staging

/-- A `Compact` that has not staged yet has just been started, or had not
staged before. -/
lemma Does.unstaged (hDoes : Does D n x a o) (hCo' : o.node.co = some c') (h : c'.Unstaged) :
    (x.co = none ∧ x.nano < c'.round.nano) ∨ ∃ c, x.co = some c ∧ c'.round = c.round ∧ c.Unstaged ∧
    ∀ r g ms cut seeds, .staged r g ms cut seeds ∉ o.log := by
  cases hDoes with
  | side _ _ hCo => exact .inr ⟨c', hCo ▸ hCo', rfl, h, by simp⟩
  | prepare _ hCo hCase => cases hCo'.symm.trans (Node.co_onPrepare hCo hCase)
  | answer _ hCo | reply _ hCo | switch _ hCo | finishCommit hCo | finishRollback hCo =>
    cases hCo'.symm.trans hCo
  | crash | commit | unwind | unwindIdle => cases hCo'
  | start hCo hNano =>
    obtain rfl := some.inj hCo'
    exact .inl ⟨hCo, hNano⟩
  | freezeFail | allReady | fail | stage | activate | abort =>
    obtain rfl := some.inj hCo'
    rcases h with h | h | h <;> cases h
  | recv hCo | takePrepared hCo | takeReady hCo | takeOther hCo | again hCo =>
    obtain rfl := some.inj hCo'
    exact .inr ⟨_, hCo, rfl, h, by simp⟩
  | freeze hCo hPc =>
    obtain rfl := some.inj hCo'
    exact .inr ⟨_, hCo, rfl, .inl hPc, by simp⟩
  | converged hCo hPc =>
    obtain rfl := some.inj hCo'
    exact .inr ⟨_, hCo, rfl, .inr (.inl hPc), by simp⟩
  | _ => exact .inr ⟨c', hCo', rfl, h, by simp [Node.rebroadcast]⟩

/-- The origin of the generation a node would fall back to does not change. -/
lemma Does.origin_base (hDoes : Does D n x a o) (hWf : x.Wf n) :
    o.node.rep.origin x.rep.part.base = x.rep.origin x.rep.part.base := by
  cases hDoes.effect hWf with
  | kept _ _ _ _ hOrigin => rw [hOrigin]
  | activated hBefore _ _ _ _ hOrigin =>
    obtain ⟨gs, hOrigin⟩ := hOrigin
    rw [hOrigin, base_of_settled hBefore]
    exact update_of_ne (Nat.ne_of_lt (lt_succ_self _)) _ _
  | committed _ hRep => simp [hRep, unfreeze]
  | rolledBack _ hRep => simp [hRep, unfreeze]

end

/-! ## In every run -/

section

variable [DecidableEq ι] [DecidableEq β] {members : ι → List ι} {K : Sys ι β → ι × Action ι β → Prop}
  {s : Sys ι β} {x : Node ι β}

/-- A staging is recorded by the coordinator that does it. -/
lemma Does.staged {n : ι} {r : RoundId ι} {g : Nat}
    (hDoes : Does D n x a o) (he : .staged r g ms cut seeds ∈ o.log) :
    a = .stage ∧ cut = x.rep.ns ∧ seeds = blocks ((x.rep.stageSeeded D).disk.ns (x.rep.part.gen + 1)) ∧ ∃ c,
    x.co = some c ∧ c.round = r ∧ c.pc = .staging := by
  cases hDoes.logged he with
  | staged hCo hPc _ _ hAction => exact ⟨hAction, rfl, rfl, _, hCo, rfl, hPc⟩

/-- No round stages twice: what a round has staged is staged by its coordinator,
which does not stage again. -/
structure Sys.StagedOnce (s : Sys ι β) : Prop where
  started : ∀ r g ms cut seeds, .staged r g ms cut seeds ∈ s.log → s.Started r
  running : ∀ n c, (s.node n).co = some c → c.Unstaged →
    ∀ g ms cut seeds, .staged c.round g ms cut seeds ∉ s.log
  once : ∀ r g ms cut seeds g' ms' cut' seeds', .staged r g ms cut seeds ∈ s.log →
    .staged r g' ms' cut' seeds' ∈ s.log → cut = cut'

lemma stagedOnce_of_reach (h : Sys.Reaches D members K s) : s.StagedOnce := by
  refine h.induct_does (I := Sys.StagedOnce) ⟨?_, ?_, ?_⟩ ?_
  · exact fun r g ms cut seeds he => absurd he not_mem_nil
  · exact fun n c _ _ g ms cut seeds => not_mem_nil
  · exact fun r g ms cut seeds _ _ _ _ he => absurd he not_mem_nil
  rintro s n a o ms₀ hReach ⟨hStarted, hRunning, hOnce⟩ - hReach' - hAct hDoes
  have hWf := wf_of_reach hReach
  have hWf' := wf_of_reach hReach'
  refine ⟨?_, ?_, ?_⟩
  · intro r g ms cut seeds he
    rcases mem_after_log.mp he with hNew | hOld
    · obtain ⟨-, -, -, c, hc, rfl, -⟩ := hDoes.staged hNew
      exact (started_running hWf hc).after hAct
    · exact (hStarted r g ms cut seeds hOld).after hAct
  · intro m c' hc' hUnstaged g ms cut seeds he
    have hId : c'.round.coord = m := by rw [((hWf' m).co c' hc').1]
    by_cases hm : m = n
    · subst hm
      rw [after_node_self] at hc'
      rcases hDoes.unstaged hc' hUnstaged with ⟨hNone, hNano⟩ | ⟨c, hc, hRound, hBefore, hNo⟩
      · -- a round just started has staged nothing
        rcases mem_after_log.mp he with hNew | hOld
        · obtain ⟨-, -, -, c, hc, -⟩ := hDoes.staged hNew
          exact absurd (hc.symm.trans hNone) nofun
        · have hLe : c'.round.nano ≤ (s.node c'.round.coord).nano := hStarted _ g ms cut seeds hOld
          rw [hId] at hLe
          exact absurd hNano (Nat.not_lt.mpr hLe)
      · rcases mem_after_log.mp he with hNew | hOld
        · exact hNo _ _ _ _ _ hNew
        · exact hRunning m c hc hBefore g ms cut seeds (hRound ▸ hOld)
    · rw [after_node_ne hm] at hc'
      rcases mem_after_log.mp he with hNew | hOld
      · -- rounds of different coordinators are different
        obtain ⟨-, -, -, c, hc, hEq, -⟩ := hDoes.staged hNew
        have hOwn : c.round.coord = n := by rw [((hWf n).co c hc).1]
        exact hm (hId.symm.trans ((congrArg RoundId.coord hEq).symm.trans hOwn))
      · exact hRunning m c' hc' hUnstaged g ms cut seeds hOld
  · intro r g ms cut seeds g' ms' cut' seeds' he he'
    -- a round that stages now has not staged before
    have hFirst : ∀ {g ms cut seeds g' ms' cut' seeds'}, .staged r g ms cut seeds ∈ o.log →
        .staged r g' ms' cut' seeds' ∉ s.log := by
      intro g ms cut seeds g' ms' cut' seeds' hNew
      obtain ⟨-, -, -, c, hc, rfl, hPc⟩ := hDoes.staged hNew
      exact hRunning n c hc (.inr (.inr hPc)) g' ms' cut' seeds'
    rcases mem_after_log.mp he with hNew | hOld <;>
      rcases mem_after_log.mp he' with hNew' | hOld'
    · rw [(hDoes.staged hNew).2.1, (hDoes.staged hNew').2.1]
    · exact absurd hOld' (hFirst hNew)
    · exact absurd hOld (hFirst hNew')
    · exact hOnce r g ms cut seeds g' ms' cut' seeds' hOld hOld'

/-- A rotation that is not settled is the origin of its generation, and so is
one that is committed, until the node falls back to a later generation. -/
structure Sys.Owned (s : Sys ι β) : Prop where
  pending : ∀ n r, (s.node n).rep.Pending r →
    ∃ gs, (s.node n).rep.origin (s.node n).rep.part.gen = some (r, gs)
  committed : ∀ n r g, .committed n r g ∈ s.log → g ≤ (s.node n).rep.part.base ∧
    (g = (s.node n).rep.part.base → ∃ gs, (s.node n).rep.origin g = some (r, gs))

/-- The part about pending rotations, for the node that acts. -/
lemma Does.owned_pending {n : ι} {r : RoundId ι} (hDoes : Does D n x a o) (hWf : x.Wf n)
    (h : ∀ r, x.rep.Pending r → ∃ gs, x.rep.origin x.rep.part.gen = some (r, gs))
    (hPending : o.node.rep.Pending r) : ∃ gs, o.node.rep.origin o.node.rep.part.gen = some (r, gs) := by
  cases hDoes.effect hWf with
  | kept hGen hPrev hAct _ hOrigin =>
    rw [hOrigin, hGen]
    refine h r ⟨hPrev.symm.trans hPending.1, ?_⟩
    rw [← hAct, ← hGen]
    exact hPending.2
  | activated _ hRep hGen _ _ hOrigin =>
    obtain ⟨gs, hOrigin⟩ := hOrigin
    obtain ⟨rfl, -⟩ := mk.inj (some.inj (hRep.2.symm.trans hPending.2))
    rw [hOrigin, hGen, update_self]
    exact ⟨gs, rfl⟩
  | committed _ hRep =>
    have hSettled := hPending.1
    rw [hRep, commit_settled] at hSettled
    cases hSettled
  | rolledBack _ hRep =>
    have hSettled := hPending.1
    rw [hRep] at hSettled
    exact absurd ((rollback_settled hWf.rep).symm.trans hSettled) nofun

lemma owned_of_reach (h : Sys.Reaches D members K s) : s.Owned := by
  refine h.induct_does (I := Sys.Owned) ⟨?_, fun n r g he => absurd he not_mem_nil⟩ ?_
  · intro n r hPending
    cases hPending.1
  rintro s n a o ms hReach hOwned - - - - hDoes
  have hWf := (wf_of_reach hReach n).learned ms
  constructor
  · intro m r
    exact forall_node_after
      (P := fun _ x => x.rep.Pending r → ∃ gs, x.rep.origin x.rep.part.gen = some (r, gs))
      (fun m => hOwned.pending m r) (hDoes.owned_pending hWf (hOwned.pending n)) m
  · intro m r g he
    by_cases hm : m = n
    · subst hm
      rw [after_node_self]
      rcases mem_after_log.mp he with hNew | hOld
      · -- only a commit records one, of the rotation that was pending
        cases hDoes.effect hWf with
        | kept _ _ _ hLog => exact absurd trivial (hLog _ hNew)
        | activated _ _ _ hLog => rw [hLog] at hNew; simp at hNew
        | rolledBack _ _ hLog => rw [hLog] at hNew; simp at hNew
        | committed hBefore hRep hLog =>
          rw [hLog] at hNew
          obtain ⟨-, rfl, rfl⟩ := Event.committed.inj (mem_singleton.mp hNew)
          rw [hRep, commit_gen_base.2]
          refine ⟨Nat.le_refl _, fun _ => ?_⟩
          obtain ⟨gs, hOrigin⟩ := hOwned.pending m _ hBefore
          exact ⟨gs, (congrFun (commit_origin _) _).trans hOrigin⟩
      · obtain ⟨hLe, hOrigin⟩ := hOwned.committed m r g hOld
        rcases hDoes.base hWf with ⟨hSame, -⟩ | hLater
        · refine ⟨hSame ▸ hLe, fun hEq => ?_⟩
          obtain rfl : g = (s.node m).rep.part.base := hEq.trans hSame
          obtain ⟨gs, hOrigin⟩ := hOrigin rfl
          exact ⟨gs, (hDoes.origin_base hWf).trans hOrigin⟩
        · exact ⟨Nat.le_of_lt (Nat.lt_of_le_of_lt hLe hLater),
            fun hEq => absurd (hEq ▸ hLe) (Nat.not_le.mpr hLater)⟩
    · rw [after_node_ne hm]
      rcases mem_after_log.mp he with hNew | hOld
      · cases hDoes.logged hNew with
        | committed => exact absurd rfl hm
      · exact hOwned.committed m r g hOld

/-- **Blocks stay in their generation**: those of every replica, and those of
every broadcast; and a seed puts live keys only. -/
structure Traced (D : Datastore β κ ν) (s : Sys ι β) : Prop where
  node : ∀ n, NodeTraced D s.log (s.node n)
  data : ∀ d ∈ s.data, ∀ r, d.lin = some r → ∀ h ∈ d.heads, Below D s.log r d.gen h
  seeds : ∀ r g ms cut seeds, .staged r g ms cut seeds ∈ s.log →
    ∀ b ∈ seeds, ∀ k ∈ D.puts b, k ∈ D.liveKeys cut

omit [DecidableEq ι] [DecidableEq β] in
lemma NodeTraced.learned {log : List (Event ι β)} (h : NodeTraced D log x) (ms : List ι) :
    NodeTraced D log { x with members := ms } :=
  ⟨h.active, h.base, h.co⟩

lemma traced_of_reach (hB : D.BatchSound) (hD : D.Lineal) (h : Sys.Reaches D members SameOrigin s) :
    Traced D s := by
  refine h.induct_does (I := Traced D) ⟨fun n => ?_, fun d hd => ?_, ?_⟩ ?_
  · exact ⟨nofun, nofun, nofun⟩
  · exact absurd hd not_mem_nil
  · exact fun r g ms cut seeds he => absurd he not_mem_nil
  rintro s n a o ms hReach hTraced hSame hReach' hRecv - hDoes
  have hSound' := sound_of_reach hB hReach' n
  rw [after_node_self] at hSound'
  have hLog : ∀ e ∈ s.log, e ∈ o.log ++ s.log := fun _ => mem_append_right _
  have hNode : NodeTraced D (o.log ++ s.log) o.node := by
    refine hDoes.traced hD ((wf_of_reach hReach n).learned ms) (sound_of_reach hB hReach n)
      (drained_of_reach hReach n) ?_ ?_ ((hTraced.node n).learned ms)
    · exact hSame
    · rintro d r rfl
      exact hTraced.data d (of_decide_eq_true hRecv) r
  refine ⟨?_, ?_, ?_⟩
  · refine forall_node_after (P := fun _ x => NodeTraced D (o.log ++ s.log) x) (fun m => ?_) hNode
    exact (hTraced.node m).same hLog rfl rfl rfl rfl rfl fun c gs hc hPc => ⟨c, hc, rfl, hPc⟩
  · intro d hd r hLin k hk
    rcases List.mem_append.mp hd with hOld | hNew
    · exact (hTraced.data d hOld r hLin k hk).mono hLog
    · rcases hDoes.data hNew with rfl | ⟨c, gs, hc, hPc, rfl⟩
      · -- the heads of the active generation are blocks of it
        obtain ⟨⟨r', gs⟩, hOrigin, rfl⟩ := map_eq_some_iff.mp hLin
        exact (hNode.active r' gs hOrigin).1 k ((hSound' _).heads k hk)
      · obtain rfl := some.inj hLin
        exact hNode.co c hc gs hPc k ((hSound' _).heads k hk)
  · intro r g ms cut seeds he b hb k hk
    rcases mem_after_log.mp he with hNew | hOld
    · obtain ⟨rfl, rfl, rfl, -⟩ := hDoes.staged hNew
      rw [stageSeeded_empty hSame] at hb
      exact hD.batch_puts _ b hb k hk
    · exact hTraced.seeds r g ms cut seeds hOld b hb k hk

/-- **Aborted attempts stay out.** In every run in which no step mixes two
attempts at one generation, a key deleted between an aborted attempt and a
committed one is not live in what was committed. -/
theorem aborted_stays_out (hB : D.BatchSound) (hD : D.Lineal) (h : Sys.Reaches D members SameOrigin s) :
    AbortedStaysOut D s := by
  intro r₁ r₂ g ms₁ cut₁ seeds₁ ms₂ cut₂ seeds₂ post pre n k hSplit _ _ hCommitted hGen _ hDead hPuts
    hLive
  have hTraced := traced_of_reach hB hD h
  -- the replica is settled on `g + 1`, and `r₂` is its origin
  obtain ⟨hLe, hOrigin⟩ := (owned_of_reach h).committed n r₂ (g + 1) hCommitted
  have hBase : g + 1 = (s.node n).rep.part.base := by
    cases hPrev : (s.node n).rep.part.hasPrev with
    | false => rw [base_of_settled hPrev, hGen]
    | true =>
      have hSucc := (wf_of_reach h n).rep.base_succ hPrev
      omega
  obtain ⟨gs, hOrigin⟩ := hOrigin hBase
  -- so the block that put the key belongs to `r₂`
  obtain ⟨b, hb, hPut⟩ := hD.live _ k hLive
  have hBelow : Below D s.log r₂ (g + 1) b := by
    have hActive := (hTraced.node n).active
    rw [hGen] at hActive
    refine (hActive r₂ gs hOrigin).1 b ?_
    rw [← hGen]
    exact hb
  rcases hBelow b (hD.self b) with ⟨g₀, ms, cut, seeds, hEq, hStaged, hSeed⟩ | ⟨m, hAcked⟩
  · -- in the seed of `r₂` are the keys that were live when it staged
    have hStaged₂ : .staged r₂ g ms₂ cut₂ seeds₂ ∈ s.log := by
      rw [hSplit]
      exact mem_append_right _ mem_cons_self
    obtain rfl : cut = cut₂ := (stagedOnce_of_reach h).once _ _ _ _ _ _ _ _ _ hStaged hStaged₂
    exact hDead (hTraced.seeds _ _ _ _ _ hStaged b hSeed k hPut)
  · exact hPuts m b hAcked hPut

end

/-! ## The late seed -/

private def abortedRound : RoundId Nat := ⟨0, 1⟩

private def laterRound : RoundId Nat := ⟨0, 2⟩

private def pairMembers (n : Nat) : List Nat := if n = 0 then [1] else [0]

/-- Node 1 puts key 1; node 0 stages and activates generation 1, and aborts. -/
private def abortedRun : List (Nat × Action Nat Nat) :=
  [(1, .beginWrite), (1, .write 1 [.block 1, .head 1]), (0, .recvData ⟨0, [1], none⟩),
    (0, .process [.block 1, .head 1] []), (0, .start 1 []), (0, .freeze),
    (1, .deliver ⟨0, .prepare abortedRound [1], none⟩),
    (0, .deliver ⟨1, .prepared abortedRound { ok := true, heads := [1] }, none⟩), (0, .take),
    (0, .poll false), (1, .deliver ⟨0, .prepare abortedRound [1], none⟩),
    (0, .deliver ⟨1, .prepared abortedRound { ok := true, heads := [1] }, none⟩), (0, .take),
    (0, .poll false), (0, .stage), (0, .activate),
    (1, .deliver ⟨0, .switch abortedRound 1 (some 101), none⟩),
    (0, .cancel), (0, .abort), (0, .unwind),
    (1, .deliver ⟨0, .abort abortedRound, some (abortedRound, 1)⟩)]

/-- Node 1 deletes the key; then both commit generation 1, without it. -/
private def laterRun : List (Nat × Action Nat Nat) :=
  [(1, .beginWrite), (1, .write 2 [.block 1, .block 2, .head 2]), (0, .recvData ⟨0, [2], none⟩),
    (0, .process [.block 1, .block 2, .head 2] []), (0, .start 2 []), (0, .freeze),
    (1, .deliver ⟨0, .prepare laterRound [2], some (abortedRound, 1)⟩),
    (0, .deliver ⟨1, .prepared laterRound { ok := true, heads := [2] }, some (abortedRound, 1)⟩),
    (0, .take), (0, .poll false),
    (1, .deliver ⟨0, .prepare laterRound [2], some (abortedRound, 1)⟩),
    (0, .deliver ⟨1, .prepared laterRound { ok := true, heads := [2] }, some (abortedRound, 1)⟩),
    (0, .take), (0, .poll false), (0, .stage), (0, .activate),
    (1, .deliver ⟨0, .switch laterRound 1 none, some (abortedRound, 1)⟩),
    (1, .seedSeen (laterRound, none)), (1, .seedArrived (laterRound, none)),
    (0, .deliver ⟨1, .ready laterRound { ok := true }, some (laterRound, 1)⟩), (0, .take),
    (0, .poll false), (0, .commit), (1, .deliver ⟨0, .done laterRound, some (laterRound, 1)⟩)]

/-- The events up to the second staging. -/
private def abortedLog : List (Event Nat Nat) :=
  [.prepared 1 laterRound, .acked 1 0 none 2, .rolledBack 1 abortedRound 1,
    .rolledBack 0 abortedRound 1, .activated 1 abortedRound 1, .activated 0 abortedRound 1,
    .staged abortedRound 0 [1] [.block 1, .head 1] [101], .prepared 1 abortedRound,
    .acked 1 0 none 1]

/-- The events after the second staging. -/
private def laterLog : List (Event Nat Nat) :=
  [.committed 1 laterRound 1, .committed 0 laterRound 1, .activated 1 laterRound 1, .activated 0 laterRound 1]

/-- The seed of the aborted attempt reaches node 1 after the commit, and key 1
is live again. -/
theorem late_seed_resurrects :
    ∃ s, Sys.Reaches plainStore pairMembers Anything s ∧ ¬ AbortedStaysOut plainStore s := by
  obtain ⟨s, hReach, hLog, hGen, hLive⟩ : ∃ s, Sys.Reaches plainStore pairMembers Anything s ∧
      s.log = laterLog ++ .staged laterRound 0 [1] [.block 1, .block 2, .head 2] [] :: abortedLog ∧
      (s.node 1).rep.part.gen = 1 ∧ 1 ∈ plainStore.liveKeys (s.node 1).rep.ns :=
    Reach.of_eval (abortedRun ++ laterRun ++ [(1, .recvData ⟨1, [101], some abortedRound⟩),
      (1, .process [.block 101, .head 101] [])]) (by decide)
  refine ⟨s, hReach, fun hOut => ?_⟩
  refine hOut abortedRound laterRound 0 [1] [.block 1, .head 1] [101] [1]
    [.block 1, .block 2, .head 2] [] laterLog abortedLog 1 1 hLog (by decide) ?_ ?_ hGen (by decide)
    (by decide) ?_ hLive
  · -- both nodes activated the first attempt, and both rolled it back
    intro m hm
    have hm' : m = 1 ∨ m = 0 := by simpa [abortedLog, laterRound, abortedRound] using hm
    rcases hm' with rfl | rfl <;> decide
  · rw [hLog]
    decide
  · intro m b hb
    rw [hLog] at hb
    simp [laterLog, abortedLog] at hb

/-- The same two attempts, with the late seed lost. -/
theorem lost_seed_stays_out :
    ∃ s, Sys.Reaches plainStore pairMembers SameOrigin s ∧ .rolledBack 1 abortedRound 1 ∈ s.log ∧
    .committed 1 laterRound 1 ∈ s.log ∧ AbortedStaysOut plainStore s := by
  obtain ⟨s, hReach, hRolledBack, hCommitted⟩ : ∃ s, Sys.Reaches plainStore pairMembers SameOrigin s ∧
      .rolledBack 1 abortedRound 1 ∈ s.log ∧ .committed 1 laterRound 1 ∈ s.log :=
    Reach.of_eval (abortedRun ++ laterRun ++ [(1, .recvData ⟨1, [], some laterRound⟩)]) (by decide)
  exact ⟨s, hReach, hRolledBack, hCommitted, aborted_stays_out plainStore_batchSound plainStore_lineal hReach⟩

end RedGeo.Rotation
