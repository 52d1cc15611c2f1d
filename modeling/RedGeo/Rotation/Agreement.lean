import RedGeo.Rotation.Rounds

/-!
# RedGeo — do the replicas agree on how a round ends?

A rotation is an atomic commitment: a round must not end with one replica
having committed the new generation, its old one purged, while another has
rolled it back. Only `done` lets a replica commit, and only the coordinator
sends it; so agreement is that nobody rolls back a round whose coordinator has
sent `done` or still may.

Three places of the code decide without knowing that:

* the second half of `watchdog` rolls back a participant that was only prepared
  when it was collected, and may have been switched since;
* `onOutcome` takes any settled peer's generation for the outcome of the round,
  also that of a node that never took part in it;
* `onOutcome` rolls back when every member reports to be in doubt, while the
  coordinator may still be running the round or have sent `done`.

`Informed` says that none of the three happens. `agreement` is that in every
run with `Informed` steps the replicas agree; `joiner_splits` is a run in which
they do not.
-/

namespace RedGeo.Rotation

open Engine Lib List Option Sys

variable {ι β κ ν : Type} [DecidableEq ι] [DecidableEq β] {D : Datastore β κ ν}

/-! ## Statement -/

/-- **Rotation agreement**: no round has been committed at one replica and
rolled back at another. -/
def Agreement (s : Sys ι β) : Prop :=
  ∀ r g m n, .committed m r g ∈ s.log → .rolledBack n r g ∉ s.log

namespace Sys

variable (s : Sys ι β) (r : RoundId ι)

/-- `done` of the round has been sent. -/
def Done : Prop := ∃ p ∈ s.net, p.msg = .done r

/-- The round is given up: `done` has not been sent, and the coordinator is not
on its way to it. -/
def Abandoned : Prop :=
  ¬ s.Done r ∧ ∀ c ∈ (s.node r.coord).co, c.round = r → c.pc = .failing ∨ c.pc = .unwinding

instance (s : Sys ι β) (r : RoundId ι) : Decidable (s.Done r) := by
  unfold Done; infer_instance

instance (s : Sys ι β) (r : RoundId ι) : Decidable (s.Abandoned r) := by
  unfold Abandoned; infer_instance

end Sys

/-- The node is switched: it has activated a generation and waits for the
outcome. -/
def Node.Switched (x : Node ι β) : Prop := ∃ st ∈ x.st, st.phase = .switched

instance (x : Node ι β) : Decidable x.Switched := by
  unfold Node.Switched; infer_instance

/-- **No decision without knowledge** by a node that is switched. The prepare
its watchdog acts on is not that of the round it is switched in; the settled
peer whose answer decides had activated the same rotation last; and when all
members are in doubt the round is given up. -/
def Informed (s : Sys ι β) (l : ι × Action ι β) : Prop :=
  (s.node l.1).Switched →
  match l.2 with
  | .abandon =>
    ∀ round ∈ (s.node l.1).stale, ∀ st ∈ (s.node l.1).st, round ≠ none ∧ st.round ≠ round
  | .deliver ⟨_, .outcome _ .idle, about⟩ => about = (s.node l.1).rep.act
  | .deliver ⟨src, .outcome gen .indoubt, _⟩ =>
    { (s.node l.1).learn l.1 src with
      replies := (s.node l.1).replies.map ((src, gen, .indoubt) :: ·) }.allInDoubt = true →
    ∀ act ∈ (s.node l.1).rep.act, s.Abandoned act.1
  | _ => True

instance (s : Sys ι β) (l : ι × Action ι β) : Decidable (Informed s l) := by
  unfold Informed
  refine @instDecidableForall _ _ inferInstance ?_
  split <;> infer_instance

/-! ## Once abandoned, always abandoned -/

section

variable {s : Sys ι β} {n : ι} {a : Action ι β} {o : Out ι β} {r : RoundId ι}

omit [DecidableEq β] in
lemma Sys.done_after : (s.after n o).Done r ↔ s.Done r ∨ .done r ∈ o.send := by
  constructor
  · rintro ⟨p, hp, hMsg⟩
    rcases mem_after_net.mp hp with hp | ⟨hSend, -⟩
    · exact .inl ⟨p, hp, hMsg⟩
    · exact .inr (hMsg ▸ hSend)
  · rintro (⟨p, hp, hMsg⟩ | hSend)
    · exact ⟨p, mem_after_net.mpr (.inl hp), hMsg⟩
    · exact ⟨⟨n, .done r, _⟩, mem_after_net.mpr (.inr ⟨hSend, rfl, rfl⟩), rfl⟩

/-- Only the coordinator of a round sends its `done`, at the end of phase 2. -/
lemma done_sent (hWf : ∀ m, (s.node m).Wf m) (hAct : (s.node n).act D n a = some o)
    (hSend : .done r ∈ o.send) :
    n = r.coord ∧ ∃ c gs, (s.node n).co = some c ∧ c.round = r ∧ c.pc = .switching gs ∧
      o.node.co = some { c with pc := .committing, activated := false } := by
  obtain ⟨ms, hDoes⟩ := act_does hAct
  cases hDoes.sent hSend with
  | plain hPlain => exact absurd hPlain id
  | done hCo hPc hCo' =>
    refine ⟨?_, _, _, hCo, rfl, hPc, hCo'⟩
    rw [((hWf n).co _ hCo).1]

/-- **Once abandoned, always abandoned**: a round that has been started is not
taken up again. -/
theorem Sys.Abandoned.after (hWf : ∀ m, (s.node m).Wf m) (hAct : (s.node n).act D n a = some o)
    (hStarted : s.Started r) (h : s.Abandoned r) : (s.after n o).Abandoned r := by
  obtain ⟨ms, hDoes⟩ := act_does hAct
  obtain ⟨hNotDone, hCo⟩ := h
  constructor
  · rw [done_after]
    rintro (hDone | hSend)
    · exact hNotDone hDone
    · obtain ⟨rfl, c, gs, hc, hRound, hPc, -⟩ := done_sent hWf hAct hSend
      have := hCo c hc hRound
      simp [hPc] at this
  · intro c' hc' hRound'
    by_cases hn : r.coord = n
    · subst hn
      rw [after_node_self] at hc'
      rcases hDoes.co_cases hc' with ⟨-, hNano, -⟩ | ⟨c, hc, hRound, -, hFails⟩
      · -- a round started now is later than every round started before
        have hOld : r.nano ≤ (s.node r.coord).nano := hStarted
        rw [hRound'] at hNano
        exact absurd hNano (Nat.not_lt.mpr hOld)
      · exact hFails (hCo c hc (hRound ▸ hRound'))
    · rw [after_node_ne hn] at hc'
      exact hCo c' hc' hRound'

end

/-! ## The invariant -/

/-- What the rounds of a run have come to. -/
structure Decided (s : Sys ι β) : Prop where
  running : ∀ n, ∀ c ∈ (s.node n).co, s.Done c.round ↔ c.pc = .committing
  done : ∀ r, s.Done r → s.Started r
  abort : ∀ p ∈ s.net, ∀ r, p.msg = .abort r → s.Abandoned r ∧ s.Started r
  committed : ∀ n r g, .committed n r g ∈ s.log → s.Done r
  rolledBack : ∀ n r g, .rolledBack n r g ∈ s.log → s.Abandoned r ∧ s.Started r
  settled : ∀ n r g, (s.node n).rep.act = some (r, g) → (s.node n).rep.part.hasPrev = false →
    (g ≤ (s.node n).rep.part.gen ∧ .committed n r g ∈ s.log) ∨
    ((s.node n).rep.part.gen < g ∧ .rolledBack n r g ∈ s.log)
  idle : ∀ p ∈ s.net, ∀ gen r g, p.msg = .outcome gen .idle → p.about = some (r, g) →
    (g ≤ gen ∧ ∃ m, .committed m r g ∈ s.log) ∨ (gen < g ∧ ∃ m, .rolledBack m r g ∈ s.log)

section

variable {s : Sys ι β} {n : ι} {a : Action ι β} {r : RoundId ι} {b : Bool} {st : PState ι β}

variable (h : Decided s) (hKnown : s.Known) (hWf : (s.node n).Wf n) (hInformed : Informed s (n, a))
  (hRecv : s.received n a = true) (hVerdict : Verdict n ((s.node n).learned n a) a b)
  (hSt : (s.node n).st = some st) (hPhase : st.phase = .switched) (hPending : (s.node n).rep.Pending r)

include h hWf hInformed hRecv hVerdict hSt hPhase hPending

/-- A participant that commits knows of the `done`. -/
lemma Decided.done_of_verdict (hb : b = true) : s.Done r := by
  have hSwitched : (s.node n).Switched := ⟨st, hSt, hPhase⟩
  have hCase := hInformed hSwitched
  cases hVerdict with
  | @done p r' st' hMsg hSt' hRound =>
    obtain rfl : st = st' := by simpa [hSt] using hSt'
    -- the round of the record is the one activated last
    have hAct := (hWf.switched st hSt hPhase).2 r' hRound
    obtain ⟨rfl, -⟩ := Prod.mk.inj (some.inj (hPending.2.symm.trans hAct))
    exact ⟨p, (of_decide_eq_true hRecv).1, hMsg⟩
  | @idle p gen st' hMsg hSt' hPhase' =>
    obtain ⟨src, msg, about⟩ := p
    obtain rfl : msg = .outcome gen .idle := hMsg
    have hAbout : about = some (r, (s.node n).rep.part.gen) := hCase.trans hPending.2
    have hLe : (s.node n).rep.part.gen ≤ gen := by simpa using hb
    rcases h.idle _ (of_decide_eq_true hRecv).1 gen r _ rfl hAbout with ⟨-, m, hLog⟩ | ⟨hLt, -⟩
    · exact h.committed m r _ hLog
    · exact absurd hLe (Nat.not_le.mpr hLt)
  | abort => cases hb
  | stale => cases hb
  | allInDoubt => cases hb

include hKnown in
/-- A participant that rolls back knows that the round is given up. -/
lemma Decided.abandoned_of_verdict (hb : b = false) : s.Abandoned r ∧ s.Started r := by
  have hSwitched : (s.node n).Switched := ⟨st, hSt, hPhase⟩
  have hCase := hInformed hSwitched
  cases hVerdict with
  | @abort p r' st' hMsg hSt' hRound =>
    obtain rfl : st = st' := by simpa [hSt] using hSt'
    have hAct := (hWf.switched st hSt hPhase).2 r' hRound
    obtain ⟨rfl, -⟩ := Prod.mk.inj (some.inj (hPending.2.symm.trans hAct))
    exact h.abort p (of_decide_eq_true hRecv).1 _ hMsg
  | @stale st' round hStale hSt' hRound =>
    rw [learned_stale] at hStale
    rw [learned_st] at hSt'
    obtain ⟨hSome, hOther⟩ := hCase round hStale st' hSt'
    exact absurd hRound (not_or.mpr ⟨hSome, hOther⟩)
  | @idle p gen st' hMsg hSt' hPhase' =>
    obtain ⟨src, msg, about⟩ := p
    obtain rfl : msg = .outcome gen .idle := hMsg
    have hAbout : about = some (r, (s.node n).rep.part.gen) := hCase.trans hPending.2
    have hLt : gen < (s.node n).rep.part.gen := by simpa using hb
    rcases h.idle _ (of_decide_eq_true hRecv).1 gen r _ rfl hAbout with ⟨hLe, -⟩ | ⟨-, m, hLog⟩
    · exact absurd hLe (Nat.not_le.mpr hLt)
    · exact h.rolledBack m r _ hLog
  | @allInDoubt p gen st' hMsg hSt' hPhase' hAll =>
    obtain ⟨src, msg, about⟩ := p
    obtain rfl : msg = .outcome gen .indoubt := hMsg
    rw [learned_replies] at hAll
    exact ⟨hCase hAll _ hPending.2, hKnown.act n r _ hPending.2⟩
  | done => cases hb

end

section

variable {s : Sys ι β} {n : ι} {a : Action ι β} {o : Out ι β}

omit [DecidableEq ι] [DecidableEq β] in
/-- A coordinator that has failed is past the point where it could send `done`. -/
lemma Decided.failing {c : Co ι β} (h : Decided s) (hWf : ∀ m, (s.node m).Wf m) (hc : (s.node n).co = some c)
    (hPc : c.pc = .failing ∨ c.pc = .unwinding) : s.Abandoned c.round ∧ s.Started c.round := by
  have hId : c.round = ⟨n, (s.node n).nano⟩ := ((hWf n).co c hc).1
  refine ⟨⟨?_, ?_⟩, started_running hWf hc⟩
  · rw [h.running n c hc]
    intro hCommitting
    simp [hCommitting] at hPc
  · intro d hd _
    rw [hId] at hd
    obtain rfl : c = d := some.inj (hc.symm.trans hd)
    exact hPc

/-- Whoever settles a rotation in an informed step knows the decision: `done`
for a commit, the round given up for a rollback. -/
lemma Decided.logged (h : Decided s) (hKnown : s.Known) (hWf : ∀ m, (s.node m).Wf m)
    (hInformed : Informed s (n, a)) (hRecv : s.received n a = true) (hAct : (s.node n).act D n a = some o) :
    (∀ m r g, .committed m r g ∈ o.log → s.Done r) ∧ ∀ m r g, .rolledBack m r g ∈ o.log → s.Abandoned r ∧
    s.Started r := by
  have hDoes := act_does_learned hAct
  obtain ⟨ms, hLearned⟩ := learned_members n (s.node n) a
  have hWf' : ((s.node n).learned n a).Wf n := hLearned ▸ (hWf n).learned ms
  cases hDoes.effect hWf' with
  | kept _ _ _ hLog =>
    exact ⟨fun m r g he => absurd trivial (hLog _ he), fun m r g he => absurd trivial (hLog _ he)⟩
  | activated _ _ _ hLog =>
    rw [hLog]
    exact ⟨by simp, by simp⟩
  | committed hBefore _ hLog hWhy =>
    rw [learned_rep] at hBefore hLog
    rw [hLog]
    refine ⟨fun m r g he => ?_, by simp⟩
    obtain ⟨-, rfl, -⟩ := Event.committed.inj (mem_singleton.mp he)
    simp only [learned_co, learned_st] at hWhy
    rcases hWhy with ⟨-, hVerdict, st, hSt, hPhase⟩ | ⟨c, hc, rfl, hPc⟩
    · exact h.done_of_verdict (hWf n) hInformed hRecv hVerdict hSt hPhase hBefore rfl
    · exact (h.running n c hc).mpr hPc
  | rolledBack hBefore _ hLog hWhy =>
    rw [learned_rep] at hBefore hLog
    rw [hLog]
    refine ⟨by simp, fun m r g he => ?_⟩
    obtain ⟨-, rfl, -⟩ := Event.rolledBack.inj (mem_singleton.mp he)
    simp only [learned_co, learned_st] at hWhy
    rcases hWhy with ⟨-, hVerdict, st, hSt, hPhase⟩ | ⟨c, hc, rfl, hPc⟩
    · exact h.abandoned_of_verdict hKnown (hWf n) hInformed hRecv hVerdict hSt hPhase hBefore rfl
    · exact h.failing hWf hc (.inr hPc)

/-- How a replica's settled state comes about. -/
lemma settled_after (hWf : ∀ m, (s.node m).Wf m) (hAct : (s.node n).act D n a = some o)
    {r : RoundId ι} {g : Nat} (hAct' : o.node.rep.act = some (r, g))
    (hPrev' : o.node.rep.part.hasPrev = false) :
    ((s.node n).rep.act = some (r, g) ∧ (s.node n).rep.part.hasPrev = false ∧
      o.node.rep.part.gen = (s.node n).rep.part.gen) ∨
    (g ≤ o.node.rep.part.gen ∧ .committed n r g ∈ o.log) ∨
    (o.node.rep.part.gen < g ∧ .rolledBack n r g ∈ o.log) := by
  obtain ⟨ms, hDoes⟩ := act_does hAct
  cases hDoes.effect ((hWf n).learned ms) with
  | kept hGen hPrev hSame => exact .inl ⟨hSame ▸ hAct', hPrev ▸ hPrev', hGen⟩
  | activated _ hRep => exact absurd (hRep.1.symm.trans hPrev') nofun
  | committed hBefore hRep hLog =>
    have hEq : (s.node n).rep.act = some (r, g) := by
      rw [hRep] at hAct'
      exact (Replica.commit_act _).symm.trans hAct'
    obtain ⟨rfl, rfl⟩ := Prod.mk.inj (some.inj (hBefore.2.symm.trans hEq))
    refine .inr (.inl ⟨?_, by rw [hLog]; exact mem_singleton.mpr rfl⟩)
    rw [hRep]
    simp [Replica.unfreeze, Partition.unfreeze, Engine.committed]
  | rolledBack hBefore hRep hLog =>
    have hEq : (s.node n).rep.act = some (r, g) := by
      rw [hRep] at hAct'
      exact (Replica.rollback_act _).symm.trans hAct'
    obtain ⟨rfl, rfl⟩ := Prod.mk.inj (some.inj (hBefore.2.symm.trans hEq))
    refine .inr (.inr ⟨?_, by rw [hLog]; exact mem_singleton.mpr rfl⟩)
    rw [hRep]
    exact Replica.rollback_gen_lt (hWf n).rep hBefore.1

/-- **An informed step keeps what the rounds have come to.** -/
theorem Decided.step (h : Decided s) (hKnown : s.Known) (hWf : ∀ m, (s.node m).Wf m)
    (hInformed : Informed s (n, a)) (hRecv : s.received n a = true) (hAct : (s.node n).act D n a = some o) :
    Decided (s.after n o) := by
  obtain ⟨hCommitted, hRolledBack⟩ := h.logged hKnown hWf hInformed hRecv hAct
  obtain ⟨ms, hDoes⟩ := act_does hAct
  -- what was said of the state before still holds of the state after
  have hDone : ∀ r, s.Done r → (s.after n o).Done r := fun r hr => done_after.mpr (.inl hr)
  have hOver : ∀ r, s.Abandoned r ∧ s.Started r → (s.after n o).Abandoned r ∧ (s.after n o).Started r :=
    fun r hr => ⟨hr.1.after hWf hAct hr.2, hr.2.after hAct⟩
  have hLog : ∀ e, e ∈ s.log → e ∈ (s.after n o).log := fun e he => mem_after_log.mpr (.inr he)
  refine ⟨?_, ?_, ?_, ?_, ?_, ?_, ?_⟩
  · -- running
    intro m c hc
    rw [done_after]
    by_cases hm : m = n
    · subst hm
      rw [after_node_self] at hc
      rcases hDoes.co_cases hc with ⟨hNone, hNano, hPc⟩ | ⟨c₀, hc₀, hRound, hIff, -⟩
      · -- nobody has heard of a round that starts now
        have hId : c.round = ⟨m, o.node.nano⟩ := ((hDoes.wf ((hWf m).learned ms)).co c hc).1
        rw [hPc]
        refine iff_of_false (not_or.mpr ⟨fun hr => ?_, fun hSend => ?_⟩) nofun
        · have hOld : c.round.nano ≤ (s.node c.round.coord).nano := h.done _ hr
          rw [hId] at hOld hNano
          exact absurd hNano (Nat.not_lt.mpr hOld)
        · obtain ⟨-, c₀, -, hc₀, -⟩ := done_sent hWf hAct hSend
          exact absurd (hc₀.symm.trans hNone) nofun
      · rw [hRound, h.running m c₀ hc₀, hIff]
    · rw [after_node_ne hm] at hc
      rw [h.running m c hc]
      refine or_iff_left fun hSend => hm ?_
      obtain ⟨hn, -⟩ := done_sent hWf hAct hSend
      rw [hn, ((hWf m).co c hc).1]
  · -- done
    intro r hr
    rcases done_after.mp hr with hr | hSend
    · exact (h.done r hr).after hAct
    · obtain ⟨-, c, gs, hc, rfl, -⟩ := done_sent hWf hAct hSend
      exact (started_running hWf hc).after hAct
  · -- abort
    intro p hp r hMsg
    rcases mem_after_net.mp hp with hp | ⟨hSend, -⟩
    · exact hOver r (h.abort p hp r hMsg)
    · cases hMsg ▸ hDoes.sent hSend with
      | plain hPlain => exact absurd hPlain id
      | abort hCo hPc => exact hOver _ (h.failing hWf hCo (.inl hPc))
  · -- committed
    intro m r g he
    rcases mem_after_log.mp he with he | he
    · exact hDone r (hCommitted m r g he)
    · exact hDone r (h.committed m r g he)
  · -- rolledBack
    intro m r g he
    rcases mem_after_log.mp he with he | he
    · exact hOver r (hRolledBack m r g he)
    · exact hOver r (h.rolledBack m r g he)
  · -- settled
    intro m r g hEq hPrev
    by_cases hm : m = n
    · subst hm
      rw [after_node_self] at hEq hPrev ⊢
      rcases settled_after hWf hAct hEq hPrev with ⟨hEq₀, hPrev₀, hGen⟩ | ⟨hLe, he⟩ | ⟨hLt, he⟩
      · rw [hGen]
        exact (h.settled m r g hEq₀ hPrev₀).imp (And.imp_right (hLog _)) (And.imp_right (hLog _))
      · exact .inl ⟨hLe, mem_after_log.mpr (.inl he)⟩
      · exact .inr ⟨hLt, mem_after_log.mpr (.inl he)⟩
    · rw [after_node_ne hm] at hEq hPrev ⊢
      exact (h.settled m r g hEq hPrev).imp (And.imp_right (hLog _)) (And.imp_right (hLog _))
  · -- idle
    intro p hp gen r g hMsg hAbout
    rcases mem_after_net.mp hp with hp | ⟨hSend, -, hAbout'⟩
    · exact (h.idle p hp gen r g hMsg hAbout).imp
        (And.imp_right (Exists.imp fun _ => hLog _)) (And.imp_right (Exists.imp fun _ => hLog _))
    · cases hMsg ▸ hDoes.sent hSend with
      | plain hPlain => exact absurd hPlain id
      | idle hSt hDoubt =>
        -- the sender has settled what it activated last
        have hPrev : (s.node n).rep.part.hasPrev = false := (Partition.inDoubt_eq_false.mp hDoubt).1
        exact (h.settled n r g (hAbout'.symm.trans hAbout) hPrev).imp
          (And.imp_right fun he => ⟨n, hLog _ he⟩) (And.imp_right fun he => ⟨n, hLog _ he⟩)

end

/-! ## Agreement -/

section

variable {members : ι → List ι} {s : Sys ι β}

lemma decided_of_reach (h : Sys.Reaches D members Informed s) : Decided s := by
  refine h.induct (I := Decided) ?_ ?_
  · refine ⟨fun n c hc => ?_, fun r hr => ?_, fun p hp => ?_, fun n r g he => ?_,
      fun n r g he => ?_, fun n r g hEq => ?_, fun p hp => ?_⟩
    · cases hc
    · obtain ⟨p, hp, -⟩ := hr
      cases hp
    · cases hp
    · cases he
    · cases he
    · cases hEq
    · cases hp
  · rintro s s' ⟨n, a⟩ hReach hDecided hInformed hStep
    obtain ⟨hRecv, o, hAct, rfl⟩ := step_eq hStep
    exact hDecided.step (known_of_reach hReach) (wf_of_reach hReach) hInformed hRecv hAct

/-- **Rotation agreement.** In every run of the cluster whose decisions are all
informed, whatever the network loses, duplicates, delays and reorders, whichever
timeouts fire and whoever joins or crashes, no round is committed at one replica
and rolled back at another. -/
theorem agreement (h : Sys.Reaches D members Informed s) : Agreement s := by
  intro r g m n hCommitted hRolledBack
  have hDecided := decided_of_reach h
  exact (hDecided.rolledBack n r g hRolledBack).1.1 (hDecided.committed m r g hCommitted)

end

/-! ## The joiner -/

private def r01 : RoundId Nat := ⟨0, 1⟩

/-- Nodes 0 and 1 know each other; nobody knows node 2. -/
private def pairOf (n : Nat) : List Nat := if n = 0 then [1] else if n = 1 then [0] else []

private def empty : Prepared Nat := { ok := true }

/-- Node 0 rotates with node 1 and commits; node 1 does not hear of the `done`
and asks. -/
private def undecided : List (Nat × Action Nat Nat) :=
  [(0, .start 1 []), (0, .freeze),
    (1, .deliver ⟨0, .prepare r01 [], none⟩), (0, .deliver ⟨1, .prepared r01 empty, none⟩),
    (0, .take), (0, .poll false),
    (1, .deliver ⟨0, .prepare r01 [], none⟩), (0, .deliver ⟨1, .prepared r01 empty, none⟩),
    (0, .take), (0, .poll false), (0, .stage), (0, .activate),
    (1, .deliver ⟨0, .switch r01 1 none, none⟩), (1, .seedSeen (r01, none)),
    (1, .seedArrived (r01, none)),
    (0, .deliver ⟨1, .ready r01 { ok := true }, some (r01, 1)⟩), (0, .take), (0, .poll false),
    (0, .commit), (1, .scan), (1, .ask)]

/-- Node 2, which has just joined and never took part in the round, answers that
it is settled at generation 0: node 1 rolls back what node 0 has committed. -/
theorem joiner_splits : ∃ s, Sys.Reaches plainStore pairOf Anything s ∧ .committed 0 r01 1 ∈ s.log ∧
    .rolledBack 1 r01 1 ∈ s.log ∧ ¬ Agreement s := by
  let joins : List (Nat × Action Nat Nat) := undecided ++
    [(2, .deliver ⟨1, .status 1, some (r01, 1)⟩), (1, .deliver ⟨2, .outcome 0 .idle, none⟩)]
  obtain ⟨s, hReach, hCommitted, hRolledBack⟩ : ∃ s, Sys.Reaches plainStore pairOf Anything s ∧
      .committed 0 r01 1 ∈ s.log ∧ .rolledBack 1 r01 1 ∈ s.log :=
    Reach.of_eval joins (by decide)
  exact ⟨s, hReach, hCommitted, hRolledBack, fun hAgree => hAgree _ _ _ _ hCommitted hRolledBack⟩

/-- The answer of node 0, which has committed the round, settles node 1. -/
theorem coordinator_settles : ∃ s, Sys.Reaches plainStore pairOf Informed s ∧ .committed 0 r01 1 ∈ s.log ∧
    .committed 1 r01 1 ∈ s.log ∧ Agreement s := by
  let answers : List (Nat × Action Nat Nat) := undecided ++ [(0, .deliver ⟨1, .status 1, some (r01, 1)⟩),
      (1, .deliver ⟨0, .outcome 1 .idle, some (r01, 1)⟩)]
  obtain ⟨s, hReach, hCommitted, hCommitted'⟩ : ∃ s, Sys.Reaches plainStore pairOf Informed s ∧
      .committed 0 r01 1 ∈ s.log ∧ .committed 1 r01 1 ∈ s.log :=
    Reach.of_eval answers (by decide)
  exact ⟨s, hReach, hCommitted, hCommitted', agreement hReach⟩

end RedGeo.Rotation
