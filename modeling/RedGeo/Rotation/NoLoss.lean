import RedGeo.Rotation.Writes

/-!
# RedGeo — are acknowledged writes in the cut?

The coordinator cuts generation `g` when every member has answered its
`prepare`, twice in a row, with heads it holds too. A member is frozen from its
first answer on, so what it has acknowledged lies below the heads of every
answer it gives in the round, and the coordinator holds all of that when it
stages the next generation.

The argument breaks where a member leaves the round and enters it again: its
idle timeout (or a crash) reopens the partition, writes are acknowledged, and a
retransmitted `prepare` of the same round freezes it once more. The coordinator
may already have its answers from the first time.

* `Confirmed` — a member has answered with heads below which everything is in
  the given blocks.
* `FirstPrepare` — no node prepares twice for one round.
* `no_loss` — in every run with `FirstPrepare` steps, a committed round has lost
  no acknowledged write; `reprepared_loses` is a run that loses one.
-/

namespace RedGeo.Rotation

open Engine Lib List Option Sys Node Partition

variable {ι β κ ν : Type} {D : Datastore β κ ν}
variable {m : ι} {r : RoundId ι} {g : Nat} {b : β}

/-! ## Statement -/

/-- The write `b` was acknowledged at `m` in generation `g`, before `m` switched
to the next one in round `r`. -/
def AckedBefore (log : List (Event ι β)) (m : ι) (r : RoundId ι) (g : Nat) (b : β) : Prop :=
  ∃ post pre lin, log = post ++ .activated m r (g + 1) :: pre ∧ .acked m g lin b ∈ pre

/-- **No acknowledged write is lost**: of a round that committed, the state the
coordinator seeded the next generation from holds every write a member had
acknowledged before it switched. -/
def NoLoss (s : Sys ι β) : Prop :=
  ∀ r g ms cut seeds n m b, .staged r g ms cut seeds ∈ s.log → .committed n r (g + 1) ∈ s.log →
    m ∈ ms → AckedBefore s.log m r g b → b ∈ blocks cut

section

variable [DecidableEq ι] [DecidableEq β]

/-- No node prepares for a round it has been prepared for before. -/
def FirstPrepare (s : Sys ι β) (l : ι × Action ι β) : Prop :=
  match l.2 with
  | .deliver ⟨_, .prepare r _, _⟩ =>
    (s.node l.1).prepareCase r = .fresh → (s.node l.1).rep.freeze.2 = true → .prepared l.1 r ∉ s.log
  | _ => True

instance (s : Sys ι β) (l : ι × Action ι β) : Decidable (FirstPrepare s l) :=
  decidable_of_iff ((match l.2 with
    | .deliver ⟨_, .prepare r _, _⟩ => decide ((s.node l.1).prepareCase r = .fresh →
      (s.node l.1).rep.freeze.2 = true → .prepared l.1 r ∉ s.log)
    | _ => true) = true) (by unfold FirstPrepare; split <;> simp only [decide_eq_true_eq])

end

/-- An earlier switch, or one recorded just now. -/
lemma AckedBefore.append {es log : List (Event ι β)} (h : AckedBefore (es ++ log) m r g b) :
    AckedBefore log m r g b ∨ (.activated m r (g + 1) ∈ es ∧ ∃ lin, .acked m g lin b ∈ es ++ log) := by
  obtain ⟨post, pre, lin, hLog, hAcked⟩ := h
  rcases append_eq_append_iff.mp hLog with ⟨as, hPost, hRest⟩ | ⟨as, hEs, hRest⟩
  · exact .inl ⟨as, pre, lin, hRest, hAcked⟩
  · cases as with
    | nil => exact .inl ⟨[], pre, lin, hRest.symm, hAcked⟩
    | cons e as =>
      obtain ⟨rfl, -⟩ := List.cons.inj hRest
      refine .inr ⟨by rw [hEs]; simp, lin, ?_⟩
      rw [hLog]
      exact mem_append_right _ (mem_cons_of_mem _ hAcked)

lemma AckedBefore.activated {log : List (Event ι β)} (h : AckedBefore log m r g b) :
    .activated m r (g + 1) ∈ log := by
  obtain ⟨post, pre, lin, rfl, -⟩ := h
  simp

/-! ## Members -/

section

variable [DecidableEq ι] [DecidableEq β] {n : ι} {x : Node ι β}

/-- The node is prepared for the round as a participant. -/
def Node.Joined (x : Node ι β) (r : RoundId ι) : Prop :=
  x.co = none ∧ ∃ st, x.st = some st ∧ st.round = some r ∧ st.phase = .prepared

/-- A node prepared for a round was so before, or has just frozen for it; its
generation is the same. -/
lemma Does.joined (hDoes : Does D n x a o) (hWf : x.Wf n) (h : o.node.Joined r) :
    (x.Joined r ∨ .prepared n r ∈ o.log) ∧ o.node.rep.part.gen = x.rep.part.gen := by
  obtain ⟨hCo', st, hSt', hRound, hPhase⟩ := h
  -- every case but `prepare` leaves the record, clears it, or runs `Compact`
  cases hDoes with
  | side hRep hSt hCo =>
    exact ⟨.inl ⟨hCo ▸ hCo', st, hSt ▸ hSt', hRound, hPhase⟩, by rw [hRep]⟩
  | prepare _ hCo hCase =>
    revert hSt'
    rw [onPrepare, hCase]
    dsimp only
    split <;> intro hSt'
    · obtain rfl := some.inj hSt'
      obtain rfl := some.inj hRound
      exact ⟨.inr (mem_singleton.mpr rfl), rfl⟩
    · exact ⟨.inl ⟨hCo, st, hSt', hRound, hPhase⟩, rfl⟩
  | switch =>
    obtain rfl := some.inj hSt'
    cases hPhase
  | crash =>
    simp only [restart] at hSt'
    split at hSt'
    · obtain rfl := some.inj hSt'
      cases hPhase
    · cases hSt'
  | finishCommit | finishRollback | commit => cases hSt'
  | unwind hCo hPc =>
    obtain ⟨-, hFits⟩ := hWf.co _ hCo
    rw [hPc] at hFits
    exact absurd (hFits.1.symm.trans hSt') (by simp)
  | unwindIdle hCo hPc =>
    obtain ⟨-, hFits⟩ := hWf.co _ hCo
    rw [hPc] at hFits
    exact absurd (hFits.1.symm.trans hSt') (by simp)
  | resend hCo => exact absurd (hCo.symm.trans hCo') (by simp)
  | start | recv | freeze | freezeFail | takePrepared | takeReady | takeOther | again | converged
  | allReady | fail | stage | activate | abort => cases hCo'
  | answer | reply | seedSeen | seedArrived | readGate | readServe | beginWrite | write | recvData | process
  | rebroadcast => exact ⟨.inl ⟨hCo', st, hSt', hRound, hPhase⟩, rfl⟩

end

/-- What the members of a round have answered, and when. -/
structure Promised (D : Datastore β κ ν) (s : Sys ι β) : Prop where
  asked : ∀ p ∈ s.net, ∀ r union, p.msg = .prepare r union → p.src = r.coord
  other : ∀ n r, .prepared n r ∈ s.log → r.coord ≠ n
  joined : ∀ n r, (s.node n).Joined r → .prepared n r ∈ s.log
  entered : ∀ n r g, .activated n r g ∈ s.log → .prepared n r ∈ s.log ∨ r.coord = n
  left : ∀ n r g, .activated n r g ∈ s.log → ¬ (s.node n).Joined r
  replied : ∀ p ∈ s.net, ∀ r reply, p.msg = .prepared r reply → reply.ok = true → .prepared p.src r ∈ s.log
  covers : ∀ p ∈ s.net, ∀ r reply, p.msg = .prepared r reply → reply.ok = true → (s.node p.src).Joined r →
    ∀ lin b, .acked p.src (s.node p.src).rep.part.gen lin b ∈ s.log → ∃ h ∈ reply.heads, b ∈ D.dag h
  switched : ∀ p ∈ s.net, ∀ r reply, p.msg = .prepared r reply → reply.ok = true →
    ∀ g b, AckedBefore s.log p.src r g b → ∃ h ∈ reply.heads, b ∈ D.dag h

section

variable [DecidableEq ι] [DecidableEq β] {members : ι → List ι} {s : Sys ι β} {n : ι} {a : Action ι β}
  {o : Out ι β}

variable (h : Promised D s) (hWf : (s.node n).Wf n) (hWf' : o.node.Wf n) (hGated : (s.node n).Gated)
  (hFirst : FirstPrepare s (n, a)) (hRecv : s.received n a = true) (hAct : (s.node n).act D n a = some o)

include h hFirst hRecv hAct in
/-- A node that freezes for a round does so for the first time, and the round is
not its own. -/
lemma Promised.fresh (he : .prepared m r ∈ o.log) : m = n ∧ .prepared n r ∉ s.log ∧ r.coord ≠ n := by
  obtain ⟨ms, hDoes⟩ := act_does hAct
  cases hDoes.logged he with
  | @prepared p r union hAction hMsg hCo hCase hFreeze =>
    subst hAction
    obtain ⟨src, msg, about⟩ := p
    obtain rfl : msg = .prepare r union := hMsg
    obtain ⟨hMem, hSrc⟩ := of_decide_eq_true hRecv
    refine ⟨rfl, hFirst hCase hFreeze, ?_⟩
    rw [← h.asked _ hMem r union rfl]
    exact hSrc

/-- The heads of a prepared node cover what it has acknowledged. -/
lemma heads_cover (hD : D.BatchSound) {K : Sys ι β → ι × Action ι β → Prop}
    (hReach : Sys.Reaches D members K s) (hJoined : (s.node n).Joined r)
    (he : .acked n (s.node n).rep.part.gen lin b ∈ s.log) : ∃ h ∈ (s.node n).rep.heads, b ∈ D.dag h := by
  obtain ⟨hCo, st, hSt, hRound, hPhase⟩ := hJoined
  have hPrev := (wf_of_reach hReach n).prepared st hSt hPhase hCo
  have hBase : (s.node n).rep.part.base = (s.node n).rep.part.gen := by
    simp [base, hPrev]
  have hBlock := (acked_of_reach hReach n _ lin b he).2 hBase.symm
  exact (sound_of_reach hD hReach n _).covered b hBlock

include h hWf hAct in
/-- A node that is prepared after a step is recorded as such. -/
lemma Promised.joined_after (hr : ((s.after n o).node m).Joined r) : .prepared m r ∈ (s.after n o).log := by
  obtain ⟨ms, hDoes⟩ := act_does hAct
  rw [mem_after_log]
  by_cases hm : m = n
  · subst hm
    rw [after_node_self] at hr
    exact (hDoes.joined (hWf.learned ms) hr).1.symm.imp id (h.joined m r)
  · rw [after_node_ne hm] at hr
    exact .inr (h.joined m r hr)

include hWf hAct in
/-- Who switches now was prepared for the round, or coordinates it. -/
lemma switches_now (he : .activated m r g ∈ o.log) : m = n ∧ g = (s.node n).rep.part.gen + 1 ∧ o.log =
    [.activated n r g] ∧ o.node.rep.part.hasPrev = true ∧ ((s.node n).Joined r ∨ r.coord = n) := by
  obtain ⟨ms, hDoes⟩ := act_does hAct
  cases hDoes.effect (hWf.learned ms) with
  | kept _ _ _ hLog => exact absurd trivial (hLog _ he)
  | committed _ _ hLog => rw [hLog] at he; simp at he
  | rolledBack _ _ hLog => rw [hLog] at he; simp at he
  | activated _ hRep _ hLog hWhy =>
    rw [hLog] at he
    obtain ⟨rfl, rfl, rfl⟩ := Event.activated.inj (mem_singleton.mp he)
    refine ⟨rfl, rfl, hLog, hRep.1, ?_⟩
    rcases hWhy with ⟨st, hSt, hRound, hPhase, hCo⟩ | ⟨c, gs, hc, rfl, -⟩
    · exact .inl ⟨hCo, st, hSt, hRound, hPhase⟩
    · exact .inr (by rw [(hWf.co c hc).1])

include h hWf hWf' hFirst hRecv hAct in
/-- Who has switched in a round is not prepared for it, and does not prepare for
it again. -/
lemma Promised.left_after (he : .activated m r g ∈ (s.after n o).log) :
    ¬ ((s.after n o).node m).Joined r := by
  obtain ⟨ms, hDoes⟩ := act_does hAct
  rcases mem_after_log.mp he with hNew | hOld
  · obtain ⟨rfl, -, -, hPrev, -⟩ := switches_now hWf hAct hNew
    rw [after_node_self]
    rintro ⟨hCo, st, hSt, -, hPhase⟩
    exact absurd (hPrev.symm.trans (hWf'.prepared st hSt hPhase hCo)) nofun
  · by_cases hm : m = n
    · subst hm
      rw [after_node_self]
      intro hr
      rcases (hDoes.joined (hWf.learned ms) hr).1 with hBefore | hPrepared
      · exact h.left m r g hOld hBefore
      · obtain ⟨-, hNever, hOther⟩ := h.fresh hFirst hRecv hAct hPrepared
        exact (h.entered m r g hOld).elim hNever hOther
    · rw [after_node_ne hm]
      exact h.left m r g hOld

include h hWf hGated hFirst hRecv hAct in
/-- An answer given before still covers what its member has acknowledged, as
long as the member is prepared: it acknowledges nothing, and it has not come
back to the round. -/
lemma Promised.covers_after (hp : p ∈ s.net) (hMsg : p.msg = .prepared r reply)
    (hOk : reply.ok = true) (hJoined : ((s.after n o).node p.src).Joined r)
    (he : .acked p.src ((s.after n o).node p.src).rep.part.gen lin b ∈ (s.after n o).log) :
    ∃ h ∈ reply.heads, b ∈ D.dag h := by
  obtain ⟨ms, hDoes⟩ := act_does hAct
  by_cases hSrc : p.src = n
  · rw [hSrc, after_node_self] at hJoined he
    obtain ⟨hStays, hGen⟩ := hDoes.joined (hWf.learned ms) hJoined
    rw [hGen] at he
    rcases hStays with ⟨hCo, st, hSt, hRound, hPhase⟩ | hPrepared
    · rcases mem_after_log.mp he with hNew | hOld
      · -- it is frozen
        obtain ⟨-, hOpen, -⟩ := hDoes.acked (hGated.learned ms) hNew
        exact absurd (hGated.prepared st hSt hPhase hCo) hOpen
      · refine h.covers p hp r reply hMsg hOk ?_ lin b ?_
        · rw [hSrc]
          exact ⟨hCo, st, hSt, hRound, hPhase⟩
        · rw [hSrc]
          exact hOld
    · -- it has answered in this round before
      obtain ⟨-, hNever, -⟩ := h.fresh hFirst hRecv hAct hPrepared
      exact absurd (hSrc ▸ h.replied p hp r reply hMsg hOk) hNever
  · rw [after_node_ne hSrc] at hJoined he
    refine h.covers p hp r reply hMsg hOk hJoined lin b ?_
    rcases mem_after_log.mp he with hNew | hOld
    · exact absurd (hDoes.acked (hGated.learned ms) hNew).1 hSrc
    · exact hOld

include h hWf hAct in
/-- An answer given before covers what its member had acknowledged when it
switches. -/
lemma Promised.switched_after (hp : p ∈ s.net) (hMsg : p.msg = .prepared r reply) (hOk : reply.ok = true)
    (hBefore : AckedBefore (s.after n o).log p.src r g b) : ∃ h ∈ reply.heads, b ∈ D.dag h := by
  rcases hBefore.append with hBefore | ⟨hNow, lin, he⟩
  · exact h.switched p hp r reply hMsg hOk g b hBefore
  · obtain ⟨hSrc, hGen, hLog, -, hWhy⟩ := switches_now hWf hAct hNow
    obtain rfl : g = (s.node n).rep.part.gen := Nat.succ.inj hGen
    rw [hLog] at he
    have hAcked : .acked p.src (s.node n).rep.part.gen lin b ∈ s.log := by simpa using he
    have hPrepared := h.replied p hp r reply hMsg hOk
    rw [← hSrc] at hAcked hWhy
    rcases hWhy with hJoined | hOwn
    · exact h.covers p hp r reply hMsg hOk hJoined lin b hAcked
    · exact absurd hOwn (h.other _ r hPrepared)

/-- **A step in which nobody prepares twice keeps the promises.** -/
theorem Promised.step (hD : D.BatchSound) (hReach : Sys.Reaches D members FirstPrepare s) (h : Promised D s)
    (hFirst : FirstPrepare s (n, a)) (hRecv : s.received n a = true) (hAct : (s.node n).act D n a = some o)
    (hReach' : Sys.Reaches D members FirstPrepare (s.after n o)) : Promised D (s.after n o) := by
  have hWf := wf_of_reach hReach n
  have hWf' : o.node.Wf n := by
    have := wf_of_reach hReach' n
    rwa [after_node_self] at this
  have hGated := gated_of_reach hReach n
  obtain ⟨ms, hDoes⟩ := act_does hAct
  have hOld : ∀ {e}, e ∈ s.log → e ∈ (s.after n o).log := fun he => mem_after_log.mpr (.inr he)
  refine ⟨?_, ?_, fun m r => h.joined_after hWf hAct, ?_,
    fun m r g => h.left_after hWf hWf' hFirst hRecv hAct, ?_, ?_, ?_⟩
  · -- asked
    intro p hp r union hMsg
    rcases mem_after_net.mp hp with hp | ⟨hSend, hSrc, -⟩
    · exact h.asked p hp r union hMsg
    · cases hMsg ▸ hDoes.sent hSend with
      | plain hPlain => exact absurd hPlain id
      | prepare hCo => rw [hSrc, (hWf.co _ hCo).1]
  · -- other
    intro m r he
    rcases mem_after_log.mp he with he | he
    · obtain ⟨rfl, -, hOther⟩ := h.fresh hFirst hRecv hAct he
      exact hOther
    · exact h.other m r he
  · -- entered
    intro m r g he
    rcases mem_after_log.mp he with he | he
    · obtain ⟨rfl, -, -, -, hWhy⟩ := switches_now hWf hAct he
      exact hWhy.imp (fun hr => hOld (h.joined m r hr)) id
    · exact (h.entered m r g he).imp hOld id
  · -- replied
    intro p hp r reply hMsg hOk
    rcases mem_after_net.mp hp with hp | ⟨hSend, hSrc, -⟩
    · exact hOld (h.replied p hp r reply hMsg hOk)
    · cases hMsg ▸ hDoes.sent hSend with
      | plain hPlain => exact absurd (hOk.symm.trans hPlain) nofun
      | prepared _ hSt hRound hPhase hCo =>
        refine h.joined_after hWf hAct ?_
        rw [hSrc, after_node_self]
        exact ⟨hCo, _, hSt, hRound, hPhase⟩
  · -- covers
    intro p hp r reply hMsg hOk hJoined lin b he
    rcases mem_after_net.mp hp with hp | ⟨hSend, hSrc, -⟩
    · exact h.covers_after hWf hGated hFirst hRecv hAct hp hMsg hOk hJoined he
    · cases hMsg ▸ hDoes.sent hSend with
      | plain hPlain => exact absurd (hOk.symm.trans hPlain) nofun
      | prepared =>
        have hCover := heads_cover hD hReach' hJoined he
        rwa [hSrc, after_node_self] at hCover
  · -- switched
    intro p hp r reply hMsg hOk g b hBefore
    rcases mem_after_net.mp hp with hp | ⟨hSend, hSrc, -⟩
    · exact h.switched_after hWf hAct hp hMsg hOk hBefore
    · cases hMsg ▸ hDoes.sent hSend with
      | plain hPlain => exact absurd (hOk.symm.trans hPlain) nofun
      | prepared _ hSt hRound hPhase hCo =>
        refine absurd ?_ (h.left_after hWf hWf' hFirst hRecv hAct hBefore.activated)
        rw [hSrc, after_node_self]
        exact ⟨hCo, _, hSt, hRound, hPhase⟩

end

/-! ## The coordinator -/

/-- The member has answered in the round with heads below which everything is in
the given blocks. -/
def Confirmed (D : Datastore β κ ν) (s : Sys ι β) (r : RoundId ι) (m : ι) (bs : List β) : Prop :=
  ∃ p ∈ s.net, ∃ reply, p.src = m ∧ p.msg = .prepared r reply ∧ reply.ok = true ∧
    ∀ h ∈ reply.heads, ∀ a ∈ D.dag h, a ∈ bs

/-- `Compact` has received the answer: it is in the channel or collected. -/
def Co.Holds (c : Co ι β) (m : ι) (q : Prepared β) : Prop :=
  (m, .inl q) ∈ c.chan ∨ (m, q) ∈ c.prepared

section

variable [DecidableEq ι] [DecidableEq β] {n : ι} {x : Node ι β}

/-- What `Compact` holds it held before, or has just received. -/
lemma Does.holds {a : Action ι β} {o : Out ι β} (hDoes : Does D n x a o) (hCo' : o.node.co = some c')
    (h : c'.Holds m q) : (∃ c, x.co = some c ∧ c'.round = c.round ∧ c.Holds m q) ∨ ∃ p, a = .deliver p ∧
    p.src = m ∧ p.msg = .prepared c'.round q := by
  cases hDoes with
  | side _ _ hCo => exact .inl ⟨c', hCo ▸ hCo', rfl, h⟩
  | prepare _ hCo hCase => cases hCo'.symm.trans (co_onPrepare hCo hCase)
  | answer _ hCo | reply _ hCo | switch _ hCo | finishCommit hCo | finishRollback hCo =>
    cases hCo'.symm.trans hCo
  | crash | commit | unwind | unwindIdle => cases hCo'
  | start =>
    obtain rfl := some.inj hCo'
    rcases h with h | h <;> cases h
  | @recv p c reply hCo hMsg =>
    obtain rfl := some.inj hCo'
    rcases h with h | h
    · rcases mem_append.mp h with h | h
      · exact .inl ⟨c, hCo, rfl, .inl h⟩
      · obtain ⟨rfl, rfl⟩ := Prod.mk.inj (mem_singleton.mp h)
        rcases hMsg with ⟨q', hq, hMsg⟩ | ⟨q', hq, -⟩
        · obtain rfl := Sum.inl.inj hq
          exact .inr ⟨p, rfl, rfl, hMsg⟩
        · cases hq
    · exact .inl ⟨c, hCo, rfl, .inr h⟩
  | takePrepared hCo _ hChan =>
    obtain rfl := some.inj hCo'
    refine .inl ⟨_, hCo, rfl, ?_⟩
    rcases h with h | h
    · exact .inl (by rw [hChan]; exact mem_cons_of_mem _ h)
    · rcases mem_cons.mp h with h | h
      · obtain ⟨rfl, rfl⟩ := Prod.mk.inj h
        exact .inl (by rw [hChan]; exact mem_cons_self)
      · exact .inr h
  | takeReady hCo _ hChan | takeOther hCo hChan =>
    obtain rfl := some.inj hCo'
    refine .inl ⟨_, hCo, rfl, h.imp (fun h => ?_) id⟩
    rw [hChan]
    exact mem_cons_of_mem _ h
  | again hCo =>
    obtain rfl := some.inj hCo'
    exact .inl ⟨_, hCo, rfl, h.imp id (by simp)⟩
  | freeze hCo | freezeFail hCo | converged hCo | allReady hCo | fail hCo | stage hCo
  | activate hCo | abort hCo =>
    obtain rfl := some.inj hCo'
    exact .inl ⟨_, hCo, rfl, h⟩
  | _ => exact .inl ⟨c', hCo', rfl, h⟩

/-- `Compact` comes to staging by a poll that found nothing missing. -/
lemma Does.staging {a : Action ι β} {o : Out ι β} (hDoes : Does D n x a o)
    (hCo' : o.node.co = some c') (hPc' : c'.pc = .staging) :
    ∃ c, x.co = some c ∧ c'.round = c.round ∧ c'.members = c.members ∧ (c.pc = .staging ∨
        (c.pc = .preparing ∧ c.rejected = false ∧ x.pollClear c = true ∧ o.node.rep = x.rep)) := by
  cases hDoes with
  | side _ _ hCo => exact ⟨c', hCo ▸ hCo', rfl, rfl, .inl hPc'⟩
  | prepare _ hCo hCase => cases hCo'.symm.trans (co_onPrepare hCo hCase)
  | answer _ hCo | reply _ hCo | switch _ hCo | finishCommit hCo | finishRollback hCo =>
    cases hCo'.symm.trans hCo
  | crash | commit | unwind | unwindIdle => cases hCo'
  | start | freeze | freezeFail | allReady | fail | stage | activate | abort =>
    obtain rfl := some.inj hCo'
    cases hPc'
  | recv hCo | takePrepared hCo | takeReady hCo | takeOther hCo | again hCo =>
    obtain rfl := some.inj hCo'
    exact ⟨_, hCo, rfl, rfl, .inl hPc'⟩
  | converged hCo hPc hReject hClear =>
    obtain rfl := some.inj hCo'
    exact ⟨_, hCo, rfl, rfl, .inr ⟨hPc, hReject, hClear, rfl⟩⟩
  | _ => exact ⟨c', hCo', rfl, rfl, .inl hPc'⟩

omit [DecidableEq β] in
lemma mem_of_lookup {α : Type} {l : List (ι × α)} {v : α} (h : l.lookup k = some v) : (k, v) ∈ l := by
  induction l with
  | nil => cases h
  | cons e l ih =>
    obtain ⟨k', v'⟩ := e
    by_cases hk : k = k'
    · subst hk
      rw [lookup_cons_self] at h
      exact some.inj h ▸ mem_cons_self
    · rw [lookup_cons, beq_false_of_ne hk] at h
      exact mem_cons_of_mem _ (ih h)

/-- After a clear poll the coordinator holds everything below every member's
heads. -/
lemma pollClear_holds {c : Co ι β} (hSound : x.rep.AllSound D) (hReject : c.rejected = false)
    (hClear : x.pollClear c = true) (hm : m ∈ c.members) :
    ∃ q, (m, q) ∈ c.prepared ∧ q.ok = true ∧ ∀ h ∈ q.heads, ∀ a ∈ D.dag h, a ∈ blocks x.rep.ns := by
  simp only [pollClear, Bool.and_eq_true, Bool.not_eq_true', List.isEmpty_iff] at hClear
  obtain ⟨⟨⟨⟨hAll, -⟩, hGrew⟩, hMissing⟩, hQuiet⟩ := hClear
  obtain ⟨q, hq⟩ := isSome_iff_exists.mp (all_eq_true.mp hAll m hm)
  have hOk : q.ok = true := by
    have := any_eq_false.mp hReject m hm
    simpa [hq] using this
  refine ⟨q, mem_of_lookup hq, hOk, fun h hh a ha => ?_⟩
  -- the heads are in the union, nothing of the union is missing, the queue is empty
  have hIncoming : h ∈ c.incoming x.rep.heads := by
    refine mem_append_right _ (mem_flatMap.mpr ⟨m, hm, ?_⟩)
    rw [hq]
    simpa [hOk] using hh
  have hUnion : h ∈ c.union := by
    have := any_eq_false.mp hGrew h hIncoming
    simpa using this
  have hBlock : h ∈ blocks x.rep.ns := by
    by_contra hNot
    have hMem : h ∈ x.rep.missing (c.union' x.rep.heads) :=
      mem_filter.mpr ⟨mem_append_left _ hUnion, by simpa using hNot⟩
    rw [hMissing] at hMem
    cases hMem
  exact (hSound x.rep.part.gen).closed (isEmpty_iff.mp hQuiet) h hBlock a ha

end

/-- What the coordinators have collected. -/
structure Collected (D : Datastore β κ ν) (s : Sys ι β) : Prop where
  held : ∀ n c m q, (s.node n).co = some c → c.Holds m q →
    ∃ p ∈ s.net, p.src = m ∧ p.msg = .prepared c.round q
  cut : ∀ n c, (s.node n).co = some c → c.pc = .staging →
    ∀ m ∈ c.members, Confirmed D s c.round m (blocks (s.node n).rep.ns)
  staged : ∀ r g ms cut seeds, .staged r g ms cut seeds ∈ s.log → ∀ m ∈ ms, Confirmed D s r m (blocks cut)

section

variable [DecidableEq ι] [DecidableEq β] {members : ι → List ι} {K : Sys ι β → ι × Action ι β → Prop}
  {s : Sys ι β} {n : ι} {a : Action ι β} {o : Out ι β}

omit [DecidableEq β] in
lemma Confirmed.after (h : Confirmed D s r m bs) (hBlocks : ∀ b ∈ bs, b ∈ bs') :
    Confirmed D (s.after n o) r m bs' := by
  obtain ⟨p, hp, reply, hSrc, hMsg, hOk, hHeads⟩ := h
  exact ⟨p, mem_after_net.mpr (.inl hp), reply, hSrc, hMsg, hOk,
    fun h hh a ha => hBlocks a (hHeads h hh a ha)⟩

/-- While `Compact` is about to stage, its generation only gains blocks. -/
lemma staging_keeps (hWf : (s.node n).Wf n) (hWf' : o.node.Wf n) (hAct : (s.node n).act D n a = some o)
    (hCo : (s.node n).co = some c) (hPc : c.pc = .staging) (hCo' : o.node.co = some c')
    (hPc' : c'.pc = .staging) : ∀ b ∈ blocks (s.node n).rep.ns, b ∈ blocks o.node.rep.ns := by
  obtain ⟨ms, hDoes⟩ := act_does hAct
  obtain ⟨-, hFits⟩ := hWf.co c hCo
  obtain ⟨-, hFits'⟩ := hWf'.co c' hCo'
  rw [hPc] at hFits
  rw [hPc'] at hFits'
  have hBase : (s.node n).rep.part.base = (s.node n).rep.part.gen := by
    simp [base, hFits.2]
  have hBase' : o.node.rep.part.base = o.node.rep.part.gen := by
    simp [base, hFits'.2]
  have hGen : o.node.rep.part.gen = (s.node n).rep.part.gen := by
    cases hDoes.effect (hWf.learned ms) with
    | kept hGen => exact hGen
    | activated _ hRep => exact absurd (hRep.1.symm.trans hFits'.2) (by simp)
    | committed hBefore => exact absurd (hBefore.1.symm.trans hFits.2) (by simp)
    | rolledBack hBefore => exact absurd (hBefore.1.symm.trans hFits.2) (by simp)
  rcases hDoes.base (hWf.learned ms) with ⟨-, hBlocks⟩ | hLater
  · intro b hb
    rw [Replica.ns, hGen, ← hBase]
    exact hBlocks b (by rw [hBase]; exact hb)
  · have hLt : (s.node n).rep.part.base < o.node.rep.part.base := hLater
    omega

lemma collected_of_reach (hD : D.BatchSound) (h : Sys.Reaches D members K s) : Collected D s := by
  refine h.induct_does (I := Collected D) ⟨fun n c m q hCo => ?_, fun n c hCo => ?_,
    fun r g ms cut seeds he => ?_⟩ ?_
  · cases hCo
  · cases hCo
  · cases he
  rintro s n a o ms hReach hCollected - hReach' hRecv hAct hDoes
  have hWf := wf_of_reach hReach n
  have hWf' : o.node.Wf n := by
    have := wf_of_reach hReach' n
    rwa [after_node_self] at this
  refine ⟨?_, ?_, ?_⟩
  · -- held
    intro k c m q hCo hHolds
    by_cases hk : k = n
    · subst hk
      rw [after_node_self] at hCo
      rcases hDoes.holds hCo hHolds with ⟨c₀, hCo₀, hRound, hHolds₀⟩ | ⟨p, rfl, hSrc, hMsg⟩
      · obtain ⟨p, hp, hSrc, hMsg⟩ := hCollected.held k c₀ m q hCo₀ hHolds₀
        exact ⟨p, mem_after_net.mpr (.inl hp), hSrc, hRound ▸ hMsg⟩
      · exact ⟨p, mem_after_net.mpr (.inl (of_decide_eq_true hRecv).1), hSrc, hMsg⟩
    · rw [after_node_ne hk] at hCo
      obtain ⟨p, hp, hSrc, hMsg⟩ := hCollected.held k c m q hCo hHolds
      exact ⟨p, mem_after_net.mpr (.inl hp), hSrc, hMsg⟩
  · -- cut
    intro k c hCo hPc m hm
    by_cases hk : k = n
    · subst hk
      rw [after_node_self] at hCo ⊢
      obtain ⟨c₀, hCo₀, hRound, hMembers, hWhy⟩ := hDoes.staging hCo hPc
      rw [hRound]
      rw [hMembers] at hm
      rcases hWhy with hPc₀ | ⟨-, hReject, hClear, hRep⟩
      · exact (hCollected.cut k c₀ hCo₀ hPc₀ m hm).after
          (staging_keeps hWf hWf' hAct hCo₀ hPc₀ hCo hPc)
      · -- the clear poll: every member's answer is in the network
        obtain ⟨q, hq, hOk, hHeads⟩ :=
          pollClear_holds (sound_of_reach hD hReach k) hReject hClear hm
        obtain ⟨p, hp, hSrc, hMsg⟩ := hCollected.held k c₀ m q hCo₀ (.inr hq)
        rw [hRep]
        exact ⟨p, mem_after_net.mpr (.inl hp), q, hSrc, hMsg, hOk, hHeads⟩
    · rw [after_node_ne hk] at hCo ⊢
      exact (hCollected.cut k c hCo hPc m hm).after fun _ => id
  · -- staged
    intro r g mems cut seeds he m hm
    rcases mem_after_log.mp he with he | he
    · cases hDoes.logged he with
      | staged hCo hPc => exact (hCollected.cut n _ hCo hPc m hm).after fun _ => id
    · exact (hCollected.staged r g mems cut seeds he m hm).after fun _ => id

end

/-! ## No loss -/

section

variable [DecidableEq ι] [DecidableEq β] {members : ι → List ι} {s : Sys ι β}

lemma promised_of_reach (hD : D.BatchSound) (h : Sys.Reaches D members FirstPrepare s) : Promised D s := by
  refine h.induct (I := Promised D) ?_ ?_
  · refine ⟨fun p hp => ?_, fun n r he => ?_, fun n r hr => ?_, fun n r g he => ?_,
      fun n r g he => ?_, fun p hp => ?_, fun p hp => ?_, fun p hp => ?_⟩
    · cases hp
    · cases he
    · obtain ⟨-, st, hSt, -⟩ := hr
      cases hSt
    · cases he
    · cases he
    · cases hp
    · cases hp
    · cases hp
  · rintro s s' ⟨n, a⟩ hReach hPromised hFirst hStep
    have hReach' := hReach.next hFirst hStep
    obtain ⟨hRecv, o, hAct, rfl⟩ := step_eq hStep
    exact hPromised.step hD hReach hFirst hRecv hAct hReach'

/-- **No acknowledged write is lost.** In every run in which no node prepares
twice for one round, whatever the network does to the control messages and
whichever timeouts fire, a committed round was cut from a state that holds every
write its members had acknowledged before they switched. -/
theorem no_loss (hD : D.BatchSound) (h : Sys.Reaches D members FirstPrepare s) : NoLoss s := by
  intro r g ms cut seeds n m b hStaged _ hm hBefore
  obtain ⟨p, hp, reply, rfl, hMsg, hOk, hHeads⟩ :=
    (collected_of_reach hD h).staged r g ms cut seeds hStaged m hm
  obtain ⟨head, hHead, hDag⟩ :=
    (promised_of_reach hD h).switched p hp r reply hMsg hOk g b hBefore
  exact hHeads head hHead b hDag

end

/-! ## The member that comes back -/

private def lossRound : RoundId Nat := ⟨0, 1⟩

/-- Nodes 0 and 1 know each other. -/
private def lossMembers (n : Nat) : List Nat := if n = 0 then [1] else [0]

/-- Node 1 prepares for node 0's round, times out, acknowledges write 1, and is
frozen again by a `prepare` of the round that comes late; node 0, which has its
answers from the first time, cuts without the write. -/
private def lossRun : List (Nat × Action Nat Nat) :=
  [(0, .start 1 []), (0, .freeze), (1, .deliver ⟨0, .prepare lossRound [], none⟩),
    (0, .deliver ⟨1, .prepared lossRound { ok := true }, none⟩), (0, .take), (0, .poll false),
    (1, .deliver ⟨0, .prepare lossRound [], none⟩),
    (0, .deliver ⟨1, .prepared lossRound { ok := true }, none⟩), (0, .take), (0, .poll false),
    (1, .scan), (1, .abandon), (1, .beginWrite), (1, .write 1 [.block 1, .head 1]),
    (1, .deliver ⟨0, .prepare lossRound [], none⟩), (0, .stage), (0, .activate),
    (1, .deliver ⟨0, .switch lossRound 1 none, none⟩), (1, .seedSeen (lossRound, none)), (1, .seedArrived (lossRound, none)),
    (0, .deliver ⟨1, .ready lossRound { ok := true }, some (lossRound, 1)⟩), (0, .take),
    (0, .poll false), (0, .commit), (1, .deliver ⟨0, .done lossRound, some (lossRound, 1)⟩)]

/-- A member that is prepared twice in one round loses a write it has
acknowledged in between. -/
theorem reprepared_loses : ∃ s, Sys.Reaches plainStore lossMembers Anything s ∧ ¬ NoLoss s := by
  obtain ⟨s, hReach, hLog⟩ : ∃ s, Sys.Reaches plainStore lossMembers Anything s ∧
      s.log = [.committed 1 lossRound 1, .committed 0 lossRound 1] ++
        .activated 1 lossRound 1 :: [.activated 0 lossRound 1, .staged lossRound 0 [1] [] [],
          .prepared 1 lossRound, .acked 1 0 none 1, .prepared 1 lossRound] :=
    Reach.of_eval lossRun (by decide)
  refine ⟨s, hReach, fun hNoLoss => ?_⟩
  have hIn := hNoLoss lossRound 0 [1] [] [] 0 1 1 (by rw [hLog]; decide) (by rw [hLog]; decide)
    (by decide) ⟨_, _, none, hLog, by decide⟩
  cases hIn

/-- Node 1 acknowledges write 1, node 0 receives it, and the round is cut and
committed with it. -/
private def keptRun : List (Nat × Action Nat Nat) :=
  [(1, .beginWrite), (1, .write 1 [.block 1, .head 1]), (0, .recvData ⟨0, [1], none⟩),
    (0, .process [.block 1, .head 1] []), (0, .start 1 []), (0, .freeze),
    (1, .deliver ⟨0, .prepare lossRound [1], none⟩),
    (0, .deliver ⟨1, .prepared lossRound { ok := true, heads := [1] }, none⟩), (0, .take),
    (0, .poll false), (1, .deliver ⟨0, .prepare lossRound [1], none⟩),
    (0, .deliver ⟨1, .prepared lossRound { ok := true, heads := [1] }, none⟩), (0, .take),
    (0, .poll false), (0, .stage), (0, .activate),
    (1, .deliver ⟨0, .switch lossRound 1 (some 101), none⟩),
    (1, .recvData ⟨1, [101], some lossRound⟩), (1, .process [.block 101, .head 101] []),
    (1, .seedSeen (lossRound, some 101)), (1, .seedArrived (lossRound, some 101)),
    (0, .deliver ⟨1, .ready lossRound { ok := true }, some (lossRound, 1)⟩), (0, .take),
    (0, .poll false), (0, .commit)]

/-- A committed round with an acknowledged write. -/
theorem committed_keeps_write : ∃ s, Sys.Reaches plainStore lossMembers FirstPrepare s ∧
    .committed 0 lossRound 1 ∈ s.log ∧ AckedBefore s.log 1 lossRound 0 1 ∧ NoLoss s := by
  obtain ⟨s, hReach, hLog⟩ : ∃ s, Sys.Reaches plainStore lossMembers FirstPrepare s ∧
      s.log = [.committed 0 lossRound 1] ++ .activated 1 lossRound 1 ::
        [.activated 0 lossRound 1, .staged lossRound 0 [1] [.block 1, .head 1] [101],
          .prepared 1 lossRound, .acked 1 0 none 1] :=
    Reach.of_eval keptRun (by decide)
  exact ⟨s, hReach, by rw [hLog]; decide, ⟨_, _, none, hLog, by decide⟩, no_loss plainStore_batchSound hReach⟩

end RedGeo.Rotation
