import RedGeo.Rotation.Steps

/-!
# RedGeo — is a round over when it is over?

A participant that has handled the `abort` or `done` of a round should never
prepare for it again. `recvLoop` hands every message to a goroutine of its own
and the coordinator retransmits `prepare` on every poll, so a `prepare` can be
handled after the `abort` of its round; nothing the node keeps tells it that
the round is over.

* `Final` — along a run of the node, no step after the end of the round
  prepares for it again.
* `final_iff` — that is so exactly when every late `prepare` of the round meets
  a partition with a rotation in progress.
-/

namespace RedGeo.Rotation

open Lib Option

variable {ι β κ ν : Type} [DecidableEq ι] [DecidableEq β]

/-! ## Statement -/

namespace Node

/-- The node is recorded as prepared for the round. -/
def PreparedFor (x : Node ι β) (r : RoundId ι) : Prop :=
  ∃ st, x.st = some st ∧ st.round = some r ∧ st.phase = .prepared

/-- A rotation of the partition is in progress here: what `onPrepare` checks. -/
def Rotating (x : Node ι β) : Prop := x.st.isSome = true ∨ x.rep.part.inDoubt = true

/-- The node alone, as a system: any action may come, in any order. -/
def next (D : Datastore β κ ν) (self : ι) (x : Node ι β) (a : Action ι β) : Option (Node ι β) :=
  (x.act D self a).map Out.node

end Node

/-- The action handles the end of the round. -/
def Action.Ends (r : RoundId ι) : Action ι β → Prop
  | .deliver p => p.msg = .abort r ∨ p.msg = .done r
  | _ => False

/-- The step calls `Freeze` for the round, or newly records the node as prepared
for it. -/
def Prepares (r : RoundId ι) (x : Node ι β) (a : Action ι β) (o : Out ι β) : Prop :=
  (∃ p union, a = .deliver p ∧ p.msg = .prepare r union ∧ x.prepareCase r = .fresh) ∨
  (¬ x.PreparedFor r ∧ o.node.PreparedFor r)

/-- **Round finality** along the run of `as` from `x₀`: no step after the end of
the round prepares for it. -/
def Final (D : Datastore β κ ν) (self : ι) (r : RoundId ι) (x₀ : Node ι β)
    (as : List (Action ι β)) : Prop :=
  ∀ pre a post x o, as = pre ++ a :: post →
    runChecked (Node.next D self) Anything x₀ pre = some x → x.act D self a = some o →
    (∃ b ∈ pre, b.Ends r) → ¬ Prepares r x a o

/-! ## Who records a prepare -/

section

variable {D : Datastore β κ ν} {self : ι} {x : Node ι β} {r : RoundId ι}

omit [DecidableEq β] in
lemma prepareCase_fresh_iff : x.prepareCase r = .fresh ↔ ¬ x.Rotating := by
  unfold Node.prepareCase Node.Rotating
  cases hSt : x.st with
  | none => cases x.rep.part.inDoubt <;> simp
  | some st => by_cases h : st.round = some r ∧ st.phase = .prepared <;> simp [h]

/-- A node is newly recorded as prepared for somebody else's round only by the
branch of `onPrepare` that freezes. -/
lemma prepares_iff_fresh {a : Action ι β} {o : Out ι β} (hr : r.coord ≠ self) (h : x.act D self a = some o) :
    Prepares r x a o ↔ ∃ p union, a = .deliver p ∧ p.msg = .prepare r union ∧ ¬ x.Rotating := by
  have hFresh : (∃ p union, a = .deliver p ∧ p.msg = .prepare r union ∧ x.prepareCase r = .fresh) ↔
      ∃ p union, a = .deliver p ∧ p.msg = .prepare r union ∧ ¬ x.Rotating := by
    simp only [prepareCase_fresh_iff]
  rw [Prepares, hFresh]
  refine or_iff_left_of_imp ?_
  rintro ⟨hBefore, st, hSt, hRound, hPhase⟩
  obtain ⟨ms, hDoes⟩ := act_does h
  -- every case but `prepare` and `start` leaves the record as it was, clears it,
  -- or makes it one of the second phase
  cases hDoes with
  | side hRep hSt' => exact absurd ⟨st, hSt' ▸ hSt, hRound, hPhase⟩ hBefore
  | prepare hMsg hCo hCase =>
    rename_i p r' union
    have hIdle : ¬ x.Rotating := prepareCase_fresh_iff.mp hCase
    refine ⟨p, union, rfl, ?_, hIdle⟩
    rw [Node.onPrepare, hCase] at hSt
    simp only at hSt
    split at hSt
    · obtain rfl := some.inj hSt
      rw [hMsg, some.inj hRound]
    · exact absurd ⟨st, hSt, hRound, hPhase⟩ hBefore
  | switch hMsg hCo hSt' =>
    obtain rfl := some.inj hSt
    cases hPhase
  | crash =>
    simp only [Node.restart] at hSt
    split at hSt
    · obtain rfl := some.inj hSt
      cases hPhase
    · cases hSt
  | start =>
    obtain rfl := some.inj hSt
    exact absurd (congrArg RoundId.coord (some.inj hRound)).symm hr
  | finishCommit => cases hSt
  | finishRollback => cases hSt
  | commit => cases hSt
  | abort => cases hSt
  | _ =>
    exact absurd ⟨st, hSt, hRound, hPhase⟩ hBefore

end

/-! ## When a round is final -/

/-- **When a round is final.** Along any run of a participant, from any state,
the round stays over exactly when every `prepare` of it that is handled after
its `abort` or `done` meets a rotation in progress. -/
theorem final_iff (D : Datastore β κ ν) {self : ι} {r : RoundId ι} (hr : r.coord ≠ self) (x₀ : Node ι β)
    (as : List (Action ι β)) : Final D self r x₀ as ↔ ∀ pre p post x o union, as = pre ++ .deliver p :: post →
    runChecked (Node.next D self) Anything x₀ pre = some x → x.act D self (.deliver p) = some o →
    (∃ b ∈ pre, b.Ends r) → p.msg = .prepare r union → x.Rotating := by
  constructor
  · intro hFinal pre p post x o union hAs hRun hAct hEnd hMsg
    by_contra hIdle
    exact hFinal pre _ post x o hAs hRun hAct hEnd
      ((prepares_iff_fresh hr hAct).mpr ⟨p, union, rfl, hMsg, hIdle⟩)
  · intro hBusy pre a post x o hAs hRun hAct hEnd hPrepares
    obtain ⟨p, union, rfl, hMsg, hIdle⟩ := (prepares_iff_fresh hr hAct).mp hPrepares
    exact hIdle (hBusy pre p post x o union hAs hRun hAct hEnd hMsg)

/-! ## The late prepare -/

/-- Two nodes that know each other. -/
private def twoNodes : Sys Nat Nat := Sys.init fun n => if n = 0 then [1] else [0]

private def latePrepare : Action Nat Nat := .deliver ⟨0, .prepare ⟨0, 1⟩ [], none⟩

private def lateAbort : Action Nat Nat := .deliver ⟨0, .abort ⟨0, 1⟩, none⟩

/-- Node 0 starts a round and gives it up; node 1 handles its `prepare`, its
`abort`, and the retransmitted `prepare`. -/
private def lateRun : List (Nat × Action Nat Nat) :=
  [(0, .start 1 []), (0, .freeze), (1, latePrepare), (0, .cancel), (0, .abort), (0, .unwind),
    (1, lateAbort), (1, latePrepare)]

/-- A `prepare` handled after the `abort` of its round freezes the partition
again, with nobody left to end the round. -/
theorem late_prepare_freezes :
    ¬ Final plainStore 1 ⟨0, 1⟩ (twoNodes.node 1) [latePrepare, lateAbort, latePrepare] ∧ ∃ s,
    runChecked (Sys.step plainStore) Anything twoNodes lateRun = some s ∧ (s.node 0).co = none ∧
    (s.node 1).PreparedFor ⟨0, 1⟩ ∧ (s.node 1).rep.part.gate.frozen = true := by
  constructor
  · intro hFinal
    refine hFinal [latePrepare, lateAbort] latePrepare [] _ _ rfl rfl rfl
      ⟨lateAbort, by simp, .inl rfl⟩ (.inl ⟨_, [], rfl, rfl, rfl⟩)
  · exact ⟨_, rfl, rfl, ⟨_, rfl, rfl, rfl⟩, rfl⟩

/-- A node prepared for the round after the one that ended. -/
private def nextRound : Node Nat Nat :=
  { st := some { round := some ⟨0, 2⟩, phase := .prepared } }

/-- A late `prepare` of one round that meets the next one in progress. -/
theorem final_when_rotating : Final plainStore 1 ⟨0, 1⟩ nextRound [lateAbort, latePrepare] := by
  refine (final_iff plainStore (by decide) _ _).mpr ?_
  intro pre p post x o union hAs hRun _ hEnd _
  rcases pre with _ | ⟨a, _ | ⟨b, pre⟩⟩
  · obtain ⟨b, hb, _⟩ := hEnd
    cases hb
  · obtain rfl : a = lateAbort := (List.cons.inj hAs).1.symm
    obtain rfl := some.inj hRun
    exact .inl rfl
  · simp at hAs

end RedGeo.Rotation
