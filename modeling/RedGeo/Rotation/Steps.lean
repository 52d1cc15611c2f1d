import RedGeo.Rotation.Cluster

/-!
# RedGeo — everything a node can do

`Does D self x a o` says, case by case, how action `a` can take node `x` to the
outcome `o`. `act_does` is the inversion of `Node.act`: every action of a node
is one of these cases (after it has learned the sender of a message). The
invariants of the following modules are case analyses over `Does` and never
unfold a handler.

The case `side` covers everything that changes neither the replica nor the
state of a round.
-/

namespace RedGeo.Rotation

open Option

variable {ι β κ ν : Type} [DecidableEq ι] [DecidableEq β]
variable {p : Packet ι β} {c : Co ι β} (self : ι) (y : Node ι β)

/-- Messages that promise nothing. -/
def Msg.Plain : Msg ι β → Prop
  | .hello | .status _ | .ready _ _ => True
  | .prepared _ r => r.ok = false
  | _ => False

/-- What `finish` was called for, with the decision to commit or not. -/
inductive Verdict (self : ι) (x : Node ι β) : Action ι β → Bool → Prop
  | done {p : Packet ι β} {r : RoundId ι} {st : PState ι β} (hMsg : p.msg = .done r)
      (hSt : x.st = some st) (hRound : st.round = some r) : Verdict self x (.deliver p) true
  | abort {p : Packet ι β} {r : RoundId ι} {st : PState ι β} (hMsg : p.msg = .abort r)
      (hSt : x.st = some st) (hRound : st.round = some r) : Verdict self x (.deliver p) false
  | stale {st : PState ι β} {round : Option (RoundId ι)} (hStale : x.stale = some round)
      (hSt : x.st = some st) (hRound : round = none ∨ st.round = round) :
      Verdict self x .abandon false
  | idle {p : Packet ι β} {gen : Nat} {st : PState ι β} (hMsg : p.msg = .outcome gen .idle)
      (hSt : x.st = some st) (hPhase : st.phase = .switched) :
      Verdict self x (.deliver p) (decide (x.rep.part.gen ≤ gen))
  | allInDoubt {p : Packet ι β} {gen : Nat} {st : PState ι β}
      (hMsg : p.msg = .outcome gen .indoubt) (hSt : x.st = some st)
      (hPhase : st.phase = .switched)
      (hAll : { x with replies := x.replies.map ((p.src, gen, .indoubt) :: ·) }.allInDoubt = true) :
      Verdict self x (.deliver p) false

/-- Every case of an action. -/
inductive Does (D : Datastore β κ ν) (self : ι) (x : Node ι β) : Action ι β → Out ι β → Prop
  | side {a : Action ι β} {x' : Node ι β} {send : List (Msg ι β)}
      (hRep : x'.rep = x.rep) (hSt : x'.st = x.st) (hCo : x'.co = x.co)
      (hReads : x'.reads = x.reads) (hNano : x'.nano = x.nano) (hSeen : x'.seen = x.seen)
      (hSend : ∀ m ∈ send, m.Plain) : Does D self x a { node := x', send := send }
  | answer {p : Packet ι β} {gen : Nat} (hMsg : p.msg = .status gen) (hCo : x.co = none) :
      Does D self x (.deliver p) x.onStatus
  | reply {p : Packet ι β} {r : RoundId ι} {union : List β} {st : PState ι β}
      (hMsg : p.msg = .prepare r union) (hCo : x.co = none) (hSt : x.st = some st)
      (hRound : st.round = some r) (hPhase : st.phase = .prepared) :
      Does D self x (.deliver p) { node := x, send := [.prepared r (x.preparedReply union)] }
  | prepare {p : Packet ι β} {r : RoundId ι} {union : List β} (hMsg : p.msg = .prepare r union)
      (hCo : x.co = none) (hCase : x.prepareCase r = .fresh) :
      Does D self x (.deliver p) (x.onPrepare self r union)
  | switch {p : Packet ι β} {r : RoundId ι} {gen : Nat} {genesis : Option β} {st : PState ι β}
      (hMsg : p.msg = .switch r gen genesis) (hCo : x.co = none) (hSt : x.st = some st)
      (hRound : st.round = some r) (hPhase : st.phase = .prepared)
      (hDoubt : x.rep.part.inDoubt = false) :
      Does D self x (.deliver p)
        { node := { x with
            rep := x.rep.stageEmpty.activate r genesis true
            st := some { st with phase := .switched, genesis := genesis }
            waits := (r, genesis) :: x.waits }
          log := [.activated self r (x.rep.part.gen + 1)] }
  | finishCommit {a : Action ι β} {replies : Option (List (ι × Nat × PeerState))}
      {stale : Option (Option (RoundId ι))} {st : PState ι β} (hCo : x.co = none)
      (hVerdict : Verdict self x a true) (hSt : x.st = some st) (hPhase : st.phase = .switched) :
      Does D self x a
        { node := { x with
            st := none
            replies := replies
            stale := stale
            rep := x.rep.commit.unfreeze }
          log := x.rep.commitLog self }
  | finishRollback {a : Action ι β} {replies : Option (List (ι × Nat × PeerState))}
      {stale : Option (Option (RoundId ι))} {st : PState ι β} {b : Bool} (hCo : x.co = none)
      (hVerdict : Verdict self x a b) (hSt : x.st = some st)
      (hNot : b = false ∨ st.phase = .prepared) :
      Does D self x a
        { node := { x with
            st := none
            replies := replies
            stale := stale
            rep := x.rep.rollback.unfreeze }
          log := x.rep.rollbackLog self }
  | seedSeen {w : RoundId ι × Option β} (hSeed : ∀ b ∈ w.2, b ∈ x.rep.heads) :
      Does D self x (.seedSeen w) { node := { x with waits := x.waits.erase w, seen := w :: x.seen } }
  | seedArrived {w : RoundId ι × Option β} (hMem : w ∈ x.seen) :
      Does D self x (.seedArrived w)
        { node := { x with
            seen := x.seen.erase w
            rep := { x.rep with
              part := { x.rep.part with gate := x.rep.part.gate.setBlockReads false } } }
          send := [.ready w.1 { ok := true }] }
  | crash : Does D self x .crash { node := x.restart }
  | start {nano : Nat} {observed : List ι} (hCo : x.co = none) (hNano : x.nano < nano)
      (hSt : x.st = none) (hDoubt : x.rep.part.inDoubt = false) :
      Does D self x (.start nano observed)
        { node := { x with
            nano := nano
            st := some { round := some ⟨self, nano⟩, phase := .prepared, mine := true }
            co := some { round := ⟨self, nano⟩, members := x.members } } }
  | recv {p : Packet ι β} {c : Co ι β} {reply : Prepared β ⊕ Ready} (hCo : x.co = some c)
      (hMsg : (∃ q, reply = .inl q ∧ p.msg = .prepared c.round q) ∨
        ∃ q, reply = .inr q ∧ p.msg = .ready c.round q) :
      Does D self x (.deliver p)
        { node := { x with co := some { c with chan := c.chan ++ [(p.src, reply)] } } }
  | freeze {c : Co ι β} (hCo : x.co = some c) (hPc : c.pc = .freezing)
      (hOk : x.rep.freeze.2 = true) :
      Does D self x .freeze
        { node := { x with
            rep := x.rep.freeze.1
            co := some { c with pc := .preparing, union := x.rep.heads } }
          send := [.prepare c.round x.rep.heads] }
  | freezeFail {c : Co ι β} (hCo : x.co = some c) (hPc : c.pc = .freezing) :
      Does D self x .freeze
        { node := { x with rep := x.rep.freeze.1, co := some { c with pc := .failing } } }
  | takePrepared {c : Co ι β} {id : ι} {r : Prepared β}
      {rest : List (ι × (Prepared β ⊕ Ready))} (hCo : x.co = some c) (hPc : c.pc = .preparing)
      (hChan : c.chan = (id, .inl r) :: rest) :
      Does D self x .take
        { node := { x with co := some { c with chan := rest, prepared := (id, r) :: c.prepared } } }
  | takeReady {c : Co ι β} {genesis : Option β} {id : ι} {r : Ready}
      {rest : List (ι × (Prepared β ⊕ Ready))} (hCo : x.co = some c)
      (hPc : c.pc = .switching genesis) (hChan : c.chan = (id, .inr r) :: rest) :
      Does D self x .take
        { node := { x with co := some { c with chan := rest, ready := (id, r) :: c.ready } } }
  | takeOther {c : Co ι β} {q : ι × (Prepared β ⊕ Ready)}
      {rest : List (ι × (Prepared β ⊕ Ready))} (hCo : x.co = some c) (hChan : c.chan = q :: rest) :
      Does D self x .take { node := { x with co := some { c with chan := rest } } }
  | again {c : Co ι β} {timeout : Bool} {stable : Nat} (hCo : x.co = some c)
      (hPc : c.pc = .preparing) (hReject : c.rejected = false)
      (hStable : stable = 0 ∨ (stable = c.stable + 1 ∧ x.pollClear c = true)) :
      Does D self x (.poll timeout)
        { node := { x with
            co := some { c with
              union := c.union' x.rep.heads, stable := stable, prepared := [] } }
          send := [.prepare c.round (c.union' x.rep.heads)] }
  | converged {c : Co ι β} {timeout : Bool} (hCo : x.co = some c) (hPc : c.pc = .preparing)
      (hReject : c.rejected = false) (hClear : x.pollClear c = true) (hStable : 1 ≤ c.stable) :
      Does D self x (.poll timeout)
        { node := { x with
            co := some { c with
              pc := .staging, union := c.union' x.rep.heads, stable := c.stable + 1 } } }
  | allReady {c : Co ι β} {genesis : Option β} {timeout : Bool} (hCo : x.co = some c)
      (hPc : c.pc = .switching genesis) (hFailed : c.switchFailed = false)
      (hReady : c.allReady = true) :
      Does D self x (.poll timeout)
        { node := { x with co := some { c with pc := .committing, activated := false } }
          send := [.done c.round] }
  | resend {c : Co ι β} {genesis : Option β} {timeout : Bool} (hCo : x.co = some c)
      (hPc : c.pc = .switching genesis) :
      Does D self x (.poll timeout)
        { node := x, send := [.switch c.round x.rep.part.gen genesis] }
  | fail {a : Action ι β} {c : Co ι β} (hCo : x.co = some c)
      (hPc : c.pc = .freezing ∨ c.pc = .preparing ∨ c.pc = .staging ∨ ∃ genesis, c.pc = .switching genesis) :
      Does D self x a { node := { x with co := some { c with pc := .failing } } }
  | stage {c : Co ι β} (hCo : x.co = some c) (hPc : c.pc = .staging)
      (hDoubt : x.rep.part.inDoubt = false) :
      Does D self x .stage
        { node := { x with
            rep := x.rep.stageSeeded D
            co := some { c with pc := .activating (x.rep.genesis D) } }
          data := [⟨x.rep.part.gen + 1,
            heads ((x.rep.stageSeeded D).disk.ns (x.rep.part.gen + 1)), some c.round⟩]
          log := [.staged c.round x.rep.part.gen c.members x.rep.ns
            (blocks ((x.rep.stageSeeded D).disk.ns (x.rep.part.gen + 1)))] }
  | activate {c : Co ι β} {genesis : Option β} (hCo : x.co = some c)
      (hPc : c.pc = .activating genesis) :
      Does D self x .activate
        { node := { x with
            rep := x.rep.activate c.round genesis false
            co := some { c with pc := .switching genesis, activated := true } }
          send := [.switch c.round (x.rep.activate c.round genesis false).part.gen genesis]
          log := [.activated self c.round (x.rep.activate c.round genesis false).part.gen] }
  | commit {c : Co ι β} (hCo : x.co = some c) (hPc : c.pc = .committing) :
      Does D self x .commit
        { node := { x with st := none, co := none, rep := x.rep.commit.unfreeze }
          log := x.rep.commitLog self }
  | abort {c : Co ι β} (hCo : x.co = some c) (hPc : c.pc = .failing) :
      Does D self x .abort
        { node := { x with st := none, co := some { c with pc := .unwinding } }
          send := [.abort c.round] }
  | unwind {c : Co ι β} (hCo : x.co = some c) (hPc : c.pc = .unwinding)
      (hAct : c.activated = true) :
      Does D self x .unwind
        { node := { x with co := none, rep := x.rep.rollback.unfreeze }
          log := x.rep.rollbackLog self }
  | unwindIdle {c : Co ι β} (hCo : x.co = some c) (hPc : c.pc = .unwinding)
      (hAct : c.activated = false) :
      Does D self x .unwind { node := { x with co := none, rep := x.rep.unfreeze } }
  | readGate (hOpen : x.rep.part.gate.blockReads = false) :
      Does D self x .readGate { node := { x with reads := x.reads + 1 } }
  | readServe (hReads : 0 < x.reads) :
      Does D self x .readServe
        { node := { x with reads := x.reads - 1 }
          log := [.served self x.rep.part.gen (x.rep.holdsSeed D x.rep.part.gen)] }
  | beginWrite (hFrozen : x.rep.part.gate.frozen = false) :
      Does D self x .beginWrite
        { node := { x with
            rep := { x.rep with
              part := { x.rep.part with
                gate := { x.rep.part.gate with inflight := x.rep.part.gate.inflight + 1 } } } } }
  | write {b : β} {es : List (NsEntry β)} (hInflight : 0 < x.rep.part.gate.inflight)
      (hAdv : Advances D x.rep.ns (x.rep.jobs x.rep.part.gen) [b] es
        (x.rep.jobs x.rep.part.gen)) :
      Does D self x (.write b es)
        { node := { x with
            rep := { x.rep with
              part := { x.rep.part with gate := x.rep.part.gate.endWrite }
              disk := x.rep.disk.setNs x.rep.part.gen es } }
          data := [⟨x.rep.part.gen, heads es, (x.rep.origin x.rep.part.gen).map Prod.fst⟩]
          log := [.acked self x.rep.part.gen
            ((x.rep.origin x.rep.part.gen).map Prod.fst) b] }
  | recvData {d : DataMsg ι β} (hGen : d.gen = x.rep.part.gen) :
      Does D self x (.recvData d)
        { node := { x with
            rep := { x.rep with
              jobs := Function.update x.rep.jobs x.rep.part.gen
                (x.rep.jobs x.rep.part.gen ++ d.heads) } } }
  | process {es : List (NsEntry β)} {jobs : List β}
      (hAdv : Advances D x.rep.ns (x.rep.jobs x.rep.part.gen) [] es jobs) :
      Does D self x (.process es jobs)
        { node := { x with
            rep := { x.rep with
              disk := x.rep.disk.setNs x.rep.part.gen es
              jobs := Function.update x.rep.jobs x.rep.part.gen jobs } } }
  | rebroadcast : Does D self x .rebroadcast x.rebroadcast

/-! ## Inversion of the handlers -/

/-- The node after it has learned of the members an action tells it of. -/
def Node.learned (self : ι) (x : Node ι β) : Action ι β → Node ι β
  | .deliver p => x.learn self p.src
  | .start _ observed => observed.foldl (learn self) x
  | _ => x

section

omit [DecidableEq β]

lemma learn_members (id : ι) : ∃ ms, y.learn self id = { y with members := ms } := by
  unfold Node.learn
  split
  · exact ⟨y.members, rfl⟩
  · exact ⟨_, rfl⟩

lemma foldl_learn_members (ids : List ι) (y : Node ι β) :
    ∃ ms, ids.foldl (Node.learn self) y = { y with members := ms } := by
  induction ids generalizing y with
  | nil => exact ⟨y.members, rfl⟩
  | cons id ids ih =>
    obtain ⟨ms, h⟩ := learn_members self y id
    obtain ⟨ms', h'⟩ := ih { y with members := ms }
    exact ⟨ms', by rw [List.foldl_cons, h, h']⟩

lemma learned_members (a : Action ι β) : ∃ ms, y.learned self a = { y with members := ms } := by
  cases a with
  | deliver p => exact learn_members self y p.src
  | start nano observed => exact foldl_learn_members self observed y
  | _ => exact ⟨y.members, rfl⟩

end

section

omit [DecidableEq β]

variable (self : ι) (y : Node ι β) (a : Action ι β)

@[simp] lemma learned_rep : (y.learned self a).rep = y.rep := by
  obtain ⟨ms, h⟩ := learned_members self y a
  rw [h]

@[simp] lemma learned_st : (y.learned self a).st = y.st := by
  obtain ⟨ms, h⟩ := learned_members self y a
  rw [h]

@[simp] lemma learned_co : (y.learned self a).co = y.co := by
  obtain ⟨ms, h⟩ := learned_members self y a
  rw [h]

@[simp] lemma learned_stale : (y.learned self a).stale = y.stale := by
  obtain ⟨ms, h⟩ := learned_members self y a
  rw [h]

@[simp] lemma learned_replies : (y.learned self a).replies = y.replies := by
  obtain ⟨ms, h⟩ := learned_members self y a
  rw [h]

end

section

variable {D : Datastore β κ ν} {self : ι} {x : Node ι β}

/-- A step that changes no more than the node's bookkeeping. -/
lemma Does.quiet (hSend : ∀ m ∈ send, m.Plain) : Does D self x a { node := x, send := send } :=
  .side rfl rfl rfl rfl rfl rfl hSend

lemma onPrepare_does (hMsg : p.msg = .prepare r union) (hCo : x.co = none) :
    Does D self x (.deliver p) (x.onPrepare self r union) := by
  cases hCase : x.prepareCase r with
  | fresh => exact .prepare hMsg hCo hCase
  | busy =>
    rw [Node.onPrepare, hCase]
    exact .quiet (by simp [Msg.Plain])
  | retransmit =>
    rw [Node.onPrepare, hCase]
    -- this case is taken by a node that is prepared in the same round
    unfold Node.prepareCase at hCase
    split at hCase
    · next st hSt =>
      split at hCase
      · next h => exact .reply hMsg hCo hSt h.1 h.2
      · cases hCase
    · split at hCase <;> cases hCase

lemma onSwitch_does (hMsg : p.msg = .switch r gen genesis)
    (hCo : x.co = none) : Does D self x (.deliver p) (x.onSwitch self r genesis) := by
  unfold Node.onSwitch
  split
  · exact .quiet (by simp [Msg.Plain])
  · next st hSt =>
    split
    · exact .quiet (by simp [Msg.Plain])
    · next hRound =>
      have hRound : st.round = some r := by simpa using hRound
      split
      · next hPhase =>
        split
        · exact .quiet (by simp [Msg.Plain])
        · next hDoubt => exact .switch hMsg hCo hSt hRound hPhase (by simpa using hDoubt)
      · next hPhase =>
        -- a repeated `switch` starts one more goroutine that waits for the seed
        exact .side rfl rfl rfl rfl rfl rfl (by simp)

/-- `finish` on a node that differs from `x` only in its bookkeeping. -/
lemma finish_does {round : Option (RoundId ι)} (hCo : x.co = none)
    (hVerdict : ∀ st, x.st = some st → (round = none ∨ st.round = round) → Verdict self x a b) : Does D self x
    a ({ x with replies := replies, stale := stale }.finish self round b) := by
  have hSide : Does D self x a { node := { x with replies := replies, stale := stale } } :=
    .side rfl rfl rfl rfl rfl rfl (by simp)
  unfold Node.finish
  split
  · exact hSide
  · next st hSt =>
    split
    · exact hSide
    · next hRound =>
      have hRound : round = none ∨ st.round = round := by
        rcases Decidable.em (round = none) with h | h
        · exact .inl h
        · exact .inr (Decidable.of_not_not fun h' => hRound ⟨h, h'⟩)
      split
      · next h =>
        obtain ⟨rfl, hPhase⟩ := h
        exact .finishCommit hCo (hVerdict st hSt hRound) hSt hPhase
      · next h =>
        refine .finishRollback hCo (hVerdict st hSt hRound) hSt ?_
        cases b with
        | false => exact .inl rfl
        | true =>
          refine .inr ?_
          cases hPhase : st.phase with
          | prepared => rfl
          | switched => exact absurd ⟨rfl, hPhase⟩ h

lemma onOutcome_does (hMsg : p.msg = .outcome gen state) (hCo : x.co = none) :
    Does D self x (.deliver p) (x.onOutcome self p.src gen state) := by
  unfold Node.onOutcome
  split
  · exact .quiet (by simp)
  · next st hSt =>
    split
    · exact .quiet (by simp)
    · next hPhase =>
      have hPhase : st.phase = .switched := by
        cases h : st.phase with
        | prepared => exact absurd h hPhase
        | switched => rfl
      have hSame : ∀ {st'}, x.st = some st' → st'.phase = .switched := by
        intro st' h
        rw [hSt, some.injEq] at h
        exact h ▸ hPhase
      cases state with
      | idle => exact finish_does hCo fun st' h _ => .idle hMsg h (hSame h)
      | indoubt =>
        simp only
        split
        · next hAll => exact finish_does hCo fun st' h _ => .allInDoubt hMsg h (hSame h) hAll
        · exact .side rfl rfl rfl rfl rfl rfl (by simp)

lemma recvReply_does
    (hMsg : (∃ q, reply = .inl q ∧ p.msg = .prepared r q) ∨ ∃ q, reply = .inr q ∧ p.msg = .ready r q) :
    Does D self x (.deliver p) { node := x.recvReply p.src r reply } := by
  unfold Node.recvReply
  split
  · next c hCo =>
    split
    · next h =>
      refine .recv hCo ?_
      rw [h.1]
      exact hMsg
    · exact .quiet (by simp)
  · exact .quiet (by simp)

lemma handle_does (h : x.handle self p.src p.msg = some o) :
    Does D self (x.learn self p.src) (.deliver p) o := by
  unfold Node.handle at h
  simp only at h
  split at h
  · obtain rfl := some.inj h
    exact .quiet (by simp)
  · next r q hMsg =>
    obtain rfl := some.inj h
    exact recvReply_does (.inl ⟨q, rfl, hMsg⟩)
  · next r q hMsg =>
    obtain rfl := some.inj h
    exact recvReply_does (.inr ⟨q, rfl, hMsg⟩)
  · split at h
    · cases h
    · next hCo =>
      have hCo : (x.learn self p.src).co = none := by simpa using hCo
      obtain rfl := some.inj h
      cases hMsg : p.msg with
      | prepare r union => exact onPrepare_does hMsg hCo
      | switch r gen genesis => exact onSwitch_does hMsg hCo
      | done r =>
        refine finish_does hCo fun st hSt hRound => .done hMsg hSt ?_
        rcases hRound with hRound | hRound
        · cases hRound
        · exact hRound
      | abort r =>
        refine finish_does hCo fun st hSt hRound => .abort hMsg hSt ?_
        rcases hRound with hRound | hRound
        · cases hRound
        · exact hRound
      | status gen => exact .answer hMsg hCo
      | outcome gen state => exact onOutcome_does hMsg hCo
      | hello => exact .quiet (by simp)
      | prepared r q => exact .quiet (by simp)
      | ready r q => exact .quiet (by simp)

/-! ## Inversion of the coordinator's steps -/

lemma compactStart_does (h : x.compactStart self nano observed = some o) :
    Does D self (observed.foldl (Node.learn self) x) (.start nano observed) o := by
  obtain ⟨ms, hLearn⟩ := foldl_learn_members self observed x
  unfold Node.compactStart at h
  split at h
  · next hGuard =>
    simp only at h
    split at h
    · obtain rfl := some.inj h
      exact .quiet (by simp)
    · next hBusy =>
      obtain rfl := some.inj h
      rw [Bool.not_eq_true, Bool.or_eq_false_iff] at hBusy
      refine .start ?_ ?_ (by simpa using hBusy.1) hBusy.2
      · rw [hLearn]
        simpa using hGuard.1
      · rw [hLearn]
        exact hGuard.2
  · cases h

variable (hCo : x.co = some c)

include hCo

lemma compactTake_does (h : x.compactTake c = some o) : Does D self x .take o := by
  unfold Node.compactTake at h
  split at h
  · cases h
  · next id r rest hChan =>
    split at h
    · next hPc =>
      split at h
      · cases h
      · obtain rfl := some.inj h
        exact .takePrepared hCo hPc hChan
    · next hPc =>
      split at h
      · cases h
      · obtain rfl := some.inj h
        exact .takeReady hCo hPc hChan
    · obtain rfl := some.inj h
      exact .takeOther hCo hChan
    · obtain rfl := some.inj h
      exact .takeOther hCo hChan
    · cases h

lemma compactPoll_does (h : x.compactPoll c timeout = some o) : Does D self x (.poll timeout) o := by
  unfold Node.compactPoll at h
  split at h
  · next hPc =>
    obtain rfl := some.inj h
    unfold Node.pollPrepared
    simp only
    split
    · exact .fail hCo (.inr (.inl hPc))
    · next hReject =>
      have hReject : c.rejected = false := by simpa using hReject
      split
      · next hClear =>
        split
        · next hStable => exact .converged hCo hPc hReject hClear (by omega)
        · exact .again hCo hPc hReject (.inr ⟨rfl, hClear⟩)
      · split
        · exact .fail hCo (.inr (.inl hPc))
        · exact .again hCo hPc hReject (.inl rfl)
  · next genesis hPc =>
    obtain rfl := some.inj h
    unfold Node.pollReady
    split
    · exact .fail hCo (.inr (.inr (.inr ⟨genesis, hPc⟩)))
    · next hFailed =>
      split
      · next hReady => exact .allReady hCo hPc (by simpa using hFailed) hReady
      · split
        · exact .fail hCo (.inr (.inr (.inr ⟨genesis, hPc⟩)))
        · exact .resend hCo hPc
  · cases h

lemma compactFreeze_does (h : x.compactFreeze c = some o) : Does D self x .freeze o := by
  unfold Node.compactFreeze at h
  split at h
  · next hPc =>
    split at h <;> obtain rfl := some.inj h
    · next hOk => exact .freeze hCo hPc hOk
    · exact .freezeFail hCo hPc
  · cases h

lemma compactStage_does (h : x.compactStage D c = some o) : Does D self x .stage o := by
  unfold Node.compactStage at h
  split at h
  · next hPc =>
    split at h <;> obtain rfl := some.inj h
    · exact .fail hCo (.inr (.inr (.inl hPc)))
    · next hDoubt => exact .stage hCo hPc (by simpa using hDoubt)
  · cases h

lemma compactActivate_does (h : x.compactActivate self c = some o) : Does D self x .activate o := by
  unfold Node.compactActivate at h
  split at h
  · next hPc =>
    obtain rfl := some.inj h
    exact .activate hCo hPc
  · cases h

lemma compactCommit_does (h : x.compactCommit self c = some o) : Does D self x .commit o := by
  unfold Node.compactCommit at h
  split at h
  · next hPc =>
    obtain rfl := some.inj h
    exact .commit hCo hPc
  · cases h

lemma compactCancel_does (h : x.compactCancel c = some o) : Does D self x .cancel o := by
  unfold Node.compactCancel at h
  split at h
  · next hPc => exact some.inj h ▸ .fail hCo (.inl hPc)
  · next hPc => exact some.inj h ▸ .fail hCo (.inr (.inl hPc))
  · next hPc => exact some.inj h ▸ .fail hCo (.inr (.inr (.inr ⟨_, hPc⟩)))
  · cases h

lemma compactAbort_does (h : x.compactAbort c = some o) : Does D self x .abort o := by
  unfold Node.compactAbort at h
  split at h
  · next hPc =>
    obtain rfl := some.inj h
    exact .abort hCo hPc
  · cases h

lemma compactUnwind_does (h : x.compactUnwind self c = some o) : Does D self x .unwind o := by
  unfold Node.compactUnwind at h
  split at h
  · next hPc =>
    split at h <;> obtain rfl := some.inj h
    · next hAct => exact .unwind hCo hPc hAct
    · next hAct => exact .unwindIdle hCo hPc (by simpa using hAct)
  · cases h

omit hCo

/-! ## Inversion of the watchdog, clients and the datastore -/

lemma scan_does : Does D self x .scan { node := x.scan } := by
  unfold Node.scan
  repeat' split
  all_goals exact .side rfl rfl rfl rfl rfl rfl (by simp)

lemma ask_does : Does D self x .ask x.ask := by
  unfold Node.ask
  split
  · exact .side rfl rfl rfl rfl rfl rfl (by simp [Msg.Plain])
  · exact .quiet (by simp)

lemma abandon_does (hCo : x.co = none) : Does D self x .abandon (x.abandon self) := by
  unfold Node.abandon
  split
  · exact .quiet (by simp)
  · next round hStale =>
    exact finish_does hCo fun st hSt hRound => .stale hStale hSt hRound

lemma seedSeen_does (h : x.seedSeen w = some o) : Does D self x (.seedSeen w) o := by
  unfold Node.seedSeen at h
  split at h
  · next hGuard =>
    obtain rfl := some.inj h
    exact .seedSeen hGuard.2
  · cases h

lemma seedArrived_does (h : x.seedArrived w = some o) : Does D self x (.seedArrived w) o := by
  unfold Node.seedArrived at h
  split at h
  · next hGuard =>
    obtain rfl := some.inj h
    exact .seedArrived hGuard
  · cases h

lemma seedTimeout_does (h : x.seedTimeout w = some o) : Does D self x (.seedTimeout w) o := by
  unfold Node.seedTimeout at h
  split at h
  · obtain rfl := some.inj h
    exact .side rfl rfl rfl rfl rfl rfl
      (by simp [Msg.Plain])
  · cases h

lemma readGate_does (h : x.readGate = some o) : Does D self x .readGate o := by
  unfold Node.readGate at h
  split at h
  · next hOpen =>
    obtain rfl := some.inj h
    exact .readGate (by simpa [Engine.Gate.readable] using hOpen)
  · cases h

lemma readServe_does (h : x.readServe self D = some o) : Does D self x .readServe o := by
  unfold Node.readServe at h
  split at h
  · next hReads =>
    obtain rfl := some.inj h
    exact .readServe hReads
  · cases h

lemma beginWrite_does (h : x.beginWrite = some o) : Does D self x .beginWrite o := by
  simp only [Node.beginWrite, Engine.Gate.beginWrite] at h
  split at h
  · cases h
  · next hFrozen =>
    obtain rfl := some.inj h
    exact .beginWrite (by simpa using hFrozen)

lemma write_does (h : x.write D self b es = some o) : Does D self x (.write b es) o := by
  simp only [Node.write] at h
  split at h
  · next hGuard =>
    obtain rfl := some.inj h
    exact .write hGuard.1 hGuard.2
  · cases h

lemma recvData_does : Does D self x (.recvData d) (x.recvData d) := by
  unfold Node.recvData
  simp only
  split
  · next hGen => exact .recvData hGen
  · -- a broadcast of another generation is dropped
    exact .quiet (by simp)

lemma process_does (h : x.process D es jobs = some o) : Does D self x (.process es jobs) o := by
  simp only [Node.process] at h
  split at h
  · next hAdv =>
    obtain rfl := some.inj h
    exact .process hAdv
  · cases h

/-! ## Inversion of an action -/

/-- **Inversion of an action.** Whatever a node does is one of the cases of
`Does`, after it has learned of the members the action tells it of. -/
theorem act_does_learned (h : x.act D self a = some o) : Does D self (x.learned self a) a o := by
  cases a with
  | deliver p => exact handle_does h
  | start nano observed => exact compactStart_does h
  -- the steps of a running `Compact`
  | freeze =>
    obtain ⟨c, hCo, h⟩ := bind_eq_some_iff.mp h
    exact compactFreeze_does hCo h
  | take =>
    obtain ⟨c, hCo, h⟩ := bind_eq_some_iff.mp h
    exact compactTake_does hCo h
  | poll timeout =>
    obtain ⟨c, hCo, h⟩ := bind_eq_some_iff.mp h
    exact compactPoll_does hCo h
  | stage =>
    obtain ⟨c, hCo, h⟩ := bind_eq_some_iff.mp h
    exact compactStage_does hCo h
  | activate =>
    obtain ⟨c, hCo, h⟩ := bind_eq_some_iff.mp h
    exact compactActivate_does hCo h
  | commit =>
    obtain ⟨c, hCo, h⟩ := bind_eq_some_iff.mp h
    exact compactCommit_does hCo h
  | cancel =>
    obtain ⟨c, hCo, h⟩ := bind_eq_some_iff.mp h
    exact compactCancel_does hCo h
  | abort =>
    obtain ⟨c, hCo, h⟩ := bind_eq_some_iff.mp h
    exact compactAbort_does hCo h
  | unwind =>
    obtain ⟨c, hCo, h⟩ := bind_eq_some_iff.mp h
    exact compactUnwind_does hCo h
  -- the rest of the node
  | hello =>
    obtain rfl := some.inj h
    exact .quiet (by simp [Msg.Plain])
  | forget id =>
    obtain rfl := some.inj h
    exact .side rfl rfl rfl rfl rfl rfl (by simp)
  | crash =>
    obtain rfl := some.inj h
    exact .crash
  | rebroadcast =>
    obtain rfl := some.inj h
    exact .rebroadcast
  | scan =>
    obtain rfl := some.inj h
    exact scan_does
  | ask =>
    obtain rfl := some.inj h
    exact ask_does
  | abandon =>
    simp only [Node.act] at h
    split at h
    · cases h
    · next hCo =>
      obtain rfl := some.inj h
      exact abandon_does (by simpa [Node.learned] using hCo)
  | seedSeen w => exact seedSeen_does h
  | seedArrived w => exact seedArrived_does h
  | seedTimeout w => exact seedTimeout_does h
  | readGate => exact readGate_does h
  | readServe => exact readServe_does h
  | beginWrite => exact beginWrite_does h
  | write b es => exact write_does h
  | recvData d =>
    obtain rfl := some.inj h
    exact recvData_does
  | process es jobs => exact process_does h

/-- The same where it does not matter which members it has learned of. -/
lemma act_does (h : x.act D self a = some o) : ∃ ms, Does D self { x with members := ms } a o := by
  obtain ⟨ms, hLearned⟩ := learned_members self x a
  exact ⟨ms, hLearned ▸ act_does_learned h⟩

end

end RedGeo.Rotation
