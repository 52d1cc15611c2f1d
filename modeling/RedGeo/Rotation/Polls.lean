import RedGeo.Lib.Run
import RedGeo.Rotation.Compact

/-!
# RedGeo — the first phase of a round, statement by statement

The loop of `Compact` that ends when every member holds every block. Here it is cut where the
engine is asked: its `Heads`, what it is `Missing` of the union, and whether it is
`Quiescent` are three questions, and between them blocks are processed and answers arrive.
The answers come through one channel, so that a poll may count what was meant for an earlier
one.

* `Loop.step` — the loop, with everything that may come in between.
* `Loop.Wf` — what holds at each point of it; `Loop.wf_step` and `Loop.wf_of_reach`.
* `phase_one_exit` — what the last two polls found when the loop is left.
* `simulates` — the coordinator's steps are those of the loop, each poll without interruption.
-/

namespace RedGeo.Rotation

open Lib List Replica

variable {ι β : Type} [DecidableEq β]

/-! ## The union -/

section

variable (union : List β) (grew : Bool)

/-- Heads are added to the union one by one; whether any of them was new. -/
def addHeads (heads : List β) : List β × Bool :=
  heads.foldl (fun acc h => if h ∈ acc.1 then acc else (acc.1 ++ [h], true)) (union, grew)

lemma addHeads_cons (h : β) (heads : List β) : addHeads union grew (h :: heads) = if h ∈
    union then addHeads union grew heads else addHeads (union ++ [h]) true heads := by
  rw [addHeads, foldl_cons]
  split
  · rfl
  · rfl

lemma addHeads_append (xs ys : List β) :
    addHeads union grew (xs ++ ys) = addHeads (addHeads union grew xs).1 (addHeads union grew xs).2 ys := by
  simp [addHeads, foldl_append]

end

variable {union heads : List β}

lemma mem_addHeads : b ∈ (addHeads union grew heads).1 ↔ b ∈ union ∨ b ∈ heads := by
  induction heads generalizing union grew with
  | nil => simp [addHeads]
  | cons h heads ih =>
    rw [addHeads_cons]
    split
    · next hOld =>
      have hSame : b = h → b ∈ union := fun hEq => hEq ▸ hOld
      rw [ih, mem_cons]
      tauto
    · rw [ih]
      simp only [mem_append, mem_cons, not_mem_nil, or_false, or_assoc]

/-- The flag says whether the union has grown. -/
lemma addHeads_grew : (addHeads union grew heads).2 = false ↔ grew = false ∧ ∀ h ∈ heads, h ∈ union := by
  induction heads generalizing union grew with
  | nil => simp [addHeads]
  | cons h heads ih =>
    rw [addHeads_cons]
    split
    · next hOld => simp [ih, hOld]
    · next hNew => simp [ih, hNew]

lemma addHeads_same (h : (addHeads union grew heads).2 = false) : (addHeads union grew heads).1 = union := by
  induction heads generalizing union grew with
  | nil => rfl
  | cons x heads ih =>
    rw [addHeads_cons] at h ⊢
    split at h
    · next hOld =>
      rw [if_pos hOld]
      exact ih h
    · exact absurd (addHeads_grew.mp h).1 (by simp)

/-! ## The loop -/

variable [DecidableEq ι]

/-- The engine, as far as the loop asks it: its DAG heads, the blocks it has processed, and
the jobs that are queued. -/
structure Digest (β : Type) where
  heads : List β
  blocks : List β
  queued : List β
  deriving DecidableEq, Repr

/-- `Missing`: the blocks that are not there, and those for which the look-up fails. -/
def Digest.missing (d : Digest β) (unread cids : List β) : List β :=
  cids.filter fun c => c ∉ d.blocks ∨ c ∈ unread

def Digest.quiescent (d : Digest β) : Bool := d.queued.isEmpty

/-- Where the loop stands. -/
inductive PollPc
  /-- In `collect`. -/
  | collecting
  /-- Before the loop over the members. -/
  | merging
  /-- Before `Missing`. -/
  | checking
  /-- Before `Quiescent`, with nothing missing. -/
  | draining
  /-- The loop was left by `break`. -/
  | left
  /-- `Compact` returns an error. -/
  | failed
  deriving DecidableEq, Repr

/-- A poll that has come to its end: the answers it had, the union before and after it, and
the engine when it ended. -/
structure Poll (ι β : Type) where
  prepared : List (ι × Prepared β)
  before : List β
  after : List β
  engine : Digest β
  deriving DecidableEq, Repr

/-- The variables of the loop and what is around it. The polls, newest first, the union at the
start of the poll, and the answers that have arrived are kept for the statements. -/
structure Loop (ι β : Type) where
  members : List ι
  pc : PollPc := .collecting
  union : List β
  stable : Nat := 0
  prepared : List (ι × Prepared β) := []
  grew : Bool := false
  chan : List (ι × (Prepared β ⊕ Ready)) := []
  engine : Digest β
  before : List β
  polls : List (Poll ι β) := []
  arrived : List (ι × (Prepared β ⊕ Ready)) := []
  deriving DecidableEq, Repr

/-- What may happen. -/
inductive PollEvent (ι β : Type)
  /-- An answer of this round arrives. -/
  | arrive (id : ι) (reply : Prepared β ⊕ Ready)
  /-- The datastore goes on processing. -/
  | work (engine : Digest β)
  /-- `collect` receives. -/
  | take
  /-- `collect` has every answer, or its time is over; the engine's heads are added. -/
  | collected
  /-- The loop over the members. -/
  | merge
  /-- `Missing`, where the blocks `unread` cannot be looked up. -/
  | missing (unread : List β) (late : Bool)
  /-- `Quiescent`. -/
  | quiescent (late : Bool)
  /-- The context ends. -/
  | cancel
  deriving DecidableEq, Repr

namespace Loop

/-- `Compact` enters the loop. -/
def start (members : List ι) (engine : Digest β) : Loop ι β :=
  let union := (addHeads [] false engine.heads).1
  { members := members, union := union, engine := engine, before := union }

variable (s : Loop ι β)

/-- `collect` has every member's answer. -/
def complete : Bool := s.members.all fun id => (s.prepared.lookup id).isSome

/-- A member has refused (`rejected ≠ ""`). -/
def rejected : Bool :=
  s.members.any fun id =>
    match s.prepared.lookup id with
    | some r => !r.ok
    | none => false

/-- A member lacks blocks or is busy (`behind`). -/
def behind : Bool :=
  s.members.any fun id =>
    match s.prepared.lookup id with
    | some r => r.ok && (!r.missing.isEmpty || r.busy)
    | none => false

/-- The heads of the answers are added, member by member. -/
def addReplies : List β × Bool :=
  s.members.foldl (fun acc id =>
    match s.prepared.lookup id with
    | some r => if r.ok then addHeads acc.1 acc.2 r.heads else acc
    | none => acc) (s.union, s.grew)

/-- Every member has answered, none is behind, the union has not grown, and the coordinator
is not behind itself. -/
def isClear (selfBehind : Bool) : Bool :=
  s.complete && !s.behind && !s.grew && !selfBehind

/-- The poll as it has ended. -/
def thisPoll : Poll ι β := ⟨s.prepared, s.before, s.union, s.engine⟩

/-- The loop starts again with an empty `prepared`. -/
def again (stable : Nat) : Loop ι β :=
  { s with
    pc := .collecting, stable := stable, prepared := [], grew := false, before := s.union
    polls := s.thisPoll :: s.polls }

/-- The end of a poll; `late` if the deadline has passed or the context has ended. -/
def endPoll (selfBehind late : Bool) : Loop ι β :=
  if s.isClear selfBehind then
    if 2 ≤ s.stable + 1 then
      { s with pc := .left, stable := s.stable + 1, polls := s.thisPoll :: s.polls }
    else s.again (s.stable + 1)
  else if late then { s with pc := .failed, stable := 0, polls := s.thisPoll :: s.polls }
  else s.again 0

def step : PollEvent ι β → Option (Loop ι β)
  | .arrive id reply =>
    -- the channel is buffered, and what does not fit is dropped
    let chan := if s.chan.length < 1024 then s.chan ++ [(id, reply)] else s.chan
    some { s with chan := chan, arrived := (id, reply) :: s.arrived }
  | .work engine =>
    -- a processed block stays processed: the partition's mutex is held all the while
    if s.engine.blocks ⊆ engine.blocks then some { s with engine := engine } else none
  | .take =>
    match s.pc, s.chan with
    | .collecting, (id, reply) :: rest =>
      if s.complete then none
      else
        match reply with
        | .inl r => some { s with chan := rest, prepared := (id, r) :: s.prepared }
        -- an answer of the other kind is dropped
        | .inr _ => some { s with chan := rest }
    | _, _ => none
  | .collected =>
    match s.pc with
    | .collecting =>
      let added := addHeads s.union false s.engine.heads
      some { s with pc := .merging, union := added.1, grew := added.2 }
    | _ => none
  | .merge =>
    match s.pc with
    | .merging =>
      if s.rejected then some { s with pc := .failed }
      else some { s with pc := .checking, union := s.addReplies.1, grew := s.addReplies.2 }
    | _ => none
  | .missing unread late =>
    match s.pc with
    | .checking =>
      if (s.engine.missing unread s.union).isEmpty then some { s with pc := .draining }
      else some (s.endPoll true late)
    | _ => none
  | .quiescent late =>
    match s.pc with
    | .draining => some (s.endPoll (!s.engine.quiescent) late)
    | _ => none
  | .cancel =>
    match s.pc with
    | .collecting => if s.complete then none else some { s with pc := .failed }
    | _ => none

end Loop

/-! ## What a poll has found -/

/-- A poll that found nothing missing anywhere: every member's answer, nothing added to the
union, and the coordinator's own engine. -/
structure Poll.Clear (members : List ι) (p : Poll ι β) : Prop where
  answered : ∀ id ∈ members, ∃ r, p.prepared.lookup id = some r ∧
    r.ok = true ∧ r.missing = [] ∧ r.busy = false
  heads : ∀ id ∈ members, ∀ r, p.prepared.lookup id = some r → ∀ h ∈ r.heads, h ∈ p.after
  steady : p.after = p.before
  processed : ∀ b ∈ p.after, b ∈ p.engine.blocks
  drained : p.engine.queued = []

namespace Loop

variable {s : Loop ι β} {id : ι}

/-- **The invariant of the loop.** `stable` counts the clear polls since the last one that was
not, and the union is the one they ended with. -/
structure Wf (members : List ι) (s : Loop ι β) : Prop where
  sameMembers : s.members = members
  chan : ∀ m ∈ s.chan, m ∈ s.arrived
  prepared : ∀ m ∈ s.prepared, (m.1, Sum.inl m.2) ∈ s.arrived
  polls : ∀ p ∈ s.polls, ∀ m ∈ p.prepared, (m.1, Sum.inl m.2) ∈ s.arrived
  fresh : s.pc = .collecting → s.grew = false
  grown : s.grew = false → s.union = s.before
  merged : s.pc = .checking ∨ s.pc = .draining → ∀ id ∈ members, ∀ r,
    s.prepared.lookup id = some r → r.ok = true ∧ ∀ h ∈ r.heads, h ∈ s.union
  held : s.pc = .draining → ∀ b ∈ s.union, b ∈ s.engine.blocks
  counted : s.stable ≤ s.polls.length
  clear : ∀ p ∈ s.polls.take s.stable, p.Clear members ∧ p.after = s.before
  left : s.pc = .left → 2 ≤ s.stable ∧ s.grew = false

/-! ### The loop over the members -/

/-- The heads a member's answer brings. -/
def replyHeads (prepared : List (ι × Prepared β)) (id : ι) : List β :=
  match prepared.lookup id with
  | some r => if r.ok then r.heads else []
  | none => []

/-- The loop over the members adds the heads of their answers, one after the other. -/
lemma addReplies_eq (s : Loop ι β) :
    s.addReplies = addHeads s.union s.grew (s.members.flatMap (replyHeads s.prepared)) := by
  have hOne : ∀ (acc : List β × Bool) (id : ι), (match s.prepared.lookup id with
        | some r => if r.ok then addHeads acc.1 acc.2 r.heads else acc
        | none => acc) = addHeads acc.1 acc.2 (replyHeads s.prepared id) := by
    intro acc id
    unfold replyHeads
    split
    · split
      · rfl
      · rfl
    · rfl
  unfold addReplies
  simp only [hOne]
  generalize s.union = union, s.grew = grew
  induction s.members generalizing union grew with
  | nil => rfl
  | cons id members ih => rw [foldl_cons, flatMap_cons, addHeads_append, ih]

lemma addReplies_heads (hId : id ∈ s.members) (hr : s.prepared.lookup id = some r) (hOk : r.ok = true)
    (hh : h ∈ r.heads) : h ∈ s.addReplies.1 := by
  rw [addReplies_eq, mem_addHeads]
  refine .inr (mem_flatMap.mpr ⟨id, hId, ?_⟩)
  simpa [replyHeads, hr, hOk] using hh

lemma addReplies_same (h : s.addReplies.2 = false) : s.grew = false ∧ s.addReplies.1 = s.union := by
  rw [addReplies_eq] at h ⊢
  exact ⟨(addHeads_grew.mp h).1, addHeads_same h⟩

section

omit [DecidableEq β]

lemma ok_of_not_rejected (h : s.rejected = false) (hId : id ∈ s.members)
    (hr : s.prepared.lookup id = some r) : r.ok = true := by
  have hAll := any_eq_false.mp h id hId
  rw [hr] at hAll
  simpa using hAll

lemma answer_of_complete (hComplete : s.complete = true) (hBehind : s.behind = false) (hId : id ∈ s.members) :
    ∃ r, s.prepared.lookup id = some r ∧ (r.ok = true → r.missing = [] ∧ r.busy = false) := by
  obtain ⟨r, hr⟩ := Option.isSome_iff_exists.mp (all_eq_true.mp hComplete id hId)
  refine ⟨r, hr, fun hOk => ?_⟩
  have hNot := any_eq_false.mp hBehind id hId
  rw [hr] at hNot
  simpa [hOk] using hNot

end

/-! ### One step -/

variable {members : List ι} {s s' : Loop ι β}

omit [DecidableEq β] in
/-- The end of a poll keeps the invariant: a clear poll is counted, any other starts the count
again. -/
lemma wf_endPoll (h : s.Wf members) (hPc : s.pc = .checking ∨ s.pc = .draining)
    (hSelf : selfBehind = false → (∀ b ∈ s.union, b ∈ s.engine.blocks) ∧ s.engine.queued = []) :
    (s.endPoll selfBehind late).Wf members := by
  have hPolls : ∀ p ∈ s.thisPoll :: s.polls, ∀ m ∈ p.prepared, (m.1, Sum.inl m.2) ∈ s.arrived := by
    intro p hp
    rcases mem_cons.mp hp with rfl | hp
    · exact h.prepared
    · exact h.polls p hp
  unfold endPoll
  split
  · next hClear =>
    simp only [isClear, Bool.and_eq_true, Bool.not_eq_true'] at hClear
    obtain ⟨⟨⟨hComplete, hBehind⟩, hGrew⟩, hSelfOk⟩ := hClear
    have hUnion := h.grown hGrew
    have hNew : s.thisPoll.Clear members := by
      refine ⟨?_, fun id hId r hr => (h.merged hPc id hId r hr).2, hUnion, (hSelf hSelfOk).1,
        (hSelf hSelfOk).2⟩
      intro id hId
      obtain ⟨r, hr, hRest⟩ := answer_of_complete hComplete hBehind (h.sameMembers ▸ hId)
      have hOk := (h.merged hPc id hId r hr).1
      exact ⟨r, hr, hOk, hRest hOk⟩
    -- the counted polls are this one and those counted before
    have hTake : ∀ p ∈ (s.thisPoll :: s.polls).take (s.stable + 1), p.Clear members ∧ p.after = s.before := by
      intro p hp
      rw [take_succ_cons] at hp
      rcases mem_cons.mp hp with rfl | hp
      · exact ⟨hNew, hUnion⟩
      · exact h.clear p hp
    have hCount : s.stable + 1 ≤ s.polls.length + 1 := Nat.succ_le_succ h.counted
    split
    · next hTwo =>
      exact ⟨h.sameMembers, h.chan, h.prepared, hPolls, nofun, h.grown, nofun, nofun, hCount, hTake,
        fun _ => ⟨hTwo, hGrew⟩⟩
    · exact ⟨h.sameMembers, h.chan, nofun, hPolls, fun _ => rfl, fun _ => rfl, nofun, nofun, hCount,
        fun p hp => (hTake p hp).imp_right (·.trans hUnion.symm), nofun⟩
  · have hNone : ∀ (b : List β), ∀ p ∈ (s.thisPoll :: s.polls).take 0, p.Clear members ∧ p.after = b := by
      intro b p hp
      cases hp
    split
    · exact ⟨h.sameMembers, h.chan, h.prepared, hPolls, nofun, h.grown, nofun, nofun, Nat.zero_le _,
        hNone _, nofun⟩
    · exact ⟨h.sameMembers, h.chan, nofun, hPolls, fun _ => rfl, fun _ => rfl, nofun, nofun, Nat.zero_le _,
        hNone _, nofun⟩

variable (h : s.Wf members)

include h

lemma wf_arrive {id : ι} (hs : s.step (.arrive id reply) = some s') : s'.Wf members := by
  simp only [step, Option.some.injEq] at hs
  subst hs
  refine ⟨h.sameMembers, ?_, fun m hm => mem_cons_of_mem _ (h.prepared m hm),
    fun p hp m hm => mem_cons_of_mem _ (h.polls p hp m hm), h.fresh, h.grown, h.merged, h.held,
    h.counted, h.clear, h.left⟩
  intro m hm
  simp only at hm
  split at hm
  · rcases mem_append.mp hm with hm | hm
    · exact mem_cons_of_mem _ (h.chan m hm)
    · rw [mem_singleton.mp hm]
      exact mem_cons_self
  · exact mem_cons_of_mem _ (h.chan m hm)

lemma wf_work {engine : Digest β} (hs : s.step (.work engine) = some s') : s'.Wf members := by
  obtain ⟨hGrows, rfl⟩ := Option.ite_none_right_eq_some.mp hs |>.imp_right Option.some.inj
  exact ⟨h.sameMembers, h.chan, h.prepared, h.polls, h.fresh, h.grown, h.merged,
    fun hPc b hb => hGrows (h.held hPc b hb), h.counted, h.clear, h.left⟩

lemma wf_take (hs : s.step .take = some s') : s'.Wf members := by
  simp only [step] at hs
  split at hs
  · next id reply rest hPc hChan =>
    have hRest : ∀ m ∈ rest, m ∈ s.arrived := fun m hm =>
      h.chan m (hChan ▸ mem_cons_of_mem _ hm)
    split at hs
    · cases hs
    · split at hs
      · next r =>
        cases hs
        refine ⟨h.sameMembers, hRest, ?_, h.polls, h.fresh, h.grown, ?_, ?_, h.counted, h.clear, h.left⟩
        · intro m hm
          rcases mem_cons.mp hm with rfl | hm
          · exact h.chan _ (hChan ▸ mem_cons_self)
          · exact h.prepared m hm
        · rintro (hPc' | hPc')
          · exact absurd (hPc.symm.trans hPc') (by decide)
          · exact absurd (hPc.symm.trans hPc') (by decide)
        · intro hPc'
          exact absurd (hPc.symm.trans hPc') (by decide)
      · cases hs
        exact ⟨h.sameMembers, hRest, h.prepared, h.polls, h.fresh, h.grown, h.merged, h.held, h.counted,
          h.clear, h.left⟩
  · cases hs

/-- The engine's own heads are added. Nothing was added before in this poll, so that the union
is still the one it started with. -/
lemma wf_collected (hs : s.step .collected = some s') : s'.Wf members := by
  simp only [step] at hs
  split at hs
  · next hPc =>
    cases hs
    refine ⟨h.sameMembers, h.chan, h.prepared, h.polls, nofun, ?_, nofun, nofun, h.counted, h.clear, nofun⟩
    intro hGrew
    exact (addHeads_same hGrew).trans (h.grown (h.fresh hPc))
  · cases hs

lemma wf_merge (hs : s.step .merge = some s') : s'.Wf members := by
  simp only [step] at hs
  split at hs
  · split at hs
    · cases hs
      exact ⟨h.sameMembers, h.chan, h.prepared, h.polls, nofun, h.grown, nofun, nofun, h.counted, h.clear,
        nofun⟩
    · next hRej =>
      cases hs
      refine ⟨h.sameMembers, h.chan, h.prepared, h.polls, nofun, ?_, ?_, nofun, h.counted, h.clear, nofun⟩
      · intro hGrew
        obtain ⟨hOld, hSame⟩ := addReplies_same hGrew
        exact hSame.trans (h.grown hOld)
      · intro _ id hId r hr
        have hMem : id ∈ s.members := h.sameMembers ▸ hId
        have hOk := ok_of_not_rejected (Bool.not_eq_true _ ▸ hRej) hMem hr
        exact ⟨hOk, fun b hb => addReplies_heads hMem hr hOk hb⟩
  · cases hs

lemma wf_missing (hs : s.step (.missing unread late) = some s') : s'.Wf members := by
  simp only [step] at hs
  split at hs
  · next hPc =>
    split at hs
    · next hNone =>
      cases hs
      refine ⟨h.sameMembers, h.chan, h.prepared, h.polls, nofun, h.grown, fun _ => h.merged (.inl hPc), ?_,
        h.counted, h.clear, nofun⟩
      intro _ b hb
      have hNot := filter_eq_nil_iff.mp (isEmpty_iff.mp hNone) b hb
      simp only [decide_eq_true_eq, not_or, not_not] at hNot
      exact hNot.1
    · cases hs
      exact wf_endPoll h (.inl hPc) nofun
  · cases hs

/-- `Quiescent`. What was processed at `Missing` still is. -/
lemma wf_quiescent (hs : s.step (.quiescent late) = some s') : s'.Wf members := by
  simp only [step] at hs
  split at hs
  · next hPc =>
    cases hs
    refine wf_endPoll h (.inr hPc) fun hSelf => ⟨h.held hPc, ?_⟩
    rw [Bool.not_eq_false', Digest.quiescent] at hSelf
    exact isEmpty_iff.mp hSelf
  · cases hs

lemma wf_cancel (hs : s.step .cancel = some s') : s'.Wf members := by
  simp only [step] at hs
  split at hs
  · split at hs
    · cases hs
    · cases hs
      exact ⟨h.sameMembers, h.chan, h.prepared, h.polls, nofun, h.grown, nofun, nofun, h.counted, h.clear,
        nofun⟩
  · cases hs

lemma wf_step (hs : s.step e = some s') : s'.Wf members := by
  cases e with
  | arrive => exact wf_arrive h hs
  | work => exact wf_work h hs
  | take => exact wf_take h hs
  | collected => exact wf_collected h hs
  | merge => exact wf_merge h hs
  | missing => exact wf_missing h hs
  | quiescent => exact wf_quiescent h hs
  | cancel => exact wf_cancel h hs

omit h

lemma wf_of_reach {engine : Digest β} (h : Reach step Anything (start members engine) s) : s.Wf members :=
  h.induct (I := fun s => s.Wf members) (by constructor <;> simp [start]) fun _ hWf _ hs => wf_step hWf hs

end Loop

/-! ## The end of the phase -/

/-- **When the first phase is left.** Whatever answers arrive and whenever, late ones of
earlier polls included: the last two polls each counted an answer of every member, received in
this round, that was OK with nothing missing and not busy; neither added a head to the union;
the heads of the counted answers are in it; and at the end of each the coordinator had
processed every block of it, with an empty queue. -/
theorem phase_one_exit {members : List ι} {engine : Digest β} {s : Loop ι β}
    (hRun : Reach Loop.step Anything (Loop.start members engine) s) (hLeft : s.pc = .left) :
    ∃ last previous older, s.polls = last :: previous :: older ∧ ∀ p ∈ [last, previous],
        (∀ id ∈ members, ∃ r, p.prepared.lookup id = some r ∧ (id, Sum.inl r) ∈ s.arrived ∧
          r.ok = true ∧ r.missing = [] ∧ r.busy = false) ∧ p.before = s.union ∧ p.after = s.union ∧
        (∀ id ∈ members, ∀ r, p.prepared.lookup id = some r → ∀ h ∈ r.heads, h ∈ s.union) ∧
        (∀ b ∈ s.union, b ∈ p.engine.blocks) ∧ p.engine.queued = [] := by
  have hWf := Loop.wf_of_reach hRun
  obtain ⟨hTwo, hGrew⟩ := hWf.left hLeft
  have hUnion := hWf.grown hGrew
  -- two polls have been counted, so there are two
  obtain ⟨last, previous, older, hPolls⟩ : ∃ last previous older, s.polls = last :: previous :: older := by
    have hLength := hWf.counted
    match hEq : s.polls with
    | [] => simp [hEq] at hLength; omega
    | [_] => simp [hEq] at hLength; omega
    | last :: previous :: older => exact ⟨last, previous, older, rfl⟩
  refine ⟨last, previous, older, hPolls, ?_⟩
  intro p hp
  have hTaken : p ∈ s.polls.take s.stable := by
    rw [hPolls]
    exact (take_subset_take_left _ hTwo) (by simpa using hp)
  obtain ⟨hClear, hAfter⟩ := hWf.clear p hTaken
  have hEnd : p.after = s.union := hAfter.trans hUnion.symm
  refine ⟨?_, hClear.steady.symm.trans hEnd, hEnd, ?_, ?_, hClear.drained⟩
  · intro id hId
    obtain ⟨r, hr, hOk⟩ := hClear.answered id hId
    obtain ⟨l₁, l₂, hSplit, -⟩ := lookup_eq_some_iff.mp hr
    have hMem : (id, r) ∈ p.prepared := hSplit ▸ mem_append_right l₁ mem_cons_self
    have hArrived := hWf.polls p (mem_of_mem_take hTaken) (id, r) hMem
    exact ⟨r, hr, hArrived, hOk⟩
  · intro id hId r hr h hh
    exact hEnd ▸ hClear.heads id hId r hr h hh
  · intro b hb
    exact hClear.processed b (hEnd ▸ hb)

/-- The answer of a member that holds everything. -/
private def caughtUp : Prepared Nat ⊕ Ready := .inl { ok := true, heads := [7] }

/-- What follows when `collect` returns, without interruption. -/
private def uninterrupted : List (PollEvent Nat Nat) :=
  [.collected, .merge, .missing [] false, .quiescent false]

/-- Two members. The answer of the second comes too late for the first poll and is counted in
the second one, which is clear, as is the third. -/
theorem phase_one_exit_late : ∃ s : Loop Nat Nat,
      Reach Loop.step Anything (Loop.start [1, 2] ⟨[7], [7], []⟩) s ∧ s.pc = .left ∧
      ∃ last previous older, s.polls = last :: previous :: older ∧ ∀ p ∈ [last, previous],
          (∀ id ∈ [1, 2], ∃ r, p.prepared.lookup id = some r ∧ (id, Sum.inl r) ∈ s.arrived ∧
            r.ok = true ∧ r.missing = [] ∧ r.busy = false) ∧
          p.before = s.union ∧ p.after = s.union ∧
          (∀ id ∈ [1, 2], ∀ r, p.prepared.lookup id = some r → ∀ h ∈ r.heads, h ∈ s.union) ∧
          (∀ b ∈ s.union, b ∈ p.engine.blocks) ∧ p.engine.queued = [] := by
  obtain ⟨s, hRun, hLeft⟩ : ∃ s, Reach Loop.step Anything (Loop.start [1, 2] ⟨[7], [7], []⟩) s ∧
      s.pc = .left :=
    Reach.of_eval ([.arrive 1 caughtUp, .take] ++ uninterrupted ++
        [.arrive 2 caughtUp, .arrive 1 caughtUp, .take, .take] ++ uninterrupted ++
        [.arrive 2 caughtUp, .arrive 1 caughtUp, .take, .take] ++ uninterrupted) (by decide +kernel)
  exact ⟨s, hRun, hLeft, phase_one_exit hRun hLeft⟩

/-! ## The coordinator's steps -/

/-- The replica, as far as the loop asks it. -/
def Replica.digest (x : Replica ι β) : Digest β := ⟨x.heads, blocks x.ns, x.jobs x.part.gen⟩

namespace Loop

/-- The loop is where the coordinator is, at `collect`. -/
structure Models (s : Loop ι β) (x : Node ι β) (c : Co ι β) : Prop where
  pc : s.pc = .collecting
  preparing : c.pc = .preparing
  members : s.members = c.members
  union : ∀ b, b ∈ s.union ↔ b ∈ c.union
  stable : s.stable = c.stable
  prepared : s.prepared = c.prepared
  chan : s.chan = c.chan
  engine : s.engine = x.rep.digest

/-- A poll from the end of `collect` on, without interruption and without failing look-ups. -/
def poll (s : Loop ι β) (late : Bool) : Option (Loop ι β) := do
  let s ← (do (← s.step .collected).step .merge)
  if s.pc = .failed then return s
  let s ← s.step (.missing [] late)
  if s.pc = .draining then s.step (.quiescent late) else return s

/-- The state of a coordinator after a poll. -/
def Agrees (s : Loop ι β) (x : Node ι β) : Prop :=
  ∃ c, x.co = some c ∧ (s.Models x c ∨ (s.pc = .left ∧ c.pc = .staging ∧ ∀ b, b ∈ s.union ↔ b ∈ c.union) ∨
      (s.pc = .failed ∧ c.pc = .failing))

/-- The state after the loop over the members. -/
private def merged (s : Loop ι β) (heads : List β) : Loop ι β :=
  { s with
    pc := .checking
    union := (addHeads s.union false heads).1
    grew := (addHeads s.union false heads).2 }

namespace Models

omit [DecidableEq ι] in
/-- `Freeze` leaves a coordinator that has not polled at the start of the loop. -/
lemma start {x : Node ι β} {c : Co ι β} {out : Out ι β} (hStable : c.stable = 0) (hPrepared : c.prepared = [])
    (hChan : c.chan = []) (hFreeze : x.compactFreeze c = some out) : ∃ c', out.node.co = some c' ∧
    (c'.pc = .failing ∨ (Loop.start c.members x.rep.digest).Models out.node c') := by
  unfold Node.compactFreeze at hFreeze
  obtain ⟨-, hOut⟩ := Option.ite_none_right_eq_some.mp hFreeze
  split at hOut
  · cases hOut
    refine ⟨_, rfl, .inr ⟨rfl, rfl, rfl, ?_, hStable.symm, hPrepared.symm, hChan.symm, rfl⟩⟩
    intro b
    simp [Loop.start, mem_addHeads, digest]
  · cases hOut
    exact ⟨_, rfl, .inl rfl⟩

variable {s : Loop ι β} {x : Node ι β} {c : Co ι β} (h : s.Models x c)

include h

section

omit [DecidableEq β]

lemma rejected : s.rejected = c.rejected := by
  unfold Loop.rejected Co.rejected
  exact h.members ▸ h.prepared ▸ rfl

lemma behind : s.behind = c.behind := by
  unfold Loop.behind Co.behind
  exact h.members ▸ h.prepared ▸ rfl

lemma complete : s.complete = c.allPrepared := by
  unfold Loop.complete Co.allPrepared
  rw [h.members, h.prepared]

lemma incoming (own : List β) : own ++ s.members.flatMap (replyHeads s.prepared) = c.incoming own := by
  unfold Co.incoming replyHeads
  exact h.members ▸ h.prepared ▸ rfl

end

variable (own : List β)

lemma mem_union (b : β) : b ∈ (addHeads s.union false (c.incoming own)).1 ↔ b ∈ c.union' own := by
  rw [mem_addHeads, h.union]
  unfold Co.union'
  rw [mem_append, mem_filter]
  by_cases hb : b ∈ c.union
  · simp [hb]
  · simp [hb]

lemma grew : (addHeads s.union false (c.incoming own)).2 = c.grew own := by
  rw [Bool.eq_iff_iff, ← not_iff_not, Bool.not_eq_true, Bool.not_eq_true, addHeads_grew]
  unfold Co.grew
  rw [any_eq_false]
  simp [h.union]

lemma missing : (s.engine.missing [] (addHeads s.union false (c.incoming own)).1).isEmpty =
    (x.rep.missing (c.union' own)).isEmpty := by
  rw [Bool.eq_iff_iff, List.isEmpty_iff, List.isEmpty_iff]
  unfold Digest.missing Replica.missing
  rw [filter_eq_nil_iff, filter_eq_nil_iff]
  simp only [h.mem_union, h.engine, digest, not_mem_nil, or_false]

/-- What `collect` receives here it receives there. -/
lemma take {s' : Loop ι β} (hs : s.step .take = some s') :
    ∃ out c', x.compactTake c = some out ∧ out.node.co = some c' ∧ s'.Models out.node c' := by
  simp only [step, h.pc] at hs
  split at hs
  · next id reply rest _ hCons =>
    split at hs
    · cases hs
    · next hNot =>
      rw [h.complete] at hNot
      unfold Node.compactTake
      rw [← h.chan, hCons]
      simp only [h.preparing, if_neg hNot]
      split at hs
      · cases hs
        exact ⟨_, _, rfl, rfl, rfl, rfl, h.members, h.union, h.stable, congrArg _ h.prepared, rfl, h.engine⟩
      · cases hs
        exact ⟨_, _, rfl, rfl, rfl, rfl, h.members, h.union, h.stable, h.prepared, rfl, h.engine⟩
  · cases hs

/-- Up to the questions to the engine. -/
lemma merge : (s.step .collected >>= fun s => s.step .merge) = if c.rejected then
        some { s with
          pc := .failed
          union := (addHeads s.union false x.rep.heads).1
          grew := (addHeads s.union false x.rep.heads).2 }
      else some (s.merged (c.incoming x.rep.heads)) := by
  have hHeads : s.engine.heads = x.rep.heads := by rw [h.engine, digest]
  rw [← h.rejected, ← h.incoming]
  unfold merged
  rw [addHeads_append]
  simp only [step, h.pc, hHeads, Option.bind_eq_bind, Option.bind_some, addReplies_eq]
  rfl

/-- The end of a poll, with the same verdict on both sides. -/
lemma endPoll (hRej : c.rejected = false) (selfBehind : Bool)
    (hSelf : (!selfBehind) = ((x.rep.missing (c.union' x.rep.heads)).isEmpty && x.rep.quiescent))
    (late : Bool) :
    ((s.merged (c.incoming x.rep.heads)).endPoll selfBehind late).Agrees (x.pollPrepared c late).node := by
  have hUnion := h.mem_union x.rep.heads
  have hClear : (s.merged (c.incoming x.rep.heads)).isClear selfBehind = x.pollClear c := by
    have hLoop : (s.merged (c.incoming x.rep.heads)).isClear selfBehind =
        (s.complete && !s.behind && !(addHeads s.union false (c.incoming x.rep.heads)).2 &&
          !selfBehind) := rfl
    rw [hLoop, h.complete, h.behind, h.grew, hSelf, Node.pollClear, ← Bool.and_assoc]
  unfold Loop.endPoll Node.pollPrepared
  simp only [hRej, Bool.false_eq_true, if_false, hClear]
  split
  · -- counted on both sides
    rw [show (s.merged (c.incoming x.rep.heads)).stable = c.stable from h.stable]
    split
    · exact ⟨_, rfl, .inr (.inl ⟨rfl, rfl, hUnion⟩)⟩
    · exact ⟨_, rfl, .inl ⟨rfl, h.preparing, h.members, hUnion, rfl, rfl, h.chan, h.engine⟩⟩
  · split
    · exact ⟨_, rfl, .inr (.inr ⟨rfl, rfl⟩)⟩
    · exact ⟨_, rfl, .inl ⟨rfl, h.preparing, h.members, hUnion, rfl, rfl, h.chan, h.engine⟩⟩

end Models

omit [DecidableEq β] in
lemma endPoll_pc_ne (s : Loop ι β) (selfBehind late : Bool) : (s.endPoll selfBehind late).pc ≠ .draining := by
  unfold endPoll
  split
  · split <;> simp [again]
  · split <;> simp [again]

/-- The coordinator's step at the end of a `collect` is a poll without interruption. -/
lemma poll_agrees {s : Loop ι β} {x : Node ι β} {c : Co ι β} (h : s.Models x c) (late : Bool) :
    ∃ s', s.poll late = some s' ∧ s'.Agrees (x.pollPrepared c late).node := by
  unfold poll
  rw [h.merge]
  by_cases hRej : c.rejected = true
  · -- refused
    have hNode : (x.pollPrepared c late).node = { x with co := some { c with pc := .failing } } := by
      unfold Node.pollPrepared
      simp only [hRej, if_true]
    rw [if_pos hRej, hNode]
    exact ⟨_, rfl, _, rfl, .inr (.inr ⟨rfl, rfl⟩)⟩
  · rw [if_neg hRej, Option.bind_eq_bind, Option.bind_some, if_neg (by simp [merged])]
    have hRej' : c.rejected = false := Bool.not_eq_true _ ▸ hRej
    have hMissing := h.missing x.rep.heads
    have hQuiet : s.engine.quiescent = x.rep.quiescent := by
      rw [h.engine]
      rfl
    by_cases hLacks : (x.rep.missing (c.union' x.rep.heads)).isEmpty = true
    · -- nothing missing, and the queue decides
      have hStep : (s.merged (c.incoming x.rep.heads)).step (.missing [] late) =
          some { s.merged (c.incoming x.rep.heads) with pc := .draining } :=
        if_pos (hMissing.trans hLacks)
      have hAgrees := h.endPoll hRej' (!s.engine.quiescent)
        (by rw [Bool.not_not, hQuiet, hLacks, Bool.true_and]) late
      exact ⟨_, by rw [hStep]; rfl, hAgrees⟩
    · have hStep : (s.merged (c.incoming x.rep.heads)).step (.missing [] late) =
          some ((s.merged (c.incoming x.rep.heads)).endPoll true late) :=
        if_neg (hMissing ▸ hLacks)
      have hAgrees := h.endPoll hRej' true (by simp [hLacks]) late
      refine ⟨_, ?_, hAgrees⟩
      rw [hStep, Option.bind_some, if_neg (endPoll_pc_ne _ _ _), Option.pure_def]

/-- **The coordinator's first phase is the loop.** It starts where the loop starts, receives
what the loop receives, and ends each poll with the same verdict: both go on, leave with the
same union, or fail. -/
theorem simulates (x : Node ι β) (c : Co ι β) :
    (c.stable = 0 → c.prepared = [] → c.chan = [] → ∀ out, x.compactFreeze c = some out →
      ∃ c', out.node.co = some c' ∧ (c'.pc = .failing ∨ (Loop.start c.members x.rep.digest).Models out.node c')) ∧
    ∀ s : Loop ι β, s.Models x c → (∀ s', s.step .take = some s' →
        ∃ out c', x.compactTake c = some out ∧ out.node.co = some c' ∧ s'.Models out.node c') ∧
      ∀ late, ∃ s', s.poll late = some s' ∧ s'.Agrees (x.pollPrepared c late).node :=
  ⟨fun hStable hPrepared hChan _ => Models.start hStable hPrepared hChan,
    fun _ h => ⟨fun _ => h.take, poll_agrees h⟩⟩

/-- A coordinator with one member, after a clear poll. It holds the block that the member
names in its answer. -/
private def asked : Co Nat Nat :=
  { round := ⟨0, 1⟩, members := [1], pc := .preparing, union := [7], stable := 1, chan := [(1, caughtUp)] }

private def asking : Node Nat Nat := { rep := { disk := { ns := fun _ => [.block 7, .head 7] } }, co := some asked }

/-- The answer is received, and the poll that it decides is the last one, here and there. -/
theorem simulates_answered : ∃ s : Loop Nat Nat, ∃ s₁ s₂ x₁ c₁, s.Models asking asked ∧
    s.step .take = some s₁ ∧ s₁.Models x₁ c₁ ∧ c₁.prepared = [(1, { ok := true, heads := [7] })] ∧
    s₁.poll false = some s₂ ∧ s₂.pc = .left ∧ s₂.Agrees (x₁.pollPrepared c₁ false).node := by
  have h : Models { Loop.start [1] asking.rep.digest with stable := 1, chan := asked.chan } asking asked :=
    ⟨rfl, rfl, rfl, fun _ => .rfl, rfl, rfl, rfl, rfl⟩
  obtain ⟨out, c₁, -, -, h₁⟩ := ((simulates asking asked).2 _ h).1 _ rfl
  obtain ⟨s₂, hPoll, hAgrees⟩ := ((simulates out.node c₁).2 _ h₁).2 false
  refine ⟨_, _, s₂, _, _, h, rfl, h₁, h₁.prepared.symm, hPoll, ?_, hAgrees⟩
  have hLeft := congrArg (Option.map (·.pc)) hPoll
  exact (Option.some.inj (hLeft.symm.trans (by decide +kernel)))

end Loop

end RedGeo.Rotation
