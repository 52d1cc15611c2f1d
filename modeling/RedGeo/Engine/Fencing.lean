import RedGeo.Engine.Batches

/-!
# RedGeo — batches are fenced off from rotations

In every run in which rotations keep to their discipline, the operations of a
batch on a partition are applied together to the datastore the sub-batch was
opened on, while that one is active, or not at all.

The argument joins two counts. A rotation switches datastores only between the
return of its `Freeze` and its unfreeze, while the gate is sealed
(`Site.Kept.pending`); a `Commit` that has compared the datastores holds an
admitted write until it leaves (`Hub.Holds`); and a sealed gate has no admitted
write (`Guarded`). So what was compared is still active at the commit.
-/

namespace RedGeo.Engine

open Lib Function List Option Prod

/-! ## Goroutines at a partition's gate -/

/-- Where the goroutine of a rotation can be in its `Freeze`. Once that returned
without error the gate is sealed. -/
def Caller.OnFreeze (log : List Notice) : Caller → Prop
  | .called .freeze | .parked .freeze _ | .woken .freeze | .failed .freeze _ => True
  | .returned (some _) => True
  | .returned none => Sealed log = true
  | _ => False

/-- Where other goroutines can be. -/
def Caller.Plain : Caller → Prop
  | .called .beginWrite | .called .waitReadable => True
  | .parked .freeze _ | .woken .freeze | .failed .freeze _ => False
  | .parked _ _ | .woken _ | .failed _ _ | .admitted | .returned _ => True
  | _ => False

/-- A goroutine is where it may be; `rotates` tells whether it is the one of the
rotation under way. -/
def Caller.Placed (rotates : Prop) (log : List Notice) (c : Caller) : Prop :=
  (rotates → c.OnFreeze log) ∧ (¬ rotates → c.Plain)

lemma Caller.OnFreeze.mono {c : Caller}
    (hLog : Sealed log = true → Sealed log' = true) (h : c.OnFreeze log) : c.OnFreeze log' := by
  unfold OnFreeze at h ⊢
  split at h
  all_goals first | trivial | exact hLog h

/-- What a step of a goroutine other than an unfreeze does: it moves that
goroutine, and a sealed gate stays sealed. -/
structure Fence.Moved (f f' : Fence) (i : Nat) (c' : Caller) : Prop where
  callers : f'.callers = f.callers.set i c'
  kept : Sealed f.log = true → Sealed f'.log = true

namespace Fence

variable {f f' : Fence} {i : Nat} {c : Caller} {rot : Option Nat}

lemma await_moved (f : Fence) (i : Nat) (w : Wait) : ∃ c', Moved f (f.await i w) i c' ∧
    (w = .freeze → c'.OnFreeze (f.await i w).log) ∧ (w ≠ .freeze → c'.Plain) := by
  cases w with
  | write =>
    rw [await]
    split
    · exact ⟨_, ⟨rfl, id⟩, by simp, fun _ => trivial⟩
    · exact ⟨.admitted, ⟨rfl, id⟩, by simp, fun _ => trivial⟩
  | read =>
    rw [await]
    split
    · exact ⟨_, ⟨rfl, id⟩, by simp, fun _ => trivial⟩
    · exact ⟨_, ⟨rfl, id⟩, by simp, fun _ => trivial⟩
  | freeze =>
    rw [await]
    split
    · exact ⟨_, ⟨rfl, id⟩, fun _ => trivial, by simp⟩
    · exact ⟨.returned none, ⟨rfl, fun _ => rfl⟩, fun _ => rfl, by simp⟩

/-- A goroutine in its place runs into its place. -/
lemma run_moved {rotates : Prop} (hc : c.Placed rotates f.log) (h : f.run i c = some f') :
    ∃ c', Moved f f' i c' ∧ c'.Placed rotates f'.log := by
  -- which wait the goroutine goes into is told by its place
  have hAwait : ∀ (g : Fence) (w : Wait), g.callers = f.callers → g.log = f.log →
      f' = g.await i w → (rotates → w = .freeze) → (¬ rotates → w ≠ .freeze) →
      ∃ c', Moved f f' i c' ∧ c'.Placed rotates f'.log := by
    rintro g w hCallers hLog rfl hRot hPlain
    obtain ⟨c', ⟨hSet, hKept⟩, hFreeze, hOther⟩ := await_moved g i w
    exact ⟨c', ⟨hCallers ▸ hSet, hLog ▸ hKept⟩, fun hr => hFreeze (hRot hr), fun hr => hOther (hPlain hr)⟩
  obtain ⟨hRot, hPlain⟩ := hc
  cases c with
  | called call =>
    cases call with
    | beginWrite =>
      exact hAwait f .write rfl rfl (some.inj h).symm (fun hr => (hRot hr).elim) (by simp)
    | waitReadable =>
      exact hAwait f .read rfl rfl (some.inj h).symm (fun hr => (hRot hr).elim) (by simp)
    | freeze =>
      exact hAwait { f with gate := f.gate.freeze.1 }.signal .freeze rfl rfl
        (some.inj h).symm (fun _ => rfl) fun hr => (hPlain hr).elim
    | set frozen blockReads =>
      by_cases hr : rotates
      · exact (hRot hr).elim
      · exact (hPlain hr).elim
    | setBlockReads b =>
      by_cases hr : rotates
      · exact (hRot hr).elim
      · exact (hPlain hr).elim
  | woken w =>
    refine hAwait f w rfl rfl (some.inj h).symm (fun hr => ?_) fun hr hw => ?_
    · cases w <;> first | rfl | exact (hRot hr).elim
    · subst hw
      exact hPlain hr
  | failed w e =>
    obtain rfl := some.inj h
    exact ⟨.returned (some e), ⟨rfl, id⟩, fun _ => trivial, fun _ => trivial⟩
  | parked | admitted | returned => cases h

/-- Every goroutine is where it may be. -/
def Placed (f : Fence) (rot : Option Nat) : Prop :=
  ∀ (i : Nat) (c : Caller), f.callers[i]? = some c → c.Placed (rot = some i) f.log

lemma Placed.moved {c' : Caller} (h : f.Placed rot) (hMove : Moved f f' i c')
    (hc' : c'.Placed (rot = some i) f'.log) : f'.Placed rot := by
  intro j c hj
  rw [hMove.callers, List.getElem?_set] at hj
  split at hj
  · next hij =>
    subst hij
    split at hj
    · obtain rfl := some.inj hj
      exact hc'
    · cases hj
  · -- of the others the rotation's goroutine relies on the seal
    obtain ⟨hRot, hPlain⟩ := h j c hj
    exact ⟨fun hr => (hRot hr).mono hMove.kept, hPlain⟩

lemma Placed.call {rot : Option Nat} {c : GateCall} (h : f.Placed rot)
    (hc : Caller.Placed (rot = some f.callers.length) f.log (.called c)) :
    Placed { f with callers := f.callers ++ [.called c] } rot := by
  intro j c' hj
  have hOld : (f.callers ++ [Caller.called c])[j]? = some c' := hj
  rw [List.getElem?_append] at hOld
  split at hOld
  · exact h j c' hOld
  · next hLen =>
    have hj : j = f.callers.length := by
      have hLt := (List.getElem?_eq_some_iff.mp hOld).1
      simp only [length_singleton] at hLt
      omega
    subst hj
    obtain rfl : Caller.called c = c' := by simpa using hOld
    exact hc

/-- No goroutine in its place is an unfreeze. -/
lemma Placed.noUnfreeze (h : f.Placed rot) (a : GateAct) : NoUnfreezeWhileWaiting f a := by
  cases a with
  | run i =>
    intro hUn
    cases hc : f.callers[i]? with
    | none => simp [hc] at hUn
    | some c =>
    rw [hc] at hUn
    change c.unfreezes = true at hUn
    obtain ⟨hRot, hPlain⟩ := h i c hc
    cases c with
    | called call =>
      cases call with
      | set frozen blockReads =>
        by_cases hr : rot = some i
        · exact (hRot hr).elim
        · exact (hPlain hr).elim
      | beginWrite | waitReadable | freeze | setBlockReads => cases hUn
    | _ => cases hUn
  | call | wake | fail | finish => trivial

/-- What one goroutine's step does to the gate's goroutines. -/
structure Stepped (f f' : Fence) (rot : Option Nat) (a : GateAct) : Prop where
  placed : f'.Placed rot
  length : f.callers.length ≤ f'.callers.length
  /-- A goroutine that has returned, and an admitted one that does not finish, stay. -/
  stays : ∀ (i : Nat) (c : Caller), f.callers[i]? = some c →
    (∃ e, c = .returned e) ∨ (c = .admitted ∧ a ≠ .finish i) → f'.callers[i]? = some c

/-- A goroutine moved from a place where it can move. -/
lemma stepped_of_moved (c' : Caller) (h : f.Placed rot) (hMove : Moved f f' i c')
    (hc' : c'.Placed (rot = some i) f'.log) (hc : f.callers[i]? = some c)
    (hMoves : ¬ ((∃ e, c = .returned e) ∨ (c = .admitted ∧ a ≠ .finish i))) :
    Stepped f f' rot a where
  placed := h.moved hMove hc'
  length := by simp [hMove.callers]
  stays j d hj hd := by
    rw [hMove.callers]
    have hij : i ≠ j := by
      rintro rfl
      obtain rfl : c = d := some.inj (hc.symm.trans hj)
      exact hMoves hd
    rw [List.getElem?_set_ne hij]
    exact hj

/-- What a step of a goroutine other than a rotation's calls does. -/
lemma stepped_of_step (h : f.Placed rot)
    (hCall : ∀ c, a = .call c → Caller.Placed (rot = some f.callers.length) f.log (.called c))
    (hs : f.step a = some f') : Stepped f f' rot a := by
  cases a with
  | call c =>
    obtain rfl := some.inj hs
    refine ⟨h.call (hCall c rfl), by simp, fun i c' hi _ => ?_⟩
    exact (List.getElem?_append_left (List.getElem?_eq_some_iff.mp hi).1).trans hi
  | run i =>
    obtain ⟨c, hc, hRun⟩ := bind_eq_some_iff.mp hs
    obtain ⟨c', hMove, hc'⟩ := run_moved (h i c hc) hRun
    refine stepped_of_moved c' h hMove hc' hc ?_
    -- a goroutine that has returned or writes does not run at the gate
    rintro (⟨e, rfl⟩ | ⟨rfl, _⟩) <;> cases hRun
  | wake i =>
    simp only [step] at hs
    split at hs
    · next w ch hc =>
      split at hs
      · obtain rfl := some.inj hs
        refine stepped_of_moved (.woken w) h ⟨rfl, id⟩ ?_ hc (by simp)
        have hPlaced := h i _ hc
        cases w <;> exact hPlaced
      · cases hs
    · cases hs
  | fail i e =>
    simp only [step] at hs
    split at hs
    · next w ch hc =>
      obtain rfl := some.inj hs
      refine stepped_of_moved (.failed w e) h ⟨rfl, id⟩ ?_ hc (by simp)
      have hPlaced := h i _ hc
      cases w <;> exact hPlaced
    · cases hs
  | finish i =>
    simp only [step] at hs
    split at hs
    · next hc =>
      obtain rfl := some.inj hs
      refine stepped_of_moved (.returned none) h ⟨rfl, id⟩ ?_ hc (by simp)
      -- the goroutine of a rotation is never admitted
      exact ⟨fun hr => ((h i _ hc).1 hr).elim, fun _ => trivial⟩
    · cases hs

end Fence

/-! ## Partitions -/

section

variable {ρ κ ν γ : Type}

namespace Site

lemma froze_eq_some {s : Site ρ} :
    s.froze = some e ↔ ∃ i, s.rot = some i ∧ s.callers[i]? = some (.returned e) := by
  unfold froze
  cases hRot : s.rot with
  | none => simp
  | some i =>
    cases hc : s.callers[i]? with
    | none => simp [hc]
    | some c => cases c <;> simp [hc]

/-- What a partition can rely on. -/
structure Kept (s : Site ρ) : Prop where
  guarded : Guarded s.fence
  placed : s.fence.Placed s.rot
  rotation : ∀ i, s.rot = some i → i < s.callers.length
  /-- Activated and neither committed nor rolled back: the gate is still sealed. -/
  pending : s.part.hasPrev = true → s.froze = some none
  active : s.crdt.gen = s.part.gen
  staged : ∀ g, s.part.staged = some g → s.stagedDs.gen = g
  old : s.part.hasPrev = true → s.part.oldOpen = true → s.oldDS.gen = s.part.prevGen
  owned : ∀ i b, s.owner i = some b → i < s.callers.length

namespace Kept

variable {s : Site ρ}

/-- While a rotation holds its `Freeze`, no write is admitted. -/
lemma no_admitted (h : s.Kept) (hFroze : s.froze = some none) (i : Nat) : s.callers[i]? ≠ some .admitted := by
  intro hi
  obtain ⟨j, hRot, hj⟩ := froze_eq_some.mp hFroze
  have hSealed : Sealed s.log = true := (h.placed j _ hj).1 hRot
  have hZero : (unfinished s.log).length = 0 := by
    rw [← show s.part.gate.inflight = (unfinished s.log).length from h.guarded.inflight]
    exact (h.guarded.closed hSealed).2
  have hMem : i ∈ unfinished s.log := h.guarded.admitted i hi
  rw [length_eq_zero_iff.mp hZero] at hMem
  cases hMem

lemma refence (h : s.Kept) {a : GateAct} {f : Fence} (hf : Guarded f)
    (hs : s.fence.Stepped f s.rot a) : (s.withFence f).Kept where
  guarded := hf
  placed := hs.placed
  rotation i hi := Nat.lt_of_lt_of_le (h.rotation i hi) hs.length
  pending hp := by
    obtain ⟨i, hRot, hi⟩ := froze_eq_some.mp (h.pending hp)
    exact froze_eq_some.mpr ⟨i, hRot, hs.stays i _ hi (.inl ⟨_, rfl⟩)⟩
  active := h.active
  staged := h.staged
  old := h.old
  owned i b hi := Nat.lt_of_lt_of_le (h.owned i b hi) hs.length

/-- The primitives leave the goroutines alone, and of the gate they change at
most whether it lets reads through. -/
lemma repart (h : s.Kept) (d : Backing ρ) {crdt stagedDs oldDS : Handle}
    (opened changed : Nat) (hInflight : p.gate.inflight = s.part.gate.inflight)
    (hFrozen : p.gate.frozen = s.part.gate.frozen)
    (hPending : p.hasPrev = true → s.froze = some none) (hActive : crdt.gen = p.gen)
    (hStaged : ∀ g, p.staged = some g → stagedDs.gen = g)
    (hOld : p.hasPrev = true → p.oldOpen = true → oldDS.gen = p.prevGen) :
    Kept { s with
      part := p, disk := d, crdt := crdt, stagedDs := stagedDs, oldDS := oldDS, opened := opened,
      changed := changed } where
  guarded := h.guarded.regate changed hInflight fun hf => hFrozen.trans hf
  placed := h.placed
  rotation := h.rotation
  pending := hPending
  active := hActive
  staged := hStaged
  old := hOld
  owned := h.owned

lemma freeze (h : s.Kept) (hRot : s.rot = none) :
    Kept { s with callers := s.callers ++ [.called .freeze], rot := some s.callers.length } where
  guarded := h.guarded.call .freeze
  placed := by
    refine Fence.Placed.call (c := .freeze) (f := s.fence) (fun i c hi => ?_)
      ⟨fun _ => trivial, fun hn => absurd rfl hn⟩
    -- the goroutine of the new rotation is not among the old ones
    have hNe : some s.callers.length ≠ some i := by
      have hLt : i < s.callers.length := (List.getElem?_eq_some_iff.mp hi).1
      simp only [ne_eq, some.injEq]
      omega
    exact ⟨fun he => absurd he hNe, fun _ => (h.placed i c hi).2 (by simp [hRot])⟩
  rotation i hi := by
    obtain rfl := some.inj hi
    simp
  pending hp := by
    obtain ⟨i, hi, _⟩ := froze_eq_some.mp (h.pending hp)
    rw [hRot] at hi
    cases hi
  active := h.active
  staged := h.staged
  old := h.old
  owned i b hi := by
    have hLt := h.owned i b hi
    simp only [length_append]
    omega

/-- An unfreeze after the rotation is over. -/
lemma unfreeze (h : s.Kept) {e : Option GateErr} (hFroze : s.froze = some e)
    (hOver : s.part.hasPrev = false) :
    Kept { s.withFence ({ s.fence with gate := s.part.gate.set false false }.signal.note .unfroze)
      with rot := none } := by
  obtain ⟨r, hRot, hr⟩ := froze_eq_some.mp hFroze
  have hPlain : ∀ (i : Nat) (c : Caller), s.callers[i]? = some c → c.Plain := by
    intro i c hi
    by_cases hir : s.rot = some i
    · -- the rotation's own goroutine has returned
      obtain rfl : r = i := some.inj (hRot.symm.trans hir)
      obtain rfl : Caller.returned e = c := some.inj (hr.symm.trans hi)
      trivial
    · exact (h.placed i c hi).2 hir
  refine ⟨?_, fun i c hi => ⟨by simp, fun _ => hPlain i c hi⟩, by simp, fun hp => ?_, h.active,
    h.staged, h.old, h.owned⟩
  · refine h.guarded.unfroze false _ fun c hc => ?_
    obtain ⟨i, hi⟩ := List.getElem?_of_mem hc
    have := hPlain i c hi
    cases c with
    | parked w ch => cases w <;> first | rfl | exact this.elim
    | woken w => cases w <;> first | rfl | exact this.elim
    | called | failed | admitted | returned => rfl
  · rw [show s.part.hasPrev = true from hp] at hOver
    cases hOver

end Kept

/-- What the steps of others leave to the `Commit`s at a partition. -/
structure Leaves (s s' : Site ρ) : Prop where
  owner : s'.owner = s.owner
  /-- A `Commit` that has been admitted stays so, and the datastore it compared with
  stays active. -/
  holds : ∀ i b, s.owner i = some b → s.callers[i]? = some .admitted →
    s'.callers[i]? = some .admitted ∧ s'.crdt = s.crdt

lemma kept_init : ({} : Site ρ).Kept where
  guarded := guarded_init
  placed i c hi := by simp [fence] at hi
  rotation i hi := by cases hi
  pending hp := by cases hp
  active := rfl
  staged g hg := by cases hg
  old hp := by cases hp
  owned i b hi := by cases hi

/-- A goroutine of a `Commit` comes to write. -/
lemma Kept.entered {s : Site ρ} (h : s.Kept) (b : Nat) : (s.entered b).Kept := by
  have hNew : s.rot ≠ some s.callers.length := fun hr => Nat.lt_irrefl _ (h.rotation _ hr)
  have hStepped : s.fence.Stepped _ s.rot (.call .beginWrite) :=
    Fence.stepped_of_step h.placed
      (fun c hc => by cases hc; exact ⟨fun hr => absurd hr hNew, fun _ => trivial⟩) rfl
  have hCalled := h.refence (h.guarded.call .beginWrite) hStepped
  refine ⟨hCalled.guarded, hCalled.placed, hCalled.rotation, hCalled.pending, hCalled.active,
    hCalled.staged, hCalled.old, fun i b' hi => ?_⟩
  by_cases hLen : i = s.callers.length
  · subst hLen
    simp [Site.entered]
  · have hOld : s.owner i = some b' := by
      simpa [Site.entered, update_of_ne hLen] using hi
    exact hCalled.owned i b' hOld

variable [DecidableEq ρ] {C : Crdt ρ κ ν γ} {s s' : Site ρ}

variable {plan : Plan}

/-- `Activate` under a `Freeze` that returned. -/
lemma Kept.activate (h : s.Kept) (hK : s.froze = some none)
    (hs : s.step C (.activate waitSeed plan) = some s') : s'.Kept ∧ s.Leaves s' := by
  -- with the gate sealed there is no admitted `Commit` to care for
  have hLeaves : ∀ {x : Site ρ}, x.owner = s.owner → s.Leaves x := fun hx =>
    ⟨hx, fun i _ _ hi => absurd hi (h.no_admitted hK i)⟩
  simp only [step, hK, isSome_some, if_true] at hs
  rcases hRun : Engine.activate s.part waitSeed plan s.disk with ⟨o, d⟩
  rw [hRun] at hs
  cases hStaged : s.part.staged with
  | none =>
    rw [activate_unstaged waitSeed hStaged] at hRun
    obtain ⟨rfl, rfl⟩ := Prod.mk.inj hRun
    obtain rfl := some.inj hs
    simp only [switched, hStaged]
    exact ⟨h, hLeaves rfl⟩
  | some g =>
    obtain ⟨o₁, _, ⟨rfl, _⟩ | ⟨err, rfl, _⟩⟩ := activate_cases hStaged hRun
    · cases hs
    · obtain rfl := some.inj hs
      simp only [switched, hStaged]
      refine ⟨h.repart d _ _ ?_ ?_ (fun _ => hK) (h.staged g hStaged) (by simp [activated])
        (fun _ _ => h.active), hLeaves rfl⟩
      · cases waitSeed <;> rfl
      · cases waitSeed <;> rfl

/-- `Rollback` switches datastores only while a rotation is pending. -/
lemma Kept.rollback (h : s.Kept) (hs : s.step C (.rollback plan) = some s') : s'.Kept ∧ s.Leaves s' := by
  simp only [step] at hs
  split at hs
  swap
  · cases hs
  rcases hRun : Engine.rollback s.part plan s.disk with ⟨o, d⟩
  rw [hRun] at hs
  -- a rollback that returns leaves the memory alone or restores the previous generation
  obtain ⟨p, hs, hp⟩ : ∃ p, some (s.fellBack p d) = some s' ∧
      ((p = s.part ∧ s.part.hasPrev = true ∧ s.part.staged = none) ∨
        p = reopenReads (rolledBack s.part)) := by
    rcases rollback_cases hRun with ⟨_, hPrev, hStaged, ⟨rfl, _⟩ | ⟨e, rfl⟩⟩ |
      ⟨_, _, ⟨rfl, _⟩ | ⟨err, rfl, _⟩⟩
    · cases hs
    · exact ⟨_, hs, .inl ⟨rfl, hPrev, hStaged⟩⟩
    · cases hs
    · exact ⟨_, hs, .inr rfl⟩
  obtain rfl := some.inj hs
  rcases hp with ⟨rfl, hPrev, hStaged⟩ | rfl
  · simp only [fellBack, hStaged, hPrev, isNone_none, Bool.and_self, if_true]
    exact ⟨h.repart d _ _ rfl rfl h.pending h.active (by simp [hStaged]) h.old, rfl,
      fun _ _ _ hi => ⟨hi, rfl⟩⟩
  · cases hStaged : s.part.staged with
    | some g =>
      simp only [fellBack, rolledBack, hStaged, isNone_some, Bool.false_and, Bool.false_eq_true, if_false]
      exact ⟨h.repart d _ _ rfl rfl h.pending h.active (by simp [reopenReads]) h.old, rfl,
        fun _ _ _ hi => ⟨hi, rfl⟩⟩
    | none =>
      cases hPrev : s.part.hasPrev with
      | false =>
        simp only [fellBack, rolledBack, hStaged, hPrev, Bool.and_false, Bool.false_eq_true, if_false]
        refine ⟨h.repart d _ _ rfl rfl ?_ h.active (by simp [reopenReads, hStaged]) ?_, rfl,
          fun _ _ _ hi => ⟨hi, rfl⟩⟩ <;> simp [reopenReads, hPrev]
      | true =>
        -- pending, so the gate is sealed and no `Commit` is admitted
        simp only [fellBack, rolledBack, reopenReads, hStaged, hPrev, isNone_none,
          Bool.and_self, if_true, Bool.false_eq_true, if_false]
        refine ⟨h.repart d _ _ rfl rfl (by simp) ?_ (by simp) (by simp), rfl,
          fun i _ _ hi => absurd hi (h.no_admitted (h.pending hPrev) i)⟩
        unfold restored
        split
        · next hOpen => exact h.old hPrev hOpen
        · rfl

lemma Kept.stage (h : s.Kept) (hs : s.step C (.stage seed plan) = some s') : s'.Kept ∧ s.Leaves s' := by
  simp only [step] at hs
  split at hs
  swap
  · cases hs
  rcases hRun : Engine.stage C s.part seed plan s.disk with ⟨o, d⟩
  rw [hRun] at hs
  rcases stage_cases hRun with ⟨_, rfl, rfl⟩ | ⟨_, ⟨r, rfl⟩, _⟩ | ⟨_, hErr, _⟩
  · obtain rfl := some.inj hs
    exact ⟨h, rfl, fun _ _ _ hi => ⟨hi, rfl⟩⟩
  · obtain rfl := some.inj hs
    exact ⟨h.repart d _ _ rfl rfl h.pending h.active
      (fun g hg => some.inj hg) h.old, rfl, fun _ _ _ hi => ⟨hi, rfl⟩⟩
  · cases o with
    | ok r => exact absurd rfl (hErr r)
    | err e =>
      obtain rfl := some.inj hs
      exact ⟨h.repart d _ _ rfl rfl h.pending h.active h.staged h.old, rfl, fun _ _ _ hi => ⟨hi, rfl⟩⟩
    | crashed => cases hs

lemma Kept.commit (h : s.Kept) (hs : s.step C (.commit plan) = some s') : s'.Kept ∧ s.Leaves s' := by
  simp only [step] at hs
  split at hs
  swap
  · cases hs
  rcases hRun : Engine.commit s.part plan s.disk with ⟨o, d⟩
  rw [hRun] at hs
  obtain ⟨_, _, ⟨rfl, _⟩ | ⟨err, rfl, _⟩⟩ := commit_cases hRun
  · cases hs
  · obtain rfl := some.inj hs
    exact ⟨h.repart d _ _ rfl rfl (by simp [committed]) h.active h.staged (by simp [committed]),
      rfl, fun _ _ _ hi => ⟨hi, rfl⟩⟩

/-- **Every step at a partition** keeps what the partition relies on, and leaves
the admitted `Commit`s what they have compared. -/
theorem Kept.step (h : s.Kept) (hK : s.Disciplined a) (hs : s.step C a = some s') :
    s'.Kept ∧ s.Leaves s' := by
  cases a with
  | gate a =>
    simp only [Site.step] at hs
    split at hs
    · next hOut =>
      obtain ⟨f, hf, rfl⟩ := map_eq_some_iff.mp hs
      have hStepped : s.fence.Stepped f s.rot a := by
        refine Fence.stepped_of_step h.placed (fun c hc => ?_) hf
        subst hc
        -- a new goroutine is not the rotation's, and comes to write or to read
        have hNew : s.rot ≠ some s.callers.length := fun hr =>
          Nat.lt_irrefl _ (h.rotation _ hr)
        refine ⟨fun hr => absurd hr hNew, fun _ => ?_⟩
        cases c <;> trivial
      refine ⟨h.refence (h.guarded.step (h.placed.noUnfreeze a) hf) hStepped,
        rfl, fun i b hi hc => ⟨hStepped.stays i _ hc (.inr ⟨rfl, fun ha => ?_⟩), rfl⟩⟩
      subst ha
      simp [outside, hi] at hOut
    · cases hs
  | put i es =>
    simp only [Site.step] at hs
    split at hs
    · obtain rfl := some.inj hs
      exact ⟨h.repart _ _ _ rfl rfl h.pending h.active h.staged h.old, rfl, fun _ _ _ hi => ⟨hi, rfl⟩⟩
    · cases hs
  | freeze =>
    simp only [Site.step] at hs
    split at hs
    · next hRot =>
      obtain rfl := some.inj hs
      refine ⟨h.freeze hRot, rfl, fun i _ _ hi => ⟨?_, rfl⟩⟩
      exact (List.getElem?_append_left (List.getElem?_eq_some_iff.mp hi).1).trans hi
    · cases hs
  | stage seed plan => exact h.stage hs
  | activate waitSeed plan => exact h.activate hK hs
  | seeded =>
    obtain rfl := some.inj hs
    exact ⟨h.repart s.disk _ _ rfl rfl h.pending h.active h.staged h.old, rfl, fun _ _ _ hi => ⟨hi, rfl⟩⟩
  | commit plan => exact h.commit hs
  | rollback plan => exact h.rollback hs
  | unfreeze =>
    simp only [Site.step] at hs
    split at hs
    · next hFroze =>
      obtain rfl := some.inj hs
      obtain ⟨e, he⟩ := isSome_iff_exists.mp hFroze
      exact ⟨h.unfreeze he hK, rfl, fun _ _ _ hi => ⟨hi, rfl⟩⟩
    · cases hs

end Site

end

/-! ## Batches -/

section

variable {ρ ω κ ν γ : Type}

/-- The partitions whose sub-batches have been applied. -/
def Progress.applied : Progress → List Nat
  | .staging => []
  | .committing ⟨done, idx, _, .leaving _ none⟩ => done ++ [idx]
  | .committing t => t.done
  | .returned done _ => done

/-- `Commit` deals with each of these partitions once. -/
def Progress.Walks (keys : List Nat) : Progress → Prop
  | .staging => True
  | .committing t => (t.done ++ t.idx :: t.todo).Perm keys
  | .returned done none => done.Perm keys
  | .returned done (some (idx, _)) => idx ∉ done

lemma Progress.applied_next (done todo : List Nat) : (Progress.next done todo).applied = done := by
  cases todo <;> rfl

lemma Progress.walks_next {done todo keys : List Nat} (h : (done ++ todo).Perm keys) :
    (Progress.next done todo).Walks keys := by
  cases todo with
  | nil => simpa [next, Walks] using h
  | cons idx todo => exact h

namespace Hub

/-- What a `Commit` holds at the partition it is at. -/
def Holds (s : Hub ρ ω) (b : Nat) (x : Batch ω) (t : Turn) : Prop :=
  match t.spot with
  | .entering => True
  | .waiting i => (s.site t.idx).owner i = some b
  | .checked i =>
    (s.site t.idx).owner i = some b ∧ (s.site t.idx).callers[i]? = some .admitted ∧
      ∃ sub, x.subs.lookup t.idx = some sub ∧ (s.site t.idx).crdt = sub.c
  | .leaving i _ =>
    (s.site t.idx).owner i = some b ∧ (s.site t.idx).callers[i]? = some .admitted

/-- What holds of batch `b`. -/
structure Sound (s : Hub ρ ω) (b : Nat) (x : Batch ω) : Prop where
  keys : (x.subs.map Prod.fst).Nodup
  walk : x.pc.Walks (x.subs.map Prod.fst)
  holds : ∀ t, x.pc = .committing t → s.Holds b x t
  applied : ∀ idx, (∃ l ∈ s.landed, l.batch = b ∧ l.idx = idx) ↔ idx ∈ x.pc.applied
  /-- What was applied is a whole sub-batch, on the datastore it was opened on. -/
  whole : ∀ l ∈ s.landed, l.batch = b → ∃ sub, x.subs.lookup l.idx = some sub ∧
    l.into = sub.c ∧ l.active = sub.c ∧ l.ops = sub.ops

structure Kept (s : Hub ρ ω) : Prop where
  site : ∀ idx, (s.site idx).Kept
  sound : ∀ b x, s.batches[b]? = some x → s.Sound b x
  once : (s.landed.map fun l => (l.batch, l.idx)).Nodup
  known : ∀ l ∈ s.landed, l.batch < s.batches.length

/-- A partition goes on, and batch `b` keeps what it holds there. -/
def LeavesTo (b : Nat) (y y' : Site ρ) : Prop :=
  ∀ i, y.owner i = some b → y'.owner i = some b ∧
    (y.callers[i]? = some .admitted → y'.callers[i]? = some .admitted ∧ y'.crdt = y.crdt)

lemma LeavesTo.refl (b : Nat) (y : Site ρ) : LeavesTo b y y := fun _ ho => ⟨ho, fun hi => ⟨hi, rfl⟩⟩

variable {s : Hub ρ ω} {b : Nat} {x : Batch ω}

lemma Holds.leaves {s' : Hub ρ ω} (h : s.Holds b x t) (hLeaves : LeavesTo b (s.site t.idx) (s'.site t.idx)) :
    s'.Holds b x t := by
  unfold Holds at h ⊢
  split at h
  · trivial
  · exact (hLeaves _ h).1
  · obtain ⟨hOwner, hAdm, sub, hSub, hc⟩ := h
    obtain ⟨hOwner', hAdm'⟩ := hLeaves _ hOwner
    exact ⟨hOwner', (hAdm' hAdm).1, sub, hSub, (hAdm' hAdm).2.trans hc⟩
  · obtain ⟨hOwner, hAdm⟩ := h
    obtain ⟨hOwner', hAdm'⟩ := hLeaves _ hOwner
    exact ⟨hOwner', (hAdm' hAdm).1⟩

/-- `Commit` is not at a partition it has dealt with. -/
lemma Sound.notDone (h : s.Sound b x) (hpc : x.pc = .committing t) : t.idx ∉ t.done := by
  have hWalk := h.walk
  rw [hpc] at hWalk
  have hNodup : (t.done ++ t.idx :: t.todo).Nodup := hWalk.nodup_iff.mpr h.keys
  intro hIn
  exact (nodup_append.mp hNodup).2.2 _ hIn _ mem_cons_self rfl

variable (h : s.Kept) (hx : s.batches[b]? = some x)

include h hx in
/-- Batch `b` goes on: the others keep what they hold and what was applied for
them. -/
lemma Kept.rebatch (site : Nat → Site ρ)
    (new : List (Landing ω)) (hSite : ∀ idx, (site idx).Kept)
    (hLeaves : ∀ j, j ≠ b → ∀ idx, LeavesTo j (s.site idx) (site idx))
    (hNew : ∀ l ∈ new, l.batch = b)
    (hOnce : ((new ++ s.landed).map fun l => (l.batch, l.idx)).Nodup)
    (hSound : Sound ⟨site, s.batches.set b x', new ++ s.landed⟩ b x') :
    Kept ⟨site, s.batches.set b x', new ++ s.landed⟩ where
  site := hSite
  once := hOnce
  known l hl := by
    rw [length_set]
    rcases mem_append.mp hl with hl | hl
    · rw [hNew l hl]
      exact (List.getElem?_eq_some_iff.mp hx).1
    · exact h.known l hl
  sound j y hy := by
    by_cases hj : b = j
    · subst hj
      obtain rfl : x' = y := by
        rw [List.getElem?_set_self (List.getElem?_eq_some_iff.mp hx).1] at hy
        exact some.inj hy
      exact hSound
    · rw [List.getElem?_set_ne hj] at hy
      have hOld := h.sound j y hy
      -- the new landings are those of `b`
      have hMem : ∀ l : Landing ω, l.batch = j → (l ∈ new ++ s.landed ↔ l ∈ s.landed) := by
        intro l hl
        rw [mem_append, or_iff_right]
        exact fun hIn => hj ((hNew l hIn).symm.trans hl)
      refine ⟨hOld.keys, hOld.walk, fun t ht => ?_, fun idx => ?_, fun l hl hlj => ?_⟩
      · exact (hOld.holds t ht).leaves (hLeaves j (Ne.symm hj) t.idx)
      · rw [← hOld.applied idx]
        constructor
        · rintro ⟨l, hl, hlj, hIdx⟩
          exact ⟨l, (hMem l hlj).mp hl, hlj, hIdx⟩
        · rintro ⟨l, hl, hlj, hIdx⟩
          exact ⟨l, (hMem l hlj).mpr hl, hlj, hIdx⟩
      · exact hOld.whole l ((hMem l hlj).mp hl) hlj

include h hx in
/-- Batch `b` goes on, with one partition changed and nothing applied. -/
lemma Kept.resite (hSite : y.Kept)
    (hLeaves : ∀ j, j ≠ b → LeavesTo j (s.site idx) y) (hWalk : pc.Walks (x.subs.map fst))
    (hApplied : pc.applied = x.pc.applied) (hHolds : ∀ t, pc = .committing t → (s.setSite idx y).Holds b x t)
    : ((s.setSite idx y).setBatch b { x with pc := pc }).Kept := by
  have hb := h.sound b x hx
  refine h.rebatch hx _ [] (fun j => ?_) (fun j hj k => ?_) (by simp) h.once
    ⟨hb.keys, hWalk, hHolds, fun j => ?_, hb.whole⟩
  · by_cases hj : j = idx
    · subst hj
      rw [setSite_self]
      exact hSite
    · rw [setSite_of_ne s y hj]
      exact h.site j
  · by_cases hk : k = idx
    · subst hk
      rw [setSite_self]
      exact hLeaves j hj
    · rw [setSite_of_ne s y hk]
      exact .refl j _
  · rw [hApplied]
    exact hb.applied j

include h hx in
/-- Batch `b` goes on, and nothing else changes. -/
lemma Kept.repc (hWalk : pc.Walks (x.subs.map fst)) (hApplied : pc.applied = x.pc.applied)
    (hHolds : ∀ t, pc = .committing t → s.Holds b x t) :
    (s.setBatch b { x with pc := pc }).Kept := by
  have hb := h.sound b x hx
  exact h.rebatch hx _ [] h.site (fun j _ _ => .refl j _) (by simp) h.once
    ⟨hb.keys, hWalk, hHolds, fun j => hApplied ▸ hb.applied j, hb.whole⟩

section

variable {apply : List ρ → List ω → List ρ} {t : Turn} {sub : SubBatch ω} {s' : Hub ρ ω}

variable (h : s.Kept)

include h

variable (hx : s.batches[b]? = some x) (hpc : x.pc = .committing t) (hsub : x.subs.lookup t.idx = some sub)

include hx hpc in
lemma Kept.enter (hs : s.turn apply b x t sub .enter = some s') : s'.Kept := by
  have hb := h.sound b x hx
  obtain ⟨done, idx, todo, spot⟩ := t
  have hSite := h.site idx
  cases spot with
  | waiting | checked | leaving => cases hs
  | entering =>
    obtain rfl := some.inj hs
    have hWalk := hb.walk
    rw [hpc] at hWalk
    refine h.resite hx (hSite.entered b) (fun j _ i hi => ?_) hWalk (by rw [hpc]; rfl) ?_
    · -- the goroutines of other batches are older ones
      have hLt := hSite.owned i j hi
      refine ⟨?_, fun hAdm => ⟨(List.getElem?_append_left hLt).trans hAdm, rfl⟩⟩
      simpa [Site.entered, update_of_ne (Nat.ne_of_lt hLt)] using hi
    · rintro _ ⟨⟩
      show ((s.setSite idx _).site idx).owner _ = some b
      rw [setSite_self]
      exact update_self _ _ _

include hx hpc in
lemma Kept.refused (hs : s.turn apply b x t sub .refused = some s') : s'.Kept := by
  have hb := h.sound b x hx
  obtain ⟨done, idx, todo, spot⟩ := t
  cases spot with
  | entering | checked | leaving => cases hs
  | waiting i =>
    simp only [turn] at hs
    split at hs
    · obtain rfl := some.inj hs
      exact h.repc hx (hb.notDone hpc) (by rw [hpc]; rfl) (by simp)
    · cases hs

include hx hpc hsub in
lemma Kept.check (hs : s.turn apply b x t sub .check = some s') : s'.Kept := by
  have hb := h.sound b x hx
  have hHolds := hb.holds t hpc
  obtain ⟨done, idx, todo, spot⟩ := t
  have hWalk := hb.walk
  rw [hpc] at hWalk
  cases spot with
  | entering | checked | leaving => cases hs
  | waiting i =>
    simp only [turn] at hs
    split at hs
    · next hAdm =>
      split at hs
      · next hSame =>
        obtain rfl := some.inj hs
        refine h.repc hx hWalk (by rw [hpc]; rfl) ?_
        rintro _ ⟨⟩
        exact ⟨hHolds, hAdm, sub, hsub, hSame⟩
      · obtain rfl := some.inj hs
        refine h.repc hx hWalk (by rw [hpc]; rfl) ?_
        rintro _ ⟨⟩
        exact ⟨hHolds, hAdm⟩
    · cases hs

include hx hpc hsub in
/-- **The commit of a sub-batch**: the datastore it was opened on is the active one. -/
theorem Kept.land (hs : s.turn apply b x t sub (.land fault) = some s') : s'.Kept := by
  have hb := h.sound b x hx
  have hHolds := hb.holds t hpc
  have hNotDone := hb.notDone hpc
  have hWalk := hb.walk
  rw [hpc] at hWalk
  obtain ⟨done, idx, todo, spot⟩ := t
  cases spot with
  | entering | waiting | leaving => cases hs
  | checked i =>
    obtain ⟨hOwner, hAdm, sub', hsub', hSame⟩ := hHolds
    obtain rfl : sub = sub' := some.inj (hsub.symm.trans hsub')
    cases fault with
    | some text =>
      obtain rfl := some.inj hs
      refine h.repc hx hWalk (by rw [hpc]; rfl) ?_
      rintro _ ⟨⟩
      exact ⟨hOwner, hAdm⟩
    | none =>
      obtain rfl := some.inj hs
      have hSite := h.site idx
      have hSite' : (Hub.applied apply (s.site idx) sub).Kept :=
        hSite.repart _ _ _ rfl rfl hSite.pending hSite.active hSite.staged hSite.old
      -- what was applied for this batch so far are the partitions dealt with
      have hApplied : ∀ j, (∃ l ∈ s.landed, l.batch = b ∧ l.idx = j) ↔ j ∈ done := by
        have := hb.applied
        rw [hpc] at this
        exact this
      refine h.rebatch hx _ [⟨b, idx, sub.c, (s.site idx).crdt, sub.ops⟩] (fun j => ?_)
        (fun j _ k => ?_) (by simp) ?_ ⟨hb.keys, hWalk, ?_, fun j => ?_, fun l hl hlb => ?_⟩
      -- the entries of one partition change, and nobody's admission
      · by_cases hj : j = idx
        · subst hj
          exact (setSite_self s j _).symm ▸ hSite'
        · exact (setSite_of_ne s _ hj).symm ▸ h.site j
      · by_cases hk : k = idx
        · subst hk
          exact (setSite_self s k _).symm ▸ fun _ ho => ⟨ho, fun hi => ⟨hi, rfl⟩⟩
        · exact (setSite_of_ne s _ hk).symm ▸ .refl j _
      -- the partition has not been dealt with before
      · refine nodup_cons.mpr ⟨fun hIn => ?_, h.once⟩
        obtain ⟨l, hl, hPlace⟩ := mem_map.mp hIn
        obtain ⟨hlb, hlIdx⟩ := Prod.mk.inj hPlace
        exact hNotDone ((hApplied idx).mp ⟨l, hl, hlb, hlIdx⟩)
      · rintro _ ⟨⟩
        show ((s.setSite idx _).site idx).owner i = some b ∧ _
        rw [setSite_self]
        exact ⟨hOwner, (setSite_self s idx _).symm ▸ hAdm⟩
      · show (∃ l ∈ _ :: s.landed, l.batch = b ∧ l.idx = j) ↔ j ∈ done ++ [idx]
        simp only [mem_cons, exists_eq_or_imp, true_and, hApplied, mem_append, not_mem_nil, or_false]
        rw [or_comm, eq_comm]
      · rcases mem_cons.mp hl with rfl | hl
        · exact ⟨sub, hsub, rfl, hSame, rfl⟩
        · exact hb.whole l hl hlb

include hx hpc in
/-- `endWrite`, and on to the next partition or the end. -/
lemma Kept.leave (hs : s.turn apply b x t sub .leave = some s') : s'.Kept := by
  have hb := h.sound b x hx
  have hHolds := hb.holds t hpc
  have hNotDone := hb.notDone hpc
  have hWalk := hb.walk
  rw [hpc] at hWalk
  obtain ⟨done, idx, todo, spot⟩ := t
  cases spot with
  | entering | waiting | checked => cases hs
  | leaving i r =>
    obtain ⟨hOwner, hAdm⟩ := hHolds
    obtain rfl := some.inj hs
    have hSite := h.site idx
    have hFinish : (s.site idx).fence.step (.finish i) = some ((s.site idx).fence.finish i) :=
      if_pos hAdm
    have hStepped := Fence.stepped_of_step hSite.placed (by simp) hFinish
    have hSite' := hSite.refence (hSite.guarded.finish hAdm) hStepped
    -- the goroutines of other batches do not finish here
    have hLeaves : ∀ j, j ≠ b → LeavesTo j (s.site idx)
        ((s.site idx).withFence ((s.site idx).fence.finish i)) := by
      intro j hj k hk
      refine ⟨hk, fun hi => ⟨hStepped.stays k _ hi (.inr ⟨rfl, ?_⟩), rfl⟩⟩
      rintro ⟨⟩
      exact hj (some.inj (hk.symm.trans hOwner))
    cases r with
    | none =>
      have hPerm : (done ++ idx :: todo).Perm (x.subs.map fst) := hWalk
      refine h.resite hx hSite' hLeaves (Progress.walks_next (by simpa using hPerm)) ?_ ?_
      · rw [Progress.applied_next, hpc]
        rfl
      · intro t' ht'
        cases todo with
        | nil => cases ht'
        | cons idx' todo =>
          cases ht'
          trivial
    | some e =>
      exact h.resite hx hSite' hLeaves hNotDone (by rw [hpc]; rfl) (by simp)

include hx hpc hsub in
lemma Kept.turn (hs : s.turn apply b x t sub a = some s') : s'.Kept := by
  cases a with
  | enter => exact h.enter hx hpc hs
  | refused => exact h.refused hx hpc hs
  | check => exact h.check hx hpc hsub hs
  | land fault => exact h.land hx hpc hsub hs
  | leave => exact h.leave hx hpc hs

end

include h hx in
/-- A batch that is being staged has had nothing applied, so its sub-batches
may still change. -/
lemma Kept.restage (hpc : x.pc = .staging) (hKeys : (x'.subs.map fst).Nodup)
    (hWalk : x'.pc.Walks (x'.subs.map fst)) (hHolds : ∀ t, x'.pc = .committing t → s.Holds b x' t)
    (hApplied : x'.pc.applied = []) : (s.setBatch b x').Kept := by
  have hNone : ∀ l ∈ s.landed, l.batch ≠ b := by
    intro l hl hlb
    have := ((h.sound b x hx).applied l.idx).mp ⟨l, hl, hlb, rfl⟩
    rw [hpc] at this
    cases this
  refine h.rebatch hx _ [] h.site (fun j _ _ => .refl j _) (by simp) h.once
    ⟨hKeys, hWalk, hHolds, fun idx => ?_, fun l hl hlb => absurd hlb (hNone l hl)⟩
  rw [hApplied]
  constructor
  · rintro ⟨l, hl, hlb, _⟩
    exact absurd hlb (hNone l hl)
  · intro hIn
    cases hIn

/-- `sub` keeps one sub-batch for each partition. -/
lemma keys_stageOp (x : Batch ω) (idx : Nat) (active : Handle) (op : ω) (h : (x.subs.map fst).Nodup) :
    ((x.stageOp idx active op).subs.map fst).Nodup := by
  unfold Batch.stageOp
  split
  · next hNone =>
    rw [map_append, map_singleton]
    refine nodup_append.mpr ⟨h, by simp, fun j hj k hk => ?_⟩
    obtain rfl := mem_singleton.mp hk
    rintro rfl
    obtain ⟨e, he, rfl⟩ := mem_map.mp hj
    have hNe := lookup_eq_none_iff.mp hNone e he
    simp at hNe
  · have hSame : ∀ e : Nat × SubBatch ω,
        (if e.1 = idx then (e.1, { e.2 with ops := e.2.ops ++ [op] }) else e).1 = e.1 := by
      intro e
      split <;> rfl
    simpa [List.map_map, comp_def, hSame] using h

lemma kept_init : ({} : Hub ρ ω).Kept where
  site _ := Site.kept_init
  sound b x hx := by simp at hx
  once := nodup_nil
  known l hl := by cases hl

variable [DecidableEq ρ] {apply : List ρ → List ω → List ρ} {C : Crdt ρ κ ν γ} {route : ω → Nat}
    {s' : Hub ρ ω} {t : Turn} {sub : SubBatch ω}

lemma Kept.step (h : s.Kept) (hK : Disciplined s a) (hs : s.step apply C route a = some s') : s'.Kept := by
  cases a with
  | site idx a =>
    obtain ⟨y, hy, rfl⟩ := map_eq_some_iff.mp hs
    obtain ⟨hSite, hLeaves⟩ := (h.site idx).step hK hy
    -- a batch that is admitted there stays admitted, to the same datastore
    refine ⟨fun j => ?_, fun b x hx => ?_, h.once, h.known⟩
    · by_cases hj : j = idx
      · subst hj
        rw [setSite_self]
        exact hSite
      · rw [setSite_of_ne s y hj]
        exact h.site j
    · have hb := h.sound b x hx
      refine ⟨hb.keys, hb.walk, fun t ht => (hb.holds t ht).leaves ?_, hb.applied, hb.whole⟩
      by_cases hj : t.idx = idx
      · rw [hj, setSite_self]
        exact fun i ho => ⟨by rw [hLeaves.owner, ho], fun hi => hLeaves.holds i b ho hi⟩
      · rw [setSite_of_ne s y hj]
        exact .refl b _
  | begin =>
    obtain rfl := some.inj hs
    refine ⟨h.site, fun b x hx => ?_, h.once, fun l hl => ?_⟩
    · have hx' : (s.batches ++ [({} : Batch ω)])[b]? = some x := hx
      rw [List.getElem?_append] at hx'
      split at hx'
      · exact ⟨(h.sound b x hx').keys, (h.sound b x hx').walk, (h.sound b x hx').holds,
          (h.sound b x hx').applied, (h.sound b x hx').whole⟩
      · -- the new batch: nothing has been applied for it
        next hNew =>
        obtain rfl := mem_singleton.mp (mem_of_getElem? hx')
        have hNone : ∀ l ∈ s.landed, l.batch ≠ b := fun l hl hlb => hNew (hlb ▸ h.known l hl)
        refine ⟨nodup_nil, trivial, by simp, fun idx => ⟨?_, by simp [Progress.applied]⟩,
          fun l hl hlb => absurd hlb (hNone l hl)⟩
        rintro ⟨l, hl, hlb, _⟩
        exact absurd hlb (hNone l hl)
    · have hLt := h.known l hl
      simp only [length_append]
      omega
  | add b op =>
    simp only [Hub.step] at hs
    split at hs
    · cases hs
    · next x hx =>
      split at hs
      · next hpc =>
        obtain rfl := some.inj hs
        have hpc' : (x.stageOp (route op) (s.site (route op)).crdt op).pc = .staging := by
          unfold Batch.stageOp
          split <;> exact hpc
        -- a batch that is still being filled holds nothing
        refine h.restage hx hpc (keys_stageOp x _ _ op (h.sound b x hx).keys) ?_ ?_ ?_
        · rw [hpc']
          trivial
        · rw [hpc']
          simp
        · rw [hpc']
          rfl
      · cases hs
      · cases hs
  | commit b order =>
    simp only [Hub.step] at hs
    split at hs
    · cases hs
    · next x hx =>
      split at hs
      · next hOrder =>
        obtain rfl := some.inj hs
        refine h.restage hx hOrder.1 (h.sound b x hx).keys (Progress.walks_next hOrder.2)
          (fun t ht => ?_) (Progress.applied_next [] order)
        cases order with
        | nil => cases ht
        | cons idx todo =>
          cases ht
          trivial
      · cases hs
  | turn b a =>
    simp only [Hub.step] at hs
    split at hs
    · cases hs
    · next x hx =>
      split at hs
      · cases hs
      · cases hs
      · next t hpc =>
        split at hs
        · cases hs
        · next sub hsub => exact h.turn hx hpc hsub hs

/-! ## The result -/

/-- The step to `s'` applies a sub-batch: all its operations at once, to one
namespace of one partition, and nothing else changes in any namespace. -/
structure Lands (apply : List ρ → List ω → List ρ) (s s' : Hub ρ ω) (l : Landing ω) : Prop where
  recorded : s'.landed = l :: s.landed
  active : l.active = (s.site l.idx).crdt
  disk : (s'.site l.idx).disk =
    (s.site l.idx).disk.setNs l.into.gen (apply ((s.site l.idx).disk.ns l.into.gen) l.ops)
  others : ∀ idx, idx ≠ l.idx → (s'.site idx).disk = (s.site idx).disk

/-- The steps of batches. -/
def ofBatch : HubAct ρ ω → Bool
  | .site _ _ => false
  | .begin | .add _ _ | .commit _ _ | .turn _ _ => true

/-- **Batches are fenced.** -/
structure Fenced (apply : List ρ → List ω → List ρ) (C : Crdt ρ κ ν γ) (route : ω → Nat)
    (s : Hub ρ ω) : Prop where
  /-- What has been applied is a whole sub-batch, to the datastore it was opened on,
  which was the active one. -/
  whole : ∀ l ∈ s.landed, ∃ x sub, s.batches[l.batch]? = some x ∧
    x.subs.lookup l.idx = some sub ∧ l.into = sub.c ∧ l.active = sub.c ∧ l.ops = sub.ops
  /-- It has been applied once. -/
  once : (s.landed.map fun l => (l.batch, l.idx)).Nodup
  /-- If `Commit` returned no error, every sub-batch has been applied; -/
  succeeded : ∀ b x done, s.batches[b]? = some x → x.pc = .returned done none →
    ∀ idx sub, x.subs.lookup idx = some sub → ∃ l ∈ s.landed, l.batch = b ∧ l.idx = idx
  /-- if it returned an error, not the one it was met at. -/
  failed : ∀ b x done idx e, s.batches[b]? = some x → x.pc = .returned done (some (idx, e)) →
    ∀ l ∈ s.landed, l.batch = b → l.idx ≠ idx
  /-- A batch changes the namespaces by applying a sub-batch, and in no other way. -/
  only : ∀ a s', ofBatch a = true → s.step apply C route a = some s' →
    (s'.landed = s.landed ∧ ∀ idx, (s'.site idx).disk = (s.site idx).disk) ∨ ∃ l, Lands apply s s' l
  /-- If another generation, or the same one opened anew, is active when `Commit` has entered
  the gate, it will return `ErrGenerationChanged`, -/
  changed : ∀ b x t i sub, s.batches[b]? = some x → x.pc = .committing t → t.spot = .waiting i →
    x.subs.lookup t.idx = some sub → (s.site t.idx).callers[i]? = some .admitted →
    (s.site t.idx).part.gen ≠ sub.c.gen ∨ (s.site t.idx).crdt ≠ sub.c →
      s.step apply C route (.turn b .check) =
        some (s.setBatch b (x.goes t (.leaving i (some .generationChanged))))
  /-- and that with the namespaces unchanged. -/
  returns : ∀ b x t i e, s.batches[b]? = some x → x.pc = .committing t →
    t.spot = .leaving i (some e) → (x.subs.lookup t.idx).isSome → ∀ a s',
    s.step apply C route (.turn b a) = some s' →
      s'.batches[b]? = some { x with pc := .returned t.done (some (t.idx, e)) } ∧
      ∀ idx, (s'.site idx).disk = (s.site idx).disk

section

omit [DecidableEq ρ]

/-- A partition that changes with its namespaces as they were. -/
lemma disk_setSite (h : y.disk = (s.site idx).disk) (j : Nat) :
    ((s.setSite idx y).site j).disk = (s.site j).disk := by
  by_cases hj : j = idx
  · subst hj
    rw [setSite_self, h]
  · rw [setSite_of_ne s y hj]

/-- What a step of `Commit` does to the namespaces. -/
lemma turn_disk (hs : s.turn apply b x t sub a = some s') :
    (s'.landed = s.landed ∧ ∀ idx, (s'.site idx).disk = (s.site idx).disk) ∨ ∃ l, Lands apply s s' l := by
  obtain ⟨done, idx, todo, spot⟩ := t
  cases a with
  | enter =>
    cases spot with
    | entering =>
      obtain rfl := some.inj hs
      exact .inl ⟨rfl, disk_setSite rfl⟩
    | waiting | checked | leaving => cases hs
  | refused =>
    cases spot with
    | waiting i =>
      simp only [turn] at hs
      split at hs
      · obtain rfl := some.inj hs
        exact .inl ⟨rfl, fun _ => rfl⟩
      · cases hs
    | entering | checked | leaving => cases hs
  | check =>
    cases spot with
    | waiting i =>
      simp only [turn] at hs
      split at hs
      · split at hs <;>
        · obtain rfl := some.inj hs
          exact .inl ⟨rfl, fun _ => rfl⟩
      · cases hs
    | entering | checked | leaving => cases hs
  | land fault =>
    cases spot with
    | checked i =>
      cases fault with
      | some text =>
        obtain rfl := some.inj hs
        exact .inl ⟨rfl, fun _ => rfl⟩
      | none =>
        obtain rfl := some.inj hs
        refine .inr ⟨_, rfl, rfl, ?_, fun j hj => ?_⟩
        · exact congrArg Site.disk (setSite_self s idx _)
        · exact congrArg Site.disk (setSite_of_ne s _ hj)
    | entering | waiting | leaving => cases hs
  | leave =>
    cases spot with
    | leaving i r =>
      obtain rfl := some.inj hs
      exact .inl ⟨rfl, disk_setSite rfl⟩
    | entering | waiting | checked => cases hs

end

include hx in
/-- The step of a batch that is being committed. -/
lemma step_turn (hpc : x.pc = .committing t) (hsub : x.subs.lookup t.idx = some sub) (a : CommitAct) :
    s.step apply C route (.turn b a) = s.turn apply b x t sub a := by
  simp only [Hub.step, hx, hpc, hsub]

lemma step_only (ha : ofBatch a = true) (hs : s.step apply C route a = some s') :
    (s'.landed = s.landed ∧ ∀ idx, (s'.site idx).disk = (s.site idx).disk) ∨ ∃ l, Lands apply s s' l := by
  cases a with
  | site idx a => cases ha
  | begin =>
    obtain rfl := some.inj hs
    exact .inl ⟨rfl, fun _ => rfl⟩
  | add b op =>
    simp only [Hub.step] at hs
    split at hs
    · cases hs
    · split at hs
      · obtain rfl := some.inj hs
        exact .inl ⟨rfl, fun _ => rfl⟩
      · cases hs
      · cases hs
  | commit b order =>
    simp only [Hub.step] at hs
    split at hs
    · cases hs
    · split at hs
      · obtain rfl := some.inj hs
        exact .inl ⟨rfl, fun _ => rfl⟩
      · cases hs
  | turn b a =>
    simp only [Hub.step] at hs
    split at hs
    · cases hs
    · split at hs
      · cases hs
      · cases hs
      · split at hs
        · cases hs
        · exact turn_disk hs

include h hx in
/-- `Commit` has found another datastore. -/
lemma Kept.changed {i : Nat} (hpc : x.pc = .committing t) (hspot : t.spot = .waiting i)
    (hsub : x.subs.lookup t.idx = some sub) (hAdm : (s.site t.idx).callers[i]? = some .admitted)
    (hGen : (s.site t.idx).part.gen ≠ sub.c.gen ∨ (s.site t.idx).crdt ≠ sub.c) :
    s.step apply C route (.turn b .check) =
    some (s.setBatch b (x.goes t (.leaving i (some .generationChanged)))) := by
  have hNe : (s.site t.idx).crdt ≠ sub.c := by
    rcases hGen with hGen | hGen
    · -- a datastore belongs to one generation
      intro he
      exact hGen ((h.site t.idx).active.symm.trans (congrArg Handle.gen he))
    · exact hGen
  rw [step_turn hx hpc hsub]
  simp only [Hub.turn, hspot, if_pos hAdm, if_neg hNe]

include hx in
/-- `Commit` leaves with its error. -/
lemma step_returns {i : Nat}
    (hpc : x.pc = .committing t) (hspot : t.spot = .leaving i (some e))
    (hsub : (x.subs.lookup t.idx).isSome)
    (hs : s.step apply C route (.turn b a) = some s') :
    s'.batches[b]? = some { x with pc := .returned t.done (some (t.idx, e)) } ∧
      ∀ idx, (s'.site idx).disk = (s.site idx).disk := by
  obtain ⟨sub, hsub⟩ := isSome_iff_exists.mp hsub
  rw [step_turn hx hpc hsub] at hs
  obtain ⟨done, idx, todo, spot⟩ := t
  subst hspot
  cases a with
  | leave =>
    obtain rfl := some.inj hs
    exact ⟨List.getElem?_set_self (List.getElem?_eq_some_iff.mp hx).1, disk_setSite rfl⟩
  | enter | refused | check | land => cases hs

/-- Two batches are opened on generation 0. The first commits; then the partition
is rotated, and the second comes too late. -/
private def rotationRun : List (HubAct KvEntry KvEntry) :=
  [.begin, .add 0 (1, some 5), .add 0 (2, some 6), .begin, .add 1 (1, some 7),
    .commit 0 [0], .turn 0 .enter, .site 0 (.gate (.run 0)), .turn 0 .check,
    .site 0 .freeze, .site 0 (.gate (.run 1)), .turn 0 (.land none), .turn 0 .leave,
    .site 0 (.gate (.wake 1)), .site 0 (.gate (.run 1)), .site 0 (.stage true .quiet),
    .site 0 (.activate false .quiet), .site 0 (.commit .quiet), .site 0 .unfreeze,
    .commit 1 [0], .turn 1 .enter, .site 0 (.gate (.run 2)), .turn 1 .check, .turn 1 .leave]

end Hub

end

end RedGeo.Engine
