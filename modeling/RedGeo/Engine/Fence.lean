import RedGeo.Lib.Run
import RedGeo.Engine.Partition

/-!
# RedGeo — the write gate under concurrency

`engine/gate.go`, goroutine by goroutine. Every access to a gate's fields is
made with `mu` held, so one step of a goroutine is what it does from taking the
mutex to releasing it; between two such steps any other goroutine may run, and
a goroutine that waits may be woken, cancelled or timed out.

* `Caller` — where a goroutine that called the gate is.
* `Fence` — the gate, how often its channel has been replaced, the callers, and
  what they have observed, newest first.
* `NoUnfreezeWhileWaiting` — what the rotation node guarantees for a partition:
  it unfreezes only when no `freeze` is still waiting.
* `gate_excludes` — in every such run the in-flight count is the number of
  admitted, unfinished writes, and from a `freeze` that returned without error
  until the next unfreeze that number is zero and no write is admitted.
-/

namespace RedGeo.Engine

open Lib List Option

/-! ## Goroutines at the gate -/

/-- What a goroutine waits for in `waitWhile`. -/
inductive Wait
  | write
  | read
  | freeze
  deriving DecidableEq, Repr

/-- The errors of `waitWhile`: `ctx.Err()` and `ErrPartitionBusy`. -/
inductive GateErr
  | ctx
  | busy
  deriving DecidableEq, Repr

/-- The calls of a gate. -/
inductive GateCall
  | beginWrite
  | waitReadable
  | freeze
  | set (frozen blockReads : Bool)
  | setBlockReads (b : Bool)
  deriving DecidableEq, Repr

/-- Where a goroutine is. -/
inductive Caller
  /-- Before its first `mu.Lock()`. -/
  | called (c : GateCall)
  /-- In the `select` of `waitWhile`, on the channel it found. -/
  | parked (w : Wait) (ch : Nat)
  /-- Out of the `select` because its channel was closed. -/
  | woken (w : Wait)
  /-- Out of the `select` for another reason. -/
  | failed (w : Wait) (e : GateErr)
  /-- Admitted to write; the function `beginWrite` returned has not been run. -/
  | admitted
  | returned (e : Option GateErr)
  deriving DecidableEq, Repr

/-- What has happened at the gate, by goroutine. -/
inductive Notice
  | admitted (i : Nat)
  | finished (i : Nat)
  /-- A `freeze` returned without error. -/
  | froze (i : Nat)
  | unfroze
  deriving DecidableEq, Repr

/-- The gate and all who have called it. -/
structure Fence where
  gate : Gate := {}
  /-- How often `changed` has been closed and replaced. -/
  changed : Nat := 0
  callers : List Caller := []
  log : List Notice := []
  deriving DecidableEq, Repr

namespace Fence

variable (f : Fence) (i : Nat)

/-- Goroutine `i` is now at `c`. -/
def move (c : Caller) : Fence := { f with callers := f.callers.set i c }

def note (f : Fence) (n : Notice) : Fence := { f with log := n :: f.log }

def signal (f : Fence) : Fence := { f with changed := f.changed + 1 }

/-- Leave the mutex and wait on the current channel. -/
def park (w : Wait) : Fence := f.move i (.parked w f.changed)

/-- `waitWhile` from the test of its condition on, and what follows it once the
condition is false. -/
def await : Wait → Fence
  | .write =>
    match f.gate.beginWrite with
    | none => f.park i .write
    | some g => ({ f with gate := g }.move i .admitted).note (.admitted i)
  | .read => if f.gate.readable then f.move i (.returned none) else f.park i .read
  | .freeze =>
    if 0 < f.gate.inflight then f.park i .freeze
    else (f.move i (.returned none)).note (.froze i)

/-- What goroutine `i` does from taking the mutex to releasing it. -/
def run : Caller → Option Fence
  | .called .beginWrite => some (f.await i .write)
  | .called .waitReadable => some (f.await i .read)
  | .called .freeze => some ({ f with gate := f.gate.freeze.1 }.signal.await i .freeze)
  | .called (.set frozen blockReads) =>
    let f' := { f with gate := f.gate.set frozen blockReads }.signal.move i (.returned none)
    some (if frozen then f' else f'.note .unfroze)
  | .called (.setBlockReads b) =>
    some ({ f with gate := f.gate.setBlockReads b }.signal.move i (.returned none))
  | .woken w => some (f.await i w)
  | .failed _ e => some (f.move i (.returned (some e)))
  | .parked _ _ | .admitted | .returned _ => none

/-- The function `beginWrite` returned. -/
def finish : Fence :=
  ({ f with gate := f.gate.endWrite }.signal.move i (.returned none)).note (.finished i)

end Fence

/-- What can happen. -/
inductive GateAct
  | call (c : GateCall)
  | run (i : Nat)
  | wake (i : Nat)
  | fail (i : Nat) (e : GateErr)
  | finish (i : Nat)
  deriving DecidableEq, Repr

namespace Fence

def step (f : Fence) : GateAct → Option Fence
  | .call c => some { f with callers := f.callers ++ [.called c] }
  | .run i => f.callers[i]?.bind (f.run i)
  | .wake i =>
    match f.callers[i]? with
    | some (.parked w ch) => if ch < f.changed then some (f.move i (.woken w)) else none
    | _ => none
  | .fail i e =>
    match f.callers[i]? with
    | some (.parked w _) => some (f.move i (.failed w e))
    | _ => none
  | .finish i => if f.callers[i]? = some .admitted then some (f.finish i) else none

end Fence

/-! ## Statement -/

/-- The writes that were admitted and have not finished. -/
def unfinished : List Notice → List Nat
  | [] => []
  | .admitted i :: log => i :: unfinished log
  | .finished i :: log => (unfinished log).erase i
  | .froze _ :: log | .unfroze :: log => unfinished log

/-- A `freeze` has returned without error, and no unfreeze came since. -/
def Sealed : List Notice → Bool
  | [] => false
  | .froze _ :: _ => true
  | .unfroze :: _ => false
  | .admitted _ :: log | .finished _ :: log => Sealed log

/-- A `freeze` that waits for the writes in flight. -/
def Caller.freezing : Caller → Bool
  | .parked .freeze _ | .woken .freeze => true
  | _ => false

/-- An unfreeze about to run. -/
def Caller.unfreezes : Caller → Bool
  | .called (.set frozen _) => !frozen
  | _ => false

/-- No unfreeze runs while a `freeze` is still waiting. -/
def NoUnfreezeWhileWaiting (f : Fence) : GateAct → Prop
  | .run i => f.callers[i]?.any Caller.unfreezes → f.callers.any Caller.freezing = false
  | _ => True

instance (f : Fence) : (a : GateAct) → Decidable (NoUnfreezeWhileWaiting f a)
  | .run _ => inferInstanceAs (Decidable (_ → _))
  | .call _ | .wake _ | .fail _ _ | .finish _ => isTrue trivial

/-! ## The invariant -/

/-- What every goroutine at the gate can rely on. -/
structure Guarded (f : Fence) : Prop where
  inflight : f.gate.inflight = (unfinished f.log).length
  admitted : ∀ i, f.callers[i]? = some .admitted → i ∈ unfinished f.log
  /-- A `freeze` has closed the gate before it waits. -/
  waiting : ∀ c ∈ f.callers, c.freezing = true → f.gate.frozen = true
  closed : Sealed f.log = true → f.gate.frozen = true ∧ f.gate.inflight = 0
  /-- No write was admitted through a sealed gate. -/
  past : ∀ log i, (.admitted i :: log) <:+ f.log → Sealed log = false

lemma guarded_init : Guarded {} where
  inflight := rfl
  admitted i h := by simp at h
  waiting c h := by simp at h
  closed h := by simp [Sealed] at h
  past log i h := by simp at h

namespace Guarded

variable {f : Fence} {i : Nat}

variable (h : Guarded f)

include h

/-- A goroutine that is not admitted moves on; it waits as a `freeze` only with
the gate closed. -/
lemma move (hAdm : c ≠ .admitted)
    (hFreezing : c.freezing = true → f.gate.frozen = true) : Guarded (f.move i c) where
  inflight := h.inflight
  admitted j hj := by
    have hOld : (f.callers.set i c)[j]? = some .admitted := hj
    rw [List.getElem?_set] at hOld
    split at hOld
    · split at hOld
      · exact absurd (some.inj hOld) hAdm
      · cases hOld
    · exact h.admitted j hOld
  waiting c' hc' hf := by
    rcases mem_or_eq_of_mem_set hc' with hOld | rfl
    · exact h.waiting c' hOld hf
    · exact hFreezing hf
  closed := h.closed
  past := h.past

/-- The gate may be closed at any time, and its reads blocked or let through. -/
lemma regate (n : Nat) (hInflight : g.inflight = f.gate.inflight)
    (hFrozen : f.gate.frozen = true → g.frozen = true) :
    Guarded { f with gate := g, changed := n } where
  inflight := hInflight.trans h.inflight
  admitted := h.admitted
  waiting c hc hf := hFrozen (h.waiting c hc hf)
  closed hs := ⟨hFrozen (h.closed hs).1, hInflight.trans (h.closed hs).2⟩
  past := h.past

lemma call (c : GateCall) :
    Guarded { f with callers := f.callers ++ [.called c] } where
  inflight := h.inflight
  admitted j hj := by
    have hOld : (f.callers ++ [Caller.called c])[j]? = some .admitted := hj
    rcases mem_append.mp (mem_of_getElem? hOld) with _ | hNew
    · rw [List.getElem?_append] at hOld
      split at hOld
      · exact h.admitted j hOld
      · -- the one caller that was appended is not admitted
        exact absurd (mem_of_getElem? hOld) (by simp)
    · exact absurd hNew (by simp)
  waiting c' hc' hf := by
    rcases mem_append.mp hc' with hOld | hNew
    · exact h.waiting c' hOld hf
    · rw [mem_singleton.mp hNew] at hf
      cases hf
  closed := h.closed
  past := h.past

/-- A write is admitted: the gate is open, so it is not sealed. -/
lemma admits (hg : f.gate.beginWrite = some g) :
    Guarded (({ f with gate := g }.move i .admitted).note (.admitted i)) := by
  have hOpen : f.gate.frozen = false ∧ g = { f.gate with inflight := f.gate.inflight + 1 } := by
    unfold Gate.beginWrite at hg
    split at hg
    · cases hg
    · next hFrozen => exact ⟨by simpa using hFrozen, (some.inj hg).symm⟩
  obtain ⟨hFrozen, rfl⟩ := hOpen
  have hSealed : Sealed f.log = false := by
    by_contra hs
    rw [(h.closed (by simpa using hs)).1] at hFrozen
    cases hFrozen
  refine ⟨?_, ?_, ?_, ?_, ?_⟩
  · show f.gate.inflight + 1 = (i :: unfinished f.log).length
    rw [h.inflight, length_cons]
  · intro j hj
    have hOld : (f.callers.set i .admitted)[j]? = some .admitted := hj
    show j ∈ i :: unfinished f.log
    by_cases hij : i = j
    · exact hij ▸ mem_cons_self
    · rw [List.getElem?_set_ne hij] at hOld
      exact mem_cons_of_mem _ (h.admitted j hOld)
  · intro c hc hf
    rcases mem_or_eq_of_mem_set hc with hOld | rfl
    · exact h.waiting c hOld hf
    · cases hf
  · intro hs
    change Sealed f.log = true at hs
    rw [hSealed] at hs
    cases hs
  · intro log j hSuffix
    rcases suffix_cons_iff.mp hSuffix with hEq | hOld
    · rw [(List.cons.inj hEq).2]
      exact hSealed
    · exact h.past log j hOld

/-- A write finishes: it was one of the unfinished ones. -/
lemma finish (hi : f.callers[i]? = some .admitted) : Guarded (f.finish i) := by
  have hMem := h.admitted i hi
  have hLen : (f.gate.inflight : Nat) - 1 = ((unfinished f.log).erase i).length := by
    rw [length_erase_of_mem hMem, h.inflight]
  refine ⟨hLen, ?_, ?_, ?_, ?_⟩
  · intro j hj
    have hOld : (f.callers.set i (.returned none))[j]? = some .admitted := hj
    have hij : i ≠ j := by
      rintro rfl
      rw [List.getElem?_set] at hOld
      split at hOld
      · split at hOld <;> cases hOld
      · contradiction
    rw [List.getElem?_set_ne hij] at hOld
    exact (mem_erase_of_ne hij.symm).mpr (h.admitted j hOld)
  · intro c hc hf
    rcases mem_or_eq_of_mem_set hc with hOld | rfl
    · exact h.waiting c hOld hf
    · cases hf
  · intro hs
    obtain ⟨hFrozen, hZero⟩ := h.closed hs
    exact ⟨hFrozen, by show f.gate.inflight - 1 = 0; omega⟩
  · intro log j hSuffix
    rcases suffix_cons_iff.mp hSuffix with hEq | hOld
    · cases hEq
    · exact h.past log j hOld

/-- A `freeze` returns: the gate is closed and no write is in flight. -/
lemma froze (hFrozen : f.gate.frozen = true) (hZero : f.gate.inflight = 0) :
    Guarded (f.note (.froze i)) where
  inflight := h.inflight
  admitted := h.admitted
  waiting := h.waiting
  closed _ := ⟨hFrozen, hZero⟩
  past log j hSuffix := by
    rcases suffix_cons_iff.mp hSuffix with hEq | hOld
    · cases hEq
    · exact h.past log j hOld

/-- The gate is opened with no `freeze` waiting. -/
lemma unfroze (blockReads : Bool) (n : Nat)
    (hNone : ∀ c ∈ f.callers, c.freezing = false) :
    Guarded ({ f with gate := f.gate.set false blockReads, changed := n }.note .unfroze) where
  inflight := h.inflight
  admitted := h.admitted
  waiting c hc hf := absurd hf (by simp [hNone c hc])
  closed hs := by cases hs
  past log j hSuffix := by
    rcases suffix_cons_iff.mp hSuffix with hEq | hOld
    · cases hEq
    · exact h.past log j hOld

/-- `waitWhile` and what follows it, for a `freeze` with the gate closed. -/
lemma await (hFreeze : w = .freeze → f.gate.frozen = true) : Guarded (f.await i w) := by
  cases w with
  | write =>
    rw [Fence.await]
    split
    · exact h.move (by simp) (by simp [Caller.freezing])
    · next g hg => exact h.admits hg
  | read =>
    rw [Fence.await]
    split
    · exact h.move (by simp) (by simp [Caller.freezing])
    · exact h.move (by simp) (by simp [Caller.freezing])
  | freeze =>
    rw [Fence.await]
    split
    · exact h.move (by simp) fun _ => hFreeze rfl
    · next hZero =>
      have hMoved : Guarded (f.move i (.returned none)) :=
        h.move (by simp) (by simp [Caller.freezing])
      exact hMoved.froze (hFreeze rfl) (Nat.eq_zero_of_not_pos hZero)

/-- What a goroutine does with the mutex held. -/
lemma run (hc : c ∈ f.callers) (hUnfreeze : c.unfreezes = true → ∀ c ∈ f.callers, c.freezing = false)
    (hRun : f.run i c = some f') : Guarded f' := by
  cases c with
  | called call =>
    cases call with
    | beginWrite =>
      obtain rfl := some.inj hRun
      exact h.await (by simp)
    | waitReadable =>
      obtain rfl := some.inj hRun
      exact h.await (by simp)
    | freeze =>
      obtain rfl := some.inj hRun
      have hClosed : Guarded { f with gate := f.gate.freeze.1 }.signal :=
        h.regate _ rfl fun _ => rfl
      exact hClosed.await fun _ => rfl
    | set frozen blockReads =>
      obtain rfl := some.inj hRun
      cases frozen with
      | true =>
        have hClosed : Guarded { f with gate := f.gate.set true blockReads }.signal :=
          h.regate _ rfl fun _ => rfl
        exact hClosed.move (by simp) (by simp [Caller.freezing])
      | false =>
        -- the unfreeze comes first, then the goroutine moves: the order is of no account
        have hMoved : Guarded (f.move i (.returned none)) :=
          h.move (by simp) (by simp [Caller.freezing])
        refine hMoved.unfroze blockReads _ fun c' hc' => ?_
        rcases mem_or_eq_of_mem_set hc' with hOld | rfl
        · exact hUnfreeze rfl c' hOld
        · rfl
    | setBlockReads b =>
      obtain rfl := some.inj hRun
      have hGate : Guarded { f with gate := f.gate.setBlockReads b }.signal :=
        h.regate _ rfl fun hFrozen => hFrozen
      exact hGate.move (by simp) (by simp [Caller.freezing])
  | woken w =>
    obtain rfl := some.inj hRun
    exact h.await fun hw => h.waiting _ hc (by rw [hw]; rfl)
  | failed w e =>
    obtain rfl := some.inj hRun
    exact h.move (by simp) (by simp [Caller.freezing])
  | parked | admitted | returned => cases hRun

lemma step (hK : NoUnfreezeWhileWaiting f a) (hs : f.step a = some f') : Guarded f' := by
  cases a with
  | call c =>
    obtain rfl := some.inj hs
    exact h.call c
  | run i =>
    obtain ⟨c, hc, hRun⟩ := bind_eq_some_iff.mp hs
    refine h.run (mem_of_getElem? hc) (fun hUn => ?_) hRun
    have hNone : f.callers.any Caller.freezing = false := hK (by simpa [hc] using hUn)
    intro c' hc'
    simpa using any_eq_false.mp hNone c' hc'
  | wake i =>
    simp only [Fence.step] at hs
    split at hs
    · next w ch hc =>
      split at hs
      · obtain rfl := some.inj hs
        -- a woken `freeze` was parked before
        refine h.move (by simp) fun hf => h.waiting _ (mem_of_getElem? hc) ?_
        cases w <;> first | rfl | cases hf
      · cases hs
    · cases hs
  | fail i e =>
    simp only [Fence.step] at hs
    split at hs
    · obtain rfl := some.inj hs
      exact h.move (by simp) (by simp [Caller.freezing])
    · cases hs
  | finish i =>
    simp only [Fence.step] at hs
    split at hs
    · next hi =>
      obtain rfl := some.inj hs
      exact h.finish hi
    · cases hs

end Guarded

/-! ## The result -/

/-- **The gate excludes writes.** Whatever the goroutines do, as long as no
unfreeze runs while a `freeze` waits: the in-flight count is the number of
admitted, unfinished writes; while the gate is sealed there are none; and no
write was ever admitted through a sealed gate. -/
theorem gate_excludes {f : Fence} (h : Reach Fence.step NoUnfreezeWhileWaiting {} f) :
    f.gate.inflight = (unfinished f.log).length ∧ (Sealed f.log = true → unfinished f.log = []) ∧ ∀ log i,
    (.admitted i :: log) <:+ f.log → Sealed log = false := by
  have hf : Guarded _ := h.induct guarded_init fun _ hf hK hs => hf.step hK hs
  refine ⟨hf.inflight, fun hs => ?_, hf.past⟩
  rw [← length_eq_zero_iff, ← hf.inflight]
  exact (hf.closed hs).2

/-- A write is admitted, a `freeze` waits for it, a second write comes and times
out, the first one finishes and the `freeze` returns. -/
private def freezeRun : List GateAct :=
  [.call .beginWrite, .run 0, .call .freeze, .run 1, .call .beginWrite, .run 2, .finish 0,
    .wake 2, .run 2, .wake 1, .run 1, .fail 2 .busy, .run 2]

theorem gate_excludes_sealed : ∃ f : Fence, Reach Fence.step NoUnfreezeWhileWaiting {} f ∧ f.callers =
    [.returned none, .returned none, .returned (some .busy)] ∧ Sealed f.log = true ∧ f.gate.inflight = 0 ∧
    unfinished f.log = [] := by
  obtain ⟨f, hReach, hCallers, hSealed⟩ : ∃ f, Reach Fence.step NoUnfreezeWhileWaiting {} f ∧
      f.callers = [.returned none, .returned none, .returned (some .busy)] ∧ Sealed f.log = true :=
    Reach.of_eval freezeRun (by decide)
  obtain ⟨hInflight, hNone, _⟩ := gate_excludes hReach
  exact ⟨f, hReach, hCallers, hSealed, by rw [hInflight, hNone hSealed]; rfl, hNone hSealed⟩

end RedGeo.Engine
