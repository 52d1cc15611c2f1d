import RedGeo.Store.Registers

/-!
# RedGeo — do local writes dominate?

A client that writes a register and reads it back on the same node expects its
write. The read takes the greatest stamp stored, but the stamp of the write
comes from the node's own clock, which knows nothing of the stamps that have
arrived from other replicas: `Observe`, which would tell it, is never called.
With a wall clock that is behind another replica's, a write or a deletion is
acknowledged and not seen.

Nodes here run any writes of any registers and receive any slots of the others,
and every wall clock reads what it likes.

* `Ahead` — nothing below the register is read as a slot of the writer's or
  ranks above the stamp that is next.
* `local_writes_dominate` — in every run with `Ahead` writes each of them is
  read back, and a deleted key does not exist; `skewed_delete_survives` is a run
  in which one does.
-/

namespace RedGeo.Store

open Lib Function Option

/-! ## The nodes -/

/-- A node: its clock and its datastore. The last field is a ghost, the register
and slot that the last action wrote. -/
structure Node where
  clock : Clock
  kv : Kv := ∅
  fresh : Option (List Seg × Slot) := none

inductive Action
  /-- A write of a command that has succeeded. -/
  | op (o : Op)
  /-- A slot write that has drawn its stamp and failed to store the slot. -/
  | fail
  /-- What replica `src` has at one of its keys arrives. -/
  | deliver (src : Replica) (k : Path)
  deriving DecidableEq

namespace Node

variable (n : Replica) (x : Node)

def writeSlot (base : List Seg) (tag : UInt8) (value : Bytes) : Node :=
  let (stamp, clock) := x.clock.now
  let slot := ⟨stamp, tag, value⟩
  { clock := clock
    kv := x.kv.insert (slotKey base n) (encodeSlot slot)
    fresh := some (base, slot) }

def apply : Op → Node
  | .slot base tag value => x.writeSlot n base tag value
  | .put k v => { x with kv := x.kv.insert k v, fresh := none }
  | .del k => { x with kv := x.kv.erase k, fresh := none }

/-- The value at a key, or its absence, arrives. -/
def receive (x : Node) (k : Path) : Option Bytes → Node
  | some v => { x with kv := x.kv.insert k v, fresh := none }
  | none => { x with kv := x.kv.erase k, fresh := none }

end Node

/-- The nodes of all replicas. -/
structure Nodes where
  node : Replica → Node

namespace Nodes

/-- Nodes that have never run, with their wall clocks. -/
def init (wall : Replica → Nat → Int64) : Nodes := ⟨fun n => { clock := { wall := wall n } }⟩

/-- One step: what arrives at a node is of another replica. -/
def step (s : Nodes) (l : Replica × Action) : Option Nodes :=
  let x := s.node l.1
  match l.2 with
  | .op o => some ⟨update s.node l.1 (x.apply l.1 o)⟩
  | .fail => some ⟨update s.node l.1 { x with clock := x.clock.now.2, fresh := none }⟩
  | .deliver src k =>
    if src ≠ l.1 ∧ replicaOf k = some src.name then
      some ⟨update s.node l.1 (x.receive k ((s.node src).kv.lookup k))⟩
    else none

end Nodes

/-! ## Statement -/

/-- The slot the node has just written is the one it reads, and a key whose
metadata it has just deleted does not exist. -/
def Node.Reflects (n : Replica) (x : Node) : Prop :=
  ∀ base slot, x.fresh = some (base, slot) → ∀ cands, Candidates x.kv base cands →
    winner cands = some (slot, n.name) ∧
    ∀ db key, base = metaBase db key → slot.tag = tagDeleted →
      ∀ nowMS isLive, probe nowMS isLive key cands = none

/-- **Local writes dominate.** -/
def Dominates (s : Nodes) : Prop := ∀ n, (s.node n).Reflects n

/-- The candidate is below what the clock of replica `name` gives next: the wall
time it is about to read, or else its last stamp counted up. -/
def Clock.Ahead (c : Clock) (name : Bytes) (cand : Bytes × Slot) : Prop :=
  if c.last.wallMS < c.wall c.calls then rank cand < toLex (⟨c.wall c.calls, 0⟩, name)
  else rank cand < toLex (⟨c.last.wallMS, c.last.logical + 1⟩, name)

instance (c : Clock) (name : Bytes) (cand : Bytes × Slot) : Decidable (c.Ahead name cand) := by
  unfold Clock.Ahead
  infer_instance

/-- Of all that is read below a register, nothing but the writer's own slot is
read as a slot of the writer's, and its clock is ahead of the rest. -/
def Ahead (s : Nodes) (l : Replica × Action) : Prop :=
  match l.2 with
  | .op (.slot base _ _) =>
    ∀ e ∈ (s.node l.1).kv.pairs, ∀ c ∈ slotOf base e, e.1 ≠ slotKey base l.1 →
      c.1 ≠ l.1.name ∧ (s.node l.1).clock.Ahead l.1.name c
  | _ => True

instance (s : Nodes) (l : Replica × Action) : Decidable (Ahead s l) := by
  unfold Ahead
  split <;> infer_instance

/-! ## In every run -/

lemma Clock.ahead_iff {c : Clock} : c.Ahead name cand ↔ rank cand < toLex (c.now.1, name) := by
  rw [Clock.Ahead, Clock.now]
  dsimp only
  split <;> rfl

section

variable {wall : Replica → Nat → Int64} {s : Nodes} {n : Replica}

lemma Node.reflects_writeSlot {x : Node}
    (hAhead : ∀ e ∈ x.kv.pairs, ∀ c ∈ slotOf base e, e.1 ≠ slotKey base n →
      c.1 ≠ n.name ∧ x.clock.Ahead n.name c) : (x.writeSlot n base tag value).Reflects n := by
  intro base' slot hFresh cands hCands
  obtain ⟨rfl, rfl⟩ := Prod.mk.inj (some.inj hFresh)
  have hWinner : winner cands = some (⟨x.clock.now.1, tag, value⟩, n.name) := by
    refine winner_after_write (fun e he c hc hNe => ?_) hCands
    obtain ⟨hName, hBelow⟩ := hAhead e he c hc hNe
    exact ⟨hName, Clock.ahead_iff.mp hBelow⟩
  exact ⟨hWinner, fun db key _ hTag nowMS isLive => by
    simp only [probe, readMeta, hWinner, if_pos hTag]⟩

/-- Steps that write no slot leave nothing to read back. -/
lemma Node.reflects_none {x : Node} (h : x.fresh = none) : x.Reflects n := by
  intro base slot hFresh
  rw [h] at hFresh
  cases hFresh

/-- **Every step with the clock ahead leaves its node reflecting its write.** -/
theorem Nodes.step_reflects {s' : Nodes} (hAhead : Ahead s (n, a))
    (hStep : s.step (n, a) = some s') : ∃ x : Node, s' = ⟨update s.node n x⟩ ∧ x.Reflects n := by
  cases a with
  | op o =>
    refine ⟨_, (some.inj hStep).symm, ?_⟩
    cases o with
    | slot base tag value => exact Node.reflects_writeSlot hAhead
    | put k v => exact Node.reflects_none rfl
    | del k => exact Node.reflects_none rfl
  | fail => exact ⟨_, (some.inj hStep).symm, Node.reflects_none rfl⟩
  | deliver src k =>
    simp only [Nodes.step] at hStep
    split at hStep
    · refine ⟨_, (some.inj hStep).symm, Node.reflects_none ?_⟩
      cases (s.node src).kv.lookup k <;> rfl
    · cases hStep

/-- **Local writes dominate** in every run in which the clocks of the writers are
ahead. -/
theorem local_writes_dominate (h : Reach Nodes.step Ahead (Nodes.init wall) s) : Dominates s := by
  refine h.induct (I := Dominates) (fun n => Node.reflects_none rfl) ?_
  rintro s s' ⟨n, a⟩ - hDom hAhead hStep
  obtain ⟨x, rfl, hNode⟩ := Nodes.step_reflects hAhead hStep
  exact (forall_update_iff s.node (p := fun m y => y.Reflects m)).mpr
    ⟨hNode, fun m _ => hDom m⟩

end

/-! ## A slow clock -/

private def slow : Replica := .named 101

private def fast : Replica := .named 119

private def skew (n : Replica) (_ : Nat) : Int64 := if n = slow then 5 else 10

/-- The fast replica sets a string, and the slow one has received it. -/
private def setAndDelivered : List (Replica × Action) :=
  [(fast, .op (.slot (strBase 0 [107]) tagPresent [1])), (fast, .op (writeMeta 0 [107] ⟨1, 1, 0, 0⟩)),
    (slow, .deliver fast (slotKey (strBase 0 [107]) fast)),
    (slow, .deliver fast (slotKey (metaBase 0 [107]) fast))]

/-- The candidates of a register in the order the entries are kept in. -/
private def candsAt (x : Node) (base : List Seg) : List (Bytes × Slot) :=
  (readSlots base x.kv.pairs).pairs

/-- The slow replica deletes the key, and finds it there. -/
theorem skewed_delete_survives : ∃ s, Reach Nodes.step Anything (Nodes.init skew) s ∧
      (probe 20 (fun _ => (liveValue (candsAt (s.node slow) (strBase 0 [107]))).isSome) [107]
        (candsAt (s.node slow) (metaBase 0 [107]))).isSome ∧ ¬ Dominates s := by
  obtain ⟨s, hReach, hFresh, hExists⟩ : ∃ s, Reach Nodes.step Anything (Nodes.init skew) s ∧
      (s.node slow).fresh = some (metaBase 0 [107], ⟨⟨5, 1⟩, tagDeleted, []⟩) ∧
      (probe 20 (fun _ => (liveValue (candsAt (s.node slow) (strBase 0 [107]))).isSome) [107]
        (candsAt (s.node slow) (metaBase 0 [107]))).isSome :=
    Reach.of_eval (setAndDelivered ++ (deleteKey (deleteString 0 [107]) 0 [107]).map fun o => (slow, .op o)) (by decide)
  refine ⟨s, hReach, hExists, fun hDom => ?_⟩
  have hGone := (hDom slow _ _ hFresh (candsAt _ _) ⟨_, .refl _, .refl _⟩).2 0 [107] rfl rfl 20
    (fun _ => (liveValue (candsAt (s.node slow) (strBase 0 [107]))).isSome)
  rw [hGone] at hExists
  cases hExists

/-- The fast replica deletes what the slow one has set. -/
theorem ahead_delete_wins : ∃ s, Reach Nodes.step Ahead (Nodes.init skew) s ∧ (s.node fast).fresh =
    some (metaBase 0 [107], ⟨⟨10, 1⟩, tagDeleted, []⟩) ∧ Dominates s := by
  obtain ⟨s, hReach, hFresh⟩ : ∃ s, Reach Nodes.step Ahead (Nodes.init skew) s ∧
      (s.node fast).fresh = some (metaBase 0 [107], ⟨⟨10, 1⟩, tagDeleted, []⟩) :=
    Reach.of_eval ([(slow, .op (.slot (strBase 0 [107]) tagPresent [1])),
      (slow, .op (writeMeta 0 [107] ⟨1, 1, 0, 0⟩)),
      (fast, .deliver slow (slotKey (strBase 0 [107]) slow)),
      (fast, .deliver slow (slotKey (metaBase 0 [107]) slow))] ++
      (deleteKey (deleteString 0 [107]) 0 [107]).map fun o => (fast, .op o)) (by decide)
  exact ⟨s, hReach, hFresh, local_writes_dominate hReach⟩

end RedGeo.Store
