import RedGeo.Lib.Run
import RedGeo.Rotation.Compact

/-!
# RedGeo — the cluster

Any number of nodes of the rotation protocol on one partition, the control
messages and data broadcasts sent so far, and what has happened.

The network keeps every message ever sent and any of them may be delivered to
any other node at any time, any number of times or never: that is loss,
duplication, delay and reordering. A node that joins is one nobody has heard of
yet; whoever receives a message from it learns it. Timeouts, watchdog ticks,
client operations and crashes (with the restart) are actions that may come at
any moment.

`Sys.step_eq` is the shape of a step every invariant proof starts from: one
node changes by `Node.act`, the network and the log only grow.
-/

namespace RedGeo.Rotation

open Lib

/-- A message on the wire, with (a ghost) the latest rotation its sender had
activated. -/
structure Packet (ι β : Type) where
  src : ι
  msg : Msg ι β
  about : Option (RoundId ι × Nat)
  deriving DecidableEq, Repr

/-- The cluster; the log is newest first. -/
structure Sys (ι β : Type) where
  node : ι → Node ι β
  net : List (Packet ι β) := []
  data : List (DataMsg ι β) := []
  log : List (Event ι β) := []

/-- What a node can do next. -/
inductive Action (ι β : Type)
  | deliver (p : Packet ι β)
  | hello
  | scan
  | abandon
  | ask
  | seedSeen (w : RoundId ι × Option β)
  | seedArrived (w : RoundId ι × Option β)
  | seedTimeout (w : RoundId ι × Option β)
  | forget (id : ι)
  | crash
  | start (nano : Nat) (observed : List ι)
  | freeze
  | take
  | poll (timeout : Bool)
  | stage
  | activate
  | commit
  | cancel
  | abort
  | unwind
  | readGate
  | readServe
  | beginWrite
  | write (b : β) (es : List (NsEntry β))
  | recvData (d : DataMsg ι β)
  | process (es : List (NsEntry β)) (jobs : List β)
  | rebroadcast
  deriving DecidableEq, Repr

variable {ι β κ ν : Type} [DecidableEq ι] [DecidableEq β]

namespace Node

variable (self : ι) (x : Node ι β) (src : ι)

/-- The handlers that run under the partition's mutex, which a running `Compact`
holds. -/
def handleLocked : Msg ι β → Out ι β
  | .prepare r union => x.onPrepare self r union
  | .switch r _ genesis => x.onSwitch self r genesis
  | .done r => x.finish self (some r) true
  | .abort r => x.finish self (some r) false
  | .status _ => x.onStatus
  | .outcome gen state => x.onOutcome self src gen state
  | _ => { node := x }

/-- `recvLoop` and `handle`. -/
def handle (m : Msg ι β) : Option (Out ι β) :=
  let x := x.learn self src
  match m with
  | .hello => some { node := x }
  | .prepared r reply => some { node := x.recvReply src r (.inl reply) }
  | .ready r reply => some { node := x.recvReply src r (.inr reply) }
  | m => if x.co.isSome then none else some (x.handleLocked self src m)

/-- One action of a node. -/
def act (D : Datastore β κ ν) (self : ι) (x : Node ι β) : Action ι β → Option (Out ι β)
  | .deliver p => x.handle self p.src p.msg
  | .hello => some { node := x, send := [.hello] }
  | .scan => some { node := x.scan }
  | .abandon => if x.co.isSome then none else some (x.abandon self)
  | .ask => some x.ask
  | .seedSeen w => x.seedSeen w
  | .seedArrived w => x.seedArrived w
  | .seedTimeout w => x.seedTimeout w
  | .forget id => some { node := x.forget id }
  | .crash => some { node := x.restart }
  | .start nano observed => x.compactStart self nano observed
  | .freeze => x.co.bind x.compactFreeze
  | .take => x.co.bind x.compactTake
  | .poll timeout => x.co.bind fun c => x.compactPoll c timeout
  | .stage => x.co.bind (x.compactStage D)
  | .activate => x.co.bind (x.compactActivate self)
  | .commit => x.co.bind (x.compactCommit self)
  | .cancel => x.co.bind x.compactCancel
  | .abort => x.co.bind x.compactAbort
  | .unwind => x.co.bind (x.compactUnwind self)
  | .readGate => x.readGate
  | .readServe => x.readServe self D
  | .beginWrite => x.beginWrite
  | .write b es => x.write D self b es
  | .recvData d => some (x.recvData d)
  | .process es jobs => x.process D es jobs
  | .rebroadcast => some x.rebroadcast

end Node

namespace Sys

/-- Nodes that have never run, each knowing the members given. -/
def init (members : ι → List ι) : Sys ι β where
  node n := { members := members n }

variable (s : Sys ι β) (n : ι)

/-- What is received was sent, and by somebody else. -/
def received : Action ι β → Bool
  | .deliver p => decide (p ∈ s.net ∧ p.src ≠ n)
  | .recvData d => decide (d ∈ s.data)
  | _ => true

/-- The cluster after node `n` has done something. -/
def after (o : Out ι β) : Sys ι β where
  node := Function.update s.node n o.node
  net := s.net ++ o.send.map fun m => ⟨n, m, (s.node n).rep.act⟩
  data := s.data ++ o.data
  log := o.log ++ s.log

/-- One step of the cluster: node `l.1` does `l.2`. -/
def step (D : Datastore β κ ν) (s : Sys ι β) (l : ι × Action ι β) : Option (Sys ι β) :=
  if s.received l.1 l.2 then ((s.node l.1).act D l.1 l.2).map (s.after l.1) else none

/-- **The shape of a step.** -/
theorem step_eq {s s' : Sys ι β} {n : ι} (h : s.step D (n, a) = some s') :
    s.received n a = true ∧ ∃ o, (s.node n).act D n a = some o ∧ s' = s.after n o := by
  unfold step at h
  split at h
  · next hr =>
    obtain ⟨o, ho, rfl⟩ := Option.map_eq_some_iff.mp h
    exact ⟨hr, o, ho, rfl⟩
  · cases h

section

omit [DecidableEq β]

variable {s : Sys ι β} {n m : ι} {o : Out ι β}

@[simp] lemma after_node_self : (s.after n o).node n = o.node := by
  simp [after]

lemma after_node_ne (h : m ≠ n) : (s.after n o).node m = s.node m := by
  simp [after, h]

lemma mem_after_net :
    p ∈ (s.after n o).net ↔ p ∈ s.net ∨ (p.msg ∈ o.send ∧ p.src = n ∧ p.about = (s.node n).rep.act) := by
  simp only [after, List.mem_append, List.mem_map]
  constructor
  · rintro (h | ⟨m, hm, rfl⟩)
    · exact .inl h
    · exact .inr ⟨hm, rfl, rfl⟩
  · rintro (h | ⟨hm, hsrc, habout⟩)
    · exact .inl h
    · obtain ⟨src, msg, about⟩ := p
      obtain rfl : src = n := hsrc
      obtain rfl : about = (s.node src).rep.act := habout
      exact .inr ⟨msg, hm, rfl⟩

lemma mem_after_log : e ∈ (s.after n o).log ↔ e ∈ o.log ∨ e ∈ s.log :=
  List.mem_append

end

end Sys

end RedGeo.Rotation
