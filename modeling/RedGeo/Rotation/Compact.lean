import RedGeo.Rotation.Node

/-!
# RedGeo — the coordinator

`Compact` of `rotation/rotation.go`, cut into steps where other nodes, the
network, the node's own background work or a crash can come in between:

    start → freezing → preparing (take, poll)* → staging → activating
          → switching (take, poll)* → committing
                                    ↘ failing → unwinding   (from any phase before done)

`Compact` holds the partition's mutex from start to end: the node's handlers
wait, only its `prepared` and `ready` messages are passed to the running round.
`take` is one receive of `collect`, `poll` the end of a `collect` with the loop
body after it. The deferred function is `abort` and `unwind`.
-/

namespace RedGeo.Rotation

open Engine

variable {ι β κ ν : Type} [DecidableEq ι] [DecidableEq β]

namespace Co

variable (c : Co ι β)

/-- `collect` has every member's answer. -/
def allPrepared : Bool := c.members.all fun id => (c.prepared.lookup id).isSome

/-- `collect` has every member's answer. -/
def allReady : Bool := c.members.all fun id => (c.ready.lookup id).isSome

/-- A member has refused to prepare (`rejected ≠ ""`). -/
def rejected : Bool :=
  c.members.any fun id =>
    match c.prepared.lookup id with
    | some r => !r.ok
    | none => false

/-- A member has failed to switch. -/
def switchFailed : Bool :=
  c.members.any fun id =>
    match c.ready.lookup id with
    | some r => !r.ok
    | none => false

/-- A member still lacks blocks or is draining its queue (`behind`). -/
def behind : Bool :=
  c.members.any fun id =>
    match c.prepared.lookup id with
    | some r => r.ok && (!r.missing.isEmpty || r.busy)
    | none => false

variable (own : List β)

/-- The heads of this poll: the coordinator's own and those of the answers. -/
def incoming : List β :=
  own ++ c.members.flatMap fun id =>
    match c.prepared.lookup id with
    | some r => if r.ok then r.heads else []
    | none => []

/-- The union with the heads of this poll. -/
def union' : List β :=
  c.union ++ (c.incoming own).filter (· ∉ c.union)

/-- The union has grown in this poll. -/
def grew : Bool := (c.incoming own).any (· ∉ c.union)

end Co

namespace Node

section

variable (x : Node ι β) (c : Co ι β)

/-- A poll of phase 1 that found nothing missing anywhere. -/
def pollClear : Bool :=
  c.allPrepared && !c.behind && !c.grew x.rep.heads &&
    (x.rep.missing (c.union' x.rep.heads)).isEmpty && x.rep.quiescent

/-- `Compact` up to the registration of the round; busy if a rotation is in
progress here. -/
def compactStart (self : ι) (x : Node ι β) (nano : Nat) (observed : List ι) :
    Option (Out ι β) :=
  if x.co.isNone ∧ x.nano < nano then
    let x := observed.foldl (learn self) x
    if x.st.isSome || x.rep.part.inDoubt then some { node := x }
    else
      some
        { node := { x with
            nano := nano
            st := some { round := some ⟨self, nano⟩, phase := .prepared, mine := true }
            co := some { round := ⟨self, nano⟩, members := x.members } } }
  else none

/-- `Freeze` and the first `prepare`. -/
def compactFreeze : Option (Out ι β) :=
  if c.pc = .freezing then
    if x.rep.freeze.2 then
      some
        { node := { x with
            rep := x.rep.freeze.1
            co := some { c with pc := .preparing, union := x.rep.heads } }
          send := [.prepare c.round x.rep.heads] }
    else
      some { node := { x with rep := x.rep.freeze.1, co := some { c with pc := .failing } } }
  else none

/-- One receive of `collect`; it reads on only while an answer is missing, and
drops answers of the other kind. -/
def compactTake : Option (Out ι β) :=
  match c.chan with
  | [] => none
  | (id, r) :: rest =>
    match c.pc, r with
    | .preparing, .inl r =>
      if c.allPrepared then none
      else
        some { node := { x with
          co := some { c with chan := rest, prepared := (id, r) :: c.prepared } } }
    | .switching _, .inr r =>
      if c.allReady then none
      else some { node := { x with co := some { c with chan := rest, ready := (id, r) :: c.ready } } }
    -- answers of the other phase are received and dropped
    | .preparing, .inr _ => some { node := { x with co := some { c with chan := rest } } }
    | .switching _, .inl _ => some { node := { x with co := some { c with chan := rest } } }
    | _, _ => none

/-- The body of the phase 1 loop after `collect`. -/
def pollPrepared (timeout : Bool) : Out ι β :=
  let u := c.union' x.rep.heads
  if c.rejected then { node := { x with co := some { c with pc := .failing } } }
  else if x.pollClear c then
    -- two polls in a row, then the cut
    if 2 ≤ c.stable + 1 then
      { node := { x with co := some { c with pc := .staging, union := u, stable := c.stable + 1 } } }
    else
      { node := { x with
          co := some { c with union := u, stable := c.stable + 1, prepared := [] } }
        send := [.prepare c.round u] }
  else if timeout then { node := { x with co := some { c with pc := .failing } } }
  else
    -- somebody is behind: start counting again
    { node := { x with co := some { c with union := u, stable := 0, prepared := [] } }
      send := [.prepare c.round u] }

/-- The body of the phase 2 loop after `collect`; with every member ready it
ends, and `done` is sent. -/
def pollReady (genesis : Option β) (timeout : Bool) : Out ι β :=
  if c.switchFailed then { node := { x with co := some { c with pc := .failing } } }
  else if c.allReady then
    -- `activated = false`: from here the round is not undone any more
    { node := { x with co := some { c with pc := .committing, activated := false } }
      send := [.done c.round] }
  else if timeout then { node := { x with co := some { c with pc := .failing } } }
  else { node := x, send := [.switch c.round x.rep.part.gen genesis] }

/-- The end of a `collect`. -/
def compactPoll (timeout : Bool) : Option (Out ι β) :=
  match c.pc with
  | .preparing => some (x.pollPrepared c timeout)
  | .switching genesis => some (x.pollReady c genesis timeout)
  | _ => none

/-- `Stage(seed=true)`; the commit of the seed broadcasts its heads. -/
def compactStage (D : Datastore β κ ν) (x : Node ι β) (c : Co ι β) : Option (Out ι β) :=
  if c.pc = .staging then
    -- `Stage` refuses; the error ends the round
    if x.rep.part.inDoubt then some { node := { x with co := some { c with pc := .failing } } }
    else
      let y := x.rep.stageSeeded D
      let es := y.disk.ns (x.rep.part.gen + 1)
      some
        { node := { x with rep := y, co := some { c with pc := .activating (x.rep.genesis D) } }
          data := [⟨x.rep.part.gen + 1, heads es, some c.round⟩]
          log := [.staged c.round x.rep.part.gen c.members x.rep.ns (blocks es)] }
  else none

section

variable (self : ι) (x : Node ι β) (c : Co ι β)

/-- `Activate` and the first `switch`. -/
def compactActivate : Option (Out ι β) :=
  match c.pc with
  | .activating genesis =>
    let y := x.rep.activate c.round genesis false
    some
      { node := { x with
          rep := y
          co := some { c with pc := .switching genesis, activated := true } }
        send := [.switch c.round y.part.gen genesis]
        log := [.activated self c.round y.part.gen] }
  | _ => none

/-- `Commit` and the deferred function. -/
def compactCommit : Option (Out ι β) :=
  if c.pc = .committing then
    some
      { node := { x with st := none, co := none, rep := x.rep.commit.unfreeze }
        log := x.rep.commitLog self }
  else none

end

/-- The context ends while `Compact` waits. -/
def compactCancel : Option (Out ι β) :=
  match c.pc with
  | .freezing | .preparing | .switching _ =>
    some { node := { x with co := some { c with pc := .failing } } }
  | _ => none

/-- The deferred function after an error, up to the `abort` messages. -/
def compactAbort : Option (Out ι β) :=
  if c.pc = .failing then
    some
      { node := { x with st := none, co := some { c with pc := .unwinding } }
        send := [.abort c.round] }
  else none

end

/-- The rest of the deferred function after an error. -/
def compactUnwind (self : ι) (x : Node ι β) (c : Co ι β) : Option (Out ι β) :=
  if c.pc = .unwinding then
    if c.activated then
      some
        { node := { x with co := none, rep := x.rep.rollback.unfreeze }
          log := x.rep.rollbackLog self }
    else some { node := { x with co := none, rep := x.rep.unfreeze } }
  else none

/-- A `prepared` or `ready` message is passed to the waiter of its round. -/
def recvReply (x : Node ι β) (src : ι) (r : RoundId ι) (reply : Prepared β ⊕ Ready) : Node ι β :=
  match x.co with
  | some c =>
    if c.round = r ∧ c.pc ≠ .unwinding then
      { x with co := some { c with chan := c.chan ++ [(src, reply)] } }
    else x
  | none => x

end Node

end RedGeo.Rotation
