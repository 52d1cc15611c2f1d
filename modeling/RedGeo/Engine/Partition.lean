import RedGeo.Engine.Backing

/-!
# RedGeo — partitions and the rotation primitives

The per-partition state of `engine/gate.go` and `engine/rotation.go` and the
primitives the cluster protocol composes:

    Freeze → Stage(seed) → Activate → [WaitSeed] → Commit      (or Rollback)

Each primitive is written in `BackM`, access by access, so a storage error or
a crash can strike between any two of them. The replicated datastore
(go-ds-crdt) is the parameter `Crdt`; what is assumed of it is `Crdt.Lawful`.

For every primitive there is one lemma for the run without faults (`*_quiet`)
and one that says what a run under any plan can leave behind (`*_cases`).
-/

namespace RedGeo.Engine

/-! ## The gate -/

/-- A partition's compaction fence (`gate`). -/
structure Gate where
  frozen : Bool := false
  blockReads : Bool := false
  inflight : Nat := 0
  deriving DecidableEq, Repr

namespace Gate

variable (g : Gate)

def set (frozen blockReads : Bool) : Gate :=
  { g with frozen := frozen, blockReads := blockReads }

def setBlockReads (b : Bool) : Gate := { g with blockReads := b }

/-- `gate.freeze`: stop new writes, then wait for the writes in flight. The
flag is set whether or not the wait succeeds. -/
def freeze : Gate × Bool := ({ g with frozen := true }, g.inflight == 0)

/-- `gate.beginWrite`, once the wait is over; `none` while frozen. -/
def beginWrite : Option Gate :=
  if g.frozen then none else some { g with inflight := g.inflight + 1 }

/-- The function `gate.beginWrite` returns. -/
def endWrite : Gate := { g with inflight := g.inflight - 1 }

/-- `gate.waitReadable`, once the wait is over. -/
def readable : Bool := !g.blockReads

end Gate

/-! ## The partition -/

/-- One partition of the engine. Of the open datastores only what the
primitives branch on is kept: whether one is staged, and whether the previous
one is still open (`oldDS ≠ nil`). -/
structure Partition where
  idx : Nat := 0
  gen : Nat := 0
  staged : Option Nat := none
  hasPrev : Bool := false
  prevGen : Nat := 0
  oldOpen : Bool := false
  gate : Gate := {}
  deriving DecidableEq, Repr

variable {p : Partition} {drop : Option Nat}

namespace Partition

def inDoubt (p : Partition) : Bool := p.hasPrev || p.staged.isSome

lemma inDoubt_eq_false : p.inDoubt = false ↔ p.hasPrev = false ∧ p.staged = none := by
  simp [inDoubt]

def freeze (p : Partition) : Partition × Bool :=
  ({ p with gate := p.gate.freeze.1 }, p.gate.freeze.2)

def unfreeze (p : Partition) : Partition := { p with gate := p.gate.set false false }

/-- The generation a restart or a rollback falls back to: the previous one
while a rotation is pending, else the active one. -/
def base (p : Partition) : Nat := if p.hasPrev then p.prevGen else p.gen

end Partition

/-- The replicated datastore (go-ds-crdt) over a raw namespace: its live
entries, its DAG heads, and the raw entries that the commit of a batch of puts
adds. -/
structure Crdt (ρ κ ν γ : Type) where
  query : List ρ → List (κ × ν)
  heads : List ρ → List γ
  batch : List ρ → List (κ × ν) → List ρ

variable {ρ κ ν γ : Type}

namespace Crdt

variable [DecidableEq κ]

/-- The live key/value map of a namespace. -/
def live (C : Crdt ρ κ ν γ) (es : List ρ) (k : κ) : Option ν := (C.query es).lookup k

/-- What is assumed of go-ds-crdt: a query lists each live key once, an empty
namespace holds nothing, and a committed batch adds its puts to what the
namespace held. -/
structure Lawful (C : Crdt ρ κ ν γ) : Prop where
  query_nodup : ∀ es, ((C.query es).map Prod.fst).Nodup
  query_nil : C.query [] = []
  live_batch : ∀ es kvs k, (kvs.map Prod.fst).Nodup →
    C.live (es ++ C.batch es kvs) k = (kvs.lookup k).or (C.live es k)

end Crdt

/-! ## A datastore that meets the assumptions -/

/-- An entry of the plain key/value datastore: a put, or a tombstone. -/
abbrev KvEntry := Nat × Option Nat

section

variable (m : List (Nat × Nat))

/-- The live entries after one more raw entry. -/
def kvApply (e : KvEntry) : List (Nat × Nat) :=
  match e.2 with
  | some v => (e.1, v) :: m.filter (·.1 ≠ e.1)
  | none => m.filter (·.1 ≠ e.1)

/-- A datastore whose raw entries are its puts and deletes in order. -/
def kvCrdt : Crdt KvEntry Nat Nat Nat where
  query es := es.foldl kvApply []
  heads es := if es.isEmpty then [] else [es.length]
  batch _ kvs := kvs.map fun kv => (kv.1, some kv.2)

private lemma lookup_cons_eq (x y k : Nat) (m : List (Nat × Nat)) :
    ((x, y) :: m).lookup k = if k = x then some y else m.lookup k := by
  rw [List.lookup_cons]
  by_cases hk : k = x
  · simp [hk]
  · rw [if_neg hk, beq_false_of_ne hk]

private lemma lookup_filter_ne (a k : Nat) :
    (m.filter (·.1 ≠ a)).lookup k = if k = a then none else m.lookup k := by
  induction m with
  | nil => simp
  | cons kv m ih =>
    obtain ⟨x, y⟩ := kv
    by_cases ha : x = a
    · rw [List.filter_cons_of_neg (by simpa using ha), ih, lookup_cons_eq, ha]
      split <;> rfl
    · rw [List.filter_cons_of_pos (by simpa using ha), lookup_cons_eq, lookup_cons_eq, ih]
      by_cases hk : k = x
      · rw [if_pos hk, if_pos hk, if_neg (hk ▸ ha)]
      · rw [if_neg hk, if_neg hk]

private lemma lookup_kvApply_put (a v k : Nat) :
    (kvApply m (a, some v)).lookup k = if k = a then some v else m.lookup k := by
  show ((a, v) :: m.filter (·.1 ≠ a)).lookup k = _
  rw [lookup_cons_eq, lookup_filter_ne]
  split <;> rfl

end

private lemma kvApply_nodup (e : KvEntry) (h : (m.map Prod.fst).Nodup) :
    ((kvApply m e).map Prod.fst).Nodup := by
  have hFilter : ((m.filter (·.1 ≠ e.1)).map Prod.fst).Nodup :=
    h.sublist (List.filter_sublist.map _)
  unfold kvApply
  split
  · simpa using hFilter
  · exact hFilter

lemma kvCrdt_lawful : kvCrdt.Lawful where
  query_nil := rfl
  query_nodup es := by
    have hFold : ∀ (es : List KvEntry) (m : List (Nat × Nat)), (m.map Prod.fst).Nodup →
        ((es.foldl kvApply m).map Prod.fst).Nodup := by
      intro es
      induction es with
      | nil => exact fun m h => h
      | cons e es ih => exact fun m h => ih _ (kvApply_nodup e h)
    exact hFold es [] (by simp)
  live_batch es kvs k hNodup := by
    have hFold : ∀ (kvs : List (Nat × Nat)) (m : List (Nat × Nat)), (kvs.map Prod.fst).Nodup →
        ((kvs.map fun kv => (kv.1, some kv.2)).foldl kvApply m).lookup k =
          (kvs.lookup k).or (m.lookup k) := by
      intro kvs
      induction kvs with
      | nil => simp
      | cons kv kvs ih =>
        intro m h
        obtain ⟨x, y⟩ := kv
        rw [List.map_cons, List.nodup_cons] at h
        rw [List.map_cons, List.foldl_cons, ih _ h.2, lookup_kvApply_put, lookup_cons_eq]
        by_cases hk : k = x
        · -- the batch puts a key once
          have hNone : kvs.lookup k = none := by
            rw [List.lookup_eq_none_iff]
            intro kv hkv
            have hNe : k ≠ kv.1 := fun he =>
              h.1 (List.mem_map.mpr ⟨kv, hkv, he.symm.trans hk⟩)
            simpa using hNe
          rw [hNone, if_pos hk, if_pos hk]
          rfl
        · rw [if_neg hk, if_neg hk]
    simp only [Crdt.live, kvCrdt, List.foldl_append]
    exact hFold kvs _ hNodup

/-! ## Restart -/

section

variable [DecidableEq ρ]

open BackM

/-- What a restart takes from one read: the error of a `Get` is dropped, so that
a number that cannot be read counts as none. (A process that dies while it
reads is started again, and the next start reads anew.) -/
def Plan.found (plan : Plan) (a : Access) (n : Option Nat) : Option Nat :=
  match plan a with
  | .fail _ => none
  | _ => n

/-- `restoreGen`, on the partition as `New` creates it: the persisted
generation, and a frozen gate if a rotation was pending. Unless `f` has a fault, the two
reads of the store go through. -/
def restoreGen (idx : Nat) (d : Backing ρ) (f : Plan := .quiet) : Partition :=
  let p : Partition := { idx := idx, gen := (f.found .getGen d.gen).getD 0 }
  match f.found .getPrev d.prev with
  -- in doubt: the cluster protocol has to resolve the rotation
  | some n => { p with hasPrev := true, prevGen := n, gate := p.gate.set true false }
  | none => p

@[simp] lemma Plan.found_quiet (a : Access) (n : Option Nat) : Plan.quiet.found a n = n := rfl

variable (p : Partition)

def persistGen : BackM ρ Unit := do
  putGen p.gen
  -- two keys, two writes: a fault between them leaves the pair torn
  if p.hasPrev then putPrev p.prevGen else deletePrev

/-! ## Stage, Activate, Commit, Rollback -/

/-- The loop of `Stage` over the results of its query. -/
def touchResults : Nat → BackM ρ Unit
  | 0 => pure ()
  | n + 1 => do
    touchResults n
    touch (.result n)

/-- The seeding part of `Stage`: read the active generation's live state and
commit it to the new namespace in one batch. -/
def seedStage (C : Crdt ρ κ ν γ) (cur gen : Nat) : BackM ρ (Option γ × Nat) := do
  touch .query
  -- the live entries only: tombstones stay behind
  let live := C.query (← entries cur)
  touch .openBatch
  touchResults live.length
  -- `batch.Commit`; the namespace is taken as it is found
  putEntries gen 0 (C.batch (← entries gen) live)
  let heads := C.heads (← entries gen)
  pure (heads.head?, live.length)

def stage (C : Crdt ρ κ ν γ) (p : Partition) (seed : Bool) :
    BackM ρ (Partition × Option γ × Nat) :=
  if p.staged.isSome || p.hasPrev then throw .inProgress
  else do
    let gen := p.gen + 1
    wrap (.stage p.idx) (touch .openNs)
    if seed then
      let (genesis, n) ← seedStage C p.gen gen
      pure ({ p with staged := some gen }, genesis, n)
    else
      pure ({ p with staged := some gen }, none, 0)

/-- The partition in memory after `Activate`, before anything is persisted. -/
def activated (gen : Nat) (waitSeed : Bool) : Partition :=
  { p with
    oldOpen := true
    hasPrev := true
    prevGen := p.gen
    gen := gen
    staged := none
    gate := if waitSeed then p.gate.setBlockReads true else p.gate }

/-- `Activate`. The memory is changed first; an error of `persistGen` is
returned over a partition that is already switched. -/
def activate (waitSeed : Bool) :
    BackM ρ (Partition × Except EngineErr Unit) :=
  match p.staged with
  | none => pure (p, .error .nothingStaged)
  | some gen => do
    let err ← attempt (persistGen (activated p gen waitSeed))
    pure (activated p gen waitSeed, err)

/-- The discarded generation's namespace is purged, its error dropped
(`_ = e.purgeNamespace(…)`). -/
def purgeDropped : Option Nat → BackM ρ Unit
  | none => pure ()
  | some g => do
    let _ ← attempt (purgeNamespace g)
    pure ()

/-- The common end of `Commit` and `Rollback`: persist, then purge whether or
not that failed; the error of `persistGen` is the result. -/
def persistAndPurge (drop : Option Nat) : BackM ρ (Except EngineErr Unit) := do
  let err ← attempt (persistGen p)
  purgeDropped drop
  pure err

/-- The partition in memory after `Commit`. -/
def committed : Partition := { p with oldOpen := false, hasPrev := false }

/-- The generation `Commit` discards (`had`). -/
def commitDrops : Option Nat := if p.hasPrev then some p.prevGen else none

def commit : BackM ρ (Partition × Except EngineErr Unit) := do
  let err ← persistAndPurge (committed p) (commitDrops p)
  pure (committed p, err)

/-- The partition in memory after the `switch` of `Rollback`. -/
def rolledBack : Partition :=
  match p.staged with
  | some _ => { p with staged := none }
  | none =>
    -- neither staged nor activated: only the metadata is written again
    if p.hasPrev then { p with gen := p.prevGen, oldOpen := false, hasPrev := false } else p

/-- The generation `Rollback` discards. -/
def rollbackDrops : Option Nat :=
  match p.staged with
  | some g => some g
  | none => if p.hasPrev then some p.gen else none

/-- The last statement of `Rollback`: reads are open again. -/
def reopenReads : Partition := { p with gate := p.gate.set p.gate.frozen false }

/-- Whether `Rollback` has to reopen the previous generation. -/
def reopens : Bool := p.staged.isNone && p.hasPrev && !p.oldOpen

/-- `Rollback`. After a restart the previous generation is reopened first; if
that fails nothing changes. -/
def rollback : BackM ρ (Partition × Except EngineErr Unit) := do
  let opened ← attempt (if reopens p then wrap (.reopen p.prevGen) (touch .openNs) else pure ())
  match opened with
  | .error e => pure (p, .error e)
  | .ok _ => do
    let err ← persistAndPurge (rolledBack p) (rollbackDrops p)
    pure (reopenReads (rolledBack p), err)

end

/-! ## Runs without faults -/

section

variable (d : Backing ρ)

open BackM

/-- The metadata that `persistGen` leaves. -/
def Backing.persisted (d : Backing ρ) (p : Partition) : Backing ρ :=
  { d with gen := some p.gen, prev := if p.hasPrev then some p.prevGen else none }

section

variable (p : Partition)

@[simp] lemma Backing.persisted_gen : (d.persisted p).gen = some p.gen := rfl

@[simp] lemma Backing.persisted_prev :
    (d.persisted p).prev = if p.hasPrev then some p.prevGen else none := rfl

@[simp] lemma persistGen_quiet (d : Backing ρ) : persistGen p .quiet d = (.ok (), d.persisted p) := by
  rw [persistGen, putGen, bind_ok (write_ok _ rfl d)]
  cases hp : p.hasPrev <;> simp [putPrev, deletePrev, write, Backing.persisted, hp]

end

lemma touchResults_ok (n : Nat) (d : Backing ρ) (h : ∀ i, plan (.result i) = .ok) :
    touchResults n plan d = (.ok (), d) := by
  induction n with
  | zero => rfl
  | succ n ih => rw [touchResults, bind_ok ih, touch_ok (h n)]

lemma activate_quiet (waitSeed : Bool) (d : Backing ρ) (h : p.staged = some gen) :
    activate p waitSeed .quiet d =
    (.ok (activated p gen waitSeed, .ok ()), d.persisted (activated p gen waitSeed)) := by
  simp only [activate, h]
  rw [bind_ok (attempt_ok (persistGen_quiet _ _)), pure_apply]

/-- The store after a namespace is purged without faults. -/
def Backing.purged (d : Backing ρ) : Option Nat → Backing ρ
  | none => d
  | some g => d.setNs g []

variable [DecidableEq ρ]

/-- A purge whose accesses all go through. -/
lemma purgeDropped_ok (d : Backing ρ) (hQuery : plan .purgeQuery = .ok)
    (hDelete : ∀ j, plan (.purgeDelete j) = .ok) : purgeDropped (some g) plan d = (.ok (), d.setNs g []) := by
  rw [purgeDropped, bind_ok (attempt_ok (purgeNamespace_ok g d hQuery hDelete)), pure_apply]

section

variable (p : Partition)

lemma persistAndPurge_quiet (drop : Option Nat) (d : Backing ρ) :
    persistAndPurge p drop .quiet d = (.ok (.ok ()), (d.persisted p).purged drop) := by
  have hPurge : purgeDropped drop .quiet (d.persisted p) = (.ok (), (d.persisted p).purged drop) := by
    cases drop with
    | none => rfl
    | some g => exact purgeDropped_ok _ rfl fun _ => rfl
  rw [persistAndPurge, bind_ok (attempt_ok (persistGen_quiet _ _)), bind_ok hPurge, pure_apply]

lemma commit_quiet (d : Backing ρ) :
    commit p .quiet d = (.ok (committed p, .ok ()), (d.persisted (committed p)).purged (commitDrops p)) := by
  rw [commit, bind_ok (persistAndPurge_quiet _ _ _), pure_apply]

lemma rollback_quiet (d : Backing ρ) : rollback p .quiet d =
    (.ok (reopenReads (rolledBack p), .ok ()), (d.persisted (rolledBack p)).purged (rollbackDrops p)) := by
  have hOpen : attempt (if reopens p then wrap (.reopen p.prevGen) (touch .openNs) else pure ())
      .quiet d = (.ok (.ok ()), d) := by
    apply attempt_ok
    split
    · exact wrap_ok (touch_ok rfl d)
    · rfl
  rw [rollback, bind_ok hOpen]
  show (persistAndPurge (rolledBack p) (rollbackDrops p) >>= _) Plan.quiet d = _
  rw [bind_ok (persistAndPurge_quiet _ _ _), pure_apply]

end

variable (C : Crdt ρ κ ν γ) (d : Backing ρ)

section

omit [DecidableEq ρ]

lemma stage_quiet_unseeded (h : p.inDoubt = false) :
    stage C p false .quiet d = (.ok ({ p with staged := some (p.gen + 1) }, none, 0), d) := by
  have hGuard : (p.staged.isSome || p.hasPrev) = false := (Bool.or_comm _ _).trans h
  simp only [stage, hGuard, Bool.false_eq_true, if_false]
  rw [bind_ok (wrap_ok (touch_ok rfl d))]
  rfl

/-- `Stage` without faults, seeded from the active generation. -/
lemma stage_quiet_seeded (h : p.inDoubt = false) :
    let es := d.ns (p.gen + 1) ++ C.batch (d.ns (p.gen + 1)) (C.query (d.ns p.gen))
    stage C p true .quiet d = (.ok ({ p with staged := some (p.gen + 1) }, (C.heads es).head?,
          (C.query (d.ns p.gen)).length), d.setNs (p.gen + 1) es) := by
  intro es
  have hGuard : (p.staged.isSome || p.hasPrev) = false := (Bool.or_comm _ _).trans h
  have hSeed : seedStage C p.gen (p.gen + 1) .quiet d =
      (.ok ((C.heads es).head?, (C.query (d.ns p.gen)).length), d.setNs (p.gen + 1) es) := by
    rw [seedStage, bind_ok (touch_ok rfl d), bind_ok (entries_apply _ _ _),
      bind_ok (touch_ok rfl d), bind_ok (touchResults_ok _ _ fun _ => rfl),
      bind_ok (entries_apply _ _ _), bind_ok (putEntries_ok _ _ _ _ fun _ _ _ => rfl),
      bind_ok (entries_apply _ _ _)]
    simp [es]
  simp only [stage, hGuard, Bool.false_eq_true, if_false, if_true]
  rw [bind_ok (wrap_ok (touch_ok rfl d)), bind_ok hSeed, pure_apply]

end

end

/-! ## Runs under any plan -/

section

variable {d d' : Backing ρ}

open BackM

/-- The second write of `persistGen`. -/
def prevAccess (p : Partition) : Access := if p.hasPrev then .putPrev else .deletePrev

/-- What `persistGen` does, by what becomes of its two writes. -/
lemma persistGen_eq (p : Partition) (plan : Plan) (d : Backing ρ) : persistGen p plan d =
      match plan .putGen with
      | .fail text => (.err (.storage text), d)
      | .crash => (.crashed, d)
      | .ok => match plan (prevAccess p) with
        | .ok => (.ok (), d.persisted p)
        | .fail text => (.err (.storage text), { d with gen := some p.gen })
        | .crash => (.crashed, { d with gen := some p.gen }) := by
  unfold persistGen
  rcases h : plan .putGen with _ | text | _
  · rw [putGen, bind_ok (write_ok _ h d)]
    cases hp : p.hasPrev with
    | false =>
      rcases h' : plan .deletePrev with _ | text | _ <;>
        simp [prevAccess, deletePrev, write, Backing.persisted, hp, h']
    | true =>
      rcases h' : plan .putPrev with _ | text | _ <;>
        simp [prevAccess, putPrev, write, Backing.persisted, hp, h']
  · simp [Bind.bind, putGen, write, h]
  · simp [Bind.bind, putGen, write, h]

/-- `d'` is `d` with the metadata of `p` written up to some point. -/
inductive Partly (p : Partition) (d : Backing ρ) : Backing ρ → Prop
  | nothing : Partly p d d
  | genOnly : Partly p d { d with gen := some p.gen }
  | both : Partly p d (d.persisted p)

lemma Partly.ns (h : Partly p d d') : d'.ns = d.ns := by
  cases h <;> rfl

/-- An interrupted `persistGen` has written some of the metadata. -/
lemma persistGen_partly (h : persistGen p plan d = (o, d')) : Partly p d d' := by
  rw [persistGen_eq] at h
  repeat' split at h
  all_goals
    obtain ⟨_, rfl⟩ := Prod.mk.inj h
    constructor

/-- A `persistGen` with no storage error that did not crash has written both. -/
lemma persistGen_whole (hPlan : ∀ a text, plan a ≠ .fail text)
    (h : persistGen p plan d = (o, d')) (ho : o ≠ .crashed) : d' = d.persisted p := by
  rw [persistGen_eq] at h
  repeat' split at h
  all_goals obtain ⟨rfl, rfl⟩ := Prod.mk.inj h
  all_goals first
    | rfl
    | exact absurd rfl ho
    | exact absurd ‹plan _ = .fail _› (hPlan _ _)

/-- A `persistGen` that crashed did so at its first write or at its second. -/
lemma persistGen_crashed (h : persistGen p plan d = (.crashed, d')) :
    (plan .putGen = .crash ∧ d' = d) ∨
    (plan (prevAccess p) = .crash ∧ d' = { d with gen := some p.gen }) := by
  rw [persistGen_eq] at h
  repeat' split at h
  all_goals simp_all

/-- What `Activate` does to a staged partition: the memory is switched, the
metadata is written up to some point. -/
lemma activate_cases (hStaged : p.staged = some g) (h : activate p waitSeed plan d = (o, d')) :
    ∃ o₁, persistGen (activated p g waitSeed) plan d = (o₁, d') ∧
    ((o = .crashed ∧ o₁ = .crashed) ∨ ∃ err, o = .ok (activated p g waitSeed, err) ∧ o₁ ≠ .crashed) := by
  simp only [activate, hStaged] at h
  rcases bind_attempt_cases h with ⟨err, o₁, d₁, hp, ho₁, _, hRest⟩ | ⟨hp, rfl⟩
  · -- the error of `persistGen`, if any, is returned over the switched memory
    obtain ⟨rfl, rfl⟩ := Prod.mk.inj hRest
    exact ⟨o₁, hp, .inr ⟨err, rfl, ho₁⟩⟩
  · exact ⟨_, hp, .inl ⟨rfl, rfl⟩⟩

/-- `Activate` dies in `persistGen`, with a generation staged. -/
lemma activate_crashed (h : activate p waitSeed plan d = (.crashed, d')) :
    ∃ g, p.staged = some g ∧ persistGen (activated p g waitSeed) plan d = (.crashed, d') := by
  cases hStaged : p.staged with
  | none =>
    simp only [activate, hStaged] at h
    cases h
  | some g =>
    obtain ⟨o₁, hPersist, ⟨_, rfl⟩ | ⟨_, hc, _⟩⟩ := activate_cases hStaged h
    · exact ⟨g, rfl, hPersist⟩
    · cases hc

lemma activate_unstaged (waitSeed : Bool) (hStaged : p.staged = none) :
    activate p waitSeed plan d = (.ok (p, .error .nothingStaged), d) := by
  simp only [activate, hStaged]
  rfl

/-- The entries of a namespace seeded from generation `cur`. -/
def Backing.seededNs (d : Backing ρ) (C : Crdt ρ κ ν γ) (cur gen : Nat) : List ρ :=
  d.ns gen ++ C.batch (d.ns gen) (C.query (d.ns cur))

lemma reads_touchResults (n : Nat) : Reads (touchResults n : BackM ρ Unit) := by
  induction n with
  | zero => exact reads_pure ()
  | succ n ih => exact ih.bind fun _ => reads_touch _

/-- A batch commit that does not end well, and that no fault strikes after its
first entry, has written nothing. -/
lemma putEntries_failed (hPlan : ∀ i, 0 < i → plan (.put i) = .ok)
    (h : putEntries g 0 es plan d = (o, d')) (ho : o ≠ .ok ()) : d' = d := by
  cases es with
  | nil => exact absurd (Prod.mk.inj h).1.symm ho
  | cons e es =>
    rcases bind_cases h with ⟨_, d₁, hw, h⟩ | ⟨_, hw, _⟩ | ⟨hw, _⟩
    · rw [putEntries_ok g 1 es d₁ fun j hj _ => hPlan j hj] at h
      exact absurd (Prod.mk.inj h).1.symm ho
    all_goals
      rcases write_cases hw with ⟨_, hc, _⟩ | ⟨_, rfl⟩ | ⟨_, _, rfl⟩
      · cases hc
      · rfl
      · rfl

/-- What the seeding part of `Stage` can do: fill the namespace, or fail. -/
lemma seedStage_cases {o : Outcome (Option γ × Nat)} (h : seedStage C cur gen plan d = (o, d')) :
    ((∃ r, o = .ok r) ∧ d' = d.setNs gen (d.seededNs C cur gen)) ∨
    ((∀ r, o ≠ .ok r) ∧ SameBut gen d d' ∧ ((∀ i, 0 < i → plan (.put i) = .ok) → d' = d)) := by
  unfold seedStage at h
  -- every read before the commit leaves the store as it is
  have hFail : ∀ {o : Outcome (Option γ × Nat)}, (∀ r, o ≠ .ok r) →
      ((∃ r, o = .ok r) ∧ d = d.setNs gen (d.seededNs C cur gen)) ∨
      ((∀ r, o ≠ .ok r) ∧ SameBut gen d d ∧ ((∀ i, 0 < i → plan (.put i) = .ok) → d = d)) :=
    fun ho => .inr ⟨ho, .refl _ _, fun _ => rfl⟩
  rcases (reads_touch _).bind_cases h with ⟨_, _, h₁⟩ | ⟨rfl, ho, _⟩
  swap
  · exact hFail ho
  rw [bind_ok (entries_apply cur plan _)] at h₁
  rcases (reads_touch _).bind_cases h₁ with ⟨_, _, h₂⟩ | ⟨rfl, ho, _⟩
  swap
  · exact hFail ho
  rcases (reads_touchResults _).bind_cases h₂ with ⟨_, _, h₃⟩ | ⟨rfl, ho, _⟩
  swap
  · exact hFail ho
  rw [bind_ok (entries_apply gen plan _)] at h₃
  rcases bind_cases h₃ with ⟨_, d₁, hPut, hRest⟩ | ⟨_, hPut, rfl⟩ | ⟨hPut, rfl⟩
  · rw [bind_ok (entries_apply gen plan _)] at hRest
    obtain ⟨rfl, rfl⟩ := Prod.mk.inj hRest
    exact .inl ⟨⟨_, rfl⟩, putEntries_done gen 0 _ hPut⟩
  all_goals
    exact .inr ⟨by simp, putEntries_sameBut gen 0 _ hPut, fun hPlan => putEntries_failed hPlan hPut (by simp)⟩

/-- **What `Stage` can do**: refuse while a rotation is pending, open (and
fill) the next generation, or fail. -/
theorem stage_cases
    (h : stage C p seed plan d = (o, d')) : (p.inDoubt = true ∧ o = .err .inProgress ∧ d' = d) ∨
    (p.inDoubt = false ∧ (∃ r, o = .ok ({ p with staged := some (p.gen + 1) }, r)) ∧
      d' = if seed then d.setNs (p.gen + 1) (d.seededNs C p.gen (p.gen + 1)) else d) ∨
    (p.inDoubt = false ∧ (∀ r, o ≠ .ok r) ∧ SameBut (p.gen + 1) d d' ∧
      ((seed = true → ∀ i, 0 < i → plan (.put i) = .ok) → d' = d)) := by
  unfold stage at h
  have hGuard : (p.staged.isSome || p.hasPrev) = p.inDoubt := Bool.or_comm _ _
  rw [hGuard] at h
  cases hDoubt : p.inDoubt with
  | true =>
    rw [hDoubt] at h
    obtain ⟨rfl, rfl⟩ := Prod.mk.inj h
    exact .inl ⟨rfl, rfl, rfl⟩
  | false =>
    simp only [hDoubt, Bool.false_eq_true, if_false] at h
    refine .inr ?_
    rcases ((reads_touch _).wrap _).bind_cases h with ⟨_, _, hRest⟩ | ⟨rfl, ho, _⟩
    · cases seed with
      | false =>
        obtain ⟨rfl, rfl⟩ := Prod.mk.inj hRest
        exact .inl ⟨rfl, ⟨_, rfl⟩, rfl⟩
      | true =>
        rcases bind_cases hRest with ⟨_, d₂, hSeed, hEnd⟩ | ⟨_, hSeed, rfl⟩ | ⟨hSeed, rfl⟩ <;>
          rcases seedStage_cases hSeed with ⟨⟨_, ho⟩, hd⟩ | ⟨ho, hSame, hKeep⟩
        · obtain ⟨rfl, rfl⟩ := Prod.mk.inj hEnd
          exact .inl ⟨rfl, ⟨_, rfl⟩, hd⟩
        · exact absurd rfl (ho _)
        · cases ho
        · exact .inr ⟨rfl, by simp, hSame, fun hPlan => hKeep (hPlan rfl)⟩
        · cases ho
        · exact .inr ⟨rfl, by simp, hSame, fun hPlan => hKeep (hPlan rfl)⟩
    · exact .inr ⟨rfl, ho, .refl _ _, fun _ => rfl⟩

variable [DecidableEq ρ]

/-- `d'` is `d` with the namespace of the dropped generation purged up to some
point. -/
structure Purged (drop : Option Nat) (d d' : Backing ρ) : Prop where
  gen : d'.gen = d.gen
  prev : d'.prev = d.prev
  ns : ∀ i, drop ≠ some i → d'.ns i = d.ns i
  empty : ∀ i, d.ns i = [] → d'.ns i = []

omit [DecidableEq ρ] in
lemma Purged.refl (drop : Option Nat) (d : Backing ρ) : Purged drop d d :=
  ⟨rfl, rfl, fun _ _ => rfl, fun _ h => h⟩

lemma purgeDropped_cases (h : purgeDropped drop plan d = (o, d')) :
    Purged drop d d' ∧ (o = .ok () ∨ (o = .crashed ∧ drop ≠ none)) := by
  cases drop with
  | none =>
    obtain ⟨rfl, rfl⟩ := Prod.mk.inj h
    exact ⟨.refl _ _, .inl rfl⟩
  | some g =>
    have hPurged : ∀ {o₁ d₁}, purgeNamespace g plan d = (o₁, d₁) → Purged (some g) d d₁ := by
      intro o₁ d₁ hp
      have hSame := purgeNamespace_sameBut g hp
      refine ⟨hSame.gen, hSame.prev, fun i hi => hSame.ns i fun he => hi (he ▸ rfl), ?_⟩
      intro i hi
      by_cases hg : i = g
      · exact hg ▸ purgeNamespace_empty g (hg ▸ hi) hp
      · rw [hSame.ns i hg, hi]
    rcases bind_attempt_cases h with ⟨_, _, d₁, hp, _, _, h⟩ | ⟨hp, rfl⟩
    · obtain ⟨rfl, rfl⟩ := Prod.mk.inj h
      exact ⟨hPurged hp, .inl rfl⟩
    · exact ⟨hPurged hp, .inr ⟨rfl, by simp⟩⟩

/-- **What `Commit` and `Rollback` can leave behind**: they die in
`persistGen`, or the metadata is written up to some point and the dropped
namespace then purged up to some point. -/
theorem persistAndPurge_cases
    (h : persistAndPurge p drop plan d = (o, d')) : (o = .crashed ∧ persistGen p plan d = (.crashed, d')) ∨
    ∃ o₀ d₁ o₁, persistGen p plan d = (o₀, d₁) ∧ o₀ ≠ .crashed ∧ purgeDropped drop plan d₁ = (o₁, d') ∧
    ((o = .crashed ∧ o₁ = .crashed) ∨ ∃ err, o = .ok err ∧ o₁ = .ok ()) := by
  rcases bind_attempt_cases h with ⟨err, o₀, d₁, hp, ho₀, _, h⟩ | ⟨hp, rfl⟩
  · -- the purge comes whether or not `persistGen` returned an error
    rcases bind_cases h with ⟨_, d₂, hPurge, h⟩ | ⟨e, hPurge, _⟩ | ⟨hPurge, rfl⟩
    · obtain ⟨rfl, rfl⟩ := Prod.mk.inj h
      exact .inr ⟨o₀, d₁, _, hp, ho₀, hPurge, .inr ⟨err, rfl, rfl⟩⟩
    · rcases (purgeDropped_cases hPurge).2 with hc | ⟨hc, _⟩ <;> cases hc
    · exact .inr ⟨o₀, d₁, _, hp, ho₀, hPurge, .inl ⟨rfl, rfl⟩⟩
  · exact .inl ⟨rfl, hp⟩

/-- If the first write crashes nothing has happened. -/
lemma persistAndPurge_first_crash (h : plan .putGen = .crash) :
    persistAndPurge p drop plan d = (.crashed, d) := by
  have hPersist : attempt (persistGen p) plan d = (.crashed, d) := by
    rw [attempt, persistGen_eq, h]
  exact bind_crashed _ hPersist

/-- Without storage errors, an end that returns has written both keys. -/
lemma persistAndPurge_done (hPlan : ∀ a text, plan a ≠ .fail text)
    (h : persistAndPurge p drop plan d = (.ok err, d')) :
    d'.gen = (d.persisted p).gen ∧ d'.prev = (d.persisted p).prev := by
  rcases persistAndPurge_cases h with ⟨hc, _⟩ | ⟨o₀, d₁, o₂, hPersist, ho₀, hPurge, _⟩
  · cases hc
  · have hPurged := (purgeDropped_cases hPurge).1
    rw [hPurged.gen, hPurged.prev, persistGen_whole hPlan hPersist ho₀]
    exact ⟨rfl, rfl⟩

/-- The end of `Commit` and `Rollback` with the partition `q` they return. -/
lemma persistAndPurge_return (h : (persistAndPurge p drop >>= fun err => pure (q, err)) plan d = (o, d')) :
    ∃ o₁, persistAndPurge p drop plan d = (o₁, d') ∧
    ((o = .crashed ∧ o₁ = .crashed) ∨ ∃ err, o = .ok (q, err) ∧ o₁ = .ok err) := by
  rcases bind_cases h with ⟨err, d₁, hp, hEnd⟩ | ⟨e, hp, _⟩ | ⟨hp, rfl⟩
  · obtain ⟨rfl, rfl⟩ := Prod.mk.inj hEnd
    exact ⟨_, hp, .inr ⟨err, rfl, rfl⟩⟩
  · -- its errors are values
    rcases persistAndPurge_cases hp with ⟨hc, _⟩ | ⟨_, _, _, _, _, _, ⟨hc, _⟩ | ⟨_, hc, _⟩⟩ <;>
      cases hc
  · exact ⟨_, hp, .inl ⟨rfl, rfl⟩⟩

lemma commit_cases (h : commit p plan d = (o, d')) :
    ∃ o₁, persistAndPurge (committed p) (commitDrops p) plan d = (o₁, d') ∧
    ((o = .crashed ∧ o₁ = .crashed) ∨ ∃ err, o = .ok (committed p, err) ∧ o₁ = .ok err) :=
  persistAndPurge_return h

omit [DecidableEq ρ] in
/-- A reopening that dies does so at its one access. -/
lemma reopen_crashed (h : wrap f (touch .openNs) plan d = (.crashed, d')) : plan .openNs = .crash := by
  unfold wrap at h
  split at h
  · cases h
  · rcases write_cases h with ⟨_, hc, _⟩ | ⟨⟨_, _, hc⟩, _⟩ | ⟨hPlan, _, _⟩
    · cases hc
    · cases hc
    · exact hPlan

/-- What `Rollback` can do: stop at the reopening, or go on to its end. -/
lemma rollback_cases (h : rollback p plan d = (o, d')) :
    (d' = d ∧ p.hasPrev = true ∧ p.staged = none ∧
      ((o = .crashed ∧ plan .openNs = .crash) ∨ ∃ e, o = .ok (p, .error e))) ∨
    ∃ o₁, persistAndPurge (rolledBack p) (rollbackDrops p) plan d = (o₁, d') ∧
      ((o = .crashed ∧ o₁ = .crashed) ∨ ∃ err, o = .ok (reopenReads (rolledBack p), err) ∧ o₁ = .ok err) := by
  unfold rollback at h
  cases hReopen : reopens p with
  | false =>
    -- a staged generation is dropped, or the previous one is still open
    simp only [hReopen, Bool.false_eq_true, if_false] at h
    rw [bind_ok (attempt_ok (pure_apply () plan d))] at h
    exact .inr (persistAndPurge_return h)
  | true =>
    have hPending : p.hasPrev = true ∧ p.staged = none := by
      simp only [reopens, Bool.and_eq_true, Option.isNone_iff_eq_none] at hReopen
      exact ⟨hReopen.1.2, hReopen.1.1⟩
    simp only [hReopen, if_true] at h
    rcases bind_attempt_cases h with ⟨r, o₁, d₁, hx, _, _, hRest⟩ | ⟨hx, rfl⟩
    · obtain rfl : d₁ = d := (reads_touch _).wrap _ hx
      cases r with
      | error e =>
        obtain ⟨rfl, rfl⟩ := Prod.mk.inj hRest
        exact .inl ⟨rfl, hPending.1, hPending.2, .inr ⟨e, rfl⟩⟩
      | ok u => exact .inr (persistAndPurge_return hRest)
    · obtain rfl : d' = d := (reads_touch _).wrap _ hx
      exact .inl ⟨rfl, hPending.1, hPending.2, .inl ⟨rfl, reopen_crashed hx⟩⟩

end

end RedGeo.Engine
