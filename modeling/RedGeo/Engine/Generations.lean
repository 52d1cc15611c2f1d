import RedGeo.Engine.Disk
import RedGeo.Lib.Run

/-!
# RedGeo — rotations of a node, key by key

The primitives of `engine/rotation.go` on a node with any number of partitions over one
backing store, without faults: any sequence of them, of writes and of clean restarts. The
memory changes as in `Partition`; the store changes key by key.

* `Host.step` — what a call does.
* `step_target` — a call about a partition touches that partition and its keys alone.
* `Aligned` — what holds of a partition in every run (`ordered_of_reach`): no generation is
  staged while one is pending, and the persisted keys are those of the memory.
-/

namespace RedGeo.Engine

open Lib Function List Option Table Disk

/-! ## The calls -/

/-- A call that succeeds. A write is a `Put`, a `Delete` or the commit of a batch. -/
inductive HostCall (κ ν : Type)
  | freeze (idx : Nat)
  | unfreeze (idx : Nat)
  | stage (idx : Nat) (seed : Bool)
  | activate (idx : Nat) (waitSeed : Bool)
  | commit (idx : Nat)
  | rollback (idx : Nat)
  | restart
  | write (idx : Nat) (ops : List (κ × Option ν))
  deriving DecidableEq

/-- A node's engine: its partitions, and the backing store. -/
structure Host where
  disk : Disk
  part : Nat → Partition

variable {κ ν : Type}

section

variable (C : Replicated κ ν) (numParts : Nat)

/-- `crdt.New` over the namespace of a generation. -/
def openGen (idx gen : Nat) (d : Disk) : Disk :=
  d.graft (nsFor numParts idx gen) (C.opened (d.subtree (nsFor numParts idx gen)))

/-- `Close` of its datastore. -/
def closeGen (idx gen : Nat) (d : Disk) : Disk :=
  d.graft (nsFor numParts idx gen) (C.closed (d.subtree (nsFor numParts idx gen)))

/-- A write to it. -/
def writeGen (idx gen : Nat) (ops : List (κ × Option ν)) (d : Disk) : Disk :=
  d.graft (nsFor numParts idx gen) (C.write (d.subtree (nsFor numParts idx gen)) ops)

/-- The store after `Stage`. The namespace is taken as it is found. -/
def stagedDisk (p : Partition) (seed : Bool) (d : Disk) : Disk :=
  let d := openGen C numParts p.idx (p.gen + 1) d
  if seed then
    let entries := C.query (d.subtree (nsFor numParts p.idx p.gen))
    writeGen C numParts p.idx (p.gen + 1) (entries.map fun e => (e.1, some e.2)) d
  else d

/-- The end of `Commit` and `Rollback`: what is dropped is closed, if it is open, and purged. -/
def droppedDisk (idx : Nat) (drop : Option Nat) (isOpen : Bool) (d : Disk) : Disk :=
  match drop with
  | none => d
  | some gen => (if isOpen then closeGen C numParts idx gen d else d).purgeNamespace numParts idx gen

/-- `Close`, of one partition. -/
def closePart (p : Partition) (d : Disk) : Disk :=
  let d := closeGen C numParts p.idx p.gen d
  let d := match p.staged with
    | some gen => closeGen C numParts p.idx gen d
    | none => d
  if p.oldOpen then closeGen C numParts p.idx p.prevGen d else d

variable (s : Host)

/-- `New`, as far as one partition. -/
def Host.open (idx : Nat) : Host :=
  let p := restoreGen idx (s.disk.backing numParts idx)
  { disk := openGen C numParts idx p.gen s.disk, part := update s.part idx p }

/-- `New`, over a backing store. -/
def Host.start (d : Disk) : Host :=
  (List.range numParts).foldl (Host.open C numParts) { disk := d, part := fun idx => { idx := idx } }

def Host.close : Disk :=
  (List.range numParts).foldl (fun d idx => closePart C numParts (s.part idx) d) s.disk

/-- Replace a partition. -/
def Host.set (idx : Nat) (p : Partition) (d : Disk) : Host :=
  { disk := d, part := update s.part idx p }

/-- What a call does. It waits, or returns an error, where there is no step. -/
def Host.step : HostCall κ ν → Option Host
  | .freeze idx =>
    let p := s.part idx
    if idx < numParts ∧ p.freeze.2 then some (s.set idx p.freeze.1 s.disk) else none
  | .unfreeze idx => if idx < numParts then some (s.set idx (s.part idx).unfreeze s.disk) else none
  | .stage idx seed =>
    let p := s.part idx
    if idx < numParts ∧ p.inDoubt = false then
      some (s.set idx { p with staged := some (p.gen + 1) } (stagedDisk C numParts p seed s.disk))
    else none
  | .activate idx waitSeed =>
    let p := s.part idx
    match p.staged with
    | some gen =>
      if idx < numParts then
        some (s.set idx (activated p gen waitSeed) (s.disk.persistGen (activated p gen waitSeed)))
      else none
    | none => none
  | .commit idx =>
    let p := s.part idx
    if idx < numParts then
      let d := s.disk.persistGen (committed p)
      some (s.set idx (committed p) (droppedDisk C numParts idx (commitDrops p) p.oldOpen d))
    else none
  | .rollback idx =>
    let p := s.part idx
    if idx < numParts then
      -- after a restart the previous generation is opened again
      let d := if reopens p then openGen C numParts idx p.prevGen s.disk else s.disk
      let d := d.persistGen (rolledBack p)
      some (s.set idx (reopenReads (rolledBack p)) (droppedDisk C numParts idx (rollbackDrops p) true d))
    else none
  | .restart => some (Host.start C numParts (s.close C numParts))
  | .write idx ops =>
    let p := s.part idx
    if idx < numParts ∧ p.gate.frozen = false then
      some { s with disk := writeGen C numParts idx p.gen ops s.disk }
    else none

end

/-! ## What is touched -/

/-- The keys of a partition. -/
def KeyOf (numParts idx : Nat) (k : DsKey) : Prop :=
  (∃ gen, Beneath (nsFor numParts idx gen) k) ∨ k = genKey idx ∨ k = prevKey idx

/-- Only keys of one partition have changed. -/
def OnlyOf (numParts idx : Nat) (d d' : Disk) : Prop := ∀ k, ¬ KeyOf numParts idx k → d'[k]? = d[k]?

lemma OnlyOf.refl {numParts idx : Nat} (d : Disk) : OnlyOf numParts idx d d := fun _ _ => rfl

lemma OnlyOf.trans {numParts idx : Nat} (h : OnlyOf numParts idx d d') (h' : OnlyOf numParts idx d' d'') :
    OnlyOf numParts idx d d'' :=
  fun k hk => (h' k hk).trans (h k hk)

/-- The keys of two partitions are apart. -/
lemma not_keyOf {numParts idx idx' : Nat} (hIdx : idx < numParts) (hIdx' : idx' < numParts)
    (hNe : idx ≠ idx') (h : KeyOf numParts idx k) : ¬ KeyOf numParts idx' k := by
  rintro (⟨gen', h'⟩ | rfl | rfl)
  · rcases h with ⟨gen, h⟩ | rfl | rfl
    · exact hNe (gen_of_beneath hIdx hIdx' h h').1
    · exact not_beneath_genKey h'
    · exact not_beneath_prevKey h'
  · rcases h with ⟨gen, h⟩ | h | h
    · exact not_beneath_genKey h
    · exact hNe (genKey_inj h).symm
    · exact genKey_ne_prevKey h
  · rcases h with ⟨gen, h⟩ | h | h
    · exact not_beneath_prevKey h
    · exact genKey_ne_prevKey h.symm
    · exact hNe (prevKey_inj h).symm

lemma onlyOf_graft (d : Disk) (cs : List (Table.Change Bytes Bytes)) :
    OnlyOf numParts idx d (d.graft (nsFor numParts idx gen) cs) :=
  fun _ hk => lookup_graft_of_not (fun h => hk (.inl ⟨gen, h⟩)) d cs

lemma onlyOf_persistGen (hIdx : p.idx = idx) (d : Disk) : OnlyOf numParts idx d (d.persistGen p) := by
  intro k hk
  subst hIdx
  rw [lookup_persistGen, if_neg fun h => hk (.inr (.inl h)), if_neg fun h => hk (.inr (.inr h))]

/-- What is dropped is all that goes. -/
lemma lookup_droppedDisk (isOpen : Bool) (d : Disk) (k : DsKey) :
    (droppedDisk C numParts idx (some gen) isOpen d)[k]? =
    if Beneath (nsFor numParts idx gen) k then none else d[k]? := by
  unfold droppedDisk
  dsimp only
  rw [Disk.purgeNamespace, lookup_prune]
  by_cases hk : Beneath (nsFor numParts idx gen) k
  · rw [if_pos hk, if_pos hk]
  · rw [if_neg hk, if_neg hk]
    split
    · exact lookup_graft_of_not hk _ _
    · rfl

lemma onlyOf_dropped (drop : Option Nat) (isOpen : Bool) (d : Disk) :
    OnlyOf numParts idx d (droppedDisk C numParts idx drop isOpen d) := by
  cases drop with
  | none => exact .refl d
  | some gen =>
    intro k hk
    rw [lookup_droppedDisk, if_neg fun h => hk (.inl ⟨gen, h⟩)]

/-- `Stage` writes to the next namespace. -/
lemma lookup_stagedDisk {p : Partition} {k : DsKey} (hk : ¬ Beneath (nsFor numParts p.idx (p.gen + 1)) k)
    (seed : Bool) (d : Disk) : (stagedDisk C numParts p seed d)[k]? = d[k]? := by
  unfold stagedDisk
  have hOpen : (openGen C numParts p.idx (p.gen + 1) d)[k]? = d[k]? := lookup_graft_of_not hk _ _
  dsimp only
  split
  · exact (lookup_graft_of_not hk _ _).trans hOpen
  · exact hOpen

lemma onlyOf_staged (hIdx : p.idx = idx) (seed : Bool) (d : Disk) :
    OnlyOf numParts idx d (stagedDisk C numParts p seed d) := by
  subst hIdx
  exact fun k hk => lookup_stagedDisk (fun h => hk (.inl ⟨_, h⟩)) seed d

/-! ## Opening and closing -/

section

variable [DecidableEq κ] {C : Replicated κ ν} {numParts : Nat}

/-- Nothing that is live has changed, nor the metadata. -/
structure Quiet (C : Replicated κ ν) (numParts : Nat) (d d' : Disk) : Prop where
  gen : ∀ idx, d'[genKey idx]? = d[genKey idx]?
  prev : ∀ idx, d'[prevKey idx]? = d[prevKey idx]?
  live : ∀ idx gen, idx < numParts →
    C.live (d'.subtree (nsFor numParts idx gen)) = C.live (d.subtree (nsFor numParts idx gen))

lemma Quiet.refl (d : Disk) : Quiet C numParts d d := ⟨fun _ => rfl, fun _ => rfl, fun _ _ _ => rfl⟩

lemma Quiet.trans (h : Quiet C numParts d d') (h' : Quiet C numParts d' d'') :
    Quiet C numParts d d'' where
  gen idx := (h'.gen idx).trans (h.gen idx)
  prev idx := (h'.prev idx).trans (h.prev idx)
  live idx gen hIdx := (h'.live idx gen hIdx).trans (h.live idx gen hIdx)

/-- Changes of a namespace that leave what is live there. -/
lemma quiet_graft (hIdx : idx < numParts)
    (hLive : C.live ((d.subtree (nsFor numParts idx gen)).graft [] cs) = C.live (d.subtree (nsFor numParts idx gen))) :
    Quiet C numParts d (d.graft (nsFor numParts idx gen) cs) where
  gen idx' := lookup_graft_of_not not_beneath_genKey d cs
  prev idx' := lookup_graft_of_not not_beneath_prevKey d cs
  live idx' gen' hIdx' := by
    by_cases hSame : idx = idx' ∧ gen = gen'
    · obtain ⟨rfl, rfl⟩ := hSame
      rw [subtree_graft, hLive]
    · -- a namespace is not touched by changes of another one
      rw [subtree_congr fun _ hk => lookup_graft_of_not (fun h => hSame (gen_of_beneath hIdx hIdx' h hk)) _ _]

variable (hC : C.Lawful)

include hC

lemma quiet_openGen (hIdx : idx < numParts) (gen : Nat) (d : Disk) :
    Quiet C numParts d (openGen C numParts idx gen d) :=
  quiet_graft hIdx (hC.live_opened _)

lemma quiet_closeGen (hIdx : idx < numParts) (gen : Nat) (d : Disk) :
    Quiet C numParts d (closeGen C numParts idx gen d) :=
  quiet_graft hIdx (hC.live_closed _)

lemma quiet_closePart (hIdx : p.idx < numParts) (d : Disk) :
    Quiet C numParts d (closePart C numParts p d) := by
  unfold closePart
  have hActive := quiet_closeGen hC hIdx p.gen d
  have hStaged : Quiet C numParts d (match p.staged with
      | some gen => closeGen C numParts p.idx gen (closeGen C numParts p.idx p.gen d)
      | none => closeGen C numParts p.idx p.gen d) := by
    split
    · exact hActive.trans (quiet_closeGen hC hIdx _ _)
    · exact hActive
  dsimp only
  by_cases hOld : p.oldOpen = true
  · rw [if_pos hOld]
    exact hStaged.trans (quiet_closeGen hC hIdx _ _)
  · rw [if_neg hOld]
    exact hStaged

lemma quiet_close {s : Host} (hIdx : ∀ idx < numParts, (s.part idx).idx = idx) :
    Quiet C numParts s.disk (s.close C numParts) := by
  unfold Host.close
  have hRange : ∀ idx ∈ List.range numParts, (s.part idx).idx < numParts := by
    intro idx hMem
    have hLt := mem_range.mp hMem
    rw [hIdx idx hLt]
    exact hLt
  generalize List.range numParts = idxs at hRange
  generalize s.disk = d
  induction idxs generalizing d with
  | nil => exact .refl d
  | cons idx idxs ih =>
    have hFirst := quiet_closePart hC (hRange idx mem_cons_self) d
    exact hFirst.trans (ih (fun idx' h => hRange idx' (mem_cons_of_mem idx h)) _)

/-- What `New` makes of a store. -/
lemma start_spec (numParts : Nat) (d : Disk) : Quiet C numParts d (Host.start C numParts d).disk ∧
    ∀ idx < numParts, (Host.start C numParts d).part idx = restoreGen idx (d.backing numParts idx) := by
  -- after some of the partitions, those are restored and the rest is as it was
  have hLoop : ∀ (idxs : List Nat) (s : Host), (∀ idx ∈ idxs, idx < numParts) → Quiet C numParts d s.disk →
      Quiet C numParts d (idxs.foldl (Host.open C numParts) s).disk ∧
      ∀ idx, (idxs.foldl (Host.open C numParts) s).part idx =
        if idx ∈ idxs then restoreGen idx (d.backing numParts idx) else s.part idx := by
    intro idxs
    induction idxs with
    | nil => exact fun s _ hQuiet => ⟨hQuiet, fun idx => by simp⟩
    | cons first idxs ih =>
      intro s hRange hQuiet
      have hRestored : restoreGen first (s.disk.backing numParts first) = restoreGen first (d.backing numParts first) := by
        have hGen : (s.disk.backing numParts first).gen = (d.backing numParts first).gen :=
          congrArg (·.bind (parseNat 10)) (hQuiet.gen first)
        have hPrev : (s.disk.backing numParts first).prev = (d.backing numParts first).prev :=
          congrArg (·.bind (parseNat 10)) (hQuiet.prev first)
        rw [restoreGen, restoreGen, hGen, hPrev]
      have hOpen : Quiet C numParts d (s.open C numParts first).disk :=
        hQuiet.trans (quiet_openGen hC (hRange first mem_cons_self) _ _)
      obtain ⟨hDisk, hParts⟩ := ih (s.open C numParts first) (fun idx h => hRange idx (mem_cons_of_mem _ h)) hOpen
      refine ⟨hDisk, fun idx => ?_⟩
      rw [foldl_cons, hParts]
      by_cases hMem : idx ∈ idxs
      · simp [hMem]
      · by_cases hFirst : idx = first
        · subst hFirst
          simp [hMem, Host.open, hRestored]
        · simp [hMem, hFirst, Host.open]
  obtain ⟨hDisk, hParts⟩ := hLoop (List.range numParts) { disk := d, part := fun idx => { idx := idx } }
    (fun idx h => mem_range.mp h) (.refl d)
  refine ⟨hDisk, fun idx hIdx => ?_⟩
  have hPart := hParts idx
  rw [if_pos (mem_range.mpr hIdx)] at hPart
  exact hPart

end

/-! ## What holds in every run -/

/-- A partition that its persisted keys describe. -/
structure Aligned (idx : Nat) (p : Partition) (d : Disk) : Prop where
  index : p.idx = idx
  apart : p.staged = none ∨ p.hasPrev = false
  next : ∀ gen, p.staged = some gen → gen = p.gen + 1
  pending : p.hasPrev = true → p.gen = p.prevGen + 1
  gen : d[genKey idx]? = some (itoa p.gen) ∨ d[genKey idx]? = none ∧ p.gen = 0
  prev : d[prevKey idx]? = if p.hasPrev then some (itoa p.prevGen) else none

section

variable {idx : Nat} {p : Partition} {d d' : Disk}

/-- The metadata alone matter. -/
lemma Aligned.congr (h : Aligned idx p d) (hGen : d'[genKey idx]? = d[genKey idx]?)
    (hPrev : d'[prevKey idx]? = d[prevKey idx]?) : Aligned idx p d' :=
  { h with gen := by rw [hGen]; exact h.gen, prev := by rw [hPrev]; exact h.prev }

/-- What is persisted is what a restart finds. -/
lemma Aligned.restored (h : Aligned idx p d) (numParts : Nat) :
    (restoreGen idx (d.backing numParts idx)).gen = p.gen ∧
    (restoreGen idx (d.backing numParts idx)).hasPrev = p.hasPrev ∧
    (p.hasPrev = true → (restoreGen idx (d.backing numParts idx)).prevGen = p.prevGen) := by
  have hText : ∀ n, parseNat 10 (itoa n) = some n := parseNat_numeral (by decide) (by decide) 0
  have hGen : (d.backing numParts idx).gen.getD 0 = p.gen := by
    show (d[genKey idx]?.bind (parseNat 10)).getD 0 = _
    rcases h.gen with hKey | ⟨hKey, hZero⟩
    · rw [hKey, bind_some, hText]
      rfl
    · rw [hKey, hZero]
      rfl
  have hPrev : (d.backing numParts idx).prev = if p.hasPrev then some p.prevGen else none := by
    show d[prevKey idx]?.bind (parseNat 10) = _
    rw [h.prev]
    split
    · rw [bind_some, hText]
    · rfl
  rw [restoreGen, Plan.found_quiet, Plan.found_quiet, hGen, hPrev]
  cases p.hasPrev with
  | true => exact ⟨rfl, rfl, fun _ => rfl⟩
  | false => exact ⟨rfl, rfl, nofun⟩

lemma staged_restoreGen (b : Backing (DsKey × Bytes)) : (restoreGen idx b).staged = none := by
  unfold restoreGen
  split <;> rfl

/-- `persistGen` writes what it is given. -/
lemma aligned_persistGen (hIndex : p.idx = idx) (hApart : p.staged = none ∨ p.hasPrev = false)
    (hNext : ∀ gen, p.staged = some gen → gen = p.gen + 1) (hPending : p.hasPrev = true → p.gen = p.prevGen + 1)
    (d : Disk) : Aligned idx p (d.persistGen p) where
  index := hIndex
  apart := hApart
  next := hNext
  pending := hPending
  gen := by
    left
    rw [lookup_persistGen, if_pos (by rw [hIndex])]
  prev := by
    rw [lookup_persistGen, if_neg genKey_ne_prevKey.symm, if_pos (by rw [hIndex])]

variable (h : Aligned idx p d)

include h

/-- Dropping a generation leaves the metadata. -/
lemma Aligned.dropped (numParts : Nat) (drop : Option Nat) (isOpen : Bool) :
    Aligned idx p (droppedDisk C numParts idx drop isOpen d) := by
  cases drop with
  | none => exact h
  | some gen =>
    refine h.congr ?_ ?_
    · rw [lookup_droppedDisk, if_neg not_beneath_genKey]
    · rw [lookup_droppedDisk, if_neg not_beneath_prevKey]

lemma Aligned.committed : Aligned idx (committed p) (d.persistGen (Engine.committed p)) :=
  aligned_persistGen (p := Engine.committed p) h.index (.inr rfl) h.next nofun d

lemma Aligned.rolledBack : Aligned idx (rolledBack p) (d'.persistGen (Engine.rolledBack p)) := by
  unfold Engine.rolledBack
  cases hStaged : p.staged with
  | some gen => exact aligned_persistGen (p := { p with staged := none }) h.index (.inl rfl) nofun h.pending d'
  | none =>
    dsimp only
    split
    · exact aligned_persistGen (p := { p with staged := none, gen := p.prevGen, oldOpen := false, hasPrev := false })
        h.index (.inr rfl) nofun nofun d'
    · exact aligned_persistGen h.index h.apart h.next h.pending d'

lemma Aligned.activated {gen : Nat} (hStaged : p.staged = some gen) (waitSeed : Bool) :
    Aligned idx (activated p gen waitSeed) (d.persistGen (Engine.activated p gen waitSeed)) :=
  aligned_persistGen (p := Engine.activated p gen waitSeed) h.index (.inl rfl) nofun (fun _ => h.next gen hStaged) d

end

section

variable [DecidableEq κ] {C : Replicated κ ν} {numParts : Nat} {s s' : Host}

/-- Every partition is aligned. -/
def Host.Ordered (numParts : Nat) (s : Host) : Prop := ∀ idx < numParts, Aligned idx (s.part idx) s.disk

/-- A step of one partition leaves the others as they are. -/
lemma ordered_set {idx : Nat} {p : Partition} {d : Disk} (h : s.Ordered numParts) (hIdx : idx < numParts)
    (hAligned : Aligned idx p d) (hOnly : OnlyOf numParts idx s.disk d) : (s.set idx p d).Ordered numParts := by
  intro other hOther
  by_cases hSame : other = idx
  · subst hSame
    simpa [Host.set] using hAligned
  · have hApart : ∀ k, KeyOf numParts other k → d[k]? = s.disk[k]? :=
      fun k hk => hOnly k (not_keyOf hOther hIdx hSame hk)
    have hPart : (s.set idx p d).part other = s.part other := by simp [Host.set, hSame]
    rw [hPart]
    exact (h other hOther).congr (hApart _ (.inr (.inl rfl))) (hApart _ (.inr (.inr rfl)))

/-- A restart finds what was there. -/
lemma ordered_restart (hC : C.Lawful) (h : s.Ordered numParts) :
    (Host.start C numParts (s.close C numParts)).Ordered numParts := by
  have hClose := quiet_close hC fun idx hIdx => (h idx hIdx).index
  obtain ⟨hStart, hParts⟩ := start_spec hC numParts (s.close C numParts)
  intro idx hIdx
  have hClosed : Aligned idx (s.part idx) (s.close C numParts) := (h idx hIdx).congr (hClose.gen idx) (hClose.prev idx)
  obtain ⟨hGen, hHas, hPrev⟩ := hClosed.restored numParts
  rw [hParts idx hIdx]
  refine Aligned.congr ?_ (hStart.gen idx) (hStart.prev idx)
  refine ⟨by unfold restoreGen; split <;> rfl, .inl (staged_restoreGen _), ?_, ?_, ?_, ?_⟩
  · rw [staged_restoreGen]
    exact nofun
  · rw [hHas, hGen]
    exact fun hPending => (hPrev hPending).symm ▸ hClosed.pending hPending
  · rw [hGen]
    exact hClosed.gen
  · rw [hHas, hClosed.prev]
    split
    · next hPending => rw [hPrev hPending]
    · rfl

/-- The partition that a call is about. -/
def HostCall.target : HostCall κ ν → Option Nat
  | .freeze idx | .unfreeze idx | .stage idx _ | .activate idx _ | .commit idx | .rollback idx | .write idx _ => some idx
  | .restart => none

omit [DecidableEq κ] in
/-- **What a call about one partition does**: it changes the partition and some of its keys. -/
theorem step_target (h : s.Ordered numParts) (hStep : s.step C numParts call = some s')
    {idx : Nat} (hTarget : call.target = some idx) :
    idx < numParts ∧ ∃ p d, s' = s.set idx p d ∧ Aligned idx p d ∧ OnlyOf numParts idx s.disk d := by
  cases call with
  | restart => cases hTarget
  | freeze idx =>
    cases hTarget
    obtain ⟨⟨hIdx, -⟩, hEq⟩ := ite_none_right_eq_some.mp hStep
    have hAt := h idx hIdx
    exact ⟨hIdx, _, _, (some.inj hEq).symm, { hAt with }, .refl _⟩
  | unfreeze idx =>
    cases hTarget
    obtain ⟨hIdx, hEq⟩ := ite_none_right_eq_some.mp hStep
    have hAt := h idx hIdx
    exact ⟨hIdx, _, _, (some.inj hEq).symm, { hAt with }, .refl _⟩
  | stage idx seed =>
    cases hTarget
    obtain ⟨⟨hIdx, hFree⟩, hEq⟩ := ite_none_right_eq_some.mp hStep
    have hAt := h idx hIdx
    obtain ⟨hPrev, -⟩ := Partition.inDoubt_eq_false.mp hFree
    have hStaged : Aligned idx { s.part idx with staged := some ((s.part idx).gen + 1) } s.disk :=
      { hAt with
        apart := .inr hPrev
        next := fun gen hGen => (some.inj hGen).symm }
    refine ⟨hIdx, _, _, (some.inj hEq).symm, hStaged.congr ?_ ?_, onlyOf_staged hAt.index seed s.disk⟩
    · exact lookup_stagedDisk not_beneath_genKey seed s.disk
    · exact lookup_stagedDisk not_beneath_prevKey seed s.disk
  | activate idx waitSeed =>
    cases hTarget
    simp only [Host.step] at hStep
    split at hStep
    · next gen hStaged =>
      obtain ⟨hIdx, hEq⟩ := ite_none_right_eq_some.mp hStep
      have hAt := h idx hIdx
      exact ⟨hIdx, _, _, (some.inj hEq).symm, hAt.activated hStaged waitSeed,
        onlyOf_persistGen (p := activated (s.part idx) gen waitSeed) hAt.index _⟩
    · cases hStep
  | commit idx =>
    cases hTarget
    obtain ⟨hIdx, hEq⟩ := ite_none_right_eq_some.mp hStep
    have hAt := h idx hIdx
    exact ⟨hIdx, _, _, (some.inj hEq).symm, hAt.committed.dropped numParts _ _,
      (onlyOf_persistGen (p := committed (s.part idx)) hAt.index _).trans (onlyOf_dropped _ _ _)⟩
  | rollback idx =>
    cases hTarget
    obtain ⟨hIdx, hEq⟩ := ite_none_right_eq_some.mp hStep
    have hAt := h idx hIdx
    have hOpen : OnlyOf numParts idx s.disk (if reopens (s.part idx) then
        openGen C numParts idx (s.part idx).prevGen s.disk else s.disk) := by
      split
      · exact onlyOf_graft _ _
      · exact .refl _
    generalize (if reopens (s.part idx) then openGen C numParts idx (s.part idx).prevGen s.disk else s.disk) = d
      at hOpen hEq
    have hBack : Aligned idx (rolledBack (s.part idx)) (d.persistGen (rolledBack (s.part idx))) := hAt.rolledBack
    have hDropped := hBack.dropped (C := C) numParts (rollbackDrops (s.part idx)) true
    exact ⟨hIdx, _, _, (some.inj hEq).symm, { hDropped with },
      (hOpen.trans (onlyOf_persistGen hBack.index d)).trans (onlyOf_dropped _ _ _)⟩
  | write idx ops =>
    cases hTarget
    obtain ⟨⟨hIdx, -⟩, hEq⟩ := ite_none_right_eq_some.mp hStep
    refine ⟨hIdx, s.part idx, writeGen C numParts idx (s.part idx).gen ops s.disk, ?_, (h idx hIdx).congr ?_ ?_,
      onlyOf_graft _ _⟩
    · rw [← some.inj hEq, Host.set, update_eq_self]
    · exact lookup_graft_of_not not_beneath_genKey _ _
    · exact lookup_graft_of_not not_beneath_prevKey _ _

/-- **One step.** -/
theorem ordered_step (hC : C.Lawful) (h : s.Ordered numParts)
    (hStep : s.step C numParts call = some s') : s'.Ordered numParts := by
  cases hTarget : call.target with
  | some idx =>
    obtain ⟨hIdx, p, d, rfl, hAligned, hOnly⟩ := step_target h hStep hTarget
    exact ordered_set h hIdx hAligned hOnly
  | none =>
    cases call with
    | restart =>
      cases hStep
      exact ordered_restart hC h
    | _ => cases hTarget

lemma ordered_start (hC : C.Lawful) : (Host.start C numParts ∅).Ordered numParts := by
  obtain ⟨hStart, hParts⟩ := start_spec hC numParts ∅
  intro idx hIdx
  rw [hParts idx hIdx]
  have hEmpty : ∀ k : DsKey, (∅ : Disk)[k]? = none := fun k => Std.ExtTreeMap.getElem?_empty
  have hFresh : restoreGen idx (backing ∅ numParts idx) = { idx := idx } := by
    simp [restoreGen, backing]
  rw [hFresh]
  refine Aligned.congr (d := ∅) ⟨rfl, .inl rfl, nofun, nofun, .inr ⟨hEmpty _, rfl⟩, hEmpty _⟩ (hStart.gen idx) (hStart.prev idx)

/-- **In every run** the persisted keys describe the memory, and nothing is staged while a
generation is pending. -/
theorem ordered_of_reach (hC : C.Lawful)
    (hReach : Reach (fun s call => s.step C numParts call) Anything (Host.start C numParts ∅) s) :
    s.Ordered numParts :=
  hReach.induct (I := Host.Ordered numParts) (ordered_start hC) fun _ h _ hStep => ordered_step hC h hStep

end

end RedGeo.Engine
