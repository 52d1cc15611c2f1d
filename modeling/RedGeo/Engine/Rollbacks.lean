import RedGeo.Engine.Generations

/-!
# RedGeo — what `Rollback` restores and what `Commit` removes

`Rollback` falls back to the generation that was active when the attempt was staged. As long
as neither `Commit` nor `Rollback` ends the attempt, that generation stays in place: restarts
open and close it, and it accepts the writes that come before `Activate`.

* `step_base` — between `Commit` and `Rollback`, the generation that `Rollback` falls back to
  changes by the writes that it accepts, and by nothing else.
* `primitives_refine` — the same calls as programs of `Partition`.
* `rotation_primitives_sound` — the primitives in every run.
-/

namespace RedGeo.Engine

open Lib Function List Option Partition Table

variable {idx : Nat} {d : Disk}

section

variable {κ ν : Type} [DecidableEq κ] {C : Replicated κ ν} {numParts : Nat} {s s' : Host}

/-! ## What `Rollback` falls back to -/

/-- The live entries of a generation. -/
def Host.live (C : Replicated κ ν) (numParts : Nat) (s : Host) (idx gen : Nat) : κ → Option ν :=
  C.live (s.disk.subtree (nsFor numParts idx gen))

/-- What a partition is read as. -/
def Host.contents (C : Replicated κ ν) (numParts : Nat) (s : Host) (idx : Nat) : κ → Option ν :=
  s.live C numParts idx (s.part idx).gen

/-- The operations that a call adds to the generation `Rollback` falls back to: those of a
write before `Activate`. -/
def HostCall.baseOps (s : Host) (idx : Nat) : HostCall κ ν → List (κ × Option ν)
  | .write idx' ops => if idx' = idx ∧ (s.part idx).hasPrev = false then ops else []
  | _ => []

/-- A namespace whose keys are as they were. -/
lemma live_congr {gen : Nat} {d' : Disk} (h : ∀ k, Beneath (nsFor numParts idx gen) k → d'[k]? = d[k]?) :
    C.live (d'.subtree (nsFor numParts idx gen)) = C.live (d.subtree (nsFor numParts idx gen)) := by
  rw [subtree_congr h]

/-- A generation is not touched by what is done to another one of the partition. -/
lemma live_of_other (gen gen' : Nat) (hIdx : idx < numParts) (hNe : gen ≠ gen') {d' : Disk}
    (h : ∀ k, ¬ Beneath (nsFor numParts idx gen') k → k ≠ genKey idx → k ≠ prevKey idx → d'[k]? = d[k]?) :
    C.live (d'.subtree (nsFor numParts idx gen)) = C.live (d.subtree (nsFor numParts idx gen)) := by
  refine live_congr fun k hk => h k (fun hk' => hNe (gen_of_beneath hIdx hIdx hk hk').2) ?_ ?_
  · rintro rfl
    exact not_beneath_genKey hk
  · rintro rfl
    exact not_beneath_prevKey hk

/-- The metadata are in no namespace. -/
lemma live_persistGen (p : Partition) (d : Disk) (idx gen : Nat) :
    C.live ((d.persistGen p).subtree (nsFor numParts idx gen)) = C.live (d.subtree (nsFor numParts idx gen)) := by
  refine live_congr fun k hk => ?_
  rw [Disk.lookup_persistGen, if_neg, if_neg]
  · rintro rfl
    exact not_beneath_prevKey hk
  · rintro rfl
    exact not_beneath_genKey hk

variable (hC : C.Lawful) (h : s.Ordered numParts) (hStep : s.step C numParts (.commit idx) = some s')
  (hIdx : idx < numParts) (hs : s.Ordered numParts)

include hC h hIdx in
/-- **Between `Commit` and `Rollback`**, the generation that `Rollback` falls back to stays
the same, and what is live there changes by the writes it accepts alone. -/
theorem step_base (hStep : s.step C numParts call = some s')
    (hCommit : call ≠ .commit idx) (hRollback : call ≠ .rollback idx) :
    (s'.part idx).base = (s.part idx).base ∧ s'.live C numParts idx (s.part idx).base =
    applyWrite (call.baseOps s idx) (s.live C numParts idx (s.part idx).base) := by
  have hAt := h idx hIdx
  cases hTarget : call.target with
  | none =>
    cases call with
    | restart =>
      cases hStep
      -- a restart finds the same generations, and opens and closes some of them
      have hClose := quiet_close hC fun idx hIdx => (h idx hIdx).index
      obtain ⟨hStart, hParts⟩ := start_spec hC numParts (s.close C numParts)
      obtain ⟨hGen, hHas, hPrev⟩ := (hAt.congr (hClose.gen idx) (hClose.prev idx)).restored numParts
      refine ⟨?_, ((hClose.trans hStart).live idx _ hIdx)⟩
      rw [hParts idx hIdx, base, base, hHas, hGen]
      split
      · next hPending => exact hPrev hPending
      · rfl
    | _ => cases hTarget
  | some idx' =>
    by_cases hSame : idx = idx'
    · subst hSame
      cases call with
      | restart => cases hTarget
      | commit | rollback =>
        cases hTarget
        contradiction
      | freeze | unfreeze =>
        cases hTarget
        obtain ⟨-, hEq⟩ := ite_none_right_eq_some.mp hStep
        cases hEq
        refine ⟨?_, rfl⟩
        simp [Host.set, base, freeze, unfreeze]
      | stage idx' seed =>
        cases hTarget
        obtain ⟨⟨-, hFree⟩, hEq⟩ := ite_none_right_eq_some.mp hStep
        cases hEq
        obtain ⟨hPrev, -⟩ := inDoubt_eq_false.mp hFree
        have hBase : (s.part idx).base = (s.part idx).gen := by simp [base, hPrev]
        refine ⟨by simp [Host.set, base], ?_⟩
        rw [hBase]
        refine live_of_other _ ((s.part idx).gen + 1) hIdx (by omega) fun k hk _ _ => ?_
        refine lookup_stagedDisk ?_ seed s.disk
        rw [hAt.index]
        exact hk
      | activate idx' waitSeed =>
        cases hTarget
        simp only [Host.step] at hStep
        split at hStep
        · next gen hStaged =>
          obtain ⟨-, hEq⟩ := ite_none_right_eq_some.mp hStep
          cases hEq
          have hPrev : (s.part idx).hasPrev = false := hAt.apart.resolve_left (by simp [hStaged])
          refine ⟨by simp [Host.set, base, activated, hPrev], live_persistGen _ _ _ _⟩
        · cases hStep
      | write idx' ops =>
        cases hTarget
        obtain ⟨-, hEq⟩ := ite_none_right_eq_some.mp hStep
        cases hEq
        refine ⟨rfl, ?_⟩
        cases hPrev : (s.part idx).hasPrev with
        | false =>
          have hBase : (s.part idx).base = (s.part idx).gen := by simp [base, hPrev]
          have hOps : HostCall.baseOps s idx (.write idx ops) = ops := if_pos ⟨rfl, hPrev⟩
          rw [hBase, hOps]
          rw [Host.live, writeGen, subtree_graft, hC.live_write, Host.live]
        | true =>
          have hBase : (s.part idx).base = (s.part idx).prevGen := by simp [base, hPrev]
          have hOps : HostCall.baseOps s idx (.write idx ops) = [] := if_neg (by simp [hPrev])
          rw [hBase, hOps]
          have hNe : (s.part idx).prevGen ≠ (s.part idx).gen := by
            have hPending := hAt.pending hPrev
            omega
          exact live_of_other _ _ hIdx hNe fun k hk _ _ => lookup_graft_of_not hk _ _
    · -- another partition
      obtain ⟨hIdx', p, d, rfl, -, hOnly⟩ := step_target h hStep hTarget
      have hPart : (s.set idx' p d).part idx = s.part idx := by simp [Host.set, hSame]
      have hOps : call.baseOps s idx = [] := by
        cases call with
        | write idx'' ops =>
          cases hTarget
          exact if_neg fun hBoth => hSame hBoth.1.symm
        | _ => rfl
      rw [hPart, hOps]
      exact ⟨rfl, live_congr fun k hk => hOnly k (not_keyOf hIdx hIdx' hSame (.inl ⟨_, hk⟩))⟩

section

omit [DecidableEq κ]

/-- `Rollback` goes back to the generation before the attempt. -/
lemma gen_rolledBack (h : Aligned idx p d) : (rolledBack p).gen = p.base := by
  unfold rolledBack base
  cases hStaged : p.staged with
  | some gen => simp [h.apart.resolve_left (by simp [hStaged])]
  | none => cases p.hasPrev <;> rfl

/-- What is dropped is not what is restored. -/
lemma rollbackDrops_ne (h : Aligned idx p d) {gen : Nat} (hDrops : rollbackDrops p = some gen) :
    p.base ≠ gen := by
  unfold rollbackDrops at hDrops
  unfold base
  cases hStaged : p.staged with
  | some next =>
    have hNext := h.next next hStaged
    have hPrev := h.apart.resolve_left (by simp [hStaged])
    rw [hStaged] at hDrops
    have hEq : next = gen := some.inj hDrops
    rw [hPrev, if_neg (by simp)]
    omega
  | none =>
    rw [hStaged] at hDrops
    cases hPrev : p.hasPrev with
    | false => simp [hPrev] at hDrops
    | true =>
      have hPending := h.pending hPrev
      simp only [hPrev, if_true, some.injEq] at hDrops
      rw [if_pos rfl]
      omega

end

include hC h in
lemma rollback_spec (hStep : s.step C numParts (.rollback idx) = some s') : (s'.part idx).gen =
    (s.part idx).base ∧ s'.contents C numParts idx = s.live C numParts idx (s.part idx).base := by
  obtain ⟨hIdx, hEq⟩ := ite_none_right_eq_some.mp hStep
  have hAt := h idx hIdx
  let opened := if reopens (s.part idx) then openGen C numParts idx (s.part idx).prevGen s.disk else s.disk
  have hNode : s' = s.set idx (reopenReads (rolledBack (s.part idx)))
      (droppedDisk C numParts idx (rollbackDrops (s.part idx)) true (opened.persistGen (rolledBack (s.part idx)))) :=
    (some.inj hEq).symm
  have hGen : (s'.part idx).gen = (s.part idx).base := by
    rw [hNode]
    simpa [Host.set, reopenReads] using gen_rolledBack hAt
  have hOpen : C.live (opened.subtree (nsFor numParts idx (s.part idx).base)) =
      C.live (s.disk.subtree (nsFor numParts idx (s.part idx).base)) := by
    unfold opened
    split
    · exact (quiet_openGen hC hIdx _ _).live idx _ hIdx
    · rfl
  have hDisk : s'.disk = droppedDisk C numParts idx (rollbackDrops (s.part idx)) true
      (opened.persistGen (rolledBack (s.part idx))) := by
    rw [hNode]
    rfl
  refine ⟨hGen, ?_⟩
  rw [Host.contents, hGen, Host.live, Host.live, hDisk, ← hOpen]
  refine Eq.trans ?_ (live_persistGen (rolledBack (s.part idx)) opened idx _)
  cases hDrops : rollbackDrops (s.part idx) with
  | none => rfl
  | some gen =>
    refine live_of_other _ gen hIdx (rollbackDrops_ne hAt hDrops) fun k hk _ _ => ?_
    rw [lookup_droppedDisk, if_neg hk]

omit [DecidableEq κ] in
/-- The keys that `Commit` leaves. -/
lemma lookup_commit (hIndex : (s.part idx).idx = idx) (hStep : s.step C numParts (.commit idx) = some s')
    (hGen : k ≠ genKey idx) (hPrev : k ≠ prevKey idx) : s'.disk[k]? = if (s.part idx).hasPrev = true ∧
    Beneath (nsFor numParts idx (s.part idx).prevGen) k then none else s.disk[k]? := by
  obtain ⟨hIdx, hEq⟩ := ite_none_right_eq_some.mp hStep
  cases hEq
  have hPersist : (s.disk.persistGen (committed (s.part idx)))[k]? = s.disk[k]? := by
    have hIndex' : (committed (s.part idx)).idx = idx := hIndex
    rw [Disk.lookup_persistGen, hIndex', if_neg hGen, if_neg hPrev]
  show (droppedDisk C numParts idx (commitDrops (s.part idx)) _ _)[k]? = _
  unfold commitDrops
  cases (s.part idx).hasPrev with
  | false =>
    rw [if_neg (by simp), if_neg (by simp)]
    exact hPersist
  | true =>
    rw [if_pos rfl, lookup_droppedDisk, hPersist]
    simp only [true_and]

include h hStep in
/-- `Commit` keeps what the partition is read as. -/
lemma contents_commit : s'.contents C numParts idx = s.contents C numParts idx := by
  obtain ⟨hIdx, hEq⟩ := ite_none_right_eq_some.mp hStep
  have hAt := h idx hIdx
  have hGen : (s'.part idx).gen = (s.part idx).gen := by
    cases hEq
    simp [Host.set, committed]
  unfold Host.contents Host.live
  rw [hGen]
  refine live_congr fun k hk => ?_
  rw [lookup_commit hAt.index hStep, if_neg]
  · rintro ⟨hPrev, hk'⟩
    have hSame := (gen_of_beneath hIdx hIdx hk hk').2
    have hPending := hAt.pending hPrev
    omega
  · rintro rfl
    exact not_beneath_genKey hk
  · rintro rfl
    exact not_beneath_prevKey hk

/-! ## The primitives access by access

Without faults, `Commit` and `Rollback` do to the keys of a partition what the programs of
`Partition` do to its part of the store. -/

/-- A program of `Partition` leads from one state to the other. -/
def Host.Performs (numParts idx : Nat) (s s' : Host)
    (prog : Partition → BackM (DsKey × Bytes) (Partition × Except EngineErr Unit)) : Prop :=
  prog (s.part idx) .quiet (s.disk.backing numParts idx) = (.ok (s'.part idx, .ok ()), s'.disk.backing numParts idx)

lemma backing_persistGen (numParts : Nat) (d : Disk) (p : Partition) :
    (d.persistGen p).backing numParts p.idx = (d.backing numParts p.idx).persisted p := by
  have hText : ∀ n, parseNat 10 (itoa n) = some n := parseNat_numeral (by decide) (by decide) 0
  have hGen : ((d.persistGen p)[genKey p.idx]?).bind (parseNat 10) = some p.gen := by
    rw [Disk.lookup_persistGen, if_pos rfl, bind_some, hText]
  have hPrev : ((d.persistGen p)[prevKey p.idx]?).bind (parseNat 10) = if p.hasPrev then some p.prevGen else none := by
    rw [Disk.lookup_persistGen, if_neg genKey_ne_prevKey.symm, if_pos rfl]
    split
    · rw [bind_some, hText]
    · rfl
  have hNs : ∀ gen, (d.persistGen p).subtree (nsFor numParts p.idx gen) = d.subtree (nsFor numParts p.idx gen) := by
    refine fun gen => subtree_congr fun k hk => ?_
    rw [Disk.lookup_persistGen, if_neg, if_neg]
    · rintro rfl
      exact not_beneath_prevKey hk
    · rintro rfl
      exact not_beneath_genKey hk
  unfold Disk.backing Backing.persisted
  simp only [hGen, hPrev, hNs]

include hIdx in
omit [DecidableEq κ] in
lemma backing_dropped (drop : Option Nat) (isOpen : Bool) (d : Disk) :
    (droppedDisk C numParts idx drop isOpen d).backing numParts idx = (d.backing numParts idx).purged drop := by
  cases drop with
  | none => rfl
  | some gen =>
    have hKey : ∀ k, ¬ Beneath (nsFor numParts idx gen) k →
        (droppedDisk C numParts idx (some gen) isOpen d)[k]? = d[k]? := by
      intro k hk
      rw [lookup_droppedDisk, if_neg hk]
    have hNs : ∀ gen', ((droppedDisk C numParts idx (some gen) isOpen d).subtree (nsFor numParts idx gen')).toList =
        update (fun gen' => (d.subtree (nsFor numParts idx gen')).toList) gen [] gen' := by
      intro gen'
      by_cases hSame : gen' = gen
      · subst hSame
        rw [update_self]
        have hEmpty : (droppedDisk C numParts idx (some gen') isOpen d).subtree (nsFor numParts idx gen') = ∅ := by
          refine Std.ExtTreeMap.ext_getElem? fun {k} => ?_
          rw [lookup_subtree, Std.ExtTreeMap.getElem?_empty]
          by_cases hk : k = []
          · rw [if_pos hk]
          · rw [if_neg hk, lookup_droppedDisk, if_pos (beneath_iff.mpr ⟨k, hk, rfl⟩)]
        rw [hEmpty]
        simp
      · rw [update_of_ne hSame]
        exact congrArg _ (subtree_congr fun k hk => hKey k fun hk' => hSame (gen_of_beneath hIdx hIdx hk hk').2)
    unfold Disk.backing Backing.purged Backing.setNs
    simp only [hKey _ not_beneath_genKey, hKey _ not_beneath_prevKey, hNs]

include h hStep in
omit [DecidableEq κ] in
lemma commit_refines : s.Performs numParts idx s' commit := by
  obtain ⟨hIdx, hEq⟩ := ite_none_right_eq_some.mp hStep
  have hIndex : (committed (s.part idx)).idx = idx := (h idx hIdx).index
  have hNode := (some.inj hEq).symm
  have hPart : s'.part idx = committed (s.part idx) := by
    rw [hNode]
    simp [Host.set]
  have hPersist := backing_persistGen numParts s.disk (committed (s.part idx))
  rw [hIndex] at hPersist
  rw [Host.Performs, commit_quiet, hPart, ← hPersist, ← backing_dropped (C := C) hIdx _ (s.part idx).oldOpen, hNode]
  rfl

include h in
omit [DecidableEq κ] in
/-- `Rollback`, of a generation that is still open. -/
lemma rollback_refines (hOpen : reopens (s.part idx) = false)
    (hStep : s.step C numParts (.rollback idx) = some s') : s.Performs numParts idx s' rollback := by
  obtain ⟨hIdx, hEq⟩ := ite_none_right_eq_some.mp hStep
  have hBack : Aligned idx (rolledBack (s.part idx)) (s.disk.persistGen (rolledBack (s.part idx))) :=
    (h idx hIdx).rolledBack
  have hIndex := hBack.index
  rw [hOpen, if_neg (by simp)] at hEq
  have hNode := (some.inj hEq).symm
  have hPart : s'.part idx = reopenReads (rolledBack (s.part idx)) := by
    rw [hNode]
    simp [Host.set]
  have hPersist := backing_persistGen numParts s.disk (rolledBack (s.part idx))
  rw [hIndex] at hPersist
  rw [Host.Performs, rollback_quiet, hPart, ← hPersist, ← backing_dropped (C := C) hIdx _ true, hNode]
  rfl

/-- **`Commit` and `Rollback` on the disk** of a node, in every run: they leave the keys of a
partition as the programs of `Partition` do, access by access, when no access fails;
`Rollback`, if the generation it falls back to is still open. -/
theorem primitives_refine (hC : C.Lawful)
    (hReach : Reach (fun s call => s.step C numParts call) Anything (Host.start C numParts ∅) s) (idx : Nat) :
    (s.step C numParts (.commit idx) = some s' → s.Performs numParts idx s' commit) ∧
    (reopens (s.part idx) = false → s.step C numParts (.rollback idx) = some s' →
      s.Performs numParts idx s' rollback) :=
  have hOrdered := ordered_of_reach hC hReach
  ⟨commit_refines hOrdered, rollback_refines hOrdered⟩

/-- A key is written, and its partition rotated as far as `Activate`: `Commit` drops the generation
it was written in, `Rollback` the one it was copied to. -/
theorem primitives_refine_activated : ∃ s s₁ s₂ : Host,
    Reach (fun s call => s.step plainStore 1 call) Anything (Host.start plainStore 1 ∅) s ∧
    s.contents plainStore 1 0 [107] = some [118] ∧ commitDrops (s.part 0) = some 0 ∧
    rollbackDrops (s.part 0) = some 1 ∧ s.step plainStore 1 (.commit 0) = some s₁ ∧ s.Performs 1 0 s₁ commit ∧
    s.step plainStore 1 (.rollback 0) = some s₂ ∧ s.Performs 1 0 s₂ rollback := by
  obtain ⟨s, hReach, hContents, hCommit, hRollback, hOpen, hSome₁, hSome₂⟩ : ∃ s,
      Reach (fun s call => s.step plainStore 1 call) Anything (Host.start plainStore 1 ∅) s ∧
      s.contents plainStore 1 0 [107] = some [118] ∧ commitDrops (s.part 0) = some 0 ∧
      rollbackDrops (s.part 0) = some 1 ∧ reopens (s.part 0) = false ∧
      (s.step plainStore 1 (.commit 0)).isSome ∧ (s.step plainStore 1 (.rollback 0)).isSome :=
    Reach.of_eval [.write 0 [([107], some [118])], .freeze 0, .stage 0 true, .activate 0 false] (by decide +kernel)
  obtain ⟨s₁, hStep₁⟩ := isSome_iff_exists.mp hSome₁
  obtain ⟨s₂, hStep₂⟩ := isSome_iff_exists.mp hSome₂
  exact ⟨s, s₁, s₂, hReach, hContents, hCommit, hRollback,
    hStep₁, (primitives_refine plainStore_lawful hReach 0).1 hStep₁,
    hStep₂, (primitives_refine plainStore_lawful hReach 0).2 hOpen hStep₂⟩

/-! ## The primitives together -/

/-- What happens from the `Stage` of a partition on, until it is committed or rolled back,
with the operations that the generation it started from accepts meanwhile. -/
inductive Attempt (C : Replicated κ ν) (numParts idx : Nat) (s : Host) : Host → List (κ × Option ν) → Prop
  | begun : Attempt C numParts idx s s []
  | next {s₁ s₂ : Host} {ops : List (κ × Option ν)} {call : HostCall κ ν} (h : Attempt C numParts idx s s₁ ops)
      (hCommit : call ≠ .commit idx) (hRollback : call ≠ .rollback idx)
      (hStep : s₁.step C numParts call = some s₂) : Attempt C numParts idx s s₂ (ops ++ call.baseOps s₁ idx)

include hC hIdx hs in
/-- Along an attempt. -/
lemma Attempt.base (h : Attempt C numParts idx s s' ops) :
    s'.Ordered numParts ∧ (s'.part idx).base = (s.part idx).base ∧ s'.live C numParts idx (s.part idx).base =
    applyWrite ops (s.live C numParts idx (s.part idx).base) := by
  induction h with
  | begun => exact ⟨hs, rfl, rfl⟩
  | next h hCommit hRollback hStep ih =>
    obtain ⟨hOrdered, hBase, hLive⟩ := ih
    obtain ⟨hBase', hLive'⟩ := step_base hC hOrdered hIdx hStep hCommit hRollback
    rw [hBase] at hBase' hLive'
    refine ⟨ordered_step hC hOrdered hStep, hBase', ?_⟩
    rw [hLive', hLive, applyWrite, applyWrite, applyWrite, foldl_append]

include hC h in
/-- `Stage` leaves the generation it starts from. -/
lemma stage_spec (hStep : s.step C numParts (.stage idx seed) = some s') :
    idx < numParts ∧ (s'.part idx).base = (s.part idx).gen ∧ s'.live C numParts idx (s.part idx).gen =
    s.contents C numParts idx := by
  obtain ⟨⟨hIdx, hFree⟩, -⟩ := ite_none_right_eq_some.mp hStep
  obtain ⟨hPrev, -⟩ := inDoubt_eq_false.mp hFree
  have hBase : (s.part idx).base = (s.part idx).gen := by simp [base, hPrev]
  obtain ⟨hSame, hLive⟩ := step_base hC h hIdx hStep nofun nofun
  rw [hBase] at hSame hLive
  exact ⟨hIdx, hSame, hLive⟩

/-- The calls of an attempt that is frozen until `Activate`: before it the gate is not opened,
by `Unfreeze` or by a restart. -/
def Fenced (idx : Nat) (s : Host) (call : HostCall κ ν) : Prop :=
  call ≠ .commit idx ∧ call ≠ .rollback idx ∧
    (call = .unfreeze idx ∨ call = .restart → (s.part idx).hasPrev = true)

include hC h hIdx in
/-- The gate stays shut until `Activate`. -/
lemma shut_step (hFenced : Fenced idx s call) (hStep : s.step C numParts call = some s')
    (hShut : (s.part idx).hasPrev = true ∨ (s.part idx).gate.frozen = true) :
    (s'.part idx).hasPrev = true ∨ (s'.part idx).gate.frozen = true := by
  obtain ⟨hCommit, hRollback, hReopen⟩ := hFenced
  cases hTarget : call.target with
  | none =>
    cases call with
    | restart =>
      cases hStep
      have hClose := quiet_close hC fun idx hIdx => (h idx hIdx).index
      obtain ⟨-, hParts⟩ := start_spec hC numParts (s.close C numParts)
      obtain ⟨-, hHas, -⟩ := ((h idx hIdx).congr (hClose.gen idx) (hClose.prev idx)).restored numParts
      rw [hParts idx hIdx, hHas]
      exact .inl (hReopen (.inr rfl))
    | _ => cases hTarget
  | some idx' =>
    by_cases hSame : idx = idx'
    · subst hSame
      cases call with
      | restart => cases hTarget
      | commit | rollback =>
        cases hTarget
        contradiction
      | freeze idx' =>
        cases hTarget
        obtain ⟨-, hEq⟩ := ite_none_right_eq_some.mp hStep
        cases hEq
        exact .inr (by simp [Host.set, freeze, Gate.freeze])
      | unfreeze idx' =>
        cases hTarget
        obtain ⟨-, hEq⟩ := ite_none_right_eq_some.mp hStep
        cases hEq
        exact .inl (by simpa [Host.set, unfreeze] using hReopen (.inl rfl))
      | stage | write =>
        cases hTarget
        obtain ⟨-, hEq⟩ := ite_none_right_eq_some.mp hStep
        cases hEq
        simpa [Host.set] using hShut
      | activate idx' waitSeed =>
        cases hTarget
        simp only [Host.step] at hStep
        split at hStep
        · obtain ⟨-, hEq⟩ := ite_none_right_eq_some.mp hStep
          cases hEq
          exact .inl (by simp [Host.set, activated])
        · cases hStep
    · obtain ⟨-, p, d, rfl, -, -⟩ := step_target h hStep hTarget
      simpa [Host.set, hSame] using hShut

include hC hIdx hs in
/-- Frozen, a partition accepts nothing before `Activate`. -/
lemma attempt_of_fenced (hFrozen : (s.part idx).gate.frozen = true)
    (h : Reach (fun s call => s.step C numParts call) (Fenced idx) s s') : Attempt C numParts idx s s' [] := by
  have hRun : s'.Ordered numParts ∧ Attempt C numParts idx s s' [] ∧
      ((s'.part idx).hasPrev = true ∨ (s'.part idx).gate.frozen = true) := by
    refine h.induct (I := fun s' => s'.Ordered numParts ∧ Attempt C numParts idx s s' [] ∧
      ((s'.part idx).hasPrev = true ∨ (s'.part idx).gate.frozen = true)) ⟨hs, .begun, .inr hFrozen⟩ ?_
    intro s₁ s₂ call _ hBefore hFenced hStep
    obtain ⟨hOrdered, hAttempt, hShut⟩ := hBefore
    obtain ⟨hCommit, hRollback, hReopen⟩ := hFenced
    have hOps : call.baseOps s₁ idx = [] := by
      cases call with
      | write idx' ops =>
        refine if_neg ?_
        rintro ⟨rfl, hPrev⟩
        obtain ⟨⟨-, hOpen⟩, -⟩ := ite_none_right_eq_some.mp hStep
        rcases hShut with hPrev' | hFrozen'
        · rw [hPrev] at hPrev'
          cases hPrev'
        · rw [hOpen] at hFrozen'
          cases hFrozen'
      | _ => rfl
    have hNext := hAttempt.next hCommit hRollback hStep
    rw [hOps] at hNext
    exact ⟨ordered_step hC hOrdered hStep, hNext, shut_step hC hOrdered hIdx ⟨hCommit, hRollback, hReopen⟩ hStep hShut⟩
  exact hRun.2.1

/-- The persisted keys of a partition agree with its memory. A partition that was never
rotated has none. -/
def Host.Persisted (s : Host) (idx : Nat) : Prop :=
  (s.disk[genKey idx]? = some (itoa (s.part idx).gen) ∨ s.disk[genKey idx]? = none ∧ (s.part idx).gen = 0) ∧
    s.disk[prevKey idx]? = if (s.part idx).hasPrev then some (itoa (s.part idx).prevGen) else none

section

variable (C : Replicated κ ν) (numParts : Nat) (s : Host)

variable (idx : Nat)

/-- `Rollback` of an attempt that is staged from here restores the generation number and what
is live here, with the writes that this generation has accepted since. -/
def Host.Restores : Prop :=
  ∀ seed s₁ s₂ s₃ ops, s.step C numParts (.stage idx seed) = some s₁ → Attempt C numParts idx s₁ s₂ ops →
    s₂.step C numParts (.rollback idx) = some s₃ →
    (s₃.part idx).gen = (s.part idx).gen ∧ s₃.contents C numParts idx = applyWrite ops (s.contents C numParts idx)

/-- If the partition is frozen until `Activate`, `Rollback` restores just what is live here. -/
def Host.RestoresFenced : Prop :=
  (s.part idx).gate.frozen = true → ∀ seed s₁ s₂ s₃, s.step C numParts (.stage idx seed) = some s₁ →
    Reach (fun s call => s.step C numParts call) (Fenced idx) s₁ s₂ → s₂.step C numParts (.rollback idx) = some s₃ →
    (s₃.part idx).gen = (s.part idx).gen ∧ s₃.contents C numParts idx = s.contents C numParts idx

/-- `Commit` leaves what is read, and removes the keys of the previous generation, if one is
pending; apart from the metadata of the partition, every other key stays. -/
def Host.Purges : Prop :=
  ∀ s', s.step C numParts (.commit idx) = some s' → s'.contents C numParts idx = s.contents C numParts idx ∧
    ∀ k, k ≠ genKey idx → k ≠ prevKey idx → s'.disk[k]? =
      if (s.part idx).hasPrev = true ∧ Beneath (nsFor numParts idx (s.part idx).prevGen) k then none else s.disk[k]?

end

include hC in
lemma restores_of_ordered (hOrdered : s.Ordered numParts) (hIdx : idx < numParts) :
    s.Restores C numParts idx := by
  intro seed s₁ s₂ s₃ ops hStage hAttempt hRollback
  obtain ⟨-, hBase, hLive⟩ := stage_spec hC hOrdered hStage
  obtain ⟨hOrdered₂, hBase₂, hLive₂⟩ := hAttempt.base hC hIdx (ordered_step hC hOrdered hStage)
  obtain ⟨hGen, hContents⟩ := rollback_spec hC hOrdered₂ hRollback
  rw [hBase₂, hBase] at hGen hContents
  rw [hBase, hLive] at hLive₂
  exact ⟨hGen, hContents.trans hLive₂⟩

/-- **The rotation primitives**, in every run of any number of partitions: no partition has a
staged generation and a pending previous one, its persisted keys agree with its memory,
`Rollback` restores what the attempt started from, together with the writes accepted since
(none, if the partition is frozen until `Activate`), and `Commit` removes the previous generation and nothing else. -/
theorem rotation_primitives_sound (hC : C.Lawful)
    (hReach : Reach (fun s call => s.step C numParts call) Anything (Host.start C numParts ∅) s) {idx : Nat}
    (hIdx : idx < numParts) : ¬ ((s.part idx).staged.isSome = true ∧ (s.part idx).hasPrev = true) ∧
    s.Persisted idx ∧ s.Restores C numParts idx ∧ s.RestoresFenced C numParts idx ∧ s.Purges C numParts idx := by
  have hOrdered := ordered_of_reach hC hReach
  have hAt := hOrdered idx hIdx
  have hRestores : s.Restores C numParts idx := restores_of_ordered hC hOrdered hIdx
  refine ⟨?_, ⟨hAt.gen, hAt.prev⟩, hRestores, ?_, ?_⟩
  · rintro ⟨hStaged, hPrev⟩
    rcases hAt.apart with hNone | hFalse
    · simp [hNone] at hStaged
    · simp [hFalse] at hPrev
  · intro hFrozen seed s₁ s₂ s₃ hStage hFenced hRollback
    have hFrozen₁ : (s₁.part idx).gate.frozen = true := by
      obtain ⟨-, hEq⟩ := ite_none_right_eq_some.mp hStage
      cases hEq
      simpa [Host.set] using hFrozen
    exact hRestores seed s₁ s₂ s₃ [] hStage
      (attempt_of_fenced hC hIdx (ordered_step hC hOrdered hStage) hFrozen₁ hFenced) hRollback
  · intro s' hStep
    exact ⟨contents_commit hOrdered hStep, fun k hGen hPrev => lookup_commit hAt.index hStep hGen hPrev⟩

end

/-! ### A partition that is rotated, and one that is written to meanwhile -/

/-- A key is written, and its partition rotated as far as `Activate`, on a node with two
partitions that then restarts. -/
theorem rotation_primitives_activated :
    ∃ s, Reach (fun s call => s.step plainStore 2 call) Anything (Host.start plainStore 2 ∅) s ∧
    (s.part 1).hasPrev = true ∧ ¬ ((s.part 1).staged.isSome = true ∧ (s.part 1).hasPrev = true) ∧
    s.Persisted 1 ∧ s.Restores plainStore 2 1 ∧ s.RestoresFenced plainStore 2 1 ∧
    s.Purges plainStore 2 1 := by
  obtain ⟨s, hReach, hTrue⟩ : ∃ s, Reach (fun s call => s.step plainStore 2 call) Anything
      (Host.start plainStore 2 ∅) s ∧ (s.part 1).hasPrev = true :=
    Reach.of_eval [.write 1 [([107], some [118])], .freeze 1, .stage 1 true, .activate 1 false, .restart]
      (by decide +kernel)
  exact ⟨s, hReach, hTrue, rotation_primitives_sound plainStore_lawful hReach (by decide)⟩

/-- Without `Freeze`, a write between `Stage` and `Rollback` is still there after it. -/
theorem rollback_keeps_write : ∃ s s₁ s₂ s₃ : Host,
    Reach (fun s call => s.step plainStore 1 call) Anything (Host.start plainStore 1 ∅) s ∧
    s.step plainStore 1 (.stage 0 true) = some s₁ ∧ s₁.step plainStore 1 (.write 0 [([107], some [118])]) =
    some s₂ ∧ s₂.step plainStore 1 (.rollback 0) = some s₃ ∧ s.contents plainStore 1 0 [107] = none ∧
    s₃.contents plainStore 1 0 [107] = some [118] := by
  let s := Host.start plainStore 1 ∅
  have hEval : ((s.step plainStore 1 (.stage 0 true)).bind fun s₁ =>
      (s₁.step plainStore 1 (.write 0 [([107], some [118])])).bind fun s₂ =>
      (s₂.step plainStore 1 (.rollback 0)).map fun s₃ => decide (s.contents plainStore 1 0 [107] = none ∧
        s₃.contents plainStore 1 0 [107] = some [118])) = some true := by decide +kernel
  obtain ⟨s₁, hStage, hRest⟩ := bind_eq_some_iff.mp hEval
  obtain ⟨s₂, hWrite, hRest⟩ := bind_eq_some_iff.mp hRest
  obtain ⟨s₃, hRollback, hTrue⟩ := map_eq_some_iff.mp hRest
  obtain ⟨hBefore, hAfter⟩ := of_decide_eq_true hTrue
  exact ⟨s, s₁, s₂, s₃, .init, hStage, hWrite, hRollback, hBefore, hAfter⟩

end RedGeo.Engine
