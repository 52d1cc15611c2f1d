import RedGeo.Repo.Locks

/-!
# RedGeo — positions

An element of a list or of a JSON array is kept under a position, which ends in a number
that `makePosKey` and `jsonNewPos` draw from a counter of the store. A transaction works
on a copy of the store, and so on a copy of the counter, from which it draws numbers that
are drawn again outside.

* `Mint.step` — a node, with the numbers that have been drawn and the keys of the list
  elements that have been put.
* `positions_unique` — no position is made twice, in every run in which the transactions draw
  no numbers.
* `copied_counter_repeats` — an element that is lost.
-/

namespace RedGeo.Repo

open Lib Store Function List Option

/-! ## What insertions put -/

/-- The key of a list element, whose position ends in a number. -/
def ElemOf (n : Replica) (seq : UInt64) (k : Path) : Prop :=
  ∃ db key bits, k = listElem db key [.pos (posText bits n seq)]

variable {n : Replica}

/-- Different numbers, different elements. -/
lemma ElemOf.seq_inj (h : ElemOf n seq k) (h' : ElemOf n seq' k) : seq = seq' := by
  obtain ⟨db, key, bits, rfl⟩ := h
  obtain ⟨db', key', bits', hEq⟩ := h'
  have hLast := congrArg List.getLast? hEq
  simp only [listElem, newKey, filter_append, filter_cons, filter_nil] at hLast
  have hText : posText bits n seq = posText bits' n seq' := by simpa using hLast
  exact (Address.posText_inj hText).2.2

/-- A program puts list elements only under the number that it drew last, and under
each number once. -/
def mintProtocol (n : Replica) : Prog.Protocol Call Answer (Option UInt64) where
  allowed g
    | .put k _ => spaceWord k = some .l → ∃ seq, g = some seq ∧ ElemOf n seq k
    | _ => True
  answers _ _ _ := True
  after g
    | .nextSeq, .ok seq => some seq
    | .put k _, _ => if spaceWord k = some .l then none else g
    | _, _ => g

/-- An element is put under a number once. -/
lemma after_put (n : Replica) (g : Option UInt64) (k : Path) (v : Bytes) (x : Answer (.put k v)) :
    (mintProtocol n).after g (.put k v) x = if spaceWord k = some .l then none else g := rfl

/-- A program that keeps to it. -/
abbrev Minting {α : Type} (n : Replica) (p : StoreM α) (g : Option UInt64) : Prop :=
  p.Heeds (mintProtocol n) (fun _ _ => True) g

section

variable {α β : Type} (self : Replica) (r : Db)

lemma minting_bind {p : StoreM α} {f : α → StoreM β} {g : Option UInt64} (hp : Minting n p g)
    (hf : ∀ a g, Minting n (f a) g) : Minting n (p >>= f) g :=
  Prog.heeds_bind hp (fun g a _ => hf a g) fun _ _ _ => trivial

lemma minting_attempt {p : StoreM α} {g : Option UInt64} (hp : Minting n p g) : Minting n p.attempt g :=
  (Prog.heeds_attempt hp).mono fun _ _ _ => trivial

/-- Calls other than those that put a list element. -/
lemma minting_perform (hc : ∀ k v, c = .put k v → spaceWord k ≠ some .l) (g : Option UInt64) :
    Minting n (perform c) g := by
  cases c with
  | put k v => exact ⟨fun hWord => absurd hWord (hc k v rfl), fun x _ => by cases x <;> trivial⟩
  | _ => exact ⟨trivial, fun x _ => by cases x <;> trivial⟩

lemma minting_withLock {k : Bytes} {body : StoreM α} (h : ∀ g, Minting n body g) (g : Option UInt64) :
    Minting n (withLock k body) g := by
  refine minting_bind (minting_perform (by simp) g) fun _ g => ?_
  refine minting_bind (minting_attempt (h g)) fun out g => ?_
  refine minting_bind (minting_perform (by simp) g) fun _ g => ?_
  cases out <;> trivial

/-- Slots are not list elements. -/
lemma spaceWord_slotKey (reg : Reg X) (db : Int64) (key : Bytes) (self : Replica) :
    spaceWord (slotKey (reg.base db key) self) ≠ some .l := by
  have hBelongs : Belongs self.name (slotAt (reg.base db key) self.name) := .slot reg db key
  exact hBelongs.spaceWord_ne.2

lemma spaceWord_metaSlot (db : Int64) (key : Bytes) (self : Replica) :
    spaceWord (slotKey (metaBase db key) self) ≠ some .l := by
  have hBelongs : Belongs self.name (slotAt (metaBase db key) self.name) := .metadata db key
  exact hBelongs.spaceWord_ne.2

lemma minting_putSlot (tag : UInt8) (value : Bytes) (hBase : spaceWord (slotKey base self) ≠ some .l)
    (g : Option UInt64) : Minting n (putSlot self base tag value) g := by
  refine minting_bind (minting_perform (by simp) g) fun _ g => minting_perform (fun k v hEq => ?_) g
  cases hEq
  exact hBase

/-- Outside of lists, no list element is put. -/
lemma spaceWord_comp (hX : X ≠ .list) (c : Comp X) (db : Int64) (key name : Bytes) :
    spaceWord (c.path db key name) ≠ some .l := by
  cases c with
  | elem => exact absurd rfl hX
  | member m =>
    show spaceWord (newKey (dataBase db key ++ [.word .e, .enc m])) ≠ _
    rw [spaceWord_newKey]
    decide
  | _ => exact (Belongs.comp _ rfl db key).spaceWord_ne.2

variable (key : Bytes)

/-- Operations of all kinds but one. -/
lemma minting_calls_op (op : KeyOp X)
    (hOp : ∀ c v, op = .put c v → spaceWord (c.path r.num key r.self.name) ≠ some .l) (g : Option UInt64) :
    Minting n (op.calls r key) g := by
  cases op with
  | ask a => exact minting_perform (by cases a <;> simp [Ask.call]) g
  | slot reg tag value => exact minting_putSlot _ _ _ (spaceWord_slotKey reg _ _ _) g
  | mark | unmark => exact minting_putSlot _ _ _ (spaceWord_metaSlot _ _ _) g
  | put c value =>
    refine minting_perform (fun k v hEq => ?_) g
    cases hEq
    exact hOp c value rfl
  | del | drop => exact minting_perform (by simp) g

/-- A program on a key that puts no list element. -/
lemma minting_on {p : KeyM X α}
    (hp : p.Obeys (.only fun op => ∀ c v, op = .put c v → spaceWord (c.path r.num key r.self.name) ≠ some .l)
      fun _ => True) (g : Option UInt64) : Minting n (r.on key p) g := by
  induction p generalizing g with
  | done a => trivial
  | fail e => trivial
  | call op next ih =>
    exact minting_bind (minting_attempt (minting_calls_op r key op hp.1 g)) fun x g => ih x (hp.2 x trivial) g

/-- What only reads, and numbers it may draw. -/
lemma minting_read (p : ReadM α) (g : Option UInt64) : Minting n (r.on key (p.keyed : KeyM X α)) g := by
  refine minting_on r key ?_ g
  induction p with
  | done a => trivial
  | fail e => trivial
  | call a next ih => exact ⟨fun c v hEq => (nomatch hEq), fun x _ => ih x⟩

end

/-! ## The insertions -/

/-- `RPUSH`, `LPUSH`, `LINSERT`, and the commands that change a document, with
`JSON.ARRAPPEND` and `JSON.ARRINSERT` among them. -/
def Method.inserts : Method → Bool
  | .list (.push _ _ _) | .list (.insert _ _ _ _) | .json (.update _ _ _) => true
  | _ => false

section

variable {α : Type} (r : Db) (key b : Bytes)

lemma Db.on_bind {β : Type} (p : KeyM X α) (f : α → KeyM X β) :
    r.on key (p >>= f) = r.on key p >>= fun a => r.on key (f a) :=
  Prog.compile_bind p f

/-- An element is put under the number that was drawn for it. -/
lemma minting_putElem (pos : Float64) (b : Bytes) (g : Option UInt64) :
    Minting r.self (r.on key (putElem r pos b)) g := by
  refine ⟨trivial, fun x _ => ?_⟩
  cases x with
  | error e => trivial
  | ok seq =>
    refine ⟨fun _ => ⟨seq, rfl, r.num, key, posBits pos, rfl⟩, fun x _ => ?_⟩
    cases x <;> trivial

lemma minting_listPush (front : Bool) (g : Option UInt64) :
    Minting r.self (r.on key (listPush r key b front)) g := by
  rw [listPush, Db.on_bind]
  refine minting_bind (minting_read r key _ g) fun es g => ?_
  rw [Db.on_bind]
  refine minting_bind (minting_putElem r key _ b g) fun _ g => ?_
  refine minting_on r key ?_ g
  exact ⟨fun c v hEq => (nomatch hEq), fun x _ => by cases x <;> trivial⟩

lemma minting_listInsert (pivot b : Bytes) (before : Bool) (g : Option UInt64) :
    Minting r.self (r.on key (listInsert r key pivot b before)) g := by
  rw [listInsert, Db.on_bind]
  refine minting_bind (minting_read r key _ g) fun es g => ?_
  split
  · trivial
  · rw [Db.on_bind]
    exact minting_bind (minting_putElem r key _ b g) fun _ g => trivial

/-- **What insertions put.** -/
theorem minting_program {m : Method} (hm : m.inserts = true) (g : Option UInt64) :
    Minting r.self (m.program r) g := by
  unfold Method.inserts at hm
  split at hm
  · next key elem front => exact minting_withLock (minting_listPush r key elem front) g
  · next key pivot elem before => exact minting_withLock (minting_listInsert r key pivot elem before) g
  · next key create fn =>
    -- whatever a document becomes, it is written as registers
    refine minting_withLock (fun g => minting_on r key ?_ g) g
    generalize jsonUpdate r key create fn = p
    induction p with
    | done a => trivial
    | fail e => trivial
    | call op next ih => exact ⟨fun c v _ => spaceWord_comp (by decide) c _ _ _, fun x _ => ih x⟩
  · cases hm

end

/-! ## Runs -/

/-- The counter that a client draws from: the node's, or the copy of its transaction. -/
def Host.counter (x : Host) (c : Nat) : UInt64 :=
  match (x.site.caller c).txn with
  | none => x.site.world.listSeq
  | some (_, seq) => seq

/-- A node, the numbers that have been drawn and the list elements that have been put,
in a transaction or outside. -/
structure Mint where
  host : Host
  drawn : List UInt64 := []
  elems : List Path := []

namespace Mint

def idle (world : World) : Mint := { host := .idle world }

variable (s : Mint)

/-- The number that a step draws. -/
def draws : Happening → List UInt64
  | .call c => if s.host.nextCall c = some .nextSeq then [s.host.counter c + 1] else []
  | _ => []

/-- The list element that a step puts. -/
def puts : Happening → List Path
  | .call c =>
    match s.host.nextCall c with
    | some (.put k _) => if spaceWord k = some .l then [k] else []
    | _ => []
  | _ => []

def step (numParts : Nat) (n : Replica) (s : Mint) (a : Happening) : Option Mint :=
  (s.host.step numParts n a).map fun host => ⟨host, s.draws a ++ s.drawn, s.puts a ++ s.elems⟩

/-- Only insertions are started, and who draws a number is in no transaction; the counter of
the node has not come to its end. Transactions may be open meanwhile, and may insert as long as
no position is made (`LINSERT` without its pivot). -/
def plain : Happening → Bool
  | .start _ _ m => m.inserts
  | .call c => s.host.nextCall c ≠ some .nextSeq ∨
      (s.host.site.caller c).txn = none ∧ s.host.site.world.listSeq + 1 ≠ 0
  | _ => true

def Plain (a : Happening) : Prop := s.plain a = true

instance (s : Mint) (a : Happening) : Decidable (s.Plain a) := inferInstanceAs (Decidable (_ = true))

end Mint

/-! ## The invariant -/

/-- What is left of a client's method will put a list element only under the number
that it has in hand. -/
def Caller.Minting (n : Replica) (y : Caller) (g : Option UInt64) : Prop :=
  ∀ t, y.task = some t → Repo.Minting n t.rest g

/-- The numbers are different, the node's counter is at none of them or past it, and each is
used or in the hand of one client at most. -/
structure Mint.Sound (n : Replica) (s : Mint) (hand : Nat → Option UInt64) (used : List UInt64) :
    Prop where
  client : ∀ c, (s.host.site.caller c).Minting n (hand c)
  drawn : s.drawn.Nodup
  counter : ∀ d ∈ s.drawn, d ≤ s.host.site.world.listSeq
  elems : s.elems.Nodup
  elemOf : ∀ k ∈ s.elems, ∃ seq ∈ used, ElemOf n seq k
  usedDrawn : ∀ seq ∈ used, seq ∈ s.drawn
  handDrawn : ∀ c seq, hand c = some seq → seq ∈ s.drawn ∧ seq ∉ used
  apart : ∀ c c' seq, hand c = some seq → hand c' = some seq → c = c'

lemma minting_update {x : Host} (h : ∀ c, (x.site.caller c).Minting n (hand c)) (hy : y.Minting n g)
    (c' : Nat) : (x.setCaller c y c').Minting n (update hand c g c') := by
  by_cases hc : c' = c
  · subst hc
    rw [Host.setCaller_self, update_self]
    exact hy
  · rw [Host.setCaller_of_ne x hc, update_of_ne hc]
    exact h c'

lemma minting_task (h : Repo.Minting n t.rest g) : Caller.Minting n ⟨txn, some t⟩ g :=
  fun _ hEq => some.inj hEq ▸ h

lemma minting_none : Caller.Minting n ⟨txn, none⟩ g :=
  fun _ hEq => nomatch hEq

namespace Mint.Sound

variable {n : Replica} {s : Mint} {hand : Nat → Option UInt64} {used : List UInt64} {host : Host}

variable (h : s.Sound n hand used)

include h

/-- A client goes on with the number it has, if any. -/
lemma keep (hy : y.Minting n (hand c)) (hCaller : host.site.caller = s.host.setCaller c y)
    (hSeq : host.site.world.listSeq = s.host.site.world.listSeq) :
    Sound n ⟨host, s.drawn, s.elems⟩ hand used := by
  refine { h with client := fun c' => ?_, counter := hSeq ▸ h.counter }
  show (host.site.caller c').Minting n (hand c')
  have hUpdate := minting_update (c := c) h.client hy c'
  rwa [update_eq_self, ← hCaller] at hUpdate

/-- A client gives up its number. -/
lemma give (hy : y.Minting n none) (hCaller : host.site.caller = s.host.setCaller c y)
    (hSeq : host.site.world.listSeq = s.host.site.world.listSeq) :
    Sound n ⟨host, s.drawn, s.elems⟩ (update hand c none) used := by
  have hOld : ∀ c' seq, update hand c none c' = some seq → hand c' = some seq := by
    intro c' seq hSeq
    obtain ⟨-, hNone⟩ | ⟨-, hOld⟩ := update_cases hSeq
    · cases hNone
    · exact hOld
  refine { h with client := fun c' => ?_, counter := hSeq ▸ h.counter, handDrawn := ?_, apart := ?_ }
  · show (host.site.caller c').Minting n _
    rw [hCaller]
    exact minting_update h.client hy c'
  · exact fun c' seq hSeq => h.handDrawn c' seq (hOld c' seq hSeq)
  · exact fun c₁ c₂ seq h₁ h₂ => h.apart c₁ c₂ seq (hOld c₁ seq h₁) (hOld c₂ seq h₂)

/-- A client draws the next number of the node. -/
lemma draw (hEnd : s.host.site.world.listSeq + 1 ≠ 0) (hSeq : host.site.world.listSeq = s.host.site.world.listSeq + 1)
    (hy : y.Minting n (some (s.host.site.world.listSeq + 1)))
    (hCaller : host.site.caller = s.host.setCaller c y) :
    Sound n ⟨host, (s.host.site.world.listSeq + 1) :: s.drawn, s.elems⟩
      (update hand c (some (s.host.site.world.listSeq + 1))) used := by
  have hAbove : s.host.site.world.listSeq < s.host.site.world.listSeq + 1 :=
    UInt64.lt_add_one fun hLast => hEnd (by rw [hLast]; rfl)
  set seq := s.host.site.world.listSeq + 1
  have hNew : seq ∉ s.drawn := fun hMem => absurd (h.counter seq hMem) (UInt64.not_le.mpr hAbove)
  constructor
  · show ∀ c', (host.site.caller c').Minting n _
    rw [hCaller]
    exact minting_update h.client hy
  · exact nodup_cons.mpr ⟨hNew, h.drawn⟩
  · show ∀ d ∈ seq :: s.drawn, d ≤ host.site.world.listSeq
    rw [hSeq]
    exact forall_mem_cons.mpr ⟨UInt64.le_refl seq, fun d hd =>
      UInt64.le_trans (h.counter d hd) (UInt64.le_of_lt hAbove)⟩
  · exact h.elems
  · exact h.elemOf
  · exact fun d hd => mem_cons_of_mem seq (h.usedDrawn d hd)
  · intro c' d hd
    rcases update_cases hd with ⟨-, ⟨⟩⟩ | ⟨-, hOld⟩
    · exact ⟨mem_cons_self, fun hUsed => hNew (h.usedDrawn _ hUsed)⟩
    · exact ⟨mem_cons_of_mem seq (h.handDrawn c' d hOld).1, (h.handDrawn c' d hOld).2⟩
  · intro c₁ c₂ d h₁ h₂
    -- a number in the hand of another client was drawn before
    rcases update_cases h₁ with ⟨rfl, ⟨⟩⟩ | ⟨-, hOld₁⟩ <;> rcases update_cases h₂ with ⟨rfl, hEq⟩ | ⟨-, hOld₂⟩
    · rfl
    · exact absurd (h.handDrawn c₂ _ hOld₂).1 hNew
    · exact absurd (some.inj hEq ▸ (h.handDrawn c₁ d hOld₁).1) hNew
    · exact h.apart c₁ c₂ d hOld₁ hOld₂

/-- A client puts an element under the number it has in hand. -/
lemma put (hHand : hand c = some seq) (hElem : ElemOf n seq k) (hy : y.Minting n none)
    (hCaller : host.site.caller = s.host.setCaller c y)
    (hSeq : host.site.world.listSeq = s.host.site.world.listSeq) :
    Sound n ⟨host, s.drawn, k :: s.elems⟩ (update hand c none) (seq :: used) := by
  obtain ⟨hDrawn, hUnused⟩ := h.handDrawn c seq hHand
  have hGiven := h.give hy hCaller hSeq
  refine { hGiven with elems := ?_, elemOf := ?_, usedDrawn := ?_, handDrawn := ?_ }
  · -- an equal element would have been put under this number
    refine nodup_cons.mpr ⟨fun hMem => hUnused ?_, h.elems⟩
    obtain ⟨d, hUsed, hElem'⟩ := h.elemOf k hMem
    rwa [hElem.seq_inj hElem']
  · intro k' hk'
    rcases mem_cons.mp hk' with rfl | hOld
    · exact ⟨seq, mem_cons_self, hElem⟩
    · obtain ⟨d, hUsed, hElem'⟩ := h.elemOf k' hOld
      exact ⟨d, mem_cons_of_mem seq hUsed, hElem'⟩
  · intro d hd
    rcases mem_cons.mp hd with rfl | hOld
    · exact hDrawn
    · exact h.usedDrawn d hOld
  · intro c' d hd
    refine ⟨(hGiven.handDrawn c' d hd).1, fun hUsed => ?_⟩
    rcases mem_cons.mp hUsed with rfl | hOld
    · -- nobody else has this number
      obtain ⟨-, hNone⟩ | ⟨hc, hOld⟩ := update_cases hd
      · cases hNone
      · exact hc (h.apart c' c d hOld hHand)
    · exact (hGiven.handDrawn c' d hd).2 hOld

end Mint.Sound

/-- Outside of transactions a number is drawn from the node's counter. -/
lemma Host.serve_nextSeq (x : Host) (numParts c : Nat) (hTxn : (x.site.caller c).txn = none) :
    x.counter c = x.site.world.listSeq ∧
    ((x.site.caller c).serve numParts x.site.world .nextSeq).1 = .ok (x.site.world.listSeq + 1) ∧
    ((x.site.caller c).serve numParts x.site.world .nextSeq).2.1.listSeq = x.site.world.listSeq + 1 := by
  rw [Caller.serve, counter, hTxn]
  exact ⟨rfl, rfl, rfl⟩

/-- No other call counts. -/
lemma Caller.serve_listSeq (y : Caller) (numParts : Nat) (w : World) {op : Call} (hOp : op ≠ .nextSeq) :
    (y.serve numParts w op).2.1.listSeq = w.listSeq := by
  rw [Caller.serve]
  cases y.txn <;> cases op <;> first | rfl | exact absurd rfl hOp

/-- **One step.** -/
theorem Mint.Sound.step {numParts : Nat} {s s' : Mint} {hand : Nat → Option UInt64} {used : List UInt64}
    (h : s.Sound n hand used) (hK : s.Plain a) (hs : s.step numParts n a = some s') :
    ∃ hand' used', s'.Sound n hand' used' := by
  obtain ⟨host, hStep, rfl⟩ := map_eq_some_iff.mp hs
  cases Host.effect_of_step hStep with
  | @start c db m hIdle =>
    have hInserts : m.inserts = true := hK
    have hProgram : Repo.Minting n (m.program ⟨n, db⟩) (hand c) := minting_program ⟨n, db⟩ hInserts (hand c)
    exact ⟨hand, used, h.keep (minting_task hProgram) rfl rfl⟩
  | beginTxn | commit => exact ⟨hand, used, h.keep minting_none rfl rfl⟩
  | change => exact ⟨hand, used, { h with }⟩
  | finish hTask hNext =>
    simp only [draws, puts, hNext]
    exact ⟨hand, used, h.keep minting_none rfl rfl⟩
  | @fault c e db m op next hTask hFail =>
    -- a number is lost with the put that fails
    obtain ⟨-, hRest⟩ := h.client c _ hTask
    have hNext := hRest (.error e) trivial
    cases op with
    | put k v =>
      by_cases hWord : spaceWord k = some .l
      · rw [after_put, if_pos hWord] at hNext
        exact ⟨_, used, h.give (minting_task hNext) rfl rfl⟩
      · rw [after_put, if_neg hWord] at hNext
        exact ⟨hand, used, h.keep (minting_task hNext) rfl rfl⟩
    | _ => exact ⟨hand, used, h.keep (minting_task hNext) rfl rfl⟩
  | @call c db m op next holder hTask hGrant =>
    obtain ⟨hAllowed, hRest⟩ := h.client c _ hTask
    have hNext := hRest ((s.host.site.caller c).serve numParts s.host.site.world op).1 trivial
    have hOp : s.host.nextCall c = some op := by rw [Host.nextCall, hTask]
    cases op with
    | nextSeq =>
      obtain ⟨hTxn, hEnd⟩ : (s.host.site.caller c).txn = none ∧ s.host.site.world.listSeq + 1 ≠ 0 := by
        simpa [Plain, plain, hOp] using hK
      obtain ⟨hCounter, hAnswer, hSeq⟩ := s.host.serve_nextSeq numParts c hTxn
      rw [hAnswer] at hNext
      simp only [draws, puts, hOp, if_true, hCounter, hAnswer]
      exact ⟨_, used, h.draw hEnd hSeq (minting_task hNext) rfl⟩
    | put k v =>
      have hSeq := (s.host.site.caller c).serve_listSeq numParts s.host.site.world
        (show Call.put k v ≠ .nextSeq by simp)
      simp only [draws, puts, hOp, reduceCtorEq, some.injEq, if_false]
      by_cases hWord : spaceWord k = some .l
      · obtain ⟨seq, hHand, hElem⟩ := hAllowed hWord
        rw [after_put, if_pos hWord] at hNext
        rw [if_pos hWord]
        exact ⟨_, seq :: used, h.put hHand hElem (minting_task hNext) rfl hSeq⟩
      · rw [after_put, if_neg hWord] at hNext
        rw [if_neg hWord]
        exact ⟨hand, used, h.keep (minting_task hNext) rfl hSeq⟩
    | _ =>
      simp only [draws, puts, hOp, reduceCtorEq, some.injEq, if_false]
      exact ⟨hand, used, h.keep (minting_task hNext) rfl (Caller.serve_listSeq _ _ _ (by simp))⟩

/-- At the start nothing has been drawn. -/
lemma Mint.sound_idle (n : Replica) (world : World) : (idle world).Sound n (fun _ => none) [] where
  client _ := minting_none
  drawn := .nil
  counter _ h := nomatch h
  elems := .nil
  elemOf _ h := nomatch h
  usedDrawn _ h := nomatch h
  handDrawn _ _ h := nomatch h
  apart _ _ _ h := nomatch h

/-- **A run.** -/
theorem Mint.sound_of_reach {s : Mint}
    (h : Reach (Mint.step numParts n) Mint.Plain (.idle world) s) : ∃ hand used, s.Sound n hand used :=
  h.induct (I := fun s => ∃ hand used, s.Sound n hand used) ⟨_, _, sound_idle n world⟩
    fun _ ⟨_, _, h⟩ hK hs => h.step hK hs

private def pusher : Replica := .named 114

private def unused : World := .fresh

/-- `RPUSH k a` and `RPUSH k b`. -/
private def pushA : Method := .list (.push [107] [97] false)

private def pushB : Method := .list (.push [107] [98] false)

/-- A client runs a method to the end. -/
private def pushing (c : Nat) (m : Method) (calls : Nat) : List Happening :=
  .start c 0 m :: List.replicate calls (.call c)

end RedGeo.Repo
