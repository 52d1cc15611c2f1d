import RedGeo.Repo.Methods

/-!
# RedGeo — what methods are made of

A method reads, works in a space of a key, and takes locks around that. What holds
of these parts and of their compositions holds of all methods; here the methods are
taken apart once, for every such property.

Two properties go together: one of what is done with locks held or without any
(`In`), and one of whole methods (`Out`).

* `Parts.program` — every method, with two cases left to the property: the copy of a
  hash, which writes outside of the spaces, and the locks of two keys at once.
-/

namespace RedGeo.Repo

open Lib Store

/-- What properties of programs need, to be those of the methods of a replica. -/
structure Parts (me : Replica) (In Out : (α : Type) → StoreM α → Prop) : Prop where
  done : ∀ {α : Type} (a : α), In _ (.done a : StoreM α)
  fail : ∀ {α : Type} (e : Err), In _ (.fail e : StoreM α)
  bindIn : ∀ {α β : Type} {p : StoreM α} {f : α → StoreM β}, In _ p → (∀ a, In _ (f a)) → In _ (p >>= f)
  bindOut : ∀ {α β : Type} {p : StoreM α} {f : α → StoreM β}, Out _ p → (∀ a, Out _ (f a)) → Out _ (p >>= f)
  whole : ∀ {α : Type} {p : StoreM α}, In _ p → Out _ p
  calls : ∀ {α : Type} (p : ReadM α), In _ p.calls
  on : ∀ {α : Type} {X : Space} (r : Db), r.self = me → ∀ (key : Bytes) (p : KeyM X α), In _ (r.on key p)
  marked : ∀ (db : Int64) (key : Bytes) (tag : UInt8) (value : Bytes),
    In _ (putSlot me (metaBase db key) tag value)
  withLock : ∀ {α : Type} (k : Bytes) {body : StoreM α}, In _ body → Out _ (withLock k body)

/-- Two locks in the order in which they are taken. -/
def ordered (a b : Bytes) : Bytes × Bytes := if b < a then (b, a) else (a, b)

/-- The locks that a method holds at one time. -/
def Method.nested (r : Db) : Method → Option (Bytes × Bytes)
  | .key (.rename src dest) | .key (.renameNotExists src dest) =>
    if src = dest then none else some (lockKey r.num src, lockKey r.num dest)
  | .set (.move src dest _) => some (lockKey r.num src, lockKey r.num dest)
  | _ => none

/-- The keys of a renaming. -/
def Method.renames : Method → Option (Bytes × Bytes)
  | .key (.rename src dest) | .key (.renameNotExists src dest) => some (src, dest)
  | _ => none

namespace Parts

variable {In Out : (α : Type) → StoreM α → Prop} {r : Db} {α : Type} {self : Replica}

lemma locked (h : Parts r.self In Out) (key : Bytes) (p : KeyM X α) : Out _ (r.locked key p) :=
  h.withLock _ (h.on r rfl key p)

lemma read (h : Parts r.self In Out) (p : ReadM α) : Out _ p.calls := h.whole (h.calls p)

/-! ## Loops -/

lemma forM (h : Parts self In Out) {xs : List α} (hf : ∀ x, Out _ (f x)) : Out _ (xs.forM f) := by
  induction xs with
  | nil => exact h.whole (h.done _)
  | cons x xs ih => exact h.bindOut (hf x) fun _ => ih

lemma foldlM (h : Parts self In Out) {β : Type} {xs : List α} {f : β → α → StoreM β}
    (hf : ∀ b x, Out _ (f b x)) (b : β) : Out _ (xs.foldlM f b) := by
  induction xs generalizing b with
  | nil => exact h.whole (h.done _)
  | cons x xs ih =>
    rw [List.foldlM_cons]
    exact h.bindOut (hf b x) ih

/-! ## Deleting and copying -/

variable (h : Parts r.self In Out)

include h

lemma deleteKey (key : Bytes) (type : UInt8) : In _ (deleteKey r key type) := by
  have hString : In _ (deleteStringKey r key) := by
    refine h.bindIn (h.calls _) fun found => ?_
    rcases found with e | _ | ⟨m, mtime⟩
    · exact h.on r rfl key _
    · exact h.on r rfl key _
    · show In _ (if _ then _ else _)
      repeat' split
      all_goals exact h.on r rfl key _
  rw [Repo.deleteKey]
  repeat' split
  all_goals first
    | exact hString
    | exact h.on r rfl key _
    | exact h.marked _ _ _ _

lemma copyKey {key newKey : Bytes} (hHash : In _ (copyHashData r key newKey)) (type : UInt8) :
    In _ (copyKey r key newKey type) := by
  have hString : In _ (copyStringKey r key newKey) := by
    refine h.bindIn (h.calls _) fun m => ?_
    repeat' split
    all_goals exact h.on r rfl newKey _
  rw [Repo.copyKey]
  repeat' split
  all_goals first
    | exact hString
    | exact h.on r rfl newKey _
    | exact h.bindIn hHash fun _ => h.on r rfl newKey _
    | exact h.fail _

lemma rename {key newKey : Bytes}
    (hHash : In _ (copyHashData r key newKey))
    (hLocks : key ≠ newKey → ∀ {body : StoreM Unit}, In _ body →
      Out _ (withLocks (lockKey r.num key) (lockKey r.num newKey) body)) :
    Out _ (keyRename r key newKey) := by
  rw [keyRename]
  split
  · refine h.bindOut (h.read _) fun found => ?_
    split
    · exact h.whole (h.done _)
    · exact h.whole (h.fail _)
  · next hNe =>
    refine hLocks hNe (h.bindIn (h.calls _) fun found => ?_)
    cases found with
    | none => exact h.fail _
    | some k => exact h.bindIn (h.copyKey hHash k.type) fun _ => h.deleteKey key k.type

lemma keyDelete (keys : List Bytes) : Out _ (keyDelete r keys) := by
  refine h.foldlM (fun n key => ?_) 0
  refine h.bindOut (h.withLock _ (h.bindIn (h.calls _) fun found => ?_)) fun _ => h.whole (h.done _)
  cases found with
  | none => exact h.done _
  | some k => exact h.bindIn (h.deleteKey key k.type) fun _ => h.done _

lemma setETime (key : Bytes) (etimeMS : Int64) : Out _ (setETime r key etimeMS) := by
  refine h.withLock _ (h.bindIn (h.calls _) fun k => ?_)
  cases k with
  | none => exact h.fail _
  | some k =>
    refine h.bindIn (h.calls _) fun m => ?_
    cases m with
    | none => exact h.fail _
    | some m => exact h.marked _ _ _ _

lemma setMove (hLocks : ∀ {body : StoreM Unit}, In _ body →
      Out _ (withLocks (lockKey r.num src) (lockKey r.num dest) body)) :
    Out _ (setMove r src dest m) := by
  refine hLocks (h.bindIn (h.calls _) fun _ => h.bindIn (h.calls _) fun _ => ?_)
  refine h.bindIn (h.calls _) fun found => ?_
  split
  · exact h.bindIn (h.on r rfl src _) fun _ => h.bindIn (h.on r rfl dest _) fun _ => h.on r rfl src _
  · exact h.fail _

omit h

lemma sweepExpired (h : Parts self In Out) : Out _ (sweepExpired self) := by
  refine h.bindOut (h.whole (h.calls _)) fun now => h.foldlM (fun swept db => ?_) 0
  refine h.foldlM (fun swept base => h.bindOut ?_ fun _ => h.whole (h.done _)) swept
  refine h.bindOut (h.whole (h.calls _)) fun entries => ?_
  refine h.bindOut (h.forM fun k => ?_) fun _ => h.whole (h.done _)
  exact h.withLock _ (deleteKey (r := ⟨self, Int64.ofNat db⟩) h k.1 k.2)

/-! ## Strings -/

variable (h : Parts r.self In Out)

include h

lemma writeString (key b : Bytes) (etimeMS : Int64) (keepTTL : Bool) :
    In _ (writeString r key b etimeMS keepTTL) := by
  have hClear : ∀ m, In _ (clearFlavor r key m) := by
    intro m
    rw [clearFlavor]
    split
    · refine h.bindIn (h.calls _) fun live => ?_
      split
      · exact h.fail _
      · exact h.done _
    repeat' split
    all_goals first
      | exact h.on r rfl key _
      | exact h.done _
  have hWrite : ∀ etimeMS : Int64, In _ (putString r key b etimeMS) := by
    intro etimeMS
    rw [putString]
    split <;> exact h.on r rfl key _
  -- with `KEEPTTL` the metadata are read again
  have hKeep : ∀ clear : StoreM Unit, In _ clear → In _ (clear >>= fun _ => storeString r key b etimeMS keepTTL) := by
    intro clear hClear
    refine h.bindIn hClear fun _ => ?_
    cases keepTTL with
    | false => exact hWrite etimeMS
    | true =>
      refine h.bindIn (h.calls _) fun found => ?_
      rcases found with e | _ | ⟨m, mtime⟩
      · exact hWrite etimeMS
      · exact hWrite etimeMS
      · exact hWrite m.etimeMS
  refine h.bindIn (h.calls _) fun found => ?_
  rcases found with e | _ | ⟨m, mtime⟩
  · exact hKeep (pure ()) (h.done _)
  · exact hKeep (pure ()) (h.done _)
  · exact hKeep (clearFlavor r key m) (hClear m)

lemma strSetExpire (key b : Bytes) (ttl : Duration) : Out _ (strSetExpire r key b ttl) := by
  have hLocked : ∀ etimeMS, Out _
      (Repo.withLock (lockKey r.num key) (Repo.writeString r key b etimeMS false)) :=
    fun etimeMS => h.withLock _ (h.writeString key b etimeMS false)
  rw [Repo.strSetExpire]
  by_cases hTtl : 0 < ttl
  · simp only [if_pos hTtl]
    exact h.bindOut (h.read _) fun now => hLocked (now + ttl.milliseconds)
  · simp only [if_neg hTtl]
    exact hLocked 0

lemma strSetWith (key b : Bytes) (opts : SetOpts) : Out _ (strSetWith r key b opts) := by
  refine h.withLock _ (h.bindIn (h.calls _) fun prev => ?_)
  by_cases hGet : opts.get ∧ prev.map (fun _ => ()) = .error .keyType
  · simp only [if_pos hGet]
    exact h.fail _
  simp only [if_neg hGet]
  by_cases hNX : opts.ifNotExists ∧ prev.toOption.isSome
  · simp only [if_pos hNX]
    exact h.done _
  simp only [if_neg hNX]
  by_cases hXX : opts.ifExists ∧ ¬ prev.toOption.isSome
  · simp only [if_pos hXX]
    exact h.done _
  simp only [if_neg hXX]
  have hWrite : ∀ (etimeMS : Int64) (out : SetOut), In _ (do
      Repo.writeString r key b etimeMS opts.keepTTL
      pure out : StoreM SetOut) :=
    fun etimeMS out => h.bindIn (h.writeString key b etimeMS opts.keepTTL) fun _ => h.done _
  by_cases hAt : 0 < opts.atMS
  · simp only [if_pos hAt]
    exact hWrite _ _
  simp only [if_neg hAt]
  by_cases hTtl : 0 < opts.ttlMS
  · simp only [if_pos hTtl]
    exact h.bindIn (h.calls _) fun now => hWrite _ _
  · simp only [if_neg hTtl]
    exact hWrite _ _

lemma setBit (key : Bytes) (offset : UInt64) (on : Bool) : Out _ (setBit r key offset on) := by
  rw [Repo.setBit]
  split
  · exact h.whole (h.fail _)
  refine h.withLock _ (h.bindIn (h.calls _) fun kind => ?_)
  cases kind with
  | absent => exact h.on r rfl key _
  | bitmap etimeMS => exact h.on r rfl key _
  | string etimeMS =>
    refine h.bindIn (h.calls _) fun m => ?_
    split
    · exact h.fail _
    refine h.bindIn (h.calls _) fun v => h.bindIn (h.on r rfl key _) fun _ => ?_
    exact h.bindIn (h.on r rfl key _) fun _ => h.done _

lemma bitOp (op : BitOperation) (dest : Bytes) (srcs : List Bytes) : Out _ (bitOp r op dest srcs) := by
  refine h.bindOut (h.read _) fun data => ?_
  refine h.withLock _ (h.bindIn (h.calls _) fun found => ?_)
  have hClear : ∀ type, In _ (clearForBitmap r dest type) := by
    intro type
    refine h.bindIn (h.calls _) fun kind => ?_
    split
    · exact h.done _
    · exact h.deleteKey dest type
    · exact h.deleteKey dest type
    · exact h.done _
  by_cases hOut : bitop op data = []
  · simp only [if_pos hOut]
    cases found with
    | none => exact h.done _
    | some k => exact h.bindIn (h.deleteKey dest k.type) fun _ => h.done _
  · simp only [if_neg hOut]
    have hWrite : In _ (do
        r.on dest (bitmapWrite r dest (bitop op data) 0)
        pure (bitop op data).length : StoreM Nat) :=
      h.bindIn (h.on r rfl dest _) fun _ => h.done _
    cases found with
    | none => exact hWrite
    | some k => exact h.bindIn (hClear k.type) fun _ => hWrite

omit h

/-! ## The methods -/

variable (h : Parts r.self In Out)

include h

lemma str (m : RStr) : Out _ (m.program r) := by
  cases m with
  | get | getMany | pfCount | pfInspect | getBit | bitCount | bitPos => exact h.read _
  | incr | incrFloat | pfAdd | pfToDense => exact h.locked _ _
  | set key value => exact h.strSetExpire key value 0
  | setExpire key value ttl => exact h.strSetExpire key value ttl
  | setMany items => exact h.forM fun item => h.strSetExpire item.1 item.2 0
  | setWith key value opts => exact h.strSetWith key value opts
  | pfMerge dest srcs =>
    refine h.bindOut (h.forM fun src => h.bindOut (h.read _) fun _ => h.whole (h.done _)) fun _ => ?_
    exact h.locked dest _
  | pfRegisters key =>
    exact h.bindOut (h.locked key _) fun _ => h.bindOut (h.read _) fun _ => h.whole (h.done _)
  | setBit key offset on => exact h.setBit key offset on
  | bitOp op dest srcs => exact h.bitOp op dest srcs

lemma key (m : RKey)
    (hHash : ∀ src dest, (Method.key m).renames = some (src, dest) → In _ (copyHashData r src dest))
    (hLocks : ∀ a b, (Method.key m).nested r = some (a, b) → ∀ {body : StoreM Unit}, In _ body →
      Out _ (withLocks a b body)) : Out _ (m.program r) := by
  cases m with
  | count | «exists» | get | keys | len | random => exact h.read _
  | delete keys => exact h.keyDelete keys
  | deleteAll =>
    exact h.bindOut (h.read _) fun names => h.bindOut (h.keyDelete names) fun _ => h.whole (h.done _)
  | expire key ttlMS => exact h.bindOut (h.read _) fun now => h.setETime key (now + ttlMS)
  | expireAt key atMS => exact h.setETime key atMS
  | persist key => exact h.setETime key 0
  | rename src dest =>
    exact h.rename (hHash src dest rfl) fun hNe => hLocks _ _ (if_neg hNe)
  | renameNotExists src dest =>
    refine h.bindOut (h.read _) fun found => ?_
    split
    · exact h.whole (h.done _)
    · refine h.bindOut (h.rename (hHash src dest rfl) fun hNe => hLocks _ _ (if_neg hNe)) fun _ => ?_
      exact h.whole (h.done _)

lemma set (m : RSet)
    (hLocks : ∀ a b, (Method.set m).nested r = some (a, b) → ∀ {body : StoreM Unit}, In _ body →
      Out _ (withLocks a b body)) : Out _ (m.program r) := by
  cases m with
  | diff | «exists» | inter | items | len | random | union => exact h.read _
  | add | delete | pop => exact h.locked _ _
  | diffStore | interStore | unionStore => exact h.bindOut (h.read _) fun _ => h.locked _ _
  | move src dest elem => exact h.setMove (hLocks _ _ rfl)

lemma zset (m : RZSet) : Out _ (m.program r) := by
  cases m with
  | count | getRank | getScore | inter | len | range | union => exact h.read _
  | add | addMany | delete | deleteRange | incr => exact h.locked _ _
  | interStore | unionStore => exact h.bindOut (h.read _) fun _ => h.locked _ _

lemma hash (m : RHash) : Out _ (m.program r) := by
  cases m with
  | «exists» | get | getMany | items | len => exact h.read _
  | _ => exact h.locked _ _

lemma list (m : RList) : Out _ (m.program r) := by
  cases m with
  | get | len | range => exact h.read _
  | delete | insert | pop | push | set | trim => exact h.locked _ _
  | popBackPushFront src dest =>
    exact h.bindOut (h.locked src _) fun _ => h.bindOut (h.locked dest _) fun _ => h.whole (h.done _)

lemma stream (m : RStream) : Out _ (m.program r) := by
  cases m with
  | len | range | lastID | groups | group => exact h.read _
  | add | del | trim | groupCreate | groupDestroy | groupSetID | consumerCreate | consumerDelete
  | readNew | readPending | ack | claim => exact h.locked _ _

lemma sketch (m : RSketch) : Out _ (m.program r) := by
  cases m with
  | bfExists | bfInfo | cmsQuery | cmsInfo | topkQuery | topkCount | topkList | topkInfo =>
    exact h.read _
  | bfAdd | cmsIncr | topkAdd => exact h.locked _ _
  | bfReserve key p =>
    show Out _ (bfReserve r key p)
    rw [bfReserve]
    split
    · exact h.whole (h.fail _)
    · exact h.locked key _
  | cmsInit key p =>
    show Out _ (cmsInit r key p)
    rw [cmsInit]
    split
    · exact h.whole (h.fail _)
    · exact h.locked key _
  | topkReserve key p =>
    show Out _ (topkReserve r key p)
    rw [topkReserve]
    split
    · exact h.whole (h.fail _)
    · exact h.locked key _
  | cmsMerge dest srcs => exact h.bindOut (h.read _) fun _ => h.locked dest _

/-- **Every method is made of these parts.** -/
theorem program (m : Method)
    (hHash : ∀ src dest, m.renames = some (src, dest) → In _ (copyHashData r src dest))
    (hLocks : ∀ a b, m.nested r = some (a, b) → ∀ {body : StoreM Unit}, In _ body →
      Out _ (withLocks a b body)) : Out _ (m.program r) := by
  cases m with
  | str m => exact h.str m
  | key m => exact h.key m hHash hLocks
  | hash m => exact h.hash m
  | set m => exact h.set m hLocks
  | zset m => exact h.zset m
  | list m => exact h.list m
  | stream m => exact h.stream m
  | json m =>
    cases m with
    | view key fn => exact h.read _
    | update key create fn => exact h.locked key _
  | sketch m => exact h.sketch m
  | sweep => exact h.sweepExpired

end Parts

end RedGeo.Repo
