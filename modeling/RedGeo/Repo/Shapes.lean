import RedGeo.Repo.Ownership

/-!
# RedGeo — what stands below the prefix of a hash

Two kinds of entries share the prefix of a hash: the slots of plain fields, and the
components of counter fields. Point reads and scans tell them apart in different ways,
so that what they agree on depends on nothing else being there.

* `HashEntry` — the two kinds. A component may have any value.
* `shaped_program` — no method puts anything else there.
* `shaped_of_reach` — nor is anything else there in any run: any clients, alone or in
  transactions, at any replicas, and whatever arrives from one at another.
-/

namespace RedGeo.Repo

open Lib Store List Option
open Function (update update_of_ne update_self)

/-- An entry of a hash. -/
inductive HashEntry : Path → Bytes → Prop
  | slot (db : Int64) (key field : Bytes) (o : Replica) (sl : Slot) :
    HashEntry (slotKey (hashFieldBase db key field) o) (encodeSlot sl)
  | component (db : Int64) (key field name value : Bytes) :
    HashEntry (slotAt (hashFieldCounterBase db key field) name) value

/-- What stands below the prefix of a hash is an entry of one. -/
def Shaped (k : Path) (v : Bytes) : Prop := spaceWord k = some .h → HashEntry k v

def ShapedPut : Call → Prop
  | .put k v => Shaped k v
  | _ => True

/-- A program that puts nothing else there, whatever it is answered. -/
abbrev Shapely {α : Type} (p : StoreM α) : Prop := p.Obeys (.only ShapedPut) fun _ => True

/-! ## The methods -/

lemma shaped_of_word (hWord : w ≠ .h) (rest : List Seg) (v : Bytes) :
    Shaped (newKey (dataBase db key ++ .word w :: rest)) v := by
  intro hHash
  rw [spaceWord_newKey] at hHash
  exact absurd (some.inj hHash) hWord

variable (self : Replica)

lemma shaped_marked (db : Int64) (key v : Bytes) : Shaped (slotKey (metaBase db key) self) v := by
  intro hHash
  by_cases hKey : key = [] <;>
    simp [slotKey, newKey, metaBase, Store.part, hKey, self.nonempty, spaceWord] at hHash

lemma shaped_slot (db : Int64) (key : Bytes) (reg : Reg X) (sl : Slot) :
    Shaped (slotKey (reg.base db key) self) (encodeSlot sl) := by
  cases reg with
  | field name => exact fun _ => .slot db key name self sl
  | value => exact shaped_of_word (w := .v) (by decide) [.enc self.name] _
  | chunk idx => exact shaped_of_word (w := .b) (by decide) [.chunk idx, .enc self.name] _
  | score member => exact shaped_of_word (w := .z) (by decide) [.enc member, .enc self.name] _
  | node path =>
    have hBase : jsonNodeBase db key path ++ [.enc self.name] =
        dataBase db key ++ .word .j :: (path ++ [.word .leaf, .enc self.name]) := by
      simp [jsonNodeBase, jsonBase]
    show Shaped (newKey (jsonNodeBase db key path ++ [.enc self.name])) _
    rw [hBase]
    exact shaped_of_word (by decide) _ _
  | params => exact shaped_of_word (w := .s) (by decide) [.word .p, .enc self.name] _
  | entry ms seq => exact shaped_of_word (w := .x) (by decide) [.id ms seq, .enc self.name] _
  | group name => exact shaped_of_word (w := .xg) (by decide) [.enc name, .word .m, .enc self.name] _
  | pending g ms seq =>
    exact shaped_of_word (w := .xg) (by decide) [.enc g, .word .p, .id ms seq, .enc self.name] _
  | consumer g name =>
    exact shaped_of_word (w := .xg) (by decide) [.enc g, .word .c, .enc name, .enc self.name] _

lemma shaped_comp (db : Int64) (key replica : Bytes) (c : Comp X) (v : Bytes) :
    Shaped (c.path db key replica) v := by
  cases c with
  | fieldCounter field => exact fun _ => .component db key field replica v
  | counter => exact shaped_of_word (w := .c) (by decide) [.enc replica] _
  | hll => exact shaped_of_word (w := .p) (by decide) [.enc replica] _
  | member name => exact shaped_of_word (w := .e) (by decide) [.enc name] _
  | elem rest =>
    show Shaped (newKey (listBase db key ++ rest)) v
    rw [listBase, append_assoc]
    exact shaped_of_word (by decide) _ _
  | bloomBits hash layer chunk =>
    exact shaped_of_word (w := .s) (by decide)
      [.space hash, .word .b, .layer layer, .chunk chunk, .enc replica] _
  | bloomCount hash layer =>
    exact shaped_of_word (w := .s) (by decide) [.space hash, .word .n, .layer layer, .enc replica] _
  | cell hash idx =>
    exact shaped_of_word (w := .s) (by decide) [.space hash, .word .c, .cell idx, .enc replica] _
  | total hash => exact shaped_of_word (w := .s) (by decide) [.space hash, .word .t, .enc replica] _
  | summary hash => exact shaped_of_word (w := .s) (by decide) [.space hash, .word .k, .enc replica] _
  | last => exact shaped_of_word (w := .xl) (by decide) [.enc replica] _
  | delivered group => exact shaped_of_word (w := .xg) (by decide) [.enc group, .word .l, .enc replica] _

lemma shapely_aboutPuts : AboutPuts (.only ShapedPut) := by
  intro op hOp
  cases op with
  | put k v => exact absurd rfl (hOp k v)
  | _ => trivial

/-- In a space of a key, whatever a program does. -/
lemma shapely_on {α : Type} (r : Db) (key : Bytes) (p : KeyM X α) : Shapely (r.on key p) :=
  abides_on shapely_aboutPuts r key p (shaped_slot r.self r.num key)
    (fun _ => shaped_marked r.self r.num key _) (shaped_comp r.num key r.self.name)

lemma shapely_parts : Parts self (fun _ p => Shapely p) (fun _ p => Shapely p) where
  done _ := trivial
  fail _ := trivial
  bindIn := abides_bind
  bindOut := abides_bind
  whole := id
  calls := abides_calls shapely_aboutPuts
  on r _ key p := shapely_on r key p
  marked db key tag value := abides_putSlot shapely_aboutPuts tag value fun _ => shaped_marked self db key _
  withLock _ := abides_withLock shapely_aboutPuts

lemma shapely_copyHashData (r : Db) (key newKey : Bytes) : Shapely (copyHashData r key newKey) := by
  refine abides_bind (abides_calls shapely_aboutPuts _) fun entries => Prog.obeys_forM fun e _ => ?_
  rw [copyHashEntry]
  split
  · split
    · split
      · trivial
      · exact shapely_on r newKey _
    · trivial
  · next field replica _ =>
    exact abides_perform fun _ => .component r.num newKey field replica e.2
  · trivial

/-- **No method puts anything else below the prefix of a hash.** -/
theorem shaped_program (r : Db) (m : Method) : Shapely (m.program r) :=
  (shapely_parts r.self).program m (fun src dest _ => shapely_copyHashData r src dest)
    fun _ _ _ => abides_withLocks shapely_aboutPuts

/-! ## Runs -/

/-- What a node holds. -/
def ShapedData (data : Datastore) : Prop := ∀ (k : Path) (v : Bytes), data[k]? = some v → Shaped k v

/-- What is left of a client's method, and what its transaction has recorded. -/
structure Caller.Shapely (x : Caller) : Prop where
  task : ∀ t, x.task = some t → Repo.Shapely t.rest
  txn : ∀ txn seq, x.txn = some (txn, seq) → ∀ p k v, (k, some v) ∈ txn.batch p → Shaped k v

structure Site.Shapely (x : Site) : Prop where
  data : ShapedData x.world.data
  caller : ∀ c, (x.caller c).Shapely

/-- Whatever a replica takes over, some replica has. What is on its way is held by one
that does nothing else. -/
def Arrives (s : Sites) : Replica × Happening → Prop
  | (_, .change data) => ∀ (k : Path) (v : Bytes), data[k]? = some v → ∃ n, (s.site n).world.data[k]? = some v
  | _ => True

lemma shapedData_insert (h : ShapedData data) (hNew : Shaped k v) : ShapedData (data.insert k v) := by
  intro k' v' hFound
  rw [Table.lookup_insert] at hFound
  split at hFound
  · next hEq =>
    subst hEq
    exact some.inj hFound ▸ hNew
  · exact h k' v' hFound

lemma shapedData_erase (h : ShapedData data) (k : Path) : ShapedData (data.erase k) := by
  intro k' v' hFound
  rw [Table.lookup_erase] at hFound
  split at hFound
  · cases hFound
  · exact h k' v' hFound

/-- A call that may be made leaves a node with entries of the two kinds. -/
lemma shapedData_serve (hOp : ShapedPut op) (h : ShapedData w.data) :
    ShapedData (World.serve op w).2.data := by
  cases op with
  | put k v => exact shapedData_insert h hOp
  | del k => exact shapedData_erase h k
  | _ => exact h

lemma shapely_update {x : Site} (hData : ShapedData w.data) (h : x.Shapely) (c : Nat)
    (hy : y.Shapely) : Site.Shapely ⟨w, update x.caller c y⟩ where
  data := hData
  caller := (Function.forall_update_iff _ fun _ y => Caller.Shapely y).mpr ⟨hy, fun c' _ => h.caller c'⟩

lemma Caller.Shapely.doing {x : Caller} (h : x.Shapely) (ht : Repo.Shapely t.rest) :
    Caller.Shapely ⟨x.txn, some t⟩ where
  task _ hEq := some.inj hEq ▸ ht
  txn := h.txn

lemma Caller.Shapely.done {x : Caller} (h : x.Shapely) : Caller.Shapely ⟨x.txn, none⟩ where
  task _ hEq := (some_ne_none _ hEq.symm).elim
  txn := h.txn

lemma Caller.shapely_new : Caller.Shapely {} where
  task _ hEq := (some_ne_none _ hEq.symm).elim
  txn _ _ hEq := (some_ne_none _ hEq.symm).elim

lemma Caller.shapely_begin (seq : UInt64) : Caller.Shapely ⟨some ({}, seq), none⟩ where
  task _ hEq := (some_ne_none _ hEq.symm).elim
  txn _ _ hEq _ _ _ hMem := by
    cases hEq
    cases hMem

/-- What a call leaves of the node and of the transaction. -/
lemma shapely_serve (numParts : Nat) {x : Caller} (h : x.Shapely) (hOp : ShapedPut op)
    (hData : ShapedData w.data) : ShapedData (x.serve numParts w op).2.1.data ∧ ∀ txn seq,
    (x.serve numParts w op).2.2 = some (txn, seq) → ∀ p k v, (k, some v) ∈ txn.batch p → Shaped k v := by
  obtain ⟨old, task⟩ := x
  cases old with
  | none => exact ⟨shapedData_serve hOp hData, fun _ _ hTxn => nomatch hTxn⟩
  | some old =>
    refine ⟨?_, fun txn seq hTxn p k v hMem => ?_⟩
    · -- within a transaction the datastore stays as it is
      cases op <;> exact hData
    · cases hTxn
      rcases mem_batch_serve hMem with hOld | rfl
      · exact h.txn _ _ rfl p k v hOld
      · exact hOp

/-- What the batches of a transaction leave of a node. -/
lemma shapedData_commit {txn : Txn} (hTxn : ∀ p k v, (k, some v) ∈ txn.batch p → Shaped k v)
    (parts : List Nat) (h : ShapedData data) :
    ShapedData (parts.foldl (fun data p => (txn.batch p).foldl (fun data op => match op.2 with
        | some v => data.insert op.1 v
        | none => data.erase op.1) data) data) := by
  have hBatch : ∀ (ops : List (Path × Option Bytes)) (data : Datastore),
      (∀ k v, (k, some v) ∈ ops → Shaped k v) → ShapedData data →
      ShapedData (ops.foldl (fun data op =>
        match op.2 with
        | some v => data.insert op.1 v
        | none => data.erase op.1) data) := by
    intro ops
    induction ops with
    | nil => exact fun _ _ hData => hData
    | cons op ops ih =>
      intro data hOps hData
      refine ih _ (fun k v hMem => hOps k v (mem_cons_of_mem _ hMem)) ?_
      obtain ⟨k, v⟩ := op
      cases v with
      | none => exact shapedData_erase hData k
      | some v => exact shapedData_insert hData (hOps k v mem_cons_self)
  induction parts generalizing data with
  | nil => exact h
  | cons p parts ih => exact ih (hBatch _ _ (hTxn p) h)

/-- **The step lemma.** -/
theorem Site.Shapely.step {numParts : Nat} {x x' : Site} {keys : List Path} (h : x.Shapely)
    (hArrives : ∀ data, a = .change data → ShapedData data) (hs : x.step numParts n a = some (x', keys)) :
    x'.Shapely := by
  cases a with
  | start c db m =>
    rw [Site.step] at hs
    split at hs
    · cases hs
    · cases hs
      exact shapely_update h.data h c ((h.caller c).doing (shaped_program ⟨n, db⟩ m))
  | call c =>
    have hCaller := h.caller c
    rw [Site.step] at hs
    split at hs
    · cases hs
    · next db m op next hTask =>
      cases hs
      obtain ⟨hOp, hNext⟩ := hCaller.task _ hTask
      obtain ⟨hData, hTxn⟩ := shapely_serve numParts hCaller hOp h.data
      refine shapely_update hData h c ⟨fun t ht => ?_, hTxn⟩
      cases ht
      exact hNext _ trivial
    · cases hs
      exact shapely_update h.data h c hCaller.done
  | fault c e =>
    rw [Site.step] at hs
    split at hs
    · next db m op next hTask =>
      cases hs
      exact shapely_update h.data h c ((h.caller c).doing (((h.caller c).task _ hTask).2 _ trivial))
    · cases hs
  | beginTxn c =>
    rw [Site.step] at hs
    split at hs
    · cases hs
    · cases hs
      exact shapely_update h.data h c (Caller.shapely_begin _)
  | commit c parts =>
    rw [Site.step] at hs
    split at hs
    · next txn seq hTxn =>
      cases hs
      have hBatch := (h.caller c).txn txn seq (by rw [hTxn])
      exact shapely_update (shapedData_commit hBatch parts h.data) h c Caller.shapely_new
    · cases hs
  | change data =>
    cases hs
    exact ⟨hArrives data rfl, h.caller⟩

/-- **Nothing but slots and components** stands below the prefix of a hash, in any run
from nodes that hold nothing. -/
theorem shaped_of_reach (hEmpty : ∀ n, (world n).data = ∅)
    (h : Reach (Sites.step numParts) Arrives (.idle world) s) (n : Replica) :
    ShapedData (s.site n).world.data := by
  have hStart : ∀ n, ((Sites.idle world).site n).Shapely := by
    refine fun n => ⟨fun k v hFound => ?_, fun _ => Caller.shapely_new⟩
    have hNone : (world n).data[k]? = none := by
      rw [hEmpty]
      simp
    cases hNone.symm.trans hFound
  have hAll : ∀ n, (s.site n).Shapely := by
    refine h.induct (I := fun s => ∀ n, (s.site n).Shapely) hStart ?_
    rintro s s' ⟨n, a⟩ - hI hK hs n'
    obtain ⟨⟨x', keys⟩, hSite, rfl⟩ := map_eq_some_iff.mp hs
    show (update s.site n x' n').Shapely
    by_cases hn : n' = n
    · subst hn
      rw [update_self]
      refine (hI n').step (fun data hEq => ?_) hSite
      -- what arrives is held by a replica, where it is one of the two kinds
      subst hEq
      intro k v hFound
      obtain ⟨m, hHeld⟩ := hK k v hFound
      exact (hI m).data k v hHeld
    · rw [update_of_ne hn]
      exact hI n'
  exact (hAll n).data

end RedGeo.Repo
