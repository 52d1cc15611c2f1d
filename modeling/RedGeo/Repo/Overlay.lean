import RedGeo.Repo.Calls

/-!
# RedGeo — transactions

`crdtstore/txn.go`, with the batch of `engine/engine.go`. Commands of a
transaction write to a batch that is committed at the end, and to an overlay
(what was put, what was deleted) through which they see their own writes. Reads
consult the overlay first and the datastore behind it second; a query merges
the two.

* `Mirrors` — what the overlay stands for: the datastore as it would be had the
  writes gone to it directly.
* `transaction_refines_store` — reads through the overlay answer as reads of that
  datastore, a query in an order of its own, and the commit makes it the datastore.

A query of the datastore cleans its prefix, the overlay compares keys with the
prefix as it stands. The two agree on prefixes without empty segments.
-/

namespace RedGeo.Repo

open Lib Store Function List Option World Table Datastore Prod

/-- An operation of a batch: a key and what becomes of it. -/
abbrev BatchOp := Path × Option Bytes

/-- `parseLeadingBucket`. -/
def leadingBucket : Path → Nat
  | .bucket p :: _ => p
  | _ => 0

def partIdx (numParts : Nat) (k : Path) : Nat := leadingBucket k % numParts

/-- `txn`. The batch fans its operations out to a batch for each partition; here
they are in the order they were recorded in. -/
structure Txn where
  batch : Nat → List BatchOp := fun _ => []
  puts : Table Path Bytes := ∅
  dels : Table Path Unit := ∅

namespace Txn

variable (numParts : Nat)

variable (t : Txn)

variable (k : Path)

/-- `multiBatch.Put` and `multiBatch.Delete`. -/
def record (v : Option Bytes) : Nat → List BatchOp :=
  update t.batch (partIdx numParts k) (t.batch (partIdx numParts k) ++ [(k, v)])

def put (v : Bytes) : Txn :=
  { batch := t.record numParts k (some v), puts := t.puts.insert k v, dels := t.dels.erase k }

def del : Txn :=
  { batch := t.record numParts k none, puts := t.puts.erase k, dels := t.dels.insert k () }

def get (base : Datastore) (k : Path) : Option Bytes :=
  if t.dels.contains k then none
  else
    match t.puts[k]? with
    | some v => some v
    | none => base[k]?

def has (base : Datastore) (k : Path) : Bool :=
  if t.dels.contains k then false else if t.puts.contains k then true else base.contains k

/-- `strings.HasPrefix(k, prefix)`, for a prefix that ends in a slash. -/
def hasPrefix (base : List Seg) : Bool := base <+: k ∧ base ≠ k

/-- What the first loop of `query` makes of an entry of the datastore. -/
def overlaid (keysOnly : Bool) (e : Path × Bytes) : Option (Path × Bytes) :=
  if t.dels.contains e.1 then none
  else
    match t.puts[e.1]? with
    | some v => some (keyEntry keysOnly (e.1, v))
    | none => some e

/-- What the second loop of `query` makes of a put. -/
def added (inBase : List Path) (base : List Seg) (keysOnly : Bool) (e : Path × Bytes) :
    Option (Path × Bytes) :=
  if e.1 ∈ inBase then none
  else if t.dels.contains e.1 then none
  else if hasPrefix e.1 base then some (keyEntry keysOnly e)
  else none

/-- `query`, of what the datastore returns. -/
def query (found : List (Path × Bytes)) (base : List Seg) (keysOnly : Bool) :
    List (Path × Bytes) :=
  found.filterMap (t.overlaid keysOnly) ++
    t.puts.toList.filterMap (t.added (found.map Prod.fst) base keysOnly)

end Txn

/-! ## The transaction answers -/

/-- A node with a transaction under way. The bound store has a copy of the counter
of positions. -/
structure TxnWorld where
  world : World
  txn : Txn := {}
  listSeq : UInt64

namespace TxnWorld

/-- `BeginTxn`. -/
def begin (w : World) : TxnWorld := { world := w, listSeq := w.listSeq }

/-- What a query returns, in the order the code lists it in. -/
def query (x : TxnWorld) (base : List Seg) (keysOnly : Bool) : List (Path × Bytes) :=
  x.txn.query ((x.world.data.entries base).map (keyEntry keysOnly)) base keysOnly

/-- What the calls of a command inside a transaction do. -/
def serve (numParts : Nat) : Prog.Handler Call Answer TxnWorld
  | .get k, x => (.ok (x.txn.get x.world.data k), x)
  | .has k, x => (.ok (x.txn.has x.world.data k), x)
  | .query base keysOnly, x => (.ok (x.query base keysOnly), x)
  | .put k v, x => (.ok (), { x with txn := x.txn.put numParts k v })
  | .del k, x => (.ok (), { x with txn := x.txn.del numParts k })
  | .stamp, x =>
    (.ok x.world.clock.now.1, { x with world := { x.world with clock := x.world.clock.now.2 } })
  | .nowMS, x =>
    (.ok (x.world.now 0), { x with world := { x.world with now := fun i => x.world.now (i + 1) } })
  | .nextSeq, x => (.ok (x.listSeq + 1), { x with listSeq := x.listSeq + 1 })
  | .random n, x =>
    (.ok (x.world.rand 0 % n), { x with world := { x.world with rand := fun i => x.world.rand (i + 1) } })
  | .lock _, x => (.ok (), x)
  | .unlock _, x => (.ok (), x)

end TxnWorld

/-! ## Committing -/

variable (ops : List BatchOp)

/-- What a batch last says of a key. -/
def lastOp (k : Path) : Option (Option Bytes) :=
  (ops.reverse.find? fun op => op.1 = k).map Prod.snd

/-- What is assumed of the commit of a batch: it applies the last operation
recorded for each key. -/
def Commits (data data' : Datastore) : Prop :=
  ∀ k, data'[k]? = match lastOp ops k with
    | some v => v
    | none => data[k]?

/-- `multiBatch.Commit`: the batches of the partitions are committed one after the
other, in any order. -/
inductive CommitsAll (batch : Nat → List BatchOp) : List Nat → Datastore → Datastore → Prop
  | nil (data : Datastore) : CommitsAll batch [] data data
  | cons {p : Nat} {ps : List Nat} {data data' data'' : Datastore}
      (h : Commits (batch p) data data') (hs : CommitsAll batch ps data' data'') :
      CommitsAll batch (p :: ps) data data''

/-! ## Reading through the overlay -/

namespace Txn

variable {numParts : Nat} {t : Txn} {data : Datastore} {base : List Seg} {keysOnly : Bool}
    {e : Path × Bytes} (k : Path)

lemma get_put (v : Bytes) (a : Path) :
    (t.put numParts k v).get data a = if k = a then some v else t.get data a := by
  simp only [get, put, Std.ExtTreeMap.contains_eq_isSome_getElem?, lookup_erase, lookup_insert]
  split <;> simp

lemma get_del (a : Path) : (t.del numParts k).get data a = if k = a then none else t.get data a := by
  simp only [get, del, Std.ExtTreeMap.contains_eq_isSome_getElem?, lookup_erase, lookup_insert]
  split <;> simp

lemma has_eq : t.has data k = (t.get data k).isSome := by
  simp only [has, get, Std.ExtTreeMap.contains_eq_isSome_getElem?]
  split
  · rfl
  · cases t.puts[k]? <;> rfl

/-- Without empty segments, the prefix as it stands is the cleaned one. -/
lemma hasPrefix_iff (hBase : newKey base = base) (k : Path) : hasPrefix k base ↔ Under base k := by
  rw [hasPrefix, decide_eq_true_iff, Under, hBase, ne_comm]

@[simp] lemma keyEntry_fst (keysOnly : Bool) (e : Path × Bytes) : (keyEntry keysOnly e).1 = e.1 := by
  cases keysOnly <;> rfl

lemma map_keyEntry_fst (keysOnly : Bool) (l : List (Path × Bytes)) :
    (l.map (keyEntry keysOnly)).map fst = l.map fst := by
  rw [List.map_map]
  exact map_congr_left fun e _ => keyEntry_fst keysOnly e

/-- What the first loop returns: the keys the datastore has, with what they
stand for now. -/
lemma mem_overlaid : e ∈ ((data.entries base).map (keyEntry keysOnly)).filterMap (t.overlaid keysOnly) ↔
    (∃ v, t.get data e.1 = some v ∧ e = keyEntry keysOnly (e.1, v)) ∧ (∃ v, data[e.1]? = some v) ∧
    Under base e.1 := by
  rw [mem_filterMap]
  constructor
  · rintro ⟨e', he', hOver⟩
    obtain ⟨⟨k, v⟩, hMem, rfl⟩ := mem_map.mp he'
    obtain ⟨hEntry, hUnder⟩ := mem_entries.mp hMem
    rw [overlaid, keyEntry_fst] at hOver
    split at hOver
    · cases hOver
    next hDel =>
    split at hOver
    · next v' hPut =>
      obtain rfl := some.inj hOver
      rw [keyEntry_fst]
      exact ⟨⟨v', by rw [get, if_neg hDel, hPut], rfl⟩, ⟨v, hEntry⟩, hUnder⟩
    · next hPut =>
      obtain rfl := some.inj hOver
      rw [keyEntry_fst]
      exact ⟨⟨v, by rw [get, if_neg hDel, hPut]; exact hEntry, rfl⟩, ⟨v, hEntry⟩, hUnder⟩
  · rintro ⟨⟨v, hGet, hEq⟩, ⟨v', hEntry⟩, hUnder⟩
    refine ⟨keyEntry keysOnly (e.1, v'), ?_, ?_⟩
    · exact mem_map_of_mem (mem_entries.mpr ⟨hEntry, hUnder⟩)
    · rw [get] at hGet
      split at hGet
      · cases hGet
      next hDel =>
      rw [overlaid, keyEntry_fst, if_neg hDel]
      cases hPut : t.puts[e.1]? with
      | some w =>
        rw [hPut] at hGet
        simp only [some.inj hGet, ← hEq]
      | none =>
        rw [hPut, hEntry] at hGet
        simp only [some.inj hGet, ← hEq]

/-- What the second loop returns: the keys the datastore does not have. -/
lemma mem_added (hBase : newKey base = base) :
    e ∈ t.puts.toList.filterMap (t.added ((data.entries base).map fst) base keysOnly) ↔
    (∃ v, t.get data e.1 = some v ∧ e = keyEntry keysOnly (e.1, v)) ∧ data[e.1]? = none ∧ Under base e.1 := by
  -- below the prefix, a key is among those found if the datastore has it
  have hFound : ∀ k, Under base k → (k ∈ (data.entries base).map fst ↔ data[k]? ≠ none) := by
    intro k hUnder
    rw [List.mem_map, Option.ne_none_iff_exists']
    constructor
    · rintro ⟨⟨k', v⟩, hMem, rfl⟩
      exact ⟨v, (mem_entries.mp hMem).1⟩
    · rintro ⟨v, hEntry⟩
      exact ⟨(k, v), mem_entries.mpr ⟨hEntry, hUnder⟩, rfl⟩
  rw [mem_filterMap]
  constructor
  · rintro ⟨⟨k, v⟩, hMem, hAdded⟩
    rw [Std.ExtTreeMap.mem_toList_iff_getElem?_eq_some] at hMem
    simp only [added] at hAdded
    split at hAdded
    · cases hAdded
    next hNew =>
    split at hAdded
    · cases hAdded
    next hDel =>
    split at hAdded
    · next hPrefix =>
      have hUnder := (hasPrefix_iff hBase k).mp hPrefix
      obtain rfl := some.inj hAdded
      rw [keyEntry_fst]
      refine ⟨⟨v, by rw [get, if_neg hDel, hMem], rfl⟩, ?_, hUnder⟩
      exact Decidable.byContradiction fun hSome => hNew ((hFound k hUnder).mpr hSome)
    · cases hAdded
  · rintro ⟨⟨v, hGet, hEq⟩, hNone, hUnder⟩
    rw [get] at hGet
    split at hGet
    · cases hGet
    next hDel =>
    cases hPut : t.puts[e.1]? with
    | none =>
      rw [hPut, hNone] at hGet
      cases hGet
    | some w =>
      rw [hPut] at hGet
      obtain rfl := some.inj hGet
      refine ⟨(e.1, w), Std.ExtTreeMap.mem_toList_iff_getElem?_eq_some.mpr hPut, ?_⟩
      have hNew : e.1 ∉ (data.entries base).map fst := fun h => (hFound e.1 hUnder).mp h hNone
      simp only [added, if_neg hNew, if_neg hDel, if_pos ((hasPrefix_iff hBase e.1).mpr hUnder), ← hEq]

/-- **What a query returns.** -/
theorem mem_query (hBase : newKey base = base) :
    e ∈ t.query ((data.entries base).map (keyEntry keysOnly)) base keysOnly ↔
    (∃ v, t.get data e.1 = some v ∧ e = keyEntry keysOnly (e.1, v)) ∧ Under base e.1 := by
  rw [query, mem_append, map_keyEntry_fst, mem_overlaid, mem_added hBase]
  constructor
  · rintro (⟨hGet, -, hUnder⟩ | ⟨hGet, -, hUnder⟩) <;> exact ⟨hGet, hUnder⟩
  · rintro ⟨hGet, hUnder⟩
    cases hEntry : data[e.1]? with
    | some v => exact .inl ⟨hGet, ⟨v, rfl⟩, hUnder⟩
    | none => exact .inr ⟨hGet, rfl, hUnder⟩

/-- A map that keeps the keys of what it keeps, keeps them apart. -/
lemma nodup_filterMap {f : Path × Bytes → Option (Path × Bytes)} (hf : ∀ e e', f e = some e' → e'.1 = e.1)
    {l : List (Path × Bytes)} (h : (l.map fst).Nodup) : ((l.filterMap f).map fst).Nodup := by
  have hSub : ((l.filterMap f).map fst).Sublist (l.map fst) := by
    induction l with
    | nil => exact List.Sublist.refl _
    | cons e l ih =>
      have hTail := ih (nodup_cons.mp h).2
      rw [filterMap_cons]
      split
      · exact hTail.cons _
      · next e' hEq =>
        rw [map_cons, map_cons, hf e e' hEq]
        exact hTail.cons_cons _
  exact h.sublist hSub

lemma overlaid_fst (h : t.overlaid keysOnly e = some e') : e'.1 = e.1 := by
  rw [overlaid] at h
  split at h
  · cases h
  · split at h <;> rw [← some.inj h]
    exact keyEntry_fst _ _

lemma added_fst {found : List Path} (h : t.added found base keysOnly e = some e') :
    e'.1 = e.1 ∧ e.1 ∉ found := by
  rw [added] at h
  split at h
  · cases h
  next hNew =>
  split at h
  · cases h
  split at h
  · rw [← some.inj h]
    exact ⟨keyEntry_fst _ _, hNew⟩
  · cases h

lemma nodup_query :
    ((t.query ((data.entries base).map (keyEntry keysOnly)) base keysOnly).map fst).Nodup := by
  have hBaseKeys : (((data.entries base).map (keyEntry keysOnly)).map fst).Nodup := by
    rw [map_keyEntry_fst]
    exact nodup_of_pairwise (pairwise_select _ _)
  have hPutKeys : (t.puts.toList.map fst).Nodup :=
    nodup_of_pairwise Std.ExtTreeMap.ordered_keys_toList
  rw [query, map_append, nodup_append]
  refine ⟨nodup_filterMap (fun _ _ => overlaid_fst) hBaseKeys,
    nodup_filterMap (fun _ _ h => (added_fst h).1) hPutKeys, ?_⟩
  -- a key of the first loop was found, one of the second was not
  intro k hOld k' hNew hEq
  obtain ⟨e, he, rfl⟩ := mem_map.mp hOld
  obtain ⟨e', he', rfl⟩ := mem_map.mp hNew
  obtain ⟨d, hd, hOver⟩ := mem_filterMap.mp he
  obtain ⟨d', -, hAdded⟩ := mem_filterMap.mp he'
  obtain ⟨hFst, hNotFound⟩ := added_fst hAdded
  refine hNotFound ?_
  rw [← hFst, ← hEq, overlaid_fst hOver]
  exact mem_map_of_mem hd

end Txn

/-! ## The refinement -/

/-- The node as a transaction sees it: reads through the overlay answer as reads
of the datastore of `w`. -/
structure TxnWorld.Agrees (x : TxnWorld) (w : World) : Prop where
  get : ∀ k, x.txn.get x.world.data k = w.data[k]?
  has : ∀ k, x.txn.has x.world.data k = w.data.contains k
  query : ∀ base keysOnly, newKey base = base → ∀ e,
    e ∈ x.query base keysOnly ↔ e ∈ (w.data.entries base).map (keyEntry keysOnly)

/-- Keys answer alike, hence so do the other reads. -/
lemma TxnWorld.agrees_of_get {x : TxnWorld}
    (h : ∀ k, x.txn.get x.world.data k = w.data[k]?) : x.Agrees w where
  get := h
  has k := by rw [Txn.has_eq, h, Std.ExtTreeMap.contains_eq_isSome_getElem?]
  query base keysOnly hBase e := by
    rw [TxnWorld.query, Txn.mem_query hBase, h, List.mem_map]
    constructor
    · rintro ⟨⟨v, hGet, hEq⟩, hUnder⟩
      exact ⟨(e.1, v), mem_entries.mpr ⟨hGet, hUnder⟩, hEq.symm⟩
    · rintro ⟨⟨k, v⟩, hMem, rfl⟩
      rw [Txn.keyEntry_fst]
      exact ⟨⟨v, (mem_entries.mp hMem).1, rfl⟩, (mem_entries.mp hMem).2⟩

/-- **But for their order, the answers are the same**: the puts of the overlay are listed
behind what the datastore has. -/
theorem TxnWorld.Agrees.query_perm {x : TxnWorld} (h : x.Agrees w) {base : List Seg}
    (hBase : newKey base = base) (keysOnly : Bool) :
    (x.query base keysOnly).Perm ((w.data.entries base).map (keyEntry keysOnly)) := by
  refine (perm_ext_iff_of_nodup Txn.nodup_query.of_map (Nodup.of_map fst ?_)).mpr (h.query base keysOnly hBase)
  rw [Txn.map_keyEntry_fst]
  exact nodup_of_pairwise (pairwise_select w.data _)

/-! ## What the batch records -/

lemma lastOp_snoc (k : Path) (v : Option Bytes) (a : Path) :
    lastOp (ops ++ [(k, v)]) a = if k = a then some v else lastOp ops a := by
  rw [lastOp, reverse_append]
  simp only [reverse_singleton, singleton_append, List.find?_cons, lastOp]
  by_cases h : k = a <;> simp [h]

/-- The batches and the overlay say the same. -/
structure Txn.Records (numParts : Nat) (t : Txn) : Prop where
  keyed : ∀ p, ∀ op ∈ t.batch p, partIdx numParts op.1 = p
  last : ∀ k, lastOp (t.batch (partIdx numParts k)) k =
    if t.dels.contains k then some none else t.puts[k]?.map some

namespace Txn

variable {numParts : Nat} {t : Txn}

lemma mem_record {k : Path} (h : op ∈ t.record numParts k v p) :
    op ∈ t.batch p ∨ p = partIdx numParts k ∧ op = (k, v) := by
  rw [record] at h
  exact mem_update_append h

lemma lastOp_record (numParts : Nat) (t : Txn) (k : Path) (v : Option Bytes) (a : Path) :
    lastOp (t.record numParts k v (partIdx numParts a)) a = if k =
    a then some v else lastOp (t.batch (partIdx numParts a)) a := by
  rw [record]
  by_cases hp : partIdx numParts a = partIdx numParts k
  · rw [hp, update_self, lastOp_snoc]
  · rw [update_of_ne hp, if_neg]
    exact fun hEq => hp (by rw [hEq])

variable (h : t.Records numParts)

include h

variable (k : Path)

lemma Records.keyed_record (v : Option Bytes) :
    ∀ p, ∀ op ∈ t.record numParts k v p, partIdx numParts op.1 = p := by
  intro p op hop
  rcases mem_record hop with hop | ⟨rfl, rfl⟩
  · exact h.keyed p op hop
  · rfl

lemma Records.put (v : Bytes) :
    (t.put numParts k v).Records numParts where
  keyed := h.keyed_record k (some v)
  last a := by
    have hRecord := lastOp_record numParts t k (some v) a
    rw [h.last] at hRecord
    simp only [Txn.put, hRecord, Std.ExtTreeMap.contains_eq_isSome_getElem?, lookup_erase, lookup_insert]
    by_cases hEq : k = a <;> simp [hEq]

lemma Records.del : (t.del numParts k).Records numParts where
  keyed := h.keyed_record k none
  last a := by
    have hRecord := lastOp_record numParts t k none a
    rw [h.last] at hRecord
    simp only [Txn.del, hRecord, Std.ExtTreeMap.contains_eq_isSome_getElem?, lookup_erase, lookup_insert]
    by_cases hEq : k = a <;> simp [hEq]

/-- What the overlay shows of a key is what the batches say of it last. -/
lemma Records.get_eq (data : Datastore) (k : Path) :
    t.get data k = match lastOp (t.batch (partIdx numParts k)) k with
      | some v => v
      | none => data[k]? := by
  rw [h.last, get]
  split
  · rfl
  · cases t.puts[k]? <;> rfl

/-- Committing the batches of some partitions. -/
lemma Records.commit {data data' : Datastore} (hCommit : CommitsAll t.batch order data data') (k : Path) :
    data'[k]? = if partIdx numParts k ∈ order then t.get data k else data[k]? := by
  induction hCommit with
  | nil data => simp
  | @cons p ps data data₁ data₂ hOne hRest ih =>
    rw [ih]
    by_cases hp : p = partIdx numParts k
    · -- this partition's: its batch says what becomes of the key, also a second time
      subst hp
      have hFirst : data₁[k]? = t.get data k := by rw [hOne, h.get_eq]
      have hAgain : t.get data₁ k = t.get data k := by
        rw [h.get_eq, h.get_eq data]
        cases hLast : lastOp (t.batch (partIdx numParts k)) k with
        | some v => rfl
        | none => rw [hFirst, h.get_eq, hLast]
      rw [if_pos mem_cons_self, hFirst, hAgain, ite_self]
    · -- another partition's: its batch does not mention the key
      have hNone : lastOp (t.batch p) k = none := by
        rw [lastOp, map_eq_none_iff, List.find?_eq_none]
        intro op hop hEq
        refine hp ?_
        rw [← of_decide_eq_true hEq]
        exact (h.keyed p op (mem_reverse.mp hop)).symm
      have hSame : data₁[k]? = data[k]? := by rw [hOne, hNone]
      have hGet : t.get data₁ k = t.get data k := by rw [h.get_eq, h.get_eq, hSame]
      rw [hGet, hSame]
      simp only [mem_cons, show ¬ partIdx numParts k = p from fun hEq => hp hEq.symm, false_or]

end Txn

/-! ## Whole transactions -/

/-- A transaction on the node `w₀` mirrors a node that has been written directly. -/
structure Mirrors (numParts : Nat) (w₀ : World) (x : TxnWorld) (w : World) : Prop where
  base : x.world.data = w₀.data
  get : ∀ k, x.txn.get x.world.data k = w.data[k]?
  records : x.txn.Records numParts
  clock : x.world.clock = w.clock
  now : x.world.now = w.now
  rand : x.world.rand = w.rand
  listSeq : x.listSeq = w.listSeq

lemma mirrors_begin (numParts : Nat) (w : World) : Mirrors numParts w (.begin w) w where
  base := rfl
  get _ := rfl
  records := ⟨fun _ _ h => (nomatch h), fun _ => rfl⟩
  clock := rfl
  now := rfl
  rand := rfl
  listSeq := rfl

/-- **Every call keeps the two alike.** -/
theorem Mirrors.step {numParts : Nat} (h : Mirrors numParts w₀ x w) (c : Call) :
    Mirrors numParts w₀ (TxnWorld.serve numParts c x).2 (serve c w).2 := by
  cases c with
  | get k => exact h
  | has k => exact h
  | query base keysOnly => exact h
  | put k v =>
    refine { h with records := h.records.put k v, get := fun a => ?_ }
    show (x.txn.put numParts k v).get x.world.data a = (w.data.insert k v)[a]?
    rw [Txn.get_put, lookup_insert, h.get]
  | del k =>
    refine { h with records := h.records.del k, get := fun a => ?_ }
    show (x.txn.del numParts k).get x.world.data a = (w.data.erase k)[a]?
    rw [Txn.get_del, lookup_erase, h.get]
  | stamp =>
    refine { h with clock := ?_ }
    show x.world.clock.now.2 = w.clock.now.2
    rw [h.clock]
  | nowMS =>
    refine { h with now := ?_ }
    show (fun i => x.world.now (i + 1)) = fun i => w.now (i + 1)
    rw [h.now]
  | nextSeq =>
    refine { h with listSeq := ?_ }
    show x.listSeq + 1 = w.listSeq + 1
    rw [h.listSeq]
  | random n =>
    refine { h with rand := ?_ }
    show (fun i => x.world.rand (i + 1)) = fun i => w.rand (i + 1)
    rw [h.rand]
  | lock k => exact h
  | unlock k => exact h

/-- What a sequence of calls makes of a state. -/
def served {σ : Type} (h : Prog.Handler Call Answer σ) (calls : List Call) (s : σ) : σ :=
  calls.foldl (fun s c => (h c s).2) s

lemma mirrors_served (numParts : Nat) (w : World) (calls : List Call) :
    Mirrors numParts w (served (TxnWorld.serve numParts) calls (.begin w)) (served serve calls w) := by
  have hRun : ∀ x w', Mirrors numParts w x w' → Mirrors numParts w (served (TxnWorld.serve numParts) calls x)
        (served serve calls w') := by
    induction calls with
    | nil => exact fun _ _ h => h
    | cons c calls ih => exact fun x w' h => ih _ _ (h.step c)
  exact hRun _ _ (mirrors_begin numParts w)

/-- **Transactions refine the store.** After any calls, reads through the overlay
answer as reads of the datastore to which the writes went directly, and the
commit, partition by partition, makes it the datastore. -/
theorem transaction_refines_store (numParts : Nat) (w : World) (calls : List Call) :
    (served (TxnWorld.serve numParts) calls (.begin w)).Agrees (served serve calls w) ∧ ∀ order data',
    (∀ p, (served (TxnWorld.serve numParts) calls (.begin w)).txn.batch p ≠ [] → p ∈ order) →
    CommitsAll (served (TxnWorld.serve numParts) calls (.begin w)).txn.batch order w.data data' → data' =
    (served serve calls w).data := by
  have hMirrors := mirrors_served numParts w calls
  refine ⟨TxnWorld.agrees_of_get hMirrors.get, fun order data' hOrder hCommit => ?_⟩
  refine Std.ExtTreeMap.ext_getElem? fun k => ?_
  rw [hMirrors.records.commit hCommit, ← hMirrors.get, hMirrors.base]
  split
  · rfl
  · next hNot =>
    -- nothing was recorded for the partition
    have hEmpty : (served (TxnWorld.serve numParts) calls (.begin w)).txn.batch (partIdx numParts k) = [] :=
      Decidable.byContradiction fun hNe => hNot (hOrder _ hNe)
    rw [hMirrors.records.get_eq, hEmpty]
    rfl

private def swapMember (name : UInt8) : Path := [.bucket 7, .word .d, .db 0, .enc [107], .word .e, .enc [name]]

private def swapWorld : World :=
  { data := (∅ : Datastore).insert (swapMember 97) [1], clock := { wall := fun _ => 5 }, now := fun _ => 5 }

/-- A member is replaced by another. -/
theorem replaced_member_is_committed :
    ∃ data', CommitsAll (served (TxnWorld.serve 1) [.put (swapMember 98) [1], .del (swapMember 97)]
        (.begin swapWorld)).txn.batch [0] swapWorld.data data' ∧
      data'[swapMember 97]? = none ∧ data'[swapMember 98]? = some [1] := by
  have hBatch : ∀ p, (served (TxnWorld.serve 1) [.put (swapMember 98) [1], .del (swapMember 97)]
      (.begin swapWorld)).txn.batch p = if p = 0 then [(swapMember 98, some [1]), (swapMember 97, none)] else [] := by
    intro p
    by_cases hp : p = 0
    · subst hp
      rfl
    · simp [served, TxnWorld.serve, Txn.put, Txn.del, Txn.record, partIdx, TxnWorld.begin, hp, Nat.mod_one]
  have hCommit : CommitsAll (served (TxnWorld.serve 1) [.put (swapMember 98) [1], .del (swapMember 97)]
      (.begin swapWorld)).txn.batch [0] swapWorld.data ((swapWorld.data.insert (swapMember 98) [1]).erase (swapMember 97)) := by
    refine .cons (fun k => ?_) (.nil _)
    rw [hBatch, if_pos rfl, lookup_erase, lookup_insert]
    simp only [lastOp, reverse_cons, reverse_nil, nil_append, cons_append, List.find?_cons, List.find?_nil]
    by_cases h97 : swapMember 97 = k <;> by_cases h98 : swapMember 98 = k <;> simp [h97, h98]
  have hData := (transaction_refines_store 1 swapWorld [.put (swapMember 98) [1], .del (swapMember 97)]).2 [0] _
    (fun p hp => by
      rw [hBatch] at hp
      by_cases h0 : p = 0
      · simp [h0]
      · simp [h0] at hp) hCommit
  refine ⟨_, hCommit, ?_, ?_⟩ <;> rw [hData] <;> decide

end RedGeo.Repo
