import RedGeo.Repo.Components
import RedGeo.Repo.Methods
import RedGeo.Repo.Net

/-!
# RedGeo — counters

`INCRBY` on one key at any number of replicas (`crdtstore/counter.go`). Each replica adds
to its own component, the running total of what it has added; the value is the sum of the
components that are there.

* `keeps_incr` — what `INCRBY` puts, and what it replies.
-/

namespace RedGeo.Repo

open Lib Store Function List Option Int64 Kind

/-! ## Adding up components -/

/-- The component in an entry. -/
def intComponent (base : List Seg) (e : Path × Bytes) : Option (Bytes × Int64) :=
  match trimPrefix base e.1, parseInt e.2 with
  | [.enc replica], some n => some (replica, n)
  | _, _ => none

/-- What `counterComponentsInt` makes of the entries. -/
def intComponents (base : List Seg) (entries : List (Path × Bytes)) : List (Bytes × Int64) :=
  (Dict.ofPairs (entries.filterMap (intComponent base))).pairs

lemma sumInt_eq (comps : List (Bytes × Int64)) :
    sumInt comps = ofInt ((comps.map fun c => c.2.toInt).sum) := by
  have hFold : ∀ (comps : List (Bytes × Int64)) (acc : Int64),
      comps.foldl (fun sum c => sum + c.2) acc = acc + ofInt ((comps.map fun c => c.2.toInt).sum) := by
    intro comps
    induction comps with
    | nil => intro acc; simp
    | cons c comps ih =>
      intro acc
      rw [foldl_cons, ih, map_cons, sum_cons, Int64.ofInt_add, Int64.ofInt_toInt, Int64.add_assoc]
  rw [sumInt, hFold, Int64.zero_add]

section

variable (db : Int64) (key : Bytes)

/-- Where the component of a replica is. -/
def counterSlot (o : Replica) : Path := slotKey (counterBase db key) o

/-- The component of a replica. -/
def componentAt (data : Datastore) (o : Replica) : Option Int64 :=
  (data[counterSlot db key o]?).bind parseInt

/-- The components that are read. -/
abbrev compsIn (data : Datastore) : List (Bytes × Int64) :=
  intComponents (counterBase db key) (data.entries (counterBase db key))

/-- All components are numbers of replicas in `R`. -/
def Counted (R : Finset Replica) (data : Datastore) : Prop :=
  ∀ k v, Under (counterBase db key) k → data[k]? = some v →
    ∃ o ∈ R, k = counterSlot db key o ∧ ∃ t : Int64, v = formatInt t.toInt

end

section

variable {key : Bytes}

lemma mine_counterSlot (o : Replica) : Mine db key o (counterSlot db key o) :=
  mine_slotKey db key [.word .c] o

lemma under_counterSlot (o : Replica) : Under (counterBase db key) (counterSlot db key o) := under_slotKey _ o

lemma counterSlot_ne_meta (db : Int64) (key : Bytes) (o n : Replica) :
    counterSlot db key o ≠ slotKey (metaBase db key) n := by
  intro hEq
  have hUnder : Under (counterBase db key) (counterSlot db key o) := under_counterSlot o
  rw [hEq] at hUnder
  exact not_under_metaSlot db key _ n hUnder

variable (hKey : key ≠ [])

include hKey

lemma intComponent_slot (o : Replica) (v : Bytes) :
    intComponent (counterBase db key) (counterSlot db key o, v) = (parseInt v).map fun t => (o.name, t) := by
  have hTrim : trimPrefix (counterBase db key) (counterSlot db key o) = [.enc o.name] :=
    trimPrefix_slotKey hKey .c o
  rw [intComponent, hTrim]
  cases parseInt v <;> rfl

/-- The components, by replica. -/
lemma Counted.enumerates (h : Counted db key R data) :
    Enumerates R (fun o => (componentAt db key data o).map fun t => (o.name, t)) (compsIn db key data) := by
  -- what an entry of a replica is made into
  have hNamed : ∀ o : Replica, (componentAt db key data o).map (fun t => (o.name, t)) =
      (data[counterSlot db key o]?).bind fun v => intComponent (counterBase db key) (counterSlot db key o, v) := by
    intro o
    simp only [intComponent_slot hKey, componentAt, map_bind]
    rfl
  have hMem : ∀ c, c ∈ (data.entries (counterBase db key)).filterMap (intComponent (counterBase db key)) ↔
      ∃ o ∈ R, (componentAt db key data o).map (fun t => (o.name, t)) = some c := by
    intro c
    simp only [mem_filterMap, hNamed]
    constructor
    · rintro ⟨⟨k, v⟩, he, hc⟩
      obtain ⟨hv, hUnder⟩ := Datastore.mem_entries.mp he
      obtain ⟨o, ho, rfl, -⟩ := h k v hUnder hv
      exact ⟨o, ho, bind_eq_some_iff.mpr ⟨v, hv, hc⟩⟩
    · rintro ⟨o, ho, hc⟩
      obtain ⟨v, hv, hc⟩ := bind_eq_some_iff.mp hc
      exact ⟨_, Datastore.mem_entries.mpr ⟨hv, under_slotKey _ o⟩, hc⟩
  have hName : ∀ (o : Replica) (c : Bytes × Int64),
      (componentAt db key data o).map (fun t => (o.name, t)) = some c → c.1 = o.name := by
    intro o c hc
    obtain ⟨t, -, rfl⟩ := map_eq_some_iff.mp hc
    rfl
  have hInj : ∀ (i j : Replica) (c c' : Bytes × Int64),
      (componentAt db key data i).map (fun t => (i.name, t)) = some c →
      (componentAt db key data j).map (fun t => (j.name, t)) = some c' → c.1 = c'.1 → i = j := by
    intro i j c c' hi hj hEq
    exact Replica.ext ((hName i c hi).symm.trans (hEq.trans (hName j c' hj)))
  refine ⟨(Dict.nodup_pairs _).of_map _, fun c => ?_, fun i _ j _ c hi hj => hInj i j c c hi hj rfl⟩
  rw [compsIn, intComponents, Dict.mem_ofPairs_iff, hMem]
  intro c hc c' hc' hEq
  obtain ⟨i, -, hi⟩ := (hMem c).mp hc
  obtain ⟨j, -, hj⟩ := (hMem c').mp hc'
  obtain rfl := hInj i j c c' hi hj hEq
  exact some.inj (hi.symm.trans hj)

/-- The replica's own component. -/
lemma Counted.lookup (h : Counted db key R data) (n : Replica) :
    (compsIn db key data).lookup n.name = componentAt db key data n := by
  rw [compsIn, intComponents, Dict.lookup_pairs]
  refine Option.ext fun t => ?_
  rw [← Dict.mem_pairs]
  refine ((h.enumerates hKey).mem_iff (n.name, t)).trans ?_
  constructor
  · rintro ⟨o, -, ho⟩
    obtain ⟨t', ht, hEq⟩ := map_eq_some_iff.mp ho
    obtain ⟨hName, rfl⟩ := Prod.mk.inj hEq
    rwa [Replica.ext hName] at ht
  · intro ht
    obtain ⟨v, hv, -⟩ := bind_eq_some_iff.mp ht
    obtain ⟨o, ho, hSlot, -⟩ := h _ v (under_slotKey _ n) hv
    rw [← slotKey_injective _ hSlot] at ho
    exact ⟨n, ho, by rw [ht]; rfl⟩

lemma Counted.sum (h : Counted db key R data) :
    sumInt (compsIn db key data) = ofInt (∑ o ∈ R, (componentAt db key data o).elim 0 toInt) := by
  rw [sumInt_eq, (h.enumerates hKey).sum_map]
  refine congrArg ofInt (Finset.sum_congr rfl fun o _ => ?_)
  cases componentAt db key data o <;> rfl

lemma Counted.sum_others (h : Counted db key R data) (n : Replica) :
    sumInt ((compsIn db key data).filter fun c => c.1 ≠ n.name) =
    ofInt (∑ o ∈ R.erase n, (componentAt db key data o).elim 0 toInt) := by
  have hEnum := h.enumerates hKey
  have hOthers : Enumerates (R.erase n) (fun o => (componentAt db key data o).map fun t => (o.name, t))
      ((compsIn db key data).filter fun c => c.1 ≠ n.name) := by
    refine ⟨hEnum.nodup.filter _, fun c => ?_, fun i hi j hj =>
      hEnum.inj i (Finset.mem_of_mem_erase hi) j (Finset.mem_of_mem_erase hj)⟩
    rw [mem_filter, hEnum.mem_iff, decide_eq_true_iff]
    constructor
    · rintro ⟨⟨o, ho, hc⟩, hNe⟩
      refine ⟨o, Finset.mem_erase.mpr ⟨?_, ho⟩, hc⟩
      rintro rfl
      obtain ⟨t, -, rfl⟩ := map_eq_some_iff.mp hc
      exact hNe rfl
    · rintro ⟨o, ho, hc⟩
      obtain ⟨hNe, ho⟩ := Finset.mem_erase.mp ho
      refine ⟨⟨o, ho, hc⟩, fun hName => hNe ?_⟩
      obtain ⟨t, -, rfl⟩ := map_eq_some_iff.mp hc
      exact Replica.ext hName
  rw [sumInt_eq, hOthers.sum_map]
  refine congrArg ofInt (Finset.sum_congr rfl fun o _ => ?_)
  cases componentAt db key data o <;> rfl

end

/-! ## The command -/

section

variable (db : Int64) (key : Bytes) (R : Finset Replica)

/-- `INCRBY` on the key. -/
abbrev counterService : Service where
  Cmd := Int64
  Out _ := Int64
  program n delta := (Method.str (.incr key delta)).program ⟨n, db⟩

/-- What `INCRBY` knows: the components that it has read, and whether it has put its own. -/
structure Counting where
  heard : Option (List (Path × Bytes)) := none
  wrote : Bool := false

def Counting.note (d : Counting) : (op : Call) → Answer op → Counting
  | .query base false, .ok entries => if base = counterBase db key then { d with heard := some entries } else d
  | .put k _, _ => if Under (counterBase db key) k then { d with wrote := true } else d
  | _, _ => d

/-- The running total of a replica. -/
def ownTotal (n : Replica) (own : Path → Option Bytes) : Int64 :=
  ((own (counterSlot db key n)).bind parseInt).getD 0

/-- What the metadata of a counter say. -/
def IsCounter (m : MetaEnvelope) : Prop := m = Kind.counter.envelope 0

/-- `INCRBY` adds to its replica's component once and says that the key is a counter. It
replies with the sum of the others' components that it has read and the new one of its
own. -/
def counterRules : Rules (counterService db key) Counting where
  init _ := {}
  note := Counting.note db key
  note_silent d op x hOp := by cases op <;> first | rfl | exact hOp.elim
  trust _ _ _ data := MetaSlots db key IsCounter data ∧ Counted db key R data
  may n (delta : Int64) own d k v :=
    k = counterSlot db key n ∧ d.wrote = false ∧ v = formatInt (ownTotal db key n own + delta).toInt ∨
    k = slotKey (metaBase db key) n ∧ ∃ st m, IsCounter m ∧ v = encodeSlot ⟨st, tagPresent, encodeMeta m⟩
  post n _ g out := (g.own (slotKey (metaBase db key) n)).isSome ∧
    ∃ entries, g.notes.heard = some entries ∧ g.notes.wrote = true ∧
      out = .ok (sumInt ((intComponents (counterBase db key) entries).filter fun c => c.1 ≠ n.name) +
      ownTotal db key n g.own)

end

section

variable {db : Int64} {key : Bytes} (d : Counting)

lemma note_put (hk : Under (counterBase db key) k) (v : Bytes)
    (x : Answer (.put k v)) : d.note db key (.put k v) x = { d with wrote := true } := if_pos hk

lemma note_put_of_not (hk : ¬ Under (counterBase db key) k) (v : Bytes)
    (x : Answer (.put k v)) : d.note db key (.put k v) x = d := if_neg hk

lemma note_query (entries : List (Path × Bytes)) :
    d.note db key (.query (counterBase db key) false) (.ok entries) = { d with heard := some entries } :=
  if_pos rfl

/-- The questions that `INCRBY` takes no notes of. -/
def Unnoted (db : Int64) (key : Bytes) (a : Ask) : Prop := a ≠ .query (counterBase db key) false

lemma note_unnoted (ha : Unnoted db key a) (x : Answer a.call) : d.note db key a.call x = d := by
  cases a with
  | query base keysOnly =>
    cases keysOnly with
    | true => rfl
    | false =>
      have hBase : base ≠ counterBase db key := fun hEq => ha (by rw [hEq])
      cases x with
      | error e => rfl
      | ok entries => exact if_neg hBase
  | _ => rfl

/-- Metadata are not components. -/
lemma unnoted_meta : Unnoted db key (.query (metaBase db key) false) := by
  intro hEq
  injection hEq with hBase
  simp [metaBase, counterBase, dataBase] at hBase

section

variable {F : Datastore → Prop}

lemma finds_counterFlavorCheck (hF : ∀ data, F data → MetaSlots db key IsCounter data) :
    Finds db key (Unnoted db key) F (fun _ out => out = .ok ())
      (counterFlavorCheck ⟨n, db⟩ key flavorCounter) known := by
  have hLive : SeesLive db key (Unnoted db key) F IsCounter n := by
    rintro m known rfl
    exact finds_anyPrefix (by simp [Unnoted])
  have hCounter : ∀ m, IsCounter m → m.type = typeString ∧ m.etimeMS = 0 := by
    rintro m rfl
    exact ⟨rfl, rfl⟩
  refine finds_bind (finds_probe unnoted_meta hF hCounter hLive) ?_ ?_
  · rintro known' found ⟨-, found', hEq, hFound⟩
    cases hEq
    cases found with
    | none => rfl
    | some k =>
      obtain ⟨hType, -, hSighted⟩ := hFound k rfl
      show Finds db key (Unnoted db key) F _ (if k.type ≠ typeString then _ else _) known'
      rw [if_neg (not_not_intro hType)]
      -- the metadata are still there
      rw [flavorOf, Prog.bind_assoc]
      refine finds_bind (finds_readMeta unnoted_meta hF) ?_ ?_
      · rintro known'' found ⟨-, found', hEq, hMeta, hSome⟩
        cases hEq
        cases found with
        | none => exact absurd rfl (hSome hSighted)
        | some e =>
          obtain ⟨m, mtime⟩ := e
          have hIs : m = counter.envelope 0 := (hMeta m mtime rfl).1
          subst hIs
          rfl
      · rintro known'' e ⟨-, found, hEq, -⟩
        cases hEq
  · rintro known' e ⟨-, found, hEq, -⟩
    cases hEq

lemma finds_keepETime (hF : ∀ data, F data → MetaSlots db key IsCounter data) :
    Finds db key (Unnoted db key) F (fun _ out => out = .ok 0) (keepETime ⟨n, db⟩ key) known := by
  refine finds_bind (finds_readMeta unnoted_meta hF) ?_ ?_
  · rintro known' found ⟨-, found', hEq, hMeta, -⟩
    cases hEq
    cases found with
    | none => rfl
    | some e =>
      obtain ⟨m, mtime⟩ := e
      have hIs : m = counter.envelope 0 := (hMeta m mtime rfl).1
      subst hIs
      rfl
  · rintro known' e ⟨-, found, hEq, -⟩
    cases hEq

end

/-- What `INCRBY` has come to once the component and the metadata are put. -/
lemma post_incr (n : Replica) (delta t : Int64) (own : Path → Option Bytes) (v : Bytes)
    (entries : List (Path × Bytes)) (known : Set Path) : (counterRules db key R).post n delta
      ⟨update (update own (counterSlot db key n) (some (formatInt t.toInt)))
        (slotKey (metaBase db key) n) (some v), known, ⟨some entries, true⟩⟩
      (.ok (sumInt ((intComponents (counterBase db key) entries).filter fun c => c.1 ≠ n.name) + t)) := by
  -- the metadata are not the component
  have hNe : counterSlot db key n ≠ slotKey (metaBase db key) n := by
    intro hEq
    have hUnder : Under (counterBase db key) (counterSlot db key n) := under_counterSlot n
    rw [hEq] at hUnder
    exact not_under_metaSlot db key _ n hUnder
  refine ⟨isSome_of_eq_some (update_self _ _ _), entries, rfl, rfl, ?_⟩
  show Except.ok (_ + t) = Except.ok (_ + ownTotal db key n (update _ (slotKey (metaBase db key) n) _))
  rw [ownTotal, update_of_ne hNe, update_self, bind_some, parseInt_formatInt]
  rfl

/-- **What `INCRBY` does**, whatever arrives while it runs. -/
theorem keeps_incr (hKey : key ≠ []) (n : Replica) (delta : Int64) (own : Path → Option Bytes) :
    (counterRules db key R).Keeps db key n delta ((counterService db key).program n delta) ⟨own, ∅, {}⟩ := by
  refine heeds_withLock ?_
  refine heeds_read (finds_counterFlavorCheck fun data hData => hData) (fun _ data hMeets => hMeets.2.2.1)
    (fun a ha => note_unnoted _ ha) ?_ fun known e hEq => (nomatch hEq)
  rintro known _ -
  refine heeds_read (finds_keepETime fun data hData => hData) (fun _ data hMeets => hMeets.2.2.1)
    (fun a ha => note_unnoted _ ha) ?_ fun known e hEq => (nomatch hEq)
  rintro known etime hTime
  cases hTime
  refine heeds_load fun data hMeets => ?_
  obtain ⟨hOwn, -, -, hCounted⟩ := hMeets
  -- its own component is what the replica has put last
  have hMine : Mine db key n (counterSlot db key n) := mine_counterSlot n
  have hLookup : (compsIn db key data).lookup n.name = (own (counterSlot db key n)).bind parseInt := by
    rw [hCounted.lookup hKey, componentAt, ← show ownOf db key n data = own from hOwn, ownOf_of_mine hMine]
  show (Db.on ⟨n, db⟩ key (do
    putComp .counter (formatInt
      (((compsIn db key data).lookup n.name).getD 0 + delta).toInt)
    writeMeta .counter 0
    pure (sumInt ((compsIn db key data).filter fun c => c.1 ≠ n.name) +
      (((compsIn db key data).lookup n.name).getD 0 + delta)))).Heeds
    _ _ (Knows.mk own _
      (Counting.note db key {} (.query (counterBase db key) false) (.ok (data.entries (counterBase db key)))))
  rw [hLookup, note_query]
  obtain ⟨t, ht⟩ : ∃ t, ownTotal db key n own + delta = t := ⟨_, rfl⟩
  rw [← ownTotal, ht]
  refine heeds_putComp hMine (.inl ⟨rfl, rfl, by rw [ht]⟩) ?_
  show (Db.on ⟨n, db⟩ key _).Heeds _ _ (Knows.mk (update own (counterSlot db key n) _) _
    (Counting.note db key _ (.put (counterSlot db key n) (formatInt t.toInt)) (.ok ())))
  rw [note_put _ (under_counterSlot n)]
  refine heeds_writeMeta (fun st => .inr ⟨rfl, st, _, rfl, rfl⟩) fun v => ?_
  show (counterRules db key R).post n delta (Knows.mk
    (update (update own (counterSlot db key n) _) _ _) _
    (Counting.note db key _ (.put (slotKey (metaBase db key) n) v) (.ok ()))) _
  rw [note_put_of_not _ (not_under_metaSlot db key _ n)]
  exact post_incr n delta _ own v _ _

end

/-! ## Reading -/

lemma exec_counterSumInt : (counterSumInt ⟨n, db⟩ key).exec w = (.ok (sumInt (compsIn db key w.data)), w) :=
  read_bind (exec_load (counterBase db key) (intComponents (counterBase db key)) w) _

/-- What `GET` shows of a counter. -/
lemma exec_strGet_counter (hMeta : metaAt w.data ⟨n, db⟩ key = some (counter.envelope 0, mtime))
    (hLive : w.data.entries (counterBase db key) ≠ []) : ((strGet ⟨n, db⟩ key).exec w).1 =
      .ok (formatInt (sumInt (compsIn db key w.data)).toInt) := by
  have hNamed : namedLive ⟨n, db⟩ key w.data (counter.envelope 0) = true := by
    show (! (w.data.entries (counterBase db key)).isEmpty) = true
    rw [Bool.not_eq_true', isEmpty_eq_false_iff]
    exact hLive
  have hProbe : (probe ⟨n, db⟩ key).exec w = (.ok (some ⟨key, typeString, mtime, none⟩), w) := by
    rw [exec_probe, probeAt, World.probed, hMeta]
    simp only [hNamed]
    rfl
  have hFlavor : (flavorOf ⟨n, db⟩ key).exec w = (.ok (counter.envelope 0), w) := by
    refine (read_bind (exec_readMeta ⟨n, db⟩ key w) _).trans ?_
    rw [hMeta]
    rfl
  have hSum : (counterSumInt ⟨n, db⟩ key).exec w = _ := exec_counterSumInt
  rw [strGet, readValue, read_bind hProbe]
  show ((flavorOf ⟨n, db⟩ key >>= _ : ReadM Bytes).exec w).1 = _
  rw [read_bind hFlavor]
  show ((counterSumInt ⟨n, db⟩ key >>= _ : ReadM Bytes).exec w).1 = _
  rw [read_bind hSum]
  rfl

end RedGeo.Repo
