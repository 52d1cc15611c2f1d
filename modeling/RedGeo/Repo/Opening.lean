import RedGeo.Repo.Moves
import RedGeo.Repo.Sketches

/-!
# RedGeo — opening a sketch

Commands on a sketch first read the metadata and the parameters of the key. All replicas
use the same parameters here, so that whatever has arrived, a command finds these or none.

* `finds_sketchOpen` — what a command finds, whatever arrives while it reads.
* `exec_sketchOpen` — what a read finds where the parameters are there.
* `View.Sketched` — what has been put of metadata and parameters, in every run.
-/

namespace RedGeo.Repo

open Lib Store List

/-! ## Prefixes without empty names -/

/-- A prefix that `ds.NewKey` leaves as it is. -/
def Clean (base : List Seg) : Prop := newKey base = base

lemma clean_dataBase (hKey : key ≠ []) (db : Int64) (h : Clean rest) : Clean (dataBase db key ++ rest) := by
  have hEnc : Seg.enc key ≠ .enc [] := fun hEq => hKey (Seg.enc.inj hEq)
  rw [Clean, newKey] at h ⊢
  rw [filter_append, h]
  simp [dataBase, Store.part, hEnc]

lemma Clean.slotKey (h : Clean base) (o : Replica) : slotKey base o = base ++ [.enc o.name] := by
  have hEnc : Seg.enc o.name ≠ .enc [] := fun hEq => o.nonempty (Seg.enc.inj hEq)
  rw [Store.slotKey, newKey, filter_append, show base.filter (· ≠ .enc []) = base from h]
  simp [hEnc]

/-- A slot is below the prefixes of its base. -/
lemma under_slotKey_iff (h : Clean base) (h' : Clean base') (o : Replica) :
    Under base (slotKey base' o) ↔ base <+: base' := by
  rw [Under, show newKey base = base from h, h'.slotKey, prefix_concat_iff]
  constructor
  · rintro ⟨hEq | hPrefix, hNe⟩
    · exact absurd hEq.symm hNe
    · exact hPrefix
  · intro hPrefix
    refine ⟨.inr hPrefix, fun hEq => ?_⟩
    have hLength := hPrefix.length_le
    rw [← hEq, length_append, length_singleton] at hLength
    omega

lemma slot_ne_of_under (h : Under base k) (h' : ¬ Under base k') : k ≠ k' := by
  rintro rfl
  exact h' h

/-! ## Parameters -/

/-- What the metadata of a sketch say. -/
def IsSketch (kind : UInt8) (m : MetaEnvelope) : Prop := m = (sketchKind kind).envelope 0

lemma spaceOf_sketch (kind : UInt8) : spaceOf ((sketchKind kind).envelope 0) = some .sketch := by
  rw [sketchKind]
  split
  · rfl
  · split <;> rfl

/-- All slots of the parameters say the same. -/
def ParamSlots (db : Int64) (key : Bytes) (kind : UInt8) (raw : Bytes) : Datastore → Prop :=
  SlotsAre (sketchParamsBase db key) fun value => value = kind :: raw

/-- The questions that are asked to open a sketch. -/
def Opens (db : Int64) (key : Bytes) (a : Ask) : Prop :=
  a = .query (metaBase db key) false ∨ a = .query (sketchParamsBase db key) false

/-- The parameters as they are read. -/
def paramsOf (kind : UInt8) (raw : Bytes) : SketchParams := ⟨kind, raw, fnv64a (kind :: raw)⟩

section

variable {F : Datastore → Prop}

/-- The parameters that are read are these. -/
lemma ParamSlots.liveValue (h : ParamSlots db key kind raw data) :
    Store.liveValue (slotsAt data (sketchParamsBase db key)) = none ∨
    Store.liveValue (slotsAt data (sketchParamsBase db key)) = some (kind :: raw) := by
  rw [Store.liveValue]
  split
  · exact .inl rfl
  · next sl o hWinner =>
    obtain ⟨hTag, hValue⟩ := h.of_winner hWinner
    rw [hTag, hValue]
    exact .inr rfl

/-- They are there once there is a slot. -/
lemma ParamSlots.liveValue_of_slot (h : ParamSlots db key kind raw data)
    (hUnder : Under (sketchParamsBase db key) k) (hSome : (data[k]?).isSome) :
    Store.liveValue (slotsAt data (sketchParamsBase db key)) = some (kind :: raw) := by
  obtain ⟨sl, o, hWinner⟩ := h.exists_winner hUnder hSome
  obtain ⟨hTag, hValue⟩ := h.of_winner hWinner
  rw [Store.liveValue, hWinner]
  show (if sl.tag = tagDeleted then none else some sl.value) = _
  rw [hTag, hValue]
  rfl

/-- Where parameters are read, there is a slot. -/
lemma exists_entry_of_liveValue
    (h : Store.liveValue (slotsAt data base) = some value) : ∃ e, e ∈ data.entries base := by
  by_contra hNone
  have hNil : data.entries base = [] := eq_nil_iff_forall_not_mem.mpr fun e he => hNone ⟨e, he⟩
  rw [slotsAt_eq_nil hNil] at h
  cases h

lemma finds_readSketchParams (hF : ∀ data, F data → ParamSlots db key kind raw data) :
    Finds db key (Opens db key) F (fun known' out => known ⊆ known' ∧ ∃ found, out = .ok found ∧
        ∀ sp, found = some sp → sp = paramsOf kind raw ∧ Sighted (sketchParamsBase db key) known')
      (readSketchParams ⟨n, db⟩ key) known := by
  rw [readSketchParams, readSlots, Prog.bind_assoc]
  refine finds_query (.inr rfl) fun data hData _ => ?_
  rw [map_keyEntry_false]
  refine ⟨Set.subset_union_left, _, rfl, fun sp hsp => ?_⟩
  obtain hNone | hSome := (hF data hData).liveValue
  · change (Store.liveValue (slotsAt data (sketchParamsBase db key))).bind sketchParams = some sp at hsp
    rw [hNone] at hsp
    cases hsp
  · obtain ⟨e, he⟩ := exists_entry_of_liveValue hSome
    change (Store.liveValue (slotsAt data (sketchParamsBase db key))).bind sketchParams = some sp at hsp
    rw [hSome] at hsp
    cases hsp
    exact ⟨rfl, e.1, .inr ⟨e, he, rfl⟩, (Datastore.mem_entries.mp he).2⟩

/-- **What a command finds** when it opens a sketch. -/
theorem finds_sketchOpen (hF : ∀ data, F data → MetaSlots db key (IsSketch kind) data ∧ ParamSlots db key kind raw data) :
    Finds db key (Opens db key) F (fun known' out => ∃ found, out = .ok (found, 0) ∧
        ∀ sp, found = some sp → sp = paramsOf kind raw ∧ Sighted (metaBase db key) known' ∧
          Sighted (sketchParamsBase db key) known') (sketchOpen ⟨n, db⟩ key kind) known := by
  have hParams : ∀ data, F data → ParamSlots db key kind raw data := fun data hData => (hF data hData).2
  have hLive : SeesLive db key (Opens db key) F (IsSketch kind) n := by
    rintro m known rfl
    rw [isLive, spaceOf_sketch]
    refine finds_bind (finds_readSketchParams hParams) ?_ ?_
    · rintro known' found ⟨hSub, -⟩
      exact ⟨hSub, _, rfl⟩
    · rintro known' e ⟨-, found, hEq, -⟩
      cases hEq
  have hMeta : ∀ m, IsSketch kind m → m.type = (sketchKind kind).type ∧ m.etimeMS = 0 := by
    rintro m rfl
    exact ⟨rfl, rfl⟩
  refine finds_bind (finds_probe (.inl rfl) (fun data hData => (hF data hData).1) hMeta hLive) ?_ ?_
  · rintro known' found ⟨-, found', hEq, hFound⟩
    cases hEq
    cases found with
    | none => exact ⟨none, rfl, by simp⟩
    | some k =>
      obtain ⟨hType, hTime, hSighted⟩ := hFound k rfl
      show Finds db key (Opens db key) F _ (if k.type ≠ (sketchKind kind).type then _ else _) known'
      rw [if_neg (not_not_intro hType)]
      refine finds_bind (finds_readSketchParams hParams) ?_ ?_
      · rintro known'' found ⟨hSub, found', hEq, hParams⟩
        cases hEq
        refine ⟨found, by rw [hTime]; rfl, fun sp hsp => ?_⟩
        obtain ⟨rfl, hSeen⟩ := hParams sp hsp
        exact ⟨rfl, hSighted.mono hSub, hSeen⟩
      · rintro known'' e ⟨-, found, hEq, -⟩
        cases hEq
  · rintro known' e ⟨-, found, hEq, -⟩
    cases hEq

/-- **What a read finds** where metadata and parameters are there. -/
theorem exec_sketchOpen (hMeta : metaAt w.data ⟨n, db⟩ key = some ((sketchKind kind).envelope 0, mtime))
    (hParams : Store.liveValue (slotsAt w.data (sketchParamsBase db key)) = some (kind :: raw)) :
    (sketchOpen ⟨n, db⟩ key kind).exec w = (.ok (some (paramsOf kind raw), 0), w) := by
  have hNamed : namedLive ⟨n, db⟩ key w.data ((sketchKind kind).envelope 0) = true := by
    rw [namedLive, spaceOf_sketch]
    show ((Store.liveValue (slotsAt w.data (sketchParamsBase db key))).bind sketchParams).isSome = true
    rw [hParams]
    rfl
  have hProbe : (probe ⟨n, db⟩ key).exec w = (.ok (some ⟨key, (sketchKind kind).type, mtime, none⟩), w) := by
    rw [exec_probe, probeAt, World.probed, hMeta]
    simp only [hNamed]
    rfl
  have hRead : (readSketchParams ⟨n, db⟩ key).exec w = (.ok (some (paramsOf kind raw)), w) := by
    refine (read_bind (exec_readSlots (sketchParamsBase db key) w) _).trans ?_
    rw [hParams]
    rfl
  rw [sketchOpen, read_bind hProbe]
  show ReadM.exec (if (sketchKind kind).type ≠ (sketchKind kind).type then _ else _) w = _
  rw [if_neg (not_not_intro rfl), read_bind hRead]
  rfl

end

/-! ## Reservation -/

/-- A sketch is reserved, by a command that notes nothing of it. -/
lemma heeds_reserve {δ : Type} {rules : Rules S δ}
      {raw : Bytes} {known : Set Path} {d : δ}
    {post : Knows δ → Except Err Unit → Prop}
    (hTrust : ∀ known data, rules.Meets db key n c ⟨own, known, d⟩ data →
      MetaSlots db key (IsSketch kind) data ∧ ParamSlots db key kind raw data)
    (hAsk : ∀ a : Ask, Opens db key a → ∀ x, rules.note d a.call x = d)
    (hParams : ∀ own st, rules.may n c own d (slotKey (sketchParamsBase db key) n)
      (encodeSlot ⟨st, tagPresent, kind :: raw⟩))
    (hMeta : ∀ own st, rules.may n c own d (slotKey (metaBase db key) n)
      (encodeSlot ⟨st, tagPresent, encodeMeta ((sketchKind kind).envelope 0)⟩))
    (hPutParams : ∀ v x, rules.note d (.put (slotKey (sketchParamsBase db key) n) v) x = d)
    (hPutMeta : ∀ v x, rules.note d (.put (slotKey (metaBase db key) n) v) x = d)
    (hPost : ∀ own known out, post ⟨own, known, d⟩ out) :
    (Db.on ⟨n, db⟩ key (sketchReserve ⟨n, db⟩ key kind raw)).Heeds (rules.protocol db key n c) post
      ⟨own, known, d⟩ := by
  refine heeds_read (finds_sketchOpen fun data hData => hData) (fun known data hMeets => hTrust known data hMeets)
    hAsk ?_ ?_
  · rintro known' found ⟨found', hEq, -⟩
    cases hEq
    cases found' with
    | some sp => exact hPost _ _ _
    | none =>
      show (Db.on ⟨n, db⟩ key (writeSketchParams kind raw 0 >>= fun _ => pure ())).Heeds _ _ _
      rw [writeSketchParams, Prog.bind_assoc]
      refine heeds_writeSlot (mine_slotKey db key [.word .s, .word .p] n) (fun st => hParams own st) fun v => ?_
      show (Db.on ⟨n, db⟩ key _).Heeds _ _ (Knows.mk _ _
        (rules.note d (.put (slotKey (sketchParamsBase db key) n) v) (.ok ())))
      rw [hPutParams, Prog.bind_assoc]
      refine heeds_writeMeta (fun st => hMeta _ st) fun v => ?_
      show (Db.on ⟨n, db⟩ key _).Heeds _ _ (Knows.mk _ _
        (rules.note d (.put (slotKey (metaBase db key) n) v) (.ok ())))
      rw [hPutMeta]
      exact hPost _ _ _
  · rintro known' e ⟨found, hEq, -⟩
    cases hEq

/-! ## Runs -/

section

variable {S : Service} {δ : Type} (db : Int64) (key : Bytes) (kind : UInt8) (raw : Bytes)

/-- A replica puts the parameters or the metadata. -/
def Announces (n : Replica) (k : Path) (val : Bytes) : Prop :=
  k = slotKey (sketchParamsBase db key) n ∧ (∃ st, val = encodeSlot ⟨st, tagPresent, kind :: raw⟩) ∨
  k = slotKey (metaBase db key) n ∧ ∃ st, val = encodeSlot ⟨st, tagPresent, encodeMeta ((sketchKind kind).envelope 0)⟩

/-- Nothing else has been put in their place. -/
structure View.Sketched (v : View S δ) : Prop where
  metas : v.Slotted (metaBase db key) fun value => ∃ m, IsSketch kind m ∧ value = encodeMeta m
  params : v.Slotted (sketchParamsBase db key) fun value => value = kind :: raw

variable {db : Int64} {key : Bytes} {kind : UInt8} {raw : Bytes} {rules : Rules S δ} {s : Net S} {d : Replica → δ}

lemma ofKey_of_params (h : Under (sketchParamsBase db key) k) : OfKey db key k :=
  .inr (under_of_append h)

lemma View.Sketched.init (d : Replica → δ) :
    View.Sketched db key kind raw (S := S) ⟨fun _ => [], fun _ => none, d⟩ :=
  ⟨fun _ _ _ hMem => (nomatch hMem), fun _ _ _ hMem => (nomatch hMem)⟩

lemma View.Sketched.move (h : (s.view d).Sketched db key kind raw)
    (hMove : s.Move db key rules d a v)
    (hMay : ∀ n c own d k val, rules.may n c own d k val → Announces db key kind raw n k val ∨
      ¬ Under (metaBase db key) k ∧ ¬ Under (sketchParamsBase db key) k) : v.Sketched db key kind raw := by
  refine ⟨h.metas.move hMove fun n c k val _ _ hPut hUnder => ?_, h.params.move hMove fun n c k val _ _ hPut hUnder => ?_⟩
  · obtain (⟨rfl, -⟩ | ⟨rfl, st, rfl⟩) | ⟨hNot, -⟩ := hMay _ _ _ _ _ _ hPut
    · exact absurd hUnder (not_under_dataSlot db key [.word .s, .word .p] n)
    · exact ⟨n, st, _, rfl, ⟨_, rfl, rfl⟩, rfl⟩
    · exact absurd hUnder hNot
  · obtain (⟨rfl, st, rfl⟩ | ⟨rfl, -⟩) | ⟨-, hNot⟩ := hMay _ _ _ _ _ _ hPut
    · exact ⟨n, st, _, rfl, rfl, rfl⟩
    · exact absurd hUnder (not_under_metaSlot db key [.word .s, .word .p] n)
    · exact absurd hUnder hNot

namespace Net.Kept

variable (hKept : s.Kept db key rules d) (h : (s.view d).Sketched db key kind raw) (n : Replica)

include hKept h

lemma metaSlots : MetaSlots db key (IsSketch kind) (s.world n).data :=
  hKept.slotsAre h.metas (fun _ hk => .inl hk) n

lemma paramSlots : ParamSlots db key kind raw (s.world n).data :=
  hKept.slotsAre h.params (fun _ hk => ofKey_of_params hk) n

/-- **What a read finds** where everything has arrived. -/
theorem exec_open {n : Replica} (hDelivered : s.Delivered db key n) (hMeta : (s.view d).Has (metaBase db key))
    (hParams : (s.view d).Has (sketchParamsBase db key)) :
    (sketchOpen ⟨n, db⟩ key kind).exec (s.world n) = (.ok (some (paramsOf kind raw), 0), s.world n) := by
  obtain ⟨k, hUnder, hSome⟩ := hKept.exists_of_has hDelivered hMeta fun _ hk => .inl hk
  obtain ⟨m, mtime, hMetaAt⟩ := (hKept.metaSlots h n).exists_metaAt (n := n) hUnder hSome
  have hIs : m = (sketchKind kind).envelope 0 := (hKept.metaSlots h n).of_metaAt hMetaAt
  obtain ⟨k', hUnder', hSome'⟩ := hKept.exists_of_has hDelivered hParams fun _ hk => ofKey_of_params hk
  exact exec_sketchOpen (hIs ▸ hMetaAt) ((hKept.paramSlots h n).liveValue_of_slot hUnder' hSome')

end Net.Kept

end

end RedGeo.Repo
