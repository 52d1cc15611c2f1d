import RedGeo.Lib.Dict
import RedGeo.Store.Keys
import RedGeo.Store.Slot

/-!
# RedGeo — registers in the datastore

The slot helpers of `crdtstore/store.go`, the metadata of `crdtstore/meta.go` and
`probe`. A register is a prefix (`base`) below which each replica has its slot;
a read queries the prefix and takes whatever below it decodes as a slot.

Neither the query nor the iteration over the Go map of candidates has an order
one may rely on. `Candidates` are all the orders in which a read may see what is
stored, and the results here are about every one of them.

* `mem_candidates` — what a read sees, in terms of the entries of the datastore.
* `winner_after_write` — when a slot just written is the one that is read.
-/

namespace RedGeo.Store

open Lib Dict List

/-- What the datastore holds. -/
abbrev Kv := Dict Path Bytes

/-! ## Reading slots -/

/-- What `readSlots` makes of one entry. Entries that do not decode are skipped. -/
def slotOf (base : List Seg) (e : Path × Bytes) : Option (Bytes × Slot) :=
  if Under base e.1 then
    match replicaOf e.1, decodeSlot e.2 with
    | some replica, .ok sl => some (replica, sl)
    | _, _ => none
  else none

/-- `readSlots`, of the entries in the order of the query. -/
def readSlots (base : List Seg) (entries : List (Path × Bytes)) : Dict Bytes Slot :=
  .ofPairs (entries.filterMap (slotOf base))

/-- The candidates of a register in an order in which they may be iterated. -/
def Candidates (kv : Kv) (base : List Seg) (cands : List (Bytes × Slot)) : Prop :=
  ∃ entries, entries.Perm kv.pairs ∧ cands.Perm (readSlots base entries).pairs

section

variable {kv : Kv} {base : List Seg} {cands : List (Bytes × Slot)}

variable (h : Candidates kv base cands)

include h

lemma Candidates.nodup : (cands.map Prod.fst).Nodup := by
  obtain ⟨entries, -, hPerm⟩ := h
  exact (hPerm.map Prod.fst).nodup_iff.mpr (nodup_pairs _)

/-- Every candidate is an entry of the datastore. -/
lemma Candidates.entry (hc : c ∈ cands) : ∃ e ∈ kv.pairs, slotOf base e = some c := by
  obtain ⟨entries, hEntries, hPerm⟩ := h
  have hSeen := mem_of_mem_ofPairs (hPerm.mem_iff.mp hc)
  obtain ⟨e, he, hSlot⟩ := mem_filterMap.mp hSeen
  exact ⟨e, hEntries.mem_iff.mp he, hSlot⟩

/-- **What a read sees**: an entry that no other of the same replica hides. -/
theorem mem_candidates (he : e ∈ kv.pairs) (hSlot : slotOf base e = some c)
    (hOnly : ∀ e' ∈ kv.pairs, ∀ c' ∈ slotOf base e', c'.1 = c.1 → c' = c) : c ∈ cands := by
  obtain ⟨entries, hEntries, hPerm⟩ := h
  refine hPerm.mem_iff.mpr (mem_ofPairs ?_ ?_)
  · exact mem_filterMap.mpr ⟨e, hEntries.mem_iff.mpr he, hSlot⟩
  · intro c' hc' hKey
    obtain ⟨e', he', hSlot'⟩ := mem_filterMap.mp hc'
    exact hOnly e' (hEntries.mem_iff.mp he') c' hSlot' hKey

end

/-- A replica's own slot is read as its. -/
lemma slotOf_slotKey (base : List Seg) (r : Replica) (sl : Slot) :
    slotOf base (slotKey base r, encodeSlot sl) = some (r.name, sl) := by
  rw [slotOf, if_pos (under_slotKey base r), replicaOf_slotKey, decodeSlot_encodeSlot]

/-- **A slot just written is the one that is read**, if nothing else below the
register is read as a slot of the same replica or ranks above it. -/
theorem winner_after_write {kv : Kv} {base : List Seg} {r : Replica} {sl : Slot}
    {cands : List (Bytes × Slot)}
    (hBelow : ∀ e ∈ kv.pairs, ∀ c ∈ slotOf base e, e.1 ≠ slotKey base r →
      c.1 ≠ r.name ∧ rank c < rank (r.name, sl))
    (h : Candidates (kv.insert (slotKey base r) (encodeSlot sl)) base cands) :
    winner cands = some (sl, r.name) := by
  -- a candidate is the new slot, or was there before in another replica's place
  have hCases : ∀ e ∈ pairs (kv.insert (slotKey base r) (encodeSlot sl)), ∀ c ∈ slotOf base e,
      c = (r.name, sl) ∨ c.1 ≠ r.name ∧ rank c < rank (r.name, sl) := by
    intro e he c hc
    rcases mem_pairs_insert.mp he with rfl | ⟨hOld, hNe⟩
    · exact .inl (Option.some.inj (hc.symm.trans (slotOf_slotKey base r sl)))
    · exact .inr (hBelow e hOld c hc hNe)
  refine (winner_eq_some_iff h.nodup).mpr ⟨?_, fun c hc hNe => ?_⟩
  · refine mem_candidates h (mem_pairs_insert.mpr (.inl rfl)) (slotOf_slotKey base r sl) ?_
    intro e he c hc hKey
    exact (hCases e he c hc).resolve_right fun hOther => hOther.1 hKey
  · obtain ⟨e, he, hSlot⟩ := h.entry hc
    rcases hCases e he c hSlot with rfl | ⟨-, hLt⟩
    · exact absurd rfl hNe
    · exact hLt

/-! ## Metadata -/

/-- `metaEnvelope`: what is known of a key besides its data. -/
structure MetaEnvelope where
  type : UInt8
  flavor : UInt8
  etimeMS : Int64
  epoch : UInt32
  deriving DecidableEq, Repr

def encodeMeta (m : MetaEnvelope) : Bytes :=
  m.type :: m.flavor :: (toBe 8 m.etimeMS.toUInt64.toNat ++ toBe 4 m.epoch.toNat)

def decodeMeta : Bytes → Option MetaEnvelope
  | type :: flavor :: rest =>
    if rest.length = 12 then
      some ⟨type, flavor, (UInt64.ofNat (ofBe (rest.take 8))).toInt64, UInt32.ofNat (ofBe (rest.drop 8))⟩
    else none
  | _ => none

@[simp] lemma decodeMeta_encodeMeta (m : MetaEnvelope) : decodeMeta (encodeMeta m) = some m := by
  have hLen : (toBe 8 m.etimeMS.toUInt64.toNat ++ toBe 4 m.epoch.toNat).length = 12 := by
    simp
  have hTime : (toBe 8 m.etimeMS.toUInt64.toNat ++ toBe 4 m.epoch.toNat).take 8 =
      toBe 8 m.etimeMS.toUInt64.toNat := take_left' (length_toBe _ _)
  have hEpoch : (toBe 8 m.etimeMS.toUInt64.toNat ++ toBe 4 m.epoch.toNat).drop 8 =
      toBe 4 m.epoch.toNat := drop_left' (length_toBe _ _)
  have hTimeLt : m.etimeMS.toUInt64.toNat < 256 ^ 8 := UInt64.toNat_lt _
  have hEpochLt : m.epoch.toNat < 256 ^ 4 := UInt32.toNat_lt _
  rw [encodeMeta, decodeMeta, if_pos hLen, hTime, hEpoch, ofBe_toBe_of_lt hTimeLt, ofBe_toBe_of_lt hEpochLt]
  simp

/-- `readMeta`, of the candidates below `metaBase`. -/
def readMeta (cands : List (Bytes × Slot)) : Option (MetaEnvelope × Int64) :=
  match winner cands with
  | none => none
  | some (best, _) =>
    if best.tag = tagDeleted then none
    else (decodeMeta best.value).map fun m => (m, best.stamp.wallMS)

/-- `core.Key`, as far as `probe` fills it in. -/
structure KeyInfo where
  key : Bytes
  type : UInt8
  mtime : Int64
  etime : Option Int64
  deriving DecidableEq, Repr

/-- `probe`. Whether data of the type is there (`isLive`) is asked last. -/
def probe (nowMS : Int64) (isLive : MetaEnvelope → Bool) (key : Bytes)
    (cands : List (Bytes × Slot)) : Option KeyInfo :=
  match readMeta cands with
  | none => none
  | some (m, mtime) =>
    if 0 < m.etimeMS ∧ m.etimeMS ≤ nowMS then none
    else if isLive m then
      some ⟨key, m.type, mtime, if 0 < m.etimeMS then some m.etimeMS else none⟩
    else none

/-! ## Writing -/

/-- What a command writes: the slot of its replica below a register
(`writeSlot`), or another key (`put`, `del`). -/
inductive Op
  | slot (base : List Seg) (tag : UInt8) (value : Bytes)
  | put (k : Path) (v : Bytes)
  | del (k : Path)
  deriving DecidableEq, Repr

variable (db : Int64) (key : Bytes)

def writeMeta (m : MetaEnvelope) : Op :=
  .slot (metaBase db key) tagPresent (encodeMeta m)

def deleteMeta : Op := .slot (metaBase db key) tagDeleted []

/-- `deleteKey`: whatever removes the data of the type, then the metadata. -/
def deleteKey (data : List Op) (db : Int64) (key : Bytes) : List Op := data ++ [deleteMeta db key]

/-- What removes the data of a plain string. -/
def deleteString : List Op := [.slot (strBase db key) tagDeleted []]

end RedGeo.Store
