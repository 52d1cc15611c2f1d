import RedGeo.Store.Text

/-!
# RedGeo — reading keys back

How the readers take the keys of a scan apart, and for which addresses the codec
as a whole does what it is for: the key is the address's own, the scans for the
address find it, they find nothing of another collection, and their readers
recover the names in it.

`encSeg` makes an empty segment of an empty name, and `ds.NewKey` drops it. No
two addresses get one key by that (`Address.text_injective`), but a reader
that counts segments, or trims its own uncleaned prefix, loses its place.

* `codec_iff_named` — the codec is right for an address if and only if the names
  in it are not empty, those of a string value apart.
-/

namespace RedGeo.Store

open Lib List Option Place
open Seg (enc word)

variable {a : Address} {b us : List Seg} {u : Seg}

/-! ## Readers -/

/-- `strconv.ParseUint(s, 16, bits)`. -/
def parseHex (bits : Nat) (s : Bytes) : Option Nat :=
  (parseNat 16 s).filter fun n => n < 2 ^ bits

section

variable (base key : Bytes)

/-- `decSeg(strings.TrimPrefix(key, base))`: set members, and the replicas of
counters, of HyperLogLogs and of last IDs. -/
def nameEntry : Option Bytes := base32Decode (trimText key base)

/-- A name and a replica, in `SweepExpired` and in `zsetLiveScores`. -/
def slotEntry : Option (Bytes × Bytes) := do
  let st ← cutSlash (trimText key base)
  let name ← base32Decode st.1
  let replica ← base32Decode st.2
  return (name, replica)

/-- In `bitmapLoad`. -/
def chunkEntry : Option (Nat × Bytes) := do
  let st ← cutSlash (trimText key base)
  let n ← parseHex 32 st.1
  let replica ← base32Decode st.2
  return (n, replica)

/-- In `streamLive`. -/
def idEntry : Option (Nat × Nat × Bytes) :=
  let rest := trimText key base
  if rest.length < 35 ∨ rest[16]? ≠ some 45 ∨ rest[33]? ≠ some 47 then none
  else do
    let ms ← parseHex 64 (rest.take 16)
    let seq ← parseHex 64 ((rest.drop 17).take 16)
    let replica ← base32Decode (rest.drop 34)
    return (ms, seq, replica)

inductive HashEntry
  | slot (field replica : Bytes)
  | counter (field replica : Bytes)
  deriving DecidableEq

/-- In `hashLiveFields` and `copyHashData`. -/
def hashEntry : Option HashEntry :=
  match splitSlash (trimText key base) with
  | [f, r] => do
    let field ← base32Decode f
    let replica ← base32Decode r
    return .slot field replica
  | [f, c, r] =>
    if c = Word.c.text then do
      let field ← base32Decode f
      let replica ← base32Decode r
      return .counter field replica
    else none
  | _ => none

inductive GroupEntry
  | exists (group replica : Bytes)
  | last (group replica : Bytes)
  | pel (group : Bytes) (ms seq : Nat) (replica : Bytes)
  | cons (group consumer replica : Bytes)
  deriving DecidableEq

/-- In `loadGroups`, below the name of the group. A text that is too short to be
cut in the ID of a pending entry reads as nothing. -/
def groupParts (name : Bytes) : List Bytes → Option GroupEntry
  | [w, r] => do
    let replica ← base32Decode r
    if w = Word.m.text then some (.exists name replica)
    else if w = Word.l.text then some (.last name replica)
    else none
  | [w, t, r] => do
    let replica ← base32Decode r
    if w = Word.p.text then
      let ms ← parseHex 64 (t.take 16)
      let seq ← parseHex 64 (t.drop 17)
      return .pel name ms seq replica
    else if w = Word.c.text then
      let consumer ← base32Decode t
      return .cons name consumer replica
    else none
  | _ => none

/-- In `loadGroups` of all groups. -/
def groupEntry : Option GroupEntry :=
  match splitSlash (trimText key base) with
  | g :: a :: b :: parts => do
    let name ← base32Decode g
    groupParts name (a :: b :: parts)
  | _ => none

/-- In `loadGroups` of one group. -/
def memberEntry (only base key : Bytes) : Option GroupEntry :=
  groupParts only (splitSlash (trimText key base))

/-- In the `entries` of a list: the position key and the bits that `decodePos` finds in it. -/
def posEntry : Option (Bytes × Nat) :=
  let posKey := trimText key base
  if posKey.length < 16 then none
  else do
    let bits ← parseHex 64 (posKey.take 16)
    return (posKey, bits)

end

namespace Address

/-- The replica that the key ends in. -/
def replica (a : Address) : Option Replica :=
  match a.place with
  | .keyMeta r | .str r | .counter r | .hll r | .chunk _ r | .entry _ _ r | .last r | .group _ r
  | .delivered _ r | .pending _ _ _ r | .consumer _ _ r | .field _ r | .fieldCounter _ r
  | .score _ r => some r
  | .member _ | .elem _ _ _ => none

/-- The readers recover what the key was built from: `readSlots` the replica, the
scan of the collection everything else. -/
def Parsed (a : Address) : Prop :=
  (∀ r ∈ a.replica, base32Decode (lastSegment a.text) = some r.name) ∧
  match a.place with
  | .keyMeta r =>
    slotEntry (baseText [part a.db a.key, .word .m, .db a.db]) a.text = some (a.key, r.name)
  | .str _ => True
  | .counter r => nameEntry (baseText (counterBase a.db a.key)) a.text = some r.name
  | .hll r => nameEntry (baseText (hllBase a.db a.key)) a.text = some r.name
  | .chunk n r => chunkEntry (baseText (bitBase a.db a.key)) a.text = some (n.toNat, r.name)
  | .entry ms seq r =>
    idEntry (baseText (streamBase a.db a.key)) a.text = some (ms.toNat, seq.toNat, r.name)
  | .last r => nameEntry (baseText (streamLastBase a.db a.key)) a.text = some r.name
  | .group g r =>
    groupEntry (baseText (groupsBase a.db a.key)) a.text = some (.exists g r.name) ∧
    memberEntry g (baseText (groupBase a.db a.key g)) a.text = some (.exists g r.name)
  | .delivered g r =>
    groupEntry (baseText (groupsBase a.db a.key)) a.text = some (.last g r.name) ∧
    memberEntry g (baseText (groupBase a.db a.key g)) a.text = some (.last g r.name)
  | .pending g ms seq r =>
    groupEntry (baseText (groupsBase a.db a.key)) a.text = some (.pel g ms.toNat seq.toNat r.name) ∧
    memberEntry g (baseText (groupBase a.db a.key g)) a.text = some (.pel g ms.toNat seq.toNat r.name)
  | .consumer g c r =>
    groupEntry (baseText (groupsBase a.db a.key)) a.text = some (.cons g c r.name) ∧
    memberEntry g (baseText (groupBase a.db a.key g)) a.text = some (.cons g c r.name)
  | .field f r => hashEntry (baseText (hashBase a.db a.key)) a.text = some (.slot f r.name)
  | .fieldCounter f r => hashEntry (baseText (hashBase a.db a.key)) a.text = some (.counter f r.name)
  | .member m => nameEntry (baseText (setBase a.db a.key)) a.text = some m
  | .score m r => slotEntry (baseText (zsetBase a.db a.key)) a.text = some (m, r.name)
  | .elem bits owner seq =>
    posEntry (baseText (listBase a.db a.key)) a.text = some (posText bits owner seq, bits.toNat)

/-- What the codec is for. -/
structure Codec (a : Address) : Prop where
  own : ∀ a' : Address, a'.text = a.text → a' = a
  found : ∀ b ∈ a.bases, Below (baseText b) a.text
  alone : ∀ b ∈ a.bases, ∀ a' : Address, Below (baseText b) a'.text → b ∈ a'.bases
  parsed : a.Parsed

end Address

/-- The names below the key are not empty. -/
def Place.Named : Place → Prop
  | group g _ | delivered g _ | pending g _ _ _ => g ≠ []
  | consumer g c _ => g ≠ [] ∧ c ≠ []
  | field f _ | fieldCounter f _ => f ≠ []
  | member m | score m _ => m ≠ []
  | _ => True

/-- No name is empty; the value slots of a string need nothing. -/
def Address.Named (a : Address) : Prop :=
  match a.place with
  | .str _ => True
  | p => a.key ≠ [] ∧ p.Named

/-! ## Scans -/

namespace Address

lemma key_ne_nil (h : a.Named) (hWord : a.place.word = .m) : a.key ≠ [] := by
  obtain ⟨db, key, place⟩ := a
  obtain ⟨r, rfl⟩ := eq_keyMeta hWord
  exact h.1

lemma newKey_rest (h : a.Named) : newKey a.place.rest = a.place.rest := by
  obtain ⟨db, key, place⟩ := a
  cases place <;> simp_all [Named, Place.Named, rest, Replica.nonempty]

lemma newKey_inner (h : a.Named) (hi : i ∈ a.place.inner) : newKey i = i := by
  obtain ⟨gs, hgs⟩ := (inner_begins hi).1
  have hAll := filter_eq_self.mp (newKey_rest h)
  exact filter_eq_self.mpr fun g hg => hAll g (hgs ▸ mem_append_left gs hg)

/-- The last segment of a key is there, the empty member of a set apart. -/
lemma exists_getLast (h : a.Named) : ∃ gs g, a.segs = gs ++ [g] ∧ g ≠ .enc [] := by
  have hLast : ∃ gs g, a.place.rest = gs ++ [g] := by
    refine ⟨_, _, (dropLast_append_getLast ?_).symm⟩
    cases a.place <;> simp [rest]
  obtain ⟨gs, g, hRest⟩ := hLast
  refine ⟨a.base ++ gs, g, by rw [segs_eq, hRest, append_assoc], ?_⟩
  have hAll := filter_eq_self.mp (newKey_rest h) g (by rw [hRest]; simp)
  exact of_decide_eq_true hAll

/-- **The scans for an address find it.** -/
theorem under_of_named (h : a.Named) (hb : b ∈ a.bases) : Under b a.path := by
  obtain ⟨gs, hSegs, hNe⟩ := exists_rest hb
  rw [path, hSegs, newKey_append]
  refine ⟨prefix_append _ _, fun hEq => ?_⟩
  -- nothing would be left of the rest, but its last segment is
  have hNil : newKey gs = [] := append_cancel_left (hEq.trans (append_nil _).symm)
  obtain ⟨hs, g, hLast, hg⟩ := exists_getLast h
  have hMem : g ∈ gs := by
    have hGs : gs.getLast? = some g := by
      have hAll := congrArg List.getLast? (hSegs.symm.trans hLast)
      rw [List.getLast?_append_of_ne_nil _ hNe, List.getLast?_concat] at hAll
      exact hAll
    exact mem_of_getLast? hGs
  exact absurd (filter_eq_nil_iff.mp hNil g hMem) (by simpa using hg)

/-- Within a collection, what is below an inner prefix belongs there. -/
lemma inner_of_prefix {p q : Place} (hWord : q.word = p.word) (hi : i ∈ p.inner)
    (hNamed : newKey i = i) (hPrefix : i <+: newKey q.rest) (hNe : newKey q.rest ≠ i) : i ∈ q.inner := by
  cases p <;> cases q <;> first | (cases hWord; done) | skip
  all_goals
    simp only [Place.inner, mem_cons, not_mem_nil, or_false] at hi
  -- without its first name the rest of a key begins with a word, or is the prefix itself
  all_goals
    simp only [Place.inner, rest, newKey_enc, newKey_cons, ne_eq, reduceCtorEq, not_false_eq_true, newKey_nil]
      at hPrefix hNe ⊢
    repeat' split at hPrefix
  all_goals (try rcases hi with rfl | rfl) <;> simp_all [newKey_enc, Replica.nonempty]

/-- **The scans for an address find nothing of another collection.** -/
theorem mem_bases_of_under {a' : Address} (h : a.Named) (hb : b ∈ a.bases) (hUnder : Under b a'.path) :
    b ∈ a'.bases := by
  rcases mem_bases.mp hb with rfl | ⟨i, hi, rfl⟩ | ⟨hWord, rfl⟩
  · obtain ⟨hDb, hKey, hSame⟩ := collection_of_under (key_ne_nil h) hUnder
    refine mem_bases.mpr (.inl ?_)
    rw [base, base, hDb, hKey, hSame]
  · have hBase : Under a.base a'.path := by
      obtain ⟨hPrefix, -⟩ := hUnder
      rw [newKey_append, newKey_inner h hi] at hPrefix
      refine ⟨(prefix_append _ _).trans hPrefix, fun hEq => ?_⟩
      have hLen := hPrefix.length_le
      rw [hEq, length_append] at hLen
      have hPos : i ≠ [] := by
        rintro rfl
        cases hPlace : a.place <;> rw [hPlace] at hi <;> simp [Place.inner] at hi
      have := length_pos_iff.mpr hPos
      omega
    obtain ⟨hDb, hKey, hSame⟩ := collection_of_under (key_ne_nil h) hBase
    have hEq : a'.base = a.base := by rw [base, base, hDb, hKey, hSame]
    refine mem_bases.mpr (.inr (.inl ⟨i, ?_, by rw [hEq]⟩))
    obtain ⟨hPrefix, hNe⟩ := hUnder
    rw [path_eq, hEq, newKey_append, newKey_inner h hi] at hPrefix hNe
    exact inner_of_prefix hSame hi (newKey_inner h hi)
      ((prefix_append_right_inj _).mp hPrefix) fun hRest => hNe (by rw [hRest])
  · refine mem_bases.mpr (.inr (.inr ?_))
    obtain ⟨hPrefix, -⟩ := hUnder
    by_cases hWord' : a'.place.word = .m
    · obtain ⟨db', key', place'⟩ := a'
      obtain ⟨r, rfl⟩ := eq_keyMeta hWord'
      rw [path_keyMeta] at hPrefix
      simp only [part, newKey_cons, ne_eq, reduceCtorEq, not_false_eq_true, newKey_nil,
        cons_prefix_cons] at hPrefix
      obtain ⟨hPart, -, hDb, -⟩ := hPrefix
      exact ⟨rfl, by simp only [part]; rw [hPart, hDb]⟩
    · rw [path_eq, base, collectionBase, if_neg hWord'] at hPrefix
      simp [dataBase, part] at hPrefix

/-! ## Taking a key apart -/

lemma text_eq (a : Address) : a.text = render (a.path.map Seg.text) := keyText_eq a.fine_segs

lemma plain_path (a : Address) : ∀ t ∈ a.path.map Seg.text, Plain t :=
  plain_of_fine (fine_newKey a.fine_segs)

/-- What is left below a prefix of the path. -/
lemma trim_of_path (h : a.path = b ++ u :: us) :
    trimText a.text (baseText b) = u.text ++ render (us.map Seg.text) := by
  rw [text_eq, h, map_append, map_cons]
  exact trimText_render _ _ _

lemma split_of_path (h : a.path = b ++ u :: us) :
    splitSlash (trimText a.text (baseText b)) = u.text :: us.map Seg.text := by
  have hPlain : ∀ t ∈ u.text :: us.map Seg.text, Plain t := by
    intro t ht
    refine a.plain_path t ?_
    rw [h, map_append]
    exact mem_append_right _ ht
  rw [trim_of_path h]
  exact splitSlash_append_render (hPlain _ mem_cons_self)
    fun t ht => hPlain t (mem_cons_of_mem _ ht)

/-- Nothing is trimmed by a prefix with an empty name in it. -/
lemma trim_of_empty (hb : b ∈ a.bases) (hNil : .enc [] ∈ b) : trimText a.text (baseText b) = a.text := by
  have hClean : [] ∉ a.path.map Seg.text := by
    intro hMem
    obtain ⟨g, hg, hText⟩ := mem_map.mp hMem
    have hEnc : g = .enc [] := ((fine_newKey a.fine_segs) g hg).2.mp hText
    exact absurd (mem_filter.mp hg).2 (by simp [hEnc])
  rw [text_eq]
  exact trimText_of_nil_mem (plain_of_fine (fine_of_mem_bases hb)) a.plain_path
    (mem_map.mpr ⟨_, hNil, rfl⟩) hClean

/-- Nor where the path ends with the prefix. -/
lemma trim_of_path_eq (h : a.path = b) : trimText a.text (baseText b) = a.text := by
  refine if_neg fun hPrefix => ?_
  have hLen := hPrefix.length_le
  rw [text_eq, h, baseText, length_append, length_singleton] at hLen
  omega

lemma path_of_key (h : a.key ≠ []) : a.path = a.base ++ newKey a.place.rest := by
  have hBase : newKey a.base = a.base := by
    rw [base, collectionBase]
    split <;> simp [metaBase, dataBase, part, h]
  rw [path_eq, hBase]

/-- Every key begins with a slash, and has more of them. -/
lemma exists_text (a : Address) : ∃ s, a.text = 47 :: s ∧ 47 ∈ s := by
  rw [text_eq, path_eq, base, collectionBase]
  split <;> simp [metaBase, dataBase, part]

lemma base32Decode_of_slash (h : 47 ∈ s) : base32Decode s = none :=
  base32Decode_eq_none h (by decide) (by decide)

lemma parseHex_of_slash (bits : Nat) (s : Bytes) : parseHex bits (47 :: s) = none := rfl

lemma parseHex_numeral (h : n < 2 ^ bits) : parseHex bits (numeral 16 w n) = some n := by
  rw [parseHex, parseNat_hex, filter_some, if_pos (decide_eq_true h)]

lemma nameEntry_of_path (h : a.path = b ++ [enc name]) : nameEntry (baseText b) a.text = some name := by
  rw [nameEntry, trim_of_path h, map_nil, render_nil, append_nil, Seg.text, base32Decode_encode]

lemma slotEntry_of_path {name replica : Bytes} (h : a.path = b ++ [enc name, .enc replica]) :
    slotEntry (baseText b) a.text = some (name, replica) := by
  simp [slotEntry, trim_of_path h, Seg.text, cutSlash_append (plain_base32Encode name)]

lemma chunkEntry_of_path {n : UInt32} {replica : Bytes} (h : a.path = b ++ [.chunk n.toNat, .enc replica]) :
    chunkEntry (baseText b) a.text = some (n.toNat, replica) := by
  simp [chunkEntry, trim_of_path h, Seg.text, cutSlash_append (plain_hex _ _), parseHex_numeral n.toNat_lt]

lemma length_idText (ms seq : UInt64) : (idText ms seq).length = 33 := by
  rw [idText, length_append, length_cons, length_hex16, length_hex16]

lemma idEntry_of_path {r : Replica} (h : a.path = b ++ [.id ms seq, .enc r.name]) :
    idEntry (baseText b) a.text = some (ms.toNat, seq.toNat, r.name) := by
  have hSeq := length_hex16 seq
  have hTrim : trimText a.text (baseText b) = idText ms seq ++ 47 :: base32Encode r.name := by
    rw [trim_of_path h]
    simp [Seg.text]
  have hReplica : 0 < (base32Encode r.name).length :=
    length_pos_iff.mpr fun hNil => r.nonempty (base32Encode_eq_nil_iff.mp hNil)
  have hDash : (idText ms seq ++ 47 :: base32Encode r.name)[16]? = some 45 := by
    rw [List.getElem?_append_left (by rw [length_idText]; decide), idText,
      List.getElem?_append_right (by rw [length_hex16]), length_hex16]
    rfl
  have hSlash : (idText ms seq ++ 47 :: base32Encode r.name)[33]? = some 47 := by
    rw [List.getElem?_append_right (by rw [length_idText]), length_idText]
    rfl
  have hDrop : (idText ms seq ++ 47 :: base32Encode r.name).drop 34 = base32Encode r.name := by
    have hSplit : idText ms seq ++ 47 :: base32Encode r.name =
        (idText ms seq ++ [47]) ++ base32Encode r.name := by simp
    rw [hSplit]
    exact drop_left' (by simp [length_idText])
  have hNot : ¬((idText ms seq ++ 47 :: base32Encode r.name).length < 35 ∨
      (idText ms seq ++ 47 :: base32Encode r.name)[16]? ≠ some 45 ∨
      (idText ms seq ++ 47 :: base32Encode r.name)[33]? ≠ some 47) := by
    rw [hDash, hSlash, length_append, length_idText, length_cons]
    simp only [ne_eq, not_true_eq_false, or_false]
    omega
  simp only [idEntry, hTrim, if_neg hNot, take_idText, drop_idText, hDrop,
    take_append_of_le_length (le_of_eq hSeq.symm), take_of_length_le (le_of_eq hSeq),
    parseHex_numeral ms.toNat_lt, parseHex_numeral seq.toNat_lt, base32Decode_encode]
  rfl

lemma posEntry_of_path (h : a.path = b ++ [.pos (posText bits owner seq)]) :
    posEntry (baseText b) a.text = some (posText bits owner seq, bits.toNat) := by
  have hBits := length_hex16 bits
  have hTrim : trimText a.text (baseText b) = posText bits owner seq := by
    rw [trim_of_path h]
    simp [Seg.text]
  have hTake : (posText bits owner seq).take 16 = numeral 16 16 bits.toNat := by
    rw [posText, take_append_of_le_length (le_of_eq hBits.symm)]
    exact take_of_length_le (le_of_eq hBits)
  have hLen : ¬(posText bits owner seq).length < 16 := by
    rw [posText, length_append, hBits]
    omega
  simp only [posEntry, hTrim, if_neg hLen, hTake, parseHex_numeral bits.toNat_lt]
  rfl

lemma hashEntry_of_slot {f replica : Bytes} (h : a.path = b ++ [enc f, .enc replica]) :
    hashEntry (baseText b) a.text = some (.slot f replica) := by
  simp [hashEntry, split_of_path h, Seg.text]

lemma hashEntry_of_counter {f replica : Bytes} (h : a.path = b ++ [enc f, .word .c, .enc replica]) :
    hashEntry (baseText b) a.text = some (.counter f replica) := by
  simp [hashEntry, split_of_path h, Seg.text]

lemma groupEntry_of_path (h : a.path = b ++ .enc g :: u :: v :: us) :
    groupEntry (baseText b) a.text = groupParts g (u.text :: v.text :: us.map Seg.text) := by
  simp [groupEntry, split_of_path h, Seg.text]

/-- **`loadGroups` reads a group among all groups and alone.** -/
theorem group_of_path (h : a.path = b ++ .enc g :: u :: v :: us)
    (hParts : groupParts g (u.text :: v.text :: us.map Seg.text) = some e) :
    groupEntry (baseText b) a.text = some e ∧ memberEntry g (baseText (b ++ [enc g])) a.text = some e := by
  refine ⟨(groupEntry_of_path h).trans hParts, ?_⟩
  have hPath : a.path = (b ++ [enc g]) ++ u :: v :: us := by rw [h, append_assoc]; rfl
  rw [memberEntry, split_of_path hPath]
  exact hParts

lemma lastSegment_text (a : Address) (h : r ∈ a.replica) :
    base32Decode (lastSegment a.text) = some r.name := by
  have hRest : a.place.rest = a.place.rest.dropLast ++ [enc r.name] := by
    obtain ⟨db, key, place⟩ := a
    cases place <;> cases h <;> rfl
  obtain ⟨gs, hGs⟩ : ∃ gs, a.path = gs ++ [enc r.name] := by
    rw [path_eq, hRest, newKey_append, newKey_replica, newKey_nil, ← append_assoc]
    exact ⟨_, rfl⟩
  have hPlain := a.plain_path
  rw [hGs, map_append] at hPlain
  rw [text_eq, hGs, map_append]
  exact (congrArg base32Decode (lastSegment_render hPlain)).trans (base32Decode_encode _)

/-- **The readers recover what is not empty.** -/
theorem parsed_of_named (h : a.Named) : a.Parsed := by
  refine ⟨fun r hr => lastSegment_text a hr, ?_⟩
  have hPath : a.key ≠ [] → a.path = a.base ++ a.place.rest := fun hKey => by
    rw [path_of_key hKey, newKey_rest h]
  obtain ⟨db, key, place⟩ := a
  cases place with
  | str r => trivial
  | keyMeta r =>
    refine slotEntry_of_path ?_
    rw [path_keyMeta, if_neg h.1]
    rfl
  | counter r | hll r | last r | member m => exact nameEntry_of_path (hPath h.1)
  | chunk n r => exact chunkEntry_of_path (hPath h.1)
  | entry ms seq r => exact idEntry_of_path (hPath h.1)
  | score m r => exact slotEntry_of_path (hPath h.1)
  | elem bits owner seq => exact posEntry_of_path (hPath h.1)
  | field f r => exact hashEntry_of_slot (hPath h.1)
  | fieldCounter f r => exact hashEntry_of_counter (hPath h.1)
  | group g r =>
    exact group_of_path (hPath h.1) (by simp [groupParts, Seg.text])
  | delivered g r =>
    exact group_of_path (hPath h.1) (by simp [groupParts, Seg.text, Word.text])
  | pending g ms seq r =>
    have hTake := take_idText ms seq []
    have hDrop := drop_idText ms seq []
    rw [append_nil] at hTake hDrop
    refine group_of_path (hPath h.1) ?_
    simp [groupParts, Seg.text, hTake, hDrop, parseHex_numeral ms.toNat_lt, parseHex_numeral seq.toNat_lt]
  | consumer g c r =>
    exact group_of_path (hPath h.1) (by simp [groupParts, Seg.text, Word.text])

/-! ## Empty names -/

/-- With an empty key, the readers trim nothing off. -/
lemma trim_of_key (h : a.key = []) : trimText a.text (baseText a.base) = a.text := by
  refine trim_of_empty (mem_bases.mpr (.inl rfl)) ?_
  rw [base, collectionBase]
  split <;> simp [metaBase, dataBase, h]

lemma nameEntry_of_key (h : a.key = []) : nameEntry (baseText a.base) a.text = none := by
  obtain ⟨s, hText, -⟩ := a.exists_text
  rw [nameEntry, trim_of_key h]
  exact base32Decode_of_slash (hText ▸ mem_cons_self)

lemma split_of_key (h : a.key = []) (hWord : a.place.word ≠ .m) :
    ∃ p n ts, splitSlash (trimText a.text (baseText a.base)) =
    [] :: p :: Word.d.text :: n :: a.place.word.text :: ts := by
  have hPath : a.path = part a.db a.key :: .word .d :: .db a.db :: .word a.place.word ::
      newKey a.place.rest := by
    rw [path_eq, base, collectionBase, if_neg hWord]
    simp [dataBase, part, newKey_enc, h]
  have hPlain := a.plain_path
  rw [hPath] at hPlain
  rw [trim_of_key h, text_eq, hPath]
  exact ⟨_, _, _, split_render hPlain⟩

section

variable {base key s : Bytes} (h : trimText key base = 47 :: s)
include h

lemma chunkEntry_of_slash : chunkEntry base key = none := by
  rw [chunkEntry, h]
  rfl

lemma idEntry_of_slash : idEntry base key = none := by
  simp only [idEntry, h, take_succ_cons, parseHex_of_slash]
  split <;> rfl

lemma slotEntry_of_slash (hSlash : 47 ∈ s) : slotEntry base key = none := by
  simp [slotEntry, h, cutSlash, base32Decode_of_slash hSlash]

lemma posEntry_of_slash : posEntry base key = none := by
  simp only [posEntry, h, take_succ_cons, parseHex_of_slash]
  split <;> rfl

end

section

variable {base key p d n w : Bytes} {ts : List Bytes}
  (h : splitSlash (trimText key base) = [] :: p :: d :: n :: w :: ts)
include h

lemma hashEntry_of_split : hashEntry base key = none := by
  rw [hashEntry, h]

lemma groupEntry_of_split : groupEntry base key = none := by
  rw [groupEntry, h]
  rfl

end

/-- **With an empty key nothing is recovered**, string values apart. -/
theorem key_ne_nil_of_parsed (h : a.Parsed) (hStr : ∀ r, a.place ≠ .str r) : a.key ≠ [] := by
  intro hKey
  obtain ⟨-, h⟩ := h
  obtain ⟨s, hText, hSlash⟩ := a.exists_text
  have hTrim : trimText a.text (baseText a.base) = 47 :: s := (trim_of_key hKey).trans hText
  have hName := nameEntry_of_key hKey
  have hSplit := split_of_key hKey
  obtain ⟨db, key, place⟩ := a
  cases place with
  | str r => exact hStr r rfl
  | keyMeta r =>
    -- what is left below the database is the replica alone
    have hPath : path ⟨db, key, .keyMeta r⟩ = [part db key, .word .m, .db db] ++ [enc r.name] := by
      rw [path_keyMeta, if_pos hKey]
      rfl
    have hNone := cutSlash_of_plain (plain_base32Encode r.name)
    simp [slotEntry, trim_of_path hPath, Seg.text, hNone] at h
  | counter r | hll r | last r | member m => cases h.symm.trans hName
  | chunk n r => cases h.symm.trans (chunkEntry_of_slash hTrim)
  | entry ms seq r => cases h.symm.trans (idEntry_of_slash hTrim)
  | score m r => cases h.symm.trans (slotEntry_of_slash hTrim hSlash)
  | elem bits owner seq => cases h.symm.trans (posEntry_of_slash hTrim)
  | field f r | fieldCounter f r =>
    obtain ⟨p, n, ts, hParts⟩ := hSplit (by simp [Place.word])
    cases h.symm.trans (hashEntry_of_split hParts)
  | group g r | delivered g r | pending g ms seq r | consumer g c r =>
    obtain ⟨p, n, ts, hParts⟩ := hSplit (by simp [Place.word])
    cases h.1.symm.trans (groupEntry_of_split hParts)

lemma base32Decode_word (w : Word) : base32Decode w.text = none := by
  cases w <;> decide

/-- Below the groups, a name is missing and a word is read as one. -/
lemma groupEntry_of_word {w : Word} (h : a.path = b ++ .word w :: us) :
    groupEntry (baseText b) a.text = none := by
  rw [groupEntry, split_of_path h]
  match us with
  | [] | [_] => rfl
  | _ :: _ :: _ =>
    simp only [map_cons, Seg.text, base32Decode_word]
    rfl

/-- A consumer without a name leaves two parts, which are those of no other entry. -/
lemma groupEntry_of_consumer {g replica : Bytes} (h : a.path = b ++ [enc g, .word .c, .enc replica]) :
    groupEntry (baseText b) a.text = none := by
  rw [groupEntry_of_path h]
  simp [groupParts, Seg.text, Word.text]

/-- A field without a name. -/
lemma hashEntry_of_replica (h : a.path = b ++ [g]) : hashEntry (baseText b) a.text = none := by
  rw [hashEntry, split_of_path h]
  rfl

lemma hashEntry_of_word {w : Word} (h : a.path = b ++ [word w, g]) :
    hashEntry (baseText b) a.text = none := by
  rw [hashEntry, split_of_path h]
  simp only [map_cons, map_nil, Seg.text, base32Decode_word]
  rfl

/-- A member of a sorted set without a name. -/
lemma slotEntry_of_replica {replica : Bytes} (h : a.path = b ++ [enc replica]) :
    slotEntry (baseText b) a.text = none := by
  simp [slotEntry, trim_of_path h, Seg.text, cutSlash_of_plain (plain_base32Encode replica)]

/-- A member of a set without a name: the key is the prefix, and not below it. -/
lemma nameEntry_of_path_eq (h : a.path = b) : nameEntry (baseText b) a.text = none := by
  obtain ⟨s, hText, -⟩ := a.exists_text
  rw [nameEntry, trim_of_path_eq h]
  exact base32Decode_of_slash (hText ▸ mem_cons_self)

/-- **Of an empty name below the key nothing is recovered.** -/
theorem place_named_of_parsed (h : a.Parsed) (hKey : a.key ≠ []) : a.place.Named := by
  obtain ⟨-, h⟩ := h
  have hPath := path_of_key hKey
  obtain ⟨db, key, place⟩ := a
  cases place with
  | keyMeta r | str r | counter r | hll r | chunk n r | entry ms seq r | last r
  | elem bits owner seq => trivial
  | member m =>
    rintro rfl
    cases h.symm.trans (nameEntry_of_path_eq (hPath.trans (append_nil _)))
  | score m r =>
    rintro rfl
    have hRest : newKey (score [] r).rest = [.enc r.name] := by
      simp [rest, newKey_enc, Replica.nonempty]
    cases h.symm.trans (slotEntry_of_replica (hRest ▸ hPath))
  | field f r =>
    rintro rfl
    have hRest : newKey (field [] r).rest = [.enc r.name] := by
      simp [rest, newKey_enc, Replica.nonempty]
    cases h.symm.trans (hashEntry_of_replica (hRest ▸ hPath))
  | fieldCounter f r =>
    rintro rfl
    have hRest : newKey (fieldCounter [] r).rest = [.word .c, .enc r.name] := by
      simp [rest, newKey_enc, Replica.nonempty]
    cases h.symm.trans (hashEntry_of_word (hRest ▸ hPath))
  | group g r | delivered g r | pending g ms seq r =>
    rintro rfl
    simp only [rest, newKey_enc, if_true, newKey_cons, ne_eq, reduceCtorEq, not_false_eq_true] at hPath
    cases h.1.symm.trans (groupEntry_of_word hPath)
  | consumer g c r =>
    have hGroup : g ≠ [] := by
      rintro rfl
      simp only [rest, newKey_enc, if_true, newKey_cons, ne_eq, reduceCtorEq, not_false_eq_true] at hPath
      cases h.1.symm.trans (groupEntry_of_word hPath)
    refine ⟨hGroup, ?_⟩
    rintro rfl
    have hRest : newKey (consumer g [] r).rest = [.enc g, .word .c, .enc r.name] := by
      simp [rest, newKey_enc, hGroup, Replica.nonempty]
    cases h.1.symm.trans (groupEntry_of_consumer (hRest ▸ hPath))

lemma named_of_parsed (h : a.Parsed) : a.Named := by
  by_cases hStr : ∃ r, a.place = .str r
  · obtain ⟨db, key, place⟩ := a
    obtain ⟨r, rfl⟩ := hStr
    trivial
  · have hKey := key_ne_nil_of_parsed h fun r hr => hStr ⟨r, hr⟩
    have hPlace := place_named_of_parsed h hKey
    obtain ⟨db, key, place⟩ := a
    cases place
    case str r => trivial
    all_goals exact ⟨hKey, hPlace⟩

/-- **The codec is right for an address if and only if no name in it is empty**,
string values apart, whose readers look at the last segment only. -/
theorem codec_iff_named (a : Address) : a.Codec ↔ a.Named := by
  constructor
  · exact fun h => named_of_parsed h.parsed
  · intro h
    exact {
      own := fun a' hText => text_injective hText
      found := fun b hb => (below_text_iff hb).mpr (under_of_named h hb)
      alone := fun b hb a' hBelow => mem_bases_of_under h hb ((below_text_iff hb).mp hBelow)
      parsed := parsed_of_named h }

private def nodeA : Replica := .named 65

/-- The scan for the field with the empty name, in a hash `k`, finds the slot of
the field `a`: `HGET k ""` reads the value of `a`. -/
theorem empty_field_finds_others : hashFieldBase 0 [107] [] ∈ bases ⟨0, [107], .field [] nodeA⟩ ∧
    Below (baseText (hashFieldBase 0 [107] [])) (text ⟨0, [107], .field [97] nodeA⟩) ∧
    hashFieldBase 0 [107] [] ∉ bases ⟨0, [107], .field [97] nodeA⟩ ∧ ¬Codec ⟨0, [107], .field [] nodeA⟩ := by
  have hMem : hashFieldBase 0 [107] [] ∈ bases ⟨0, [107], .field [] nodeA⟩ := by decide
  have hBelow : Below (baseText (hashFieldBase 0 [107] [])) (text ⟨0, [107], .field [97] nodeA⟩) :=
    (below_text_iff hMem).mpr (by decide)
  have hOther : hashFieldBase 0 [107] [] ∉ bases ⟨0, [107], .field [97] nodeA⟩ := by decide
  exact ⟨hMem, hBelow, hOther, fun h => hOther (h.alone _ hMem _ hBelow)⟩

end Address

end RedGeo.Store
