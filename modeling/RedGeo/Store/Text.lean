import RedGeo.Lib.Base32
import RedGeo.Lib.Numerals
import RedGeo.Lib.Slashes
import RedGeo.Store.Keys

/-!
# RedGeo — keys as text

The text that the builders of `keys.go` make of the segments of a key, what
`ds.NewKey` makes of it, and the addresses that the store has keys for.

What a segment is can be told from the segments before it: `readSeg` reads a key
from the left. So no two of the paths that occur have one text, and a prefix of
a key as text is a prefix of its path:

* `text_inj` — keys with one text have one path.
* `below_iff_under` — a prefix query returns a key if and only if its path is
  `Under` the base.
* `path_injective` — addresses with one path are one address.
-/

namespace RedGeo.Store

open Lib List Seg

variable {gs b : List Seg} {w : Word} (n : Nat) (ms seq : UInt64) {t : Bytes} {inGroup : Bool} (name : Bytes)

/-! ## Texts -/

def Word.text : Word → Bytes
  | .m => [109]
  | .d => [100]
  | .v => [118]
  | .c => [99]
  | .p => [112]
  | .b => [98]
  | .x => [120]
  | .xl => [120, 108]
  | .xg => [120, 103]
  | .l => [108]
  | .h => [104]
  | .e => [101]
  | .z => [122]
  | .j => [106]
  | .s => [115]
  | .n => [110]
  | .t => [116]
  | .k => [107]
  | .r => [114]
  | .leaf => [95]

def words : List Word :=
  [.m, .d, .v, .c, .p, .b, .x, .xl, .xg, .l, .h, .e, .z, .j, .s, .n, .t, .k, .r, .leaf]

/-- The fixed word that a text is, if any. -/
def wordOf (t : Bytes) : Option Word := words.find? fun w => w.text = t

/-- A stream ID in a key. -/
def idText (ms seq : UInt64) : Bytes := numeral 16 16 ms.toNat ++ 45 :: numeral 16 16 seq.toNat

/-- `makePosKey`, of the bits that `encodePos` makes of the position. -/
def posText (bits : UInt64) (replica : Replica) (seq : UInt64) : Bytes :=
  numeral 16 16 bits.toNat ++ 45 :: (base32Encode replica.name ++ 45 :: numeral 16 16 seq.toNat)

def Seg.text : Seg → Bytes
  | .bucket p => numeral 16 2 p
  | .word w => w.text
  | .db n => formatInt n.toInt
  | .enc name => base32Encode name
  | .chunk n => numeral 16 8 n
  | .layer n => numeral 16 2 n
  | .cell n => numeral 16 10 n.toNat
  | .id ms seq => idText ms seq
  | .pos text => text
  | .field name => 102 :: base32Encode name
  | .elem text => 97 :: text
  | .space hash => 104 :: numeral 16 16 hash.toNat

/-- A prefix as the builders make it, with a slash at its end. -/
def baseText (base : List Seg) : Bytes := render (base.map Seg.text) ++ [47]

/-- `ds.NewKey` of the text that a builder makes. -/
def keyText (segs : List Seg) : Bytes := cleanPath (render (segs.map Seg.text))

/-- What a prefix query returns: the keys strictly below the cleaned prefix. -/
def Below (p k : Bytes) : Prop := cleanPath p ++ [47] <+: k

/-! ## Slashes and empty texts -/

lemma digitChar_ne (h : d < 16) : digitChar d ≠ 47 := by
  have hAll : ∀ d < 16, digitChar d ≠ 47 := by decide
  exact hAll d h

lemma plain_numeral {b : Nat} (hb : 1 < b) (hb' : b ≤ 16) (w n : Nat) : Plain (numeral b w n) := by
  intro hMem
  obtain ⟨d, hd, hEq⟩ := exists_digit_of_mem hb hMem
  exact digitChar_ne (by omega) hEq.symm

lemma plain_base32Encode (bs : Bytes) : Plain (base32Encode bs) := by
  intro hMem
  obtain ⟨v, hv⟩ := base32Value_of_mem hMem
  cases hv

lemma plain_append (hs : Plain s) (ht : Plain t) : Plain (s ++ t) := fun hMem =>
  (mem_append.mp hMem).elim hs ht

lemma plain_cons (hc : c ≠ 47) (ht : Plain t) : Plain (c :: t) := fun hMem =>
  (mem_cons.mp hMem).elim (fun hEq => hc hEq.symm) ht

lemma plain_hex (w n : Nat) : Plain (numeral 16 w n) := plain_numeral (by decide) (by decide) w n

lemma plain_idText : Plain (idText ms seq) :=
  plain_append (plain_hex _ _) (plain_cons (by decide) (plain_hex _ _))

lemma plain_posText (bits : UInt64) (r : Replica) (seq : UInt64) : Plain (posText bits r seq) :=
  plain_append (plain_hex _ _) (plain_cons (by decide)
    (plain_append (plain_base32Encode _) (plain_cons (by decide) (plain_hex _ _))))

lemma formatInt_ne_nil (n : Int) : formatInt n ≠ [] := by
  unfold formatInt
  split
  · exact cons_ne_nil _ _
  · exact numeral_ne_nil _ _ _

lemma plain_formatInt (n : Int) : Plain (formatInt n) := by
  unfold formatInt
  split
  · exact plain_cons (by decide) (plain_numeral (by decide) (by decide) _ _)
  · exact plain_numeral (by decide) (by decide) _ _

/-! ## Paths without empty names -/

@[simp] lemma newKey_cons (h : g ≠ .enc []) (gs : List Seg) : newKey (g :: gs) = g :: newKey gs :=
  filter_cons_of_pos (decide_eq_true h)

lemma newKey_append (gs hs : List Seg) : newKey (gs ++ hs) = newKey gs ++ newKey hs :=
  filter_append ..

@[simp] lemma newKey_nil : newKey [] = [] := rfl

/-- An empty name leaves no segment. -/
lemma newKey_enc (gs : List Seg) :
    newKey (.enc name :: gs) = if name = [] then newKey gs else .enc name :: newKey gs := by
  split
  case isTrue h => exact filter_cons_of_neg (by simp [h])
  case isFalse h => exact newKey_cons (by simpa using h) gs

@[simp] lemma newKey_replica (r : Replica) (gs : List Seg) :
    newKey (.enc r.name :: gs) = .enc r.name :: newKey gs :=
  newKey_cons (by simpa using r.nonempty) gs

/-- A segment whose text has no slash in it, and is empty for an empty name only. -/
def Seg.Fine (g : Seg) : Prop := Plain g.text ∧ (g.text = [] ↔ g = .enc [])

lemma Seg.fine_of_ne_nil {g : Seg} (hPlain : Plain g.text) (hText : g.text ≠ []) (hEnc : g ≠ .enc []) :
    g.Fine :=
  ⟨hPlain, iff_of_false hText hEnc⟩

@[simp] lemma Seg.fine_bucket (p : Nat) : (bucket p).Fine :=
  fine_of_ne_nil (plain_hex _ _) (numeral_ne_nil _ _ _) (by simp)

@[simp] lemma Seg.fine_word (w : Word) : (word w).Fine := by
  cases w <;> exact fine_of_ne_nil (by decide) (by decide) (by simp)

@[simp] lemma Seg.fine_db (n : Int64) : (db n).Fine :=
  fine_of_ne_nil (plain_formatInt _) (formatInt_ne_nil _) (by simp)

@[simp] lemma Seg.fine_enc : (enc name).Fine :=
  ⟨plain_base32Encode _, by rw [text, base32Encode_eq_nil_iff, enc.injEq]⟩

@[simp] lemma Seg.fine_chunk : (chunk n).Fine :=
  fine_of_ne_nil (plain_hex _ _) (numeral_ne_nil _ _ _) (by simp)

@[simp] lemma Seg.fine_id : (id ms seq).Fine :=
  fine_of_ne_nil (plain_idText _ _) (by simp [text, idText]) (by simp)

@[simp] lemma Seg.fine_pos (bits : UInt64) (owner : Replica) (seq : UInt64) :
    (pos (posText bits owner seq)).Fine :=
  fine_of_ne_nil (plain_posText _ _ _) (by simp [text, posText]) (by simp)

/-- **Cleaning the text cleans the path.** -/
theorem filter_text (h : ∀ g ∈ segs, g.Fine) :
    (segs.map Seg.text).filter (· ≠ []) = (newKey segs).map Seg.text := by
  rw [filter_map, newKey]
  refine congrArg (List.map text) (filter_congr fun g hg => ?_)
  show decide (g.text ≠ []) = decide (g ≠ .enc [])
  exact decide_eq_decide.mpr (not_congr (h g hg).2)

lemma plain_of_fine {segs : List Seg} (h : ∀ g ∈ segs, g.Fine) : ∀ t ∈ segs.map text, Plain t := by
  intro t ht
  obtain ⟨g, hg, rfl⟩ := mem_map.mp ht
  exact (h g hg).1

lemma fine_newKey (h : ∀ g ∈ segs, g.Fine) : ∀ g ∈ newKey segs, g.Fine :=
  fun g hg => h g (mem_filter.mp hg).1

lemma keyText_eq {segs : List Seg} (h : ∀ g ∈ segs, g.Fine) :
    keyText segs = render ((newKey segs).map text) := by
  rw [keyText, clean_render (plain_of_fine h), filter_text h]

lemma cleanPath_baseText {base : List Seg} (h : ∀ g ∈ base, g.Fine) :
    cleanPath (baseText base) = render ((newKey base).map text) := by
  -- the slash at the end is one more part, which is empty
  have hSlash : baseText base = render (base.map text ++ [[]]) := by
    rw [render_append]
    rfl
  have hPlain : ∀ t ∈ base.map text ++ [[]], Plain t := by
    intro t ht
    rcases mem_append.mp ht with ht | ht
    · exact plain_of_fine h t ht
    · rw [mem_singleton.mp ht]
      exact not_mem_nil
  rw [hSlash, clean_render hPlain, filter_append, filter_text h]
  simp

/-! ## Reading a key from the left -/

/-- What is read next: `names` are encoded names and fixed words, in the data of
a consumer group or not. -/
inductive At
  | start
  | top
  | db
  | names (inGroup : Bool)
  | chunk
  | id (inGroup : Bool)
  | pos

variable {s : At}

/-- What comes after a fixed word. -/
def after (inGroup : Bool) (w : Word) : At :=
  match inGroup, w with
  | true, .p => .id true
  | true, _ => .names true
  | false, .b => .chunk
  | false, .x => .id false
  | false, .l => .pos
  | false, .xg => .names true
  | false, _ => .names false

def parseId (t : Bytes) : Option (UInt64 × UInt64) :=
  match parseNat 16 (t.take 16), parseNat 16 (t.drop 17) with
  | some ms, some seq => some (UInt64.ofNat ms, UInt64.ofNat seq)
  | _, _ => none

def readSeg : At → Bytes → Option (Seg × At)
  | .start, t => (parseNat 16 t).map fun p => (.bucket p, .top)
  | .top, t => (wordOf t).map fun w => (.word w, .db)
  | .db, t => (parseInt t).map fun n => (.db n, .names false)
  | .names inGroup, t =>
    match wordOf t with
    | some w => some (.word w, after inGroup w)
    | none => (base32Decode t).map fun name => (.enc name, .names inGroup)
  | .chunk, t => (parseNat 16 t).map fun n => (.chunk n, .names false)
  | .id inGroup, t => (parseId t).map fun i => (.id i.1 i.2, .names inGroup)
  | .pos, t => some (.pos t, .names false)

/-- Reading the texts of the segments gives the segments. -/
def Readable : At → List Seg → Prop
  | _, [] => True
  | s, g :: gs => ∃ s', readSeg s g.text = some (g, s') ∧ Readable s' gs

lemma Readable.left (h : Readable s (gs ++ hs)) : Readable s gs := by
  induction gs generalizing s with
  | nil => trivial
  | cons g gs ih =>
    obtain ⟨s', hRead, hRest⟩ := h
    exact ⟨s', hRead, ih hRest⟩

/-- **Reading from the left, a prefix of the text is a prefix of the path.** -/
theorem prefix_of_texts (hg : Readable s gs) (hh : Readable s hs) (h : gs.map Seg.text <+: hs.map Seg.text) :
    gs <+: hs := by
  induction gs generalizing s hs with
  | nil => exact nil_prefix
  | cons g gs ih =>
    cases hs with
    | nil => cases prefix_nil.mp h
    | cons g' hs =>
      obtain ⟨hText, hRest⟩ := cons_prefix_cons.mp h
      obtain ⟨s', hRead, hg⟩ := hg
      obtain ⟨s'', hRead', hh⟩ := hh
      rw [hText, hRead', Option.some.injEq, Prod.mk.injEq] at hRead
      obtain ⟨rfl, rfl⟩ := hRead
      exact cons_prefix_cons.mpr ⟨rfl, ih hg hh hRest⟩

lemma text_injOn (hg : Readable s gs) (hh : Readable s hs) (h : gs.map text = hs.map text) : gs = hs := by
  have hLen := congrArg List.length h
  rw [length_map, length_map] at hLen
  exact (prefix_of_texts hg hh (h ▸ prefix_rfl)).eq_of_length hLen

/-- **Keys with one text have one path.** -/
theorem text_inj (hg : ∀ g ∈ gs, g.Fine) (hh : ∀ g ∈ hs, g.Fine) (hgRead : Readable .start (newKey gs))
    (hhRead : Readable .start (newKey hs)) : keyText gs = keyText hs ↔ newKey gs = newKey hs := by
  rw [keyText_eq hg, keyText_eq hh]
  constructor
  · intro h
    exact text_injOn hgRead hhRead
      (render_injective (plain_of_fine (fine_newKey hg)) (plain_of_fine (fine_newKey hh)) h)
  · intro h
    rw [h]

/-- **What a prefix query returns.** -/
theorem below_iff_under {base segs : List Seg} (hBase : ∀ g ∈ base, g.Fine) (hSegs : ∀ g ∈ segs, g.Fine)
    (hBaseRead : Readable .start (newKey base)) (hSegsRead : Readable .start (newKey segs)) :
    Below (baseText base) (keyText segs) ↔ Under base (newKey segs) := by
  rw [Below, cleanPath_baseText hBase, keyText_eq hSegs,
    render_prefix_iff (plain_of_fine (fine_newKey hBase)) (plain_of_fine (fine_newKey hSegs))]
  constructor
  · rintro ⟨hPrefix, hNe⟩
    exact ⟨prefix_of_texts hBaseRead hSegsRead hPrefix, fun hEq => hNe (by rw [hEq])⟩
  · rintro ⟨hPrefix, hNe⟩
    exact ⟨hPrefix.map text, fun hEq => hNe (text_injOn hBaseRead hSegsRead hEq).symm⟩

/-! ### What is read where -/

lemma wordOf_text (w : Word) : wordOf w.text = some w := by
  cases w <;> decide

/-- The text of a fixed word is not what a name is written with. -/
lemma wordOf_enc : wordOf (base32Encode name) = none := by
  refine List.find?_eq_none.mpr fun w _ hEq => ?_
  have hText : w.text = base32Encode name := of_decide_eq_true hEq
  have hNil : ∀ w : Word, ∃ c s, w.text = c :: s ∧ base32Value c = none := by
    intro w
    cases w <;> exact ⟨_, _, rfl, by decide⟩
  obtain ⟨c, s, hw, hc⟩ := hNil w
  have hMem : c ∈ base32Encode name := by
    rw [← hText, hw]
    exact mem_cons_self
  obtain ⟨v, hv⟩ := base32Value_of_mem hMem
  rw [hc] at hv
  cases hv

lemma length_hex16 (n : UInt64) : (numeral 16 16 n.toNat).length = 16 :=
  length_numeral (by decide) (by decide) n.toNat_lt

lemma take_idText (s : Bytes) : (idText ms seq ++ s).take 16 = numeral 16 16 ms.toNat := by
  have hLen := length_hex16 ms
  rw [idText, append_assoc, take_append_of_le_length (le_of_eq hLen.symm)]
  exact take_of_length_le (le_of_eq hLen)

lemma drop_idText (s : Bytes) : (idText ms seq ++ s).drop 17 = numeral 16 16 seq.toNat ++ s := by
  have hLen := length_hex16 ms
  have hSplit : idText ms seq ++ s = (numeral 16 16 ms.toNat ++ [45]) ++ (numeral 16 16 seq.toNat ++ s) := by
    simp [idText]
  rw [hSplit]
  exact drop_left' (by simp [hLen])

lemma parseNat_hex (w n : Nat) : parseNat 16 (numeral 16 w n) = some n :=
  parseNat_numeral (by decide) (by decide) w n

lemma parseId_idText : parseId (idText ms seq) = some (ms, seq) := by
  have hTake := take_idText ms seq []
  have hDrop := drop_idText ms seq []
  rw [append_nil] at hTake hDrop
  rw [parseId, hTake, hDrop, append_nil, parseNat_hex, parseNat_hex]
  simp

lemma readable_bucket (h : Readable .top (newKey gs)) : Readable .start (newKey (.bucket p :: gs)) := by
  rw [newKey_cons (by nofun)]
  exact ⟨.top, by rw [readSeg, text, parseNat_hex, Option.map_some], h⟩

lemma readable_top (h : Readable .db (newKey gs)) : Readable .top (newKey (.word w :: gs)) := by
  rw [newKey_cons (by nofun)]
  exact ⟨.db, by rw [readSeg, text, wordOf_text, Option.map_some], h⟩

lemma readable_db {n : Int64} (h : Readable (.names false) (newKey gs)) :
    Readable .db (newKey (.db n :: gs)) := by
  rw [newKey_cons (by nofun)]
  exact ⟨.names false, by rw [readSeg, text, parseInt_formatInt, Option.map_some], h⟩

/-- An empty name is not there to be read, and after a name the same is read as before it. -/
lemma readable_enc {name : Bytes} (h : Readable (.names inGroup) (newKey gs)) :
    Readable (.names inGroup) (newKey (.enc name :: gs)) := by
  rw [newKey_enc]
  split
  · exact h
  · refine ⟨.names inGroup, ?_, h⟩
    simp only [readSeg, text, wordOf_enc name, base32Decode_encode, Option.map_some]

lemma readable_word (h : Readable (after inGroup w) (newKey gs)) :
    Readable (.names inGroup) (newKey (.word w :: gs)) := by
  rw [newKey_cons (by nofun)]
  exact ⟨after inGroup w, by simp only [readSeg, text, wordOf_text], h⟩

lemma readable_chunk {n : Nat} (h : Readable (.names false) (newKey gs)) :
    Readable .chunk (newKey (.chunk n :: gs)) := by
  rw [newKey_cons (by nofun)]
  exact ⟨.names false, by rw [readSeg, text, parseNat_hex, Option.map_some], h⟩

lemma readable_id {ms seq : UInt64} (h : Readable (.names inGroup) (newKey gs)) :
    Readable (.id inGroup) (newKey (.id ms seq :: gs)) := by
  rw [newKey_cons (by nofun)]
  exact ⟨.names inGroup, by rw [readSeg, text, parseId_idText, Option.map_some], h⟩

lemma readable_pos (h : Readable (.names false) (newKey gs)) : Readable .pos (newKey (.pos t :: gs)) := by
  rw [newKey_cons (by nofun)]
  exact ⟨.names false, by rw [readSeg, text], h⟩

/-! ## Addresses -/

/-- What the store keeps of a key, and where: the numbers of the chunks of a
bitmap fit into 32 bits, as its reader wants them to. -/
inductive Place
  | keyMeta (r : Replica)
  | str (r : Replica)
  | counter (r : Replica)
  | hll (r : Replica)
  | chunk (n : UInt32) (r : Replica)
  | entry (ms seq : UInt64) (r : Replica)
  | last (r : Replica)
  | group (g : Bytes) (r : Replica)
  | delivered (g : Bytes) (r : Replica)
  | pending (g : Bytes) (ms seq : UInt64) (r : Replica)
  | consumer (g c : Bytes) (r : Replica)
  | field (f : Bytes) (r : Replica)
  | fieldCounter (f : Bytes) (r : Replica)
  | member (m : Bytes)
  | score (m : Bytes) (r : Replica)
  | elem (bits : UInt64) (owner : Replica) (seq : UInt64)
  deriving DecidableEq

/-- A logical address. -/
structure Address where
  db : Int64
  key : Bytes
  place : Place
  deriving DecidableEq

variable {a : Address}

namespace Address

variable (a : Address)

/-- The segments that the builder of the address puts together. -/
def segs : List Seg :=
  match a.place with
  | .keyMeta r => metaBase a.db a.key ++ [.enc r.name]
  | .str r => strBase a.db a.key ++ [.enc r.name]
  | .counter r => counterBase a.db a.key ++ [.enc r.name]
  | .hll r => hllBase a.db a.key ++ [.enc r.name]
  | .chunk n r => bitChunkBase a.db a.key n.toNat ++ [.enc r.name]
  | .entry ms seq r => streamEntryBase a.db a.key ms seq ++ [.enc r.name]
  | .last r => streamLastBase a.db a.key ++ [.enc r.name]
  | .group g r => groupMetaBase a.db a.key g ++ [.enc r.name]
  | .delivered g r => groupLastBase a.db a.key g ++ [.enc r.name]
  | .pending g ms seq r => groupPelBase a.db a.key g ms seq ++ [.enc r.name]
  | .consumer g c r => groupConsumerBase a.db a.key g c ++ [.enc r.name]
  | .field f r => hashFieldBase a.db a.key f ++ [.enc r.name]
  | .fieldCounter f r => hashFieldCounterBase a.db a.key f ++ [.enc r.name]
  | .member m => setBase a.db a.key ++ [.enc m]
  | .score m r => zsetMemberBase a.db a.key m ++ [.enc r.name]
  | .elem bits owner seq => listBase a.db a.key ++ [.pos (posText bits owner seq)]

/-- The key of the address, as a path. -/
def path : Path := newKey a.segs

/-- The key of the address. -/
def text : Bytes := keyText a.segs

/-- The prefixes of scans that are to find the address. -/
def bases : List (List Seg) :=
  match a.place with
  | .keyMeta _ => [metaBase a.db a.key, [part a.db a.key, .word .m, .db a.db]]
  | .str _ => [strBase a.db a.key]
  | .counter _ => [counterBase a.db a.key]
  | .hll _ => [hllBase a.db a.key]
  | .chunk n _ => [bitBase a.db a.key, bitChunkBase a.db a.key n.toNat]
  | .entry _ _ _ => [streamBase a.db a.key]
  | .last _ => [streamLastBase a.db a.key]
  | .group g _ => [groupsBase a.db a.key, groupBase a.db a.key g]
  | .delivered g _ => [groupsBase a.db a.key, groupBase a.db a.key g, groupLastBase a.db a.key g]
  | .pending g _ _ _ => [groupsBase a.db a.key, groupBase a.db a.key g]
  | .consumer g _ _ => [groupsBase a.db a.key, groupBase a.db a.key g]
  | .field f _ => [hashBase a.db a.key, hashFieldBase a.db a.key f]
  | .fieldCounter f _ =>
    [hashBase a.db a.key, hashFieldBase a.db a.key f, hashFieldCounterBase a.db a.key f]
  | .member _ => [setBase a.db a.key]
  | .score m _ => [zsetBase a.db a.key, zsetMemberBase a.db a.key m]
  | .elem _ _ _ => [listBase a.db a.key]

end Address

/-! ### The collection and what stands below it

All keys of one collection begin with its prefix; the rest tells its members
apart. -/

namespace Place

/-- The fixed word of the collection. -/
def word : Place → Word
  | keyMeta _ => .m
  | str _ => .v
  | counter _ => .c
  | hll _ => .p
  | chunk _ _ => .b
  | entry _ _ _ => .x
  | last _ => .xl
  | group _ _ | delivered _ _ | pending _ _ _ _ | consumer _ _ _ => .xg
  | field _ _ | fieldCounter _ _ => .h
  | member _ => .e
  | score _ _ => .z
  | elem _ _ _ => .l

/-- What stands below the prefix of the collection. -/
def rest : Place → List Seg
  | keyMeta r | str r | counter r | hll r | last r => [.enc r.name]
  | chunk n r => [.chunk n.toNat, .enc r.name]
  | entry ms seq r => [.id ms seq, .enc r.name]
  | group g r => [.enc g, .word .m, .enc r.name]
  | delivered g r => [.enc g, .word .l, .enc r.name]
  | pending g ms seq r => [.enc g, .word .p, .id ms seq, .enc r.name]
  | consumer g c r => [.enc g, .word .c, .enc c, .enc r.name]
  | field f r => [.enc f, .enc r.name]
  | fieldCounter f r => [.enc f, .word .c, .enc r.name]
  | member m => [.enc m]
  | score m r => [.enc m, .enc r.name]
  | elem bits owner seq => [.pos (posText bits owner seq)]

/-- The prefixes within the collection by which the store scans. -/
def inner : Place → List (List Seg)
  | chunk n _ => [[.chunk n.toNat]]
  | group g _ | pending g _ _ _ | consumer g _ _ => [[.enc g]]
  | delivered g _ => [[.enc g], [.enc g, .word .l]]
  | field f _ => [[.enc f]]
  | fieldCounter f _ => [[.enc f], [.enc f, .word .c]]
  | score m _ => [[.enc m]]
  | _ => []

end Place

/-- The prefix of a collection. -/
def collectionBase (db : Int64) (key : Bytes) (w : Word) : List Seg :=
  if w = .m then metaBase db key else dataBase db key ++ [.word w]

namespace Address

section

variable (a : Address)

/-- The prefix of the collection that the address belongs to. -/
def base : List Seg := collectionBase a.db a.key a.place.word

lemma segs_eq : a.segs = a.base ++ a.place.rest := by
  obtain ⟨db, key, place⟩ := a
  cases place <;> rfl

lemma bases_eq : a.bases = a.base :: a.place.inner.map (a.base ++ ·) ++ if a.place.word =
    .m then [[part a.db a.key, .word .m, .db a.db]] else [] := by
  obtain ⟨db, key, place⟩ := a
  cases place <;> rfl

lemma fine_segs : ∀ g ∈ a.segs, g.Fine := by
  obtain ⟨db, key, place⟩ := a
  cases place <;>
    simp [segs_eq, base, collectionBase, Place.word, Place.rest, metaBase, dataBase, part]

/-- The keys of all addresses can be read from the left. -/
lemma readable_path : Readable .start a.path := by
  obtain ⟨db, key, place⟩ := a
  have hEnd : ∀ (inGroup : Bool) (name : Bytes), Readable (.names inGroup) (newKey [.enc name]) :=
    fun _ _ => readable_enc trivial
  have hData : ∀ w gs, Readable (after false w) (newKey gs) →
      Readable .start (newKey (.bucket (bucket db key) :: .word .d :: .db db :: .enc key :: .word w :: gs)) :=
    fun w gs h => readable_bucket (readable_top (readable_db (readable_enc (readable_word h))))
  cases place with
  | keyMeta r => exact readable_bucket (readable_top (readable_db (readable_enc (hEnd _ _))))
  | str r | counter r | hll r | last r | member m => exact hData _ _ (hEnd _ _)
  | chunk n r => exact hData _ _ (readable_chunk (hEnd _ _))
  | entry ms seq r => exact hData _ _ (readable_id (hEnd _ _))
  | group g r => exact hData _ _ (readable_enc (readable_word (hEnd _ _)))
  | delivered g r => exact hData _ _ (readable_enc (readable_word (hEnd _ _)))
  | pending g ms seq r => exact hData _ _ (readable_enc (readable_word (readable_id (hEnd _ _))))
  | consumer g c r => exact hData _ _ (readable_enc (readable_word (readable_enc (hEnd _ _))))
  | field f r => exact hData _ _ (readable_enc (hEnd _ _))
  | fieldCounter f r => exact hData _ _ (readable_enc (readable_word (hEnd _ _)))
  | score m r => exact hData _ _ (readable_enc (hEnd _ _))
  | elem bits owner seq => exact hData _ _ (readable_pos trivial)

lemma eq_keyMeta {p : Place} (h : p.word = .m) : ∃ r, p = .keyMeta r := by
  cases p
  case keyMeta r => exact ⟨r, rfl⟩
  all_goals cases h

lemma path_eq : a.path = newKey a.base ++ newKey a.place.rest := by
  rw [path, segs_eq, newKey_append]

end

/-- **Two collections of data are told apart by the first segments.** -/
theorem collection_of_prefix {db db' : Int64} {key key' : Bytes} (hw : w ≠ .m)
    (h : newKey (collectionBase db key w) <+: newKey (collectionBase db' key' w') ++ gs) :
    db' = db ∧ key' = key ∧ w' = w := by
  rw [collectionBase, if_neg hw] at h
  by_cases hw' : w' = .m
  · rw [collectionBase, if_pos hw'] at h
    simp [dataBase, metaBase, newKey, part] at h
  · rw [collectionBase, if_neg hw'] at h
    by_cases hk : key = [] <;> by_cases hk' : key' = [] <;>
      simp_all [dataBase, newKey, part]

/-- The keys of metadata. -/
lemma path_keyMeta (db : Int64) (key : Bytes) (r : Replica) : path ⟨db, key, .keyMeta r⟩ =
    part db key :: .word .m :: .db db :: if key = [] then [.enc r.name] else [.enc key, .enc r.name] := by
  show newKey (part db key :: .word .m :: .db db :: .enc key :: [.enc r.name]) = _
  rw [part, newKey_cons (by nofun), newKey_cons (by nofun), newKey_cons (by nofun), newKey_enc, newKey_replica, newKey_nil]

/-- **The prefix of a collection has the addresses of the collection below it**,
and nothing else: but that of the metadata of the empty key has all the metadata
of a bucket. -/
theorem collection_of_under {db : Int64} {key : Bytes} (hKey : w = .m → key ≠ [])
    (h : Under (collectionBase db key w) a.path) : a.db = db ∧ a.key = key ∧ a.place.word = w := by
  by_cases hw : w = .m
  · obtain ⟨hPrefix, hNe⟩ := h
    have hBase : newKey (collectionBase db key w) = [part db key, .word .m, .db db, .enc key] := by
      simp [collectionBase, hw, metaBase, newKey, part, hKey hw]
    rw [hBase] at hPrefix hNe
    by_cases hw' : a.place.word = .m
    · obtain ⟨db', key', place⟩ := a
      obtain ⟨r, rfl⟩ := eq_keyMeta hw'
      rw [path_keyMeta] at hPrefix hNe
      by_cases hKey' : key' = []
      · -- the metadata of the empty key would have to be the prefix itself
        rw [if_pos hKey'] at hPrefix hNe
        have hEq : part db key = part db' key' ∧ db = db' ∧ key = r.name := by simpa using hPrefix
        exact absurd (by rw [hEq.1, hEq.2.1, hEq.2.2]) hNe
      · rw [if_neg hKey'] at hPrefix
        have hEq : part db key = part db' key' ∧ db = db' ∧ key = key' := by simpa using hPrefix
        exact ⟨hEq.2.1.symm, hEq.2.2.symm, hw.symm⟩
    · rw [path_eq, base, collectionBase, if_neg hw'] at hPrefix
      simp [dataBase, newKey, part] at hPrefix
  · rw [Under, path_eq] at h
    exact collection_of_prefix hw h.1

/-! ### One path, one address -/

lemma posText_inj {bits bits' seq seq' : UInt64} (h : posText bits owner seq = posText bits' owner' seq') :
    bits = bits' ∧ owner = owner' ∧ seq = seq' := by
  -- the numbers at both ends have a fixed width
  obtain ⟨hBits, hRest⟩ := append_inj h (by rw [length_hex16, length_hex16])
  obtain ⟨hName, hSeq⟩ := append_inj' (List.cons.inj hRest).2
    (by rw [length_cons, length_cons, length_hex16, length_hex16])
  have hNum : ∀ {n n' : UInt64}, numeral 16 16 n.toNat = numeral 16 16 n'.toNat → n = n' := fun hEq =>
    UInt64.toNat_inj.mp (numeral_inj (by decide) (by decide) hEq)
  exact ⟨hNum hBits, Replica.ext (base32Encode_injective hName), hNum (List.cons.inj hSeq).2⟩

/-- Within a collection the rest of a key tells its address. -/
lemma rest_injective {p q : Place} (hWord : p.word = q.word) (h : newKey p.rest = newKey q.rest) : p = q := by
  cases p <;> cases q <;> first | (cases hWord; done) | skip
  case elem.elem bits owner seq bits' owner' seq' =>
    have hText : posText bits owner seq = posText bits' owner' seq' := by
      simpa [Place.rest, newKey] using h
    obtain ⟨rfl, rfl, rfl⟩ := posText_inj hText
    rfl
  -- an empty name leaves no segment, and what is left has its place by its kind
  all_goals
    simp only [Place.rest, newKey_enc, newKey_cons, ne_eq, reduceCtorEq, not_false_eq_true, newKey_nil,
      Replica.nonempty, if_false] at h
    repeat' split at h
  all_goals simp_all [Replica.ext_iff, UInt32.toNat_inj]

/-- **One path, one address**, with empty names and all. -/
theorem path_injective : Function.Injective path := by
  intro a a' h
  have hMeta : ∀ {b b' : Address}, b.path = b'.path → b.place.word ≠ .m →
      b'.db = b.db ∧ b'.key = b.key ∧ b'.place.word = b.place.word := by
    intro b b' hEq hWord
    refine collection_of_prefix hWord (?_ : newKey b.base <+: newKey b'.base ++ newKey b'.place.rest)
    rw [← path_eq, ← hEq, path_eq]
    exact prefix_append _ _
  obtain ⟨db, key, p⟩ := a
  obtain ⟨db', key', p'⟩ := a'
  by_cases hWord : p.word = .m
  · -- two keys of metadata: their number of segments says whether the key is empty
    by_cases hWord' : p'.word = .m
    · obtain ⟨r, rfl⟩ := eq_keyMeta hWord
      obtain ⟨r', rfl⟩ := eq_keyMeta hWord'
      rw [path_keyMeta, path_keyMeta] at h
      split at h <;> split at h <;> simp_all [Replica.ext_iff]
    · exact absurd ((hMeta h.symm hWord').2.2.symm.trans hWord) hWord'
  · obtain ⟨hDb, hKey, hSame⟩ := hMeta h hWord
    simp only at hDb hKey hSame
    rw [hDb, hKey] at h ⊢
    rw [path_eq, path_eq, base, base, hSame] at h
    rw [rest_injective hSame.symm (append_cancel_left h)]

/-- **Distinct addresses have distinct keys.** -/
theorem text_injective : Function.Injective text := fun a a' h =>
  path_injective ((text_inj a.fine_segs a'.fine_segs a.readable_path a'.readable_path).mp h)

lemma mem_bases : b ∈ a.bases ↔ b = a.base ∨ (∃ i ∈ a.place.inner, b = a.base ++ i) ∨ a.place.word = .m ∧
    b = [part a.db a.key, .word .m, .db a.db] := by
  rw [bases_eq, mem_append, mem_cons, mem_map, or_assoc]
  refine or_congr_right (or_congr ?_ ?_)
  · exact exists_congr fun i => and_congr_right fun _ => eq_comm
  · split
    case isTrue h => rw [mem_singleton, and_iff_right h]
    case isFalse h => exact iff_of_false not_mem_nil fun hAnd => h hAnd.1

lemma inner_begins {p : Place} (h : i ∈ p.inner) : i <+: p.rest ∧ i ≠ p.rest := by
  cases p <;> simp only [Place.inner, mem_cons, not_mem_nil, or_false] at h
  case delivered | fieldCounter => rcases h with rfl | rfl <;> simp [Place.rest]
  all_goals simp [h, Place.rest]

/-- The prefixes by which an address is scanned for begin its segments, and are not all of them. -/
lemma exists_rest (h : b ∈ a.bases) : ∃ gs, a.segs = b ++ gs ∧ gs ≠ [] := by
  rw [segs_eq]
  rcases mem_bases.mp h with rfl | ⟨i, hi, rfl⟩ | ⟨hWord, rfl⟩
  · refine ⟨a.place.rest, rfl, ?_⟩
    cases a.place <;> simp [Place.rest]
  · obtain ⟨⟨gs, hgs⟩, hNe⟩ := inner_begins hi
    refine ⟨gs, by rw [append_assoc, hgs], ?_⟩
    rintro rfl
    exact hNe (by rw [← hgs, append_nil])
  · exact ⟨.enc a.key :: a.place.rest, by rw [base, hWord]; rfl, cons_ne_nil _ _⟩

lemma fine_of_mem_bases (h : b ∈ a.bases) : ∀ g ∈ b, g.Fine := by
  obtain ⟨gs, hSegs, -⟩ := exists_rest h
  exact fun g hg => a.fine_segs g (hSegs ▸ mem_append_left gs hg)

/-- **A scan for some address returns, of all addresses, those below its base.** -/
theorem below_text_iff {a' : Address} (h : b ∈ a.bases) : Below (baseText b) a'.text ↔ Under b a'.path := by
  obtain ⟨gs, hSegs, -⟩ := exists_rest h
  have hRead : Readable .start (newKey b) := by
    have hPath := a.readable_path
    rw [path, hSegs, newKey_append] at hPath
    exact hPath.left
  exact below_iff_under (fine_of_mem_bases h) a'.fine_segs hRead a'.readable_path

end Address

end RedGeo.Store
