import RedGeo.Repo.Components
import RedGeo.Repo.Methods
import RedGeo.Repo.StreamIDs

/-!
# RedGeo — commands on a stream

`XADD`, `XGROUP CREATE` and `XREADGROUP >` on one stream at any number of replicas
(`crdtstore/rstream.go`, `crdtstore/rstream_group.go`). A command notes what it is told of
the last IDs, of its group and of the entries, and which entry it has put.

* `streamRules` — what these commands put, given what they have noted.
* `keeps_stream` — they keep to it, whatever arrives while they run.
-/

namespace RedGeo.Repo

open Lib Store Function List Option Datastore Kind

/-- The name of a group, which is not empty. -/
structure GroupName where
  name : Bytes
  nonempty : name ≠ []

instance : DecidableEq GroupName
  | ⟨a, _⟩, ⟨b, _⟩ => decidable_of_iff (a = b) ⟨fun h => by subst h; rfl, fun h => congrArg GroupName.name h⟩

inductive StreamCmd
  | add (noMkStream : Bool) (mode : IDMode) (fields : Fields)
  | create (group : GroupName) (id : StreamID) (mkstream : Bool)
  | readNew (group : GroupName) (consumer : Bytes) (count : Int) (noack : Bool)

/-- The method a command calls. -/
def StreamCmd.method (key : Bytes) : StreamCmd → RStream
  | .add noMkStream mode fields => .add key ⟨noMkStream, mode, none⟩ fields.list
  | .create group id mkstream => .groupCreate key group.name id mkstream
  | .readNew group consumer count noack => .readNew key group.name consumer count noack

/-- Commands on the stream. -/
abbrev streamService (db : Int64) (key : Bytes) : Service where
  Cmd := StreamCmd
  Out c := (c.method key).Result
  program n c := (Method.stream (c.method key)).program ⟨n, db⟩

section

variable (db : Int64) (key : Bytes)

section

variable (n : Replica)

/-- Where a replica keeps the highest ID it has used. -/
def lastKey : Path := slotKey (streamLastBase db key) n

variable (group : GroupName)

/-- Where a replica keeps the last ID that it has delivered to a group. -/
def deliveredKey (n : Replica) : Path := slotKey (groupLastBase db key group.name) n

/-- What a command has been told, prefix by prefix, until it was told the entries, and the
entry that it has put. -/
structure Streaming where
  heard : List Seg → Option (List (Path × Bytes)) := fun _ => none
  wrote : Option StreamID := none

/-- The answers that a command notes. -/
def Noted (base : List Seg) : Prop :=
  base = streamLastBase db key ∨ base = streamBase db key ∨ groupsBase db key <+: base

instance (base : List Seg) : Decidable (Noted db key base) := inferInstanceAs (Decidable (_ ∨ _))

def Streaming.note (d : Streaming) : (op : Call) → Answer op → Streaming
  | .query base false, .ok entries =>
    if Noted db key base ∧ d.heard (streamBase db key) = none then
      { d with heard := update d.heard base (some entries) }
    else d
  | .put k _, _ =>
    if Under (streamBase db key) k then
      { d with wrote := (entrySlot (streamBase db key) k).map Prod.fst }
    else d
  | _, _ => d

/-- What the metadata of a stream say. -/
def IsStream (m : MetaEnvelope) : Prop := m = Kind.stream.envelope 0

/-- The last IDs are IDs of replicas. -/
def LastSlots (data : Datastore) : Prop :=
  ∀ k v, Under (streamLastBase db key) k → data[k]? = some v → ∃ o id, k = lastKey db key o ∧ v = encodeID id

/-- The highest ID of a replica. -/
def ownLast (own : Path → Option Bytes) : StreamID :=
  ((own (lastKey db key n)).bind decodeID).getD ⟨0, 0⟩

/-- The state of a group, from what is below its prefix. -/
def groupIn (entries : List (Path × Bytes)) : GroupData :=
  groupDataOf (entries.map fun e => (trimPrefix (groupBase db key group.name) e.1, e.2))

/-- What a call of `XREADGROUP` hands out. -/
def handOut (count : Int) (last : StreamID) (all : List StreamEntry) : List StreamEntry :=
  limited count (all.filter fun e => last.lt e.id)

/-- What a command hands out, given its notes. -/
def Streaming.given (d : Streaming) (group : GroupName) (count : Int) : List StreamEntry :=
  match d.heard (groupBase db key group.name), d.heard (streamBase db key) with
  | some ofGroup, some stored =>
    handOut count (groupIn db key group ofGroup).last (liveEntries (streamBase db key) stored)
  | _, _ => []

/-- A replica says that the key is a stream. -/
def Announced (k : Path) (v : Bytes) : Prop :=
  k = slotKey (metaBase db key) n ∧ ∃ st, v = encodeSlot ⟨st, tagPresent, encodeMeta (Kind.stream.envelope 0)⟩

/-- What `XADD` puts: one entry, under an ID that it mints from the last IDs it was told,
then that ID as its own last one, if it is higher. -/
def mayAdd (mode : IDMode) (fields : Fields) (own : Path → Option Bytes) (d : Streaming) (k : Path)
    (v : Bytes) : Prop :=
  (d.wrote = none ∧ ∃ es now id st, d.heard (streamLastBase db key) = some es ∧
    nextStreamID now (lastIn (streamLastBase db key) n.name es).1 mode (discriminator n.name) = .ok id ∧
    k = entryKey db key id n ∧ v = encodeSlot ⟨st, tagPresent, encodeFields fields.list⟩) ∨
  (∃ id, d.wrote = some id ∧ (ownLast db key n own).toNat < id.toNat ∧ k = lastKey db key n ∧ v = encodeID id) ∨
  Announced db key n k v

/-- What `XGROUP CREATE` puts. -/
def mayCreate (id : StreamID) (k : Path) (v : Bytes) : Prop :=
  (k = lastKey db key n ∧ v = encodeID ⟨0, 0⟩) ∨ Announced db key n k v ∨
  (k = slotKey (groupMetaBase db key group.name) n ∧ ∃ st, v = encodeSlot ⟨st, tagPresent, []⟩) ∨
  (k = deliveredKey db key group n ∧ v = toBe 8 0 ++ encodeID id)

/-- What `XREADGROUP` puts: what it hands out is pending, and the last of it is the last that
was delivered. -/
def mayRead (consumer : Bytes) (count : Int) (d : Streaming) (k : Path)
    (v : Bytes) : Prop :=
  (k = slotKey (groupConsumerBase db key group.name consumer) n) ∨
  (∃ id : StreamID, k = slotKey (groupPelBase db key group.name id.ms id.seq) n) ∨
  (k = deliveredKey db key group n ∧ ∃ ofGroup final, d.heard (groupBase db key group.name) = some ofGroup ∧
    (d.given db key group count).getLast? = some final ∧
    v = toBe 8 (groupIn db key group ofGroup).epoch.toNat ++ encodeID final.id)

/-- What an `XADD` has come to: its ID is not above its replica's last one, and the key is
known to be a stream. -/
def postAdd (g : Knows Streaming) : Except Err (Option StreamID) → Prop
  | .ok (some id) => g.notes.wrote = some id ∧ id.toNat ≤ (ownLast db key n g.own).toNat ∧
    (Sighted (metaBase db key) g.known ∨ (g.own (slotKey (metaBase db key) n)).isSome)
  | _ => g.notes.wrote = none

end

/-- What an `XREADGROUP` has come to. -/
def postRead (group : GroupName) (count : Int) (g : Knows Streaming) : Except Err (List StreamEntry) → Prop
  | .ok out => out = g.notes.given db key group count
  | .error _ => g.notes.heard (streamBase db key) = none

def streamRules : Rules (streamService db key) Streaming where
  init _ := {}
  note := Streaming.note db key
  note_silent d op x hOp := by cases op <;> first | rfl | exact hOp.elim
  trust _ _ _ data := MetaSlots db key IsStream data ∧ LastSlots db key data
  may n c own d k v := match c with
    | .add _ mode fields => mayAdd db key n mode fields own d k v
    | .create group id _ => mayCreate db key n group id k v
    | .readNew group consumer count _ => mayRead db key n group consumer count d k v
  post n c g out := match c, out with
    | .add _ _ _, out => postAdd db key n g out
    | .create _ _ _, _ => True
    | .readNew group _ count _, out => postRead db key group count g out

end

/-! ## Notes -/

section

variable {db : Int64} {key : Bytes} (d : Streaming)

/-- The questions that no command takes notes of. -/
def Passing (db : Int64) (key : Bytes) (a : Ask) : Prop := ∀ base, a = .query base false → ¬ Noted db key base

lemma note_passing (ha : Passing db key a) (x : Answer a.call) : d.note db key a.call x = d := by
  cases a with
  | query base keysOnly =>
    cases keysOnly with
    | true => rfl
    | false =>
      cases x with
      | error e => rfl
      | ok entries => exact if_neg fun hBoth => ha base rfl hBoth.1
  | _ => rfl

lemma note_heard (h : Noted db key base)
    (hUnread : d.heard (streamBase db key) = none) (entries : List (Path × Bytes)) :
    d.note db key (.query base false) (.ok entries) =
      { d with heard := update d.heard base (some entries) } := if_pos ⟨h, hUnread⟩

/-- Once it was told the entries, a command takes no notes. -/
lemma note_read (base : List Seg) (keysOnly : Bool) (hRead : d.heard (streamBase db key) ≠ none)
    (entries : List (Path × Bytes)) : d.note db key (.query base keysOnly) (.ok entries) = d := by
  cases keysOnly with
  | true => rfl
  | false => exact if_neg fun hBoth => hRead hBoth.2

/-- What a query adds to the notes. -/
lemma note_asked (db : Int64) (key : Bytes) (d : Streaming) (base : List Seg) (keysOnly : Bool)
    (entries : List (Path × Bytes)) : (d.note db key (.query base keysOnly) (.ok entries)).wrote = d.wrote ∧
    ∀ b es, (d.note db key (.query base keysOnly) (.ok entries)).heard b = some es → d.heard b = some es ∨ b =
    base ∧ keysOnly = false ∧ es = entries := by
  cases keysOnly with
  | true => exact ⟨rfl, fun b es hHeard => .inl hHeard⟩
  | false =>
    by_cases hNoted : Noted db key base ∧ d.heard (streamBase db key) = none
    · rw [note_heard d hNoted.1 hNoted.2]
      refine ⟨rfl, fun b es hHeard => ?_⟩
      obtain ⟨hb, hNew⟩ | ⟨-, hOld⟩ := update_cases hHeard
      · exact .inr ⟨hb, rfl, (some.inj hNew).symm⟩
      · exact .inl hOld
    · have hSame : d.note db key (.query base false) (.ok entries) = d := if_neg hNoted
      rw [hSame]
      exact ⟨rfl, fun b es hHeard => .inl hHeard⟩

/-- The metadata are not noted. -/
lemma passing_meta : Passing db key (.query (metaBase db key) false) := by
  intro base hEq hNoted
  injection hEq with hBase
  subst hBase
  rcases hNoted with hEq | hEq | ⟨rest, hEq⟩
  · simp [metaBase, streamLastBase, dataBase] at hEq
  · simp [metaBase, streamBase, dataBase] at hEq
  · simp [metaBase, groupsBase, dataBase] at hEq

lemma noted_entries : Noted db key (streamBase db key) := .inr (.inl rfl)

lemma noted_group (group : GroupName) : Noted db key (groupBase db key group.name) :=
  .inr (.inr (prefix_append _ _))

/-- Putting an entry is noted. -/
lemma note_entry (hKey : key ≠ []) (d : Streaming) (id : StreamID) (n : Replica) (v : Bytes)
    (x : Answer (.put (entryKey db key id n) v)) :
    d.note db key (.put (entryKey db key id n) v) x = { d with wrote := some id } := by
  rw [Streaming.note, if_pos (under_entryKey id n), entrySlot_entryKey hKey]
  rfl

/-- Putting something that is not an entry is not noted. -/
lemma note_other (hk : ¬ Under (streamBase db key) k) (v : Bytes)
    (x : Answer (.put k v)) : d.note db key (.put k v) x = d := if_neg hk

end

section

variable (n : Replica)

lemma not_entry_last : ¬ Under (streamBase db key) (lastKey db key n) :=
  not_under_apart _ (by decide) [] n

lemma not_entry_meta : ¬ Under (streamBase db key) (slotKey (metaBase db key) n) :=
  not_under_metaSlot db key [.word .x] n

lemma lastKey_ne_entryKey (n' : Replica) (id : StreamID) : lastKey db key n' ≠ entryKey db key id n := by
  intro hEq
  have hUnder : Under (streamBase db key) (entryKey db key id n) := under_entryKey id n
  rw [← hEq] at hUnder
  exact not_entry_last n' hUnder

lemma lastKey_ne_metaSlot (n' : Replica) : lastKey db key n' ≠ slotKey (metaBase db key) n := by
  intro hEq
  have hUnder : Under (streamLastBase db key) (lastKey db key n') := under_slotKey _ n'
  rw [hEq] at hUnder
  exact not_under_metaSlot db key [.word .xl] n hUnder

/-- What is stored of a group is not an entry. -/
lemma not_entry_group (rest : List Seg) : ¬ Under (streamBase db key) (slotKey (groupsBase db key ++ rest) n) :=
  not_under_apart (dataBase db key) (by decide) rest n

lemma mine_lastKey : Mine db key n (lastKey db key n) := mine_slotKey db key [.word .xl] n

/-- What a replica stores of a group is its own. -/
lemma mine_group (rest : List Seg) : Mine db key n (slotKey (groupsBase db key ++ rest) n) :=
  mine_slotKey db key (.word .xg :: rest) n

end

/-! ## Reading -/

section

variable {F : Datastore → Prop}

/-- **What `ensureStream` finds.** -/
theorem finds_ensureStream (hF : ∀ data, F data → MetaSlots db key IsStream data) :
    Finds db key (Passing db key) F
      (fun known' out => ∃ found, out = .ok found ∧ (found.isSome → Sighted (metaBase db key) known'))
      (ensureStream ⟨n, db⟩ key) known := by
  have hLive : SeesLive db key (Passing db key) F IsStream n := by
    rintro m known rfl
    exact finds_anyPrefix fun base hEq => by cases hEq
  have hStream : ∀ m, IsStream m → m.type = typeStream ∧ m.etimeMS = 0 := by
    rintro m rfl
    exact ⟨rfl, rfl⟩
  refine finds_bind (finds_probe passing_meta hF hStream hLive) ?_ ?_
  · rintro known' found ⟨-, found', hEq, hFound⟩
    cases hEq
    cases found with
    | none => exact ⟨none, rfl, fun hSome => (nomatch hSome)⟩
    | some k =>
      obtain ⟨hType, -, hSighted⟩ := hFound k rfl
      show Finds db key (Passing db key) F _ (if k.type ≠ typeStream then _ else _) known'
      rw [if_neg (not_not_intro hType)]
      exact ⟨_, rfl, fun _ => hSighted⟩
  · rintro known' e ⟨-, found, hEq, -⟩
    cases hEq

end

/-- A stream that exists. -/
lemma exec_ensureStream (hMeta : metaAt w.data ⟨n, db⟩ key = some (stream.envelope 0, mtime))
    (hLive : w.data.entries (streamLastBase db key) ≠ []) :
    (ensureStream ⟨n, db⟩ key).exec w = (.ok (some 0), w) := by
  have hNamed : namedLive ⟨n, db⟩ key w.data (stream.envelope 0) = true := by
    show (! (w.data.entries (streamLastBase db key)).isEmpty) = true
    rw [Bool.not_eq_true', isEmpty_eq_false_iff]
    exact hLive
  have hProbe : (probe ⟨n, db⟩ key).exec w = (.ok (some ⟨key, typeStream, mtime, none⟩), w) := by
    rw [exec_probe, probeAt, World.probed, hMeta]
    simp only [hNamed]
    rfl
  rw [ensureStream, read_bind hProbe]
  rfl

/-- What `XRANGE` reads of a stream. -/
lemma exec_streamRange (hStream : (ensureStream ⟨n, db⟩ key).exec w = (.ok (some 0), w)) (lo hi : StreamBound) :
    (streamRange ⟨n, db⟩ key lo hi 0 false).exec w =
      (.ok ((liveEntries (streamBase db key) (w.data.entries (streamBase db key))).filter fun e =>
        inBounds lo hi e.id), w) := by
  have hLive : (streamLive ⟨n, db⟩ key).exec w =
      (.ok (liveEntries (streamBase db key) (w.data.entries (streamBase db key))), w) :=
    exec_load (streamBase db key) (liveEntries (streamBase db key)) w
  rw [streamRange, withStream, read_bind hStream]
  show (streamLive ⟨n, db⟩ key >>= _ : ReadM (List StreamEntry)).exec w = _
  rw [read_bind hLive]
  rfl

lemma LastSlots.trim (hKey : key ≠ []) (h : LastSlots db key data)
    (he : e ∈ data.entries (streamLastBase db key)) :
    ∃ o id, e = (lastKey db key o, encodeID id) ∧ trimPrefix (streamLastBase db key) e.1 = [.enc o.name] := by
  obtain ⟨hEntry, hUnder⟩ := mem_entries.mp he
  obtain ⟨o, id, hk, hv⟩ := h e.1 e.2 hUnder hEntry
  refine ⟨o, id, Prod.ext hk hv, ?_⟩
  rw [hk]
  exact trimPrefix_slotKey hKey .xl o

/-- What `streamLast` says of the replica itself. -/
lemma LastSlots.own (hKey : key ≠ []) (h : LastSlots db key data) (n : Replica) :
    (lastIn (streamLastBase db key) n.name (data.entries (streamLastBase db key))).2 =
    ownLast db key n (ownOf db key n data) := by
  unfold ownLast
  rw [ownOf_of_mine (mine_lastKey n)]
  have hSame : ∀ e ∈ data.entries (streamLastBase db key), trimPrefix (streamLastBase db key) e.1 = [.enc n.name] →
      e.1 = lastKey db key n := by
    intro e he hTrim
    obtain ⟨o, id, rfl, hName⟩ := h.trim hKey he
    rw [hTrim] at hName
    have hEq : n.name = o.name := by simpa using hName
    rw [Replica.ext hEq]
  cases hv : data[lastKey db key n]? with
  | none =>
    refine lastIn_none fun e he hTrim => ?_
    have hEntry := (mem_entries.mp he).1
    rw [hSame e he hTrim, hv] at hEntry
    cases hEntry
  | some v =>
    have he : (lastKey db key n, v) ∈ data.entries (streamLastBase db key) :=
      mem_entries.mpr ⟨hv, under_slotKey _ n⟩
    obtain ⟨o, id, hEq, hTrim⟩ := h.trim hKey he
    obtain ⟨hk, rfl⟩ := Prod.mk.inj hEq
    obtain rfl := slotKey_injective _ hk
    rw [bind_some, decodeID_encodeID]
    refine lastIn_own he (decodeID_encodeID id) hTrim fun e' he' hTrim' => ?_
    have hEntry := (mem_entries.mp he').1
    have hPath := hSame e' he' hTrim'
    rw [hPath, hv] at hEntry
    exact Prod.ext hPath (some.inj hEntry).symm

/-! ## Keeping to the rules -/

/-- The end of an `XADD` that has put its entry and its last ID. -/
lemma heeds_announce {d : Streaming} {id : StreamID} (found : Option Int64)
    (hSighted : found.isSome → Sighted (metaBase db key) known) (hWrote : d.wrote = some id)
    (hLast : id.toNat ≤ (ownLast db key n own).toNat) :
    (Db.on ⟨n, db⟩ key (if found.isNone then writeMeta stream 0 >>= fun _ => pure (some id)
      else pure (some id))).Heeds ((streamRules db key).protocol db key n (.add noMkStream mode fields))
      ((streamRules db key).post n (.add noMkStream mode fields)) ⟨own, known, d⟩ := by
  split
  · refine heeds_writeMeta (fun st => .inr (.inr ⟨rfl, st, rfl⟩)) fun v => ?_
    have hNote : d.note db key (.put (slotKey (metaBase db key) n) v) (.ok ()) = d :=
      note_other d (not_entry_meta n) v _
    show postAdd db key n (Knows.mk (update own _ _) known
      (d.note db key (.put (slotKey (metaBase db key) n) v) (.ok ()))) (.ok (some id))
    rw [hNote]
    refine ⟨hWrote, ?_, .inr (isSome_of_eq_some (update_self _ _ _))⟩
    show id.toNat ≤ (ownLast db key n (update own (slotKey (metaBase db key) n) (some v))).toNat
    rw [ownLast, update_of_ne (lastKey_ne_metaSlot n n)]
    exact hLast
  · next hSome =>
    have hFound : found.isSome := by
      rw [isSome_iff_ne_none]
      rintro rfl
      exact hSome rfl
    exact ⟨hWrote, hLast, .inl (hSighted hFound)⟩

/-- What `Add` does with the ID that it has minted. -/
def addMinted (fields : Fields) (new : Bool) (own : StreamID) :
    Except Err StreamID → KeyM .stream (Option StreamID)
  | .error e => .fail e
  | .ok id => writeSlot (.entry id.ms id.seq) tagPresent (encodeFields fields.list) >>= fun _ =>
    if own.lt id then streamBumpLast id >>= fun _ =>
      if new then writeMeta .stream 0 >>= fun _ => pure (some id) else pure (some id)
    else if new then writeMeta .stream 0 >>= fun _ => pure (some id) else pure (some id)

/-- **What `XADD` does.** -/
theorem keeps_add (hKey : key ≠ []) (n : Replica) (noMkStream : Bool) (mode : IDMode) (fields : Fields)
    (own : Path → Option Bytes) : (streamRules db key).Keeps db key n (.add noMkStream mode fields)
      ((streamService db key).program n (.add noMkStream mode fields)) ⟨own, ∅, {}⟩ := by
  refine heeds_withLock ?_
  refine heeds_read (finds_ensureStream fun data hData => hData) (fun _ data hMeets => hMeets.2.2.1)
    (fun a ha => note_passing _ ha) ?_ fun known e hEq => rfl
  rintro known found ⟨found', hEq, hSighted⟩
  cases hEq
  show (Db.on ⟨n, db⟩ key (if found.isNone ∧ noMkStream then pure none else _)).Heeds _ _ _
  split
  · exact (rfl : (none : Option StreamID) = none)
  · refine heeds_load fun data hMeets => ?_
    obtain ⟨hOwn, -, -, hLasts⟩ := hMeets
    have hOwnLast := hLasts.own hKey n
    rw [show ownOf db key n data = own from hOwn] at hOwnLast
    refine heeds_silent (show Silent .nowMS from trivial) fun w => ?_
    show (Db.on ⟨n, db⟩ key (addMinted fields found.isNone
        (lastIn (streamLastBase db key) n.name (data.entries (streamLastBase db key))).2
        (nextStreamID (w.now 0).toUInt64
          (lastIn (streamLastBase db key) n.name (data.entries (streamLastBase db key))).1 mode
          (discriminator n.name)))).Heeds
      _ _ (Knows.mk own _ (Streaming.note db key {} (.query (streamLastBase db key) false)
        (.ok (data.entries (streamLastBase db key)))))
    rw [note_heard _ (.inl rfl) rfl, hOwnLast]
    cases hMint : nextStreamID (w.now 0).toUInt64
        (lastIn (streamLastBase db key) n.name (data.entries (streamLastBase db key))).1 mode
        (discriminator n.name) with
    | error e => exact (rfl : (none : Option StreamID) = none)
    | ok id =>
      refine heeds_writeSlot (mine_entryKey id n)
        (fun st => .inl ⟨rfl, _, _, id, st, update_self _ _ _, hMint, rfl, rfl⟩) fun v => ?_
      show (Db.on ⟨n, db⟩ key _).Heeds _ _ (Knows.mk (update own (entryKey db key id n) (some v)) _
        (Streaming.note db key _ (.put (entryKey db key id n) v) (.ok ())))
      rw [note_entry hKey]
      split
      · next hLt =>
        have hAbove : (ownLast db key n (update own (entryKey db key id n) (some v))).toNat < id.toNat := by
          rw [ownLast, update_of_ne (lastKey_ne_entryKey n n id)]
          exact StreamID.lt_iff.mp hLt
        refine heeds_putComp (mine_lastKey n) (.inr (.inl ⟨id, rfl, hAbove, rfl, rfl⟩)) ?_
        show (Db.on ⟨n, db⟩ key _).Heeds _ _ (Knows.mk (update _ (lastKey db key n) (some (encodeID id))) _
          (Streaming.note db key _ (.put (lastKey db key n) (encodeID id)) (.ok ())))
        rw [note_other _ (not_entry_last n)]
        refine heeds_announce found (fun hSome => (hSighted hSome).mono Set.subset_union_left) rfl ?_
        rw [ownLast, update_self, bind_some, decodeID_encodeID]
        exact Nat.le_refl id.toNat
      · next hNot =>
        refine heeds_announce found (fun hSome => (hSighted hSome).mono Set.subset_union_left) rfl ?_
        rw [ownLast, update_of_ne (lastKey_ne_entryKey n n id)]
        exact StreamID.not_lt_iff.mp hNot

/-- Reading of a command about which nothing is claimed in the end. -/
lemma heeds_anyRead {δ : Type} {rules : Rules S δ} {α β : Type}
    {post : Knows δ → Except Err α → Prop} {p : ReadM β} {f : β → KeyM X α} {g : Knows δ}
    (hOk : ∀ b g, (Db.on ⟨n, db⟩ key (f b)).Heeds (rules.protocol db key n c) post g)
    (hError : ∀ e g, post g (.error e)) :
    (Db.on ⟨n, db⟩ key (p.keyed >>= f)).Heeds (rules.protocol db key n c) post g := by
  induction p generalizing g with
  | done b => exact hOk b g
  | fail e => exact hError e g
  | call a next ih =>
    refine ⟨by cases a <;> trivial, fun x hx => ?_⟩
    obtain ⟨w, -, rfl⟩ := hx
    cases a <;> exact ih _

/-- The end of an `XGROUP CREATE` that has made sure of the stream. -/
lemma heeds_register {id : StreamID} {g : Knows Streaming} :
    (Db.on ⟨n, db⟩ key ((loadGroup ⟨n, db⟩ key group.name).keyed >>= fun found =>
      if found.isSome then .fail .groupExists
      else gWriteMeta group.name tagPresent >>= fun _ => gWriteLast group.name 0 id)).Heeds
      ((streamRules db key).protocol db key n (.create group id mkstream)) (fun _ _ => True) g := by
  refine heeds_anyRead (fun found g => ?_) fun _ _ => trivial
  split
  · trivial
  · refine heeds_writeSlot (mine_group n [.enc group.name, .word .m])
      (fun st => .inr (.inr (.inl ⟨rfl, st, rfl⟩))) fun v => ?_
    rw [← Prog.bind_done (gWriteLast group.name 0 id)]
    exact heeds_putComp (mine_group n [.enc group.name, .word .l]) (.inr (.inr (.inr ⟨rfl, rfl⟩))) trivial

/-- **What `XGROUP CREATE` does.** -/
theorem keeps_create (n : Replica) (group : GroupName) (id : StreamID) (mkstream : Bool)
    (own : Path → Option Bytes) : (streamRules db key).Keeps db key n (.create group id mkstream)
      ((streamService db key).program n (.create group id mkstream)) ⟨own, ∅, {}⟩ := by
  have hBody : (Db.on ⟨n, db⟩ key (groupCreate ⟨n, db⟩ key group.name id mkstream)).Heeds
      ((streamRules db key).protocol db key n (.create group id mkstream)) (fun _ _ => True) ⟨own, ∅, {}⟩ := by
    refine heeds_anyRead (fun found g => ?_) fun _ _ => trivial
    by_cases hNone : found.isNone ∧ !mkstream
    · rw [if_pos hNone]
      trivial
    · rw [if_neg hNone]
      show (Db.on ⟨n, db⟩ key (if found.isNone then streamBumpLast ⟨0, 0⟩ >>= fun _ =>
        writeMeta stream 0 >>= fun _ => _ else _)).Heeds _ _ _
      split
      · refine heeds_putComp (mine_lastKey n) (.inl ⟨rfl, rfl⟩) ?_
        exact heeds_writeMeta (fun st => .inr (.inl ⟨rfl, st, rfl⟩)) fun v => heeds_register
      · exact heeds_register
  exact heeds_withLock hBody

/-- A loop of writes that leave the notes as they are. -/
lemma heeds_writes {δ : Type} {rules : Rules S δ}
    {α β : Type} {post : Knows δ → Except Err α → Prop} {xs : List β} {f : β → KeyM X Unit}
    {rest : KeyM X α} {d : δ} (hStep : ∀ x ∈ xs, ∀ own known (next : KeyM X α),
      (∀ own, (Db.on ⟨n, db⟩ key next).Heeds (rules.protocol db key n c) post ⟨own, known, d⟩) →
      (Db.on ⟨n, db⟩ key (f x >>= fun _ => next)).Heeds (rules.protocol db key n c) post ⟨own, known, d⟩)
    (own : Path → Option Bytes) (known : Set Path)
    (hRest : ∀ own, (Db.on ⟨n, db⟩ key rest).Heeds (rules.protocol db key n c) post ⟨own, known, d⟩) :
    (Db.on ⟨n, db⟩ key (xs.forM f >>= fun _ => rest)).Heeds (rules.protocol db key n c) post ⟨own, known, d⟩ := by
  induction xs generalizing own with
  | nil => exact hRest own
  | cons x xs ih =>
    have hCons : ((x :: xs).forM f >>= fun _ => rest : KeyM X α) = f x >>= fun _ => xs.forM f >>= fun _ => rest :=
      Prog.bind_assoc (f x) (fun _ => xs.forM f) fun _ => rest
    rw [hCons]
    exact hStep x mem_cons_self own known _ fun own' =>
      ih (fun x' hx' => hStep x' (mem_cons_of_mem x hx')) own'

/-- The entries are not below the prefix of a group. -/
lemma streamBase_ne_groupBase (group : Bytes) : streamBase db key ≠ groupBase db key group := by
  simp [streamBase, groupBase, groupsBase]

lemma note_group (d : Streaming) (n : Replica) (rest : List Seg) (v : Bytes) :
    (streamRules db key).note d (.put (slotKey (groupsBase db key ++ rest) n) v) (.ok ()) = d :=
  note_other d (not_entry_group n rest) v (.ok ())

section

variable {count : Int}

lemma heeds_touch {post : Knows Streaming → Except Err (List StreamEntry) → Prop}
    {next : KeyM .stream (List StreamEntry)}
    (h : ∀ own, (Db.on ⟨n, db⟩ key next).Heeds
      ((streamRules db key).protocol db key n (.readNew group consumer count noack)) post ⟨own, known, d⟩) :
    (Db.on ⟨n, db⟩ key (gTouchConsumer group.name consumer >>= fun _ => next)).Heeds
      ((streamRules db key).protocol db key n (.readNew group consumer count noack)) post ⟨own, known, d⟩ := by
  rw [gTouchConsumer, Prog.bind_assoc]
  refine heeds_silent (show Silent .nowMS from trivial) fun w => ?_
  refine heeds_writeSlot (mine_group n [.enc group.name, .word .c, .enc consumer]) (fun st => .inl rfl) fun v => ?_
  have hNote : (streamRules db key).note d
      (.put (slotKey ((Reg.consumer group.name consumer).base db key) n) v) (.ok ()) = d :=
    note_group d n [.enc group.name, .word .c, .enc consumer] v
  rw [Rules.putting, hNote]
  exact h _

/-- The end of an `XREADGROUP` that has something to hand out. -/
lemma heeds_deliver
    (hGroup : d.heard (groupBase db key group.name) = some ofGroup) (hOut : d.given db key group count = out)
    (hFinal : out.getLast? = some final) :
    (Db.on ⟨n, db⟩ key (gWriteLast group.name (groupIn db key group ofGroup).epoch final.id >>= fun _ =>
      pure out)).Heeds ((streamRules db key).protocol db key n (.readNew group consumer count noack))
      (postRead db key group count) ⟨own, known, d⟩ := by
  refine heeds_putComp (mine_group n [.enc group.name, .word .l])
    (.inr (.inr ⟨rfl, ofGroup, final, hGroup, hOut ▸ hFinal, rfl⟩)) ?_
  have hNote : (streamRules db key).note d (.put ((Comp.delivered group.name).path db key n.name)
      (toBe 8 (groupIn db key group ofGroup).epoch.toNat ++ encodeID final.id)) (.ok ()) = d :=
    note_group d n [.enc group.name, .word .l] _
  rw [Rules.putting, hNote]
  exact hOut.symm

/-- What is left of an `XREADGROUP` that has found its group. -/
lemma heeds_readAll
    (hGroup : d.heard (groupBase db key group.name) = some ofGroup) (hUnread : d.heard (streamBase db key) = none) :
    (Db.on ⟨n, db⟩ key ((streamLive ⟨n, db⟩ key).keyed >>= fun all =>
      gTouchConsumer group.name consumer >>= fun _ =>
        match (handOut count (groupIn db key group ofGroup).last all).getLast? with
        | none => pure []
        | some final => nowMS.keyed >>= fun now => if !noack then
            (handOut count (groupIn db key group ofGroup).last all).forM (fun e =>
              gWritePel group.name e.id ⟨consumer, now,
                (((groupIn db key group ofGroup).pelOf e.id).bind decodePel).elim 0 PelValue.count + 1⟩) >>= fun _ =>
              gWriteLast group.name (groupIn db key group ofGroup).epoch final.id >>= fun _ =>
                pure (handOut count (groupIn db key group ofGroup).last all)
          else gWriteLast group.name (groupIn db key group ofGroup).epoch final.id >>= fun _ =>
            pure (handOut count (groupIn db key group ofGroup).last all))).Heeds
      ((streamRules db key).protocol db key n (.readNew group consumer count noack))
      (postRead db key group count) ⟨own, known, d⟩ := by
  refine heeds_load fun data _ => ?_
  show (Db.on ⟨n, db⟩ key _).Heeds _ _ (Knows.mk own _ (Streaming.note db key d (.query (streamBase db key) false)
    (.ok (data.entries (streamBase db key)))))
  rw [note_heard d noted_entries hUnread]
  -- what it hands out is settled now
  have hGroup' : update d.heard (streamBase db key) (some (data.entries (streamBase db key)))
      (groupBase db key group.name) = some ofGroup := by
    rw [update_of_ne (streamBase_ne_groupBase group.name).symm]
    exact hGroup
  have hGiven : Streaming.given db key
      { d with heard := update d.heard (streamBase db key) (some (data.entries (streamBase db key))) } group
      count = handOut count (groupIn db key group ofGroup).last
        (liveEntries (streamBase db key) (data.entries (streamBase db key))) := by
    simp only [Streaming.given, hGroup', update_self]
  refine heeds_touch fun own => ?_
  split
  · next hNone =>
    show [] = _
    rw [hGiven, List.getLast?_eq_none_iff.mp hNone]
  · next final hFinal =>
    refine heeds_silent (show Silent .nowMS from trivial) fun w => ?_
    show (Db.on ⟨n, db⟩ key (if !noack then _ else _)).Heeds _ _ _
    split
    · refine heeds_writes (fun e _ own known next hNext => ?_) own _ fun own => heeds_deliver hGroup' hGiven hFinal
      refine heeds_writeSlot (mine_group n [.enc group.name, .word .p, .id e.id.ms e.id.seq])
        (fun st => .inr (.inl ⟨e.id, rfl⟩)) fun v => ?_
      have hNote : ∀ d : Streaming, (streamRules db key).note d
          (.put (slotKey ((Reg.pending group.name e.id.ms e.id.seq).base db key) n) v) (.ok ()) = d := fun d =>
        note_group d n [.enc group.name, .word .p, .id e.id.ms e.id.seq] v
      rw [Rules.putting, hNote]
      exact hNext _
    · exact heeds_deliver hGroup' hGiven hFinal

end

/-- How `groupOpen` ends. -/
def orNoGroup : Option GroupData → ReadM GroupData
  | none => .fail .noGroup
  | some g => pure g

/-- **What `XREADGROUP` does.** -/
theorem keeps_readNew (n : Replica) (group : GroupName) (consumer : Bytes) (count : Int) (noack : Bool)
    (own : Path → Option Bytes) :
    (streamRules db key).Keeps db key n (.readNew group consumer count noack)
      ((streamService db key).program n (.readNew group consumer count noack)) ⟨own, ∅, {}⟩ := by
  have hBody : (Db.on ⟨n, db⟩ key (readNew ⟨n, db⟩ key group.name consumer count noack)).Heeds
      ((streamRules db key).protocol db key n (.readNew group consumer count noack))
      (postRead db key group count) ⟨own, ∅, {}⟩ := by
    rw [readNew]
    show (Db.on ⟨n, db⟩ key ((groupOpen ⟨n, db⟩ key group.name).keyed >>= _)).Heeds _ _ _
    rw [groupOpen, ReadM.keyed_bind, Prog.bind_assoc]
    refine heeds_read (finds_ensureStream fun data hData => hData) (fun _ data hMeets => hMeets.2.2.1)
      (fun a ha => note_passing _ ha) ?_ fun known e hEq => rfl
    rintro known found ⟨found', hEq, -⟩
    cases hEq
    cases found with
    | none => exact (rfl : (none : Option (List (Path × Bytes))) = none)
    | some etime =>
      show (Db.on ⟨n, db⟩ key ((loadGroup ⟨n, db⟩ key group.name >>= _ : ReadM GroupData).keyed >>= _)).Heeds _ _ _
      rw [ReadM.keyed_bind, Prog.bind_assoc, loadGroup, if_neg group.nonempty]
      refine heeds_load fun data _ => ?_
      show (Db.on ⟨n, db⟩ key ((orNoGroup (if (groupIn db key group (data.entries (groupBase db key group.name))).live
        then some (groupIn db key group (data.entries (groupBase db key group.name))) else none)).keyed >>= _)).Heeds
        _ _ (Knows.mk own _ (Streaming.note db key {}
          (.query (groupBase db key group.name) false) (.ok (data.entries (groupBase db key group.name)))))
      rw [note_heard _ (noted_group group) rfl]
      by_cases hLive : (groupIn db key group (data.entries (groupBase db key group.name))).live = true
      · rw [if_pos hLive]
        exact heeds_readAll (update_self _ _ _)
          (update_of_ne (streamBase_ne_groupBase group.name) _ _)
      · rw [if_neg hLive]
        exact update_of_ne (streamBase_ne_groupBase group.name) _ _
  exact heeds_withLock hBody

/-- **Every command keeps to the rules**, whatever arrives while it runs. -/
theorem keeps_stream (hKey : key ≠ []) (n : Replica) (c : StreamCmd) (own : Path → Option Bytes) :
    (streamRules db key).Keeps db key n c ((streamService db key).program n c) ⟨own, ∅, {}⟩ := by
  cases c with
  | add noMkStream mode fields => exact keeps_add hKey n noMkStream mode fields own
  | create group id mkstream => exact keeps_create n group id mkstream own
  | readNew group consumer count noack => exact keeps_readNew n group consumer count noack own

/-! ## What has been put -/

section

variable (db : Int64) (key : Bytes)

/-- Metadata, last IDs and entries are what these commands put. -/
structure View.Streamed {S : Service} {δ : Type} (v : View S δ) : Prop where
  metas : v.Slotted (metaBase db key) fun value => ∃ m, IsStream m ∧ value = encodeMeta m
  lasts : v.Logged (streamLastBase db key) fun k val => ∃ o id, k = lastKey db key o ∧ val = encodeID id
  entries : v.Logged (streamBase db key) fun k val => ∃ id o st, ∃ f : Fields, k = entryKey db key id o ∧
    val = encodeSlot ⟨st, tagPresent, encodeFields f.list⟩

variable {db : Int64} {key : Bytes}

/-- What a command may put is metadata, a last ID, an entry, or something of a group. -/
lemma kinds_of_may {n : Replica} {d : Streaming} (h : (streamRules db key).may n c own d k v) :
    Announced db key n k v ∨ (∃ id, k = lastKey db key n ∧ v = encodeID id) ∨
    (∃ id st, ∃ f : Fields, k = entryKey db key id n ∧ v = encodeSlot ⟨st, tagPresent, encodeFields f.list⟩) ∨
    ∃ rest, k = slotKey (groupsBase db key ++ rest) n := by
  cases c with
  | add noMkStream mode fields =>
    obtain ⟨-, es, now, id, st, -, -, hk, hv⟩ | ⟨id, -, -, hk, hv⟩ | hMeta := h
    · exact .inr (.inr (.inl ⟨id, st, fields, hk, hv⟩))
    · exact .inr (.inl ⟨id, hk, hv⟩)
    · exact .inl hMeta
  | create group id mkstream =>
    obtain ⟨hk, hv⟩ | hMeta | ⟨hk, -⟩ | ⟨hk, -⟩ := h
    · exact .inr (.inl ⟨⟨0, 0⟩, hk, hv⟩)
    · exact .inl hMeta
    · exact .inr (.inr (.inr ⟨[.enc group.name, .word .m], hk⟩))
    · exact .inr (.inr (.inr ⟨[.enc group.name, .word .l], hk⟩))
  | readNew group consumer count noack =>
    obtain hk | ⟨id, hk⟩ | ⟨hk, -⟩ := h
    · exact .inr (.inr (.inr ⟨[.enc group.name, .word .c, .enc consumer], hk⟩))
    · exact .inr (.inr (.inr ⟨[.enc group.name, .word .p, .id id.ms id.seq], hk⟩))
    · exact .inr (.inr (.inr ⟨[.enc group.name, .word .l], hk⟩))

lemma View.Streamed.init (d : Replica → Streaming) :
    View.Streamed db key (S := streamService db key) ⟨fun _ => [], fun _ => none, d⟩ :=
  ⟨fun _ _ _ hMem => (nomatch hMem), fun _ _ _ hMem => (nomatch hMem), fun _ _ _ hMem => (nomatch hMem)⟩

variable {s : Net (streamService db key)} {d : Replica → Streaming}

/-- **What a move leaves of it.** -/
theorem View.Streamed.move (h : (s.view d).Streamed db key)
    (hMove : s.Move db key (streamRules db key) d a v) : v.Streamed db key := by
  refine ⟨h.metas.move hMove fun n c k val _ _ hMay hUnder => ?_,
    h.lasts.move hMove fun n c k val _ _ hMay hUnder => ?_, h.entries.move hMove fun n c k val _ _ hMay hUnder => ?_⟩
  · obtain ⟨rfl, st, rfl⟩ | ⟨id, rfl, -⟩ | ⟨id, st, f, rfl, -⟩ | ⟨rest, rfl⟩ := kinds_of_may hMay
    · exact ⟨n, st, _, rfl, ⟨_, rfl, rfl⟩, rfl⟩
    · exact absurd hUnder (not_under_dataSlot db key [.word .xl] n)
    · exact absurd hUnder (not_under_dataSlot db key [.word .x, .id id.ms id.seq] n)
    · exact absurd hUnder (not_under_dataSlot db key (.word .xg :: rest) n)
  · obtain ⟨rfl, -⟩ | ⟨id, rfl, rfl⟩ | ⟨id, st, f, rfl, -⟩ | ⟨rest, rfl⟩ := kinds_of_may hMay
    · exact absurd hUnder (not_under_metaSlot db key [.word .xl] n)
    · exact ⟨n, id, rfl, rfl⟩
    · exact absurd hUnder (not_under_apart _ (by decide) [.id id.ms id.seq] n)
    · exact absurd hUnder (not_under_apart (dataBase db key) (by decide) rest n)
  · obtain ⟨rfl, -⟩ | ⟨id, rfl, rfl⟩ | ⟨id, st, f, rfl, rfl⟩ | ⟨rest, rfl⟩ := kinds_of_may hMay
    · exact absurd hUnder (not_entry_meta n)
    · exact absurd hUnder (not_entry_last n)
    · exact ⟨id, n, st, f, rfl, rfl⟩
    · exact absurd hUnder (not_entry_group n rest)

namespace View.Streamed

variable (h : (s.view d).Streamed db key) (hKept : s.Kept db key (streamRules db key) d) (n : Replica)

include h hKept

lemma metaSlots : MetaSlots db key IsStream (s.world n).data :=
  hKept.slotsAre h.metas (fun _ hk => .inl hk) n

lemma lastSlots : LastSlots db key (s.world n).data := fun k val hUnder hVal =>
  hKept.of_logged h.lasts (fun _ hk => .inr (under_of_append hk)) n k val hUnder hVal

lemma filed : Filed db key (s.world n).data := fun k val hUnder hVal =>
  hKept.of_logged h.entries (fun _ hk => .inr (under_of_append hk)) n k val hUnder hVal

/-- Where everything has arrived, the stream is there once it has been announced. -/
lemma opens (hDelivered : s.Delivered db key n) (hMeta : (s.view d).Has (metaBase db key))
    (hLast : (s.view d).Has (streamLastBase db key)) :
    (ensureStream ⟨n, db⟩ key).exec (s.world n) = (.ok (some 0), s.world n) := by
  obtain ⟨k, hUnder, hSome⟩ := hKept.exists_of_has hDelivered hMeta fun _ hk => .inl hk
  obtain ⟨m, mtime, hMetaAt⟩ := (h.metaSlots hKept n).exists_metaAt (n := n) hUnder hSome
  have hIs : m = stream.envelope 0 := (h.metaSlots hKept n).of_metaAt hMetaAt
  obtain ⟨k', hUnder', hSome'⟩ := hKept.exists_of_has hDelivered hLast fun _ hk => .inr (under_of_append hk)
  obtain ⟨v, hv⟩ := isSome_iff_exists.mp hSome'
  have hMem : (k', v) ∈ (s.world n).data.entries (streamLastBase db key) := mem_entries.mpr ⟨hv, hUnder'⟩
  exact exec_ensureStream (hIs ▸ hMetaAt) (ne_nil_of_mem hMem)

end View.Streamed

end

end RedGeo.Repo
