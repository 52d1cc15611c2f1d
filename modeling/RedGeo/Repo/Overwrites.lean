import RedGeo.Repo.Reading

/-!
# RedGeo — `SET` over what is there

`SetWith` learns whether a key exists from the outcome of reading it as a string, and
`writeString` first removes what the key was stored as. Both depend on the type and the
flavor of the key that is overwritten.

* `exec_readValue`, `exec_writeString` — what the two do on a node, for every key.
* `set_conditions_iff` — the keys for which `NX` and `XX` do what they are asked to.
-/

namespace RedGeo.Repo

open Lib Store ReadM World

/-! ## Reading a string -/

section

variable (r : Db) (key : Bytes)

variable (data : Datastore)

/-- The metadata as `flavorOf` has them. -/
def envelopeAt : MetaEnvelope := (metaAt data r key).elim ⟨0, 0, 0, 0⟩ Prod.fst

section

variable (base : List Seg) (entries : List (Path × Bytes))

/-- What `counterSumInt` makes of the entries. -/
def intSum : Int64 :=
  sumInt (Dict.ofPairs (entries.filterMap fun e =>
    match trimPrefix base e.1, parseInt e.2 with
    | [.enc replica], some n => some (replica, n)
    | _, _ => none)).pairs

/-- What `counterSumFloat` makes of the entries. -/
def floatSum : Float64 :=
  sumFloat (Dict.ofPairs (entries.filterMap fun e =>
    match trimPrefix base e.1, Float64.parse e.2 with
    | [.enc replica], some f => some (replica, f)
    | _, _ => none)).pairs

end

/-- What is stored for a string, by its flavor. -/
def stringAt (m : MetaEnvelope) : Option Bytes :=
  let below (base : List Seg) := data.entries base
  if isHLL m.flavor then
    some ((hllView r (hllBase r.num key) (below (hllBase r.num key))).merged.encodeAuto
      (m.flavor = flavorHLLDense))
  else if m.flavor = flavorBitmap then
    some (bitmapBytes (liveChunks (bitBase r.num key) (below (bitBase r.num key))))
  else if m.flavor = flavorCounter then
    some (formatInt (intSum (counterBase r.num key) (below (counterBase r.num key))).toInt)
  else if m.flavor = flavorCounterFloat then
    some (floatSum (counterBase r.num key) (below (counterBase r.num key))).format
  else liveValue (slotsAt data (strBase r.num key))

/-- What `readValue` returns at a time. -/
def valueAt (now : Int64) : Except Err Bytes :=
  match probeAt r key data now with
  | none => .error .notFound
  | some k =>
    if k.type ≠ typeString then .error .keyType
    else (stringAt r key data (envelopeAt r key data)).elim (.error .notFound) .ok

/-- **What `readValue` returns.** -/
theorem exec_readValue (w : World) :
    (readValue r key).exec w = (valueAt r key w.data (w.now 0), w.probed r key) := by
  have hData := data_probed r key w
  have hFlavor : (flavorOf r key).exec (w.probed r key) = (.ok (envelopeAt r key _), _) :=
    read_bind (exec_readMeta r key _) _
  rw [hData] at hFlavor
  rw [readValue, read_bind (exec_probe r key w), valueAt]
  cases probeAt r key w.data (w.now 0) with
  | none => rfl
  | some k =>
    by_cases hType : k.type = typeString
    · simp only [hType, ne_eq, not_true_eq_false, if_false]
      rw [read_bind hFlavor, stringAt]
      generalize envelopeAt r key w.data = m
      -- one load for each flavor
      by_cases hHLL : isHLL m.flavor = true
      · simp only [if_pos hHLL]
        have hLoad := exec_load (hllBase r.num key) (hllView r (hllBase r.num key)) (w.probed r key)
        rw [hData] at hLoad
        exact read_bind hLoad _
      by_cases hBitmap : m.flavor = flavorBitmap
      · simp only [if_neg hHLL, if_pos hBitmap]
        have hLoad := exec_load (bitBase r.num key) (liveChunks (bitBase r.num key)) (w.probed r key)
        rw [hData] at hLoad
        exact read_bind hLoad _
      by_cases hCounter : m.flavor = flavorCounter
      · simp only [if_neg hHLL, if_neg hBitmap, if_pos hCounter]
        have hSum := exec_load (counterBase r.num key) (intSum (counterBase r.num key)) (w.probed r key)
        rw [hData] at hSum
        exact read_bind hSum _
      by_cases hFloat : m.flavor = flavorCounterFloat
      · simp only [if_neg hHLL, if_neg hBitmap, if_neg hCounter, if_pos hFloat]
        have hSum := exec_load (counterBase r.num key) (floatSum (counterBase r.num key)) (w.probed r key)
        rw [hData] at hSum
        exact read_bind hSum _
      · simp only [if_neg hHLL, if_neg hBitmap, if_neg hCounter, if_neg hFloat]
        have hSlots := exec_readSlots (strBase r.num key) (w.probed r key)
        rw [hData] at hSlots
        rw [read_bind hSlots]
        cases liveValue (slotsAt w.data (strBase r.num key)) <;> rfl
    · simp only [hType, ne_eq, not_false_eq_true, if_true]
      rfl

/-- A string that `probe` finds has a value. -/
lemma isSome_stringAt {data : Datastore} (hType : m.type = typeString)
    (hLive : namedLive r key data m = true) : (stringAt r key data m).isSome := by
  rw [stringAt]
  by_cases hHLL : isHLL m.flavor = true
  · rw [if_pos hHLL]
    rfl
  by_cases hBitmap : m.flavor = flavorBitmap
  · rw [if_neg hHLL, if_pos hBitmap]
    rfl
  by_cases hCounter : m.flavor = flavorCounter
  · rw [if_neg hHLL, if_neg hBitmap, if_pos hCounter]
    rfl
  by_cases hFloat : m.flavor = flavorCounterFloat
  · rw [if_neg hHLL, if_neg hBitmap, if_neg hCounter, if_pos hFloat]
    rfl
  · -- a plain string: its space is live just if its register has a value
    have hNot : ¬ isCounter m.flavor = true := by
      intro h
      rcases of_decide_eq_true h with h | h
      · exact hCounter h
      · exact hFloat h
    rw [namedLive, spaceOf, if_pos hType, if_neg hNot, if_neg hHLL, if_neg hBitmap] at hLive
    rw [if_neg hHLL, if_neg hBitmap, if_neg hCounter, if_neg hFloat]
    exact hLive

/-- `readValue` succeeds just for the strings. -/
lemma isSome_valueAt_iff {data : Datastore} {now : Int64} : (valueAt r key data now).toOption.isSome ↔ ∃ k,
    probeAt r key data now = some k ∧ k.type = typeString := by
  rw [valueAt]
  cases hProbe : probeAt r key data now with
  | none => simp [Except.toOption]
  | some k =>
    obtain ⟨m, mtime, hMeta, -, hLive, rfl⟩ := (probeAt_eq_some_iff r key).mp hProbe
    by_cases hType : m.type = typeString
    · have hEnvelope : envelopeAt r key data = m := by rw [envelopeAt, hMeta]; rfl
      obtain ⟨v, hv⟩ := Option.isSome_iff_exists.mp (isSome_stringAt r key hType hLive)
      simp [hType, hEnvelope, hv, Except.toOption]
    · simp [hType, Except.toOption]

end

/-! ## Writing a string -/

section

variable (r : Db) (key : Bytes)

/-- What is left when `writeString` has removed what the key was stored as. -/
def World.cleared (m : MetaEnvelope) (w : World) : World :=
  if isCounter m.flavor then w
  else if isHLL m.flavor then
    putSlot r.self (metaBase r.num key) tagDeleted []
      ((w.data.entries (hllBase r.num key)).foldl (fun w e =>
        match trimPrefix (hllBase r.num key) e.1 with
        | [.enc replica] => { w with data := w.data.erase (Comp.hll.path r.num key replica) }
        | _ => w) w)
  else if m.flavor = flavorBitmap then
    putSlot r.self (metaBase r.num key) tagDeleted []
      ((liveChunks (bitBase r.num key) (w.data.entries (bitBase r.num key))).foldl (fun w c =>
        w.putSlot r.self (bitChunkBase r.num key c.1) tagDeleted []) w)
  else w

/-- A counter with components is not overwritten. -/
def Blocked (data : Datastore) (m : MetaEnvelope) : Prop :=
  isCounter m.flavor = true ∧ liveAt data r key .counter = true

instance (data : Datastore) (m : MetaEnvelope) : Decidable (Blocked r key data m) :=
  inferInstanceAs (Decidable (_ ∧ _))

variable (w : World)

lemma exec_deleteHLL (hCounter : ¬ isCounter m.flavor = true) (hHLL : isHLL m.flavor = true) :
    KeyM.exec r key (deleteHLL r key) w = (.ok (), w.cleared r key m) := by
  rw [World.cleared, if_neg hCounter, if_pos hHLL, deleteHLL,
    KeyM.exec_read (exec_query (hllBase r.num key) true w)]
  have hStep : ∀ e ∈ (w.data.entries (hllBase r.num key)).map (keyEntry true), ∀ w : World,
      KeyM.exec r key (match trimPrefix (hllBase r.num key) e.1 with
        | [.enc replica] => delComp Comp.hll replica
        | _ => pure ()) w = (.ok (), match trimPrefix (hllBase r.num key) e.1 with
        | [.enc replica] => { w with data := w.data.erase (Comp.hll.path r.num key replica) }
        | _ => w) := by
    intro e _ w
    split <;> rfl
  refine (KeyM.exec_bind (KeyM.exec_forM hStep w) _).trans ?_
  rw [List.foldl_map]
  rfl

lemma exec_deleteBitmap (hCounter : ¬ isCounter m.flavor = true) (hHLL : ¬ isHLL m.flavor = true)
    (hBitmap : m.flavor = flavorBitmap) : KeyM.exec r key (deleteBitmap r key) w = (.ok (), w.cleared r key m) := by
  rw [World.cleared, if_neg hCounter, if_neg hHLL, if_pos hBitmap]
  have hLoad := exec_load (bitBase r.num key) (liveChunks (bitBase r.num key)) w
  rw [deleteBitmap]
  refine (KeyM.exec_read hLoad _).trans ?_
  exact (KeyM.exec_bind (KeyM.exec_forM (fun _ _ _ => rfl) w) _).trans rfl

lemma exec_clearFlavor (m : MetaEnvelope) (w : World) : exec (clearFlavor r key m) w =
    if Blocked r key w.data m then (.error .keyType, w) else (.ok (), w.cleared r key m) := by
  rw [clearFlavor]
  by_cases hCounter : isCounter m.flavor = true
  · have hExists : ReadM.exec (counterExists r key).attempt w =
        (.ok (.ok (liveAt w.data r key .counter)), w) := by
      have hFound : (counterExists r key).exec w = (.ok (liveAt w.data r key .counter), w) :=
        exec_anyPrefix _ w
      rw [read_attempt, hFound]
    simp only [World.cleared, Blocked, hCounter, true_and, if_true]
    rw [exec_read hExists]
    cases liveAt w.data r key .counter <;> rfl
  · have hFree : ¬ Blocked r key w.data m := fun h => hCounter h.1
    simp only [if_neg hCounter, if_neg hFree]
    by_cases hHLL : isHLL m.flavor = true
    · simp only [if_pos hHLL]
      rw [exec_on, exec_deleteHLL r key w hCounter hHLL]
    by_cases hBitmap : m.flavor = flavorBitmap
    · simp only [if_neg hHLL, if_pos hBitmap]
      rw [exec_on, exec_deleteBitmap r key w hCounter hHLL hBitmap]
    · simp only [World.cleared, if_neg hCounter, if_neg hHLL, if_neg hBitmap]
      rfl

/-- What `writeString` puts: the value, as a sketch if it is one, and the metadata. -/
def World.stored (b : Bytes) (etimeMS : Int64) (w : World) : World :=
  match decodeRedis b with
  | some sk =>
    putSlot r.self (metaBase r.num key) tagPresent
      (encodeMeta ((if b.getD 4 0 = 0 then Kind.hllDense else .hll).envelope etimeMS))
      { w with data := w.data.insert (Comp.hll.path r.num key r.self.name) sk.encode }
  | none =>
    putSlot r.self (metaBase r.num key) tagPresent (encodeMeta (Kind.string.envelope etimeMS))
      (w.putSlot r.self (strBase r.num key) tagPresent b)

/-- The expiry that `writeString` writes. -/
def keptETime (data : Datastore) (etimeMS : Int64) (keepTTL : Bool) : Int64 :=
  if keepTTL then (metaAt data r key).elim etimeMS fun m => m.1.etimeMS else etimeMS

/-- The rest of `writeString`, when what was there has been removed. -/
lemma exec_writeString_cleared (b : Bytes) (etimeMS : Int64) (keepTTL : Bool) (w : World) :
    exec (storeString r key b etimeMS keepTTL) w =
    (.ok (), w.stored r key b (keptETime r key w.data etimeMS keepTTL)) := by
  have hPut : ∀ etimeMS, exec (putString r key b etimeMS) w = (.ok (), w.stored r key b etimeMS) := by
    intro etimeMS
    rw [stored, putString]
    cases decodeRedis b with
    | some sk => exact exec_on r key _ w
    | none => exact exec_on r key _ w
  cases keepTTL with
  | false => exact hPut etimeMS
  | true =>
    have hMeta : ReadM.exec (readMeta r key).attempt w = (.ok (.ok (metaAt w.data r key)), w) := by
      rw [read_attempt, exec_readMeta]
    refine (exec_read hMeta _).trans ?_
    rw [keptETime, if_pos rfl]
    cases metaAt w.data r key with
    | none => exact hPut etimeMS
    | some m => exact hPut m.1.etimeMS

/-- What is left of the key when the new value is written. -/
def World.vacated : World := (metaAt w.data r key).elim w fun m => w.cleared r key m.1

/-- The key is a counter with components, whether it has expired or not. -/
def Counts (data : Datastore) : Prop := ∃ m mtime, metaAt data r key = some (m, mtime) ∧ Blocked r key data m

/-- **A counter is not overwritten.** -/
theorem exec_writeString_counter {w : World} (h : Counts r key w.data) (b : Bytes) (etimeMS : Int64)
    (keepTTL : Bool) : exec (writeString r key b etimeMS keepTTL) w = (.error .keyType, w) := by
  obtain ⟨m, mtime, hMeta, hBlocked⟩ := h
  have hRead : ReadM.exec (readMeta r key).attempt w = (.ok (.ok (some (m, mtime))), w) := by
    rw [read_attempt, exec_readMeta, hMeta]
  have hClear := exec_clearFlavor r key m w
  rw [if_pos hBlocked] at hClear
  exact (exec_read hRead _).trans (exec_bind_error hClear _)

/-- **What `writeString` does** to everything else. -/
theorem exec_writeString {w : World} (h : ¬ Counts r key w.data) (b : Bytes) (etimeMS : Int64)
    (keepTTL : Bool) : exec (writeString r key b etimeMS keepTTL) w =
    (.ok (), (w.vacated r key).stored r key b (keptETime r key (w.vacated r key).data etimeMS keepTTL)) := by
  have hRead : ReadM.exec (readMeta r key).attempt w = (.ok (.ok (metaAt w.data r key)), w) := by
    rw [read_attempt, exec_readMeta]
  refine (exec_read hRead _).trans ?_
  rw [World.vacated]
  cases hMeta : metaAt w.data r key with
  | none =>
    refine Eq.trans ?_ (exec_writeString_cleared r key b etimeMS keepTTL w)
    cases keepTTL <;> rfl
  | some m =>
    have hClear := exec_clearFlavor r key m.1 w
    rw [if_neg fun hBlocked => h ⟨m.1, m.2, hMeta, hBlocked⟩] at hClear
    refine Eq.trans ?_ (exec_writeString_cleared r key b etimeMS keepTTL (w.cleared r key m.1))
    cases keepTTL
    · exact exec_bind hClear _
    · exact exec_bind hClear _

end

/-! ## `SetWith` -/

/-- The expiry that the options ask for. -/
def SetOpts.due (opts : SetOpts) (now : Int64) : Int64 :=
  if 0 < opts.atMS then opts.atMS else if 0 < opts.ttlMS then now + opts.ttlMS else 0

section

variable (b : Bytes) {opts : SetOpts}

lemma exec_attempt_readValue (r : Db) (key : Bytes) (w : World) :
    ReadM.exec (readValue r key).attempt w = (.ok (valueAt r key w.data (w.now 0)), w.probed r key) := by
  rw [read_attempt, exec_readValue]

section

variable (opts : SetOpts) (value : Except Err Bytes)

/-- With `GET`, a key of another type is an error. -/
def SetOpts.Refuses : Prop :=
  opts.get = true ∧ value = .error .keyType

/-- The key is not as the options want it, as far as `SetWith` can tell. -/
def SetOpts.Skips : Prop :=
  opts.ifNotExists = true ∧ value.toOption.isSome = true ∨ opts.ifExists = true ∧ ¬ value.toOption.isSome = true

/-- What is returned besides whether anything was written. -/
def priorOf : Option Bytes :=
  if opts.get then value.toOption else none

/-- What is returned when something was. -/
def SetOpts.written : SetOut :=
  { prev := priorOf opts value, created := !value.toOption.isSome, updated := value.toOption.isSome }

end

omit b in
lemma wrongType_iff {value : Except Err Bytes} :
    value.map (fun _ => ()) = .error .keyType ↔ value = .error .keyType := by
  cases value <;> simp [Except.map]

lemma exec_strSetWith_wrong (h : opts.Refuses (valueAt r key w.data (w.now 0))) :
    exec (strSetWith r key b opts) w = (.error .keyType, w.probed r key) := by
  have hRead := exec_attempt_readValue r key w
  rw [h.2] at hRead
  rw [strSetWith, exec_withLock, setWithLocked]
  refine (exec_read hRead _).trans ?_
  simp only [h.1, Except.map, and_self, if_true]
  rfl

lemma exec_strSetWith_skip (hRight : ¬ opts.Refuses (valueAt r key w.data (w.now 0)))
    (hSkip : opts.Skips (valueAt r key w.data (w.now 0))) : exec (strSetWith r key b opts) w =
    (.ok { prev := priorOf opts (valueAt r key w.data (w.now 0)) }, w.probed r key) := by
  rw [SetOpts.Refuses, ← wrongType_iff] at hRight
  rw [strSetWith, exec_withLock, setWithLocked]
  refine (exec_read (exec_attempt_readValue r key w) _).trans ?_
  simp only [if_neg hRight]
  by_cases hNX : opts.ifNotExists = true ∧ (valueAt r key w.data (w.now 0)).toOption.isSome = true
  · simp only [if_pos hNX]
    rfl
  · simp only [if_neg hNX, if_pos (hSkip.resolve_left hNX)]
    rfl

lemma exec_strSetWith_write (hRight : ¬ opts.Refuses (valueAt r key w.data (w.now 0)))
    (hSkip : ¬ opts.Skips (valueAt r key w.data (w.now 0))) :
    ∃ w' : World, w'.data = w.data ∧ w'.clock = w.clock ∧ exec (strSetWith r key b opts) w = exec (do
        writeString r key b (opts.due ((w.probed r key).now 0)) opts.keepTTL
        pure (opts.written (valueAt r key w.data (w.now 0)))) w' := by
  have hData := data_probed r key w
  have hClock := clock_probed r key w
  rw [SetOpts.Refuses, ← wrongType_iff] at hRight
  obtain ⟨hNX, hXX⟩ := not_or.mp hSkip
  rw [strSetWith, exec_withLock, setWithLocked, SetOpts.due]
  simp only [exec_read (exec_attempt_readValue r key w), if_neg hRight, if_neg hNX, if_neg hXX]
  by_cases hAt : 0 < opts.atMS
  · simp only [if_pos hAt]
    exact ⟨_, hData, hClock, rfl⟩
  by_cases hTtl : 0 < opts.ttlMS
  · -- the clock is read once more
    have hNow : nowMS.exec (w.probed r key) = (.ok ((w.probed r key).now 0), (w.probed r key).later) := rfl
    simp only [if_neg hAt, if_pos hTtl]
    exact ⟨(w.probed r key).later, hData, hClock, exec_read hNow _⟩
  · simp only [if_neg hAt, if_neg hTtl]
    exact ⟨_, hData, hClock, rfl⟩

end

/-! ## `NX` and `XX` -/

section

variable (r : Db) (key b : Bytes)

/-- The replica's own entries say that the key is a string with this value: a plain one, or
a sketch if the value is that of one. -/
structure Stores (data : Datastore) : Prop where
  marked : ∃ st m, m.type = typeString ∧
    data[slotKey (metaBase r.num key) r.self]? = some (encodeSlot ⟨st, tagPresent, encodeMeta m⟩)
  plain : decodeRedis b = none → ∃ st,
    data[slotKey (strBase r.num key) r.self]? = some (encodeSlot ⟨st, tagPresent, b⟩)
  sketch : ∀ sk, decodeRedis b = some sk → data[Comp.hll.path r.num key r.self.name]? = some sk.encode

/-- `writeString` does store the value. -/
lemma stores_stored (etimeMS : Int64) (w : World) : Stores r key b (w.stored r key b etimeMS).data := by
  have hPlain : slotKey (metaBase r.num key) r.self ≠ slotKey (strBase r.num key) r.self := by
    intro hEq
    exact not_under_metaSlot r.num key [.word .v] r.self (hEq ▸ under_slotKey (strBase r.num key) r.self)
  have hSketch : slotKey (metaBase r.num key) r.self ≠ Comp.hll.path r.num key r.self.name := by
    intro hEq
    exact not_under_metaSlot r.num key [.word .p] r.self (hEq ▸ under_slotKey (hllBase r.num key) r.self)
  rw [stored]
  cases hRedis : decodeRedis b with
  | none =>
    refine ⟨⟨(w.putSlot r.self (strBase r.num key) tagPresent b).clock.now.1, Kind.string.envelope etimeMS, rfl, ?_⟩,
      fun _ => ⟨w.clock.now.1, ?_⟩, fun sk hsk => nomatch hRedis.symm.trans hsk⟩
    · rw [lookup_putSlot, if_pos rfl]
    · rw [lookup_putSlot, if_neg hPlain, lookup_putSlot, if_pos rfl]
  | some sk =>
    refine ⟨⟨w.clock.now.1, (if b.getD 4 0 = 0 then Kind.hllDense else .hll).envelope etimeMS, ?_, ?_⟩,
      fun hNone => (nomatch hRedis.symm.trans hNone), fun sk' hsk => ?_⟩
    · split <;> rfl
    · rw [lookup_putSlot, if_pos rfl]
    · cases hRedis.symm.trans hsk
      rw [lookup_putSlot, if_neg hSketch]
      exact (Table.lookup_insert ..).trans (if_pos rfl)

/-- **What `NX` and `XX` ask for.** `SET` writes the value if the key is as they want it,
and otherwise leaves everything as it is. -/
def SetsAsAsked (opts : SetOpts) (w : World) : Prop :=
  let out := exec (strSetWith r key b opts) w
  let found := (probeAt r key w.data (w.now 0)).isSome
  if (opts.ifNotExists → found = false) ∧ (opts.ifExists → found = true) then
    (∃ res, out.1 = .ok res ∧ (res.created || res.updated) = true) ∧ Stores r key b out.2.data
  else
    (∀ res, out.1 = .ok res → (res.created || res.updated) = false) ∧ out.2.data = w.data

/-- When they get it. A key that is not found must not have components of a counter left;
one that is found must be a string, and with `XX` not a counter. -/
def SetsFit (opts : SetOpts) (w : World) : Prop :=
  match probeAt r key w.data (w.now 0) with
  | none => opts.ifNotExists = true → ¬ Counts r key w.data
  | some k =>
    if opts.ifNotExists then k.type = typeString ∨ opts.get = true ∨ Counts r key w.data
    else k.type = typeString ∧ ¬ Counts r key w.data

variable {r key} {opts : SetOpts} {w : World}

/-- What becomes of `SET` once it has decided to write. -/
lemma exec_strSetWith_cases (hRight : ¬ opts.Refuses (valueAt r key w.data (w.now 0)))
    (hSkip : ¬ opts.Skips (valueAt r key w.data (w.now 0))) :
    let out := exec (strSetWith r key b opts) w
    (Counts r key w.data ∧ out.1 = .error .keyType ∧ out.2.data = w.data) ∨
    (¬ Counts r key w.data ∧ out.1 = .ok (opts.written (valueAt r key w.data (w.now 0))) ∧
      Stores r key b out.2.data) := by
  obtain ⟨w', hData, -, hExec⟩ := exec_strSetWith_write b hRight hSkip
  by_cases hCounts : Counts r key w.data
  · have hError := exec_writeString_counter r key (hData ▸ hCounts) b (opts.due ((w.probed r key).now 0)) opts.keepTTL
    rw [exec_bind_error hError] at hExec
    exact .inl ⟨hCounts, by rw [hExec], by rw [hExec, hData]⟩
  · have hDone := exec_writeString r key (hData ▸ hCounts) b (opts.due ((w.probed r key).now 0)) opts.keepTTL
    rw [exec_bind hDone] at hExec
    refine .inr ⟨hCounts, congrArg Prod.fst hExec, ?_⟩
    rw [congrArg Prod.snd hExec]
    exact stores_stored r key b _ _

omit b in
/-- Reading a key as a string, by whether it is there and of which type. -/
lemma valueAt_cases (r : Db) (key : Bytes) (data : Datastore) (now : Int64) :
    (probeAt r key data now = none ∧ valueAt r key data now = .error .notFound) ∨
    (∃ k v, probeAt r key data now = some k ∧ k.type = typeString ∧ valueAt r key data now = .ok v) ∨
    (∃ k, probeAt r key data now = some k ∧ k.type ≠ typeString ∧ valueAt r key data now = .error .keyType) := by
  cases hProbe : probeAt r key data now with
  | none => exact .inl ⟨rfl, by rw [valueAt, hProbe]⟩
  | some k =>
    by_cases hType : k.type = typeString
    · have hSome := (isSome_valueAt_iff r key).mpr ⟨k, hProbe, hType⟩
      cases hValue : valueAt r key data now with
      | error e =>
        rw [hValue] at hSome
        cases hSome
      | ok v => exact .inr (.inl ⟨k, v, rfl, hType, rfl⟩)
    · refine .inr (.inr ⟨k, rfl, hType, ?_⟩)
      simp only [valueAt, hProbe]
      exact if_pos hType

/-- It does as asked just if it writes when it should, and only then. -/
lemma setsAsAsked_iff : SetsAsAsked r key b opts w ↔
    ((opts.ifNotExists → (probeAt r key w.data (w.now 0)).isSome = false) ∧
        (opts.ifExists → (probeAt r key w.data (w.now 0)).isSome = true) ↔
      ¬ (opts.Refuses (valueAt r key w.data (w.now 0)) ∨ opts.Skips (valueAt r key w.data (w.now 0)) ∨
        Counts r key w.data)) := by
  have hProbed := data_probed r key w
  -- a command that leaves things alone has no result that says otherwise
  have hLeft : ∀ {out : Except Err SetOut × World} {wanted : Prop} [Decidable wanted],
      (∀ res, out.1 = .ok res → (res.created || res.updated) = false) → out.2.data = w.data →
      ((if wanted then (∃ res, out.1 = .ok res ∧ (res.created || res.updated) = true) ∧ Stores r key b out.2.data
        else (∀ res, out.1 = .ok res → (res.created || res.updated) = false) ∧ out.2.data = w.data) ↔ ¬ wanted) := by
    intro out wanted _ hNone hData
    by_cases h : wanted
    · rw [if_pos h]
      refine iff_of_false (fun hDone => ?_) (not_not.mpr h)
      obtain ⟨⟨res, hRes, hWrote⟩, -⟩ := hDone
      exact Bool.eq_false_iff.mp (hNone res hRes) hWrote
    · rw [if_neg h]
      exact iff_of_true ⟨hNone, hData⟩ h
  rw [SetsAsAsked]
  by_cases hRefuses : opts.Refuses (valueAt r key w.data (w.now 0))
  · rw [exec_strSetWith_wrong b hRefuses, hLeft (fun _ h => by cases h) hProbed]
    simp [hRefuses]
  by_cases hSkips : opts.Skips (valueAt r key w.data (w.now 0))
  · rw [exec_strSetWith_skip b hRefuses hSkips, hLeft (fun _ h => by cases h; rfl) hProbed]
    simp [hSkips]
  rcases exec_strSetWith_cases b hRefuses hSkips with ⟨hCounts, hError, hData⟩ | ⟨hCounts, hOk, hStores⟩
  · rw [hLeft (fun _ h => by cases hError.symm.trans h) hData]
    simp [hCounts]
  · simp only [hRefuses, hSkips, hCounts, or_self, not_false_eq_true, iff_true]
    split
    · next h => exact iff_of_true ⟨⟨_, hOk, Bool.not_or_self _⟩, hStores⟩ h
    · next h => exact iff_of_false (fun hNone => Bool.eq_false_iff.mp (hNone.1 _ hOk) (Bool.not_or_self _)) h

/-- **`SET` with `NX` or `XX`** does what it is asked to just if it can tell from reading the
key as a string whether it exists, and no counter is in the way. -/
theorem set_conditions_iff (hOne : opts.ifNotExists ≠ opts.ifExists) :
    SetsAsAsked r key b opts w ↔ SetsFit r key opts w := by
  rw [setsAsAsked_iff, SetsFit]
  rcases valueAt_cases r key w.data (w.now 0) with
    ⟨hProbe, hValue⟩ | ⟨k, v, hProbe, hType, hValue⟩ | ⟨k, hProbe, hType, hValue⟩
  all_goals
    simp only [hProbe, hValue, SetOpts.Refuses, SetOpts.Skips, Except.toOption]
    cases hNX : opts.ifNotExists <;> cases hXX : opts.ifExists <;> cases hGet : opts.get <;> simp_all

end

private def setter : Db := ⟨.named 101, 0⟩

private def blank : World := .fresh

/-- `SET k x NX` on a node that has nothing. -/
theorem set_conditions_fresh : SetsFit setter [107] { ifNotExists := true } blank ∧
    SetsAsAsked setter [107] [120] { ifNotExists := true } blank := by
  have hFit : SetsFit setter [107] { ifNotExists := true } blank := by
    rw [SetsFit, show probeAt setter [107] blank.data (blank.now 0) = none by decide +kernel]
    rintro - ⟨m, mtime, hMeta, -⟩
    rw [show metaAt blank.data setter [107] = none by decide +kernel] at hMeta
    cases hMeta
  exact ⟨hFit, (set_conditions_iff [120] (by decide)).mpr hFit⟩

/-- After `HSET k f v`, `SET k x NX` takes the key for a free one. -/
theorem set_nx_overwrites_hash :
    let w := (exec (setter.locked [107] (hashSet setter [107] [102] [118])) blank).2
    (probeAt setter [107] w.data (w.now 0)).isSome = true ∧
      (exec (strSetWith setter [107] [120] { ifNotExists := true }) w).1 = .ok { created := true } ∧
      ¬ SetsAsAsked setter [107] [120] { ifNotExists := true } w := by
  intro w
  have hFound : (probeAt setter [107] w.data (w.now 0)).isSome = true := by decide +kernel
  have hOut : (exec (strSetWith setter [107] [120] { ifNotExists := true }) w).1 = .ok { created := true } := by
    decide +kernel
  refine ⟨hFound, hOut, fun hAsked => ?_⟩
  rw [SetsAsAsked] at hAsked
  simp only [hFound, true_implies, Bool.true_eq_false, false_and, if_false] at hAsked
  exact nomatch hAsked.1 _ hOut

end RedGeo.Repo
