import RedGeo.Repo.Counts
import RedGeo.Repo.Json
import RedGeo.Repo.Presence
import RedGeo.Repo.Streams
import RedGeo.Repo.Strings
import RedGeo.Repo.ZSets
import RedGeo.Repo.Hashes

/-!
# RedGeo — the commands that read a key

The `Run` methods of the reading commands in `command/`, over the methods of the
store. About half of them stop at `probe`; the others use it only to reject keys of
another type, and then show whatever is stored below their prefix.

* `unseen` — the reply to each command for a key that `probe` does not find.
-/

namespace RedGeo.Repo

open Lib Store List World

/-! ## Replies -/

/-- What a command writes, errors apart. Numbers of elements are not bounded here. -/
inductive Output
  | null
  | int (n : Int)
  | bulk (b : Bytes)
  | array (rs : List Output)

/-- A value, or null for what is not found. -/
def orNull {α : Type} (p : ReadM α) (f : α → Output) : ReadM Output := do
  match ← p.attempt with
  | .ok a => pure (f a)
  | .error .notFound => pure .null
  | .error e => .fail e

/-- `cmsErr` and `topkErr`: the texts for a key that is not there. -/
def orNoKey {α : Type} (msg : String) (p : ReadM α) : ReadM α := do
  match ← p.attempt with
  | .ok a => pure a
  | .error .notFound => .fail (.text msg)
  | .error e => .fail e

def Output.bool (b : Bool) : Output := .int (if b then 1 else 0)

def writeItems (items : List ZItem) (withScores : Bool) : Output :=
  .array (items.flatMap fun it => if withScores then [.bulk it.1, .bulk it.2.format] else [.bulk it.1])

def writeEntry (e : StreamEntry) : Output :=
  .array [.bulk (formatInt e.id.ms.toNat ++ 45 :: formatInt e.id.seq.toNat), match e.fields with
    | some fields => .array (fields.map .bulk)
    | none => .null]

/-! ## Commands -/

/-- The commands that read one key, with their other arguments. What `JSON.GET`
makes of a document is a parameter. -/
inductive Reading
  | get
  | strlen
  | hget (field : Bytes)
  | hmget (fields : List Bytes)
  | hgetall
  | hlen
  | smembers
  | sismember (elem : Bytes)
  | scard
  | zscore (elem : Bytes)
  | zrange (opts : RangeOpts) (withScores : Bool)
  | zcard
  | lrange (start stop : Int)
  | llen
  | lindex (idx : Int)
  | getbit (offset : UInt64)
  | xrange (lo hi : StreamBound) (count : Int) (rev : Bool)
  | jsonGet (fn : Option Node → Except Err Bytes)
  /-- `BF.EXISTS`, with a single item, and `BF.MEXISTS`. -/
  | bfExists (items : List Bytes) (single : Bool)
  | cmsQuery (items : List Bytes)
  | topkCount (items : List Bytes)

namespace Reading

def run (r : Db) (key : Bytes) : Reading → ReadM Output
  | get => orNull (strGet r key) .bulk
  | strlen => do
    match ← (strGet r key).attempt with
    | .ok v => pure (.int v.length)
    | .error .notFound => pure (.int 0)
    | .error e => .fail e
  | hget field => orNull (hashGet r key field) .bulk
  | hmget fields => do
    let items ← hashGetMany r key fields
    pure (.array (fields.map fun f => (items.lookup f).elim .null .bulk))
  | hgetall => do
    let items ← hashItems r key
    pure (.array (items.flatMap fun it => [.bulk it.1, .bulk it.2]))
  | hlen => do
    let count ← hashLen r key
    pure (.int count)
  | smembers => do
    let items ← setItems r key
    pure (.array (items.map .bulk))
  | sismember elem => do
    let found ← setExists r key elem
    pure (.bool found)
  | scard => do
    let n ← setLen r key
    pure (.int n)
  | zscore elem => orNull (zsetGetScore r key elem) fun score => .bulk score.format
  | zrange opts withScores => do
    let items ← zsetRange r key opts
    pure (writeItems items withScores)
  | zcard => do
    let n ← zsetLen r key
    pure (.int n)
  | lrange start stop => do
    let vals ← listRange r key start stop
    pure (.array (vals.map .bulk))
  | llen => do
    let n ← listLen r key
    pure (.int n)
  | lindex idx => orNull (listGet r key idx) .bulk
  | getbit offset => do
    let v ← getBit r key offset
    pure (.bool v)
  | xrange lo hi count rev =>
    if count < 0 then pure (.array [])
    else do
      let es ← streamRange r key lo hi count rev
      pure (.array (es.map writeEntry))
  | jsonGet fn =>
    orNull (jsonView r key fun doc => match fn doc with
      | .ok out => pure out
      | .error e => .fail e) .bulk
  | bfExists items single => do
    let found ← Repo.bfExists r key items
    pure (if single then .bool (found.headD false) else .array (found.map .bool))
  | cmsQuery items => do
    let counts ← orNoKey "CMS: key does not exist" (Repo.cmsQuery r key items)
    pure (.array (counts.map fun n => .int n.toInt))
  | topkCount items => do
    let counts ← orNoKey "TOPK: key does not exist" (Repo.topkCount r key items)
    pure (.array (counts.map fun n => .int n.toInt))

end Reading

/-- `PFCOUNT`, of any number of keys. -/
def readPFCount (r : Db) (keys : List Bytes) : ReadM Output := do
  let n ← pfCount r keys
  pure (.int n.toInt)

/-! ## Keys that are not found -/

section

variable (r : Db) (key : Bytes) (data : Datastore)

/-- The live fields of a hash. -/
def fieldsAt : List (Bytes × Bytes) := liveFields (hashBase r.num key) (data.entries (hashBase r.num key))

/-- A field of a hash, if it is live as a plain one. -/
def fieldAt (field : Bytes) : Option Bytes := liveValue (slotsAt data (hashFieldBase r.num key field))

/-- The members of a set. -/
def membersAt : List Bytes := memberNames (setBase r.num key) (data.entries (setBase r.num key))

/-- The scores of a sorted set. -/
def scoresAt : List ZItem := liveScores (zsetBase r.num key) (data.entries (zsetBase r.num key))

/-- The score slot of a member. -/
def scoreAt (elem : Bytes) : Option Bytes := liveValue (slotsAt data (zsetMemberBase r.num key elem))

/-- The elements of a list. -/
def elementsAt : List ListEntry := listEntries (listBase r.num key) (data.entries (listBase r.num key))

end

/-- The sum that `hashCounterSum` makes of the entries. -/
def fieldTotal (entries : List (Path × Bytes)) : Float64 :=
  entries.foldl (fun sum e => match Float64.parse e.2 with
    | some n => sum.add n
    | none => sum) (.zero false)

namespace Reading

/-- What the commands reply for a key that `probe` does not find. -/
def unseen (r : Db) (key : Bytes) (data : Datastore) : Reading → Except Err Output
  | hget field =>
    let entries := data.entries (hashFieldCounterBase r.num key field)
    .ok (if entries.isEmpty then (fieldAt r key data field).elim .null .bulk
      else .bulk (fmtNum (fieldTotal entries)))
  | hmget fields =>
    .ok (.array (fields.map fun f => (fieldAt r key data f).elim .null .bulk))
  | hgetall => .ok (.array ((fieldsAt r key data).flatMap fun it => [.bulk it.1, .bulk it.2]))
  | hlen => .ok (.int (fieldsAt r key data).length)
  | smembers => .ok (.array ((membersAt r key data).map .bulk))
  | sismember elem => .ok (.bool (data.contains (setMember r.num key elem)))
  | scard => .ok (.int (membersAt r key data).length)
  | zscore elem =>
    .ok ((scoreAt r key data elem).elim .null fun v =>
      .bulk ((decodeScore v).getD (.zero false)).format)
  | zrange opts withScores =>
    .ok (writeItems (applyRange (sortItems (scoresAt r key data)) opts) withScores)
  | zcard => .ok (.int (scoresAt r key data).length)
  | lrange start stop =>
    .ok (.array (((slice (elementsAt r key data) start stop).map ListEntry.value).map .bulk))
  | llen => .ok (.int (elementsAt r key data).length)
  | lindex idx => .ok ((entryAt (elementsAt r key data) idx).elim .null fun e => .bulk e.value)
  | get | jsonGet _ => .ok .null
  | strlen => .ok (.int 0)
  | getbit offset => if maxBitIndex < offset then .error errBitOffset else .ok (.bool false)
  | xrange _ _ _ _ => .ok (.array [])
  | bfExists items single =>
    .ok (if single then .bool false else .array (items.map fun _ => .bool false))
  | cmsQuery _ => .error (.text "CMS: key does not exist")
  | topkCount _ => .error (.text "TOPK: key does not exist")

end Reading

/-! ### The loads on a node -/

section

variable (r : Db) (key : Bytes) (w : World) (field : Bytes)

lemma exec_fieldSlots :
    (fieldSlots r key field).exec w = (.ok (slotsAt w.data (hashFieldBase r.num key field)), w) :=
  exec_readSlots _ w

/-- Members are told by their keys. -/
lemma exec_members : (members r key).exec w = (.ok (membersAt r key w.data), w) := by
  show (Except.ok (memberNames _ ((w.data.entries (setBase r.num key)).map (keyEntry true))), w) = _
  rw [memberNames, filterMap_map]
  rfl

/-- The loop of `GetMany`. -/
lemma exec_getMany_loop (fields : List Bytes) (out : List (Bytes × Bytes)) :
    ReadM.exec (fields.foldlM (fun out field => do
      let cands ← fieldSlots r key field
      match liveValue cands with
      | some v => pure (out ++ [(field, v)])
      | none => pure out) out) w =
      (.ok (out ++ fields.filterMap fun f => (fieldAt r key w.data f).map fun v => (f, v)), w) := by
  induction fields generalizing out with
  | nil =>
    rw [filterMap_nil, append_nil]
    rfl
  | cons field fields ih =>
    rw [foldlM_cons]
    cases hLive : fieldAt r key w.data field with
    | none =>
      have hStep : ReadM.exec (do
          let cands ← fieldSlots r key field
          match liveValue cands with
          | some v => pure (out ++ [(field, v)])
          | none => pure out) w = (.ok out, w) := by
        rw [read_bind (exec_fieldSlots r key w field), ← fieldAt, hLive]
        rfl
      rw [read_bind hStep, ih, filterMap_cons, hLive]
      rfl
    | some v =>
      have hStep : ReadM.exec (do
          let cands ← fieldSlots r key field
          match liveValue cands with
          | some v => pure (out ++ [(field, v)])
          | none => pure out) w = (.ok (out ++ [(field, v)]), w) := by
        rw [read_bind (exec_fieldSlots r key w field), ← fieldAt, hLive]
        rfl
      rw [read_bind hStep, ih, filterMap_cons, hLive, append_assoc]
      rfl

end

/-- What `GetMany` has for a field: its value, if it was asked for. -/
lemma lookup_found (fields : List Bytes) (live : Bytes → Option Bytes) (f : Bytes) :
    (fields.filterMap fun f => (live f).map fun v => (f, v)).lookup f = if f ∈ fields then live f else none := by
  induction fields with
  | nil => rfl
  | cons a fields ih =>
    rw [filterMap_cons]
    by_cases hEq : f = a
    · subst hEq
      cases hLive : live f with
      | none => simpa [hLive] using ih
      | some v => simp
    · have hNe : (f == a) = false := beq_false_of_ne hEq
      cases live a with
      | none => simpa [hEq] using ih
      | some v => simpa [lookup_cons, hNe, hEq] using ih

/-! ### The replies -/

section

variable {r : Db} {key : Bytes} {w : World} {α : Type} {w' : World}

lemma exec_orNull_ok (h : p.exec w = (.ok a, w')) (f : α → Output) :
    (orNull p f).exec w = (.ok (f a), w') := by
  have hAttempt := read_attempt p w
  rw [h] at hAttempt
  exact read_bind hAttempt _

lemma exec_orNull_notFound (h : p.exec w = (.error .notFound, w')) (f : α → Output) :
    (orNull p f).exec w = (.ok .null, w') := by
  have hAttempt := read_attempt p w
  rw [h] at hAttempt
  exact read_bind hAttempt _

lemma exec_orNoKey_notFound (h : p.exec w = (.error .notFound, w')) (msg : String) :
    (orNoKey msg p).exec w = (.error (.text msg), w') := by
  have hAttempt := read_attempt p w
  rw [h] at hAttempt
  exact read_bind hAttempt _

variable (h : probeAt r key w.data (w.now 0) = none)
include h

/-- After the check of the type, the entries are read. -/
lemma exec_typed {α : Type} (type : UInt8) {p : ReadM α} {out : Except Err α}
    (hp : p.exec (w.probed r key) = (out, w.probed r key)) :
    ReadM.exec (do ensureType r type key; p) w = (out, w.probed r key) := by
  rw [read_bind (exec_ensureType_none r key h type), hp]

lemma exec_hashItems_unseen : (hashItems r key).exec w = (.ok (fieldsAt r key w.data), w.probed r key) :=
  exec_typed h typeHash (data_probed r key w ▸ exec_load _ _ _)

lemma exec_setItems_unseen : (setItems r key).exec w = (.ok (membersAt r key w.data), w.probed r key) :=
  exec_typed h typeSet (by rw [exec_members, data_probed])

lemma exec_listOpen_unseen : (listOpen r key).exec w = (.ok (elementsAt r key w.data), w.probed r key) :=
  exec_typed h typeList (data_probed r key w ▸ exec_load _ _ _)

lemma exec_sketchOpen_unseen (kind : UInt8) :
    (sketchOpen r key kind).exec w = (.ok (none, 0), w.probed r key) := by
  have hProbe := exec_probe r key w
  rw [h] at hProbe
  exact read_bind hProbe _

lemma exec_readValue_unseen : (readValue r key).exec w = (.error .notFound, w.probed r key) := by
  have hProbe := exec_probe r key w
  rw [h] at hProbe
  exact read_bind hProbe _

/-- A field is shown as a counter if it has components, or else as its register says. -/
lemma exec_hget_unseen (field : Bytes) :
    ((Reading.hget field).run r key).exec w = ((Reading.hget field).unseen r key w.data, w.probed r key) := by
  have hData := data_probed r key w
  have hCounter : (hashFieldIsCounter r key field).exec (w.probed r key) = _ := exec_anyPrefix _ _
  rw [hData] at hCounter
  rw [Reading.unseen]
  cases hEmpty : (w.data.entries (hashFieldCounterBase r.num key field)).isEmpty with
  | false =>
    rw [hEmpty] at hCounter
    have hSum : (hashCounterSum r key field).exec (w.probed r key) = _ := exec_load _ _ _
    rw [hData] at hSum
    exact exec_orNull_ok (exec_typed h typeHash
      ((read_bind hCounter _).trans (read_bind hSum _))) .bulk
  | true =>
    rw [hEmpty] at hCounter
    have hSlots := exec_fieldSlots r key (w.probed r key) field
    rw [hData] at hSlots
    -- not a counter, so the register decides
    have hGet : (hashGet r key field).exec w =
        ((fieldAt r key w.data field).elim (.error .notFound) .ok, w.probed r key) := by
      rw [hashGet, read_bind (exec_ensureType_none r key h typeHash), read_bind hCounter]
      simp only [Bool.not_true, Bool.false_eq_true, if_false]
      rw [read_bind hSlots, ← fieldAt]
      cases fieldAt r key w.data field <;> rfl
    cases hLive : fieldAt r key w.data field with
    | none =>
      rw [hLive] at hGet
      exact exec_orNull_notFound hGet .bulk
    | some v =>
      rw [hLive] at hGet
      exact exec_orNull_ok hGet .bulk

lemma exec_hmget_unseen (fields : List Bytes) : ((Reading.hmget fields).run r key).exec w =
    ((Reading.hmget fields).unseen r key w.data, w.probed r key) := by
  have hLoop := exec_getMany_loop r key (w.probed r key) fields []
  rw [data_probed, nil_append] at hLoop
  refine (read_bind (exec_typed h typeHash hLoop) _).trans ?_
  have hReply : (fields.map fun f => (List.lookup f (fields.filterMap fun f =>
      (fieldAt r key w.data f).map fun v => (f, v))).elim Output.null .bulk) =
      fields.map fun f => (fieldAt r key w.data f).elim .null .bulk := by
    refine map_congr_left fun f hf => ?_
    rw [lookup_found, if_pos hf]
  rw [hReply]
  rfl

lemma exec_zscore_unseen (elem : Bytes) : ((Reading.zscore elem).run r key).exec w =
    ((Reading.zscore elem).unseen r key w.data, w.probed r key) := by
  have hSlots := exec_readSlots (zsetMemberBase r.num key elem) (w.probed r key)
  rw [data_probed] at hSlots
  rw [Reading.unseen]
  cases hLive : scoreAt r key w.data elem with
  | none =>
    refine exec_orNull_notFound (exec_typed h typeZSet ((read_bind hSlots _).trans ?_)) _
    rw [← scoreAt, hLive]
    rfl
  | some v =>
    refine exec_orNull_ok (exec_typed h typeZSet ((read_bind hSlots _).trans ?_)) _
    rw [← scoreAt, hLive]
    rfl

lemma exec_lindex_unseen (idx : Int) :
    ((Reading.lindex idx).run r key).exec w = ((Reading.lindex idx).unseen r key w.data, w.probed r key) := by
  have hOpen := exec_listOpen_unseen h
  rw [Reading.unseen]
  cases hEntry : entryAt (elementsAt r key w.data) idx with
  | none =>
    refine exec_orNull_notFound ((read_bind hOpen _).trans ?_) _
    rw [hEntry]
    rfl
  | some e =>
    refine exec_orNull_ok ((read_bind hOpen _).trans ?_) _
    rw [hEntry]
    rfl

/-- **A key that is not found**, and what each command replies. -/
theorem reply_unseen (c : Reading) : ((c.run r key).exec w).1 = c.unseen r key w.data := by
  have hProbe := exec_probe r key w
  rw [h] at hProbe
  have hData := data_probed r key w
  have hScores : (zsetLiveScores r key).exec (w.probed r key) = (.ok (scoresAt r key _), _) := exec_load _ _ _
  rw [hData] at hScores
  cases c with
  | get =>
    have hGet : (strGet r key).exec w = (.error .notFound, w.probed r key) := exec_readValue_unseen h
    exact congrArg Prod.fst (exec_orNull_notFound hGet _)
  | strlen =>
    have hAttempt := read_attempt (strGet r key) w
    rw [strGet, exec_readValue_unseen h] at hAttempt
    exact congrArg Prod.fst (read_bind hAttempt _)
  | hget field => rw [exec_hget_unseen h]
  | hmget fields => rw [exec_hmget_unseen h]
  | hgetall => exact congrArg Prod.fst (read_bind (exec_hashItems_unseen h) _)
  | hlen =>
    exact congrArg Prod.fst (read_bind (read_bind (exec_hashItems_unseen h) _) _)
  | smembers => exact congrArg Prod.fst (read_bind (exec_setItems_unseen h) _)
  | sismember elem =>
    have hFound : (setExists r key elem).exec w =
        (.ok (w.data.contains (setMember r.num key elem)), w.probed r key) :=
      exec_typed h typeSet (by rw [← hData]; rfl)
    exact congrArg Prod.fst (read_bind hFound _)
  | scard =>
    exact congrArg Prod.fst (read_bind (read_bind (exec_setItems_unseen h) _) _)
  | zscore elem => rw [exec_zscore_unseen h]
  | zrange opts withScores =>
    have hSorted : (sortedItems r key).exec (w.probed r key) =
        (.ok (sortItems (scoresAt r key w.data)), w.probed r key) := read_bind hScores _
    have hRange : (zsetRange r key opts).exec w =
        (.ok (applyRange (sortItems (scoresAt r key w.data)) opts), w.probed r key) :=
      exec_typed h typeZSet (read_bind hSorted _)
    exact congrArg Prod.fst (read_bind hRange _)
  | zcard =>
    have hLen : (zsetLen r key).exec w = (.ok (scoresAt r key w.data).length, w.probed r key) :=
      exec_typed h typeZSet (read_bind hScores _)
    exact congrArg Prod.fst (read_bind hLen _)
  | lrange start stop =>
    exact congrArg Prod.fst (read_bind (read_bind (exec_listOpen_unseen h) _) _)
  | llen =>
    exact congrArg Prod.fst (read_bind (read_bind (exec_listOpen_unseen h) _) _)
  | lindex idx => rw [exec_lindex_unseen h]
  | getbit offset =>
    rw [Reading.run, Reading.unseen, getBit]
    by_cases hOffset : maxBitIndex < offset
    · rw [if_pos hOffset, if_pos hOffset]
      rfl
    · rw [if_neg hOffset, if_neg hOffset]
      have hKind : (bitKind r key).exec w = (.ok .absent, w.probed r key) := read_bind hProbe _
      exact congrArg Prod.fst (read_bind (read_bind hKind _) _)
  | xrange lo hi count rev =>
    rw [Reading.run, Reading.unseen]
    by_cases hCount : count < 0
    · rw [if_pos hCount]
      rfl
    · rw [if_neg hCount]
      have hStream : (ensureStream r key).exec w = (.ok none, w.probed r key) :=
        read_bind hProbe _
      have hRange : (streamRange r key lo hi count rev).exec w = (.ok [], w.probed r key) :=
        read_bind hStream _
      exact congrArg Prod.fst (read_bind hRange _)
  | jsonGet fn =>
    have hCheck : (jsonCheck r key).exec w = (.ok none, w.probed r key) := read_bind hProbe _
    exact congrArg Prod.fst (exec_orNull_notFound (read_bind hCheck _) _)
  | bfExists items single =>
    have hOpen : (bloomOpen r key).exec w = (.ok (none, 0), w.probed r key) :=
      read_bind (exec_sketchOpen_unseen h skBloom) _
    have hFound : (bfExists r key items).exec w = (.ok (items.map fun _ => false), w.probed r key) :=
      read_bind hOpen _
    refine (congrArg Prod.fst (read_bind hFound _)).trans ?_
    cases single with
    | true => cases items <;> rfl
    | false =>
      show Except.ok (Output.array (List.map Output.bool (items.map fun _ => false))) = _
      rw [map_map]
      rfl
  | cmsQuery items =>
    have hOpen : (cmsOpen r key).exec w = (.error .notFound, w.probed r key) :=
      read_bind (exec_sketchOpen_unseen h skCMS) _
    have hQuery : (cmsQuery r key items).exec w = (.error .notFound, w.probed r key) :=
      read_bind_error hOpen _
    exact congrArg Prod.fst (read_bind_error (exec_orNoKey_notFound hQuery _) _)
  | topkCount items =>
    have hOpen : (topkOpen r key).exec w = (.error .notFound, w.probed r key) :=
      read_bind (exec_sketchOpen_unseen h skTopK) _
    have hCount : (topkCount r key items).exec w = (.error .notFound, w.probed r key) :=
      read_bind_error hOpen _
    exact congrArg Prod.fst (read_bind_error (exec_orNoKey_notFound hCount _) _)

end

end RedGeo.Repo
