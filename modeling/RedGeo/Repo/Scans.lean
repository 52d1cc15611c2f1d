import RedGeo.Repo.Hashes
import RedGeo.Repo.Orders

/-!
# RedGeo — scanning a hash

The listings of a hash (`Fields`, `Values`, `Scan` of `crdtstore/rhash.go`) and the
paging of `crdtstore/scan.go`: the cursor of a scan is a token for a position that the
node remembers for some time.

`match.Match` is not part of the repository; a scan has a predicate in place of a
pattern.

* `execIn_scanPage` — a page of a scan whose cursor is still known: the first names to
  come, with a cursor for those behind them.
* `scan_survives` — a whole scan, of a collection that changes between its pages.
-/

namespace RedGeo.Repo

open Lib Store Function List Option

/-! ## The resume table -/

/-- `resumeEntry`, of a scan of one key. -/
structure ResumeEntry where
  db : Int64
  scopeKey : Bytes
  last : Bytes
  expiresMS : Int64
  deriving DecidableEq, Repr

structure ResumeTable where
  next : UInt64 := 0
  entries : UInt64 → Option ResumeEntry := fun _ => none
  ttlMS : Int64

namespace ResumeTable

variable (rt : ResumeTable)

def gcLocked (now : Int64) : ResumeTable :=
  { rt with entries := fun tok => (rt.entries tok).filter fun e => now < e.expiresMS }

def alloc (e : ResumeEntry) : ReadM (UInt64 × ResumeTable) := do
  let now ← nowMS
  let rt := rt.gcLocked now
  -- 0 is where a scan starts and ends
  let tok := if rt.next + 1 = 0 then 1 else rt.next + 1
  let now ← nowMS
  let e := { e with expiresMS := now + rt.ttlMS }
  pure (tok, { rt with next := tok, entries := update rt.entries tok (some e) })

def free (tok : UInt64) : ResumeTable :=
  { rt with entries := update rt.entries tok none }

def get (tok : UInt64) : ReadM (Option ResumeEntry × ResumeTable) :=
  match rt.entries tok with
  | none => pure (none, rt)
  | some e => do
    let now ← nowMS
    if e.expiresMS ≤ now then pure (none, rt.free tok)
    else do
      let now ← nowMS
      let e := { e with expiresMS := now + rt.ttlMS }
      pure (some e, { rt with entries := update rt.entries tok (some e) })

end ResumeTable

/-! ## Pages -/

def defaultScanCount : Nat := 10

/-- The `COUNT` of a scan. -/
def scanCount (count : Int64) : Nat := if count ≤ 0 then defaultScanCount else count.toInt.toNat

/-- Behind the last name that has been returned; `sort.SearchStrings` finds the first one
that is not below it. -/
def scanStart (names : List Bytes) (last : Bytes) : Nat :=
  let i := names.findIdx fun name => last ≤ name
  if names[i]? = some last then i + 1 else i

/-- The names of a page, by their positions. -/
def pageFrom (keep : Bytes → Bool) (names : List Bytes) (start count : Nat) : List Nat :=
  (((List.range names.length).drop start).filter fun i => keep (names.getD i [])).take count

section

variable (r : Db) (key : Bytes)

/-- Where a page begins. A cursor that is not known starts a scan again. -/
def scanFrom (cursor : Int64) (names : List Bytes) (rt : ResumeTable) :
    ReadM (Nat × ResumeTable) :=
  if cursor = 0 then pure (0, rt)
  else do
    match ← rt.get cursor.toUInt64 with
    | (some e, rt) =>
      pure (if e.scopeKey = key ∧ e.db = r.num then scanStart names e.last else 0, rt)
    | (none, rt) => pure (0, rt)

/-- The cursor for what is behind a page. -/
def scanNext (count : Nat) (names : List Bytes) (page : List Nat)
    (rt : ResumeTable) : ReadM (Int64 × ResumeTable) :=
  match page.getLast? with
  | none => pure (0, rt)
  | some last =>
    if page.length < count ∨ last + 1 = names.length then pure (0, rt)
    else do
      let (tok, rt) ← rt.alloc ⟨r.num, key, names.getD last [], 0⟩
      pure (tok.toInt64, rt)

def scanPage (cursor count : Int64) (keep : Bytes → Bool) (names : List Bytes)
    (rt : ResumeTable) : ReadM ((List Nat × Int64) × ResumeTable) := do
  let (start, rt) ← scanFrom r key cursor names rt
  let page := pageFrom keep names start (scanCount count)
  let rt := if cursor = 0 then rt else rt.free cursor.toUInt64
  let (next, rt) ← scanNext r key (scanCount count) names page rt
  pure ((page, next), rt)

/-! ## Listings of a hash -/

/-- `sort.Strings`. -/
def sortNames (names : List Bytes) : List Bytes := names.mergeSort fun a b => a ≤ b

def hashFields : ReadM (List Bytes) := do
  let items ← hashItems r key
  pure (sortNames (items.map Prod.fst))

/-- `Values`. The fields are read once more for their values, and should that fail there
are none. -/
def hashValues : ReadM (List Bytes) := do
  let fields ← hashFields r key
  match ← (hashItems r key).attempt with
  | .ok items => pure (fields.map fun f => (items.lookup f).getD [])
  | .error _ => pure (fields.map fun _ => [])

def hashScan (cursor : Int64) (keep : Bytes → Bool) (count : Int64)
    (rt : ResumeTable) : ReadM ((List (Bytes × Bytes) × Int64) × ResumeTable) := do
  let items ← hashItems r key
  let fields := sortNames (items.map Prod.fst)
  let ((idx, next), rt) ← scanPage r key cursor count keep fields rt
  let item i := (fields.getD i [], (items.lookup (fields.getD i [])).getD [])
  pure ((idx.map item, next), rt)

/-! ## What is on a page -/

section

variable {names : List Bytes}

/-- The names behind a position. -/
lemma drop_scanStart (hSorted : names.Pairwise (· < ·)) (last : Bytes) :
    names.drop (scanStart names last) = names.filter fun name => last < name := by
  induction names with
  | nil => rfl
  | cons name names ih =>
    obtain ⟨hAbove, hRest⟩ := pairwise_cons.mp hSorted
    rcases lt_trichotomy last name with hLt | rfl | hGt
    · -- the search stops at once, and everything is above
      have hZero : scanStart (name :: names) last = 0 := by
        simp [scanStart, findIdx_cons, hLt.le, hLt.ne']
      rw [hZero, drop_zero, eq_comm, filter_eq_self]
      intro a ha
      rcases mem_cons.mp ha with rfl | ha
      · exact decide_eq_true hLt
      · exact decide_eq_true (hLt.trans (hAbove a ha))
    · have hOne : scanStart (last :: names) last = 1 := by
        simp [scanStart, findIdx_cons]
      rw [hOne, drop_succ_cons, drop_zero, filter_cons_of_neg (by simp), eq_comm, filter_eq_self]
      exact fun a ha => decide_eq_true (hAbove a ha)
    · have hSucc : scanStart (name :: names) last = scanStart names last + 1 := by
        simp only [scanStart, findIdx_cons, decide_eq_false hGt.not_ge, cond_false, List.getElem?_cons_succ]
        split <;> rfl
      rw [hSucc, drop_succ_cons, ih hRest, filter_cons_of_neg (by simpa using hGt.le)]

/-- The positions of a page stand for the first names that are kept. -/
lemma map_pageFrom (start count : Nat) : (pageFrom keep names start count).map (fun i => names.getD i []) =
    ((names.drop start).filter keep).take count := by
  have hNames : (List.range names.length).map (fun i => names.getD i []) = names := by
    refine ext_getElem (by simp) fun i h₁ h₂ => ?_
    simp [getD_eq_getElem?_getD, List.getElem?_eq_getElem h₂]
  calc (pageFrom keep names start count).map (fun i => names.getD i [])
      = (((List.range names.length).map fun i => names.getD i []).drop start |>.filter keep).take count := by
        rw [pageFrom, List.map_take, ← List.map_drop, List.filter_map]
        rfl
    _ = ((names.drop start).filter keep).take count := by rw [hNames]

end

/-- The names to come, behind a position. -/
def remaining (keep : Bytes → Bool) (names : List Bytes) : Option Bytes → List Bytes
  | none => names.filter keep
  | some last => (names.filter fun name => last < name).filter keep

lemma remaining_eq_filter (place : Option Bytes) :
    remaining keep names place = (names.filter keep).filter fun name => place.all fun last => last < name := by
  cases place with
  | none => simp [remaining]
  | some last =>
    rw [remaining, filter_comm]
    rfl

lemma drop_of_place (hSorted : names.Pairwise (· < ·)) (place : Option Bytes) :
    (names.drop (place.elim 0 (scanStart names))).filter keep = remaining keep names place := by
  cases place with
  | none => rfl
  | some last => exact congrArg (List.filter keep) (drop_scanStart hSorted last)

/-- What comes behind a name that is itself to come. -/
lemma remaining_of_split (hSorted : names.Pairwise (· < ·))
    (h : remaining keep names place = page ++ last :: rest) : remaining keep names (some last) = rest := by
  have hPairwise : (page ++ last :: rest).Pairwise (· < ·) := by
    rw [← h, remaining_eq_filter]
    exact (hSorted.filter _).filter _
  obtain ⟨-, hRest, hBefore⟩ := pairwise_append.mp hPairwise
  obtain ⟨hAfter, -⟩ := pairwise_cons.mp hRest
  have hLast : place.all (fun first => first < last) = true := by
    have hMem : last ∈ remaining keep names place := by simp [h]
    rw [remaining_eq_filter] at hMem
    exact (mem_filter.mp hMem).2
  -- what is behind `last` is behind `place` as well
  have hThrough : remaining keep names (some last) =
      (remaining keep names place).filter fun name => last < name := by
    simp only [remaining_eq_filter, List.filter_filter]
    refine List.filter_congr fun name _ => ?_
    cases place with
    | none => simp
    | some first =>
      have hFirst : first < last := by simpa using hLast
      by_cases hName : last < name
      · simp [hName, hFirst.trans hName]
      · simp [hName]
  have hPage : page.filter (fun name => last < name) = [] := by
    rw [filter_eq_nil_iff]
    intro name hName
    simpa using (hBefore name hName last mem_cons_self).le
  have hSelf : rest.filter (fun name => last < name) = rest := by
    rw [filter_eq_self]
    exact fun name hName => decide_eq_true (hAfter name hName)
  rw [hThrough, h, filter_append, hPage, nil_append, filter_cons_of_neg (by simp), hSelf]

/-! ## A scan, call by call -/

/-- What an entry says of a scan. -/
def ResumeEntry.place (e : ResumeEntry) : Int64 × Bytes × Bytes := (e.db, e.scopeKey, e.last)

/-- A cursor stands for a position: 0 for the start, others by an entry of the table that
does not expire while the node reads its clock. -/
def Held (rt : ResumeTable) (now : Nat → Int64) (cursor : Int64)
    (place : Option Bytes) : Prop :=
  if cursor = 0 then place = none
  else ∃ e, rt.entries cursor.toUInt64 = some e ∧ place = some e.last ∧ e.db = r.num ∧
    e.scopeKey = key ∧ ∀ i, now i < e.expiresMS

end

/-- A cursor that is known throughout the readings of a clock is known in later ones. -/
lemma Held.later (h : Held r key rt now cursor place)
    (hLater : ∀ P : Int64 → Prop, (∀ i, P (now i)) → ∀ i, P (now' i)) : Held r key rt now' cursor place := by
  rw [Held] at h ⊢
  by_cases hZero : cursor = 0
  · rw [if_pos hZero] at h ⊢
    exact h
  · rw [if_neg hZero] at h ⊢
    obtain ⟨e, hEntry, hPlace, hDb, hKey, hTime⟩ := h
    exact ⟨e, hEntry, hPlace, hDb, hKey, hLater (· < e.expiresMS) hTime⟩

/-- What the next cursor of a page stands for. -/
structure Continues (r : Db) (key : Bytes) (keep : Bytes → Bool) (names : List Bytes)
    (place : Option Bytes) (page : List Bytes) (next : Int64) (rt : ResumeTable) : Prop where
  done : next = 0 → remaining keep names place = page
  more : next ≠ 0 → ∃ last e, rt.entries next.toUInt64 = some e ∧ e.place = (r.num, key, last) ∧
    remaining keep names place = page ++ remaining keep names (some last)

section

variable {r : Db} {key : Bytes} {rt : ResumeTable} {w : World} {cursor : Int64}
  {place : Option Bytes} {names : List Bytes}

/-- A cursor that is still known. -/
lemma execIn_get (o : Order) (hEntry : rt.entries tok = some e) (hTime : ∀ i, w.now i < e.expiresMS) :
    ∃ e' rt' w', (rt.get tok).execIn o w = (.ok (some e', rt'), w') ∧ e'.place = e.place := by
  have hLive : ¬ e.expiresMS ≤ w.now 0 := Int64.not_le.mpr (hTime 0)
  let e' := { e with expiresMS := w.now 1 + rt.ttlMS }
  refine ⟨e', { rt with entries := update rt.entries tok (some e') },
    { w with now := fun i => w.now (i + 1 + 1) }, ?_, rfl⟩
  rw [ResumeTable.get, hEntry]
  show ReadM.execIn o (if e.expiresMS ≤ w.now 0 then _ else _) _ = _
  rw [if_neg hLive]
  rfl

/-- A new cursor is not 0, and stands for its entry. -/
lemma execIn_alloc (rt : ResumeTable) (e : ResumeEntry) (o : Order) (w : World) :
    ∃ tok rt' w' e', (rt.alloc e).execIn o w = (.ok (tok, rt'), w') ∧ tok ≠ 0 ∧ rt'.entries tok = some e' ∧
    e'.place = e.place := by
  refine ⟨_, _, _, { e with expiresMS := w.now 1 + rt.ttlMS }, rfl, ?_, update_self .., rfl⟩
  split
  · decide
  · next hNe => exact hNe

lemma execIn_scanFrom (hHeld : Held r key rt w.now cursor place) (names : List Bytes) (o : Order) : ∃ rt' w',
    (scanFrom r key cursor names rt).execIn o w = (.ok (place.elim 0 (scanStart names), rt'), w') := by
  rw [scanFrom]
  rw [Held] at hHeld
  split at hHeld
  · next hZero =>
    subst hHeld
    rw [if_pos hZero]
    exact ⟨rt, w, rfl⟩
  · next hNe =>
    obtain ⟨e, hEntry, rfl, hDb, hKey, hTime⟩ := hHeld
    obtain ⟨e', rt', w', hGet, hPlace⟩ := execIn_get o hEntry hTime
    obtain ⟨hDb', hKey', hLast'⟩ : e'.db = e.db ∧ e'.scopeKey = e.scopeKey ∧ e'.last = e.last := by
      simpa [ResumeEntry.place] using hPlace
    refine ⟨rt', w', ?_⟩
    rw [if_neg hNe, readIn_bind hGet]
    show (Except.ok (if _ then _ else _, rt'), w') = _
    rw [if_pos ⟨hKey'.trans hKey, hDb'.trans hDb⟩, hLast']
    rfl

variable (hSorted : names.Pairwise (· < ·))

include hSorted

/-- A page and the names behind its last one are the names to come. -/
lemma remaining_of_page {count : Nat} {idx : List Nat} (hLast : idx.getLast? = some last)
    (hPage : idx.map (fun i => names.getD i []) = (remaining keep names place).take count) :
    remaining keep names place =
    idx.map (fun i => names.getD i []) ++ remaining keep names (some (names.getD last [])) := by
  have hSplit : remaining keep names place = idx.dropLast.map (fun i => names.getD i []) ++
      names.getD last [] :: (remaining keep names place).drop count := by
    have hIdx : idx.dropLast ++ [last] = idx := dropLast_append_getLast? last hLast
    calc remaining keep names place
        = idx.map (fun i => names.getD i []) ++ (remaining keep names place).drop count := by
          rw [hPage, take_append_drop]
      _ = _ := by
          conv_lhs => rw [← hIdx]
          simp
  rw [remaining_of_split hSorted hSplit, hPage, take_append_drop]

lemma le_getD_of_last (hFinal : last + 1 = names.length) (hName : name ∈ names) :
    name ≤ names.getD last [] := by
  obtain ⟨j, hj, rfl⟩ := mem_iff_getElem.mp hName
  have hLast : last < names.length := by omega
  rw [getD_eq_getElem?_getD, List.getElem?_eq_getElem hLast, getD_some]
  rcases Nat.lt_or_eq_of_le (show j ≤ last by omega) with hLt | rfl
  · exact (pairwise_iff_getElem.mp hSorted j last hj hLast hLt).le
  · exact le_rfl

/-- The cursor of a page that holds the first names to come. -/
lemma execIn_scanNext {count : Nat} (hCount : 0 < count) {idx : List Nat}
    (hPage : idx.map (fun i => names.getD i []) = (remaining keep names place).take count) (r : Db)
    (key : Bytes) (rt : ResumeTable) (o : Order) (w : World) :
    ∃ next rt' w', (scanNext r key count names idx rt).execIn o w = (.ok (next, rt'), w') ∧
    Continues r key keep names place (idx.map fun i => names.getD i []) next rt' := by
  have hLength : idx.length = min count (remaining keep names place).length := by
    rw [← length_take, ← hPage, length_map]
  -- a page that is not full is all there is
  have hShort : idx.length < count → remaining keep names place = idx.map fun i => names.getD i [] := by
    intro hLt
    rw [hPage, take_of_length_le (by omega)]
  have hEnd : ∀ {rt' : ResumeTable}, remaining keep names place = idx.map (fun i => names.getD i []) →
      Continues r key keep names place (idx.map fun i => names.getD i []) 0 rt' :=
    fun hAll => ⟨fun _ => hAll, fun hNe => absurd rfl hNe⟩
  rw [scanNext]
  cases hLast : idx.getLast? with
  | none =>
    rw [List.getLast?_eq_none_iff] at hLast
    exact ⟨0, rt, w, rfl, hEnd (hShort (by simpa [hLast] using hCount))⟩
  | some last =>
    have hRest := remaining_of_page hSorted hLast hPage
    by_cases hDone : idx.length < count ∨ last + 1 = names.length
    · refine ⟨0, rt, w, ?_, hEnd (hDone.elim hShort fun hFinal => ?_)⟩
      · simp only [if_pos hDone]
        rfl
      · -- nothing is above the last name
        have hNone : remaining keep names (some (names.getD last [])) = [] := by
          have hEmpty : names.filter (fun name => names.getD last [] < name) = [] := by
            rw [filter_eq_nil_iff]
            intro name hName
            rw [decide_eq_true_iff, not_lt]
            exact le_getD_of_last hSorted hFinal hName
          rw [remaining, hEmpty, filter_nil]
        rwa [hNone, append_nil] at hRest
    · obtain ⟨tok, rt', w', e, hAlloc, hTok, hEntry, hPlace⟩ :=
        execIn_alloc rt ⟨r.num, key, names.getD last [], 0⟩ o w
      refine ⟨tok.toInt64, rt', w', ?_, ⟨fun hZero => ?_, fun _ => ⟨_, e, hEntry, hPlace, hRest⟩⟩⟩
      · simp only [if_neg hDone]
        exact readIn_bind hAlloc _
      · exact absurd (congrArg Int64.toUInt64 hZero) hTok

omit hSorted

lemma scanCount_pos (count : Int64) : 0 < scanCount count := by
  rw [scanCount]
  split
  · decide
  · next hPos =>
    rw [Int64.not_le, Int64.lt_iff_toInt_lt] at hPos
    have hZero : (0 : Int64).toInt = 0 := by decide
    omega

/-- **A page of a scan whose cursor is still known**: the first names to come, with a
cursor for what is behind them. -/
theorem execIn_scanPage (hSorted : names.Pairwise (· < ·)) (hHeld : Held r key rt w.now cursor place)
    (count : Int64) (keep : Bytes → Bool) (o : Order) :
    ∃ idx next rt' w', (scanPage r key cursor count keep names rt).execIn o w = (.ok ((idx, next), rt'), w') ∧
    idx.map (fun i => names.getD i []) = (remaining keep names place).take (scanCount count) ∧
    Continues r key keep names place (idx.map fun i => names.getD i []) next rt' := by
  obtain ⟨rt₁, w₁, hFrom⟩ := execIn_scanFrom hHeld names o
  have hPage : (pageFrom keep names (place.elim 0 (scanStart names)) (scanCount count)).map
      (fun i => names.getD i []) = (remaining keep names place).take (scanCount count) := by
    rw [map_pageFrom, drop_of_place hSorted]
  obtain ⟨next, rt₂, w₂, hNext, hContinues⟩ := execIn_scanNext hSorted (scanCount_pos count) hPage r key
    (if cursor = 0 then rt₁ else rt₁.free cursor.toUInt64) o w₁
  refine ⟨_, next, rt₂, w₂, ?_, hPage, hContinues⟩
  rw [scanPage, readIn_bind hFrom]
  exact readIn_bind hNext _

end

/-! ## A collection that changes -/

section

variable (r : Db) (key : Bytes) (keep : Bytes → Bool)

/-- A call of `scanPage`, on the names that the collection then has. -/
def PageCall (cursor : Int64) (place : Option Bytes) (names page : List Bytes) (tok : Int64)
    (rt' : ResumeTable) : Prop :=
  names.Pairwise (· < ·) ∧ ∃ count rt o w w' idx, Held r key rt w.now cursor place ∧
    (scanPage r key cursor count keep names rt).execIn o w = (.ok ((idx, tok), rt'), w') ∧
    page = idx.map fun i => names.getD i []

/-- A scan from a cursor to 0: the names at the time of each page, and the page. What else
happens to the table in between does not matter, as long as the entry is `Held`. -/
inductive PageRun : Int64 → Option Bytes → List (List Bytes × List Bytes) → Prop
  | last (hCall : PageCall r key keep cursor place names page 0 rt) : PageRun cursor place [(names, page)]
  | more (hCall : PageCall r key keep cursor place names page tok rt) (hNext : tok ≠ 0)
    (hEntry : rt.entries tok.toUInt64 = some e) (hRest : PageRun tok (some e.last) pages) :
    PageRun cursor place ((names, page) :: pages)

end

lemma mem_remaining : name ∈ remaining keep names place ↔ (name ∈ names ∧ keep name) ∧ ∀ last ∈ place, last < name := by
  rw [remaining_eq_filter, mem_filter, mem_filter]
  cases place <;> simp

lemma PageCall.continues (h : PageCall r key keep cursor place names page tok rt) :
    (remaining keep names place).Pairwise (· < ·) ∧ Continues r key keep names place page tok rt ∧
    (tok ≠ 0 → page ≠ []) := by
  obtain ⟨hSorted, count, rt₀, o, w, w', idx, hHeld, hRun, rfl⟩ := h
  obtain ⟨idx', tok', rt', w₁, hRun', hTake, hContinues⟩ := execIn_scanPage hSorted hHeld count keep o
  obtain ⟨⟨⟨rfl, rfl⟩, rfl⟩, -⟩ : ((idx = idx' ∧ tok = tok') ∧ rt = rt') ∧ w' = w₁ := by
    simpa using hRun.symm.trans hRun'
  refine ⟨?_, hContinues, fun hNext hNil => hNext ?_⟩
  · rw [remaining_eq_filter]
    exact (hSorted.filter _).filter _
  · -- there is no next cursor for a page without names
    have hNone : pageFrom keep names (place.elim 0 (scanStart names)) (scanCount count) = [] := by
      rw [← map_eq_nil_iff, map_pageFrom, drop_of_place hSorted, ← hTake, hNil]
    obtain ⟨rt₁, w₂, hFrom⟩ := execIn_scanFrom hHeld names o
    rw [scanPage, readIn_bind hFrom] at hRun
    simp only [hNone] at hRun
    cases hRun
    rfl

/-- **A scan of a collection that changes.** Whatever is added and removed between the pages,
a scan whose cursors do not expire returns names in ascending order, so none twice, each of
them to come and there at its page; and every name that is there at all of its pages. -/
theorem scan_survives (h : PageRun r key keep cursor place pages) : (pages.flatMap Prod.snd).Pairwise (· < ·) ∧
    (∀ p ∈ pages, ∀ name ∈ p.2, name ∈ remaining keep p.1 place) ∧
    ∀ name, (∀ p ∈ pages, name ∈ remaining keep p.1 place) → name ∈ pages.flatMap Prod.snd := by
  induction h with
  | last hCall =>
    obtain ⟨hPairwise, hContinues, -⟩ := hCall.continues
    simpa [← hContinues.done rfl] using hPairwise
  | @more cursor place names page tok rt e pages hCall hNext hEntry _ ih =>
    obtain ⟨hPairwise, hContinues, hSome⟩ := hCall.continues
    obtain ⟨last, e', hEntry', hAt, hSplit⟩ := hContinues.more hNext
    obtain rfl : e' = e := some.inj (hEntry'.symm.trans hEntry)
    obtain rfl : e'.last = last := congrArg (fun x => x.2.2) hAt
    obtain ⟨hSorted, hFound, hAll⟩ := ih
    rw [hSplit, pairwise_append] at hPairwise
    have hPage : ∀ name ∈ page, name ∈ remaining keep names place :=
      fun name hName => hSplit ▸ mem_append_left _ hName
    have hBefore : ∀ name ∈ page, name ≤ e'.last := by
      intro name hName
      by_contra hBehind
      -- it would be to come again
      exact lt_irrefl name (hPairwise.2.2 name hName name (by grind [mem_remaining]))
    have hAfter : ∀ p ∈ pages, ∀ name ∈ p.2, e'.last < name :=
      fun p hp name hName => (mem_remaining.mp (hFound p hp name hName)).2 _ rfl
    obtain ⟨first, hFirst⟩ := exists_mem_of_ne_nil page (hSome hNext)
    simp only [flatMap_cons, pairwise_append, forall_mem_cons, mem_append]
    refine ⟨⟨hPairwise.1, hSorted, fun name hName later hLater => ?_⟩, ⟨hPage, fun p hp name hName => ?_⟩,
      fun name ⟨hHere, hThere⟩ => ?_⟩
    · obtain ⟨p, hp, hLater⟩ := mem_flatMap.mp hLater
      exact (hBefore name hName).trans_lt (hAfter p hp later hLater)
    · -- the page before is not empty, so that the position has moved on
      grind [mem_remaining]
    · grind [mem_remaining]

/-- With `COUNT 1` first; then `a` is removed and `c` is added. -/
theorem scan_survives_change : ∃ pages, PageRun ⟨.named 101, 0⟩ [107] (fun _ => true) 0 none pages ∧
    pages.flatMap Prod.snd = [[97], [98], [99]] ∧ (pages.flatMap Prod.snd).Pairwise (· < ·) := by
  have hRun : PageRun ⟨.named 101, 0⟩ [107] (fun _ => true) 0 none
      [([[97], [98]], [[97]]), ([[98], [99]], [[98], [99]])] :=
    .more ⟨by decide, 1, ⟨0, fun _ => none, 9⟩, .byKey, .fresh, _, [0], rfl, rfl, rfl⟩ (by decide) rfl
      (.last ⟨by decide, 5, ⟨0, fun _ => some ⟨0, [107], [97], 9⟩, 9⟩, .byKey, .fresh, _, [0, 1],
        ⟨_, rfl, rfl, rfl, rfl, fun _ => show (1 : Int64) < 9 by decide⟩, rfl, rfl⟩)
  exact ⟨_, hRun, rfl, (scan_survives hRun).1⟩

end RedGeo.Repo
