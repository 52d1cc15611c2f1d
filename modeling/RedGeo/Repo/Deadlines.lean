import RedGeo.Repo.KeepTTL
import RedGeo.Repo.SetReplies

/-!
# RedGeo — the arithmetic of expiries

The commands that set an expiry turn their argument into an `int64` of nanoseconds and that
into one of milliseconds, and products wrap around on the way. A number that is not positive
is what the store takes for "no expiry", except that `SET` never passes one on.

* `ownExpiry_run` — the expiry each command stores, for every argument.
* `expiry_exact_iff` — the arguments for which it is the one that was asked for.
-/

namespace RedGeo.Repo

open Lib Store Int64 Duration

/-! ## The commands -/

/-- Seconds or milliseconds: the `multi` of the commands. -/
inductive Unit64
  | sec
  | ms
  deriving DecidableEq, Repr

def Unit64.multi : Unit64 → Int64
  | .sec => 1000
  | .ms => 1

/-- The duration that the commands make of their argument; it may wrap around twice. -/
def Unit64.ttl (unit : Unit64) (n : Int64) : Duration := unit.multi * n * Duration.millisecond

/-- The commands that set an expiry. -/
inductive Expiring
  /-- `SET` with `EX` or `PX`. -/
  | setTTL (ifNX ifXX get : Bool) (unit : Unit64)
  /-- `SET` with `EXAT` or `PXAT`. -/
  | setAt (ifNX ifXX get : Bool) (unit : Unit64)
  /-- `SETEX` and `PSETEX`. -/
  | setex (unit : Unit64)
  /-- `EXPIRE` and `PEXPIRE`. -/
  | expire (unit : Unit64)
  /-- `EXPIREAT` and `PEXPIREAT`. -/
  | expireAt (unit : Unit64)
  deriving DecidableEq, Repr

namespace Expiring

/-- The arguments of `SET`. -/
def setArgs (key value : Bytes) (n : Int64) : Expiring → SetArgs
  | setTTL ifNX ifXX get .sec => { key, value, ifNX, ifXX, get, ttlSec := n }
  | setTTL ifNX ifXX get .ms => { key, value, ifNX, ifXX, get, ttlMs := n }
  | setAt ifNX ifXX get .sec => { key, value, ifNX, ifXX, get, atSec := n }
  | setAt ifNX ifXX get .ms => { key, value, ifNX, ifXX, get, atMs := n }
  | _ => { key, value }

/-- What the commands do to the store, and whether they write. -/
def run (r : Db) (key value : Bytes) (n : Int64) (c : Expiring) : StoreM Bool :=
  match c with
  | setTTL .. | setAt .. =>
    match parseSet (c.setArgs key value n) with
    | .error e => .fail e
    | .ok cmd => do
      let out ← cmd.write r
      pure (out.elim true fun out => out.created || out.updated)
  | setex unit => do
    strSetExpire r key value (unit.ttl n)
    pure true
  | expire unit => do
    keyExpire r key (unit.ttl n).milliseconds
    pure true
  | expireAt unit => do
    keyExpireAt r key (Time.ofUnixMilli (unit.multi * n)).unixMilli
    pure true

end Expiring

/-! ## What they store -/

section

variable (r : Db) (key : Bytes)

/-- The expiry in the metadata that the node itself has written. -/
def ownExpiry (data : Datastore) : Option Int64 := do
  let v ← data[slotKey (metaBase r.num key) r.self]?
  let sl ← (decodeSlot v).toOption
  let m ← decodeMeta sl.value
  pure m.etimeMS

lemma ownExpiry_of_slot (h : SlotOf (metaBase r.num key) data r.self ⟨st, tagPresent, encodeMeta m⟩) :
    ownExpiry r key data = some m.etimeMS := by
  rw [ownExpiry, show data[slotKey (metaBase r.num key) r.self]? = _ from h]
  simp [Except.toOption]

lemma ownExpiry_stored (b : Bytes) (etimeMS : Int64) (w : World) :
    ownExpiry r key (w.stored r key b etimeMS).data = some etimeMS := by
  obtain ⟨j, -, env, rfl, hPut⟩ := replaced_stored r key b etimeMS w
  exact ownExpiry_of_slot r key hPut.slotOf_self

variable {r key}

lemma ownExpiry_writeString (h : exec (writeString r key b etimeMS false) w = (.ok (), w')) :
    ownExpiry r key w'.data = some etimeMS := by
  by_cases hCounts : Counts r key w.data
  · rw [exec_writeString_counter r key hCounts] at h
    cases h
  · rw [exec_writeString r key hCounts] at h
    cases h
    exact ownExpiry_stored r key b etimeMS _

lemma ownExpiry_setExpire (h : exec (strSetExpire r key b ttl) w = (.ok (), w')) :
    ownExpiry r key w'.data = some (if 0 < ttl then w.now 0 + ttl.milliseconds else 0) := by
  rw [strSetExpire] at h
  by_cases hTtl : 0 < ttl
  · have hNow : nowMS.exec w = (.ok (w.now 0), w.later) := rfl
    simp only [if_pos hTtl] at h ⊢
    exact ownExpiry_writeString ((exec_withLock ..).symm.trans ((exec_read hNow _).symm.trans h))
  · simp only [if_neg hTtl] at h ⊢
    exact ownExpiry_writeString ((exec_withLock ..).symm.trans h)

lemma ownExpiry_setWith (hKeep : opts.keepTTL = false)
    (h : exec (strSetWith r key b opts) w = (.ok res, w')) (hWrote : (res.created || res.updated) = true) :
    ownExpiry r key w'.data = some (opts.due ((w.probed r key).now 0)) := by
  by_cases hWrong : opts.Refuses (valueAt r key w.data (w.now 0))
  · rw [exec_strSetWith_wrong b hWrong] at h
    cases h
  by_cases hSkip : opts.Skips (valueAt r key w.data (w.now 0))
  · rw [exec_strSetWith_skip b hWrong hSkip] at h
    cases h
    cases hWrote
  obtain ⟨w₁, -, -, hExec⟩ := exec_strSetWith_write b hWrong hSkip
  rw [hKeep] at hExec
  obtain ⟨_, w₂, hWritten, hEnd⟩ := exec_bind_ok (hExec.symm.trans h)
  cases hEnd
  exact ownExpiry_writeString hWritten

/-- `setETime` rewrites the metadata of a key that it finds. -/
lemma exec_setETime_found (hProbe : probeAt r key w.data (w.now 0) = some k) (etimeMS : Int64) :
    ∃ m mtime, metaAt w.data r key = some (m, mtime) ∧ exec (setETime r key etimeMS) w =
      (.ok (), (w.probed r key).putSlot r.self (metaBase r.num key) tagPresent
        (encodeMeta { m with etimeMS := etimeMS })) := by
  obtain ⟨m, mtime, hMeta, -⟩ := (probeAt_eq_some_iff r key).mp hProbe
  have hFound := exec_probe r key w
  have hRead := exec_readMeta r key (w.probed r key)
  rw [hProbe] at hFound
  rw [World.data_probed, hMeta] at hRead
  refine ⟨m, mtime, hMeta, ?_⟩
  rw [setETime, exec_withLock, exec_read hFound]
  exact (exec_read hRead _).trans rfl

lemma exec_setETime_missing (hProbe : probeAt r key w.data (w.now 0) = none) (etimeMS : Int64) :
    exec (setETime r key etimeMS) w = (.error .notFound, w.probed r key) := by
  have hFound := exec_probe r key w
  rw [hProbe] at hFound
  rw [setETime, exec_withLock, exec_read hFound]
  rfl

lemma ownExpiry_setETime (h : exec (setETime r key etimeMS) w = (.ok (), w')) :
    ownExpiry r key w'.data = some etimeMS := by
  cases hProbe : probeAt r key w.data (w.now 0) with
  | none =>
    rw [exec_setETime_missing hProbe] at h
    cases h
  | some k =>
    obtain ⟨m, mtime, -, hExec⟩ := exec_setETime_found hProbe etimeMS
    cases hExec.symm.trans h
    exact ownExpiry_of_slot r key ((World.lookup_putSlot ..).trans (if_pos rfl))

end

/-- The expiry that `SET` passes on, by the clock. -/
def SetCmd.due (cmd : SetCmd) (now : Int64) : Int64 :=
  if cmd.IsSimple then if 0 < cmd.ttl then now + cmd.ttl.milliseconds else 0 else cmd.opts.due now

/-- The clock reading by which it does. -/
def SetCmd.reading (r : Db) (cmd : SetCmd) (w : World) : Int64 :=
  if cmd.IsSimple then w.now 0 else (w.probed r cmd.key).now 0

lemma ownExpiry_write {r : Db} {cmd : SetCmd} {w w' : World} {out : Option SetOut} (hKeep : cmd.keepTTL = false)
    (h : exec (cmd.write r) w = (.ok out, w'))
    (hWrote : (out.elim true fun out => out.created || out.updated) = true) :
    ownExpiry r cmd.key w'.data = some (cmd.due (cmd.reading r w)) := by
  rw [SetCmd.write] at h
  rw [SetCmd.due, SetCmd.reading]
  by_cases hSimple : cmd.IsSimple
  · rw [if_pos hSimple] at h
    rw [if_pos hSimple, if_pos hSimple]
    obtain ⟨_, w₁, hSet, hEnd⟩ := exec_bind_ok h
    cases hEnd
    exact ownExpiry_setExpire hSet
  · rw [if_neg hSimple] at h
    rw [if_neg hSimple, if_neg hSimple]
    obtain ⟨res, w₁, hSet, hEnd⟩ := exec_bind_ok h
    cases hEnd
    exact ownExpiry_setWith (cmd.opts_keepTTL.trans hKeep) hSet hWrote

namespace Expiring

/-- The clock reading by which a command runs. -/
def reading (r : Db) (key value : Bytes) (n : Int64) (w : World) (c : Expiring) : Int64 :=
  match c with
  | setTTL .. | setAt .. =>
    match parseSet (c.setArgs key value n) with
    | .error _ => w.now 0
    | .ok cmd => cmd.reading r w
  | _ => w.now 0

/-- The expiry that a command stores. -/
def etime (key value : Bytes) (n now : Int64) (c : Expiring) : Int64 :=
  match c with
  | setTTL .. | setAt .. =>
    match parseSet (c.setArgs key value n) with
    | .error _ => 0
    | .ok cmd => cmd.due now
  | setex unit => if 0 < unit.ttl n then now + (unit.ttl n).milliseconds else 0
  | expire unit => now + (unit.ttl n).milliseconds
  | expireAt unit => (Time.ofUnixMilli (unit.multi * n)).unixMilli

/-- What the parser leaves as it is. -/
lemma parseSet_ok (h : parseSet args = .ok cmd) : cmd.key = args.key ∧ cmd.keepTTL = args.keepTTL := by
  simp only [parseSet] at h
  split_ifs at h
  all_goals
    cases h
    exact ⟨rfl, rfl⟩

lemma ownExpiry_set (hKeep : args.keepTTL = false)
    (h : exec (match parseSet args with
      | .error e => .fail e
      | .ok cmd => do
        let out ← cmd.write r
        pure (out.elim true fun out => out.created || out.updated) : StoreM Bool) w = (.ok true, w')) :
    ∃ cmd, parseSet args = .ok cmd ∧ ownExpiry r args.key w'.data = some (cmd.due (cmd.reading r w)) := by
  cases hParse : parseSet args with
  | error e =>
    rw [hParse] at h
    cases h
  | ok cmd =>
    rw [hParse] at h
    obtain ⟨out, w₁, hWrite, hEnd⟩ := exec_bind_ok h
    obtain ⟨hKey, hCmd⟩ := parseSet_ok hParse
    obtain ⟨hWrote, rfl⟩ := Prod.mk.inj hEnd
    refine ⟨cmd, rfl, ?_⟩
    rw [← hKey]
    exact ownExpiry_write (hCmd.trans hKeep) hWrite (Except.ok.inj hWrote)

/-- **What is stored** when a command writes. -/
theorem ownExpiry_run (c : Expiring) (h : exec (c.run r key value n) w = (.ok true, w')) :
    ownExpiry r key w'.data = some (c.etime key value n (c.reading r key value n w)) := by
  cases c with
  | setTTL ifNX ifXX get unit =>
    obtain ⟨cmd, hParse, hEnd⟩ := ownExpiry_set (by cases unit <;> rfl) h
    unfold etime reading
    simp only [hParse]
    cases unit <;> exact hEnd
  | setAt ifNX ifXX get unit =>
    obtain ⟨cmd, hParse, hEnd⟩ := ownExpiry_set (by cases unit <;> rfl) h
    unfold etime reading
    simp only [hParse]
    cases unit <;> exact hEnd
  | setex unit =>
    obtain ⟨_, w₁, hSet, hEnd⟩ := exec_bind_ok h
    cases hEnd
    exact ownExpiry_setExpire hSet
  | expire unit =>
    obtain ⟨_, w₁, hSet, hEnd⟩ := exec_bind_ok h
    cases hEnd
    have hNow : nowMS.exec w = (.ok (w.now 0), w.later) := rfl
    have hAt := (exec_read hNow _).symm.trans hSet
    exact ownExpiry_setETime hAt
  | expireAt unit =>
    obtain ⟨_, w₁, hSet, hEnd⟩ := exec_bind_ok h
    cases hEnd
    exact ownExpiry_setETime hSet

end Expiring

/-! ## What was asked for -/

/-- An expiry is as asked: the instant itself, if it can be represented and is positive, and
otherwise one that has passed. -/
def Meets (asked : Int) (now e : Int64) : Prop :=
  if 0 < asked ∧ asked < 2 ^ 63 then e.toInt = asked else Passed e now

lemma not_meets_zero (asked : Int) (now : Int64) : ¬ Meets asked now 0 := by
  rw [Meets]
  split
  · next h => exact fun hEq => h.1.ne hEq
  · exact fun h => absurd h.1 (by decide)

lemma passed_iff : Passed e now ↔ 0 < e.toInt ∧ e.toInt ≤ now.toInt := by
  rw [Passed, lt_iff_toInt_lt, le_iff_toInt_le]
  rfl

namespace Unit64

variable (unit : Unit64) (n : Int64)

/-- The exact number of milliseconds. -/
def exact : Int := unit.multi.toInt * n.toInt

lemma toInt_ttl : (unit.ttl n).toInt = (unit.exact n * 1000000).bmod (2 ^ 64) := by
  have hProduct : unit.ttl n = Int64.ofInt (unit.exact n * 1000000) := by
    rw [exact, ofInt_mul, ofInt_mul, ofInt_toInt, ofInt_toInt]
    rfl
  rw [hProduct]
  exact toInt_ofInt

/-- The milliseconds of a duration are few, and exact unless it has wrapped around. -/
lemma toInt_milliseconds_ttl : ((unit.ttl n).milliseconds.toInt = unit.exact n ↔
      -2 ^ 63 ≤ unit.exact n * 1000000 ∧ unit.exact n * 1000000 < 2 ^ 63) ∧
    -2 ^ 44 < (unit.ttl n).milliseconds.toInt ∧ (unit.ttl n).milliseconds.toInt < 2 ^ 44 := by
  have hTtl := unit.toInt_ttl n
  obtain ⟨k, hk, hIn⟩ := exists_wraps (unit.exact n * 1000000)
  obtain ⟨rem, hRem, hLow, hHigh, -, -⟩ := exists_remainder (unit.ttl n).toInt (c := 1000000) (by decide)
  have hLe := le_toInt (unit.ttl n)
  have hLt := toInt_lt (unit.ttl n)
  have hMilli : (unit.ttl n).milliseconds.toInt = (unit.ttl n).toInt.tdiv 1000000 :=
    toInt_div_of_pos _ (by decide)
  omega

end Unit64

lemma meets_relative (hNow : 0 < now) (hLow : -2 ^ 44 < d.toInt)
    (hHigh : d.toInt < 2 ^ 44) : Meets (now.toInt + ms) now (now + d) ↔ if 0 < now.toInt + ms ∧
    now.toInt + ms < 2 ^ 63 then d.toInt = ms else -now.toInt < d.toInt ∧ d.toInt ≤ 0 := by
  have hPos : 0 < now.toInt := lt_iff_toInt_lt.mp hNow
  have hLt := toInt_lt now
  obtain ⟨k, hk, hIn⟩ := exists_wraps (now.toInt + d.toInt)
  have hSum : (now + d).toInt = (now.toInt + d.toInt).bmod (2 ^ 64) := toInt_add now d
  have hLe := le_toInt (now + d)
  have hLt' := toInt_lt (now + d)
  rw [Meets]
  split
  · omega
  · rw [passed_iff]
    omega

namespace Expiring

/-- The instant that a command denotes. -/
def denoted (n now : Int64) : Expiring → Int
  | setTTL _ _ _ unit | setex unit | expire unit => now.toInt + unit.exact n
  | setAt _ _ _ unit | expireAt unit => unit.exact n

/-- The argument of a relative expiry is such that nothing wraps around; or else the instant
cannot be represented, and what the duration wraps around to has passed. -/
def RelativeFits (n now : Int64) (unit : Unit64) : Prop :=
  if 0 < now.toInt + unit.exact n ∧ now.toInt + unit.exact n < 2 ^ 63 then
    -2 ^ 63 ≤ unit.exact n * 1000000 ∧ unit.exact n * 1000000 < 2 ^ 63
  else -now.toInt < (unit.ttl n).milliseconds.toInt ∧ (unit.ttl n).milliseconds.toInt ≤ 0

/-- The arguments for which the expiry is as asked. -/
def Fits (n now : Int64) : Expiring → Prop
  | setTTL ifNX ifXX get unit => 0 < n ∧ 0 < unit.ttl n ∧
      ((ifNX || ifXX || get) = true → 0 < (unit.ttl n).milliseconds) ∧ RelativeFits n now unit
  | setex unit => 0 < unit.ttl n ∧ RelativeFits n now unit
  | expire unit => RelativeFits n now unit
  | setAt _ _ _ .sec => 0 < n ∧ (n.toInt * 1000 < 2 ^ 63 ∨ Passed (n * 1000) now)
  | setAt _ _ _ .ms => 0 < n ∧ n.toInt * 1000000 < 2 ^ 63
  | expireAt unit => 0 < unit.exact n ∧ unit.exact n < 2 ^ 63 ∨ Passed (unit.multi * n) now

variable {key value : Bytes} {n now : Int64} (ifNX ifXX get : Bool) (unit : Unit64)

lemma meets_ttl_iff (hNow : 0 < now) (unit : Unit64) :
    Meets (now.toInt + unit.exact n) now (now + (unit.ttl n).milliseconds) ↔ RelativeFits n now unit := by
  obtain ⟨hExact, hLow, hHigh⟩ := unit.toInt_milliseconds_ttl n
  rw [meets_relative hNow hLow hHigh, RelativeFits, hExact]

lemma parseSet_ttl : parseSet ((setTTL ifNX ifXX get unit).setArgs key value n) = if 0 < n then
        if unit.ttl n < 0 then .error errInvalidExpireTime
        else .ok { key, value, ifNX, ifXX, get, ttl := unit.ttl n }
      else .ok { key, value, ifNX, ifXX, get } := by
  by_cases hn : 0 < n
  · cases unit with
    | sec =>
      have hTtl : n * second = Unit64.sec.ttl n := by
        show n * 1000000000 = 1000 * n * 1000000
        rw [Int64.mul_comm 1000 n, Int64.mul_assoc]
        rfl
      simp [setArgs, parseSet, hn, hTtl]
    | ms =>
      have hTtl : n * millisecond = Unit64.ms.ttl n :=
        congrArg (· * millisecond) (one_mul n).symm
      simp [setArgs, parseSet, hn, hTtl]
  · cases unit <;> simp [setArgs, parseSet, hn]

lemma etime_setTTL : (setTTL ifNX ifXX get unit).etime key value n now =
      if 0 < n ∧ 0 < unit.ttl n ∧ ((ifNX || ifXX || get) = true → 0 < (unit.ttl n).milliseconds) then
        now + (unit.ttl n).milliseconds else 0 := by
  rw [etime, parseSet_ttl]
  by_cases hn : 0 < n
  · rw [if_pos hn]
    by_cases hNeg : unit.ttl n < 0
    · rw [if_pos hNeg, if_neg fun h => absurd hNeg (Int64.not_lt.mpr (Int64.le_of_lt h.2.1))]
    · rw [if_neg hNeg]
      simp only [SetCmd.due, SetCmd.IsSimple, SetCmd.opts, SetOpts.due]
      cases ifNX <;> cases ifXX <;> cases get <;> by_cases hTtl : 0 < unit.ttl n <;> simp [hn, hTtl]
  · rw [if_neg hn, if_neg fun h => hn h.1]
    cases ifNX <;> cases ifXX <;> cases get <;> rfl

/-- The command that is parsed from an instant. -/
lemma etime_setAt (t : Time) (hParse : parseSet ((setAt ifNX ifXX get unit).setArgs key value n) =
      .ok (if 0 < n then { key, value, ifNX, ifXX, get, instant := t } else { key, value, ifNX, ifXX, get }))
    (ht : t ≠ .zero) : (setAt ifNX ifXX get unit).etime key value n now =
      if 0 < n ∧ 0 < t.unixMilli then t.unixMilli else 0 := by
  rw [etime, hParse]
  by_cases hn : 0 < n
  · simp [SetCmd.due, SetCmd.IsSimple, SetCmd.opts, SetOpts.due, hn, ht]
  · rw [if_neg hn, if_neg fun h => hn h.1]
    cases ifNX <;> cases ifXX <;> cases get <;> rfl

lemma etime_setAt_sec :
    (setAt ifNX ifXX get .sec).etime key value n now = if 0 < n ∧ 0 < n * 1000 then n * 1000 else 0 := by
  have hMilli : (Time.unix n 0).unixMilli = n * 1000 := (Time.unixMilli_unix n 0).trans (Int64.add_zero _)
  by_cases hn : 0 < n
  · have hZero : Time.unix n 0 ≠ .zero := by
      intro hEq
      have hSec : n = -62135596800 := congrArg Time.sec hEq
      rw [hSec] at hn
      exact absurd hn (by decide)
    rw [etime_setAt ifNX ifXX get .sec _ (by simp [setArgs, parseSet, hn]) hZero, hMilli]
  · rw [etime_setAt ifNX ifXX get .sec (Time.unix 1 0) (by simp [setArgs, parseSet, hn]) (by decide),
      if_neg fun h => hn h.1, if_neg fun h => hn h.1]

lemma toInt_div (x : Int64) : (Int64.ofInt (x.toInt / 1000000)).toInt = x.toInt / 1000000 := by
  have hLe := le_toInt x
  have hLt := toInt_lt x
  exact toInt_ofInt_of_le (by omega) (by omega)

lemma etime_setAt_ms : (setAt ifNX ifXX get .ms).etime key value n now = if 0 < n ∧ 0 <
    (n * millisecond).toInt / 1000000 then Int64.ofInt ((n * millisecond).toInt / 1000000) else 0 := by
  have hLe := le_toInt (n * millisecond)
  have hLt := toInt_lt (n * millisecond)
  have hMilli : (Time.unix 0 (n * millisecond)).unixMilli = Int64.ofInt ((n * millisecond).toInt / 1000000) :=
    (Time.unixMilli_unix 0 _).trans (Int64.zero_add _)
  have hInt := toInt_div (n * millisecond)
  have hZero : Time.unix 0 (n * millisecond) ≠ .zero := by
    -- the nanoseconds do not reach back to the year 1
    intro hEq
    rw [hEq] at hMilli
    rw [← hMilli] at hInt
    have hYear : Time.zero.unixMilli.toInt = -62135596800000 := by decide
    omega
  have hPos : 0 < Int64.ofInt ((n * millisecond).toInt / 1000000) ↔
      0 < (n * millisecond).toInt / 1000000 := by
    rw [lt_iff_toInt_lt, hInt]
    rfl
  have hParse : parseSet ((setAt ifNX ifXX get .ms).setArgs key value n) =
      .ok (if 0 < n then { key, value, ifNX, ifXX, get, instant := Time.unix 0 (n * millisecond) }
        else { key, value, ifNX, ifXX, get }) := by
    by_cases hn : 0 < n <;> simp [setArgs, parseSet, hn]
  rw [etime_setAt ifNX ifXX get .ms _ hParse hZero, hMilli]
  simp only [hPos]

/-- The expiry that is stored, against the one that was asked for. -/
lemma meets_etime_iff (key value : Bytes) (c : Expiring) (hNow : 0 < now) :
    Meets (c.denoted n now) now (c.etime key value n now) ↔ c.Fits n now := by
  cases c with
  | setTTL ifNX ifXX get unit =>
    rw [etime_setTTL, Fits, denoted]
    by_cases h : 0 < n ∧ 0 < unit.ttl n ∧ ((ifNX || ifXX || get) = true → 0 < (unit.ttl n).milliseconds)
    · rw [if_pos h, meets_ttl_iff hNow]
      exact ⟨fun hFits => ⟨h.1, h.2.1, h.2.2, hFits⟩, fun hFits => hFits.2.2.2⟩
    · rw [if_neg h]
      exact iff_of_false (not_meets_zero _ _) fun hFits => h ⟨hFits.1, hFits.2.1, hFits.2.2.1⟩
  | setex unit =>
    rw [etime, Fits, denoted]
    by_cases h : 0 < unit.ttl n
    · rw [if_pos h, meets_ttl_iff hNow]
      exact (and_iff_right h).symm
    · rw [if_neg h]
      exact iff_of_false (not_meets_zero _ _) fun hFits => h hFits.1
  | expire unit => exact meets_ttl_iff hNow unit
  | expireAt unit =>
    have hMulti : (unit.multi * n).toInt = (unit.exact n).bmod (2 ^ 64) := toInt_mul unit.multi n
    obtain ⟨k, hk, hIn⟩ := exists_wraps (unit.exact n)
    have hLe := le_toInt (unit.multi * n)
    have hLt := toInt_lt (unit.multi * n)
    rw [etime, Time.unixMilli_ofUnixMilli, denoted, Fits, Meets, passed_iff]
    split <;> omega
  | setAt ifNX ifXX get unit =>
    have hPos : 0 < n ↔ 0 < n.toInt := lt_iff_toInt_lt
    cases unit with
    | sec =>
      have hExact : Unit64.sec.exact n = n.toInt * 1000 := mul_comm _ _
      have hMulti : (n * 1000).toInt = (n.toInt * 1000).bmod (2 ^ 64) := toInt_mul n 1000
      obtain ⟨k, hk, hIn⟩ := exists_wraps (n.toInt * 1000)
      have hLe := le_toInt (n * 1000)
      have hLt := toInt_lt (n * 1000)
      have hProduct : 0 < n * 1000 ↔ 0 < (n * 1000).toInt := lt_iff_toInt_lt
      rw [etime_setAt_sec, denoted, Fits, hExact, passed_iff]
      simp only [hPos, hProduct]
      by_cases h : 0 < n.toInt ∧ 0 < (n * 1000).toInt
      · rw [if_pos h, Meets, passed_iff]
        split <;> omega
      · rw [if_neg h]
        exact iff_of_false (not_meets_zero _ _) (by omega)
    | ms =>
      have hExact : Unit64.ms.exact n = n.toInt := one_mul _
      have hMulti : (n * millisecond).toInt = (n.toInt * 1000000).bmod (2 ^ 64) :=
        toInt_mul n millisecond
      obtain ⟨k, hk, hIn⟩ := exists_wraps (n.toInt * 1000000)
      have hLe := le_toInt (n * millisecond)
      have hLt := toInt_lt (n * millisecond)
      have hLt' := toInt_lt n
      rw [etime_setAt_ms, denoted, Fits, hExact]
      simp only [hPos]
      by_cases h : 0 < n.toInt ∧ 0 < (n * millisecond).toInt / 1000000
      · rw [if_pos h, Meets, if_pos ⟨h.1, hLt'⟩, toInt_div]
        omega
      · rw [if_neg h]
        exact iff_of_false (not_meets_zero _ _) (by omega)

/-- **The expiry of a key**, when one of the commands has written it, is as asked just for the
arguments that fit. -/
theorem expiry_exact_iff {r : Db} {w : World} (c : Expiring) (hNow : 0 < c.reading r key value n w)
    (hDone : (exec (c.run r key value n) w).1 = .ok true) :
    (∃ e, ownExpiry r key (exec (c.run r key value n) w).2.data = some e ∧
      Meets (c.denoted n (c.reading r key value n w)) (c.reading r key value n w) e) ↔
      c.Fits n (c.reading r key value n w) := by
  rcases hExec : exec (c.run r key value n) w with ⟨out, w'⟩
  rw [hExec] at hDone
  cases hDone
  rw [ownExpiry_run c hExec, ← meets_etime_iff key value c hNow]
  constructor
  · rintro ⟨e, hEq, hMeets⟩
    cases hEq
    exact hMeets
  · exact fun hMeets => ⟨_, rfl, hMeets⟩

private def timer : Db := ⟨.named 101, 0⟩

private def firstMs : World := .fresh

/-- `PSETEX k 5 x` in the first millisecond. -/
theorem expiry_exact_psetex : Fits 5 1 (.setex .ms) ∧
    ∃ e, ownExpiry timer [107] (exec ((setex .ms).run timer [107] [120] 5) firstMs).2.data = some e ∧ Meets 6 1 e := by
  have hFits : Fits 5 1 (.setex .ms) := by
    refine ⟨by decide, ?_⟩
    rw [RelativeFits, if_pos (by decide)]
    decide
  exact ⟨hFits, (expiry_exact_iff (.setex .ms) (by decide) (by decide +kernel)).mpr hFits⟩

/-- `SET k x EX 0` is accepted and leaves a key without expiry. -/
theorem set_ex_zero_persists :
    (exec ((setTTL false false false .sec).run timer [107] [120] 0) firstMs).1 = .ok true ∧
    ownExpiry timer [107] (exec ((setTTL false false false .sec).run timer [107] [120] 0) firstMs).2.data =
    some 0 ∧ ¬ Meets ((setTTL false false false .sec).denoted 0 1) 1 0 :=
  ⟨by decide +kernel, by decide +kernel, not_meets_zero _ _⟩

end Expiring

end RedGeo.Repo
