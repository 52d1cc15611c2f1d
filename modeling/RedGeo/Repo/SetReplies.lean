import RedGeo.Repo.Overwrites

/-!
# RedGeo — the reply of `SET`

`command/string/set.go`. With `GET`, the reply is made from what the store returns: the
value of before, and whether a key was created. A `SET` that is skipped for the lack of
the key has neither, and is answered with an empty string.

* `set_get_iff` — when `GET` is answered with the value of before.
-/

namespace RedGeo.Repo

open Lib Store

/-! ## The command -/

/-- What is read from the arguments of `SET`; at most one of the last five is given. -/
structure SetArgs where
  key : Bytes
  value : Bytes
  ifNX : Bool := false
  ifXX : Bool := false
  get : Bool := false
  ttlSec : Int64 := 0
  ttlMs : Int64 := 0
  atSec : Int64 := 0
  atMs : Int64 := 0
  keepTTL : Bool := false
  deriving DecidableEq, Repr

/-- `Set`. -/
structure SetCmd where
  key : Bytes
  value : Bytes
  ifNX : Bool := false
  ifXX : Bool := false
  get : Bool := false
  ttl : Duration := 0
  /-- `at` in the source. -/
  instant : Time := .zero
  keepTTL : Bool := false
  deriving DecidableEq, Repr

def errInvalidExpireTime : Err := .text "ERR invalid expire time"

/-- `ParseSet`, when the arguments have been read. -/
def parseSet (args : SetArgs) : Except Err SetCmd :=
  let cmd : SetCmd := { args with }
  let cmd : SetCmd :=
    if 0 < args.ttlSec then { cmd with ttl := args.ttlSec * Duration.second }
    else if 0 < args.ttlMs then { cmd with ttl := args.ttlMs * Duration.millisecond }
    else if 0 < args.atSec then { cmd with instant := Time.unix args.atSec 0 }
    else if 0 < args.atMs then { cmd with instant := Time.unix 0 (args.atMs * Duration.millisecond) }
    else cmd
  if cmd.ttl < 0 then .error errInvalidExpireTime else .ok cmd

/-- What `SET` writes, errors apart. -/
inductive SetReply
  | ok
  | null
  | bulk (b : Bytes)
  deriving DecidableEq, Repr

namespace SetCmd

/-- The options that `Run` passes on. -/
def opts (cmd : SetCmd) : SetOpts :=
  let opts : SetOpts :=
    { ifNotExists := cmd.ifNX, ifExists := cmd.ifXX, get := cmd.get, keepTTL := cmd.keepTTL }
  if 0 < cmd.ttl then { opts with ttlMS := cmd.ttl.milliseconds }
  else if cmd.instant ≠ .zero then { opts with atMS := cmd.instant.unixMilli }
  else opts

variable (cmd : SetCmd)

/-- A plain `SET`, with a relative expiry at most. -/
def IsSimple : Prop :=
  cmd.ifNX = false ∧ cmd.ifXX = false ∧ cmd.get = false ∧ cmd.keepTTL = false ∧ cmd.instant = .zero

instance (cmd : SetCmd) : Decidable cmd.IsSimple := inferInstanceAs (Decidable (_ ∧ _))

/-- The reply, for what the store has returned. -/
def reply (out : SetOut) : SetReply :=
  let ok := if cmd.ifXX then out.updated else if cmd.ifNX then out.created else true
  if cmd.get then
    -- a value that is missing is written as an empty one
    if out.created then .null else .bulk (out.prev.getD [])
  else if ok then .ok
  else .null

/-- What `Run` asks of the store; a simple `SET` has nothing to return. -/
def write (r : Db) (cmd : SetCmd) : StoreM (Option SetOut) :=
  if cmd.IsSimple then do
    strSetExpire r cmd.key cmd.value cmd.ttl
    pure none
  else do
    let out ← strSetWith r cmd.key cmd.value cmd.opts
    pure (some out)

def run (r : Db) (cmd : SetCmd) : StoreM SetReply := do
  let out ← cmd.write r
  pure (out.elim .ok cmd.reply)

@[simp] lemma opts_ifNotExists : cmd.opts.ifNotExists = cmd.ifNX := by
  rw [opts]
  split_ifs <;> rfl

@[simp] lemma opts_ifExists : cmd.opts.ifExists = cmd.ifXX := by
  rw [opts]
  split_ifs <;> rfl

@[simp] lemma opts_get : cmd.opts.get = cmd.get := by
  rw [opts]
  split_ifs <;> rfl

@[simp] lemma opts_keepTTL : cmd.opts.keepTTL = cmd.keepTTL := by
  rw [opts]
  split_ifs <;> rfl

end SetCmd

/-! ## `GET` -/

section

variable (r : Db) (cmd : SetCmd) (w : World)

/-- **What `GET` asks for**: the value that the command `GET` would have shown, and null for
a key that does not exist. -/
def RepliesOld : Prop :=
  ∀ reply, (exec (cmd.run r) w).1 = .ok reply →
    (∀ v, reply = .bulk v ↔ ((strGet r cmd.key).exec w).1 = .ok v) ∧
      (reply = .null ↔ probeAt r cmd.key w.data (w.now 0) = none)

variable {r cmd w}

/-- The replies of a command that reaches the store. -/
lemma exec_run_of_get (hGet : cmd.get = true) {res : Except Err SetOut}
    (h : (exec (strSetWith r cmd.key cmd.value cmd.opts) w).1 = res) : (exec (cmd.run r) w).1 = res.map cmd.reply := by
  have hOther : ¬ cmd.IsSimple := by
    rintro ⟨-, -, hNot, -⟩
    rw [hGet] at hNot
    cases hNot
  rw [SetCmd.run, SetCmd.write, if_neg hOther]
  rcases hExec : exec (strSetWith r cmd.key cmd.value cmd.opts) w with ⟨res', w'⟩
  rw [hExec] at h
  subst h
  cases res' with
  | error e =>
    rw [exec_bind_error (exec_bind_error hExec _)]
    rfl
  | ok out =>
    rw [exec_bind ((exec_bind hExec _).trans rfl)]
    rfl

/-- The only reply decides. -/
lemma repliesOld_iff {reply : SetReply} (hRun : (exec (cmd.run r) w).1 = .ok reply) :
    RepliesOld r cmd w ↔ (∀ v, reply = .bulk v ↔ valueAt r cmd.key w.data (w.now 0) = .ok v) ∧
    (reply = .null ↔ probeAt r cmd.key w.data (w.now 0) = none) := by
  have hGet : ((strGet r cmd.key).exec w).1 = valueAt r cmd.key w.data (w.now 0) :=
    congrArg Prod.fst (exec_readValue r cmd.key w)
  rw [RepliesOld, hGet]
  constructor
  · exact fun h => h reply hRun
  · intro h reply' hRun'
    obtain rfl : reply = reply' := Except.ok.inj (hRun.symm.trans hRun')
    exact h

lemma repliesOld_of_error {e : Err} (hRun : (exec (cmd.run r) w).1 = .error e) : RepliesOld r cmd w := by
  intro reply hReply
  cases hRun.symm.trans hReply

/-- **`SET` with `GET`** is answered with the value of before, unless `XX` has made it skip a
key that does not exist. -/
theorem set_get_iff (hGet : cmd.get = true) :
    RepliesOld r cmd w ↔ (cmd.ifXX = true → (probeAt r cmd.key w.data (w.now 0)).isSome = true) := by
  have hOpts : cmd.opts.get = true := by rw [SetCmd.opts_get, hGet]
  rcases valueAt_cases r cmd.key w.data (w.now 0) with
    ⟨hProbe, hValue⟩ | ⟨k, v, hProbe, -, hValue⟩ | ⟨k, hProbe, -, hValue⟩
  · -- no key: it is skipped with XX, and created otherwise unless the rest of a counter is in the way
    have hRight : ¬ cmd.opts.Refuses (valueAt r cmd.key w.data (w.now 0)) := by simp [SetOpts.Refuses, hValue]
    have hSkip : cmd.opts.Skips (valueAt r cmd.key w.data (w.now 0)) ↔ cmd.ifXX = true := by
      simp [SetOpts.Skips, hValue, Except.toOption]
    by_cases hXX : cmd.ifXX = true
    · rw [repliesOld_iff (exec_run_of_get hGet (congrArg Prod.fst
        (exec_strSetWith_skip cmd.value hRight (hSkip.mpr hXX))))]
      simp [SetCmd.reply, hGet, hProbe, hXX]
    · refine iff_of_true ?_ fun h => absurd h hXX
      rcases exec_strSetWith_cases cmd.value hRight (mt hSkip.mp hXX) with ⟨-, hError, -⟩ | ⟨-, hOk, -⟩
      · exact repliesOld_of_error (exec_run_of_get hGet hError)
      · rw [repliesOld_iff (exec_run_of_get hGet hOk)]
        simp [SetCmd.reply, SetOpts.written, hGet, hProbe, hValue, Except.toOption]
  · -- a string: it is shown whether it is overwritten or not
    have hRight : ¬ cmd.opts.Refuses (valueAt r cmd.key w.data (w.now 0)) := by simp [SetOpts.Refuses, hValue]
    refine iff_of_true ?_ fun _ => by rw [hProbe]; rfl
    by_cases hSkip : cmd.opts.Skips (valueAt r cmd.key w.data (w.now 0))
    · rw [repliesOld_iff (exec_run_of_get hGet (congrArg Prod.fst (exec_strSetWith_skip cmd.value hRight hSkip)))]
      simp [SetCmd.reply, priorOf, hGet, hProbe, hValue, Except.toOption]
    · rcases exec_strSetWith_cases cmd.value hRight hSkip with ⟨-, hError, -⟩ | ⟨-, hOk, -⟩
      · exact repliesOld_of_error (exec_run_of_get hGet hError)
      · rw [repliesOld_iff (exec_run_of_get hGet hOk)]
        simp [SetCmd.reply, SetOpts.written, priorOf, hGet, hProbe, hValue, Except.toOption]
  · rw [hProbe]
    exact iff_of_true (repliesOld_of_error (exec_run_of_get hGet (congrArg Prod.fst
      (exec_strSetWith_wrong cmd.value ⟨hOpts, hValue⟩)))) fun _ => rfl

end

private def replier : Db := ⟨.named 101, 0⟩

private def vacant : World := .fresh

/-- `SET k x GET` on a node that has nothing. -/
theorem set_get_fresh : RepliesOld replier { key := [107], value := [120], get := true } vacant :=
  (set_get_iff rfl).mpr fun hXX => nomatch hXX

/-- `SET k x XX GET` there is answered with an empty string. -/
theorem set_xx_get_missing : probeAt replier [107] vacant.data (vacant.now 0) = none ∧
    (exec (SetCmd.run replier { key := [107], value := [120], ifXX := true, get := true }) vacant).1 =
    .ok (.bulk []) ∧
    ¬ RepliesOld replier { key := [107], value := [120], ifXX := true, get := true } vacant := by
  have hProbe : probeAt replier [107] vacant.data (vacant.now 0) = none := by decide +kernel
  have hRun : (exec (SetCmd.run replier { key := [107], value := [120], ifXX := true, get := true }) vacant).1 =
      .ok (.bulk []) := by decide +kernel
  exact ⟨hProbe, hRun, fun h => nomatch (h _ hRun).2.mpr hProbe⟩

end RedGeo.Repo
