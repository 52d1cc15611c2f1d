import RedGeo.Repo.Net

/-!
# RedGeo — what commands that keep to rules can do

A net whose commands keep to rules, seen from further away: what has been put under each
path, which command runs at each replica, and what it has noted. Most steps change nothing
of this.

* `Traced` — a net, and what is remembered of its past.
* `Net.move_of_step` — every step of the net is one of a few moves.
* `Rules.sound_of_reach` — the invariant rule: what moves keep holds in every run.
-/

namespace RedGeo.Repo

open Lib Store Function List Option Sigma

variable {n : Replica} {k : Path} {base : List Seg}

/-! ## Runs of a net -/

/-- All puts have arrived at a replica. -/
def Net.Delivered {S : Service} (db : Int64) (key : Bytes) (s : Net S) (n : Replica) : Prop :=
  ∀ k, OfKey db key k → s.copies.got n k = Finset.range (s.copies.log k).length

/-- No command runs. -/
def Net.Idle {S : Service} (s : Net S) : Prop := ∀ n, s.job n = none

/-- Commands are issued at the replicas in `R`. -/
def IssuedAt {σ : Type} {S : Service} (R : Finset Replica) (_ : σ) : Net.Event S → Prop
  | .start n _ => n ∈ R
  | _ => True

instance {σ : Type} {S : Service} (R : Finset Replica) (s : σ) (a : Net.Event S) : Decidable (IssuedAt R s a) :=
  match a with
  | .start n _ => inferInstanceAs (Decidable (n ∈ R))
  | .call _ | .finish _ | .receive _ _ _ | .forget _ _ _ | .other _ _ _ => isTrue trivial

/-- A net, and what is remembered of its past. -/
structure Traced (S : Service) (H : Type) where
  net : Net S
  past : H

/-- A step, and what `watch` remembers of it. -/
def Traced.step {S : Service} {H : Type} (db : Int64) (key : Bytes) (watch : H → Net S → Net.Event S → H)
    (s : Traced S H) (a : Net.Event S) : Option (Traced S H) :=
  (s.net.step db key a).map fun net => ⟨net, watch s.past s.net a⟩

/-! ## Views -/

/-- What rules speak of. -/
structure View (S : Service) (δ : Type) where
  log : Path → List Bytes
  cmd : Replica → Option S.Cmd
  notes : Replica → δ

section

variable {S : Service} {δ : Type}

def Net.view (s : Net S) (d : Replica → δ) : View S δ where
  log := s.copies.log
  cmd n := (s.job n).map Sigma.fst
  notes := d

lemma cmd_of_job {s : Net S} (h : s.job n = some ⟨c, p⟩) :
    (s.view d).cmd n = some c := congrArg (Option.map fst) h

/-- The entries of the key that a replica has put. -/
def View.own (db : Int64) (key : Bytes) (v : View S δ) (n : Replica) (k : Path) : Option Bytes :=
  if Mine db key n k then (v.log k).getLast? else none

lemma View.own_of_mine {v : View S δ} (h : Mine db key n k) :
    v.own db key n k = (v.log k).getLast? := if_pos h

section

variable (v : View S δ) (n : Replica)

/-- One replica goes on. -/
def View.put (k : Path) (val : Bytes) (d : δ) : View S δ :=
  { v with
    log := update v.log k (v.log k ++ [val])
    notes := update v.notes n d }

def View.noting (d : δ) : View S δ :=
  { v with notes := update v.notes n d }

def View.starting (c : S.Cmd) (d : δ) : View S δ :=
  { v with
    cmd := update v.cmd n (some c)
    notes := update v.notes n d }

def View.finishing : View S δ :=
  { v with cmd := update v.cmd n none }

end

variable (base : List Seg)

/-- Everything that has been put below a prefix is as `P` says. -/
def View.Logged (P : Path → Bytes → Prop) (v : View S δ) : Prop :=
  ∀ k val, Under base k → val ∈ v.log k → P k val

/-- What has been put below a prefix are slots of a register, with values as `P` says. -/
def View.Slotted (P : Bytes → Prop) (v : View S δ) : Prop :=
  v.Logged base fun k val => ∃ o st value, k = slotKey base o ∧ P value ∧ val = encodeSlot ⟨st, tagPresent, value⟩

/-- Something has been put below a prefix. -/
def View.Has (v : View S δ) : Prop := ∃ k, Under base k ∧ v.log k ≠ []

/-- Commands run at the replicas in `R`. -/
def View.RunningIn (R : Finset Replica) (v : View S δ) : Prop := ∀ n c, v.cmd n = some c → n ∈ R

end

section

variable {S : Service} {δ : Type} (db : Int64) (key : Bytes) (rules : Rules S δ)

/-- What a step can do to the view. -/
inductive Net.Move (s : Net S) (d : Replica → δ) : Net.Event S → View S δ → Prop
  | start {n : Replica} {c : S.Cmd} (hIdle : s.job n = none) :
    Move s d (.start n c) ((s.view d).starting n c (rules.init c))
  | put {n : Replica} {c : S.Cmd} {k : Path} {val : Bytes} {next : Answer (.put k val) → StoreM (S.Out c)}
    (hJob : s.job n = some ⟨c, .call (.put k val) next⟩) (hMine : Mine db key n k)
    (hMay : rules.may n c ((s.view d).own db key n) (d n) k val) :
    Move s d (.call n) ((s.view d).put n k val (rules.note (d n) (.put k val) (.ok ())))
  | query {n : Replica} {c : S.Cmd} {base : List Seg} {keysOnly : Bool}
    {next : Answer (.query base keysOnly) → StoreM (S.Out c)}
    (hJob : s.job n = some ⟨c, .call (.query base keysOnly) next⟩) :
    Move s d (.call n) ((s.view d).noting n (rules.note (d n) (.query base keysOnly)
      (.ok (((s.world n).data.entries base).map (keyEntry keysOnly)))))
  | silent {n : Replica} {c : S.Cmd} {op : Call} {next : Answer op → StoreM (S.Out c)}
    (hJob : s.job n = some ⟨c, .call op next⟩) (hSilent : Silent op) : Move s d (.call n) (s.view d)
  | finish {n : Replica} {c : S.Cmd} {rest : StoreM (S.Out c)} {out : Except Err (S.Out c)} {known : Set Path}
    (hJob : s.job n = some ⟨c, rest⟩) (hEnds : Net.Ends rest out) (hStays : Stays db key known (s.world n).data)
    (hPost : rules.post n c ⟨(s.view d).own db key n, known, d n⟩ out) :
    Move s d (.finish n) ((s.view d).finishing n)
  | receive {n : Replica} {k : Path} {i : Nat} : Move s d (.receive n k i) (s.view d)
  | forget {n : Replica} {k : Path} {i : Nat} : Move s d (.forget n k i) (s.view d)
  | other {n : Replica} {changes : List (Path × Option Bytes)} {w : World} :
    Move s d (.other n changes w) (s.view d)

variable {db : Int64} {key : Bytes} {rules : Rules S δ}

/-- What a replica has of its own entries is what it has put. -/
lemma Net.Kept.own_view {s : Net S} (h : s.Kept db key rules d) (n : Replica) :
    ownOf db key n (s.world n).data = (s.view d).own db key n := by
  funext k
  by_cases hk : Mine db key n k
  · rw [ownOf_of_mine hk, View.own_of_mine hk, h.own hk]
    rfl
  · rw [ownOf, View.own, if_neg hk, if_neg hk]

/-- The commands after a job has changed. -/
lemma Net.cmd_update (s : Net S) (n : Replica) (job : Option ((c : S.Cmd) × StoreM (S.Out c))) :
    (fun n' => (update s.job n job n').map fst) = update (fun n' => (s.job n').map fst) n (job.map fst) :=
  comp_update (Option.map fst) s.job n job

lemma Net.cmd_call {s : Net S} (hJob : s.job n = some ⟨c, rest⟩) (rest' : StoreM (S.Out c)) :
    (fun n' => (update s.job n (some ⟨c, rest'⟩) n').map fst) = fun n' => (s.job n').map fst := by
  rw [cmd_update, update_eq_self_iff, hJob]
  rfl

/-- **Every step is a move.** -/
theorem Net.move_of_step {s s' : Net S} (h : s.Kept db key rules d) (hs : s.step db key a = some s') :
    s.Move db key rules d a (s'.view (s.noted rules d a)) := by
  cases effect_of_step hs with
  | @start n c hIdle =>
    have hMove : s.Move db key rules d (.start n c) ((s.view d).starting n c (rules.init c)) := .start hIdle
    rw [View.starting] at hMove
    rw [view, noted, cmd_update]
    exact hMove
  | @call n c op next hJob =>
    have hNoted : s.noted rules d (.call n) =
        update d n (rules.note (d n) op (World.serve op (s.world n)).1) := by
      rw [noted, hJob]
    rw [view, cmd_call hJob, hNoted]
    have hQuiet : Silent op → s.Move db key rules d (.call n) ⟨s.copies.log, fun n' => (s.job n').map fst,
        update d n (rules.note (d n) op (World.serve op (s.world n)).1)⟩ := by
      intro hSilent
      rw [rules.note_silent _ _ _ hSilent, update_eq_self]
      exact .silent hJob hSilent
    cases op with
    | put k v =>
      obtain ⟨hMine, hMay⟩ := h.may hJob
      rw [h.own_view] at hMay
      exact .put hJob hMine hMay
    | query base keysOnly => exact .query hJob
    | del k =>
      -- no rules allow it
      obtain ⟨known, -, hKeeps⟩ := h.job n c _ hJob
      exact hKeeps.1.elim
    | _ => exact hQuiet trivial
  | @finish n c rest out hJob hEnds =>
    obtain ⟨known, hStays, hPost⟩ := h.post hJob hEnds
    rw [h.own_view] at hPost
    have hMove : s.Move db key rules d (.finish n) ((s.view d).finishing n) := .finish hJob hEnds hStays hPost
    rw [View.finishing] at hMove
    rw [view, cmd_update]
    exact hMove
  | @receive n k i =>
    have hLog : (s.arrive n k (s.copies.receive n k i)).copies.log = s.copies.log := s.copies.log_receive n k i
    rw [view, hLog]
    exact .receive
  | @forget n k i =>
    have hLog : (s.arrive n k (s.copies.forget n k i)).copies.log = s.copies.log := s.copies.log_forget n k i
    rw [view, hLog]
    exact .forget
  | other => exact .other

section

variable {s : Net S} {d : Replica → δ} {a : Net.Event S} {v : View S δ}

lemma View.Logged.move {P : Path → Bytes → Prop} (h : (s.view d).Logged base P)
    (hMove : s.Move db key rules d a v)
    (hPut : ∀ n c k val, (s.view d).cmd n = some c → Mine db key n k →
      rules.may n c ((s.view d).own db key n) (d n) k val → Under base k → P k val) :
    v.Logged base P := by
  cases hMove with
  | @put n c k val next hJob hMine hMay =>
    intro k' val' hUnder hMem
    obtain hOld | ⟨rfl, rfl⟩ := mem_update_append hMem
    · exact h k' val' hUnder hOld
    · exact hPut n c k' val' (cmd_of_job hJob) hMine hMay hUnder
  | _ => exact h

/-- What is so of each command that starts is so of each one that runs. -/
lemma View.running_move {P : Replica → S.Cmd → Prop} (h : ∀ n c, (s.view d).cmd n = some c → P n c)
    (hMove : s.Move db key rules d a v) (hStart : ∀ n c, a = .start n c → P n c) (n : Replica) (c : S.Cmd)
    (hCmd : v.cmd n = some c) : P n c := by
  cases hMove with
  | @start o c' hIdle =>
    obtain ⟨rfl, hNew⟩ | ⟨-, hOld⟩ := update_cases hCmd
    · exact some.inj hNew ▸ hStart n c' rfl
    · exact h n c hOld
  | @finish o c' rest out known hJob hEnds hStays hPost =>
    obtain ⟨-, hNone⟩ | ⟨-, hOld⟩ := update_cases hCmd
    · cases hNone
    · exact h n c hOld
  | _ => exact h n c hCmd

lemma View.RunningIn.move {R : Finset Replica} {σ : Type} {t : σ} (h : (s.view d).RunningIn R)
    (hMove : s.Move db key rules d a v) (hK : IssuedAt R t a) : v.RunningIn R := by
  refine View.running_move h hMove ?_
  rintro n c rfl
  exact hK

variable {v : View S δ}

lemma View.Has.put {base : List Seg} (h : v.Has base) (n : Replica) (k : Path) (val : Bytes) (d : δ) :
    (v.put n k val d).Has base := by
  obtain ⟨k', hUnder, hLog⟩ := h
  refine ⟨k', hUnder, ?_⟩
  show update v.log k _ k' ≠ []
  by_cases hk : k' = k
  · subst hk
    rw [update_self]
    exact append_ne_nil_of_right_ne_nil _ (cons_ne_nil _ _)
  · rw [update_of_ne hk]
    exact hLog

lemma View.Has.move (h : (s.view d).Has base) (hMove : s.Move db key rules d a v) : v.Has base := by
  cases hMove with
  | put hJob hMine hMay => exact h.put _ _ _ _
  | _ => exact h

lemma View.own_put_of_ne (hk : k' ≠ k) (val : Bytes) (d : δ) :
    (v.put n k val d).own db key n' k' = v.own db key n' k' := by
  have hLog : (v.put n k val d).log k' = v.log k' := update_of_ne hk _ _
  rw [View.own, View.own, hLog]

lemma View.own_put_self (hMine : Mine db key n k) (val : Bytes) (d : δ) :
    (v.put n k val d).own db key n k = some val := by
  have hLog : (v.put n k val d).log k = v.log k ++ [val] := update_self _ _ _
  rw [View.own_of_mine hMine, hLog, List.getLast?_concat]

variable (h : s.Kept db key rules d)

include h

/-- What a node has of what has been put below a prefix. -/
lemma Net.Kept.of_logged {P : Path → Bytes → Prop} (hLogged : (s.view d).Logged base P)
    (hKey : ∀ k, Under base k → OfKey db key k) (n : Replica) (k : Path) (val : Bytes) (hUnder : Under base k)
    (hVal : (s.world n).data[k]? = some val) : P k val :=
  hLogged k val hUnder (h.mem_log (hKey k hUnder) hVal)

lemma Net.Kept.slotsAre {P : Bytes → Prop} (hSlotted : (s.view d).Slotted base P)
    (hKey : ∀ k, Under base k → OfKey db key k) (n : Replica) : SlotsAre base P (s.world n).data :=
  fun k val hUnder hVal => h.of_logged hSlotted hKey n k val hUnder hVal

/-- What a command has seen below a prefix has been put. -/
lemma Net.Kept.has_of_sighted (hSighted : Sighted base known) (hKey : ∀ k, Under base k → OfKey db key k)
    (hStays : Stays db key known (s.world n).data) : (s.view d).Has base := by
  obtain ⟨k, hk, hUnder⟩ := hSighted
  obtain ⟨val, hVal⟩ := isSome_iff_exists.mp (hStays k hk (hKey k hUnder))
  exact ⟨k, hUnder, ne_nil_of_mem (h.mem_log (hKey k hUnder) hVal)⟩

/-- Where all puts have arrived. -/
lemma Net.Kept.of_delivered (hDelivered : s.Delivered db key n) (hk : OfKey db key k) :
    (s.world n).data[k]? = (s.copies.log k).getLast? := by
  rw [h.synced n k hk, Copies.value_of_received (hDelivered k hk) (h.undeleted k)]

/-- What has been put below a prefix is there, where all puts have arrived. -/
lemma Net.Kept.exists_of_has (hDelivered : s.Delivered db key n) (hHas : (s.view d).Has base)
    (hKey : ∀ k, Under base k → OfKey db key k) : ∃ k, Under base k ∧ ((s.world n).data[k]?).isSome := by
  obtain ⟨k, hUnder, hLog⟩ := hHas
  refine ⟨k, hUnder, ?_⟩
  rw [h.of_delivered hDelivered (hKey k hUnder), List.getLast?_isSome]
  exact hLog

end

/-- **The invariant rule.** Commands keep to the rules as long as they may trust the
datastore; what holds in the beginning and is kept by moves holds in every run. -/
theorem Rules.sound_of_reach {H : Type} {watch : H → Net S → Net.Event S → H}
    {K : Traced S H → Net.Event S → Prop} {I : H → View S δ → Prop}
    (hProgram : ∀ n c own, rules.Keeps db key n c (S.program n c) ⟨own, ∅, rules.init c⟩)
    (hTrust : ∀ {s : Net S} {d : Replica → δ} {past : H}, s.Kept db key rules d → I past (s.view d) →
      ∀ n c, (s.view d).cmd n = some c → rules.trust n c (d n) (s.world n).data)
    (hMove : ∀ {s : Traced S H} {d : Replica → δ} {a : Net.Event S} {v : View S δ}, s.net.Kept db key rules d →
      I s.past (s.net.view d) → K s a → s.net.Move db key rules d a v → I (watch s.past s.net a) v)
    (hLacks : ∀ n, Lacks (world n).data db key) {past : H} (d : Replica → δ)
    (hInit : I past ⟨fun _ => [], fun _ => none, d⟩) {s : Traced S H}
    (h : Reach (Traced.step db key watch) K ⟨{ world }, past⟩ s) :
    ∃ d, s.net.Kept db key rules d ∧ I s.past (s.net.view d) := by
  refine h.induct (I := fun s => ∃ d, s.net.Kept db key rules d ∧ I s.past (s.net.view d)) ?_ ?_
  · exact ⟨d, .init world hLacks, hInit⟩
  · rintro s s' a - ⟨d, hKept, hI⟩ hK hs
    obtain ⟨net, hNet, rfl⟩ := map_eq_some_iff.mp hs
    refine ⟨_, hKept.step hProgram (fun n c rest hJob => ?_) hNet, hMove hKept hI hK (Net.move_of_step hKept hNet)⟩
    refine hTrust hKept hI n c ?_
    show (s.net.job n).map fst = some c
    rw [hJob]
    rfl

end

/-! ## Two replicas to begin with -/

def east : Replica := .named 101

def west : Replica := .named 119

lemma World.lacks_fresh (db : Int64) (key : Bytes) : Lacks fresh.data db key := fun _ _ => rfl

/-- The entry that a step puts. -/
def Net.putting {S : Service} (s : Net S) : Net.Event S → Option Path
  | .call n => match s.job n with
    | some ⟨_, .call (.put k _) _⟩ => some k
    | _ => none
  | _ => none

/-- Puts are to these entries. -/
def PutsIn {S : Service} (entries : List Path) (s : Net S) (a : Net.Event S) : Prop :=
  ∀ k ∈ s.putting a, k ∈ entries

instance {S : Service} (entries : List Path) (s : Net S) (a : Net.Event S) : Decidable (PutsIn entries s a) :=
  inferInstanceAs (Decidable (∀ k ∈ s.putting a, k ∈ entries))

/-- In a run that puts these entries only, everything has arrived once they have. -/
lemma Net.delivered_of_putsIn {S : Service} {H : Type} {db : Int64} {key : Bytes}
    {watch : H → Net S → Net.Event S → H} {K : Traced S H → Net.Event S → Prop}
    {world : Replica → World} {past : H} {s : Traced S H}
    (h : Reach (Traced.step db key watch) (fun s a => K s a ∧ PutsIn entries s.net a) ⟨{ world }, past⟩ s)
    (hAll : ∀ k ∈ entries, s.net.copies.got n k = Finset.range (s.net.copies.log k).length) :
    s.net.Delivered db key n := by
  have hElse : ∀ k, k ∉ entries → s.net.copies.log k = [] := by
    refine h.induct (I := fun s => ∀ k, k ∉ entries → s.net.copies.log k = []) (fun k _ => rfl) ?_
    rintro s s' a - hLog ⟨-, hPuts⟩ hs k hk
    obtain ⟨net, hNet, rfl⟩ := map_eq_some_iff.mp hs
    cases Net.effect_of_step hNet with
    | @call o c op next hJob =>
      cases op with
      | put k' v =>
        have hPutting : s.net.putting (.call o) = some k' := by rw [putting, hJob]
        have hNe : k ≠ k' := by
          rintro rfl
          exact hk (hPuts k hPutting)
        show update s.net.copies.log k' _ k = []
        rw [update_of_ne hNe]
        exact hLog k hk
      | _ => exact hLog k hk
    | @receive o k' i =>
      show (s.net.copies.receive o k' i).log k = []
      rw [Copies.log_receive]
      exact hLog k hk
    | @forget o k' i =>
      show (s.net.copies.forget o k' i).log k = []
      rw [Copies.log_forget]
      exact hLog k hk
    | _ => exact hLog k hk
  intro k _
  by_cases hk : k ∈ entries
  · exact hAll k hk
  · have hGot := s.net.copies.got_lt n k
    rw [hElse k hk] at hGot ⊢
    exact Finset.eq_empty_of_forall_notMem fun i hi => Nat.not_lt_zero i (hGot i hi)

/-- In a run whose commands are issued at some replicas, none runs once none does there. -/
lemma Net.idle_of_issuedAt {S : Service} {H : Type} {db : Int64} {key : Bytes}
    {watch : H → Net S → Net.Event S → H} {K : Traced S H → Net.Event S → Prop}
    {world : Replica → World} {past : H} {s : Traced S H}
    (h : Reach (Traced.step db key watch) (fun s a => K s a ∧ IssuedAt R s a) ⟨{ world }, past⟩ s)
    (hAll : ∀ n ∈ R, s.net.job n = none) : s.net.Idle := by
  have hElse : ∀ n, n ∉ R → s.net.job n = none := by
    refine h.induct (I := fun s => ∀ n, n ∉ R → s.net.job n = none) (fun _ _ => rfl) ?_
    rintro s s' a - hNone ⟨-, hIssued⟩ hs n hn
    obtain ⟨net, hNet, rfl⟩ := map_eq_some_iff.mp hs
    cases Net.effect_of_step hNet with
    | @start o c hIdle =>
      have ho : n ≠ o := by
        rintro rfl
        exact hn hIssued
      exact (update_of_ne ho _ _).trans (hNone n hn)
    | @call o c op next hJob =>
      have ho : n ≠ o := by
        rintro rfl
        rw [hNone n hn] at hJob
        cases hJob
      exact (update_of_ne ho _ _).trans (hNone n hn)
    | @finish o c rest out hJob hEnds =>
      show update s.net.job o none n = none
      by_cases ho : n = o
      · rw [ho, update_self]
      · exact (update_of_ne ho _ _).trans (hNone n hn)
    | _ => exact hNone n hn
  intro n
  by_cases hn : n ∈ R
  · exact hAll n hn
  · exact hElse n hn

/-- A command and its calls. -/
def Net.running {S : Service} (n : Replica) (c : S.Cmd) (calls : Nat) : List (Net.Event S) :=
  .start n c :: List.replicate calls (.call n)

end RedGeo.Repo
