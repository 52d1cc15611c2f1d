import RedGeo.Lib.AddWins
import RedGeo.Repo.Finds

/-!
# RedGeo — the replicas of a key

Commands on one key run at any number of replicas, one call to the datastore at a time.
At each replica they run one after the other, since they hold the lock of the key; a
command starts when it gets the lock. What a replica writes arrives at the others in any
order. Commands on other keys change what they like in between.

* `Net.step` — the replicas, and `Net.Effect`, everything that can happen.
* `Rules` — what commands may put, given what is stored and what they have been answered.
* `Net.Kept.step` — commands that keep to the rules: a replica's own entries are the last
  that it has put, whatever arrives.
-/

namespace RedGeo.Repo

open Lib Store Function List Option World Table Prog Datastore

/-- The commands that are run. -/
structure Service where
  Cmd : Type
  Out : Cmd → Type
  program : Replica → (c : Cmd) → StoreM (Out c)

/-- The replicas: the node of each, the command that it runs, and what has been put and
has arrived. -/
structure Net (S : Service) where
  world : Replica → World
  job : Replica → Option ((c : S.Cmd) × StoreM (S.Out c)) := fun _ => none
  copies : Copies Replica Path Bytes := .empty

/-- Put or delete. -/
def Datastore.write (data : Datastore) (k : Path) : Option Bytes → Datastore
  | some v => data.insert k v
  | none => data.erase k

lemma Datastore.getElem?_write (data : Datastore) (k a : Path) (v : Option Bytes) :
    (data.write k v)[a]? = if k = a then v else data[a]? := by
  cases v with
  | none => exact lookup_erase data k a
  | some v => exact lookup_insert data k a v

namespace Net

variable {S : Service}

inductive Event (S : Service)
  | start (n : Replica) (c : S.Cmd)
  /-- The next call of the command. -/
  | call (n : Replica)
  | finish (n : Replica)
  /-- The put of a key with a number arrives. -/
  | receive (n : Replica) (k : Path) (i : Nat)
  /-- The deletion of a put arrives. -/
  | forget (n : Replica) (k : Path) (i : Nat)
  /-- Something happens to other keys, and to the clocks. -/
  | other (n : Replica) (changes : List (Path × Option Bytes)) (w : World)

/-- What a call leaves for the other replicas. -/
def record (copies : Copies Replica Path Bytes) (n : Replica) : Call → Copies Replica Path Bytes
  | .put k v => copies.put n k v
  | .del k => copies.del n k
  | _ => copies

/-- A node takes over what has arrived under a key. -/
def arrive (s : Net S) (n : Replica) (k : Path) (copies : Copies Replica Path Bytes) : Net S :=
  let w := s.world n
  { s with
    world := update s.world n { w with data := w.data.write k (copies.value n k) }
    copies }

/-- A node after something has happened to other keys. -/
def changed (data : Datastore) (changes : List (Path × Option Bytes)) : Datastore :=
  changes.foldl (fun data e => data.write e.1 e.2) data

section

variable (db : Int64) (key : Bytes)

def step (s : Net S) : Event S → Option (Net S)
  | .start n c =>
    if (s.job n).isSome then none
    else some { s with job := update s.job n (some ⟨c, S.program n c⟩) }
  | .call n =>
    match s.job n with
    | some ⟨c, .call op next⟩ =>
      let out := serve op (s.world n)
      some {
        world := update s.world n out.2
        job := update s.job n (some ⟨c, next out.1⟩)
        copies := record s.copies n op }
    | _ => none
  | .finish n =>
    match s.job n with
    | none | some ⟨_, .call _ _⟩ => none
    | some _ => some { s with job := update s.job n none }
  | .receive n k i => if OfKey db key k then some (s.arrive n k (s.copies.receive n k i)) else none
  | .forget n k i => if OfKey db key k then some (s.arrive n k (s.copies.forget n k i)) else none
  | .other n changes w =>
    if ∀ e ∈ changes, ¬ OfKey db key e.1 then
      some { s with
        world := update s.world n { w with data := changed (s.world n).data changes } }
    else none

end

/-- A command has come to its end. -/
def Ends {α : Type} (p : StoreM α) (out : Except Err α) : Prop :=
  match out with
  | .ok a => p = .done a
  | .error e => p = .fail e

/-- What a command has come to, if it has. -/
def outcome {α : Type} : StoreM α → Option (Except Err α)
  | .done a => some (.ok a)
  | .fail e => some (.error e)
  | .call _ _ => none

lemma ends_of_outcome {α : Type} {p : StoreM α} {out : Except Err α} (h : outcome p = some out) : Ends p out := by
  cases p with
  | done a =>
    cases h
    exact rfl
  | fail e =>
    cases h
    exact rfl
  | call op next => cases h

/-- Everything that can happen. -/
inductive Effect (db : Int64) (key : Bytes) (s : Net S) : Event S → Net S → Prop
  | start {n : Replica} {c : S.Cmd} (hIdle : s.job n = none) :
    Effect db key s (.start n c) { s with job := update s.job n (some ⟨c, S.program n c⟩) }
  | call {n : Replica} {c : S.Cmd} {op : Call} {next : Answer op → StoreM (S.Out c)}
    (hJob : s.job n = some ⟨c, .call op next⟩) :
    Effect db key s (.call n) {
      world := update s.world n (serve op (s.world n)).2
      job := update s.job n (some ⟨c, next (serve op (s.world n)).1⟩)
      copies := record s.copies n op }
  | finish {n : Replica} {c : S.Cmd} {rest : StoreM (S.Out c)} {out : Except Err (S.Out c)}
    (hJob : s.job n = some ⟨c, rest⟩) (hEnds : Ends rest out) :
    Effect db key s (.finish n) { s with job := update s.job n none }
  | receive {n : Replica} {k : Path} {i : Nat} (hKey : OfKey db key k) :
    Effect db key s (.receive n k i) (s.arrive n k (s.copies.receive n k i))
  | forget {n : Replica} {k : Path} {i : Nat} (hKey : OfKey db key k) :
    Effect db key s (.forget n k i) (s.arrive n k (s.copies.forget n k i))
  | other {n : Replica} {changes : List (Path × Option Bytes)} {w : World}
    (hOther : ∀ e ∈ changes, ¬ OfKey db key e.1) :
    Effect db key s (.other n changes w)
      { s with world := update s.world n { w with data := changed (s.world n).data changes } }

/-- **What a step can do.** -/
theorem effect_of_step {s s' : Net S} {a : Event S} (hs : s.step db key a = some s') :
    Effect db key s a s' := by
  cases a with
  | start n c =>
    rw [step] at hs
    split at hs
    · cases hs
    · next hIdle =>
      cases hs
      exact .start (not_isSome_iff_eq_none.mp hIdle)
  | call n =>
    rw [step] at hs
    split at hs
    · next hJob =>
      cases hs
      exact .call hJob
    · cases hs
  | finish n =>
    rw [step] at hs
    cases hJob : s.job n with
    | none => simp [hJob] at hs
    | some job =>
      obtain ⟨c, rest⟩ := job
      cases rest with
      | call op next => simp [hJob] at hs
      | done a =>
        simp only [hJob, some.injEq] at hs
        subst hs
        exact .finish hJob (show Ends _ (.ok a) from rfl)
      | fail e =>
        simp only [hJob, some.injEq] at hs
        subst hs
        exact .finish hJob (show Ends _ (.error e) from rfl)
  | receive n k i =>
    rw [step] at hs
    split at hs
    · next hKey =>
      cases hs
      exact .receive hKey
    · cases hs
  | forget n k i =>
    rw [step] at hs
    split at hs
    · next hKey =>
      cases hs
      exact .forget hKey
    · cases hs
  | other n changes w =>
    rw [step] at hs
    split at hs
    · next hOther =>
      cases hs
      exact .other hOther
    · cases hs

/-- Changes to other keys leave this one alone. -/
lemma getElem?_changed (h : ∀ e ∈ changes, ¬ OfKey db key e.1) (hk : OfKey db key k) (data : Datastore) :
    (changed data changes)[k]? = data[k]? := by
  induction changes generalizing data with
  | nil => rfl
  | cons e changes ih =>
    show (changed (data.write e.1 e.2) changes)[k]? = _
    rw [ih (fun e' he' => h e' (mem_cons_of_mem e he')), getElem?_write, if_neg]
    rintro rfl
    exact h e mem_cons_self hk

end Net

/-! ## Rules for commands -/

section

variable (db : Int64) (key : Bytes)

/-- An entry of the key that a replica writes. -/
def Mine (n : Replica) (k : Path) : Prop :=
  OfKey db key k ∧ replicaOf k = some n.name

instance (db : Int64) (key : Bytes) (n : Replica) (k : Path) : Decidable (Mine db key n k) :=
  inferInstanceAs (Decidable (_ ∧ _))

lemma mine_slotKey (rest : List Seg) (n : Replica) : Mine db key n (slotKey (dataBase db key ++ rest) n) :=
  ⟨.inr (under_of_append (under_slotKey _ n)), replicaOf_slotKey _ n⟩

lemma mine_metaSlot (n : Replica) : Mine db key n (slotKey (metaBase db key) n) :=
  ⟨.inl (under_slotKey _ n), replicaOf_slotKey _ n⟩

/-- An entry has one writer. -/
lemma Mine.unique {db : Int64} {key : Bytes} (h : Mine db key n k) (h' : Mine db key n' k) : n' = n :=
  Replica.ext (some.inj (h'.2.symm.trans h.2))

/-- The entries of the key that a replica writes, as they are in a datastore. -/
def ownOf (n : Replica) (data : Datastore) (k : Path) : Option Bytes :=
  if Mine db key n k then data[k]? else none

end

section

variable {data : Datastore}

lemma ownOf_of_mine (h : Mine db key n k) : ownOf db key n data k = data[k]? := if_pos h

lemma ownOf_congr (h : ∀ k, Mine db key n k → data[k]? = data'[k]?) :
    ownOf db key n data = ownOf db key n data' := by
  funext k
  by_cases hk : Mine db key n k
  · rw [ownOf_of_mine hk, ownOf_of_mine hk, h k hk]
  · rw [ownOf, ownOf, if_neg hk, if_neg hk]

lemma ownOf_insert (h : Mine db key n k) (v : Bytes) :
    ownOf db key n (data.insert k v) = update (ownOf db key n data) k (some v) := by
  funext k'
  by_cases hk : k' = k
  · subst hk
    rw [update_self, ownOf_of_mine h, lookup_insert, if_pos rfl]
  · rw [update_of_ne hk, ownOf, ownOf, lookup_insert, if_neg (Ne.symm hk)]

end

/-- The calls that nobody takes notes of. -/
def Silent : Call → Prop
  | .query _ _ | .put _ _ | .del _ => False
  | _ => True

/-- What a command knows: the entries of its replica, which entries of the key there
are, and its notes. -/
structure Knows (δ : Type) where
  own : Path → Option Bytes
  known : Set Path
  notes : δ

/-- Rules for the commands of a service. A command takes notes of type `δ`. -/
structure Rules (S : Service) (δ : Type) where
  init : S.Cmd → δ
  note : δ → (op : Call) → Answer op → δ
  note_silent : ∀ (d : δ) (op : Call) (x : Answer op), Silent op → note d op x = d
  /-- What a command takes for granted of the datastore. -/
  trust : Replica → S.Cmd → δ → Datastore → Prop
  /-- What it may put, given its replica's entries. -/
  may : Replica → S.Cmd → (Path → Option Bytes) → δ → Path → Bytes → Prop
  /-- What it has come to in the end. -/
  post : Replica → (c : S.Cmd) → Knows δ → Except Err (S.Out c) → Prop

namespace Rules

variable {S : Service} {δ : Type} (rules : Rules S δ) (db : Int64) (key : Bytes)

variable (n : Replica) (c : S.Cmd)

/-- The datastores that a command may meet. -/
def Meets (g : Knows δ) (data : Datastore) : Prop :=
  ownOf db key n data = g.own ∧ Stays db key g.known data ∧ rules.trust n c g.notes data

/-- The rules as a protocol. -/
def protocol : Prog.Protocol Call Answer (Knows δ) where
  allowed g
    | .put k v => Mine db key n k ∧ rules.may n c g.own g.notes k v
    | .del _ => False
    | _ => True
  answers g op x := ∃ w : World, rules.Meets db key n c g w.data ∧ x = (serve op w).1
  after g op x := {
    own := match op with
      | .put k v => update g.own k (some v)
      | _ => g.own
    known := g.known ∪ seenIn op x
    notes := rules.note g.notes op x }

/-- What is left of a command keeps to the rules. -/
abbrev Keeps (n : Replica) (c : S.Cmd) (rest : StoreM (S.Out c)) (g : Knows δ) : Prop :=
  rest.Heeds (rules.protocol db key n c) (rules.post n c) g

end Rules

/-! ## Keeping to rules -/

section

variable {S : Service} {δ : Type} {rules : Rules S δ} {db : Int64} {key : Bytes} {n : Replica} {c : S.Cmd}
  {α β : Type} {g : Knows δ} {post : Knows δ → Except Err α → Prop} {X : Space} {f : Unit → KeyM X α}

lemma heeds_silent (hOp : Silent op) {next : Answer op → StoreM α}
    (h : ∀ w : World, (next (serve op w).1).Heeds (rules.protocol db key n c) post g) :
    (call op next).Heeds (rules.protocol db key n c) post g := by
  have hAfter : ∀ x, (rules.protocol db key n c).after g op x = g := by
    intro x
    have hNotes := rules.note_silent g.notes op x hOp
    cases op with
    | query | put | del => exact hOp.elim
    | _ => simp only [Rules.protocol, seenIn, Set.union_empty, hNotes]
  refine ⟨?_, fun x hx => ?_⟩
  · cases op <;> trivial
  · obtain ⟨w, -, rfl⟩ := hx
    rw [hAfter]
    exact h w

/-- Whatever is done with the lock of the key held. -/
lemma heeds_withLock (h : body.Heeds (rules.protocol db key n c) post g) :
    (withLock k body).Heeds (rules.protocol db key n c) post g := by
  refine heeds_silent (show Silent (.lock k) from trivial) fun _ => ?_
  show (body.attempt >>= fun out => perform (.unlock k) >>= fun _ =>
    match out with
    | .ok a => pure a
    | .error e => .fail e).Heeds _ _ _
  refine heeds_bind (heeds_attempt h) ?_ ?_
  · rintro g' out ⟨o, hEq, hPost⟩
    cases hEq
    refine heeds_silent (show Silent (.unlock k) from trivial) fun _ => ?_
    cases out with
    | ok a => exact hPost
    | error e => exact hPost
  · rintro g' e ⟨o, hEq, -⟩
    cases hEq

lemma heeds_query {f : List (Path × Bytes) → KeyM X α}
    (h : ∀ data, rules.Meets db key n c g data →
      (Db.on ⟨n, db⟩ key (f ((data.entries base).map (keyEntry keysOnly)))).Heeds
        (rules.protocol db key n c) post {
          own := g.own
          known := g.known ∪ keysIn ((data.entries base).map (keyEntry keysOnly))
          notes := rules.note g.notes (.query base keysOnly) (.ok ((data.entries base).map (keyEntry keysOnly))) }) :
    (Db.on ⟨n, db⟩ key ((query base keysOnly).keyed >>= f)).Heeds (rules.protocol db key n c) post g := by
  refine ⟨trivial, fun x hx => ?_⟩
  obtain ⟨w, hMeets, rfl⟩ := hx
  exact h w.data hMeets

lemma ReadM.keyed_bind {γ : Type} (p : ReadM β) (f : β → ReadM γ) :
    ((p >>= f).keyed : KeyM X γ) = p.keyed >>= fun b => (f b).keyed :=
  compile_bind p f

lemma heeds_load {load : List (Path × Bytes) → β} {f : β → KeyM X α}
    (h : ∀ data, rules.Meets db key n c g data →
      (Db.on ⟨n, db⟩ key (f (load (data.entries base)))).Heeds (rules.protocol db key n c) post {
        own := g.own
        known := g.known ∪ keysIn (data.entries base)
        notes := rules.note g.notes (.query base false) (.ok (data.entries base)) }) :
    (Db.on ⟨n, db⟩ key ((do let entries ← query base false; pure (load entries) : ReadM β).keyed >>= f)).Heeds
      (rules.protocol db key n c) post g := by
  have hKeyed : ((do let entries ← query base false; pure (load entries) : ReadM β).keyed >>= f : KeyM X α) =
      (query base false).keyed >>= fun entries => f (load entries) := by
    rw [ReadM.keyed_bind, Prog.bind_assoc]
    rfl
  rw [hKeyed]
  refine heeds_query fun data hMeets => ?_
  rw [map_keyEntry_false]
  exact h data hMeets

/-- Reading that is not noted. -/
lemma heeds_read {A : Ask → Prop} {Q : Set Path → Except Err β → Prop}
    {f : β → KeyM X α} {F : Datastore → Prop}
    (hFinds : Finds db key A F Q p known)
    (hF : ∀ known data, rules.Meets db key n c ⟨own, known, d⟩ data → F data)
    (hNote : ∀ (a : Ask), A a → ∀ x, rules.note d a.call x = d) (hOk : ∀ known b, Q known (.ok b) →
      (Db.on ⟨n, db⟩ key (f b)).Heeds (rules.protocol db key n c) post ⟨own, known, d⟩)
    (hError : ∀ known e, Q known (.error e) → post ⟨own, known, d⟩ (.error e)) :
    (Db.on ⟨n, db⟩ key (p.keyed >>= f)).Heeds (rules.protocol db key n c) post ⟨own, known, d⟩ := by
  induction p generalizing known with
  | done b => exact hOk known b hFinds
  | fail e => exact hError known e hFinds
  | call a next ih =>
    refine ⟨by cases a <;> trivial, fun x hx => ?_⟩
    obtain ⟨w, hMeets, rfl⟩ := hx
    have hAfter : (rules.protocol db key n c).after ⟨own, known, d⟩ a.call (serve a.call w).1 =
        ⟨own, known ∪ seenIn a.call (serve a.call w).1, d⟩ := by
      simp only [Rules.protocol, hNote a hFinds.1]
      cases a <;> rfl
    have hRest := ih _ (hFinds.2 _ ⟨w, hF known _ hMeets, hMeets.2.1, rfl⟩)
    rw [hAfter]
    cases a <;> exact hRest

lemma protocol_put (k : Path) (v : Bytes) (x : Answer (.put k v)) :
    (rules.protocol db key n c).after g (.put k v) x =
    ⟨update g.own k (some v), g.known, rules.note g.notes (.put k v) x⟩ := by
  simp only [Rules.protocol, seenIn, Set.union_empty]

/-- What a command knows after a put. -/
abbrev Rules.putting (rules : Rules S δ) (g : Knows δ) (k : Path) (v : Bytes) : Knows δ :=
  ⟨update g.own k (some v), g.known, rules.note g.notes (.put k v) (.ok ())⟩

lemma heeds_putComp {comp : Comp X}
    (hMine : Mine db key n (comp.path db key n.name))
    (hMay : rules.may n c g.own g.notes (comp.path db key n.name) v)
    (h : (Db.on ⟨n, db⟩ key (f ())).Heeds (rules.protocol db key n c) post
      (rules.putting g (comp.path db key n.name) v)) :
    (Db.on ⟨n, db⟩ key (putComp comp v >>= f)).Heeds (rules.protocol db key n c) post g := by
  refine ⟨⟨hMine, hMay⟩, fun x hx => ?_⟩
  obtain ⟨w, -, rfl⟩ := hx
  rw [protocol_put]
  exact h

lemma heeds_putSlot {next : Except Err Unit → StoreM α}
    (hMine : Mine db key n (slotKey base n))
    (hMay : ∀ st, rules.may n c g.own g.notes (slotKey base n) (encodeSlot ⟨st, tag, value⟩))
    (h : ∀ st, (next (.ok ())).Heeds (rules.protocol db key n c) post
      (rules.putting g (slotKey base n) (encodeSlot ⟨st, tag, value⟩))) :
    ((putSlot n base tag value).attempt >>= next).Heeds (rules.protocol db key n c) post g := by
  refine heeds_silent (show Silent .stamp from trivial) fun w => ?_
  refine ⟨⟨hMine, hMay _⟩, fun x hx => ?_⟩
  obtain ⟨w', -, rfl⟩ := hx
  rw [protocol_put]
  exact h _

lemma heeds_writeSlot (hMine : Mine db key n (slotKey (reg.base db key) n))
    (hMay : ∀ st, rules.may n c g.own g.notes (slotKey (reg.base db key) n) (encodeSlot ⟨st, tag, value⟩))
    (h : ∀ v, (Db.on ⟨n, db⟩ key (f ())).Heeds (rules.protocol db key n c) post
      (rules.putting g (slotKey (reg.base db key) n) v)) :
    (Db.on ⟨n, db⟩ key (writeSlot reg tag value >>= f)).Heeds (rules.protocol db key n c) post g :=
  heeds_putSlot hMine hMay fun _ => h _

lemma heeds_writeMeta (hMay : ∀ st, rules.may n c g.own g.notes (slotKey (metaBase db key) n)
      (encodeSlot ⟨st, tagPresent, encodeMeta (kind.envelope etimeMS)⟩))
    (h : ∀ v, (Db.on ⟨n, db⟩ key (f ())).Heeds (rules.protocol db key n c) post
      (rules.putting g (slotKey (metaBase db key) n) v)) :
    (Db.on ⟨n, db⟩ key (writeMeta kind etimeMS >>= f)).Heeds (rules.protocol db key n c) post g :=
  heeds_putSlot (mine_metaSlot db key n) hMay fun _ => h _

end

namespace Net

variable {S : Service} {δ : Type} {db : Int64} {key : Bytes} {rules : Rules S δ}

/-- The notes after a step. -/
def noted (rules : Rules S δ) (s : Net S) (d : Replica → δ) : Event S → Replica → δ
  | .start n c => update d n (rules.init c)
  | .call n =>
    match s.job n with
    | some ⟨_, .call op _⟩ => update d n (rules.note (d n) op (serve op (s.world n)).1)
    | _ => d
  | _ => d

/-- Commands keep to the rules, nothing is deleted, and each replica has all of its own
puts. -/
structure Kept (db : Int64) (key : Bytes) (rules : Rules S δ) (s : Net S) (d : Replica → δ) : Prop where
  synced : ∀ n k, OfKey db key k → (s.world n).data[k]? = s.copies.value n k
  undeleted : ∀ k, s.copies.deleted k = ∅
  writer : ∀ n k, Mine db key n k → s.copies.got n k = Finset.range (s.copies.log k).length
  job : ∀ n c rest, s.job n = some ⟨c, rest⟩ → ∃ known, Stays db key known (s.world n).data ∧
    rules.Keeps db key n c rest ⟨ownOf db key n (s.world n).data, known, d n⟩

namespace Kept

variable {s : Net S} {d : Replica → δ}

/-- A replica's own entry is the last that it has put. -/
lemma own (h : s.Kept db key rules d) (hk : Mine db key n k) :
    (s.world n).data[k]? = (s.copies.log k).getLast? := by
  rw [h.synced n k hk.1, Copies.value_of_received (h.writer n k hk) (h.undeleted k)]

/-- Everything has been put by somebody. -/
lemma mem_log (h : s.Kept db key rules d) (hk : OfKey db key k) (hv : (s.world n).data[k]? = some v) :
    v ∈ s.copies.log k :=
  List.mem_of_mem_take (List.mem_of_getLast? ((h.synced n k hk).symm.trans hv))

lemma init (world : Replica → World) (h : ∀ n, Lacks (world n).data db key) :
    Kept db key rules { world : Net S } d where
  synced n k hk := h n k hk
  undeleted _ := rfl
  writer _ _ _ := rfl
  job _ _ _ hEq := nomatch hEq

variable (h : s.Kept db key rules d)

include h

lemma may {next : Answer (.put k v) → StoreM (S.Out c)} (hJob : s.job n = some ⟨c, .call (.put k v) next⟩) :
    Mine db key n k ∧ rules.may n c (ownOf db key n (s.world n).data) (d n) k v := by
  obtain ⟨known, -, hKeeps⟩ := h.job n c _ hJob
  exact hKeeps.1

lemma post (hJob : s.job n = some ⟨c, rest⟩) (hEnds : Ends rest out) : ∃ known,
    Stays db key known (s.world n).data ∧ rules.post n c ⟨ownOf db key n (s.world n).data, known, d n⟩ out := by
  obtain ⟨known, hKnown, hKeeps⟩ := h.job n c rest hJob
  refine ⟨known, hKnown, ?_⟩
  cases out with
  | ok a =>
    have hDone : rest = .done a := hEnds
    subst hDone
    exact hKeeps
  | error e =>
    have hFail : rest = .fail e := hEnds
    subst hFail
    exact hKeeps

/-- One node has changed, but not in what it writes itself, and it has lost nothing. -/
lemma job_of_world (hOwn : ∀ k, Mine db key n k → w.data[k]? = (s.world n).data[k]?)
    (hStays : ∀ k, OfKey db key k → ((s.world n).data[k]?).isSome → (w.data[k]?).isSome) (n' : Replica)
    (c : S.Cmd) (rest : StoreM (S.Out c)) (hJob : s.job n' = some ⟨c, rest⟩) :
    ∃ known, Stays db key known (update s.world n w n').data ∧
    rules.Keeps db key n' c rest ⟨ownOf db key n' (update s.world n w n').data, known, d n'⟩ := by
  obtain ⟨known, hKnown, hKeeps⟩ := h.job n' c rest hJob
  by_cases hn : n' = n
  · subst hn
    rw [update_self, ownOf_congr hOwn]
    exact ⟨known, fun k hk hKey => hStays k hKey (hKnown k hk hKey), hKeeps⟩
  · rw [update_of_ne hn]
    exact ⟨known, hKnown, hKeeps⟩

lemma step_put (v : Bytes) (hMine : Mine db key n k) (hw : w.data = (s.world n).data.insert k v) :
    (∀ n' k', OfKey db key k' → (update s.world n w n').data[k']? = (s.copies.put n k v).value n' k') ∧
    ∀ n' k', Mine db key n' k' → (s.copies.put n k v).got n' k' =
    Finset.range ((s.copies.put n k v).log k').length := by
  constructor
  · intro n' k' hk'
    by_cases hn : n' = n
    · subst hn
      rw [update_self, hw, lookup_insert]
      by_cases hk : k = k'
      · subst hk
        rw [if_pos rfl, Copies.value_put_self]
      · rw [if_neg hk, Copies.value_put_of_ne _ _ _ _ fun hEq => hk hEq.2.symm]
        exact h.synced n' k' hk'
    · rw [update_of_ne hn, Copies.value_put_of_ne _ _ _ _ fun hEq => hn hEq.1]
      exact h.synced n' k' hk'
  · intro n' k' hk'
    show Copies.update s.copies.got n k _ n' k' = Finset.range (update s.copies.log k _ k').length
    by_cases hk : k' = k
    · subst hk
      -- it has one writer
      obtain rfl := hMine.unique hk'
      rw [Copies.update_self, update_self, length_append, length_singleton,
        Finset.range_add_one, h.writer n' k' hk']
    · rw [Copies.update_of_ne _ _ fun hEq => hk hEq.2, update_of_ne hk]
      exact h.writer n' k' hk'

omit h

lemma stays_call (h : Stays db key known w.data) (hOp : ∀ k, op ≠ .del k) :
    Stays db key (known ∪ seenIn op (serve op w).1) (serve op w).2.data := by
  intro k hk hKey
  rcases hk with hOld | hNew
  · have hSome := h k hOld hKey
    cases op with
    | put k' v =>
      show ((w.data.insert k' v)[k]?).isSome
      rw [lookup_insert]
      split
      · rfl
      · exact hSome
    | del k' => exact absurd rfl (hOp k')
    | _ => exact hSome
  · cases op with
    | query base keysOnly =>
      obtain ⟨e, he, rfl⟩ := hNew
      obtain ⟨e', he', rfl⟩ := mem_map.mp he
      have hEntry := (mem_entries.mp he').1
      cases keysOnly <;> exact isSome_of_eq_some hEntry
    | _ => exact hNew.elim

lemma step_call (h : s.Kept db key rules d) {next : Answer op → StoreM (S.Out c)}
    (hJob : s.job n = some ⟨c, .call op next⟩) (hTrust : rules.trust n c (d n) (s.world n).data) :
    Kept db key rules {
      world := update s.world n (serve op (s.world n)).2
      job := update s.job n (some ⟨c, next (serve op (s.world n)).1⟩)
      copies := record s.copies n op } (s.noted rules d (.call n)) := by
  obtain ⟨known, hKnown, hAllowed, hRest⟩ := h.job n c _ hJob
  have hNext := hRest _ ⟨s.world n, ⟨rfl, hKnown, hTrust⟩, rfl⟩
  have hDel : ∀ k, op ≠ .del k := by
    rintro k rfl
    exact hAllowed
  have hNoted : s.noted rules d (.call n) = update d n (rules.note (d n) op (serve op (s.world n)).1) := by
    rw [noted, hJob]
  -- the entries of the replica are as its command knows them
  have hOwn : ownOf db key n (serve op (s.world n)).2.data =
      ((rules.protocol db key n c).after ⟨ownOf db key n (s.world n).data, known, d n⟩ op
        (serve op (s.world n)).1).own := by
    cases op with
    | put k v => exact ownOf_insert hAllowed.1 v
    | del k => exact absurd rfl (hDel k)
    | _ => rfl
  have hJobs : ∀ n' c' rest, update s.job n (some ⟨c, next (serve op (s.world n)).1⟩) n' = some ⟨c', rest⟩ →
      ∃ known, Stays db key known (update s.world n (serve op (s.world n)).2 n').data ∧
        rules.Keeps db key n' c' rest
          ⟨ownOf db key n' (update s.world n (serve op (s.world n)).2 n').data, known,
            s.noted rules d (.call n) n'⟩ := by
    intro n' c' rest hJob'
    by_cases hn : n' = n
    · subst hn
      rw [update_self] at hJob'
      cases hJob'
      rw [hNoted, update_self, update_self, hOwn]
      exact ⟨_, stays_call hKnown hDel, hNext⟩
    · rw [update_of_ne hn] at hJob' ⊢
      rw [hNoted, update_of_ne hn]
      exact h.job n' c' rest hJob'
  -- calls that write nothing
  have hQuiet : (serve op (s.world n)).2.data = (s.world n).data → record s.copies n op = s.copies →
      Kept db key rules {
        world := update s.world n (serve op (s.world n)).2
        job := update s.job n (some ⟨c, next (serve op (s.world n)).1⟩)
        copies := record s.copies n op } (s.noted rules d (.call n)) := by
    intro hData hRecord
    refine ⟨fun n' k hk => ?_, ?_, ?_, hJobs⟩
    · rw [hRecord, ← h.synced n' k hk]
      show (update s.world n _ n').data[k]? = _
      by_cases hn : n' = n
      · subst hn
        rw [update_self, hData]
      · rw [update_of_ne hn]
    · rw [hRecord]
      exact h.undeleted
    · rw [hRecord]
      exact h.writer
  cases op with
  | put k v =>
    obtain ⟨hSynced, hWriter⟩ := h.step_put v hAllowed.1
      (show (serve (.put k v) (s.world n)).2.data = (s.world n).data.insert k v from rfl)
    exact ⟨hSynced, h.undeleted, hWriter, hJobs⟩
  | del k => exact absurd rfl (hDel k)
  | _ => exact hQuiet rfl rfl

/-- **One step.** -/
theorem step (h : s.Kept db key rules d)
    (hProgram : ∀ n c own, rules.Keeps db key n c (S.program n c) ⟨own, ∅, rules.init c⟩)
    (hTrust : ∀ n c rest, s.job n = some ⟨c, rest⟩ → rules.trust n c (d n) (s.world n).data)
    (hs : s.step db key a = some s') : s'.Kept db key rules (s.noted rules d a) := by
  cases effect_of_step hs with
  | @start n c hIdle =>
    refine ⟨h.synced, h.undeleted, h.writer, fun n' c' rest hJob => ?_⟩
    obtain ⟨rfl, hNew⟩ | ⟨hn, hOld⟩ := update_cases hJob
    · cases hNew
      rw [noted, update_self]
      exact ⟨∅, fun k hk => hk.elim, hProgram n' c _⟩
    · rw [noted, update_of_ne hn]
      exact h.job n' c' rest hOld
  | @call n c op next hJob => exact h.step_call hJob (hTrust n c _ hJob)
  | @finish n c rest out hJob hEnds =>
    refine ⟨h.synced, h.undeleted, h.writer, fun n' c' rest' hJob' => ?_⟩
    obtain ⟨-, hNone⟩ | ⟨-, hOld⟩ := update_cases hJob'
    · cases hNone
    · exact h.job n' c' rest' hOld
  | @receive n k i hKey =>
    have hLog := s.copies.log_receive n k i
    have hDeleted := s.copies.deleted_receive n k i
    have hWriter : ∀ n' k', Mine db key n' k' →
        (s.copies.receive n k i).got n' k' = Finset.range ((s.copies.receive n k i).log k').length := by
      intro n' k' hk'
      -- there is nothing more to receive
      refine Finset.Subset.antisymm (fun j hj => ?_) ?_
      · exact Finset.mem_range.mpr ((s.copies.receive n k i).got_lt n' k' j hj)
      · rw [hLog, ← h.writer n' k' hk']
        exact s.copies.subset_got_receive n k i n' k'
    refine ⟨fun n' k' hk' => ?_, fun k' => hDeleted ▸ h.undeleted k', hWriter,
      h.job_of_world (fun k' hk' => ?_) fun k' hk' hSome => ?_⟩
    · show (update s.world n _ n').data[k']? = (s.copies.receive n k i).value n' k'
      by_cases hn : n' = n
      · subst hn
        rw [update_self, getElem?_write]
        by_cases hk : k = k'
        · rw [if_pos hk, hk]
        · rw [if_neg hk, Copies.value_receive_of_ne _ _ _ _ fun hEq => hk hEq.2.symm]
          exact h.synced n' k' hk'
      · rw [update_of_ne hn, Copies.value_receive_of_ne _ _ _ _ fun hEq => hn hEq.1]
        exact h.synced n' k' hk'
    · rw [getElem?_write]
      split
      · next hEq =>
        subst hEq
        rw [h.own hk', Copies.value_of_received (hWriter n k hk') (hDeleted ▸ h.undeleted k), hLog]
      · rfl
    · rw [getElem?_write]
      split
      · next hEq =>
        subst hEq
        rw [h.synced n k hKey] at hSome
        exact s.copies.isSome_value_receive n k i hSome
      · exact hSome
  | @forget n k i hKey =>
    have hCopies : s.copies.forget n k i = s.copies := by
      rw [Copies.forget, dif_neg]
      rw [h.undeleted k]
      exact Finset.notMem_empty i
    have hData : ∀ k' : Path, ((s.world n).data.write k (s.copies.value n k))[k']? = (s.world n).data[k']? := by
      intro k'
      rw [getElem?_write]
      split
      · next hEq => rw [← hEq, h.synced n k hKey]
      · rfl
    rw [hCopies]
    refine ⟨fun n' k' hk' => ?_, h.undeleted, h.writer,
      h.job_of_world (fun k' _ => hData k') fun k' _ hSome => by rw [hData]; exact hSome⟩
    show (update s.world n _ n').data[k']? = _
    by_cases hn : n' = n
    · subst hn
      rw [update_self, hData]
      exact h.synced n' k' hk'
    · rw [update_of_ne hn]
      exact h.synced n' k' hk'
  | @other n changes w hOther =>
    refine ⟨fun n' k' hk' => ?_, h.undeleted, h.writer, h.job_of_world (fun k' hk' => ?_) fun k' hk' hSome => ?_⟩
    · show (update s.world n _ n').data[k']? = _
      by_cases hn : n' = n
      · subst hn
        rw [update_self, getElem?_changed hOther hk']
        exact h.synced n' k' hk'
      · rw [update_of_ne hn]
        exact h.synced n' k' hk'
    · exact getElem?_changed hOther hk'.1 _
    · show ((changed (s.world n).data changes)[k']?).isSome
      rw [getElem?_changed hOther hk']
      exact hSome

end Kept

end Net

end RedGeo.Repo
