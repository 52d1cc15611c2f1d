import RedGeo.Repo.Reads

/-!
# RedGeo — queries in any order

What a query finds it lists in some order, and a Go map is iterated in another one.
Where a result depends on such an order, it is about every order: commands run on a
node that lists as an `Order` says.

* `World.serveIn`, `execIn`, `ReadM.execIn` — a node and its commands.
* `Reader` — a node that holds given data, and how it lists them.
-/

namespace RedGeo.Repo

open Lib Store Prog World

/-- A way to list what a query finds. -/
structure Order where
  list : List (Path × Bytes) → List (Path × Bytes)
  perm : ∀ l, (list l).Perm l

namespace Order

/-- In the order of the keys. -/
def byKey : Order := ⟨id, fun _ => .refl _⟩

/-- The order that lists some entries in a given way. -/
def pick {entries l : List (Path × Bytes)} (h : l.Perm entries) : Order where
  list x := if x = entries then l else x
  perm x := by
    split
    · next hEq => exact hEq ▸ h
    · exact .refl x

lemma pick_list (h : l.Perm entries) : (pick h).list entries = l :=
  if_pos rfl

end Order

/-- What the calls of a command do on a node that lists in some order. -/
def World.serveIn (o : Order) : Prog.Handler Call Answer World
  | .query base keysOnly, w => (.ok ((o.list (w.data.entries base)).map (keyEntry keysOnly)), w)
  | c, w => World.serve c w

/-- Run a plain command there. -/
def execIn {α : Type} (o : Order) (p : StoreM α) (w : World) : Except Err α × World :=
  p.run (World.serveIn o) w

/-- Run a reading program there. -/
def ReadM.execIn {α : Type} (o : Order) (p : ReadM α) (w : World) : Except Err α × World :=
  p.run (fun a w => World.serveIn o a.call w) w

section

variable {α β : Type}

lemma readIn_bind (h : p.execIn o w = (.ok a, w')) (f : α → ReadM β) :
    (p >>= f).execIn o w = (f a).execIn o w' :=
  run_bind_ok _ h f

lemma readIn_attempt (p : ReadM α) : ReadM.execIn o p.attempt w = (.ok (p.execIn o w).1, (p.execIn o w).2) :=
  run_attempt _ p w

lemma execIn_load (base : List Seg) (f : List (Path × Bytes) → α) :
    ReadM.execIn o (do let entries ← query base false; pure (f entries)) w =
      (.ok (f (o.list (w.data.entries base))), w) := by
  show (Except.ok (f ((o.list (w.data.entries base)).map (keyEntry false))), w) = _
  rw [map_keyEntry_false]

lemma execIn_anyPrefix (base : List Seg) :
    (anyPrefix base).execIn o w = (.ok (!(w.data.entries base).isEmpty), w) := by
  show (Except.ok (!((o.list (w.data.entries base)).map (keyEntry true)).isEmpty), w) = _
  rw [List.isEmpty_map, (o.perm _).isEmpty_eq]

/-- Reading changes nothing of what is stored. -/
lemma ReadM.data_execIn (p : ReadM α) (w : World) : (p.execIn o w).2.data = w.data := by
  induction p generalizing w with
  | done a => rfl
  | fail e => rfl
  | call a next ih =>
    refine (ih _ _).trans ?_
    cases a <;> rfl

lemma ReadM.data_of_execIn {p : ReadM α} {w w' : World} {out : Except Err α} (h : p.execIn o w = (out, w')) :
    w'.data = w.data := by
  have hRead := ReadM.data_execIn (o := o) p w
  rwa [h] at hRead

end

/-! Programs that write. -/

/-- What an operation on a key does there. -/
def World.keyServeIn {X : Space} (o : Order) (r : Db) (key : Bytes) :
    Prog.Handler (KeyOp X) (fun op => Except Err (KeyResult op)) World
  | .ask a, w => World.serveIn o a.call w
  | op, w => World.keyServe r key op w

/-- Run a program on a key there. -/
def KeyM.execIn {X : Space} {α : Type} (o : Order) (r : Db) (key : Bytes) (p : KeyM X α) (w : World) :
    Except Err α × World :=
  p.run (World.keyServeIn o r key) w

section

variable {α β : Type}

lemma execIn_bind (h : execIn o p w = (.ok a, w')) (f : α → StoreM β) :
    execIn o (p >>= f) w = execIn o (f a) w' :=
  run_bind_ok _ h f

lemma KeyM.execIn_bind (h : p.execIn o r key w = (.ok a, w')) (f : α → KeyM X β) :
    (p >>= f).execIn o r key w = (f a).execIn o r key w' :=
  run_bind_ok _ h f

lemma execIn_readCalls (p : ReadM α) : execIn o p.calls w = p.execIn o w :=
  run_compile (fun _ _ => rfl) p w

/-- A program on a key, run by its calls. -/
lemma execIn_on (p : KeyM X α) : execIn o (r.on key p) w = p.execIn o r key w := by
  refine run_compile (fun op w => ?_) p w
  rw [run_attempt]
  have hOp : (op.calls r key).run (serveIn o) w = keyServeIn o r key op w := by
    cases op with
    | ask a => cases a <;> rfl
    | _ => rfl
  rw [hOp]

lemma execIn_withLock (k : Bytes) (body : StoreM α) : execIn o (withLock k body) w = execIn o body w := by
  show (body.attempt >>= _).run (serveIn o) w = body.run (serveIn o) w
  rw [run_bind, run_attempt]
  cases h : body.run (serveIn o) w with
  | mk out w' => cases out <;> rfl

end

/-- A node that holds some data. -/
structure Reader (data : Datastore) where
  order : Order
  world : World
  here : world.data = data

/-- What a reading program returns there. -/
def Reader.run {data : Datastore} {α : Type} (v : Reader data) (p : ReadM α) : Except Err α :=
  (p.execIn v.order v.world).1

end RedGeo.Repo
