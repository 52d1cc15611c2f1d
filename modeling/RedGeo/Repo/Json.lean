import RedGeo.Repo.Lists

/-!
# RedGeo — JSON documents

`crdtstore/rjson.go`. A document is a tree, and every node of it is a register
under the path of the node. A change of a document is a function on the tree;
what is written is the difference between the tree before and the tree after.
The functions themselves (`jsondoc`, and the commands that call it) are a
parameter here: a change is any function that may mint positions and may fail.
-/

namespace RedGeo.Repo

open Lib Store

variable (r : Db)

/-! ## Trees -/

def jsonObject : UInt8 := 5

def jsonArray : UInt8 := 6

/-- `jsondoc.Node`. The kind is whatever byte is stored; the fields of an object
are by name, the elements of an array by position. -/
inductive Node
  | mk (kind : UInt8) (raw : Bytes) (fields : List (Bytes × Node)) (elems : List (Bytes × Node))

/-- A tree as registers: the path of each node, with its value. -/
abbrev Flat := List (List Seg × Bytes)

mutual

/-- `flattenJSON`, from a node on. -/
def Node.flatten (path : List Seg) : Node → Flat
  | .mk kind raw fields elems =>
    (path, kind :: raw) :: if kind = jsonObject then flattenAll path Seg.field fields
      else if kind = jsonArray then flattenAll path Seg.elem elems
      else []

def flattenAll (path : List Seg) (step : Bytes → Seg) : List (Bytes × Node) → Flat
  | [] => []
  | child :: rest => flattenChild path step child ++ flattenAll path step rest

def flattenChild (path : List Seg) (step : Bytes → Seg) : Bytes × Node → Flat
  | (name, node) => node.flatten (path ++ [step name])

end

/-- `flattenJSON`: of two nodes with one path, the later is kept. -/
def flattenJSON : Option Node → Flat
  | none => []
  | some root => (Dict.ofPairs (root.flatten [])).pairs

/-! ## Loading -/

/-- The path of a node and a replica, below the prefix of a document. -/
def nodeSlot (base : List Seg) (k : Path) : Option (List Seg × Bytes) :=
  match (trimPrefix base k).reverse with
  | .enc replica :: .word .leaf :: path => some (path.reverse, replica)
  | _ => none

/-- The nodes that are live. -/
def liveNodes (base : List Seg) (entries : List (Path × Bytes)) : Flat :=
  (liveSlots (groupSlots (nodeSlot base) entries)).filter fun e => e.2 ≠ []

section

variable (live : Flat) (path : List Seg)

/-- The last steps of the live paths that are one step longer than a path. -/
def kids : List Seg :=
  live.filterMap fun e => if e.1.dropLast = path then e.1.getLast? else none

def fieldKids : List Bytes :=
  (kids live path).filterMap fun
    | .field name => some name
    | _ => none

/-- The elements of an array in the order of their positions. -/
def elemKids : List Bytes :=
  ((kids live path).filterMap fun
    | .elem pos => some pos
    | _ => none).mergeSort fun a b => a ≤ b

end

/-- `build`: the tree below a path, and the registers that it was built from. A path
that is visited has only live paths above it, so that there are never more steps
than live nodes. -/
def build (live : Flat) : Nat → List Seg → Node × Flat
  | 0, _ => (.mk 0 [] [] [], [])
  | fuel + 1, path =>
    let v := (live.lookup path).getD []
    let kind := v.headD 0
    let below (step : Bytes → Seg) (name : Bytes) := (name, build live fuel (path ++ [step name]))
    if kind = jsonObject then
      let fields := (fieldKids live path).map (below .field)
      (.mk kind [] (fields.map fun c => (c.1, c.2.1)) [], (path, v) :: fields.flatMap fun c => c.2.2)
    else if kind = jsonArray then
      let elems := (elemKids live path).map (below .elem)
      (.mk kind [] [] (elems.map fun c => (c.1, c.2.1)), (path, v) :: elems.flatMap fun c => c.2.2)
    else (.mk kind v.tail [] [], [(path, v)])

/-- What `loadJSON` makes of the live nodes: no document without a root. -/
def treeOf (live : Flat) : Option Node × Flat :=
  match live.lookup [] with
  | none => (none, [])
  | some _ =>
    let (root, flat) := build live live.length []
    (some root, flat)

variable (key : Bytes)

def loadJSON : ReadM (Option Node × Flat) := do
  let base := jsonBase r.num key
  let entries ← query base false
  pure (treeOf (liveNodes base entries))

/-! ## Changing -/

/-- `jsonNewPos`: without a position on either side, or with texts that are none, it
is zero. -/
def jsonNewPos (prev next : Bytes) : ReadM Bytes :=
  makePosKey r (match decodePos prev, decodePos next with
    | some lo, some hi => (lo.add hi).div (.ofInt 2)
    | some lo, none => lo.add (.ofInt 1)
    | none, some hi => hi.sub (.ofInt 1)
    | none, none => .zero false)

def saveJSONDiff (old cur : Flat) : KeyM .json Unit := do
  old.forM fun e =>
    if (cur.lookup e.1).isSome then pure () else writeSlot (.node e.1) tagDeleted []
  cur.forM fun e =>
    if old.lookup e.1 = some e.2 then pure () else writeSlot (.node e.1) tagPresent e.2

/-- `check`: the expiry of a document that exists. -/
def jsonCheck : ReadM (Option Int64) := do
  match ← probe r key with
  | none => pure none
  | some k => if k.type ≠ typeJSON then .fail .keyType else pure (some (k.etime.getD 0))

def jsonView {α : Type} (key : Bytes) (fn : Option Node → ReadM α) : ReadM α := do
  match ← jsonCheck r key with
  | none => .fail .notFound
  | some _ =>
    let doc ← loadJSON r key
    fn doc.1

def jsonUpdate {α : Type} (key : Bytes) (create : Bool) (fn : Option Node → ReadM (α × Option Node)) :
    KeyM .json α := do
  let found ← jsonCheck r key
  if found.isNone ∧ !create then .fail .notFound
  else
    let doc ← loadJSON r key
    let out ← fn doc.1
    saveJSONDiff doc.2 (flattenJSON out.2)
    match out.2, found with
    | none, some _ => deleteMeta
    | some _, none => writeMeta .json 0
    -- A document that stays keeps its metadata, and so its expiry.
    | _, _ => pure ()
    pure out.1

def deleteJSON : KeyM .json Unit := do
  let doc ← loadJSON r key
  saveJSONDiff doc.2 []
  deleteMeta

/-- `copyJSON`, as a program on the new key: what is there is not removed. -/
def copyJSON : KeyM .json Unit := do
  let doc ← loadJSON r key
  match doc.1 with
  | none => pure ()
  | some root =>
    saveJSONDiff [] (flattenJSON (some root))
    writeMeta .json 0

end RedGeo.Repo
