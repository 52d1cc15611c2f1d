import RedGeo.Lib.Bytes

/-!
# RedGeo — replies to scripts

`script/reply.go`. What a command called by a script writes is recorded as a tree. The
arrays that are still open form a stack, and each has a pointer to where it stands in the
tree: in the last place, so far, of the array below it.

* `recorded_reply` — what is written in pre-order is returned as it was.
-/

namespace RedGeo.Script

open Lib List

/-- `Reply`: for each kind, the fields that it uses. -/
inductive Reply
  | status (str : Bytes)
  | error (str : Bytes)
  | int (n : Int64)
  | bulk (str : Bytes)
  | nil
  | array (arr : List Reply)

/-- `frame`. The pointer is the way from the root; an array is moved when it outgrows `cap`. -/
structure Frame where
  r : List Nat
  cap : Int
  left : Int

structure Recorder where
  root : Reply := .nil
  set : Bool := false
  -- the top comes first
  stack : List Frame := []

/-- Append to the array at a pointer, and tell where: `none` if the array has to be moved, for
then pointers into it would be to the old one. -/
def Reply.append (cap : Int) (r : Reply) : List Nat → Reply → Option (Reply × Nat)
  | [], .array arr => if arr.length < cap then some (.array (arr ++ [r]), arr.length) else none
  | i :: p, .array arr => do
    let child ← arr[i]?
    let (child, at_) ← append cap r p child
    some (.array (arr.set i child), at_)
  | _, _ => none

namespace Recorder

variable (w : Recorder)

def reply : Reply := if w.set then w.root else .nil

def sweep : Recorder := { w with stack := w.stack.dropWhile (·.left = 0) }

def put (r : Reply) : Option Recorder :=
  match w.stack with
  | [] => some { w with root := r, set := true }
  | f :: below => do
    let (root, _) ← r.append f.cap f.r w.root
    some { w with root, stack := { f with left := f.left - 1 } :: below }.sweep

def writeArray (n : Int) : Option Recorder :=
  if n ≤ 0 then w.put (.array [])
  else
    match w.stack with
    | [] => some { root := .array [], set := true, stack := [⟨[], n, n⟩] }
    | p :: below => do
      let (root, last) ← (Reply.array []).append p.cap p.r w.root
      some { w with root, stack := ⟨p.r ++ [last], n, n⟩ :: { p with left := p.left - 1 } :: below }

end Recorder

/-- The calls of a writer. -/
inductive Write
  | array (n : Int)
  | map (pairs : Int)
  | bulk (b : Bytes)
  | error (msg : Bytes)
  | int (n : Int64)
  | uint64 (n : UInt64)
  | null
  | string (s : Bytes)
  | raw (b : Bytes)
  | bool (b : Bool)

def Recorder.write (w : Recorder) : Write → Option Recorder
  | .array n => w.writeArray n
  | .map pairs => w.writeArray (pairs * 2)
  | .bulk b => w.put (.bulk b)
  | .error msg => w.put (.error msg)
  | .int n => w.put (.int n)
  | .uint64 n => w.put (.int n.toInt64)
  | .null => w.put .nil
  | .string s => w.put (.status s)
  | .raw b => w.put (.status b)
  | .bool b => w.put (.int (if b then 1 else 0))

/-- The calls that write a tree, in pre-order. -/
def Reply.writes : Reply → List Write
  | status str => [.string str]
  | error str => [.error str]
  | int n => [.int n]
  | bulk str => [.bulk str]
  | nil => [.null]
  | array arr => .array arr.length :: arr.flatMap writes

/-! ## The unfinished spine -/

/-- An open array: the children it has for good, and how many it will have. -/
abbrev Open := List Reply × Nat

/-- The tree, with something in the next place of the innermost open array. -/
def plug : List Open → Reply → Reply
  | [], r => r
  | (done, _) :: spine, r => plug spine (.array (done ++ [r]))

/-- The pointer to this place. -/
def place (spine : List Open) : List Nat := (spine.map (·.1.length)).reverse

/-- The frames, each with its next child open. -/
def frames : List Open → List Frame
  | [] => []
  | (done, n) :: spine => ⟨place spine, n, n - (done.length + 1)⟩ :: frames spine

/-- The recorder while the innermost array is filled; without one, nothing has been written. -/
def filling : List Open → Recorder
  | [] => {}
  | (done, n) :: spine =>
    { root := plug spine (.array done), set := true, stack := ⟨place spine, n, n - done.length⟩ :: frames spine }

/-- The recorder when a child is complete, and with it perhaps the array around it. -/
def closed (r : Reply) : List Open → Recorder
  | [] => { root := r, set := true }
  | (done, n) :: spine =>
    if done.length + 1 = n then closed (.array (done ++ [r])) spine else filling ((done ++ [r], n) :: spine)

lemma place_cons (o : Open) (spine : List Open) : place (o :: spine) = place spine ++ [o.1.length] := by
  simp [place]

lemma append_plug (cap : Int) (r t : Reply) (p : List Nat) (spine : List Open) :
    r.append cap (place spine ++ p) (plug spine t) = (r.append cap p t).map fun s => (plug spine s.1, s.2) := by
  induction spine generalizing t p with
  | nil => simp [place, plug]
  | cons o spine ih =>
    rw [place_cons, append_assoc, plug, ih, singleton_append, Reply.append]
    cases h : r.append cap p t <;> simp [plug, h]

/-- What completes a child does so for the arrays that end with it. -/
lemma sweep_frames (r : Reply) (spine : List Open) :
    Recorder.sweep { root := plug spine r, set := true, stack := frames spine } = closed r spine := by
  induction spine generalizing r with
  | nil => rfl
  | cons o spine ih =>
    obtain ⟨done, n⟩ := o
    rw [closed]
    split
    · next hLast =>
      have hLeft : (n : Int) - (done.length + 1) = 0 := by omega
      rw [← ih]
      simp [Recorder.sweep, frames, hLeft, plug]
    · next hMore =>
      have hLeft : ¬ (n : Int) - (done.length + 1) = 0 := by omega
      simp [Recorder.sweep, frames, hLeft, plug, filling]

/-- The innermost array lacks a child. -/
def Lacking (spine : List Open) : Prop := ∀ o ∈ spine.head?, o.1.length < o.2

section

variable {spine : List Open} (h : Lacking spine)

include h

lemma put_filling (r : Reply) : (filling spine).put r = some (closed r spine) := by
  cases spine with
  | nil => rfl
  | cons o spine =>
    have hAppend := append_plug o.2 r (.array o.1) [] spine
    rw [append_nil, Reply.append, if_pos (Int.ofNat_lt.mpr (h o rfl))] at hAppend
    rw [← sweep_frames]
    simp [Recorder.put, filling, hAppend, plug, frames, sub_sub]

lemma writeArray_filling {n : Nat} (hn : 0 < n) :
    (filling spine).writeArray n = some (filling (([], n) :: spine)) := by
  rw [Recorder.writeArray, if_neg (by omega)]
  cases spine with
  | nil => simp [filling, plug, frames, place]
  | cons o spine =>
    have hAppend := append_plug o.2 (.array []) (.array o.1) [] spine
    rw [append_nil, Reply.append, if_pos (Int.ofNat_lt.mpr (h o rfl))] at hAppend
    simp [filling, hAppend, plug, frames, place_cons, sub_sub]

end

/-- The tree is recorded in the next place, wherever that is. -/
def Recorded (t : Reply) : Prop :=
  ∀ spine, Lacking spine → t.writes.foldlM Recorder.write (filling spine) = some (closed t spine)

/-- The last child closes the array. -/
lemma write_children {arr : List Reply} (hTrees : ∀ t ∈ arr, Recorded t) (hSome : arr ≠ [])
    (done : List Reply) (spine : List Open) :
    (arr.flatMap Reply.writes).foldlM Recorder.write (filling ((done, done.length + arr.length) :: spine)) =
    some (closed (.array (done ++ arr)) spine) := by
  induction arr generalizing done with
  | nil => exact absurd rfl hSome
  | cons t arr ih =>
    have hTree := hTrees t mem_cons_self ((done, done.length + (t :: arr).length) :: spine) (by simp [Lacking])
    rw [flatMap_cons, foldlM_append, hTree, Option.bind_eq_bind, Option.bind_some, closed]
    by_cases hLast : arr = []
    · subst hLast
      rw [length_singleton, if_pos rfl]
      rfl
    · have hMore : ¬ done.length + 1 = done.length + (t :: arr).length := by simpa using hLast
      have hRest := ih (fun u hu => hTrees u (mem_cons_of_mem t hu)) hLast (done ++ [t])
      rw [if_neg hMore]
      simpa [Nat.add_assoc, Nat.add_comm 1] using hRest

lemma recorded (t : Reply) : Recorded t := by
  intro spine h
  cases t with
  | array arr =>
    rw [Reply.writes, foldlM_cons]
    by_cases hNone : arr = []
    · subst hNone
      exact congrArg (· >>= pure) (put_filling h (.array []))
    · have hOpen : (filling spine).write (.array arr.length) = some (filling (([], arr.length) :: spine)) :=
        writeArray_filling h (length_pos_iff.mpr hNone)
      rw [hOpen]
      have hChildren := write_children (fun t _ => recorded t) hNone [] spine
      rwa [length_nil, Nat.zero_add] at hChildren
  | _ => simp [Reply.writes, Recorder.write, put_filling h]

/-- **Recorded replies are faithful.** What is written in pre-order is returned as it was. -/
theorem recorded_reply (t : Reply) : ∃ w, t.writes.foldlM Recorder.write {} = some w ∧ w.reply = t :=
  ⟨_, recorded t [] (by simp [Lacking]), rfl⟩

end RedGeo.Script
