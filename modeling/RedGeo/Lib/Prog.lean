import Mathlib.Logic.Basic

/-!
# Programs over an interface

A program calls operations of an interface and goes on with the answers, until
it returns a value or fails. It is a tree: what it does next is a function of
the answer. A handler says what an operation does to a state and what it
answers; one program can be run with several handlers.

* `Obeys` — what a program may call, whatever it is answered. It is proved once
  along the program (`obeys_bind`) and used with every handler (`Obeys.run`).
* `Heeds` — what a program may call depends on what it has called and was answered.
-/

namespace RedGeo.Lib

open List

inductive Prog (Op : Type) (Ans : Op → Type) (ε α : Type) : Type
  | done (a : α)
  | fail (e : ε)
  | call (op : Op) (next : Ans op → Prog Op Ans ε α)

namespace Prog

variable {Op : Type} {Ans : Op → Type} {ε α β σ τ : Type}

def bind : Prog Op Ans ε α → (α → Prog Op Ans ε β) → Prog Op Ans ε β
  | done a, f => f a
  | fail e, _ => fail e
  | call op next, f => call op fun x => (next x).bind f

/-- Go on after a failure as well. -/
def attempt : Prog Op Ans ε α → Prog Op Ans ε (Except ε α)
  | done a => done (.ok a)
  | fail e => done (.error e)
  | call op next => call op fun x => (next x).attempt

instance : Monad (Prog Op Ans ε) where
  pure := done
  bind := bind

@[simp] lemma pure_eq (a : α) : (pure a : Prog Op Ans ε α) = done a := rfl

@[simp] lemma done_bind (a : α) (f : α → Prog Op Ans ε β) : done a >>= f = f a := rfl

@[simp] lemma fail_bind (e : ε) (f : α → Prog Op Ans ε β) :
    (fail e : Prog Op Ans ε α) >>= f = fail e := rfl

@[simp] lemma call_bind (op : Op) (next : Ans op → Prog Op Ans ε α)
    (f : α → Prog Op Ans ε β) : call op next >>= f = call op fun x => next x >>= f := rfl

lemma bind_done (p : Prog Op Ans ε α) : p >>= done = p := by
  induction p with
  | done a => rfl
  | fail e => rfl
  | call op next ih => exact congrArg (call op) (funext ih)

protected lemma bind_assoc {γ : Type} (p : Prog Op Ans ε α) (f : α → Prog Op Ans ε β)
    (g : β → Prog Op Ans ε γ) : p >>= f >>= g = p >>= fun a => f a >>= g := by
  induction p with
  | done a => rfl
  | fail e => rfl
  | call op next ih => exact congrArg (call op) (funext ih)

instance : LawfulMonad (Prog Op Ans ε) :=
  LawfulMonad.mk' _ (fun p => bind_done p) (fun _ _ => rfl) Prog.bind_assoc

/-! ## Running -/

/-- What an operation does to a state, and what it answers. -/
abbrev Handler (Op : Type) (Ans : Op → Type) (σ : Type) := (op : Op) → σ → Ans op × σ

def run (h : Handler Op Ans σ) : Prog Op Ans ε α → σ → Except ε α × σ
  | done a, s => (.ok a, s)
  | fail e, s => (.error e, s)
  | call op next, s => (next (h op s).1).run h (h op s).2

section

variable (h : Handler Op Ans σ)

@[simp] lemma run_done (a : α) (s : σ) : (done a : Prog Op Ans ε α).run h s = (.ok a, s) := rfl

@[simp] lemma run_fail (e : ε) (s : σ) : (fail e : Prog Op Ans ε α).run h s = (.error e, s) := rfl

@[simp] lemma run_call (op : Op) (next : Ans op → Prog Op Ans ε α) (s : σ) :
    (call op next).run h s = (next (h op s).1).run h (h op s).2 := rfl

lemma run_bind (p : Prog Op Ans ε α) (f : α → Prog Op Ans ε β) (s : σ) : (p >>= f).run h s =
      match p.run h s with
      | (.ok a, s') => (f a).run h s'
      | (.error e, s') => (.error e, s') := by
  induction p generalizing s with
  | done a => rfl
  | fail e => rfl
  | call op next ih => exact ih _ _

lemma run_bind_ok (hRun : p.run h s = (.ok a, s')) (f : α → Prog Op Ans ε β) :
    (p >>= f).run h s = (f a).run h s' := by
  rw [run_bind, hRun]

lemma run_bind_error (hRun : p.run h s = (.error e, s')) (f : α → Prog Op Ans ε β) :
    (p >>= f).run h s = (.error e, s') := by
  rw [run_bind, hRun]

@[simp] lemma run_attempt (p : Prog Op Ans ε α) (s : σ) :
    p.attempt.run h s = (.ok (p.run h s).1, (p.run h s).2) := by
  induction p generalizing s with
  | done a => rfl
  | fail e => rfl
  | call op next ih => exact ih _ _

/-- A loop whose rounds leave the state as it is. -/
lemma run_foldlM {xs : List α} {f : β → α → Prog Op Ans ε β}
    (hf : ∀ b, ∀ x ∈ xs, (f b x).run h s = (.ok (g b x), s)) (b : β) :
    (xs.foldlM f b).run h s = (.ok (xs.foldl g b), s) := by
  induction xs generalizing b with
  | nil => rfl
  | cons x xs ih =>
    rw [foldlM_cons, run_bind_ok h (hf b x mem_cons_self)]
    exact ih (fun b y hy => hf b y (mem_cons_of_mem x hy)) (g b x)

lemma run_mapM {xs : List α} {f : α → Prog Op Ans ε β} (hf : ∀ x ∈ xs, (f x).run h s = (.ok (g x), s)) :
    (xs.mapM f).run h s = (.ok (xs.map g), s) := by
  induction xs with
  | nil => rfl
  | cons x xs ih =>
    rw [mapM_cons, run_bind_ok h (hf x mem_cons_self),
      run_bind_ok h (ih fun y hy => hf y (mem_cons_of_mem x hy))]
    rfl

end

/-! ## What a program calls -/

/-- What a program may call, and what it may take for granted of the answers. -/
structure Contract (Op : Type) (Ans : Op → Type) where
  allowed : Op → Prop
  answers : (op : Op) → Ans op → Prop

/-- The contract that takes nothing for granted. -/
def Contract.only (allowed : Op → Prop) : Contract Op Ans := ⟨allowed, fun _ _ => True⟩

/-- Every call is allowed, and a value returned is as `post` says, as long as
the answers are as the contract says. Nothing is said of failures. -/
def Obeys (c : Contract Op Ans) (post : α → Prop) : Prog Op Ans ε α → Prop
  | done a => post a
  | fail _ => True
  | call op next => c.allowed op ∧ ∀ x, c.answers op x → (next x).Obeys c post

section

variable {c : Contract Op Ans} {post : α → Prop} {p : Prog Op Ans ε α}

@[simp] lemma obeys_done : (done a : Prog Op Ans ε α).Obeys c post ↔ post a := Iff.rfl

@[simp] lemma obeys_fail : (fail e : Prog Op Ans ε α).Obeys c post := trivial

lemma Obeys.mono {post' : α → Prop} (hPost : ∀ a, post a → post' a) (h : p.Obeys c post) :
    p.Obeys c post' := by
  induction p with
  | done a => exact hPost a h
  | fail e => trivial
  | call op next ih => exact ⟨h.1, fun x hx => ih x (h.2 x hx)⟩

/-- What is known of the value of the first part may be used for the second. -/
lemma obeys_bind {post' : β → Prop} (h : p.Obeys c post) (hf : ∀ a, post a → (f a).Obeys c post') :
    (p >>= f).Obeys c post' := by
  induction p with
  | done a => exact hf a h
  | fail e => trivial
  | call op next ih => exact ⟨h.1, fun x hx => ih x (h.2 x hx)⟩

lemma obeys_attempt (h : p.Obeys c post) : p.attempt.Obeys c fun r => ∀ a, r = .ok a → post a := by
  induction p with
  | done a => exact fun b hEq => Except.ok.inj hEq ▸ h
  | fail e => exact fun b hEq => nomatch hEq
  | call op next ih => exact ⟨h.1, fun x hx => ih x (h.2 x hx)⟩

/-- A loop over a list, each round of which keeps what is allowed. -/
lemma obeys_forM {xs : List α} {f : α → Prog Op Ans ε PUnit} (hf : ∀ x ∈ xs, (f x).Obeys c fun _ => True) :
    (xs.forM f).Obeys c fun _ => True := by
  induction xs with
  | nil => trivial
  | cons x xs ih =>
    refine obeys_bind (hf x mem_cons_self) fun _ _ => ?_
    exact ih fun y hy => hf y (mem_cons_of_mem x hy)

/-- **The invariant rule.** What every allowed operation keeps, a program that
obeys keeps. -/
theorem Obeys.run {h : Handler Op Ans σ} {I : σ → Prop} (hObeys : p.Obeys c post)
    (hStep : ∀ op s, I s → c.allowed op → c.answers op (h op s).1 ∧ I (h op s).2) (hs : I s) :
    I (p.run h s).2 ∧ ∀ a, (p.run h s).1 = .ok a → post a := by
  induction p generalizing s with
  | done a => exact ⟨hs, fun b hEq => Except.ok.inj hEq ▸ hObeys⟩
  | fail e => exact ⟨hs, fun b hEq => nomatch hEq⟩
  | call op next ih =>
    obtain ⟨hAnswer, hNext⟩ := hStep op s hs hObeys.1
    exact ih _ (hObeys.2 _ hAnswer) hNext

end

/-! ## Programs that keep to a protocol -/

/-- What may be called in each state of a protocol, what may be taken for granted of
the answers, and which state comes next. -/
structure Protocol (Op : Type) (Ans : Op → Type) (γ : Type) where
  allowed : γ → Op → Prop
  answers : γ → (op : Op) → Ans op → Prop
  after : γ → (op : Op) → Ans op → γ

/-- Every call is allowed in the state that the calls before it have led to, and at
the end the state and the outcome are as `post` says. -/
def Heeds {γ : Type} (c : Protocol Op Ans γ) (post : γ → Except ε α → Prop) :
    Prog Op Ans ε α → γ → Prop
  | done a, g => post g (.ok a)
  | fail e, g => post g (.error e)
  | call op next, g => c.allowed g op ∧ ∀ x, c.answers g op x → (next x).Heeds c post (c.after g op x)

section

variable {γ : Type} {c : Protocol Op Ans γ} {post : γ → Except ε α → Prop} {p : Prog Op Ans ε α} {g : γ}

lemma Heeds.mono {post' : γ → Except ε α → Prop} (hPost : ∀ g out, post g out → post' g out)
    (h : p.Heeds c post g) : p.Heeds c post' g := by
  induction p generalizing g with
  | done a => exact hPost g _ h
  | fail e => exact hPost g _ h
  | call op next ih => exact ⟨h.1, fun x hx => ih x (h.2 x hx)⟩

lemma heeds_bind {post' : γ → Except ε β → Prop} (h : p.Heeds c post g)
    (hOk : ∀ g a, post g (.ok a) → (f a).Heeds c post' g)
    (hError : ∀ g e, post g (.error e) → post' g (.error e)) : (p >>= f).Heeds c post' g := by
  induction p generalizing g with
  | done a => exact hOk g a h
  | fail e => exact hError g e h
  | call op next ih => exact ⟨h.1, fun x hx => ih x (h.2 x hx)⟩

lemma heeds_attempt (h : p.Heeds c post g) :
    p.attempt.Heeds c (fun g out => ∃ o, out = .ok o ∧ post g o) g := by
  induction p generalizing g with
  | done a => exact ⟨_, rfl, h⟩
  | fail e => exact ⟨_, rfl, h⟩
  | call op next ih => exact ⟨h.1, fun x hx => ih x (h.2 x hx)⟩

/-- One condition for values, one for failures. -/
def Either (ok : γ → α → Prop) (fault : γ → ε → Prop) (g : γ) : Except ε α → Prop
  | .ok a => ok g a
  | .error e => fault g e

/-- A loop with an accumulator. What is kept speaks of the rounds to come as well. -/
lemma heeds_foldlM {f : β → α → Prog Op Ans ε β} {I : List α → γ → β → Prop}
    {fault : γ → ε → Prop} (h : I xs g b)
    (hStep : ∀ x ∈ xs, ∀ rest g b, I (x :: rest) g b → (f b x).Heeds c (Either (I rest) fault) g) :
    (xs.foldlM f b).Heeds c (Either (I []) fault) g := by
  induction xs generalizing g b with
  | nil => exact h
  | cons x xs ih =>
    rw [foldlM_cons]
    refine heeds_bind (hStep x mem_cons_self xs g b h) (fun g b hI => ?_) fun g e hFault => hFault
    exact ih hI fun y hy => hStep y (mem_cons_of_mem x hy)

/-- A loop that collects values. -/
lemma heeds_mapM {f : α → Prog Op Ans ε β} {I : List α → γ → Prop} {fault : γ → ε → Prop} (h : I xs g)
    (hStep : ∀ x ∈ xs, ∀ rest g, I (x :: rest) g → (f x).Heeds c (Either (fun g _ => I rest g) fault) g) :
    (xs.mapM f).Heeds c (Either (fun g _ => I [] g) fault) g := by
  induction xs generalizing g with
  | nil => exact h
  | cons x xs ih =>
    rw [mapM_cons]
    refine heeds_bind (hStep x mem_cons_self xs g h) (fun g b hI => ?_) fun g e hFault => hFault
    refine heeds_bind (ih hI fun y hy => hStep y (mem_cons_of_mem x hy)) (fun g bs hDone => ?_)
      fun g e hFault => hFault
    exact hDone

end

/-! ## One interface in terms of another -/

section

variable {Op' : Type} {Ans' : Op' → Type}

/-- Replace every operation by a program over another interface. -/
def compile (impl : (op : Op) → Prog Op' Ans' ε (Ans op)) : Prog Op Ans ε α → Prog Op' Ans' ε α
  | done a => done a
  | fail e => fail e
  | call op next => impl op >>= fun x => (next x).compile impl

variable {impl : (op : Op) → Prog Op' Ans' ε (Ans op)}

variable (p : Prog Op Ans ε α)

lemma compile_bind (f : α → Prog Op Ans ε β) :
    (p >>= f).compile impl = p.compile impl >>= fun a => (f a).compile impl := by
  induction p with
  | done a => rfl
  | fail e => rfl
  | call op next ih =>
    show (impl op >>= fun x => (next x >>= f).compile impl) = _
    rw [funext ih, ← Prog.bind_assoc]
    rfl

lemma compile_foldlM (xs : List α) (f : β → α → Prog Op Ans ε β) (b : β) :
    (xs.foldlM f b).compile impl = xs.foldlM (fun b x => (f b x).compile impl) b := by
  induction xs generalizing b with
  | nil => rfl
  | cons x xs ih =>
    rw [foldlM_cons, foldlM_cons, compile_bind]
    exact congrArg _ (funext fun b => ih b)

lemma compile_mapM (xs : List α) (f : α → Prog Op Ans ε β) :
    (xs.mapM f).compile impl = xs.mapM fun x => (f x).compile impl := by
  induction xs with
  | nil => rfl
  | cons x xs ih =>
    rw [mapM_cons, mapM_cons, compile_bind]
    refine congrArg _ (funext fun b => ?_)
    rw [compile_bind, ih]
    rfl

/-- Running a compiled program is running the program, if every operation does
what its handler says. -/
lemma run_compile {h : Handler Op Ans σ} (hImpl : ∀ op s, (impl op).run h' s = (.ok (h op s).1, (h op s).2))
    (p : Prog Op Ans ε α) (s : σ) : (p.compile impl).run h' s = p.run h s := by
  induction p generalizing s with
  | done a => rfl
  | fail e => rfl
  | call op next ih =>
    show (impl op >>= fun x => (next x).compile impl).run h' s = _
    rw [run_bind_ok h' (hImpl op s), ih, run_call]

/-- Without conditions, every program obeys. -/
lemma obeys_anything : p.Obeys (.only fun _ => True) fun _ => True := by
  induction p with
  | done a => trivial
  | fail e => trivial
  | call op next ih => exact ⟨trivial, fun x _ => ih x⟩

end

end Prog

end RedGeo.Lib
