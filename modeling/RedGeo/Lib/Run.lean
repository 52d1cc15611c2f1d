import Mathlib.Logic.Basic

/-!
# Runs of a labelled transition system

A system is a partial step function `step : σ → α → Option σ`: the label `a`
says which event happens next, and `none` that it cannot happen in that state.

`Reach step K s₀ s` holds of the states `s` that some run from `s₀` reaches in
which every step `(s, a)` meets the condition `K`. A property "of every run
whose steps all meet `K`" is a property of these states; `K := Anything`
is every run.

* `Reach.induct` — the invariant rule: what holds at the start and is kept by
  each step that meets `K` holds in every state reached.
* `Reach.of_runChecked` — a concrete run, given as a list of labels and
  evaluated, is a run.
-/

namespace RedGeo.Lib

variable {σ α : Type}

/-- The condition every step meets. -/
def Anything : σ → α → Prop := fun _ _ => True

instance (s : σ) (a : α) : Decidable (Anything s a) := isTrue trivial

/-- The states that runs from `s₀` reach whose every step meets `K`. -/
inductive Reach (step : σ → α → Option σ) (K : σ → α → Prop) (s₀ : σ) : σ → Prop
  | init : Reach step K s₀ s₀
  | next {s s' : σ} {a : α} (h : Reach step K s₀ s) (hK : K s a)
      (hs : step s a = some s') : Reach step K s₀ s'

namespace Reach

variable {step : σ → α → Option σ} {K K' : σ → α → Prop} {s₀ s : σ}

/-- **The invariant rule.** -/
theorem induct {I : σ → Prop} (h0 : I s₀)
    (hstep : ∀ {s s' : σ} {a : α}, Reach step K s₀ s → I s → K s a → step s a = some s' → I s')
    (h : Reach step K s₀ s) : I s := by
  induction h with
  | init => exact h0
  | next h hK hs ih => exact hstep h ih hK hs

/-- Runs under a condition are runs under every weaker one. -/
lemma mono (hKK : ∀ s a, K s a → K' s a) (h : Reach step K s₀ s) : Reach step K' s₀ s := by
  induction h with
  | init => exact .init
  | next _ hK hs ih => exact .next ih (hKK _ _ hK) hs

end Reach

/-- Evaluate a run given by its labels; `none` if a label is not possible or
its step does not meet `K`. -/
def runChecked (step : σ → α → Option σ) (K : σ → α → Prop)
    [∀ s a, Decidable (K s a)] : σ → List α → Option σ
  | s, [] => some s
  | s, a :: as =>
    if K s a then
      match step s a with
      | none => none
      | some s' => runChecked step K s' as
    else none

section

variable {step : σ → α → Option σ} {K : σ → α → Prop} [∀ s a, Decidable (K s a)]

private lemma Reach.extend {s₀ s : σ} {as : List α} {s' : σ}
    (h : Reach step K s₀ s) (hr : runChecked step K s as = some s') : Reach step K s₀ s' := by
  induction as generalizing s with
  | nil =>
    rw [runChecked, Option.some.injEq] at hr
    exact hr ▸ h
  | cons a as ih =>
    rw [runChecked] at hr
    split at hr
    · next hK =>
      cases hs : step s a with
      | none => simp [hs] at hr
      | some t =>
        rw [hs] at hr
        exact ih (.next h hK hs) hr
    · exact absurd hr (by simp)

lemma Reach.of_runChecked {s₀ s : σ} {as : List α} (hr : runChecked step K s₀ as = some s) :
    Reach step K s₀ s :=
  Reach.extend .init hr

/-- A run that is evaluated, and what is then seen of the state. -/
lemma Reach.of_eval {s₀ : σ} (as : List α) {P : σ → Prop} [DecidablePred P]
    (h : (runChecked step K s₀ as).map (fun s => decide (P s)) = some true) : ∃ s, Reach step K s₀ s ∧ P s := by
  obtain ⟨s, hRun, hTrue⟩ := Option.map_eq_some_iff.mp h
  exact ⟨s, .of_runChecked hRun, of_decide_eq_true hTrue⟩

end

end RedGeo.Lib
