import Mathlib.Data.List.Induction
import Mathlib.Algebra.Group.Nat.Defs

/-!
# Runs of a deterministic machine

A machine is a step function `step : σ → ι → σ`.  A run is the fold of a list
of inputs, and a property of runs is a property of every state that some
initial segment of the inputs reaches.  The rules below turn a fact about one
step into a fact about every run, with or without a guard that the steps are
assumed to meet.
-/

namespace Cix.Lib

open List

universe u v

section Runs

variable {σ : Type u} {ι : Type v} (step : σ → ι → σ)

/-- The state reached from `state` by the listed inputs. -/
def run (state : σ) (inputs : List ι) : σ :=
  inputs.foldl step state

@[simp]
theorem run_nil (state : σ) : run step state [] = state := rfl

@[simp]
theorem run_cons (state : σ) (input : ι) (rest : List ι) : run step state (input :: rest) =
      run step (step state input) rest := rfl

theorem run_append (state : σ) (first second : List ι) : run step state (first ++ second) =
      run step (run step state first) second := by
  simp [run]

theorem run_snoc (state : σ) (inputs : List ι) (input : ι) :
    run step state (inputs ++ [input]) = step (run step state inputs) input := by
  simp [run]

/-- Every step of the run meets `guard` in the state it is taken from. -/
def Guarded (guard : σ → ι → Prop) (state : σ) (inputs : List ι) : Prop :=
  ∀ before input after, inputs = before ++ input :: after → guard (run step state before) input

/-- `property` holds in every state that the run passes through. -/
def Throughout (property : σ → Prop) (state : σ) (inputs : List ι) : Prop :=
  ∀ before after, inputs = before ++ after → property (run step state before)

variable {step}

variable {inputs : List ι}

variable {guard : σ → ι → Prop}

theorem Guarded.initial {state : σ} {first second : List ι}
    (guarded : Guarded step guard state (first ++ second)) :
    Guarded step guard state first := by
  intro before input after equality
  apply guarded before input (after ++ second)
  simp [equality]

theorem Guarded.later {state : σ} {first second : List ι}
    (guarded : Guarded step guard state (first ++ second)) :
    Guarded step guard (run step state first) second := by
  intro before input after equality
  rw [← run_append]
  apply guarded (first ++ before) input after
  rw [equality, append_assoc]

theorem guarded_nil (guard : σ → ι → Prop) (state : σ) : Guarded step guard state [] := by
  intro before input after equality
  simp at equality

theorem Guarded.cons {guard : σ → ι → Prop} {state : σ} {input : ι}
    {rest : List ι} (first : guard state input)
    (later : Guarded step guard (step state input) rest) :
    Guarded step guard state (input :: rest) := by
  intro before next after equality
  cases before with
  | nil =>
    simp only [nil_append, List.cons.injEq] at equality
    rw [← equality.1]
    exact first
  | cons head tail =>
    simp only [cons_append, List.cons.injEq] at equality
    rw [← equality.1, run_cons]
    exact later tail next after equality.2

theorem Guarded.snoc {state : σ} {input : ι}
    (guarded : Guarded step guard state inputs)
    (last : guard (run step state inputs) input) :
    Guarded step guard state (inputs ++ [input]) := by
  intro before next after equality
  rcases append_eq_append_iff.mp equality with
    ⟨more, isBefore, isEnd⟩ | ⟨more, isInputs, isEnd⟩
  · cases more with
    | nil =>
      simp only [nil_append, List.cons.injEq] at isEnd
      rw [isBefore, append_nil, ← isEnd.1]
      exact last
    | cons head tail => simp at isEnd
  · cases more with
    | nil =>
      simp only [nil_append, List.cons.injEq] at isEnd
      rw [isEnd.1]
      rw [isInputs, append_nil] at last
      exact last
    | cons head tail =>
      simp only [cons_append, List.cons.injEq] at isEnd
      apply guarded before next tail
      rw [isInputs, isEnd.1]

theorem run_invariant (inv : σ → Prop)
    (preserved : ∀ state input, inv state → guard state input → inv (step state input))
    {state : σ} {inputs : List ι}
    (start : inv state) (guarded : Guarded step guard state inputs) :
    inv (run step state inputs) := by
  induction inputs using List.reverseRecOn with
  | nil => exact start
  | append_singleton inputs input ih =>
    rw [run_snoc]
    apply preserved
    · exact ih guarded.initial
    · exact guarded inputs input [] rfl

theorem run_invariant_of_step (inv : σ → Prop)
    (preserved : ∀ state input, inv state → inv (step state input))
    {state : σ} (start : inv state) (inputs : List ι) :
    inv (run step state inputs) := by
  have unguarded : Guarded step (fun _ _ => True) state inputs := fun _ _ _ _ => trivial
  exact run_invariant inv (fun state input holds _ => preserved state input holds) start unguarded

theorem Guarded.throughout (inv : σ → Prop)
    (preserved : ∀ state input, inv state → guard state input →
      inv (step state input)) {state : σ} (start : inv state)
    (guarded : Guarded step guard state inputs) :
    Throughout step inv state inputs := by
  intro before after equality
  subst equality
  exact run_invariant inv preserved start guarded.initial

theorem Throughout.mono {first second : σ → Prop} {state : σ}
    (weaker : ∀ state, first state → second state)
    (holds : Throughout step first state inputs) :
    Throughout step second state inputs :=
  fun before after equality => weaker _ (holds before after equality)

theorem Throughout.last {property : σ → Prop} {state : σ}
    (holds : Throughout step property state inputs) :
    property (run step state inputs) :=
  holds inputs [] (by simp)

theorem Throughout.after_step {property : σ → Prop} {state : σ}
    (holds : Throughout step property state inputs) {before after : List ι}
    {input : ι} (equality : inputs = before ++ input :: after) :
    property (step (run step state before) input) := by
  have atStep := holds (before ++ [input]) after (by simp [equality])
  rwa [run_snoc] at atStep

end Runs

section Loops

variable {σ : Type u}

/-- `for (i = 0; i < n; i++) body(i)` over an explicit state. -/
def forUp (n : Nat) (body : Nat → σ → σ) (state : σ) : σ :=
  (List.range n).foldl (fun current i => body i current) state

/-- `for (i = n - 1; i >= 0; i--) body(i)` over an explicit state. -/
def forDown (n : Nat) (body : Nat → σ → σ) (state : σ) : σ :=
  match n with
  | 0 => state
  | n + 1 => forDown n body (body n state)

@[simp]
theorem forUp_zero (body : Nat → σ → σ) (state : σ) : forUp 0 body state = state := rfl

theorem forUp_succ (n : Nat) (body : Nat → σ → σ) (state : σ) :
    forUp (n + 1) body state = body n (forUp n body state) := by
  simp [forUp, range_succ]

@[simp]
theorem forDown_zero (body : Nat → σ → σ) (state : σ) : forDown 0 body state = state := rfl

theorem forDown_succ (n : Nat) (body : Nat → σ → σ) (state : σ) :
    forDown (n + 1) body state = forDown n body (body n state) := rfl

theorem forUp_invariant (inv : Nat → σ → Prop) {n : Nat} {body : Nat → σ → σ}
    (preserved : ∀ i state, i < n → inv i state → inv (i + 1) (body i state))
    {state : σ} (start : inv 0 state) :
    inv n (forUp n body state) := by
  induction n with
  | zero => exact start
  | succ n ih =>
    rw [forUp_succ]
    apply preserved n _ (Nat.lt_succ_self n)
    apply ih
    intro i state smaller
    exact preserved i state (Nat.lt_succ_of_lt smaller)

theorem forDown_invariant (inv : Nat → σ → Prop) {n : Nat} {body : Nat → σ → σ}
    (preserved : ∀ i state, i < n → inv (i + 1) state → inv i (body i state))
    {state : σ} (start : inv n state) :
    inv 0 (forDown n body state) := by
  induction n generalizing state with
  | zero => exact start
  | succ n ih =>
    rw [forDown_succ]
    apply ih
    · intro i state smaller
      exact preserved i state (Nat.lt_succ_of_lt smaller)
    · exact preserved n state (Nat.lt_succ_self n) start

end Loops

section Fallible

variable {σ : Type u} {α ε : Type v} {body : σ → α → Except ε σ}

end Fallible

end Cix.Lib
