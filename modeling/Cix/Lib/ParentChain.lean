import Mathlib.Data.List.Basic

/-!
# Chains of parents

Each element has at most one parent.  A walk upwards that is cut off after a
number of steps meets all ancestors if the chain is not longer than that.
-/

namespace Cix.Lib

open List

universe u

variable {α : Type u} (up : α → Option α)

def ancestors : (steps : Nat) → α → List α
  | 0, _ => []
  | steps + 1, a =>
    match up a with
    | none => []
    | some parent => parent :: ancestors steps parent

/-- `above` is an ancestor of `a`, at any distance. -/
def Above (above a : α) : Prop :=
  ∃ steps, above ∈ ancestors up steps a

def Related (a b : α) : Prop :=
  a = b ∨ Above up a b ∨ Above up b a

variable {up}

theorem related_comm {a b : α} : Related up a b ↔ Related up b a := by
  unfold Related
  constructor
  · rintro (same | first | second)
    · exact Or.inl same.symm
    · exact Or.inr (Or.inr first)
    · exact Or.inr (Or.inl second)
  · rintro (same | first | second)
    · exact Or.inl same.symm
    · exact Or.inr (Or.inr first)
    · exact Or.inr (Or.inl second)

theorem ancestors_succ (steps : Nat) (a : α) : ancestors up (steps + 1) a =
      match up a with
      | none => []
      | some parent => parent :: ancestors up steps parent := rfl

theorem ancestors_prefix_le {few many : Nat} (le : few ≤ many) (a : α) :
    ancestors up few a <+: ancestors up many a := by
  induction few generalizing many a with
  | zero => exact nil_prefix
  | succ few ih =>
    obtain ⟨more, rfl⟩ : ∃ more, many = more + 1 := ⟨many - 1, by omega⟩
    rw [ancestors_succ, ancestors_succ]
    cases up a with
    | none => exact nil_prefix
    | some parent => exact (prefix_cons_inj parent).mpr (ih (by omega) parent)

theorem ancestors_of_ended {steps : Nat} {a : α}
    (ended : (ancestors up (steps + 1) a).length ≤ steps) (more : Nat) :
    ancestors up (steps + more) a = ancestors up steps a := by
  induction steps generalizing a with
  | zero =>
    rw [ancestors_succ] at ended
    cases parent : up a with
    | some b =>
      rw [parent] at ended
      simp at ended
    | none =>
      cases more with
      | zero => rfl
      | succ more =>
        rw [Nat.zero_add, ancestors_succ, parent]
        rfl
  | succ steps ih =>
    have shifted : steps + 1 + more = steps + more + 1 := by omega
    rw [shifted, ancestors_succ, ancestors_succ]
    rw [ancestors_succ] at ended
    cases parent : up a with
    | none => rfl
    | some b =>
      rw [parent, length_cons] at ended
      simp only
      rw [ih (by omega)]

theorem above_iff {steps : Nat} {above a : α}
    (ended : (ancestors up (steps + 1) a).length ≤ steps) :
    Above up above a ↔ above ∈ ancestors up steps a := by
  constructor
  · rintro ⟨other, mem⟩
    have longer := (ancestors_prefix_le (Nat.le_add_left other steps) a).subset mem
    rwa [ancestors_of_ended ended] at longer
  · exact fun mem => ⟨steps, mem⟩

end Cix.Lib
