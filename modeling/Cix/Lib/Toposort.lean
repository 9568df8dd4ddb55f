import Mathlib.Data.Finite.Defs
import Mathlib.Data.List.Nodup
import Mathlib.Data.List.Perm.Subperm
import Mathlib.Data.Fintype.EquivFin
import Mathlib.Order.Preorder.Finite
import Mathlib.Logic.Relation

/-!
# Greedy topological order

`greedy` places the numbers below `n` one after the other, each time the first
one not yet placed that is ready given what is placed.  When it succeeds the
result is a permutation in which everything was ready at its place; when it
is stuck and readiness means that all dependencies are placed, the
dependencies have a cycle.
-/

namespace Cix.Lib

open List

variable {order : List Nat}

section Greedy

variable (n : Nat) (ready : List Nat → Nat → Bool)

def nextReady (order : List Nat) : Option Nat :=
  (List.range n).find? fun i => !order.contains i && ready order i

/-- Place `left` more numbers; an error carries what could be placed. -/
def greedy : (left : Nat) → (order : List Nat) → Except (List Nat) (List Nat)
  | 0, order => .ok order
  | left + 1, order =>
    match nextReady n ready order with
    | some i => greedy left (order ++ [i])
    | none => .error order

structure PlacedWell (order : List Nat) : Prop where
  nodup : order.Nodup
  inRange : ∀ i ∈ order, i < n
  atPlace : ∀ before i after, order = before ++ i :: after → ready before i = true

variable {n ready}

theorem PlacedWell.nil : PlacedWell n ready [] where
  nodup := nodup_nil
  inRange := by simp
  atPlace := by simp

theorem nextReady_some {i : Nat} (found : nextReady n ready order = some i) :
    i < n ∧ i ∉ order ∧ ready order i = true := by
  have inRange : i < n := by simpa using mem_of_find?_eq_some found
  have holds := find?_some found
  simp only [Bool.and_eq_true, Bool.not_eq_true', contains_eq_mem, decide_eq_false_iff_not] at holds
  exact ⟨inRange, holds.1, holds.2⟩

theorem nextReady_none (stuck : nextReady n ready order = none) {i : Nat}
    (inRange : i < n) (unplaced : i ∉ order) : ready order i = false := by
  have holds := find?_eq_none.mp stuck i (mem_range.mpr inRange)
  simpa [unplaced] using holds

theorem PlacedWell.snoc {i : Nat} (placed : PlacedWell n ready order)
    (found : nextReady n ready order = some i) :
    PlacedWell n ready (order ++ [i]) := by
  obtain ⟨inRange, fresh, isReady⟩ := nextReady_some found
  refine ⟨?_, ?_, ?_⟩
  · rw [nodup_append]
    refine ⟨placed.nodup, nodup_singleton i, ?_⟩
    intro first mem second last
    rw [mem_singleton.mp last]
    rintro rfl
    exact fresh mem
  · intro j mem
    rcases mem_append.mp mem with earlier | last
    · exact placed.inRange j earlier
    · rw [mem_singleton.mp last]
      exact inRange
  · intro before j after equality
    rcases eq_nil_or_concat after with rfl | ⟨middle, final, rfl⟩
    · obtain ⟨rfl, same⟩ := append_inj' equality rfl
      obtain rfl : i = j := by simpa using same
      exact isReady
    · have shorter : order = before ++ j :: middle := by
        have whole : order ++ [i] = (before ++ j :: middle) ++ [final] := by
          rw [equality]
          simp
        exact (append_inj' whole rfl).1
      exact placed.atPlace before j middle shorter

theorem greedy_ok {left : Nat} {order result : List Nat} (placed : PlacedWell n ready order)
    (success : greedy n ready left order = .ok result) :
    PlacedWell n ready result ∧ result.length = order.length + left := by
  induction left generalizing order with
  | zero =>
    obtain rfl : order = result := by simpa [greedy] using success
    exact ⟨placed, rfl⟩
  | succ left ih =>
    unfold greedy at success
    split at success
    next i found =>
      obtain ⟨well, length⟩ := ih (placed.snoc found) success
      refine ⟨well, ?_⟩
      rw [length, length_append, length_singleton]
      omega
    next => exact absurd success (by simp)

theorem greedy_error {left : Nat} {order result : List Nat} (placed : PlacedWell n ready order)
    (failure : greedy n ready left order = .error result) :
    PlacedWell n ready result ∧ result.length < order.length + left ∧
      nextReady n ready result = none := by
  induction left generalizing order with
  | zero => exact absurd failure (by simp [greedy])
  | succ left ih =>
    unfold greedy at failure
    split at failure
    next i found =>
      obtain ⟨well, length, stuck⟩ := ih (placed.snoc found) failure
      rw [length_append, length_singleton] at length
      exact ⟨well, by omega, stuck⟩
    next stuck =>
      obtain rfl : order = result := Except.error.inj failure
      exact ⟨placed, by omega, stuck⟩

theorem PlacedWell.perm (placed : PlacedWell n ready order)
    (full : order.length = n) : order.Perm (List.range n) := by
  have subset : order ⊆ List.range n := fun i mem =>
    mem_range.mpr (placed.inRange i mem)
  have subperm := placed.nodup.subperm subset
  exact subperm.perm_of_length_le (by rw [length_range, full])

theorem PlacedWell.exists_unplaced (short : order.length < n) : ∃ i < n, i ∉ order := by
  by_contra none
  push Not at none
  have subset : List.range n ⊆ order := fun i mem =>
    none i (mem_range.mp mem)
  have length := (nodup_range.subperm subset).length_le
  rw [length_range] at length
  omega

end Greedy

theorem exists_cycle_of_successor {α : Type*} [Finite α] (relation : α → α → Prop) (members : Set α)
    (nonempty : members.Nonempty)
    (successor : ∀ a ∈ members, ∃ b ∈ members, relation a b) :
    ∃ a, Relation.TransGen relation a a := by
  by_contra acyclic
  push Not at acyclic
  let later : α → α → Prop := fun b a => Relation.TransGen relation a b
  have transitive : IsTrans α later := ⟨fun _ _ _ first second => second.trans first⟩
  have irreflexive : Std.Irrefl later := ⟨acyclic⟩
  have wellFounded : WellFounded later := Finite.wellFounded_of_trans_of_irrefl later
  obtain ⟨least, mem, minimal⟩ := wellFounded.has_min members nonempty
  obtain ⟨next, nextMember, related⟩ := successor least mem
  exact minimal next nextMember (Relation.TransGen.single related)

section Cycle

variable (depends : Nat → Nat → Prop) {n : Nat}
  {ready : List Nat → Nat → Bool}

theorem exists_cycle_of_stuck (readyIff : ∀ order i, ready order i = true ↔
      ∀ k, depends i k → k ∈ order) (inRange : ∀ i k, depends i k → k < n)
    (short : order.length < n) (stuck : nextReady n ready order = none) :
    ∃ i, Relation.TransGen depends i i := by
  obtain ⟨start, startInRange, startUnplaced⟩ := PlacedWell.exists_unplaced short
  have cycle := exists_cycle_of_successor
    (fun a b : Fin n => depends a.val b.val) {a | a.val ∉ order}
    ⟨⟨start, startInRange⟩, startUnplaced⟩ (by
      intro a unplaced
      have notReady := nextReady_none stuck a.isLt unplaced
      have missing : ¬ ∀ k, depends a.val k → k ∈ order := by
        rw [← readyIff, notReady]
        simp
      push Not at missing
      obtain ⟨k, dependsOn, absent⟩ := missing
      exact ⟨⟨k, inRange _ k dependsOn⟩, absent, dependsOn⟩)
  obtain ⟨a, closed⟩ := cycle
  exact ⟨a.val, closed.lift Fin.val fun _ _ step => step⟩

end Cycle

end Cix.Lib
