import Mathlib.Data.Nat.Find
import Mathlib.Order.Monotone.Basic

/-!
# An even split

`total` things are shared by `parts` takers, in order: each gets the quotient,
and the first ones get one more as long as the remainder lasts.  The bounds of
the shares are an increasing sequence from nothing to everything, and so the
shares are disjoint and cover all of it.
-/

namespace Cix.Lib.EvenSplit

variable {total parts : Nat}

def offset (total parts i : Nat) : Nat :=
  total / parts * i + min i (total % parts)

def size (total parts i : Nat) : Nat :=
  total / parts + if i < total % parts then 1 else 0

theorem offset_zero (total parts : Nat) : offset total parts 0 = 0 := by
  simp [offset]

theorem offset_succ (total parts i : Nat) : offset total parts (i + 1) =
      offset total parts i + size total parts i := by
  unfold offset size
  rw [Nat.mul_succ]
  split_ifs <;> omega

theorem offset_parts (positive : 0 < parts) : offset total parts parts = total := by
  have remainder := Nat.mod_lt total positive
  have split := Nat.div_add_mod total parts
  unfold offset
  rw [Nat.min_eq_right (Nat.le_of_lt remainder), Nat.mul_comm]
  exact split

theorem offset_mono (total parts : Nat) : Monotone (offset total parts) := by
  apply monotone_nat_of_le_succ
  intro i
  rw [offset_succ]
  exact Nat.le_add_right _ _

theorem size_pos (enough : parts ≤ total) (positive : 0 < parts) (i : Nat) :
    0 < size total parts i := by
  have quotient := Nat.div_pos enough positive
  unfold size
  omega

theorem offset_succ_le {i : Nat} (inside : i < parts) : offset total parts (i + 1) ≤ total := by
  have positive : 0 < parts := by omega
  calc offset total parts (i + 1)
      ≤ offset total parts parts := offset_mono total parts inside
    _ = total := offset_parts positive

theorem offset_succ_eq_iff (enough : parts ≤ total) {i : Nat} (inside : i < parts) :
    offset total parts (i + 1) = total ↔ i + 1 = parts := by
  have positive : 0 < parts := by omega
  refine ⟨?_, ?_⟩
  · intro isTotal
    by_contra notLast
    have before : i + 1 < parts := by omega
    have next := @offset_succ_le total _ _ before
    rw [offset_succ, isTotal] at next
    have grows := size_pos enough positive (i + 1)
    omega
  · intro last
    rw [last, offset_parts positive]

theorem exists_share {x : Nat} (positive : 0 < parts) (inside : x < total) :
    ∃ i < parts, offset total parts i ≤ x ∧ x < offset total parts (i + 1) := by
  have ends : ∃ i, x < offset total parts (i + 1) := by
    refine ⟨parts, Nat.lt_of_lt_of_le inside ?_⟩
    calc total = offset total parts parts := (offset_parts positive).symm
      _ ≤ offset total parts (parts + 1) :=
          offset_mono total parts (Nat.le_succ parts)
  refine ⟨Nat.find ends, ?_, ?_, Nat.find_spec ends⟩
  · by_contra outside
    have last : ¬ x < offset total parts (parts - 1 + 1) := Nat.find_min ends (by omega)
    rw [Nat.sub_add_cancel positive, offset_parts positive] at last
    exact last inside
  · by_contra before
    obtain ⟨i, isFirst⟩ : ∃ i, Nat.find ends = i + 1 := by
      refine Nat.exists_eq_succ_of_ne_zero ?_
      intro isZero
      rw [isZero, offset_zero] at before
      omega
    rw [isFirst] at before
    exact Nat.find_min ends (m := i) (by omega) (by omega)

end Cix.Lib.EvenSplit
