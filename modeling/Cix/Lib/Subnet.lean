import Mathlib.Data.BitVec

/-!
# Address ranges given by a prefix

A range of addresses of `w` bits is a base and the number `p` of leading bits
that its addresses share with it.  The comparison of two bases under the mask
of the shorter prefix decides whether the ranges meet, and the host part of an
address is what the subtraction of the base leaves.
-/

namespace Cix.Lib.Subnet

variable {w : Nat}

variable {p : Nat} {x base host : BitVec w}

/-- The mask of the first `p` bits. -/
def mask (w p : Nat) : BitVec w :=
  BitVec.allOnes w <<< (w - p)

def Contains (base : BitVec w) (p : Nat) (address : BitVec w) : Prop :=
  address &&& mask w p = base

instance (base : BitVec w) (p : Nat) (address : BitVec w) : Decidable (Contains base p address) :=
  inferInstanceAs (Decidable (_ = _))

theorem mask_and_mask {q : Nat} (le : p ≤ q) : mask w q &&& mask w p = mask w p := by
  apply BitVec.eq_of_getLsbD_eq
  intro i inside
  simp only [mask, BitVec.getLsbD_and, BitVec.getLsbD_shiftLeft, BitVec.getLsbD_allOnes]
  grind

theorem masked_eq_of_contains {a b : BitVec w} {q : Nat} (le : p ≤ q)
    (inA : Contains a p x) (inB : Contains b q x) :
    a &&& mask w p = b &&& mask w p := by
  unfold Contains at inA inB
  rw [← inA, ← inB, BitVec.and_assoc, BitVec.and_self, BitVec.and_assoc, mask_and_mask le]

def Overlap (a : BitVec w) (p : Nat) (b : BitVec w) (q : Nat) : Prop :=
  a &&& mask w (min p q) = b &&& mask w (min p q)

instance (a : BitVec w) (p : Nat) (b : BitVec w) (q : Nat) : Decidable (Overlap a p b q) :=
  inferInstanceAs (Decidable (_ = _))

theorem overlap_of_contains {a b : BitVec w} {q : Nat} (inA : Contains a p x)
    (inB : Contains b q x) : Overlap a p b q := by
  unfold Overlap
  rcases Nat.le_total p q with le | le
  · rw [Nat.min_eq_left le]
    exact masked_eq_of_contains le inA inB
  · rw [Nat.min_eq_right le]
    exact (masked_eq_of_contains le inB inA).symm

theorem and_mask (a : BitVec w) (p : Nat) : a &&& mask w p = (a >>> (w - p)) <<< (w - p) := by
  apply BitVec.eq_of_getLsbD_eq
  intro i inside
  simp only [mask, BitVec.getLsbD_and, BitVec.getLsbD_shiftLeft,
    BitVec.getLsbD_allOnes, BitVec.getLsbD_ushiftRight]
  grind

theorem toNat_and_mask (a : BitVec w) (p : Nat) :
    (a &&& mask w p).toNat = a.toNat / 2 ^ (w - p) * 2 ^ (w - p) := by
  rw [and_mask, BitVec.toNat_shiftLeft, BitVec.toNat_ushiftRight,
    Nat.shiftLeft_eq, Nat.shiftRight_eq_div_pow]
  apply Nat.mod_eq_of_lt
  exact Nat.lt_of_le_of_lt (Nat.div_mul_le_self _ _) a.isLt

theorem toNat_sub_of_contains (inside : Contains base p x) :
    (x - base).toNat = x.toNat % 2 ^ (w - p) := by
  unfold Contains at inside
  have value := toNat_and_mask x p
  rw [inside] at value
  have le : base ≤ x := by
    rw [BitVec.le_def, value]
    exact Nat.div_mul_le_self _ _
  rw [BitVec.toNat_sub_of_le le, value]
  have split := Nat.div_add_mod x.toNat (2 ^ (w - p))
  rw [Nat.mul_comm] at split
  omega

theorem toNat_sub_lt_of_contains (inside : Contains base p x) : (x - base).toNat < 2 ^ (w - p) := by
  rw [toNat_sub_of_contains inside]
  exact Nat.mod_lt _ (Nat.two_pow_pos _)

theorem and_mask_of_lt (small : host.toNat < 2 ^ (w - p)) : host &&& mask w p = 0#w := by
  apply BitVec.eq_of_toNat_eq
  rw [toNat_and_mask, Nat.div_eq_of_lt small, Nat.zero_mul, BitVec.toNat_ofNat, Nat.zero_mod]

theorem contains_or (aligned : base &&& mask w p = base)
    (small : host.toNat < 2 ^ (w - p)) : Contains base p (base ||| host) := by
  unfold Contains
  rw [BitVec.and_comm, BitVec.and_or_distrib_left, BitVec.and_comm, aligned,
    BitVec.and_comm, and_mask_of_lt small, BitVec.or_zero]

theorem and_of_lt (aligned : base &&& mask w p = base)
    (small : host.toNat < 2 ^ (w - p)) : base &&& host = 0#w := by
  rw [← aligned, BitVec.and_assoc, BitVec.and_comm (mask w p) host,
    and_mask_of_lt small, BitVec.and_zero]

theorem or_sub (aligned : base &&& mask w p = base)
    (small : host.toNat < 2 ^ (w - p)) : (base ||| host) - base = host := by
  rw [← BitVec.add_eq_or_of_and_eq_zero base host (and_of_lt aligned small),
    BitVec.add_comm base host, BitVec.add_sub_cancel]

theorem or_sub_of_contains (aligned : base &&& mask w p = base)
    (inside : Contains base p x) : base ||| (x - base) = x := by
  have apart := and_of_lt aligned (toNat_sub_lt_of_contains inside)
  rw [← BitVec.add_eq_or_of_and_eq_zero base (x - base) apart,
    BitVec.add_comm base, BitVec.sub_add_cancel]

end Cix.Lib.Subnet
