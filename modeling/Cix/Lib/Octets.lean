import Mathlib.Data.Nat.Digits.Lemmas

/-!
# Numbers as octets

A number as its octets, the highest first, and the loop that reads them into a
64-bit word: it shifts the word and puts the next octet in, so what it has read
is the number modulo `2 ^ 64`.
-/

namespace Cix.Lib

open List

def octetsNumber (octets : List UInt8) : Nat :=
  Nat.ofDigits 256 (octets.reverse.map UInt8.toNat)

def numberOctets (n : Nat) : List UInt8 :=
  ((Nat.digits 256 n).map UInt8.ofNat).reverse

def readWord (octets : List UInt8) : UInt64 :=
  octets.foldl (fun word octet => (word <<< 8) ||| octet.toUInt64) 0

def octetsInteger : List UInt8 → Option Int
  | [] => none
  | octet :: rest =>
    some (octetsNumber (octet :: rest) -
      if octet < 0x80 then 0 else 256 ^ (rest.length + 1))

@[simp]
theorem octetsNumber_nil : octetsNumber [] = 0 := rfl

theorem octetsNumber_snoc (octets : List UInt8) (octet : UInt8) :
    octetsNumber (octets ++ [octet]) = 256 * octetsNumber octets + octet.toNat := by
  rw [octetsNumber, reverse_append, reverse_singleton,
    singleton_append, map_cons, Nat.ofDigits_cons, Nat.add_comm]
  rfl

theorem octetsNumber_append (front back : List UInt8) : octetsNumber (front ++ back) =
      256 ^ back.length * octetsNumber front + octetsNumber back := by
  rw [octetsNumber, reverse_append, map_append,
    Nat.ofDigits_append, length_map, length_reverse, Nat.add_comm]
  rfl

theorem octetsNumber_lt (octets : List UInt8) : octetsNumber octets < 256 ^ octets.length := by
  have below := Nat.ofDigits_lt_base_pow_length (b := 256)
    (l := octets.reverse.map UInt8.toNat) (by decide) (by
      intro digit mem
      obtain ⟨octet, _, rfl⟩ := mem_map.mp mem
      exact octet.toNat_lt)
  simpa [octetsNumber] using below

theorem octetsNumber_eq_zero_iff (octets : List UInt8) :
    octetsNumber octets = 0 ↔ ∀ octet ∈ octets, octet = 0 := by
  induction octets using List.reverseRecOn with
  | nil => simp
  | append_singleton octets octet ih =>
    have zero : octet.toNat = 0 ↔ octet = 0 := by
      rw [← UInt8.toNat_inj]
      rfl
    rw [octetsNumber_snoc, Nat.add_eq_zero_iff, zero, forall_mem_append]
    simp [ih]

theorem octetsInteger_eq_zero_iff (octets : List UInt8) :
    octetsInteger octets = some 0 ↔ octets ≠ [] ∧ octetsNumber octets = 0 := by
  cases octets with
  | nil => simp [octetsInteger]
  | cons octet rest =>
    have below := octetsNumber_lt (octet :: rest)
    rw [length_cons] at below
    dsimp only [octetsInteger]
    rw [Option.some_inj]
    by_cases positive : octet < 0x80
    · rw [if_pos positive, Int.sub_zero, Int.natCast_eq_zero]
      simp
    · have notZero : octetsNumber (octet :: rest) ≠ 0 := by
        intro zero
        have first := (octetsNumber_eq_zero_iff _).mp zero octet mem_cons_self
        rw [first] at positive
        exact positive (by decide)
      have cast : (octetsNumber (octet :: rest) : Int) <
          256 ^ (rest.length + 1) := by exact_mod_cast below
      rw [if_neg positive]
      constructor
      · intro zero
        exact absurd (Int.sub_eq_zero.mp zero) cast.ne
      · rintro ⟨_, zero⟩
        exact absurd zero notZero

theorem octetsNumber_numberOctets (n : Nat) : octetsNumber (numberOctets n) = n := by
  have same : ((Nat.digits 256 n).map UInt8.ofNat).map UInt8.toNat =
      Nat.digits 256 n := by
    rw [map_map]
    conv_rhs => rw [← map_id (Nat.digits 256 n)]
    apply map_congr_left
    intro digit mem
    have small := Nat.digits_lt_base (by decide) mem
    simp [Nat.mod_eq_of_lt small]
  rw [octetsNumber, numberOctets, reverse_reverse, same, Nat.ofDigits_digits]

theorem length_numberOctets_le {n k : Nat} (small : n < 256 ^ k) : (numberOctets n).length ≤ k := by
  rw [numberOctets, length_reverse, length_map]
  exact (Nat.digits_length_le_iff (by decide) n).mpr small

theorem numberOctets_ne_nil {n : Nat} (positive : n ≠ 0) : numberOctets n ≠ [] := by
  simpa [numberOctets, Nat.digits_eq_nil_iff_eq_zero] using positive

theorem toNat_shift_or (word : UInt64) (octet : UInt8) : ((word <<< 8) ||| octet.toUInt64).toNat =
      (256 * word.toNat + octet.toNat) % 2 ^ 64 := by
  have small := octet.toNat_lt
  have wordLt := word.toNat_lt
  rw [UInt64.toNat_or, UInt64.toNat_shiftLeft]
  have shifted : word.toNat <<< ((8 : UInt64).toNat % 64) % 2 ^ 64 =
      (word.toNat % 2 ^ 56) <<< 8 := by
    change word.toNat <<< 8 % 2 ^ 64 = _
    rw [Nat.shiftLeft_eq, Nat.shiftLeft_eq]
    omega
  rw [shifted, UInt8.toNat_toUInt64, ← Nat.shiftLeft_add_eq_or_of_lt small, Nat.shiftLeft_eq]
  omega

theorem readWord_snoc (octets : List UInt8) (octet : UInt8) : readWord (octets ++ [octet]) =
      (readWord octets <<< 8) ||| octet.toUInt64 := by
  rw [readWord, List.foldl_append]
  rfl

theorem toNat_readWord (octets : List UInt8) :
    (readWord octets).toNat = octetsNumber octets % 2 ^ 64 := by
  induction octets using List.reverseRecOn with
  | nil => rfl
  | append_singleton octets octet ih =>
    rw [readWord_snoc, toNat_shift_or, ih, octetsNumber_snoc]
    omega

theorem toNat_readWord_of_short {octets : List UInt8} (short : octets.length ≤ 8) :
    (readWord octets).toNat = octetsNumber octets := by
  have below := octetsNumber_lt octets
  have most : 256 ^ octets.length ≤ 256 ^ 8 := Nat.pow_le_pow_right (by decide) short
  rw [toNat_readWord, Nat.mod_eq_of_lt]
  exact Nat.lt_of_lt_of_le below most

end Cix.Lib
