import Cix.Lib.CString
import Mathlib.Data.Prod.Lex
import Mathlib.Data.List.Lex
import Mathlib.Order.Lattice

/-!
# The order of versions

`pkg_version_cmp` compares runs of digits as numbers and all other bytes as
bytes.  It orders the texts as their sequences of tokens are ordered, so that
a strictly older version of a strictly older version is strictly older.
-/

namespace Cix.Pkg

open Cix.Lib List

/-- `isdigit` in the C locale. -/
def isDigit (c : UInt8) : Bool :=
  decide (48 ≤ c) && decide (c ≤ 57)

/-- A `long` accumulates one more digit.  A run of more than 18 digits can
exceed it; the number then wraps. -/
def addDigit (value : Int) (c : UInt8) : Int :=
  (value * 10 + (c.toNat - 48 : Int)).bmod (2 ^ 64)

def digitRun (value : Int) : List UInt8 → Int × List UInt8
  | [] => (value, [])
  | c :: rest =>
    if isDigit c then digitRun (addDigit value c) rest
    else (value, c :: rest)

/-- The loop of `pkg_version_cmp`, which consumes a byte of the first text in
each round. -/
def versionCmpFrom : Nat → List UInt8 → List UInt8 → Ordering
  | _, [], [] => .eq
  | _, [], _ :: _ => .lt
  | _, _ :: _, [] => .gt
  | 0, _ :: _, _ :: _ => .eq
  | rounds + 1, a :: as, b :: bs =>
    if isDigit a && isDigit b then
      let first := digitRun 0 (a :: as)
      let second := digitRun 0 (b :: bs)
      if first.1 ≠ second.1 then
        if first.1 < second.1 then .lt else .gt
      else versionCmpFrom rounds first.2 second.2
    else if a ≠ b then
      if a < b then .lt else .gt
    else versionCmpFrom rounds as bs

def pkgVersionCmp (a b : CStr) : Ordering :=
  versionCmpFrom a.length a.bytes b.bytes

variable {c : UInt8}

abbrev Token :=
  Lex (Nat × Int)

def numberToken (n : Int) : Token :=
  toLex (1, n)

def byteToken (c : UInt8) : Token :=
  toLex (if c < 48 then 0 else 2, c.toNat)

/-- The tokens of a text, after the digits that make `pending`. -/
def tokensFrom : Option Int → List UInt8 → List Token
  | none, [] => []
  | some n, [] => [numberToken n]
  | none, c :: rest =>
    if isDigit c then tokensFrom (some (addDigit 0 c)) rest
    else byteToken c :: tokensFrom none rest
  | some n, c :: rest =>
    if isDigit c then tokensFrom (some (addDigit n c)) rest
    else numberToken n :: byteToken c :: tokensFrom none rest

theorem tokensFrom_some (n : Int) (text : List UInt8) : tokensFrom (some n) text =
      numberToken (digitRun n text).1 :: tokensFrom none (digitRun n text).2 := by
  induction text generalizing n with
  | nil => rfl
  | cons c rest ih =>
    by_cases digit : isDigit c = true
    · rw [tokensFrom, if_pos digit, digitRun, if_pos digit]
      exact ih (addDigit n c)
    · rw [tokensFrom, if_neg digit, digitRun, if_neg digit, tokensFrom, if_neg digit]

theorem tokensFrom_digit {rest : List UInt8} (digit : isDigit c = true) :
    tokensFrom none (c :: rest) = numberToken (digitRun 0 (c :: rest)).1 ::
        tokensFrom none (digitRun 0 (c :: rest)).2 := by
  rw [tokensFrom, if_pos digit, digitRun, if_pos digit]
  exact tokensFrom_some (addDigit 0 c) rest

theorem length_digitRun (n : Int) (text : List UInt8) :
    (digitRun n text).2.length ≤ text.length := by
  induction text generalizing n with
  | nil => exact le_refl _
  | cons c rest ih =>
    rw [digitRun]
    split_ifs
    · exact le_trans (ih _) (Nat.le_succ _)
    · exact le_refl _

theorem length_digitRun_lt {n : Int} {rest : List UInt8} (digit : isDigit c = true) :
    (digitRun n (c :: rest)).2.length ≤ rest.length := by
  rw [digitRun, if_pos digit]
  exact length_digitRun _ _

theorem numberToken_lt {m n : Int} : numberToken m < numberToken n ↔ m < n := by
  simp [numberToken, Prod.Lex.toLex_lt_toLex]

theorem numberToken_inj {m n : Int} : numberToken m = numberToken n ↔ m = n := by
  simp [numberToken]

theorem isDigit_iff : isDigit c = true ↔ 48 ≤ c.toNat ∧ c.toNat ≤ 57 := by
  simp [isDigit, UInt8.le_iff_toNat_le]

theorem byteToken_of_lt (small : c.toNat < 48) : byteToken c = toLex (0, (c.toNat : Int)) := by
  rw [byteToken, if_pos (UInt8.lt_iff_toNat_lt.mpr small)]

theorem byteToken_of_le (large : 48 ≤ c.toNat) : byteToken c = toLex (2, (c.toNat : Int)) := by
  have notSmall : ¬ c < 48 := by
    rw [UInt8.lt_iff_toNat_lt]
    exact Nat.not_lt.mpr large
  rw [byteToken, if_neg notSmall]

theorem byteToken_lt_numberToken {n : Int} (byte : isDigit c = false) :
    (byteToken c < numberToken n ↔ c.toNat < 48) ∧
      (numberToken n < byteToken c ↔ 57 < c.toNat) := by
  have outside : ¬ (48 ≤ c.toNat ∧ c.toNat ≤ 57) := by
    rw [← isDigit_iff, byte]
    simp
  by_cases small : c.toNat < 48
  · rw [byteToken_of_lt small, numberToken]
    simp only [Prod.Lex.toLex_lt_toLex]
    constructor <;> simp <;> omega
  · rw [byteToken_of_le (Nat.not_lt.mp small), numberToken]
    simp only [Prod.Lex.toLex_lt_toLex]
    constructor <;> simp <;> omega

theorem byteToken_lt {a b : UInt8} (aByte : isDigit a = false) (bByte : isDigit b = false) :
    byteToken a < byteToken b ↔ a.toNat < b.toNat := by
  have aOutside : ¬ (48 ≤ a.toNat ∧ a.toNat ≤ 57) := by
    rw [← isDigit_iff, aByte]
    simp
  have bOutside : ¬ (48 ≤ b.toNat ∧ b.toNat ≤ 57) := by
    rw [← isDigit_iff, bByte]
    simp
  by_cases aSmall : a.toNat < 48
  · by_cases bSmall : b.toNat < 48
    · rw [byteToken_of_lt aSmall, byteToken_of_lt bSmall]
      simp [Prod.Lex.toLex_lt_toLex]
    · rw [byteToken_of_lt aSmall, byteToken_of_le (Nat.not_lt.mp bSmall)]
      simp [Prod.Lex.toLex_lt_toLex]
      omega
  · by_cases bSmall : b.toNat < 48
    · rw [byteToken_of_le (Nat.not_lt.mp aSmall), byteToken_of_lt bSmall]
      simp [Prod.Lex.toLex_lt_toLex]
      omega
    · rw [byteToken_of_le (Nat.not_lt.mp aSmall), byteToken_of_le (Nat.not_lt.mp bSmall)]
      simp [Prod.Lex.toLex_lt_toLex]

theorem byteToken_inj {a b : UInt8} : byteToken a = byteToken b ↔ a = b := by
  constructor
  · intro same
    have number : (a.toNat : Int) = b.toNat :=
      congrArg (fun token : Token => (ofLex token).2) same
    exact UInt8.toNat_inj.mp (by exact_mod_cast number)
  · intro same
    rw [same]

theorem byteToken_ne_numberToken {n : Int} : byteToken c ≠ numberToken n := by
  intro same
  have rank : (if c < 48 then 0 else 2) = 1 :=
    congrArg (fun token : Token => (ofLex token).1) same
  split_ifs at rank
  cases rank

theorem headToken_lt {a b : UInt8} {as bs : List UInt8}
    (mixed : ¬ (isDigit a && isDigit b) = true) (different : a ≠ b) :
    tokensFrom none (a :: as) < tokensFrom none (b :: bs) ↔ a < b := by
  have distinct : a.toNat ≠ b.toNat := fun same =>
    different (UInt8.toNat_inj.mp same)
  rw [UInt8.lt_iff_toNat_lt]
  cases aDigit : isDigit a with
  | true =>
    have bByte : isDigit b = false := by simpa [aDigit] using mixed
    have inside := isDigit_iff.mp aDigit
    have outside : ¬ (48 ≤ b.toNat ∧ b.toNat ≤ 57) := by
      rw [← isDigit_iff, bByte]
      simp
    rw [tokensFrom_digit aDigit, tokensFrom, if_neg (by simp [bByte]),
      cons_lt_cons_iff, (byteToken_lt_numberToken bByte).2]
    constructor
    · rintro (after | ⟨same, _⟩)
      · omega
      · exact absurd same.symm byteToken_ne_numberToken
    · intro less
      exact Or.inl (by omega)
  | false =>
    rw [tokensFrom, if_neg (by simp [aDigit])]
    cases bDigit : isDigit b with
    | true =>
      have inside := isDigit_iff.mp bDigit
      have outside : ¬ (48 ≤ a.toNat ∧ a.toNat ≤ 57) := by
        rw [← isDigit_iff, aDigit]
        simp
      rw [tokensFrom_digit bDigit, cons_lt_cons_iff, (byteToken_lt_numberToken aDigit).1]
      constructor
      · rintro (before | ⟨same, _⟩)
        · omega
        · exact absurd same byteToken_ne_numberToken
      · intro less
        exact Or.inl (by omega)
    | false =>
      rw [tokensFrom, if_neg (by simp [bDigit]), cons_lt_cons_iff,
        byteToken_lt aDigit bDigit, byteToken_inj]
      constructor
      · rintro (less | ⟨same, _⟩)
        · exact less
        · exact absurd same different
      · exact Or.inl

theorem versionCmpFrom_spec {rounds : Nat} {a b : List UInt8} (enough : a.length ≤ rounds) :
    (versionCmpFrom rounds a b = .lt ↔ tokensFrom none a < tokensFrom none b) ∧
      (versionCmpFrom rounds a b = .gt ↔ tokensFrom none b < tokensFrom none a) := by
  have nonempty : ∀ c rest, [] < tokensFrom none (c :: rest) := by
    intro c rest
    rw [tokensFrom]
    split_ifs
    · rw [tokensFrom_some]
      exact nil_lt_cons _ _
    · exact nil_lt_cons _ _
  have nilCons : ∀ rounds b bs, (versionCmpFrom rounds [] (b :: bs) = .lt ↔
      tokensFrom none [] < tokensFrom none (b :: bs)) ∧
      (versionCmpFrom rounds [] (b :: bs) = .gt ↔
        tokensFrom none (b :: bs) < tokensFrom none []) := by
    intro rounds b bs
    have first := nonempty b bs
    refine ⟨⟨fun _ => first, fun _ => ?_⟩, fun h => ?_, fun h => absurd h (lt_asymm first)⟩
    · cases rounds <;> rfl
    · cases rounds <;> cases h
  induction rounds generalizing a b with
  | zero =>
    cases length_eq_zero_iff.mp (Nat.le_zero.mp enough)
    cases b with
    | nil => simp [versionCmpFrom, tokensFrom]
    | cons b bs => exact nilCons 0 b bs
  | succ rounds ih =>
    cases a with
    | nil =>
      cases b with
      | nil => simp [versionCmpFrom, tokensFrom]
      | cons b bs => exact nilCons (rounds + 1) b bs
    | cons a as =>
      cases b with
      | nil =>
        have first := nonempty a as
        exact ⟨⟨fun h => (by cases h), fun h => absurd h (lt_asymm first)⟩,
          fun _ => first, fun _ => rfl⟩
      | cons b bs =>
        have shorter : as.length ≤ rounds := by simpa using enough
        rw [versionCmpFrom]
        by_cases digits : (isDigit a && isDigit b) = true
        · rw [if_pos digits]
          rw [Bool.and_eq_true] at digits
          have rest := ih (b := (digitRun 0 (b :: bs)).2)
            (le_trans (length_digitRun_lt (n := 0) digits.1) shorter)
          rw [tokensFrom_digit digits.1, tokensFrom_digit digits.2, cons_lt_cons_iff,
            cons_lt_cons_iff, numberToken_lt, numberToken_lt, numberToken_inj,
            numberToken_inj]
          rcases lt_trichotomy (digitRun 0 (a :: as)).1 (digitRun 0 (b :: bs)).1 with
            less | same | more
          · simp [less, less.ne, less.ne', less.le]
          · simp [same, rest]
          · simp [more, more.ne, more.ne', more.le]
        · rw [if_neg digits]
          by_cases different : a ≠ b
          · have swapped : ¬ (isDigit b && isDigit a) = true := by rwa [Bool.and_comm]
            rw [if_pos different, headToken_lt digits different,
              headToken_lt swapped different.symm]
            rcases UInt8.lt_or_lt_of_ne different with less | more
            · simp [less, UInt8.lt_asymm less]
            · simp [more, UInt8.lt_asymm more]
          · rw [if_neg different]
            push Not at different
            subst different
            have byte : ¬ isDigit a = true := by simpa using digits
            have rest := ih (b := bs) shorter
            rw [tokensFrom, if_neg byte, tokensFrom, if_neg byte, cons_lt_cons_iff,
              cons_lt_cons_iff]
            simpa using rest

theorem pkgVersionCmp_lt {a b : CStr} : pkgVersionCmp a b = .lt ↔
      tokensFrom none a.bytes < tokensFrom none b.bytes :=
  (versionCmpFrom_spec (le_refl _)).1

theorem pkgVersionCmp_gt {a b : CStr} : pkgVersionCmp a b = .gt ↔
      tokensFrom none b.bytes < tokensFrom none a.bytes :=
  (versionCmpFrom_spec (le_refl _)).2

example : pkgVersionCmp (CStr.ofString "1.3.2-9") (CStr.ofString "1.3.2-10") = .lt := by
  decide

end Cix.Pkg
