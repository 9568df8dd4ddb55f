import Mathlib.Data.List.Basic
import Mathlib.Tactic.IntervalCases

/-!
# Base64

Three bytes are written as four characters, and the last group is filled up
with `=`.  A decoder that makes three bytes of every four characters gives back
what was encoded and the zeros that the filling stands for.  It takes off the
blanks in front, and blanks, line ends and hyphens at the end.
-/

namespace Cix.Lib.Base64

open List

def symbol (value : Nat) : UInt8 :=
  if value < 26 then UInt8.ofNat (65 + value)
  else if value < 52 then UInt8.ofNat (71 + value)
  else if value < 62 then UInt8.ofNat (value - 4)
  else if value = 62 then 43
  else 47

def filler : UInt8 := 61

def symbolValue (c : UInt8) : Option Nat :=
  let n := c.toNat
  if 65 ≤ n ∧ n ≤ 90 then some (n - 65)
  else if 97 ≤ n ∧ n ≤ 122 then some (n - 71)
  else if 48 ≤ n ∧ n ≤ 57 then some (n + 4)
  else if n = 43 then some 62
  else if n = 47 then some 63
  else if c = filler then some 0
  else none

theorem symbolValue_symbol {value : Nat} (small : value < 64) :
    symbolValue (symbol value) = some value := by
  interval_cases value <;> rfl

theorem symbol_ne_filler {value : Nat} (small : value < 64) : symbol value ≠ filler := by
  interval_cases value <;> decide

def IsText (c : UInt8) : Prop := (symbolValue c).isSome = true

theorem isText_symbol {value : Nat} (small : value < 64) : IsText (symbol value) := by
  rw [IsText, symbolValue_symbol small]
  rfl

theorem isText_filler : IsText filler := rfl

def encodeGroup (bits : Nat) : List UInt8 :=
  [symbol (bits / 262144), symbol (bits / 4096 % 64), symbol (bits / 64 % 64), symbol (bits % 64)]

def encodeBlock : List UInt8 → List UInt8
  | a :: b :: c :: rest =>
    encodeGroup (a.toNat * 65536 + b.toNat * 256 + c.toNat) ++ encodeBlock rest
  | [a, b] => (encodeGroup (a.toNat * 65536 + b.toNat * 256)).take 3 ++ [filler]
  | [a] => (encodeGroup (a.toNat * 65536)).take 2 ++ [filler, filler]
  | [] => []

/-- How many fillers stand at the end of the text of `n` bytes. -/
def fillers (n : Nat) : Nat := (3 - n % 3) % 3

def fillersAtEnd (text : List UInt8) : Nat :=
  (if text.getLast? = some filler then 1 else 0) +
    (if text.dropLast.getLast? = some filler then 1 else 0)

def groupBytes (bits : Nat) : List UInt8 :=
  [UInt8.ofNat (bits / 65536), UInt8.ofNat (bits / 256 % 256), UInt8.ofNat (bits % 256)]

def decodeGroups : List UInt8 → Option (List UInt8)
  | a :: b :: c :: d :: rest => do
      let a ← symbolValue a
      let b ← symbolValue b
      let c ← symbolValue c
      let d ← symbolValue d
      let more ← decodeGroups rest
      some (groupBytes (a * 262144 + b * 4096 + c * 64 + d) ++ more)
  | [] => some []
  | _ => none

def isBlank (c : UInt8) : Bool := c = 32 || c = 9

def isTrailing (c : UInt8) : Bool :=
  isBlank c || c = 10 || c = 13 || c = 45

def stripTrailing (text : List UInt8) : List UInt8 :=
  let kept := (text.reverse.dropWhile isTrailing).reverse
  text.take (max kept.length (min 3 text.length))

def decodeBlock (text : List UInt8) : Option (List UInt8) :=
  decodeGroups (stripTrailing (text.dropWhile isBlank))

theorem length_encodeBlock (bytes : List UInt8) :
    (encodeBlock bytes).length = (bytes.length + 2) / 3 * 4 := by
  induction bytes using encodeBlock.induct with
  | case1 a b c rest ih =>
    rw [encodeBlock, length_append, ih]
    simp only [encodeGroup, length_cons, length_nil]
    omega
  | case2 a b => simp [encodeBlock, encodeGroup]
  | case3 a => simp [encodeBlock, encodeGroup]
  | case4 => rfl

theorem encodeGroup_all {property : UInt8 → Prop} {bits : Nat} (small : bits < 16777216)
    (holds : ∀ value, value < 64 → property (symbol value)) :
    ∀ c ∈ encodeGroup bits, property c := by
  intro c mem
  simp only [encodeGroup, mem_cons, not_mem_nil, or_false] at mem
  rcases mem with rfl | rfl | rfl | rfl
  · exact holds _ (by omega)
  · exact holds _ (by omega)
  · exact holds _ (by omega)
  · exact holds _ (by omega)

theorem bits_lt (a b c : UInt8) : a.toNat * 65536 + b.toNat * 256 + c.toNat < 16777216 := by
  have := a.toNat_lt
  have := b.toNat_lt
  have := c.toNat_lt
  omega

theorem bits_two (a b : UInt8) : a.toNat * 65536 + b.toNat * 256 + (0 : UInt8).toNat =
      a.toNat * 65536 + b.toNat * 256 := by
  rw [UInt8.toNat_zero, Nat.add_zero]

theorem bits_one (a : UInt8) :
    a.toNat * 65536 + (0 : UInt8).toNat * 256 + (0 : UInt8).toNat = a.toNat * 65536 := by
  rw [UInt8.toNat_zero]
  omega

theorem isText_of_mem_encodeBlock {bytes : List UInt8} {c : UInt8}
    (mem : c ∈ encodeBlock bytes) : IsText c := by
  have group : ∀ a b c : UInt8, ∀ d ∈ encodeGroup
      (a.toNat * 65536 + b.toNat * 256 + c.toNat), IsText d := by
    intro a b c
    exact @encodeGroup_all IsText _ (bits_lt a b c) fun _ small => isText_symbol small
  induction bytes using encodeBlock.induct with
  | case1 a b d rest ih =>
    rw [encodeBlock, mem_append] at mem
    rcases mem with first | later
    · exact group a b d c first
    · exact ih later
  | case2 a b =>
    rw [encodeBlock, mem_append, mem_singleton] at mem
    rcases mem with first | rfl
    · have two := group a b 0 c
      rw [bits_two] at two
      exact two (mem_of_mem_take first)
    · exact isText_filler
  | case3 a =>
    rw [encodeBlock, mem_append] at mem
    rcases mem with first | last
    · have one := group a 0 0 c
      rw [bits_one] at one
      exact one (mem_of_mem_take first)
    · have isFiller : c = filler := by simpa using last
      rw [isFiller]
      exact isText_filler
  | case4 => cases mem

theorem decodeGroups_cons {a b c d : UInt8} {w x y z : Nat}
    (aValue : symbolValue a = some w) (bValue : symbolValue b = some x)
    (cValue : symbolValue c = some y) (dValue : symbolValue d = some z)
    (rest : List UInt8) :
    decodeGroups (a :: b :: c :: d :: rest) = (decodeGroups rest).map fun more =>
        groupBytes (w * 262144 + x * 4096 + y * 64 + z) ++ more := by
  rw [decodeGroups, aValue, bValue, cValue, dValue]
  cases decodeGroups rest <;> rfl

theorem groupBytes_bits (a b c : UInt8) :
    groupBytes (a.toNat * 65536 + b.toNat * 256 + c.toNat) = [a, b, c] := by
  have aSmall := a.toNat_lt
  have bSmall := b.toNat_lt
  have cSmall := c.toNat_lt
  have first : (a.toNat * 65536 + b.toNat * 256 + c.toNat) / 65536 =
      a.toNat := by omega
  have second : (a.toNat * 65536 + b.toNat * 256 + c.toNat) / 256 % 256 =
      b.toNat := by omega
  have third : (a.toNat * 65536 + b.toNat * 256 + c.toNat) % 256 =
      c.toNat := by omega
  rw [groupBytes, first, second, third, UInt8.ofNat_toNat, UInt8.ofNat_toNat, UInt8.ofNat_toNat]

theorem decodeGroups_group (a b c : UInt8) {third fourth : UInt8} (rest : List UInt8)
    (thirdValue : symbolValue third = some ((a.toNat * 65536 + b.toNat * 256 + c.toNat) / 64 % 64))
    (fourthValue : symbolValue fourth = some ((a.toNat * 65536 + b.toNat * 256 + c.toNat) % 64)) :
    decodeGroups ((encodeGroup (a.toNat * 65536 + b.toNat * 256 + c.toNat)).take 2 ++
          third :: fourth :: rest) =
      (decodeGroups rest).map fun more => a :: b :: c :: more := by
  have bytes := groupBytes_bits a b c
  have small := bits_lt a b c
  revert bytes small thirdValue fourthValue
  generalize a.toNat * 65536 + b.toNat * 256 + c.toNat = bits
  intro thirdValue fourthValue bytes small
  have decoded := decodeGroups_cons (symbolValue_symbol (show bits / 262144 < 64 by omega))
    (symbolValue_symbol (show bits / 4096 % 64 < 64 by omega))
    thirdValue fourthValue rest
  have whole : bits / 262144 * 262144 + bits / 4096 % 64 * 4096 +
      bits / 64 % 64 * 64 + bits % 64 = bits := by omega
  rw [whole, bytes] at decoded
  exact decoded

theorem decodeGroups_encodeBlock (bytes : List UInt8) : decodeGroups (encodeBlock bytes) =
      some (bytes ++ List.replicate (fillers bytes.length) 0) := by
  induction bytes using encodeBlock.induct with
  | case1 a b c rest ih =>
    have step := decodeGroups_group a b c (encodeBlock rest)
      (symbolValue_symbol (Nat.mod_lt _ (by decide)))
      (symbolValue_symbol (Nat.mod_lt _ (by decide)))
    have sizes : fillers (a :: b :: c :: rest).length = fillers rest.length := by
      simp only [fillers, length_cons]
      omega
    rw [ih] at step
    rw [encodeBlock, sizes]
    exact step
  | case2 a b =>
    have group := @decodeGroups_group a b 0
      (symbol ((a.toNat * 65536 + b.toNat * 256) / 64 % 64)) filler []
    rw [bits_two] at group
    have low : (a.toNat * 65536 + b.toNat * 256) % 64 = 0 := by omega
    exact group (symbolValue_symbol (Nat.mod_lt _ (by decide))) (by rw [low]; rfl)
  | case3 a =>
    have group := @decodeGroups_group a 0 0 filler filler []
    rw [bits_one] at group
    have high : a.toNat * 65536 / 64 % 64 = 0 := by omega
    have low : a.toNat * 65536 % 64 = 0 := by omega
    exact group (by rw [high]; rfl) (by rw [low]; rfl)
  | case4 => rfl

theorem fillersAtEnd_append {first text : List UInt8} (long : 2 ≤ text.length) :
    fillersAtEnd (first ++ text) = fillersAtEnd text := by
  have nonempty : text ≠ [] := by
    rintro rfl
    simp at long
  have more : text.dropLast ≠ [] := by
    intro empty
    have size := congrArg List.length empty
    rw [length_dropLast, length_nil] at size
    omega
  rw [fillersAtEnd, fillersAtEnd, dropLast_append_of_ne_nil nonempty,
    getLast?_append_of_ne_nil _ nonempty,
    getLast?_append_of_ne_nil _ more]

theorem fillersAtEnd_encodeGroup {bits : Nat} (small : bits < 16777216) :
    fillersAtEnd (encodeGroup bits) = 0 := by
  have plain := @encodeGroup_all (· ≠ filler) _ small fun _ below => symbol_ne_filler below
  simp only [encodeGroup, mem_cons, not_mem_nil, or_false, forall_eq_or_imp, forall_eq] at plain
  obtain ⟨_, _, third, fourth⟩ := plain
  simp [fillersAtEnd, encodeGroup, third, fourth]

theorem fillersAtEnd_encodeBlock (bytes : List UInt8) :
    fillersAtEnd (encodeBlock bytes) = fillers bytes.length := by
  induction bytes using encodeBlock.induct with
  | case1 a b c rest ih =>
    have sizes : fillers (a :: b :: c :: rest).length = fillers rest.length := by
      simp only [fillers, length_cons]
      omega
    rw [encodeBlock, sizes]
    cases rest with
    | nil =>
      rw [encodeBlock, append_nil, fillersAtEnd_encodeGroup (bits_lt a b c)]
      rfl
    | cons d rest =>
      have size := length_encodeBlock (d :: rest)
      rw [length_cons] at size
      rw [fillersAtEnd_append (by omega), ih]
  | case2 a b =>
    have small := bits_lt a b 0
    rw [bits_two] at small
    have plain := @encodeGroup_all (· ≠ filler) _ small fun _ below => symbol_ne_filler below
    simp only [encodeGroup, mem_cons, not_mem_nil, or_false, forall_eq_or_imp, forall_eq] at plain
    obtain ⟨_, _, third, _⟩ := plain
    simp [fillersAtEnd, encodeBlock, encodeGroup, third, fillers]
  | case3 a => rfl
  | case4 => rfl

theorem not_isTrailing {c : UInt8} (text : IsText c) :
    isTrailing c = false ∧ isBlank c = false := by
  have other : isTrailing c = false := by
    by_contra trailing
    simp only [Bool.not_eq_false, isTrailing, isBlank, Bool.or_eq_true,
      decide_eq_true_eq] at trailing
    rcases trailing with (((rfl | rfl) | rfl) | rfl) | rfl <;> cases text
  refine ⟨other, ?_⟩
  rw [isTrailing, Bool.or_eq_false_iff, Bool.or_eq_false_iff, Bool.or_eq_false_iff] at other
  exact other.1.1.1

theorem decodeBlock_of_text {text : List UInt8}
    (plain : ∀ c ∈ text, IsText c) : decodeBlock text = decodeGroups text := by
  have front : text.dropWhile isBlank = text := by
    cases text with
    | nil => rfl
    | cons c rest =>
      rw [dropWhile_cons_of_neg]
      rw [(not_isTrailing (plain c mem_cons_self)).2]
      decide
  have behind : stripTrailing text = text := by
    have kept : text.reverse.dropWhile isTrailing = text.reverse := by
      cases isEnd : text.reverse with
      | nil => rfl
      | cons c rest =>
        have mem : c ∈ text := by
          rw [← mem_reverse, isEnd]
          exact mem_cons_self
        rw [dropWhile_cons_of_neg]
        rw [(not_isTrailing (plain c mem)).1]
        decide
    rw [stripTrailing, kept, reverse_reverse, take_of_length_le (Nat.le_max_left _ _)]
  rw [decodeBlock, front, behind]

theorem decodeBlock_encodeBlock (bytes : List UInt8) : decodeBlock (encodeBlock bytes) =
      some (bytes ++ List.replicate (fillers bytes.length) 0) := by
  rw [decodeBlock_of_text fun _ mem => isText_of_mem_encodeBlock mem, decodeGroups_encodeBlock]

end Cix.Lib.Base64
