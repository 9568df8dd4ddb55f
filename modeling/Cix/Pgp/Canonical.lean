import Cix.Lib.Lines
import Mathlib.Algebra.BigOperators.Ring.List
import Mathlib.Algebra.Order.BigOperators.Group.List
import Mathlib.Algebra.Order.Ring.Nat
import Mathlib.Data.List.DropRight

/-!
# The signed text in canonical form

The signature of a clearsigned document is over its text with the dash escapes
and the blanks at the ends of its lines removed, and with CRLF between the
lines.  `canonicalise` of `daemon/src/pgpverify.c` removes the blanks of a line
before it looks for the dash escape.
-/

namespace Cix.Pgp

open Cix.Lib List

def content (line : List UInt8) : List UInt8 :=
  if line.getLast? = some 13 then line.dropLast else line

def isBlank (c : UInt8) : Bool :=
  c = 32 || c = 9

def trimmed (line : List UInt8) : List UInt8 :=
  line.rdropWhile isBlank

def unescaped : List UInt8 → List UInt8
  | 45 :: 32 :: rest => rest
  | line => line

/-- The canonical form of a line: the escape is no part of it, and of what it
stands for the blanks at the end are not signed. -/
def canonicalLine (line : List UInt8) : List UInt8 :=
  trimmed (unescaped (content line))

def canonicalText (text : List UInt8) : List UInt8 :=
  [13, 10].intercalate ((lines 10 text).map canonicalLine)

def copied (line : List UInt8) : List UInt8 :=
  unescaped (trimmed (content line))

/-- The loop of `canonicalise`, which has written `buf`. -/
def canonicaliseFrom (cap : Nat) (first : Bool) (buf : List UInt8) :
    List (List UInt8) → Option (List UInt8)
  | [] => some buf
  | line :: rest =>
    if !first && cap < buf.length + 2 then none
    else
      let buf := if first then buf else buf ++ [13, 10]
      if cap < buf.length + (copied line).length then none
      else canonicaliseFrom cap false (buf ++ copied line) rest

/-- `canonicalise`.  The length of the buffer must fit in a `size_t`. -/
def canonicalise (text : List UInt8) : Option (List UInt8) :=
  if (2 ^ 64 - 1) / 2 - 2 < text.length then none
  else canonicaliseFrom (text.length * 2 + 2) true [] (lines 10 text)

theorem unescaped_cases (line : List UInt8) :
    (∃ rest, line = 45 :: 32 :: rest ∧ unescaped line = rest) ∨
      (∀ rest, line ≠ 45 :: 32 :: rest) ∧ unescaped line = line := by
  fun_cases unescaped line with
  | case1 rest => exact Or.inl ⟨rest, rfl, rfl⟩
  | case2 =>
    rename_i other
    exact Or.inr ⟨other, rfl⟩

theorem length_copied_le (line : List UInt8) : (copied line).length ≤ line.length := by
  have escape : ∀ l : List UInt8, (unescaped l).length ≤ l.length := by
    intro l
    rcases unescaped_cases l with ⟨rest, isEscape, isRest⟩ | ⟨_, isLine⟩
    · rw [isRest, isEscape]
      simp only [length_cons]
      omega
    · rw [isLine]
  have blanks := (List.rdropWhile_prefix isBlank (content line)).length_le
  have ending : (content line).length ≤ line.length := by
    rw [content]
    split
    · rw [length_dropLast]
      omega
    · exact Nat.le_refl _
  exact (escape _).trans (blanks.trans ending)

theorem length_lines_le (piece text : List UInt8) :
    ((linesFrom 10 piece text).map (·.length + 1)).sum ≤ piece.length + text.length + 1 := by
  induction text generalizing piece with
  | nil => cases piece <;> simp [linesFrom]
  | cons c rest ih =>
    rw [linesFrom_cons]
    split
    · have later := ih []
      simp only [map_cons, sum_cons, length_nil, length_cons] at later ⊢
      omega
    · have later := ih (piece ++ [c])
      simp only [length_append, length_cons, length_nil] at later ⊢
      omega

variable {list : List (List UInt8)}

theorem canonicaliseFrom_eq {cap : Nat} {buf : List UInt8}
    (room : buf.length + (list.map (·.length + 2)).sum ≤ cap) :
    canonicaliseFrom cap false buf list =
      some (buf ++ list.flatMap fun line => [13, 10] ++ copied line) := by
  induction list generalizing buf with
  | nil => simp [canonicaliseFrom]
  | cons line rest ih =>
    have short := length_copied_le line
    simp only [map_cons, sum_cons] at room
    have later : (buf ++ [13, 10] ++ copied line).length + (rest.map (·.length + 2)).sum ≤ cap := by
      simp only [length_append, length_cons, length_nil]
      omega
    rw [canonicaliseFrom, if_neg (by simp; omega)]
    simp only [Bool.false_eq_true, if_false]
    rw [if_neg (by simp; omega), ih later]
    simp

theorem intercalate_cons {sep : List UInt8} (first : List UInt8) (rest : List (List UInt8)) :
    sep.intercalate (first :: rest) =
      first ++ rest.flatMap fun line => sep ++ line := by
  induction rest generalizing first with
  | nil => simp
  | cons second rest ih =>
    rw [intercalate_cons_cons, ih, flatMap_cons]
    simp

theorem canonicalise_eq {text : List UInt8} (short : text.length ≤ 2 ^ 63 - 3) :
    canonicalise text = some ([13, 10].intercalate ((lines 10 text).map copied)) ∧
      ([13, 10].intercalate ((lines 10 text).map copied)).length ≤ text.length * 2 + 2 := by
  have total := length_lines_le [] text
  rw [canonicalise, if_neg (by omega), lines]
  rw [length_nil, Nat.zero_add] at total
  cases found : linesFrom 10 [] text with
  | nil => simp [canonicaliseFrom]
  | cons line rest =>
    rw [found] at total
    have double : (rest.map (·.length + 2)).sum ≤ 2 * (rest.map (·.length + 1)).sum := by
      rw [← sum_map_mul_left]
      apply sum_le_sum
      intro l _
      omega
    have short := length_copied_le line
    simp only [map_cons, sum_cons] at total
    have room : (copied line).length + (rest.map (·.length + 2)).sum ≤
        text.length * 2 + 2 := by omega
    have written : (rest.flatMap fun l => [13, 10] ++ copied l).length ≤
        (rest.map (·.length + 2)).sum := by
      rw [length_flatMap]
      apply sum_le_sum
      intro l _
      have := length_copied_le l
      simp only [length_append, length_cons, length_nil]
      omega
    have joined : [13, 10].intercalate ((line :: rest).map copied) =
        copied line ++ rest.flatMap fun l => [13, 10] ++ copied l := by
      rw [map_cons, intercalate_cons, flatMap_map]
    rw [joined]
    constructor
    · rw [canonicaliseFrom, if_neg (by simp)]
      simp only [if_true]
      rw [if_neg (by simp; omega), nil_append, canonicaliseFrom_eq room]
    · rw [length_append]
      omega

def BareEscape (line : List UInt8) : Prop :=
  ∃ blanks, content line = 45 :: 32 :: blanks ∧ ∀ c ∈ blanks, isBlank c = true

theorem trimmed_cons (c : UInt8) (line : List UInt8) : trimmed (c :: line) =
      if trimmed line = [] then if isBlank c then [] else [c]
      else c :: trimmed line := by
  simp only [trimmed, List.rdropWhile, reverse_cons, dropWhile_append, reverse_eq_nil_iff]
  cases rest : line.reverse.dropWhile isBlank with
  | nil => cases isBlankC : isBlank c <;> simp [isBlankC]
  | cons d more => simp

theorem trimmed_eq_nil_iff {line : List UInt8} : trimmed line = [] ↔ ∀ c ∈ line, isBlank c = true :=
  rdropWhile_eq_nil_iff

theorem copied_bare {line : List UInt8} (bare : BareEscape line) :
    copied line = [45] ∧ canonicalLine line = [] := by
  obtain ⟨blanks, isEscape, blank⟩ := bare
  have nothing := trimmed_eq_nil_iff.mpr blank
  have dash : isBlank 45 = false := by decide
  have space : isBlank 32 = true := by decide
  rw [copied, canonicalLine, isEscape, trimmed_cons, trimmed_cons, nothing]
  simp [dash, space, unescaped, nothing]

theorem copied_eq {line : List UInt8} (notBare : ¬ BareEscape line) :
    copied line = canonicalLine line := by
  rw [copied, canonicalLine]
  rcases unescaped_cases (content line) with
    ⟨rest, isEscape, isRest⟩ | ⟨other, isLine⟩
  · have nonempty : trimmed rest ≠ [] := by
      intro nothing
      exact notBare ⟨rest, isEscape, trimmed_eq_nil_iff.mp nothing⟩
    rw [isRest, isEscape, trimmed_cons, trimmed_cons, if_neg nonempty, if_neg (by simp)]
    rfl
  · rw [isLine]
    rcases unescaped_cases (trimmed (content line)) with
      ⟨rest, isEscape, _⟩ | ⟨_, isTrimmed⟩
    · have start : trimmed (content line) <+: content line := rdropWhile_prefix isBlank _
      rw [isEscape] at start
      obtain ⟨more, whole⟩ := start
      exact absurd whole.symm (other _)
    · exact isTrimmed

theorem canonical_of_same
    (same : ((list.map copied).map List.length).sum =
      ((list.map canonicalLine).map List.length).sum) :
    ∀ line ∈ list, ¬ BareEscape line := by
  have step : ∀ line, (canonicalLine line).length ≤ (copied line).length := by
    intro line
    by_cases bare : BareEscape line
    · rw [(copied_bare bare).2]
      exact Nat.zero_le _
    · rw [copied_eq bare]
  have sums : ∀ rest : List (List UInt8), ((rest.map canonicalLine).map List.length).sum ≤
        ((rest.map copied).map List.length).sum := by
    intro rest
    rw [map_map, map_map]
    exact sum_le_sum fun line _ => step line
  induction list with
  | nil => simp
  | cons first rest ih =>
    simp only [map_cons, sum_cons] at same
    have later := sums rest
    have now := step first
    intro line mem
    rcases mem_cons.mp mem with rfl | inRest
    · intro bare
      obtain ⟨isDash, isNil⟩ := copied_bare bare
      rw [isDash, isNil, length_singleton, length_nil] at same
      omega
    · exact ih (by omega) line inRest

theorem length_intercalate (sep : List UInt8) {list' : List (List UInt8)}
    (length : list.length = list'.length)
    (same : sep.intercalate list = sep.intercalate list') :
    (list.map List.length).sum = (list'.map List.length).sum := by
  have sizes : ∀ first : List UInt8, ∀ rest : List (List UInt8),
      (sep.intercalate (first :: rest)).length =
        ((first :: rest).map List.length).sum + rest.length * sep.length := by
    intro first rest
    rw [intercalate_cons, length_append, length_flatMap]
    simp only [length_append, map_cons, sum_cons]
    rw [sum_map_add, map_const', sum_replicate, Nat.nsmul_eq_mul]
    omega
  cases list with
  | nil => rw [length_eq_zero_iff.mp length.symm]
  | cons first rest =>
    cases list' with
    | nil => cases length
    | cons first' rest' =>
      have sizes' := congrArg List.length same
      rw [sizes, sizes] at sizes'
      have rests : rest.length = rest'.length := by simpa using length
      rw [rests] at sizes'
      omega

def SameLines (text other : List UInt8) : Prop :=
  (lines 10 text).map (fun line => trimmed (content line)) =
    (lines 10 other).map fun line => trimmed (content line)

/-- The text is given in its canonical form, within the capacity, and in the
same form as any text with the same lines. -/
def Canonical (text : List UInt8) : Prop :=
  ∃ out, canonicalise text = some out ∧ out = canonicalText text ∧
    out.length ≤ text.length * 2 + 2 ∧
    ∀ other out', SameLines text other → canonicalise other = some out' → out' = out

theorem canonicalise_short {text out : List UInt8}
    (result : canonicalise text = some out) : text.length ≤ 2 ^ 63 - 3 := by
  by_contra long
  rw [canonicalise, if_pos (by omega)] at result
  cases result

/-- The code gives the canonical form of exactly the texts without a bare dash
escape; longer texts than this do not fit into memory. -/
theorem canonical_iff (text : List UInt8) : Canonical text ↔
      text.length ≤ 2 ^ 63 - 3 ∧ ∀ line ∈ lines 10 text, ¬ BareEscape line := by
  constructor
  · rintro ⟨out, result, isCanonical, _, _⟩
    have short := canonicalise_short result
    refine ⟨short, canonical_of_same ?_⟩
    rw [(canonicalise_eq short).1] at result
    exact length_intercalate [13, 10] (by simp) ((Option.some.inj result).trans isCanonical)
  · rintro ⟨short, plain⟩
    obtain ⟨result, fits⟩ := canonicalise_eq short
    refine ⟨_, result, ?_, fits, ?_⟩
    · rw [canonicalText]
      congr 1
      exact map_congr_left fun line mem =>
        copied_eq (plain line mem)
    · intro other out' same result'
      rw [(canonicalise_eq (canonicalise_short result')).1] at result'
      have copies := congrArg (List.map unescaped) same
      rw [map_map, map_map] at copies
      rw [← Option.some.inj result']
      exact (congrArg _ copies).symm

/-- The line `- ` stands for an empty line. -/
theorem bare_escape_not_canonical :
    canonicalise [45, 32] = some [45] ∧ canonicalText [45, 32] = [] ∧ ¬ Canonical [45, 32] := by
  refine ⟨by decide +kernel, by decide +kernel, ?_⟩
  rintro ⟨out, result, isCanonical, _⟩
  have code : canonicalise [45, 32] = some [45] := by decide +kernel
  have form : canonicalText [45, 32] = [] := by decide +kernel
  rw [code, isCanonical, form] at result
  cases result

end Cix.Pgp
