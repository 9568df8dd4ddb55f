import Mathlib.Data.List.Basic

/-!
# UTF-8 text around ASCII

A byte string is UTF-8 when it is the encoding of some characters.  An ASCII
byte in it is a character of its own, so such a byte cuts UTF-8 text into UTF-8
text, and what ASCII bytes hold together is UTF-8 if the parts are.
-/

namespace Cix.Lib

open List

variable {text : List UInt8}

def IsUtf8 (text : List UInt8) : Prop :=
  ∃ chars : List Char, chars.flatMap String.utf8EncodeChar = text

theorem isUtf8_nil : IsUtf8 [] := ⟨[], rfl⟩

theorem isUtf8_append {first second : List UInt8} (left : IsUtf8 first)
    (right : IsUtf8 second) : IsUtf8 (first ++ second) := by
  obtain ⟨chars, rfl⟩ := left
  obtain ⟨others, rfl⟩ := right
  exact ⟨chars ++ others, flatMap_append⟩

theorem utf8EncodeChar_ascii {c : UInt8} (ascii : c < 0x80) :
    String.utf8EncodeChar (Char.ofNat c.toNat) = [c] := by
  have small : c.toNat < 0x80 := UInt8.lt_iff_toNat_lt.mp ascii
  have valid : c.toNat.isValidChar := Or.inl (by omega)
  have value : (Char.ofNat c.toNat).val.toNat = c.toNat := by
    rw [Char.ofNat, dif_pos valid]
    rfl
  rw [String.utf8EncodeChar, value, if_pos (by omega), UInt8.ofNat_toNat]

theorem isUtf8_singleton {c : UInt8} (ascii : c < 0x80) : IsUtf8 [c] :=
  ⟨[Char.ofNat c.toNat], by rw [flatMap_singleton,
    utf8EncodeChar_ascii ascii]⟩

theorem utf8EncodeChar_of_mem {char : Char} {c : UInt8}
    (mem : c ∈ String.utf8EncodeChar char) (ascii : c < 0x80) :
    String.utf8EncodeChar char = [c] := by
  have small : c.toNat < 0x80 := UInt8.lt_iff_toNat_lt.mp ascii
  rw [String.utf8EncodeChar] at mem ⊢
  split_ifs at mem ⊢ with one two three
  · rw [mem_singleton.mp mem]
  all_goals
    simp only [mem_cons, not_mem_nil, or_false] at mem
    rcases mem with rfl | rfl | rfl | rfl
    all_goals
      rw [UInt8.toNat_ofNat'] at small
      omega

theorem isUtf8_append_cons {first second : List UInt8} {c : UInt8} (ascii : c < 0x80) :
    IsUtf8 (first ++ c :: second) ↔ IsUtf8 first ∧ IsUtf8 second := by
  constructor
  · rintro ⟨chars, encoded⟩
    induction chars generalizing first with
    | nil => simp at encoded
    | cons char rest ih =>
      rw [flatMap_cons] at encoded
      rcases append_eq_append_iff.mp encoded with
        ⟨more, isFirst, isRest⟩ | ⟨more, isChar, isSecond⟩
      · obtain ⟨left, right⟩ := ih isRest
        refine ⟨?_, right⟩
        rw [isFirst]
        exact isUtf8_append ⟨[char], flatMap_singleton ..⟩ left
      · cases more with
        | nil =>
          rw [nil_append] at isSecond
          obtain ⟨left, right⟩ := @ih [] isSecond.symm
          refine ⟨?_, right⟩
          rw [← append_nil first, ← isChar]
          exact ⟨[char], flatMap_singleton ..⟩
        | cons head tail =>
          rw [cons_append, List.cons.injEq] at isSecond
          obtain ⟨rfl, isSecond⟩ := isSecond
          have mem : c ∈ String.utf8EncodeChar char := by
            rw [isChar]
            simp
          rw [utf8EncodeChar_of_mem mem ascii] at isChar
          have lengths := congrArg List.length isChar
          simp only [length_append, length_cons, length_nil] at lengths
          have noFirst : first = [] := eq_nil_of_length_eq_zero (by omega)
          have noTail : tail = [] := eq_nil_of_length_eq_zero (by omega)
          subst noFirst noTail
          refine ⟨isUtf8_nil, rest, ?_⟩
          rw [isSecond, nil_append]
  · rintro ⟨left, right⟩
    rw [← singleton_append]
    exact isUtf8_append left (isUtf8_append (isUtf8_singleton ascii) right)

def IsAscii (text : List UInt8) : Prop :=
  ∀ c ∈ text, c < 0x80

instance (text : List UInt8) : Decidable (IsAscii text) :=
  List.decidableBAll (· < 0x80) text

theorem isUtf8_append_ascii {first ascii second : List UInt8}
    (nonempty : ascii ≠ []) (isAscii : IsAscii ascii) :
    IsUtf8 (first ++ (ascii ++ second)) ↔ IsUtf8 first ∧ IsUtf8 second := by
  induction ascii generalizing first with
  | nil => exact absurd rfl nonempty
  | cons c rest ih =>
    rw [cons_append, isUtf8_append_cons (isAscii c mem_cons_self)]
    cases rest with
    | nil => rfl
    | cons d tail =>
      have later := @ih [] (by simp) fun e mem => isAscii e (mem_cons_of_mem c mem)
      rw [nil_append] at later
      rw [later]
      simp [isUtf8_nil]

theorem isUtf8_ascii_append {ascii second : List UInt8}
    (isAscii : IsAscii ascii) : IsUtf8 (ascii ++ second) ↔ IsUtf8 second := by
  cases ascii with
  | nil => rfl
  | cons c rest =>
    have cut := @isUtf8_append_ascii [] (c :: rest) second (cons_ne_nil c rest) isAscii
    rw [nil_append] at cut
    rw [cut]
    exact and_iff_right isUtf8_nil

/-- What comes after the text is UTF-8 by itself, and the text is if `inside`
is. -/
def CutsUtf8 (text : List UInt8) (inside : Prop) : Prop :=
  ∀ rest, IsUtf8 (text ++ rest) ↔ inside ∧ IsUtf8 rest

theorem cutsUtf8_ascii (isAscii : IsAscii text) : CutsUtf8 text True := by
  intro rest
  rw [isUtf8_ascii_append isAscii, true_and]

theorem CutsUtf8.append {first second : List UInt8} {left right : Prop}
    (firstCuts : CutsUtf8 first left) (secondCuts : CutsUtf8 second right) :
    CutsUtf8 (first ++ second) (left ∧ right) := by
  intro rest
  rw [append_assoc, firstCuts, secondCuts, and_assoc]

theorem CutsUtf8.congr {left right : Prop} (cuts : CutsUtf8 text left)
    (same : left ↔ right) : CutsUtf8 text right := by
  intro rest
  rw [cuts rest, same]

theorem CutsUtf8.between {first last : List UInt8} {inside : Prop}
    (cuts : CutsUtf8 text inside) (firstAscii : IsAscii first)
    (lastAscii : IsAscii last) : CutsUtf8 (first ++ (text ++ last)) inside := by
  refine ((cutsUtf8_ascii firstAscii).append (cuts.append (cutsUtf8_ascii lastAscii))).congr ?_
  rw [true_and, and_true]

theorem cutsUtf8_flatMap {α : Type*} {list : List α} {text : α → List UInt8}
    {inside : α → Prop} (cuts : ∀ a ∈ list, CutsUtf8 (text a) (inside a)) :
    CutsUtf8 (list.flatMap text) (∀ a ∈ list, inside a) := by
  induction list with
  | nil =>
    intro rest
    simp
  | cons a rest ih =>
    rw [flatMap_cons, forall_mem_cons]
    exact (cuts a mem_cons_self).append (ih fun b mem =>
        cuts b (mem_cons_of_mem a mem))

theorem CutsUtf8.isUtf8_iff {inside : Prop} (cuts : CutsUtf8 text inside) :
    IsUtf8 text ↔ inside := by
  have whole := cuts []
  rw [append_nil] at whole
  rw [whole]
  exact and_iff_left isUtf8_nil

theorem isUtf8_flatMap {spell : UInt8 → List UInt8}
    (ascii : ∀ c < 0x80, spell c ≠ [] ∧ IsAscii (spell c))
    (other : ∀ c, ¬ c < 0x80 → spell c = [c]) {first : List UInt8}
    (text : List UInt8) :
    IsUtf8 (first ++ text.flatMap spell) ↔ IsUtf8 (first ++ text) := by
  induction text generalizing first with
  | nil => rfl
  | cons c rest ih =>
    rw [flatMap_cons]
    by_cases isAscii : c < 0x80
    · rw [isUtf8_append_ascii (ascii c isAscii).1 (ascii c isAscii).2, isUtf8_append_cons isAscii]
      have later := @ih []
      rw [nil_append, nil_append] at later
      rw [later]
    · rw [other c isAscii, ← append_assoc, ih, append_assoc, singleton_append]

theorem cutsUtf8_spelled {spell : UInt8 → List UInt8}
    (ascii : ∀ c < 0x80, spell c ≠ [] ∧ IsAscii (spell c))
    (other : ∀ c, ¬ c < 0x80 → spell c = [c]) {opening closing : UInt8}
    (isOpening : opening < 0x80) (isClosing : closing < 0x80)
    (text : List UInt8) :
    CutsUtf8 (opening :: (text.flatMap spell ++ [closing])) (IsUtf8 text) := by
  intro rest
  have spelled := @isUtf8_flatMap spell ascii other [] text
  rw [nil_append, nil_append] at spelled
  have opened := @isUtf8_append_cons [] (text.flatMap spell ++ closing :: rest) opening isOpening
  rw [nil_append] at opened
  rw [cons_append, append_assoc, singleton_append, opened, isUtf8_append_cons isClosing, spelled]
  exact and_iff_right isUtf8_nil

end Cix.Lib
