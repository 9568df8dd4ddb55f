import Cix.Ldap.Rendering
import Cix.Json.Roundtrip
import Cix.Lib.Toml

/-!
# What the rendered records say

The text of `render_users_groups_toml`, read as TOML, against the tables that
it is to say: one for every group, and one for every user with the capability
after it.
-/

namespace Cix.Ldap

open Cix.Lib Cix.Json List

/-! ## Spelled values -/

/-- The delete character, which `toml_append_string` leaves as it is. -/
def isDelete (c : UInt8) : Bool :=
  c = 0x7f

theorem namedCharacter_control {c : UInt8} (control : c < 0x20) : Toml.namedCharacter
        [48, 48, hexDigit (c.toNat / 16), hexDigit (c.toNat % 16)] =
      some [c] := by
  have small : c.toNat < 32 := UInt8.lt_iff_toNat_lt.mp control
  have all : ∀ n < 32, Toml.namedCharacter [48, 48, hexDigit (n / 16), hexDigit (n % 16)] =
        some [UInt8.ofNat n] := by decide
  rw [all c.toNat small, UInt8.ofNat_toNat]

theorem readChars_tomlEscape (c : UInt8) (plain : isDelete c = false) (rest : List UInt8) :
    Toml.readChars (tomlEscape c ++ rest) = (Toml.readChars rest).map (Toml.before [c]) := by
  unfold tomlEscape
  split
  next special =>
    simp only [Bool.or_eq_true, decide_eq_true_eq] at special
    rcases special with rfl | rfl
    · exact Toml.readChars_short rest (by decide)
    · exact Toml.readChars_short rest (by decide)
  next notSpecial =>
    split
    next newline =>
      subst newline
      exact Toml.readChars_short rest (by decide)
    next =>
      split
      next carriageReturn =>
        subst carriageReturn
        exact Toml.readChars_short rest (by decide)
      next =>
        split
        next tab =>
          subst tab
          exact Toml.readChars_short rest (by decide)
        next =>
          split
          next control =>
            exact Toml.readChars_named rest (namedCharacter_control control)
          next printable =>
            simp only [Bool.or_eq_true, decide_eq_true_eq, not_or] at notSpecial
            simp only [isDelete, decide_eq_false_iff_not] at plain
            apply Toml.readChars_plain rest notSpecial.2 notSpecial.1
            simp [Toml.isControl, printable, plain]

theorem readChars_delete (c : UInt8) (delete : isDelete c = true) (rest : List UInt8) :
    Toml.readChars (tomlEscape c ++ rest) = none := by
  obtain rfl : c = 0x7f := by simpa [isDelete] using delete
  exact Toml.readChars_control rest (by decide) (by decide) (by decide)

def scalarText : Toml.Scalar → List UInt8
  | .string s => 34 :: (s.flatMap tomlEscape ++ [34])
  | .int v => intText v
  | .bool b => ascii (if b then "true" else "false")

def scalarReading : Toml.Scalar → Option Toml.Scalar
  | .string s => if s.any isDelete then none else some (.string s)
  | .int v => some (.int v)
  | .bool b => some (.bool b)

theorem readNatural_natText (n : Nat) {rest : List UInt8} (ends : Toml.EndsToken rest) :
    Toml.readNatural (natText n ++ rest) = some (n, rest) := by
  have digits : ∀ c ∈ natText n, Toml.isDigit c = true :=
    fun c mem => isDigit_of_mem_natText mem
  have taken : (natText n ++ rest).takeWhile Toml.isDigit = natText n := by
    rw [takeWhile_append_of_pos digits]
    cases rest with
    | nil => simp
    | cons c tail => simp [ends c tail rfl]
  have dropped : (natText n ++ rest).dropWhile Toml.isDigit = rest := by
    rw [dropWhile_append_of_pos digits]
    cases rest with
    | nil => rfl
    | cons c tail => simp [ends c tail rfl]
  have value : Toml.decimal (natText n) = n := by
    have same : Toml.decimal (natText n) = digitsValue (natText n) := by
      simp only [Toml.decimal, digitsValue, Nat.mul_comm]
    rw [same, digitsValue_natText]
  have wellFormed : ¬ (natText n = [] ∨ (natText n).length > 1 ∧ (natText n).head? = some 48) := by
    rintro (empty | ⟨long, zero⟩)
    · exact natText_ne_nil n empty
    · by_cases isZero : n = 0
      · subst isZero
        exact absurd long (by decide)
      · exact natText_head isZero zero
  rw [Toml.readNatural, taken, dropped, if_neg wellFormed, value]

theorem readInteger_intText (v : Int) {rest : List UInt8} (ends : Toml.EndsToken rest) :
    Toml.readInteger (intText v ++ rest) = some (v, rest) := by
  unfold intText
  split
  next negative =>
    rw [Toml.readInteger, cons_append, head?_cons, if_pos rfl,
      tail_cons, readNatural_natText v.natAbs ends, Option.map_some]
    have value : -(v.natAbs : Int) = v := by omega
    rw [value]
  next notNegative =>
    obtain ⟨c, tail, isText⟩ := exists_cons_of_ne_nil (natText_ne_nil v.natAbs)
    have digit : Toml.isDigit c = true :=
      isDigit_of_mem_natText (by rw [isText]; exact mem_cons_self)
    have head : (natText v.natAbs ++ rest).head? = some c := by
      rw [isText]
      rfl
    have notMinus : (some c : Option UInt8) ≠ some 45 := by
      intro same
      rw [Option.some.inj same] at digit
      exact absurd digit (by decide)
    have notPlus : (some c : Option UInt8) ≠ some 43 := by
      intro same
      rw [Option.some.inj same] at digit
      exact absurd digit (by decide)
    have value : (v.natAbs : Int) = v := by omega
    rw [Toml.readInteger, head, if_neg notMinus, if_neg notPlus,
      readNatural_natText v.natAbs ends, Option.map_some, value]

theorem scalarText_spelled (item : Toml.Scalar) :
    Toml.ScalarText (scalarText item) (scalarReading item) := by
  cases item with
  | string s =>
    refine ⟨⟨34, _, rfl, by decide, by decide, by decide, by decide⟩, ?_⟩
    intro rest _
    have read := Toml.readChars_spelled readChars_tomlEscape readChars_delete s rest
    have text : scalarText (.string s) ++ rest = 34 :: (s.flatMap tomlEscape ++ 34 :: rest) := by
      simp [scalarText]
    rw [text, Toml.readScalar, head?_cons, if_pos rfl, tail_cons, read, scalarReading]
    split
    · rfl
    · rfl
  | int v =>
    obtain ⟨c, tail, isText, start⟩ := intText_start v
    have other : Toml.isSpace c = false ∧ c ≠ 10 ∧ c ≠ 91 ∧ c ≠ 93 ∧
        c ≠ 34 ∧ c ≠ 116 ∧ c ≠ 102 := by
      rcases start with rfl | digit
      · decide
      · have small : c.toNat < 58 := by
          simp only [isDigit, Bool.and_eq_true, decide_eq_true_eq, UInt8.le_iff_toNat_le] at digit
          exact Nat.lt_of_le_of_lt digit.2 (by decide)
        have large : 47 < c.toNat := by
          simp only [isDigit, Bool.and_eq_true, decide_eq_true_eq, UInt8.le_iff_toNat_le] at digit
          exact Nat.lt_of_lt_of_le (by decide) digit.1
        have all : ∀ n < 58, 47 < n → Toml.isSpace (UInt8.ofNat n) = false ∧
              UInt8.ofNat n ≠ 10 ∧ UInt8.ofNat n ≠ 91 ∧
              UInt8.ofNat n ≠ 93 ∧ UInt8.ofNat n ≠ 34 ∧
              UInt8.ofNat n ≠ 116 ∧ UInt8.ofNat n ≠ 102 := by decide
        have fact := all c.toNat small large
        rw [UInt8.ofNat_toNat] at fact
        exact fact
    refine ⟨⟨c, tail, isText, other.1, other.2.1, other.2.2.1, other.2.2.2.1⟩, ?_⟩
    intro rest ends
    have notQuote : (intText v ++ rest).head? ≠ some 34 := by
      rw [isText]
      simpa using other.2.2.2.2.1
    have notTrue : (intText v ++ rest).take 4 ≠ Toml.trueText := by
      rw [isText]
      intro same
      exact other.2.2.2.2.2.1 (List.cons.inj same).1
    have notFalse : (intText v ++ rest).take 5 ≠ Toml.falseText := by
      rw [isText]
      intro same
      exact other.2.2.2.2.2.2 (List.cons.inj same).1
    rw [scalarText, Toml.readScalar, if_neg notQuote, if_neg notTrue,
      if_neg notFalse, readInteger_intText v ends]
    rfl
  | bool b =>
    have isTrue : ascii "true" = Toml.trueText := by decide
    have isFalse : ascii "false" = Toml.falseText := by decide
    cases b with
    | true =>
      dsimp only [scalarText]
      rw [if_pos rfl, isTrue]
      exact ⟨⟨116, _, rfl, by decide, by decide, by decide, by decide⟩,
        fun rest _ => rfl⟩
    | false =>
      dsimp only [scalarText]
      rw [if_neg (by decide), isFalse]
      exact ⟨⟨102, _, rfl, by decide, by decide, by decide, by decide⟩,
        fun rest _ => rfl⟩

/-! ## Values and tables -/

variable {s : List UInt8}

def valueText : Toml.Value → List UInt8
  | .scalar item => scalarText item
  | .array items => 91 :: (Toml.itemsText (items.map scalarText) ++ [93])

def valueReading : Toml.Value → Option Toml.Value
  | .scalar item => (scalarReading item).map .scalar
  | .array items => (Toml.allSome (items.map scalarReading)).map .array

theorem valueText_spelled (value : Toml.Value) :
    Toml.ValueText (valueText value) (valueReading value) := by
  cases value with
  | scalar item => exact (scalarText_spelled item).value
  | array items =>
    have spelled : ∀ item ∈ items.map (fun item => (scalarText item, scalarReading item)),
        Toml.ScalarText item.1 item.2 := by
      intro item mem
      obtain ⟨scalar, _, rfl⟩ := mem_map.mp mem
      exact scalarText_spelled scalar
    have array := Toml.valueText_array spelled
    rw [map_map, map_map] at array
    exact array

def scalarStrings : Toml.Scalar → List (List UInt8)
  | .string s => [s]
  | _ => []

def valueStrings : Toml.Value → List (List UInt8)
  | .scalar item => scalarStrings item
  | .array items => items.flatMap scalarStrings

def tableStrings (table : Toml.Table) : List (List UInt8) :=
  table.pairs.flatMap fun pair => valueStrings pair.2

def Undeleted (s : List UInt8) : Prop :=
  ∀ c ∈ s, isDelete c = false

theorem any_isDelete : s.any isDelete = false ↔ Undeleted s := by
  simp only [any_eq_false, Bool.not_eq_true]
  rfl

theorem scalarReading_of_undeleted {item : Toml.Scalar}
    (undeleted : ∀ s ∈ scalarStrings item, Undeleted s) :
    scalarReading item = some item := by
  cases item with
  | string s =>
    have clean := any_isDelete.mpr (undeleted s (mem_singleton.mpr rfl))
    simp [scalarReading, clean]
  | int v => rfl
  | bool b => rfl

theorem scalarReading_of_deleted {item : Toml.Scalar} {s : List UInt8}
    (mem : s ∈ scalarStrings item) (deleted : ¬ Undeleted s) :
    scalarReading item = none := by
  cases item with
  | string t =>
    obtain rfl := mem_singleton.mp mem
    have found : s.any isDelete = true := by
      rw [← Bool.not_eq_false]
      exact mt any_isDelete.mp deleted
    simp [scalarReading, found]
  | int v => cases mem
  | bool b => cases mem

theorem valueReading_of_undeleted {value : Toml.Value}
    (undeleted : ∀ s ∈ valueStrings value, Undeleted s) :
    valueReading value = some value := by
  cases value with
  | scalar item =>
    rw [valueReading, scalarReading_of_undeleted undeleted]
    rfl
  | array items =>
    have all : items.map scalarReading = items.map some := by
      apply map_congr_left
      intro item mem
      apply scalarReading_of_undeleted
      intro s inItem
      exact undeleted s (mem_flatMap.mpr ⟨item, mem, inItem⟩)
    rw [valueReading, all, Toml.allSome_map_some]
    rfl

theorem valueReading_of_deleted {value : Toml.Value} {s : List UInt8}
    (mem : s ∈ valueStrings value) (deleted : ¬ Undeleted s) :
    valueReading value = none := by
  cases value with
  | scalar item =>
    rw [valueReading, scalarReading_of_deleted mem deleted]
    rfl
  | array items =>
    obtain ⟨item, inItems, inItem⟩ := mem_flatMap.mp mem
    have missing : none ∈ items.map scalarReading :=
      mem_map.mpr ⟨item, inItems, scalarReading_of_deleted inItem deleted⟩
    rw [valueReading, Toml.allSome_eq_none missing]
    rfl

def tableHeaderLine (indent : Nat) (path : List Toml.Key) : Toml.Line :=
  .expression indent (91 :: 91 :: (Toml.pathText path ++ [93, 93])) (some (.header path))

def pairLine (indent : Nat) (pair : Toml.Key × Toml.Value) : Toml.Line :=
  .expression indent (pair.1 ++ 32 :: 61 :: 32 :: valueText pair.2)
    ((valueReading pair.2).map (.pair pair.1))

def tableLines (indent : Nat) (table : Toml.Table) : List Toml.Line :=
  tableHeaderLine indent table.path :: table.pairs.map (pairLine indent)

structure PlainKeys (table : Toml.Table) : Prop where
  path : table.path ≠ []
  barePath : ∀ key ∈ table.path, Toml.Bare key
  bare : ∀ pair ∈ table.pairs, Toml.Bare pair.1
  distinct : (table.pairs.map Prod.fst).Nodup

variable {table : Toml.Table}

theorem tableLines_spelled (plain : PlainKeys table)
    (indent : Nat) : ∀ line ∈ tableLines indent table, line.Spelled := by
  intro line mem
  rcases mem_cons.mp mem with rfl | inPairs
  · exact Toml.expressionText_header plain.path plain.barePath
  · obtain ⟨pair, isPair, rfl⟩ := mem_map.mp inPairs
    exact Toml.expressionText_pair (plain.bare pair isPair) (valueText_spelled pair.2)

def tableExpressions (table : Toml.Table) : List Toml.Expression :=
  .header table.path :: table.pairs.map fun pair => .pair pair.1 pair.2

theorem linesReading_pairs {pairs : List (Toml.Key × Toml.Value)}
    {indent : Nat} (undeleted : ∀ pair ∈ pairs,
      ∀ s ∈ valueStrings pair.2, Undeleted s) (rest : List Toml.Line) :
    Toml.linesReading (pairs.map (pairLine indent) ++ rest) = (Toml.linesReading rest).map
        ((pairs.map fun pair => .pair pair.1 pair.2) ++ ·) := by
  induction pairs with
  | nil => simp
  | cons pair more ih =>
    rw [map_cons, cons_append, pairLine, valueReading_of_undeleted (undeleted pair mem_cons_self),
      Option.map_some, Toml.linesReading, ih fun pair mem => undeleted pair (mem_cons_of_mem _ mem)]
    cases Toml.linesReading rest with
    | none => rfl
    | some list => rfl

theorem linesReading_append_none (lines : List Toml.Line)
    {rest : List Toml.Line} (fails : Toml.linesReading rest = none) :
    Toml.linesReading (lines ++ rest) = none := by
  induction lines with
  | nil => exact fails
  | cons line more ih =>
    cases line with
    | blank => exact ih
    | expression indent text reading =>
      cases reading with
      | none => rfl
      | some expression =>
        rw [cons_append, Toml.linesReading, ih]
        rfl

theorem linesReading_deleted {pairs : List (Toml.Key × Toml.Value)}
    {indent : Nat} {pair : Toml.Key × Toml.Value} (inPairs : pair ∈ pairs)
    (mem : s ∈ valueStrings pair.2) (deleted : ¬ Undeleted s)
    (rest : List Toml.Line) :
    Toml.linesReading (pairs.map (pairLine indent) ++ rest) = none := by
  obtain ⟨front, back, rfl⟩ := append_of_mem inPairs
  rw [map_append, append_assoc]
  apply linesReading_append_none
  rw [map_cons, cons_append, pairLine, valueReading_of_deleted mem deleted]
  rfl

/-! ## Where the text is UTF-8 -/

theorem tomlEscape_ascii (c : UInt8) (ascii : c < 0x80) :
    tomlEscape c ≠ [] ∧ IsAscii (tomlEscape c) := by
  have small : c.toNat < 128 := UInt8.lt_iff_toNat_lt.mp ascii
  have all : ∀ n < 128, tomlEscape (UInt8.ofNat n) ≠ [] ∧
      IsAscii (tomlEscape (UInt8.ofNat n)) := by decide
  have fact := all c.toNat small
  rw [UInt8.ofNat_toNat] at fact
  exact fact

theorem tomlEscape_other (c : UInt8) (other : ¬ c < 0x80) : tomlEscape c = [c] := by
  have small : c.toNat < 256 := c.toNat_lt
  have large : 127 < c.toNat := by
    rw [UInt8.lt_iff_toNat_lt] at other
    exact Nat.lt_of_not_le fun low => other (Nat.lt_succ_of_le low)
  have all : ∀ n < 256, 127 < n → tomlEscape (UInt8.ofNat n) = [UInt8.ofNat n] := by decide +kernel
  have fact := all c.toNat small large
  rw [UInt8.ofNat_toNat] at fact
  exact fact

theorem isAscii_intText (v : Int) : IsAscii (intText v) := by
  intro c mem
  by_contra large
  have other : isDigit c = false := by
    by_contra digit
    simp only [isDigit, Bool.not_eq_false, Bool.and_eq_true, decide_eq_true_eq] at digit
    exact large (UInt8.lt_of_le_of_lt digit.2 (by decide))
  have notMinus : c ≠ 45 := by
    rintro rfl
    exact large (by decide)
  exact not_mem_intText v other notMinus mem

theorem cutsUtf8_scalar (item : Toml.Scalar) :
    CutsUtf8 (scalarText item) (∀ s ∈ scalarStrings item, IsUtf8 s) := by
  cases item with
  | string s =>
    refine (cutsUtf8_spelled tomlEscape_ascii tomlEscape_other (by decide) (by decide) s).congr ?_
    simp [scalarStrings]
  | int v =>
    refine (cutsUtf8_ascii (isAscii_intText v)).congr ?_
    simp [scalarStrings]
  | bool b =>
    have isAscii : IsAscii (scalarText (.bool b)) := by
      have all : ∀ b, IsAscii (scalarText (.bool b)) := by decide
      exact all b
    refine (cutsUtf8_ascii isAscii).congr ?_
    simp [scalarStrings]

theorem cutsUtf8_value (value : Toml.Value) :
    CutsUtf8 (valueText value) (∀ s ∈ valueStrings value, IsUtf8 s) := by
  cases value with
  | scalar item => exact cutsUtf8_scalar item
  | array items =>
    have opening : IsAscii [91] := by
      intro c mem
      rw [mem_singleton.mp mem]
      decide
    have closing : IsAscii [93] := by
      intro c mem
      rw [mem_singleton.mp mem]
      decide
    have inside := Toml.cutsUtf8_itemsText fun item (_ : item ∈ items) =>
      cutsUtf8_scalar item
    refine (inside.between opening closing).congr ?_
    simp only [valueStrings, mem_flatMap]
    constructor
    · rintro all s ⟨item, mem, inItem⟩
      exact all item mem s inItem
    · intro all item mem s inItem
      exact all s ⟨item, mem, inItem⟩

theorem isAscii_indented {text : List UInt8} (indent : Nat) (isAscii : IsAscii text) :
    IsAscii (10 :: (List.replicate indent 32 ++ text)) := by
  intro c mem
  rcases mem_cons.mp mem with rfl | inLine
  · decide
  · rcases mem_append.mp inLine with inSpaces | inText
    · rw [eq_of_mem_replicate inSpaces]
      decide
    · exact isAscii c inText

theorem cutsUtf8_pairLine {pair : Toml.Key × Toml.Value} (bare : Toml.Bare pair.1) (indent : Nat) :
    CutsUtf8 (pairLine indent pair).text (∀ s ∈ valueStrings pair.2, IsUtf8 s) := by
  have text : (pairLine indent pair).text =
      (10 :: (List.replicate indent 32 ++ (pair.1 ++ [32, 61, 32]))) ++ valueText pair.2 := by
    simp [pairLine, Toml.Line.text]
  have key : IsAscii (pair.1 ++ [32, 61, 32]) := by
    intro c mem
    rcases mem_append.mp mem with inKey | inSign
    · exact bare.isAscii c inKey
    · have all : ∀ c ∈ [32, 61, 32], c < (0x80 : UInt8) := by simp
      exact all c inSign
  rw [text]
  refine ((cutsUtf8_ascii (isAscii_indented indent key)).append (cutsUtf8_value pair.2)).congr ?_
  rw [true_and]

theorem cutsUtf8_headerLine {path : List Toml.Key}
    (bare : ∀ key ∈ path, Toml.Bare key) (indent : Nat) :
    CutsUtf8 (tableHeaderLine indent path).text True := by
  apply cutsUtf8_ascii
  apply isAscii_indented
  intro c mem
  have brackets : ∀ c ∈ [91, 93], c < (0x80 : UInt8) := by simp
  rcases mem_cons.mp mem with rfl | mem
  · decide
  rcases mem_cons.mp mem with rfl | mem
  · decide
  rcases mem_append.mp mem with inPath | inClosing
  · exact Toml.isAscii_pathText bare c inPath
  · apply brackets c
    simpa using Or.inr inClosing

theorem cutsUtf8_tableLines (plain : PlainKeys table) (indent : Nat) :
    CutsUtf8 ((tableLines indent table).flatMap Toml.Line.text)
      (∀ s ∈ tableStrings table, IsUtf8 s) := by
  have pairs : CutsUtf8 ((table.pairs.map (pairLine indent)).flatMap Toml.Line.text)
      (∀ pair ∈ table.pairs, ∀ s ∈ valueStrings pair.2, IsUtf8 s) := by
    rw [flatMap_map]
    exact cutsUtf8_flatMap fun pair mem =>
      cutsUtf8_pairLine (plain.bare pair mem) indent
  rw [tableLines, flatMap_cons]
  refine ((cutsUtf8_headerLine plain.barePath indent).append pairs).congr ?_
  simp only [true_and, tableStrings, mem_flatMap]
  constructor
  · rintro all s ⟨pair, mem, inPair⟩
    exact all pair mem s inPair
  · intro all pair mem s inPair
    exact all s ⟨pair, mem, inPair⟩

/-! ## Records -/

def recordLines (record : List (Nat × Toml.Table)) : List Toml.Line :=
  (record.flatMap fun entry => tableLines entry.1 entry.2) ++ [.blank]

def recordsText (records : List (List (Nat × Toml.Table))) : List UInt8 :=
  (records.flatMap recordLines).flatMap Toml.Line.text

def recordsTables (records : List (List (Nat × Toml.Table))) : List Toml.Table :=
  records.flatten.map Prod.snd

section Records

variable {records : List (List (Nat × Toml.Table))}

theorem linesReading_tableLines {indent : Nat}
    (undeleted : ∀ s ∈ tableStrings table, Undeleted s)
    (rest : List Toml.Line) :
    Toml.linesReading (tableLines indent table ++ rest) =
      (Toml.linesReading rest).map (tableExpressions table ++ ·) := by
  have pairs := @linesReading_pairs table.pairs indent (fun pair mem s inPair =>
      undeleted s (mem_flatMap.mpr ⟨pair, mem, inPair⟩)) rest
  rw [tableLines, cons_append, tableHeaderLine, Toml.linesReading, pairs]
  cases Toml.linesReading rest with
  | none => rfl
  | some list => rfl

theorem linesReading_record {record : List (Nat × Toml.Table)}
    (undeleted : ∀ entry ∈ record, ∀ s ∈ tableStrings entry.2, Undeleted s)
    (rest : List Toml.Line) :
    Toml.linesReading (recordLines record ++ rest) = (Toml.linesReading rest).map
        (record.flatMap (fun entry => tableExpressions entry.2) ++ ·) := by
  rw [recordLines, append_assoc, singleton_append]
  induction record with
  | nil => simp [Toml.linesReading]
  | cons entry more ih =>
    rw [flatMap_cons, append_assoc, linesReading_tableLines (undeleted entry mem_cons_self),
      ih fun entry mem =>
        undeleted entry (mem_cons_of_mem _ mem)]
    cases Toml.linesReading rest with
    | none => rfl
    | some list => simp

theorem linesReading_records (undeleted : ∀ table ∈ recordsTables records,
      ∀ s ∈ tableStrings table, Undeleted s) :
    Toml.linesReading (records.flatMap recordLines) =
      some ((recordsTables records).flatMap tableExpressions) := by
  induction records with
  | nil => rfl
  | cons record more ih =>
    have split : recordsTables (record :: more) = record.map Prod.snd ++ recordsTables more := by
      simp [recordsTables]
    rw [split] at undeleted ⊢
    have first : ∀ entry ∈ record, ∀ s ∈ tableStrings entry.2,
        Undeleted s := by
      intro entry mem
      apply undeleted
      exact mem_append_left _ (mem_map_of_mem mem)
    rw [flatMap_cons, linesReading_record first, ih fun table mem =>
        undeleted table (mem_append_right _ mem),
      Option.map_some, flatMap_append, flatMap_map]

theorem linesReading_records_deleted
    (inRecords : table ∈ recordsTables records)
    (mem : s ∈ tableStrings table) (deleted : ¬ Undeleted s) :
    Toml.linesReading (records.flatMap recordLines) = none := by
  obtain ⟨entry, inEntries, rfl⟩ := mem_map.mp inRecords
  obtain ⟨record, isRecord, inRecord⟩ := mem_flatten.mp inEntries
  obtain ⟨pair, isPair, inPair⟩ := mem_flatMap.mp mem
  obtain ⟨before, after, rfl⟩ := append_of_mem isRecord
  obtain ⟨front, back, rfl⟩ := append_of_mem inRecord
  rw [flatMap_append, flatMap_cons, recordLines, flatMap_append, flatMap_cons]
  apply linesReading_append_none
  rw [append_assoc, append_assoc]
  apply linesReading_append_none
  rw [append_assoc, tableLines, cons_append, tableHeaderLine,
    Toml.linesReading, linesReading_deleted isPair inPair deleted]
  rfl

theorem gather_tableExpressions (tables : List Toml.Table) :
    Toml.gather (tables.flatMap tableExpressions) = ⟨[], tables⟩ := by
  have pairs : ∀ (list : List (Toml.Key × Toml.Value)) (rest : List Toml.Expression),
      Toml.gather ((list.map fun pair => .pair pair.1 pair.2) ++ rest) =
        ⟨list ++ (Toml.gather rest).root, (Toml.gather rest).tables⟩ := by
    intro list rest
    induction list with
    | nil => rfl
    | cons pair more ih =>
      rw [map_cons, cons_append, Toml.gather, ih]
      rfl
  induction tables with
  | nil => rfl
  | cons table more ih =>
    rw [flatMap_cons, tableExpressions, cons_append, Toml.gather, pairs, ih, append_nil]

theorem cutsUtf8_records (plain : ∀ table ∈ recordsTables records, PlainKeys table) :
    IsUtf8 (recordsText records) ↔ ∀ table ∈ recordsTables records, ∀ s ∈ tableStrings table,
        IsUtf8 s := by
  have blank : CutsUtf8 (Toml.Line.text .blank) True := by
    apply cutsUtf8_ascii
    intro c mem
    rw [mem_singleton.mp mem]
    decide
  have each : ∀ record ∈ records, CutsUtf8 ((recordLines record).flatMap Toml.Line.text)
      (∀ entry ∈ record, ∀ s ∈ tableStrings entry.2, IsUtf8 s) := by
    intro record isRecord
    have tables : CutsUtf8 (record.flatMap fun entry =>
        (tableLines entry.1 entry.2).flatMap Toml.Line.text)
        (∀ entry ∈ record, ∀ s ∈ tableStrings entry.2, IsUtf8 s) := by
      apply cutsUtf8_flatMap
      intro entry mem
      apply cutsUtf8_tableLines
      apply plain
      exact mem_map.mpr ⟨entry, mem_flatten.mpr ⟨record, isRecord, mem⟩, rfl⟩
    rw [recordLines, flatMap_append, flatMap_assoc, flatMap_singleton]
    refine (tables.append blank).congr ?_
    rw [and_true]
  have whole := cutsUtf8_flatMap each
  rw [recordsText, flatMap_assoc, whole.isUtf8_iff]
  simp only [recordsTables, mem_map, mem_flatten]
  constructor
  · rintro all table ⟨entry, ⟨record, isRecord, mem⟩, rfl⟩
    exact all record isRecord entry mem
  · intro all record isRecord entry mem
    exact all entry.2 ⟨entry, ⟨record, isRecord, mem⟩, rfl⟩

theorem reads_records_iff (plain : ∀ table ∈ recordsTables records, PlainKeys table) :
    Toml.Reads (recordsText records) ⟨[], recordsTables records⟩ ↔
      ∀ table ∈ recordsTables records, ∀ s ∈ tableStrings table, IsUtf8 s ∧ Undeleted s := by
  have spelled : ∀ line ∈ records.flatMap recordLines, line.Spelled := by
    intro line mem
    obtain ⟨record, isRecord, inRecord⟩ := mem_flatMap.mp mem
    rcases mem_append.mp inRecord with inTables | isBlank
    · obtain ⟨entry, isEntry, inTable⟩ := mem_flatMap.mp inTables
      refine tableLines_spelled (plain entry.2 ?_) entry.1 line inTable
      exact mem_map.mpr ⟨entry, mem_flatten.mpr ⟨record, isRecord, isEntry⟩, rfl⟩
    · rw [mem_singleton.mp isBlank]
      trivial
  have read := Toml.readExpressions_lines spelled
    (Nat.lt_succ_self ((records.flatMap recordLines).flatMap Toml.Line.text).length)
  constructor
  · intro reads table inRecords s mem
    refine ⟨(cutsUtf8_records plain).mp reads.utf8 table inRecords s mem, ?_⟩
    by_contra deleted
    obtain ⟨list, isList, _⟩ := reads.expressions
    rw [recordsText, read, linesReading_records_deleted inRecords mem deleted] at isList
    cases isList
  · intro clean
    refine ⟨(cutsUtf8_records plain).mpr fun table inRecords s mem =>
      (clean table inRecords s mem).1, ?_, ?_⟩
    · refine ⟨(recordsTables records).flatMap tableExpressions, ?_, gather_tableExpressions _⟩
      rw [recordsText, read, linesReading_records fun table inRecords s
        mem => (clean table inRecords s mem).2]
    · exact ⟨nodup_nil, fun table inRecords =>
        (plain table inRecords).distinct⟩

end Records

/-! ## The tables of the directory -/

def stringPair (name : String) (s : List UInt8) : Toml.Key × Toml.Value :=
  (ascii name, .scalar (.string s))

def intPair (name : String) (v : Int32) : Toml.Key × Toml.Value :=
  (ascii name, .scalar (.int v.toInt))

def boolPair (name : String) (b : Bool) : Toml.Key × Toml.Value :=
  (ascii name, .scalar (.bool b))

def arrayPair (name : String) (items : List Toml.Scalar) : Toml.Key × Toml.Value :=
  (ascii name, .array items)

def hexText (bytes : List UInt8) : List UInt8 :=
  bytes.flatMap fun c => [hexDigit (c.toNat / 16), hexDigit (c.toNat % 16)]

def groupTable (g : Group) : Toml.Table where
  path := [ascii "groups"]
  pairs := [stringPair "name" g.name.str.bytes, intPair "gidnumber" g.gidnumber]

def userTable (u : User) : Toml.Table where
  path := [ascii "users"]
  pairs :=
    [stringPair "name" u.name.str.bytes, intPair "uidnumber" u.uidnumber,
      intPair "primarygroup" u.primarygroup] ++
    (if u.secondaryGroups ≠ [] then
      [arrayPair "othergroups" (u.secondaryGroups.map fun gid => .int gid.toInt)]
    else []) ++
    [stringPair "givenname" u.givenname.str.bytes,
      stringPair "sn" u.sn.str.bytes, stringPair "mail" u.mail.str.bytes,
      stringPair "loginshell" u.loginshell.str.bytes,
      stringPair "homedir" u.homedirectory.str.bytes,
      boolPair "disabled" u.disabled] ++
    (if u.passbcrypt.str.length ≠ 0 then
      [stringPair "passbcrypt" (hexText u.passbcrypt.str.bytes)]
    else []) ++
    (if u.appPasswords ≠ [] then
      [arrayPair "passappbcrypt" (u.appPasswords.map fun a =>
        .string (hexText a.passbcrypt.str.bytes))]
    else []) ++
    (if u.sshPublicKey.str.length ≠ 0 then
      [arrayPair "sshkeys" [.string u.sshPublicKey.str.bytes]]
    else [])

def capabilityTable : Toml.Table where
  path := [ascii "users", ascii "capabilities"]
  pairs := [stringPair "action" (ascii "search"), stringPair "object" (ascii "*")]

def userRecord (u : User) : List (Nat × Toml.Table) :=
  (0, userTable u) :: if u.canSearch then [(2, capabilityTable)] else []

def records (d : Directory) : List (List (Nat × Toml.Table)) :=
  (d.groups.entries.map fun g => [(0, groupTable g)]) ++ d.users.entries.map userRecord

/-- What the server is to read: a table for every group and one for every
user, after it the capability of a user who has it. -/
def tables (d : Directory) : List Toml.Table :=
  d.groups.entries.map groupTable ++ d.users.entries.flatMap fun u =>
      userTable u :: if u.canSearch then [capabilityTable] else []

theorem recordsTables_records (d : Directory) : recordsTables (records d) = tables d := by
  have users : ∀ list : List User, ((list.map userRecord).flatten).map Prod.snd =
        list.flatMap fun u =>
          userTable u :: if u.canSearch then [capabilityTable] else [] := by
    intro list
    induction list with
    | nil => rfl
    | cons u rest ih =>
      rw [map_cons, flatten_cons, map_append, ih, flatMap_cons]
      congr 1
      unfold userRecord
      split <;> rfl
  have groups : ∀ list : List Group, ((list.map fun g => [(0, groupTable g)]).flatten).map
        (Prod.snd : Nat × Toml.Table → Toml.Table) = list.map groupTable := by
    intro list
    induction list with
    | nil => rfl
    | cons g rest ih =>
      rw [map_cons, flatten_cons, map_append, ih]
      rfl
  rw [recordsTables, records, flatten_append, map_append, users, groups]
  rfl

/-! ## The rendering is their text -/

variable {name lead : String}

def textOf (list : List Piece) : List UInt8 :=
  (list.map Piece.text).flatten

theorem textOf_append (first second : List Piece) :
    textOf (first ++ second) = textOf first ++ textOf second := by
  simp [textOf]

theorem textOf_cons (piece : Piece) (rest : List Piece) :
    textOf (piece :: rest) = piece.text ++ textOf rest := rfl

theorem text_string (s : CStr) : (Piece.string s).text = scalarText (.string s.bytes) := by
  simp [Piece.text, Piece.chunks, scalarText, List.flatMap]

theorem text_int (v : Int32) : (Piece.int v).text = scalarText (.int v.toInt) := by
  simp [Piece.text, Piece.chunks, scalarText]

theorem text_raw (text : String) : (Piece.raw text).text = ascii text := by
  simp [Piece.text, Piece.chunks]

theorem textOf_listPieces {α : Type} {piece : α → Piece}
    {item : α → Toml.Scalar}
    (same : ∀ a, (piece a).text = scalarText (item a)) (list : List α) :
    textOf (listPieces (list.map piece)) = Toml.itemsText ((list.map item).map scalarText) := by
  have comma : ascii ", " = [44, 32] := by decide
  induction list with
  | nil => rfl
  | cons a rest ih =>
    cases rest with
    | nil => simp [listPieces, textOf, Toml.itemsText, same]
    | cons b more =>
      have first : listPieces ((a :: b :: more).map piece) =
          piece a :: .raw ", " :: listPieces ((b :: more).map piece) :=
        rfl
      rw [first, textOf_cons, textOf_cons, ih, text_raw, comma, same]
      rfl

theorem text_pairLine (name : Toml.Key) (value : Toml.Value) : (pairLine 0 (name, value)).text =
      10 :: (name ++ 32 :: 61 :: 32 :: valueText value) := rfl

theorem textOf_stringPair (isLead : ascii lead = 10 :: (ascii name ++ [32, 61, 32])) (s : CStr)
    (rest : List Piece) :
    textOf (.raw lead :: .string s :: rest) =
      (pairLine 0 (stringPair name s.bytes)).text ++ textOf rest := by
  rw [textOf_cons, textOf_cons, text_raw, isLead, text_string, stringPair, text_pairLine, valueText]
  simp

theorem textOf_intPair (isLead : ascii lead = 10 :: (ascii name ++ [32, 61, 32])) (v : Int32)
    (rest : List Piece) :
    textOf (.raw lead :: .int v :: rest) = (pairLine 0 (intPair name v)).text ++ textOf rest := by
  rw [textOf_cons, textOf_cons, text_raw, isLead, text_int, intPair, text_pairLine, valueText]
  simp

theorem textOf_arrayPair {α : Type} (isLead : ascii lead = 10 :: (ascii name ++ [32, 61, 32, 91]))
    {piece : α → Piece} {item : α → Toml.Scalar}
    (same : ∀ a, (piece a).text = scalarText (item a)) (list : List α)
    (rest : List Piece) :
    textOf (.raw lead :: listPieces (list.map piece) ++ .raw "]" :: rest) =
      (pairLine 0 (arrayPair name (list.map item))).text ++ textOf rest := by
  have closing : ascii "]" = [93] := by decide
  rw [cons_append, textOf_cons, textOf_append, textOf_cons, text_raw,
    text_raw, isLead, closing, textOf_listPieces same, arrayPair,
    text_pairLine, valueText]
  simp

theorem textOf_header {path : List Toml.Key} (isLead : ascii lead = (tableHeaderLine 0 path).text ++
      10 :: (ascii name ++ [32, 61, 32])) (s : CStr) (rest : List Piece) :
    textOf (.raw lead :: .string s :: rest) = (tableHeaderLine 0 path).text ++
        ((pairLine 0 (stringPair name s.bytes)).text ++ textOf rest) := by
  rw [textOf_cons, textOf_cons, text_raw, isLead, text_string, stringPair, text_pairLine, valueText]
  simp

def pairsText (pairs : List (Toml.Key × Toml.Value)) : List UInt8 :=
  (pairs.map (pairLine 0)).flatMap Toml.Line.text

theorem pairsText_append (first second : List (Toml.Key × Toml.Value)) :
    pairsText (first ++ second) = pairsText first ++ pairsText second := by
  simp [pairsText]

theorem text_tableLines (table : Toml.Table) : (tableLines 0 table).flatMap Toml.Line.text =
      (tableHeaderLine 0 table.path).text ++ pairsText table.pairs := rfl

theorem newlineText : ascii "\n" = [10] := by
  decide

theorem groupText (g : Group) : textOf (groupPieces g) =
      (recordLines [(0, groupTable g)]).flatMap Toml.Line.text := by
  have header : ascii "\n[[groups]]\nname = " = (tableHeaderLine 0 [ascii "groups"]).text ++
        10 :: (ascii "name" ++ [32, 61, 32]) := by decide
  have gidnumber : ascii "\ngidnumber = " = 10 :: (ascii "gidnumber" ++ [32, 61, 32]) := by decide
  rw [groupPieces, textOf_header header, textOf_intPair gidnumber,
    textOf_cons, text_raw, newlineText]
  simp [recordLines, tableLines, groupTable, textOf, Toml.Line.text]

theorem bcryptHex_bytes (hash : BoundedStr 61) :
    (bcryptHex hash.str).bytes = hexText hash.str.bytes := by
  have whole : hash.str.bytes.take 60 = hash.str.bytes :=
    take_of_length_le (Nat.le_of_lt_succ hash.fits)
  have digit : ∀ n < 16, hexDigit n ≠ 0 := by decide
  have nonzero : ∀ byte ∈ hexText hash.str.bytes, byte ≠ 0 := by
    intro byte mem
    obtain ⟨c, _, isDigit⟩ := mem_flatMap.mp mem
    have small := c.toNat_lt
    rcases mem_pair.mp isDigit with rfl | rfl
    · exact digit _ (by omega)
    · exact digit _ (by omega)
  rw [bcryptHex, whole]
  apply takeWhile_eq_self_iff.mpr
  intro byte mem
  simpa using nonzero byte mem

theorem textOf_ite {p : Prop} [Decidable p] {list : List Piece}
    {pairs : List (Toml.Key × Toml.Value)}
    (same : textOf list = pairsText pairs) :
    textOf (if p then list else []) = pairsText (if p then pairs else []) := by
  split
  · exact same
  · rfl

theorem capabilityText :
    ascii "\n" ++ ascii "  [[users.capabilities]]\n  action = \"search\"\n  object = \"*\"\n" =
      (tableLines 2 capabilityTable).flatMap Toml.Line.text ++ [10] := by
  decide

theorem userText (u : User) : textOf (userPieces u) =
      (recordLines (userRecord u)).flatMap Toml.Line.text := by
  have header : ascii "\n[[users]]\nname = " = (tableHeaderLine 0 [ascii "users"]).text ++
        10 :: (ascii "name" ++ [32, 61, 32]) := by decide
  have uidnumber : ascii "\nuidnumber = " = 10 :: (ascii "uidnumber" ++ [32, 61, 32]) := by decide
  have primarygroup : ascii "\nprimarygroup = " =
      10 :: (ascii "primarygroup" ++ [32, 61, 32]) := by decide
  have othergroups : ascii "\nothergroups = [" =
      10 :: (ascii "othergroups" ++ [32, 61, 32, 91]) := by decide
  have givenname : ascii "\ngivenname = " = 10 :: (ascii "givenname" ++ [32, 61, 32]) := by decide
  have sn : ascii "\nsn = " = 10 :: (ascii "sn" ++ [32, 61, 32]) := by decide
  have mail : ascii "\nmail = " = 10 :: (ascii "mail" ++ [32, 61, 32]) := by decide
  have loginshell : ascii "\nloginshell = " =
      10 :: (ascii "loginshell" ++ [32, 61, 32]) := by decide
  have homedir : ascii "\nhomedir = " = 10 :: (ascii "homedir" ++ [32, 61, 32]) := by decide
  have disabled : ascii "\ndisabled = " = 10 :: (ascii "disabled" ++ [32, 61, 32]) := by decide
  have passbcrypt : ascii "\npassbcrypt = " =
      10 :: (ascii "passbcrypt" ++ [32, 61, 32]) := by decide
  have passappbcrypt : ascii "\npassappbcrypt = [" =
      10 :: (ascii "passappbcrypt" ++ [32, 61, 32, 91]) := by decide
  have sshkeys : ascii "\nsshkeys = [" = 10 :: (ascii "sshkeys" ++ [32, 61, 32, 91]) := by decide
  have flag : textOf [.raw "\ndisabled = ", .raw (if u.disabled then "true" else "false")] =
        (pairLine 0 (boolPair "disabled" u.disabled)).text := by
    rw [textOf_cons, textOf_cons, text_raw, text_raw, disabled, boolPair,
      text_pairLine, valueText, scalarText]
    simp [textOf]
  have name : textOf [.raw "\n[[users]]\nname = ", .string u.name.str,
      .raw "\nuidnumber = ", .int u.uidnumber,
      .raw "\nprimarygroup = ", .int u.primarygroup] = (tableHeaderLine 0 [ascii "users"]).text ++
          pairsText [stringPair "name" u.name.str.bytes, intPair "uidnumber" u.uidnumber,
            intPair "primarygroup" u.primarygroup] := by
    rw [textOf_header header, textOf_intPair uidnumber, textOf_intPair primarygroup]
    rfl
  have groups : textOf (.raw "\nothergroups = [" ::
      listPieces (u.secondaryGroups.map .int) ++ [.raw "]"]) = pairsText [arrayPair "othergroups"
          (u.secondaryGroups.map fun gid => .int gid.toInt)] := by
    rw [textOf_arrayPair othergroups text_int]
    rfl
  have person : textOf [.raw "\ngivenname = ", .string u.givenname.str,
      .raw "\nsn = ", .string u.sn.str, .raw "\nmail = ",
      .string u.mail.str, .raw "\nloginshell = ", .string u.loginshell.str,
      .raw "\nhomedir = ", .string u.homedirectory.str,
      .raw "\ndisabled = ",
      .raw (if u.disabled then "true" else "false")] =
        pairsText [stringPair "givenname" u.givenname.str.bytes,
          stringPair "sn" u.sn.str.bytes, stringPair "mail" u.mail.str.bytes,
          stringPair "loginshell" u.loginshell.str.bytes,
          stringPair "homedir" u.homedirectory.str.bytes,
          boolPair "disabled" u.disabled] := by
    rw [textOf_stringPair givenname, textOf_stringPair sn,
      textOf_stringPair mail, textOf_stringPair loginshell,
      textOf_stringPair homedir, flag]
    simp [pairsText]
  have hash : textOf [.raw "\npassbcrypt = ", .string (bcryptHex u.passbcrypt.str)] =
        pairsText [stringPair "passbcrypt" (hexText u.passbcrypt.str.bytes)] := by
    rw [textOf_stringPair passbcrypt, bcryptHex_bytes]
    rfl
  have apps : textOf (.raw "\npassappbcrypt = [" :: listPieces (u.appPasswords.map fun a =>
        .string (bcryptHex a.passbcrypt.str)) ++ [.raw "]"]) =
        pairsText [arrayPair "passappbcrypt" (u.appPasswords.map fun a =>
          .string (hexText a.passbcrypt.str.bytes))] := by
    have same : ∀ a : AppPassword, (Piece.string (bcryptHex a.passbcrypt.str)).text =
          scalarText (.string (hexText a.passbcrypt.str.bytes)) := by
      intro a
      rw [text_string, bcryptHex_bytes]
    rw [textOf_arrayPair passappbcrypt same]
    rfl
  have sshKey : textOf [.raw "\nsshkeys = [", .string u.sshPublicKey.str, .raw "]"] =
        pairsText [arrayPair "sshkeys" [.string u.sshPublicKey.str.bytes]] := by
    have array := textOf_arrayPair sshkeys text_string [u.sshPublicKey.str] []
    exact array
  have record : (recordLines (userRecord u)).flatMap Toml.Line.text =
      (tableHeaderLine 0 [ascii "users"]).text ++ pairsText (userTable u).pairs ++
        ((if u.canSearch then (tableLines 2 capabilityTable).flatMap
          Toml.Line.text else []) ++ [10]) := by
    unfold userRecord
    cases u.canSearch with
    | true => simp [recordLines, text_tableLines, Toml.Line.text, userTable]
    | false => simp [recordLines, text_tableLines, Toml.Line.text, userTable]
  have tail : textOf [.raw "\n"] ++ textOf (if u.canSearch then
      [.raw "  [[users.capabilities]]\n  action = \"search\"\n  object = \"*\"\n"]
      else []) = (if u.canSearch then (tableLines 2 capabilityTable).flatMap
          Toml.Line.text else []) ++ [10] := by
    cases u.canSearch with
    | true =>
      rw [if_pos rfl, if_pos rfl, ← capabilityText]
      simp [textOf, text_raw]
    | false =>
      rw [if_neg (by decide), if_neg (by decide)]
      simp [textOf, text_raw, newlineText]
  rw [record, ← tail, userPieces, userTable]
  simp only [textOf_append, pairsText_append, name, textOf_ite groups,
    person, textOf_ite hash, textOf_ite apps, textOf_ite sshKey,
    append_assoc]

theorem rendering_eq (d : Directory) : rendering d = recordsText (records d) := by
  have groups : ∀ list : List Group, textOf (list.flatMap groupPieces) =
        recordsText (list.map fun g => [(0, groupTable g)]) := by
    intro list
    induction list with
    | nil => rfl
    | cons g rest ih =>
      rw [flatMap_cons, textOf_append, ih, groupText]
      simp [recordsText]
  have users : ∀ list : List User, textOf (list.flatMap userPieces) =
        recordsText (list.map userRecord) := by
    intro list
    induction list with
    | nil => rfl
    | cons u rest ih =>
      rw [flatMap_cons, textOf_append, ih, userText]
      simp [recordsText]
  change textOf (pieces d) = _
  rw [pieces, textOf_append, groups, users, records]
  simp [recordsText]

/-! ## The keys and the strings of the tables -/

theorem groupTable_plain (g : Group) : PlainKeys (groupTable g) := by
  have bare : ∀ key ∈ [ascii "groups", ascii "name", ascii "gidnumber"],
      Toml.Bare key := by decide
  refine ⟨by simp [groupTable], ?_, ?_, ?_⟩
  · intro key mem
    obtain rfl := mem_singleton.mp mem
    exact bare _ mem_cons_self
  · intro pair mem
    exact bare pair.1 (by
      rcases mem_pair.mp mem with rfl | rfl
      · simp [stringPair]
      · simp [intPair])
  · change [ascii "name", ascii "gidnumber"].Nodup
    decide

theorem capabilityTable_plain : PlainKeys capabilityTable := by
  have bare : ∀ key ∈ [ascii "users", ascii "capabilities", ascii "action",
      ascii "object"], Toml.Bare key := by decide
  refine ⟨by simp [capabilityTable], ?_, ?_, ?_⟩
  · intro key mem
    exact bare key (by
      rcases mem_pair.mp mem with rfl | rfl
      · simp
      · simp)
  · intro pair mem
    exact bare pair.1 (by
      rcases mem_pair.mp mem with rfl | rfl
      · simp [stringPair]
      · simp [stringPair])
  · change [ascii "action", ascii "object"].Nodup
    decide

def userKeys : List Toml.Key :=
  [ascii "name", ascii "uidnumber", ascii "primarygroup"] ++ [ascii "othergroups"] ++
    [ascii "givenname", ascii "sn", ascii "mail", ascii "loginshell",
      ascii "homedir", ascii "disabled"] ++
    [ascii "passbcrypt"] ++ [ascii "passappbcrypt"] ++ [ascii "sshkeys"]

theorem sublist_ite {α β : Type} {p : Prop} [Decidable p] {f : α → β}
    (a : α) : ((if p then [a] else []).map f).Sublist [f a] := by
  split
  · exact List.Sublist.refl _
  · exact nil_sublist _

theorem sublist_userKeys (u : User) : ((userTable u).pairs.map Prod.fst).Sublist userKeys := by
  simp only [userTable, map_append]
  exact (((((List.Sublist.refl _).append (sublist_ite _)).append
    (List.Sublist.refl _)).append (sublist_ite _)).append (sublist_ite _)).append (sublist_ite _)

theorem userTable_plain (u : User) : PlainKeys (userTable u) := by
  have bare : ∀ key ∈ ascii "users" :: userKeys, Toml.Bare key := by decide
  have distinct : userKeys.Nodup := by decide
  refine ⟨by simp [userTable], ?_, ?_,
    distinct.sublist (sublist_userKeys u)⟩
  · intro key mem
    obtain rfl := mem_singleton.mp mem
    exact bare _ mem_cons_self
  · intro pair mem
    have among := (sublist_userKeys u).subset (mem_map_of_mem mem)
    exact bare pair.1 (mem_cons_of_mem _ among)

theorem tables_plain (d : Directory) : ∀ table ∈ tables d, PlainKeys table := by
  intro table mem
  rcases mem_append.mp mem with isGroup | ofUser
  · obtain ⟨g, _, rfl⟩ := mem_map.mp isGroup
    exact groupTable_plain g
  · obtain ⟨u, _, isUser⟩ := mem_flatMap.mp ofUser
    rcases mem_cons.mp isUser with rfl | isCapability
    · exact userTable_plain u
    · split at isCapability
      · rw [mem_singleton.mp isCapability]
        exact capabilityTable_plain
      · cases isCapability

def CleanText (s : List UInt8) : Prop :=
  IsUtf8 s ∧ Undeleted s

def freeText (u : User) : List (List UInt8) :=
  [u.givenname.str.bytes, u.sn.str.bytes, u.mail.str.bytes,
    u.loginshell.str.bytes, u.homedirectory.str.bytes,
    u.sshPublicKey.str.bytes]

def CleanTexts (d : Directory) : Prop :=
  ∀ u ∈ d.users.entries, ∀ s ∈ freeText u, CleanText s

theorem cleanText_of_small (small : ∀ c ∈ s, c < 0x7f) : CleanText s := by
  constructor
  · have isAscii : IsAscii s := fun c mem =>
      UInt8.lt_trans (small c mem) (by decide)
    have utf8 := (@isUtf8_ascii_append s [] isAscii).mpr isUtf8_nil
    rwa [append_nil] at utf8
  · intro c mem
    have notDelete := UInt8.ne_of_lt (small c mem)
    simpa [isDelete] using notDelete

theorem cleanText_hexText (bytes : List UInt8) : CleanText (hexText bytes) := by
  have digit : ∀ n < 16, hexDigit n < 0x7f := by decide
  apply cleanText_of_small
  intro byte mem
  obtain ⟨c, _, isDigit⟩ := mem_flatMap.mp mem
  have small := c.toNat_lt
  rcases mem_pair.mp isDigit with rfl | rfl
  · exact digit _ (by omega)
  · exact digit _ (by omega)

theorem cleanText_username {name : CStr}
    (valid : ldapUsernameIsValid name = true) : CleanText name.bytes := by
  have lower : ∀ c, isLower c = true → c < 0x7f := by
    intro c isLow
    simp only [isLower, Bool.and_eq_true, decide_eq_true_eq] at isLow
    exact UInt8.lt_of_le_of_lt isLow.2 (by decide)
  have digit : ∀ c, isDigit c = true → c < 0x7f := by
    intro c isDig
    simp only [isDigit, Bool.and_eq_true, decide_eq_true_eq] at isDig
    exact UInt8.lt_of_le_of_lt isDig.2 (by decide)
  apply cleanText_of_small
  unfold ldapUsernameIsValid at valid
  intro c mem
  cases bytes : name.bytes with
  | nil =>
    rw [bytes] at mem
    cases mem
  | cons first rest =>
    rw [bytes] at valid mem
    simp only [Bool.and_eq_true, Bool.or_eq_true, decide_eq_true_eq, all_eq_true] at valid
    obtain ⟨⟨_, start⟩, more⟩ := valid
    rcases mem_cons.mp mem with rfl | inRest
    · rcases start with isLow | rfl
      · exact lower c isLow
      · decide
    · rcases more c inRest with ((isLow | isDig) | rfl) | rfl
      · exact lower c isLow
      · exact digit c isDig
      · decide
      · decide

theorem cleanText_groupTable (g : Group) : ∀ s ∈ tableStrings (groupTable g), CleanText s := by
  intro s mem
  obtain rfl : s = g.name.str.bytes := by
    simpa [tableStrings, groupTable, stringPair, intPair, valueStrings, scalarStrings] using mem
  exact cleanText_username g.nameValid

theorem cleanText_capabilityTable : ∀ s ∈ tableStrings capabilityTable, CleanText s := by
  have small : ∀ s ∈ tableStrings capabilityTable, s.all (· < 0x7f) = true := by decide
  intro s mem
  apply cleanText_of_small
  intro c inText
  simpa using all_eq_true.mp (small s mem) c inText

theorem mem_tableStrings_userTable {u : User} : s ∈ tableStrings (userTable u) ↔
      s = u.name.str.bytes ∨ s ∈ (freeText u).take 5 ∨
      (u.passbcrypt.str.length ≠ 0 ∧ s = hexText u.passbcrypt.str.bytes) ∨
      (∃ a ∈ u.appPasswords, s = hexText a.passbcrypt.str.bytes) ∨
      (u.sshPublicKey.str.length ≠ 0 ∧ s = u.sshPublicKey.str.bytes) := by
  have ofIte : ∀ {p : Prop} [Decidable p] (pair : Toml.Key × Toml.Value),
      s ∈ (if p then [pair] else []).flatMap (fun pair => valueStrings pair.2) ↔
        p ∧ s ∈ valueStrings pair.2 := by
    intro p _ pair
    split <;> simp_all
  have apps : (u.appPasswords ≠ [] ∧ s ∈ valueStrings (arrayPair
      "passappbcrypt" (u.appPasswords.map fun a =>
        .string (hexText a.passbcrypt.str.bytes))).2) ↔
      ∃ a ∈ u.appPasswords, s = hexText a.passbcrypt.str.bytes := by
    simp only [arrayPair, valueStrings, mem_flatMap, mem_map]
    constructor
    · rintro ⟨_, _, ⟨a, mem, rfl⟩, isHash⟩
      exact ⟨a, mem, mem_singleton.mp isHash⟩
    · rintro ⟨a, mem, rfl⟩
      exact ⟨ne_nil_of_mem mem, _, ⟨a, mem, rfl⟩, mem_singleton.mpr rfl⟩
  have groups : s ∉ valueStrings (arrayPair "othergroups"
      (u.secondaryGroups.map fun gid => .int gid.toInt)).2 := by
    simp [arrayPair, valueStrings, scalarStrings]
  simp only [tableStrings, userTable, flatMap_append, mem_append,
    ofIte, apps, groups, and_false, or_false]
  simp [stringPair, intPair, boolPair, arrayPair, valueStrings, scalarStrings, freeText, or_assoc]

theorem cleanText_userTable (u : User) : (∀ s ∈ tableStrings (userTable u), CleanText s) ↔
      ∀ s ∈ freeText u, CleanText s := by
  have split : freeText u = (freeText u).take 5 ++ [u.sshPublicKey.str.bytes] := rfl
  constructor
  · intro all s mem
    rw [split] at mem
    rcases mem_append.mp mem with isText | isKey
    · exact all s (mem_tableStrings_userTable.mpr (Or.inr (Or.inl isText)))
    · obtain rfl := mem_singleton.mp isKey
      by_cases empty : u.sshPublicKey.str.length = 0
      · rw [eq_nil_of_length_eq_zero empty]
        apply cleanText_of_small
        intro c mem
        cases mem
      · apply all
        exact mem_tableStrings_userTable.mpr (Or.inr (Or.inr (Or.inr (Or.inr ⟨empty, rfl⟩))))
  · intro all s mem
    rcases mem_tableStrings_userTable.mp mem with
      rfl | isText | ⟨_, rfl⟩ | ⟨a, _, rfl⟩ | ⟨_, rfl⟩
    · exact cleanText_username u.nameValid
    · exact all s (mem_of_mem_take isText)
    · exact cleanText_hexText _
    · exact cleanText_hexText _
    · apply all
      rw [split]
      exact mem_append_right _ (mem_singleton.mpr rfl)

theorem cleanText_tables (d : Directory) :
    (∀ table ∈ tables d, ∀ s ∈ tableStrings table, CleanText s) ↔
      CleanTexts d := by
  constructor
  · intro all u mem
    apply (cleanText_userTable u).mp
    apply all
    exact mem_append_right _ (mem_flatMap.mpr ⟨u, mem, mem_cons_self⟩)
  · intro clean table mem
    rcases mem_append.mp mem with isGroup | ofUser
    · obtain ⟨g, _, rfl⟩ := mem_map.mp isGroup
      exact cleanText_groupTable g
    · obtain ⟨u, inUsers, isUser⟩ := mem_flatMap.mp ofUser
      rcases mem_cons.mp isUser with rfl | isCapability
      · exact (cleanText_userTable u).mpr (clean u inUsers)
      · split at isCapability
        · rw [mem_singleton.mp isCapability]
          exact cleanText_capabilityTable
        · cases isCapability

/-! ## What the server reads -/

/-- A text that is rendered is whole and says the tables of the directory, and
nothing is rendered when it does not fit: so it is unless the text fits and a
free text is not clean. -/
theorem rendered_reads_back_iff (bufsize : Nat) (d : Directory) :
    ((∀ text, renderUsersGroupsToml bufsize d = some text →
        text = rendering d ∧ Toml.Reads text ⟨[], tables d⟩) ∧
      (bufsize ≤ (rendering d).length → renderUsersGroupsToml bufsize d = none)) ↔
      (bufsize ≤ (rendering d).length ∨ CleanTexts d) := by
  have plain : ∀ table ∈ recordsTables (records d), PlainKeys table := by
    rw [recordsTables_records]
    exact tables_plain d
  have reads : Toml.Reads (rendering d) ⟨[], tables d⟩ ↔ CleanTexts d := by
    rw [rendering_eq, ← recordsTables_records, reads_records_iff plain, recordsTables_records]
    exact cleanText_tables d
  rw [renderUsersGroupsToml_eq]
  by_cases fits : (rendering d).length < bufsize
  · rw [if_pos fits]
    have notLong : ¬ bufsize ≤ (rendering d).length := Nat.not_le.mpr fits
    constructor
    · rintro ⟨whole, _⟩
      exact Or.inr (reads.mp (whole _ rfl).2)
    · rintro (long | clean)
      · exact absurd long notLong
      · refine ⟨?_, fun long => absurd long notLong⟩
        intro text isText
        obtain rfl := Option.some.inj isText
        exact ⟨rfl, reads.mpr clean⟩
  · rw [if_neg fits]
    refine iff_of_true ⟨?_, fun _ => rfl⟩ (Or.inl (Nat.le_of_not_lt fits))
    intro text isText
    cases isText

def namedUser (givenname : CStr) : User where
  name := BoundedStr.store 32 pos_32 (CStr.ofString "ann")
  nameValid := by decide
  uidnumber := 10000
  primarygroup := 10000
  secondaryGroups := []
  secondaryCount := by decide
  givenname := BoundedStr.store 128 pos_128 givenname
  sn := BoundedStr.store 128 pos_128 CStr.empty
  mail := BoundedStr.store 128 pos_128 CStr.empty
  loginshell := BoundedStr.store 128 pos_128 CStr.empty
  homedirectory := BoundedStr.store 128 pos_128 CStr.empty
  passbcrypt := BoundedStr.store 61 pos_61 CStr.empty
  disabled := false
  ownerContainer := BoundedStr.store 64 pos_64 CStr.empty
  canSearch := false
  sshPublicKey := BoundedStr.store 1024 pos_1024 CStr.empty
  appPasswords := []
  appCount := by decide

def namedDirectory (givenname : CStr) : Directory where
  users := (Slots.empty 256).put 0 (some (namedUser givenname))
  groups := Slots.empty 64
  usersFile := none
  groupsFile := none

/-- The delete character in a given name, which no TOML reader lets through. -/
theorem delete_character_is_not_read : ∃ text, renderUsersGroupsToml 1048576
        (namedDirectory (CStr.ofBytes [97, 0x7f])) = some text ∧
      Toml.readExpressions (text.length + 1) text = none ∧
      ¬ Toml.Reads text ⟨[], tables (namedDirectory (CStr.ofBytes [97, 0x7f]))⟩ := by
  have fits : (rendering (namedDirectory
      (CStr.ofBytes [97, 0x7f]))).length < 1048576 := by decide +kernel
  have refused : Toml.readExpressions
      ((rendering (namedDirectory (CStr.ofBytes [97, 0x7f]))).length + 1)
      (rendering (namedDirectory (CStr.ofBytes [97, 0x7f]))) = none := by
    decide +kernel
  refine ⟨_, ?_, refused, ?_⟩
  · rw [renderUsersGroupsToml_eq, if_pos fits]
  · intro reads
    obtain ⟨list, isList, _⟩ := reads.expressions
    rw [refused] at isList
    cases isList

end Cix.Ldap
