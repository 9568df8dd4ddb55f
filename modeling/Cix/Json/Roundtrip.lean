import Cix.Json.Parser
import Cix.Json.Writer
import Mathlib.Data.Nat.Digits.Lemmas

/-!
# What is written is read back

`json_parse` reads the text of a document as the tree that the document
denotes.  One lemma for strings, one for integers, and one for each of the
three parsing functions that recurse; the fuel that a text needs is at most
its length.
-/

namespace Cix.Json

open Cix.Lib List

variable {c : UInt8}

theorem hexValue_hexDigit {n : Nat} (small : n < 16) : hexValue (hexDigit n) = some n := by
  revert n
  decide

theorem parseUnicode_control (control : c < 0x20) (rest : List UInt8) :
    parseUnicode (48 :: 48 :: hexDigit (c.toNat / 16) ::
      hexDigit (c.toNat % 16) :: rest) = some ([c], rest) := by
  have small : c.toNat < 32 := by simpa using UInt8.lt_iff_toNat_lt.mp control
  have zero : hexValue 48 = some 0 := by decide
  have high := hexValue_hexDigit (n := c.toNat / 16) (by omega)
  have low := hexValue_hexDigit (n := c.toNat % 16) (by omega)
  have sum : c.toNat / 16 * 16 + c.toNat % 16 = c.toNat := by omega
  simp only [parseUnicode, parseHex4, zero, high, low, Nat.zero_mul, Nat.zero_add, sum]
  rw [if_neg (by omega), if_neg (by omega), utf8Encode, if_pos (by omega), UInt8.ofNat_toNat]

theorem parseStringLoop_escapeByte (fuel : Nat) (c : UInt8) (rest : List UInt8) :
    parseStringLoop (fuel + 1) (escapeByte c ++ rest) =
      (parseStringLoop fuel rest).map fun (more, rest) =>
        (c :: more, rest) := by
  unfold escapeByte
  split_ifs with quote backslash newline tab ret backspace feed control
  · subst quote
    simp [parseStringLoop, simpleEscape]
  · subst backslash
    simp [parseStringLoop, simpleEscape]
  · subst newline
    simp [parseStringLoop, simpleEscape]
  · subst tab
    simp [parseStringLoop, simpleEscape]
  · subst ret
    simp [parseStringLoop, simpleEscape]
  · subst backspace
    simp [parseStringLoop, simpleEscape]
  · subst feed
    simp [parseStringLoop, simpleEscape]
  · simp [parseStringLoop, parseUnicode_control control]
  · simp [parseStringLoop, quote, backslash]

theorem parseStringLoop_escapeContent {fuel : Nat} {bytes : List UInt8}
    (enough : bytes.length < fuel) (rest : List UInt8) :
    parseStringLoop fuel (escapeContent bytes ++ 34 :: rest) = some (bytes, rest) := by
  induction bytes generalizing fuel with
  | nil =>
    obtain ⟨fuel, rfl⟩ := Nat.exists_eq_succ_of_ne_zero (by omega : fuel ≠ 0)
    simp [escapeContent, parseStringLoop]
  | cons c bytes ih =>
    obtain ⟨fuel, rfl⟩ := Nat.exists_eq_succ_of_ne_zero (by omega : fuel ≠ 0)
    have fewer : bytes.length < fuel := by
      simp only [length_cons] at enough
      omega
    have tail := ih fewer
    simp only [escapeContent, flatMap_cons, append_assoc] at tail ⊢
    rw [parseStringLoop_escapeByte, tail]
    rfl

theorem length_le_escapeContent (bytes : List UInt8) :
    bytes.length ≤ (escapeContent bytes).length := by
  induction bytes with
  | nil => simp
  | cons c bytes ih =>
    have nonempty : 1 ≤ (escapeByte c).length := by
      unfold escapeByte
      split_ifs <;> simp
    simp only [escapeContent, flatMap_cons, length_append, length_cons] at ih ⊢
    omega

theorem parseStringRaw_escapedString (s : CStr) (rest : List UInt8) :
    parseStringRaw (escapedString s ++ rest) = some (s, rest) := by
  have enough : s.bytes.length < (escapeContent s.bytes ++ 34 :: rest).length + 1 := by
    have := length_le_escapeContent s.bytes
    simp only [length_append, length_cons]
    omega
  simp only [escapedString, cons_append, append_assoc, nil_append, parseStringRaw]
  rw [parseStringLoop_escapeContent enough, Option.map_some, CStr.ofBytes_bytes]

theorem digitByte {digit : Nat} (small : digit < 10) : isDigit (UInt8.ofNat (48 + digit)) = true ∧
      (UInt8.ofNat (48 + digit)).toNat - 48 = digit := by
  revert digit
  decide

theorem isDigit_of_mem_natText {n : Nat} (mem : c ∈ natText n) : isDigit c = true := by
  unfold natText at mem
  split_ifs at mem with zero
  · rw [mem_singleton] at mem
    subst mem
    decide
  · obtain ⟨digit, digitMember, rfl⟩ := mem_map.mp mem
    exact (digitByte (Nat.digits_lt_base (by omega) (mem_reverse.mp digitMember))).1

theorem not_mem_natText (n : Nat) (other : isDigit c = false) : c ∉ natText n := by
  intro mem
  rw [isDigit_of_mem_natText mem] at other
  cases other

theorem not_mem_intText {c : UInt8} (v : Int) (other : isDigit c = false)
    (notMinus : c ≠ 45) : c ∉ intText v := by
  unfold intText
  split
  · simp [notMinus, not_mem_natText _ other]
  · exact not_mem_natText _ other

theorem natText_ne_nil (n : Nat) : natText n ≠ [] := by
  unfold natText
  split_ifs with zero
  · simp
  · simpa using Nat.digits_ne_nil_iff_ne_zero.mpr zero

theorem natText_head {n : Nat} (positive : n ≠ 0) : (natText n).head? ≠ some 48 := by
  have nonempty := Nat.digits_ne_nil_iff_ne_zero (b := 10).mpr positive
  have last := Nat.getLast_digit_ne_zero 10 positive
  have small : (Nat.digits 10 n).getLast nonempty < 10 :=
    Nat.digits_lt_base (by omega) (getLast_mem nonempty)
  rw [natText, if_neg positive, head?_map, head?_reverse,
    getLast?_eq_some_getLast nonempty, Option.map_some]
  intro equal
  have byte := (digitByte small).2
  rw [Option.some.inj equal] at byte
  exact last byte.symm

theorem natText_length {n : Nat} (bounded : n ≤ 2 ^ 53) : (natText n).length ≤ 16 := by
  unfold natText
  split_ifs with zero
  · simp
  · have digits : (Nat.digits 10 n).length ≤ 16 :=
      (Nat.digits_length_le_iff (by omega) n).mpr (by omega)
    simpa using digits

theorem digitsValue_map (digits : List Nat) (small : ∀ digit ∈ digits, digit < 10) :
    digitsValue (digits.reverse.map fun digit => UInt8.ofNat (48 + digit)) =
      Nat.ofDigits 10 digits := by
  induction digits with
  | nil => rfl
  | cons digit rest ih =>
    have tail := ih fun d mem =>
      small d (mem_cons_of_mem digit mem)
    have head := (digitByte (small digit mem_cons_self)).2
    simp only [digitsValue] at tail ⊢
    rw [reverse_cons, map_append, List.foldl_append, tail,
      map_singleton, foldl_cons, foldl_nil, head,
      Nat.ofDigits_cons]
    ring

theorem digitsValue_natText (n : Nat) : digitsValue (natText n) = n := by
  unfold natText
  split_ifs with zero
  · rw [zero]
    decide
  · rw [digitsValue_map _ fun digit mem =>
      Nat.digits_lt_base (by omega) mem, Nat.ofDigits_digits]

def EndsNumber (rest : List UInt8) : Prop :=
  ∀ c tail, rest = c :: tail → isDigit c = false ∧ c ≠ 46 ∧ c ≠ 101 ∧ c ≠ 69

theorem endsNumber_nil : EndsNumber [] := by
  intro c tail equality
  cases equality

theorem endsNumber_cons (tail : List UInt8)
    (other : isDigit c = false ∧ c ≠ 46 ∧ c ≠ 101 ∧ c ≠ 69) :
    EndsNumber (c :: tail) := by
  intro head rest equality
  cases equality
  exact other

theorem takeWhile_isDigit (digits : List UInt8) {rest : List UInt8}
    (all : ∀ c ∈ digits, isDigit c = true) (ends : EndsNumber rest) :
    (digits ++ rest).takeWhile isDigit = digits ∧ (digits ++ rest).dropWhile isDigit = rest := by
  rw [takeWhile_append_of_pos all, dropWhile_append_of_pos all]
  cases rest with
  | nil => simp
  | cons c tail =>
    have stop := (ends c tail rfl).1
    simp [stop]

theorem takeOneOf_of_ends {rest : List UInt8} {a b : UInt8}
    (other : ∀ c tail, rest = c :: tail → c ≠ a ∧ c ≠ b) :
    takeOneOf a b rest = (none, rest) := by
  cases rest with
  | nil => rfl
  | cons c tail =>
    have := other c tail rfl
    simp [takeOneOf, this]

theorem scanNumber_intText (v : Int) {rest : List UInt8} (ends : EndsNumber rest) :
    scanNumber (intText v ++ rest) =
      (⟨decide (v < 0), natText v.natAbs, false, [], none, none, []⟩, rest) := by
  have sign : takeOneOf 45 45 (intText v ++ rest) =
      (if v < 0 then some 45 else none, natText v.natAbs ++ rest) := by
    unfold intText
    split_ifs with negative
    · simp [takeOneOf]
    · apply takeOneOf_of_ends
      intro c tail equality
      obtain ⟨digit, digits, nonempty⟩ := exists_cons_of_ne_nil (natText_ne_nil v.natAbs)
      have isDigitHead := isDigit_of_mem_natText (n := v.natAbs) (c := digit) (by simp [nonempty])
      rw [nonempty, cons_append] at equality
      injection equality with headEquality _tailEquality
      subst headEquality
      constructor <;> (intro minus; subst minus; revert isDigitHead; decide)
  obtain ⟨taken, dropped⟩ := takeWhile_isDigit (natText v.natAbs)
    (fun c mem => isDigit_of_mem_natText mem) ends
  have noPoint : takeOneOf 46 46 rest = (none, rest) :=
    takeOneOf_of_ends fun c tail equality =>
      ⟨(ends c tail equality).2.1, (ends c tail equality).2.1⟩
  have noMark : takeOneOf 101 69 rest = (none, rest) :=
    takeOneOf_of_ends fun c tail equality => (ends c tail equality).2.2
  simp only [scanNumber, sign, taken, dropped, noPoint, noMark,
    Option.isSome_none, Bool.false_eq_true, if_false]
  split_ifs with negative <;> simp [negative]

theorem parseNumber_intText (n : Double.Whole) {rest : List UInt8} (ends : EndsNumber rest) :
    parseNumber (intText n.value ++ rest) = some (.number (Double.ofWhole n), rest) := by
  have short := natText_length n.bounded
  have nonempty := natText_ne_nil n.value.natAbs
  have positive := length_pos_of_ne_nil nonempty
  have sign := Bool.toNat_le (decide (n.value < 0))
  simp only [parseNumber, scanNumber_intText n.value ends]
  rw [if_neg (by simp only [NumberText.length]; omega), if_neg (by
    simp only [NumberText.length, length_nil, Bool.toNat_false, Option.isSome_none]
    omega)]
  simp only [strtod, nonempty, false_and, if_false]
  have noExponent : digitsValue [] = 0 := rfl
  have value := Double.ofDecimal_natAbs n
  simp [digitsValue_natText, noExponent, value]

theorem skipWs_cons (rest : List UInt8) (other : isWs c = false) :
    skipWs (c :: rest) = c :: rest := by
  simp [skipWs, other]

theorem number_start (start : c = 45 ∨ isDigit c = true) :
    isWs c = false ∧ c ≠ 93 ∧ c ≠ 123 ∧ c ≠ 91 ∧ c ≠ 34 ∧ c ≠ 116 ∧ c ≠ 102 ∧ c ≠ 110 := by
  rcases start with rfl | digit
  · decide
  · have other : ∀ byte, isDigit byte = false → c ≠ byte := by
      intro byte notDigit equality
      rw [equality, notDigit] at digit
      exact Bool.false_ne_true digit
    have blank : isWs c = false := by
      simp [isWs, other 32 (by decide), other 9 (by decide),
        other 10 (by decide), other 13 (by decide)]
    exact ⟨blank, other 93 (by decide), other 123 (by decide),
      other 91 (by decide), other 34 (by decide), other 116 (by decide),
      other 102 (by decide), other 110 (by decide)⟩

theorem intText_start (v : Int) :
    ∃ c tail, intText v = c :: tail ∧ (c = 45 ∨ isDigit c = true) := by
  unfold intText
  split_ifs with negative
  · exact ⟨45, _, rfl, Or.inl rfl⟩
  · obtain ⟨digit, digits, nonempty⟩ := exists_cons_of_ne_nil (natText_ne_nil v.natAbs)
    have isDigitHead := isDigit_of_mem_natText (n := v.natAbs) (c := digit) (by simp [nonempty])
    exact ⟨digit, digits, nonempty, Or.inr isDigitHead⟩

theorem text_start (d : Doc) : ∃ c tail, d.text = c :: tail ∧ isWs c = false ∧ c ≠ 93 := by
  cases d with
  | null => exact ⟨110, ascii "ull", by rw [Doc.text]; decide⟩
  | bool b =>
    cases b with
    | true => exact ⟨116, ascii "rue", by rw [Doc.text]; decide⟩
    | false => exact ⟨102, ascii "alse", by rw [Doc.text]; decide⟩
  | int n =>
    obtain ⟨c, tail, equality, start⟩ := intText_start n.value
    have facts := number_start start
    exact ⟨c, tail, by rw [Doc.text, equality], facts.1, facts.2.1⟩
  | str s => exact ⟨34, _, by rw [Doc.text, escapedString], by decide⟩
  | arr items => exact ⟨91, _, by rw [Doc.text], by decide⟩
  | obj members => exact ⟨123, _, by rw [Doc.text], by decide⟩

theorem parseValue_number (fuel : Nat) (rest : List UInt8) (start : c = 45 ∨ isDigit c = true) :
    parseValue (fuel + 1) (c :: rest) = parseNumber (c :: rest) := by
  obtain ⟨blank, _, brace, bracket, quote, t, f, n⟩ := number_start start
  have noTrue : stripLiteral (ascii "true") (c :: rest) = none := by
    rw [show ascii "true" = [116, 114, 117, 101] by decide]
    simp [stripLiteral, t]
  have noFalse : stripLiteral (ascii "false") (c :: rest) = none := by
    rw [show ascii "false" = [102, 97, 108, 115, 101] by decide]
    simp [stripLiteral, f]
  have noNull : stripLiteral (ascii "null") (c :: rest) = none := by
    rw [show ascii "null" = [110, 117, 108, 108] by decide]
    simp [stripLiteral, n]
  rw [parseValue, skipWs_cons rest blank]
  simp [brace, bracket, quote, noTrue, noFalse, noNull, start]

theorem parseValue_literal (fuel : Nat) (rest : List UInt8) :
    parseValue (fuel + 1) (ascii "true" ++ rest) = some (.bool true, rest) ∧
    parseValue (fuel + 1) (ascii "false" ++ rest) = some (.bool false, rest) ∧
    parseValue (fuel + 1) (ascii "null" ++ rest) = some (.null, rest) := by
  rw [show ascii "true" = [116, 114, 117, 101] by decide,
    show ascii "false" = [102, 97, 108, 115, 101] by decide,
    show ascii "null" = [110, 117, 108, 108] by decide]
  simp only [parseValue, cons_append, nil_append]
  rw [show ascii "true" = [116, 114, 117, 101] by decide,
    show ascii "false" = [102, 97, 108, 115, 101] by decide,
    show ascii "null" = [110, 117, 108, 108] by decide]
  simp [skipWs, isWs, stripLiteral]

theorem separated_true {pieces : List (List UInt8)} (nonempty : pieces ≠ []) :
    separated true pieces = 44 :: separated false pieces := by
  obtain ⟨piece, rest, rfl⟩ := exists_cons_of_ne_nil nonempty
  simp [separated]

theorem endsNumber_separated (pieces : List (List UInt8)) (close : UInt8) (rest : List UInt8)
    (other : isDigit close = false ∧ close ≠ 46 ∧ close ≠ 101 ∧ close ≠ 69) :
    EndsNumber (separated true pieces ++ close :: rest) := by
  cases pieces with
  | nil => exact endsNumber_cons _ other
  | cons piece pieces => exact endsNumber_cons _ (by decide)

mutual

theorem parseValue_text : ∀ (d : Doc) (fuel : Nat) (rest : List UInt8),
    d.text.length ≤ fuel → EndsNumber rest → parseValue fuel (d.text ++ rest) = some (d.value, rest)
  | d, 0, rest, enough, _ => by
    obtain ⟨c, tail, equality, _⟩ := text_start d
    rw [equality, length_cons] at enough
    omega
  | .null, fuel + 1, rest, _, _ => by
    rw [Doc.text, Doc.value, (parseValue_literal fuel rest).2.2]
  | .bool true, fuel + 1, rest, _, _ => by
    rw [Doc.text, Doc.value]
    exact (parseValue_literal fuel rest).1
  | .bool false, fuel + 1, rest, _, _ => by
    rw [Doc.text, Doc.value]
    exact (parseValue_literal fuel rest).2.1
  | .int n, fuel + 1, rest, _, ends => by
    obtain ⟨c, tail, equality, start⟩ := intText_start n.value
    have number := parseNumber_intText n ends
    rw [equality, cons_append] at number
    rw [Doc.text, Doc.value, equality, cons_append, parseValue_number fuel _ start, number]
  | .str s, fuel + 1, rest, _, _ => by
    have string := parseStringRaw_escapedString s rest
    rw [escapedString, cons_append] at string
    rw [Doc.text, Doc.value, escapedString, cons_append, parseValue, skipWs_cons _ (by decide)]
    simp only [string]
    simp
  | .arr [], fuel + 1, rest, _, _ => by
    simp [Doc.text, Doc.value, Doc.itemTexts, Doc.itemValues, separated, parseValue, skipWs, isWs]
  | .arr (item :: items), fuel + 1, rest, enough, _ => by
    have loop := parseItems_texts (item :: items) fuel [] rest (by simp) (by
        simp only [Doc.text, length_cons, length_append, length_nil] at enough
        omega)
    obtain ⟨c, tail, equality, blank, notClose⟩ := text_start item
    rw [Doc.text, Doc.value, cons_append, append_assoc, parseValue, skipWs_cons _ (by decide)]
    simp only [Doc.itemTexts, separated, equality, cons_append,
      nil_append, append_assoc, Bool.false_eq_true,
      if_false] at loop ⊢
    rw [skipWs_cons _ blank]
    simp [loop, notClose]
  | .obj [], fuel + 1, rest, _, _ => by
    simp [Doc.text, Doc.value, Doc.memberTexts, Doc.memberValues,
      separated, parseValue, skipWs, isWs]
  | .obj ((key, item) :: members), fuel + 1, rest, enough, _ => by
    have loop := parseMembers_texts ((key, item) :: members) fuel [] rest (by simp) (by
        simp only [Doc.text, length_cons, length_append, length_nil] at enough
        omega)
    rw [Doc.text, Doc.value, cons_append, append_assoc, parseValue, skipWs_cons _ (by decide)]
    simp only [Doc.memberTexts, separated, escapedString, cons_append, nil_append, append_assoc,
      Bool.false_eq_true, if_false] at loop ⊢
    rw [skipWs_cons _ (by decide)]
    simp [loop]

theorem parseItems_texts : ∀ (items : List Doc) (fuel : Nat)
    (read : List Value) (rest : List UInt8), items ≠ [] →
    (separated false (Doc.itemTexts items)).length + 1 ≤ fuel → parseItems fuel read
          (separated false (Doc.itemTexts items) ++ 93 :: rest) =
        some (.array (read ++ Doc.itemValues items), rest)
  | [], _, _, _, nonempty, _ => absurd rfl nonempty
  | _ :: _, 0, _, _, _, enough => by omega
  | item :: items, fuel + 1, read, rest, _, enough => by
    simp only [Doc.itemTexts, separated, Bool.false_eq_true, if_false,
      nil_append, length_append] at enough
    have ends := endsNumber_separated (Doc.itemTexts items) 93 rest (by decide)
    have first := parseValue_text item fuel _ (by omega) ends
    simp only [Doc.itemTexts, Doc.itemValues, separated,
      Bool.false_eq_true, if_false, nil_append, append_assoc]
    rw [parseItems, first]
    cases items with
    | nil => simp [Doc.itemTexts, Doc.itemValues, separated, skipWs, isWs]
    | cons second items =>
      have more : Doc.itemTexts (second :: items) ≠ [] := by simp [Doc.itemTexts]
      have remaining := parseItems_texts (second :: items) fuel
        (read ++ [item.value]) rest (by simp) (by
          rw [separated_true more, length_cons] at enough
          omega)
      obtain ⟨c, tail, equality, blank, _⟩ := text_start second
      have start : skipWs (separated false (Doc.itemTexts (second :: items)) ++ 93 :: rest) =
          separated false (Doc.itemTexts (second :: items)) ++ 93 :: rest := by
        simp only [Doc.itemTexts, separated, equality]
        exact skipWs_cons _ blank
      rw [separated_true more, cons_append]
      simp only [skipWs_cons (c := 44) _ (by decide), start, remaining]
      simp

theorem parseMembers_texts : ∀ (members : List (CStr × Doc)) (fuel : Nat)
    (read : List (CStr × Value)) (rest : List UInt8), members ≠ [] →
    (separated false (Doc.memberTexts members)).length + 1 ≤ fuel → parseMembers fuel read
          (separated false (Doc.memberTexts members) ++ 125 :: rest) =
        some (.object (read ++ Doc.memberValues members), rest)
  | [], _, _, _, nonempty, _ => absurd rfl nonempty
  | _ :: _, 0, _, _, _, enough => by omega
  | (key, item) :: members, fuel + 1, read, rest, _, enough => by
    simp only [Doc.memberTexts, separated, Bool.false_eq_true, if_false,
      nil_append, length_append, length_cons] at enough
    have ends := endsNumber_separated (Doc.memberTexts members) 125 rest (by decide)
    have first := parseValue_text item fuel _ (by omega) ends
    have name := parseStringRaw_escapedString key
      (58 :: (item.text ++ (separated true (Doc.memberTexts members) ++ 125 :: rest)))
    have start : skipWs (escapedString key ++ 58 :: (item.text ++
          (separated true (Doc.memberTexts members) ++ 125 :: rest))) =
        escapedString key ++ 58 :: (item.text ++
          (separated true (Doc.memberTexts members) ++ 125 :: rest)) := by
      simp only [escapedString, cons_append]
      exact skipWs_cons _ (by decide)
    simp only [Doc.memberTexts, Doc.memberValues, separated,
      Bool.false_eq_true, if_false, nil_append, append_assoc,
      cons_append]
    rw [parseMembers, start, name]
    simp only [skipWs_cons (c := 58) _ (by decide), first]
    cases members with
    | nil => simp [Doc.memberTexts, Doc.memberValues, separated, skipWs, isWs]
    | cons second members =>
      have more : Doc.memberTexts (second :: members) ≠ [] := by simp [Doc.memberTexts]
      have remaining := parseMembers_texts (second :: members) fuel
        (read ++ [(key, item.value)]) rest (by simp) (by
          rw [separated_true more, length_cons] at enough
          omega)
      rw [separated_true more, cons_append]
      simp only [skipWs_cons (c := 44) _ (by decide), remaining]
      simp

end

theorem jsonParse_text (d : Doc) : jsonParse d.text = some d.value := by
  have parsed := parseValue_text d (d.text.length + 1) [] (by omega) endsNumber_nil
  rw [append_nil] at parsed
  rw [jsonParse, parsed]
  simp [skipWs]

theorem findMember_of_mem {key : CStr} {value : Value}
    {members : List (CStr × Value)}
    (distinct : (members.map Prod.fst).Nodup)
    (mem : (key, value) ∈ members) :
    findMember key members = some value := by
  induction members with
  | nil => cases mem
  | cons head rest ih =>
    rw [map_cons, nodup_cons] at distinct
    rcases mem_cons.mp mem with equality | later
    · rw [← equality, findMember, if_pos rfl]
    · have other : head.1 ≠ key := by
        intro equality
        apply distinct.1
        rw [equality]
        exact mem_map_of_mem later
      rw [findMember, if_neg other]
      exact ih distinct.2 later

theorem objectGet_member {members : List (CStr × Doc)} {name : String}
    {d : Doc} (distinct : (members.map Prod.fst).Nodup)
    (mem : (CStr.ofString name, d) ∈ members) :
    objectGet (some (Doc.obj members).value) name = some d.value := by
  have keys : ((Doc.memberValues members).map Prod.fst).Nodup := by
    rw [Doc.memberValues_eq_map, map_map]
    exact distinct
  rw [Doc.value]
  apply findMember_of_mem keys
  rw [Doc.memberValues_eq_map]
  exact mem_map_of_mem mem

theorem findMember_absent {key : CStr} {members : List (CStr × Value)}
    (absent : key ∉ members.map Prod.fst) :
    findMember key members = none := by
  induction members with
  | nil => rfl
  | cons head rest ih =>
    rw [map_cons, mem_cons, not_or] at absent
    rw [findMember, if_neg (Ne.symm absent.1)]
    exact ih absent.2

theorem objectGet_absent {members : List (CStr × Doc)} {name : String}
    (absent : CStr.ofString name ∉ members.map Prod.fst) :
    objectGet (some (Doc.obj members).value) name = none := by
  rw [Doc.value]
  apply findMember_absent
  rw [Doc.memberValues_eq_map, map_map]
  exact absent

theorem asArray_arr (items : List Doc) :
    asArray (some (Doc.arr items).value) = some (items.map Doc.value) := by
  rw [Doc.value, Doc.itemValues_eq_map, asArray]

theorem filterMap_written {α β : Type} {load : Value → Option β}
    {doc : α → Doc} (result : α → β) {items : List α}
    (reads : ∀ a ∈ items, load (doc a).value = some (result a)) :
    ((items.map doc).map Doc.value).filterMap load = items.map result := by
  induction items with
  | nil => rfl
  | cons item rest ih =>
    have first := reads item mem_cons_self
    have others := ih fun a mem =>
      reads a (mem_cons_of_mem item mem)
    simp only [map_cons, filterMap_cons, first, others]

def intDoc (v : Int) : Doc :=
  .int (Double.Whole.ofInt v)

theorem int32_bounded (v : Int32) : v.toInt.natAbs ≤ 2 ^ 53 := by
  have lower := v.le_toInt
  have upper := v.toInt_lt
  omega

theorem emits_int32 (v : Int32) : Emits (jwInt v.toInt) (intDoc v.toInt) :=
  emits_int (int32_bounded v)

theorem toLongLong_intDoc {v : Int} (bounded : v.natAbs ≤ 2 ^ 53) :
    (asNumber (some (intDoc v).value)).toLongLong = v := by
  rw [intDoc, Doc.value, asNumber, Double.toLongLong_ofWhole, Double.Whole.ofInt_value bounded]

theorem toInt64_intDoc {v : Int64} (bounded : v.toInt.natAbs ≤ 2 ^ 53) :
    (asNumber (some (intDoc v.toInt).value)).toInt64 = v := by
  rw [Double.toInt64, toLongLong_intDoc bounded, Int64.ofInt_toInt]

theorem toInt_intDoc (v : Int32) : (asNumber (some (intDoc v.toInt).value)).toInt = v := by
  apply Int32.toInt_inj.mp
  rw [intDoc, Doc.value, asNumber]
  exact Double.toInt_ofInt v.le_toInt v.toInt_lt

end Cix.Json
