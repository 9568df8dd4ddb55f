import Cix.Lib.Utf8

/-!
# Reading TOML

A reader for the part of TOML that configuration writers use: basic strings
with all their escapes, decimal integers, booleans, arrays of these, pairs with
bare keys, and the headers of arrays of tables.  What it reads, TOML reads the
same.  After the reader come the rules by which a text made of spelled
expressions, one in a line, is read.
-/

namespace Cix.Lib.Toml

open List Option

inductive Scalar where
  | string (text : List UInt8)
  | int (v : Int)
  | bool (b : Bool)
  deriving DecidableEq

inductive Value where
  | scalar (s : Scalar)
  | array (items : List Scalar)
  deriving DecidableEq

abbrev Key : Type := List UInt8

inductive Expression where
  | header (path : List Key)
  | pair (key : Key) (value : Value)
  deriving DecidableEq

structure Table where
  path : List Key
  pairs : List (Key × Value)
  deriving DecidableEq

structure Document where
  root : List (Key × Value)
  tables : List Table
  deriving DecidableEq

/-! ## Basic strings -/

def hexValue (c : UInt8) : Option Nat :=
  if 48 ≤ c ∧ c ≤ 57 then some (c.toNat - 48)
  else if 65 ≤ c ∧ c ≤ 70 then some (c.toNat - 55)
  else if 97 ≤ c ∧ c ≤ 102 then some (c.toNat - 87)
  else none

def namedCharacter (digits : List UInt8) : Option (List UInt8) :=
  match digits.foldlM (fun n c => (hexValue c).map (16 * n + ·)) 0 with
  | none => none
  | some n =>
    if n.isValidChar then some (String.utf8EncodeChar (Char.ofNat n))
    else none

def shortEscape (c : UInt8) : Option UInt8 :=
  if c = 98 then some 8
  else if c = 116 then some 9
  else if c = 110 then some 10
  else if c = 102 then some 12
  else if c = 114 then some 13
  else if c = 34 ∨ c = 92 then some c
  else none

def before (bytes : List UInt8) (read : List UInt8 × List UInt8) : List UInt8 × List UInt8 :=
  (bytes ++ read.1, read.2)

def isControl (c : UInt8) : Bool :=
  c < 0x20 && c ≠ 9 || c = 0x7f

def readChars : List UInt8 → Option (List UInt8 × List UInt8)
  | [] => none
  | c :: rest =>
    if c = 34 then some ([], rest)
    else if c = 92 then
      match rest with
      | [] => none
      | e :: rest =>
        match shortEscape e with
        | some byte => (readChars rest).map (before [byte])
        | none =>
          if e = 117 then
            match rest with
            | a :: b :: c :: d :: rest =>
              match namedCharacter [a, b, c, d] with
              | none => none
              | some bytes => (readChars rest).map (before bytes)
            | _ => none
          else if e = 85 then
            match rest with
            | a :: b :: c :: d :: e :: f :: g :: h :: rest =>
              match namedCharacter [a, b, c, d, e, f, g, h] with
              | none => none
              | some bytes => (readChars rest).map (before bytes)
            | _ => none
          else none
    else if isControl c then none
    else (readChars rest).map (before [c])

/-! ## Values -/

def isDigit (c : UInt8) : Bool :=
  48 ≤ c && c ≤ 57

def decimal (digits : List UInt8) : Nat :=
  digits.foldl (fun n c => 10 * n + (c.toNat - 48)) 0

def readNatural (text : List UInt8) : Option (Nat × List UInt8) :=
  let digits := text.takeWhile isDigit
  if digits = [] ∨ digits.length > 1 ∧ digits.head? = some 48 then none
  else some (decimal digits, text.dropWhile isDigit)

def readInteger (text : List UInt8) : Option (Int × List UInt8) :=
  if text.head? = some 45 then
    (readNatural text.tail).map fun read => (-(read.1 : Int), read.2)
  else if text.head? = some 43 then
    (readNatural text.tail).map fun read => ((read.1 : Int), read.2)
  else (readNatural text).map fun read => ((read.1 : Int), read.2)

def trueText : List UInt8 := [116, 114, 117, 101]

def falseText : List UInt8 := [102, 97, 108, 115, 101]

def readScalar (text : List UInt8) : Option (Scalar × List UInt8) :=
  if text.head? = some 34 then
    (readChars text.tail).map fun read => (.string read.1, read.2)
  else if text.take 4 = trueText then some (.bool true, text.drop 4)
  else if text.take 5 = falseText then some (.bool false, text.drop 5)
  else (readInteger text).map fun read => (.int read.1, read.2)

def isSpace (c : UInt8) : Bool :=
  c = 32 || c = 9

def skipSpace (text : List UInt8) : List UInt8 :=
  text.dropWhile isSpace

def skipBlank (text : List UInt8) : List UInt8 :=
  text.dropWhile fun c => isSpace c || c = 10

def readItems : (fuel : Nat) → List UInt8 → Option (List Scalar × List UInt8)
  | 0, _ => none
  | fuel + 1, text =>
    let text := skipBlank text
    if text.head? = some 93 then some ([], text.tail)
    else
      match readScalar text with
      | none => none
      | some (item, rest) =>
        let rest := skipBlank rest
        if rest.head? = some 44 then
          (readItems fuel rest.tail).map fun read =>
            (item :: read.1, read.2)
        else if rest.head? = some 93 then some ([item], rest.tail)
        else none

def readValue (text : List UInt8) : Option (Value × List UInt8) :=
  if text.head? = some 91 then
    (readItems text.length text.tail).map fun read =>
      (.array read.1, read.2)
  else (readScalar text).map fun read => (.scalar read.1, read.2)

/-! ## Expressions -/

def isBare (c : UInt8) : Bool :=
  isDigit c || 65 ≤ c && c ≤ 90 || 97 ≤ c && c ≤ 122 || c = 45 || c = 95

def readKey (text : List UInt8) : Option (Key × List UInt8) :=
  let key := text.takeWhile isBare
  if key = [] then none else some (key, text.dropWhile isBare)

def readPath : (fuel : Nat) → List UInt8 → Option (List Key × List UInt8)
  | 0, _ => none
  | fuel + 1, text =>
    match readKey (skipSpace text) with
    | none => none
    | some (key, rest) =>
      let rest := skipSpace rest
      if rest.head? = some 46 then
        (readPath fuel rest.tail).map fun read =>
          (key :: read.1, read.2)
      else if rest.take 2 = [93, 93] then some ([key], rest.drop 2)
      else none

def readPair (text : List UInt8) : Option (Expression × List UInt8) :=
  match readKey text with
  | none => none
  | some (key, rest) =>
    let rest := skipSpace rest
    if rest.head? = some 61 then
      (readValue (skipSpace rest.tail)).map fun read =>
        (.pair key read.1, read.2)
    else none

def readExpression (text : List UInt8) : Option (Expression × List UInt8) :=
  if text.take 2 = [91, 91] then
    (readPath text.length (text.drop 2)).map fun read =>
      (.header read.1, read.2)
  else readPair text

def endsLine (text : List UInt8) : Bool :=
  (skipSpace text).head? = none || (skipSpace text).head? = some 10

def readExpressions : (fuel : Nat) → List UInt8 → Option (List Expression)
  | 0, _ => none
  | fuel + 1, text =>
    match skipSpace text with
    | [] => some []
    | c :: rest =>
      if c = 10 then readExpressions fuel rest
      else
        match readExpression (c :: rest) with
        | none => none
        | some (expression, rest) =>
          if endsLine rest then
            (readExpressions fuel rest).map (expression :: ·)
          else none

/-! ## Documents -/

def gather : List Expression → Document
  | [] => ⟨[], []⟩
  | .pair key value :: rest =>
    let after := gather rest
    ⟨(key, value) :: after.root, after.tables⟩
  | .header path :: rest =>
    let after := gather rest
    ⟨[], ⟨path, after.root⟩ :: after.tables⟩

structure KeysDistinct (d : Document) : Prop where
  root : (d.root.map Prod.fst).Nodup
  tables : ∀ table ∈ d.tables, (table.pairs.map Prod.fst).Nodup

structure Reads (text : List UInt8) (d : Document) : Prop where
  utf8 : IsUtf8 text
  expressions : ∃ list, readExpressions (text.length + 1) text = some list ∧ gather list = d
  distinct : KeysDistinct d

/-! ## How strings are read -/

variable {c : UInt8}

theorem readChars_plain (rest : List UInt8) (notQuote : c ≠ 34)
    (notBackslash : c ≠ 92) (plain : isControl c = false) :
    readChars (c :: rest) = (readChars rest).map (before [c]) := by
  rw [readChars.eq_def]
  dsimp only
  rw [if_neg notQuote, if_neg notBackslash, plain]
  rfl

theorem readChars_control (rest : List UInt8) (notQuote : c ≠ 34)
    (notBackslash : c ≠ 92) (control : isControl c = true) :
    readChars (c :: rest) = none := by
  rw [readChars.eq_def]
  dsimp only
  rw [if_neg notQuote, if_neg notBackslash, if_pos control]

theorem readChars_short {e byte : UInt8} (rest : List UInt8) (short : shortEscape e = some byte) :
    readChars (92 :: e :: rest) = (readChars rest).map (before [byte]) := by
  rw [readChars.eq_def]
  dsimp only
  rw [if_neg (by decide), if_pos rfl, short]

theorem readChars_named {a b d : UInt8} {bytes : List UInt8} (rest : List UInt8)
    (named : namedCharacter [a, b, c, d] = some bytes) :
    readChars (92 :: 117 :: a :: b :: c :: d :: rest) = (readChars rest).map (before bytes) := by
  have notShort : shortEscape 117 = none := by decide
  rw [readChars.eq_def]
  dsimp only
  rw [if_neg (by decide), if_pos rfl, notShort, if_pos rfl, named]

theorem readChars_spelled {spell : UInt8 → List UInt8} {refused : UInt8 → Bool}
    (reads : ∀ c, refused c = false → ∀ rest,
      readChars (spell c ++ rest) = (readChars rest).map (before [c]))
    (fails : ∀ c, refused c = true → ∀ rest,
      readChars (spell c ++ rest) = none) (text rest : List UInt8) :
    readChars (text.flatMap spell ++ 34 :: rest) =
      if text.any refused then none else some (text, rest) := by
  induction text with
  | nil =>
    rw [flatMap_nil, nil_append, readChars.eq_def]
    rfl
  | cons c more ih =>
    rw [flatMap_cons, append_assoc, any_cons]
    cases isRefused : refused c with
    | true =>
      rw [fails c isRefused]
      rfl
    | false =>
      rw [reads c isRefused, ih, Bool.false_or]
      split
      · rfl
      · rfl

/-! ## How arrays are read -/

def allSome {α : Type*} : List (Option α) → Option (List α)
  | [] => some []
  | none :: _ => none
  | some a :: rest => (allSome rest).map (a :: ·)

theorem allSome_map_some {α : Type*} (list : List α) : allSome (list.map some) = some list := by
  induction list with
  | nil => rfl
  | cons a rest ih =>
    rw [map_cons, allSome, ih]
    rfl

theorem allSome_eq_none {α : Type*} {list : List (Option α)}
    (missing : none ∈ list) : allSome list = none := by
  induction list with
  | nil => cases missing
  | cons a rest ih =>
    cases a with
    | none => rfl
    | some a =>
      rw [allSome, ih (by simpa using missing)]
      rfl

def EndsToken (rest : List UInt8) : Prop :=
  ∀ c tail, rest = c :: tail → isDigit c = false

theorem endsToken_cons (tail : List UInt8) (other : isDigit c = false) : EndsToken (c :: tail) := by
  intro head rest equality
  cases equality
  exact other

structure ScalarText (text : List UInt8) (reading : Option Scalar) :
    Prop where
  start : ∃ c tail, text = c :: tail ∧ isSpace c = false ∧ c ≠ 10 ∧ c ≠ 91 ∧ c ≠ 93
  reads : ∀ rest, EndsToken rest → readScalar (text ++ rest) = reading.map fun item => (item, rest)

def itemsText : List (List UInt8) → List UInt8
  | [] => []
  | [item] => item
  | item :: rest => item ++ 44 :: 32 :: itemsText rest

theorem itemsText_map {α : Type*} (text : α → List UInt8) (item second : α) (rest : List α) :
    itemsText ((item :: second :: rest).map text) =
      text item ++ 44 :: 32 :: itemsText ((second :: rest).map text) := rfl

theorem skipBlank_scalar {text : List UInt8} {reading : Option Scalar}
    (spelled : ScalarText text reading) (rest : List UInt8) :
    skipBlank (text ++ rest) = text ++ rest ∧ (text ++ rest).head? ≠ some 93 := by
  obtain ⟨c, tail, rfl, notSpace, notNewline, _, notBracket⟩ := spelled.start
  constructor
  · rw [skipBlank, cons_append, dropWhile_cons_of_neg]
    simp [notSpace, notNewline]
  · simpa using notBracket

theorem readItems_space (fuel : Nat) (text : List UInt8) :
    readItems fuel (32 :: text) = readItems fuel text := by
  cases fuel with
  | zero => rfl
  | succ fuel =>
    have skipped : skipBlank (32 :: text) = skipBlank text := rfl
    rw [readItems, readItems, skipped]

theorem readItems_itemsText {items : List (List UInt8 × Option Scalar)}
    (spelled : ∀ item ∈ items, ScalarText item.1 item.2) {fuel : Nat}
    (enough : items.length < fuel) (rest : List UInt8) :
    readItems fuel (itemsText (items.map Prod.fst) ++ 93 :: rest) =
      (allSome (items.map Prod.snd)).map fun list => (list, rest) := by
  induction items generalizing fuel with
  | nil =>
    obtain ⟨fuel, rfl⟩ := Nat.exists_eq_succ_of_ne_zero (Nat.ne_of_gt enough)
    rw [readItems]
    rfl
  | cons item more ih =>
    obtain ⟨fuel, rfl⟩ := Nat.exists_eq_succ_of_ne_zero (Nat.ne_zero_of_lt enough)
    obtain ⟨text, reading⟩ := item
    have first := spelled _ mem_cons_self
    have later := fun item mem =>
      spelled item (mem_cons_of_mem _ mem)
    cases more with
    | nil =>
      have skipped := skipBlank_scalar first (93 :: rest)
      rw [map_singleton, itemsText, readItems]
      dsimp only
      rw [skipped.1, if_neg skipped.2,
        first.reads _ (endsToken_cons rest (by decide))]
      cases reading with
      | none => rfl
      | some item => rfl
    | cons second others =>
      have next := @ih later fuel
        (Nat.lt_of_succ_lt_succ enough)
      rw [itemsText_map, append_assoc, cons_append, cons_append]
      generalize itemsText ((second :: others).map Prod.fst) ++ 93 :: rest = tail at next ⊢
      have skipped := skipBlank_scalar first (44 :: 32 :: tail)
      rw [readItems]
      dsimp only
      rw [skipped.1, if_neg skipped.2,
        first.reads _ (endsToken_cons _ (by decide))]
      cases reading with
      | none => rfl
      | some item =>
        have comma : skipBlank (44 :: 32 :: tail) = 44 :: 32 :: tail := rfl
        have whole : allSome (((text, some item) :: second :: others).map Prod.snd) =
          (allSome ((second :: others).map Prod.snd)).map (item :: ·) := rfl
        dsimp only [map_some]
        rw [comma, head?_cons, if_pos rfl, tail_cons, readItems_space, next, whole]
        generalize allSome ((second :: others).map Prod.snd) = list
        cases list with
        | none => rfl
        | some list => rfl

/-! ## How values and expressions are read -/

structure ValueText (text : List UInt8) (reading : Option Value) : Prop where
  start : ∃ c tail, text = c :: tail ∧ isSpace c = false
  reads : ∀ rest, EndsToken rest → readValue (text ++ rest) = reading.map fun value => (value, rest)

theorem ScalarText.value {text : List UInt8} {reading : Option Scalar}
    (spelled : ScalarText text reading) :
    ValueText text (reading.map .scalar) := by
  obtain ⟨c, tail, isText, notSpace, _, notArray, _⟩ := spelled.start
  refine ⟨⟨c, tail, isText, notSpace⟩, ?_⟩
  intro rest ends
  have other : (text ++ rest).head? ≠ some 91 := by
    rw [isText]
    simpa using notArray
  rw [readValue, if_neg other, spelled.reads rest ends]
  cases reading with
  | none => rfl
  | some item => rfl

theorem length_itemsText {items : List (List UInt8 × Option Scalar)}
    (spelled : ∀ item ∈ items, ScalarText item.1 item.2) :
    items.length ≤ (itemsText (items.map Prod.fst)).length := by
  induction items with
  | nil => exact Nat.le_refl 0
  | cons item more ih =>
    obtain ⟨c, tail, isText, _⟩ := (spelled _ mem_cons_self).start
    have later := ih fun item mem =>
      spelled item (mem_cons_of_mem _ mem)
    cases more with
    | nil =>
      rw [map_singleton, itemsText, isText]
      simp
    | cons second others =>
      rw [itemsText_map]
      simp only [length_append, length_cons] at later ⊢
      omega

theorem valueText_array {items : List (List UInt8 × Option Scalar)}
    (spelled : ∀ item ∈ items, ScalarText item.1 item.2) :
    ValueText (91 :: (itemsText (items.map Prod.fst) ++ [93]))
      ((allSome (items.map Prod.snd)).map .array) := by
  refine ⟨⟨91, _, rfl, by decide⟩, ?_⟩
  intro rest _
  have room := length_itemsText spelled
  rw [readValue, cons_append, head?_cons, if_pos rfl, tail_cons, append_assoc, singleton_append,
    readItems_itemsText spelled (by simp only [length_cons, length_append]; omega)]
  cases allSome _ with
  | none => rfl
  | some list => rfl

structure Bare (key : Key) : Prop where
  nonempty : key ≠ []
  bytes : ∀ c ∈ key, isBare c = true

instance (key : Key) : Decidable (Bare key) :=
  decidable_of_iff (key ≠ [] ∧ key.all isBare = true)
    ⟨fun ⟨nonempty, bytes⟩ => ⟨nonempty, all_eq_true.mp bytes⟩,
      fun bare => ⟨bare.nonempty, all_eq_true.mpr bare.bytes⟩⟩

theorem readKey_append {key rest : List UInt8} (bare : Bare key)
    (ends : ∀ c tail, rest = c :: tail → isBare c = false) :
    readKey (key ++ rest) = some (key, rest) := by
  have taken : (key ++ rest).takeWhile isBare = key := by
    rw [takeWhile_append_of_pos bare.bytes]
    cases rest with
    | nil => simp
    | cons c tail => simp [ends c tail rfl]
  have dropped : (key ++ rest).dropWhile isBare = rest := by
    rw [dropWhile_append_of_pos bare.bytes]
    cases rest with
    | nil => rfl
    | cons c tail => simp [ends c tail rfl]
  rw [readKey, taken, dropped]
  exact if_neg bare.nonempty

structure ExpressionText (text : List UInt8) (reading : Option Expression) :
    Prop where
  start : ∃ c tail, text = c :: tail ∧ isSpace c = false ∧ c ≠ 10
  reads : ∀ rest, endsLine rest = true → readExpression (text ++ rest) =
      reading.map fun expression => (expression, rest)

theorem endsToken_of_endsLine {rest : List UInt8}
    (ends : endsLine rest = true) : EndsToken rest := by
  intro c tail isRest
  subst isRest
  by_contra digit
  rw [Bool.not_eq_false] at digit
  have notSpace : isSpace c = false := by
    by_contra space
    simp only [isSpace, isDigit, Bool.not_eq_false, Bool.or_eq_true,
      Bool.and_eq_true, decide_eq_true_eq] at space digit
    rcases space with rfl | rfl
    · exact absurd digit (by decide)
    · exact absurd digit (by decide)
  have kept : skipSpace (c :: tail) = c :: tail := by simp [skipSpace, notSpace]
  rw [endsLine, kept] at ends
  simp only [head?_cons, reduceCtorEq, decide_false, some.injEq,
    Bool.false_or, decide_eq_true_eq] at ends
  subst ends
  exact absurd digit (by decide)

theorem bare_start {key : Key} (bare : Bare key) : ∃ c tail, key = c :: tail ∧ isBare c = true := by
  cases key with
  | nil => exact absurd rfl bare.nonempty
  | cons c tail => exact ⟨c, tail, rfl, bare.bytes c mem_cons_self⟩

theorem other_of_isBare (bare : isBare c = true) : isSpace c = false ∧ c ≠ 10 ∧ c ≠ 91 := by
  have spaceNot : isBare 32 = false := by decide
  have tabNot : isBare 9 = false := by decide
  refine ⟨?_, ?_, ?_⟩
  · by_contra space
    simp only [isSpace, Bool.not_eq_false, Bool.or_eq_true, decide_eq_true_eq] at space
    rcases space with rfl | rfl
    · rw [spaceNot] at bare
      cases bare
    · rw [tabNot] at bare
      cases bare
  · rintro rfl
    exact absurd bare (by decide)
  · rintro rfl
    exact absurd bare (by decide)

theorem expressionText_pair {key : Key} {text : List UInt8}
    {reading : Option Value} (bare : Bare key)
    (spelled : ValueText text reading) :
    ExpressionText (key ++ 32 :: 61 :: 32 :: text) (reading.map (.pair key)) := by
  obtain ⟨c, tail, isKey, isBareC⟩ := bare_start bare
  have other := other_of_isBare isBareC
  refine ⟨⟨c, tail ++ 32 :: 61 :: 32 :: text, by rw [isKey]; rfl,
    other.1, other.2.1⟩, ?_⟩
  intro rest ends
  obtain ⟨first, _, isText, notSpace⟩ := spelled.start
  have kept : skipSpace (32 :: (text ++ rest)) = text ++ rest := by
    rw [isText, skipSpace, dropWhile_cons_of_pos (by decide),
      cons_append, dropWhile_cons_of_neg (by simp [notSpace])]
  have noHeader : (key ++ 32 :: 61 :: 32 :: text ++ rest).take 2 ≠ [91, 91] := by
    rw [isKey]
    intro same
    simp only [cons_append, take_succ_cons, List.cons.injEq] at same
    exact other.2.2 same.1
  have isKeyText : readKey (key ++ 32 :: 61 :: 32 :: text ++ rest) =
      some (key, 32 :: 61 :: 32 :: (text ++ rest)) := by
    rw [append_assoc]
    apply readKey_append bare
    intro c tail equality
    cases equality
    decide
  have equals : skipSpace (32 :: 61 :: 32 :: (text ++ rest)) = 61 :: 32 :: (text ++ rest) := rfl
  rw [readExpression, if_neg noHeader, readPair, isKeyText]
  dsimp only
  rw [equals, head?_cons, if_pos rfl, tail_cons, kept,
    spelled.reads rest (endsToken_of_endsLine ends)]
  cases reading with
  | none => rfl
  | some value => rfl

def pathText : List Key → List UInt8
  | [] => []
  | [key] => key
  | key :: rest => key ++ 46 :: pathText rest

theorem pathText_cons_cons (key second : Key) (rest : List Key) :
    pathText (key :: second :: rest) = key ++ 46 :: pathText (second :: rest) := rfl

theorem readPath_pathText {path : List Key} (nonempty : path ≠ [])
    (bare : ∀ key ∈ path, Bare key) {fuel : Nat}
    (enough : path.length ≤ fuel) (rest : List UInt8) :
    readPath fuel (pathText path ++ 93 :: 93 :: rest) = some (path, rest) := by
  induction path generalizing fuel with
  | nil => exact absurd rfl nonempty
  | cons key more ih =>
    obtain ⟨fuel, rfl⟩ := Nat.exists_eq_succ_of_ne_zero (Nat.ne_zero_of_lt enough)
    have isBareKey := bare key mem_cons_self
    obtain ⟨c, tail, isKey, isBareC⟩ := bare_start isBareKey
    have kept : ∀ after, skipSpace (key ++ after) = key ++ after := by
      intro after
      rw [isKey, skipSpace, cons_append,
        dropWhile_cons_of_neg (by simp [(other_of_isBare isBareC).1])]
    cases more with
    | nil =>
      have isKeyText : readKey (key ++ 93 :: 93 :: rest) = some (key, 93 :: 93 :: rest) := by
        apply readKey_append isBareKey
        intro c tail equality
        cases equality
        decide
      have closed : skipSpace (93 :: 93 :: rest) = 93 :: 93 :: rest := rfl
      rw [pathText, readPath, kept, isKeyText]
      dsimp only
      rw [closed]
      rfl
    | cons second others =>
      have isKeyText : readKey (key ++ 46 :: (pathText (second :: others) ++ 93 :: 93 :: rest)) =
          some (key, 46 :: (pathText (second :: others) ++ 93 :: 93 :: rest)) := by
        apply readKey_append isBareKey
        intro c tail equality
        cases equality
        decide
      have next := ih (by simp)
        (fun key mem => bare key (mem_cons_of_mem _ mem))
        (Nat.le_of_succ_le_succ enough)
      rw [pathText_cons_cons, append_assoc, cons_append, readPath, kept, isKeyText]
      dsimp only
      generalize pathText (second :: others) ++ 93 :: 93 :: rest = after at next ⊢
      have dot : skipSpace (46 :: after) = 46 :: after := rfl
      rw [dot, head?_cons, if_pos rfl, tail_cons, next]
      rfl

theorem length_pathText {path : List Key} (bare : ∀ key ∈ path, Bare key) :
    path.length ≤ (pathText path).length := by
  induction path with
  | nil => exact Nat.le_refl 0
  | cons key more ih =>
    obtain ⟨c, tail, isKey, _⟩ := bare_start (bare key mem_cons_self)
    have later := ih fun key mem =>
      bare key (mem_cons_of_mem _ mem)
    cases more with
    | nil =>
      rw [pathText, isKey]
      simp
    | cons second others =>
      rw [pathText_cons_cons]
      simp only [length_append, length_cons] at later ⊢
      omega

theorem expressionText_header {path : List Key} (nonempty : path ≠ [])
    (bare : ∀ key ∈ path, Bare key) :
    ExpressionText (91 :: 91 :: (pathText path ++ [93, 93])) (some (.header path)) := by
  refine ⟨⟨91, _, rfl, by decide, by decide⟩, ?_⟩
  intro rest _
  have room := length_pathText bare
  have text : 91 :: 91 :: (pathText path ++ [93, 93]) ++ rest =
      91 :: 91 :: (pathText path ++ 93 :: 93 :: rest) := by simp
  rw [text, readExpression]
  have dropped : (91 :: 91 :: (pathText path ++ 93 :: 93 :: rest)).drop 2 =
      pathText path ++ 93 :: 93 :: rest := rfl
  have taken : (91 :: 91 :: (pathText path ++ 93 :: 93 :: rest)).take 2 = [91, 91] := rfl
  rw [dropped, taken, if_pos rfl, readPath_pathText nonempty bare
    (by simp only [length_cons, length_append]; omega)]
  rfl

/-! ## Where the text is ASCII -/

theorem ascii_of_isBare (bare : isBare c = true) : c < 0x80 := by
  rw [UInt8.lt_iff_toNat_lt]
  simp only [isBare, isDigit, Bool.or_eq_true, Bool.and_eq_true,
    decide_eq_true_eq, UInt8.le_iff_toNat_le] at bare
  rcases bare with (((digit | upper) | lower) | rfl) | rfl
  · exact Nat.lt_of_le_of_lt digit.2 (by decide)
  · exact Nat.lt_of_le_of_lt upper.2 (by decide)
  · exact Nat.lt_of_le_of_lt lower.2 (by decide)
  · decide
  · decide

theorem Bare.isAscii {key : Key} (bare : Bare key) : IsAscii key :=
  fun c mem => ascii_of_isBare (bare.bytes c mem)

theorem isAscii_pathText {path : List Key} (bare : ∀ key ∈ path, Bare key) :
    IsAscii (pathText path) := by
  induction path with
  | nil =>
    intro c mem
    cases mem
  | cons key more ih =>
    have first := (bare key mem_cons_self).isAscii
    have later := ih fun key mem =>
      bare key (mem_cons_of_mem _ mem)
    cases more with
    | nil => exact first
    | cons second others =>
      rw [pathText_cons_cons]
      intro c mem
      rcases mem_append.mp mem with inKey | inRest
      · exact first c inKey
      · rcases mem_cons.mp inRest with rfl | inPath
        · decide
        · exact later c inPath

theorem cutsUtf8_itemsText {α : Type*} {items : List α}
    {text : α → List UInt8} {inside : α → Prop}
    (cuts : ∀ item ∈ items, CutsUtf8 (text item) (inside item)) :
    CutsUtf8 (itemsText (items.map text)) (∀ item ∈ items, inside item) := by
  induction items with
  | nil =>
    intro rest
    simp [itemsText]
  | cons item more ih =>
    have first := cuts item mem_cons_self
    have later := ih fun item mem =>
      cuts item (mem_cons_of_mem _ mem)
    cases more with
    | nil => simpa [itemsText] using first
    | cons second others =>
      have comma : IsAscii [44, 32] := by
        intro c mem
        rcases mem_pair.mp mem with rfl | rfl
        · decide
        · decide
      rw [itemsText_map, forall_mem_cons]
      refine (first.append ((cutsUtf8_ascii comma).append later)).congr ?_
      rw [true_and]

/-! ## How lines are read -/

inductive Line where
  | blank
  | expression (indent : Nat) (text : List UInt8)
      (reading : Option Expression)

def Line.text : Line → List UInt8
  | .blank => [10]
  | .expression indent text _ => 10 :: (List.replicate indent 32 ++ text)

def linesReading : List Line → Option (List Expression)
  | [] => some []
  | .blank :: rest => linesReading rest
  | .expression _ _ none :: _ => none
  | .expression _ _ (some expression) :: rest =>
    (linesReading rest).map (expression :: ·)

def Line.Spelled : Line → Prop
  | .blank => True
  | .expression _ text reading => ExpressionText text reading

theorem endsLine_lines (lines : List Line) : endsLine (lines.flatMap Line.text) = true := by
  cases lines with
  | nil => rfl
  | cons line rest =>
    rw [flatMap_cons]
    cases line with
    | blank => rfl
    | expression indent text reading => rfl

theorem skipSpace_replicate (indent : Nat) (text : List UInt8) :
    skipSpace (List.replicate indent 32 ++ text) = skipSpace text := by
  induction indent with
  | zero => rfl
  | succ indent ih => exact ih

theorem readExpressions_lines {lines : List Line}
    (spelled : ∀ line ∈ lines, line.Spelled) {fuel : Nat}
    (enough : (lines.flatMap Line.text).length < fuel) :
    readExpressions fuel (lines.flatMap Line.text) = linesReading lines := by
  induction lines generalizing fuel with
  | nil =>
    obtain ⟨fuel, rfl⟩ := Nat.exists_eq_succ_of_ne_zero (Nat.ne_of_gt enough)
    rfl
  | cons line rest ih =>
    have later := fun line mem =>
      spelled line (mem_cons_of_mem _ mem)
    have first := spelled line mem_cons_self
    obtain ⟨fuel, rfl⟩ := Nat.exists_eq_succ_of_ne_zero (Nat.ne_zero_of_lt enough)
    rw [flatMap_cons] at enough ⊢
    cases line with
    | blank =>
      have shorter : (rest.flatMap Line.text).length < fuel := by
        simp only [Line.text, length_append, length_cons, length_nil] at enough
        omega
      exact ih later shorter
    | expression indent text reading =>
      obtain ⟨c, tail, isText, notSpace, notNewline⟩ := first.start
      simp only [Line.text, length_append, length_cons, cons_append, isText] at enough
      obtain ⟨fuel, rfl⟩ := Nat.exists_eq_succ_of_ne_zero (show fuel ≠ 0 by omega)
      have newline : ∀ after, readExpressions (fuel + 1 + 1)
          (10 :: after) = readExpressions (fuel + 1) after := by
        intro after
        rfl
      have kept : skipSpace (List.replicate indent 32 ++ text ++
          rest.flatMap Line.text) = c :: (tail ++ rest.flatMap Line.text) := by
        rw [append_assoc, skipSpace_replicate, isText, skipSpace, cons_append,
          dropWhile_cons_of_neg (by simp [notSpace])]
      have read := first.reads _ (endsLine_lines rest)
      rw [isText, cons_append] at read
      rw [Line.text, cons_append, newline, readExpressions, kept]
      dsimp only
      rw [if_neg notNewline, read]
      cases reading with
      | none => rfl
      | some expression =>
        dsimp only [map_some]
        rw [endsLine_lines, if_pos rfl, linesReading, ih later (by omega)]

end Cix.Lib.Toml
