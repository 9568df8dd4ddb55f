import Cix.Json.Roundtrip

/-!
# What the parser has read does not depend on what follows

A value is read from an initial part of the input, and from the same part in
front of any other rest, as long as that rest begins like something that can
follow a value: a comma, a closing bracket, white space or a zero byte.  In
particular the closing brace of an object can be replaced by a comma and
further members.
-/

namespace Cix.Json

open Cix.Lib List Option

/-! ## What can follow a value -/

variable {c : UInt8}

/-- A byte that can follow a value. -/
def closes (c : UInt8) : Bool :=
  c = 44 || c = 93 || c = 125 || c = 0 || isWs c

def Closes (rest : List UInt8) : Prop :=
  ∀ c tail, rest = c :: tail → closes c = true

theorem closes_cons (tail : List UInt8) (closing : closes c = true) : Closes (c :: tail) := by
  intro head rest equality
  cases equality
  exact closing

variable {ws : List UInt8}

theorem closes_ws_append (blank : ∀ c ∈ ws, isWs c = true)
    {c : UInt8} (tail : List UInt8) (closing : closes c = true) :
    Closes (ws ++ c :: tail) := by
  cases ws with
  | nil => exact closes_cons tail closing
  | cons first rest =>
    apply closes_cons
    rw [closes, blank first mem_cons_self, Bool.or_true]

theorem not_of_closes (closing : closes c = true) :
    isDigit c = false ∧ c ≠ 46 ∧ c ≠ 101 ∧ c ≠ 69 ∧ c ≠ 43 ∧ c ≠ 45 := by
  simp only [closes, isWs, Bool.or_eq_true, decide_eq_true_eq] at closing
  rcases closing with ((((rfl | rfl) | rfl) | rfl) | (((rfl | rfl) | rfl) | rfl))
  all_goals decide

/-! ## White space -/

variable {input tail : List UInt8}

theorem exists_ws (input : List UInt8) :
    ∃ ws, (∀ c ∈ ws, isWs c = true) ∧ input = ws ++ skipWs input := by
  refine ⟨input.takeWhile isWs, ?_, ?_⟩
  · intro c mem
    exact mem_takeWhile_imp mem
  · exact (takeWhile_append_dropWhile).symm

theorem skipWs_append (blank : ∀ c ∈ ws, isWs c = true)
    (rest : List UInt8) : skipWs (ws ++ rest) = skipWs rest := by
  unfold skipWs
  exact dropWhile_append_of_pos blank

theorem head_skipWs (skipped : skipWs input = c :: tail) : isWs c = false := by
  have first := head?_dropWhile_not isWs input
  rw [show input.dropWhile isWs = c :: tail from skipped] at first
  simpa using first

theorem skipWs_skipWs (input : List UInt8) : skipWs (skipWs input) = skipWs input := by
  cases skipped : skipWs input with
  | nil => rfl
  | cons c tail => exact skipWs_cons tail (head_skipWs skipped)

theorem skipWs_append_cons (blank : ∀ c ∈ ws, isWs c = true)
    (rest : List UInt8) (other : isWs c = false) :
    skipWs (ws ++ c :: rest) = c :: rest := by
  rw [skipWs_append blank, skipWs_cons rest other]

theorem split_skipWs (skipped : skipWs input = c :: tail) :
    ∃ ws, (∀ b ∈ ws, isWs b = true) ∧ input = ws ++ c :: tail ∧
      ∀ other, skipWs (ws ++ c :: other) = c :: other := by
  obtain ⟨ws, blank, split⟩ := exists_ws input
  rw [skipped] at split
  refine ⟨ws, blank, split, ?_⟩
  intro other
  exact skipWs_append_cons blank other (head_skipWs skipped)

/-! ## Strings -/

variable {rest : List UInt8} {fuel : Nat}

theorem parseHex4_local {n : Nat} (parsed : parseHex4 input = some (n, rest)) :
    ∃ used, input = used ++ rest ∧ used.length = 4 ∧
      ∀ other, parseHex4 (used ++ other) = some (n, other) := by
  unfold parseHex4 at parsed
  split at parsed
  next a b c d after =>
    split at parsed
    next first second third fourth =>
      cases parsed
      refine ⟨[a, b, c, d], rfl, rfl, ?_⟩
      intro other
      simp [parseHex4, first, second, third, fourth]
    next => cases parsed
  next => cases parsed

theorem parseUnicode_local {bytes : List UInt8} (parsed : parseUnicode input = some (bytes, rest)) :
    ∃ used, input = used ++ rest ∧ ∀ other, parseUnicode (used ++ other) = some (bytes, other) := by
  unfold parseUnicode at parsed
  split at parsed
  · cases parsed
  next cp after isHex =>
    obtain ⟨used, split, _, again⟩ := parseHex4_local isHex
    split at parsed
    next high =>
      split at parsed
      next low =>
        split at parsed
        · cases parsed
        next lo afterLow isLow =>
          obtain ⟨usedLow, splitLow, _, againLow⟩ := parseHex4_local isLow
          split at parsed
          · cases parsed
          next inRange =>
            simp only [some.injEq, Prod.mk.injEq] at parsed
            obtain ⟨isBytes, isRest⟩ := parsed
            refine ⟨used ++ 92 :: 117 :: usedLow, ?_, ?_⟩
            · rw [split, splitLow, isRest]
              simp
            · intro other
              have first := again (92 :: 117 :: (usedLow ++ other))
              have second := againLow other
              simp only [append_assoc, cons_append]
              simp only [parseUnicode, first, if_pos high, second, if_neg inRange, isBytes]
      next => cases parsed
    next notHigh =>
      split at parsed
      · cases parsed
      next notLow =>
        cases parsed
        refine ⟨used, split, ?_⟩
        intro other
        simp [parseUnicode, again other, notHigh, notLow]

/-- What is to be shown of a call of the loop of `parse_string_raw`. -/
def StringLocal (input bytes rest : List UInt8) : Prop :=
  ∃ used, input = used ++ rest ∧ ∀ other more, used.length ≤ more →
    parseStringLoop more (used ++ other) = some (bytes, other)

theorem escape_local {bytes : List UInt8} (ih : ∀ input bytes : List UInt8,
      parseStringLoop fuel input = some (bytes, rest) → StringLocal input bytes rest)
    (parsed : parseStringLoop (fuel + 1) (92 :: 117 :: tail) =
      some (bytes, rest)) : StringLocal (92 :: 117 :: tail) bytes rest := by
  rw [parseStringLoop, if_neg (by decide), if_pos rfl] at parsed
  split at parsed
  · cases parsed
  next encoded after isUnicode =>
    obtain ⟨head, splitHead, againHead⟩ := parseUnicode_local isUnicode
    simp only [map_eq_some_iff, Prod.exists, Prod.mk.injEq] at parsed
    obtain ⟨content, last, isContent, isBytes, isRest⟩ := parsed
    subst isRest
    obtain ⟨used, split, again⟩ := ih after content isContent
    refine ⟨92 :: 117 :: (head ++ used), ?_, ?_⟩
    · rw [splitHead, split]
      simp
    · intro other more enough
      obtain ⟨more, rfl⟩ := Nat.exists_eq_add_of_le' enough
      have next := again other (more + (head ++ used).length + 1) (by
        rw [length_append]
        omega)
      have encodes := againHead (used ++ other)
      simp only [cons_append, append_assoc, length_cons, ← Nat.add_assoc]
      rw [parseStringLoop, if_neg (by decide), if_pos rfl]
      simp only [encodes, next]
      rw [← isBytes]
      rfl

theorem simple_local {fuel : Nat} {e : UInt8} {tail bytes rest : List UInt8} (unicode : e ≠ 117)
    (ih : ∀ input bytes : List UInt8, parseStringLoop fuel input = some (bytes, rest) →
        StringLocal input bytes rest)
    (parsed : parseStringLoop (fuel + 1) (92 :: e :: tail) =
      some (bytes, rest)) : StringLocal (92 :: e :: tail) bytes rest := by
  cases isSimple : simpleEscape e with
  | none => simp [parseStringLoop, isSimple] at parsed
  | some byte =>
    have unfolded : ∀ (n : Nat) (text : List UInt8), parseStringLoop (n + 1) (92 :: e :: text) =
          (parseStringLoop n text).map fun read =>
            (byte :: read.1, read.2) := by
      intro n text
      simp [parseStringLoop, isSimple]
    rw [unfolded, map_eq_some_iff] at parsed
    obtain ⟨⟨content, last⟩, isContent, isPair⟩ := parsed
    cases isPair
    obtain ⟨used, split, again⟩ := ih tail content isContent
    refine ⟨92 :: e :: used, by rw [split]; rfl, ?_⟩
    intro other more enough
    obtain ⟨more, rfl⟩ := Nat.exists_eq_add_of_le' enough
    have next := again other (more + used.length + 1) (by omega)
    simp only [cons_append, length_cons, ← Nat.add_assoc]
    rw [unfolded, next]
    rfl

theorem parseStringLoop_local (fuel : Nat) (input bytes rest : List UInt8)
    (parsed : parseStringLoop fuel input = some (bytes, rest)) :
    StringLocal input bytes rest := by
  induction fuel generalizing input bytes with
  | zero => cases parsed
  | succ fuel ih =>
    cases input with
    | nil => cases parsed
    | cons c tail =>
      by_cases quote : c = 34
      · subst quote
        cases parsed
        refine ⟨[34], rfl, ?_⟩
        intro other more enough
        obtain ⟨more, rfl⟩ := Nat.exists_eq_add_of_le' enough
        rfl
      by_cases backslash : c = 92
      · subst backslash
        cases tail with
        | nil => cases parsed
        | cons e tail =>
          by_cases unicode : e = 117
          · subst unicode
            exact escape_local ih parsed
          · exact simple_local unicode ih parsed
      · simp only [parseStringLoop, if_neg quote, if_neg backslash,
          map_eq_some_iff, Prod.exists, Prod.mk.injEq] at parsed
        obtain ⟨content, after, isContent, isBytes, isRest⟩ := parsed
        subst isRest
        obtain ⟨used, split, again⟩ := ih tail content isContent
        refine ⟨c :: used, by rw [split]; rfl, ?_⟩
        intro other more enough
        obtain ⟨more, rfl⟩ := Nat.exists_eq_add_of_le' enough
        have next := again other (more + used.length)
          (Nat.le_add_left _ _)
        simp only [cons_append, length_cons, ← Nat.add_assoc,
          parseStringLoop, if_neg quote, if_neg backslash, next]
        rw [← isBytes]
        rfl

theorem parseStringRaw_local {text : CStr} (parsed : parseStringRaw input = some (text, rest)) :
    ∃ used, input = 34 :: (used ++ rest) ∧
      ∀ other, parseStringRaw (34 :: (used ++ other)) = some (text, other) := by
  unfold parseStringRaw at parsed
  split at parsed
  next tail =>
    rw [map_eq_some_iff] at parsed
    obtain ⟨⟨bytes, last⟩, isBytes, isPair⟩ := parsed
    cases isPair
    obtain ⟨used, split, again⟩ := parseStringLoop_local _ _ _ _ isBytes
    refine ⟨used, by rw [split], ?_⟩
    intro other
    have next := again other ((used ++ other).length + 1) (by
      rw [length_append]
      omega)
    rw [parseStringRaw, next]
    rfl
  next => cases parsed

/-! ## Numbers -/

theorem takeOneOf_append {a b : UInt8} (input : List UInt8)
    {rest : List UInt8} (other : ∀ c tail, rest = c :: tail → c ≠ a ∧ c ≠ b) :
    takeOneOf a b (input ++ rest) = ((takeOneOf a b input).1, (takeOneOf a b input).2 ++ rest) := by
  cases input with
  | nil => exact takeOneOf_of_ends other
  | cons c tail =>
    simp only [cons_append, takeOneOf]
    split <;> rfl

theorem takeWhile_append_closes (input : List UInt8) {rest : List UInt8} (closing : Closes rest) :
    (input ++ rest).takeWhile isDigit = input.takeWhile isDigit ∧
      (input ++ rest).dropWhile isDigit = input.dropWhile isDigit ++ rest := by
  induction input with
  | nil =>
    cases rest with
    | nil => exact ⟨rfl, rfl⟩
    | cons c tail =>
      have stop := (not_of_closes (closing c tail rfl)).1
      simp [stop]
  | cons c tail ih =>
    by_cases digit : isDigit c = true
    · simp [digit, ih]
    · simp [digit]

theorem scanNumber_append (input : List UInt8) {rest : List UInt8} (closing : Closes rest) :
    scanNumber (input ++ rest) = ((scanNumber input).1, (scanNumber input).2 ++ rest) := by
  have minus : ∀ input, takeOneOf 45 45 (input ++ rest) = _ := fun input =>
    takeOneOf_append input fun c tail equality =>
      have facts := not_of_closes (closing c tail equality)
      ⟨facts.2.2.2.2.2, facts.2.2.2.2.2⟩
  have point : ∀ input, takeOneOf 46 46 (input ++ rest) = _ := fun input =>
    takeOneOf_append input fun c tail equality =>
      have facts := not_of_closes (closing c tail equality)
      ⟨facts.2.1, facts.2.1⟩
  have mark : ∀ input, takeOneOf 101 69 (input ++ rest) = _ := fun input =>
    takeOneOf_append input fun c tail equality =>
      have facts := not_of_closes (closing c tail equality)
      ⟨facts.2.2.1, facts.2.2.2.1⟩
  have sign : ∀ input, takeOneOf 43 45 (input ++ rest) = _ := fun input =>
    takeOneOf_append input fun c tail equality =>
      have facts := not_of_closes (closing c tail equality)
      ⟨facts.2.2.2.2.1, facts.2.2.2.2.2⟩
  have digits := fun input => (takeWhile_append_closes input closing).1
  have after := fun input => (takeWhile_append_closes input closing).2
  unfold scanNumber
  simp only [minus, digits, after, point]
  generalize takeOneOf 46 46 (List.dropWhile isDigit (takeOneOf 45 45 input).2) = pointed
  cases pointed.1.isSome with
  | true =>
    simp only [if_true, mark]
    generalize takeOneOf 101 69 (pointed.2.dropWhile isDigit) = marked
    cases marked.1.isSome <;>
      simp only [if_true, sign, digits, after, Bool.false_eq_true, if_false]
  | false =>
    simp only [Bool.false_eq_true, if_false, mark]
    generalize takeOneOf 101 69 pointed.2 = marked
    cases marked.1.isSome <;>
      simp only [if_true, sign, digits, after, Bool.false_eq_true, if_false]

theorem takeOneOf_suffix (a b : UInt8) (input : List UInt8) :
    (takeOneOf a b input).2 <:+ input := by
  cases input with
  | nil => exact suffix_refl []
  | cons c tail =>
    simp only [takeOneOf]
    split
    · exact suffix_cons c tail
    · exact suffix_refl _

theorem scanNumber_suffix (input : List UInt8) : (scanNumber input).2 <:+ input := by
  have one := takeOneOf_suffix
  have digits := fun input : List UInt8 => dropWhile_suffix (l := input) isDigit
  unfold scanNumber
  simp only
  refine List.IsSuffix.trans ?_ ((digits _).trans (one 45 45 input))
  refine List.IsSuffix.trans ?_ (one 46 46 _)
  generalize takeOneOf 46 46 (List.dropWhile isDigit (takeOneOf 45 45 input).2) = pointed
  have fraction : (if pointed.1.isSome = true then
      pointed.2.dropWhile isDigit else pointed.2) <:+ pointed.2 := by
    split
    · exact digits _
    · exact suffix_refl _
  refine List.IsSuffix.trans ?_ fraction
  refine List.IsSuffix.trans ?_ (one 101 69 _)
  generalize takeOneOf 101 69 (if pointed.1.isSome = true then
    pointed.2.dropWhile isDigit else pointed.2) = marked
  cases marked.1.isSome with
  | true => exact (digits _).trans (one 43 45 _)
  | false => exact suffix_refl _

theorem parseNumber_local {v : Value}
    (parsed : parseNumber input = some (v, rest)) (closing : Closes rest) :
    ∃ used, input = used ++ rest ∧ ∀ other, Closes other →
      parseNumber (used ++ other) = some (v, other) := by
  obtain ⟨used, split⟩ := scanNumber_suffix input
  have scanned := scanNumber_append used closing
  unfold parseNumber at parsed
  simp only at parsed
  split at parsed
  · cases parsed
  next nonempty =>
    split at parsed
    · cases parsed
    next short =>
      simp only [some.injEq, Prod.mk.injEq] at parsed
      obtain ⟨isValue, isRest⟩ := parsed
      rw [isRest] at split
      rw [← split, scanned] at nonempty short isValue isRest
      have exhausted : (scanNumber used).2 = [] := by
        have sizes := congrArg List.length isRest
        simp only [length_append] at sizes
        exact length_eq_zero_iff.mp (by omega)
      refine ⟨used, split.symm, ?_⟩
      intro other otherCloses
      have again := scanNumber_append used otherCloses
      rw [exhausted, nil_append] at again
      unfold parseNumber
      simp only [again, if_neg nonempty, if_neg short]
      rw [isValue]

/-! ## Values -/

theorem split_skipWs_used {used : List UInt8}
    (skipped : skipWs input = used ++ rest) (nonempty : used ≠ []) :
    ∃ ws, (∀ c ∈ ws, isWs c = true) ∧ input = ws ++ (used ++ rest) ∧
      ∀ other, skipWs (ws ++ (used ++ other)) = used ++ other := by
  obtain ⟨c, tail, isUsed⟩ := exists_cons_of_ne_nil nonempty
  rw [isUsed, cons_append] at skipped
  obtain ⟨ws, blank, split, again⟩ := split_skipWs skipped
  refine ⟨ws, blank, by rw [isUsed, split]; rfl, ?_⟩
  intro other
  rw [isUsed]
  exact again (tail ++ other)

/-- What is to be shown of a call of `parse_value`.  As many steps as bytes
were read are enough to read them again. -/
def ValueLocal (fuel : Nat) : Prop :=
  ∀ input v rest, parseValue fuel input = some (v, rest) → Closes rest →
    ∃ used, input = used ++ rest ∧ used ≠ [] ∧ ∀ other n, used.length ≤ n → Closes other →
        parseValue n (used ++ other) = some (v, other)

def ItemsLocal (fuel : Nat) : Prop :=
  ∀ items input v rest, parseItems fuel items input = some (v, rest) →
    ∃ used, input = used ++ rest ∧ used ≠ [] ∧ ∀ other n, used.length ≤ n →
        parseItems n items (used ++ other) = some (v, other)

def MembersLocal (fuel : Nat) : Prop :=
  ∀ members input v rest, parseMembers fuel members input = some (v, rest) →
    ∃ inner more, more ≠ [] ∧ more.length ≤ inner.length ∧
      v = .object (members ++ more) ∧ input = inner ++ 125 :: rest ∧
      (∀ other n, inner.length < n →
        parseMembers n members (inner ++ 125 :: other) = some (v, other)) ∧
      ∀ extra n, inner.length < n → parseMembers n members (inner ++ 44 :: extra) =
          parseMembers (n - more.length) (members ++ more) extra

theorem itemsLocal_succ (value : ValueLocal fuel) (later : ItemsLocal fuel) :
    ItemsLocal (fuel + 1) := by
  intro items input v rest parsed
  rw [parseItems] at parsed
  split at parsed
  · cases parsed
  next item afterItem isItem =>
    split at parsed
    next afterComma comma =>
      obtain ⟨ws, blank, split, again⟩ := split_skipWs comma
      obtain ⟨used, splitItem, _, againItem⟩ :=
        value input item afterItem isItem (by
          rw [split]
          exact closes_ws_append blank _ (by decide))
      obtain ⟨usedLater, splitLater, nonempty, againLater⟩ := later _ _ _ _ parsed
      obtain ⟨blanks, _, splitComma, againComma⟩ := split_skipWs_used splitLater nonempty
      refine ⟨used ++ (ws ++ 44 :: (blanks ++ usedLater)), ?_, ?_, ?_⟩
      · rw [splitItem, split, splitComma]
        simp
      · simp
      · intro other n enough
        simp only [length_append, length_cons] at enough
        obtain ⟨n, rfl⟩ := Nat.exists_eq_succ_of_ne_zero (by omega : n ≠ 0)
        have first := againItem (ws ++ 44 :: (blanks ++ (usedLater ++ other))) n (by omega)
          (closes_ws_append blank _ (by decide))
        simp only [append_assoc, cons_append]
        rw [parseItems, first]
        simp only [again, againComma]
        exact againLater other n (by omega)
    next afterBracket bracket =>
      obtain ⟨ws, blank, split, again⟩ := split_skipWs bracket
      obtain ⟨used, splitItem, _, againItem⟩ :=
        value input item afterItem isItem (by
          rw [split]
          exact closes_ws_append blank _ (by decide))
      cases parsed
      refine ⟨used ++ (ws ++ [93]), ?_, ?_, ?_⟩
      · rw [splitItem, split]
        simp
      · simp
      · intro other n enough
        simp only [length_append, length_cons] at enough
        obtain ⟨n, rfl⟩ := Nat.exists_eq_succ_of_ne_zero (by omega : n ≠ 0)
        have first := againItem (ws ++ 93 :: other) n (by omega)
          (closes_ws_append blank _ (by decide))
        simp only [append_assoc, cons_append, nil_append]
        rw [parseItems, first]
        simp only [again]
    next => cases parsed

theorem memberName_local {afterColon : List UInt8} {key : CStr}
    (named : parseStringRaw (skipWs input) = some (key, rest))
    (colon : skipWs rest = 58 :: afterColon) :
    ∃ name, input = name ++ afterColon ∧ name ≠ [] ∧ ∀ other, ∃ left,
      parseStringRaw (skipWs (name ++ other)) = some (key, left) ∧ skipWs left = 58 :: other := by
  obtain ⟨used, splitName, againName⟩ := parseStringRaw_local named
  obtain ⟨ws, _, splitInput, againInput⟩ := split_skipWs splitName
  obtain ⟨blanks, _, splitColon, againColon⟩ := split_skipWs colon
  refine ⟨ws ++ 34 :: (used ++ (blanks ++ [58])), ?_, ?_, ?_⟩
  · rw [splitInput, splitColon]
    simp
  · simp
  · intro other
    refine ⟨blanks ++ 58 :: other, ?_, againColon other⟩
    have first := againInput (used ++ (blanks ++ 58 :: other))
    have second := againName (blanks ++ 58 :: other)
    simp only [append_assoc, cons_append, nil_append]
    rw [first, second]

theorem membersLocal_succ (value : ValueLocal fuel) (later : MembersLocal fuel) :
    MembersLocal (fuel + 1) := by
  intro members input v rest parsed
  rw [parseMembers] at parsed
  split at parsed
  · cases parsed
  next key afterName isName =>
    split at parsed
    next afterColon colon =>
      obtain ⟨name, splitName, named, againName⟩ := memberName_local isName colon
      have short := length_pos_iff.mpr named
      split at parsed
      · cases parsed
      next item afterItem isItem =>
        split at parsed
        next afterComma comma =>
          obtain ⟨ws, blank, split, again⟩ := split_skipWs comma
          obtain ⟨used, splitItem, _, againItem⟩ :=
            value afterColon item afterItem isItem (by
              rw [split]
              exact closes_ws_append blank _ (by decide))
          obtain ⟨inner, more, _, fewer, isObject, splitLater,
            againLater, continues⟩ := later _ _ _ _ parsed
          have reads : ∀ (tail : List UInt8) (n : Nat), used.length ≤ n →
              parseMembers (n + 1) members (name ++ (used ++ (ws ++ 44 :: tail))) =
              parseMembers n (members ++ [(key, item)]) tail := by
            intro tail n enough
            obtain ⟨left, isLeft, isColon⟩ := againName (used ++ (ws ++ 44 :: tail))
            have first := againItem (ws ++ 44 :: tail) n enough
              (closes_ws_append blank _ (by decide))
            rw [parseMembers, isLeft]
            simp only [isColon, first, again]
          refine ⟨name ++ (used ++ (ws ++ 44 :: inner)),
            (key, item) :: more, by simp, ?_, ?_, ?_, ?_, ?_⟩
          · simp only [length_append, length_cons]
            omega
          · rw [isObject]
            simp
          · rw [splitName, splitItem, split, splitLater]
            simp
          · intro other n enough
            simp only [length_append, length_cons] at enough
            obtain ⟨n, rfl⟩ := Nat.exists_eq_succ_of_ne_zero (by omega : n ≠ 0)
            have first := reads (inner ++ 125 :: other) n (by omega)
            simp only [append_assoc, cons_append]
            rw [first]
            exact againLater other n (by omega)
          · intro extra n enough
            simp only [length_append, length_cons] at enough
            obtain ⟨n, rfl⟩ := Nat.exists_eq_succ_of_ne_zero (by omega : n ≠ 0)
            have first := reads (inner ++ 44 :: extra) n (by omega)
            simp only [append_assoc, cons_append]
            rw [first, continues extra n (by omega)]
            simp
        next afterBrace brace =>
          obtain ⟨ws, blank, split, again⟩ := split_skipWs brace
          obtain ⟨used, splitItem, _, againItem⟩ :=
            value afterColon item afterItem isItem (by
              rw [split]
              exact closes_ws_append blank _ (by decide))
          cases parsed
          refine ⟨name ++ (used ++ ws), [(key, item)], by simp, ?_,
            rfl, ?_, ?_, ?_⟩
          · simp only [length_append, length_cons, length_nil]
            omega
          · rw [splitName, splitItem, split]
            simp
          · intro other n enough
            simp only [length_append] at enough
            obtain ⟨n, rfl⟩ := Nat.exists_eq_succ_of_ne_zero (by omega : n ≠ 0)
            obtain ⟨left, isLeft, isColon⟩ := againName (used ++ (ws ++ 125 :: other))
            have first := againItem (ws ++ 125 :: other) n (by omega)
              (closes_ws_append blank _ (by decide))
            simp only [append_assoc]
            rw [parseMembers, isLeft]
            simp only [isColon, first, again]
          · intro extra n enough
            simp only [length_append] at enough
            obtain ⟨n, rfl⟩ := Nat.exists_eq_succ_of_ne_zero (by omega : n ≠ 0)
            obtain ⟨left, isLeft, isColon⟩ := againName (used ++ (ws ++ 44 :: extra))
            have first := againItem (ws ++ 44 :: extra) n (by omega)
              (closes_ws_append blank _ (by decide))
            have isComma := skipWs_append_cons blank extra (by decide : isWs 44 = false)
            simp only [append_assoc]
            rw [parseMembers, isLeft]
            simp only [isColon, first, isComma, length_cons, length_nil]
            rfl
        next => cases parsed
    next => cases parsed

/-! ## The first byte decides -/

theorem parseValue_skipWs (n : Nat) (input : List UInt8) :
    parseValue n (skipWs input) = parseValue n input := by
  cases n with
  | zero => rfl
  | succ n => rw [parseValue, parseValue, skipWs_skipWs]

theorem parseValue_ws (blank : ∀ c ∈ ws, isWs c = true)
    (n : Nat) (input : List UInt8) :
    parseValue n (ws ++ input) = parseValue n input := by
  rw [← parseValue_skipWs n (ws ++ input), skipWs_append blank, parseValue_skipWs]

theorem parseMembers_ws (blank : ∀ c ∈ ws, isWs c = true)
    (n : Nat) (members : List (CStr × Value)) (input : List UInt8) :
    parseMembers n members (ws ++ input) = parseMembers n members input := by
  cases n with
  | zero => rfl
  | succ n => rw [parseMembers, parseMembers, skipWs_append blank]

theorem parseValue_emptyObject (n : Nat) (closed : skipWs input = 125 :: rest) :
    parseValue (n + 1) (123 :: input) = some (.object [], rest) := by
  rw [parseValue, skipWs_cons input (by decide)]
  simp [closed]

theorem parseValue_object (n : Nat) (skipped : skipWs input = c :: tail) (occupied : c ≠ 125) :
    parseValue (n + 1) (123 :: input) = parseMembers n [] (c :: tail) := by
  rw [parseValue, skipWs_cons input (by decide)]
  simp [skipped, occupied]

theorem parseValue_emptyArray (n : Nat) (closed : skipWs input = 93 :: rest) :
    parseValue (n + 1) (91 :: input) = some (.array [], rest) := by
  rw [parseValue, skipWs_cons input (by decide)]
  simp [closed]

theorem parseValue_array (n : Nat) (skipped : skipWs input = c :: tail) (occupied : c ≠ 93) :
    parseValue (n + 1) (91 :: input) = parseItems n [] (c :: tail) := by
  rw [parseValue, skipWs_cons input (by decide)]
  simp [skipped, occupied]

theorem parseValue_string (n : Nat) (input : List UInt8) : parseValue (n + 1) (34 :: input) =
      (parseStringRaw (34 :: input)).map fun (s, rest) => (.string s, rest) := by
  rw [parseValue, skipWs_cons input (by decide)]
  simp only [(by decide : ¬ (34 : UInt8) = 123),
    (by decide : ¬ (34 : UInt8) = 91), if_false, if_true]
  cases parseStringRaw (34 :: input) <;> rfl

theorem object_local {fuel : Nat} {input rest : List UInt8} {v : Value} (later : MembersLocal fuel)
    (parsed : parseValue (fuel + 1) (123 :: input) = some (v, rest)) :
    ∃ front members, v = .object members ∧ members.length < front.length ∧
      123 :: input = front ++ 125 :: rest ∧
      (∀ other n, front.length < n → parseValue n (front ++ 125 :: other) = some (v, other)) ∧
      (members ≠ [] → ∀ extra n, front.length < n → parseValue n (front ++ 44 :: extra) =
          parseMembers (n - 1 - members.length) members extra) := by
  cases skipped : skipWs input with
  | nil =>
    rw [parseValue, skipWs_cons input (by decide)] at parsed
    simp only [if_true, skipped] at parsed
    obtain ⟨inner, more, _, _, _, splitInner, _⟩ := later _ _ _ _ parsed
    simp at splitInner
  | cons c tail =>
    obtain ⟨ws, _, split, again⟩ := split_skipWs skipped
    by_cases empty : c = 125
    · subst empty
      rw [parseValue_emptyObject fuel skipped] at parsed
      cases parsed
      refine ⟨123 :: ws, [], rfl, by simp, by simp [split], ?_, ?_⟩
      · intro other n enough
        obtain ⟨n, rfl⟩ := Nat.exists_eq_succ_of_ne_zero (by omega : n ≠ 0)
        exact parseValue_emptyObject n (again other)
      · intro nonempty
        exact absurd rfl nonempty
    · rw [parseValue_object fuel skipped empty] at parsed
      obtain ⟨inner, more, _, fewer, isObject, splitInner, againInner,
        continues⟩ := later _ _ _ _ parsed
      obtain ⟨first, inner, rfl⟩ : ∃ first rest, inner = first :: rest := by
        cases inner with
        | nil =>
          rw [nil_append, List.cons.injEq] at splitInner
          exact absurd splitInner.1 empty
        | cons first inner => exact ⟨first, inner, rfl⟩
      rw [cons_append, List.cons.injEq] at splitInner
      obtain ⟨rfl, rfl⟩ := splitInner
      have room : ∀ n, (123 :: (ws ++ c :: inner)).length < n →
          ∃ m, n = m + 1 ∧ (c :: inner).length < m := by
        intro n enough
        simp only [length_cons, length_append] at enough
        refine ⟨n - 1, by omega, ?_⟩
        simp only [length_cons]
        omega
      refine ⟨123 :: (ws ++ c :: inner), more, isObject, ?_, by simp [split], ?_, ?_⟩
      · simp only [length_cons, length_append] at fewer ⊢
        omega
      · intro other n enough
        obtain ⟨n, rfl, inside⟩ := room n enough
        simp only [cons_append, append_assoc]
        rw [parseValue_object n (again (inner ++ 125 :: other)) empty]
        exact againInner other n inside
      · intro _ extra n enough
        obtain ⟨n, rfl, inside⟩ := room n enough
        simp only [cons_append, append_assoc]
        rw [parseValue_object n (again (inner ++ 44 :: extra)) empty]
        exact continues extra n inside

theorem array_local {fuel : Nat} {input rest : List UInt8} {v : Value} (later : ItemsLocal fuel)
    (parsed : parseValue (fuel + 1) (91 :: input) = some (v, rest)) :
    ∃ used, 91 :: input = used ++ rest ∧ used ≠ [] ∧ ∀ other n, used.length ≤ n →
        parseValue n (used ++ other) = some (v, other) := by
  cases skipped : skipWs input with
  | nil =>
    rw [parseValue, skipWs_cons input (by decide)] at parsed
    simp only [(by decide : ¬ (91 : UInt8) = 123), if_false, if_true,
      skipped] at parsed
    obtain ⟨used, split, nonempty, _⟩ := later _ _ _ _ parsed
    exact absurd (append_eq_nil_iff.mp split.symm).1 nonempty
  | cons c tail =>
    obtain ⟨ws, _, split, again⟩ := split_skipWs skipped
    by_cases empty : c = 93
    · subst empty
      rw [parseValue_emptyArray fuel skipped] at parsed
      cases parsed
      refine ⟨91 :: (ws ++ [93]), by simp [split], by simp, ?_⟩
      intro other n enough
      obtain ⟨n, rfl⟩ := Nat.exists_eq_succ_of_ne_zero (by
        simp only [length_cons] at enough
        omega : n ≠ 0)
      simp only [cons_append, append_assoc, nil_append]
      exact parseValue_emptyArray n (again other)
    · rw [parseValue_array fuel skipped empty] at parsed
      obtain ⟨used, splitUsed, nonempty, againUsed⟩ := later _ _ _ _ parsed
      obtain ⟨first, used, rfl⟩ := exists_cons_of_ne_nil nonempty
      rw [cons_append, List.cons.injEq] at splitUsed
      obtain ⟨rfl, rfl⟩ := splitUsed
      refine ⟨91 :: (ws ++ c :: used), by simp [split], by simp, ?_⟩
      intro other n enough
      simp only [length_cons, length_append] at enough
      obtain ⟨n, rfl⟩ := Nat.exists_eq_succ_of_ne_zero (by omega : n ≠ 0)
      simp only [cons_append, append_assoc]
      rw [parseValue_array n (again (used ++ other)) empty]
      exact againUsed other n (by
        simp only [length_cons]
        omega)

theorem string_local {v : Value} (parsed : parseValue (fuel + 1) (34 :: input) = some (v, rest)) :
    ∃ used, 34 :: input = used ++ rest ∧ used ≠ [] ∧ ∀ other n, used.length ≤ n →
        parseValue n (used ++ other) = some (v, other) := by
  rw [parseValue_string, map_eq_some_iff] at parsed
  obtain ⟨⟨text, last⟩, isText, isPair⟩ := parsed
  cases isPair
  obtain ⟨used, split, again⟩ := parseStringRaw_local isText
  refine ⟨34 :: used, split, by simp, ?_⟩
  intro other n enough
  obtain ⟨n, rfl⟩ := Nat.exists_eq_succ_of_ne_zero (by
    simp only [length_cons] at enough
    omega : n ≠ 0)
  rw [cons_append, parseValue_string, again other]
  rfl

theorem stripLiteral_eq_some {literal : List UInt8}
    (stripped : stripLiteral literal input = some rest) :
    input = literal ++ rest := by
  unfold stripLiteral at stripped
  split at stripped
  next isLiteral =>
    cases stripped
    rw [← take_append_drop literal.length input, isLiteral]
    simp
  next => cases stripped

theorem valueLocal_succ (items : ItemsLocal fuel) (members : MembersLocal fuel) :
    ValueLocal (fuel + 1) := by
  -- It is enough to look at what follows the white space.
  suffices tight : ∀ c tail v rest, isWs c = false →
      parseValue (fuel + 1) (c :: tail) = some (v, rest) → Closes rest →
        ∃ used, c :: tail = used ++ rest ∧ used ≠ [] ∧ ∀ other n, used.length ≤ n → Closes other →
            parseValue n (used ++ other) = some (v, other) by
    intro input v rest parsed closing
    cases skipped : skipWs input with
    | nil =>
      rw [← parseValue_skipWs, skipped, parseValue] at parsed
      cases parsed
    | cons c tail =>
      obtain ⟨ws, blank, split, _⟩ := split_skipWs skipped
      rw [← parseValue_skipWs, skipped] at parsed
      obtain ⟨used, splitUsed, nonempty, again⟩ :=
        tight c tail v rest (head_skipWs skipped) parsed closing
      refine ⟨ws ++ used, by rw [split, splitUsed]; simp,
        by simp [nonempty], ?_⟩
      intro other n enough otherCloses
      rw [length_append] at enough
      rw [append_assoc, parseValue_ws blank]
      exact again other n (by omega) otherCloses
  intro c tail v rest other parsed closing
  by_cases brace : c = 123
  · subst brace
    obtain ⟨front, _, _, _, split, again, _⟩ := object_local members parsed
    refine ⟨front ++ [125], by rw [split]; simp, by simp, ?_⟩
    intro other n enough _
    rw [length_append] at enough
    rw [append_assoc]
    exact again other n enough
  by_cases bracket : c = 91
  · subst bracket
    obtain ⟨used, split, nonempty, again⟩ := array_local items parsed
    exact ⟨used, split, nonempty, fun other n enough _ =>
      again other n enough⟩
  by_cases quote : c = 34
  · subst quote
    obtain ⟨used, split, nonempty, again⟩ := string_local parsed
    exact ⟨used, split, nonempty, fun other n enough _ =>
      again other n enough⟩
  have literal : ∀ word : List UInt8, word ≠ [] →
      (∀ n tail, parseValue (n + 1) (word ++ tail) = some (v, tail)) →
      c :: tail = word ++ rest → ∃ used, c :: tail = used ++ rest ∧ used ≠ [] ∧
          ∀ other n, used.length ≤ n → Closes other →
            parseValue n (used ++ other) = some (v, other) := by
    intro word nonempty reads split
    refine ⟨word, split, nonempty, ?_⟩
    intro other n enough _
    have positive := length_pos_iff.mpr nonempty
    obtain ⟨n, rfl⟩ := Nat.exists_eq_succ_of_ne_zero (by omega : n ≠ 0)
    exact reads n other
  by_cases numeric : c = 45 ∨ isDigit c = true
  · rw [parseValue_number fuel tail numeric] at parsed
    obtain ⟨used, split, again⟩ := parseNumber_local parsed closing
    have nonempty : used ≠ [] := by
      intro empty
      rw [empty, nil_append] at split
      have stop := not_of_closes (closing c tail split.symm)
      rcases numeric with isMinus | digit
      · exact stop.2.2.2.2.2 isMinus
      · rw [stop.1] at digit
        cases digit
    refine ⟨used, split, nonempty, ?_⟩
    intro other n enough otherCloses
    have positive := length_pos_iff.mpr nonempty
    obtain ⟨n, rfl⟩ := Nat.exists_eq_succ_of_ne_zero (by omega : n ≠ 0)
    obtain ⟨first, more, isUsed⟩ := exists_cons_of_ne_nil nonempty
    have isFirst : first = c := by
      rw [isUsed, cons_append, List.cons.injEq] at split
      exact split.1.symm
    have starts : used ++ other = c :: (more ++ other) := by
      rw [isUsed, isFirst]
      rfl
    rw [starts, parseValue_number n _ numeric, ← starts]
    exact again other otherCloses
  · rw [parseValue, skipWs_cons tail other] at parsed
    simp only [if_neg brace, if_neg bracket, if_neg quote, if_neg numeric] at parsed
    split at parsed
    next after isTrue =>
      cases parsed
      exact literal (ascii "true") (by decide) (fun n tail => (parseValue_literal n tail).1)
        (stripLiteral_eq_some isTrue)
    next =>
      split at parsed
      next after isFalse =>
        cases parsed
        exact literal (ascii "false") (by decide) (fun n tail => (parseValue_literal n tail).2.1)
          (stripLiteral_eq_some isFalse)
      next =>
        split at parsed
        next after isNull =>
          cases parsed
          exact literal (ascii "null") (by decide) (fun n tail => (parseValue_literal n tail).2.2)
            (stripLiteral_eq_some isNull)
        next => cases parsed

/-- By induction on the steps, the three calls together. -/
theorem all_local (fuel : Nat) : ValueLocal fuel ∧ ItemsLocal fuel ∧ MembersLocal fuel := by
  induction fuel with
  | zero =>
    refine ⟨?_, ?_, ?_⟩
    · intro input v rest parsed
      cases parsed
    · intro items input v rest parsed
      cases parsed
    · intro members input v rest parsed
      cases parsed
  | succ fuel ih =>
    obtain ⟨value, items, members⟩ := ih
    exact ⟨valueLocal_succ items members, itemsLocal_succ value items,
      membersLocal_succ value members⟩

/-! ## Objects -/

theorem parseItems_array {n : Nat} {items : List Value} {v : Value}
    {input rest : List UInt8}
    (parsed : parseItems n items input = some (v, rest)) :
    ∃ all, v = .array all := by
  induction n generalizing items input with
  | zero => cases parsed
  | succ n ih =>
    rw [parseItems] at parsed
    split at parsed
    · cases parsed
    · split at parsed
      · exact ih parsed
      · cases parsed
        exact ⟨_, rfl⟩
      · cases parsed

theorem brace_of_object {n : Nat} {members : List (CStr × Value)} (other : isWs c = false)
    (parsed : parseValue (n + 1) (c :: tail) = some (.object members, rest)) :
    c = 123 := by
  by_contra brace
  rw [parseValue, skipWs_cons tail other] at parsed
  simp only [if_neg brace] at parsed
  split at parsed
  · split at parsed
    · cases parsed
    · obtain ⟨all, isArray⟩ := parseItems_array parsed
      cases isArray
  · split at parsed
    · split at parsed
      · cases parsed
      · cases parsed
    · split at parsed
      · cases parsed
      · split at parsed
        · cases parsed
        · split at parsed
          · cases parsed
          · split at parsed
            · unfold parseNumber at parsed
              simp only at parsed
              split at parsed
              · cases parsed
              · split at parsed
                · cases parsed
                · cases parsed
            · cases parsed

theorem parseValue_object_local {n : Nat} {input rest : List UInt8}
    {members : List (CStr × Value)}
    (parsed : parseValue n input = some (.object members, rest)) :
    ∃ front, input = front ++ 125 :: rest ∧ members.length < front.length ∧
      (∀ other n, front.length < n → parseValue n (front ++ 125 :: other) =
          some (.object members, other)) ∧
      (members ≠ [] → ∀ extra n, front.length < n → parseValue n (front ++ 44 :: extra) =
          parseMembers (n - 1 - members.length) members extra) := by
  cases n with
  | zero => cases parsed
  | succ n =>
    cases skipped : skipWs input with
    | nil =>
      rw [← parseValue_skipWs, skipped, parseValue] at parsed
      cases parsed
    | cons c tail =>
      obtain ⟨ws, blank, split, _⟩ := split_skipWs skipped
      rw [← parseValue_skipWs, skipped] at parsed
      have brace := brace_of_object (head_skipWs skipped) parsed
      subst brace
      obtain ⟨front, all, isObject, fewer, splitFront, again, continues⟩ :=
        object_local (all_local n).2.2 parsed
      cases isObject
      refine ⟨ws ++ front, ?_, ?_, ?_, ?_⟩
      · rw [split, splitFront, append_assoc]
      · rw [length_append]
        omega
      · intro other m enough
        rw [length_append] at enough
        rw [append_assoc, parseValue_ws blank]
        exact again other m (by omega)
      · intro nonempty extra m enough
        rw [length_append] at enough
        rw [append_assoc, parseValue_ws blank]
        exact continues nonempty extra m (by omega)

theorem blank_of_skipWs_nil (skipped : skipWs rest = []) : ∀ c ∈ rest, isWs c = true := by
  obtain ⟨ws, blank, split⟩ := exists_ws rest
  rw [skipped, append_nil] at split
  rw [split]
  exact blank

theorem jsonParse_object {text : List UInt8} {members : List (CStr × Value)}
    (parsed : jsonParse text = some (.object members)) :
    ∃ front ws, text = front ++ 125 :: ws ∧ (∀ c ∈ ws, isWs c = true) ∧
      members.length < front.length ∧
      (∀ other n, front.length < n → parseValue n (front ++ 125 :: other) =
          some (.object members, other)) ∧
      (members ≠ [] → ∀ extra n, front.length < n → parseValue n (front ++ 44 :: extra) =
          parseMembers (n - 1 - members.length) members extra) := by
  unfold jsonParse at parsed
  split at parsed
  · cases parsed
  next v rest isValue =>
    split at parsed
    next skipped =>
      cases parsed
      obtain ⟨front, split, fewer, again, continues⟩ := parseValue_object_local isValue
      exact ⟨front, rest, split, blank_of_skipWs_nil skipped, fewer, again, continues⟩
    next => cases parsed

theorem parseMembers_other {n : Nat} {members : List (CStr × Value)}
    {input rest : List UInt8} {v : Value}
    (parsed : parseMembers n members input = some (v, rest)) :
    ∃ more, v = .object (members ++ more) ∧ ∀ others,
      parseMembers n others input = some (.object (others ++ more), rest) := by
  induction n generalizing members input with
  | zero => cases parsed
  | succ n ih =>
    rw [parseMembers] at parsed
    split at parsed
    · cases parsed
    next key afterName isName =>
      split at parsed
      next afterColon colon =>
        split at parsed
        · cases parsed
        next item afterItem isItem =>
          split at parsed
          next afterComma comma =>
            obtain ⟨more, isObject, again⟩ := ih parsed
            refine ⟨(key, item) :: more, by simp [isObject], ?_⟩
            intro others
            rw [parseMembers, isName]
            simp only [colon, isItem, comma, again]
            simp
          next afterBrace brace =>
            cases parsed
            refine ⟨[(key, item)], rfl, ?_⟩
            intro others
            rw [parseMembers, isName]
            simp only [colon, isItem, brace]
          next => cases parsed
      next => cases parsed

end Cix.Json
