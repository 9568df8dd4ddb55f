import Cix.Json.Roundtrip

/-!
# String literals

A literal that the parser accepts is a sequence of pieces: bytes that stand for
themselves, escapes of one byte, and `\u` escapes that name a character, alone
or as a surrogate pair.  What the parser collects are the bytes of the pieces,
UTF-8 for a named character.  It returns them as a C string, so a literal that
names the zero character is cut short there.
-/

namespace Cix.Json

open Cix.Lib List Option

theorem or_shift {n k a : Nat} (small : a < 2 ^ k) : 2 ^ k * n ||| a = a + 2 ^ k * n := by
  rw [← Nat.two_pow_add_eq_or_of_lt small, Nat.add_comm]

theorem continuation (n : Nat) : 0x80 ||| n &&& 0x3f = n % 64 + 0x80 := by
  have low : n &&& 0x3f = n % 64 := Nat.and_two_pow_sub_one_eq_mod n 6
  have joined := @or_shift 1 7 (n % 64) (by omega)
  rw [low]
  exact joined

theorem utf8Encode_eq (c : Char) : utf8Encode c.toNat = String.utf8EncodeChar c := by
  have isValue : c.val.toNat = c.toNat := rfl
  have bounded : c.toNat < 0x110000 := by
    rcases c.valid with low | high
    · have := isValue ▸ low
      omega
    · have := isValue ▸ high.2
      omega
  rw [utf8Encode, String.utf8EncodeChar]
  simp only [isValue, continuation, Nat.shiftRight_eq_div_pow]
  by_cases one : c.toNat < 0x80
  · rw [if_pos one, if_pos (show c.toNat ≤ 0x7f by omega)]
  · rw [if_neg one, if_neg (show ¬c.toNat ≤ 0x7f by omega)]
    by_cases two : c.toNat < 0x800
    · have lead : 0xc0 ||| c.toNat / 2 ^ 6 = c.toNat / 2 ^ 6 + 0xc0 :=
        @or_shift 3 6 (c.toNat / 2 ^ 6) (by omega)
      have whole : c.toNat / 64 % 0x20 = c.toNat / 2 ^ 6 := by omega
      rw [if_pos two, if_pos (show c.toNat ≤ 0x7ff by omega), whole, lead]
    · rw [if_neg two, if_neg (show ¬c.toNat ≤ 0x7ff by omega)]
      by_cases three : c.toNat < 0x10000
      · have lead : 0xe0 ||| c.toNat / 2 ^ 12 = c.toNat / 2 ^ 12 + 0xe0 :=
          @or_shift 7 5 (c.toNat / 2 ^ 12) (by omega)
        have whole : c.toNat / 4096 % 0x10 = c.toNat / 2 ^ 12 := by omega
        rw [if_pos three, if_pos (show c.toNat ≤ 0xffff by omega), whole,
          lead]
      · have lead : 0xf0 ||| c.toNat / 2 ^ 18 = c.toNat / 2 ^ 18 + 0xf0 :=
          @or_shift 15 4 (c.toNat / 2 ^ 18) (by omega)
        have whole : c.toNat / 262144 % 0x08 = c.toNat / 2 ^ 18 := by omega
        rw [if_neg three, if_neg (show ¬c.toNat ≤ 0xffff by omega), whole,
          lead]

def Spells (digits : List UInt8) (n : Nat) : Prop :=
  ∃ a b c d x y z w, digits = [a, b, c, d] ∧ hexValue a = some x ∧
    hexValue b = some y ∧ hexValue c = some z ∧ hexValue d = some w ∧
    n = ((x * 16 + y) * 16 + z) * 16 + w

/-- One piece of a literal, with the character that a `\u` escape names. -/
inductive Piece where
  | raw (c : UInt8) (plain : c ≠ 34 ∧ c ≠ 92)
  | simple (e byte : UInt8) (known : simpleEscape e = some byte)
  | scalar (digits : List UInt8) (char : Char)
      (spells : Spells digits char.toNat)
  | pair (high low : List UInt8) (hi lo : Nat) (char : Char)
      (spellsHigh : Spells high hi) (spellsLow : Spells low lo)
      (isHigh : 0xd800 ≤ hi ∧ hi ≤ 0xdbff)
      (isLow : 0xdc00 ≤ lo ∧ lo ≤ 0xdfff)
      (names : char.toNat = 0x10000 + (hi - 0xd800) * 0x400 + (lo - 0xdc00))

def Piece.text : Piece → List UInt8
  | .raw c _ => [c]
  | .simple e _ _ => [92, e]
  | .scalar digits _ _ => 92 :: 117 :: digits
  | .pair high low _ _ _ _ _ _ _ _ => 92 :: 117 :: (high ++ 92 :: 117 :: low)

def Piece.bytes : Piece → List UInt8
  | .raw c _ => [c]
  | .simple _ byte _ => [byte]
  | .scalar _ char _ => String.utf8EncodeChar char
  | .pair _ _ _ _ char _ _ _ _ _ => String.utf8EncodeChar char

def literal (pieces : List Piece) (rest : List UInt8) : List UInt8 :=
  34 :: (pieces.flatMap Piece.text ++ 34 :: rest)

def decoded (pieces : List Piece) : List UInt8 :=
  pieces.flatMap Piece.bytes

variable {digits rest : List UInt8}

theorem hexValue_lt {h : UInt8} {n : Nat} (value : hexValue h = some n) : n < 16 := by
  unfold hexValue at value
  simp only [UInt8.le_iff_toNat_le] at value
  split_ifs at value with digit lower upper
  all_goals
    have same := some.inj value
    simp only [UInt8.reduceToNat] at *
    omega

theorem Spells.lt {n : Nat} (spells : Spells digits n) : n < 0x10000 := by
  obtain ⟨a, b, c, d, x, y, z, w, _, isA, isB, isC, isD, rfl⟩ := spells
  have := hexValue_lt isA
  have := hexValue_lt isB
  have := hexValue_lt isC
  have := hexValue_lt isD
  omega

theorem parseHex4_spelled {n : Nat} (spells : Spells digits n)
    (rest : List UInt8) : parseHex4 (digits ++ rest) = some (n, rest) := by
  obtain ⟨a, b, c, d, x, y, z, w, rfl, isA, isB, isC, isD, rfl⟩ := spells
  simp only [cons_append, nil_append, parseHex4, isA, isB, isC, isD]

theorem spelled_of_parseHex4 {input : List UInt8} {n : Nat}
    (parsed : parseHex4 input = some (n, rest)) :
    ∃ digits, input = digits ++ rest ∧ Spells digits n := by
  unfold parseHex4 at parsed
  split at parsed
  · rename_i a b c d tail
    split at parsed
    · rename_i x y z w isA isB isC isD
      cases parsed
      exact ⟨[a, b, c, d], rfl, a, b, c, d, x, y, z, w, rfl, isA, isB, isC, isD, rfl⟩
    · cases parsed
  · cases parsed

theorem parseUnicode_scalar {char : Char} (spells : Spells digits char.toNat) (rest : List UInt8) :
    parseUnicode (digits ++ rest) = some (String.utf8EncodeChar char, rest) := by
  have notSurrogate : char.toNat < 0xd800 ∨ 0xdfff < char.toNat := by
    rcases char.valid with low | high
    · exact Or.inl low
    · exact Or.inr high.1
  rw [parseUnicode, parseHex4_spelled spells]
  dsimp only
  rw [if_neg (by omega), if_neg (by omega), utf8Encode_eq]

theorem parseUnicode_pair {high low : List UInt8} {hi lo : Nat} {char : Char}
    (spellsHigh : Spells high hi) (spellsLow : Spells low lo)
    (isHigh : 0xd800 ≤ hi ∧ hi ≤ 0xdbff) (isLow : 0xdc00 ≤ lo ∧ lo ≤ 0xdfff)
    (names : char.toNat = 0x10000 + (hi - 0xd800) * 0x400 + (lo - 0xdc00))
    (rest : List UInt8) :
    parseUnicode (high ++ 92 :: 117 :: (low ++ rest)) =
      some (String.utf8EncodeChar char, rest) := by
  simp only [parseUnicode, parseHex4_spelled spellsHigh, if_pos isHigh, parseHex4_spelled spellsLow]
  rw [if_neg (by omega), Nat.shiftLeft_eq, ← names, utf8Encode_eq]

theorem parseStringLoop_piece (fuel : Nat) (piece : Piece) (rest : List UInt8) :
    parseStringLoop (fuel + 1) (piece.text ++ rest) =
      (parseStringLoop fuel rest).map fun (more, rest) =>
        (piece.bytes ++ more, rest) := by
  cases piece with
  | raw c plain => simp [Piece.text, Piece.bytes, parseStringLoop, plain.1, plain.2]
  | simple e byte known =>
    have notUnicode : e ≠ 117 := by
      rintro rfl
      revert known
      simp [simpleEscape]
    simp [Piece.text, Piece.bytes, parseStringLoop, known]
  | scalar digits char spells =>
    simp [Piece.text, Piece.bytes, parseStringLoop, parseUnicode_scalar spells]
  | pair high low hi lo char spellsHigh spellsLow isHigh isLow names =>
    have read := parseUnicode_pair spellsHigh spellsLow isHigh isLow names rest
    simp [Piece.text, Piece.bytes, parseStringLoop, read]

theorem parseStringLoop_pieces {fuel : Nat} {pieces : List Piece}
    (enough : pieces.length < fuel) (rest : List UInt8) :
    parseStringLoop fuel (pieces.flatMap Piece.text ++ 34 :: rest) =
      some (decoded pieces, rest) := by
  induction pieces generalizing fuel with
  | nil =>
    obtain ⟨fuel, rfl⟩ := Nat.exists_eq_succ_of_ne_zero (by omega : fuel ≠ 0)
    simp [decoded, parseStringLoop]
  | cons piece pieces ih =>
    obtain ⟨fuel, rfl⟩ := Nat.exists_eq_succ_of_ne_zero (by omega : fuel ≠ 0)
    have tail := @ih fuel (by
      simp only [length_cons] at enough
      omega)
    rw [flatMap_cons, append_assoc, parseStringLoop_piece, tail]
    rfl

theorem Piece.text_length (piece : Piece) : 1 ≤ piece.text.length := by
  cases piece <;> simp [Piece.text]

theorem length_le_texts (pieces : List Piece) :
    pieces.length ≤ (pieces.flatMap Piece.text).length := by
  induction pieces with
  | nil => exact Nat.le_refl 0
  | cons piece pieces ih =>
    have one := piece.text_length
    rw [flatMap_cons, length_append, length_cons]
    omega

theorem parseStringRaw_literal (pieces : List Piece) (rest : List UInt8) :
    parseStringRaw (literal pieces rest) = some (CStr.ofBytes (decoded pieces), rest) := by
  have enough := length_le_texts pieces
  rw [literal, parseStringRaw, parseStringLoop_pieces]
  · rfl
  · rw [length_append, length_cons]
    omega

theorem exists_char {n : Nat} (bounded : n < 0x110000)
    (notSurrogate : n < 0xd800 ∨ 0xdfff < n) : ∃ char : Char, char.toNat = n := by
  have valid : n.isValidChar := by
    rcases notSurrogate with low | high
    · exact Or.inl low
    · exact Or.inr ⟨high, bounded⟩
  exact ⟨Char.ofNatAux n valid, rfl⟩

theorem piece_of_parseUnicode {input bytes rest : List UInt8}
    (parsed : parseUnicode input = some (bytes, rest)) :
    ∃ piece : Piece, 92 :: 117 :: input = piece.text ++ rest ∧ piece.bytes = bytes := by
  rw [parseUnicode] at parsed
  cases first : parseHex4 input with
  | none =>
    rw [first] at parsed
    cases parsed
  | some outcome =>
    obtain ⟨cp, afterFirst⟩ := outcome
    obtain ⟨digits, isInput, spells⟩ := spelled_of_parseHex4 first
    rw [first] at parsed
    dsimp only at parsed
    split at parsed
    · rename_i isHigh
      split at parsed
      · rename_i low
        cases second : parseHex4 low with
        | none =>
          rw [second] at parsed
          cases parsed
        | some outcome =>
          obtain ⟨lo, afterSecond⟩ := outcome
          obtain ⟨lowDigits, isLowInput, spellsLow⟩ := spelled_of_parseHex4 second
          rw [second] at parsed
          dsimp only at parsed
          split at parsed
          · cases parsed
          · rename_i isLow
            obtain ⟨isBytes, isRest⟩ := Prod.mk.inj (some.inj parsed)
            subst isRest
            obtain ⟨char, names⟩ := @exists_char (0x10000 + (cp - 0xd800) * 0x400 + (lo - 0xdc00))
              (by omega) (by omega)
            refine ⟨.pair digits lowDigits cp lo char spells spellsLow
              isHigh (by omega) names, ?_, ?_⟩
            · rw [isInput, isLowInput]
              simp [Piece.text]
            · rw [← isBytes, Nat.shiftLeft_eq]
              change String.utf8EncodeChar char = _
              rw [← utf8Encode_eq, names]
      · cases parsed
    · rename_i notHigh
      split at parsed
      · cases parsed
      · rename_i notLow
        cases parsed
        have bounded := spells.lt
        obtain ⟨char, rfl⟩ := @exists_char cp (by omega) (by omega)
        refine ⟨.scalar digits char spells, ?_, ?_⟩
        · rw [isInput]
          rfl
        · exact (utf8Encode_eq char).symm

theorem pieces_of_parseStringLoop {fuel : Nat} {input bytes rest : List UInt8}
    (parsed : parseStringLoop fuel input = some (bytes, rest)) :
    ∃ pieces : List Piece, input = pieces.flatMap Piece.text ++ 34 :: rest ∧
        decoded pieces = bytes := by
  induction fuel generalizing input bytes with
  | zero => cases parsed
  | succ fuel ih =>
    -- one more piece in front of what the loop reads after it
    have prepend : ∀ (piece : Piece) (tail : List UInt8), input = piece.text ++ tail →
        ((parseStringLoop fuel tail).map fun (more, rest) =>
          (piece.bytes ++ more, rest)) = some (bytes, rest) →
        ∃ pieces : List Piece, input = pieces.flatMap Piece.text ++ 34 :: rest ∧
            decoded pieces = bytes := by
      intro piece tail isInput outcome
      obtain ⟨⟨more, last⟩, parsedTail, isPair⟩ := map_eq_some_iff.mp outcome
      cases isPair
      obtain ⟨pieces, isTail, isMore⟩ := ih parsedTail
      refine ⟨piece :: pieces, ?_, ?_⟩
      · rw [isInput, isTail, flatMap_cons, append_assoc]
      · rw [← isMore]
        rfl
    cases input with
    | nil => cases parsed
    | cons c tail =>
      by_cases quote : c = 34
      · subst quote
        cases parsed
        exact ⟨[], rfl, rfl⟩
      by_cases backslash : c = 92
      · subst backslash
        cases tail with
        | nil => cases parsed
        | cons e tail =>
          by_cases unicode : e = 117
          · subst unicode
            rw [parseStringLoop, if_neg (by decide), if_pos rfl] at parsed
            split at parsed
            · cases parsed
            · rename_i encoded after isUnicode
              obtain ⟨piece, isText, isBytes⟩ := piece_of_parseUnicode isUnicode
              rw [← isBytes] at parsed
              exact prepend piece after isText parsed
          · cases known : simpleEscape e with
            | none => simp [parseStringLoop, known] at parsed
            | some byte =>
              apply prepend (.simple e byte known) tail rfl
              simpa [parseStringLoop, known, Piece.bytes] using parsed
      · apply prepend (.raw c ⟨quote, backslash⟩) tail rfl
        simpa [parseStringLoop, quote, backslash, Piece.bytes] using parsed

theorem literal_of_parseStringRaw {input : List UInt8} {s : CStr}
    (accepted : parseStringRaw input = some (s, rest)) :
    ∃ pieces : List Piece, input = literal pieces rest ∧ s = CStr.ofBytes (decoded pieces) := by
  unfold parseStringRaw at accepted
  split at accepted
  · rename_i tail
    obtain ⟨⟨bytes, last⟩, parsed, isPair⟩ := map_eq_some_iff.mp accepted
    cases isPair
    obtain ⟨pieces, isTail, isBytes⟩ := pieces_of_parseStringLoop parsed
    exact ⟨pieces, by rw [isTail]; rfl, by rw [isBytes]⟩
  · cases accepted

theorem decoded_unique {pieces others : List Piece}
    (same : literal pieces rest = literal others rest) :
    decoded pieces = decoded others := by
  have fuel := Nat.lt_succ_of_le (Nat.le_max_left pieces.length others.length)
  have fuel' := Nat.lt_succ_of_le (Nat.le_max_right pieces.length others.length)
  have first := parseStringLoop_pieces fuel rest
  have second := parseStringLoop_pieces fuel' rest
  rw [(List.cons.inj same).2, second] at first
  exact (Prod.mk.inj (some.inj first)).1.symm

def LoneSurrogate (n : Nat) (rest : List UInt8) : Prop :=
  0xdc00 ≤ n ∧ n ≤ 0xdfff ∨ 0xd800 ≤ n ∧ n ≤ 0xdbff ∧ ∀ low lo tail,
      rest = 92 :: 117 :: (low ++ tail) → Spells low lo → ¬(0xdc00 ≤ lo ∧ lo ≤ 0xdfff)

theorem parseUnicode_lone {n : Nat} (spells : Spells digits n)
    (lone : LoneSurrogate n rest) : parseUnicode (digits ++ rest) = none := by
  rw [parseUnicode, parseHex4_spelled spells]
  dsimp only
  rcases lone with isLow | ⟨isHigh, isHigh', noLow⟩
  · rw [if_neg (by omega), if_pos isLow]
  · rw [if_pos ⟨isHigh, isHigh'⟩]
    split
    · rename_i low
      cases second : parseHex4 low with
      | none => rfl
      | some outcome =>
        obtain ⟨lo, tail⟩ := outcome
        obtain ⟨lowDigits, isLow, spellsLow⟩ := spelled_of_parseHex4 second
        have outside := noLow lowDigits lo tail (by rw [isLow]) spellsLow
        dsimp only
        rw [if_pos (by omega)]
    · rfl

theorem parseStringLoop_lone {digits rest : List UInt8} {n : Nat}
    (spells : Spells digits n) (lone : LoneSurrogate n rest) (fuel : Nat)
    (pieces : List Piece) :
    parseStringLoop fuel (pieces.flatMap Piece.text ++ 92 :: 117 :: (digits ++ rest)) = none := by
  induction pieces generalizing fuel with
  | nil =>
    cases fuel with
    | zero => rfl
    | succ fuel => simp [parseStringLoop, parseUnicode_lone spells lone]
  | cons piece pieces ih =>
    cases fuel with
    | zero => rfl
    | succ fuel =>
      rw [flatMap_cons, append_assoc, parseStringLoop_piece, ih]
      rfl

theorem ofNat_ne_zero {n : Nat} (positive : 0 < n) (small : n < 256) : UInt8.ofNat n ≠ 0 := by
  intro zero
  have value := congrArg UInt8.toNat zero
  rw [UInt8.toNat_ofNat', UInt8.toNat_zero, Nat.mod_eq_of_lt small] at value
  omega

theorem zero_notMem_utf8 {c : Char} (named : String.utf8EncodeChar c ≠ [0]) :
    (0 : UInt8) ∉ String.utf8EncodeChar c := by
  unfold String.utf8EncodeChar at named ⊢
  dsimp only at named ⊢
  split_ifs at named ⊢ with one two three
  · rw [mem_singleton]
    intro zero
    exact named (by rw [← zero])
  all_goals
    simp only [mem_cons, not_mem_nil, or_false, not_or]
    refine ⟨?_, ?_⟩
    all_goals try refine ⟨?_, ?_⟩
    all_goals try refine ⟨?_, ?_⟩
    all_goals exact (ofNat_ne_zero (by omega) (by omega)).symm

theorem Piece.zero_notMem {piece : Piece} (nonzero : piece.bytes ≠ [0]) :
    (0 : UInt8) ∉ piece.bytes := by
  cases piece with
  | raw c plain =>
    intro mem
    apply nonzero
    rw [Piece.bytes, mem_singleton] at mem
    rw [Piece.bytes, mem]
  | simple e byte known =>
    intro mem
    rw [Piece.bytes, mem_singleton] at mem
    rw [← mem] at known
    unfold simpleEscape at known
    split_ifs at known
    all_goals exact absurd known (by decide)
  | scalar digits char spells => exact zero_notMem_utf8 nonzero
  | pair high low hi lo char _ _ _ _ _ => exact zero_notMem_utf8 nonzero

def ReadsWhole (input rest : List UInt8) (s : CStr) : Prop :=
  ∃ pieces : List Piece, input = literal pieces rest ∧ s.bytes = decoded pieces

def NamesNoZero (input rest : List UInt8) : Prop :=
  ∃ pieces : List Piece, input = literal pieces rest ∧ ∀ piece ∈ pieces, piece.bytes ≠ [0]

theorem readsWhole_iff {input : List UInt8} {s : CStr}
    (accepted : parseStringRaw input = some (s, rest)) :
    ReadsWhole input rest s ↔ NamesNoZero input rest := by
  constructor
  · rintro ⟨pieces, isInput, isDecoded⟩
    refine ⟨pieces, isInput, ?_⟩
    intro piece mem isZero
    apply s.nulFree
    rw [isDecoded]
    refine mem_flatMap.mpr ⟨piece, mem, ?_⟩
    rw [isZero]
    exact mem_singleton_self 0
  · rintro ⟨pieces, isInput, nonzero⟩
    have nulFree : (0 : UInt8) ∉ decoded pieces := by
      intro zero
      obtain ⟨piece, mem, inPiece⟩ := mem_flatMap.mp zero
      exact Piece.zero_notMem (nonzero piece mem) inPiece
    rw [isInput, parseStringRaw_literal] at accepted
    have same := (Prod.mk.inj (some.inj accepted)).1
    refine ⟨pieces, isInput, ?_⟩
    rw [← same]
    exact congrArg CStr.bytes (CStr.ofBytes_bytes ⟨decoded pieces, nulFree⟩)

theorem jwStr_text (s : CStr) : (jwStr s jwInit).buf = escapedString s :=
  (emits_str s).buf_jwInit

/-- What `jw_str` writes is read back.  An accepted literal consists of pieces,
each escape of a code point one character in UTF-8; one with half a surrogate
pair is refused.  The parser returns all that the pieces stand for exactly if
none of them is the zero character. -/
theorem string_codec (s : CStr) (input rest : List UInt8) :
    parseStringRaw ((jwStr s jwInit).buf ++ rest) = some (s, rest) ∧
    (∀ (pieces : List Piece) (digits : List UInt8) (n : Nat),
      Spells digits n → LoneSurrogate n rest → parseStringRaw (34 :: (pieces.flatMap Piece.text ++
          92 :: 117 :: (digits ++ rest))) = none) ∧
    (parseStringRaw input = some (s, rest) →
        (∃ pieces : List Piece, input = literal pieces rest ∧ s = CStr.ofBytes (decoded pieces)) ∧
        (ReadsWhole input rest s ↔ NamesNoZero input rest)) := by
  refine ⟨?_, ?_, ?_⟩
  · rw [jwStr_text]
    exact parseStringRaw_escapedString s rest
  · intro pieces digits n spells lone
    rw [parseStringRaw, parseStringLoop_lone spells lone]
    rfl
  · intro accepted
    exact ⟨literal_of_parseStringRaw accepted, readsWhole_iff accepted⟩

def letterA : Piece :=
  .raw 97 (by decide)

def zeroPiece : Piece :=
  .scalar [48, 48, 48, 48] (Char.ofNat 0) ⟨48, 48, 48, 48, 0, 0, 0, 0, by decide⟩

def facePiece : Piece :=
  .pair [100, 56, 51, 100] [100, 101, 48, 48] 0xd83d 0xde00 (Char.ofNat 0x1f600)
    ⟨100, 56, 51, 100, 13, 8, 3, 13, by decide⟩
    ⟨100, 101, 48, 48, 13, 14, 0, 0, by decide⟩
    (by decide) (by decide) (by decide)

/-- A letter and a surrogate pair are read as the letter and four bytes. -/
theorem face_readsWhole : ReadsWhole (literal [letterA, facePiece] []) []
      (CStr.ofBytes (decoded [letterA, facePiece])) := by
  apply ((string_codec _ (literal [letterA, facePiece] []) []).2.2
    (parseStringRaw_literal [letterA, facePiece] [])).2.mpr
  exact ⟨[letterA, facePiece], rfl, by decide⟩

/-- What stands behind the zero character is lost. -/
theorem zero_cuts_short : ¬((∀ (s : CStr) (rest : List UInt8),
        parseStringRaw ((jwStr s jwInit).buf ++ rest) = some (s, rest)) ∧
      ∀ (input rest : List UInt8) (s : CStr),
        parseStringRaw input = some (s, rest) → ReadsWhole input rest s) := by
  rintro ⟨_, claimed⟩
  obtain ⟨pieces, same, whole⟩ := claimed (literal [letterA, zeroPiece, letterA] []) [] _
    (parseStringRaw_literal [letterA, zeroPiece, letterA] [])
  rw [← decoded_unique same] at whole
  revert whole
  decide

end Cix.Json
