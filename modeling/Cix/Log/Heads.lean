import Cix.Log.Tail

/-!
# The head of a line and its tree

Where `line_head` reads a head from a line that `json_parse` accepts, the tree
of the line holds the same fields: each string as far as its first zero byte,
and the time stamp as the double nearest to it.
-/

namespace Cix.Log

open Cix.Lib Cix.Json Option
open List hiding asString

variable {span : List UInt8}

theorem parseStringLoop_span {span : List UInt8} (fuel : Nat)
    (enough : span.length < fuel) (noQuote : 34 ∉ span)
    (noBackslash : 92 ∉ span) (rest : List UInt8) :
    parseStringLoop fuel (span ++ 34 :: rest) = some (span, rest) := by
  induction span generalizing fuel with
  | nil =>
    obtain ⟨fuel, rfl⟩ := Nat.exists_eq_succ_of_ne_zero (by omega : fuel ≠ 0)
    simp [parseStringLoop]
  | cons c span ih =>
    obtain ⟨fuel, rfl⟩ := Nat.exists_eq_succ_of_ne_zero (by omega : fuel ≠ 0)
    obtain ⟨quote, noQuote⟩ := not_or.mp (mem_cons.not.mp noQuote)
    obtain ⟨backslash, noBackslash⟩ := not_or.mp (mem_cons.not.mp noBackslash)
    have fewer : span.length < fuel := by
      simp only [length_cons] at enough
      omega
    simp [parseStringLoop, Ne.symm quote, Ne.symm backslash, ih fuel fewer noQuote noBackslash]

theorem parseStringRaw_span (noQuote : 34 ∉ span) (noBackslash : 92 ∉ span) (rest : List UInt8) :
    parseStringRaw (34 :: (span ++ 34 :: rest)) = some (CStr.ofBytes span, rest) := by
  have enough : span.length < (span ++ 34 :: rest).length + 1 := by
    simp only [length_append, length_cons]
    omega
  rw [parseStringRaw, parseStringLoop_span _ enough noQuote noBackslash]
  rfl

theorem parseValue_span (fuel : Nat) (noQuote : 34 ∉ span)
    (noBackslash : 92 ∉ span) (rest : List UInt8) :
    parseValue (fuel + 1) (34 :: (span ++ 34 :: rest)) =
      some (.string (CStr.ofBytes span), rest) := by
  rw [parseValue, skipWs_cons _ (by decide)]
  simp only [show (34 : UInt8) ≠ 123 by decide, if_false,
    show (34 : UInt8) ≠ 91 by decide, if_true]
  rw [parseStringRaw_span noQuote noBackslash]

variable {rest : List UInt8}

structure PlainName (name : String) : Prop where
  noQuote : 34 ∉ ascii name
  noBackslash : 92 ∉ ascii name

theorem parseMembers_member {name : String} (plain : PlainName name)
    {fuel : Nat} {text : List UInt8} {value : Value}
    (members : List (CStr × Value))
    (parsed : parseValue fuel text = some (value, 44 :: rest)) :
    parseMembers (fuel + 1) members (34 :: (ascii name ++ 34 :: 58 :: text)) =
      parseMembers fuel (members ++ [(CStr.ofString name, value)]) rest := by
  have key := parseStringRaw_span plain.noQuote plain.noBackslash (58 :: text)
  rw [ascii, CStr.ofBytes_bytes] at key
  rw [parseMembers, skipWs_cons _ (by decide), ascii, key]
  simp only [skipWs_cons text (show isWs 58 = false by decide), parsed,
    skipWs_cons rest (show isWs 44 = false by decide)]

theorem object_of_parseMembers (fuel : Nat) (members : List (CStr × Value))
    (input rest : List UInt8) (v : Value)
    (parsed : parseMembers fuel members input = some (v, rest)) :
    ∃ more, v = .object (members ++ more) := by
  induction fuel generalizing members input with
  | zero => cases parsed
  | succ fuel ih =>
    rw [parseMembers] at parsed
    split at parsed
    · cases parsed
    next key afterKey _ =>
      split at parsed
      next afterColon _ =>
        split at parsed
        · cases parsed
        next value afterValue _ =>
          split at parsed
          next following _ =>
            obtain ⟨more, shape⟩ := ih _ _ parsed
            refine ⟨(key, value) :: more, ?_⟩
            rw [shape, append_assoc, singleton_append]
          · cases parsed
            exact ⟨[(key, value)], rfl⟩
          · cases parsed
      · cases parsed

variable {input : List UInt8}

theorem eq_of_stripLiteral {literal : List UInt8}
    (stripped : stripLiteral literal input = some rest) :
    input = literal ++ rest := by
  unfold stripLiteral at stripped
  split at stripped
  next front =>
    have cut := take_append_drop literal.length input
    rw [front, some.inj stripped] at cut
    exact cut.symm
  next => cases stripped

theorem eq_of_headStr {key : List UInt8} (read : headStr key input = some (span, rest)) :
    input = key ++ (span ++ 34 :: rest) ∧ 34 ∉ span ∧ 92 ∉ span := by
  unfold headStr at read
  split at read
  · cases read
  next after stripped =>
    rw [eq_of_stripLiteral stripped]
    split at read
    · cases read
    next noBackslash =>
      split at read
      · cases read
      next quote following dropped =>
        cases read
        have isQuote : quote = 34 := by
          have first := head?_dropWhile_not (fun c : UInt8 => decide (c ≠ 34)) after
          rw [dropped] at first
          simpa using first
        have cut := takeWhile_append_dropWhile (p := fun c : UInt8 => decide (c ≠ 34)) (l := after)
        rw [dropped, isQuote] at cut
        refine ⟨by rw [cut], ?_, noBackslash⟩
        intro mem
        have different := mem_takeWhile_imp mem
        simp at different

theorem parseNumber_head {body : List UInt8} {minus : Option UInt8}
    (sign : takeOneOf 45 45 input = (minus, body))
    (short : ¬ (body.takeWhile isDigit).length > 18)
    (nonempty : body.takeWhile isDigit ≠ [])
    (follows : body.dropWhile isDigit = 44 :: rest) :
    parseNumber input = some (.number (Double.ofDecimal minus.isSome
        (digitsValue (body.takeWhile isDigit)) 0), 44 :: rest) := by
  have positive := length_pos_of_ne_nil nonempty
  have signLength := Bool.toNat_le minus.isSome
  have noPoint : takeOneOf 46 46 (44 :: rest) = (none, 44 :: rest) := rfl
  have noMark : takeOneOf 101 69 (44 :: rest) = (none, 44 :: rest) := rfl
  simp only [parseNumber, scanNumber, sign, follows, noPoint, noMark,
    isSome_none, Bool.false_eq_true, if_false]
  rw [if_neg (by simp only [NumberText.length]; omega), if_neg (by
    simp only [NumberText.length, length_nil, Bool.toNat_false, isSome_none]
    omega)]
  have noExponent : digitsValue [] = 0 := rfl
  simp [strtod, nonempty, noExponent]

def spanText (name : String) (span rest : List UInt8) : List UInt8 :=
  34 :: (ascii name ++ 34 :: 58 :: 34 :: (span ++ 34 :: rest))

theorem eq_of_headNames {ts : Int} {h : Head} (read : headNames ts input = some h) :
    h.ts = ts ∧ (34 ∉ h.source ∧ 92 ∉ h.source) ∧ (34 ∉ h.level ∧ 92 ∉ h.level) ∧
      (34 ∉ h.container ∧ 92 ∉ h.container) ∧
      ∃ rest, input = 44 :: spanText "source" h.source (44 :: spanText "level" h.level
          (44 :: spanText "container" h.container (44 :: rest))) := by
  unfold headNames at read
  split at read
  · cases read
  next source afterSource readSource =>
    split at read
    · cases read
    next level afterLevel readLevel =>
      split at read
      · cases read
      next container afterContainer readContainer =>
        split at read
        next hasMsg =>
          obtain ⟨rest, isMsg⟩ := isSome_iff_exists.mp hasMsg
          obtain ⟨sourceText, sourcePlain⟩ := eq_of_headStr readSource
          obtain ⟨levelText, levelPlain⟩ := eq_of_headStr readLevel
          obtain ⟨containerText, containerPlain⟩ := eq_of_headStr readContainer
          cases read
          refine ⟨rfl, sourcePlain, levelPlain, containerPlain, msgKey.tail ++ rest, ?_⟩
          have msg : afterContainer = 44 :: (msgKey.tail ++ rest) := eq_of_stripLiteral isMsg
          rw [sourceText, levelText, containerText, msg]
          rfl
        next => cases read

theorem eq_of_lineHead {line : List UInt8} {h : Head} (read : lineHead line = some h) :
    ∃ input minus body, line = 123 :: 34 :: (ascii "ts" ++ 34 :: 58 :: input) ∧
      takeOneOf 45 45 input = (minus, body) ∧
      ¬ (body.takeWhile isDigit).length > 18 ∧
      body.takeWhile isDigit ≠ [] ∧
      headNames (if minus.isSome then
          -(digitsValue (body.takeWhile isDigit) : Int)
        else digitsValue (body.takeWhile isDigit)) (body.dropWhile isDigit) = some h := by
  unfold lineHead at read
  split at read
  · cases read
  next input stripped =>
    refine ⟨input, (takeOneOf 45 45 input).1, (takeOneOf 45 45 input).2,
      eq_of_stripLiteral stripped, rfl, ?_⟩
    simp only at read
    split at read
    · cases read
    next short =>
      split at read
      · cases read
      next nonempty => exact ⟨short, nonempty, read⟩

theorem start_of_takeOneOf {input body : List UInt8} {minus : Option UInt8}
    (sign : takeOneOf 45 45 input = (minus, body))
    (nonempty : body.takeWhile isDigit ≠ []) :
    ∃ c rest, input = c :: rest ∧ (c = 45 ∨ isDigit c = true) := by
  cases input with
  | nil =>
    cases sign
    exact absurd rfl nonempty
  | cons c rest =>
    refine ⟨c, rest, rfl, ?_⟩
    by_cases isMinus : c = 45
    · exact Or.inl isMinus
    · right
      have same : takeOneOf 45 45 (c :: rest) = (none, c :: rest) := by
        simp [takeOneOf, isMinus]
      rw [same] at sign
      cases sign
      by_contra noDigit
      simp [noDigit] at nonempty

theorem toLongLong_head (minus : Bool) (n : Nat) : (Double.ofDecimal minus n 0).toLongLong =
      readBack (if minus then -(n : Int) else n) := by
  rw [readBack_def]
  cases minus with
  | false =>
    have sign : decide ((n : Int) < 0) = false := by simp
    rw [if_neg Bool.false_ne_true, sign, Int.natAbs_natCast]
  | true =>
    rw [if_pos rfl]
    by_cases zero : n = 0
    · rw [zero]
      decide +kernel
    · have sign : decide (-(n : Int) < 0) = true := by
        simp only [decide_eq_true_eq]
        omega
      rw [sign, Int.natAbs_neg, Int.natAbs_natCast]

theorem plainName_ts : PlainName "ts" := ⟨by decide, by decide⟩

theorem plainName_source : PlainName "source" := ⟨by decide, by decide⟩

theorem plainName_level : PlainName "level" := ⟨by decide, by decide⟩

theorem plainName_container : PlainName "container" := ⟨by decide, by decide⟩

theorem parseMembers_span {name : String} (plain : PlainName name)
    (clean : 34 ∉ span ∧ 92 ∉ span) (fuel : Nat) (members : List (CStr × Value))
    (rest : List UInt8) :
    parseMembers (fuel + 2) members (spanText name span (44 :: rest)) = parseMembers (fuel + 1)
        (members ++ [(CStr.ofString name, .string (CStr.ofBytes span))])
        rest :=
  parseMembers_member plain members (parseValue_span fuel clean.1 clean.2 (44 :: rest))

def headMembers (ts : Double) (h : Head) : List (CStr × Value) :=
  [("ts", .number ts), ("source", .string (CStr.ofBytes h.source)),
    ("level", .string (CStr.ofBytes h.level)),
    ("container", .string (CStr.ofBytes h.container))]

theorem object_of_lineHead {line : List UInt8} {h : Head} {root : Value}
    (read : lineHead line = some h) (parsed : jsonParse line = some root) :
    ∃ ts more, root = .object (headMembers ts h ++ more) ∧ ts.toLongLong = readBack h.ts := by
  obtain ⟨input, minus, body, shape, sign, short, nonempty, names⟩ := eq_of_lineHead read
  obtain ⟨stamp, sourcePlain, levelPlain, containerPlain, rest, follows⟩ :=
    eq_of_headNames names
  have number := parseNumber_head sign short nonempty follows
  obtain ⟨c, digits, isStart, start⟩ := start_of_takeOneOf sign nonempty
  obtain ⟨fuel, enough⟩ : ∃ fuel, line.length = fuel + 5 := by
    refine ⟨line.length - 5, ?_⟩
    have name : (ascii "ts").length = 2 := by decide
    rw [shape]
    simp only [length_cons, length_append, name]
    omega
  have value : parseValue (fuel + 4) input = parseNumber input := by
    rw [isStart]
    exact parseValue_number (fuel + 3) digits start
  rw [number] at value
  have opened : parseValue (line.length + 1) line = parseMembers (fuel + 5) []
        (34 :: (ascii "ts" ++ 34 :: 58 :: input)) := by
    rw [enough, shape, parseValue, skipWs_cons _ (by decide)]
    simp [skipWs_cons _ (show isWs 34 = false by decide)]
  rw [parseMembers_member plainName_ts [] value, parseMembers_span plainName_source sourcePlain,
    parseMembers_span plainName_level levelPlain,
    parseMembers_span plainName_container containerPlain] at opened
  rw [jsonParse, opened] at parsed
  split at parsed
  · cases parsed
  next v after members =>
    split at parsed
    · cases parsed
      obtain ⟨more, whole⟩ := object_of_parseMembers _ _ _ _ _ members
      refine ⟨_, more, whole, ?_⟩
      rw [stamp, toLongLong_head]
    · cases parsed

theorem fields_of_lineHead {line : List UInt8} {h : Head} {f : Fields}
    (read : lineHead line = some h) (parsed : parseLine line = some f) :
    f.ts = readBack h.ts ∧ f.source = some (CStr.ofBytes h.source) ∧
      f.level = some (CStr.ofBytes h.level) ∧
      f.container = some (CStr.ofBytes h.container) := by
  rw [parseLine, map_eq_some_iff] at parsed
  obtain ⟨root, isRoot, fields⟩ := parsed
  obtain ⟨ts, more, shape, stamp⟩ := object_of_lineHead read isRoot
  rw [← fields, shape, ← stamp]
  have sourceTs : CStr.ofString "ts" ≠ CStr.ofString "source" := by decide
  have levelTs : CStr.ofString "ts" ≠ CStr.ofString "level" := by decide
  have levelSource : CStr.ofString "source" ≠ CStr.ofString "level" := by decide
  have containerTs : CStr.ofString "ts" ≠ CStr.ofString "container" := by decide
  have containerSource : CStr.ofString "source" ≠ CStr.ofString "container" := by decide
  have containerLevel : CStr.ofString "level" ≠ CStr.ofString "container" := by decide
  simp [fieldsOf, headMembers, objectGet, findMember, asNumber, asString,
    sourceTs, levelTs, levelSource, containerTs, containerSource,
    containerLevel]

end Cix.Log
