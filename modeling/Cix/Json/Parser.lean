import Cix.Json.Value

/-!
# Reading JSON

`json_parse` of `daemon/src/json.c` over the bytes of a text.  What a function
of the source leaves between `ps->p` and `ps->end` is the rest that its model
returns.  The mutual recursion of `parse_value` with the loops of
`parse_array` and `parse_object` is on a fuel that `jsonParse` sets from the
length of the text.
-/

namespace Cix.Json

open Cix.Lib

def isWs (c : UInt8) : Bool :=
  c = 32 || c = 9 || c = 10 || c = 13

def isDigit (c : UInt8) : Bool :=
  48 ≤ c && c ≤ 57

def skipWs (input : List UInt8) : List UInt8 :=
  input.dropWhile isWs

def hexValue (h : UInt8) : Option Nat :=
  if 48 ≤ h ∧ h ≤ 57 then some (h.toNat - 48)
  else if 97 ≤ h ∧ h ≤ 102 then some (h.toNat - 97 + 10)
  else if 65 ≤ h ∧ h ≤ 70 then some (h.toNat - 65 + 10)
  else none

/-- `parse_hex4` on the four bytes after the `u`, with what follows them. -/
def parseHex4 : List UInt8 → Option (Nat × List UInt8)
  | a :: b :: c :: d :: rest =>
    match hexValue a, hexValue b, hexValue c, hexValue d with
    | some a, some b, some c, some d => some (((a * 16 + b) * 16 + c) * 16 + d, rest)
    | _, _, _, _ => none
  | _ => none

def utf8Encode (cp : Nat) : List UInt8 :=
  if cp < 0x80 then [UInt8.ofNat cp]
  else if cp < 0x800 then
    [UInt8.ofNat (0xc0 ||| cp >>> 6), UInt8.ofNat (0x80 ||| cp &&& 0x3f)]
  else if cp < 0x10000 then
    [UInt8.ofNat (0xe0 ||| cp >>> 12), UInt8.ofNat (0x80 ||| (cp >>> 6) &&& 0x3f),
      UInt8.ofNat (0x80 ||| cp &&& 0x3f)]
  else
    [UInt8.ofNat (0xf0 ||| cp >>> 18), UInt8.ofNat (0x80 ||| (cp >>> 12) &&& 0x3f),
      UInt8.ofNat (0x80 ||| (cp >>> 6) &&& 0x3f),
      UInt8.ofNat (0x80 ||| cp &&& 0x3f)]

/-- The `\u` escape from behind the `u` on. A high surrogate needs its low half
right behind it. -/
def parseUnicode (input : List UInt8) : Option (List UInt8 × List UInt8) :=
  match parseHex4 input with
  | none => none
  | some (cp, rest) =>
    if 0xd800 ≤ cp ∧ cp ≤ 0xdbff then
      match rest with
      | 92 :: 117 :: low =>
        match parseHex4 low with
        | none => none
        | some (lo, rest) =>
          if lo < 0xdc00 ∨ lo > 0xdfff then none
          else some (utf8Encode (0x10000 + ((cp - 0xd800) <<< 10) + (lo - 0xdc00)), rest)
      | _ => none
    else if 0xdc00 ≤ cp ∧ cp ≤ 0xdfff then none
    else some (utf8Encode cp, rest)

def simpleEscape (c : UInt8) : Option UInt8 :=
  if c = 34 then some 34
  else if c = 92 then some 92
  else if c = 47 then some 47
  else if c = 110 then some 10
  else if c = 116 then some 9
  else if c = 114 then some 13
  else if c = 98 then some 8
  else if c = 102 then some 12
  else none

/-- The loop of `parse_string_raw`, from behind the opening quote. -/
def parseStringLoop : (fuel : Nat) → List UInt8 → Option (List UInt8 × List UInt8)
  | 0, _ => none
  | _ + 1, [] => none
  | fuel + 1, c :: rest =>
    if c = 34 then some ([], rest)
    else if c = 92 then
      match rest with
      | [] => none
      | 117 :: rest =>
        match parseUnicode rest with
        | none => none
        | some (bytes, rest) =>
          (parseStringLoop fuel rest).map fun (more, rest) =>
            (bytes ++ more, rest)
      | e :: rest =>
        match simpleEscape e with
        | none => none
        | some byte =>
          (parseStringLoop fuel rest).map fun (more, rest) =>
            (byte :: more, rest)
    else
      (parseStringLoop fuel rest).map fun (more, rest) => (c :: more, rest)

def parseStringRaw (input : List UInt8) : Option (CStr × List UInt8) :=
  match input with
  | 34 :: rest =>
    (parseStringLoop (rest.length + 1) rest).map fun (bytes, rest) =>
      (CStr.ofBytes bytes, rest)
  | _ => none

def takeOneOf (a b : UInt8) (input : List UInt8) : Option UInt8 × List UInt8 :=
  match input with
  | c :: rest => if c = a ∨ c = b then (some c, rest) else (none, input)
  | [] => (none, [])

/-- The parts of the text that `parse_number` passes over. -/
structure NumberText where
  minus : Bool
  whole : List UInt8
  point : Bool
  fraction : List UInt8
  (mark sign : Option UInt8)
  exponent : List UInt8

/-- The scan of `parse_number`. -/
def scanNumber (input : List UInt8) : NumberText × List UInt8 :=
  let (minus, input) := takeOneOf 45 45 input
  let whole := input.takeWhile isDigit
  let input := input.dropWhile isDigit
  let (point, input) := takeOneOf 46 46 input
  let fraction := if point.isSome then input.takeWhile isDigit else []
  let input := if point.isSome then input.dropWhile isDigit else input
  let (mark, input) := takeOneOf 101 69 input
  let (sign, input) := if mark.isSome then takeOneOf 43 45 input else (none, input)
  let exponent := if mark.isSome then input.takeWhile isDigit else []
  let input := if mark.isSome then input.dropWhile isDigit else input
  (⟨minus.isSome, whole, point.isSome, fraction, mark, sign, exponent⟩, input)

def NumberText.length (t : NumberText) : Nat :=
  t.minus.toNat + t.whole.length + t.point.toNat + t.fraction.length +
    t.mark.isSome.toNat + t.sign.isSome.toNat + t.exponent.length

def digitsValue (digits : List UInt8) : Nat :=
  digits.foldl (fun value c => value * 10 + (c.toNat - 48)) 0

/-- `strtod` on the texts that `scanNumber` produces. An exponent mark that no digit
follows is not part of the number. -/
def strtod (t : NumberText) : Double :=
  if t.whole = [] ∧ t.fraction = [] then Double.zero
  else
    let exponent : Int := digitsValue t.exponent
    let scale := if t.sign = some 45 then -exponent else exponent
    Double.ofDecimal t.minus (digitsValue (t.whole ++ t.fraction)) (scale - t.fraction.length)

def parseNumber (input : List UInt8) : Option (Value × List UInt8) :=
  let (t, rest) := scanNumber input
  if t.length = 0 then none
  else if t.length ≥ 64 then none
  else some (.number (strtod t), rest)

def stripLiteral (literal input : List UInt8) : Option (List UInt8) :=
  if input.take literal.length = literal then
    some (input.drop literal.length)
  else none

mutual

def parseValue : (fuel : Nat) → List UInt8 → Option (Value × List UInt8)
  | 0, _ => none
  | fuel + 1, input =>
    match skipWs input with
    | [] => none
    | c :: rest =>
      if c = 123 then
        match skipWs rest with
        | 125 :: rest => some (.object [], rest)
        | rest => parseMembers fuel [] rest
      else if c = 91 then
        match skipWs rest with
        | 93 :: rest => some (.array [], rest)
        | rest => parseItems fuel [] rest
      else if c = 34 then
        match parseStringRaw (c :: rest) with
        | none => none
        | some (s, rest) => some (.string s, rest)
      else
        match stripLiteral (ascii "true") (c :: rest) with
        | some rest => some (.bool true, rest)
        | none =>
          match stripLiteral (ascii "false") (c :: rest) with
          | some rest => some (.bool false, rest)
          | none =>
            match stripLiteral (ascii "null") (c :: rest) with
            | some rest => some (.null, rest)
            | none =>
              if c = 45 ∨ isDigit c then parseNumber (c :: rest)
              else none

/-- The loop of `parse_array`, with the items read so far. -/
def parseItems : (fuel : Nat) → (items : List Value) → List UInt8 → Option (Value × List UInt8)
  | 0, _, _ => none
  | fuel + 1, items, input =>
    match parseValue fuel input with
    | none => none
    | some (item, rest) =>
      match skipWs rest with
      | 44 :: rest => parseItems fuel (items ++ [item]) (skipWs rest)
      | 93 :: rest => some (.array (items ++ [item]), rest)
      | _ => none

/-- The loop of `parse_object`, with the members read so far. -/
def parseMembers : (fuel : Nat) → (members : List (CStr × Value)) →
    List UInt8 → Option (Value × List UInt8)
  | 0, _, _ => none
  | fuel + 1, members, input =>
    match parseStringRaw (skipWs input) with
    | none => none
    | some (key, rest) =>
      match skipWs rest with
      | 58 :: rest =>
        match parseValue fuel rest with
        | none => none
        | some (value, rest) =>
          match skipWs rest with
          | 44 :: rest => parseMembers fuel (members ++ [(key, value)]) rest
          | 125 :: rest => some (.object (members ++ [(key, value)]), rest)
          | _ => none
      | _ => none

end

def jsonParse (text : List UInt8) : Option Value :=
  match parseValue (text.length + 1) text with
  | none => none
  | some (v, rest) => if skipWs rest = [] then some v else none

end Cix.Json
