import Cix.Json.Value
import Mathlib.Data.Nat.Digits.Defs

/-!
# Writing JSON

The `jw_*` functions of `daemon/src/json.c`.  A writer is its buffer and its
stack of open containers, innermost first.  `Doc` is what a sequence of calls
writes: `Emits f d` says that `f` writes the text of `d` as one value, and
`Fills c f pieces` that `f` writes the listed pieces into an open container.
The rules below derive the text of a writing function from its calls.
-/

namespace Cix.Json

open Cix.Lib

inductive Container where
  | obj
  | arr
  deriving DecidableEq, Repr

/-- One level of `stack` and `has_item`. -/
structure Frame where
  container : Container
  hasItem : Bool

structure Writer where
  buf : List UInt8
  stack : List Frame

def jwInit : Writer := ⟨[], []⟩

def jwRaw (text : List UInt8) (w : Writer) : Writer :=
  { w with buf := w.buf ++ text }

def hexDigit (n : Nat) : UInt8 :=
  if n < 10 then UInt8.ofNat (48 + n) else UInt8.ofNat (87 + n)

/-- The bytes that `jw_escape_content` writes for one byte. -/
def escapeByte (c : UInt8) : List UInt8 :=
  if c = 34 then [92, 34]
  else if c = 92 then [92, 92]
  else if c = 10 then [92, 110]
  else if c = 9 then [92, 116]
  else if c = 13 then [92, 114]
  else if c = 8 then [92, 98]
  else if c = 12 then [92, 102]
  else if c < 0x20 then
    [92, 117, 48, 48, hexDigit (c.toNat / 16), hexDigit (c.toNat % 16)]
  else [c]

def escapeContent (bytes : List UInt8) : List UInt8 :=
  bytes.flatMap escapeByte

def escapedString (s : CStr) : List UInt8 :=
  34 :: (escapeContent s.bytes ++ [34])

def jwValuePrefix (w : Writer) : Writer :=
  match w.stack with
  | ⟨.arr, hasItem⟩ :: rest =>
    ⟨if hasItem then w.buf ++ [44] else w.buf, ⟨.arr, true⟩ :: rest⟩
  | _ => w

def jwObjOpen (w : Writer) : Writer :=
  let w := jwRaw [123] (jwValuePrefix w)
  { w with stack := ⟨.obj, false⟩ :: w.stack }

def jwObjClose (w : Writer) : Writer :=
  jwRaw [125] { w with stack := w.stack.tail }

def jwArrOpen (w : Writer) : Writer :=
  let w := jwRaw [91] (jwValuePrefix w)
  { w with stack := ⟨.arr, false⟩ :: w.stack }

def jwArrClose (w : Writer) : Writer :=
  jwRaw [93] { w with stack := w.stack.tail }

/-- `jw_key`, which is called with an object as the innermost container. -/
def jwKey (key : CStr) (w : Writer) : Writer :=
  match w.stack with
  | ⟨container, hasItem⟩ :: rest =>
    jwRaw (escapedString key ++ [58]) ⟨if hasItem then w.buf ++ [44] else w.buf,
        ⟨container, true⟩ :: rest⟩
  | [] => jwRaw (escapedString key ++ [58]) w

def jwStr (s : CStr) (w : Writer) : Writer :=
  jwRaw (escapedString s) (jwValuePrefix w)

def natText (n : Nat) : List UInt8 :=
  if n = 0 then [48]
  else (Nat.digits 10 n).reverse.map fun digit => UInt8.ofNat (48 + digit)

/-- The conversion `%lld`. -/
def intText (v : Int) : List UInt8 :=
  if v < 0 then 45 :: natText v.natAbs else natText v.natAbs

def jwInt (v : Int) (w : Writer) : Writer :=
  jwRaw (intText v) (jwValuePrefix w)

def jwBool (b : Bool) (w : Writer) : Writer :=
  jwRaw (ascii (if b then "true" else "false")) (jwValuePrefix w)

def jwNull (w : Writer) : Writer :=
  jwRaw (ascii "null") (jwValuePrefix w)

/-- A tree that `jw_int`, `jw_bool`, `jw_str`, `jw_null` and the containers write,
with integers that a double holds. -/
inductive Doc where
  | null
  | bool (b : Bool)
  | int (n : Double.Whole)
  | str (s : CStr)
  | arr (items : List Doc)
  | obj (members : List (CStr × Doc))

def separated (hasItem : Bool) : List (List UInt8) → List UInt8
  | [] => []
  | piece :: rest => (if hasItem then [44] else []) ++ piece ++ separated true rest

namespace Doc

mutual

def text : Doc → List UInt8
  | null => ascii "null"
  | bool b => ascii (if b then "true" else "false")
  | int n => intText n.value
  | str s => escapedString s
  | arr items => 91 :: (separated false (itemTexts items) ++ [93])
  | obj members => 123 :: (separated false (memberTexts members) ++ [125])

def itemTexts : List Doc → List (List UInt8)
  | [] => []
  | item :: rest => item.text :: itemTexts rest

def memberTexts : List (CStr × Doc) → List (List UInt8)
  | [] => []
  | (key, item) :: rest => (escapedString key ++ 58 :: item.text) :: memberTexts rest

end

mutual

def value : Doc → Value
  | null => .null
  | bool b => .bool b
  | int n => .number (Double.ofWhole n)
  | str s => .string s
  | arr items => .array (itemValues items)
  | obj members => .object (memberValues members)

def itemValues : List Doc → List Value
  | [] => []
  | item :: rest => item.value :: itemValues rest

def memberValues : List (CStr × Doc) → List (CStr × Value)
  | [] => []
  | (key, item) :: rest => (key, item.value) :: memberValues rest

end

def memberText (mem : CStr × Doc) : List UInt8 :=
  escapedString mem.1 ++ 58 :: mem.2.text

theorem itemTexts_eq_map (items : List Doc) : itemTexts items = items.map text := by
  induction items with
  | nil => simp [itemTexts]
  | cons item rest ih => simp [itemTexts, ih]

theorem memberTexts_eq_map (members : List (CStr × Doc)) :
    memberTexts members = members.map memberText := by
  induction members with
  | nil => simp [memberTexts]
  | cons mem rest ih => simp [memberTexts, memberText, ih]

theorem memberValues_eq_map (members : List (CStr × Doc)) :
    memberValues members = members.map fun m => (m.1, m.2.value) := by
  induction members with
  | nil => simp [memberValues]
  | cons mem rest ih => simp [memberValues, ih]

theorem itemValues_eq_map (items : List Doc) : itemValues items = items.map value := by
  induction items with
  | nil => simp [itemValues]
  | cons item rest ih => simp [itemValues, ih]

end Doc

theorem separated_append (hasItem : Bool) (first second : List (List UInt8)) :
    separated hasItem (first ++ second) = separated hasItem first ++
        separated (hasItem || !first.isEmpty) second := by
  induction first generalizing hasItem with
  | nil => simp [separated]
  | cons piece rest ih => simp [separated, ih]

variable {f : Writer → Writer}

def Emits (f : Writer → Writer) (d : Doc) : Prop :=
  ∀ w, f w = jwRaw d.text (jwValuePrefix w)

def Fills (c : Container) (f : Writer → Writer) (pieces : List (List UInt8)) : Prop :=
  ∀ buf hasItem stack, f ⟨buf, ⟨c, hasItem⟩ :: stack⟩ = ⟨buf ++ separated hasItem pieces,
      ⟨c, hasItem || !pieces.isEmpty⟩ :: stack⟩

theorem emits_str (s : CStr) : Emits (jwStr s) (.str s) := by
  intro w
  rfl

theorem emits_int {v : Int} (bounded : v.natAbs ≤ 2 ^ 53) :
    Emits (jwInt v) (.int (Double.Whole.ofInt v)) := by
  intro w
  rw [jwInt, Doc.text, Double.Whole.ofInt_value bounded]

theorem emits_bool (b : Bool) : Emits (jwBool b) (.bool b) := by
  intro w
  rfl

theorem emits_null : Emits jwNull .null := by
  intro w
  rfl

theorem fills_nothing (c : Container) : Fills c id [] := by
  intro buf hasItem stack
  simp [separated]

theorem Fills.comp {c : Container} {g : Writer → Writer}
    {first second : List (List UInt8)} (earlier : Fills c f first)
    (later : Fills c g second) :
    Fills c (fun w => g (f w)) (first ++ second) := by
  intro buf hasItem stack
  change g (f _) = _
  rw [earlier, later, separated_append]
  cases first <;> simp

theorem Emits.fillsArr {d : Doc} (emits : Emits f d) : Fills .arr f [d.text] := by
  intro buf hasItem stack
  rw [emits]
  cases hasItem <;> simp [jwValuePrefix, jwRaw, separated]

def FillsObj (f : Writer → Writer) (members : List (CStr × Doc)) : Prop :=
  Fills .obj f (members.map Doc.memberText)

theorem Emits.member {d : Doc} (key : CStr) (emits : Emits f d) :
    FillsObj (fun w => f (jwKey key w)) [(key, d)] := by
  intro buf hasItem stack
  change f (jwKey key _) = _
  rw [emits]
  cases hasItem <;>
    simp [jwKey, jwValuePrefix, jwRaw, separated, Doc.memberText]

theorem FillsObj.comp {g : Writer → Writer} {first second : List (CStr × Doc)}
    (earlier : FillsObj f first) (later : FillsObj g second) :
    FillsObj (fun w => g (f w)) (first ++ second) := by
  have both := Fills.comp earlier later
  rw [← List.map_append] at both
  exact both

theorem fillsArr_foldl {α : Type*} {write : α → Writer → Writer}
    {doc : α → Doc} {items : List α}
    (emits : ∀ a ∈ items, Emits (write a) (doc a)) :
    Fills .arr (fun w => items.foldl (fun w a => write a w) w) ((items.map doc).map Doc.text) := by
  induction items with
  | nil => exact fills_nothing .arr
  | cons item rest ih =>
    have first := emits item List.mem_cons_self
    have others := ih fun a mem =>
      emits a (List.mem_cons_of_mem item mem)
    exact first.fillsArr.comp others

theorem Fills.emitsArr {items : List Doc} (fills : Fills .arr f (items.map Doc.text)) :
    Emits (fun w => jwArrClose (f (jwArrOpen w))) (.arr items) := by
  intro w
  simp only [jwArrOpen, jwRaw]
  rw [fills, Doc.text, Doc.itemTexts_eq_map]
  simp [jwArrClose, jwRaw]

theorem emits_arr {α : Type*} {write : α → Writer → Writer}
    {doc : α → Doc} {items : List α}
    (emits : ∀ a ∈ items, Emits (write a) (doc a)) :
    Emits (fun w => jwArrClose (items.foldl (fun w a => write a w) (jwArrOpen w)))
      (.arr (items.map doc)) :=
  Fills.emitsArr (fillsArr_foldl emits)

theorem FillsObj.emits {members : List (CStr × Doc)} (fills : FillsObj f members) :
    Emits (fun w => jwObjClose (f (jwObjOpen w))) (.obj members) := by
  intro w
  simp only [jwObjOpen, jwRaw]
  rw [fills, Doc.text, Doc.memberTexts_eq_map]
  simp [jwObjClose, jwRaw]

theorem FillsObj.emits_of {written members : List (CStr × Doc)} (fills : FillsObj f written)
    (same : written = members) : Emits (fun w => jwObjClose (f (jwObjOpen w))) (.obj members) :=
  same ▸ fills.emits

theorem Emits.buf_jwInit {d : Doc} (emits : Emits f d) : (f jwInit).buf = d.text := by
  rw [emits]
  simp [jwInit, jwValuePrefix, jwRaw]

end Cix.Json
