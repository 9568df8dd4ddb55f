import Cix.Json.Writer
import Mathlib.Data.List.Basic

/-!
# Comparing two JSON trees

`daemon/src/jsondiff.c` compares a supplied tree against the live one and lists
the changes.  Members are matched by key, the elements of an array by index,
and those of the outermost array by name where a declared key names every
element.  Its loops record each change as they meet it; the list that they
record is stated once as a function of the two trees.
-/

namespace Cix.Json

open Cix.Lib

/-- The `==` of two doubles. -/
def doublesEqual : Double → Double → Bool
  | .finite negative magnitude, .finite negative' magnitude' =>
    magnitude.units = magnitude'.units && (negative = negative' || magnitude.units = 0)
  | .infinite negative, .infinite negative' => negative = negative'
  | _, _ => false

inductive Kind where
  | null
  | bool
  | number
  | string
  | array
  | object
  deriving DecidableEq

/-- The member `type` of a value. -/
def Value.kind : Value → Kind
  | .null => .null
  | .bool _ => .bool
  | .number _ => .number
  | .string _ => .string
  | .array _ => .array
  | .object _ => .object

mutual

/-- `values_equal`, and with it `jsondiff_equal`. -/
def valuesEqual : Value → Value → Bool
  | .null, .null => true
  | .bool a, .bool b => a = b
  | .number a, .number b => doublesEqual a b
  | .string a, .string b => a = b
  | .array as, .array bs => as.length = bs.length && itemsEqual as bs
  | .object as, .object bs => as.length = bs.length && membersEqual as bs
  | _, _ => false

/-- The loop of `values_equal` over two arrays of one length. -/
def itemsEqual : List Value → List Value → Bool
  | a :: as, b :: bs => valuesEqual a b && itemsEqual as bs
  | _, _ => true

/-- The loop of `values_equal` over the members of an object. -/
def membersEqual : List (CStr × Value) → List (CStr × Value) → Bool
  | [], _ => true
  | (key, a) :: as, bs =>
    (match findMember key bs with
      | none => false
      | some b => valuesEqual a b) && membersEqual as bs

end

inductive Step where
  | field (key : CStr)
  | index (i : Nat)
  | named (name : List UInt8)
  deriving DecidableEq

def pathMax : Nat := 256

def maxChanges : Nat := 512

/-- `path_field`, `path_index` and `path_named`. -/
def pathStep (base : List UInt8) : Step → List UInt8
  | .field key =>
    (if base = [] then key.bytes else base ++ 46 :: key.bytes).take (pathMax - 1)
  | .index i => (base ++ 91 :: (natText i ++ [93])).take (pathMax - 1)
  | .named name => (base ++ 91 :: (name ++ [93])).take (pathMax - 1)

def pathText (place : List Step) : List UInt8 :=
  place.foldl pathStep []

inductive Op where
  | add
  | remove
  | replace
  deriving DecidableEq

/-- `struct jsondiff_change`, with what its two pointers point to. -/
structure Change where
  place : List Step
  op : Op
  (fromValue toValue : Option Value)

def Change.path (c : Change) : List UInt8 :=
  pathText c.place

structure Diff where
  changes : List Change
  truncated : Bool
  unkeyedPath : List UInt8

def Diff.count (d : Diff) : Nat :=
  d.changes.length

def addChange (d : Diff) (c : Change) : Diff :=
  if d.truncated then d
  else if maxChanges ≤ d.count then { d with truncated := true }
  else { d with changes := d.changes ++ [c] }

/-- The last loop of `diff_array_indexed`. -/
def addItems (d : Diff) (base : List Step) (i : Nat) : List Value → Diff
  | [] => d
  | b :: bs =>
    addItems (addChange d ⟨base ++ [.index i], .add, none, some b⟩) base (i + 1) bs

/-- The second loop of `diff_array_indexed`. -/
def removeItems (d : Diff) (base : List Step) (i : Nat) : List Value → Diff
  | [] => d
  | a :: as =>
    removeItems (addChange d ⟨base ++ [.index i], .remove, some a, none⟩) base (i + 1) as

/-- The second loop of `diff_objects`. -/
def addMembers (ignored : CStr → Bool) (d : Diff) (base : List Step)
    (live : List (CStr × Value)) : List (CStr × Value) → Diff
  | [] => d
  | (key, b) :: bs =>
    addMembers ignored (if (findMember key live).isSome then d
        else if ignored key then d
        else addChange d ⟨base ++ [.field key], .add, none, some b⟩)
      base live bs

mutual

/-- `diff_walk` with no array key, as it is called for everything below the
outermost value. -/
def diffWalk (ignored : CStr → Bool) (d : Diff) (base : List Step) : Value → Value → Diff
  | .object live, .object sup =>
    if d.truncated then d
    else
      addMembers ignored (diffMembers ignored d base live sup) base live sup
  | .array live, .array sup =>
    if d.truncated then d else diffItems ignored d base 0 live sup
  | live, sup =>
    if d.truncated then d
    else if live.kind ≠ sup.kind then
      addChange d ⟨base, .replace, some live, some sup⟩
    else if valuesEqual live sup then d
    else addChange d ⟨base, .replace, some live, some sup⟩

/-- The first loop of `diff_objects`. -/
def diffMembers (ignored : CStr → Bool) (d : Diff) (base : List Step) :
    List (CStr × Value) → List (CStr × Value) → Diff
  | [], _ => d
  | (key, a) :: live, sup =>
    if ignored key then diffMembers ignored d base live sup
    else
      match findMember key sup with
      | none =>
        diffMembers ignored (addChange d ⟨base ++ [.field key], .remove, some a, none⟩) base
          live sup
      | some b =>
        diffMembers ignored (diffWalk ignored d (base ++ [.field key]) a b) base live sup

/-- `diff_array_indexed`, from an index on. -/
def diffItems (ignored : CStr → Bool) (d : Diff) (base : List Step)
    (i : Nat) : List Value → List Value → Diff
  | [], sup => addItems d base i sup
  | a :: live, [] => removeItems d base i (a :: live)
  | a :: live, b :: sup =>
    diffItems ignored (diffWalk ignored d (base ++ [.index i]) a b) base (i + 1) live sup

end

def listEntries (list : List UInt8) : List (List UInt8) :=
  let parts := list.splitOn 44
  if parts.getLast? = some [] then parts.dropLast else parts

def jsondiffFieldListed (list : List UInt8) (name : CStr) : Bool :=
  (listEntries list).any fun entry => entry = name.bytes

section Names

-- what `snprintf` makes of a number with `%g`
variable (general : Double → List UInt8)

/-- The text of a number: an integer in the range of `long long` in full. -/
def numberText (n : Double) : List UInt8 :=
  match n with
  | .finite negative magnitude =>
    let v : Int := magnitude.units / unitsPerOne
    let v := if negative then -v else v
    if magnitude.units % unitsPerOne = 0 ∧ -(2 ^ 63) ≤ v ∧ v < 2 ^ 63 then
      intText v
    else general n
  | .infinite _ => general n

def scalarText : Option Value → Option (List UInt8)
  | some (.string s) => some (s.bytes.take (pathMax - 1))
  | some (.number n) => some ((numberText general n).take (pathMax - 1))
  | some (.bool b) => some (ascii (if b then "true" else "false"))
  | some .null => some (ascii "null")
  | _ => none

/-- The loop of `element_name`, with the name so far. -/
def joinFields (members : List (CStr × Value)) (out : List UInt8) :
    List (List UInt8) → Option (List UInt8)
  | [] => if out = [] then none else some out
  | field :: rest =>
    if field = [] ∨ 64 ≤ field.length then none
    else
      match scalarText general (findMember (CStr.ofBytes field) members) with
      | none => none
      | some text =>
        let longer := out ++ ((if out = [] then [] else [44]) ++ text)
        if pathMax ≤ longer.length then none
        else joinFields members longer rest

/-- `element_name`, and with it `jsondiff_element_name`. -/
def elementName (key : CStr) : Value → Option (List UInt8)
  | .object members => joinFields general members [] (listEntries key.bytes)
  | _ => none

def namesUsable (key : CStr) (items : List Value) : Option (List (List UInt8 × Value)) :=
  match items.mapM (elementName general key) with
  | none => none
  | some names => if names.Nodup then some (names.zip items) else none

/-- The first loop of `diff_array_keyed`. -/
def diffNamed (ignored : CStr → Bool) (sup : List (List UInt8 × Value)) :
    Diff → List (List UInt8 × Value) → Diff
  | d, [] => d
  | d, (name, a) :: live =>
    diffNamed ignored sup (match sup.find? fun other => other.1 = name with
        | none => addChange d ⟨[.named name], .remove, some a, none⟩
        | some (_, b) => diffWalk ignored d [.named name] a b)
      live

/-- The second loop of `diff_array_keyed`. -/
def addNamed (live : List (List UInt8 × Value)) : Diff → List (List UInt8 × Value) → Diff
  | d, [] => d
  | d, (name, b) :: sup =>
    addNamed live (if live.any fun other => other.1 = name then d
        else addChange d ⟨[.named name], .add, none, some b⟩)
      sup

/-- `diff_arrays`, for the outermost array. -/
def diffArrays (ignored : CStr → Bool) (key : CStr) (d : Diff) (live sup : List Value) : Diff :=
  if key = CStr.empty then diffItems ignored d [] 0 live sup
  else
    match namesUsable general key live, namesUsable general key sup with
    | some liveNames, some supNames =>
      addNamed liveNames (diffNamed ignored supNames d liveNames) supNames
    | _, _ =>
      diffItems ignored { d with unkeyedPath := ascii "(section)" } [] 0 live sup

/-- `jsondiff_compute`.  A key or list that is null is the empty text. -/
def jsondiffCompute (live sup : Value) (key ignoreFields : CStr) : Diff :=
  let ignored := jsondiffFieldListed ignoreFields.bytes
  let empty : Diff := ⟨[], false, []⟩
  match live, sup with
  | .array live, .array sup => diffArrays general ignored key empty live sup
  | live, sup => diffWalk ignored empty [] live sup

def jsondiffEqualIgnoring (a b : Value) (ignoreFields : CStr) : Bool :=
  (jsondiffCompute general a b CStr.empty ignoreFields).count = 0

end Names

end Cix.Json
