import Cix.Lib.CString
import Cix.Lib.Double

/-!
# JSON trees

`struct json_value` of `daemon/src/json.h` and the accessors through which the
rest of the daemon reads a tree.  A `const struct json_value *` that may be
`NULL` is an `Option Value`; strings and keys are what their `char *` denotes.
-/

namespace Cix.Json

open Cix.Lib

inductive Value where
  | null
  | bool (b : Bool)
  | number (n : Double)
  | string (s : CStr)
  | array (items : List Value)
  | object (members : List (CStr × Value))

def ascii (text : String) : List UInt8 :=
  (CStr.ofString text).bytes

def findMember (key : CStr) : List (CStr × Value) → Option Value
  | [] => none
  | (name, value) :: rest => if name = key then some value else findMember key rest

def objectGet (obj : Option Value) (key : String) : Option Value :=
  match obj with
  | some (.object members) => findMember (CStr.ofString key) members
  | _ => none

def asString : Option Value → Option CStr
  | some (.string s) => some s
  | _ => none

def asNumber : Option Value → Double
  | some (.number n) => n
  | _ => Double.zero

/-- The items of an array, `none` for anything else. -/
def asArray : Option Value → Option (List Value)
  | some (.array items) => some items
  | _ => none

end Cix.Json
