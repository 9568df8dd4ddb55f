import Cix.Json.Parser
import Cix.Json.Writer
import Cix.Lib.Lines
import Cix.Lib.MergedMasks
import Cix.Lib.StringOrder
import Cix.Lib.Substring
import Mathlib.Logic.Function.Basic

/-!
# The recipe sources

`daemon/src/pkgsource.c`: the list of sources, the choices of the operator,
the files of what each source offers and the table made of them, which tells
the owner of an item by the positions of the sources in the list.
-/

namespace Cix.Sources

open Cix.Lib Cix.Json

def sourcesMax : Nat := 32

def itemMax : Nat := 160

structure Source where
  name : BoundedStr 64
  url : BoundedStr 512
  kind : BoundedStr 16
  ref : BoundedStr 128
  token : BoundedStr 256
  (write trustKeys : Bool)
  catalogueKey : BoundedStr 256
  deriving DecidableEq

structure Choice where
  item : BoundedStr 160
  source : BoundedStr 64
  deriving DecidableEq

inductive PkgsourceError where
  | ok
  | invalid
  | exists
  | notFound
  | full
  | persist
  deriving DecidableEq, Repr

/-- The list, the choices, the table `g_offers` of items and their sources,
the offers file of each name, and the state file. -/
structure State where
  sources : List Source
  choices : List Choice
  offers : List (CStr × Nat)
  files : CStr → Option (List UInt8)
  file : Option (List UInt8)

/-- The daemon before `pkgsource_init`, on a disk with these files. -/
def State.fresh (files : CStr → Option (List UInt8)) (file : Option (List UInt8)) : State :=
  ⟨[], [], [], files, file⟩

def lower (c : UInt8) : Bool :=
  97 ≤ c && c ≤ 122

def digit (c : UInt8) : Bool :=
  48 ≤ c && c ≤ 57

def nameByte (c : UInt8) : Bool :=
  lower c || digit c || c == 46 || c == 95 || c == 45

def nameIsValid (s : CStr) : Bool :=
  match s.bytes with
  | [] => false
  | first :: rest =>
    decide (s.length < 64) && (lower first || digit first) && rest.all nameByte

def kindIsValid (kind : CStr) : Bool :=
  kind = "gitea" || kind = "github" || kind = "gitlab"

def kindCanWrite (kind : CStr) : Bool :=
  kind = "gitea"

def keySpace (c : UInt8) : Bool :=
  c == 10 || c == 13 || c == 32 || c == 9

def catalogueKeyNormalise (key : BoundedStr 256) : BoundedStr 256 :=
  let stripped := (key.str.bytes.reverse.dropWhile keySpace).reverse
  BoundedStr.store 256 pos_256 (CStr.ofBytes
    (if 0 < stripped.length ∧ stripped.length + 1 < 256 then stripped ++ [10]
    else stripped))

def looksLikeMinisignPublic (key : CStr) : Bool :=
  (CStr.ofString "untrusted comment:").bytes.isPrefixOf key.bytes &&
    match key.bytes.dropWhile (· ≠ 10) with
    | [] => false
    | _ :: behind => (CStr.ofString "RW").bytes.isPrefixOf behind

def validate (s : Source) : PkgsourceError :=
  if !nameIsValid s.name.str then .invalid
  else if s.url.str.length = 0 ∨
      (strstr (CStr.ofString "://").bytes s.url.str.bytes).isNone then .invalid
  else if !kindIsValid s.kind.str then .invalid
  else if s.catalogueKey.str.length ≠ 0 ∧ ¬ looksLikeMinisignPublic s.catalogueKey.str then .invalid
  else if s.write ∧ ¬ kindCanWrite s.kind.str then .invalid
  else .ok

def key (name : String) : Writer → Writer :=
  jwKey (CStr.ofString name)

def writeSource (w : Writer) (s : Source) : Writer :=
  let w := jwStr s.name.str (key "name" (jwObjOpen w))
  let w := jwStr s.url.str (key "url" w)
  let w := jwStr s.kind.str (key "kind" w)
  let w := jwStr s.ref.str (key "ref" w)
  let w := jwStr s.token.str (key "token" w)
  let w := jwBool s.write (key "write" w)
  let w := jwBool s.trustKeys (key "trust_keys" w)
  jwObjClose (jwStr s.catalogueKey.str (key "catalogue_key" w))

def writeChoice (w : Writer) (c : Choice) : Writer :=
  let w := jwStr c.item.str (key "item" (jwObjOpen w))
  jwObjClose (jwStr c.source.str (key "source" w))

/-- What `save` writes. -/
def saveText (sources : List Source) (choices : List Choice) : List UInt8 :=
  let w := jwArrOpen (key "sources" (jwObjOpen jwInit))
  let w := jwArrClose (sources.foldl writeSource w)
  let w := choices.foldl writeChoice (jwArrOpen (key "choices" w))
  (jwObjClose (jwArrClose w)).buf

/-- `save`; the write replaces the whole file or nothing. -/
def State.save (written : Bool) (s : State) : State :=
  if written then { s with file := some (saveText s.sources s.choices) }
  else s

def find (sources : List Source) (name : CStr) : Option Source :=
  sources.find? fun s => s.name.str = name

def indexOf (sources : List Source) (name : CStr) : Option Nat :=
  sources.findIdx? fun s => s.name.str = name

def choiceIndex (choices : List Choice) (item : CStr) : Option Nat :=
  choices.findIdx? fun c => c.item.str = item

def choiceAdd (item source : CStr) (choices : List Choice) : List Choice :=
  match choiceIndex choices item with
  | some i => choices.modify i fun c =>
    { c with source := BoundedStr.store 64 pos_64 source }
  | none => choices ++
      [{ item := BoundedStr.store 160 (by decide) item
         source := BoundedStr.store 64 pos_64 source }]

def boolField (o : Value) (k : String) : Bool :=
  match objectGet (some o) k with
  | some (.bool b) => b
  | _ => false

def copyField (n : Nat) (positive : 0 < n) (o : Value) (k : String)
    (fallback : CStr) : BoundedStr n :=
  BoundedStr.store n positive ((asString (objectGet (some o) k)).getD fallback)

def defaultRef : CStr := "main"

/-- The record that `load` reads of one entry. -/
def readSource (o : Value) : Source where
  name := copyField 64 pos_64 o "name" CStr.empty
  url := copyField 512 pos_512 o "url" CStr.empty
  kind := copyField 16 pos_16 o "kind" CStr.empty
  ref := copyField 128 pos_128 o "ref" defaultRef
  token := copyField 256 pos_256 o "token" CStr.empty
  write := boolField o "write"
  trustKeys := boolField o "trust_keys"
  catalogueKey := copyField 256 pos_256 o "catalogue_key" CStr.empty

/-- The body of the first loop of `load`. -/
def loadSource (sources : List Source) (o : Value) : List Source :=
  let s := readSource o
  if sources.length < sourcesMax ∧ nameIsValid s.name.str ∧
      (find sources s.name.str).isNone ∧ kindIsValid s.kind.str ∧
      s.url.str.length ≠ 0 then
    sources ++ [s]
  else sources

/-- The body of the second loop of `load`. -/
def loadChoice (sources : List Source) (choices : List Choice) (o : Value) :
    List Choice :=
  match asString (objectGet (some o) "item"),
      asString (objectGet (some o) "source") with
  | some item, some source =>
    if (find sources source).isSome then choiceAdd item source choices
    else choices
  | _, _ => choices

def entriesOf (root : Option Value) (k : String) : List Value :=
  (asArray (objectGet root k)).getD []

/-- `load`; a text that is no document leaves both lists empty. -/
def load (text : List UInt8) : List Source × List Choice :=
  let root := jsonParse text
  let sources := (entriesOf root "sources").foldl loadSource []
  (sources, (entriesOf root "choices").foldl (loadChoice sources) [])

end Cix.Sources
