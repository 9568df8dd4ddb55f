import Cix.Lib.CString
import Cix.Lib.Lines
import Mathlib.Data.List.SplitOn

/-!
# Kernel modules: names, dependencies, the policy and the command line

`daemon/src/kmod.c` and `daemon/src/kmodpolicy.c`, as far as they decide what
`modprobe` is asked to load.
-/

namespace Cix.Kmod

open Cix.Lib

def nameMax : Nat := 64

def isSpace (c : UInt8) : Bool :=
  c == 32 || (9 ≤ c && c ≤ 13)

def kmodNameIsValid (name : CStr) : Bool :=
  decide (name.length ≠ 0) && decide (name.length < nameMax) &&
    name.bytes.all fun c => !isSpace c && c != 47

/-- A byte with `-` and `_` the same. -/
def foldByte (c : UInt8) : UInt8 :=
  if c = 45 then 95 else c

/-- `kmod_name_eq` and `kmod_names_equal`. -/
def namesEqual (a b : CStr) : Bool :=
  a.bytes.map foldByte = b.bytes.map foldByte

/-- The pieces that `strtok_r` finds between the separators. -/
def pieces (separator : UInt8 → Bool) (text : List UInt8) : List (List UInt8) :=
  (text.splitOnP separator).filter fun piece => !piece.isEmpty

/-- `.ko` at the end of the name or with a suffix behind it. -/
def isKo (text : List UInt8) : Bool :=
  [46, 107, 111].isPrefixOf text &&
    match text.drop 3 with
    | [] => true
    | c :: _ => c == 46

def beforeKo : List UInt8 → Option (List UInt8)
  | [] => none
  | c :: rest =>
    if isKo (c :: rest) then some []
    else (beforeKo rest).map (c :: ·)

def moduleName (path : List UInt8) : Option CStr :=
  let base := (path.reverse.takeWhile (· ≠ 47)).reverse
  ((beforeKo base).filter (· ≠ [])).map CStr.ofBytes

/-- `module_name_of_path` into a `char[KMOD_NAME_MAX]`. -/
def moduleNameOfPath (path : List UInt8) : Option CStr :=
  (moduleName path).filter (·.length < nameMax)

def depLine (line : List UInt8) : Option (List UInt8 × List (List UInt8)) :=
  let text := cstrAt line
  match text.dropWhile (· ≠ 58) with
  | [] => none
  | _ :: behind =>
    some (text.takeWhile (· ≠ 58), pieces (fun c => c == 32 || c == 9 || c == 10) behind)

def dependencyPaths (nameOf : List UInt8 → Option CStr)
    (text : List UInt8) (name : CStr) : List (List UInt8) :=
  let found := (lines 10 text).findSome? fun line =>
    (depLine line).bind fun (path, paths) =>
      (nameOf path).bind fun mod =>
        if namesEqual mod name then some paths else none
  found.getD []

def depsMax : Nat := 64

/-- `kmod_dependencies`; `none` is a file that cannot be read. -/
def kmodDependencies (file : Option (List UInt8)) (name : CStr) : Option (List CStr) :=
  if kmodNameIsValid name then
    file.map fun text =>
      ((dependencyPaths moduleNameOfPath text name).filterMap moduleNameOfPath).take depsMax
  else none

inductive Autoload where
  | off
  | coldplug
  | hotplug
  | both
  deriving DecidableEq, Repr

structure Policy where
  autoload : Autoload
  (blacklist allowlist : List (BoundedStr 64))
  deriving DecidableEq

inductive Origin where
  | request
  | config
  | nic
  | coldplug
  | hotplug
  deriving DecidableEq, Repr

inductive Verdict where
  | allow
  | refuseBlacklisted
  | refuseDependency
  | refuseNotAllowlisted
  deriving DecidableEq, Repr

def listHas (list : List (BoundedStr 64)) (name : CStr) : Bool :=
  list.any fun entry => namesEqual entry.str name

def Policy.blacklists (p : Policy) (name : CStr) : Bool :=
  listHas p.blacklist name

def Origin.isAutomatic (origin : Origin) : Bool :=
  origin = .coldplug || origin = .hotplug

def Policy.verdict (p : Policy) (name : CStr) (deps : List CStr) (origin : Origin) : Verdict :=
  if p.blacklists name then .refuseBlacklisted
  else if deps.any p.blacklists then .refuseDependency
  else if origin.isAutomatic ∧ p.allowlist ≠ [] ∧
      ¬ listHas p.allowlist name then .refuseNotAllowlisted
  else .allow

def Policy.autoloadCovers (p : Policy) : Origin → Bool
  | .coldplug => p.autoload = .coldplug || p.autoload = .both
  | .hotplug => p.autoload = .hotplug || p.autoload = .both
  | _ => true

def optionsMax : Nat := 256

def optionTokensMax : Nat := 16

def splitOptions (options : CStr) : List CStr :=
  ((pieces (fun c => c == 32 || c == 9 || c == 10 || c == 13)
    options.bytes).take optionTokensMax).map CStr.ofBytes

def optionWords : Option CStr → List CStr
  | none => []
  | some options => if options.length = 0 then [] else splitOptions options

/-- The `argv` of `kmod_load`. -/
def commandLine (name : CStr) (options : Option CStr) : List CStr :=
  CStr.ofString "modprobe" :: name :: optionWords options

/-- `kmod_load`, up to the call of `run_kmod_tool`: the command line that it
runs, if any. -/
def kmodLoad (name : CStr) (options : Option CStr) : Option (List CStr) :=
  if !kmodNameIsValid name then none
  else if options.any fun text => decide (optionsMax ≤ text.length) then none
  else some (commandLine name options)

def isOption (word : CStr) : Bool :=
  word.bytes.head? = some 45

def operands (command : List CStr) : List CStr :=
  command.tail.dropWhile isOption

def dependencies (file : Option (List UInt8)) (name : CStr) : List CStr :=
  match file with
  | none => []
  | some text => (dependencyPaths moduleName text name).filterMap moduleName

def inserted (file : Option (List UInt8)) (command : List CStr) : List CStr :=
  match operands command with
  | [] => []
  | mod :: _ => mod :: dependencies file mod

def Safe (p : Policy) (file : Option (List UInt8)) (command : List CStr) :
    Prop :=
  ∀ mod ∈ inserted file command, p.blacklists mod = false ∧
    ∀ dep ∈ dependencies file mod, p.blacklists dep = false

instance (p : Policy) (file : Option (List UInt8)) (command : List CStr) :
    Decidable (Safe p file command) :=
  inferInstanceAs (Decidable (∀ mod ∈ inserted file command, p.blacklists mod = false ∧
      ∀ dep ∈ dependencies file mod, p.blacklists dep = false))

end Cix.Kmod
