import Cix.Boot.Loader
import Cix.Lib.Selection

/-!
# The entry that the boot manager chooses

`image/src/cix-boot.c`: the grammar of the names and the texts of entry files
(`parse_entry_name`, `parse_entry_text`), the reading of `/loader/entries` in
`efi_main`, the pattern match, `pick_entry` and the name that
`decrement_tries` writes.  A name is a list of `CHAR16` without the
terminating zero.
-/

namespace Cix.Boot

open Cix.Lib

/-- An ASCII literal as `CHAR16`s. -/
def ascii16 (text : String) : List UInt16 :=
  text.toList.map fun c => UInt16.ofNat c.toNat

/-- An `int` after an operation that may overflow. -/
def wrapInt (value : Int) : Int :=
  value.bmod (2 ^ 32)

def digitValue (c : UInt16) : Option Nat :=
  if 48 ≤ c.toNat ∧ c.toNat ≤ 57 then some (c.toNat - 48) else none

structure CounterState where
  (left done : Int)
  (haveLeft inDone : Bool)
  deriving DecidableEq, Repr

def CounterState.start : CounterState := ⟨0, 0, false, false⟩

def CounterState.read (k : CounterState) (c : UInt16) : Option CounterState :=
  if c = 45 ∧ k.haveLeft ∧ !k.inDone then some { k with inDone := true }
  else
    match digitValue c with
    | none => none
    | some d =>
      if k.inDone then some { k with done := wrapInt (k.done * 10 + d) }
      else some { k with left := wrapInt (k.left * 10 + d), haveLeft := true }

/-- The numbers of a counter, `left` or `left-done`. -/
def parseCounter (chars : List UInt16) : Option (Int × Int) :=
  match chars.foldlM CounterState.read CounterState.start with
  | none => none
  | some k => if k.haveLeft then some (k.left, k.done) else none

/-- What stands before and behind the last `+`. -/
def splitPlus : List UInt16 → Option (List UInt16 × List UInt16)
  | [] => none
  | c :: rest =>
    match splitPlus rest with
    | some (before, behind) => some (c :: before, behind)
    | none => if c = 43 then some ([], rest) else none

/-- The `char`s of an id, of which an array has room for 127. -/
def idOf (chars : List UInt16) : CStr :=
  CStr.ofBytes ((chars.take (nameMaxChars - 1)).map UInt16.toUInt8)

/-- What the name of an entry file says; `triesLeft` is -1 without a
counter. -/
structure EntryName where
  id : CStr
  (triesLeft triesDone : Int)
  deriving DecidableEq, Repr

def parseStem (stem : List UInt16) : Option EntryName :=
  match splitPlus stem with
  | none => some ⟨idOf stem, -1, 0⟩
  | some (before, counter) =>
    match parseCounter counter with
    | none => none
    | some (left, done) => some ⟨idOf before, left, done⟩

def parseEntryName (name : List UInt16) : Option EntryName :=
  if name.length < 6 then none
  else if name.drop (name.length - 5) ≠ ascii16 ".conf" then none
  else parseStem (name.take (name.length - 5))

/-- `(CHAR16)` of a `char`, which is signed. -/
def widen (c : UInt8) : UInt16 :=
  if c.toNat < 128 then c.toUInt16 else c.toUInt16 + 0xFF00

/-- `'0' + d` for what C gives as remainder by ten. -/
def digitChar (d : Int) : UInt16 :=
  UInt16.ofNat (48 + d).toNat

def twoDigits (n : Int) : List UInt16 :=
  (if 10 ≤ n then [digitChar ((n.tdiv 10).tmod 10)] else []) ++ [digitChar (n.tmod 10)]

def decrementedName (e : EntryName) : List UInt16 :=
  (e.id.bytes.take (nameMaxChars - 12)).map widen ++ (43 :: twoDigits (e.triesLeft - 1)) ++
    (45 :: twoDigits (wrapInt (e.triesDone + 1))) ++ ascii16 ".conf"

structure EntryText where
  (linuxPath options : CStr)
  version : Int
  deriving DecidableEq, Repr

def EntryText.empty : EntryText := ⟨CStr.empty, CStr.empty, 0⟩

def strCopy (size : Nat) (bytes : List UInt8) : CStr :=
  CStr.ofBytes (bytes.take (size - 1))

def versionOf (value : List UInt8) : Int :=
  (value.takeWhile fun c => 48 ≤ c.toNat && c.toNat ≤ 57).foldl
    (fun v c => wrapInt (v * 10 + (c.toNat - 48))) 0

def EntryText.readLine (t : EntryText) (line : List UInt8) : EntryText :=
  let key := keyOf line
  if key.length = 0 ∨ 32 ≤ key.length then t
  else if strCopy 32 key = "linux" then
    { t with linuxPath := strCopy 256 (valueOf line) }
  else if strCopy 32 key = "options" then
    { t with options := strCopy 1024 (valueOf line) }
  else if strCopy 32 key = "version" then
    { t with version := versionOf (valueOf line) }
  else t

def parseEntryText (text : List UInt8) : EntryText :=
  (lines newline text).foldl EntryText.readLine EntryText.empty

structure Entry extends EntryName, EntryText where
  filename : List UInt16
  deriving DecidableEq, Repr

/-- A file in `/loader/entries`.  Its node stays when it is renamed; content
that cannot be read is `none`. -/
structure File where
  node : Nat
  name : List UInt16
  isDirectory : Bool
  content : Option (List UInt8)
  deriving DecidableEq, Repr

def readWholeFile (files : List File) (name : List UInt16) : Option (List UInt8) :=
  match files.find? fun f => f.name = name with
  | none => none
  | some f => if f.isDirectory then none else f.content

def maxEntries : Nat := 32

/-- The longest name that fits into the `EFI_FILE_INFO` buffer. -/
def infoNameMax : Nat := 131

/-- The entry that `efi_main` makes of a file, if it is one. -/
def readEntry (files : List File) (f : File) : Option Entry :=
  match parseEntryName f.name with
  | none => none
  | some name =>
    match readWholeFile files (f.name.take (nameMaxChars - 1)) with
    | none => none
    | some text => some
        { toEntryName := name
          toEntryText := parseEntryText (text.take entryTextMax)
          filename := f.name.take (nameMaxChars - 1) }

/-- The loop of `efi_main` over the files of the directory. -/
def readEntries (files : List File) : List File → List Entry → List Entry
  | [], list => list
  | f :: rest, list =>
    -- `Read` fails when the name does not fit into the buffer
    if infoNameMax < f.name.length then list
    else if f.isDirectory then readEntries files rest list
    else if maxEntries ≤ list.length then list
    else
      match readEntry files f with
      | none => readEntries files rest list
      | some e => readEntries files rest (list ++ [e])

/-- `glob_match`, whose loop goes back to the last star; `none` when the fuel
is used up. -/
def globLoop : Nat → List UInt8 → List UInt8 → Option (List UInt8 × List UInt8) → Option Bool
  | 0, _, _, _ => none
  | _ + 1, pattern, [], _ => some ((pattern.dropWhile fun c => c = 42).isEmpty)
  | fuel + 1, pattern, c :: s, star =>
    if pattern.head? = some 42 then
      globLoop fuel pattern.tail (c :: s) (some (pattern.tail, c :: s))
    else if pattern.head? = some 63 ∨ pattern.head? = some c then
      globLoop fuel pattern.tail s star
    else
      match star with
      | some (starPattern, starText) =>
        globLoop fuel starPattern starText.tail (some (starPattern, starText.tail))
      | none => some false

def globMatch (pattern text : CStr) : Bool :=
  (globLoop ((text.length + 2) * (text.length + pattern.length + 1))
    pattern.bytes text.bytes none).getD false

def allowedBy (pattern : CStr) (e : Entry) : Bool :=
  decide (e.linuxPath.bytes ≠ []) && (decide (pattern.bytes = []) || globMatch pattern e.id)

def newer (e held : Entry) : Bool :=
  decide (held.version < e.version)

def pickEntry (list : List Entry) (pattern : CStr) : Option Entry :=
  match bestOf newer
      (list.filter fun e => decide (e.triesLeft ≠ 0) && allowedBy pattern e) with
  | some e => some e
  | none => bestOf newer (list.filter (allowedBy pattern))

/-- The choice of `efi_main` when no entry is armed for one boot. -/
def chooseEntry (list : List Entry) (pattern : CStr) : Option Entry :=
  match pickEntry list pattern with
  | some e => some e
  | none => if pattern.bytes ≠ [] then pickEntry list CStr.empty else none

/-- The entry that is booted from the files of the directory, in the order of
the directory, with that `loader.conf`. -/
def bootChoice (conf : Option (List UInt8)) (files : List File) :
    Option Entry :=
  chooseEntry (readEntries files files []) (readDefaultPattern conf)

end Cix.Boot
