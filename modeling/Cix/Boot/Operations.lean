import Cix.Boot.Reported
import Cix.Lib.Substring

/-!
# What the API does to the entries

`esp_entry_delete`, `esp_entry_hold` and `esp_entry_unhold` of
`daemon/src/esp.c`, with `esp_loader_set`.  A name that begins with a point is
no entry, nor is a directory.  The directory is there and can be written, and
what is written and renamed succeeds.
-/

namespace Cix.Boot

open Cix.Lib

structure BootFile where
  name : CStr
  text : Option (List UInt8)
  deriving DecidableEq

/-- `loader.conf`, and the entries directory in the order of `readdir`. -/
structure Esp where
  conf : Option (List UInt8)
  files : List BootFile
  deriving DecidableEq

/-- `read_entry` succeeds. -/
def BootFile.isEntry (f : BootFile) : Bool :=
  f.text.isSome && decide (f.name.bytes.head? ≠ some 46)

/-- The files that `esp_entries_list` reads. -/
def Esp.listed (s : Esp) : List BootFile :=
  (s.files.filter BootFile.isEntry).take espMaxEntries

/-- The `name` of `struct esp_entry`. -/
def BootFile.entryName (f : BootFile) : CStr :=
  f.name.truncate espEntryNameMax

/-- What follows `--slot=` in the options. -/
def entrySlot (text : List UInt8) : Option CStr :=
  let options := parseDirective text (CStr.ofString "options") 1024
  (strstr (ascii "--slot=") options.bytes).map fun found =>
    CStr.ofBytes ((found.2.takeWhile fun c => !isBlank c).take 7)

/-- `is_running_slot`; with no `--slot=` of its own the daemon runs none. -/
def isRunningSlot (runningSlot : CStr) (f : BootFile) : Bool :=
  decide (runningSlot.length ≠ 0) &&
    decide (f.text.bind entrySlot = some runningSlot)

/-- The errors of `esp_entry_delete` on a directory that can be written. -/
inductive DeleteError where
  | invalid
  | notFound
  | wouldOrphan
  | persistFailed
  deriving DecidableEq

def espEntryDelete (runningSlot : CStr) (s : Esp) (name : CStr) :
    Except DeleteError Esp := do
  if name.length = 0 || name.bytes.contains 47 || (strstr [46, 46] name.bytes).isSome then
    throw .invalid
  let entries := s.listed
  match entries.reverse.find? fun f => f.entryName = name with
  | none => throw .notFound
  | some target =>
    let survivors := entries.filter fun f =>
      decide (f.entryName ≠ name) && isRunningSlot runningSlot f
    if isRunningSlot runningSlot target && survivors.isEmpty then
      throw .wouldOrphan
    if runningSlot.length = 0 && entries.length ≤ 1 then
      throw .wouldOrphan
    -- a longer name that is cut to this one is not the file
    if s.files.any fun f => decide (f.name = name) && f.text.isSome then
      return { s with files := s.files.filter fun f => f.name ≠ name }
    else throw .persistFailed

inductive Slot where
  | a
  | b
  deriving DecidableEq

def Slot.letter : Slot → UInt8
  | .a => 97
  | .b => 98

def slotPrefix (slot : Slot) : List UInt8 :=
  ascii "cix-" ++ [slot.letter]

def espConfirmRank (name : CStr) (slot : Slot) : Nat :=
  if (slotPrefix slot).isPrefixOf name.bytes then
    if (name.bytes.drop 5).head? = some 43 then 2
    else if (name.bytes.drop 5).head? = some 46 then 1
    else 0
  else 0

/-- A `strtol` to the base 10 that reads a number. -/
def strtol (text : List UInt8) : Option (Int × List UInt8) :=
  let number := text.dropWhile fun c => c = 32 || (9 ≤ c && c ≤ 13)
  let (negative, digits) :=
    match number with
    | 45 :: rest => (true, rest)
    | 43 :: rest => (false, rest)
    | rest => (false, rest)
  if (digits.takeWhile isDigitByte).isEmpty then none
  else
    let value : Int := Json.digitsValue (digits.takeWhile isDigitByte)
    some (if negative then max (-2 ^ 63) (-value) else min (2 ^ 63 - 1) value,
      digits.dropWhile isDigitByte)

/-- The counter of a name, what follows the `+`: the attempts that are left
and those that are done. -/
def heldCounter (text : List UInt8) : Option (Int × Int) :=
  match strtol text with
  | none => none
  | some (left, rest) =>
    let done :=
      match rest with
      | 45 :: more => strtol more
      | _ => some (0, rest)
    match done with
    | none => none
    | some (done, rest) =>
      if rest = ascii ".conf" ∧ 0 ≤ left ∧ 0 ≤ done then some (left, done)
      else none

def heldName (slot : Slot) (tries : Int) : CStr :=
  CStr.ofBytes (slotPrefix slot ++ ascii "+0-" ++ Json.intText tries ++ ascii ".conf")

/-- The size of `held_from` and `held_to`. -/
def heldNameMax : Nat := 64

def renameFile (files : List BootFile) (source target : CStr) : Option (List BootFile) :=
  if files.any fun f => f.name = source then
    if source = target then some files
    else
      some ((files.filter fun f => f.name ≠ target).map fun f =>
        if f.name = source then { f with name := target } else f)
  else none

/-- `esp_entry_hold`, when it succeeds: the names before and after. -/
def espEntryHold (s : Esp) (slot : Slot) : Option (CStr × CStr × Esp) :=
  match s.files.filter fun f => espConfirmRank f.name slot > 0 with
  | [f] =>
    let source := f.name.truncate heldNameMax
    if (slotPrefix slot ++ [43]).isPrefixOf source.bytes then
      match heldCounter (source.bytes.drop 6) with
      | none => none
      | some (left, done) =>
        if left = 0 then none
        else
          let target := (heldName slot (left + done)).truncate heldNameMax
          (renameFile s.files source target).map fun files =>
            (source, target, { s with files := files })
    else none
  | _ => none

/-- `esp_entry_unhold` of names in the directory, when it succeeds. -/
def espEntryUnhold (s : Esp) (source target : CStr) : Option Esp :=
  if source.length = 0 ∨ target.length = 0 then some s
  else if source.bytes.contains 47 || target.bytes.contains 47 then none
  else (renameFile s.files target source).map fun files =>
    { s with files := files }

inductive EspEvent where
  | loaderSet (pattern : Option CStr) (timeout : Option Int)
  | delete (name : CStr)
  | hold (slot : Slot)
  | unhold (source target : CStr)
  | reorder (files : List BootFile)

def Esp.host (libc : Libc) (s : Esp) : LoaderHost where
  dir := .writable
  entries := s.listed.map BootFile.entryName
  patternMatches := espPatternMatches libc
  written := true

def Esp.step (libc : Libc) (runningSlot : CStr) (s : Esp) : EspEvent → Esp
  | .loaderSet pattern timeout =>
    match espLoaderSet (s.host libc) s.conf pattern timeout with
    | .ok conf => { s with conf := some conf }
    | .error _ => s
  | .delete name =>
    match espEntryDelete runningSlot s name with
    | .ok s => s
    | .error _ => s
  | .hold slot =>
    match espEntryHold s slot with
    | some (_, _, s) => s
    | none => s
  | .unhold source target => (espEntryUnhold s source target).getD s
  | .reorder files => if files.isPerm s.files then { s with files } else s

end Cix.Boot
