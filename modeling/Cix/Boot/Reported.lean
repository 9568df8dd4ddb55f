import Cix.Boot.Attempts
import Cix.Lib.StringOrder

/-!
# The entry that the daemon reports

`daemon/src/esp.c` reads the same directory on its own: `entry_id`,
`esp_pattern_matches`, `parse_directive`, `esp_entries_list` and
`selected_entry`.  The C library's `fnmatch` and `strverscmp` are parameters,
and so is the conversion of a file name that the kernel makes for `readdir`.
-/

namespace Cix.Boot

open Cix.Lib

structure Libc where
  /-- `fnmatch(pattern, name, 0) == 0`. -/
  fnmatch : CStr → CStr → Bool
  /-- The sign of `strverscmp`. -/
  strverscmp : CStr → CStr → Ordering
  /-- The `d_name` of a file. -/
  dName : List UInt16 → CStr

def espEntryNameMax : Nat := 128

/-- Without `.conf` at the end, if something stands before it. -/
def stripConf (name : CStr) : CStr :=
  if 5 < name.length ∧ name.bytes.drop (name.length - 5) = ascii ".conf" then
    CStr.ofBytes (name.bytes.take (name.length - 5))
  else name

/-- What stands before and behind the last `+`, `strrchr`. -/
def splitPlusByte : List UInt8 → Option (List UInt8 × List UInt8)
  | [] => none
  | c :: rest =>
    match splitPlusByte rest with
    | some (before, behind) => some (c :: before, behind)
    | none => if c = 43 then some ([], rest) else none

def isDigitByte (c : UInt8) : Bool :=
  48 ≤ c.toNat && c.toNat ≤ 57

/-- The loop of `entry_id` over what follows the `+`, with `seen_digit`. -/
def counterValid : List UInt8 → Bool → Bool
  | [], seenDigit => seenDigit
  | c :: rest, seenDigit =>
    if isDigitByte c then counterValid rest true
    else if c = 45 ∧ seenDigit then counterValid rest seenDigit
    else false

/-- `atoi` of a text that begins with a digit: a `long` that stops at its
maximum, as an `int`. -/
def atoiDigits (text : List UInt8) : Int :=
  wrapInt (min (2 ^ 63 - 1) ((text.takeWhile isDigitByte).foldl
      (fun v c => v * 10 + ((c.toNat : Int) - 48)) 0))

def entryId (filename : CStr) : CStr × Int :=
  let out := stripConf (filename.truncate espEntryNameMax)
  match splitPlusByte out.bytes with
  | none => (out, -1)
  | some (before, counter) =>
    if counter ≠ [] ∧ counterValid counter false then
      (CStr.ofBytes before, atoiDigits counter)
    else (out, -1)

def espPatternMatches (libc : Libc) (pattern entryName : CStr) : Bool :=
  if pattern.bytes = [] then false
  else
    let stem := entryName.truncate espEntryNameMax
    libc.fnmatch pattern entryName || (decide (stripConf stem ≠ stem) &&
        libc.fnmatch pattern (stripConf stem)) ||
      (decide ((entryId entryName).1.bytes ≠ []) && libc.fnmatch pattern (entryId entryName).1)

def trimEnd (value : List UInt8) : List UInt8 :=
  (value.reverse.dropWhile fun c => isBlank c || c = 13).reverse

def directiveValue (key : CStr) (line : List UInt8) : Option (List UInt8) :=
  let text := line.dropWhile isBlank
  if key.bytes.isPrefixOf text ∧ (text.drop key.length).head?.any isBlank then
    some (trimEnd ((text.drop key.length).dropWhile isBlank))
  else none

def parseDirective (text : List UInt8) (key : CStr) (size : Nat) : CStr :=
  match (lines newline (cstrAt text)).findSome? (directiveValue key) with
  | none => CStr.empty
  | some value => CStr.ofBytes (value.take (size - 1))

/-- The default of `esp_loader_get`. -/
def loaderDefault (conf : Option (List UInt8)) : CStr :=
  match conf with
  | none => CStr.empty
  | some text => parseDirective text "default" espDefaultMax

structure EspEntry where
  (name title linuxImage options sortKey version : CStr)
  matchesDefault : Bool
  deriving DecidableEq, Repr

/-- `read_entry`, and whether the default selects the entry. -/
def readEspEntry (libc : Libc) (pattern : CStr) (f : File) : Option EspEntry :=
  if f.isDirectory then none
  else
    match f.content with
    | none => none
    | some text => some
        { name := (libc.dName f.name).truncate espEntryNameMax
          title := parseDirective text "title" 256
          linuxImage := parseDirective text "linux" 256
          options := parseDirective text "options" 1024
          sortKey := parseDirective text "sort-key" 256
          version := parseDirective text "version" 256
          matchesDefault := espPatternMatches libc pattern (libc.dName f.name) }

def espMaxEntries : Nat := 64

/-- The first 64 entries in the order of `readdir`. -/
def espEntriesList (libc : Libc) (pattern : CStr) (listing : List File) :
    List EspEntry :=
  ((listing.filter fun f => (libc.dName f.name).bytes.head? ≠ some 46).filterMap
    (readEspEntry libc pattern)).take espMaxEntries

def selectionRankLess (libc : Libc) (a b : EspEntry) : Bool :=
  let idA := entryId a.name
  let idB := entryId b.name
  let byId :=
    if libc.strverscmp idA.1 idB.1 ≠ .eq then
      decide (libc.strverscmp idA.1 idB.1 = .gt)
    else decide (strcmp a.name b.name = .gt)
  if decide (idA.2 = 0) ≠ decide (idB.2 = 0) then decide (idB.2 = 0)
  else if a.sortKey.bytes ≠ [] ∧ b.sortKey.bytes ≠ [] then
    if strcmp a.sortKey b.sortKey ≠ .eq then
      decide (strcmp a.sortKey b.sortKey = .lt)
    else if libc.strverscmp a.version b.version ≠ .eq then
      decide (libc.strverscmp a.version b.version = .gt)
    else byId
  else byId

/-- The entries that `selected_entry` compares. -/
def candidates (libc : Libc) (conf : Option (List UInt8)) (listing : List File) : List EspEntry :=
  if (loaderDefault conf).bytes = [] then []
  else
    (espEntriesList libc (loaderDefault conf) listing).filter EspEntry.matchesDefault

def selectedEntry (libc : Libc) (conf : Option (List UInt8)) (listing : List File) : Option CStr :=
  (bestOf (selectionRankLess libc) (candidates libc conf listing)).map EspEntry.name

end Cix.Boot
