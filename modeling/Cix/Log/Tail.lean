import Cix.Lib.Lines
import Cix.Log.Summary

/-!
# Reading the log

`logstore_tail_ex` of `daemon/src/logstore.c`: the segments from the newest to
the oldest, each from its last line to its first, until the tail is full.  A
segment is skipped when its summary excludes the filters, and a line when its
head, read without `json_parse`, does not pass them.  `forwardScan` states what
the result is meant to be: every line parsed, in the order in which they were
written, and the last of those that match.

`regcomp` stands for the regular expressions of the C library.
-/

namespace Cix.Log

open Cix.Lib Cix.Json

structure Head where
  ts : Int
  (source level container : List UInt8)
  deriving DecidableEq

def headStr (key input : List UInt8) : Option (List UInt8 × List UInt8) :=
  match stripLiteral key input with
  | none => none
  | some rest =>
    if 92 ∈ rest.takeWhile (· ≠ 34) then none
    else
      match rest.dropWhile (· ≠ 34) with
      | [] => none
      | _ :: after => some (rest.takeWhile (· ≠ 34), after)

def sourceKey : List UInt8 := ascii ",\"source\":\""

def levelKey : List UInt8 := ascii ",\"level\":\""

def containerKey : List UInt8 := ascii ",\"container\":\""

def msgKey : List UInt8 := ascii ",\"msg\":\""

/-- The part of `line_head` behind the time stamp. -/
def headNames (ts : Int) (input : List UInt8) : Option Head :=
  match headStr sourceKey input with
  | none => none
  | some (source, input) =>
    match headStr levelKey input with
    | none => none
    | some (level, input) =>
      match headStr containerKey input with
      | none => none
      | some (container, input) =>
        if (stripLiteral msgKey input).isSome then
          some ⟨ts, source, level, container⟩
        else none

def lineHead (line : List UInt8) : Option Head :=
  match stripLiteral (ascii "\x7b\"ts\":") line with
  | none => none
  | some input =>
    let (minus, input) := takeOneOf 45 45 input
    let digits := input.takeWhile isDigit
    if digits.length > 18 then none
    else if digits = [] then none
    else
      let value : Int := digitsValue digits
      headNames (if minus.isSome then -value else value) (input.dropWhile isDigit)

/-- `span_is`, for a filter that may be absent. -/
def spanPasses (filter : Option CStr) (span : List UInt8) : Bool :=
  match filter with
  | none => true
  | some name => decide (span = name.bytes)

def headPasses (filters : Filters) (h : Head) : Bool :=
  spanPasses filters.source h.source && spanPasses filters.level h.level &&
    spanPasses filters.container h.container &&
    (decide (filters.since ≤ 0) || decide (filters.since ≤ h.ts))

def fieldsOf (root : Value) : Fields where
  ts := (asNumber (objectGet (some root) "ts")).toLongLong
  source := asString (objectGet (some root) "source")
  level := asString (objectGet (some root) "level")
  container := asString (objectGet (some root) "container")
  msg := asString (objectGet (some root) "msg")

def parseLine (line : List UInt8) : Option Fields :=
  (jsonParse line).map fieldsOf

structure TailEntry where
  ts : Int
  (source level : BoundedStr 16)
  container : BoundedStr 64
  msg : BoundedStr 4096
  deriving DecidableEq

def tailEntry (f : Fields) : TailEntry where
  ts := f.ts
  source := BoundedStr.store 16 pos_16 (f.source.getD CStr.empty)
  level := BoundedStr.store 16 pos_16 (f.level.getD CStr.empty)
  container := BoundedStr.store 64 pos_64 (f.container.getD CStr.empty)
  msg := BoundedStr.store 4096 pos_4096 (f.msg.getD CStr.empty)

/-- `regexec`, if there is a pattern. -/
def regexPasses (re : Option (CStr → Bool)) (msg : Option CStr) : Bool :=
  match re, msg with
  | none, _ => true
  | some _, none => false
  | some test, some text => test text

def matchFields (filters : Filters) (re : Option (CStr → Bool)) (f : Fields) :
    Option TailEntry :=
  if filters.pass f && regexPasses re f.msg then some (tailEntry f) else none

def matchLine (filters : Filters) (re : Option (CStr → Bool))
    (line : List UInt8) : Option TailEntry :=
  (parseLine line).bind (matchFields filters re)

/-- `TAIL_BLOCK` and `TAIL_LINE_MAX`. -/
def tailBlock : Nat := 65536

def tailLineMax : Nat := 256 * 1024

structure SegmentFile where
  (seq dev ino : Nat)
  bytes : List UInt8
  summary : Option SummaryFile

def SegmentFile.stat (seg : SegmentFile) : Stat where
  dev := seg.dev
  ino := seg.ino
  size := seg.bytes.length

def SegmentFile.lines (seg : SegmentFile) : List (List UInt8) :=
  Lib.lines 10 seg.bytes

/-- What a read holds: the free places of the ring, the entries found, and the
summary of the segment if one is being made. -/
structure Scan where
  room : Nat
  held : List TailEntry
  building : Option Summary

def Scan.count (s : Scan) (ts : Int) (source level container : Option (List UInt8)) : Scan :=
  { s with building := s.building.map (sumAdd ts source level container) }

def Scan.take (s : Scan) (found : Option TailEntry) : Scan :=
  match found with
  | some entry => { s with room := s.room - 1, held := entry :: s.held }
  | none => s

/-- One line of the loop; `prefilter` when there is a filter that a head can be
tested against. -/
def visitLine (filters : Filters) (re : Option (CStr → Bool))
    (prefilter : Bool) (s : Scan) (line : List UInt8) : Scan :=
  if line = [] then s
  else
    match if prefilter then lineHead line else none with
    | some h =>
      let s := s.count h.ts (some h.source) (some h.level) (some h.container)
      if headPasses filters h then s.take (matchLine filters re line) else s
    | none =>
      match parseLine line with
      | none => s
      | some f =>
        let s := s.count f.ts (f.source.map CStr.bytes)
          (f.level.map CStr.bytes) (f.container.map CStr.bytes)
        s.take (matchFields filters re f)

def scanSegment (filters : Filters) (re : Option (CStr → Bool))
    (prefilter : Bool) (bytes : List UInt8) (s : Scan) : Bool × Scan :=
  backWalk 10 tailBlock tailLineMax bytes (fun s => decide (s.room = 0))
    (visitLine filters re prefilter) (bytes.length + 1) ⟨bytes.length, []⟩ s

structure Query where
  filters : Filters
  msgRegex : Option CStr
  limit : Int

def Filters.prefilter (filters : Filters) : Bool :=
  filters.source.isSome || filters.level.isSome || filters.container.isSome ||
    decide (filters.since > 0)

structure Reading where
  room : Nat
  held : List TailEntry
  made : List (Nat × SummaryFile)

/-- The summary of a segment that may be skipped by it: neither the newest that
is listed nor the one that is written to. -/
def loadedSummary (consulted : Bool) (seg : SegmentFile) : Option Summary :=
  if consulted then
    seg.summary.bind fun file => summaryLoad file seg.seq seg.stat
  else none

def readSegment (filters : Filters) (re : Option (CStr → Bool))
    (consulted : Bool) (seg : SegmentFile) (t : Reading) : Reading :=
  let loaded := loadedSummary consulted seg
  if loaded.any fun s => sumExcludes s filters then t
  else
    let building := if consulted && loaded.isNone then some (sumReset true) else none
    let (start, s) := scanSegment filters re filters.prefilter seg.bytes
      ⟨t.room, t.held, building⟩
    { room := s.room
      held := s.held
      made :=
        match start, s.building with
        | true, some made => t.made ++ [(seg.seq, summaryWrite seg.seq seg.stat made)]
        | _, _ => t.made }

structure LogDir where
  segments : List SegmentFile
  current : Option Nat

def LogDir.numbers (dir : LogDir) : List Nat :=
  dir.segments.map SegmentFile.seq

def LogDir.find (dir : LogDir) (seq : Nat) : Option SegmentFile :=
  dir.segments.find? fun seg => seg.seq = seq

def readSegments (dir : LogDir) (filters : Filters) (re : Option (CStr → Bool)) :
    (newest : Bool) → List Nat → Reading → Reading
  | _, [], t => t
  | newest, seq :: rest, t =>
    if t.room = 0 then t
    else
      match dir.find seq with
      | none => readSegments dir filters re false rest t
      | some seg =>
        let consulted := (filters.prefilter || re.isSome) && !newest &&
          !decide (dir.current = some seq)
        readSegments dir filters re false rest (readSegment filters re consulted seg t)

/-- `segment_seq_list` with its array of `LOGSTORE_SEGMENT_COUNT + 4`. -/
def LogDir.listed (dir : LogDir) (order : List Nat) : List Nat :=
  ((readdir order dir.numbers).take (segmentCount + 4)).insertionSort (· ≤ ·)

def effLimit (limit : Int) : Nat :=
  if 0 < limit ∧ limit ≤ 5000 then limit.toNat else 1000

/-- The pattern, `none` when it is one that `regcomp` refuses. -/
def compiled (regcomp : CStr → Option (CStr → Bool)) (query : Query) :
    Option (Option (CStr → Bool)) :=
  match query.msgRegex with
  | none => some none
  | some pattern =>
    if pattern = CStr.empty then some none
    else (regcomp pattern).map some

/-- `logstore_tail_ex`. `failure` is the entry about entries that could not be written. -/
def logstoreTailEx (regcomp : CStr → Option (CStr → Bool)) (dir : LogDir)
    (order : List Nat) (query : Query) (failure : Option TailEntry) :
    List TailEntry :=
  match compiled regcomp query with
  | none => failure.toList
  | some re =>
    (readSegments dir query.filters re true (dir.listed order).reverse
      ⟨effLimit query.limit, [], []⟩).held ++ failure.toList

def matching (dir : LogDir) (filters : Filters) (re : Option (CStr → Bool)) :
    List TailEntry :=
  (dir.segments.insertionSort fun a b => a.seq ≤ b.seq).flatMap fun seg =>
    seg.lines.filterMap (matchLine filters re)

def forwardScan (regcomp : CStr → Option (CStr → Bool)) (dir : LogDir)
    (query : Query) : List TailEntry :=
  match compiled regcomp query with
  | none => []
  | some re =>
    let found := matching dir query.filters re
    found.drop (found.length - effLimit query.limit)

end Cix.Log
