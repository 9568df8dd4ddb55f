import Cix.Json.Roundtrip
import Cix.Ldap.Operations
import Cix.Lib.Machine

/-!
# The segments of the log store

The writing half of `daemon/src/logstore.c`: the segment files, the counter
that names them, the state file that carries the counter across a restart, and
the eviction that keeps the newest segments.  What the outside decides comes
with each write: whether the state file, the segment and the entry itself can
be written, which files cannot be unlinked, and in which order `readdir` lists
the directory.

`owed` is no part of the daemon's state: it keeps the lines that were appended
successfully, each with its segment, until that segment is evicted.
-/

namespace Cix.Log

open Cix.Lib Cix.Json
open Cix.Ldap (key)

/-- The table of `level_rank`. -/
def levels : List (String × Nat) :=
  [("emerg", 0), ("alert", 1), ("crit", 2), ("err", 3), ("error", 3),
    ("warning", 4), ("warn", 4), ("notice", 5), ("info", 6), ("debug", 7)]

/-- A name that is not in the table ranks as `info`. -/
def levelRank (level : CStr) : Nat :=
  ((levels.find? fun known => CStr.ofString known.1 = level).map Prod.snd).getD 6

/-- The fields of a line of a segment, as `write_entry` cuts them. -/
structure Entry where
  ts : Int
  (source level : BoundedStr 16)
  container : BoundedStr 64
  msg : CStr

/-- The arguments of `write_entry`, a null pointer being `none`. -/
structure Request where
  (source level container : Option CStr)
  msg : CStr

def Request.entry (request : Request) (now : Int) : Entry where
  ts := now
  source := BoundedStr.store 16 pos_16 (request.source.getD "cixd")
  level := BoundedStr.store 16 pos_16 (request.level.getD "info")
  container := BoundedStr.store 64 pos_64 (request.container.getD CStr.empty)
  msg := request.msg

def entryText (e : Entry) : List UInt8 :=
  let w := jwObjOpen jwInit
  let w := jwInt e.ts (key "ts" w)
  let w := jwStr e.source.str (key "source" w)
  let w := jwStr e.level.str (key "level" w)
  let w := jwStr e.container.str (key "container" w)
  let w := jwStr e.msg (key "msg" w)
  (jwObjClose w).buf

def entryLine (e : Entry) : List UInt8 :=
  entryText e ++ [10]

def segmentCount : Nat := 8

/-- `LOGSTORE_DEFAULT_MAX_BYTES`, `LOGSTORE_MIN_MAX_BYTES` and
`LOGSTORE_MAX_MAX_BYTES`. -/
def defaultMaxBytes : Int := 100 * 1024 * 1024

def minMaxBytes : Int := 1024 * 1024

def maxMaxBytes : Int := 100 * 1024 * 1024 * 1024

def defaultMinLevel : BoundedStr 16 :=
  BoundedStr.store 16 pos_16 "debug"

structure Segment where
  seq : Nat
  bytes : List UInt8
  deriving DecidableEq, Repr

structure Store where
  /-- The segment files of the directory. -/
  segments : List Segment
  /-- `state.json`. -/
  stateFile : Option (List UInt8)
  /-- `g_initialized`. -/
  initialized : Bool
  maxBytes : Int
  minLevel : BoundedStr 16
  nextSeq : Nat
  /-- The segment that `g_current_fp` is open on. -/
  current : Option Nat
  currentSize : Nat
  owed : List (Nat × List UInt8)

/-- A store on a new disk, before `logstore_init`. -/
def Store.blank : Store where
  segments := []
  stateFile := none
  initialized := false
  maxBytes := defaultMaxBytes
  minLevel := defaultMinLevel
  nextSeq := 1
  current := none
  currentSize := 0
  owed := []

structure Replies where
  /-- `persist_atomic_write` of the state file succeeds. -/
  saves : Bool
  /-- `fopen` of the segment succeeds. -/
  opens : Bool
  /-- The segments that cannot be unlinked. -/
  stuck : List Nat
  /-- The order in which `readdir` finds the segments. -/
  order : List Nat
  /-- The entry is written and flushed. -/
  flushes : Bool
  /-- Bytes of entries that were not written whole, this one's included. -/
  torn : List UInt8

def stateText (s : Store) : List UInt8 :=
  let w := jwObjOpen jwInit
  let w := jwInt s.maxBytes (key "max_bytes" w)
  let w := jwStr s.minLevel.str (key "min_level" w)
  let w := jwInt s.nextSeq (key "next_seq" w)
  (jwObjClose w).buf

def saveState (saves : Bool) (s : Store) : Store :=
  if saves then { s with stateFile := some (stateText s) } else s

/-- The members that `load_state` takes over from the parsed file. -/
def loadMembers (root : Value) (s : Store) : Store :=
  let s :=
    match objectGet (some root) "max_bytes" with
    | some found => { s with maxBytes := (asNumber (some found)).toLongLong }
    | none => s
  let s :=
    match asString (objectGet (some root) "min_level") with
    | some level => { s with minLevel := BoundedStr.store 16 pos_16 level }
    | none => s
  match objectGet (some root) "next_seq" with
  | some found => { s with nextSeq := (asNumber (some found)).truncate.toNat }
  | none => s

/-- `load_state`; `none` for a file that is no JSON. -/
def loadState (s : Store) : Option Store :=
  match s.stateFile with
  | none => some s
  | some text => (jsonParse text).map fun root => loadMembers root s

/-- The memory of a new process: the defaults that `logstore_init` sets. -/
def Store.freshMemory (s : Store) : Store :=
  { s with
    initialized := false
    maxBytes := defaultMaxBytes
    minLevel := defaultMinLevel
    nextSeq := 1
    current := none
    currentSize := 0 }

/-- `logstore_init` in a new process. -/
def restart (s : Store) : Store :=
  match loadState s.freshMemory with
  | some loaded => { loaded with initialized := true }
  | none => s.freshMemory

def Store.numbers (s : Store) : List Nat :=
  s.segments.map Segment.seq

/-- `fopen(path, "a")`, as far as the directory is concerned. -/
def touch (seq : Nat) (s : Store) : Store :=
  if seq ∈ s.numbers then s
  else { s with segments := s.segments ++ [⟨seq, []⟩] }

/-- `unlink` of some segments. -/
def unlink (stuck victims : List Nat) (s : Store) : Store :=
  { s with segments := s.segments.filter fun segment =>
      !decide (segment.seq ∈ victims) || decide (segment.seq ∈ stuck) }

def readdir (order numbers : List Nat) : List Nat :=
  if order.Perm numbers then order else numbers

theorem readdir_perm (order numbers : List Nat) : (readdir order numbers).Perm numbers := by
  unfold readdir
  split
  next same => exact same
  next => exact List.Perm.refl numbers

/-- At most `cap` segments, sorted. -/
def segmentSeqList (order : List Nat) (cap : Nat) (s : Store) : List Nat :=
  ((readdir order s.numbers).take cap).insertionSort (· ≤ ·)

def evictedSegments (order : List Nat) (s : Store) : List Nat :=
  let seqs := segmentSeqList order (segmentCount + 4) s
  seqs.take (seqs.length - segmentCount)

def evictOldSegments (replies : Replies) (s : Store) : Store :=
  let victims := evictedSegments replies.order s
  let s := unlink replies.stuck victims s
  { s with owed := s.owed.filter fun line =>
      !decide (line.1 ∈ victims) || decide (line.1 ∈ replies.stuck) }

def perSegmentMaxBytes (maxBytes : Int) : Int :=
  let share := maxBytes.tdiv segmentCount
  if share < 1 then 1 else share

def Store.sizeOf (s : Store) (seq : Nat) : Nat :=
  ((s.segments.find? fun segment => segment.seq = seq).map
    fun segment => segment.bytes.length).getD 0

def resumeSegment (replies : Replies) (s : Store) : Bool × Store :=
  let seq := s.nextSeq - 1
  if replies.opens then
    let s := touch seq s
    (true, { s with current := some seq, currentSize := s.sizeOf seq })
  else (false, s)

/-- The branch `need_new`: the counter is taken first, then saved, and a file
that carries the number is unlinked. -/
def newSegment (replies : Replies) (s : Store) : Bool × Store :=
  let seq := s.nextSeq
  let s := saveState replies.saves { s with nextSeq := seq + 1 }
  if replies.saves then
    let s := unlink replies.stuck [seq] s
    if replies.opens then
      let s := touch seq s
      (true, evictOldSegments replies
        { s with current := some seq, currentSize := 0 })
    else (false, s)
  else (false, s)

def ensureCurrentSegmentOpen (replies : Replies) (s : Store) : Bool × Store :=
  match s.current with
  | none => if s.nextSeq = 1 then newSegment replies s else resumeSegment replies s
  | some _ =>
    if perSegmentMaxBytes s.maxBytes ≤ s.currentSize then
      newSegment replies { s with current := none }
    else (true, s)

def append (seq : Nat) (bytes : List UInt8) (s : Store) : Store :=
  { s with segments := s.segments.map fun segment =>
      if segment.seq = seq then { segment with bytes := segment.bytes ++ bytes }
      else segment }

/-- The tail of `write_entry`, with the segment open. -/
def appendLine (replies : Replies) (seq : Nat) (line : List UInt8) (s : Store) : Store :=
  if replies.flushes then
    let s := append seq (replies.torn ++ line) s
    { s with
      currentSize := s.currentSize + line.length
      owed := s.owed ++ [(seq, line)] }
  else append seq replies.torn s

/-- `write_entry` once the store is open; before that an entry is held in
memory. -/
def writeEntry (replies : Replies) (request : Request) (now : Int) (s : Store) : Store :=
  let entry := request.entry now
  if s.initialized = false then s
  else if levelRank entry.level.str > levelRank s.minLevel.str then s
  else
    let (opened, s) := ensureCurrentSegmentOpen replies s
    match opened, s.current with
    | true, some seq => appendLine replies seq (entryLine entry) s
    | _, _ => s

def setMaxBytes (saves : Bool) (maxBytes : Int) (s : Store) : Store :=
  if maxBytes < minMaxBytes ∨ maxBytes > maxMaxBytes then s
  else if saves then saveState saves { s with maxBytes := maxBytes }
  else s

def setMinLevel (saves : Bool) (level : CStr) (s : Store) : Store :=
  if (levels.any fun known => CStr.ofString known.1 = level) = false then s
  else if saves then
    saveState saves
      { s with minLevel := BoundedStr.store 16 pos_16 level }
  else s

inductive Event where
  | write (replies : Replies) (request : Request) (now : Int)
  | maxBytes (saves : Bool) (bytes : Int)
  | minLevel (saves : Bool) (level : CStr)
  | restart

def step (s : Store) : Event → Store
  | .write replies request now => writeEntry replies request now s
  | .maxBytes saves bytes => setMaxBytes saves bytes s
  | .minLevel saves level => setMinLevel saves level s
  | .restart => restart s

end Cix.Log
