import Cix.Lib.StringOrder
import Cix.Storage.Dirs
import Cix.Volume.Volumes

/-!
# Snapshots of volumes

`daemon/src/volumebackup.c` with the hooks of `daemon/src/api_volume.c`: a
snapshot is taken, the oldest ones are removed, one is restored or deleted.
The store is a directory on the backup disk with a directory for each volume,
in which each snapshot is a directory named by its time.  The answers of the
system (whether the disk is mounted, the order of `readdir`, what the copier
reads, where an operation fails) come with each request.
-/

namespace Cix.Backup

open Cix.Lib Cix.Storage Cix.Volume

def component (part : CStr) : Comp CStr :=
  if part = "." then .here
  else if part = ".." then .up
  else .name part

def comps (text : CStr) : List (Comp CStr) :=
  ((text.bytes.splitOn 47).filter (· ≠ [])).map fun part =>
    component (CStr.ofBytes part)

def civil (day : Int) : Int × Nat × Nat :=
  let shifted := day + 719468
  let era := shifted / 146097
  let dayOfEra := (shifted % 146097).toNat
  let yearOfEra := (dayOfEra - dayOfEra / 1460 + dayOfEra / 36524 - dayOfEra / 146096) / 365
  let dayOfYear := dayOfEra - (365 * yearOfEra + yearOfEra / 4 - yearOfEra / 100)
  -- the months from March on
  let march := (5 * dayOfYear + 2) / 153
  let dayOfMonth := dayOfYear - (153 * march + 2) / 5 + 1
  let month := if march < 10 then march + 3 else march - 9
  (yearOfEra + era * 400 + (if month ≤ 2 then 1 else 0), month, dayOfMonth)

def twoDigits (n : Nat) : List UInt8 :=
  [UInt8.ofNat (48 + n / 10 % 10), UInt8.ofNat (48 + n % 10)]

def stampMax : Nat := 24

/-- The format `%Y%m%dT%H%M%SZ`. -/
def stampNow (time : Int64) : CStr :=
  let seconds := (time.toInt % 86400).toNat
  let (year, month, day) := civil (time.toInt / 86400)
  (CStr.ofBytes (Json.intText year ++ twoDigits month ++ twoDigits day ++
    84 :: (twoDigits (seconds / 3600) ++ twoDigits (seconds / 60 % 60) ++
      twoDigits (seconds % 60) ++ [90]))).truncate stampMax

/-- A volume as a snapshot needs it: `volume_host_path`, `backup_retain` and
`backup_while_running`. -/
structure Target where
  place : Path
  retain : Int32
  whileRunning : RunningMode

structure Registry (store : Path) where
  find : CStr → Option Target
  valid : ∀ name v, find name = some v → volumeNameIsValid name = true
  apart : ∀ name v, find name = some v → ¬ v.place <+: store ∧ ¬ store <+: v.place

structure Container where
  name : CStr
  /-- `container_mounts_volume`. -/
  mounts : CStr → Bool
  (running paused : Bool)

/-- The loop of `volume_set_containers_paused`. `accepts` says whether
`registry_set_paused` succeeds. -/
def setPausedLoop (accepts : CStr → Bool → Bool) (volume : CStr)
    (freeze : Bool) : List Container → List Container × Bool
  | [] => ([], false)
  | e :: rest =>
    if !e.mounts volume || !e.running || (freeze && e.paused) then
      let (rest, failed) := setPausedLoop accepts volume freeze rest
      (e :: rest, failed)
    else if accepts e.name freeze then
      let (rest, failed) := setPausedLoop accepts volume freeze rest
      ({ e with paused := freeze } :: rest, failed)
    else (e :: rest, true)

def undoPaused (accepts : CStr → Bool → Bool) (volume : CStr)
    (containers : List Container) : List Container :=
  containers.map fun e =>
    if e.running && e.paused && e.mounts volume && accepts e.name false then
      { e with paused := false }
    else e

/-- `volume_set_containers_paused`: the containers after it, and whether it
fails. -/
def setContainersPaused (accepts : CStr → Bool → Bool) (volume : CStr)
    (freeze : Bool) (containers : List Container) : List Container × Bool :=
  let (containers, failed) := setPausedLoop accepts volume freeze containers
  if failed && freeze then (undoPaused accepts volume containers, true)
  else (containers, false)

structure State where
  fs : Storage.Host
  containers : List Container

inductive BackupError where
  | ok
  | notFound
  | noDisk
  | diskNotReady
  | inUseRunning
  | noSuchSnapshot
  | copyFailed
  | invalid
  deriving DecidableEq, Repr

/-- `store_root`. -/
inductive StoreDisk where
  | absent
  | notMounted
  | ready

structure Tree where
  forest : Forest
  distinct : forest.Distinct

/-- Where a copy fails: after so many directories of the target's path, or
after so many steps. -/
inductive Fault where
  | none
  | mkdir (made : Nat)
  | copy (steps : Nat)

/-- `persist_mkdir_p` and `treecopy_recursive`. -/
def copyInto (d : Daemon) (fs : Storage.Host) (target : Path)
    (source : Tree) (fault : Fault) : Storage.Host × Bool :=
  let start : Copying := { fs, written := [] }
  match fault with
  | .mkdir made => ((mkdirP d start (target.take made)).1.fs, false)
  | .copy steps =>
    let (c, ok) := mkdirP d start target
    if ok then
      ((copySteps d target c ((source.forest.steps []).take steps)).1.fs, false)
    else (c.fs, false)
  | .none =>
    let (c, ok) := mkdirP d start target
    if ok then
      let (c, ok) := copySteps d target c (source.forest.steps [])
      (c.fs, ok)
    else (c.fs, false)

structure TakeInput (store : Path) where
  volumes : Registry store
  /-- The hook `is_running`. -/
  isRunning : Bool
  accepts : CStr → Bool → Bool
  disk : StoreDisk
  now : Int64
  source : Tree
  fault : Fault
  /-- What the removal of a snapshot cannot remove, by its stamp. -/
  left : CStr → List Path
  /-- The order in which `readdir` gives the names. -/
  order : List CStr

structure RestoreInput (store : Path) where
  volumes : Registry store
  isRunning : Bool
  disk : StoreDisk
  source : Tree
  fault : Fault
  left : List Path

/-- The requests; `others` is everything else that happens on the host. -/
inductive Op (store : Path) where
  | take (volume : CStr) (input : TakeInput store)
  | restore (volume stamp : CStr) (input : RestoreInput store)
  | delete (volume stamp : CStr) (disk : StoreDisk) (left : List Path)
  | others (fs : Storage.Host) (containers : List Container)

structure Done where
  state : State
  error : BackupError
  reads : List Path

section Requests

variable (d : Daemon) {store : Path}

def maxSnapshots : Nat := 512

/-- `compare_stamp_desc`. -/
def newestFirst (a b : CStr) : Bool := (strcmp b a).isLE

def volumebackupList (store : Path) (fs : Storage.Host) (volume : CStr)
    (order : List CStr) : List CStr :=
  match fs.resolve ((store ++ [volume]).map Comp.name) with
  | none => []
  | some dir =>
    if fs.isDir dir then
      let present := order.dedup.filter fun name =>
        (fs (dir ++ [name])).isSome
      let stamps := (present.filter fun name =>
        name.bytes.head? ≠ some 46).take maxSnapshots
      (stamps.map (CStr.truncate stampMax)).mergeSort newestFirst
    else []

def trimToRetention (store : Path) (fs : Storage.Host) (volume : CStr)
    (retain : Int32) (order : List CStr) (left : CStr → List Path) :
    Storage.Host :=
  ((volumebackupList store fs volume order).drop (reportedRetain retain).toInt.toNat).foldl
    (fun fs stamp => persistRemoveTree fs
      ((store ++ [volume, stamp]).map Comp.name) (left stamp)) fs

def takeQuiet (s : State) (volume : CStr) (v : Target)
    (input : TakeInput store) : Storage.Host × BackupError :=
  match input.disk with
  | .notMounted => (s.fs, .diskNotReady)
  | .absent => (s.fs, .noDisk)
  | .ready =>
    let stamp := stampNow input.now
    let (fs, copied) := copyInto d s.fs (store ++ [volume, stamp])
      input.source input.fault
    if copied then
      (trimToRetention store fs volume v.retain input.order input.left, .ok)
    else
      (persistRemoveTree fs ((store ++ [volume, stamp]).map Comp.name)
        (input.left stamp), .copyFailed)

def volumebackupTake (s : State) (volume : CStr) (input : TakeInput store) :
    Done :=
  match input.volumes.find volume with
  | none => ⟨s, .notFound, []⟩
  | some v =>
    if input.isRunning && decide (v.whileRunning = .refuse) then
      ⟨s, .inUseRunning, []⟩
    else if input.isRunning && decide (v.whileRunning = .pause) then
      let (containers, failed) := setContainersPaused input.accepts volume true s.containers
      if failed then ⟨{ s with containers }, .inUseRunning, []⟩
      else
        let (fs, error) := takeQuiet d s volume v input
        -- `thaw_if_paused`, on every way out
        let (containers, _) := setContainersPaused input.accepts volume false containers
        ⟨{ fs, containers }, error, []⟩
    else
      let (fs, error) := takeQuiet d s volume v input
      ⟨{ s with fs }, error, []⟩

def snapshotPath (store : Path) (volume stamp : CStr) : List (Comp CStr) :=
  store.map Comp.name ++ (comps volume ++ comps stamp)

def stampRefused (stamp : CStr) : Bool :=
  decide (stamp.length = 0) || decide (47 ∈ stamp.bytes)

/-- `stat` finds a directory there. -/
def statDir (fs : Storage.Host) (path : List (Comp CStr)) : Option Path :=
  match fs.resolve path with
  | none => none
  | some place => if fs.isDir place then some place else none

def volumebackupRestore (s : State) (volume stamp : CStr) (input : RestoreInput store) : Done :=
  match input.volumes.find volume with
  | none => ⟨s, .notFound, []⟩
  | some v =>
    if stampRefused stamp then ⟨s, .invalid, []⟩
    else if input.isRunning then ⟨s, .inUseRunning, []⟩
    else
      match input.disk with
      | .notMounted => ⟨s, .diskNotReady, []⟩
      | .absent => ⟨s, .noDisk, []⟩
      | .ready =>
        match statDir s.fs (snapshotPath store volume stamp) with
        | none => ⟨s, .noSuchSnapshot, []⟩
        | some place =>
          let fs := persistRemoveTree s.fs (v.place.map Comp.name)
            input.left
          let (fs, copied) := copyInto d fs v.place input.source input.fault
          ⟨{ s with fs }, if copied then .ok else .copyFailed, [place]⟩

def volumebackupDeleteSnapshot (store : Path) (s : State)
    (volume stamp : CStr) (disk : StoreDisk) (left : List Path) : Done :=
  if stampRefused stamp then ⟨s, .invalid, []⟩
  else
    match disk with
    | .ready =>
      let path := snapshotPath store volume stamp
      match statDir s.fs path with
      | none => ⟨s, .noSuchSnapshot, []⟩
      | some _ => ⟨{ s with fs := persistRemoveTree s.fs path left }, .ok, []⟩
    | _ => ⟨s, .noDisk, []⟩

def othersStep (store : Path) (s : State) (fs : Storage.Host)
    (containers : List Container) : State where
  fs := fun path =>
    if path <+: store ∨ store <+: path then s.fs path else fs path
  containers := containers

def perform (s : State) : Op store → Done
  | .take volume input => volumebackupTake d s volume input
  | .restore volume stamp input => volumebackupRestore d s volume stamp input
  | .delete volume stamp disk left =>
    volumebackupDeleteSnapshot store s volume stamp disk left
  | .others fs containers => ⟨othersStep store s fs containers, .ok, []⟩

def step (s : State) (op : Op store) : State := (perform d s op).state

end Requests

end Cix.Backup
