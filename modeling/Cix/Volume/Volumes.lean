import Cix.Json.Parser
import Cix.Json.Writer
import Cix.Lib.Slots

/-!
# The table of volumes

`daemon/src/volume.c`: the volumes in their slots, the file they are saved to,
the place of their data and the requests that change the records.  What the
kernel answers comes with each request.
-/

namespace Cix.Volume

open Cix.Lib Cix.Json

def volumeMax : Nat := 64

def defaultRetain : Int32 := 7

/-- A letter, a digit, `_` or `-`. -/
def volumeByte (c : UInt8) : Bool :=
  (97 ≤ c && c ≤ 122) || (65 ≤ c && c ≤ 90) || (48 ≤ c && c ≤ 57) || c == 95 || c == 45

def volumeNameIsValid (name : CStr) : Bool :=
  decide (name.length ≠ 0) && decide (name.length < 64) &&
    decide (name.bytes.head? ≠ some 46) &&
    decide (name.bytes.head? ≠ some 45) && name.bytes.all volumeByte

inductive RunningMode where
  | refuse
  | pause
  | allow
  deriving DecidableEq, Repr

def runningModeParse (s : Option CStr) : RunningMode :=
  if s = some (CStr.ofString "pause") then .pause
  else if s = some (CStr.ofString "allow") then .allow
  else .refuse

def runningModeName : RunningMode → CStr
  | .pause => "pause"
  | .allow => "allow"
  | .refuse => "refuse"

/-- `struct volume`, in use. -/
structure Volume where
  (name disk : BoundedStr 64)
  createdAt : Int64
  backupEnabled : Bool
  backupRetain : Int32
  backupLastAt : Int64
  backupWhileRunning : RunningMode
  quotaBytes : Int64
  (ownerUid ownerGid : Int32)
  deriving DecidableEq

/-- `enum volume_error`, as far as `volume.c` answers it. -/
inductive VolumeError where
  | ok
  | invalidName
  | duplicate
  | full
  | notFound
  | persistFailed
  | io
  | targetNotFound
  | targetNotReady
  | targetWrongRole
  | samePlace
  | copyFailed
  deriving DecidableEq, Repr

/-- `struct discovered_disk`, as far as a volume asks. -/
structure Disk where
  name : CStr
  mounted : Bool
  mountPath : CStr

/-- What a request finds: the disks, their roles, the default directory, and
how each call of the kernel ends. -/
structure Host where
  disks : List Disk
  /-- `diskrole_lookup`. -/
  role : CStr → Option CStr
  volumesDir : CStr
  (parentMade subvolumeMade copied : Bool)
  /-- Whether the write of the state file succeeds. -/
  written : Bool
  now : Int64

/-- Two strings with a middle part between them, in a `char[PATH_MAX]`. -/
def joinPath (front middle last : CStr) : CStr :=
  CStr.ofBytes ((front.bytes ++ middle.bytes ++ last.bytes).take 4095)

def volumeHostPath (host : Host) (v : Volume) : CStr :=
  match host.disks.find? fun d => decide (d.name = v.disk.str) && d.mounted with
  | some d =>
    if v.disk.str.length ≠ 0 then
      joinPath d.mountPath "/volumes/" v.name.str
    else joinPath host.volumesDir "/" v.name.str
  | none => joinPath host.volumesDir "/" v.name.str

def volumeCheckDisk (host : Host) (disk : CStr) : VolumeError :=
  match host.disks.find? fun d => d.name = disk with
  | none => .targetNotFound
  | some d =>
    if host.role disk ≠ some (CStr.ofString "volume-storage") then
      .targetWrongRole
    else if d.mounted then .ok
    else .targetNotReady

def key (name : String) : Writer → Writer :=
  jwKey (CStr.ofString name)

def writeDisk (disk : CStr) (w : Writer) : Writer :=
  if disk.length ≠ 0 then jwStr disk w else jwNull w

def writeOwner (owner : Int32) (w : Writer) : Writer :=
  if 0 ≤ owner then jwInt owner.toInt w else jwNull w

def reportedRetain (retain : Int32) : Int32 :=
  if 0 < retain then retain else defaultRetain

def volumeWriteJsonOne (host : Host) (v : Volume) (w : Writer) : Writer :=
  let w := jwObjOpen w
  let w := jwStr v.name.str (key "name" w)
  let w := writeDisk v.disk.str (key "disk" w)
  let w := jwInt v.createdAt.toInt (key "created_at" w)
  let w := jwBool v.backupEnabled (key "backup_enabled" w)
  let w := jwInt (reportedRetain v.backupRetain).toInt (key "backup_retain" w)
  let w := jwInt v.backupLastAt.toInt (key "backup_last_at" w)
  let w := jwStr (runningModeName v.backupWhileRunning)
    (key "backup_while_running" w)
  let w := jwInt v.quotaBytes.toInt (key "quota_bytes" w)
  let w := writeOwner v.ownerUid (key "owner_uid" w)
  let w := writeOwner v.ownerGid (key "owner_gid" w)
  let w := jwStr (volumeHostPath host v) (key "host_path" w)
  jwObjClose w

/-- `volume_write_json_list` into the buffer of `save_state`. -/
def listText (host : Host) (volumes : List Volume) : List UInt8 :=
  (jwArrClose (volumes.foldl (fun w v => volumeWriteJsonOne host v w) (jwArrOpen jwInit))).buf

def numberOr {α : Type} (convert : Double → α) (fallback : α) (mem : Option Value) : α :=
  match mem with
  | some (.number n) => convert n
  | _ => fallback

def isTrueMember (mem : Option Value) : Bool :=
  match mem with
  | some (.bool b) => b
  | _ => false

/-- The body of the loop of `volume_init`; an entry without a valid name is
skipped. -/
def loadVolume (item : Value) : Option Volume :=
  match asString (objectGet (some item) "name") with
  | none => none
  | some name =>
    if volumeNameIsValid name then some
      { name := BoundedStr.store 64 pos_64 name
        disk := BoundedStr.store 64 pos_64
          ((asString (objectGet (some item) "disk")).getD CStr.empty)
        createdAt := numberOr Double.toInt64 0 (objectGet (some item) "created_at")
        backupEnabled := isTrueMember (objectGet (some item) "backup_enabled")
        backupRetain := numberOr Double.toInt 0 (objectGet (some item) "backup_retain")
        backupLastAt := numberOr Double.toInt64 0 (objectGet (some item) "backup_last_at")
        backupWhileRunning := runningModeParse
          (asString (objectGet (some item) "backup_while_running"))
        quotaBytes := numberOr Double.toInt64 0 (objectGet (some item) "quota_bytes")
        ownerUid := numberOr Double.toInt (-1) (objectGet (some item) "owner_uid")
        ownerGid := numberOr Double.toInt (-1) (objectGet (some item) "owner_gid") }
    else none

/-- The records of a state file; `none` is a malformed file. -/
def loadState (file : Option (List UInt8)) : Option (List Volume) :=
  match file with
  | none => some []
  | some text =>
    match asArray (jsonParse text) with
    | none => none
    | some items => some ((items.filterMap loadVolume).take volumeMax)

structure State where
  volumes : Slots Volume volumeMax
  file : Option (List UInt8)

def State.fresh : State := ⟨Slots.empty volumeMax, none⟩

def State.findSlot (s : State) (name : CStr) : Option (Nat × Volume) :=
  s.volumes.find fun v => v.name.str = name

/-- `save_state`: the write replaces the whole file or nothing. -/
def State.save (host : Host) (s : State) : State :=
  if host.written then
    { s with file := some (listText host s.volumes.entries) }
  else s

def savedAnswer (host : Host) : VolumeError :=
  if host.written then .ok else .persistFailed

/-- The record that `volume_create` puts into a free slot. -/
def newVolume (host : Host) (name disk : CStr) : Volume where
  name := BoundedStr.store 64 pos_64 name
  disk := BoundedStr.store 64 pos_64 disk
  createdAt := host.now
  backupEnabled := false
  backupRetain := 0
  backupLastAt := 0
  backupWhileRunning := .refuse
  quotaBytes := 0
  ownerUid := -1
  ownerGid := -1

/-- `volume_create`; an empty disk is none. -/
def volumeCreate (host : Host) (name disk : CStr) (s : State) : VolumeError × State :=
  if !volumeNameIsValid name then (.invalidName, s)
  else if (s.findSlot name).isSome then (.duplicate, s)
  else if disk.length ≠ 0 ∧ volumeCheckDisk host disk ≠ .ok then
    (volumeCheckDisk host disk, s)
  else
    match s.volumes.firstFree with
    | none => (.full, s)
    | some slot =>
      let filled : State :=
        { s with
          volumes := s.volumes.put slot (some (newVolume host name disk)) }
      if !host.parentMade then (.io, s)
      else if !host.subvolumeMade then (.io, s)
      else if host.written then (.ok, filled.save host)
      else (.persistFailed,
        { filled with volumes := filled.volumes.put slot none })

def volumeDelete (host : Host) (name : CStr) (s : State) : VolumeError × State :=
  match s.findSlot name with
  | none => (.notFound, s)
  | some (slot, _) =>
    (savedAnswer host,
      { s with volumes := s.volumes.put slot none }.save host)

def change (host : Host) (name : CStr) (edit : Volume → Volume) (s : State) : VolumeError × State :=
  match s.findSlot name with
  | none => (.notFound, s)
  | some (slot, v) =>
    (savedAnswer host,
      { s with volumes := s.volumes.put slot (some (edit v)) }.save host)

def Volume.withOwner (uid gid : Int32) (v : Volume) : Volume :=
  { v with ownerUid := uid, ownerGid := gid }

def Volume.withPolicy (enabled : Bool) (retain : Int32)
    (whileRunning : RunningMode) (v : Volume) : Volume :=
  { v with
    backupEnabled := enabled
    backupWhileRunning := whileRunning
    backupRetain := if 0 < retain then retain else v.backupRetain }

def Volume.withQuota (quotaBytes : Int64) (v : Volume) : Volume :=
  { v with quotaBytes := quotaBytes }

def volumeSetOwner (host : Host) (name : CStr) (uid gid : Int32) : State → VolumeError × State :=
  change host name (Volume.withOwner uid gid)

def volumeSetBackupPolicy (host : Host) (name : CStr) (enabled : Bool)
    (retain : Int32) (whileRunning : RunningMode) :
    State → VolumeError × State :=
  change host name (Volume.withPolicy enabled retain whileRunning)

def volumeSetQuota (host : Host) (name : CStr) (quotaBytes : Int64)
    (s : State) : VolumeError × State :=
  if (s.findSlot name).isNone then (.notFound, s)
  else if quotaBytes < 0 then (.invalidName, s)
  else change host name (Volume.withQuota quotaBytes) s

/-- The record as `volume_migrate` repoints it. -/
def Volume.onDisk (disk : CStr) (v : Volume) : Volume :=
  { v with disk := BoundedStr.store 64 pos_64 disk }

/-- `volume_migrate`, as far as the records go. -/
def volumeMigrate (host : Host) (name disk : CStr) (s : State) : VolumeError × State :=
  match s.findSlot name with
  | none => (.notFound, s)
  | some (slot, v) =>
    if v.disk.str = disk then (.samePlace, s)
    else if disk.length ≠ 0 ∧ volumeCheckDisk host disk ≠ .ok then
      (volumeCheckDisk host disk, s)
    else
      let moved : State := { s with volumes := s.volumes.put slot (some (v.onDisk disk)) }
      let restored : State :=
        { moved with
          volumes := moved.volumes.put slot (some ((v.onDisk disk).onDisk v.disk.str)) }
      if !host.copied then (.copyFailed, restored)
      else if host.written then (.ok, moved.save host)
      else (.persistFailed, restored)

/-- `volume_init`, on a file that can be read; a malformed one leaves the table
empty. -/
def volumeInit (s : State) : VolumeError × State :=
  (.ok, { s with
    volumes := Slots.ofEntries volumeMax ((loadState s.file).getD []) })

inductive Request where
  | create (name disk : CStr)
  | delete (name : CStr)
  | setOwner (name : CStr) (uid gid : Int32)
  | setQuota (name : CStr) (quotaBytes : Int64)
  | setBackupPolicy (name : CStr) (enabled : Bool) (retain : Int32)
      (whileRunning : RunningMode)
  | migrate (name disk : CStr)
  | reload

def serve (s : State) : Host × Request → VolumeError × State
  | (host, .create name disk) => volumeCreate host name disk s
  | (host, .delete name) => volumeDelete host name s
  | (host, .setOwner name uid gid) => volumeSetOwner host name uid gid s
  | (host, .setQuota name quota) => volumeSetQuota host name quota s
  | (host, .setBackupPolicy name enabled retain mode) =>
    volumeSetBackupPolicy host name enabled retain mode s
  | (host, .migrate name disk) => volumeMigrate host name disk s
  | (_, .reload) => volumeInit s

def step (s : State) (input : Host × Request) : State :=
  (serve s input).2

end Cix.Volume
