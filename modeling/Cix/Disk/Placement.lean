import Cix.Disk.Roles

/-!
# Placements of the daemon's own storage

`daemon/src/storageplacement.c`: for each kind of storage the disk it is
placed on, the move that is asked for the next boot, and the end of the last
one.
-/

namespace Cix.Disk

open Cix.Lib Cix.Json

inductive StorageKind where
  | rebuildable
  | log
  | swap
  | data
  deriving DecidableEq, Repr

def storageKinds : List StorageKind := [.rebuildable, .log, .swap, .data]

def kindKey : StorageKind → String
  | .rebuildable => "rebuildable"
  | .log => "log"
  | .swap => "swap"
  | .data => "data"

structure DiskRef where
  disk : DiskName
  uuid : FsUuid
  deriving DecidableEq

def DiskRef.unset : DiskRef :=
  ⟨DiskName.store CStr.empty, FsUuid.store CStr.empty⟩

/-- The entries of one kind in the arrays of `storageplacement.c`. -/
structure Placement where
  active : DiskRef
  pendingSet : Bool
  pending : DiskRef
  outcome : BoundedStr 16
  reason : BoundedStr 512
  movedAt : Int64
  deriving DecidableEq

def outcomeOf (text : CStr) : BoundedStr 16 :=
  BoundedStr.store 16 pos_16 text

def reasonOf (text : CStr) : BoundedStr 512 :=
  BoundedStr.store 512 pos_512 text

def Placement.cleared : Placement :=
  ⟨DiskRef.unset, false, DiskRef.unset, outcomeOf CStr.empty, reasonOf CStr.empty, 0⟩

abbrev Placements := StorageKind → Placement

def Placements.set (placements : Placements) (kind : StorageKind)
    (placement : Placement) : Placements :=
  Function.update placements kind placement

def storageplacementGet (placements : Placements) (kind : StorageKind) :
    Option DiskName :=
  let active := (placements kind).active
  if active.disk.str.length ≠ 0 then some active.disk else none

def storageplacementGetUuid (placements : Placements) (kind : StorageKind) :
    Option FsUuid :=
  let active := (placements kind).active
  if active.disk.str.length ≠ 0 ∧ active.uuid.str.length ≠ 0 then
    some active.uuid
  else none

def storageplacementGetPending (placements : Placements)
    (kind : StorageKind) : Option (Option DiskName) :=
  let placement := placements kind
  if placement.pendingSet then
    some (if placement.pending.disk.str.length ≠ 0 then
      some placement.pending.disk else none)
  else none

def storageplacementGetPendingUuid (placements : Placements) (kind : StorageKind) : Option FsUuid :=
  let placement := placements kind
  if placement.pendingSet && decide (placement.pending.uuid.str.length ≠ 0) then
    some placement.pending.uuid
  else none

/-- `suffixed_key` and `uuid_key`; no suffix is the key of the kind. -/
def suffixedKey (kind : StorageKind) (suffix : String) : String :=
  kindKey kind ++ suffix

def writeKey (kind : StorageKind) (suffix : String) : Writer → Writer :=
  jwKey (CStr.ofString (suffixedKey kind suffix))

def writeDiskName (disk : DiskName) (w : Writer) : Writer :=
  if disk.str.length ≠ 0 then jwStr disk.str w else jwNull w

/-- The body of the loop of `save_state`. -/
def writePlacement (kind : StorageKind) (p : Placement) (w : Writer) :
    Writer :=
  let uuidMember := fun suffix (uuid : FsUuid) (w : Writer) =>
    writeUnlessEmpty (CStr.ofString (suffixedKey kind suffix)) uuid.str w
  let w := writeDiskName p.active.disk (writeKey kind "" w)
  let w := uuidMember "_uuid" p.active.uuid w
  let w :=
    if p.pendingSet then
      uuidMember "_pending_uuid" p.pending.uuid
        (writeDiskName p.pending.disk (writeKey kind "_pending" w))
    else w
  if p.outcome.str.length ≠ 0 then
    let w := jwStr p.outcome.str (writeKey kind "_move_outcome" w)
    let w := jwStr p.reason.str (writeKey kind "_move_reason" w)
    jwInt p.movedAt.toInt (writeKey kind "_move_at" w)
  else w

def placementsText (placements : Placements) : List UInt8 :=
  (jwObjClose (storageKinds.foldl (fun w kind => writePlacement kind (placements kind) w)
    (jwObjOpen jwInit))).buf

def stringOr {α : Type} (store : CStr → α) (mem : Option Value) (old : α) : α :=
  match asString mem with
  | some text => store text
  | none => old

/-- The pending move in the body of the loop of `load_state`. -/
def readPending (root : Option Value) (kind : StorageKind) (p : Placement) :
    Placement :=
  let get := fun suffix => objectGet root (suffixedKey kind suffix)
  let uuid := stringOr FsUuid.store (get "_pending_uuid") p.pending.uuid
  match get "_pending" with
  | some .null => { p with pendingSet := true, pending := ⟨p.pending.disk, uuid⟩ }
  | some (.string disk) =>
    { p with pendingSet := true, pending := ⟨DiskName.store disk, uuid⟩ }
  | _ => p

/-- The last move in the body of the loop of `load_state`. -/
def readOutcome (root : Option Value) (kind : StorageKind) (p : Placement) :
    Placement :=
  let get := fun suffix => objectGet root (suffixedKey kind suffix)
  match asString (get "_move_outcome") with
  | none => p
  | some outcome =>
    { p with
      outcome := outcomeOf outcome
      reason := stringOr reasonOf (get "_move_reason") p.reason
      movedAt := (asNumber (get "_move_at")).toInt64 }

def readActive (root : Option Value) (kind : StorageKind) (p : Placement) : Bool × Placement :=
  match asString (objectGet root (kindKey kind)) with
  | none => (true, p)
  | some disk =>
    let named : Placement := { p with active.disk := DiskName.store disk }
    if disk.length < 32 then
      (true, { named with
        active.uuid := stringOr FsUuid.store
          (objectGet root (suffixedKey kind "_uuid")) p.active.uuid })
    else (false, named)

/-- The body of the loop of `load_state` over a cleared table. -/
def readPlacement (root : Option Value) (kind : StorageKind) : Bool × Placement :=
  readActive root kind (readOutcome root kind (readPending root kind Placement.cleared))

/-- The loop of `load_state`: it ends at the first name that does not fit. -/
def readKinds (root : Option Value) : List StorageKind → Placements → Bool × Placements
  | [], placements => (true, placements)
  | kind :: rest, placements =>
    let (fits, p) := readPlacement root kind
    if fits then readKinds root rest (placements.set kind p)
    else (false, placements.set kind p)

/-- The file as `load_state` reads it, before any disk is looked for. -/
def readPlacements (file : Option (List UInt8)) : Bool × Placements :=
  let cleared : Placements := fun _ => Placement.cleared
  match file with
  | none => (true, cleared)
  | some text =>
    match jsonParse text with
    | none => (false, cleared)
    | some root => readKinds (some root) storageKinds cleared

def DiskRef.follow (disks : Disks) (ref : DiskRef) : DiskRef :=
  if ref.disk.str.length = 0 then ref
  else { ref with disk := followed disks ref.disk ref.uuid.str }

def DiskRef.adopt (disks : Disks) (ref : DiskRef) : DiskRef :=
  if ref.disk.str.length = 0 ∨ ref.uuid.str.length ≠ 0 then ref
  else { ref with uuid := disks.probeFsUuid ref.disk.str }

/-- The body of the second loop of `load_state`. -/
def Placement.follow (disks : Disks) (p : Placement) : Placement :=
  { p with
    pending := p.pending.follow disks
    active := (p.active.follow disks).adopt disks }

structure PlacementState where
  placements : Placements
  file : Option (List UInt8)

/-- `save_state`. -/
def PlacementState.save (written : Bool) (s : PlacementState) :
    PlacementState :=
  if written then { s with file := some (placementsText s.placements) } else s

def PlacementState.set (s : PlacementState) (kind : StorageKind) (p : Placement) : PlacementState :=
  { s with placements := s.placements.set kind p }

/-- `storageplacement_init`, on a file that can be read.  The file is written
if a placement has taken a UUID. -/
def storageplacementInit (disks : Disks) (written : Bool)
    (s : PlacementState) : Bool × PlacementState :=
  let (valid, recorded) := readPlacements s.file
  if valid then
    let adopts := fun kind =>
      let ref := (recorded kind).active.follow disks
      decide (ref.adopt disks ≠ ref)
    let loaded : PlacementState :=
      { s with placements := fun kind => (recorded kind).follow disks }
    (true, if storageKinds.any adopts then loaded.save written else loaded)
  else (false, { s with placements := recorded })

def DiskRef.probe (disks : Disks) (diskName : Option CStr) : DiskRef :=
  match diskName with
  | none => DiskRef.unset
  | some name => ⟨DiskName.store name, disks.probeFsUuid name⟩

def savedOrUndone (written : Bool) (kind : StorageKind) (p : Placement)
    (s : PlacementState) : Bool × PlacementState :=
  let changed := s.set kind p
  if written then (true, changed.save written)
  else (false, changed.set kind (s.placements kind))

def storageplacementSet (disks : Disks) (written : Bool) (kind : StorageKind)
    (diskName : Option CStr) (s : PlacementState) : Bool × PlacementState :=
  savedOrUndone written kind
    { s.placements kind with active := DiskRef.probe disks diskName } s

def storageplacementSetPending (disks : Disks) (written : Bool)
    (kind : StorageKind) (diskName : Option CStr) (s : PlacementState) :
    Bool × PlacementState :=
  savedOrUndone written kind
    { s.placements kind with
      pendingSet := true
      pending := DiskRef.probe disks diskName } s

/-- `storageplacement_clear_pending`; the disk is cleared after the write. -/
def storageplacementClearPending (written : Bool) (kind : StorageKind)
    (s : PlacementState) : Bool × PlacementState :=
  let p := s.placements kind
  if !p.pendingSet then (true, s)
  else if written then
    (true, ((s.set kind { p with pendingSet := false }).save written).set kind
      { p with pendingSet := false, pending := DiskRef.unset })
  else (false, s)

def Placement.finish (p : Placement) (moved : Bool) (reason : CStr)
    (movedAt : Int64) : Placement where
  active := if moved then p.pending else p.active
  pendingSet := false
  pending := DiskRef.unset
  outcome := outcomeOf (CStr.ofString (if moved then "moved" else "failed"))
  reason := reasonOf reason
  movedAt := movedAt

/-- `storageplacement_finish_move`; nothing is undone. -/
def storageplacementFinishMove (written : Bool) (kind : StorageKind)
    (moved : Bool) (reason : CStr) (movedAt : Int64) (s : PlacementState) :
    Bool × PlacementState :=
  let p := s.placements kind
  if !p.pendingSet then (false, s)
  else (written, (s.set kind (p.finish moved reason movedAt)).save written)

end Cix.Disk
