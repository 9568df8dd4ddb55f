import Cix.Disk.Recorded
import Cix.Json.Parser
import Cix.Json.Writer
import Cix.Pkg.Entries

/-!
# The table of disk roles

`daemon/src/diskrole.c`: the role of each disk that has one, the file the
roles are saved to, and the operations on them.  A write of the file that the
kernel refuses is part of an operation's input.
-/

namespace Cix.Disk

open Cix.Lib Cix.Json

def diskroleMax : Nat := 32

inductive RoleKind where
  | volumeStorage
  | backup
  | rebuildableStorage
  | logStorage
  | swap
  | dataStorage
  deriving DecidableEq, Repr

def roleStr : RoleKind → CStr
  | .volumeStorage => "volume-storage"
  | .rebuildableStorage => "rebuildable-storage"
  | .logStorage => "log-storage"
  | .swap => "swap"
  | .dataStorage => "data-storage"
  | .backup => "backup"

def roleFromStr (s : CStr) : Option RoleKind :=
  if s = "volume-storage" then some .volumeStorage
  else if s = "backup" then some .backup
  else if s = "rebuildable-storage" then
    some .rebuildableStorage
  else if s = "log-storage" then some .logStorage
  else if s = "swap" then some .swap
  else if s = "data-storage" then some .dataStorage
  else none

structure RoleEntry where
  diskName : DiskName
  fsUuid : FsUuid
  role : RoleKind
  fsType : BoundedStr 16
  deriving DecidableEq

abbrev Roles := Slots RoleEntry diskroleMax

inductive RoleError where
  | ok
  | invalidDiskName
  | invalidRole
  | isOsDisk
  | duplicate
  | full
  | notFound
  | persistFailed
  deriving DecidableEq, Repr

def fsTypeOf (text : CStr) : BoundedStr 16 :=
  BoundedStr.store 16 pos_16 text

def roleFind (roles : Roles) (diskName : CStr) : Option (Nat × RoleEntry) :=
  roles.find fun r => r.diskName.str = diskName

def diskroleLookup (roles : Roles) (diskName : CStr) : Option CStr :=
  (roleFind roles diskName).map fun found => roleStr found.2.role

def writeUnlessEmpty (name text : CStr) (w : Writer) : Writer :=
  if text.length ≠ 0 then jwStr text (jwKey name w) else w

/-- The body of the loop of `save_state`. -/
def writeRole (r : RoleEntry) (w : Writer) : Writer :=
  let w := jwObjOpen w
  let w := jwStr r.diskName.str (jwKey "disk_name" w)
  let w := jwStr (roleStr r.role) (jwKey "role" w)
  let w := writeUnlessEmpty "fs_uuid" r.fsUuid.str w
  let w := writeUnlessEmpty "fs_type" r.fsType.str w
  jwObjClose w

def rolesText (roles : Roles) : List UInt8 :=
  (jwArrClose (roles.entries.foldl (fun w r => writeRole r w) (jwArrOpen jwInit))).buf

structure RecordedRole where
  diskName : DiskName
  role : RoleKind
  (fsUuid fsType : CStr)

inductive RoleItem where
  /-- The retired `state-storage`. -/
  | dropped
  | invalid
  /-- With whether its role was renamed. -/
  | recorded (r : RecordedRole) (renamed : Bool)

/-- The checks of an item in the loop of `load_state`. -/
def readRole (item : Value) : RoleItem :=
  let get := fun name => asString (objectGet (some item) name)
  if get "role" = some (CStr.ofString "state-storage") then .dropped
  else
    let renamed := decide
      (get "role" = some (CStr.ofString "container-storage"))
    let role := if renamed then some (CStr.ofString "volume-storage")
      else get "role"
    match get "disk_name", role.bind roleFromStr with
    | some diskName, some kind =>
      if Pkg.simpleNameIsValid diskName 32 then
        .recorded
          { diskName := DiskName.store diskName
            role := kind
            fsUuid := (get "fs_uuid").getD CStr.empty
            fsType := (get "fs_type").getD CStr.empty } renamed
      else .invalid
    | _, _ => .invalid

/-- What the loop of `load_state` has read when it ends: the roles, whether
one was renamed, and whether no item was invalid. -/
structure ReadRoles where
  recorded : List RecordedRole
  (renamed valid : Bool)

def readItems : List Value → ReadRoles
  | [] => ⟨[], false, true⟩
  | item :: rest =>
    match readRole item with
    | .dropped => readItems rest
    | .invalid => ⟨[], false, false⟩
    | .recorded r renamed =>
      let later := readItems rest
      ⟨r :: later.recorded, renamed || later.renamed, later.valid⟩

/-- The file as `load_state` reads it. -/
def readRoles (file : Option (List UInt8)) : ReadRoles :=
  match file with
  | none => ⟨[], false, true⟩
  | some text =>
    match asArray (jsonParse text) with
    | none => ⟨[], false, false⟩
    | some items =>
      if items.length ≤ diskroleMax then readItems items
      else ⟨[], false, false⟩

def RecordedRole.entry (disks : Disks) (r : RecordedRole) : RoleEntry where
  diskName := followed disks r.diskName r.fsUuid
  fsUuid := FsUuid.store r.fsUuid
  role := r.role
  fsType := fsTypeOf r.fsType

def RoleEntry.adopt (disks : Disks) (r : RoleEntry) : RoleEntry :=
  if r.fsUuid.str.length ≠ 0 then r
  else { r with fsUuid := disks.probeFsUuid r.diskName.str }

structure RoleState where
  roles : Roles
  file : Option (List UInt8)

/-- `save_state`: the write replaces the whole file or nothing. -/
def RoleState.save (written : Bool) (s : RoleState) : RoleState :=
  if written then { s with file := some (rolesText s.roles) } else s

def savedRole (written : Bool) : RoleError :=
  if written then .ok else .persistFailed

/-- `diskrole_init`, on a file that can be read.  After an invalid item the
roles before it stay in the table. -/
def diskroleInit (disks : Disks) (written : Bool) (s : RoleState) : Bool × RoleState :=
  let read := readRoles s.file
  let entries := read.recorded.map (RecordedRole.entry disks)
  if read.valid then
    let adopted := entries.map (RoleEntry.adopt disks)
    let loaded : RoleState := { s with roles := Slots.ofEntries _ adopted }
    (true, if adopted ≠ entries ∨ read.renamed then loaded.save written
      else loaded)
  else (false, { s with roles := Slots.ofEntries _ entries })

def diskIsOsLayout (disks : Disks) (diskName : CStr) : Bool :=
  match disks.enumerate.find? fun d => d.name.str = diskName with
  | some d => d.osLayout
  | none => false

def diskroleCreate (disks : Disks) (written : Bool) (diskName : CStr)
    (role : Option CStr) (s : RoleState) : RoleError × RoleState :=
  if !Pkg.simpleNameIsValid diskName 32 then (.invalidDiskName, s)
  else
    match role.bind roleFromStr with
    | none => (.invalidRole, s)
    | some kind =>
      if diskIsOsLayout disks diskName then (.isOsDisk, s)
      else if (roleFind s.roles diskName).isSome then (.duplicate, s)
      else
        match s.roles.firstFree with
        | none => (.full, s)
        | some slot =>
          let entry : RoleEntry :=
            ⟨DiskName.store diskName, FsUuid.store CStr.empty, kind, fsTypeOf CStr.empty⟩
          let filled : RoleState := { s with roles := s.roles.put slot (some entry) }
          if written then (.ok, filled.save written)
          else (.persistFailed,
            { filled with roles := filled.roles.put slot none })

def diskroleDelete (written : Bool) (diskName : CStr) (s : RoleState) : RoleError × RoleState :=
  match roleFind s.roles diskName with
  | none => (.notFound, s)
  | some (slot, _) =>
    (savedRole written,
      { s with roles := s.roles.put slot none }.save written)

def diskroleSetFsType (disks : Disks) (written : Bool) (diskName fsType : CStr)
    (s : RoleState) : RoleError × RoleState :=
  match roleFind s.roles diskName with
  | none => (.notFound, s)
  | some (slot, r) =>
    let formatted : RoleEntry :=
      { r with
        fsType := fsTypeOf fsType
        fsUuid := disks.probeFsUuid r.diskName.str }
    (savedRole written,
      { s with roles := s.roles.put slot (some formatted) }.save written)

end Cix.Disk
