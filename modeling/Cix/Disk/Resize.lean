import Cix.Pkg.Entries
import Mathlib.Data.List.DropRight

/-!
# Growing a partition

`diskpart_resize` of `daemon/src/diskpart.c` makes a partition larger, never
smaller.  `diskpart_resize_target` computes the new size in bytes from the
request in MiB; what `sfdisk` is told is that size in whole MiB.
-/

namespace Cix.Disk

open Cix.Lib Cix.Pkg

/-- The errors of `enum diskpart_error` up to the call of `sfdisk`. -/
inductive DiskpartError where
  | invalidDiskName
  | invalidPartName
  | notFound
  | notAPartition
  | wrongParent
  | protectedPartition
  | fsUnsupported
  | mounted
  | sfdiskFailed
  | shrinkRefused
  | noRoomAfter
  deriving DecidableEq

/-- The variable `want` of `diskpart_resize_target`. -/
def wanted (currentBytes roomBytes sizeMib : UInt64) : UInt64 :=
  if sizeMib = 0 then currentBytes + roomBytes else sizeMib * 1024 * 1024

def diskpartResizeTarget (currentBytes roomBytes sizeMib : UInt64) :
    Except DiskpartError UInt64 :=
  let want := wanted currentBytes roomBytes sizeMib
  if want < currentBytes then .error .shrinkRefused
  else if want > currentBytes + roomBytes then .error .noRoomAfter
  else .ok want

/-- What `diskpart_resize` reads of a `struct discovered_disk`. -/
structure DiscoveredPart where
  name : CStr
  isPartition : Bool
  parentDisk : CStr
  isOsDisk : Bool
  fsType : CStr
  mounted : Bool
  (sizeBytes startSector : UInt64)

/-- `struct diskpart_free_space`; an extent is its first sector and how many
there are. -/
structure FreeSpace where
  sectorBytes : UInt64
  extents : List (UInt64 × UInt64)

def isDigit (c : UInt8) : Bool :=
  48 ≤ c && c ≤ 57

def diskpartPartitionNumber (name : CStr) : Nat :=
  (name.bytes.rtakeWhile isDigit).foldl (fun n c => n * 10 + (c.toNat - 48)) 0

/-- `diskpart_partition_protected`, with `DISKPART_OS_PROTECTED_PARTITIONS`. -/
def diskpartPartitionProtected (name : CStr) (isOsDisk : Bool) : Bool :=
  isOsDisk && (diskpartPartitionNumber name = 0 || diskpartPartitionNumber name ≤ 4)

def roomAfter (part : DiscoveredPart) (space : FreeSpace) : UInt64 :=
  let endSector :=
    if 0 < space.sectorBytes then
      part.startSector + part.sizeBytes / space.sectorBytes
    else 0
  match space.extents.find? fun extent => extent.1 = endSector with
  | none => 0
  | some extent => extent.2 * space.sectorBytes

/-- The number in the script for `sfdisk`, if there is one. -/
def scriptMib (currentBytes wantBytes : UInt64) : Option UInt64 :=
  if currentBytes < wantBytes then some (wantBytes / (1024 * 1024)) else none

def partitionSuffix (diskName partitionName : CStr) : List UInt8 :=
  match partitionName.bytes.drop diskName.length with
  | 112 :: c :: rest => if isDigit c then c :: rest else 112 :: c :: rest
  | suffix => suffix

/-- `diskpart_resize` up to its call of `sfdisk`, with the number and the size in
that call. -/
def diskpartResize (findDisk : CStr → Option DiscoveredPart)
    (freeSpace : CStr → Option FreeSpace) (diskName partitionName : CStr)
    (sizeMib : UInt64) :
    Except DiskpartError (List UInt8 × Option UInt64) :=
  if !simpleNameIsValid diskName 32 then .error .invalidDiskName
  else if !simpleNameIsValid partitionName 32 then .error .invalidPartName
  else
    match findDisk partitionName with
    | none => .error .notFound
    | some part =>
      if !part.isPartition then .error .notAPartition
      else if part.parentDisk ≠ diskName then .error .wrongParent
      else if diskpartPartitionProtected part.name part.isOsDisk then
        .error .protectedPartition
      else if part.fsType.length ≠ 0 ∧ part.fsType ≠ "ext4" ∧
          part.fsType ≠ "btrfs" then .error .fsUnsupported
      else if part.mounted ∧ part.fsType ≠ "btrfs" then
        .error .mounted
      else
        match findDisk diskName with
        | none => .error .notFound
        | some parent =>
          match freeSpace parent.name with
          | none => .error .sfdiskFailed
          | some space =>
            match diskpartResizeTarget part.sizeBytes (roomAfter part space)
                sizeMib with
            | .error e => .error e
            | .ok want =>
              match partitionSuffix diskName partitionName with
              | [] => .error .wrongParent
              | c :: rest =>
                if !isDigit c then .error .wrongParent
                else .ok (c :: rest, scriptMib part.sizeBytes want)

def requested (current room sizeMib : Nat) : Nat :=
  if sizeMib = 0 then current + room else sizeMib * 2 ^ 20

/-- A request is accepted if and only if it asks for what the partition has or for
more that there is room for, and `sfdisk` is told no less. -/
def GrowsOnly (currentBytes roomBytes sizeMib : UInt64) : Prop :=
  ((∃ want, diskpartResizeTarget currentBytes roomBytes sizeMib = .ok want) ↔
    currentBytes.toNat ≤ requested currentBytes.toNat roomBytes.toNat sizeMib.toNat ∧
      requested currentBytes.toNat roomBytes.toNat sizeMib.toNat ≤
        currentBytes.toNat + roomBytes.toNat) ∧
  ∀ want mib, diskpartResizeTarget currentBytes roomBytes sizeMib = .ok want →
    scriptMib currentBytes want = some mib →
    currentBytes.toNat ≤ mib.toNat * 2 ^ 20

def Representable (current room sizeMib : Nat) : Prop :=
  if current + room < 2 ^ 64 then
    (sizeMib = 0 → room = 0 ∨ current ≤ (current + room) / 2 ^ 20 * 2 ^ 20) ∧
    (2 ^ 44 ≤ sizeMib → ¬ (current ≤ sizeMib % 2 ^ 44 * 2 ^ 20 ∧
      sizeMib % 2 ^ 44 * 2 ^ 20 ≤ current + room))
  else
    sizeMib ≠ 0 ∧ ¬ (current ≤ sizeMib * 2 ^ 20 ∧ sizeMib * 2 ^ 20 ≤ current + room)

variable {currentBytes roomBytes sizeMib : UInt64}

theorem diskpartResizeTarget_eq_ok {want : UInt64} :
    diskpartResizeTarget currentBytes roomBytes sizeMib = .ok want ↔
      want = wanted currentBytes roomBytes sizeMib ∧ currentBytes.toNat ≤ want.toNat ∧
        want.toNat ≤ (currentBytes.toNat + roomBytes.toNat) % 2 ^ 64 := by
  rw [diskpartResizeTarget, ← UInt64.toNat_add]
  by_cases shrinks : wanted currentBytes roomBytes sizeMib < currentBytes
  · rw [if_pos shrinks]
    rw [UInt64.lt_iff_toNat_lt] at shrinks
    constructor
    · intro isOk
      cases isOk
    · rintro ⟨rfl, enough, _⟩
      omega
  · rw [if_neg shrinks]
    rw [UInt64.lt_iff_toNat_lt] at shrinks
    by_cases noRoom : wanted currentBytes roomBytes sizeMib > currentBytes + roomBytes
    · rw [if_pos noRoom]
      rw [gt_iff_lt, UInt64.lt_iff_toNat_lt] at noRoom
      constructor
      · intro isOk
        cases isOk
      · rintro ⟨rfl, _, room⟩
        omega
    · rw [if_neg noRoom]
      rw [gt_iff_lt, UInt64.lt_iff_toNat_lt] at noRoom
      constructor
      · intro isOk
        obtain rfl := Except.ok.inj isOk
        exact ⟨rfl, by omega, by omega⟩
      · rintro ⟨rfl, _, _⟩
        rfl

theorem toNat_wanted : (wanted currentBytes roomBytes sizeMib).toNat =
      if sizeMib.toNat = 0 then
        (currentBytes.toNat + roomBytes.toNat) % 2 ^ 64
      else sizeMib.toNat * 2 ^ 20 % 2 ^ 64 := by
  have isZero : sizeMib = 0 ↔ sizeMib.toNat = 0 := by
    rw [← UInt64.toNat_inj]
    rfl
  rw [wanted]
  by_cases zero : sizeMib.toNat = 0
  · rw [if_pos (isZero.mpr zero), if_pos zero, UInt64.toNat_add]
  · rw [if_neg (mt isZero.mp zero), if_neg zero, UInt64.toNat_mul, UInt64.toNat_mul]
    change sizeMib.toNat * 1024 % 2 ^ 64 * 1024 % 2 ^ 64 = _
    omega

theorem toNat_mebibytes (want : UInt64) : (want / (1024 * 1024)).toNat = want.toNat / 2 ^ 20 := by
  rw [UInt64.toNat_div]
  rfl

theorem growsOnly_nat : GrowsOnly currentBytes roomBytes sizeMib ↔
      (let want := (wanted currentBytes roomBytes sizeMib).toNat
      let accepted := currentBytes.toNat ≤ want ∧
        want ≤ (currentBytes.toNat + roomBytes.toNat) % 2 ^ 64
      (accepted ↔ currentBytes.toNat ≤ requested currentBytes.toNat roomBytes.toNat sizeMib.toNat ∧
        requested currentBytes.toNat roomBytes.toNat sizeMib.toNat ≤
          currentBytes.toNat + roomBytes.toNat) ∧
      (accepted → currentBytes.toNat < want → currentBytes.toNat ≤ want / 2 ^ 20 * 2 ^ 20)) := by
  rw [GrowsOnly]
  simp only [diskpartResizeTarget_eq_ok, exists_eq_left, scriptMib]
  refine and_congr Iff.rfl ⟨?_, ?_⟩
  · intro all accepted grows
    rw [← toNat_mebibytes]
    refine all _ _ ⟨rfl, accepted⟩ ?_
    rw [if_pos (UInt64.lt_iff_toNat_lt.mpr grows)]
  · rintro all want mib ⟨rfl, accepted⟩ told
    split at told
    · rename_i grows
      rw [← Option.some.inj told, toNat_mebibytes]
      exact all accepted (UInt64.lt_iff_toNat_lt.mp grows)
    · cases told

theorem growsOnly_iff (currentBytes roomBytes sizeMib : UInt64) :
    GrowsOnly currentBytes roomBytes sizeMib ↔
      Representable currentBytes.toNat roomBytes.toNat sizeMib.toNat := by
  have boundC := currentBytes.toNat_lt
  have boundR := roomBytes.toNat_lt
  have boundS := sizeMib.toNat_lt
  rw [growsOnly_nat, toNat_wanted, Representable]
  simp only [requested]
  generalize currentBytes.toNat = c at *
  generalize roomBytes.toNat = r at *
  generalize sizeMib.toNat = s at *
  by_cases fits : c + r < 2 ^ 64
  · rw [if_pos fits]
    by_cases zero : s = 0
    · simp only [if_pos zero]
      omega
    · simp only [if_neg zero]
      omega
  · rw [if_neg fits]
    by_cases zero : s = 0
    · simp only [if_pos zero]
      omega
    · simp only [if_neg zero]
      omega

theorem diskpartResize_ok {findDisk : CStr → Option DiscoveredPart}
    {freeSpace : CStr → Option FreeSpace} {diskName partitionName : CStr}
    {number : List UInt8} {script : Option UInt64}
    (isOk : diskpartResize findDisk freeSpace diskName partitionName sizeMib =
      .ok (number, script)) :
    ∃ part parent space want, findDisk partitionName = some part ∧
      findDisk diskName = some parent ∧ freeSpace parent.name = some space ∧
      diskpartResizeTarget part.sizeBytes (roomAfter part space) sizeMib =
        .ok want ∧ script = scriptMib part.sizeBytes want := by
  unfold diskpartResize at isOk
  split at isOk
  · cases isOk
  split at isOk
  · cases isOk
  split at isOk
  · cases isOk
  rename_i part found
  iterate 5
    split at isOk
    · cases isOk
  split at isOk
  · cases isOk
  rename_i parent isParent
  split at isOk
  · cases isOk
  rename_i space isSpace
  split at isOk
  · cases isOk
  rename_i want target
  split at isOk
  · cases isOk
  split at isOk
  · cases isOk
  exact ⟨part, parent, space, want, found, isParent, isSpace, target, (Prod.mk.inj (Except.ok.inj isOk)).2.symm⟩

/-- A resize grows only, exactly within the room, if and only if the sizes are
representable; and then the call of `sfdisk` does not make the partition
smaller. -/
theorem resize_grows_only (sizeMib : UInt64) : (∀ currentBytes roomBytes : UInt64,
      GrowsOnly currentBytes roomBytes sizeMib ↔
        Representable currentBytes.toNat roomBytes.toNat sizeMib.toNat) ∧
    ∀ (findDisk : CStr → Option DiscoveredPart)
      (freeSpace : CStr → Option FreeSpace) (diskName partitionName : CStr)
      (number : List UInt8) (mib : UInt64),
      diskpartResize findDisk freeSpace diskName partitionName sizeMib = .ok (number, some mib) →
      ∃ part parent space, findDisk partitionName = some part ∧
        findDisk diskName = some parent ∧ freeSpace parent.name = some space ∧
        (Representable part.sizeBytes.toNat (roomAfter part space).toNat
          sizeMib.toNat → part.sizeBytes.toNat ≤ mib.toNat * 2 ^ 20) := by
  refine ⟨fun _ _ => growsOnly_iff _ _ _, ?_⟩
  intro findDisk freeSpace diskName partitionName number mib isOk
  obtain ⟨part, parent, space, want, found, isParent, isSpace, target, told⟩ :=
    diskpartResize_ok isOk
  refine ⟨part, parent, space, found, isParent, isSpace, fun representable => ?_⟩
  exact ((growsOnly_iff _ _ _).mpr representable).2 want mib target told.symm

/-- All of the room behind a partition of one and a half MiB leaves one MiB; and
a request of more than 2^64 bytes comes out as one MiB. -/
theorem partition_shrinks : (diskpartResizeTarget 1572864 262144 0 = .ok 1835008 ∧
      scriptMib 1572864 1835008 = some 1 ∧
      ¬ GrowsOnly 1572864 262144 0) ∧
    diskpartResizeTarget 1048576 0 17592186044417 = .ok 1048576 ∧
      ¬ GrowsOnly 1048576 0 17592186044417 := by
  refine ⟨⟨by decide, by decide, ?_⟩, by decide, ?_⟩
  · rw [growsOnly_iff]
    simp [Representable]
  · rw [growsOnly_iff]
    simp [Representable]

end Cix.Disk
