import Cix.Lib.CString
import Mathlib.Data.List.Nodup

/-!
# Disks and the records that name them

`disk.h` and `diskrole_resolve_recorded`: the block devices of this run of the
daemon, each under the name that the kernel gave it, and the name under which
a recorded disk is found again.
-/

namespace Cix.Disk

open Cix.Lib List

/-- `DISKROLE_DISK_NAME_MAX`, and the size of `discovered_disk.name`. -/
abbrev DiskName := BoundedStr 32

/-- A `char[DISK_FS_UUID_MAX]`; empty for a filesystem without a UUID. -/
abbrev FsUuid := BoundedStr 40

def DiskName.store (name : CStr) : DiskName :=
  BoundedStr.store 32 pos_32 name

def FsUuid.store (uuid : CStr) : FsUuid :=
  BoundedStr.store 40 (by decide) uuid

/-- `struct discovered_disk`, as far as roles and placements ask. -/
structure DiscoveredDisk where
  name : DiskName
  /-- What `disk_probe_fs_uuid` reads from the device. -/
  fsUuid : FsUuid
  /-- `diskpart_os_layout_untouchable`. -/
  osLayout : Bool
  deriving DecidableEq

def diskEnumMax : Nat := 256

structure Disks where
  all : List DiscoveredDisk
  distinct : (all.map fun d => d.name).Nodup

/-- `disk_enumerate`, which fills an array of `DISK_ENUM_MAX`. -/
def Disks.enumerate (disks : Disks) : List DiscoveredDisk :=
  disks.all.take diskEnumMax

def Disks.named (disks : Disks) (name : CStr) : Option DiscoveredDisk :=
  disks.all.find? fun d => d.name.str = name

/-- `disk_probe_fs_uuid` of `/dev/<name>`. -/
def Disks.probeFsUuid (disks : Disks) (name : CStr) : FsUuid :=
  match disks.named name with
  | some d => d.fsUuid
  | none => FsUuid.store CStr.empty

def lower (c : UInt8) : UInt8 :=
  if 65 ≤ c ∧ c ≤ 90 then c + 32 else c

/-- `strcasecmp` answers zero. -/
def sameUuid (left right : CStr) : Prop :=
  left.bytes.map lower = right.bytes.map lower

instance (left right : CStr) : Decidable (sameUuid left right) :=
  inferInstanceAs (Decidable (_ = _))

def DiscoveredDisk.Carries (d : DiscoveredDisk) (uuid : CStr) : Prop :=
  d.fsUuid.str.length ≠ 0 ∧ sameUuid d.fsUuid.str uuid

instance (d : DiscoveredDisk) (uuid : CStr) : Decidable (d.Carries uuid) :=
  inferInstanceAs (Decidable (_ ∧ _))

/-- The disk that the loop of `diskrole_resolve_recorded` stops at. -/
def foundOn (disks : Disks) (uuid : CStr) : Option DiscoveredDisk :=
  if uuid.length = 0 then none
  else disks.enumerate.find? fun d => d.Carries uuid

/-- The answers of `diskrole_resolve_recorded`: 0, 1 with the name, -1. -/
inductive Resolved where
  | asRecorded
  | moved (name : DiskName)
  | absent
  deriving DecidableEq

def resolveRecorded (disks : Disks) (name uuid : CStr) : Resolved :=
  if uuid.length = 0 then .asRecorded
  else
    match foundOn disks uuid with
    | none => .absent
    | some d => if d.name.str = name then .asRecorded else .moved d.name

def followed (disks : Disks) (name : DiskName) (uuid : CStr) : DiskName :=
  match resolveRecorded disks name.str uuid with
  | .moved other => other
  | .asRecorded => name
  | .absent => name

/-- A record names a disk that carries its filesystem if there is one, and never a
disk that carries another one. -/
structure Follows (disks : Disks) (name : DiskName) (uuid : FsUuid) :
    Prop where
  present : uuid.str.length ≠ 0 → (∃ d ∈ disks.all, d.Carries uuid.str) →
      ∃ d ∈ disks.all, d.name = name ∧ d.Carries uuid.str
  never : uuid.str.length ≠ 0 → ∀ d ∈ disks.all, d.name = name →
    d.fsUuid.str.length ≠ 0 → d.Carries uuid.str

def Misplaced (disks : Disks) (name : DiskName) (recorded stored : CStr) :
    Prop :=
  recorded.length ≠ 0 ∧ foundOn disks recorded = none ∧
    ((∃ d ∈ disks.all, d.name = name ∧ d.fsUuid.str.length ≠ 0 ∧ ¬ d.Carries stored) ∨
      (∃ d ∈ disks.all, d.Carries stored) ∧ ∀ d ∈ disks.all, d.name = name → ¬ d.Carries stored)

instance (disks : Disks) (name : DiskName) (recorded stored : CStr) :
    Decidable (Misplaced disks name recorded stored) :=
  inferInstanceAs (Decidable (_ ∧ _ ∧ (_ ∨ _ ∧ _)))

variable {d : DiscoveredDisk} {disks : Disks}

theorem Disks.eq_of_name {d' : DiscoveredDisk} (mem : d ∈ disks.all)
    (mem' : d' ∈ disks.all) (same : d.name = d'.name) : d = d' :=
  inj_on_of_nodup_map disks.distinct mem mem' same

theorem Disks.named_eq_some {name : CStr} :
    disks.named name = some d ↔ d ∈ disks.all ∧ d.name.str = name := by
  constructor
  · intro found
    exact ⟨mem_of_find?_eq_some found, by
      simpa using find?_some found⟩
  · rintro ⟨mem, isName⟩
    cases found : disks.named name with
    | none =>
      have missing := find?_eq_none.mp found d mem
      simp [isName] at missing
    | some other =>
      have isOther := find?_some found
      simp only [decide_eq_true_eq] at isOther
      rw [disks.eq_of_name mem (mem_of_find?_eq_some found)
        (BoundedStr.ext (isName.trans isOther.symm))]

theorem Disks.named_of_probe {disks : Disks} {name : CStr}
    (read : (disks.probeFsUuid name).str.length ≠ 0) :
    ∃ d ∈ disks.all, d.name.str = name ∧ disks.probeFsUuid name = d.fsUuid := by
  unfold Disks.probeFsUuid at read ⊢
  cases found : disks.named name with
  | none =>
    rw [found] at read
    exact absurd rfl read
  | some d =>
    obtain ⟨mem, isName⟩ := Disks.named_eq_some.mp found
    exact ⟨d, mem, isName, rfl⟩

theorem Disks.probe_of_mem (mem : d ∈ disks.all) : disks.probeFsUuid d.name.str = d.fsUuid := by
  rw [Disks.probeFsUuid, Disks.named_eq_some.mpr ⟨mem, rfl⟩]

theorem foundOn_eq_some {uuid : CStr} (found : foundOn disks uuid = some d) :
    uuid.length ≠ 0 ∧ d ∈ disks.all ∧ d.Carries uuid := by
  unfold foundOn at found
  split_ifs at found with unset
  have mem := mem_of_find?_eq_some found
  exact ⟨unset, mem_of_mem_take mem, by
    simpa using find?_some found⟩

theorem store_of_carries {uuid : CStr} (carries : d.Carries uuid) :
    (FsUuid.store uuid).str = uuid := by
  have sameLength := congrArg List.length carries.2
  simp only [length_map] at sameLength
  apply CStr.truncate_of_fits
  rw [CStr.length, ← sameLength]
  exact d.fsUuid.fits

theorem store_nonempty {uuid : CStr} : (FsUuid.store uuid).str.length ≠ 0 ↔ uuid.length ≠ 0 := by
  have kept : (FsUuid.store uuid).str.length = min 39 uuid.length := by
    simp [FsUuid.store, BoundedStr.store, CStr.truncate, CStr.length]
  rw [kept]
  omega

theorem followed_eq (disks : Disks) (name : DiskName) (uuid : CStr) : followed disks name uuid =
      match foundOn disks uuid with
      | some d => d.name
      | none => name := by
  unfold followed resolveRecorded
  by_cases unset : uuid.length = 0
  · simp [unset, foundOn]
  · rw [if_neg unset]
    cases found : foundOn disks uuid with
    | none => rfl
    | some d =>
      by_cases same : d.name.str = name.str
      · simp only [same, if_true]
        exact BoundedStr.ext same.symm
      · simp only [same, if_false]

theorem follows_of_empty {name : DiskName} {uuid : FsUuid}
    (unset : uuid.str.length = 0) : Follows disks name uuid :=
  ⟨fun set => absurd unset set, fun set => absurd unset set⟩

theorem follows_of_carries {name : DiskName} {uuid : FsUuid}
    (mem : d ∈ disks.all) (isName : d.name = name)
    (carries : d.Carries uuid.str) : Follows disks name uuid where
  present _ _ := ⟨d, mem, isName, carries⟩
  never _ d' mem' isName' _ := by
    rw [disks.eq_of_name mem' mem (isName'.trans isName.symm)]
    exact carries

theorem follows_probe (disks : Disks) (name : CStr) :
    Follows disks (DiskName.store name) (disks.probeFsUuid name) := by
  by_cases read : (disks.probeFsUuid name).str.length = 0
  · exact follows_of_empty read
  · obtain ⟨d, mem, isName, same⟩ := Disks.named_of_probe read
    rw [same] at read ⊢
    apply follows_of_carries mem _ ⟨read, rfl⟩
    rw [← isName, DiskName.store, BoundedStr.store_str]

theorem follows_followed_iff {disks : Disks} {name : DiskName} {uuid : CStr} :
    Follows disks (followed disks name uuid) (FsUuid.store uuid) ↔
      ¬ Misplaced disks name uuid (FsUuid.store uuid).str := by
  rw [followed_eq]
  cases found : foundOn disks uuid with
  | some d =>
    obtain ⟨_, mem, carries⟩ := foundOn_eq_some found
    constructor
    · rintro _ ⟨_, missing, _⟩
      rw [found] at missing
      cases missing
    · intro _
      apply follows_of_carries mem rfl
      rwa [store_of_carries carries]
  | none =>
    by_cases unset : uuid.length = 0
    · constructor
      · rintro _ ⟨set, _⟩
        exact set unset
      · intro _
        apply follows_of_empty
        by_contra set
        exact store_nonempty.mp set unset
    · have set := store_nonempty.mpr unset
      constructor
      · rintro ⟨present, never⟩ ⟨_, _, ⟨d, mem, isName, read, other⟩ | ⟨carried, nowhere⟩⟩
        · exact other (never set d mem isName read)
        · obtain ⟨d, mem, isName, carries⟩ := present set carried
          exact nowhere d mem isName carries
      · intro placed
        have kept := fun either => placed ⟨unset, found, either⟩
        refine ⟨fun _ carried => ?_, fun _ d mem isName read => ?_⟩
        · by_contra nowhere
          push Not at nowhere
          exact kept (Or.inr ⟨carried, nowhere⟩)
        · by_contra other
          exact kept (Or.inl ⟨d, mem, isName, read, other⟩)

end Cix.Disk
