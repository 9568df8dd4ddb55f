import Cix.Disk.Placement
import Cix.Lib.Machine
import Mathlib.Tactic.MkIffOfInductiveProp

/-!
# Roles and placements follow the filesystem

A run of the daemon works on one set of disks; the next one may find every
disk under another name.  In every run in which no recorded name has gone to a
disk with another filesystem and no two roles come to one disk, the records
follow the filesystems.
-/

namespace Cix.Disk

open Cix.Lib List

/-! ## Runs -/

structure State where
  disks : Disks
  role : RoleState
  placement : PlacementState

def Disks.format (disks : Disks) (name : CStr) (uuid : FsUuid) : Disks where
  all := disks.all.map fun d =>
    if d.name.str = name then { d with fsUuid := uuid } else d
  distinct := by
    rw [map_map]
    have names : ((fun d : DiscoveredDisk => d.name) ∘ fun d =>
        if d.name.str = name then { d with fsUuid := uuid } else d) =
        fun d => d.name := by
      funext d
      simp only [Function.comp]
      split <;> rfl
    rw [names]
    exact disks.distinct

inductive Input where
  /-- The next run of the daemon, over other disks. -/
  | boot (disks : Disks) (rolesWritten placementsWritten : Bool)
  /-- The second `storageplacement_init` of a run. -/
  | placementInit (written : Bool)
  | create (diskName : CStr) (role : Option CStr) (written : Bool)
  | delete (diskName : CStr) (written : Bool)
  | setFsType (diskName fsType : CStr) (written : Bool)
  /-- `mkfs` and the `diskrole_set_fs_type` of `diskformat_completed`. -/
  | formatted (diskName : CStr) (uuid : FsUuid) (fsType : CStr)
      (written : Bool)
  | place (kind : StorageKind) (diskName : Option CStr) (written : Bool)
  | setPending (kind : StorageKind) (diskName : Option CStr) (written : Bool)
  | clearPending (kind : StorageKind) (written : Bool)
  | finishMove (kind : StorageKind) (moved : Bool) (reason : CStr)
      (movedAt : Int64) (written : Bool)

def step (s : State) : Input → State
  | .boot disks rolesWritten placementsWritten =>
    { disks := disks
      role := (diskroleInit disks rolesWritten s.role).2
      placement :=
        (storageplacementInit disks placementsWritten s.placement).2 }
  | .placementInit written =>
    { s with
      placement := (storageplacementInit s.disks written s.placement).2 }
  | .create diskName role written =>
    { s with role := (diskroleCreate s.disks written diskName role s.role).2 }
  | .delete diskName written =>
    { s with role := (diskroleDelete written diskName s.role).2 }
  | .setFsType diskName fsType written =>
    { s with
      role := (diskroleSetFsType s.disks written diskName fsType s.role).2 }
  | .formatted diskName uuid fsType written =>
    let disks := s.disks.format diskName uuid
    { s with
      disks := disks
      role := (diskroleSetFsType disks written diskName fsType s.role).2 }
  | .place kind diskName written =>
    { s with
      placement :=
        (storageplacementSet s.disks written kind diskName s.placement).2 }
  | .setPending kind diskName written =>
    { s with
      placement := (storageplacementSetPending s.disks written kind diskName s.placement).2 }
  | .clearPending kind written =>
    { s with
      placement :=
        (storageplacementClearPending written kind s.placement).2 }
  | .finishMove kind moved reason movedAt written =>
    { s with
      placement := (storageplacementFinishMove written kind moved reason movedAt s.placement).2 }

/-! ## The laws -/

def DiskRef.Follows (disks : Disks) (ref : DiskRef) : Prop :=
  ref.disk.str.length ≠ 0 → Disk.Follows disks ref.disk ref.uuid

structure RolesFollow (disks : Disks) (roles : Roles) : Prop where
  apart : ∀ i j r r', roles.get i = some r → roles.get j = some r' →
    r.diskName = r'.diskName → i = j
  follows : ∀ i r, roles.get i = some r → Follows disks r.diskName r.fsUuid

@[mk_iff]
structure PlacementsFollow (disks : Disks) (placements : Placements) :
    Prop where
  active : ∀ kind, (placements kind).active.Follows disks
  pending : ∀ kind, (placements kind).pending.Follows disks

structure Lawful (s : State) : Prop where
  roles : RolesFollow s.disks s.role.roles
  placements : PlacementsFollow s.disks s.placement.placements

structure OwnOnly (s : State) : Prop where
  lookup : ∀ d ∈ s.disks.all, d.fsUuid.str.length ≠ 0 →
    ∀ role, diskroleLookup s.role.roles d.name.str = some role →
      ∃ i r, s.role.roles.get i = some r ∧ r.diskName = d.name ∧ roleStr r.role = role ∧
          (r.fsUuid.str.length = 0 ∨ d.Carries r.fsUuid.str)
  get : ∀ d ∈ s.disks.all, d.fsUuid.str.length ≠ 0 →
    ∀ kind, storageplacementGet s.placement.placements kind = some d.name →
      ∀ uuid, storageplacementGetUuid s.placement.placements kind = some uuid → d.Carries uuid.str
  pending : ∀ d ∈ s.disks.all, d.fsUuid.str.length ≠ 0 →
    ∀ kind, storageplacementGetPending s.placement.placements kind = some (some d.name) →
        ∀ uuid, storageplacementGetPendingUuid s.placement.placements kind =
          some uuid → d.Carries uuid.str

structure Adopted (s : State) : Prop where
  roles : ∀ d ∈ s.disks.all, d.fsUuid.str.length ≠ 0 →
    ∀ i r, s.role.roles.get i = some r → r.diskName = d.name → r.fsUuid.str.length ≠ 0
  placements : ∀ d ∈ s.disks.all, d.fsUuid.str.length ≠ 0 →
    ∀ kind, storageplacementGet s.placement.placements kind = some d.name →
      storageplacementGetUuid s.placement.placements kind ≠ none

/-! ## The condition -/

def Clash (disks : Disks) (r r' : RecordedRole) : Prop :=
  match foundOn disks r.fsUuid, foundOn disks r'.fsUuid with
  | some d, some d' => d = d'
  | some d, none => d.name = r'.diskName
  | none, some d' => r.diskName = d'.name
  | none, none => r.diskName = r'.diskName

instance (disks : Disks) (r r' : RecordedRole) : Decidable (Clash disks r r') := by
  unfold Clash
  split <;> infer_instance

/-- The recorded roles at the start of a run: none has its name gone to another
disk, and no two of them clash. -/
@[mk_iff]
structure RolesPlaced (disks : Disks) (file : Option (List UInt8)) :
    Prop where
  apart : (readRoles file).recorded.Pairwise fun r r' => ¬ Clash disks r r'
  placed : ∀ r ∈ (readRoles file).recorded,
    ¬ Misplaced disks r.diskName r.fsUuid (FsUuid.store r.fsUuid).str

def DiskRef.Placed (disks : Disks) (valid : Bool) (ref : DiskRef) : Prop :=
  ref.disk.str.length ≠ 0 →
    if valid then ¬ Misplaced disks ref.disk ref.uuid.str ref.uuid.str
    else Disk.Follows disks ref.disk ref.uuid

@[mk_iff]
structure PlacementsPlaced (disks : Disks) (file : Option (List UInt8)) :
    Prop where
  active : ∀ kind, ((readPlacements file).2 kind).active.Placed disks (readPlacements file).1
  pending : ∀ kind, ((readPlacements file).2 kind).pending.Placed disks (readPlacements file).1

def Unformatted (disks : Disks) (name : CStr) (uuid : FsUuid)
    (disk : DiskName) (recorded : FsUuid) : Prop :=
  recorded.str.length ≠ 0 →
    if disk.str = name then
      sameUuid uuid.str recorded.str ∨ (uuid.str.length = 0 ∧ ∀ d ∈ disks.all, d.name.str ≠ name →
          ¬ d.Carries recorded.str)
    else
      sameUuid uuid.str recorded.str → ∃ d ∈ disks.all, d.name = disk ∧ d.Carries recorded.str

def Safe (s : State) : Input → Prop
  | .boot disks _ _ =>
    RolesPlaced disks s.role.file ∧ PlacementsPlaced disks s.placement.file
  | .placementInit _ => PlacementsPlaced s.disks s.placement.file
  | .formatted diskName uuid _ _ =>
    (∀ i r, s.role.roles.get i = some r → r.diskName.str ≠ diskName →
      Unformatted s.disks diskName uuid r.diskName r.fsUuid) ∧
    ∀ kind,
      let p := s.placement.placements kind
      Unformatted s.disks diskName uuid p.active.disk p.active.uuid ∧
        Unformatted s.disks diskName uuid p.pending.disk p.pending.uuid
  | _ => True

/-! ## Roles -/

variable {disks : Disks}

theorem clash_iff {disks : Disks} {r r' : RecordedRole} : Clash disks r r' ↔
      (r.entry disks).diskName = (r'.entry disks).diskName := by
  simp only [Clash, RecordedRole.entry, followed_eq]
  cases found : foundOn disks r.fsUuid with
  | none =>
    cases foundOn disks r'.fsUuid with
    | none => exact Iff.rfl
    | some d' => exact Iff.rfl
  | some d =>
    cases found' : foundOn disks r'.fsUuid with
    | none => exact Iff.rfl
    | some d' =>
      constructor
      · rintro rfl
        rfl
      · exact disks.eq_of_name (foundOn_eq_some found).2.1 (foundOn_eq_some found').2.1

theorem rolesFollow_ofEntries {entries : List RoleEntry} (fits : entries.length ≤ diskroleMax) :
    RolesFollow disks (Slots.ofEntries diskroleMax entries) ↔
      (entries.Pairwise fun r r' => r.diskName ≠ r'.diskName) ∧
        ∀ r ∈ entries, Follows disks r.diskName r.fsUuid := by
  constructor
  · rintro ⟨apart, follow⟩
    constructor
    · rw [← Slots.entries_ofEntries fits]
      apply Slots.entries_pairwise
      intro i j r r' less held held' same
      exact absurd (apart i j r r' held held' same) (Nat.ne_of_lt less)
    · intro r mem
      rw [← Slots.entries_ofEntries fits] at mem
      obtain ⟨i, held⟩ := Slots.mem_entries_iff_get.mp mem
      exact follow i r held
  · rintro ⟨apart, follow⟩
    constructor
    · intro i j r r' held held' same
      rcases Nat.lt_trichotomy i j with less | equal | greater
      · exact absurd same (Slots.pairwise_ofEntries apart less held held')
      · exact equal
      · exact absurd same.symm (Slots.pairwise_ofEntries apart greater held' held)
    · intro i r held
      exact follow r (Slots.mem_of_mem_ofEntries (Slots.mem_entries_iff_get.mpr ⟨i, held⟩))

@[simp]
theorem adopt_diskName (disks : Disks) (r : RoleEntry) : (r.adopt disks).diskName = r.diskName := by
  unfold RoleEntry.adopt
  split <;> rfl

theorem follows_adopt_iff {r : RoleEntry} :
    Follows disks (r.adopt disks).diskName (r.adopt disks).fsUuid ↔
      Follows disks r.diskName r.fsUuid := by
  unfold RoleEntry.adopt
  split
  · exact Iff.rfl
  next unset =>
    have read := follows_probe disks r.diskName.str
    rw [DiskName.store, BoundedStr.store_str] at read
    exact iff_of_true read (follows_of_empty (not_not.mp unset))

theorem length_readItems (items : List Json.Value) :
    (readItems items).recorded.length ≤ items.length := by
  induction items with
  | nil => exact Nat.le_refl 0
  | cons item rest ih =>
    unfold readItems
    split
    · exact Nat.le_succ_of_le ih
    · exact Nat.zero_le _
    · exact Nat.succ_le_succ ih

theorem length_readRoles (file : Option (List UInt8)) :
    (readRoles file).recorded.length ≤ diskroleMax := by
  unfold readRoles
  split
  · exact Nat.zero_le _
  · split
    · exact Nat.zero_le _
    next items _ =>
      split
      next fits => exact Nat.le_trans (length_readItems items) fits
      next => exact Nat.zero_le _

theorem entries_follow_iff {recorded : List RecordedRole} :
    ((recorded.map (RecordedRole.entry disks)).Pairwise (fun r r' => r.diskName ≠ r'.diskName) ∧
      ∀ r ∈ recorded.map (RecordedRole.entry disks), Follows disks r.diskName r.fsUuid) ↔
    (recorded.Pairwise fun r r' => ¬ Clash disks r r') ∧ ∀ r ∈ recorded,
        ¬ Misplaced disks r.diskName r.fsUuid (FsUuid.store r.fsUuid).str := by
  rw [pairwise_map]
  simp only [clash_iff, ← follows_followed_iff, forall_mem_map]
  exact Iff.rfl

theorem roles_init (disks : Disks) (written : Bool) (s : RoleState) :
    (diskroleInit disks written s).2.roles = Slots.ofEntries diskroleMax
      (if (readRoles s.file).valid then
        ((readRoles s.file).recorded.map (RecordedRole.entry disks)).map (RoleEntry.adopt disks)
      else (readRoles s.file).recorded.map (RecordedRole.entry disks)) := by
  unfold diskroleInit
  simp only
  split
  · split
    · unfold RoleState.save
      split <;> rfl
    · rfl
  · rfl

variable {s : RoleState}

theorem rolesFollow_init_iff {written : Bool} :
    RolesFollow disks (diskroleInit disks written s).2.roles ↔ RolesPlaced disks s.file := by
  have fits := length_readRoles s.file
  rw [roles_init, rolesPlaced_iff, ← entries_follow_iff]
  split
  · rw [rolesFollow_ofEntries (by simpa using fits), pairwise_map]
    simp only [adopt_diskName]
    apply and_congr_right
    intro _
    simp only [forall_mem_map, follows_adopt_iff]
  · rw [rolesFollow_ofEntries (by simpa using fits)]

@[simp]
theorem roles_save (written : Bool) (s : RoleState) : (s.save written).roles = s.roles := by
  unfold RoleState.save
  split <;> rfl

theorem roleFind_eq_some {roles : Roles} {name : CStr} {i : Nat}
    {r : RoleEntry} (found : roleFind roles name = some (i, r)) :
    roles.get i = some r ∧ r.diskName.str = name := by
  obtain ⟨held, isName⟩ := Slots.get_of_find found
  exact ⟨held, by simpa using isName⟩

theorem RolesFollow.clear {roles : Roles} (follow : RolesFollow disks roles) (slot : Nat) :
    RolesFollow disks (roles.put slot none) where
  apart i j r r' held held' := by
    rcases Slots.get_of_get_put held with ⟨_, impossible⟩ | ⟨_, before⟩
    · cases impossible
    rcases Slots.get_of_get_put held' with ⟨_, impossible⟩ | ⟨_, before'⟩
    · cases impossible
    exact follow.apart i j r r' before before'
  follows i r held := by
    rcases Slots.get_of_get_put held with ⟨_, impossible⟩ | ⟨_, before⟩
    · cases impossible
    exact follow.follows i r before

theorem RolesFollow.put {roles : Roles} {slot : Nat} {entry : RoleEntry}
    (follow : RolesFollow disks roles)
    (unused : ∀ i r, i ≠ slot → roles.get i = some r → r.diskName ≠ entry.diskName)
    (right : Follows disks entry.diskName entry.fsUuid) :
    RolesFollow disks (roles.put slot (some entry)) where
  apart i j r r' held held' same := by
    rcases Slots.get_of_get_put held with ⟨here, isEntry⟩ | ⟨other, before⟩
    · rcases Slots.get_of_get_put held' with ⟨here', _⟩ | ⟨other', before'⟩
      · rw [here, here']
      · cases isEntry
        exact absurd same.symm (unused j r' other' before')
    · rcases Slots.get_of_get_put held' with ⟨_, isEntry⟩ | ⟨_, before'⟩
      · cases isEntry
        exact absurd same (unused i r other before)
      · exact follow.apart i j r r' before before' same
  follows i r held := by
    rcases Slots.get_of_get_put held with ⟨_, isEntry⟩ | ⟨_, before⟩
    · cases isEntry
      exact right
    · exact follow.follows i r before

theorem rolesFollow_create (follow : RolesFollow disks s.roles)
    (written : Bool) (diskName : CStr) (role : Option CStr) :
    RolesFollow disks (diskroleCreate disks written diskName role s).2.roles := by
  unfold diskroleCreate
  split
  · exact follow
  next valid =>
    cases role.bind roleFromStr with
    | none => exact follow
    | some kind =>
      simp only
      split
      · exact follow
      split
      · exact follow
      next unused =>
        cases free : s.roles.firstFree with
        | none => exact follow
        | some slot =>
          simp only
          split
          · rw [roles_save]
            apply follow.put
            · intro i r _ held same
              have fits : diskName.length < 32 := by
                simp only [Pkg.simpleNameIsValid, Bool.not_eq_true',
                  Bool.not_eq_false, Bool.and_eq_true,
                  decide_eq_true_eq] at valid
                exact valid.2
              have isName : r.diskName.str = diskName := by
                rw [same]
                exact CStr.truncate_of_fits fits
              rw [Option.not_isSome_iff_eq_none] at unused
              have differs := Slots.find_eq_none unused held
              simp [isName] at differs
            · exact follows_of_empty rfl
          · rw [Slots.put_put]
            exact follow.clear slot

theorem rolesFollow_delete {disks : Disks}
    (follow : RolesFollow disks s.roles) (written : Bool) (diskName : CStr) :
    RolesFollow disks (diskroleDelete written diskName s).2.roles := by
  unfold diskroleDelete
  cases roleFind s.roles diskName with
  | none => exact follow
  | some found =>
    simp only [roles_save]
    exact follow.clear found.1

theorem rolesFollow_setFsType {disks : Disks}
    {diskName : CStr}
    (apart : ∀ i j r r', s.roles.get i = some r → s.roles.get j = some r' →
      r.diskName = r'.diskName → i = j)
    (others : ∀ i r, s.roles.get i = some r → r.diskName.str ≠ diskName →
      Follows disks r.diskName r.fsUuid) (written : Bool) (fsType : CStr) :
    RolesFollow disks (diskroleSetFsType disks written diskName fsType s).2.roles := by
  unfold diskroleSetFsType
  cases found : roleFind s.roles diskName with
  | none =>
    refine ⟨apart, fun i r held => others i r held fun isName => ?_⟩
    have differs := Slots.find_eq_none found held
    simp [isName] at differs
  | some result =>
    obtain ⟨slot, entry⟩ := result
    obtain ⟨held, isName⟩ := roleFind_eq_some found
    have read := follows_probe disks entry.diskName.str
    rw [DiskName.store, BoundedStr.store_str] at read
    simp only [roles_save]
    constructor
    · intro i j r r' heldI heldJ same
      have named : ∀ k e, (s.roles.put slot (some { entry with
          fsType := fsTypeOf fsType
          fsUuid := disks.probeFsUuid entry.diskName.str })).get k = some e →
          ∃ before, s.roles.get k = some before ∧ before.diskName = e.diskName := by
        intro k e heldK
        rcases Slots.get_of_get_put heldK with ⟨here, isEntry⟩ | ⟨_, before⟩
        · cases isEntry
          exact ⟨entry, by rw [here]; exact held, rfl⟩
        · exact ⟨e, before, rfl⟩
      obtain ⟨before, heldBefore, sameName⟩ := named i r heldI
      obtain ⟨before', heldBefore', sameName'⟩ := named j r' heldJ
      exact apart i j before before' heldBefore heldBefore' (by rw [sameName, sameName', same])
    · intro i r heldI
      rcases Slots.get_of_get_put heldI with ⟨_, isEntry⟩ | ⟨other, before⟩
      · cases isEntry
        exact read
      · apply others i r before
        intro same
        apply other
        exact apart i slot r entry before held (BoundedStr.ext (same.trans isName.symm))

/-! ## Placements -/

theorem diskRef_follow_iff {ref : DiskRef} :
    (ref.follow disks).Follows disks ↔ ref.Placed disks true := by
  have right := @follows_followed_iff disks ref.disk ref.uuid.str
  rw [FsUuid.store, BoundedStr.store_str] at right
  unfold DiskRef.follow
  split
  next unnamed =>
    exact iff_of_true (fun named => absurd unnamed named) (fun named => absurd unnamed named)
  next named =>
    constructor
    · intro follows _ misplaced
      have kept := followed_eq disks ref.disk ref.uuid.str
      rw [misplaced.2.1] at kept
      exact right.mp (follows (by rw [kept]; exact named)) misplaced
    · exact fun placed _ => right.mpr (placed named)

theorem diskRef_adopt_iff {ref : DiskRef} :
    (ref.adopt disks).Follows disks ↔ ref.Follows disks := by
  unfold DiskRef.adopt
  split
  · exact Iff.rfl
  next without =>
    push Not at without
    have read := follows_probe disks ref.disk.str
    rw [DiskName.store, BoundedStr.store_str] at read
    exact iff_of_true (fun _ => read) (fun _ => follows_of_empty without.2)

theorem diskRef_unset (disks : Disks) : DiskRef.unset.Follows disks :=
  fun named => absurd rfl named

theorem diskRef_probe (disks : Disks) (diskName : Option CStr) :
    (DiskRef.probe disks diskName).Follows disks := by
  cases diskName with
  | none => exact diskRef_unset disks
  | some name => exact fun _ => follows_probe disks name

@[simp]
theorem placements_save (written : Bool) (s : PlacementState) :
    (s.save written).placements = s.placements := by
  unfold PlacementState.save
  split <;> rfl

theorem placements_init (disks : Disks) (written : Bool) (s : PlacementState) :
    (storageplacementInit disks written s).2.placements =
      if (readPlacements s.file).1 then
        fun kind => ((readPlacements s.file).2 kind).follow disks
      else (readPlacements s.file).2 := by
  unfold storageplacementInit
  simp only
  split
  · split
    · rw [placements_save]
    · rfl
  · rfl

theorem placementsFollow_init_iff {disks : Disks} {s : PlacementState}
    {written : Bool} :
    PlacementsFollow disks (storageplacementInit disks written s).2.placements ↔
      PlacementsPlaced disks s.file := by
  rw [placements_init]
  rw [placementsFollow_iff, placementsPlaced_iff]
  cases (readPlacements s.file).1 with
  | true => simp only [if_true, Placement.follow, diskRef_adopt_iff, diskRef_follow_iff]
  | false => simp only [Bool.false_eq_true, if_false, DiskRef.Placed, DiskRef.Follows]

theorem PlacementsFollow.set {disks : Disks} {placements : Placements}
    (follow : PlacementsFollow disks placements) (kind : StorageKind)
    {p : Placement} (active : p.active.Follows disks)
    (pending : p.pending.Follows disks) :
    PlacementsFollow disks (placements.set kind p) where
  active other := by
    by_cases same : other = kind
    · subst same
      simpa [Placements.set] using active
    · simpa [Placements.set, same] using follow.active other
  pending other := by
    by_cases same : other = kind
    · subst same
      simpa [Placements.set] using pending
    · simpa [Placements.set, same] using follow.pending other

theorem placementsFollow_savedOrUndone {s : PlacementState}
    (follow : PlacementsFollow disks s.placements) (written : Bool)
    (kind : StorageKind) {p : Placement} (active : p.active.Follows disks)
    (pending : p.pending.Follows disks) :
    PlacementsFollow disks (savedOrUndone written kind p s).2.placements := by
  have changed := follow.set kind active pending
  unfold savedOrUndone
  dsimp only
  split
  · rw [placements_save]
    exact changed
  · exact changed.set kind (follow.active kind) (follow.pending kind)

theorem placementsFollow_clearPending {s : PlacementState}
    (follow : PlacementsFollow disks s.placements) (written : Bool)
    (kind : StorageKind) :
    PlacementsFollow disks (storageplacementClearPending written kind s).2.placements := by
  unfold storageplacementClearPending
  simp only
  split
  · exact follow
  split
  · simp only [PlacementState.set, placements_save]
    refine PlacementsFollow.set (PlacementsFollow.set follow kind ?_ ?_) kind ?_ ?_
    · exact follow.active kind
    · exact follow.pending kind
    · exact follow.active kind
    · exact diskRef_unset disks
  · exact follow

theorem placementsFollow_finishMove {s : PlacementState}
    (follow : PlacementsFollow disks s.placements) (written : Bool)
    (kind : StorageKind) (moved : Bool) (reason : CStr) (movedAt : Int64) :
    PlacementsFollow disks (storageplacementFinishMove written kind moved
      reason movedAt s).2.placements := by
  unfold storageplacementFinishMove
  simp only
  split
  · exact follow
  · rw [placements_save]
    apply follow.set kind _ (diskRef_unset disks)
    cases moved with
    | true => exact follow.pending kind
    | false => exact follow.active kind

/-! ## A new filesystem -/

theorem mem_format {name : CStr} {uuid : FsUuid} {d : DiscoveredDisk} :
    d ∈ (disks.format name uuid).all ↔ (d ∈ disks.all ∧ d.name.str ≠ name) ∨
        ∃ old ∈ disks.all, old.name.str = name ∧ d = { old with fsUuid := uuid } := by
  simp only [Disks.format, mem_map]
  constructor
  · rintro ⟨old, mem, rfl⟩
    split
    next isName => exact Or.inr ⟨old, mem, isName, rfl⟩
    next other => exact Or.inl ⟨mem, other⟩
  · rintro (⟨mem, other⟩ | ⟨old, mem, isName, rfl⟩)
    · exact ⟨d, mem, if_neg other⟩
    · exact ⟨old, mem, if_pos isName⟩

theorem follows_format {name : CStr} {uuid : FsUuid} {disk : DiskName}
    {recorded : FsUuid} (follows : Follows disks disk recorded)
    (unformatted : Unformatted disks name uuid disk recorded) :
    Follows (disks.format name uuid) disk recorded := by
  by_cases unset : recorded.str.length = 0
  · exact follows_of_empty unset
  have allowed := unformatted unset
  split at allowed
  next here =>
    -- What the formatted disk carries now is the recorded UUID or none.
    refine ⟨fun _ => ?_, fun _ d mem isName read => ?_⟩
    · rintro ⟨d, mem, carries⟩
      rcases mem_format.mp mem with ⟨before, other⟩ | ⟨old, _, isOld, rfl⟩
      · obtain ⟨d', mem', isName', carries'⟩ := follows.present unset ⟨d, before, carries⟩
        rcases allowed with same | ⟨_, nowhere⟩
        · refine ⟨{ d' with fsUuid := uuid }, mem_format.mpr (Or.inr
            ⟨d', mem', by rw [isName', here], rfl⟩), isName', ?_, same⟩
          have lengths := congrArg List.length same
          simp only [length_map] at lengths
          simp only [CStr.length] at unset ⊢
          omega
        · exact absurd carries (nowhere d before other)
      · exact ⟨_, mem, BoundedStr.ext (isOld.trans here.symm), carries⟩
    · rcases mem_format.mp mem with ⟨_, other⟩ | ⟨old, _, _, rfl⟩
      · exact absurd (by rw [isName, here]) other
      · rcases allowed with same | ⟨empty, _⟩
        · exact ⟨read, same⟩
        · exact absurd empty read
  next elsewhere =>
    have kept : ∀ d ∈ disks.all, d.name = disk → d ∈ (disks.format name uuid).all := by
      intro d mem isName
      exact mem_format.mpr (Or.inl ⟨mem, by rwa [isName]⟩)
    refine ⟨fun _ => ?_, fun _ d mem isName read => ?_⟩
    · rintro ⟨d, mem, carries⟩
      have own : ∃ d ∈ disks.all, d.name = disk ∧ d.Carries recorded.str := by
        rcases mem_format.mp mem with ⟨before, _⟩ | ⟨old, _, _, rfl⟩
        · exact follows.present unset ⟨d, before, carries⟩
        · exact allowed carries.2
      obtain ⟨d', mem', isName, carries'⟩ := own
      exact ⟨d', kept d' mem' isName, isName, carries'⟩
    · rcases mem_format.mp mem with ⟨before, _⟩ | ⟨old, _, isOld, rfl⟩
      · exact follows.never unset d before isName read
      · exact absurd (by rw [← isName]; exact isOld) elsewhere

/-! ## Runs keep the laws -/

theorem lawful_step {s : State} {input : Input} (lawful : Lawful s)
    (safe : Safe s input) : Lawful (step s input) := by
  obtain ⟨roles, placements⟩ := lawful
  cases input with
  | boot disks rolesWritten placementsWritten =>
    exact ⟨rolesFollow_init_iff.mpr safe.1, placementsFollow_init_iff.mpr safe.2⟩
  | placementInit written => exact ⟨roles, placementsFollow_init_iff.mpr safe⟩
  | create diskName role written => exact ⟨rolesFollow_create roles _ _ _, placements⟩
  | delete diskName written => exact ⟨rolesFollow_delete roles _ _, placements⟩
  | setFsType diskName fsType written =>
    exact ⟨rolesFollow_setFsType roles.apart
      (fun i r held _ => roles.follows i r held) _ _, placements⟩
  | formatted diskName uuid fsType written =>
    obtain ⟨others, places⟩ := safe
    refine ⟨rolesFollow_setFsType roles.apart ?_ _ _, ?_, ?_⟩
    · intro i r held other
      exact follows_format (roles.follows i r held) (others i r held other)
    · intro kind named
      exact follows_format (placements.active kind named) (places kind).1
    · intro kind named
      exact follows_format (placements.pending kind named) (places kind).2
  | place kind diskName written =>
    exact ⟨roles, placementsFollow_savedOrUndone placements written kind
      (diskRef_probe _ diskName) (placements.pending kind)⟩
  | setPending kind diskName written =>
    exact ⟨roles, placementsFollow_savedOrUndone placements written kind
      (placements.active kind) (diskRef_probe _ diskName)⟩
  | clearPending kind written =>
    exact ⟨roles, placementsFollow_clearPending placements written kind⟩
  | finishMove kind moved reason movedAt written =>
    exact ⟨roles, placementsFollow_finishMove placements written kind moved reason movedAt⟩

theorem ownOnly_of_lawful {s : State} (lawful : Lawful s) : OwnOnly s where
  lookup d mem read role found := by
    obtain ⟨⟨i, r⟩, isFound, rfl⟩ := Option.map_eq_some_iff.mp found
    obtain ⟨held, isName⟩ := roleFind_eq_some isFound
    refine ⟨i, r, held, BoundedStr.ext isName, rfl, ?_⟩
    by_cases unset : r.fsUuid.str.length = 0
    · exact Or.inl unset
    · exact Or.inr ((lawful.roles.follows i r held).never unset d mem
        (BoundedStr.ext isName.symm) read)
  get d mem read kind got uuid known := by
    simp only [storageplacementGet, storageplacementGetUuid] at got known
    split_ifs at got with named
    split_ifs at known with both
    cases known
    exact (lawful.placements.active kind named).never both.2 d mem (Option.some.inj got).symm read
  pending d mem read kind got uuid known := by
    simp only [storageplacementGetPending, storageplacementGetPendingUuid] at got known
    split_ifs at got with isSet named
    · split_ifs at known with both
      simp only [Bool.and_eq_true, decide_eq_true_eq] at both
      cases known
      have isDisk := Option.some.inj (Option.some.inj got)
      exact (lawful.placements.pending kind named).never both.2 d mem isDisk.symm read
    · cases Option.some.inj got

theorem adopted_boot {rolesWritten placementsWritten : Bool} {s : State}
    (rolesRead : (diskroleInit disks rolesWritten s.role).1 = true)
    (placementsRead : (storageplacementInit disks placementsWritten s.placement).1 = true) :
    Adopted (step s (.boot disks rolesWritten placementsWritten)) where
  roles := by
    intro d mem read i r held isName unset
    have probed : disks.probeFsUuid d.name.str = d.fsUuid := Disks.probe_of_mem mem
    have valid : (readRoles s.role.file).valid = true := by
      by_contra invalid
      simp [diskroleInit, invalid] at rolesRead
    simp only [step, roles_init, valid, if_true] at held
    have inEntries := Slots.mem_of_mem_ofEntries (Slots.mem_entries_iff_get.mpr ⟨i, held⟩)
    obtain ⟨entry, _, rfl⟩ := mem_map.mp inEntries
    rw [adopt_diskName] at isName
    unfold RoleEntry.adopt at unset
    split at unset
    next set => exact set unset
    next =>
      rw [isName, probed] at unset
      exact read unset
  placements := by
    intro d mem read kind got
    have probed : disks.probeFsUuid d.name.str = d.fsUuid := Disks.probe_of_mem mem
    have valid : (readPlacements s.placement.file).1 = true := by
      by_contra invalid
      simp [storageplacementInit, invalid] at placementsRead
    simp only [step, placements_init, valid, if_true] at got ⊢
    simp only [storageplacementGet] at got
    split_ifs at got with named
    have isDisk := Option.some.inj got
    simp only [storageplacementGetUuid]
    suffices known : (((readPlacements s.placement.file).2 kind).follow
        disks).active.uuid.str.length ≠ 0 by
      simp [named, known]
    simp only [Placement.follow] at named isDisk ⊢
    generalize ((readPlacements s.placement.file).2 kind).active.follow disks =
      ref at named isDisk ⊢
    unfold DiskRef.adopt at named isDisk ⊢
    split
    next already =>
      rw [if_pos already] at named
      exact already.resolve_left named
    next without =>
      rw [if_neg without] at isDisk
      simp only at isDisk ⊢
      rw [isDisk, probed]
      exact read

def State.before (disks : Disks) (roles placements : Option (List UInt8)) : State where
  disks := disks
  role := ⟨Slots.empty _, roles⟩
  placement := ⟨fun _ => Placement.cleared, placements⟩

theorem lawful_before (disks : Disks) (roles placements : Option (List UInt8)) :
    Lawful (State.before disks roles placements) where
  roles := by
    constructor
    · intro i j r r' held
      simp [State.before] at held
    · intro i r held
      simp [State.before] at held
  placements := ⟨fun _ => diskRef_unset disks, fun _ => diskRef_unset disks⟩

/-- In every run whose starts find no recorded name gone to another disk, no
two roles for one disk and no such name after a format, roles and placements
follow the filesystems: the records are right in every state, what is asked
about a disk with a filesystem is answered from its own record, and after a
start that has read the files each record there has the UUID. -/
theorem records_follow_filesystems (disks : Disks)
    (roles placements : Option (List UInt8)) (inputs : List Input)
    (safe : Guarded step Safe (State.before disks roles placements) inputs) :
    Throughout step (fun s => Lawful s ∧ OwnOnly s) (State.before disks roles placements) inputs ∧
    ∀ before next rolesWritten placementsWritten after,
      inputs = before ++ .boot next rolesWritten placementsWritten :: after →
      let s := run step (State.before disks roles placements) before
      (diskroleInit next rolesWritten s.role).1 = true →
      (storageplacementInit next placementsWritten s.placement).1 = true →
      Adopted (step s (.boot next rolesWritten placementsWritten)) := by
  constructor
  · have lawful : Throughout step Lawful (State.before disks roles placements) inputs :=
      safe.throughout Lawful (fun _ _ => lawful_step) (lawful_before disks roles placements)
    exact lawful.mono fun s holds => ⟨holds, ownOnly_of_lawful holds⟩
  · intro before next rolesWritten placementsWritten after _
    exact adopted_boot

/-! ## Two disks that change their names -/

def plainDisk (name uuid : String) : DiscoveredDisk :=
  ⟨DiskName.store (CStr.ofString name), FsUuid.store (CStr.ofString uuid), false⟩

def backupUuid : String := "0b5b7c52-7f0e-4a57-9d3c-2c1c7f6f1a01"

def dataUuid : String := "6f1a2c1c-9d3c-4a57-8f0e-0b5b7c527f02"

def bothDisks : Disks :=
  ⟨[plainDisk "sda" backupUuid, plainDisk "sdb" dataUuid], by decide +kernel⟩

def swappedDisks : Disks :=
  ⟨[plainDisk "sda" dataUuid, plainDisk "sdb" backupUuid], by decide +kernel⟩

def dataDiskOnly : Disks :=
  ⟨[plainDisk "sda" dataUuid], by decide +kernel⟩

def assignRoles : List Input :=
  [.boot bothDisks true true, .create "sda" (some "backup") true, .setFsType "sda" "ext4" true,
    .create "sdb" (some "data-storage") true,
    .setFsType "sdb" "btrfs" true,
    .place .data (some "sdb") true]

def twoDisks : State := State.before bothDisks none none

/-- A start that finds the disks swapped. -/
theorem swapped_followed : Throughout step (fun s => Lawful s ∧ OwnOnly s) twoDisks
      (assignRoles ++ [.boot swappedDisks true true]) := by
  apply (records_follow_filesystems bothDisks none none _ ?_).1
  have nothing : ∀ disks, Safe (State.before disks none none) (.boot disks true true) := by
    refine fun disks => ⟨⟨List.Pairwise.nil, fun r mem => ?_⟩,
      fun _ named => absurd rfl named, fun _ named => absurd rfl named⟩
    cases mem
  refine Guarded.cons (nothing bothDisks) ?_
  iterate 5 refine Guarded.cons trivial ?_
  refine Guarded.cons ⟨⟨?_, ?_⟩, ⟨?_, ?_⟩⟩ (guarded_nil _ _)
  · decide +kernel
  · decide +kernel
  · intro kind _
    rw [if_pos (by decide +kernel)]
    cases kind <;> decide +kernel
  · intro kind _
    rw [if_pos (by decide +kernel)]
    cases kind <;> decide +kernel

/-- Without the backup disk both roles name the data disk, and it is given the
role of the backups. -/
theorem backup_role_on_data_disk : ¬ Throughout step Lawful twoDisks
        (assignRoles ++ [.boot dataDiskOnly true true]) ∧
      let s := run step twoDisks (assignRoles ++ [.boot dataDiskOnly true true])
      (s.disks.probeFsUuid "sda").str = CStr.ofString dataUuid ∧
        diskroleLookup s.role.roles "sda" = some (CStr.ofString "backup") := by
  refine ⟨fun always => ?_, by decide +kernel, by decide +kernel⟩
  have apart := always.last.roles.apart 0 1
  have first : ((run step twoDisks (assignRoles ++
      [.boot dataDiskOnly true true])).role.roles.get 0).map
        (fun r => r.diskName.str) = some "sda" := by
    decide +kernel
  have second : ((run step twoDisks (assignRoles ++
      [.boot dataDiskOnly true true])).role.roles.get 1).map
        (fun r => r.diskName.str) = some "sda" := by
    decide +kernel
  obtain ⟨r, held, isSda⟩ := Option.map_eq_some_iff.mp first
  obtain ⟨r', held', isSda'⟩ := Option.map_eq_some_iff.mp second
  exact absurd (apart r r' held held' (BoundedStr.ext (isSda.trans isSda'.symm))) (by decide)

end Cix.Disk
