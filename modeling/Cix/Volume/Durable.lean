import Cix.Json.Roundtrip
import Cix.Lib.Machine
import Cix.Volume.Volumes

/-!
# What is saved of the volumes

The state file holds the table, and it is read back as it was up to the
default of the retention.  A failed write is undone by `volume_create` and
`volume_migrate` and by no other operation.
-/

namespace Cix.Volume

open Cix.Lib Cix.Json
open List hiding asString

/-! ## The document that is written -/

def diskDoc (disk : CStr) : Doc :=
  if disk.length ≠ 0 then .str disk else .null

def ownerDoc (owner : Int32) : Doc :=
  if 0 ≤ owner then intDoc owner.toInt else .null

def volumeMembers (host : Host) (v : Volume) : List (CStr × Doc) :=
  [("name", .str v.name.str), ("disk", diskDoc v.disk.str),
    ("created_at", intDoc v.createdAt.toInt),
    ("backup_enabled", .bool v.backupEnabled),
    ("backup_retain", intDoc (reportedRetain v.backupRetain).toInt),
    ("backup_last_at", intDoc v.backupLastAt.toInt),
    ("backup_while_running", .str (runningModeName v.backupWhileRunning)),
    ("quota_bytes", intDoc v.quotaBytes.toInt),
    ("owner_uid", ownerDoc v.ownerUid),
    ("owner_gid", ownerDoc v.ownerGid),
    ("host_path", .str (volumeHostPath host v))]

def volumeDoc (host : Host) (v : Volume) : Doc :=
  .obj (volumeMembers host v)

structure Exact (v : Volume) : Prop where
  created : v.createdAt.toInt.natAbs ≤ 2 ^ 53
  lastBackup : v.backupLastAt.toInt.natAbs ≤ 2 ^ 53
  quota : v.quotaBytes.toInt.natAbs ≤ 2 ^ 53
  uid : v.ownerUid < 0 → v.ownerUid = -1
  gid : v.ownerGid < 0 → v.ownerGid = -1

theorem emits_writeDisk (disk : CStr) : Emits (writeDisk disk) (diskDoc disk) := by
  intro w
  unfold writeDisk diskDoc
  split
  · exact emits_str disk w
  · exact emits_null w

theorem emits_writeOwner (owner : Int32) : Emits (writeOwner owner) (ownerDoc owner) := by
  intro w
  unfold writeOwner ownerDoc
  split
  · exact emits_int32 owner w
  · exact emits_null w

theorem emits_volumeWriteJsonOne (host : Host) {v : Volume} (exact : Exact v) :
    Emits (volumeWriteJsonOne host v) (volumeDoc host v) := by
  have str := fun (name : String) (s : CStr) =>
    (emits_str s).member (CStr.ofString name)
  have owner := fun (name : String) (id : Int32) =>
    (emits_writeOwner id).member (CStr.ofString name)
  have disk := (emits_writeDisk v.disk.str).member "disk"
  have created := (emits_int exact.created).member "created_at"
  have enabled := (emits_bool v.backupEnabled).member "backup_enabled"
  have retain := (emits_int32 (reportedRetain v.backupRetain)).member "backup_retain"
  have last := (emits_int exact.lastBackup).member "backup_last_at"
  have quota := (emits_int exact.quota).member "quota_bytes"
  have place := ((str "name" v.name.str).comp disk).comp created
  have policy := (((place.comp enabled).comp retain).comp last).comp
    (str "backup_while_running" (runningModeName v.backupWhileRunning))
  have all := (((policy.comp quota).comp (owner "owner_uid" v.ownerUid)).comp
    (owner "owner_gid" v.ownerGid)).comp (str "host_path" (volumeHostPath host v))
  exact FillsObj.emits all

/-! ## What is read back -/

def Volume.retained (v : Volume) : Volume :=
  { v with backupRetain := reportedRetain v.backupRetain }

theorem volumeMembers_distinct (host : Host) (v : Volume) :
    ((volumeMembers host v).map Prod.fst).Nodup := by
  simp only [volumeMembers, map_cons, map_nil]
  decide +kernel

theorem numberOr_intDoc {α : Type} (convert : Double → α) (fallback : α) (v : Int) :
    numberOr convert fallback (some (intDoc v).value) =
      convert (asNumber (some (intDoc v).value)) := by
  rw [intDoc, Doc.value, asNumber, numberOr]

theorem runningModeParse_name (mode : RunningMode) :
    runningModeParse (some (runningModeName mode)) = mode := by
  cases mode <;> decide

theorem readOwner {owner : Int32} (unset : owner < 0 → owner = -1) :
    numberOr Double.toInt (-1) (some (ownerDoc owner).value) = owner := by
  unfold ownerDoc
  split
  next set => rw [numberOr_intDoc, toInt_intDoc]
  next negative =>
    rw [unset (Int32.not_le.mp negative)]
    rfl

theorem readDisk (disk : BoundedStr 64) : BoundedStr.store 64 (by decide)
        ((asString (some (diskDoc disk.str).value)).getD CStr.empty) =
      disk := by
  unfold diskDoc
  split
  next named => rw [Doc.value, asString, Option.getD_some, BoundedStr.store_str]
  next unnamed =>
    have nothing : disk.str = CStr.empty := by
      apply CStr.ext
      exact eq_nil_of_length_eq_zero (not_not.mp unnamed)
    apply BoundedStr.ext
    rw [nothing]
    rfl

theorem loadVolume_doc (host : Host) {v : Volume} (exact : Exact v)
    (valid : volumeNameIsValid v.name.str = true) :
    loadVolume (volumeDoc host v).value = some v.retained := by
  have get : ∀ (name : String) (doc : Doc), (CStr.ofString name, doc) ∈ volumeMembers host v →
        objectGet (some (volumeDoc host v).value) name = some doc.value :=
    fun name doc mem =>
      objectGet_member (volumeMembers_distinct host v) mem
  have name := get "name" (.str v.name.str) (by simp [volumeMembers])
  have disk := get "disk" (diskDoc v.disk.str) (by simp [volumeMembers])
  have created := get "created_at" (intDoc v.createdAt.toInt) (by simp [volumeMembers])
  have enabled := get "backup_enabled" (.bool v.backupEnabled) (by simp [volumeMembers])
  have retain := get "backup_retain"
    (intDoc (reportedRetain v.backupRetain).toInt) (by simp [volumeMembers])
  have last := get "backup_last_at" (intDoc v.backupLastAt.toInt) (by simp [volumeMembers])
  have mode := get "backup_while_running"
    (.str (runningModeName v.backupWhileRunning)) (by simp [volumeMembers])
  have quota := get "quota_bytes" (intDoc v.quotaBytes.toInt) (by simp [volumeMembers])
  have uid := get "owner_uid" (ownerDoc v.ownerUid) (by simp [volumeMembers])
  have gid := get "owner_gid" (ownerDoc v.ownerGid) (by simp [volumeMembers])
  have nameRead : asString (objectGet (some (volumeDoc host v).value) "name") =
      some v.name.str := by
    rw [name, Doc.value, asString]
  have modeRead : asString (objectGet (some (volumeDoc host v).value)
      "backup_while_running") = some (runningModeName v.backupWhileRunning) := by
    rw [mode, Doc.value, asString]
  have enabledRead : isTrueMember (objectGet (some (volumeDoc host v).value)
      "backup_enabled") = v.backupEnabled := by
    rw [enabled, Doc.value, isTrueMember]
  rw [loadVolume, nameRead]
  simp only [valid, if_true, Volume.retained]
  rw [disk, readDisk, created, numberOr_intDoc, toInt64_intDoc exact.created, enabledRead,
    retain, numberOr_intDoc, toInt_intDoc, last, numberOr_intDoc,
    toInt64_intDoc exact.lastBackup, modeRead, runningModeParse_name,
    quota, numberOr_intDoc, toInt64_intDoc exact.quota, uid, readOwner exact.uid, gid,
    readOwner exact.gid, BoundedStr.store_str]

theorem loadState_listText (host : Host) {volumes : List Volume} (exact : ∀ v ∈ volumes, Exact v)
    (valid : ∀ v ∈ volumes, volumeNameIsValid v.name.str = true)
    (fits : volumes.length ≤ volumeMax) :
    loadState (some (listText host volumes)) = some (volumes.map Volume.retained) := by
  have emitted := emits_arr fun v (mem : v ∈ volumes) =>
    emits_volumeWriteJsonOne host (exact v mem)
  have text : listText host volumes = (Doc.arr (volumes.map (volumeDoc host))).text :=
    emitted.buf_jwInit
  have read := filterMap_written Volume.retained fun v mem =>
    loadVolume_doc host (exact v mem) (valid v mem)
  rw [loadState, text, jsonParse_text, asArray_arr]
  simp only [read]
  rw [take_of_length_le (by simpa using fits)]

/-! ## What a request does -/

/-- A change of one slot: an entry is cleared, a record keeps its name, or a
new record of a new name takes a free slot. -/
inductive Edits (s : State) (slot : Nat) : Option Volume → Prop where
  | clear {v : Volume} : s.volumes.get slot = some v → Edits s slot none
  | alter {v w : Volume} : s.volumes.get slot = some v → w.name = v.name →
      Edits s slot (some w)
  | add {w : Volume} : slot < volumeMax → s.volumes.get slot = none →
      s.findSlot w.name.str = none →
      volumeNameIsValid w.name.str = true → Edits s slot (some w)

variable {s : State}

theorem get_of_findSlot {name : CStr} {slot : Nat} {v : Volume}
    (found : s.findSlot name = some (slot, v)) :
    s.volumes.get slot = some v ∧ v.name.str = name := by
  have held := Slots.get_of_find found
  exact ⟨held.1, by simpa using held.2⟩

theorem onDisk_back (v : Volume) (disk : CStr) : (v.onDisk disk).onDisk v.disk.str = v := by
  simp only [Volume.onDisk, BoundedStr.store_str]

theorem length_lt_of_valid {name : CStr}
    (valid : volumeNameIsValid name = true) : name.length < 64 := by
  simp only [volumeNameIsValid, Bool.and_eq_true, decide_eq_true_eq] at valid
  exact valid.1.1.1.2

theorem volumeCreate_cases (host : Host) (name disk : CStr) (s : State) :
    (volumeCreate host name disk s).2 = s ∨
    host.written = true ∧ ∃ slot, Edits s slot (some (newVolume host name disk)) ∧
      volumeCreate host name disk s = (.ok, State.save host
        { s with
          volumes :=
            s.volumes.put slot (some (newVolume host name disk)) }) := by
  unfold volumeCreate
  cases valid : volumeNameIsValid name with
  | false => exact Or.inl rfl
  | true =>
    rw [if_neg (by simp)]
    split
    · exact Or.inl rfl
    next unknown =>
      split
      · exact Or.inl rfl
      · cases free : s.volumes.firstFree with
        | none => exact Or.inl rfl
        | some slot =>
          obtain ⟨inside, empty⟩ := Slots.get_firstFree free
          dsimp only
          split
          · exact Or.inl rfl
          split
          · exact Or.inl rfl
          split
          next written =>
            refine Or.inr ⟨written, slot, ?_, rfl⟩
            have stored : (newVolume host name disk).name.str = name :=
              CStr.truncate_of_fits (length_lt_of_valid valid)
            apply Edits.add inside empty
            · rw [stored]
              simpa using unknown
            · rw [stored]
              exact valid
          next unwritten =>
            left
            rw [Slots.put_put, Slots.put_none empty]

theorem volumeMigrate_cases (host : Host) (name disk : CStr) (s : State) :
    (volumeMigrate host name disk s).2 = s ∨
    host.written = true ∧ ∃ slot v, s.volumes.get slot = some v ∧
      volumeMigrate host name disk s = (.ok, State.save host
        { s with volumes := s.volumes.put slot (some (v.onDisk disk)) }) := by
  unfold volumeMigrate
  cases found : s.findSlot name with
  | none => exact Or.inl rfl
  | some pair =>
    obtain ⟨slot, v⟩ := pair
    have held := (get_of_findSlot found).1
    have restored : (s.volumes.put slot (some (v.onDisk disk))).put slot
        (some ((v.onDisk disk).onDisk v.disk.str)) = s.volumes := by
      rw [Slots.put_put, onDisk_back, Slots.put_get held]
    dsimp only
    split
    · exact Or.inl rfl
    split
    · exact Or.inl rfl
    split
    · left
      rw [restored]
    split
    next written => exact Or.inr ⟨written, slot, v, held, rfl⟩
    next unwritten =>
      left
      rw [restored]

theorem change_cases (host : Host) (name : CStr) (edit : Volume → Volume) (s : State) :
    s.findSlot name = none ∧ change host name edit s = (.notFound, s) ∨
    ∃ slot v, s.findSlot name = some (slot, v) ∧
      change host name edit s = (savedAnswer host, State.save host
          { s with volumes := s.volumes.put slot (some (edit v)) }) := by
  unfold change
  cases found : s.findSlot name with
  | none => exact Or.inl ⟨rfl, rfl⟩
  | some pair =>
    obtain ⟨slot, v⟩ := pair
    exact Or.inr ⟨slot, v, rfl, rfl⟩

theorem volumeDelete_cases (host : Host) (name : CStr) (s : State) :
    s.findSlot name = none ∧ volumeDelete host name s = (.notFound, s) ∨
    ∃ slot v, s.findSlot name = some (slot, v) ∧ volumeDelete host name s = (savedAnswer host,
        State.save host { s with volumes := s.volumes.put slot none }) := by
  unfold volumeDelete
  cases found : s.findSlot name with
  | none => exact Or.inl ⟨rfl, rfl⟩
  | some pair =>
    obtain ⟨slot, v⟩ := pair
    exact Or.inr ⟨slot, v, rfl, rfl⟩

/-! ## Failed writes -/

def Unchanged (s : State) (name : CStr) (edit : Volume → Volume) : Prop :=
  ∀ slot v, s.findSlot name = some (slot, v) → edit v = v

def Undoes (s : State) : Host × Request → Prop
  | (host, .delete name) => host.written = true ∨ s.findSlot name = none
  | (host, .setOwner name uid gid) =>
    host.written = true ∨ Unchanged s name (Volume.withOwner uid gid)
  | (host, .setQuota name quota) =>
    host.written = true ∨ quota < 0 ∨ Unchanged s name (Volume.withQuota quota)
  | (host, .setBackupPolicy name enabled retain mode) =>
    host.written = true ∨ Unchanged s name (Volume.withPolicy enabled retain mode)
  | (_, .create _ _) => True
  | (_, .migrate _ _) => True
  | (_, .reload) => True

def Atomic (s : State) (outcome : VolumeError × State) : Prop :=
  outcome.1 = .persistFailed → outcome.2.volumes = s.volumes

theorem volumes_save (host : Host) (s : State) : (s.save host).volumes = s.volumes := by
  unfold State.save
  split <;> rfl

theorem savedAnswer_failed {host : Host} :
    savedAnswer host = .persistFailed ↔ host.written = false := by
  unfold savedAnswer
  cases host.written <;> simp

theorem put_eq_self {α : Type*} {n : Nat} {table : Slots α n} {slot : Nat}
    {held : α} {cell : Option α} (present : table.get slot = some held)
    (same : table.put slot cell = table) : cell = some held := by
  have inside := Slots.lt_of_get present
  have cellRead := @Slots.get_put _ _ table _ cell inside slot
  rw [same, present, if_pos rfl] at cellRead
  exact Eq.symm cellRead

theorem change_atomic_iff (host : Host) (name : CStr) (edit : Volume → Volume) (s : State) :
    Atomic s (change host name edit s) ↔ host.written = true ∨ Unchanged s name edit := by
  rcases change_cases host name edit s with
    ⟨unknown, refused⟩ | ⟨slot, v, found, changed⟩
  · rw [refused]
    constructor
    · intro _
      right
      intro slot v found
      rw [unknown] at found
      cases found
    · intro _ failed
      cases failed
  · have held := (get_of_findSlot found).1
    rw [changed, Atomic, savedAnswer_failed, volumes_save]
    constructor
    · intro atomic
      cases written : host.written with
      | true => exact Or.inl rfl
      | false =>
        right
        intro slot' v' found'
        rw [found] at found'
        cases found'
        exact Option.some.inj (put_eq_self held (atomic written))
    · rintro (written | same) failed
      · rw [written] at failed
        cases failed
      · rw [same slot v found]
        exact Slots.put_get held

theorem delete_atomic_iff (host : Host) (name : CStr) (s : State) :
    Atomic s (volumeDelete host name s) ↔ host.written = true ∨ s.findSlot name = none := by
  rcases volumeDelete_cases host name s with
    ⟨unknown, refused⟩ | ⟨slot, v, found, deleted⟩
  · rw [refused]
    refine iff_of_true ?_ (Or.inr unknown)
    intro failed
    cases failed
  · have held := (get_of_findSlot found).1
    rw [deleted, Atomic, savedAnswer_failed, volumes_save]
    constructor
    · intro atomic
      cases written : host.written with
      | true => exact Or.inl rfl
      | false => cases put_eq_self held (atomic written)
    · rintro (written | unknown) failed
      · rw [written] at failed
        cases failed
      · rw [unknown] at found
        cases found

theorem quota_atomic_iff (host : Host) (name : CStr) (quota : Int64) (s : State) :
    Atomic s (volumeSetQuota host name quota s) ↔ host.written = true ∨ quota < 0 ∨
        Unchanged s name (Volume.withQuota quota) := by
  unfold volumeSetQuota
  by_cases unknown : (s.findSlot name).isNone = true
  · rw [if_pos unknown]
    refine iff_of_true (fun failed => ?_) (Or.inr (Or.inr ?_))
    · cases failed
    · intro slot v found
      rw [Option.isNone_iff_eq_none.mp unknown] at found
      cases found
  rw [if_neg unknown]
  by_cases negative : quota < 0
  · rw [if_pos negative]
    refine iff_of_true (fun failed => ?_) (Or.inr (Or.inl negative))
    cases failed
  · rw [if_neg negative, or_iff_right negative]
    exact change_atomic_iff host name _ s

theorem atomic_iff_undoes (s : State) (input : Host × Request) :
    Atomic s (serve s input) ↔ Undoes s input := by
  obtain ⟨host, request⟩ := input
  cases request with
  | create name disk =>
    refine iff_of_true ?_ trivial
    intro failed
    change (volumeCreate host name disk s).1 = _ at failed
    rcases volumeCreate_cases host name disk s with
      same | ⟨_, slot, _, created⟩
    · exact congrArg State.volumes same
    · rw [created] at failed
      cases failed
  | migrate name disk =>
    refine iff_of_true ?_ trivial
    intro failed
    change (volumeMigrate host name disk s).1 = _ at failed
    rcases volumeMigrate_cases host name disk s with
      same | ⟨_, slot, v, _, moved⟩
    · exact congrArg State.volumes same
    · rw [moved] at failed
      cases failed
  | delete name => exact delete_atomic_iff host name s
  | setOwner name uid gid => exact change_atomic_iff host name _ s
  | setQuota name quota => exact quota_atomic_iff host name quota s
  | setBackupPolicy name enabled retain mode => exact change_atomic_iff host name _ s
  | reload =>
    refine iff_of_true ?_ trivial
    intro failed
    cases failed

/-! ## Runs -/

structure Durable (s : State) : Prop where
  valid : ∀ v ∈ s.volumes.entries, volumeNameIsValid v.name.str = true
  distinct : s.volumes.entries.Pairwise fun a b => a.name ≠ b.name
  saved : loadState s.file = some (s.volumes.entries.map Volume.retained)

structure Sound (s : State) : Prop where
  valid : ∀ v ∈ s.volumes.entries, volumeNameIsValid v.name.str = true
  distinct : ∀ i j a b, s.volumes.get i = some a → s.volumes.get j = some b →
    a.name = b.name → i = j
  exact : ∀ v ∈ s.volumes.entries, Exact v
  saved : loadState s.file = some (s.volumes.entries.map Volume.retained)

theorem Sound.durable (sound : Sound s) : Durable s where
  valid := sound.valid
  distinct := by
    apply Slots.entries_pairwise
    intro i j a b less heldA heldB same
    have equal := sound.distinct i j a b heldA heldB same
    omega
  saved := sound.saved

/-- The numbers of the request can be saved: the clock and a quota are held by
a double, and a negative owner is -1. -/
def InRange : Host × Request → Prop
  | (host, .create _ _) => host.now.toInt.natAbs ≤ 2 ^ 53
  | (_, .setQuota _ quota) => quota.toInt.natAbs ≤ 2 ^ 53
  | (_, .setOwner _ uid gid) => (uid < 0 → uid = -1) ∧ (gid < 0 → gid = -1)
  | _ => True

theorem Sound.edit {host : Host} {slot : Nat}
    {cell : Option Volume} (sound : Sound s) (edits : Edits s slot cell)
    (exact : ∀ w, cell = some w → Exact w) (written : host.written = true) :
    Sound (State.save host { s with volumes := s.volumes.put slot cell }) := by
  have inside : slot < volumeMax := by
    cases edits with
    | clear held => exact Slots.lt_of_get held
    | alter held same => exact Slots.lt_of_get held
    | add inside free unknown valid => exact inside
  have exactAll : ∀ v ∈ (s.volumes.put slot cell).entries, Exact v := by
    intro v mem
    rcases Slots.mem_entries_put mem with old | new
    · exact sound.exact v old
    · exact exact v new
  have validAll : ∀ v ∈ (s.volumes.put slot cell).entries, volumeNameIsValid v.name.str = true := by
    intro v mem
    rcases Slots.mem_entries_put mem with old | new
    · exact sound.valid v old
    · cases edits with
      | clear held => cases new
      | alter held same =>
        rw [Option.some.inj new] at same
        rw [same]
        exact sound.valid _ (Slots.mem_entries_iff_get.mpr ⟨slot, held⟩)
      | add inside free unknown valid =>
        rw [← Option.some.inj new]
        exact valid
  rw [State.save, if_pos written]
  refine ⟨validAll, ?_, exactAll, ?_⟩
  · -- the new record shares its name with no other slot
    have alone : ∀ j b w, cell = some w → j ≠ slot →
        s.volumes.get j = some b → b.name ≠ w.name := by
      intro j b w isCell apart held same
      cases edits with
      | clear => cases isCell
      | alter before kept =>
        rw [Option.some.inj isCell] at kept
        exact apart (sound.distinct j slot b _ held before (same.trans kept))
      | add inside free unknown valid =>
        rw [← Option.some.inj isCell] at same
        have other := Slots.find_eq_none unknown held
        simp [same] at other
    intro i j a b heldA heldB same
    rcases Slots.get_of_get_put heldA with ⟨isI, newA⟩ | ⟨apartI, oldA⟩
    · rcases Slots.get_of_get_put heldB with ⟨isJ, _⟩ | ⟨apartJ, oldB⟩
      · rw [isI, isJ]
      · exact absurd (Eq.symm same) (alone j b a newA apartJ oldB)
    · rcases Slots.get_of_get_put heldB with ⟨isJ, newB⟩ | ⟨apartJ, oldB⟩
      · exact absurd same (alone i a b newB apartI oldA)
      · exact sound.distinct i j a b oldA oldB same
  · exact loadState_listText host exactAll validAll (Slots.length_entries_le _)

theorem exact_newVolume {host : Host} (name disk : CStr) (clock : host.now.toInt.natAbs ≤ 2 ^ 53) :
    Exact (newVolume host name disk) where
  created := clock
  lastBackup := Nat.zero_le _
  quota := Nat.zero_le _
  uid := fun _ => rfl
  gid := fun _ => rfl

theorem retained_retained (v : Volume) : v.retained.retained = v.retained := by
  have twice : reportedRetain (reportedRetain v.backupRetain) = reportedRetain v.backupRetain := by
    unfold reportedRetain
    by_cases positive : 0 < v.backupRetain
    · rw [if_pos positive, if_pos positive]
    · rw [if_neg positive]
      rfl
  simp only [Volume.retained, twice]

theorem Sound.reload (sound : Sound s) : Sound (volumeInit s).2 := by
  have entries : (volumeInit s).2.volumes.entries = s.volumes.entries.map Volume.retained := by
    rw [volumeInit, sound.saved, Option.getD_some]
    apply Slots.entries_ofEntries
    rw [length_map]
    exact Slots.length_entries_le _
  have distinct := sound.durable.distinct
  constructor
  · intro v mem
    rw [entries] at mem
    obtain ⟨old, oldMember, rfl⟩ := mem_map.mp mem
    exact sound.valid old oldMember
  · intro i j a b heldA heldB same
    have apart : (s.volumes.entries.map Volume.retained).Pairwise fun a b => a.name ≠ b.name :=
      pairwise_map.mpr distinct
    rw [volumeInit, sound.saved, Option.getD_some] at heldA heldB
    rcases Nat.lt_trichotomy i j with less | equal | more
    · exact absurd same (Slots.pairwise_ofEntries apart less heldA heldB)
    · exact equal
    · exact absurd (Eq.symm same) (Slots.pairwise_ofEntries apart more heldB heldA)
  · intro v mem
    rw [entries] at mem
    obtain ⟨old, oldMember, rfl⟩ := mem_map.mp mem
    have exact := sound.exact old oldMember
    exact ⟨exact.created, exact.lastBackup, exact.quota, exact.uid, exact.gid⟩
  · rw [entries]
    change loadState s.file = _
    rw [sound.saved, map_map]
    congr 1
    apply map_congr_left
    intro v _
    exact Eq.symm (retained_retained v)

theorem save_unwritten {host : Host}
    (unwritten : host.written = false) : s.save host = s := by
  rw [State.save, unwritten]
  rfl

theorem Sound.change {host : Host} {name : CStr}
    {edit : Volume → Volume} (sound : Sound s)
    (named : ∀ v, (edit v).name = v.name)
    (exact : ∀ v, Exact v → Exact (edit v))
    (undoes : host.written = true ∨ Unchanged s name edit) :
    Sound (change host name edit s).2 := by
  rcases change_cases host name edit s with
    ⟨_, refused⟩ | ⟨slot, v, found, changed⟩
  · rw [refused]
    exact sound
  · have held := (get_of_findSlot found).1
    rw [changed]
    cases written : host.written with
    | true =>
      apply sound.edit (Edits.alter held (named v)) _ written
      intro w isEdit
      rw [← Option.some.inj isEdit]
      exact exact v (sound.exact v (Slots.mem_entries_iff_get.mpr ⟨slot, held⟩))
    | false =>
      have same : edit v = v := by
        rcases undoes with isWritten | unchanged
        · rw [written] at isWritten
          cases isWritten
        · exact unchanged slot v found
      rw [save_unwritten written, same, Slots.put_get held]
      exact sound

theorem Sound.step {input : Host × Request} (sound : Sound s)
    (undoes : Undoes s input) (inRange : InRange input) :
    Sound (step s input) := by
  obtain ⟨host, request⟩ := input
  cases request with
  | create name disk =>
    change Sound (volumeCreate host name disk s).2
    rcases volumeCreate_cases host name disk s with
      same | ⟨written, slot, edits, created⟩
    · rw [same]
      exact sound
    · rw [created]
      apply sound.edit edits _ written
      intro w isNew
      rw [← Option.some.inj isNew]
      exact exact_newVolume name disk inRange
  | migrate name disk =>
    change Sound (volumeMigrate host name disk s).2
    rcases volumeMigrate_cases host name disk s with
      same | ⟨written, slot, v, held, moved⟩
    · rw [same]
      exact sound
    · rw [moved]
      apply sound.edit (Edits.alter (w := v.onDisk disk) held rfl) _ written
      intro w isMoved
      rw [← Option.some.inj isMoved]
      have exact := sound.exact v (Slots.mem_entries_iff_get.mpr ⟨slot, held⟩)
      exact ⟨exact.created, exact.lastBackup, exact.quota, exact.uid,
        exact.gid⟩
  | delete name =>
    change Sound (volumeDelete host name s).2
    rcases volumeDelete_cases host name s with
      ⟨_, refused⟩ | ⟨slot, v, found, deleted⟩
    · rw [refused]
      exact sound
    · have written : host.written = true := by
        rcases undoes with written | unknown
        · exact written
        · rw [unknown] at found
          cases found
      rw [deleted]
      apply sound.edit (Edits.clear (get_of_findSlot found).1) _ written
      intro w impossible
      cases impossible
  | setOwner name uid gid =>
    refine Sound.change sound (fun v => rfl) ?_ undoes
    intro v exact
    exact ⟨exact.created, exact.lastBackup, exact.quota, inRange.1, inRange.2⟩
  | setBackupPolicy name enabled retain mode =>
    refine Sound.change sound (fun v => rfl) ?_ undoes
    intro v exact
    exact ⟨exact.created, exact.lastBackup, exact.quota, exact.uid,
      exact.gid⟩
  | setQuota name quota =>
    change Sound (volumeSetQuota host name quota s).2
    unfold volumeSetQuota
    by_cases unknown : (s.findSlot name).isNone = true
    · rw [if_pos unknown]
      exact sound
    rw [if_neg unknown]
    by_cases negative : quota < 0
    · rw [if_pos negative]
      exact sound
    rw [if_neg negative]
    refine Sound.change sound (fun v => rfl) ?_
      (undoes.imp_right fun either => either.resolve_left negative)
    intro v exact
    exact ⟨exact.created, exact.lastBackup, inRange, exact.uid, exact.gid⟩
  | reload => exact sound.reload

theorem sound_fresh : Sound State.fresh where
  valid := by
    intro v mem
    rw [State.fresh, Slots.entries_empty] at mem
    cases mem
  distinct := by
    intro i j a b held
    rw [State.fresh, Slots.get_empty] at held
    cases held
  exact := by
    intro v mem
    rw [State.fresh, Slots.entries_empty] at mem
    cases mem
  saved := by
    rw [State.fresh, Slots.entries_empty]
    rfl

/-- In every run whose requests undo their failed writes and have numbers in
range, names stay distinct and valid and the state file gives back the
records; a failed write leaves the table as it was in such runs, and for any
one request exactly if it undoes it. -/
theorem volumes_durable {inputs : List (Host × Request)}
    (guarded : Guarded step (fun s input => Undoes s input ∧ InRange input) State.fresh inputs) :
    Throughout step Durable State.fresh inputs ∧
      (∀ before input after, inputs = before ++ input :: after →
        Atomic (run step State.fresh before) (serve (run step State.fresh before) input)) ∧
      ∀ s input, Atomic s (serve s input) ↔ Undoes s input := by
  refine ⟨?_, ?_, atomic_iff_undoes⟩
  · have sound := guarded.throughout Sound
      (fun s input sound guard => sound.step guard.1 guard.2) sound_fresh
    exact sound.mono fun s => Sound.durable
  · intro before input after equality
    exact (atomic_iff_undoes _ _).mpr (guarded before input after equality).1

def plainHost (written : Bool) : Host where
  disks := []
  role _ := none
  volumesDir := "/volumes"
  parentMade := true
  subvolumeMade := true
  copied := true
  written := written
  now := 1000

def data : CStr := "data"

def ownedVolume : List (Host × Request) :=
  [(plainHost true, .create data CStr.empty), (plainHost false, .create "logs" CStr.empty),
    (plainHost true, .setOwner data 1000 1000),
    (plainHost true, .reload)]

theorem ownedVolume_durable : Throughout step Durable State.fresh ownedVolume := by
  refine (volumes_durable ?_).1
  have clock : (1000 : Int64).toInt.natAbs ≤ 2 ^ 53 := by decide
  refine Guarded.cons ⟨trivial, clock⟩ (Guarded.cons ⟨trivial, clock⟩
    (Guarded.cons ⟨Or.inl rfl, by decide, by decide⟩
      (Guarded.cons ⟨trivial, trivial⟩ (guarded_nil _ _))))

/-- An owner whose write fails stays in memory. -/
theorem owner_kept_unsaved : ¬ Atomic (step State.fresh (plainHost true, .create data CStr.empty))
      (serve (step State.fresh (plainHost true, .create data CStr.empty))
        (plainHost false, .setOwner data 1000 1000)) := by
  rw [atomic_iff_undoes]
  rintro (written | unchanged)
  · cases written
  · have found : (step State.fresh (plainHost true, .create data CStr.empty)).findSlot data =
          some (0, newVolume (plainHost true) data CStr.empty) := by
      decide +kernel
    have same := unchanged 0 _ found
    revert same
    decide

end Cix.Volume
