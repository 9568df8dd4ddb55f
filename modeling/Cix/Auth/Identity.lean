import Cix.Auth.Grants
import Cix.Ldap.Persistence
import Mathlib.Data.List.Dedup

/-!
# A gid stands for one group

Membership is by gid, so two groups with one gid share their members and what
they may do.  `ldap_group_update` and `ldap_gid_alloc` look for a group that
has the gid already; `ldap_group_create` looks for the name only.
-/

namespace Cix.Auth

open Cix.Lib Cix.Json Cix.Ldap List

variable {d : Directory}

def gidInUse (gid : Int32) (d : Directory) : Bool :=
  (d.groups.entries.any fun g => g.gidnumber = gid) || d.users.entries.any fun u =>
      u.primarygroup = gid || u.secondaryGroups.any fun own => own = gid

/-- The loop of `ldap_gid_alloc`, for that many turns. -/
def gidFrom (d : Directory) : (turns : Nat) → Int32 → Int32
  | 0, gid => gid
  | turns + 1, gid => if gidInUse gid d then gidFrom d turns (gid + 1) else gid

def gidsMax : Nat := 64 + 256 * 17

/-- `ldap_gid_alloc` with `start_gid` of the configuration.  The loop ends, as
more gids than `gidsMax` are not in use. -/
def ldapGidAlloc (startGid : Int32) (d : Directory) : Int32 :=
  gidFrom d (gidsMax + 1) startGid

def gidsOf (d : Directory) : List Int32 :=
  d.groups.entries.map Group.gidnumber ++
    d.users.entries.flatMap fun u => u.primarygroup :: u.secondaryGroups

theorem gidInUse_iff {gid : Int32} : gidInUse gid d = true ↔ gid ∈ gidsOf d := by
  simp only [gidInUse, gidsOf, Bool.or_eq_true, any_eq_true,
    decide_eq_true_eq, mem_append, mem_map, mem_flatMap,
    mem_cons, exists_eq_right]
  constructor
  · rintro (group | ⟨u, mem, primary | secondary⟩)
    · exact Or.inl group
    · exact Or.inr ⟨u, mem, Or.inl primary.symm⟩
    · exact Or.inr ⟨u, mem, Or.inr secondary⟩
  · rintro (group | ⟨u, mem, primary | secondary⟩)
    · exact Or.inl group
    · exact Or.inr ⟨u, mem, Or.inl primary.symm⟩
    · exact Or.inr ⟨u, mem, Or.inr secondary⟩

theorem length_gidsOf (d : Directory) : (gidsOf d).length ≤ gidsMax := by
  have groups := d.groups.length_entries_le
  have users := d.users.length_entries_le
  have each : ∀ records : List User, (records.flatMap fun u =>
      u.primarygroup :: u.secondaryGroups).length ≤ records.length * 17 := by
    intro records
    induction records with
    | nil => simp
    | cons u rest ih =>
      have count := u.secondaryCount
      simp only [flatMap_cons, length_append, length_cons]
      omega
  have all := each d.users.entries
  rw [gidsOf, length_append, length_map, gidsMax]
  omega

theorem gidFrom_cases (d : Directory) (turns : Nat) (gid : Int32) :
    gidInUse (gidFrom d turns gid) d = false ∨
      ∀ k < turns, gidInUse (gid + Int32.ofNat k) d = true := by
  induction turns generalizing gid with
  | zero => exact Or.inr fun k less => absurd less (Nat.not_lt_zero k)
  | succ turns ih =>
    rw [gidFrom]
    by_cases used : gidInUse gid d = true
    · rw [if_pos used]
      rcases ih (gid + 1) with free | passed
      · exact Or.inl free
      · right
        intro k less
        cases k with
        | zero =>
          rw [show gid + Int32.ofNat 0 = gid by simp]
          exact used
        | succ k =>
          have next := passed k (Nat.lt_of_succ_lt_succ less)
          rw [show gid + Int32.ofNat (k + 1) = gid + 1 + Int32.ofNat k by
              rw [Int32.ofNat_add, Int32.add_assoc, Int32.add_comm (Int32.ofNat k)]
              rfl]
          exact next
    · rw [if_neg used]
      exact Or.inl (Bool.not_eq_true _ ▸ used)

theorem offset_injective (gid : Int32) {i j : Nat} (smallI : i ≤ gidsMax) (smallJ : j ≤ gidsMax)
    (same : gid + Int32.ofNat i = gid + Int32.ofNat j) : i = j := by
  have offsets := (Int32.add_right_inj gid).mp same
  have values := congrArg Int32.toInt offsets
  rw [gidsMax] at smallI smallJ
  rw [Int32.toInt_ofNat_of_lt (by omega), Int32.toInt_ofNat_of_lt (by omega)] at values
  exact_mod_cast values

theorem ldapGidAlloc_free (startGid : Int32) (d : Directory) :
    gidInUse (ldapGidAlloc startGid d) d = false := by
  rcases gidFrom_cases d (gidsMax + 1) startGid with free | passed
  · exact free
  · exfalso
    have distinct : ((List.range (gidsMax + 1)).map fun k =>
        startGid + Int32.ofNat k).Nodup := by
      apply List.Nodup.map_on _ nodup_range
      intro i memberI j memberJ same
      rw [mem_range] at memberI memberJ
      exact offset_injective startGid (Nat.le_of_lt_succ memberI) (Nat.le_of_lt_succ memberJ) same
    have inside : ((List.range (gidsMax + 1)).map fun k =>
        startGid + Int32.ofNat k) ⊆ gidsOf d := by
      intro gid mem
      obtain ⟨k, less, rfl⟩ := mem_map.mp mem
      exact gidInUse_iff.mp (passed k (mem_range.mp less))
    have bound := (distinct.subperm inside).length_le
    rw [length_map, length_range] at bound
    have few := length_gidsOf d
    omega

def GroupsDiffer (g h : Group) : Prop :=
  g.name ≠ h.name ∧ g.gidnumber ≠ h.gidnumber

def DistinctGroups (groups : Slots Group 64) : Prop :=
  ∀ i j g h, i ≠ j → groups.get i = some g → groups.get j = some h → GroupsDiffer g h

structure Identified (d : Directory) : Prop where
  table : DistinctGroups d.groups
  file : ∀ text, d.groupsFile = some text →
    ∃ groups : List Group, text = groupsText groups ∧ groups.Pairwise GroupsDiffer

theorem GroupsDiffer.symm {g h : Group} (differs : GroupsDiffer g h) :
    GroupsDiffer h g :=
  ⟨differs.1.symm, differs.2.symm⟩

theorem DistinctGroups.entries {groups : Slots Group 64} (distinct : DistinctGroups groups) :
    groups.entries.Pairwise GroupsDiffer :=
  Slots.entries_pairwise fun i j g h less heldG heldH =>
    distinct i j g h (Nat.ne_of_lt less) heldG heldH

theorem distinctGroups_ofEntries {groups : List Group} (distinct : groups.Pairwise GroupsDiffer) :
    DistinctGroups (Slots.ofEntries 64 groups) := by
  intro i j g h different heldG heldH
  rcases Nat.lt_or_gt_of_ne different with less | greater
  · exact Slots.pairwise_ofEntries distinct less heldG heldH
  · exact (Slots.pairwise_ofEntries distinct greater heldH heldG).symm

theorem DistinctGroups.put {groups : Slots Group 64}
    (distinct : DistinctGroups groups) {slot : Nat} {cell : Option Group}
    (fresh : ∀ g, cell = some g → ∀ j h, j ≠ slot → groups.get j = some h → GroupsDiffer g h) :
    DistinctGroups (groups.put slot cell) := by
  intro i j g h different heldG heldH
  rcases Slots.get_of_get_put heldG with ⟨rfl, isG⟩ | ⟨otherI, oldG⟩
  · rcases Slots.get_of_get_put heldH with ⟨rfl, _⟩ | ⟨otherJ, oldH⟩
    · exact absurd rfl different
    · exact fresh g isG j h otherJ oldH
  · rcases Slots.get_of_get_put heldH with ⟨rfl, isH⟩ | ⟨otherJ, oldH⟩
    · exact (fresh h isH i g otherI oldG).symm
    · exact distinct i j g h different oldG oldH

theorem Identified.saveGroupsState {d : Directory} (identified : Identified d)
    (written : Bool) : Identified (saveGroupsState written d) := by
  cases written with
  | false => exact identified
  | true =>
    refine ⟨identified.table, ?_⟩
    intro text isText
    cases isText
    exact ⟨d.groups.entries, rfl, identified.table.entries⟩

theorem Identified.put (identified : Identified d) {slot : Nat}
    {cell : Option Group} (fresh : ∀ g, cell = some g → ∀ j h, j ≠ slot →
      d.groups.get j = some h → GroupsDiffer g h) :
    Identified { d with groups := d.groups.put slot cell } :=
  ⟨identified.table.put fresh, identified.file⟩

theorem Identified.clear (identified : Identified d) (slot : Nat) :
    Identified { d with groups := d.groups.put slot none } := by
  apply identified.put
  intro g isG
  cases isG

/-- The tests of `ldap_group_create` pass: the name is a new one, the gid is
positive and there is room. -/
def createPasses (name : Option CStr) (gidnumber : Int32) (d : Directory) :
    Bool :=
  (name.any fun name =>
    ldapGroupnameIsValid name && (ldapGroupFind name d).isNone) &&
    decide (0 < gidnumber) && d.groups.firstFree.isSome

theorem Identified.groupCreate (identified : Identified d) {written : Bool}
    {name : Option CStr} {gidnumber : Int32}
    (fresh : written = true → createPasses name gidnumber d = true →
      ldapGroupFindByGid gidnumber d = none) :
    Identified (ldapGroupCreate written name gidnumber d).1 := by
  unfold ldapGroupCreate
  split
  · exact identified
  next name =>
    split
    next valid =>
      split
      · exact identified
      next positive =>
        split
        · exact identified
        next unused =>
          split
          · exact identified
          next slot free =>
            have missing := Option.not_isSome_iff_eq_none.mp unused
            have passes : createPasses (some name) gidnumber d =
                true := by
              simp [createPasses, valid, missing, free, Int32.not_le.mp positive]
            dsimp only
            split
            next isWritten =>
              have unheld := fresh isWritten passes
              refine Identified.saveGroupsState (identified.put ?_) true
              intro g isG j h _ held
              cases isG
              have otherName := Slots.find_eq_none missing held
              have otherGid := Slots.find_eq_none unheld held
              rw [decide_eq_false_iff_not] at otherName otherGid
              refine ⟨?_, Ne.symm otherGid⟩
              intro same
              exact otherName (congrArg BoundedStr.str same).symm
            next => exact identified.clear slot
    next => exact identified

theorem Identified.commitGroup {d : Directory} (identified : Identified d)
    (written propagated rewritten renames : Bool) {slot : Nat}
    {old new : Group} (held : d.groups.get slot = some old)
    (fresh : ∀ j h, j ≠ slot → d.groups.get j = some h → GroupsDiffer new h) :
    Identified (commitGroup written propagated rewritten slot old new renames d).1 := by
  have changed : Identified { d with groups := d.groups.put slot (some new) } :=
    identified.put fun g isG j h other heldH => by
      cases isG
      exact fresh j h other heldH
  have back : DistinctGroups ((d.groups.put slot (some new)).put slot (some old)) := by
    rw [Slots.put_put, Slots.put_get held]
    exact identified.table
  unfold Ldap.commitGroup
  dsimp only
  split
  · have saved := changed.saveGroupsState true
    split
    · apply Identified.saveGroupsState
      exact ⟨back, saved.file⟩
    · exact saved
  · exact ⟨back, identified.file⟩

theorem other_gid {d : Directory} {slot : Nat} {gidnumber : Int32} (table : DistinctGroups d.groups)
    (free : ¬ ((ldapGroupFindByGid gidnumber d).any fun other =>
      other.1 ≠ slot) = true) {j : Nat} {h : Group} (other : j ≠ slot)
    (held : d.groups.get j = some h) : gidnumber ≠ h.gidnumber := by
  intro same
  cases found : ldapGroupFindByGid gidnumber d with
  | none =>
    have differs := Slots.find_eq_none found held
    simp [same] at differs
  | some result =>
    obtain ⟨index, g⟩ := result
    obtain ⟨heldG, isGid⟩ := Slots.get_of_find found
    rw [found] at free
    have isSlot : index = slot := by simpa using free
    have differs := table j index h g (by rw [isSlot]; exact other) held heldG
    simp only [decide_eq_true_eq] at isGid
    exact differs.2 (same.symm.trans isGid.symm)

theorem Identified.groupUpdate (identified : Identified d)
    (written propagated rewritten : Bool) (name : CStr) (newName : Option CStr)
    (gidnumber : Int32) :
    Identified (ldapGroupUpdate written propagated rewritten name newName gidnumber d).1 := by
  unfold ldapGroupUpdate
  split
  · exact identified
  next slot g found =>
    have held := (Slots.get_of_find found).1
    split
    · exact identified
    · dsimp only
      split
      · split
        · exact identified
        next free =>
          apply identified.commitGroup _ _ _ _ held
          intro j h other heldH
          have named := (identified.table slot j g h (Ne.symm other) held heldH).1
          exact ⟨named, other_gid identified.table free other heldH⟩
      next target renames =>
        split
        next valid =>
          split
          · exact identified
          next unused =>
            split
            · exact identified
            next free =>
              apply identified.commitGroup _ _ _ _ held
              intro j h other heldH
              have otherName := Slots.find_eq_none (Option.not_isSome_iff_eq_none.mp unused) heldH
              simp only [decide_eq_false_iff_not] at otherName
              refine ⟨?_, other_gid identified.table free other heldH⟩
              intro same
              exact otherName (congrArg BoundedStr.str same).symm
        next => exact identified

theorem Identified.restart (identified : Identified d) : Identified (ldapRecordInit d) := by
  have cleared : DistinctGroups (Slots.empty 64) := by
    intro i j g h _ held
    rw [Slots.get_empty] at held
    cases held
  simp only [ldapRecordInit]
  split
  · exact ⟨cleared, identified.file⟩
  next groups loaded =>
    have distinct : DistinctGroups groups := by
      cases isFile : d.groupsFile with
      | none =>
        rw [isFile] at loaded
        cases loaded
        exact cleared
      | some text =>
        obtain ⟨saved, rfl, apart⟩ := identified.file text isFile
        rw [isFile, loadGroupsState_groupsText] at loaded
        cases loaded
        exact distinctGroups_ofEntries apart
    split
    · exact ⟨distinct, identified.file⟩
    · exact ⟨distinct, identified.file⟩

theorem Identified.groupDelete (identified : Identified d) (written : Bool)
    (name : CStr) : Identified (ldapGroupDelete written name d).1 := by
  unfold ldapGroupDelete
  split
  · exact identified
  next slot g found => exact (identified.clear slot).saveGroupsState written

def SameGroups (d d' : Directory) : Prop :=
  d'.groups = d.groups ∧ d'.groupsFile = d.groupsFile

theorem Identified.sameGroups {d' : Directory} (identified : Identified d)
    (same : SameGroups d d') : Identified d' := by
  refine ⟨?_, ?_⟩
  · rw [same.1]
    exact identified.table
  · rw [same.2]
    exact identified.file

theorem sameGroups_saveUsersState (written : Bool) (users : Slots User 256) (d : Directory) :
    SameGroups d (saveUsersState written { d with users := users }) := by
  cases written with
  | true => exact ⟨rfl, rfl⟩
  | false => exact ⟨rfl, rfl⟩

theorem sameGroups_commitUser (written : Bool) (slot : Nat)
    (filled renamed : User) (d : Directory) :
    SameGroups d (commitUser written slot filled renamed d).1 := by
  unfold commitUser
  split
  · exact ⟨rfl, rfl⟩
  · exact ⟨rfl, rfl⟩

theorem sameGroups_ldapUserCreate (written overlaps : Bool)
    (name : Option CStr) (f : UserFields) (owner : Option CStr)
    (canSearch : Bool) (d : Directory) :
    SameGroups d (ldapUserCreate written overlaps name f owner canSearch d).1 := by
  simp only [ldapUserCreate]
  repeat' split
  all_goals exact ⟨rfl, rfl⟩

theorem sameGroups_ldapUserUpdate (written overlaps : Bool) (name : CStr)
    (newName : Option CStr) (f : UserFields) (canSearch : Bool)
    (d : Directory) :
    SameGroups d (ldapUserUpdate written overlaps name newName f canSearch d).1 := by
  simp only [ldapUserUpdate]
  repeat' split
  all_goals first
    | exact ⟨rfl, rfl⟩
    | exact sameGroups_commitUser _ _ _ _ d

theorem sameGroups_ldapUserUpdateOwn (written overlaps : Bool) (name : CStr)
    (uidnumber primarygroup : Int32) (hash : CStr) (canSearch : Bool)
    (d : Directory) :
    SameGroups d (ldapUserUpdateOwn written overlaps name uidnumber
      primarygroup hash canSearch d).1 := by
  simp only [ldapUserUpdateOwn]
  repeat' split
  all_goals first
    | exact ⟨rfl, rfl⟩
    | exact sameGroups_commitUser _ _ _ _ d

theorem sameGroups_ldapUserDelete (written : Bool) (name : CStr)
    (d : Directory) : SameGroups d (ldapUserDelete written name d).1 := by
  unfold ldapUserDelete
  split
  · exact ⟨rfl, rfl⟩
  · exact sameGroups_saveUsersState written _ d

theorem sameGroups_ldapUserForgetOwner (written : Bool) (container : CStr) (d : Directory) :
    SameGroups d (ldapUserForgetOwner written container d) := by
  unfold ldapUserForgetOwner
  split
  · exact ⟨rfl, rfl⟩
  · exact sameGroups_saveUsersState written _ d

theorem sameGroups_ldapAppPasswordAdd (written : Bool) (now : Clock)
    (userName : CStr) (appName hash : Option CStr) (d : Directory) :
    SameGroups d (ldapAppPasswordAdd written now userName appName hash d).1 := by
  simp only [ldapAppPasswordAdd, commitApps]
  repeat' split
  all_goals exact ⟨rfl, rfl⟩

theorem sameGroups_ldapAppPasswordDelete (written : Bool) (userName : CStr)
    (appName : Option CStr) (d : Directory) :
    SameGroups d (ldapAppPasswordDelete written userName appName d).1 := by
  simp only [ldapAppPasswordDelete, commitApps]
  repeat' split
  all_goals exact ⟨rfl, rfl⟩

def GidFresh (d : Directory) (op : Ldap.Op) : Prop :=
  ∀ name gidnumber, op = .groupCreate true name gidnumber →
    createPasses name gidnumber d = true → ldapGroupFindByGid gidnumber d = none

/-- The stores that the calls lead to, where `allocated` is a create with a
gid of `ldap_gid_alloc`. -/
inductive GroupRun : Directory → Prop
  | start : GroupRun firstStart
  | call {d : Directory} {op : Ldap.Op} (earlier : GroupRun d)
      (fresh : GidFresh d op) : GroupRun (Ldap.step d op)
  | allocated {d : Directory} (earlier : GroupRun d) (written : Bool)
      (name : Option CStr) (startGid : Int32) :
      GroupRun (ldapGroupCreate written name (ldapGidAlloc startGid d) d).1

theorem Identified.step {d : Directory} (identified : Identified d)
    {op : Ldap.Op} (fresh : GidFresh d op) : Identified (Ldap.step d op) := by
  cases op with
  | groupCreate written name gidnumber =>
    apply identified.groupCreate
    intro isWritten passes
    subst isWritten
    exact fresh name gidnumber rfl passes
  | groupDelete written name => exact identified.groupDelete written name
  | groupUpdate written propagated rewritten name newName gidnumber =>
    exact identified.groupUpdate written propagated rewritten name newName gidnumber
  | userCreate written overlaps name fields owner canSearch =>
    exact identified.sameGroups (sameGroups_ldapUserCreate written overlaps
      name fields owner canSearch d)
  | userUpdate written overlaps name newName fields canSearch =>
    exact identified.sameGroups (sameGroups_ldapUserUpdate written overlaps
      name newName fields canSearch d)
  | userUpdateOwn written overlaps name uidnumber primarygroup hash
      canSearch =>
      exact identified.sameGroups (sameGroups_ldapUserUpdateOwn written
        overlaps name uidnumber primarygroup hash canSearch d)
  | userDelete written name =>
    exact identified.sameGroups (sameGroups_ldapUserDelete written name d)
  | userForgetOwner written container =>
    exact identified.sameGroups (sameGroups_ldapUserForgetOwner written container d)
  | appPasswordAdd written now userName appName hash =>
    exact identified.sameGroups (sameGroups_ldapAppPasswordAdd written now userName appName hash d)
  | appPasswordDelete written userName appName =>
    exact identified.sameGroups (sameGroups_ldapAppPasswordDelete written userName appName d)
  | restart => exact identified.restart

theorem ldapGroupFindByGid_alloc (startGid : Int32) (d : Directory) :
    ldapGroupFindByGid (ldapGidAlloc startGid d) d = none := by
  cases found : ldapGroupFindByGid (ldapGidAlloc startGid d) d with
  | none => rfl
  | some result =>
    obtain ⟨slot, g⟩ := result
    have holds := (Slots.get_of_find found).2
    have mem := Slots.mem_entries_of_find found
    have used : gidInUse (ldapGidAlloc startGid d) d = true := by
      rw [gidInUse, Bool.or_eq_true, any_eq_true]
      exact Or.inl ⟨g, mem, holds⟩
    rw [ldapGidAlloc_free] at used
    cases used

theorem GroupRun.identified {d : Directory} (run : GroupRun d) :
    Identified d := by
  induction run with
  | start =>
    refine ⟨?_, ?_⟩
    · intro i j g h _ held
      rw [firstStart, Slots.get_empty] at held
      cases held
    · intro text isText
      cases isText
  | call _ fresh ih => exact ih.step fresh
  | allocated _ written name startGid ih =>
    apply ih.groupCreate
    intro _ _
    exact ldapGroupFindByGid_alloc startGid _

def MemberThrough (gid : Int32) (userName groupName : CStr) (d : Directory) :
    Prop :=
  ldapUserIsInGroup userName groupName d = true ∧
    ∃ slot g, ldapGroupFind groupName d = some (slot, g) ∧ g.gidnumber = gid

def GroupIdentity (d : Directory) : Prop :=
  (∀ i j g h, d.groups.get i = some g → d.groups.get j = some h → i ≠ j →
    g.name.str ≠ h.name.str ∧ g.gidnumber ≠ h.gidnumber) ∧
  (∀ slot g, d.groups.get slot = some g → ldapGroupFindByGid g.gidnumber d = some (slot, g)) ∧
  ∀ gid userName first second, MemberThrough gid userName first d →
    MemberThrough gid userName second d → first = second

theorem Identified.groupIdentity (identified : Identified d) :
    GroupIdentity d := by
  have table := identified.table
  refine ⟨?_, ?_, ?_⟩
  · intro i j g h heldG heldH different
    have differs := table i j g h different heldG heldH
    refine ⟨?_, differs.2⟩
    intro same
    exact differs.1 (BoundedStr.ext same)
  · intro slot g held
    apply Slots.find_of_unique held (decide_eq_true rfl)
    intro j other heldOther same
    by_contra different
    exact (table j slot other g different heldOther held).2 (of_decide_eq_true same)
  · intro gid userName first second ⟨_, i, g, foundG, gidG⟩ ⟨_, j, h, foundH, gidH⟩
    obtain ⟨heldG, namedG⟩ := Slots.get_of_find foundG
    obtain ⟨heldH, namedH⟩ := Slots.get_of_find foundH
    have sameSlot : i = j := by
      by_contra different
      exact (table i j g h different heldG heldH).2 (gidG.trans gidH.symm)
    subst sameSlot
    rw [heldG] at heldH
    cases heldH
    exact (of_decide_eq_true namedG).symm.trans (of_decide_eq_true namedH)

/-- Where no create gives a new group the gid of another, a gid stands for
one group after every sequence of calls. -/
theorem gid_identifies {d : Directory} (run : GroupRun d) :
    GroupIdentity d :=
  run.identified.groupIdentity

/-- `staff` with an allocated gid. -/
def staffed : Directory :=
  (ldapGroupCreate true (some "staff") (ldapGidAlloc 10000 firstStart) firstStart).1

/-- Then `wheel` with a gid of its own, and an update of it to that of `staff`. -/
def staffedTwice : Directory :=
  Ldap.step (Ldap.step staffed (.groupCreate true (some "wheel") 20000))
    (.groupUpdate true true true "wheel" none 10000)

theorem gid_identifies_staffed :
    staffedTwice.groups.entries.map (fun g => (g.name.str, g.gidnumber)) =
        ([("staff", 10000), ("wheel", 20000)] : List (CStr × Int32)) ∧
      GroupIdentity staffedTwice := by
  refine ⟨by decide +kernel, gid_identifies (GroupRun.call (GroupRun.call
    (GroupRun.allocated GroupRun.start true _ 10000) ?_) ?_)⟩
  · rintro name gidnumber ⟨⟩ _
    exact Option.isNone_iff_eq_none.mp (by decide +kernel)
  · rintro name gidnumber ⟨⟩

/-- Two creates with one gid, which `ldap_group_create` accepts. -/
def twice : List Ldap.Op :=
  [.groupCreate true (some "staff") 10000, .groupCreate true (some "wheel") 10000]

theorem creates_share_gid : ¬ ∀ calls : List Ldap.Op,
      GroupIdentity (calls.foldl Ldap.step firstStart) := by
  intro always
  let d := twice.foldl Ldap.step firstStart
  have first : (d.groups.get 0).map Group.gidnumber = some 10000 := by decide +kernel
  have second : (d.groups.get 1).map Group.gidnumber = some 10000 := by decide +kernel
  obtain ⟨g, heldG, gidG⟩ := Option.map_eq_some_iff.mp first
  obtain ⟨h, heldH, gidH⟩ := Option.map_eq_some_iff.mp second
  have apart := (always twice).1 0 1 g h heldG heldH (by decide)
  exact apart.2 (gidG.trans gidH.symm)

end Cix.Auth
