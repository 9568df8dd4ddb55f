import Cix.Auth.Grants
import Cix.Lib.Machine

/-!
# Someone can always grant permissions

While a user holds `identity:write`, no guarded request leaves nobody holding
it, as long as each renaming of a group takes along the mapping entry that
grants it.  `hostauth_rename_admin_group` renames the first entry of the old
name, and the mapping can hold two entries of one name: a group that is renamed
to a name the mapping already has makes the second.
-/

namespace Cix.Auth

open Cix.Lib Cix.Ldap List

/-! ## Holding a permission -/

variable {d d' : Directory} {userName groupName name : CStr}
  {groups : List PermGroup} {g : Group} {s : Store}

def carries (primarygroup : Int32) (secondaryGroups : List Int32) (gid : Int32) : Bool :=
  primarygroup = gid || secondaryGroups.any fun other => other = gid

theorem ldapUserIsInGroup_iff : ldapUserIsInGroup userName groupName d = true ↔
      ∃ i u j g, ldapUserFind userName d = some (i, u) ∧
        u.disabled = false ∧ ldapGroupFind groupName d = some (j, g) ∧
        carries u.primarygroup u.secondaryGroups g.gidnumber = true := by
  unfold ldapUserIsInGroup
  constructor
  · intro mem
    split at mem
    next => cases mem
    next i u found =>
      split at mem
      next => cases mem
      next enabled =>
        split at mem
        next => cases mem
        next j g group =>
          exact ⟨i, u, j, g, found, Bool.eq_false_iff.mpr enabled, group, mem⟩
  · intro mem
    obtain ⟨i, u, j, g, found, enabled, group, inside⟩ := mem
    rw [found]
    dsimp only
    rw [enabled, if_neg Bool.false_ne_true, group]
    exact inside

theorem userHoldsUnder_iff {idx : Nat} : userHoldsUnder groups userName idx d = true ↔
      ∃ entry ∈ groups, entry.has idx = true ∧
        ldapUserIsInGroup userName entry.name.str d = true := by
  simp [userHoldsUnder, any_eq_true]

theorem name_of_ldapUserFind {i : Nat} {u : User}
    (found : ldapUserFind name d = some (i, u)) : u.name.str = name := by
  have holds := (Slots.get_of_find found).2
  simpa using holds

theorem name_of_ldapGroupFind {i : Nat}
    (found : ldapGroupFind name d = some (i, g)) : g.name.str = name := by
  have holds := (Slots.get_of_find found).2
  simpa using holds

theorem ldapUserForEach_of_member {f : CStr → Bool}
    (mem : ldapUserIsInGroup userName groupName d = true)
    (answers : f userName = true) : ldapUserForEach f d = true := by
  obtain ⟨i, u, _, _, found, _⟩ := ldapUserIsInGroup_iff.mp mem
  rw [ldapUserForEach, any_eq_true]
  refine ⟨u, Slots.mem_entries_of_find found, ?_⟩
  rw [name_of_ldapUserFind found]
  exact answers

theorem anyUserHolds_iff {idx : Nat} : anyUserHolds groups idx d = true ↔
      ∃ userName, ∃ entry ∈ groups, entry.has idx = true ∧
        ldapUserIsInGroup userName entry.name.str d = true := by
  constructor
  · intro holds
    rw [anyUserHolds, ldapUserForEach, any_eq_true] at holds
    obtain ⟨u, _, holder⟩ := holds
    exact ⟨u.name.str, userHoldsUnder_iff.mp holder⟩
  · intro holds
    obtain ⟨userName, entry, mem, has, inGroup⟩ := holds
    apply ldapUserForEach_of_member inGroup
    exact userHoldsUnder_iff.mpr ⟨entry, mem, has, inGroup⟩

theorem exists_elsewhere {skipUser skipGroup : Option CStr} {idx : Nat}
    (walked : ldapUserForEach (holdsElsewhere skipUser skipGroup idx s) s.directory = true) :
    ∃ userName, skipUser ≠ some userName ∧ ∃ entry ∈ s.permGroups,
      entry.has idx = true ∧ skipGroup ≠ some entry.name.str ∧
        ldapUserIsInGroup userName entry.name.str s.directory = true := by
  rw [ldapUserForEach, any_eq_true] at walked
  obtain ⟨u, _, holder⟩ := walked
  unfold holdsElsewhere at holder
  split at holder
  next => cases holder
  next other =>
    simp only [any_eq_true, Bool.and_eq_true, ne_eq, decide_not, Bool.not_eq_true'] at holder
    obtain ⟨entry, mem, ⟨has, elsewhere⟩, inGroup⟩ := holder
    refine ⟨u.name.str, other, entry, mem, has, ?_, inGroup⟩
    simpa using elsewhere

theorem isInGroup_of_found (mem : ldapUserIsInGroup userName groupName d = true)
    (sameUser : ldapUserFind userName d' = ldapUserFind userName d)
    (sameGroup : ldapGroupFind groupName d' = ldapGroupFind groupName d) :
    ldapUserIsInGroup userName groupName d' = true := by
  rw [ldapUserIsInGroup_iff] at mem ⊢
  rw [sameUser, sameGroup]
  exact mem

/-! ## Changes of a user -/

variable {slot : Nat} {entry : PermGroup} {newName : Option CStr}
  {gidnumber : Int32} {record : Group}

theorem ldapUserFind_put {cell : Option User}
    (before : ∀ u, d.users.get slot = some u → u.name.str ≠ name)
    (after : ∀ u, cell = some u → u.name.str ≠ name) :
    ldapUserFind name { d with users := d.users.put slot cell } =
      ldapUserFind name d := by
  apply Slots.find_put_of_not
  · intro u held
    simpa using before u held
  · intro u assigned
    simpa using after u assigned

theorem ldapGroupFind_put {cell : Option Group}
    (before : ∀ g, d.groups.get slot = some g → g.name.str ≠ name)
    (after : ∀ g, cell = some g → g.name.str ≠ name) :
    ldapGroupFind name { d with groups := d.groups.put slot cell } =
      ldapGroupFind name d := by
  apply Slots.find_put_of_not
  · intro g held
    simpa using before g held
  · intro g assigned
    simpa using after g assigned

@[simp]
theorem users_saveUsersState (written : Bool) (d : Directory) :
    (saveUsersState written d).users = d.users := by
  cases written <;> rfl

@[simp]
theorem groups_saveUsersState (written : Bool) (d : Directory) :
    (saveUsersState written d).groups = d.groups := by
  cases written <;> rfl

@[simp]
theorem users_saveGroupsState (written : Bool) (d : Directory) :
    (saveGroupsState written d).users = d.users := by
  cases written <;> rfl

@[simp]
theorem groups_saveGroupsState (written : Bool) (d : Directory) :
    (saveGroupsState written d).groups = d.groups := by
  cases written <;> rfl

theorem isInGroup_congr (users : d'.users = d.users) (groups : d'.groups = d.groups) :
    ldapUserIsInGroup userName groupName d' =
      ldapUserIsInGroup userName groupName d := by
  simp only [ldapUserIsInGroup, ldapUserFind, ldapGroupFind, users, groups]

theorem anyUserHolds_congr {entries : List PermGroup} {idx : Nat}
    (users : d'.users = d.users) (groups : d'.groups = d.groups) :
    anyUserHolds entries idx d' = anyUserHolds entries idx d := by
  simp only [anyUserHolds, ldapUserForEach, userHoldsUnder, isInGroup_congr users groups, users]

theorem users_commitUser (written : Bool) (slot : Nat) (filled renamed : User) (d : Directory) :
    (commitUser written slot filled renamed d).1.users =
      d.users.put slot (some (if written then renamed else filled)) := by
  cases written <;> rfl

theorem groups_commitUser (written : Bool) (slot : Nat) (filled renamed : User) (d : Directory) :
    (commitUser written slot filled renamed d).1.groups = d.groups := by
  cases written <;> rfl

/-- What `ldap_user_update` can leave: the tables as they were, or the found
record with the given groups and flag, under its own or an unused name. -/
theorem ldapUserUpdate_cases (written overlaps : Bool) (name : CStr)
    (newName : Option CStr) (f : UserFields) (canSearch : Bool)
    (d : Directory) :
    (ldapUserUpdate written overlaps name newName f canSearch d).1 = d ∨
      ∃ slot u record, ldapUserFind name d = some (slot, u) ∧
        (ldapUserUpdate written overlaps name newName f canSearch
          d).1.users = d.users.put slot (some record) ∧
        (ldapUserUpdate written overlaps name newName f canSearch d).1.groups = d.groups ∧
        record.primarygroup = f.primarygroup ∧
        record.secondaryGroups = f.secondaryGroups ∧
        record.disabled = f.disabled ∧
        (record.name.str = name ∨ ldapUserFind record.name.str d = none) := by
  unfold ldapUserUpdate
  split
  next => exact Or.inl rfl
  next slot u found =>
    have own := name_of_ldapUserFind found
    split
    next => exact Or.inl rfl
    next valid =>
      dsimp only
      split
      next =>
        refine Or.inr ⟨slot, u, _, found, users_commitUser _ _ _ _ _,
          groups_commitUser _ _ _ _ _, ?_⟩
        rw [ite_self]
        exact ⟨rfl, rfl, rfl, Or.inl own⟩
      next target renames =>
        split
        next validName =>
          split
          next => exact Or.inl rfl
          next unused =>
            refine Or.inr ⟨slot, u, _, found, users_commitUser _ _ _ _ _,
              groups_commitUser _ _ _ _ _, ?_⟩
            cases written with
            | true =>
              exact ⟨rfl, rfl, rfl, Or.inr (Option.not_isSome_iff_eq_none.mp unused)⟩
            | false => exact ⟨rfl, rfl, rfl, Or.inl own⟩
        next => exact Or.inl rfl

theorem ldapUserFind_changed {other : CStr} {u record : User}
    (found : ldapUserFind name d = some (slot, u))
    (users : d'.users = d.users.put slot (some record))
    (named : record.name.str = name ∨
      ldapUserFind record.name.str d = none) (different : name ≠ other)
    (known : (ldapUserFind other d).isSome = true) :
    ldapUserFind other d' = ldapUserFind other d := by
  have atSlot := (Slots.get_of_find found).1
  have own := name_of_ldapUserFind found
  have same : ldapUserFind other d' = ldapUserFind other
      { d with users := d.users.put slot (some record) } := by
    rw [ldapUserFind, users]
    rfl
  rw [same]
  apply ldapUserFind_put
  · intro held atSlot'
    rw [atSlot] at atSlot'
    cases atSlot'
    rw [own]
    exact different
  · intro assigned equal
    cases equal
    rcases named with unchanged | unused
    · rw [unchanged]
      exact different
    · intro clash
      rw [clash] at unused
      simp [unused] at known

theorem ldapUserFind_record {u record : User} (found : ldapUserFind name d = some (slot, u))
    (users : d'.users = d.users.put slot (some record))
    (named : record.name.str = name ∨ ldapUserFind record.name.str d = none) :
    ldapUserFind record.name.str d' = some (slot, record) := by
  rw [ldapUserFind, users]
  rcases named with unchanged | unused
  · rw [unchanged]
    apply Slots.find_put_found found
    simpa using unchanged
  · have inside := Slots.lt_of_get (Slots.get_of_find found).1
    exact Slots.find_put_of_none unused inside (by simp)

theorem exists_of_gidsHold {idx : Nat} {primarygroup : Int32}
    {secondaryGroups : List Int32} {disabled : Bool}
    (holds : gidsHold idx primarygroup secondaryGroups disabled s = true) :
    disabled = false ∧ ∃ entry ∈ s.permGroups, entry.has idx = true ∧
      ∃ j g, ldapGroupFind entry.name.str s.directory = some (j, g) ∧
        carries primarygroup secondaryGroups g.gidnumber = true := by
  unfold gidsHold at holds
  split at holds
  next => cases holds
  next enabled =>
    refine ⟨Bool.eq_false_iff.mpr enabled, ?_⟩
    simp only [any_eq_true, Bool.and_eq_true] at holds
    obtain ⟨entry, mem, has, inside⟩ := holds
    refine ⟨entry, mem, has, ?_⟩
    split at inside
    next => cases inside
    next j g group => exact ⟨j, g, group, inside⟩

section Steps

variable {vocabulary : List CStr} {idx : Nat}

def Held (idx : Nat) (s : Store) : Prop :=
  anyUserHolds s.permGroups idx s.directory = true

theorem gatingActive_of_held (position : permIndex vocabulary identityWrite = some idx) :
    hostauthGatingActive vocabulary s = true ↔ Held idx s := by
  rw [hostauthGatingActive, position, Held]

theorem Held.userUpdate (position : permIndex vocabulary identityWrite = some idx)
    (held : Held idx s) (written overlaps : Bool) (name : CStr)
    (newName : Option CStr) (f : UserFields) (canSearch : Bool) :
    Held idx (handleLdapUserUpdate vocabulary written overlaps name newName f canSearch s) := by
  unfold handleLdapUserUpdate
  split
  next keeps =>
    rcases ldapUserUpdate_cases written overlaps name newName f canSearch s.directory with
      same | ⟨slot, u, record, found, users, groups, primary, secondary, disabled, named⟩
    · rw [same]
      exact held
    · have sameGroup : ∀ groupName, ldapGroupFind groupName
          (ldapUserUpdate written overlaps name newName f canSearch
            s.directory).1 = ldapGroupFind groupName s.directory := by
        intro groupName
        rw [ldapGroupFind, groups]
        rfl
      have active := (gatingActive_of_held position).mpr held
      unfold hostauthUserChangeKeepsGrantor at keeps
      rw [position] at keeps
      dsimp only at keeps
      rw [active, if_neg (by simp)] at keeps
      apply anyUserHolds_iff.mpr
      split at keeps
      next walked =>
        obtain ⟨other, different, entry, mem, has, _, inGroup⟩ := exists_elsewhere walked
        refine ⟨other, entry, mem, has, ?_⟩
        obtain ⟨i, v, _, _, foundOther, _⟩ := ldapUserIsInGroup_iff.mp inGroup
        have sameUser := ldapUserFind_changed found users named
          (fun equal => different (by rw [equal]))
          (by rw [foundOther]; rfl)
        exact isInGroup_of_found inGroup sameUser (sameGroup _)
      next =>
        rw [Bool.not_false, Bool.true_and] at keeps
        obtain ⟨enabled, entry, mem, has, j, g, group, inside⟩ := exists_of_gidsHold keeps
        refine ⟨record.name.str, entry, mem, has, ?_⟩
        rw [ldapUserIsInGroup_iff]
        refine ⟨slot, record, j, g, ldapUserFind_record found users named, ?_, ?_, ?_⟩
        · rw [disabled, enabled]
        · rw [sameGroup]
          exact group
        · rw [primary, secondary]
          exact inside
  next => exact held

theorem Held.userDelete (position : permIndex vocabulary identityWrite = some idx)
    (held : Held idx s) (written : Bool) (name : CStr) :
    Held idx (handleLdapUserDelete vocabulary written name s) := by
  unfold handleLdapUserDelete
  split
  next keeps =>
    have active := (gatingActive_of_held position).mpr held
    unfold hostauthUserChangeKeepsGrantor at keeps
    rw [position] at keeps
    dsimp only at keeps
    rw [active, if_neg (by simp)] at keeps
    split at keeps
    next walked =>
      unfold ldapUserDelete
      split
      next => exact held
      next slot u found =>
        obtain ⟨other, different, entry, mem, has, _, inGroup⟩ := exists_elsewhere walked
        apply anyUserHolds_iff.mpr
        refine ⟨other, entry, mem, has, ?_⟩
        dsimp only
        rw [isInGroup_congr (users_saveUsersState written _) (groups_saveUsersState written _)]
        refine isInGroup_of_found inGroup ?_ rfl
        apply ldapUserFind_put
        · intro v atSlot
          rw [(Slots.get_of_find found).1] at atSlot
          cases atSlot
          rw [name_of_ldapUserFind found]
          exact fun equal => different (by rw [equal])
        · intro v assigned
          cases assigned
    next => simp at keeps
  next => exact held

/-- What `ldap_user_create` can leave: a slot that was free holds nothing or a
user under an unused name. -/
theorem ldapUserCreate_cases (written overlaps : Bool) (name : Option CStr)
    (f : UserFields) (owner : Option CStr) (canSearch : Bool)
    (d : Directory) :
    (ldapUserCreate written overlaps name f owner canSearch d).1 = d ∨
      ∃ slot cell, d.users.get slot = none ∧
        (ldapUserCreate written overlaps name f owner canSearch d).1.users = d.users.put slot cell ∧
        (ldapUserCreate written overlaps name f owner canSearch d).1.groups = d.groups ∧
        ∀ u, cell = some u → ldapUserFind u.name.str d = none := by
  unfold ldapUserCreate
  split
  next => exact Or.inl rfl
  next name =>
    split
    next validName =>
      split
      next => exact Or.inl rfl
      next valid =>
        split
        next => exact Or.inl rfl
        next unused =>
          split
          next => exact Or.inl rfl
          next slot free =>
            have unheld := (Slots.get_firstFree free).2
            dsimp only
            split
            next =>
              refine Or.inr ⟨slot, _, unheld, users_saveUsersState _ _,
                groups_saveUsersState _ _, ?_⟩
              intro u assigned
              cases assigned
              exact Option.not_isSome_iff_eq_none.mp unused
            next =>
              refine Or.inr ⟨slot, none, unheld, rfl, rfl, ?_⟩
              intro u assigned
              cases assigned
    next => exact Or.inl rfl

theorem ldapGroupCreate_cases (written : Bool) (name : Option CStr)
    (gidnumber : Int32) (d : Directory) :
    (ldapGroupCreate written name gidnumber d).1 = d ∨ ∃ slot cell, d.groups.get slot = none ∧
        (ldapGroupCreate written name gidnumber d).1.groups = d.groups.put slot cell ∧
        (ldapGroupCreate written name gidnumber d).1.users = d.users ∧
        ∀ g, cell = some g → ldapGroupFind g.name.str d = none := by
  unfold ldapGroupCreate
  split
  next => exact Or.inl rfl
  next name =>
    split
    next valid =>
      split
      next => exact Or.inl rfl
      next =>
        split
        next => exact Or.inl rfl
        next unused =>
          split
          next => exact Or.inl rfl
          next slot free =>
            have unheld := (Slots.get_firstFree free).2
            dsimp only
            split
            next =>
              refine Or.inr ⟨slot, _, unheld, groups_saveGroupsState _ _,
                users_saveGroupsState _ _, ?_⟩
              intro g assigned
              cases assigned
              exact Option.not_isSome_iff_eq_none.mp unused
            next =>
              refine Or.inr ⟨slot, none, unheld, rfl, rfl, ?_⟩
              intro g assigned
              cases assigned
    next => exact Or.inl rfl

theorem isInGroup_userCreate (mem : ldapUserIsInGroup userName groupName d = true)
    (written overlaps : Bool) (name : Option CStr) (f : UserFields)
    (owner : Option CStr) (canSearch : Bool) :
    ldapUserIsInGroup userName groupName
      (ldapUserCreate written overlaps name f owner canSearch d).1 =
        true := by
  rcases ldapUserCreate_cases written overlaps name f owner canSearch d with
    same | ⟨slot, cell, unheld, users, groups, unused⟩
  · rw [same]
    exact mem
  · obtain ⟨i, u, _, _, found, _⟩ := ldapUserIsInGroup_iff.mp mem
    have sameUser : ldapUserFind userName
        { d with users := d.users.put slot cell } =
          ldapUserFind userName d := by
      apply ldapUserFind_put
      · intro v atSlot
        rw [unheld] at atSlot
        cases atSlot
      · intro v assigned clash
        have absent := unused v assigned
        rw [clash, found] at absent
        cases absent
    have kept : ldapUserIsInGroup userName groupName
        { d with users := d.users.put slot cell } = true :=
      isInGroup_of_found mem sameUser rfl
    rw [isInGroup_congr (d := { d with users := d.users.put slot cell }) users groups]
    exact kept

theorem isInGroup_groupCreate (mem : ldapUserIsInGroup userName groupName d = true) (written : Bool)
    (name : Option CStr) (gidnumber : Int32) :
    ldapUserIsInGroup userName groupName (ldapGroupCreate written name gidnumber d).1 = true := by
  rcases ldapGroupCreate_cases written name gidnumber d with
    same | ⟨slot, cell, unheld, groups, users, unused⟩
  · rw [same]
    exact mem
  · obtain ⟨_, _, j, g, _, _, found, _⟩ := ldapUserIsInGroup_iff.mp mem
    have sameGroup : ldapGroupFind groupName
        { d with groups := d.groups.put slot cell } =
          ldapGroupFind groupName d := by
      apply ldapGroupFind_put
      · intro v atSlot
        rw [unheld] at atSlot
        cases atSlot
      · intro v assigned clash
        have absent := unused v assigned
        rw [clash, found] at absent
        cases absent
    have kept : ldapUserIsInGroup userName groupName
        { d with groups := d.groups.put slot cell } = true :=
      isInGroup_of_found mem rfl sameGroup
    rw [isInGroup_congr (d := { d with groups := d.groups.put slot cell }) users groups]
    exact kept

theorem Held.of_kept {s' : Store} (held : Held idx s)
    (entries : ∀ entry ∈ s.permGroups, entry ∈ s'.permGroups)
    (kept : ∀ userName groupName, ldapUserIsInGroup userName groupName s.directory = true →
        ldapUserIsInGroup userName groupName s'.directory = true) :
    Held idx s' := by
  obtain ⟨userName, entry, mem, has, inGroup⟩ := anyUserHolds_iff.mp held
  exact anyUserHolds_iff.mpr ⟨userName, entry, entries entry mem, has, kept _ _ inGroup⟩

theorem Held.provisionOne {s : Store} (held : Held idx s) (gid : Int32)
    (written : Bool) (position : Nat) (standard : StandardGroup) :
    Held idx (provisionOne vocabulary gid written position standard s) := by
  have kept : ∀ userName groupName, ldapUserIsInGroup userName groupName s.directory = true →
        ldapUserIsInGroup userName groupName (ldapGroupCreate written
          (some (CStr.ofString standard.name)) gid s.directory).1 = true :=
    fun _ _ mem => isInGroup_groupCreate mem _ _ _
  unfold Auth.provisionOne
  dsimp only
  split
  next => exact held
  next =>
    split
    next => exact held.of_kept (fun _ mem => mem) fun _ _ h => h
    next =>
      split
      next => exact held
      next =>
        split
        next => exact held.of_kept (fun _ mem => mem) kept
        next =>
          refine held.of_kept ?_ kept
          intro entry mem
          exact mem_append_left _ mem

theorem Held.provision {s : Store} (held : Held idx s) (gids : Nat → Int32) (written : Nat → Bool) :
    Held idx (hostauthProvisionStandardGroups vocabulary gids written s) := by
  unfold hostauthProvisionStandardGroups
  generalize standardGroups.zipIdx = turns
  induction turns generalizing s with
  | nil => exact held
  | cons turn rest ih => exact ih (held.provisionOne _ _ _ _)

/-! ## Changes of the mapping -/

theorem held_of_not_locksOut (position : permIndex vocabulary identityWrite = some idx)
    (held : Held idx s) {proposed : List PermGroup}
    (passes : ¬ locksOut vocabulary proposed s = true) :
    Held idx { s with permGroups := proposed } := by
  unfold Held at held
  rw [locksOut, position] at passes
  dsimp only at passes
  rw [held, Bool.true_and, Bool.not_eq_true', Bool.not_eq_false] at passes
  exact passes

theorem Held.setConfig (position : permIndex vocabulary identityWrite = some idx)
    (held : Held idx s) (adminGroups : List CStr) (fieldsValid written : Bool) :
    Held idx (hostauthSetConfig vocabulary adminGroups fieldsValid written s).1 := by
  unfold hostauthSetConfig
  split
  next => exact held
  next =>
    dsimp only
    split
    next => exact held
    next proposed _ =>
      split
      next => exact held
      next passes =>
        split
        next => exact held
        next => exact held_of_not_locksOut position held passes

theorem Held.setGroupPermissions (position : permIndex vocabulary identityWrite = some idx)
    (held : Held idx s) (group : CStr) (words : List CStr) (written : Bool) :
    Held idx (hostauthSetGroupPermissions vocabulary group words written s).1 := by
  unfold hostauthSetGroupPermissions
  split
  next => exact held
  next =>
    split
    next => exact held
    next indices _ =>
      split
      next => exact held
      next proposed _ =>
        split
        next => exact held
        next =>
          split
          next => exact held
          next passes =>
            split
            next => exact held
            next => exact held_of_not_locksOut position held passes

/-! ## Changes of a group -/

theorem mem_swapRemove {at' : Nat} {gone : PermGroup} (mem : entry ∈ groups)
    (position : groups[at']? = some gone) (other : gone ≠ entry) :
    entry ∈ swapRemove at' groups := by
  obtain ⟨k, atK⟩ := mem_iff_getElem?.mp mem
  obtain ⟨boundK, _⟩ := List.getElem?_eq_some_iff.mp atK
  obtain ⟨boundAt, _⟩ := List.getElem?_eq_some_iff.mp position
  have different : at' ≠ k := by
    intro same
    rw [same, atK] at position
    exact other (Option.some.inj position).symm
  have last : groups.getLast? = groups[groups.length - 1]? := getLast?_eq_getElem?
  rw [getElem?_eq_getElem (by omega)] at last
  rw [swapRemove, last, mem_iff_getElem?]
  by_cases isLast : k = groups.length - 1
  · refine ⟨at', ?_⟩
    rw [getElem?_dropLast, length_set, if_pos (by omega), getElem?_set_self boundAt]
    rw [isLast, getElem?_eq_getElem (by omega)] at atK
    exact atK
  · refine ⟨k, ?_⟩
    rw [getElem?_dropLast, length_set, if_pos (by omega), getElem?_set_ne different]
    exact atK

theorem name_of_permGroupFind {at' : Nat} (found : permGroupFind groups name = some at') :
    ∃ entry, groups[at']? = some entry ∧ entry.name.str = name := by
  obtain ⟨bound, named, _⟩ := findIdx?_eq_some_iff_getElem.mp found
  exact ⟨groups[at'], getElem?_eq_getElem bound, by simpa using named⟩

theorem mem_hostauthForgetGroup (mem : entry ∈ groups)
    (other : entry.name.str ≠ name) (written : Bool) :
    entry ∈ hostauthForgetGroup name written groups := by
  unfold hostauthForgetGroup
  split
  next => exact mem
  next at' found =>
    obtain ⟨gone, position, named⟩ := name_of_permGroupFind found
    have stays : entry ∈ swapRemove at' groups := by
      apply mem_swapRemove mem position
      intro same
      rw [same] at named
      exact other named
    split
    next => exact stays
    next =>
      split
      next => exact mem
      next => exact mem_append_left _ stays

theorem Held.groupDelete (position : permIndex vocabulary identityWrite = some idx)
    (held : Held idx s) (written mappingWritten : Bool) (name : CStr) :
    Held idx (handleLdapGroupDelete vocabulary written mappingWritten name s) := by
  unfold handleLdapGroupDelete
  split
  next keeps =>
    have active := (gatingActive_of_held position).mpr held
    unfold hostauthGroupChangeKeepsGrantor at keeps
    rw [position] at keeps
    dsimp only at keeps
    rw [active, if_neg (by simp)] at keeps
    obtain ⟨userName, _, entry, mem, has, elsewhere, inGroup⟩ := exists_elsewhere keeps
    have other : entry.name.str ≠ name := fun equal => elsewhere (by rw [equal])
    apply anyUserHolds_iff.mpr
    refine ⟨userName, entry, ?_, has, ?_⟩
    · dsimp only
      split
      next => exact mem_hostauthForgetGroup mem other mappingWritten
      next => exact mem
    · dsimp only
      unfold ldapGroupDelete
      split
      next => exact inGroup
      next slot g found =>
        dsimp only
        rw [isInGroup_congr (users_saveGroupsState written _) (groups_saveGroupsState written _)]
        refine isInGroup_of_found inGroup rfl ?_
        apply ldapGroupFind_put
        · intro v atSlot
          rw [(Slots.get_of_find found).1] at atSlot
          cases atSlot
          rw [name_of_ldapGroupFind found]
          exact fun equal => other equal.symm
        · intro v assigned
          cases assigned
  next => exact held

theorem commitGroup_cases (written propagated rewritten : Bool) {old : Group}
    (new : Group) (renames : Bool) (held : d.groups.get slot = some old) :
    (commitGroup written propagated rewritten slot old new renames d).1.users = d.users ∧
      (((commitGroup written propagated rewritten slot old new renames d).1.groups = d.groups ∧
        (commitGroup written propagated rewritten slot old new renames d).2 ≠ none) ∨
      ((commitGroup written propagated rewritten slot old new renames
          d).1.groups = d.groups.put slot (some new) ∧
        (commitGroup written propagated rewritten slot old new renames d).2 = none)) := by
  unfold commitGroup
  dsimp only
  split
  next =>
    split
    next =>
      refine ⟨by simp, Or.inl ⟨?_, by simp⟩⟩
      rw [groups_saveGroupsState]
      dsimp only
      rw [groups_saveGroupsState, Slots.put_put, Slots.put_get held]
    next => exact ⟨by simp, Or.inr ⟨groups_saveGroupsState _ _, rfl⟩⟩
  next =>
    refine ⟨rfl, Or.inl ⟨?_, by simp⟩⟩
    rw [Slots.put_put, Slots.put_get held]

def Updates (name : CStr) (newName : Option CStr) (gidnumber : Int32)
    (d : Directory) (record : Group) : Prop :=
  record.gidnumber = gidnumber ∧ ((renameTarget name newName = none ∧ record.name.str = name) ∨
      (renameTarget name newName = some record.name.str ∧ ldapGroupFind record.name.str d = none))

/-- What `ldap_group_update` can leave: an error and the records as they were,
or the found group as asked for. -/
theorem ldapGroupUpdate_cases (written propagated rewritten : Bool)
    (name : CStr) (newName : Option CStr) (gidnumber : Int32)
    (d : Directory) :
    (ldapGroupUpdate written propagated rewritten name newName gidnumber d).1.users = d.users ∧
      (((ldapGroupUpdate written propagated rewritten name newName gidnumber
          d).1.groups = d.groups ∧
        (ldapGroupUpdate written propagated rewritten name newName gidnumber d).2 ≠ none) ∨
      ∃ slot g record, ldapGroupFind name d = some (slot, g) ∧
        gidnumber ≠ 0 ∧ Updates name newName gidnumber d record ∧
        (ldapGroupUpdate written propagated rewritten name newName gidnumber
          d).1.groups = d.groups.put slot (some record) ∧
        (ldapGroupUpdate written propagated rewritten name newName gidnumber d).2 = none) := by
  unfold ldapGroupUpdate
  split
  next => exact ⟨rfl, Or.inl ⟨rfl, by simp⟩⟩
  next slot g found =>
    have atSlot := (Slots.get_of_find found).1
    have own := name_of_ldapGroupFind found
    split
    next => exact ⟨rfl, Or.inl ⟨rfl, by simp⟩⟩
    next positive =>
      have nonzero : gidnumber ≠ 0 := by
        intro zero
        exact positive (by rw [zero]; decide)
      dsimp only
      split
      next stays =>
        split
        next => exact ⟨rfl, Or.inl ⟨rfl, by simp⟩⟩
        next =>
          obtain ⟨users, same | changed⟩ := commitGroup_cases written
            propagated rewritten { g with gidnumber := gidnumber } false
            atSlot
          · exact ⟨users, Or.inl same⟩
          · exact ⟨users, Or.inr ⟨slot, g,
              { g with gidnumber := gidnumber }, found, nonzero,
              ⟨rfl, Or.inl ⟨stays, own⟩⟩, changed⟩⟩
      next target renames =>
        split
        next valid =>
          split
          next => exact ⟨rfl, Or.inl ⟨rfl, by simp⟩⟩
          next unused =>
            split
            next => exact ⟨rfl, Or.inl ⟨rfl, by simp⟩⟩
            next =>
              obtain ⟨users, same | changed⟩ := commitGroup_cases written
                propagated rewritten ⟨nameField target valid, valid, gidnumber⟩ true atSlot
              · exact ⟨users, Or.inl same⟩
              · exact ⟨users, Or.inr ⟨slot, g, _, found, nonzero, ⟨rfl, Or.inr ⟨renames,
                    Option.not_isSome_iff_eq_none.mp unused⟩⟩, changed⟩⟩
        next => exact ⟨rfl, Or.inl ⟨rfl, by simp⟩⟩

theorem ldapGroupFind_changed {other : CStr} (found : ldapGroupFind name d = some (slot, g))
    (groups : d'.groups = d.groups.put slot (some record))
    (updates : Updates name newName gidnumber d record)
    (different : name ≠ other) (known : (ldapGroupFind other d).isSome = true) :
    ldapGroupFind other d' = ldapGroupFind other d := by
  have same : ldapGroupFind other d' = ldapGroupFind other
      { d with groups := d.groups.put slot (some record) } := by
    rw [ldapGroupFind, groups]
    rfl
  rw [same]
  apply ldapGroupFind_put
  · intro held atSlot
    rw [(Slots.get_of_find found).1] at atSlot
    cases atSlot
    rw [name_of_ldapGroupFind found]
    exact different
  · intro assigned equal
    cases equal
    rcases updates.2 with ⟨_, unchanged⟩ | ⟨_, unused⟩
    · rw [unchanged]
      exact different
    · intro clash
      rw [clash] at unused
      simp [unused] at known

theorem ldapGroupFind_record (found : ldapGroupFind name d = some (slot, g))
    (groups : d'.groups = d.groups.put slot (some record))
    (updates : Updates name newName gidnumber d record) :
    ldapGroupFind record.name.str d' = some (slot, record) := by
  rw [ldapGroupFind, groups]
  rcases updates.2 with ⟨_, unchanged⟩ | ⟨_, unused⟩
  · rw [unchanged]
    apply Slots.find_put_found found
    simpa using unchanged
  · have inside := Slots.lt_of_get (Slots.get_of_find found).1
    exact Slots.find_put_of_none unused inside (by simp)

theorem mem_renameEntry {oldName newName : CStr} (mem : entry ∈ groups)
    (other : entry.name.str ≠ oldName) :
    entry ∈ renameEntry oldName newName groups := by
  unfold renameEntry
  split
  next => exact mem
  next at' found =>
    obtain ⟨renamed, position, named⟩ := name_of_permGroupFind found
    obtain ⟨k, atK⟩ := mem_iff_getElem?.mp mem
    rw [mem_iff_getElem?]
    refine ⟨k, ?_⟩
    rw [getElem?_modify, atK]
    split
    next same =>
      rw [same, atK] at position
      cases position
      exact absurd named other
    next => rfl

def FirstGrants (idx : Nat) (name : CStr) (groups : List PermGroup) :
    Prop :=
  ∀ entry ∈ groups, entry.name.str = name → entry.has idx = true →
    ∃ at' first, permGroupFind groups name = some at' ∧
      groups[at']? = some first ∧ first.has idx = true

theorem exists_renamed {oldName : CStr} {newName : BoundedStr 32} {at' : Nat}
    {first : PermGroup} (found : permGroupFind groups oldName = some at')
    (position : groups[at']? = some first) (has : first.has idx = true) :
    ∃ entry ∈ renameEntry oldName newName.str groups,
      entry.name = newName ∧ entry.has idx = true := by
  refine ⟨{ first with name := newName }, ?_, rfl, has⟩
  rw [renameEntry, found]
  dsimp only
  rw [mem_iff_getElem?]
  refine ⟨at', ?_⟩
  rw [getElem?_modify, position]
  simp [BoundedStr.store_str]

def RenamesGrantor (idx : Nat) (name : CStr) (newName : Option CStr) (s : Store) : Prop :=
  renameTarget name newName ≠ none → FirstGrants idx name s.permGroups

theorem isInGroup_record (found : ldapGroupFind name d = some (slot, g))
    (users : d'.users = d.users)
    (groups : d'.groups = d.groups.put slot (some record))
    (updates : Updates name newName gidnumber d record)
    (sameGid : gidnumber = g.gidnumber)
    (mem : ldapUserIsInGroup userName name d = true) :
    ldapUserIsInGroup userName record.name.str d' = true := by
  obtain ⟨i, u, j, h, foundUser, enabled, group, inside⟩ := ldapUserIsInGroup_iff.mp mem
  rw [found] at group
  cases group
  have sameUser : ldapUserFind userName d' = some (i, u) := by
    rw [ldapUserFind, users]
    exact foundUser
  rw [ldapUserIsInGroup_iff]
  refine ⟨i, u, slot, record, sameUser, enabled, ldapGroupFind_record found groups updates, ?_⟩
  rw [updates.1, sameGid]
  exact inside

theorem mappingAfter_error {error : Option RecordError}
    (failed : error ≠ none) (name : CStr) (newName : Option CStr)
    (groups : List PermGroup) :
    mappingAfter error name newName groups = groups := by
  cases error with
  | none => exact absurd rfl failed
  | some error => rfl

theorem held_of_other (found : ldapGroupFind name s.directory = some (slot, g))
    (users : d'.users = s.directory.users)
    (groups : d'.groups = s.directory.groups.put slot (some record))
    (updates : Updates name newName gidnumber s.directory record)
    (mem : entry ∈ s.permGroups) (has : entry.has idx = true)
    (other : entry.name.str ≠ name)
    (inGroup : ldapUserIsInGroup userName entry.name.str s.directory = true) :
    anyUserHolds (mappingAfter none name newName s.permGroups) idx d' =
      true := by
  have stays : entry ∈ mappingAfter none name newName s.permGroups := by
    unfold mappingAfter
    split
    next => exact mem_renameEntry mem other
    next => exact mem
  obtain ⟨_, _, j, h, _, _, group, _⟩ := ldapUserIsInGroup_iff.mp inGroup
  have sameGroup := ldapGroupFind_changed found groups updates other.symm (by rw [group]; rfl)
  have sameUser : ldapUserFind userName d' = ldapUserFind userName s.directory := by
    rw [ldapUserFind, users]
    rfl
  exact anyUserHolds_iff.mpr ⟨userName, entry, stays, has,
    isInGroup_of_found inGroup sameUser sameGroup⟩

theorem held_of_same_gid (found : ldapGroupFind name s.directory = some (slot, g))
    (users : d'.users = s.directory.users)
    (groups : d'.groups = s.directory.groups.put slot (some record))
    (updates : Updates name newName gidnumber s.directory record)
    (sameGid : gidnumber = g.gidnumber)
    (renames : RenamesGrantor idx name newName s)
    (mem : entry ∈ s.permGroups) (has : entry.has idx = true)
    (named : entry.name.str = name)
    (inGroup : ldapUserIsInGroup userName name s.directory = true) :
    anyUserHolds (mappingAfter none name newName s.permGroups) idx d' =
      true := by
  have kept := isInGroup_record found users groups updates sameGid inGroup
  apply anyUserHolds_iff.mpr
  unfold mappingAfter
  rcases updates.2 with ⟨stays, unchanged⟩ | ⟨target, _⟩
  · rw [stays]
    refine ⟨userName, entry, mem, has, ?_⟩
    rw [named, ← unchanged]
    exact kept
  · obtain ⟨at', first, foundEntry, position, firstHas⟩ :=
      renames (by rw [target]; simp) entry mem named has
    have renamed : ∃ entry ∈ renameEntry name record.name.str s.permGroups,
        entry.name = record.name ∧ entry.has idx = true :=
      exists_renamed foundEntry position firstHas
    obtain ⟨newEntry, newMember, newName, newHas⟩ := renamed
    rw [target]
    refine ⟨userName, newEntry, newMember, newHas, ?_⟩
    rw [newName]
    exact kept

theorem Held.groupUpdate (position : permIndex vocabulary identityWrite = some idx)
    (held : Held idx s) (written mappingWritten rewritten : Bool) (name : CStr)
    (newName : Option CStr) (gidnumber : Int32)
    (renames : RenamesGrantor idx name newName s) :
    Held idx (handleLdapGroupUpdate vocabulary written mappingWritten
      rewritten name newName gidnumber s) := by
  unfold handleLdapGroupUpdate
  split
  next => exact held
  next allowed =>
    rw [updateGroup_eq]
    dsimp only
    generalize ((permGroupFind s.permGroups name).isNone || mappingWritten) = propagated
    obtain ⟨users, same | ⟨slot, g, record, found, nonzero, updates, groups,
      ok⟩⟩ := ldapGroupUpdate_cases written propagated rewritten name newName gidnumber s.directory
    · unfold Held at held ⊢
      dsimp only
      rw [mappingAfter_error same.2, anyUserHolds_congr users same.1]
      exact held
    · unfold Held
      dsimp only
      rw [ok]
      by_cases moves : movesGid name gidnumber s = true
      · -- the guard was asked, and found a holder elsewhere
        have keeps : hostauthGroupChangeKeepsGrantor vocabulary name s =
            true := by
          by_contra lost
          exact allowed ⟨moves, Bool.eq_false_iff.mpr lost⟩
        have active := (gatingActive_of_held position).mpr held
        unfold hostauthGroupChangeKeepsGrantor at keeps
        rw [position] at keeps
        dsimp only at keeps
        rw [active, if_neg (by simp)] at keeps
        obtain ⟨userName, _, entry, mem, has, elsewhere, inGroup⟩ := exists_elsewhere keeps
        exact held_of_other found users groups updates mem has
          (fun equal => elsewhere (by rw [equal])) inGroup
      · have sameGid : gidnumber = g.gidnumber := by
          unfold movesGid at moves
          rw [found] at moves
          simpa [nonzero] using moves
        obtain ⟨userName, entry, mem, has, inGroup⟩ := anyUserHolds_iff.mp held
        by_cases named : entry.name.str = name
        · rw [named] at inGroup
          exact held_of_same_gid found users groups updates sameGid renames mem has named inGroup
        · exact held_of_other found users groups updates mem has named inGroup

end Steps

/-! ## Runs -/

/-- The request renames no group whose first mapping entry lacks `identity:write`
while another one of its name has it. -/
def RenamesFaithfully (vocabulary : List CStr) (s : Store) : Request → Prop
  | .groupUpdate _ _ _ name newName _ =>
    ∀ idx, permIndex vocabulary identityWrite = some idx → RenamesGrantor idx name newName s
  | _ => True

theorem Held.step {vocabulary : List CStr} {idx : Nat}
    (position : permIndex vocabulary identityWrite = some idx) {s : Store}
    (held : Held idx s) {request : Request}
    (faithful : RenamesFaithfully vocabulary s request) :
    Held idx (step vocabulary s request) := by
  cases request with
  | setConfig adminGroups fieldsValid written =>
    exact held.setConfig position adminGroups fieldsValid written
  | setGroupPermissions group words written =>
    exact held.setGroupPermissions position group words written
  | userCreate written overlaps name fields owner canSearch =>
    exact held.of_kept (fun _ mem => mem) fun _ _ mem => isInGroup_userCreate mem _ _ _ _ _ _
  | userUpdate written overlaps name newName fields canSearch =>
    exact held.userUpdate position _ _ _ _ _ _
  | userDelete written name => exact held.userDelete position written name
  | groupCreate written name gidnumber =>
    exact held.of_kept (fun _ mem => mem) fun _ _ mem => isInGroup_groupCreate mem _ _ _
  | groupUpdate written mappingWritten rewritten name newName gidnumber =>
    exact held.groupUpdate position _ _ _ _ _ _ (faithful idx position)
  | groupDelete written mappingWritten name =>
    exact held.groupDelete position written mappingWritten name
  | provision gids written => exact held.provision gids written

/-- Gating stays active in every run from a store in which it is, as long as
each renaming takes the entry with `identity:write` along. -/
theorem gating_stays_active (vocabulary : List CStr) (s : Store) (requests : List Request)
    (active : hostauthGatingActive vocabulary s = true)
    (faithful : Guarded (step vocabulary) (RenamesFaithfully vocabulary) s requests) :
    Throughout (step vocabulary)
      (fun s => hostauthGatingActive vocabulary s = true) s requests := by
  cases position : permIndex vocabulary identityWrite with
  | none => simp [hostauthGatingActive, position] at active
  | some idx =>
    have held := (gatingActive_of_held position).mp active
    have always := faithful.throughout (Held idx)
      (fun _ _ held renames => held.step position renames) held
    exact always.mono fun _ held => (gatingActive_of_held position).mpr held

/-! ## Two runs -/

def twoWords : List CStr :=
  ["containers:read", identityWrite]

/-- The user `ann` of the group `ops`, which alone may grant permissions, and
the mapping. -/
def annOfOps (permGroups : List PermGroup) : Store :=
  { directory :=
      { users := Slots.ofEntries 256
          [{ blankUser "ann" (by decide) with
              uidnumber := 1000
              primarygroup := 10 }]
        groups := Slots.ofEntries 64 [⟨nameField "ops" (by decide), by decide, 10⟩]
        usersFile := none
        groupsFile := none }
    permGroups := permGroups
    standardDone := fun _ => true }

def entryOf (name : String) (idx : Nat) : PermGroup :=
  ⟨BoundedStr.store 32 pos_32 (CStr.ofString name), fun i => i = idx⟩

def renameGroup (oldName newName : String) : Request :=
  .groupUpdate true true true (CStr.ofString oldName) (some (CStr.ofString newName)) 10

theorem gating_stays_active_renamed :
    hostauthGatingActive twoWords (annOfOps [entryOf "ops" 1]) = true ∧
      Throughout (step twoWords) (fun s => hostauthGatingActive twoWords s = true)
        (annOfOps [entryOf "ops" 1]) [renameGroup "ops" "crew"] := by
  have active : hostauthGatingActive twoWords (annOfOps [entryOf "ops" 1]) = true := by
    decide +kernel
  refine ⟨active, gating_stays_active _ _ _ active ?_⟩
  apply Guarded.cons
  · intro idx position _ entry mem _ has
    have same : entry = entryOf "ops" 1 := mem_singleton.mp mem
    refine ⟨0, entryOf "ops" 1, by decide +kernel, rfl, ?_⟩
    rw [← same]
    exact has
  · exact guarded_nil _ _

/-- The mapping has an entry `staff` of no group when `ops` is renamed to that
name, and the next renaming takes that entry along. -/
theorem second_renaming_locks_out : hostauthGatingActive twoWords
        (annOfOps [entryOf "staff" 0, entryOf "ops" 1]) = true ∧
      hostauthGatingActive twoWords (run (step twoWords)
          (annOfOps [entryOf "staff" 0, entryOf "ops" 1])
          [renameGroup "ops" "staff", renameGroup "staff" "crew"]) =
            false := by
  decide +kernel

end Cix.Auth
