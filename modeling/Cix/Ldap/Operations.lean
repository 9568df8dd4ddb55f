import Cix.Ldap.Records
import Mathlib.Data.List.InsertIdx
import Mathlib.Logic.Relation

/-!
# Operations on the LDAP records

Every entry point of `daemon/src/ldap.c` that changes the user or group
records, and restarts of the daemon.  `Move` lists what such an operation can
do to the store in one go: assign one slot, or write one state file.
-/

namespace Cix.Ldap

open Cix.Lib Cix.Json List

abbrev Outcome := Directory × Option RecordError

def ldapGroupCreate (written : Bool) (name : Option CStr)
    (gidnumber : Int32) (d : Directory) : Outcome :=
  match name with
  | none => (d, some .invalidName)
  | some name =>
    if valid : ldapGroupnameIsValid name = true then
      if gidnumber ≤ 0 then (d, some .invalidField)
      else if (ldapGroupFind name d).isSome then (d, some .duplicate)
      else
        match d.groups.firstFree with
        | none => (d, some .full)
        | some slot =>
          let g : Group := ⟨nameField name valid, valid, gidnumber⟩
          if written then
            (saveGroupsState true
              { d with groups := d.groups.put slot (some g) }, none)
          else
            ({ d with groups := d.groups.put slot none }, some .persistFailed)
    else (d, some .invalidName)

def ldapGroupDelete (written : Bool) (name : CStr) (d : Directory) :
    Outcome :=
  match ldapGroupFind name d with
  | none => (d, some .notFound)
  | some (slot, _) =>
    (saveGroupsState written
        { d with groups := d.groups.put slot none },
      if written then none else some .persistFailed)

def renameTarget (name : CStr) (newName : Option CStr) : Option CStr :=
  match newName with
  | none => none
  | some newName => if newName.length ≠ 0 ∧ newName ≠ name then some newName else none

/-- The end of `ldap_group_update`. A rename that the permission mapping refuses is
taken back, with one more save. -/
def commitGroup (written propagated rewritten : Bool) (slot : Nat)
    (old new : Group) (renames : Bool) (d : Directory) : Outcome :=
  let changed := { d with groups := d.groups.put slot (some new) }
  let reverted := fun (d : Directory) =>
    { d with groups := d.groups.put slot (some old) }
  if written then
    let saved := saveGroupsState true changed
    if renames ∧ propagated = false then
      (saveGroupsState rewritten (reverted saved), some .persistFailed)
    else (saved, none)
  else (reverted changed, some .persistFailed)

def ldapGroupUpdate (written propagated rewritten : Bool) (name : CStr)
    (newName : Option CStr) (gidnumber : Int32) (d : Directory) : Outcome :=
  match ldapGroupFind name d with
  | none => (d, some .notFound)
  | some (slot, g) =>
    if gidnumber ≤ 0 then (d, some .invalidField)
    else
      let collides := (ldapGroupFindByGid gidnumber d).any fun other => other.1 ≠ slot
      match renameTarget name newName with
      | none =>
        if collides then (d, some .duplicate)
        else
          commitGroup written propagated rewritten slot g
            { g with gidnumber := gidnumber } false d
      | some newName =>
        if valid : ldapGroupnameIsValid newName = true then
          if (ldapGroupFind newName d).isSome then (d, some .duplicate)
          else if collides then (d, some .duplicate)
          else
            commitGroup written propagated rewritten slot g
              ⟨nameField newName valid, valid, gidnumber⟩ true d
        else (d, some .invalidName)

theorem commitGroup_propagated (written rewritten : Bool) (slot : Nat) (old new : Group)
    (renames : Bool) (d : Directory) :
    (renames = false ∨ (commitGroup written true rewritten slot old new renames d).2 ≠ none →
      commitGroup written false rewritten slot old new renames d =
        commitGroup written true rewritten slot old new renames d) ∧
    (renames = true →
      (commitGroup written false rewritten slot old new renames d).2 ≠ none) := by
  cases written <;> cases renames <;> simp [commitGroup]

/-- What the permission mapping answers matters to a rename that goes well so far, and to
such a one only. -/
theorem ldapGroupUpdate_propagated (written propagated rewritten : Bool) (name : CStr)
    (newName : Option CStr) (gidnumber : Int32) (d : Directory) :
    (renameTarget name newName = none ∨ propagated = true ∨
        (ldapGroupUpdate written true rewritten name newName gidnumber d).2 ≠ none →
      ldapGroupUpdate written propagated rewritten name newName gidnumber d =
        ldapGroupUpdate written true rewritten name newName gidnumber d) ∧
    (renameTarget name newName ≠ none → propagated = false →
      (ldapGroupUpdate written propagated rewritten name newName gidnumber d).2 ≠ none) := by
  cases propagated with
  | true => simp
  | false =>
    cases found : ldapGroupFind name d with
    | none => simp [ldapGroupUpdate, found]
    | some held =>
      obtain ⟨slot, g⟩ := held
      cases target : renameTarget name newName with
      | none =>
        have commit := commitGroup_propagated written rewritten slot g
          { g with gidnumber := gidnumber } false d
        simp only [ldapGroupUpdate, found, target]
        split_ifs <;> simp [commit.1 (Or.inl rfl)]
      | some newName =>
        simp only [ldapGroupUpdate, found, target]
        split_ifs with bad valid
        any_goals simp
        have commit := commitGroup_propagated written rewritten slot g
          ⟨nameField newName valid, valid, gidnumber⟩ true d
        exact ⟨fun refused => commit.1 (Or.inr refused), commit.2 rfl⟩

def ldapUserCreate (written overlaps : Bool) (name : Option CStr)
    (f : UserFields) (owner : Option CStr) (canSearch : Bool)
    (d : Directory) : Outcome :=
  match name with
  | none => (d, some .invalidName)
  | some name =>
    if validName : ldapUsernameIsValid name = true then
      match valid : validateUserFields overlaps f.uidnumber
          f.primarygroup f.secondaryGroups d with
      | some error => (d, some error)
      | none =>
        if (ldapUserFind name d).isSome then (d, some .duplicate)
        else
          match d.users.firstFree with
          | none => (d, some .full)
          | some slot =>
            let u : User :=
              { fillUserFields f (validateUserFields_count valid)
                  (blankUser name validName) with
                ownerContainer := field 64 pos_64 owner
                canSearch := canSearch }
            if written then
              (saveUsersState true
                { d with users := d.users.put slot (some u) }, none)
            else
              ({ d with users := d.users.put slot none }, some .persistFailed)
    else (d, some .invalidName)

/-- The end of `ldap_user_update`, with the record as the new fields leave it.
When the write fails only the name is taken back. -/
def commitUser (written : Bool) (slot : Nat) (filled renamed : User) (d : Directory) : Outcome :=
  if written then
    (saveUsersState true
      { d with users := d.users.put slot (some renamed) }, none)
  else
    ({ d with users := d.users.put slot (some filled) }, some .persistFailed)

def ldapUserUpdate (written overlaps : Bool) (name : CStr)
    (newName : Option CStr) (f : UserFields) (canSearch : Bool)
    (d : Directory) : Outcome :=
  match ldapUserFind name d with
  | none => (d, some .notFound)
  | some (slot, u) =>
    match valid : validateUserFields overlaps f.uidnumber f.primarygroup
        f.secondaryGroups d with
    | some error => (d, some error)
    | none =>
      let filled : User :=
        { fillUserFields f (validateUserFields_count valid) u with
          canSearch := canSearch }
      match renameTarget name newName with
      | none => commitUser written slot filled filled d
      | some newName =>
        if validName : ldapUsernameIsValid newName = true then
          if (ldapUserFind newName d).isSome then
            (d, some .duplicate)
          else
            commitUser written slot filled
              { filled with
                name := nameField newName validName
                nameValid := validName } d
        else (d, some .invalidName)

/-- The fields that an update leaves when its arguments point into the record
itself: `fill_user_fields` clears each field before it copies from it. -/
def ownFields (u : User) (uidnumber primarygroup : Int32) (hash : CStr) : UserFields where
  uidnumber := uidnumber
  primarygroup := primarygroup
  secondaryGroups := u.secondaryGroups.map fun _ => 0
  givenname := none
  sn := none
  mail := none
  loginshell := none
  homedirectory := none
  passbcrypt := some hash
  disabled := u.disabled
  sshPublicKey := none

/-- `ldap_user_update` without a rename, with the record's own fields as
arguments. -/
def ldapUserUpdateOwn (written overlaps : Bool) (name : CStr)
    (uidnumber primarygroup : Int32) (hash : CStr) (canSearch : Bool)
    (d : Directory) : Outcome :=
  match ldapUserFind name d with
  | none => (d, some .notFound)
  | some (slot, u) =>
    match validateUserFields overlaps uidnumber primarygroup
        u.secondaryGroups d with
    | some error => (d, some error)
    | none =>
      let filled : User :=
        { fillUserFields (ownFields u uidnumber primarygroup hash)
            (by simpa [ownFields] using u.secondaryCount) u with
          canSearch := canSearch }
      commitUser written slot filled filled d

def ldapUserDelete (written : Bool) (name : CStr) (d : Directory) :
    Outcome :=
  match ldapUserFind name d with
  | none => (d, some .notFound)
  | some (slot, _) =>
    (saveUsersState written { d with users := d.users.put slot none },
      if written then none else some .persistFailed)

def ldapUserForgetOwner (written : Bool) (container : CStr) (d : Directory) : Directory :=
  match d.users.find fun u => u.ownerContainer.str = container with
  | none => d
  | some (slot, _) => saveUsersState written { d with users := d.users.put slot none }

/-- `time(NULL)`.  The kernel's clock counts nanoseconds since 1970 in a
signed 64-bit integer and is never negative. -/
structure Clock where
  seconds : Nat
  bounded : seconds ≤ 9223372036

/-- `ldap_app_password_can_add` on the user it found. -/
def appPasswordRefused (name : Option CStr) (u : User) :
    Option RecordError :=
  match name with
  | none => some .invalidName
  | some name =>
    if appNameIsValid name = false then some .invalidName
    else if u.appPasswords.any fun a => a.name.str = name then
      some .duplicate
    else if u.appPasswords.length ≥ 8 then some .full
    else none

theorem appCount_append {apps : List AppPassword} (added : AppPassword)
    (room : apps.length < 8) : (apps ++ [added]).length ≤ 8 := by
  rw [length_append, length_singleton]
  omega

theorem appCount_dropLast (u : User) : u.appPasswords.dropLast.length ≤ 8 := by
  have count := u.appCount
  rw [length_dropLast]
  omega

def User.pushApp (u : User) (added : AppPassword) (room : u.appPasswords.length < 8) : User :=
  { u with
    appPasswords := u.appPasswords ++ [added]
    appCount := appCount_append added room }

/-- `app_password_count--`, with the entry behind it cleared. -/
def User.popApp (u : User) : User :=
  { u with
    appPasswords := u.appPasswords.dropLast
    appCount := appCount_dropLast u }

theorem length_removed (u : User) (at' : Fin u.appPasswords.length) :
    (u.appPasswords.eraseIdx at').length < 8 := by
  have count := u.appCount
  have inside := at'.isLt
  rw [length_eraseIdx_of_lt inside]
  omega

/-- The loop that shifts the entries behind position `at'` down. -/
def User.removeApp (u : User) (at' : Fin u.appPasswords.length) : User :=
  { u with
    appPasswords := u.appPasswords.eraseIdx at'
    appCount := Nat.le_of_lt (length_removed u at') }

theorem appCount_insertIdx {apps : List AppPassword} (at' : Nat) (gone : AppPassword)
    (room : apps.length < 8) : (apps.insertIdx at' gone).length ≤ 8 := by
  have grown := @length_insertIdx_le_succ _ apps gone at'
  omega

/-- The loop that shifts the entries from position `at'` on up again. -/
def User.insertApp (u : User) (at' : Nat) (gone : AppPassword)
    (room : u.appPasswords.length < 8) : User :=
  { u with
    appPasswords := u.appPasswords.insertIdx at' gone
    appCount := appCount_insertIdx at' gone room }

@[simp]
theorem popApp_pushApp (u : User) (added : AppPassword) (room : u.appPasswords.length < 8) :
    (u.pushApp added room).popApp = u := by
  simp [User.pushApp, User.popApp]

@[simp]
theorem insertApp_removeApp (u : User) (at' : Fin u.appPasswords.length) :
    (u.removeApp at').insertApp at' u.appPasswords[at'] (length_removed u at') = u := by
  simp [User.removeApp, User.insertApp, insertIdx_eraseIdx_getElem at'.isLt]

/-- The end of both calls: the changed record is saved, or what is undone in it stays. -/
def commitApps (written : Bool) (slot : Nat) (changed undone : User) (d : Directory) : Outcome :=
  let edited := { d with users := d.users.put slot (some changed) }
  if written then (saveUsersState true edited, none)
  else
    ({ edited with users := edited.users.put slot (some undone) }, some .persistFailed)

theorem commitApps_eq (written : Bool) (slot : Nat) (changed undone : User) (d : Directory) :
    commitApps written slot changed undone d =
      if written then
        (saveUsersState true { d with users := d.users.put slot (some changed) }, none)
      else ({ d with users := d.users.put slot (some undone) }, some .persistFailed) := by
  simp only [commitApps, Slots.put_put]

/-- `ldap_app_password_add`. -/
def ldapAppPasswordAdd (written : Bool) (now : Clock) (userName : CStr)
    (appName hash : Option CStr) (d : Directory) : Outcome :=
  match ldapUserFind userName d with
  | none => (d, some .notFound)
  | some (slot, u) =>
    match appPasswordRefused appName u, appName, hash with
    | some error, _, _ => (d, some error)
    | none, some appName, some hash =>
      if valid : appNameIsValid appName = true ∧ hash.length = 60 ∧ u.appPasswords.length < 8 then
        let added : AppPassword := {
          name := ⟨appName, length_lt_of_appNameValid valid.1⟩
          passbcrypt := ⟨hash, hash_short valid.2.1⟩
          created := Int64.ofNat now.seconds
          nameValid := valid.1
          hashLength := valid.2.1 }
        let longer := u.pushApp added valid.2.2
        commitApps written slot longer longer.popApp d
      else (d, some .invalidField)
    | none, _, _ => (d, some .invalidField)

/-- The loop of `ldap_app_password_delete`: the last entry of that name. -/
def lastNamed (name : CStr) (apps : List AppPassword) : Option (Fin apps.length) :=
  (finRange apps.length).foldl
    (fun found i => if apps[i].name.str = name then some i else found) none

/-- `ldap_app_password_delete`. -/
def ldapAppPasswordDelete (written : Bool) (userName : CStr)
    (appName : Option CStr) (d : Directory) : Outcome :=
  match ldapUserFind userName d, appName with
  | some (slot, u), some appName =>
    match lastNamed appName u.appPasswords with
    | none => (d, some .notFound)
    | some at' =>
      let gone := u.appPasswords[at']
      let shorter := u.removeApp at'
      commitApps written slot shorter (shorter.insertApp at' gone (length_removed u at')) d
  | _, _ => (d, some .notFound)

inductive Op where
  | groupCreate (written : Bool) (name : Option CStr) (gidnumber : Int32)
  | groupDelete (written : Bool) (name : CStr)
  | groupUpdate (written propagated rewritten : Bool) (name : CStr)
      (newName : Option CStr) (gidnumber : Int32)
  | userCreate (written overlaps : Bool) (name : Option CStr)
      (fields : UserFields) (owner : Option CStr) (canSearch : Bool)
  | userUpdate (written overlaps : Bool) (name : CStr)
      (newName : Option CStr) (fields : UserFields) (canSearch : Bool)
  | userUpdateOwn (written overlaps : Bool) (name : CStr)
      (uidnumber primarygroup : Int32) (hash : CStr) (canSearch : Bool)
  | userDelete (written : Bool) (name : CStr)
  | userForgetOwner (written : Bool) (container : CStr)
  | appPasswordAdd (written : Bool) (now : Clock) (userName : CStr)
      (appName hash : Option CStr)
  | appPasswordDelete (written : Bool) (userName : CStr)
      (appName : Option CStr)
  | restart

def step (d : Directory) : Op → Directory
  | .groupCreate written name gidnumber => (ldapGroupCreate written name gidnumber d).1
  | .groupDelete written name => (ldapGroupDelete written name d).1
  | .groupUpdate written propagated rewritten name newName gidnumber =>
    (ldapGroupUpdate written propagated rewritten name newName gidnumber d).1
  | .userCreate written overlaps name fields owner canSearch =>
    (ldapUserCreate written overlaps name fields owner canSearch d).1
  | .userUpdate written overlaps name newName fields canSearch =>
    (ldapUserUpdate written overlaps name newName fields canSearch d).1
  | .userUpdateOwn written overlaps name uidnumber primarygroup hash
      canSearch =>
      (ldapUserUpdateOwn written overlaps name uidnumber primarygroup hash canSearch d).1
  | .userDelete written name => (ldapUserDelete written name d).1
  | .userForgetOwner written container => ldapUserForgetOwner written container d
  | .appPasswordAdd written now userName appName hash =>
    (ldapAppPasswordAdd written now userName appName hash d).1
  | .appPasswordDelete written userName appName =>
    (ldapAppPasswordDelete written userName appName d).1
  | .restart => ldapRecordInit d

def firstStart : Directory :=
  ⟨Slots.empty 256, Slots.empty 64, none, none⟩

def AppPassword.Timely (a : AppPassword) : Prop :=
  a.created.toInt.natAbs ≤ 2 ^ 53

inductive Move (d : Directory) : Directory → Prop
  | user (slot : Nat) (cell : Option User)
      (apps : ∀ u, cell = some u → ∀ a ∈ u.appPasswords,
        a.Timely ∨ ∃ v ∈ d.users.entries, a ∈ v.appPasswords) :
      Move d { d with users := d.users.put slot cell }
  | group (slot : Nat) (cell : Option Group) :
      Move d { d with groups := d.groups.put slot cell }
  | saveUsers :
      Move d { d with usersFile := some (usersText d.users.entries) }
  | saveGroups :
      Move d { d with groupsFile := some (groupsText d.groups.entries) }

abbrev Moves := Relation.ReflTransGen Move

theorem Clock.timely (now : Clock) : (Int64.ofNat now.seconds).toInt.natAbs ≤ 2 ^ 53 := by
  have bounded := now.bounded
  rw [Int64.toInt_ofNat_of_lt (by omega), Int.natAbs_natCast]
  omega

theorem moves_saveUsersState (written : Bool) (d : Directory) :
    Moves d (saveUsersState written d) := by
  cases written with
  | true => exact Relation.ReflTransGen.single Move.saveUsers
  | false => exact Relation.ReflTransGen.refl

theorem moves_saveGroupsState (written : Bool) (d : Directory) :
    Moves d (saveGroupsState written d) := by
  cases written with
  | true => exact Relation.ReflTransGen.single Move.saveGroups
  | false => exact Relation.ReflTransGen.refl

theorem moves_clearUser (slot : Nat) (d : Directory) :
    Moves d { d with users := d.users.put slot none } := by
  apply Relation.ReflTransGen.single
  exact Move.user slot none (by simp)

theorem moves_replaceUser {slot : Nat} {u v : User} {d : Directory} (mem : u ∈ d.users.entries)
    (same : ∀ a ∈ v.appPasswords, a ∈ u.appPasswords) :
    Moves d { d with users := d.users.put slot (some v) } := by
  apply Relation.ReflTransGen.single
  apply Move.user slot (some v)
  intro w equality a appMember
  cases equality
  exact Or.inr ⟨u, mem, same a appMember⟩

theorem moves_group (slot : Nat) (cell : Option Group) (d : Directory) :
    Moves d { d with groups := d.groups.put slot cell } :=
  Relation.ReflTransGen.single (Move.group slot cell)

theorem moves_ldapGroupCreate (written : Bool) (name : Option CStr)
    (gidnumber : Int32) (d : Directory) :
    Moves d (ldapGroupCreate written name gidnumber d).1 := by
  unfold ldapGroupCreate
  repeat' split
  all_goals first
    | exact Relation.ReflTransGen.refl
    | exact (moves_group _ _ d).trans (moves_saveGroupsState true _)
    | exact moves_group _ _ d

theorem moves_ldapGroupDelete (written : Bool) (name : CStr)
    (d : Directory) : Moves d (ldapGroupDelete written name d).1 := by
  unfold ldapGroupDelete
  split
  · exact Relation.ReflTransGen.refl
  · exact (moves_group _ _ d).trans (moves_saveGroupsState written _)

theorem moves_commitGroup (written propagated rewritten : Bool)
    (slot : Nat) (old new : Group) (renames : Bool) (d : Directory) :
    Moves d (commitGroup written propagated rewritten slot old new renames d).1 := by
  have changed := moves_group slot (some new) d
  simp only [commitGroup]
  split_ifs with saved refused
  · have reverted := (changed.trans (moves_saveGroupsState true _)).trans
      (moves_group slot (some old) _)
    exact reverted.trans (moves_saveGroupsState rewritten _)
  · exact changed.trans (moves_saveGroupsState true _)
  · exact changed.trans (moves_group slot (some old) _)

theorem moves_ldapGroupUpdate (written propagated rewritten : Bool)
    (name : CStr) (newName : Option CStr) (gidnumber : Int32)
    (d : Directory) :
    Moves d (ldapGroupUpdate written propagated rewritten name newName gidnumber d).1 := by
  simp only [ldapGroupUpdate]
  repeat' split
  all_goals first
    | exact Relation.ReflTransGen.refl
    | exact moves_commitGroup _ _ _ _ _ _ _ d

theorem moves_ldapUserCreate (written overlaps : Bool)
    (name : Option CStr) (f : UserFields) (owner : Option CStr)
    (canSearch : Bool) (d : Directory) :
    Moves d (ldapUserCreate written overlaps name f owner canSearch d).1 := by
  simp only [ldapUserCreate]
  repeat' split
  all_goals try exact Relation.ReflTransGen.refl
  · apply Relation.ReflTransGen.trans _ (moves_saveUsersState true _)
    apply Relation.ReflTransGen.single
    apply Move.user
    intro u equality a mem
    cases equality
    simp [fillUserFields, blankUser] at mem
  · exact moves_clearUser _ d

theorem moves_commitUser (written : Bool) {slot : Nat}
    {u filled renamed : User} {d : Directory}
    (mem : u ∈ d.users.entries)
    (sameFilled : filled.appPasswords = u.appPasswords)
    (sameRenamed : renamed.appPasswords = u.appPasswords) :
    Moves d (commitUser written slot filled renamed d).1 := by
  unfold commitUser
  split
  · apply Relation.ReflTransGen.trans _ (moves_saveUsersState true _)
    exact moves_replaceUser mem (by simp [sameRenamed])
  · exact moves_replaceUser mem (by simp [sameFilled])

theorem moves_ldapUserUpdate (written overlaps : Bool) (name : CStr)
    (newName : Option CStr) (f : UserFields) (canSearch : Bool)
    (d : Directory) :
    Moves d (ldapUserUpdate written overlaps name newName f canSearch d).1 := by
  simp only [ldapUserUpdate]
  split
  · exact Relation.ReflTransGen.refl
  · next slot u found =>
      have mem := Slots.mem_entries_of_find found
      repeat' split
      all_goals first
        | exact Relation.ReflTransGen.refl
        | exact moves_commitUser written mem rfl rfl

theorem moves_ldapUserUpdateOwn (written overlaps : Bool) (name : CStr)
    (uidnumber primarygroup : Int32) (hash : CStr) (canSearch : Bool)
    (d : Directory) :
    Moves d (ldapUserUpdateOwn written overlaps name uidnumber primarygroup
      hash canSearch d).1 := by
  simp only [ldapUserUpdateOwn]
  split
  · exact Relation.ReflTransGen.refl
  · next slot u found =>
      have mem := Slots.mem_entries_of_find found
      split
      · exact Relation.ReflTransGen.refl
      · exact moves_commitUser written mem rfl rfl

theorem moves_ldapUserDelete (written : Bool) (name : CStr)
    (d : Directory) : Moves d (ldapUserDelete written name d).1 := by
  unfold ldapUserDelete
  split
  · exact Relation.ReflTransGen.refl
  · exact (moves_clearUser _ d).trans (moves_saveUsersState written _)

theorem moves_ldapUserForgetOwner (written : Bool) (container : CStr) (d : Directory) :
    Moves d (ldapUserForgetOwner written container d) := by
  unfold ldapUserForgetOwner
  split
  · exact Relation.ReflTransGen.refl
  · exact (moves_clearUser _ d).trans (moves_saveUsersState written _)

theorem moves_ldapAppPasswordAdd (written : Bool) (now : Clock)
    (userName : CStr) (appName hash : Option CStr) (d : Directory) :
    Moves d (ldapAppPasswordAdd written now userName appName hash d).1 := by
  simp only [ldapAppPasswordAdd, commitApps_eq, popApp_pushApp]
  split
  · exact Relation.ReflTransGen.refl
  · next slot u found =>
      have mem := Slots.mem_entries_of_find found
      repeat' split
      all_goals try exact Relation.ReflTransGen.refl
      · apply Relation.ReflTransGen.trans _ (moves_saveUsersState true _)
        apply Relation.ReflTransGen.single
        apply Move.user
        intro v equality a appMember
        cases equality
        rcases mem_append.mp appMember with old | new
        · exact Or.inr ⟨u, mem, old⟩
        · rw [mem_singleton] at new
          subst new
          exact Or.inl now.timely
      · exact moves_replaceUser mem (by simp)

theorem moves_ldapAppPasswordDelete (written : Bool) (userName : CStr)
    (appName : Option CStr) (d : Directory) :
    Moves d (ldapAppPasswordDelete written userName appName d).1 := by
  simp only [ldapAppPasswordDelete, commitApps_eq, insertApp_removeApp]
  split
  · next slot u app found =>
      have mem := Slots.mem_entries_of_find found
      repeat' split
      · exact Relation.ReflTransGen.refl
      · apply Relation.ReflTransGen.trans _ (moves_saveUsersState true _)
        exact moves_replaceUser mem fun a appMember =>
          mem_of_mem_eraseIdx appMember
      · exact moves_replaceUser mem (by simp)
  · exact Relation.ReflTransGen.refl

theorem moves_step {d : Directory} {op : Op} (running : op ≠ .restart) : Moves d (step d op) := by
  cases op with
  | groupCreate written name gidnumber =>
    exact moves_ldapGroupCreate written name gidnumber d
  | groupDelete written name => exact moves_ldapGroupDelete written name d
  | groupUpdate written propagated rewritten name newName gidnumber =>
    exact moves_ldapGroupUpdate written propagated rewritten name newName gidnumber d
  | userCreate written overlaps name fields owner canSearch =>
    exact moves_ldapUserCreate written overlaps name fields owner canSearch d
  | userUpdate written overlaps name newName fields canSearch =>
    exact moves_ldapUserUpdate written overlaps name newName fields canSearch d
  | userUpdateOwn written overlaps name uidnumber primarygroup hash
      canSearch =>
      exact moves_ldapUserUpdateOwn written overlaps name uidnumber primarygroup hash canSearch d
  | userDelete written name => exact moves_ldapUserDelete written name d
  | userForgetOwner written container =>
    exact moves_ldapUserForgetOwner written container d
  | appPasswordAdd written now userName appName hash =>
    exact moves_ldapAppPasswordAdd written now userName appName hash d
  | appPasswordDelete written userName appName =>
    exact moves_ldapAppPasswordDelete written userName appName d
  | restart => exact absurd rfl running

end Cix.Ldap
