import Cix.Auth.Grantors

/-!
# What a refused call leaves behind

The calls of `daemon/src/ldap.c` that change the records, with the permission
mapping that `ldap_group_update` and `ldap_group_delete` change along with
them.  Most take back what they did when a write fails.  The two deletions do
not, and `ldap_user_update` takes back the name only.
-/

namespace Cix.Auth

open Cix.Lib Cix.Ldap Option

/-- One call, with what the writes answer. `userUpdateOwn` is `ldap_user_update`
with the record's own fields. -/
inductive Call where
  | groupCreate (written : Bool) (name : Option CStr) (gidnumber : Int32)
  | groupUpdate (written mappingWritten rewritten : Bool) (name : CStr)
      (newName : Option CStr) (gidnumber : Int32)
  | groupDelete (written mappingWritten : Bool) (name : CStr)
  | userCreate (written overlaps : Bool) (name : Option CStr)
      (fields : UserFields) (owner : Option CStr) (canSearch : Bool)
  | userUpdate (written overlaps : Bool) (name : CStr)
      (newName : Option CStr) (fields : UserFields) (canSearch : Bool)
  | userUpdateOwn (written overlaps : Bool) (name : CStr)
      (uidnumber primarygroup : Int32) (hash : CStr) (canSearch : Bool)
  | userDelete (written : Bool) (name : CStr)
  | appPasswordAdd (written : Bool) (now : Clock) (userName : CStr)
      (appName hash : Option CStr)
  | appPasswordDelete (written : Bool) (userName : CStr)
      (appName : Option CStr)

def Store.withRecords (s : Store) (outcome : Outcome) : Store × Option RecordError :=
  ({ s with directory := outcome.1 }, outcome.2)

def call (s : Store) : Call → Store × Option RecordError
  | .groupCreate written name gidnumber =>
    s.withRecords (ldapGroupCreate written name gidnumber s.directory)
  | .groupUpdate written mappingWritten rewritten name newName gidnumber =>
    updateGroup written mappingWritten rewritten name newName gidnumber s
  | .groupDelete written mappingWritten name =>
    let outcome := ldapGroupDelete written name s.directory
    ({ s with
      directory := outcome.1
      permGroups :=
        if outcome.2 = none then
          hostauthForgetGroup name mappingWritten s.permGroups
        else s.permGroups },
      outcome.2)
  | .userCreate written overlaps name fields owner canSearch =>
    s.withRecords (ldapUserCreate written overlaps name fields owner canSearch s.directory)
  | .userUpdate written overlaps name newName fields canSearch =>
    s.withRecords (ldapUserUpdate written overlaps name newName fields canSearch s.directory)
  | .userUpdateOwn written overlaps name uidnumber primarygroup hash
      canSearch =>
      s.withRecords (ldapUserUpdateOwn written overlaps name uidnumber
        primarygroup hash canSearch s.directory)
  | .userDelete written name => s.withRecords (ldapUserDelete written name s.directory)
  | .appPasswordAdd written now userName appName hash =>
    s.withRecords (ldapAppPasswordAdd written now userName appName hash s.directory)
  | .appPasswordDelete written userName appName =>
    s.withRecords (ldapAppPasswordDelete written userName appName s.directory)

def SameTables (d d' : Directory) : Prop :=
  d'.users = d.users ∧ d'.groups = d.groups

def Harmless (d : Directory) (outcome : Outcome) : Prop :=
  outcome.2 ≠ none → SameTables d outcome.1

def Unchanged (s s' : Store) : Prop :=
  SameTables s.directory s'.directory ∧ s'.permGroups = s.permGroups

def RefusedHarmless (s : Store) (c : Call) : Prop :=
  (call s c).2 ≠ none → Unchanged s (call s c).1

theorem harmless_refused (d : Directory) (error : Option RecordError) : Harmless d (d, error) :=
  fun _ => ⟨rfl, rfl⟩

theorem harmless_done (d d' : Directory) : Harmless d (d', none) :=
  fun refused => absurd rfl refused

theorem harmless_user {d : Directory} {slot : Nat} {u : User}
    (held : d.users.get slot = some u) (error : Option RecordError) :
    Harmless d ({ d with users := d.users.put slot (some u) }, error) :=
  fun _ => ⟨Slots.put_get held, rfl⟩

theorem harmless_groupCreate (written : Bool) (name : Option CStr)
    (gidnumber : Int32) (d : Directory) :
    Harmless d (ldapGroupCreate written name gidnumber d) := by
  unfold ldapGroupCreate
  split
  · exact harmless_refused d _
  next name =>
    split
    next valid =>
      split
      · exact harmless_refused d _
      · split
        · exact harmless_refused d _
        · split
          · exact harmless_refused d _
          next slot free =>
            dsimp only
            split
            · exact harmless_done d _
            · intro _
              exact ⟨rfl, Slots.put_none (Slots.get_firstFree free).2⟩
    next => exact harmless_refused d _

theorem harmless_commitGroup (written propagated rewritten : Bool)
    {slot : Nat} {old : Group} (new : Group) (renames : Bool)
    {d : Directory} (held : d.groups.get slot = some old) :
    Harmless d (commitGroup written propagated rewritten slot old new renames d) := by
  have back : (d.groups.put slot (some new)).put slot (some old) =
      d.groups := by
    rw [Slots.put_put, Slots.put_get held]
  unfold commitGroup
  dsimp only
  split
  · split
    · intro _
      refine ⟨?_, ?_⟩
      · rw [users_saveGroupsState, users_saveGroupsState]
      · rw [groups_saveGroupsState]
        exact back
    · exact harmless_done d _
  · intro _
    exact ⟨rfl, back⟩

theorem harmless_groupUpdate (written propagated rewritten : Bool)
    (name : CStr) (newName : Option CStr) (gidnumber : Int32)
    (d : Directory) :
    Harmless d (ldapGroupUpdate written propagated rewritten name newName gidnumber d) := by
  unfold ldapGroupUpdate
  split
  · exact harmless_refused d _
  next slot g found =>
    have held := (Slots.get_of_find found).1
    split
    · exact harmless_refused d _
    · dsimp only
      split
      · split
        · exact harmless_refused d _
        · exact harmless_commitGroup written propagated rewritten _ _ held
      · split
        · split
          · exact harmless_refused d _
          · split
            · exact harmless_refused d _
            · exact harmless_commitGroup written propagated rewritten _ _ held
        · exact harmless_refused d _

theorem harmless_userCreate (written overlaps : Bool) (name : Option CStr)
    (f : UserFields) (owner : Option CStr) (canSearch : Bool)
    (d : Directory) :
    Harmless d (ldapUserCreate written overlaps name f owner canSearch d) := by
  unfold ldapUserCreate
  split
  · exact harmless_refused d _
  · split
    · split
      · exact harmless_refused d _
      · split
        · exact harmless_refused d _
        · split
          · exact harmless_refused d _
          next slot free =>
            dsimp only
            split
            · exact harmless_done d _
            · intro _
              exact ⟨Slots.put_none (Slots.get_firstFree free).2, rfl⟩
    · exact harmless_refused d _

theorem harmless_appPasswordAdd (written : Bool) (now : Clock)
    (userName : CStr) (appName hash : Option CStr) (d : Directory) :
    Harmless d (ldapAppPasswordAdd written now userName appName hash d) := by
  simp only [ldapAppPasswordAdd, commitApps_eq, popApp_pushApp]
  split
  · exact harmless_refused d _
  next slot u found =>
    have held := (Slots.get_of_find found).1
    split
    · exact harmless_refused d _
    · split
      · split
        · exact harmless_done d _
        · exact harmless_user held _
      · exact harmless_refused d _
    · exact harmless_refused d _

theorem harmless_appPasswordDelete (written : Bool) (userName : CStr)
    (appName : Option CStr) (d : Directory) :
    Harmless d (ldapAppPasswordDelete written userName appName d) := by
  simp only [ldapAppPasswordDelete, commitApps_eq, insertApp_removeApp]
  split
  next slot u appName found =>
    have held := (Slots.get_of_find found).1
    split
    · exact harmless_refused d _
    · split
      · exact harmless_done d _
      · exact harmless_user held _
  · exact harmless_refused d _

def HoldsAlready (f : UserFields) (canSearch : Bool) (u : User) : Prop :=
  ∀ count, { fillUserFields f count u with canSearch := canSearch } = u

def renamePasses (name : CStr) (newName : Option CStr) (d : Directory) :
    Bool :=
  (renameTarget name newName).all fun target =>
    ldapUsernameIsValid target && (ldapUserFind target d).isNone

def TakenBack (d : Directory) : Call → Prop
  | .groupDelete written _ name => written = true ∨ ldapGroupFind name d = none
  | .userDelete written name => written = true ∨ ldapUserFind name d = none
  | .userUpdate written overlaps name newName f canSearch =>
    written = true ∨ validateUserFields overlaps f.uidnumber f.primarygroup
        f.secondaryGroups d ≠ none ∨
      renamePasses name newName d = false ∨
      ∀ slot u, ldapUserFind name d = some (slot, u) → HoldsAlready f canSearch u
  | .userUpdateOwn written overlaps name uidnumber primarygroup hash
      canSearch =>
      written = true ∨ ∀ slot u, ldapUserFind name d = some (slot, u) →
          validateUserFields overlaps uidnumber primarygroup u.secondaryGroups d ≠ none ∨
            HoldsAlready (ownFields u uidnumber primarygroup hash) canSearch u
  | _ => True

theorem harmless_groupDelete_iff (written : Bool) (name : CStr) (d : Directory) :
    Harmless d (ldapGroupDelete written name d) ↔ written = true ∨ ldapGroupFind name d = none := by
  unfold ldapGroupDelete
  cases found : ldapGroupFind name d with
  | none => exact iff_of_true (harmless_refused d _) (Or.inr rfl)
  | some result =>
    obtain ⟨slot, g⟩ := result
    have held := (Slots.get_of_find found).1
    cases written with
    | true => exact iff_of_true (harmless_done d _) (Or.inl rfl)
    | false =>
      apply iff_of_false
      · intro harmless
        have same := (harmless (by simp)).2
        rw [← same, groups_saveGroupsState,
          Slots.get_put (Slots.lt_of_get held), if_pos rfl] at held
        cases held
      · simp

theorem harmless_userDelete_iff (written : Bool) (name : CStr) (d : Directory) :
    Harmless d (ldapUserDelete written name d) ↔ written = true ∨ ldapUserFind name d = none := by
  unfold ldapUserDelete
  cases found : ldapUserFind name d with
  | none => exact iff_of_true (harmless_refused d _) (Or.inr rfl)
  | some result =>
    obtain ⟨slot, u⟩ := result
    have held := (Slots.get_of_find found).1
    cases written with
    | true => exact iff_of_true (harmless_done d _) (Or.inl rfl)
    | false =>
      apply iff_of_false
      · intro harmless
        have same := (harmless (by simp)).1
        rw [← same, users_saveUsersState, Slots.get_put (Slots.lt_of_get held), if_pos rfl] at held
        cases held
      · simp

theorem harmless_commitUser_iff (written : Bool) {slot : Nat}
    {u : User} (filled renamed : User) {d : Directory}
    (held : d.users.get slot = some u) :
    Harmless d (commitUser written slot filled renamed d) ↔ written = true ∨ filled = u := by
  unfold commitUser
  cases written with
  | true => exact iff_of_true (harmless_done d _) (Or.inl rfl)
  | false =>
    constructor
    · intro harmless
      right
      have same : d.users.put slot (some filled) = d.users := (harmless (by simp)).1
      rw [← same, Slots.get_put (Slots.lt_of_get held), if_pos rfl] at held
      exact some.inj held
    · intro kept
      have isFilled : filled = u := kept.resolve_left (by simp)
      subst isFilled
      exact harmless_user held _

theorem harmless_userUpdate_iff (written overlaps : Bool) (name : CStr)
    (newName : Option CStr) (f : UserFields) (canSearch : Bool)
    (d : Directory) :
    Harmless d (ldapUserUpdate written overlaps name newName f canSearch d) ↔
      TakenBack d (.userUpdate written overlaps name newName f canSearch) := by
  unfold ldapUserUpdate
  simp only [TakenBack]
  cases found : ldapUserFind name d with
  | none =>
    refine iff_of_true (harmless_refused d _) ?_
    exact Or.inr (Or.inr (Or.inr fun slot u impossible => by
      cases impossible))
  | some result =>
    obtain ⟨slot, u⟩ := result
    have held := (Slots.get_of_find found).1
    dsimp only
    split
    next error isError =>
      refine iff_of_true (harmless_refused d _) (Or.inr (Or.inl ?_))
      rw [isError]
      exact some_ne_none error
    next valid =>
      have count := validateUserFields_count valid
      have filled_iff : { fillUserFields f count u with
          canSearch := canSearch } = u ↔
          ∀ i v, some (slot, u) = some (i, v) →
            HoldsAlready f canSearch v := by
        constructor
        · intro same i v isUser
          cases isUser
          exact fun _ => same
        · intro holds
          exact holds slot u rfl count
      split
      next target =>
        rw [harmless_commitUser_iff written _ _ held, filled_iff]
        simp [valid, renamePasses, target]
      next newName target =>
        split
        next validName =>
          split
          next taken =>
            refine iff_of_true (harmless_refused d _) ?_
            right; right; left
            simp [renamePasses, target, taken]
          next unused =>
            rw [harmless_commitUser_iff written _ _ held, filled_iff]
            have missing := not_isSome_iff_eq_none.mp unused
            simp [valid, renamePasses, target, validName, missing]
        next invalidName =>
          refine iff_of_true (harmless_refused d _) ?_
          right; right; left
          simp [renamePasses, target, invalidName]

theorem harmless_userUpdateOwn_iff (written overlaps : Bool) (name : CStr)
    (uidnumber primarygroup : Int32) (hash : CStr) (canSearch : Bool)
    (d : Directory) :
    Harmless d (ldapUserUpdateOwn written overlaps name uidnumber primarygroup hash canSearch d) ↔
      TakenBack d (.userUpdateOwn written overlaps name uidnumber primarygroup hash canSearch) := by
  unfold ldapUserUpdateOwn
  simp only [TakenBack]
  cases found : ldapUserFind name d with
  | none =>
    refine iff_of_true (harmless_refused d _) ?_
    exact Or.inr fun slot u impossible => by
      cases impossible
  | some result =>
    obtain ⟨slot, u⟩ := result
    have held := (Slots.get_of_find found).1
    dsimp only
    split
    next error isError =>
      refine iff_of_true (harmless_refused d _) (Or.inr ?_)
      intro i v isUser
      cases isUser
      rw [isError]
      exact Or.inl (some_ne_none error)
    next valid =>
      rw [harmless_commitUser_iff written _ _ held]
      constructor
      · rintro (isWritten | same)
        · exact Or.inl isWritten
        · right
          intro i v isUser
          cases isUser
          exact Or.inr fun _ => same
      · rintro (isWritten | holds)
        · exact Or.inl isWritten
        · have kept := (holds slot u rfl).resolve_left (by simp [valid])
          exact Or.inr (kept _)

theorem refusedHarmless_withRecords {s : Store} {c : Call}
    {outcome : Outcome} (isCall : call s c = s.withRecords outcome) :
    RefusedHarmless s c ↔ Harmless s.directory outcome := by
  unfold RefusedHarmless
  rw [isCall]
  constructor
  · intro harmless refused
    exact (harmless refused).1
  · intro harmless refused
    exact ⟨harmless refused, rfl⟩

theorem refusedHarmless_groupUpdate (s : Store)
    (written mappingWritten rewritten : Bool) (name : CStr)
    (newName : Option CStr) (gidnumber : Int32) :
    RefusedHarmless s (.groupUpdate written mappingWritten rewritten name newName gidnumber) := by
  intro refused
  simp only [call, updateGroup_eq] at refused ⊢
  refine ⟨harmless_groupUpdate _ _ _ _ _ _ _ refused, ?_⟩
  dsimp only
  unfold mappingAfter
  split
  next isNone _ => exact absurd isNone refused
  next => rfl

theorem refusedHarmless_groupDelete_iff (s : Store) (written mappingWritten : Bool) (name : CStr) :
    RefusedHarmless s (.groupDelete written mappingWritten name) ↔
      Harmless s.directory (ldapGroupDelete written name s.directory) := by
  constructor
  · intro harmless refused
    exact (harmless refused).1
  · intro harmless refused
    refine ⟨harmless refused, ?_⟩
    simp only [call] at refused ⊢
    rw [if_neg refused]

/-- A refused call leaves the tables and the mapping as they were, exactly
where a deletion finds its record only when the write succeeds and an update
of a user that cannot be written has nothing to change. -/
theorem refused_changes_nothing_iff (s : Store) (c : Call) :
    RefusedHarmless s c ↔ TakenBack s.directory c := by
  cases c with
  | groupCreate written name gidnumber =>
    rw [refusedHarmless_withRecords rfl]
    exact iff_of_true (harmless_groupCreate written name gidnumber _)
      trivial
  | groupUpdate written mappingWritten rewritten name newName gidnumber =>
    exact iff_of_true (refusedHarmless_groupUpdate s written mappingWritten
      rewritten name newName gidnumber) trivial
  | groupDelete written mappingWritten name =>
    rw [refusedHarmless_groupDelete_iff]
    exact harmless_groupDelete_iff written name s.directory
  | userCreate written overlaps name fields owner canSearch =>
    rw [refusedHarmless_withRecords rfl]
    exact iff_of_true (harmless_userCreate written overlaps name fields owner canSearch _) trivial
  | userUpdate written overlaps name newName fields canSearch =>
    rw [refusedHarmless_withRecords rfl]
    exact harmless_userUpdate_iff written overlaps name newName fields canSearch s.directory
  | userUpdateOwn written overlaps name uidnumber primarygroup hash
      canSearch =>
      rw [refusedHarmless_withRecords rfl]
      exact harmless_userUpdateOwn_iff written overlaps name uidnumber
        primarygroup hash canSearch s.directory
  | userDelete written name =>
    rw [refusedHarmless_withRecords rfl]
    exact harmless_userDelete_iff written name s.directory
  | appPasswordAdd written now userName appName hash =>
    rw [refusedHarmless_withRecords rfl]
    exact iff_of_true (harmless_appPasswordAdd written now userName appName hash _) trivial
  | appPasswordDelete written userName appName =>
    rw [refusedHarmless_withRecords rfl]
    exact iff_of_true (harmless_appPasswordDelete written userName appName _) trivial

/-- A store with the group `staff`. -/
def staffStore : Store where
  directory := (ldapGroupCreate true (some "staff") 10000 firstStart).1
  permGroups := []
  standardDone := fun _ => false

/-- A deletion whose write fails has cleared the record. -/
theorem failed_delete_clears : ¬ ∀ (s : Store) (c : Call), RefusedHarmless s c := by
  intro always
  let c : Call := .groupDelete false true "staff"
  have harmless := always staffStore c
  have refused : (call staffStore c).2 = some .persistFailed := by decide +kernel
  have same := (harmless (by rw [refused]; exact some_ne_none _)).1.2
  have before : (staffStore.directory.groups.get 0).isSome = true := by decide +kernel
  have after : ((call staffStore c).1.directory.groups.get 0).isSome =
      false := by
    decide +kernel
  rw [same, before] at after
  cases after

end Cix.Auth
