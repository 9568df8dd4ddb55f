import Cix.Ldap.Subid

/-!
# Ranges and uids stay apart

A range is free of the uids in memory when it is assigned, and a uid is outside
the ranges when a user gets it.  What a restart brings back are the uids of the
state file, so they must be among those in memory whenever a range is assigned.
A failed write of `ldap_user_update` leaves the new uid in memory and the old
one in the file.
-/

namespace Cix.Subid

open Cix.Lib Cix.Json Cix.Ldap List

/-! ## A new range -/

variable {d : Directory}

theorem le_nextBase (table : List Entry) (start : Int) : start ≤ table.foldl (fun next e =>
      if e.base + rangeLen > next then e.base + rangeLen else next) start ∧
    ∀ e ∈ table, e.base + rangeLen ≤ table.foldl (fun next e =>
      if e.base + rangeLen > next then e.base + rangeLen else next) start := by
  induction table generalizing start with
  | nil => exact ⟨le_refl start, fun e mem => by cases mem⟩
  | cons first rest ih =>
    obtain ⟨above, each⟩ := ih (if first.base + rangeLen > start then first.base + rangeLen
        else start)
    have reached : start ≤ (if first.base + rangeLen > start then
        first.base + rangeLen else start) ∧ first.base + rangeLen ≤
        (if first.base + rangeLen > start then first.base + rangeLen
          else start) := by
      split_ifs <;> omega
    rw [foldl_cons]
    refine ⟨le_trans reached.1 above, ?_⟩
    intro e mem
    rcases mem_cons.mp mem with isFirst | later
    · rw [isFirst]
      exact le_trans reached.2 above
    · exact each e later

theorem nextBase_le {table : List Entry} {bound start : Int} (low : start ≤ bound)
    (each : ∀ e ∈ table, e.base + rangeLen ≤ bound) :
    table.foldl (fun next e =>
      if e.base + rangeLen > next then e.base + rangeLen else next) start ≤
      bound := by
  induction table generalizing start with
  | nil => exact low
  | cons first rest ih =>
    rw [foldl_cons]
    apply ih
    · split_ifs
      · exact each first mem_cons_self
      · exact low
    · intro e mem
      exact each e (mem_cons_of_mem first mem)

theorem freeBase_spec {d : Directory} {next base : Int}
    (found : freeBase d next = some base) :
    next ≤ base ∧ (base ≤ next ∨ base < 2 ^ 31 + rangeLen) ∧
      ldapUserUidnumberInRange base (base + rangeLen - 1) d = false := by
  fun_induction freeBase d next with
  | case1 next used beyond => cases found
  | case2 next used under ih =>
    obtain ⟨above, near, free⟩ := ih found
    have low := lt_of_uidnumberInRange used
    rw [rangeLen] at above near ⊢
    exact ⟨by omega, by omega, free⟩
  | case3 next unused =>
    cases found
    exact ⟨le_refl _, Or.inl (le_refl _), Bool.not_eq_true _ ▸ unused⟩

theorem freeBase_of_free {next : Int}
    (free : ldapUserUidnumberInRange next (next + rangeLen - 1) d = false) :
    freeBase d next = some next := by
  rw [freeBase, dif_neg (by rw [free]; exact Bool.false_ne_true)]

/-! ## Apart -/

def Outside (uid : Int) (e : Entry) : Prop :=
  uid < e.base ∨ e.base + rangeLen ≤ uid

def Entry.Apart (e f : Entry) : Prop :=
  e.base + rangeLen ≤ f.base ∨ f.base + rangeLen ≤ e.base

/-- The ranges lie one after the other and are what the state file holds; no user
has a uid in one; and the uids of the users' file are in memory. -/
structure Apart (s : State) : Prop where
  rising : s.table.Pairwise fun e f => e.base + rangeLen ≤ f.base
  bounded : ∀ e ∈ s.table, 0 ≤ e.base ∧ e.base ≤ 2 ^ 31 + rangeLen * s.table.length
  count : s.table.length ≤ 512
  saved : s.file = some (tableText s.table) ∨ s.file = none ∧ s.table = []
  uids : ∀ u ∈ s.directory.users.entries, ∀ e ∈ s.table, Outside u.uidnumber.toInt e
  timely : ∀ u ∈ s.directory.users.entries, u.Timely
  recorded : ∀ text, s.directory.usersFile = some text →
    ∃ users : List User, text = usersText users ∧ users.length ≤ 256 ∧ (∀ u ∈ users, u.Timely) ∧
      ∀ u ∈ users, ∃ v ∈ s.directory.users.entries, v.uidnumber = u.uidnumber
  groups : ∀ text, s.directory.groupsFile = some text →
    ∃ groups : List Group, text = groupsText groups

theorem apart_firstStart : Apart firstStart where
  rising := List.Pairwise.nil
  bounded := fun e mem => by cases mem
  count := Nat.zero_le _
  saved := Or.inr ⟨rfl, rfl⟩
  uids := fun u _ e mem => by cases mem
  timely := sound_firstStart.users
  recorded := fun text isText => by cases isText
  groups := fun text isText => by cases isText

variable {s : State}

theorem Apart.whole (apart : Apart s) : ∀ e ∈ s.table, e.Whole := by
  intro e mem
  obtain ⟨low, high⟩ := apart.bounded e mem
  have count := apart.count
  rw [rangeLen] at high
  rw [Entry.Whole]
  omega

theorem Apart.reload (apart : Apart s) : subidInit s = s := by
  rcases apart.saved with saved | ⟨unsaved, empty⟩
  · rw [subidInit_saved saved apart.whole apart.count]
  · simp only [subidInit, unsaved]
    rw [← empty]
    cases s
    simp_all

theorem outside_of_free {base : Int} {key : BoundedStr 128}
    (free : ldapUserUidnumberInRange base (base + rangeLen - 1) d = false)
    {u : User} (mem : u ∈ d.users.entries) :
    Outside u.uidnumber.toInt ⟨key, base⟩ := by
  have each := any_eq_false.mp free u mem
  simp only [Bool.and_eq_true, decide_eq_true_eq, not_and, not_le] at each
  rw [Outside]
  dsimp only
  by_cases low : u.uidnumber.toInt < base
  · exact Or.inl low
  · have high := each (Int.not_lt.mp low)
    right
    omega

theorem Apart.assign (apart : Apart s) (written : Bool)
    (key : CStr) : Apart (subidLookupOrAssign written key s).1 := by
  unfold subidLookupOrAssign
  split
  · exact apart
  · split
    · exact apart
    next room =>
      split
      · exact apart
      next base found =>
        split
        next =>
          obtain ⟨floor, above⟩ := le_nextBase s.table subidFloor
          change subidFloor ≤ nextBase s.table at floor
          obtain ⟨reached, near, free⟩ := freeBase_spec found
          have low : nextBase s.table ≤ 2 ^ 31 + rangeLen * (s.table.length + 1) := by
            apply nextBase_le
            · rw [subidFloor, rangeLen]
              omega
            · intro e mem
              have high := (apart.bounded e mem).2
              rw [rangeLen] at high ⊢
              omega
          refine ⟨?_, ?_, ?_, Or.inl rfl, ?_, apart.timely, apart.recorded, apart.groups⟩
          · rw [pairwise_append]
            refine ⟨apart.rising, pairwise_singleton _ _, ?_⟩
            intro e mem f isNew
            rw [mem_singleton] at isNew
            subst isNew
            exact le_trans (above e mem) reached
          · intro e mem
            dsimp only at mem ⊢
            rw [length_append, length_singleton]
            rcases mem_append.mp mem with old | new
            · obtain ⟨nonneg, high⟩ := apart.bounded e old
              rw [rangeLen] at high ⊢
              push_cast
              exact ⟨nonneg, by omega⟩
            · rw [mem_singleton] at new
              subst new
              change 0 ≤ base ∧ base ≤ _
              rw [subidFloor] at floor
              rw [rangeLen] at low near ⊢
              push_cast
              omega
          · dsimp only
            rw [length_append, length_singleton]
            omega
          · intro u inUse e mem
            rcases mem_append.mp mem with old | new
            · exact apart.uids u inUse e old
            · rw [mem_singleton] at new
              subst new
              exact outside_of_free free inUse
        next => exact apart

/-! ## Calls about users -/

variable {table : List Entry}

/-- A call saves uids that were there or are outside the ranges, or replaces a
record by one with its uid, or does nothing. -/
inductive UidMove (table : List Entry) (d d' : Directory) : Prop
  | stays (users : d'.users = d.users) (file : d'.usersFile = d.usersFile)
  | saved (file : d'.usersFile = some (usersText d'.users.entries))
      (uids : ∀ u ∈ d'.users.entries, (∃ v ∈ d.users.entries, v.uidnumber = u.uidnumber) ∨
          ∀ e ∈ table, Outside u.uidnumber.toInt e)
  | unsaved (slot : Nat) (v u : User) (held : d.users.get slot = some v)
      (same : u.uidnumber = v.uidnumber)
      (users : d'.users = d.users.put slot (some u))
      (file : d'.usersFile = d.usersFile)

theorem uidMove_refl (table : List Entry) (d : Directory) :
    UidMove table d d :=
  UidMove.stays rfl rfl

theorem uidMove_save {slot : Nat} {cell : Option User} (fresh : ∀ u, cell = some u →
      (∃ v ∈ d.users.entries, v.uidnumber = u.uidnumber) ∨
        ∀ e ∈ table, Outside u.uidnumber.toInt e) :
    UidMove table d (saveUsersState true { d with users := d.users.put slot cell }) := by
  apply UidMove.saved rfl
  intro u mem
  rcases Slots.mem_entries_put mem with old | new
  · exact Or.inl ⟨u, old, rfl⟩
  · exact fresh u new

theorem outside_of_not_overlaps {uid : Int} (free : subidOverlapsUidnumber uid table = false) :
    ∀ e ∈ table, Outside uid e := by
  intro e mem
  have each := any_eq_false.mp free e mem
  simp only [Bool.and_eq_true, decide_eq_true_eq, not_and, not_lt] at each
  by_cases low : uid < e.base
  · exact Or.inl low
  · exact Or.inr (each (Int.not_lt.mp low))

theorem free_of_validateUserFields {overlaps : Bool}
    {uidnumber primarygroup : Int32} {secondaryGroups : List Int32}
    (valid : validateUserFields overlaps uidnumber primarygroup
      secondaryGroups d = none) : overlaps = false := by
  unfold validateUserFields at valid
  split_ifs at valid with low overlapping
  exact Bool.not_eq_true _ ▸ overlapping

theorem uidMove_userCreate (table : List Entry) (written : Bool)
    (name : Option CStr) (f : UserFields) (owner : Option CStr)
    (canSearch : Bool) (d : Directory) :
    UidMove table d (ldapUserCreate written
      (subidOverlapsUidnumber f.uidnumber.toInt table) name f owner canSearch
      d).1 := by
  unfold ldapUserCreate
  split
  · exact uidMove_refl table d
  · split
    · split
      · exact uidMove_refl table d
      next valid =>
        split
        · exact uidMove_refl table d
        · split
          · exact uidMove_refl table d
          next slot free =>
            dsimp only
            split
            · apply uidMove_save
              intro u isUser
              cases isUser
              exact Or.inr (outside_of_not_overlaps (free_of_validateUserFields valid))
            · exact UidMove.stays (Slots.put_none (Slots.get_firstFree free).2) rfl
    · exact uidMove_refl table d

theorem uidMove_commitUser {written : Bool} {slot : Nat}
    {u filled renamed : User} (held : d.users.get slot = some u)
    (free : ∀ e ∈ table, Outside renamed.uidnumber.toInt e)
    (kept : written = true ∨ filled.uidnumber = u.uidnumber) :
    UidMove table d (commitUser written slot filled renamed d).1 := by
  unfold commitUser
  split
  · apply uidMove_save
    intro v isUser
    cases isUser
    exact Or.inr free
  next unwritten =>
    exact UidMove.unsaved slot u filled held (kept.resolve_left unwritten)
      rfl rfl

theorem uidMove_userUpdate {written : Bool} {name : CStr}
    (newName : Option CStr) {f : UserFields} (canSearch : Bool)
    (kept : written = true ∨ ∀ slot u, ldapUserFind name d = some (slot, u) →
      f.uidnumber = u.uidnumber) :
    UidMove table d (ldapUserUpdate written
      (subidOverlapsUidnumber f.uidnumber.toInt table) name newName f
      canSearch d).1 := by
  unfold ldapUserUpdate
  split
  · exact uidMove_refl table d
  next slot u found =>
    have held := (Slots.get_of_find found).1
    have keptHere : written = true ∨ f.uidnumber = u.uidnumber :=
      kept.imp_right fun same => same slot u found
    split
    · exact uidMove_refl table d
    next valid =>
      have free := outside_of_not_overlaps (free_of_validateUserFields valid)
      dsimp only
      split
      · exact uidMove_commitUser held free keptHere
      · split
        · split
          · exact uidMove_refl table d
          · exact uidMove_commitUser held free keptHere
        · exact uidMove_refl table d

theorem uidMove_userUpdateOwn {written : Bool} {name : CStr} {uidnumber : Int32}
    (primarygroup : Int32) (hash : CStr) (canSearch : Bool)
    (kept : written = true ∨ ∀ slot u, ldapUserFind name d = some (slot, u) →
      uidnumber = u.uidnumber) :
    UidMove table d (ldapUserUpdateOwn written
      (subidOverlapsUidnumber uidnumber.toInt table) name uidnumber
      primarygroup hash canSearch d).1 := by
  unfold ldapUserUpdateOwn
  split
  · exact uidMove_refl table d
  next slot u found =>
    have held := (Slots.get_of_find found).1
    have keptHere : written = true ∨ uidnumber = u.uidnumber :=
      kept.imp_right fun same => same slot u found
    split
    · exact uidMove_refl table d
    next valid =>
      have free := outside_of_not_overlaps (free_of_validateUserFields valid)
      exact uidMove_commitUser held free keptHere

theorem uidMove_clear (table : List Entry) (slot : Nat) (d : Directory) : UidMove table d
      (saveUsersState true { d with users := d.users.put slot none }) := by
  apply uidMove_save
  intro u isUser
  cases isUser

theorem uidMove_appPasswordAdd (table : List Entry) (written : Bool)
    (now : Clock) (userName : CStr) (appName hash : Option CStr)
    (d : Directory) :
    UidMove table d (ldapAppPasswordAdd written now userName appName hash d).1 := by
  simp only [ldapAppPasswordAdd, commitApps_eq, popApp_pushApp]
  split
  · exact uidMove_refl table d
  next slot u found =>
    have held := (Slots.get_of_find found).1
    have mem := Slots.mem_entries_of_find found
    split
    · exact uidMove_refl table d
    · split
      · split
        · apply uidMove_save
          intro v isUser
          cases isUser
          exact Or.inl ⟨u, mem, rfl⟩
        · exact UidMove.stays (Slots.put_get held) rfl
      · exact uidMove_refl table d
    · exact uidMove_refl table d

theorem uidMove_appPasswordDelete (table : List Entry) (written : Bool)
    (userName : CStr) (appName : Option CStr) (d : Directory) :
    UidMove table d (ldapAppPasswordDelete written userName appName d).1 := by
  simp only [ldapAppPasswordDelete, commitApps_eq, insertApp_removeApp]
  split
  next slot u appName found =>
    have held := (Slots.get_of_find found).1
    have mem := Slots.mem_entries_of_find found
    split
    · exact uidMove_refl table d
    · split
      · apply uidMove_save
        intro v isUser
        cases isUser
        exact Or.inl ⟨u, mem, rfl⟩
      · exact UidMove.stays (Slots.put_get held) rfl
  · exact uidMove_refl table d

/-! ## Calls about groups -/

theorem uidMove_saveGroups (table : List Entry) (written : Bool)
    (d d' : Directory) (users : d'.users = d.users)
    (file : d'.usersFile = d.usersFile) :
    UidMove table d (saveGroupsState written d') := by
  cases written with
  | true => exact UidMove.stays users file
  | false => exact UidMove.stays users file

theorem uidMove_groupCreate (table : List Entry) (written : Bool)
    (name : Option CStr) (gidnumber : Int32) (d : Directory) :
    UidMove table d (ldapGroupCreate written name gidnumber d).1 := by
  unfold ldapGroupCreate
  repeat' split
  all_goals exact UidMove.stays rfl rfl

theorem uidMove_groupDelete (table : List Entry) (written : Bool) (name : CStr) (d : Directory) :
    UidMove table d (ldapGroupDelete written name d).1 := by
  unfold ldapGroupDelete
  split
  · exact uidMove_refl table d
  · exact uidMove_saveGroups table written d _ rfl rfl

theorem uidMove_commitGroup (table : List Entry)
    (written propagated rewritten : Bool) (slot : Nat) (old new : Group)
    (renames : Bool) (d : Directory) :
    UidMove table d (commitGroup written propagated rewritten slot old new renames d).1 := by
  unfold commitGroup
  dsimp only
  split
  · split
    · exact uidMove_saveGroups table rewritten d _ rfl rfl
    · exact UidMove.stays rfl rfl
  · exact UidMove.stays rfl rfl

theorem uidMove_groupUpdate (table : List Entry) (written propagated rewritten : Bool) (name : CStr)
    (newName : Option CStr) (gidnumber : Int32) (d : Directory) :
    UidMove table d (ldapGroupUpdate written propagated rewritten name newName gidnumber d).1 := by
  unfold ldapGroupUpdate
  dsimp only
  repeat' split
  all_goals first
    | exact uidMove_refl table d
    | exact uidMove_commitGroup table _ _ _ _ _ _ _ d

/-! ## Steps -/

def Kept (s : State) : Op → Prop
  | .records (.userUpdate written _ name _ f _) =>
    written = true ∨ ∀ slot u, ldapUserFind name s.directory = some (slot, u) →
        f.uidnumber = u.uidnumber
  | .records (.userUpdateOwn written _ name uidnumber _ _ _) =>
    written = true ∨ ∀ slot u, ldapUserFind name s.directory = some (slot, u) →
        uidnumber = u.uidnumber
  | .records (.userDelete written _) => written = true
  | .records (.userForgetOwner written _) => written = true
  | _ => True

theorem uidMove_step {op : Ldap.Op}
    (kept : Kept s (.records op)) (running : op ≠ .restart) :
    UidMove s.table s.directory (Ldap.step s.directory (answered s.table op)) := by
  cases op with
  | groupCreate written name gidnumber =>
    exact uidMove_groupCreate s.table written name gidnumber _
  | groupDelete written name => exact uidMove_groupDelete s.table written name _
  | groupUpdate written propagated rewritten name newName gidnumber =>
    exact uidMove_groupUpdate s.table written propagated rewritten name newName gidnumber _
  | userCreate written overlaps name f owner canSearch =>
    exact uidMove_userCreate s.table written name f owner canSearch _
  | userUpdate written overlaps name newName f canSearch =>
    exact uidMove_userUpdate newName canSearch kept
  | userUpdateOwn written overlaps name uidnumber primarygroup hash
      canSearch =>
      exact uidMove_userUpdateOwn primarygroup hash canSearch kept
  | userDelete written name =>
    have isWritten : written = true := kept
    subst isWritten
    change UidMove s.table s.directory (ldapUserDelete true name s.directory).1
    unfold ldapUserDelete
    split
    · exact uidMove_refl s.table s.directory
    · exact uidMove_clear s.table _ s.directory
  | userForgetOwner written container =>
    have isWritten : written = true := kept
    subst isWritten
    change UidMove s.table s.directory (ldapUserForgetOwner true container s.directory)
    unfold ldapUserForgetOwner
    split
    · exact uidMove_refl s.table s.directory
    · exact uidMove_clear s.table _ s.directory
  | appPasswordAdd written now userName appName hash =>
    exact uidMove_appPasswordAdd s.table written now userName appName hash _
  | appPasswordDelete written userName appName =>
    exact uidMove_appPasswordDelete s.table written userName appName _
  | restart => exact absurd rfl running

theorem Apart.sound (apart : Apart s) : Sound s.directory where
  users := apart.timely
  file := by
    intro text isText
    obtain ⟨users, isUsers, _, timely, _⟩ := apart.recorded text isText
    exact ⟨users, isUsers, timely⟩

theorem groupsFile_moves {d d' : Directory} (moves : Moves d d')
    (before : ∀ text, d.groupsFile = some text → ∃ groups : List Group, text = groupsText groups) :
    ∀ text, d'.groupsFile = some text → ∃ groups : List Group, text = groupsText groups := by
  induction moves with
  | refl => exact before
  | tail _ move ih =>
    cases move with
    | user slot cell apps => exact ih
    | group slot cell => exact ih
    | saveUsers => exact ih
    | saveGroups =>
      intro text isText
      cases isText
      exact ⟨_, rfl⟩

theorem UidMove.outside {d' : Directory} (apart : Apart s)
    (move : UidMove s.table s.directory d') :
    ∀ u ∈ d'.users.entries, ∀ e ∈ s.table, Outside u.uidnumber.toInt e := by
  intro u mem e inTable
  cases move with
  | stays users file =>
    rw [users] at mem
    exact apart.uids u mem e inTable
  | saved file uids =>
    rcases uids u mem with ⟨v, inUse, same⟩ | free
    · rw [← same]
      exact apart.uids v inUse e inTable
    · exact free e inTable
  | unsaved slot v w held same users file =>
    rw [users] at mem
    rcases Slots.mem_entries_put mem with old | new
    · exact apart.uids u old e inTable
    · cases new
      rw [same]
      exact apart.uids v (Slots.mem_entries_iff_get.mpr ⟨slot, held⟩) e inTable

theorem UidMove.recorded {d' : Directory} (apart : Apart s)
    (move : UidMove s.table s.directory d') (timely : ∀ u ∈ d'.users.entries,
      u.Timely) {text : List UInt8} (isText : d'.usersFile = some text) :
    ∃ users : List User, text = usersText users ∧ users.length ≤ 256 ∧ (∀ u ∈ users, u.Timely) ∧
      ∀ u ∈ users, ∃ v ∈ d'.users.entries, v.uidnumber = u.uidnumber := by
  cases move with
  | stays users file =>
    rw [file] at isText
    rw [users]
    exact apart.recorded text isText
  | saved file uids =>
    rw [file] at isText
    cases isText
    exact ⟨d'.users.entries, rfl, d'.users.length_entries_le, timely, fun u mem => ⟨u, mem, rfl⟩⟩
  | unsaved slot v w held same users file =>
    rw [file] at isText
    obtain ⟨saved, isSaved, fits, savedTimely, inMemory⟩ := apart.recorded text isText
    refine ⟨saved, isSaved, fits, savedTimely, ?_⟩
    intro u mem
    obtain ⟨x, inUse, sameUid⟩ := inMemory u mem
    obtain ⟨i, heldX⟩ := Slots.mem_entries_iff_get.mp inUse
    rw [users]
    by_cases atSlot : i = slot
    · subst atSlot
      rw [held] at heldX
      cases heldX
      refine ⟨w, Slots.mem_entries_iff_get.mpr ⟨i, ?_⟩, same.trans sameUid⟩
      rw [Slots.get_put (Slots.lt_of_get held), if_pos rfl]
    · refine ⟨x, Slots.mem_entries_iff_get.mpr ⟨i, ?_⟩, sameUid⟩
      rw [Slots.get_put_of_ne atSlot]
      exact heldX

theorem answered_ne_restart (table : List Entry) {op : Ldap.Op}
    (running : op ≠ .restart) : answered table op ≠ .restart := by
  cases op with
  | restart => exact absurd rfl running
  | _ =>
    intro isRestart
    cases isRestart

theorem Apart.restart (apart : Apart s) :
    Apart { s with directory := ldapRecordInit s.directory } := by
  have sound := apart.sound.ldapRecordInit
  have groupsLoad : ∃ groups, loadGroupsState s.directory.groupsFile =
      some groups := by
    cases isFile : s.directory.groupsFile with
    | none => exact ⟨Slots.empty 64, rfl⟩
    | some text =>
      obtain ⟨groups, rfl⟩ := apart.groups text isFile
      exact ⟨_, loadGroupsState_groupsText groups⟩
  obtain ⟨groups, isGroups⟩ := groupsLoad
  have usersFile : (ldapRecordInit s.directory).usersFile =
      s.directory.usersFile := by
    simp only [ldapRecordInit]
    split
    · rfl
    · split
      · rfl
      · rfl
  have groupsFile : (ldapRecordInit s.directory).groupsFile =
      s.directory.groupsFile := by
    simp only [ldapRecordInit]
    split
    · rfl
    · split
      · rfl
      · rfl
  cases isFile : s.directory.usersFile with
  | none =>
    have cleared : (ldapRecordInit s.directory).users =
        Slots.empty 256 := by
      simp only [ldapRecordInit, isGroups, isFile]
      rfl
    refine ⟨apart.rising, apart.bounded, apart.count, apart.saved, ?_,
      sound.users, ?_, by rw [groupsFile]; exact apart.groups⟩
    · intro u mem
      rw [cleared, Slots.entries_empty] at mem
      cases mem
    · intro text isText
      rw [usersFile, isFile] at isText
      cases isText
  | some text =>
    obtain ⟨users, rfl, fits, timely, inMemory⟩ := apart.recorded text isFile
    have loaded : (ldapRecordInit s.directory).users.entries = users.map User.withoutFlags := by
      have all : (users.map User.withoutFlags).length ≤ 256 := by
        rw [length_map]
        exact fits
      simp only [ldapRecordInit, isGroups, isFile, loadUsersState_usersText timely]
      exact Slots.entries_ofEntries all
    refine ⟨apart.rising, apart.bounded, apart.count, apart.saved, ?_,
      sound.users, ?_, by rw [groupsFile]; exact apart.groups⟩
    · intro u mem
      rw [loaded] at mem
      obtain ⟨v, inFile, rfl⟩ := mem_map.mp mem
      obtain ⟨w, inUse, same⟩ := inMemory v inFile
      intro e inTable
      have outside := apart.uids w inUse e inTable
      rw [same] at outside
      exact outside
    · intro text isText
      rw [usersFile, isFile] at isText
      cases isText
      refine ⟨users, rfl, fits, timely, ?_⟩
      intro u mem
      rw [loaded]
      exact ⟨u.withoutFlags, mem_map_of_mem mem, rfl⟩

theorem Apart.step (apart : Apart s) {op : Op}
    (kept : Kept s op) : Apart (step s op) := by
  cases op with
  | assign written name => exact apart.assign written name.text.str
  | reload =>
    change Apart (subidInit s)
    rw [apart.reload]
    exact apart
  | records op =>
    by_cases running : op = .restart
    · subst running
      exact apart.restart
    · have move := uidMove_step kept running
      have timely := (apart.sound.step (answered s.table op)).users
      have moves := moves_step (d := s.directory) (answered_ne_restart s.table running)
      have outside := move.outside apart
      exact ⟨apart.rising, apart.bounded, apart.count, apart.saved, outside, timely,
        fun text isText => move.recorded apart timely isText,
        groupsFile_moves moves apart.groups⟩

/-! ## Keys -/

theorem find_append {key : CStr} {e : Entry} (found : find key table = some e)
    (new : Entry) : find key (table ++ [new]) = some e := by
  rw [find, find?_append, ← find, found]
  rfl

theorem find_step (apart : Apart s) {key : CStr} {e : Entry}
    (found : find key s.table = some e) (op : Op) :
    find key (step s op).table = some e := by
  cases op with
  | assign written name =>
    change find key (subidLookupOrAssign written name.text.str s).1.table = some e
    unfold subidLookupOrAssign
    repeat' split
    all_goals first
      | exact found
      | exact find_append found _
  | records op => exact found
  | reload =>
    change find key (subidInit s).table = some e
    rw [apart.reload]
    exact found

theorem find_assigned {written : Bool} {key : CStr} {base : Int}
    (fits : key.length < 128)
    (returned : (subidLookupOrAssign written key s).2 = some base) :
    ∃ e, find key (subidLookupOrAssign written key s).1.table = some e ∧ e.base = base := by
  unfold subidLookupOrAssign at returned ⊢
  cases found : find key s.table with
  | some e =>
    rw [found] at returned
    cases returned
    exact ⟨e, found, rfl⟩
  | none =>
    rw [found] at returned
    dsimp only at returned ⊢
    split at returned
    · cases returned
    next room =>
      rw [if_neg room]
      cases isBase : freeBase s.directory (nextBase s.table) with
      | none =>
        rw [isBase] at returned
        cases returned
      | some free =>
        rw [isBase] at returned
        dsimp only at returned ⊢
        split at returned
        next isWritten =>
          have isFree : free = base := Option.some.inj returned
          rw [if_pos isWritten, isFree]
          refine ⟨⟨BoundedStr.store 128 (by decide) key, base⟩, ?_,
            rfl⟩
          have stored : (BoundedStr.store 128 (by decide) key).str =
              key :=
            CStr.truncate_of_fits (by omega)
          rw [find, find?_append, ← find, found]
          simp [stored]
        next => cases returned

/-- In every run in which updates of users are saved or keep the uid, the
ranges do not meet, a call returns for a key what an earlier one returned, and
no user has a uid in a range. -/
theorem ranges_apart {ops : List Op} (kept : Guarded step Kept firstStart ops) :
    (run step firstStart ops).table.Pairwise Entry.Apart ∧
      (∀ u ∈ (run step firstStart ops).directory.users.entries,
        ∀ e ∈ (run step firstStart ops).table, Outside u.uidnumber.toInt e) ∧
      ∀ earlier written name later base, ops = earlier ++ .assign written name :: later →
        (subidLookupOrAssign written name.text.str (run step firstStart earlier)).2 = some base →
        ∀ again, (subidLookupOrAssign again name.text.str
          (run step firstStart ops)).2 = some base := by
  have apart := run_invariant Apart (fun _ _ apart kept => apart.step kept) apart_firstStart kept
  refine ⟨apart.rising.imp fun before => Or.inl before, apart.uids, ?_⟩
  intro earlier written name later base isRun returned again
  have fits : name.text.str.length < 128 := by
    have short := name.text.fits
    omega
  obtain ⟨e, found, isBase⟩ := find_assigned fits returned
  have stays : ∀ inputs, Guarded step Kept firstStart (earlier ++ .assign written name :: inputs) →
      find name.text.str (run step firstStart
        (earlier ++ .assign written name :: inputs)).table = some e := by
    intro inputs
    induction inputs using List.reverseRecOn with
    | nil =>
      intro _
      rw [run_snoc]
      exact found
    | append_singleton inputs input ih =>
      intro guarded
      rw [← cons_append, ← append_assoc] at guarded ⊢
      rw [run_snoc]
      apply find_step _ (ih guarded.initial)
      exact run_invariant Apart (fun _ _ apart kept => apart.step kept)
        apart_firstStart guarded.initial
  have foundLast := stays later (isRun ▸ kept)
  rw [← isRun] at foundLast
  rw [subidLookupOrAssign, foundLast, ← isBase]

theorem web_short : (CStr.ofString "web").length < 64 := by decide

theorem db_short : (CStr.ofString "db").length < 64 := by decide

/-- A range is assigned after the uid of `alice` is to become 5000, and then the
daemon restarts. -/
def updatedUser (written : Bool) : List Op :=
  [.records (.groupCreate true (some "staff") 10000),
    .records (.userCreate true false (some "alice") (plainFields 100000 false) none false),
    .records (.userUpdate written false "alice" none (plainFields 5000 false) false),
    .assign true ⟨⟨"web", web_short⟩, by decide⟩,
    .records .restart]

/-- And a second range after the restart. -/
def twoRanges : List Op := updatedUser true ++ [.assign true ⟨⟨"db", db_short⟩, by decide⟩]

theorem ranges_apart_updated : (run step firstStart twoRanges).table.Pairwise Entry.Apart ∧
    ∀ u ∈ (run step firstStart twoRanges).directory.users.entries,
      ∀ e ∈ (run step firstStart twoRanges).table, Outside u.uidnumber.toInt e := by
  have kept : Guarded step Kept firstStart twoRanges :=
    Guarded.cons trivial (Guarded.cons trivial (Guarded.cons (Or.inl rfl)
      (Guarded.cons trivial (Guarded.cons trivial (Guarded.cons trivial (guarded_nil _ _))))))
  exact ⟨(ranges_apart kept).1, (ranges_apart kept).2.1⟩

def savedAlice : Directory :=
  (run step firstStart ((updatedUser false).take 2)).directory

def unsavedUpdate : State :=
  run step firstStart ((updatedUser false).take 3)

theorem unsavedUpdate_assign (written : Container.RegistryName) :
    (subidLookupOrAssign true written.text.str unsavedUpdate).1.table =
        [⟨BoundedStr.store 128 (by decide) written.text.str, 100000⟩] ∧
      (subidLookupOrAssign true written.text.str unsavedUpdate).1.directory =
        unsavedUpdate.directory := by
  have free : ldapUserUidnumberInRange (nextBase unsavedUpdate.table)
      (nextBase unsavedUpdate.table + rangeLen - 1) unsavedUpdate.directory =
        false := by
    decide +kernel
  have missing : find written.text.str unsavedUpdate.table = none := rfl
  have room : ¬ unsavedUpdate.table.length ≥ 512 := by decide +kernel
  simp only [subidLookupOrAssign, missing, if_neg room, freeBase_of_free free, if_true, and_true]
  rfl

theorem unsavedUpdate_restart : (ldapRecordInit unsavedUpdate.directory).users.entries =
      savedAlice.users.entries.map User.withoutFlags := by
  have timely : ∀ u ∈ savedAlice.users.entries, u.Timely := by
    apply (run_invariant Apart (fun _ _ apart kept => apart.step kept) apart_firstStart _).timely
    exact Guarded.cons trivial (Guarded.cons trivial (guarded_nil _ _))
  have groups : (loadGroupsState unsavedUpdate.directory.groupsFile).isSome =
      true := by
    have saved : unsavedUpdate.directory.groupsFile =
        some (groupsText savedAlice.groups.entries) := by
      decide +kernel
    rw [saved, loadGroupsState_groupsText]
    rfl
  have users : unsavedUpdate.directory.usersFile = some (usersText savedAlice.users.entries) := by
    decide +kernel
  obtain ⟨loaded, isLoaded⟩ := Option.isSome_iff_exists.mp groups
  have fits : (savedAlice.users.entries.map User.withoutFlags).length ≤
      256 := by
    rw [length_map]
    exact savedAlice.users.length_entries_le
  simp only [ldapRecordInit, isLoaded, users, loadUsersState_usersText timely]
  exact Slots.entries_ofEntries fits

/-- The restart brings back the old uid, which is in the new range. -/
theorem unsaved_update_collides : ¬ ∀ ops : List Op,
      ∀ u ∈ (run step firstStart ops).directory.users.entries,
        ∀ e ∈ (run step firstStart ops).table, Outside u.uidnumber.toInt e := by
  intro always
  have web := unsavedUpdate_assign ⟨⟨"web", by decide⟩, by decide⟩
  have isUid : (savedAlice.users.entries.map User.withoutFlags).map
      (fun u => u.uidnumber.toInt) = [100000] := by
    decide +kernel
  have collides := always (updatedUser false)
  change ∀ u ∈ (ldapRecordInit (subidLookupOrAssign true _
    unsavedUpdate).1.directory).users.entries,
    ∀ e ∈ (subidLookupOrAssign true _ unsavedUpdate).1.table, _ at collides
  rw [web.1, web.2, unsavedUpdate_restart] at collides
  obtain ⟨u, mem, uid⟩ := mem_map.mp (isUid ▸ mem_singleton_self (100000 : Int))
  have outside := collides u mem _ (mem_singleton_self _)
  rw [Outside, uid, rangeLen] at outside
  dsimp only at outside
  omega

end Cix.Subid
