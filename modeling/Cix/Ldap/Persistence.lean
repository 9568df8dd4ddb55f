import Cix.Json.Roundtrip
import Cix.Ldap.Operations
import Cix.Lib.Machine

/-!
# What a restart keeps of the LDAP records

The state file of the users, read back, gives every user with every field as
it was, except for the two flags: `write_user_persist_one` writes `disabled`
and `can_search` with `jw_bool`, and `load_users_state` reads them with
`json_as_number`, which is zero for a boolean.
-/

namespace Cix.Ldap

open Cix.Lib Cix.Json
open List hiding asString

def appPasswordMembers (a : AppPassword) : List (CStr × Doc) :=
  [("name", .str a.name.str), ("passbcrypt", .str a.passbcrypt.str),
    ("created", intDoc a.created.toInt)]

def appPasswordDoc (a : AppPassword) : Doc :=
  .obj (appPasswordMembers a)

def ownerDoc (owner : BoundedStr 64) : Doc :=
  if owner.str.length ≠ 0 then .str owner.str else .null

def userMembers (u : User) : List (CStr × Doc) :=
  [("name", .str u.name.str), ("uidnumber", intDoc u.uidnumber.toInt),
    ("primarygroup", intDoc u.primarygroup.toInt),
    ("secondary_groups", .arr (u.secondaryGroups.map fun gid => intDoc gid.toInt)),
    ("givenname", .str u.givenname.str),
    ("sn", .str u.sn.str),
    ("mail", .str u.mail.str),
    ("loginshell", .str u.loginshell.str),
    ("homedirectory", .str u.homedirectory.str),
    ("passbcrypt", .str u.passbcrypt.str),
    ("disabled", .bool u.disabled),
    ("owner", ownerDoc u.ownerContainer),
    ("can_search", .bool u.canSearch),
    ("ssh_public_key", .str u.sshPublicKey.str),
    ("app_passwords", .arr (u.appPasswords.map appPasswordDoc))]

def userDoc (u : User) : Doc :=
  .obj (userMembers u)

def groupMembers (g : Group) : List (CStr × Doc) :=
  [("name", .str g.name.str), ("gidnumber", intDoc g.gidnumber.toInt)]

def groupDoc (g : Group) : Doc :=
  .obj (groupMembers g)

def User.Timely (u : User) : Prop :=
  ∀ a ∈ u.appPasswords, a.Timely

theorem emits_writeAppPassword {a : AppPassword} (timely : a.Timely) :
    Emits (writeAppPassword a) (appPasswordDoc a) := by
  have name := (emits_str a.name.str).member "name"
  have hash := (emits_str a.passbcrypt.str).member "passbcrypt"
  have created := (emits_int timely).member "created"
  exact FillsObj.emits ((name.comp hash).comp created)

theorem emits_writeOwner (owner : BoundedStr 64) : Emits (writeOwner owner) (ownerDoc owner) := by
  by_cases owned : owner.str.length ≠ 0
  · intro w
    rw [writeOwner, ownerDoc, if_pos owned, if_pos owned]
    exact emits_str owner.str w
  · intro w
    rw [writeOwner, ownerDoc, if_neg owned, if_neg owned]
    exact emits_null w

theorem emits_writeUserPersistOne {u : User} (timely : u.Timely) :
    Emits (writeUserPersistOne u) (userDoc u) := by
  have str := fun (name : String) (s : CStr) =>
    (emits_str s).member (CStr.ofString name)
  have int := fun (name : String) (v : Int32) =>
    (emits_int32 v).member (CStr.ofString name)
  have flag := fun (name : String) (b : Bool) =>
    (emits_bool b).member (CStr.ofString name)
  have groups := (emits_arr fun gid (_ : gid ∈ u.secondaryGroups) =>
    emits_int32 gid).member "secondary_groups"
  have owner := (emits_writeOwner u.ownerContainer).member "owner"
  have apps := (emits_arr fun a (mem : a ∈ u.appPasswords) =>
    emits_writeAppPassword (timely a mem)).member "app_passwords"
  have identity := (((str "name" u.name.str).comp (int "uidnumber" u.uidnumber)).comp
      (int "primarygroup" u.primarygroup)).comp groups
  have person := (((identity.comp (str "givenname" u.givenname.str)).comp
    (str "sn" u.sn.str)).comp (str "mail" u.mail.str)).comp (str "loginshell" u.loginshell.str)
  have account := (((person.comp (str "homedirectory" u.homedirectory.str)).comp
      (str "passbcrypt" u.passbcrypt.str)).comp (flag "disabled" u.disabled)).comp owner
  have all := ((account.comp (flag "can_search" u.canSearch)).comp
    (str "ssh_public_key" u.sshPublicKey.str)).comp apps
  exact FillsObj.emits all

theorem emits_ldapGroupWriteJsonOne (g : Group) : Emits (ldapGroupWriteJsonOne g) (groupDoc g) := by
  have name := (emits_str g.name.str).member "name"
  have gid := (emits_int32 g.gidnumber).member "gidnumber"
  exact FillsObj.emits (name.comp gid)

section Read

variable {members : List (CStr × Doc)} {name : String}
  (distinct : (members.map Prod.fst).Nodup)

include distinct

theorem readString_str {s : CStr} (mem : (CStr.ofString name, Doc.str s) ∈ members) :
    readString (Doc.obj members).value name = some s := by
  rw [readString, objectGet_member distinct mem, Doc.value, asString]

theorem readInt_int {v : Int32} (mem : (CStr.ofString name, intDoc v.toInt) ∈ members) :
    readInt (Doc.obj members).value name = v := by
  rw [readInt, objectGet_member distinct mem, toInt_intDoc]

theorem readFlag_bool {b : Bool} (mem : (CStr.ofString name, Doc.bool b) ∈ members) :
    readFlag (Doc.obj members).value name = false := by
  have nothing : asNumber (some (Doc.bool b).value) = Double.zero := by
    simp [Doc.value, asNumber]
  rw [readFlag, objectGet_member distinct mem, nothing, Double.zero_eqInt_zero, Bool.not_true]

end Read

theorem appPasswordMembers_distinct (a : AppPassword) :
    ((appPasswordMembers a).map Prod.fst).Nodup := by
  simp only [appPasswordMembers, map_cons, map_nil]
  decide

theorem userMembers_distinct (u : User) : ((userMembers u).map Prod.fst).Nodup := by
  simp only [userMembers, map_cons, map_nil]
  decide +kernel

theorem groupMembers_distinct (g : Group) : ((groupMembers g).map Prod.fst).Nodup := by
  simp only [groupMembers, map_cons, map_nil]
  decide

theorem loadAppPassword_doc {a : AppPassword} (timely : a.Timely) :
    loadAppPassword (appPasswordDoc a).value = some a := by
  have distinct := appPasswordMembers_distinct a
  have name : readString (appPasswordDoc a).value "name" = some a.name.str :=
    readString_str distinct (by simp [appPasswordMembers])
  have hash : readString (appPasswordDoc a).value "passbcrypt" = some a.passbcrypt.str :=
    readString_str distinct (by simp [appPasswordMembers])
  have created : objectGet (some (appPasswordDoc a).value) "created" =
      some (intDoc a.created.toInt).value :=
    objectGet_member distinct (by simp [appPasswordMembers])
  rw [loadAppPassword, name, hash]
  simp only [a.nameValid, a.hashLength, and_self, dif_pos, created,
    toInt64_intDoc timely]

theorem readString_owner {members : List (CStr × Doc)}
    (distinct : (members.map Prod.fst).Nodup) (owner : BoundedStr 64)
    (mem : (CStr.ofString "owner", ownerDoc owner) ∈ members) :
    field 64 (by decide) (readString (Doc.obj members).value "owner") = owner := by
  by_cases owned : owner.str.length ≠ 0
  · rw [ownerDoc, if_pos owned] at mem
    rw [readString_str distinct mem, field_str]
  · rw [ownerDoc, if_neg owned] at mem
    have nothing : owner.str = CStr.empty := by
      apply CStr.ext
      exact eq_nil_of_length_eq_zero (not_not.mp owned)
    have absent : readString (Doc.obj members).value "owner" = none := by
      rw [readString, objectGet_member distinct mem]
      simp [Doc.value, asString]
    rw [absent]
    apply BoundedStr.ext
    rw [nothing]
    rfl

def User.withoutFlags (u : User) : User :=
  { u with disabled := false, canSearch := false }

theorem loadUser_doc {u : User} (timely : u.Timely) :
    loadUser (userDoc u).value = some u.withoutFlags := by
  have distinct := userMembers_distinct u
  have str : ∀ {name : String} {s : CStr}, (CStr.ofString name, Doc.str s) ∈ userMembers u →
        readString (userDoc u).value name = some s :=
    fun mem => readString_str distinct mem
  have name : readString (userDoc u).value "name" = some u.name.str :=
    str (by simp [userMembers])
  have givenname : readString (userDoc u).value "givenname" =
      some u.givenname.str := str (by simp [userMembers])
  have sn : readString (userDoc u).value "sn" = some u.sn.str := str (by simp [userMembers])
  have mail : readString (userDoc u).value "mail" = some u.mail.str :=
    str (by simp [userMembers])
  have loginshell : readString (userDoc u).value "loginshell" =
      some u.loginshell.str := str (by simp [userMembers])
  have homedirectory : readString (userDoc u).value "homedirectory" =
      some u.homedirectory.str := str (by simp [userMembers])
  have passbcrypt : readString (userDoc u).value "passbcrypt" =
      some u.passbcrypt.str := str (by simp [userMembers])
  have sshPublicKey : readString (userDoc u).value "ssh_public_key" =
      some u.sshPublicKey.str := str (by simp [userMembers])
  have uidnumber : readInt (userDoc u).value "uidnumber" = u.uidnumber :=
    readInt_int distinct (by simp [userMembers])
  have primarygroup : readInt (userDoc u).value "primarygroup" =
      u.primarygroup := readInt_int distinct (by simp [userMembers])
  have disabled : readFlag (userDoc u).value "disabled" = false :=
    readFlag_bool (b := u.disabled) distinct (by simp [userMembers])
  have canSearch : readFlag (userDoc u).value "can_search" = false :=
    readFlag_bool (b := u.canSearch) distinct (by simp [userMembers])
  have owner := readString_owner distinct u.ownerContainer (by simp [userMembers])
  have groups : objectGet (some (userDoc u).value) "secondary_groups" =
      some (Doc.arr (u.secondaryGroups.map fun gid =>
        intDoc gid.toInt)).value :=
    objectGet_member distinct (by simp [userMembers])
  have apps : objectGet (some (userDoc u).value) "app_passwords" =
      some (Doc.arr (u.appPasswords.map appPasswordDoc)).value :=
    objectGet_member distinct (by simp [userMembers])
  have appsRead : ((u.appPasswords.map appPasswordDoc).map
      Doc.value).filterMap loadAppPassword = u.appPasswords := by
    have read := filterMap_written id fun a mem =>
      loadAppPassword_doc (timely a mem)
    rw [map_id] at read
    exact read
  have groupsRead : (((u.secondaryGroups.map fun gid =>
      intDoc gid.toInt).map Doc.value).take 16).map (fun gid =>
        (asNumber (some gid)).toInt) =
          u.secondaryGroups := by
    rw [take_of_length_le (by simpa using u.secondaryCount), map_map, map_map]
    apply map_id''
    intro gid
    exact toInt_intDoc gid
  change field 64 _ (readString (userDoc u).value "owner") = _ at owner
  rw [loadUser, name]
  simp only [u.nameValid, dif_pos, Option.some.injEq, givenname, sn, mail,
    loginshell, homedirectory, passbcrypt, sshPublicKey, uidnumber,
    primarygroup, disabled, canSearch, owner, groups, apps, asArray_arr,
    field_str, Option.getD_some, appsRead, groupsRead,
    take_of_length_le u.appCount]
  rfl

theorem usersText_eq {users : List User} (timely : ∀ u ∈ users, u.Timely) :
    usersText users = (Doc.arr (users.map userDoc)).text := by
  have emits := emits_arr fun u (mem : u ∈ users) =>
    emits_writeUserPersistOne (timely u mem)
  exact emits.buf_jwInit

theorem groupsText_eq (groups : List Group) :
    groupsText groups = (Doc.arr (groups.map groupDoc)).text := by
  have emits := emits_arr fun g (_ : g ∈ groups) =>
    emits_ldapGroupWriteJsonOne g
  exact emits.buf_jwInit

theorem loadGroup_doc (g : Group) : loadGroup (groupDoc g).value = some g := by
  have distinct := groupMembers_distinct g
  have name : readString (groupDoc g).value "name" = some g.name.str :=
    readString_str distinct (by simp [groupMembers])
  have gid : readInt (groupDoc g).value "gidnumber" = g.gidnumber :=
    readInt_int distinct (by simp [groupMembers])
  rw [loadGroup, name]
  simp only [g.nameValid, dif_pos, gid]
  rfl

theorem loadUsersState_usersText {users : List User} (timely : ∀ u ∈ users, u.Timely) :
    loadUsersState (some (usersText users)) =
      some (Slots.ofEntries 256 (users.map User.withoutFlags)) := by
  have read := filterMap_written User.withoutFlags fun u mem =>
    loadUser_doc (timely u mem)
  simp only [loadUsersState, loadTable]
  rw [usersText_eq timely, jsonParse_text, asArray_arr]
  simp only [read]

theorem loadGroupsState_groupsText (groups : List Group) :
    loadGroupsState (some (groupsText groups)) = some (Slots.ofEntries 64 groups) := by
  have read := filterMap_written id fun g (_ : g ∈ groups) =>
    loadGroup_doc g
  rw [map_id] at read
  simp only [loadGroupsState, loadTable]
  rw [groupsText_eq, jsonParse_text, asArray_arr]
  simp only [read]

/-- What holds of the store after every call: the time stamps are such that a
double holds them, in the table and in the state file. -/
structure Sound (d : Directory) : Prop where
  users : ∀ u ∈ d.users.entries, u.Timely
  file : ∀ text, d.usersFile = some text →
    ∃ users : List User, text = usersText users ∧ ∀ u ∈ users, u.Timely

theorem sound_firstStart : Sound firstStart where
  users := by
    intro u mem
    rw [firstStart, Slots.entries_empty] at mem
    cases mem
  file := by
    intro text written
    cases written

theorem Sound.move {d d' : Directory} (sound : Sound d) (move : Move d d') :
    Sound d' := by
  cases move with
  | user slot cell apps =>
    refine ⟨?_, sound.file⟩
    intro u mem a appMember
    rcases Slots.mem_entries_put mem with old | new
    · exact sound.users u old a appMember
    · rcases apps u new a appMember with timely | ⟨v, inUse, had⟩
      · exact timely
      · exact sound.users v inUse a had
  | group slot cell => exact ⟨sound.users, sound.file⟩
  | saveUsers =>
    refine ⟨sound.users, ?_⟩
    intro text written
    cases written
    exact ⟨d.users.entries, rfl, sound.users⟩
  | saveGroups => exact ⟨sound.users, sound.file⟩

theorem Sound.moves {d d' : Directory} (sound : Sound d) (moves : Moves d d') : Sound d' := by
  induction moves with
  | refl => exact sound
  | tail _ move ih => exact ih.move move

theorem Sound.ldapRecordInit {d : Directory} (sound : Sound d) : Sound (ldapRecordInit d) := by
  have cleared : ∀ groups, Sound
      { d with users := Slots.empty 256, groups := groups } := by
    intro groups
    refine ⟨?_, sound.file⟩
    intro u mem
    rw [Slots.entries_empty] at mem
    cases mem
  simp only [Ldap.ldapRecordInit]
  split
  · exact cleared _
  · next groups _ =>
      split
      · exact cleared groups
      · next users loaded =>
          refine ⟨?_, sound.file⟩
          intro u mem
          cases written : d.usersFile with
          | none =>
            rw [written] at loaded
            cases loaded
            rw [Slots.entries_empty] at mem
            cases mem
          | some text =>
            obtain ⟨saved, rfl, timely⟩ := sound.file text written
            rw [written, loadUsersState_usersText timely] at loaded
            cases loaded
            have inFile := Slots.mem_of_mem_ofEntries mem
            obtain ⟨v, inSaved, rfl⟩ := mem_map.mp inFile
            exact timely v inSaved

theorem Sound.step {d : Directory} (sound : Sound d) (op : Op) : Sound (step d op) := by
  by_cases restart : op = .restart
  · subst restart
    exact sound.ldapRecordInit
  · exact sound.moves (moves_step restart)

theorem sound_run (ops : List Op) : Sound (run step firstStart ops) :=
  run_invariant_of_step Sound (fun _ op sound => sound.step op) sound_firstStart ops

def Persists (d : Directory) : Prop :=
  ∃ loaded, loadUsersState (some (usersText d.users.entries)) = some loaded ∧
    loaded.entries = d.users.entries

theorem User.withoutFlags_eq_self {u : User} :
    u.withoutFlags = u ↔ u.disabled = false ∧ u.canSearch = false := by
  constructor
  · intro equality
    exact ⟨congrArg User.disabled equality.symm, congrArg User.canSearch equality.symm⟩
  · rintro ⟨disabled, canSearch⟩
    cases u
    simp only [User.withoutFlags] at disabled canSearch ⊢
    rw [disabled, canSearch]

theorem Sound.persists_iff {d : Directory} (sound : Sound d) :
    Persists d ↔ ∀ u ∈ d.users.entries, u.disabled = false ∧ u.canSearch = false := by
  have fits : (d.users.entries.map User.withoutFlags).length ≤ 256 := by
    rw [length_map]
    exact d.users.length_entries_le
  have loaded := loadUsersState_usersText sound.users
  have same : Persists d ↔ d.users.entries.map User.withoutFlags = d.users.entries := by
    simp only [Persists, loaded, Option.some.injEq, exists_eq_left', Slots.entries_ofEntries fits]
  have pointwise : d.users.entries.map User.withoutFlags = d.users.entries ↔
      ∀ u ∈ d.users.entries, u.withoutFlags = u := by
    have compared := map_inj_left (f := User.withoutFlags) (g := id) (l := d.users.entries)
    rw [map_id] at compared
    exact compared
  rw [same, pointwise]
  exact forall₂_congr fun u _ => User.withoutFlags_eq_self

def plainFields (uidnumber : Int32) (disabled : Bool) : UserFields where
  uidnumber := uidnumber
  primarygroup := 10000
  secondaryGroups := []
  givenname := none
  sn := none
  mail := none
  loginshell := none
  homedirectory := none
  passbcrypt := none
  disabled := disabled
  sshPublicKey := none

def disabledUser : List Op :=
  [.groupCreate true (some "staff") 10000,
    .userCreate true false (some "alice") (plainFields 10001 true) none false]

/-- The users survive a restart exactly when none of them is disabled and none
may search, after whatever calls and restarts. -/
theorem users_persist_iff (ops : List Op) : Persists (run step firstStart ops) ↔
      ∀ u ∈ (run step firstStart ops).users.entries, u.disabled = false ∧ u.canSearch = false :=
  (sound_run ops).persists_iff

theorem disabled_user_enabled_by_restart : ¬ Persists (run step firstStart disabledUser) := by
  rw [(sound_run disabledUser).persists_iff]
  intro clear
  have present : (run step firstStart disabledUser).users.entries.any
      (fun u => u.disabled) = true := by
    decide +kernel
  obtain ⟨u, mem, disabled⟩ := any_eq_true.mp present
  rw [(clear u mem).1] at disabled
  exact Bool.false_ne_true disabled

end Cix.Ldap
