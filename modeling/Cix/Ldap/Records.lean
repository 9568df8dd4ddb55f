import Cix.Json.Writer
import Cix.Json.Parser
import Cix.Lib.Slots

/-!
# The LDAP user and group records

The record store of `daemon/src/ldap.c`: the two tables, the writers and
readers of their state files, and the operations that change them.  A record
carries what its fields always satisfy (a valid name, the sizes of its arrays),
so a table cannot hold a malformed one.

What the outside decides is an argument of an operation: whether a durable
write succeeds, the clock, the answer of `subid_overlaps_uidnumber` and that of
`hostauth_rename_admin_group`.  Pushing the records to the running servers
(`ldap_record_sync_all`) changes neither the tables nor the state files.
-/

namespace Cix.Ldap

open Cix.Lib Cix.Json

def isLower (c : UInt8) : Bool :=
  97 ≤ c && c ≤ 122

def isUpper (c : UInt8) : Bool :=
  65 ≤ c && c ≤ 90

/-- `ldap_username_is_valid` on a string; a null pointer is refused where it
is read. -/
def ldapUsernameIsValid (name : CStr) : Bool :=
  match name.bytes with
  | [] => false
  | first :: rest =>
    decide (name.length < 32) && (isLower first || first = 95) &&
      rest.all fun c => isLower c || isDigit c || c = 95 || c = 45

def ldapGroupnameIsValid (name : CStr) : Bool :=
  ldapUsernameIsValid name

def appNameIsValid (name : CStr) : Bool :=
  decide (name.length ≠ 0) && decide (name.length < 64) && name.bytes.all fun c =>
      isLower c || isUpper c || isDigit c || c = 46 || c = 95 || c = 45

structure AppPassword where
  name : BoundedStr 64
  passbcrypt : BoundedStr 61
  created : Int64
  nameValid : appNameIsValid name.str = true
  hashLength : passbcrypt.str.length = 60

structure User where
  name : BoundedStr 32
  nameValid : ldapUsernameIsValid name.str = true
  (uidnumber primarygroup : Int32)
  secondaryGroups : List Int32
  secondaryCount : secondaryGroups.length ≤ 16
  (givenname sn mail loginshell homedirectory : BoundedStr 128)
  passbcrypt : BoundedStr 61
  disabled : Bool
  ownerContainer : BoundedStr 64
  canSearch : Bool
  sshPublicKey : BoundedStr 1024
  appPasswords : List AppPassword
  appCount : appPasswords.length ≤ 8

structure Group where
  name : BoundedStr 32
  nameValid : ldapGroupnameIsValid name.str = true
  gidnumber : Int32

theorem length_lt_of_usernameValid {name : CStr}
    (valid : ldapUsernameIsValid name = true) : name.length < 32 := by
  unfold ldapUsernameIsValid at valid
  split at valid
  · exact absurd valid Bool.false_ne_true
  · simp only [Bool.and_eq_true, decide_eq_true_eq] at valid
    exact valid.1.1

theorem length_lt_of_appNameValid {name : CStr}
    (valid : appNameIsValid name = true) : name.length < 64 := by
  simp only [appNameIsValid, Bool.and_eq_true, decide_eq_true_eq] at valid
  exact valid.1.2

/-- A field of `n` bytes, cleared and then filled from a pointer that may be
null. -/
def field (n : Nat) (positive : 0 < n) (s : Option CStr) : BoundedStr n :=
  BoundedStr.store n positive (s.getD CStr.empty)

@[simp]
theorem field_str {n : Nat} (positive : 0 < n) (held : BoundedStr n) :
    field n positive (some held.str) = held :=
  BoundedStr.store_str positive held

def nameField (name : CStr) (valid : ldapUsernameIsValid name = true) :
    BoundedStr 32 :=
  ⟨name, length_lt_of_usernameValid valid⟩

/-- The two tables and the two state files; a file that was never written is
`none`. -/
structure Directory where
  users : Slots User 256
  groups : Slots Group 64
  (usersFile groupsFile : Option (List UInt8))

/-- `jw_key` with a literal. -/
def key (name : String) : Writer → Writer :=
  jwKey (CStr.ofString name)

/-- The body of the loop over `app_passwords` in `write_user_persist_one`. -/
def writeAppPassword (a : AppPassword) (w : Writer) : Writer :=
  let w := jwObjOpen w
  let w := jwStr a.name.str (key "name" w)
  let w := jwStr a.passbcrypt.str (key "passbcrypt" w)
  let w := jwInt a.created.toInt (key "created" w)
  jwObjClose w

/-- The value of `owner`. -/
def writeOwner (owner : BoundedStr 64) (w : Writer) : Writer :=
  if owner.str.length ≠ 0 then jwStr owner.str w else jwNull w

def writeUserPersistOne (u : User) (w : Writer) : Writer :=
  let w := jwObjOpen w
  let w := jwStr u.name.str (key "name" w)
  let w := jwInt u.uidnumber.toInt (key "uidnumber" w)
  let w := jwInt u.primarygroup.toInt (key "primarygroup" w)
  let w := jwArrOpen (key "secondary_groups" w)
  let w := u.secondaryGroups.foldl (fun w gid => jwInt gid.toInt w) w
  let w := jwArrClose w
  let w := jwStr u.givenname.str (key "givenname" w)
  let w := jwStr u.sn.str (key "sn" w)
  let w := jwStr u.mail.str (key "mail" w)
  let w := jwStr u.loginshell.str (key "loginshell" w)
  let w := jwStr u.homedirectory.str (key "homedirectory" w)
  let w := jwStr u.passbcrypt.str (key "passbcrypt" w)
  let w := jwBool u.disabled (key "disabled" w)
  let w := writeOwner u.ownerContainer (key "owner" w)
  let w := jwBool u.canSearch (key "can_search" w)
  let w := jwStr u.sshPublicKey.str (key "ssh_public_key" w)
  let w := jwArrOpen (key "app_passwords" w)
  let w := u.appPasswords.foldl (fun w a => writeAppPassword a w) w
  let w := jwArrClose w
  jwObjClose w

def usersText (users : List User) : List UInt8 :=
  (jwArrClose (users.foldl (fun w u => writeUserPersistOne u w) (jwArrOpen jwInit))).buf

def ldapGroupWriteJsonOne (g : Group) (w : Writer) : Writer :=
  let w := jwObjOpen w
  let w := jwStr g.name.str (key "name" w)
  let w := jwInt g.gidnumber.toInt (key "gidnumber" w)
  jwObjClose w

def groupsText (groups : List Group) : List UInt8 :=
  (jwArrClose (groups.foldl (fun w g => ldapGroupWriteJsonOne g w) (jwArrOpen jwInit))).buf

/-- `save_users_state`, with the answer of `persist_atomic_write`: a write
that fails leaves the old file in its place. -/
def saveUsersState (written : Bool) (d : Directory) : Directory :=
  if written then { d with usersFile := some (usersText d.users.entries) }
  else d

def saveGroupsState (written : Bool) (d : Directory) : Directory :=
  if written then { d with groupsFile := some (groupsText d.groups.entries) }
  else d

/-- `(int)json_as_number(json_object_get(item, name))`. -/
def readInt (item : Value) (name : String) : Int32 :=
  (asNumber (objectGet (some item) name)).toInt

def readString (item : Value) (name : String) : Option CStr :=
  asString (objectGet (some item) name)

/-- `json_as_number(json_object_get(item, name)) != 0`. -/
def readFlag (item : Value) (name : String) : Bool :=
  !(asNumber (objectGet (some item) name)).eqInt 0

theorem hash_short {hash : CStr} (sixty : hash.length = 60) : hash.length < 61 := by
  omega

def loadAppPassword (item : Value) : Option AppPassword :=
  match readString item "name", readString item "passbcrypt" with
  | some name, some hash =>
    if valid : appNameIsValid name = true ∧ hash.length = 60 then
      some {
        name := ⟨name, length_lt_of_appNameValid valid.1⟩
        passbcrypt := ⟨hash, hash_short valid.2⟩
        created := (asNumber (objectGet (some item) "created")).toInt64
        nameValid := valid.1
        hashLength := valid.2 }
    else none
  | _, _ => none

/-- The body of the loop of `load_users_state`; an entry whose name is not
valid is skipped. -/
def loadUser (item : Value) : Option User :=
  match readString item "name" with
  | none => none
  | some name =>
    if valid : ldapUsernameIsValid name = true then
      some {
        name := nameField name valid
        nameValid := valid
        uidnumber := readInt item "uidnumber"
        primarygroup := readInt item "primarygroup"
        secondaryGroups :=
          (((asArray (objectGet (some item) "secondary_groups")).getD []).take 16).map fun gid =>
              (asNumber (some gid)).toInt
        secondaryCount := by simp
        givenname := field 128 pos_128 (readString item "givenname")
        sn := field 128 pos_128 (readString item "sn")
        mail := field 128 pos_128 (readString item "mail")
        loginshell := field 128 pos_128 (readString item "loginshell")
        homedirectory :=
          field 128 pos_128 (readString item "homedirectory")
        passbcrypt := field 61 pos_61 (readString item "passbcrypt")
        disabled := readFlag item "disabled"
        ownerContainer := field 64 pos_64 (readString item "owner")
        canSearch := readFlag item "can_search"
        sshPublicKey :=
          field 1024 pos_1024 (readString item "ssh_public_key")
        appPasswords :=
          (((asArray (objectGet (some item) "app_passwords")).getD
            []).filterMap loadAppPassword).take 8
        appCount := by simp }
    else none

/-- The body of the loop of `load_groups_state`. -/
def loadGroup (item : Value) : Option Group :=
  match readString item "name" with
  | none => none
  | some name =>
    if valid : ldapGroupnameIsValid name = true then
      some ⟨nameField name valid, valid, readInt item "gidnumber"⟩
    else none

/-- The loop of `load_users_state` and `load_groups_state`. `none` stands for a file
that is not an array. -/
def loadTable {α : Type} (n : Nat) (load : Value → Option α)
    (file : Option (List UInt8)) : Option (Slots α n) :=
  match file with
  | none => some (Slots.empty n)
  | some text =>
    match asArray (jsonParse text) with
    | none => none
    | some items => some (Slots.ofEntries n (items.filterMap load))

def loadUsersState (file : Option (List UInt8)) : Option (Slots User 256) :=
  loadTable 256 loadUser file

def loadGroupsState (file : Option (List UInt8)) : Option (Slots Group 64) :=
  loadTable 64 loadGroup file

def ldapRecordInit (d : Directory) : Directory :=
  let d := { d with users := Slots.empty 256, groups := Slots.empty 64 }
  match loadGroupsState d.groupsFile with
  | none => d
  | some groups =>
    match loadUsersState d.usersFile with
    | none => { d with groups := groups }
    | some users => { d with groups := groups, users := users }

/-- `enum ldap_record_error`, as far as the operations below return it. -/
inductive RecordError where
  | invalidName
  | invalidField
  | duplicate
  | full
  | notFound
  | groupNotFound
  | persistFailed
  deriving DecidableEq, Repr

def ldapUserFind (name : CStr) (d : Directory) : Option (Nat × User) :=
  d.users.find fun u => u.name.str = name

def ldapGroupFind (name : CStr) (d : Directory) : Option (Nat × Group) :=
  d.groups.find fun g => g.name.str = name

def ldapGroupFindByGid (gid : Int32) (d : Directory) : Option (Nat × Group) :=
  d.groups.find fun g => g.gidnumber = gid

/-- The fields that `fill_user_fields` replaces. -/
structure UserFields where
  (uidnumber primarygroup : Int32)
  secondaryGroups : List Int32
  (givenname sn mail loginshell homedirectory passbcrypt : Option CStr)
  disabled : Bool
  sshPublicKey : Option CStr

/-- `validate_user_fields`, with the answer of `subid_overlaps_uidnumber`. -/
def validateUserFields (overlaps : Bool) (uidnumber primarygroup : Int32)
    (secondaryGroups : List Int32) (d : Directory) : Option RecordError :=
  if uidnumber ≤ 0 then some .invalidField
  else if overlaps then some .invalidField
  else if (ldapGroupFindByGid primarygroup d).isNone then
    some .groupNotFound
  else if secondaryGroups.length > 16 then some .invalidField
  else if secondaryGroups.any fun gid =>
      (ldapGroupFindByGid gid d).isNone then
    some .groupNotFound
  else none

/-- `fill_user_fields`.  An absent or empty hash keeps the stored one. -/
def fillUserFields (f : UserFields) (count : f.secondaryGroups.length ≤ 16) (u : User) : User :=
  { u with
    uidnumber := f.uidnumber
    primarygroup := f.primarygroup
    secondaryGroups := f.secondaryGroups
    secondaryCount := count
    givenname := field 128 pos_128 f.givenname
    sn := field 128 pos_128 f.sn
    mail := field 128 pos_128 f.mail
    loginshell := field 128 pos_128 f.loginshell
    homedirectory := field 128 pos_128 f.homedirectory
    passbcrypt :=
      match f.passbcrypt with
      | none => u.passbcrypt
      | some hash =>
        if hash.length = 0 then u.passbcrypt
        else BoundedStr.store 61 pos_61 hash
    disabled := f.disabled
    sshPublicKey := field 1024 pos_1024 f.sshPublicKey }

def blankUser (name : CStr) (valid : ldapUsernameIsValid name = true) : User where
  name := nameField name valid
  nameValid := valid
  uidnumber := 0
  primarygroup := 0
  secondaryGroups := []
  secondaryCount := by simp
  givenname := field 128 pos_128 none
  sn := field 128 pos_128 none
  mail := field 128 pos_128 none
  loginshell := field 128 pos_128 none
  homedirectory := field 128 pos_128 none
  passbcrypt := field 61 pos_61 none
  disabled := false
  ownerContainer := field 64 pos_64 none
  canSearch := false
  sshPublicKey := field 1024 pos_1024 none
  appPasswords := []
  appCount := by simp

theorem validateUserFields_count {overlaps : Bool}
    {uidnumber primarygroup : Int32} {secondaryGroups : List Int32}
    {d : Directory}
    (valid : validateUserFields overlaps uidnumber primarygroup secondaryGroups d = none) :
    secondaryGroups.length ≤ 16 := by
  unfold validateUserFields at valid
  split_ifs at valid
  omega

end Cix.Ldap
