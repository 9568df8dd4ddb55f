import Cix.Ldap.Operations
import Cix.Pkg.Entries

/-!
# Who may grant permissions

The group-to-permission mapping of `daemon/src/hostauth.c` over the LDAP
records, and the requests that change either of them, with the guards under
which `api_ldap.c` and `api_hostauth.c` let them through.  The vocabulary
`cix_permissions` is generated from the contract and is a parameter.
-/

namespace Cix.Auth

open Cix.Lib Cix.Ldap

structure PermGroup where
  name : BoundedStr 32
  has : Nat → Bool

def permGroupsMax : Nat := 32

def adminGroupsMax : Nat := 8

structure Store where
  directory : Directory
  permGroups : List PermGroup
  standardDone : Nat → Bool

def ldapUserIsInGroup (userName groupName : CStr) (d : Directory) : Bool :=
  match ldapUserFind userName d with
  | none => false
  | some (_, u) =>
    if u.disabled then false
    else
      match ldapGroupFind groupName d with
      | none => false
      | some (_, g) =>
        u.primarygroup = g.gidnumber || u.secondaryGroups.any fun gid => gid = g.gidnumber

/-- `ldap_user_for_each`, which stops at the first user that answers. -/
def ldapUserForEach (f : CStr → Bool) (d : Directory) : Bool :=
  d.users.entries.any fun u => f u.name.str

def userHoldsUnder (groups : List PermGroup) (userName : CStr) (idx : Nat) (d : Directory) : Bool :=
  groups.any fun g =>
    g.has idx && ldapUserIsInGroup userName g.name.str d

def anyUserHolds (groups : List PermGroup) (idx : Nat) (d : Directory) :
    Bool :=
  ldapUserForEach (fun name => userHoldsUnder groups name idx d) d

def permGroupFind (groups : List PermGroup) (name : CStr) : Option Nat :=
  groups.findIdx? fun g => g.name.str = name

def holdsElsewhere (skipUser skipGroup : Option CStr) (idx : Nat)
    (s : Store) (userName : CStr) : Bool :=
  if skipUser = some userName then false
  else s.permGroups.any fun g =>
    g.has idx && skipGroup ≠ some g.name.str && ldapUserIsInGroup userName g.name.str s.directory

def gidsHold (idx : Nat) (primarygroup : Int32)
    (secondaryGroups : List Int32) (disabled : Bool) (s : Store) : Bool :=
  if disabled then false
  else s.permGroups.any fun entry =>
    entry.has idx &&
      match ldapGroupFind entry.name.str s.directory with
      | none => false
      | some (_, g) =>
        primarygroup = g.gidnumber || secondaryGroups.any fun gid => gid = g.gidnumber

section Vocabulary

variable (vocabulary : List CStr)

def permIndex (word : CStr) : Option Nat :=
  vocabulary.findIdx? fun known => known = word

def permGroupHoldsAll (g : PermGroup) : Bool :=
  (List.range vocabulary.length).all g.has

def countGroupsHoldingAll (groups : List PermGroup) : Nat :=
  groups.countP (permGroupHoldsAll vocabulary)

def identityWrite : CStr := "identity:write"

def hostauthGatingActive (s : Store) : Bool :=
  match permIndex vocabulary identityWrite with
  | none => false
  | some idx => anyUserHolds s.permGroups idx s.directory

/-- `hostauth_user_change_keeps_grantor` for an update. -/
def hostauthUserChangeKeepsGrantor (userName : CStr) (primarygroup : Int32)
    (secondaryGroups : List Int32) (disabled deleting : Bool) (s : Store) :
    Bool :=
  match permIndex vocabulary identityWrite with
  | none => true
  | some idx =>
    if hostauthGatingActive vocabulary s = false then true
    else if ldapUserForEach (holdsElsewhere (some userName) none idx s) s.directory then true
    else !deleting && gidsHold idx primarygroup secondaryGroups disabled s

def hostauthGroupChangeKeepsGrantor (group : CStr) (s : Store) : Bool :=
  match permIndex vocabulary identityWrite with
  | none => true
  | some idx =>
    if hostauthGatingActive vocabulary s = false then true
    else ldapUserForEach (holdsElsewhere none (some group) idx s) s.directory

def swapRemove (at' : Nat) (groups : List PermGroup) : List PermGroup :=
  match groups.getLast? with
  | none => groups
  | some last => (groups.set at' last).dropLast

/-- The first loop of `hostauth_set_config` from position `i` on: full groups
that are no longer named lose their grants. -/
def dropUnnamed (named : List CStr) : (fuel : Nat) → (i : Nat) → List PermGroup → List PermGroup
  | 0, _, groups => groups
  | fuel + 1, i, groups =>
    match groups[i]? with
    | none => groups
    | some g =>
      if ¬ named.any (fun name => name = g.name.str) ∧ permGroupHoldsAll vocabulary g then
        dropUnnamed named fuel i (swapRemove i groups)
      else dropUnnamed named fuel (i + 1) groups

/-- The body of the second loop of `hostauth_set_config`. -/
def grantAll (groups : List PermGroup) (name : CStr) : Option (List PermGroup) :=
  match permGroupFind groups name with
  | some at' => some (groups.modify at' fun g => { g with has := fun _ => true })
  | none =>
    if groups.length ≥ permGroupsMax ∨ Pkg.simpleNameIsValid name 32 = false then none
    else some (groups ++ [⟨BoundedStr.store 32 pos_32 name, fun _ => true⟩])

/-- The errors of `hostauth_set_config` and
`hostauth_set_group_permissions`. -/
inductive GrantError where
  | invalidField
  | lockout
  | persistFailed
  | invalidGroup
  | unknownPermission (word : CStr)
  | full
  | tooManyAdminGroups
  deriving DecidableEq

def locksOut (proposed : List PermGroup) (s : Store) : Bool :=
  match permIndex vocabulary identityWrite with
  | none => false
  | some idx =>
    anyUserHolds s.permGroups idx s.directory && !anyUserHolds proposed idx s.directory

/-- `hostauth_set_config`, with whether its other fields pass their checks. -/
def hostauthSetConfig (adminGroups : List CStr)
    (fieldsValid written : Bool) (s : Store) : Store × Option GrantError :=
  if adminGroups.length > adminGroupsMax ∨ fieldsValid = false then
    (s, some .invalidField)
  else
    let kept := dropUnnamed vocabulary adminGroups (s.permGroups.length + 1)
      0 s.permGroups
    match adminGroups.foldlM grantAll kept with
    | none => (s, some .invalidField)
    | some proposed =>
      if locksOut vocabulary proposed s then (s, some .lockout)
      else if written = false then (s, some .persistFailed)
      else ({ s with permGroups := proposed }, none)

def wordIndices : List CStr → Except CStr (List Nat)
  | [] => .ok []
  | word :: rest =>
    match permIndex vocabulary word with
    | none => .error word
    | some idx =>
      match wordIndices rest with
      | .error unknown => .error unknown
      | .ok indices => .ok (idx :: indices)

/-- The mapping that a request for one group proposes; `none` is one without
room for the group. -/
def proposedFor (group : CStr) (indices : List Nat)
    (groups : List PermGroup) : Option (List PermGroup) :=
  let has := fun idx => decide (idx ∈ indices)
  match permGroupFind groups group with
  | some at' =>
    if indices = [] then some (swapRemove at' groups)
    else some (groups.modify at' fun g => { g with has := has })
  | none =>
    if indices = [] then some groups
    else if groups.length ≥ permGroupsMax then none
    else some (groups ++ [⟨BoundedStr.store 32 pos_32 group, has⟩])

def hostauthSetGroupPermissions (group : CStr) (words : List CStr)
    (written : Bool) (s : Store) : Store × Option GrantError :=
  if Pkg.simpleNameIsValid group 32 = false then (s, some .invalidGroup)
  else
    match wordIndices vocabulary words with
    | .error word => (s, some (.unknownPermission word))
    | .ok indices =>
      match proposedFor group indices s.permGroups with
      | none => (s, some .full)
      | some proposed =>
        if countGroupsHoldingAll vocabulary proposed > adminGroupsMax then
          (s, some .tooManyAdminGroups)
        else if locksOut vocabulary proposed s then (s, some .lockout)
        else if written = false then (s, some .persistFailed)
        else ({ s with permGroups := proposed }, none)

end Vocabulary

/-- `hostauth_forget_group`; when the mapping cannot be saved the entry goes
back to the end of it. -/
def hostauthForgetGroup (name : CStr) (written : Bool) (groups : List PermGroup) : List PermGroup :=
  match permGroupFind groups name with
  | none => groups
  | some at' =>
    if written then swapRemove at' groups
    else
      match groups[at']? with
      | none => groups
      | some entry => swapRemove at' groups ++ [entry]

def renameEntry (oldName newName : CStr) (groups : List PermGroup) :
    List PermGroup :=
  match permGroupFind groups oldName with
  | none => groups
  | some at' =>
    groups.modify at' fun g =>
      { g with name := BoundedStr.store 32 pos_32 newName }

/-- `g_perm_groups[at] = old_entry`. -/
def putEntry (at' : Nat) (old : Option PermGroup) (groups : List PermGroup) : List PermGroup :=
  match old with
  | none => groups
  | some entry => groups.set at' entry

theorem putEntry_renameEntry {oldName : CStr} {groups : List PermGroup} {at' : Nat}
    (found : permGroupFind groups oldName = some at') (newName : CStr) :
    putEntry at' groups[at']? (renameEntry oldName newName groups) = groups := by
  rw [renameEntry, found]
  apply List.ext_getElem?
  intro j
  cases position : groups[at']? with
  | none => simp [putEntry, List.modify_eq_self (List.getElem?_eq_none_iff.mp position)]
  | some entry =>
    obtain ⟨inside, rfl⟩ := List.getElem?_eq_some_iff.mp position
    by_cases here : at' = j
    · subst here
      simp [putEntry, inside]
    · simp [putEntry, here]

/-- `hostauth_rename_admin_group`, over the mapping: the old entry goes back when the
mapping cannot be saved. -/
def hostauthRenameAdminGroup (oldName newName : CStr) (written : Bool)
    (groups : List PermGroup) : List PermGroup × Bool :=
  match permGroupFind groups oldName with
  | none => (groups, true)
  | some at' =>
    let renamed := renameEntry oldName newName groups
    if written then (renamed, true) else (putEntry at' groups[at']? renamed, false)

/-- `ldap_group_update` with `hostauth_rename_admin_group` inside it, which a rename
reaches once the group is saved under its new name. -/
def updateGroup (written mappingWritten rewritten : Bool) (name : CStr)
    (newName : Option CStr) (gidnumber : Int32) (s : Store) : Store × Option RecordError :=
  let reached :=
    (ldapGroupUpdate written true rewritten name newName gidnumber s.directory).2 = none
  let mapping :=
    match renameTarget name newName with
    | none => (s.permGroups, true)
    | some target =>
      if reached then hostauthRenameAdminGroup name target mappingWritten s.permGroups
      else (s.permGroups, true)
  let outcome := ldapGroupUpdate written mapping.2 rewritten name newName gidnumber s.directory
  ({ s with directory := outcome.1, permGroups := mapping.1 }, outcome.2)

/-- What the mapping comes to after `ldap_group_update` with that result. -/
def mappingAfter (error : Option RecordError) (name : CStr)
    (newName : Option CStr) (groups : List PermGroup) : List PermGroup :=
  match error, renameTarget name newName with
  | none, some target => renameEntry name target groups
  | _, _ => groups

theorem hostauthRenameAdminGroup_eq (oldName newName : CStr) (written : Bool)
    (groups : List PermGroup) :
    hostauthRenameAdminGroup oldName newName written groups =
      if (permGroupFind groups oldName).isNone || written then
        (renameEntry oldName newName groups, true)
      else (groups, false) := by
  unfold hostauthRenameAdminGroup
  cases found : permGroupFind groups oldName with
  | none => simp [renameEntry, found]
  | some at' =>
    cases written with
    | true => simp
    | false => simp [putEntry_renameEntry found]

theorem updateGroup_eq (written mappingWritten rewritten : Bool) (name : CStr)
    (newName : Option CStr) (gidnumber : Int32) (s : Store) :
    updateGroup written mappingWritten rewritten name newName gidnumber s =
      let propagated := (permGroupFind s.permGroups name).isNone || mappingWritten
      let outcome := ldapGroupUpdate written propagated rewritten name newName
        gidnumber s.directory
      ({ s with
        directory := outcome.1
        permGroups := mappingAfter outcome.2 name newName s.permGroups }, outcome.2) := by
  have whole := ldapGroupUpdate_propagated written
    ((permGroupFind s.permGroups name).isNone || mappingWritten) rewritten name newName
    gidnumber s.directory
  unfold updateGroup mappingAfter
  dsimp only
  cases target : renameTarget name newName with
  | none => simp [whole.1 (Or.inl target)]
  | some newName' =>
    by_cases reached : (ldapGroupUpdate written true rewritten name newName gidnumber
        s.directory).2 = none
    · simp only [if_pos reached, hostauthRenameAdminGroup_eq]
      cases propagated : (permGroupFind s.permGroups name).isNone || mappingWritten with
      | true => simp [reached]
      | false =>
        rw [propagated] at whole
        obtain ⟨error, isError⟩ := Option.ne_none_iff_exists'.mp
          (whole.2 (by simp [target]) rfl)
        simp [isError]
    · obtain ⟨error, isError⟩ := Option.ne_none_iff_exists'.mp reached
      simp [whole.1 (Or.inr (Or.inr reached)), isError]

section Requests

variable (vocabulary : List CStr)

def handleLdapUserUpdate (written overlaps : Bool) (name : CStr)
    (newName : Option CStr) (f : UserFields) (canSearch : Bool)
    (s : Store) : Store :=
  if hostauthUserChangeKeepsGrantor vocabulary name f.primarygroup
      f.secondaryGroups f.disabled false s then
    { s with
      directory := (ldapUserUpdate written overlaps name newName f canSearch s.directory).1 }
  else s

def handleLdapUserDelete (written : Bool) (name : CStr) (s : Store) :
    Store :=
  if hostauthUserChangeKeepsGrantor vocabulary name 0 [] false true s then
    { s with directory := (ldapUserDelete written name s.directory).1 }
  else s

def movesGid (name : CStr) (gidnumber : Int32) (s : Store) : Bool :=
  match ldapGroupFind name s.directory with
  | none => false
  | some (_, g) => gidnumber ≠ 0 && gidnumber ≠ g.gidnumber

def handleLdapGroupUpdate (written mappingWritten rewritten : Bool)
    (name : CStr) (newName : Option CStr) (gidnumber : Int32) (s : Store) :
    Store :=
  if movesGid name gidnumber s ∧ hostauthGroupChangeKeepsGrantor vocabulary name s = false then s
  else
    (updateGroup written mappingWritten rewritten name newName gidnumber s).1

def handleLdapGroupDelete (written mappingWritten : Bool) (name : CStr) (s : Store) : Store :=
  if hostauthGroupChangeKeepsGrantor vocabulary name s then
    let outcome := ldapGroupDelete written name s.directory
    { s with
      directory := outcome.1
      permGroups :=
        if outcome.2 = none then
          hostauthForgetGroup name mappingWritten s.permGroups
        else s.permGroups }
  else s

def wordIsArea (word : CStr) (verb : String) : Bool :=
  match word.bytes.dropWhile (· ≠ 58) with
  | [] => false
  | _ :: rest => rest = (CStr.ofString verb).bytes

def grantsAdmin (_ : CStr) : Bool := true

def grantsOperator (word : CStr) : Bool :=
  word = "public" || wordIsArea word "read" || wordIsArea word "operate"

def grantsReader (word : CStr) : Bool := wordIsArea word "read"

def grantsAgent (word : CStr) : Bool :=
  word = "mcp:call" || wordIsArea word "read"

structure StandardGroup where
  name : String
  isAdmin : Bool
  grants : CStr → Bool

def standardGroups : List StandardGroup :=
  [⟨"cix-admins", true, grantsAdmin⟩, ⟨"cix-operators", false, grantsOperator⟩,
    ⟨"cix-readers", false, grantsReader⟩,
    ⟨"cix-agents", false, grantsAgent⟩]

/-- One turn of the loop of `hostauth_provision_standard_groups`. -/
def provisionOne (gid : Int32) (written : Bool) (position : Nat)
    (standard : StandardGroup) (s : Store) : Store :=
  let name := CStr.ofString standard.name
  let done := fun i => if i = position then true else s.standardDone i
  if s.standardDone position then s
  else if (ldapGroupFind name s.directory).isSome ∨ (permGroupFind s.permGroups name).isSome then
    { s with standardDone := done }
  else if s.permGroups.length ≥ permGroupsMax ∨ (standard.isAdmin ∧
      countGroupsHoldingAll vocabulary s.permGroups ≥ adminGroupsMax) then s
  else
    let outcome := ldapGroupCreate written (some name) gid s.directory
    if outcome.2 ≠ none then { s with directory := outcome.1 }
    else
      { directory := outcome.1
        permGroups := s.permGroups ++ [⟨BoundedStr.store 32 pos_32 name, fun idx =>
            match vocabulary[idx]? with
            | none => false
            | some word => standard.grants word⟩]
        standardDone := done }

def hostauthProvisionStandardGroups (gids : Nat → Int32)
    (written : Nat → Bool) (s : Store) : Store :=
  standardGroups.zipIdx.foldl (fun s (standard, position) =>
    provisionOne vocabulary (gids position) (written position) position standard s) s

inductive Request where
  | setConfig (adminGroups : List CStr) (fieldsValid written : Bool)
  | setGroupPermissions (group : CStr) (words : List CStr)
      (written : Bool)
  | userCreate (written overlaps : Bool) (name : Option CStr)
      (fields : UserFields) (owner : Option CStr) (canSearch : Bool)
  | userUpdate (written overlaps : Bool) (name : CStr)
      (newName : Option CStr) (fields : UserFields) (canSearch : Bool)
  | userDelete (written : Bool) (name : CStr)
  | groupCreate (written : Bool) (name : Option CStr) (gidnumber : Int32)
  | groupUpdate (written mappingWritten rewritten : Bool) (name : CStr)
      (newName : Option CStr) (gidnumber : Int32)
  | groupDelete (written mappingWritten : Bool) (name : CStr)
  | provision (gids : Nat → Int32) (written : Nat → Bool)

def step (s : Store) : Request → Store
  | .setConfig adminGroups fieldsValid written =>
    (hostauthSetConfig vocabulary adminGroups fieldsValid written s).1
  | .setGroupPermissions group words written =>
    (hostauthSetGroupPermissions vocabulary group words written s).1
  | .userCreate written overlaps name fields owner canSearch =>
    { s with
      directory := (ldapUserCreate written overlaps name fields owner canSearch s.directory).1 }
  | .userUpdate written overlaps name newName fields canSearch =>
    handleLdapUserUpdate vocabulary written overlaps name newName fields canSearch s
  | .userDelete written name => handleLdapUserDelete vocabulary written name s
  | .groupCreate written name gidnumber =>
    { s with
      directory := (ldapGroupCreate written name gidnumber s.directory).1 }
  | .groupUpdate written mappingWritten rewritten name newName gidnumber =>
    handleLdapGroupUpdate vocabulary written mappingWritten rewritten name newName gidnumber s
  | .groupDelete written mappingWritten name =>
    handleLdapGroupDelete vocabulary written mappingWritten name s
  | .provision gids written => hostauthProvisionStandardGroups vocabulary gids written s

end Requests

end Cix.Auth
