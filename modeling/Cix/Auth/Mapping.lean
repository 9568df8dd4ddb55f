import Mathlib.Data.List.Nodup
import Mathlib.Data.List.Perm.Subperm
import Cix.Auth.Grantors

/-!
# The mapping and the list derived from it

The four calls of `daemon/src/hostauth.c` that change the permission mapping:
`hostauth_set_config`, `hostauth_set_group_permissions`,
`hostauth_forget_group` and `hostauth_rename_admin_group`.  Each derives the
list of admin groups anew and takes both back when it cannot save.
-/

namespace Cix.Auth

open Cix.Lib Cix.Ldap List

/-! ## The state -/

def ldapMaxServers : Nat := 3

/-- `struct hostauth_config`; the list of admin groups has its size. -/
structure HostauthConfig where
  adminGroups : { list : List (BoundedStr 32) // list.length ≤ adminGroupsMax }
  idleTimeoutSeconds : Int32
  ldapEnabled : Bool
  ldapServers : List (BoundedStr 64)
  ldapPort : Int32
  ldapTls : Bool
  ldapBaseDn : BoundedStr 256

/-- `g_perm_groups` and `g_config`. -/
structure Hostauth where
  permGroups : List PermGroup
  config : HostauthConfig

/-- The fields of a `hostauth_set_config` besides the admin groups. -/
structure ConfigFields where
  idleTimeoutSeconds : Int32
  ldapEnabled : Bool
  ldapServers : List CStr
  ldapPort : Int32
  ldapTls : Bool
  ldapBaseDn : Option CStr

inductive ConfigError where
  | invalidField
  | persistFailed
  | noCa
  | lockout
  deriving DecidableEq

section Vocabulary

variable (vocabulary : List CStr)

def fullNames (groups : List PermGroup) : List (BoundedStr 32) :=
  (groups.filter (permGroupHoldsAll vocabulary)).map PermGroup.name

def deriveAdminGroups (h : Hostauth) : Hostauth :=
  { h with
    config := { h.config with
      adminGroups := ⟨(fullNames vocabulary h.permGroups).take adminGroupsMax, by simp⟩ } }

def Hostauth.withGroups (h : Hostauth) (groups : List PermGroup) : Hostauth :=
  deriveAdminGroups vocabulary { h with permGroups := groups }

/-- The rest of the configuration, as `hostauth_set_config` stores it. -/
def ConfigFields.store (f : ConfigFields) (config : HostauthConfig) :
    HostauthConfig :=
  { config with
    idleTimeoutSeconds := f.idleTimeoutSeconds
    ldapEnabled := f.ldapEnabled
    ldapServers := f.ldapServers.map (BoundedStr.store 64 pos_64)
    ldapPort := f.ldapPort
    ldapTls := f.ldapTls
    ldapBaseDn := BoundedStr.store 256 pos_256 (f.ldapBaseDn.getD CStr.empty) }

/-- The checks of `hostauth_set_config` on the rest of the configuration. -/
def ConfigFields.check (f : ConfigFields) (bootstrapped : Bool) :
    Option ConfigError :=
  if f.idleTimeoutSeconds < 0 then some .invalidField
  else if f.ldapServers.length > ldapMaxServers then some .invalidField
  else if f.ldapPort < 1 ∨ f.ldapPort > 65535 then some .invalidField
  else if f.ldapEnabled ∧ (f.ldapServers = [] ∨
      (f.ldapBaseDn.getD CStr.empty).bytes = []) then some .invalidField
  else if f.ldapEnabled ∧ f.ldapTls ∧ !bootstrapped then some .noCa
  else none

/-! ## The calls -/

/-- The second loop of `hostauth_set_config`, with whether it comes to its end. -/
def grantNamed : List CStr → List PermGroup → List PermGroup × Bool
  | [], groups => (groups, true)
  | name :: rest, groups =>
    match grantAll groups name with
    | none => (groups, false)
    | some granted => grantNamed rest granted

/-- `hostauth_set_config`, over the users and groups of the directory.  It edits the
mapping and the configuration in place, and puts back what it has edited by then. -/
def setConfig (d : Directory) (bootstrapped : Bool) (adminGroups : List CStr)
    (f : ConfigFields) (written : Bool) (h : Hostauth) :
    Hostauth × Option ConfigError :=
  if adminGroups.length > adminGroupsMax then (h, some .invalidField)
  else
    match f.check bootstrapped with
    | some error => (h, some error)
    | none =>
      let dropped := { h with
        permGroups := dropUnnamed vocabulary adminGroups (h.permGroups.length + 1) 0 h.permGroups }
      let granted := grantNamed adminGroups dropped.permGroups
      let edited := { dropped with permGroups := granted.1 }
      if granted.2 = false then ({ edited with permGroups := h.permGroups }, some .invalidField)
      else if locksOut vocabulary edited.permGroups ⟨d, h.permGroups, fun _ => false⟩ then
        ({ edited with permGroups := h.permGroups }, some .lockout)
      else
        let derived := deriveAdminGroups vocabulary edited
        let stored := { derived with config := f.store derived.config }
        if written then (stored, none)
        else
          ({ stored with config := h.config, permGroups := h.permGroups }, some .persistFailed)

def setGroupPermissions (d : Directory) (group : CStr) (words : List CStr)
    (written : Bool) (h : Hostauth) : Hostauth × Option GrantError :=
  if Pkg.simpleNameIsValid group 32 = false then (h, some .invalidGroup)
  else
    match wordIndices vocabulary words with
    | .error word => (h, some (.unknownPermission word))
    | .ok indices =>
      match proposedFor group indices h.permGroups with
      | none => (h, some .full)
      | some proposed =>
        if countGroupsHoldingAll vocabulary proposed > adminGroupsMax then
          (h, some .tooManyAdminGroups)
        else if locksOut vocabulary proposed
            ⟨d, h.permGroups, fun _ => false⟩ then (h, some .lockout)
        else
          let changed := h.withGroups vocabulary proposed
          if written then (changed, none)
          else
            ({ changed with permGroups := h.permGroups, config := h.config }, some .persistFailed)

/-- `hostauth_forget_group`. What it could not save goes back to the end of the mapping. -/
def forgetGroup (name : CStr) (written : Bool) (h : Hostauth) : Hostauth × Bool :=
  match permGroupFind h.permGroups name with
  | none => (h, true)
  | some at' =>
    let removed := h.withGroups vocabulary (swapRemove at' h.permGroups)
    if written then (removed, true)
    else
      ({ removed with
          permGroups := removed.permGroups ++ (h.permGroups[at']?).toList
          config := h.config }, false)

/-- `hostauth_rename_admin_group`. -/
def renameAdminGroup (oldName newName : CStr) (written : Bool) (h : Hostauth) : Hostauth × Bool :=
  match permGroupFind h.permGroups oldName with
  | none => (h, true)
  | some at' =>
    let renamed := h.withGroups vocabulary (renameEntry oldName newName h.permGroups)
    if written then (renamed, true)
    else
      ({ renamed with
          permGroups := putEntry at' h.permGroups[at']? renamed.permGroups
          config := h.config }, false)

/-! ## What is to hold -/

/-- The names are distinct, and the list of admin groups is that of the groups
which hold every permission. -/
structure Good (h : Hostauth) : Prop where
  distinct : (h.permGroups.map PermGroup.name).Nodup
  derived : h.config.adminGroups.val = fullNames vocabulary h.permGroups

inductive MappingCall where
  | setConfig (d : Directory) (bootstrapped : Bool) (adminGroups : List CStr)
      (fields : ConfigFields) (written : Bool)
  | setGroupPermissions (d : Directory) (group : CStr) (words : List CStr)
      (written : Bool)
  | forgetGroup (name : CStr) (written : Bool)
  | renameAdminGroup (oldName newName : CStr) (written : Bool)

def answerMapping (h : Hostauth) : MappingCall → Hostauth × Bool
  | .setConfig d bootstrapped adminGroups fields written =>
    let outcome := setConfig vocabulary d bootstrapped adminGroups fields
      written h
    (outcome.1, outcome.2.isSome)
  | .setGroupPermissions d group words written =>
    let outcome := setGroupPermissions vocabulary d group words written h
    (outcome.1, outcome.2.isSome)
  | .forgetGroup name written =>
    let outcome := forgetGroup vocabulary name written h
    (outcome.1, !outcome.2)
  | .renameAdminGroup oldName newName written =>
    let outcome := renameAdminGroup vocabulary oldName newName written h
    (outcome.1, !outcome.2)

end Vocabulary

/-! ## Removal -/

variable {groups : List PermGroup} {at' : Nat} {gone : PermGroup}

theorem perm_swapRemove (position : groups[at']? = some gone) :
    groups.Perm (gone :: swapRemove at' groups) := by
  obtain ⟨inside, isGone⟩ := List.getElem?_eq_some_iff.mp position
  have split : groups = groups.take at' ++ gone :: groups.drop (at' + 1) := by
    rw [← isGone, getElem_cons_drop, take_append_drop]
  have length : (groups.take at').length = at' := by
    rw [length_take]
    omega
  generalize groups.take at' = front at split length
  generalize groups.drop (at' + 1) = back at split
  subst split
  subst length
  rcases eq_nil_or_concat back with rfl | ⟨middle, last, rfl⟩
  · have removed : swapRemove front.length (front ++ [gone]) = front := by simp [swapRemove]
    rw [removed]
    exact perm_append_singleton gone front
  · rw [concat_eq_append]
    have removed : swapRemove front.length
        (front ++ gone :: (middle ++ [last])) = front ++ last :: middle := by
      have end_eq : (front ++ gone :: (middle ++ [last])).getLast? =
          some last := by simp [getLast?_append, getLast?_cons]
      rw [swapRemove, end_eq]
      dsimp only
      rw [set_append_right _ _ le_rfl, Nat.sub_self, set_cons_zero,
        ← cons_append, ← append_assoc, dropLast_concat]
    rw [removed]
    refine perm_middle.trans (List.Perm.cons gone ?_)
    refine List.Perm.append_left front ?_
    exact perm_append_singleton last middle

theorem getElem?_swapRemove_of_lt {j : Nat} (below : j < at') (inside : at' < groups.length) :
    (swapRemove at' groups)[j]? = groups[j]? := by
  have last : groups.getLast? = groups[groups.length - 1]? := getLast?_eq_getElem?
  rw [getElem?_eq_getElem (by omega)] at last
  rw [swapRemove, last]
  dsimp only
  rw [getElem?_dropLast, length_set, if_pos (by omega), getElem?_set_ne (by omega)]

def Distinct (groups : List PermGroup) : Prop :=
  (groups.map PermGroup.name).Nodup

theorem swapRemove_append_eq_iff (position : groups[at']? = some gone)
    (distinct : Distinct groups) :
    swapRemove at' groups ++ [gone] = groups ↔ at' + 1 = groups.length := by
  obtain ⟨inside, isGone⟩ := List.getElem?_eq_some_iff.mp position
  constructor
  · intro same
    have isLast : groups[groups.length - 1]? = some gone := by
      rw [← getLast?_eq_getElem?, ← same, getLast?_append]
      rfl
    have names : (groups.map PermGroup.name)[at']? =
        (groups.map PermGroup.name)[groups.length - 1]? := by
      rw [getElem?_map, getElem?_map, position, isLast]
    by_contra notLast
    have apart := nodup_iff_getElem?_ne_getElem?.mp distinct at'
      (groups.length - 1) (by omega) (by rw [length_map]; omega)
    exact apart names
  · intro isEnd
    have nonempty : groups ≠ [] := ne_nil_of_length_pos (by omega)
    have last : groups.getLast? = some gone := by
      rw [getLast?_eq_getElem?, ← isEnd, Nat.add_sub_cancel, position]
    have unchanged : groups.set at' gone = groups := by rw [← isGone, set_getElem_self]
    rw [swapRemove, last]
    dsimp only
    rw [unchanged]
    exact dropLast_append_getLast? gone last

/-! ## Names -/

theorem distinct_swapRemove (position : groups[at']? = some gone)
    (distinct : Distinct groups) : Distinct (swapRemove at' groups) := by
  have moved := ((perm_swapRemove position).map PermGroup.name).nodup_iff
  exact (nodup_cons.mp (moved.mp distinct)).2

theorem map_name_modify (groups : List PermGroup) (at' : Nat) (has : Nat → Bool) :
    (groups.modify at' fun g => { g with has := has }).map PermGroup.name =
      groups.map PermGroup.name := by
  apply ext_getElem?
  intro j
  rw [getElem?_map, getElem?_map, getElem?_modify]
  cases groups[j]? with
  | none => rfl
  | some g =>
    by_cases here : at' = j
    · simp [here]
    · simp [here]

theorem distinct_modify (at' : Nat) (has : Nat → Bool) (distinct : Distinct groups) :
    Distinct (groups.modify at' fun g => { g with has := has }) := by
  unfold Distinct
  rw [map_name_modify]
  exact distinct

theorem length_lt_of_simpleNameIsValid {name : CStr} {maxLen : Nat}
    (valid : Pkg.simpleNameIsValid name maxLen = true) :
    name.length < maxLen := by
  simp only [Pkg.simpleNameIsValid, Bool.and_eq_true, decide_eq_true_eq] at valid
  exact valid.2

theorem distinct_append {name : CStr} (has : Nat → Bool)
    (valid : Pkg.simpleNameIsValid name 32 = true)
    (missing : permGroupFind groups name = none) (distinct : Distinct groups) :
    Distinct (groups ++ [⟨BoundedStr.store 32 (by decide) name, has⟩]) := by
  unfold Distinct
  rw [map_append, nodup_append]
  refine ⟨distinct, nodup_singleton _, ?_⟩
  intro old mem new isNew same
  obtain ⟨g, isEntry, rfl⟩ := mem_map.mp mem
  obtain rfl : new = BoundedStr.store 32 (by decide) name := by simpa using isNew
  have other := findIdx?_eq_none_iff.mp missing g isEntry
  have fits : name.truncate 32 = name :=
    CStr.truncate_of_fits (length_lt_of_simpleNameIsValid valid)
  rw [same] at other
  simp [BoundedStr.store, fits] at other

/-! ## The full groups -/

variable {h : Hostauth}

section Vocabulary

variable {vocabulary : List CStr}

def FullNamed (vocabulary named : List CStr) (groups : List PermGroup) :
    Prop :=
  ∀ g ∈ groups, permGroupHoldsAll vocabulary g = true → g.name.str ∈ named

theorem length_fullNames (groups : List PermGroup) : (fullNames vocabulary groups).length =
      countGroupsHoldingAll vocabulary groups := by
  rw [fullNames, length_map, ← countP_eq_length_filter]
  rfl

theorem length_fullNames_le {named : List CStr} (distinct : Distinct groups)
    (fullNamed : FullNamed vocabulary named groups) :
    (fullNames vocabulary groups).length ≤ named.length := by
  have names : (fullNames vocabulary groups).Nodup :=
    distinct.sublist (filter_sublist.map PermGroup.name)
  have texts : ((fullNames vocabulary groups).map BoundedStr.str).Nodup :=
    names.map_on fun _ _ _ _ same => BoundedStr.ext same
  have among : (fullNames vocabulary groups).map BoundedStr.str ⊆ named := by
    intro text mem
    obtain ⟨name, isFull, rfl⟩ := mem_map.mp mem
    obtain ⟨g, isEntry, rfl⟩ := mem_map.mp isFull
    rw [mem_filter] at isEntry
    exact fullNamed g isEntry.1 isEntry.2
  have bound := (texts.subperm among).length_le
  rw [length_map] at bound
  exact bound

theorem countGroupsHoldingAll_swapRemove (vocabulary : List CStr)
    (position : groups[at']? = some gone) :
    countGroupsHoldingAll vocabulary (swapRemove at' groups) ≤
      countGroupsHoldingAll vocabulary groups := by
  unfold countGroupsHoldingAll
  rw [(perm_swapRemove position).countP_eq, countP_cons]
  omega

theorem dropUnnamed_spec {named : List CStr} {fuel i : Nat}
    {groups : List PermGroup} (enough : groups.length < i + fuel)
    (distinct : Distinct groups)
    (seen : ∀ j < i, ∀ g, groups[j]? = some g →
      permGroupHoldsAll vocabulary g = true → g.name.str ∈ named) :
    Distinct (dropUnnamed vocabulary named fuel i groups) ∧ FullNamed vocabulary named
        (dropUnnamed vocabulary named fuel i groups) := by
  induction fuel generalizing i groups with
  | zero =>
    refine ⟨distinct, ?_⟩
    dsimp only [dropUnnamed]
    intro g mem full
    obtain ⟨j, position⟩ := mem_iff_getElem?.mp mem
    obtain ⟨inside, _⟩ := List.getElem?_eq_some_iff.mp position
    exact seen j (by omega) g position full
  | succ fuel ih =>
    unfold dropUnnamed
    split
    next past =>
      refine ⟨distinct, ?_⟩
      intro g mem full
      obtain ⟨j, position⟩ := mem_iff_getElem?.mp mem
      obtain ⟨inside, _⟩ := List.getElem?_eq_some_iff.mp position
      have outside := List.getElem?_eq_none_iff.mp past
      exact seen j (by omega) g position full
    next g position =>
      obtain ⟨inside, _⟩ := List.getElem?_eq_some_iff.mp position
      split
      next =>
        have shorter := (perm_swapRemove position).length_eq
        rw [length_cons] at shorter
        apply ih (by omega) (distinct_swapRemove position distinct)
        intro j below kept atJ
        rw [getElem?_swapRemove_of_lt below inside] at atJ
        exact seen j below kept atJ
      next stays =>
        apply ih (by omega) distinct
        intro j below kept atJ full
        rcases Nat.lt_succ_iff_lt_or_eq.mp below with before | rfl
        · exact seen j before kept atJ full
        · rw [position] at atJ
          obtain rfl := Option.some.inj atJ
          by_contra unnamed
          apply stays
          refine ⟨?_, full⟩
          rw [any_eq_true]
          rintro ⟨name, isNamed, same⟩
          rw [of_decide_eq_true same] at isNamed
          exact unnamed isNamed

theorem dropUnnamed_whole (vocabulary named : List CStr) (distinct : Distinct groups) :
    Distinct (dropUnnamed vocabulary named (groups.length + 1) 0 groups) ∧
      FullNamed vocabulary named (dropUnnamed vocabulary named (groups.length + 1) 0 groups) :=
  dropUnnamed_spec (by omega) distinct fun j below => absurd below (Nat.not_lt_zero j)

theorem grantAll_spec {named : List CStr} {name : CStr}
    {granted : List PermGroup} (isNamed : name ∈ named)
    (grants : grantAll groups name = some granted) (distinct : Distinct groups)
    (fullNamed : FullNamed vocabulary named groups) :
    Distinct granted ∧ FullNamed vocabulary named granted := by
  unfold grantAll at grants
  split at grants
  next at' found =>
    obtain rfl := Option.some.inj grants
    refine ⟨distinct_modify at' _ distinct, ?_⟩
    intro g mem full
    obtain ⟨j, position⟩ := mem_iff_getElem?.mp mem
    rw [getElem?_modify] at position
    obtain ⟨entry, atFound, rfl⟩ := name_of_permGroupFind found
    obtain ⟨kept, atJ, isG⟩ := Option.map_eq_some_iff.mp position
    by_cases here : at' = j
    · subst here
      rw [atFound] at atJ
      obtain rfl := Option.some.inj atJ
      rw [if_pos rfl] at isG
      rw [← isG]
      exact isNamed
    · rw [if_neg here] at isG
      subst isG
      exact fullNamed kept (mem_of_getElem? atJ) full
  next missing =>
    split at grants
    · cases grants
    next room =>
      obtain rfl := Option.some.inj grants
      have valid : Pkg.simpleNameIsValid name 32 = true := by
        rw [← Bool.not_eq_false]
        exact fun bad => room (Or.inr bad)
      refine ⟨distinct_append _ valid missing distinct, ?_⟩
      intro g mem full
      rcases mem_append.mp mem with old | new
      · exact fullNamed g old full
      · obtain rfl := mem_singleton.mp new
        have fits : name.truncate 32 = name :=
          CStr.truncate_of_fits (length_lt_of_simpleNameIsValid valid)
        dsimp only [BoundedStr.store]
        rw [fits]
        exact isNamed

theorem grantNamed_spec {named rest : List CStr} {groups : List PermGroup}
    (among : rest ⊆ named) (distinct : Distinct groups)
    (fullNamed : FullNamed vocabulary named groups) :
    Distinct (grantNamed rest groups).1 ∧
      FullNamed vocabulary named (grantNamed rest groups).1 := by
  induction rest generalizing groups with
  | nil => exact ⟨distinct, fullNamed⟩
  | cons name rest ih =>
    rw [cons_subset] at among
    unfold grantNamed
    split
    next => exact ⟨distinct, fullNamed⟩
    next granted grants =>
      have step := grantAll_spec among.1 grants distinct fullNamed
      exact ih among.2 step.1 step.2

/-! ## What is derived -/

theorem good_withGroups (distinct : Distinct groups)
    (few : (fullNames vocabulary groups).length ≤ adminGroupsMax) :
    Good vocabulary (h.withGroups vocabulary groups) where
  distinct := distinct
  derived := take_of_length_le few

theorem Good.few (good : Good vocabulary h) :
    (fullNames vocabulary h.permGroups).length ≤ adminGroupsMax := by
  rw [← good.derived]
  exact h.config.adminGroups.property

theorem good_setConfig (good : Good vocabulary h) (d : Directory)
    (bootstrapped : Bool) (adminGroups : List CStr) (f : ConfigFields)
    (written : Bool) :
    let outcome := setConfig vocabulary d bootstrapped adminGroups f written h
    Good vocabulary outcome.1 ∧ (outcome.2.isSome = true → outcome.1 = h) := by
  dsimp only
  unfold setConfig
  split
  next => exact ⟨good, fun _ => rfl⟩
  next few =>
    split
    next => exact ⟨good, fun _ => rfl⟩
    next =>
      dsimp only
      split
      next => exact ⟨good, fun _ => rfl⟩
      next =>
        split
        next => exact ⟨good, fun _ => rfl⟩
        next =>
          split
          next =>
            refine ⟨?_, fun failed => by cases failed⟩
            have dropped := dropUnnamed_whole vocabulary adminGroups good.distinct
            have built := grantNamed_spec (List.Subset.refl _) dropped.1 dropped.2
            have bound := length_fullNames_le built.1 built.2
            have inForce := good_withGroups (h := h) built.1 (bound.trans (Nat.le_of_not_lt few))
            exact ⟨inForce.distinct, inForce.derived⟩
          next => exact ⟨good, fun _ => rfl⟩

theorem distinct_proposedFor {group : CStr} {indices : List Nat}
    {proposed : List PermGroup} (valid : Pkg.simpleNameIsValid group 32 = true)
    (proposes : proposedFor group indices groups = some proposed)
    (distinct : Distinct groups) : Distinct proposed := by
  unfold proposedFor at proposes
  dsimp only at proposes
  split at proposes
  next at' found =>
    obtain ⟨gone, position, _⟩ := name_of_permGroupFind found
    split at proposes
    next =>
      obtain rfl := Option.some.inj proposes
      exact distinct_swapRemove position distinct
    next =>
      obtain rfl := Option.some.inj proposes
      exact distinct_modify at' _ distinct
  next missing =>
    split at proposes
    next =>
      obtain rfl := Option.some.inj proposes
      exact distinct
    next =>
      split at proposes
      · cases proposes
      next =>
        obtain rfl := Option.some.inj proposes
        exact distinct_append _ valid missing distinct

theorem good_setGroupPermissions (good : Good vocabulary h) (d : Directory)
    (group : CStr) (words : List CStr) (written : Bool) :
    let outcome := setGroupPermissions vocabulary d group words written h
    Good vocabulary outcome.1 ∧ (outcome.2.isSome = true → outcome.1 = h) := by
  dsimp only
  unfold setGroupPermissions
  split
  next => exact ⟨good, fun _ => rfl⟩
  next valid =>
    split
    next => exact ⟨good, fun _ => rfl⟩
    next =>
      split
      next => exact ⟨good, fun _ => rfl⟩
      next proposed proposes =>
        split
        next => exact ⟨good, fun _ => rfl⟩
        next few =>
          split
          next => exact ⟨good, fun _ => rfl⟩
          next =>
            split
            next =>
              refine ⟨?_, fun failed => by cases failed⟩
              apply good_withGroups
              · exact distinct_proposedFor (by simpa using valid) proposes good.distinct
              · rw [length_fullNames]
                omega
            next => exact ⟨good, fun _ => rfl⟩

/-! ## Forgetting -/

def GoesBackElsewhere (name : CStr) (written : Bool) (h : Hostauth) : Prop :=
  written = false ∧ ∃ at', permGroupFind h.permGroups name = some at' ∧
    at' + 1 ≠ h.permGroups.length

theorem forgetGroup_spec (good : Good vocabulary h) (name : CStr)
    (written : Bool) : let outcome := forgetGroup vocabulary name written h
    (Good vocabulary outcome.1 ∧ (outcome.2 = false → outcome.1 = h)) ↔
      ¬ GoesBackElsewhere name written h := by
  dsimp only
  unfold forgetGroup GoesBackElsewhere
  split
  next missing => simp [missing, good]
  next at' found =>
    obtain ⟨gone, position, _⟩ := name_of_permGroupFind found
    cases written with
    | true =>
      have few : (fullNames vocabulary (swapRemove at' h.permGroups)).length ≤ adminGroupsMax := by
        have before := good.few
        have fewer := countGroupsHoldingAll_swapRemove vocabulary position
        rw [length_fullNames] at before ⊢
        omega
      have inForce := good_withGroups (h := h) (distinct_swapRemove position good.distinct) few
      simp [inForce]
    | false =>
      have back := swapRemove_append_eq_iff position good.distinct
      have state : ({ h with permGroups := swapRemove at' h.permGroups ++
          [gone] } : Hostauth) = h ↔ at' + 1 = h.permGroups.length := by
        rw [← back]
        constructor
        · intro same
          exact congrArg Hostauth.permGroups same
        · intro same
          rw [same]
      simp only [Bool.false_eq_true, ↓reduceIte, position, Hostauth.withGroups,
        deriveAdminGroups, Option.toList_some, true_and, found, Option.some.injEq,
        exists_eq_left', forall_const, not_not]
      rw [state]
      constructor
      · exact fun sound => sound.2
      · intro isEnd
        rw [state.mpr isEnd]
        exact ⟨good, isEnd⟩

/-! ## Renaming -/

def MeetsName (oldName newName : CStr) (written : Bool) (h : Hostauth) :
    Prop :=
  written = true ∧ ∃ at' j other, permGroupFind h.permGroups oldName = some at' ∧ j ≠ at' ∧
      h.permGroups[j]? = some other ∧
      other.name = BoundedStr.store 32 pos_32 newName

theorem nodup_set_iff {α : Type*} {list : List α} {new : α} (nodup : list.Nodup)
    (inside : at' < list.length) :
    (list.set at' new).Nodup ↔ ∀ j, j ≠ at' → list[j]? ≠ some new := by
  constructor
  · intro still j other same
    obtain ⟨boundJ, _⟩ := List.getElem?_eq_some_iff.mp same
    have equal : (list.set at' new)[j]? = (list.set at' new)[at']? := by
      rw [getElem?_set_ne other.symm, getElem?_set_self inside, same]
    have injective := nodup_iff_injective_get.mp still
    have index := @injective ⟨j, by rw [length_set]; exact boundJ⟩
      ⟨at', by rw [length_set]; exact inside⟩ (by
        apply Option.some.inj
        rw [get_eq_getElem, get_eq_getElem, ← getElem?_eq_getElem, ← getElem?_eq_getElem]
        exact equal)
    exact other (Fin.mk.inj index)
  · intro fresh
    rw [nodup_iff_getElem?_ne_getElem?]
    intro i j before bound
    rw [length_set] at bound
    by_cases first : i = at'
    · rw [first, getElem?_set_self inside, getElem?_set_ne (by omega)]
      exact (fresh j (by omega)).symm
    · by_cases second : j = at'
      · rw [second, getElem?_set_self inside, getElem?_set_ne (by omega)]
        exact fresh i first
      · rw [getElem?_set_ne (by omega), getElem?_set_ne (by omega)]
        exact nodup_iff_getElem?_ne_getElem?.mp nodup i j before bound

theorem map_name_renameEntry {oldName newName : CStr}
    (found : permGroupFind groups oldName = some at') :
    (renameEntry oldName newName groups).map PermGroup.name =
      (groups.map PermGroup.name).set at' (BoundedStr.store 32 (by decide) newName) := by
  rw [renameEntry, found]
  dsimp only
  apply ext_getElem?
  intro j
  rw [getElem?_map, getElem?_modify, getElem?_set, length_map, getElem?_map]
  by_cases here : at' = j
  · subst here
    obtain ⟨entry, position, _⟩ := name_of_permGroupFind found
    obtain ⟨inside, _⟩ := List.getElem?_eq_some_iff.mp position
    simp [inside]
  · simp [here]

theorem countGroupsHoldingAll_renameEntry (oldName newName : CStr) (groups : List PermGroup) :
    countGroupsHoldingAll vocabulary (renameEntry oldName newName groups) =
      countGroupsHoldingAll vocabulary groups := by
  unfold renameEntry
  split
  next => rfl
  next at' _ =>
    have grants : (groups.modify at' fun g =>
        { g with name := BoundedStr.store 32 (by decide) newName }).map
          (permGroupHoldsAll vocabulary) =
        groups.map (permGroupHoldsAll vocabulary) := by
      apply ext_getElem?
      intro j
      rw [getElem?_map, getElem?_map, getElem?_modify]
      cases groups[j]? with
      | none => rfl
      | some g =>
        by_cases here : at' = j
        · simp [here, permGroupHoldsAll]
        · simp [here]
    have counted := congrArg (List.countP id) grants
    rw [countP_map, countP_map] at counted
    exact counted

theorem renameAdminGroup_spec (good : Good vocabulary h) (oldName newName : CStr) (written : Bool) :
    let outcome := renameAdminGroup vocabulary oldName newName written h
    (Good vocabulary outcome.1 ∧ (outcome.2 = false → outcome.1 = h)) ↔
      ¬ MeetsName oldName newName written h := by
  dsimp only
  unfold renameAdminGroup MeetsName
  split
  next missing => simp [missing, good]
  next at' found =>
    cases written with
    | false =>
      have back := putEntry_renameEntry found newName
      simp [Hostauth.withGroups, deriveAdminGroups, back, good]
    | true =>
      obtain ⟨entry, position, _⟩ := name_of_permGroupFind found
      obtain ⟨inside, _⟩ := List.getElem?_eq_some_iff.mp position
      have names : Distinct (renameEntry oldName newName h.permGroups) ↔
          ∀ j, j ≠ at' → (h.permGroups.map PermGroup.name)[j]? ≠
            some (BoundedStr.store 32 (by decide) newName) := by
        rw [Distinct, map_name_renameEntry found]
        exact nodup_set_iff good.distinct (by rwa [length_map])
      constructor
      · rintro ⟨sound, _⟩ ⟨_, here, j, other, isHere, apart, atJ, same⟩
        rw [found] at isHere
        obtain rfl := Option.some.inj isHere
        apply names.mp sound.distinct j apart
        rw [getElem?_map, atJ, Option.map_some, same]
      · intro fresh
        refine ⟨good_withGroups (names.mpr ?_) ?_, ?_⟩
        · intro j apart same
          rw [getElem?_map] at same
          obtain ⟨other, atJ, isNew⟩ := Option.map_eq_some_iff.mp same
          exact fresh ⟨rfl, at', j, other, found, apart, atJ, isNew⟩
        · rw [length_fullNames, countGroupsHoldingAll_renameEntry, ← length_fullNames]
          exact good.few
        · intro failed
          simp at failed

end Vocabulary

/-! ## The calls -/

def Spoils (h : Hostauth) : MappingCall → Prop
  | .setConfig .. => False
  | .setGroupPermissions .. => False
  | .forgetGroup name written => GoesBackElsewhere name written h
  | .renameAdminGroup oldName newName written => MeetsName oldName newName written h

/-- A call keeps the names distinct and the list derived, and changes nothing
when it reports failure, unless it spoils the mapping. -/
theorem answerMapping_good_iff (vocabulary : List CStr) (h : Hostauth)
    (call : MappingCall) (good : Good vocabulary h) :
    (Good vocabulary (answerMapping vocabulary h call).1 ∧
      ((answerMapping vocabulary h call).2 = true → (answerMapping vocabulary h call).1 = h)) ↔
      ¬ Spoils h call := by
  cases call with
  | setConfig d bootstrapped adminGroups fields written =>
    exact iff_of_true (good_setConfig good d bootstrapped adminGroups fields written) not_false
  | setGroupPermissions d group words written =>
    exact iff_of_true (good_setGroupPermissions good d group words written) not_false
  | forgetGroup name written =>
    have spec := forgetGroup_spec good name written
    dsimp only [answerMapping]
    rw [Bool.not_eq_true']
    exact spec
  | renameAdminGroup oldName newName written =>
    have spec := renameAdminGroup_spec good oldName newName written
    dsimp only [answerMapping]
    rw [Bool.not_eq_true']
    exact spec

theorem good_throughout (vocabulary : List CStr) {calls : List MappingCall}
    (good : Good vocabulary h)
    (careful : Guarded (fun h call => (answerMapping vocabulary h call).1)
      (fun h call => ¬ Spoils h call) h calls) :
    Throughout (fun h call => (answerMapping vocabulary h call).1) (Good vocabulary) h calls := by
  refine Guarded.throughout (Good vocabulary) ?_ good careful
  intro h call good careful
  cases call with
  | setConfig d bootstrapped adminGroups fields written =>
    exact (good_setConfig good d bootstrapped adminGroups fields written).1
  | setGroupPermissions d group words written =>
    exact (good_setGroupPermissions good d group words written).1
  | forgetGroup name written => exact ((forgetGroup_spec good name written).mpr careful).1
  | renameAdminGroup oldName newName written =>
    exact ((renameAdminGroup_spec good oldName newName written).mpr careful).1

def twoGroups : Hostauth where
  permGroups :=
    [⟨BoundedStr.store 32 pos_32 "admins", fun _ => true⟩,
      ⟨BoundedStr.store 32 pos_32 "staff", fun _ => false⟩]
  config :=
    { adminGroups :=
        ⟨[BoundedStr.store 32 pos_32 "admins"], by decide⟩
      idleTimeoutSeconds := 0
      ldapEnabled := false
      ldapServers := []
      ldapPort := 389
      ldapTls := false
      ldapBaseDn := BoundedStr.store 256 pos_256 CStr.empty }

theorem twoGroups_good : Good [identityWrite] twoGroups where
  distinct := by decide
  derived := by decide

theorem twoGroups_throughout : Throughout (fun h call => (answerMapping [identityWrite] h call).1)
    (Good [identityWrite]) twoGroups [.forgetGroup "admins" true, .forgetGroup "staff" true] :=
  good_throughout [identityWrite] twoGroups_good
    (Guarded.cons (fun spoils => absurd spoils.1 (by decide))
      (Guarded.cons (fun spoils => absurd spoils.1 (by decide)) (guarded_nil _ _)))

theorem twoGroups_forget_good :
    Good [identityWrite] (answerMapping [identityWrite] twoGroups (.forgetGroup "admins" true)).1 ∧
      (answerMapping [identityWrite] twoGroups
        (.renameAdminGroup "admins" "wheel" false)).1 = twoGroups :=
  ⟨((answerMapping_good_iff [identityWrite] twoGroups
      (.forgetGroup "admins" true) twoGroups_good).mpr fun spoils => absurd spoils.1 (by decide)).1,
    ((answerMapping_good_iff [identityWrite] twoGroups (.renameAdminGroup "admins" "wheel" false)
      twoGroups_good).mpr fun spoils => absurd spoils.1 (by decide)).2 (by decide +kernel)⟩

/-- A renaming to a taken name leaves two entries of it, and a removal that
could not be saved turns the mapping around. -/
theorem renamed_twice_and_turned_around : Good [identityWrite] twoGroups ∧
    ¬ Good [identityWrite] (answerMapping [identityWrite] twoGroups
      (.renameAdminGroup "admins" "staff" true)).1 ∧
    (answerMapping [identityWrite] twoGroups (.forgetGroup "admins" false)).2 = true ∧
    (answerMapping [identityWrite] twoGroups (.forgetGroup "admins" false)).1 ≠ twoGroups := by
  refine ⟨twoGroups_good, ?_, by decide, ?_⟩
  · intro good
    exact absurd good.distinct (by decide)
  · intro same
    have names := congrArg (fun h : Hostauth =>
      h.permGroups.map PermGroup.name) same
    exact absurd names (by decide)

end Cix.Auth
