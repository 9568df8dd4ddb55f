import Cix.Json.Rewrite
import Cix.Lib.Machine
import Cix.Lib.Substring

/-!
# Container definitions

The records of `daemon/src/containerdef.c`, the state file they are saved to
and loaded from, the two migrations of `containerdef_init`, and
`containerdef_patch_image_version`, which works on the text of a body.

The table is the list of the definitions in use.  Every call that changes it
ends with `save_state`; whether that write succeeds is an argument.
-/

namespace Cix.Container

open Cix.Lib Cix.Json

/-- A container name, `char[REGISTRY_NAME_MAX]`, and not empty. -/
structure RegistryName where
  text : BoundedStr 64
  nonempty : text.str ≠ CStr.empty
  deriving DecidableEq

inductive RestartPolicy where
  | no
  | always
  | onFailure
  | unlessStopped
  deriving DecidableEq, Repr

def RestartPolicy.text : RestartPolicy → CStr
  | .no => "no"
  | .always => "always"
  | .onFailure => "on-failure"
  | .unlessStopped => "unless-stopped"

def RestartPolicy.ofText (text : CStr) : Option RestartPolicy :=
  [RestartPolicy.no, .always, .onFailure, .unlessStopped].find? fun policy => policy.text = text

/-- `struct container_def`. The fields from `consecutiveFailures` on are not saved. -/
structure ContainerDef where
  name : RegistryName
  body : List UInt8
  dependsOn : List (BoundedStr 64)
  dependsCount : dependsOn.length ≤ 16
  restartPolicy : RestartPolicy
  restartDelaySeconds : Int32
  (stopped followRolling : Bool)
  followRollingJitter : Option Int32
  awaitingImage : BoundedStr 64
  (rollFrom rollTo : BoundedStr 72)
  rollDeadline : Int64
  (consecutiveFailures rollFailures : Nat)
  rollSkipped : BoundedStr 72
  restartRefused : BoundedStr 192

def emptyStr {n : Nat} (positive : 0 < n) : BoundedStr n :=
  ⟨CStr.empty, positive⟩

/-- The body of the loop of `save_state`. -/
def writeDef (d : ContainerDef) (w : Writer) : Writer :=
  let w := jwObjOpen w
  let w := jwStr d.name.text.str (jwKey "name" w)
  let w := jwKey "depends_on" w
  let w := jwArrClose
    (d.dependsOn.foldl (fun w dep => jwStr dep.str w) (jwArrOpen w))
  let w := jwStr d.restartPolicy.text
    (jwKey "restart_policy" w)
  let w := jwInt d.restartDelaySeconds.toInt
    (jwKey "restart_delay_seconds" w)
  let w := jwBool d.stopped (jwKey "stopped" w)
  let w := jwBool d.followRolling (jwKey "follow_rolling" w)
  let w := jwKey "follow_rolling_jitter_seconds" w
  let w := match d.followRollingJitter with
    | some seconds => jwInt seconds.toInt w
    | none => jwNull w
  let w := jwStr d.awaitingImage.str
    (jwKey "awaiting_image" w)
  let w := jwStr d.rollFrom.str (jwKey "roll_from" w)
  let w := jwStr d.rollTo.str (jwKey "roll_to" w)
  let w := jwInt d.rollDeadline.toInt
    (jwKey "roll_deadline" w)
  -- `jw_str` takes the body as a C string.
  let w := jwStr (CStr.ofBytes d.body) (jwKey "body" w)
  jwObjClose w

def stateText (defs : List ContainerDef) : List UInt8 :=
  (jwArrClose (defs.foldl (fun w d => writeDef d w) (jwArrOpen jwInit))).buf

def isTrue : Option Value → Bool
  | some (.bool b) => b
  | _ => false

def readNames : List Value → Option (List (BoundedStr 64))
  | [] => some []
  | item :: rest =>
    match asString (some item) with
    | none => none
    | some name =>
      (readNames rest).map fun names =>
        BoundedStr.store 64 pos_64 name :: names

theorem readNames_length {items : List Value} {names : List (BoundedStr 64)}
    (read : readNames items = some names) : names.length = items.length := by
  induction items generalizing names with
  | nil =>
    cases read
    rfl
  | cons item rest ih =>
    rw [readNames] at read
    split at read
    · cases read
    · rw [Option.map_eq_some_iff] at read
      obtain ⟨later, isLater, rfl⟩ := read
      rw [List.length_cons, List.length_cons, ih isLater]

/-- `depends_on` of an entry: absent, or an array of which the first sixteen
items are taken. -/
def readDepends (mem : Option Value) : Option (List (BoundedStr 64)) :=
  match mem with
  | none => some []
  | some (.array items) => readNames (items.take 16)
  | some _ => none

theorem readDepends_length {mem : Option Value}
    {depends : List (BoundedStr 64)}
    (read : readDepends mem = some depends) : depends.length ≤ 16 := by
  unfold readDepends at read
  split at read
  · cases read
    exact Nat.zero_le 16
  · rw [readNames_length read, List.length_take]
    exact Nat.min_le_left _ _
  · cases read

/-- `restart_policy` of an entry; a file without it is older than the
field. -/
def readPolicy (mem : Option Value) : Option RestartPolicy :=
  match mem with
  | none => some .always
  | some policy => (asString (some policy)).bind RestartPolicy.ofText

/-- `awaiting_image` of an entry: a name that does not fit is an error. -/
def readAwaiting (mem : Option Value) : Option (BoundedStr 64) :=
  match asString mem with
  | none => some (emptyStr pos_64)
  | some image => if fits : image.length < 64 then some ⟨image, fits⟩ else none

def readRoll (item : Value) : BoundedStr 72 × BoundedStr 72 × Int64 :=
  match asString (objectGet (some item) "roll_from"),
      asString (objectGet (some item) "roll_to") with
  | some source, some target =>
    if fits : source.length < 72 ∧ target.length < 72 then
      (⟨source, fits.1⟩, ⟨target, fits.2⟩,
        (asNumber (objectGet (some item) "roll_deadline")).toInt64)
    else (emptyStr pos_72, emptyStr pos_72, 0)
  | _, _ => (emptyStr pos_72, emptyStr pos_72, 0)

def readJitter (mem : Option Value) : Option Int32 :=
  match mem with
  | some (.number seconds) => some seconds.toInt
  | _ => none

def defaultRestartDelaySeconds : Int32 := 2

def readDelay (mem : Option Value) : Int32 :=
  match mem with
  | none => defaultRestartDelaySeconds
  | some delay => (asNumber (some delay)).toInt

def RegistryName.ofText (name : CStr) : Option RegistryName :=
  if valid : name ≠ CStr.empty ∧ name.length < 64 then
    some ⟨⟨name, valid.2⟩, valid.1⟩
  else none

def parsePersistedEntry (item : Value) : Option ContainerDef :=
  match (asString (objectGet (some item) "name")).bind RegistryName.ofText,
      asString (objectGet (some item) "body") with
  | some name, some body =>
    match readAwaiting (objectGet (some item) "awaiting_image") with
    | none => none
    | some awaiting =>
      match read : readDepends (objectGet (some item) "depends_on") with
      | none => none
      | some depends =>
        match readPolicy (objectGet (some item) "restart_policy") with
        | none => none
        | some policy =>
          let roll := readRoll item
          some {
            name := name
            body := body.bytes
            dependsOn := depends
            dependsCount := readDepends_length read
            restartPolicy := policy
            restartDelaySeconds := readDelay (objectGet (some item) "restart_delay_seconds")
            stopped := isTrue (objectGet (some item) "stopped")
            followRolling := isTrue (objectGet (some item) "follow_rolling")
            followRollingJitter := readJitter (objectGet (some item)
              "follow_rolling_jitter_seconds")
            awaitingImage := awaiting
            rollFrom := roll.1
            rollTo := roll.2.1
            rollDeadline := roll.2.2
            consecutiveFailures := 0
            rollFailures := 0
            rollSkipped := emptyStr pos_72
            restartRefused := emptyStr pos_192 }
  | _, _ => none

/-- The loop of `load_state`, which gives up at an invalid entry. -/
def parseEntries : List Value → Option (List ContainerDef)
  | [] => some []
  | item :: rest =>
    match parsePersistedEntry item with
    | none => none
    | some d => (parseEntries rest).map fun defs => d :: defs

def containerdefMax : Nat := 256

def loadState (file : Option (List UInt8)) : Option (List ContainerDef) :=
  match file with
  | none => some []
  | some text =>
    match asArray (jsonParse text) with
    | none => none
    | some items =>
      if items.length > containerdefMax then none
      else parseEntries items

/-- `g_defs`, and the content of the state file. -/
structure Store where
  defs : List ContainerDef
  file : Option (List UInt8)

/-- `save_state` with the outcome of its write. -/
def Store.save (s : Store) (written : Bool) : Store :=
  if written then { s with file := some (stateText s.defs) } else s

def containerdefFind (name : RegistryName) (defs : List ContainerDef) :
    Option ContainerDef :=
  defs.find? fun d => d.name = name

/-- An assignment through the pointer that `containerdef_find` returns. -/
def updateDef (name : RegistryName) (change : ContainerDef → ContainerDef) :
    List ContainerDef → List ContainerDef
  | [] => []
  | d :: rest =>
    if d.name = name then change d :: rest
    else d :: updateDef name change rest

def Store.update (s : Store) (name : RegistryName)
    (change : ContainerDef → ContainerDef) (written : Bool) : Store :=
  match containerdefFind name s.defs with
  | none => s
  | some _ => Store.save { s with defs := updateDef name change s.defs } written

/-- What `create_container_from_body` reads of a body for the record around
it. -/
structure Policy where
  dependsOn : List (BoundedStr 64)
  dependsCount : dependsOn.length ≤ 16
  restartPolicy : RestartPolicy
  restartDelaySeconds : Int32
  followRolling : Bool
  followRollingJitter : Option Int32

/-- The record that `containerdef_add` fills in; the fields of a roll stay as
they were in its slot. -/
def ContainerDef.filled (name : RegistryName) (body : List UInt8)
    (policy : Policy) (old : Option ContainerDef) : ContainerDef where
  name := name
  body := body
  dependsOn := policy.dependsOn
  dependsCount := policy.dependsCount
  restartPolicy := policy.restartPolicy
  restartDelaySeconds := policy.restartDelaySeconds
  stopped := false
  followRolling := policy.followRolling
  followRollingJitter := policy.followRollingJitter
  awaitingImage := emptyStr pos_64
  rollFrom := (old.map ContainerDef.rollFrom).getD (emptyStr pos_72)
  rollTo := (old.map ContainerDef.rollTo).getD (emptyStr pos_72)
  rollDeadline := (old.map ContainerDef.rollDeadline).getD 0
  consecutiveFailures := 0
  rollFailures := (old.map ContainerDef.rollFailures).getD 0
  rollSkipped :=
    (old.map ContainerDef.rollSkipped).getD (emptyStr pos_72)
  restartRefused := emptyStr pos_192

/-- `containerdef_add`, with whether it returned zero; a full table refuses a
new name. -/
def containerdefAdd (name : RegistryName) (body : List UInt8)
    (policy : Policy) (written : Bool) (s : Store) : Store × Bool :=
  let old := containerdefFind name s.defs
  let d := ContainerDef.filled name body policy old
  match old with
  | some _ => (Store.save
      { s with defs := updateDef name (fun _ => d) s.defs } written, written)
  | none =>
    if s.defs.length < containerdefMax then
      (Store.save { s with defs := s.defs ++ [d] } written, written)
    else (s, false)

def containerdefRemove (name : RegistryName) (written : Bool) (s : Store) :
    Store :=
  match containerdefFind name s.defs with
  | none => s
  | some _ => Store.save
      { s with defs := s.defs.eraseP fun d => d.name = name } written

def containerdefSetBody (name : RegistryName) (body : List UInt8)
    (written : Bool) (s : Store) : Store :=
  s.update name (fun d => { d with body := body }) written

def containerdefSetStopped (name : RegistryName) (stopped written : Bool) (s : Store) : Store :=
  s.update name (fun d =>
    { d with
      stopped := stopped
      restartRefused := if stopped then emptyStr pos_192
        else d.restartRefused }) written

/-- `containerdef_set_awaiting_image`; the empty name ends the wait. -/
def containerdefSetAwaitingImage (name : RegistryName)
    (image : BoundedStr 64) (written : Bool) (s : Store) : Store :=
  s.update name (fun d =>
    { d with
      awaitingImage := image
      restartRefused := if image.str = CStr.empty then emptyStr pos_192
        else d.restartRefused }) written

def containerdefSetRoll (name : RegistryName) (source target : BoundedStr 72)
    (written : Bool) (s : Store) : Store :=
  s.update name (fun d =>
    { d with
      rollFrom := source
      rollTo := target
      rollDeadline := 0
      rollFailures := 0 }) written

def containerdefSetRollDeadline (name : RegistryName) (deadline : Int64)
    (written : Bool) (s : Store) : Store :=
  match containerdefFind name s.defs with
  | none => s
  | some d =>
    if d.rollTo.str = CStr.empty then s
    else s.update name (fun d =>
      { d with rollDeadline := deadline, rollFailures := 0 }) written

def containerdefClearRoll (name : RegistryName) (written : Bool) (s : Store) : Store :=
  match containerdefFind name s.defs with
  | none => s
  | some d =>
    if d.rollTo.str = CStr.empty ∧ d.rollDeadline = 0 then s
    else s.update name (fun d =>
      { d with
        rollFrom := emptyStr pos_72
        rollTo := emptyStr pos_72
        rollDeadline := 0
        rollFailures := 0 }) written

def containerdefPromotePending (name : RegistryName) (policy : Policy)
    (written : Bool) (s : Store) : Store :=
  s.update name (fun d =>
    { d with
      dependsOn := policy.dependsOn
      dependsCount := policy.dependsCount
      restartPolicy := policy.restartPolicy
      restartDelaySeconds := policy.restartDelaySeconds
      followRolling := policy.followRolling
      followRollingJitter := policy.followRollingJitter
      awaitingImage := emptyStr pos_64
      restartRefused := emptyStr pos_192
      stopped := false
      consecutiveFailures := 0 }) written

/-- The text that `containerdef_patch_image_version` looks for. -/
def pinKey : List UInt8 := ascii "\"image_version\":\""

/-- The new body of `containerdef_patch_image_version`: the value after the first
occurrence of the key, up to the next quotation mark, is replaced. -/
def patchBody (body : List UInt8) (version : CStr) : Option (List UInt8) :=
  match strstr pinKey (cstrAt body) with
  | none => none
  | some (before, after) =>
    let old := after.takeWhile (· ≠ 34)
    if old.length = after.length then none
    else some (before ++ (pinKey ++ (version.bytes ++
      body.drop (before.length + pinKey.length + old.length))))

/-- `containerdef_patch_image_version`, with its result. -/
def containerdefPatchImageVersion (name : RegistryName) (version : CStr)
    (written : Bool) (s : Store) : Store × Bool :=
  match containerdefFind name s.defs with
  | none => (s, false)
  | some d =>
    match patchBody d.body version with
    | none => (s, false)
    | some body => (containerdefSetBody name body written s, written)

/-- The text of an object that `jw_value` writes; `none` when it leaves its
stack. -/
def rebuilt (members : List (CStr × Value)) : Option (List UInt8) :=
  (jwMembers members (jwObjOpen jwInit)).map fun w => (jwObjClose w).buf

def migrateDef (change : List (CStr × Value) → Option (List (CStr × Value)))
    (d : ContainerDef) : Option (ContainerDef × Bool) :=
  match jsonParse d.body with
  | some (.object members) =>
    match change members with
    | none => some (d, false)
    | some members => (rebuilt members).map fun body => ({ d with body := body }, true)
  | _ => some (d, false)

def migrateDefs (change : List (CStr × Value) → Option (List (CStr × Value))) :
    List ContainerDef → Option (List ContainerDef × Bool)
  | [] => some ([], false)
  | d :: rest =>
    match migrateDef change d, migrateDefs change rest with
    | some (d, changed), some (defs, any) => some (d :: defs, changed || any)
    | _, _ => none

def migrate (change : List (CStr × Value) → Option (List (CStr × Value)))
    (written : Bool) (s : Store) : Option Store :=
  match migrateDefs change s.defs with
  | none => none
  | some (defs, any) =>
    if any then
      if written then some (Store.save { s with defs := defs } true)
      else none
    else some { s with defs := defs }

/-- The members that `migrate_ldap_login_key` writes. -/
def renameLdapLogin (members : List (CStr × Value)) : Option (List (CStr × Value)) :=
  if members.any fun m => m.1 = "ldap_login" then
    some (members.map fun m =>
      (if m.1 = CStr.ofString "ldap_login" then CStr.ofString "ldap_client"
        else m.1, m.2))
  else none

/-- The members that `migrate_pin_userns_absent` writes. -/
def pinUsernsAbsent (members : List (CStr × Value)) : Option (List (CStr × Value)) :=
  if members.any fun m => m.1 = "userns" then none
  else some (members ++ [(CStr.ofString "userns", .bool false)])

/-- `none` when the daemon does not come up. -/
def containerdefInit (writtenLdap writtenUserns : Bool)
    (file : Option (List UInt8)) : Option Store :=
  match loadState file with
  | none => none
  | some defs =>
    (migrate renameLdapLogin writtenLdap ⟨defs, file⟩).bind (migrate pinUsernsAbsent writtenUserns)

end Cix.Container
