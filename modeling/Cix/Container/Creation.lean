import Cix.Container.Definitions
import Mathlib.Data.List.DropRight
import Mathlib.Data.FinEnum

/-!
# How a container and its definition come to be

`create_container_from_body` as far as the two fields that a definition pins
are concerned, `create_container_persisted`, which splices them into the text
of the request, and the path of a deployment that waits for its image.
-/

namespace Cix.Container

open Cix.Lib Cix.Json

structure ImageVersion where
  str : CStr
  nonempty : str ≠ CStr.empty
  fits : str.length < 65
  plain : ∀ c ∈ str.bytes, c ≠ 34 ∧ c ≠ 92
  deriving DecidableEq

def ImageVersion.ofText (text : CStr) : Option ImageVersion :=
  if valid : text ≠ CStr.empty ∧ text.length < 65 ∧ ∀ c ∈ text.bytes, c ≠ 34 ∧ c ≠ 92 then
    some ⟨text, valid.1, valid.2.1, valid.2.2⟩
  else none

/-- What a creation reads besides the body: the platform default, the images,
and the outcome of the checks of the other fields. -/
structure Host where
  usernsDefault : Bool
  imageCurrentVersion : CStr → Option ImageVersion
  rootfsExists : CStr → ImageVersion → Bool
  admits : Value → Bool
  policy : Value → Policy

def definitionUserns (host : Host) (userns : Option Value) : Bool :=
  match userns with
  | some value => isTrue (some value)
  | none => host.usernsDefault

/-- The version that the body names, through a buffer of `IMAGE_VERSION_MAX` bytes,
or the current one. -/
def resolveImageVersion (host : Host) (image : CStr) (requested : Option CStr) :
    Option ImageVersion :=
  match requested with
  | some text =>
    if text ≠ CStr.empty then ImageVersion.ofText (text.truncate 65)
    else host.imageCurrentVersion image
  | none => host.imageCurrentVersion image

/-- A `struct registry_entry`, as far as it is read here. -/
structure Incarnation where
  name : RegistryName
  image : CStr
  imageVersion : ImageVersion
  userns : Bool
  policy : Policy

def createContainerFromBody (host : Host) (body : List UInt8) :
    Option Incarnation :=
  match jsonParse body with
  | none => none
  | some root =>
    match (asString (objectGet (some root) "name")).bind
        RegistryName.ofText, asString (objectGet (some root) "image") with
    | some name, some image =>
      match resolveImageVersion host image
          (asString (objectGet (some root) "image_version")) with
      | none => none
      | some version =>
        if host.rootfsExists image version ∧ host.admits root then
          some ⟨name, image, version, definitionUserns host (objectGet (some root) "userns"),
            host.policy root⟩
        else none
    | _, _ => none

def knownKeys : List CStr :=
  ["name", "image", "image_version", "services", "networks", "ip_forward",
    "ksm", "capture_output", "routes", "devices", "interfaces",
    "reserve_devices", "cap_add", "files", "sysctls", "env", "dns_servers",
    "dns_register", "pki_issue", "pki_cert_dir", "pki_cert", "pki_days",
    "disk", "ldap_provision", "ldap_user", "ldap_group", "ldap_uid",
    "ldap_secret_dir", "restart", "restart_delay_seconds", "follow_rolling",
    "follow_rolling_jitter_seconds", "depends_on", "memory_max",
    "memory_swap_max", "cpu_max", "pids_max", "cpuset_cpus",
    "disk_quota_bytes", "ldap_client", "ldap_allow_groups", "userns",
    "procfuse", "consoles", "volumes", "dns_server", "ntp_server",
    "syslog_target", "ldap_server"].map CStr.ofString

def containerBodyUnknownKey (root : Option Value) : Option CStr :=
  match root with
  | some (.object members) => (members.map Prod.fst).find? fun key => key ∉ knownKeys
  | _ => none

/-- The text of the `userns` pin, which a body that has the member does not
get. -/
def usernsPin (hasUserns userns : Bool) : List UInt8 :=
  if hasUserns then []
  else ascii ",\"userns\":" ++ ascii (if userns then "true" else "false")

/-- The text that `create_container_persisted` persists: the pins stand in
front of the last brace. -/
def splicePins (body : List UInt8) (version : ImageVersion)
    (hasUserns userns : Bool) : List UInt8 :=
  let trimmed := body.rdropWhile isWs
  if trimmed.getLast? = some 125 then
    trimmed.dropLast ++ (44 :: (pinKey ++ (version.str.bytes ++ 34 ::
      (usernsPin hasUserns userns ++ [125]))))
  else body

/-- `create_container_persisted`, with the outcome of the write of the state
file. -/
def createContainerPersisted (host : Host) (body : List UInt8)
    (written : Bool) (s : Store) : Option (Incarnation × Store × Bool) :=
  let root := jsonParse body
  match containerBodyUnknownKey root with
  | some _ => none
  | none =>
    match createContainerFromBody host body with
    | none => none
    | some entry =>
      let hasUserns := (objectGet root "userns").isSome
      let text := splicePins body entry.imageVersion hasUserns entry.userns
      some (entry, containerdefAdd entry.name text entry.policy written s)

/-- The policy that `deployment_mark_pending` stores. -/
def pendingPolicy : Policy where
  dependsOn := []
  dependsCount := Nat.zero_le 16
  restartPolicy := .no
  restartDelaySeconds := defaultRestartDelaySeconds
  followRolling := false
  followRollingJitter := none

/-- `deployment_mark_pending`, whose two writes succeed; the rendered text is
a C string. -/
def deploymentMarkPending (name : RegistryName) (image : BoundedStr 64)
    (rendered : CStr) (s : Store) : Store :=
  containerdefSetAwaitingImage name image true
    (containerdefAdd name rendered.bytes pendingPolicy true s).1

/-- The body of the loop of `apply_pending_deployments` for a definition whose image
can run. -/
def applyPendingDeployment (host : Host) (name : RegistryName)
    (promoted patched : Bool) (s : Store) : Option (Incarnation × Store) :=
  match containerdefFind name s.defs with
  | none => none
  | some d =>
    match createContainerFromBody host d.body with
    | none => none
    | some entry =>
      let s := containerdefPromotePending name entry.policy promoted s
      some (entry, (containerdefPatchImageVersion name entry.imageVersion.str patched s).1)

end Cix.Container
