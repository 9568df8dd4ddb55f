import Cix.Lib.CString
import Cix.Lib.ParentChain

/-!
# Device records and the verdict on a grant

`daemon/src/devicestate.c`: records form a forest through their parents, facts
sit on the records, and claims are what containers hold or name.  The reported
state and the verdict on a grant are functions of these three.
-/

namespace Cix.Device

open Cix.Lib

/-- `struct discovered_device`, as far as the state depends on it. -/
structure Device where
  (id bus : CStr)
  /-- The nearest ancestor that is a record, empty for none. -/
  (parent driver : CStr)
  /-- Whether `dev_path` is set. -/
  (hasNode isPartition osLayout management storageRole mounted bridgePort requiresDriver : Bool)
  alwaysShared : Bool
  deriving DecidableEq

def isGrantUnit (d : Device) : Bool :=
  d.hasNode || d.bus = CStr.ofString "net" || d.bus = CStr.ofString "phy"

def recordIndex (recs : List Device) (id : CStr) : Option Nat :=
  recs.findIdx? fun d => d.id = id

def record (recs : List Device) (id : CStr) : Option Device :=
  recs.find? fun d => d.id = id

def depthMax : Nat := 16

/-- The loop of `is_ancestor`, with the number of steps that are left. -/
def isAncestorFrom (recs : List Device) (above : CStr) : (depth : Nat) → CStr → Bool
  | 0, _ => false
  | depth + 1, id =>
    match record recs id with
    | none => false
    | some d =>
      if d.parent.length = 0 then false
      else if d.parent = above then true
      else isAncestorFrom recs above depth d.parent

def isAncestor (recs : List Device) (above id : CStr) : Bool :=
  isAncestorFrom recs above depthMax id

def idsRelated (recs : List Device) (a b : CStr) : Bool :=
  a = b || isAncestor recs a b || isAncestor recs b a

/-- The words of `Device.reason`. -/
inductive Reason where
  | osPartition
  | osDisk
  | managementInterface
  | storageRole
  | mounted
  | bridgePort
  | noNode
  | noDriver
  deriving DecidableEq, Repr

def ownHostReason (d : Device) : Option Reason :=
  if d.osLayout then some (if d.isPartition then .osPartition else .osDisk)
  else if d.management then some .managementInterface
  else if d.storageRole then some .storageRole
  else if d.mounted then some .mounted
  else if d.bridgePort then some .bridgePort
  else none

def spreadingHostReason (d : Device) : Option Reason :=
  if d.storageRole then some .storageRole
  else if d.mounted then some .mounted
  else none

/-- The loop of `ancestor_host_reason`. -/
def ancestorHostReasonFrom (recs : List Device) : (depth : Nat) → Device → Option Reason
  | 0, _ => none
  | depth + 1, d =>
    if d.parent.length = 0 then none
    else
      match record recs d.parent with
      | none => none
      | some above =>
        match spreadingHostReason above with
        | some reason => some reason
        | none => ancestorHostReasonFrom recs depth above

def ancestorHostReason (recs : List Device) (d : Device) : Option Reason :=
  ancestorHostReasonFrom recs depthMax d

def descendantHostReason (recs : List Device) (idx : Nat) (d : Device) :
    Option Reason :=
  recs.zipIdx.findSome? fun (below, i) =>
    if i = idx ∨ ¬ isAncestor recs d.id below.id then none
    else ownHostReason below

inductive DeviceState where
  | free
  | held
  | reserved
  | host
  | unavailable
  deriving DecidableEq, Repr

inductive ClaimKind where
  | grant
  | reservation
  deriving DecidableEq, Repr

structure Claim where
  kind : ClaimKind
  (container id : CStr)
  (shared binding : Bool)
  deriving DecidableEq

structure Verdict where
  state : DeviceState
  reason : Option Reason
  claim : Option Nat
  deriving DecidableEq

def Verdict.free : Verdict := ⟨.free, none, none⟩

/-- `host_or_unavailable` before the claims. -/
def hostBeforeClaims (recs : List Device) (d : Device) : Option Verdict :=
  match (ownHostReason d).or (ancestorHostReason recs d) with
  | some reason => some ⟨.host, some reason, none⟩
  | none =>
    if isGrantUnit d then none
    else some ⟨.unavailable, some .noNode, none⟩

/-- `host_or_unavailable` after the claims. -/
def hostAfterClaims (recs : List Device) (idx : Nat) (d : Device) :
    Option Verdict :=
  if d.requiresDriver ∧ d.driver.length = 0 then
    some ⟨.unavailable, some .noDriver, none⟩
  else
    (descendantHostReason recs idx d).map fun reason =>
      ⟨.host, some reason, none⟩

/-- `device_state_of` the record at a position. -/
def deviceStateOf (recs : List Device) (idx : Nat) (d : Device) (claims : List Claim) : Verdict :=
  match hostBeforeClaims recs d with
  | some verdict => verdict
  | none =>
    match claims.findIdx? fun c =>
      c.kind = .grant && idsRelated recs c.id d.id with
    | some i => ⟨.held, none, some i⟩
    | none =>
      match claims.findIdx? fun c =>
        c.kind = .reservation && c.binding && idsRelated recs c.id d.id with
      | some i => ⟨.reserved, none, some i⟩
      | none => (hostAfterClaims recs idx d).getD Verdict.free

/-- What a claim does to a request in the loop of `device_grant_verdict`:
`none` goes on to the next one. -/
def claimRefuses (recs : List Device) (d : Device) (wantShared : Bool)
    (requester : CStr) (c : Claim) : Option DeviceState :=
  if c.container = requester then none
  else if !idsRelated recs c.id d.id then none
  else if c.kind = .grant then
    if d.alwaysShared || (wantShared && c.shared) then none else some .held
  else if c.binding then some .reserved
  else none

abbrev Answer := Nat × Verdict

/-- `device_grant_verdict` on the record at a position. -/
def deviceGrantVerdict (recs : List Device) (idx : Nat) (d : Device)
    (claims : List Claim) (wantShared : Bool) (requester : CStr) : Answer :=
  match (hostBeforeClaims recs d).or (hostAfterClaims recs idx d) with
  | some verdict => (400, verdict)
  | none =>
    match claims.zipIdx.findSome? fun (c, i) =>
      (claimRefuses recs d wantShared requester c).map fun state =>
        (state, i) with
    | some (state, i) => (409, ⟨state, none, some i⟩)
    | none => (0, Verdict.free)

end Cix.Device
