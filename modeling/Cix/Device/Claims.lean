import Cix.Device.Records

/-!
# The claims of the containers and the requests for devices

`daemon/src/devicegrant.c`: the claims that a snapshot collects into its table,
the check that every request for a device passes, and what requests and
releases do to the containers.
-/

namespace Cix.Device

open Cix.Lib

structure HeldInterface where
  (name granted : CStr)
  deriving DecidableEq

/-- `struct registry_entry`, as far as it claims devices. -/
structure Entry where
  name : CStr
  running : Bool
  devices : List (CStr × Bool)
  interfaces : List HeldInterface
  /-- The references of `pending_devices`. -/
  pending : List CStr
  deriving DecidableEq

/-- `struct container_def`, as far as its body claims devices. -/
structure Definition where
  name : CStr
  reserveDevices : Bool
  (devices interfaces : List CStr)
  deriving DecidableEq

structure State where
  entries : List Entry
  definitions : List Definition

def State.fresh : State := ⟨[], []⟩

structure Host where
  recs : List Device
  /-- `devicemap_resolve` and, for no mapping, `device_find_group`: the ids
  of the records. -/
  resolve : CStr → List CStr
  /-- `interface_host_name`, where it does not fail. -/
  hostName : CStr → Option CStr

def claimsMax : Nat := 1024

def netId (name : CStr) : CStr :=
  CStr.ofBytes ((CStr.ofString "net:").bytes ++ name.bytes)

def interfaceGrantId (recs : List Device) (name : CStr) : Option CStr :=
  (record recs (netId name)).map fun d =>
    if (CStr.ofString "phy:").bytes.isPrefixOf d.parent.bytes then d.parent
    else d.id

def claimReference (host : Host) (container ref : CStr) (binding : Bool) :
    List Claim :=
  (host.resolve ref).map fun id =>
    ⟨.reservation, container, id, false, binding⟩

def deviceGrant (container : CStr) (device : CStr × Bool) : Claim :=
  ⟨.grant, container, device.1, device.2, false⟩

def HeldInterface.id (held : HeldInterface) : CStr :=
  if held.granted.length = 0 then netId held.name else held.granted

def interfaceGrant (container : CStr) (held : HeldInterface) : Claim :=
  ⟨.grant, container, held.id, false, false⟩

def Entry.grants (e : Entry) : List Claim :=
  e.devices.map (deviceGrant e.name) ++ e.interfaces.map (interfaceGrant e.name)

def entryClaims (host : Host) (e : Entry) : List Claim :=
  if e.running then
    e.grants ++ e.pending.flatMap fun ref =>
      claimReference host e.name ref false
  else []

def State.runs (s : State) (name : CStr) : Bool :=
  s.entries.any fun e => e.running && decide (e.name = name)

def claimDefinition (host : Host) (defn : Definition) : List Claim :=
  (defn.devices.flatMap fun ref =>
    claimReference host defn.name ref defn.reserveDevices) ++ defn.interfaces.filterMap fun ref =>
        ((host.hostName ref).bind (interfaceGrantId host.recs)).map fun id =>
          ⟨.reservation, defn.name, id, false, defn.reserveDevices⟩

/-- What `devicegrant_snapshot` passes to `add_claim`, in its order. -/
def claimsOf (host : Host) (s : State) : List Claim :=
  s.entries.flatMap (entryClaims host) ++
    (s.definitions.filter fun defn => !s.runs defn.name).flatMap (claimDefinition host)

/-- `add_claim`; a full table takes no more. -/
def addClaim (claims : List Claim) (c : Claim) : List Claim :=
  if claimsMax ≤ claims.length then claims else claims ++ [c]

/-- The claims of `devicegrant_snapshot`. -/
def snapshotClaims (host : Host) (s : State) : List Claim :=
  (claimsOf host s).foldl addClaim []

structure Request where
  (container id : CStr)
  shared : Bool
  deriving DecidableEq

/-- `devicegrant_check`; zero grants. -/
def devicegrantCheck (host : Host) (s : State) (r : Request) : Nat :=
  match (recordIndex host.recs r.id).bind fun idx =>
      (host.recs[idx]?).map fun d => (idx, d) with
  | none => 404
  | some (idx, d) =>
    (deviceGrantVerdict host.recs idx d (snapshotClaims host s) r.shared r.container).1

def devicegrantCheckInterface (host : Host) (s : State)
    (container ref : CStr) : Nat × Option HeldInterface :=
  match host.hostName ref with
  | none => (400, none)
  | some name =>
    match interfaceGrantId host.recs name with
    | none => (400, none)
    | some id =>
      match record host.recs id with
      | none => (400, none)
      | some d =>
        let code := devicegrantCheck host s ⟨container, id, false⟩
        (code, if code = 0 then some ⟨name, d.id⟩ else none)

def Entry.started (name : CStr) : Entry := ⟨name, true, [], [], []⟩

def State.hold (name : CStr) (change : Entry → Entry) (s : State) : State :=
  if s.runs name then
    { s with entries := s.entries.map fun e =>
        if e.running && decide (e.name = name) then change e else e }
  else
    { s with entries := (s.entries.filter fun e => e.name ≠ name) ++
        [change (Entry.started name)] }

def State.granted (r : Request) (s : State) : State :=
  s.hold r.container fun e =>
    { e with devices := e.devices ++ [(r.id, r.shared)] }

inductive Operation where
  | request (r : Request)
  | requestInterface (container ref : CStr)
  | release (container id : CStr)
  | releaseInterface (container name : CStr)
  /-- The container stops and holds nothing any more. -/
  | stop (container : CStr)
  /-- A running container waits for other references than before. -/
  | await (container : CStr) (refs : List CStr)
  | define (definitions : List Definition)

def serve (host : Host) (s : State) : Operation → Nat × State
  | .request r =>
    let code := devicegrantCheck host s r
    (code, if code = 0 then s.granted r else s)
  | .requestInterface container ref =>
    match devicegrantCheckInterface host s container ref with
    | (code, none) => (code, s)
    | (code, some held) =>
      (code, s.hold container fun e =>
        { e with interfaces := e.interfaces ++ [held] })
  | .release container id =>
    (0, { s with entries := s.entries.map fun e =>
      if e.name = container then
        { e with devices := e.devices.filter fun device => device.1 ≠ id }
      else e })
  | .releaseInterface container name =>
    (0, { s with entries := s.entries.map fun e =>
      if e.name = container then
        { e with interfaces :=
            e.interfaces.filter fun held => held.name ≠ name }
      else e })
  | .stop container =>
    (0, { s with entries := s.entries.map fun e =>
      if e.name = container then { e with running := false } else e })
  | .await container refs =>
    (0, { s with entries := s.entries.map fun e =>
      if e.name = container then { e with pending := refs } else e })
  | .define definitions => (0, { s with definitions := definitions })

def asked (host : Host) : Operation → Option Request
  | .request r => some r
  | .requestInterface container ref =>
    ((host.hostName ref).bind fun name =>
      (interfaceGrantId host.recs name).bind (record host.recs)).map
        fun d => ⟨container, d.id, false⟩
  | _ => none

def step (host : Host) (s : State) (operation : Operation) : State :=
  (serve host s operation).2

end Cix.Device
