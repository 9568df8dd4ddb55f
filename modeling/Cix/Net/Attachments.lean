import Cix.Net.Disjoint

/-!
# Addresses of containers

The attachments of the containers to the networks: the part of
`daemon/src/registry.c` that records them, `network_alloc_ip` and
`network_ip_available` of `network.c`, and the requests of `main.c` that create
a container or attach a running one.  What else a request checks, and what the
kernel answers, comes with it.
-/

namespace Cix.Net

open Cix.Lib Cix.Json

/-- `struct registry_network_attachment`; `live` stands for a `veth_host` that
is not empty. -/
structure Attachment where
  network : BoundedStr 16
  ip : Address
  live : Bool
  ifname : BoundedStr 16

def containerMaxNetworks : Nat := 64

def registryMaxContainers : Nat := 256

/-- `struct registry_entry` in use, as far as networks are concerned. -/
structure Entry where
  name : BoundedStr 64
  running : Bool
  nets : List Attachment

/-- What `parse_network_entry` reads of a `networks` entry; a name that is not
given is empty. -/
structure NetworkEntry where
  network : BoundedStr 16
  ip : Option Address
  (ifname bridge : BoundedStr 16)

structure Host where
  net : State
  entries : Slots Entry registryMaxContainers

def Host.fresh : Host :=
  ⟨State.fresh, Slots.empty registryMaxContainers⟩

def Host.registryFind (h : Host) (name : CStr) : Option (Nat × Entry) :=
  h.entries.find fun e => e.name.str = name

def Host.ipInUse (h : Host) (candidate : Address) : Bool :=
  h.entries.entries.any fun e => e.nets.any fun a => a.ip = candidate

def Host.registryNetworkInUse (h : Host) (network : CStr) : Bool :=
  h.entries.entries.any fun e => e.nets.any fun a => a.network.str = network

/-- The loop of `registry_alloc_ip`, for that many turns. -/
def Host.allocFrom (h : Host) (base exclude : Address) : (turns : Nat) → Int → Option Address
  | 0, _ => none
  | turns + 1, host =>
    let candidate := base ||| BitVec.ofInt 32 host
    if candidate = exclude then h.allocFrom base exclude turns (host + 1)
    else if h.ipInUse candidate = false then some candidate
    else h.allocFrom base exclude turns (host + 1)

def Host.registryAllocIp (h : Host) (base : Address) (hostMin hostMax : Int)
    (exclude : Address) : Option Address :=
  h.allocFrom base exclude (hostMax + 1 - hostMin).toNat hostMin

inductive AllocFailure where
  | unavailable
  | undeclaredPool
  deriving DecidableEq, Repr

/-- The lowest host number that `network_alloc_ip` hands out: not the first of
the management network, unless its window says so. -/
def State.allocLow (s : State) (net : NetworkDef) : Int :=
  let low := if net.allocStartHost > 0 then net.allocStartHost else 1
  if s.netIsManagement net ∧ net.allocStartHost = 0 ∧ low < 2 then 2 else low

def Host.networkAllocIp (h : Host) (name : CStr) :
    Except AllocFailure Address :=
  match h.net.networkFind name with
  | none => .error .unavailable
  | some (_, net) =>
    let exclude := if net.hasAddress then net.address else 0
    -- a network that reaches other equipment needs a declared pool
    if net.interfaces.length > 0 ∧ net.allocStartHost = 0 ∧
        net.allocEndHost = 0 then .error .undeclaredPool
    else
      match h.registryAllocIp net.base (h.net.allocLow net) net.windowEnd
          exclude with
      | none => .error .unavailable
      | some ip => .ok ip

/-- The answers of `network_ip_available`. -/
inductive IpVerdict where
  | ok
  | notFound
  | outOfRange
  | taken
  deriving DecidableEq, Repr

def Host.networkIpAvailable (h : Host) (name : CStr) (ip : Address) :
    IpVerdict :=
  match h.net.networkFind name with
  | none => .notFound
  | some (_, net) =>
    if ip &&& maskForPrefix net.prefixLen ≠ net.base then .outOfRange
    else if (ip - net.base).toNat < 1 ∨ (ip - net.base).toInt > hostMaxForPrefix net.prefixLen then
      .outOfRange
    else if net.hasAddress ∧ ip = net.address then .outOfRange
    else if h.ipInUse ip then .taken
    else .ok

/-- The name of an interface: the one that was chosen, or `eth<position>`. -/
def interfaceName (chosen : BoundedStr 16) (position : Nat) : BoundedStr 16 :=
  if chosen.str.length ≠ 0 then chosen
  else BoundedStr.store 16 pos_16 (CStr.ofBytes (ascii "eth" ++ natText position))

def chosenDistinct : List NetworkEntry → Bool
  | [] => true
  | entry :: rest =>
    !(rest.any fun other => entry.ifname.str.length ≠ 0 &&
      other.ifname.str = entry.ifname.str) && chosenDistinct rest

/-- The checks of `create_container_from_body` on the networks. -/
def Host.networksPass (h : Host) (requested : List NetworkEntry) : Bool :=
  decide (requested.length ≤ containerMaxNetworks) && chosenDistinct requested &&
    requested.all fun entry =>
      (h.net.networkFind entry.network.str).isSome && entry.ip.all fun ip =>
          h.networkIpAvailable entry.network.str ip = .ok

/-- The attachment at that position, as `plan_networks` and the loop behind it make it. -/
def Host.attachment (h : Host) (entry : NetworkEntry) (position : Nat) :
    Option Attachment :=
  let address :=
    match entry.ip with
    | some ip => some ip
    | none =>
      match h.networkAllocIp entry.network.str with
      | .ok ip => some ip
      | .error _ => none
  address.map fun ip =>
    ⟨entry.network, ip, false, interfaceName entry.ifname position⟩

def Host.planNetworks (h : Host) (requested : List NetworkEntry) : Option (List Attachment) :=
  requested.zipIdx.mapM fun (entry, position) => h.attachment entry position

/-- `create_container_from_body` and `registry_create`, with whether the other
checks pass and the container could be cloned. -/
def Host.createContainer (h : Host) (name : BoundedStr 64)
    (requested : List NetworkEntry) (admits cloned : Bool) : Host :=
  if h.networksPass requested = false ∨ admits = false ∨ (h.registryFind name.str).isSome then h
  else
    match h.planNetworks requested with
    | none => h
    | some nets =>
      match h.entries.firstFree with
      | none => h
      | some slot =>
        if cloned then
          { h with
            entries := h.entries.put slot (some ⟨name, true, nets⟩) }
        else h

/-- `registry_network_attach` on the entry. -/
def registryNetworkAttach (e : Entry) (attachment : Attachment) :
    Option Entry :=
  if e.nets.length ≥ containerMaxNetworks ∨
      e.nets.any fun a => a.network = attachment.network then none
  else some { e with nets := e.nets ++ [attachment] }

/-- `handle_container_network_attach`, with whether the kernel attached the
interface. -/
def Host.networkAttach (h : Host) (container : CStr) (entry : NetworkEntry)
    (attached : Bool) : Host :=
  match h.registryFind container with
  | none => h
  | some (slot, e) =>
    if e.running = false ∨ entry.bridge.str.length ≠ 0 ∨
        (h.net.networkFind entry.network.str).isNone ∨
        (e.nets.any fun a => a.network = entry.network) ∨
        e.nets.length ≥ containerMaxNetworks then h
    else if (entry.ip.any fun ip =>
        h.networkIpAvailable entry.network.str ip ≠ .ok) then h
    else
      match h.attachment entry e.nets.length with
      | none => h
      | some planned =>
        if (e.nets.any fun a => a.ifname = planned.ifname) ∨ attached = false then h
        else
          match registryNetworkAttach e { planned with live := true } with
          | none => h
          | some changed => { h with entries := h.entries.put slot (some changed) }

/-- `handle_container_network_detach`: the first attachment to the network,
when it is a live one. -/
def Host.networkDetach (h : Host) (container network : CStr) : Host :=
  match h.registryFind container with
  | none => h
  | some (slot, e) =>
    if e.running = false then h
    else
      match e.nets.findIdx? fun a => a.network.str = network with
      | none => h
      | some index =>
        if (e.nets[index]?.any fun a => a.live) = false then h
        else
          { h with
            entries := h.entries.put slot (some
              { e with nets := e.nets.eraseIdx index }) }

def Host.markExited (h : Host) (container : CStr) : Host :=
  match h.registryFind container with
  | none => h
  | some (slot, e) =>
    { h with
      entries := h.entries.put slot (some { e with running := false }) }

/-- `registry_remove`, which refuses a container that runs. -/
def Host.registryRemove (h : Host) (container : CStr) : Host :=
  match h.registryFind container with
  | none => h
  | some (slot, e) =>
    if e.running then h
    else { h with entries := h.entries.put slot none }

inductive HostEvent where
  | network (event : Event)
  | create (name : BoundedStr 64) (requested : List NetworkEntry)
      (admits cloned : Bool)
  | attach (container : CStr) (entry : NetworkEntry) (attached : Bool)
  | detach (container network : CStr)
  | exited (container : CStr)
  | remove (container : CStr)

/-- The event with the answer of the registry to `network_delete`. -/
def Host.answered (h : Host) : Event → Event
  | .delete name _ opened linkDeleted written =>
    .delete name (h.registryNetworkInUse name) opened linkDeleted written
  | event => event

def Host.step (h : Host) : HostEvent → Host
  | .network event =>
    { net := Net.step h.net (h.answered event)
      entries := if event.isInit then Slots.empty _ else h.entries }
  | .create name requested admits cloned =>
    h.createContainer name requested admits cloned
  | .attach container entry attached => h.networkAttach container entry attached
  | .detach container network => h.networkDetach container network
  | .exited container => h.markExited container
  | .remove container => h.registryRemove container

end Cix.Net
