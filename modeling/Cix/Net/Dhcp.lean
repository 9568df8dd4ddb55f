import Cix.Net.Attachments

/-!
# DHCP

The tables of `daemon/src/dhcp.c`: the servers, the ranges of the networks and
the static leases, with their state file, and the requests of `main.c` that
change them.  A free slot is one whose name is empty.  Addresses are in host
order, as everywhere in this model.
-/

namespace Cix.Net.Dhcp

open Cix.Lib Cix.Json

structure Label where
  text : BoundedStr 64
  named : text.str.length ≠ 0
  deriving DecidableEq, Repr

theorem truncate_length_ne {s : CStr} (given : s.length ≠ 0) :
    (BoundedStr.store 64 pos_64 s).str.length ≠ 0 := by
  simp only [BoundedStr.store, CStr.length, CStr.truncate, List.length_take] at given ⊢
  omega

def Label.read (name : Option CStr) : Option Label :=
  match name with
  | none => none
  | some s =>
    if given : s.length ≠ 0 then some ⟨_, truncate_length_ne given⟩
    else none

def dhcpMaxNetworks : Nat := 32

def dhcpMaxServers : Nat := 16

def dhcpMaxRangeServers : Nat := 8

def dhcpMaxStatic : Nat := 128

def dhcpDefaultLeaseSeconds : Int32 := 3600

structure DhcpNetwork where
  network : Label
  enabled : Bool
  (rangeStart rangeEnd : Address)
  leaseSeconds : Int32
  router : Address
  servers : List Label
  atMost : servers.length ≤ dhcpMaxRangeServers

structure DhcpStatic where
  mac : BoundedStr 18
  ip : Address
  hostname : BoundedStr 64

inductive DhcpError where
  | ok
  | invalid
  | notFound
  | duplicate
  | full
  | persistFailed
  deriving DecidableEq, Repr

/-- The globals of `dhcp.c` and the state file. -/
structure Tables where
  servers : Slots Label dhcpMaxServers
  networks : Slots DhcpNetwork dhcpMaxNetworks
  statics : Slots DhcpStatic dhcpMaxStatic
  file : Option (List UInt8)

def Tables.fresh : Tables :=
  ⟨Slots.empty _, Slots.empty _, Slots.empty _, none⟩

def macIsValid (mac : CStr) : Bool :=
  mac.length = 17 && mac.bytes.zipIdx.all fun (c, i) =>
      if i % 3 = 2 then c = 58
      else (48 ≤ c && c ≤ 57) || (97 ≤ c && c ≤ 102)

def hostnameIsValid (name : CStr) : Bool :=
  name.length ≠ 0 && name.length < 64 &&
    name.bytes.head? ≠ some 45 && name.bytes.getLast? ≠ some 45 &&
    name.bytes.all fun c =>
      (97 ≤ c && c ≤ 122) || (48 ≤ c && c ≤ 57) || c = 45

def writeIp (address : Address) (w : Writer) : Writer :=
  if address ≠ 0 then jwStr (inetNtop address) w else jwNull w

/-- `dhcp_network_write_json` without the slices. -/
def dhcpNetworkWriteJson (cfg : DhcpNetwork) (w : Writer) : Writer :=
  let w := jwObjOpen w
  let w := jwStr cfg.network.text.str (key "network" w)
  let w := jwBool cfg.enabled (key "enabled" w)
  let w := writeIp cfg.rangeStart (key "range_start" w)
  let w := writeIp cfg.rangeEnd (key "range_end" w)
  let w := jwInt cfg.leaseSeconds.toInt (key "lease_seconds" w)
  let w := jwArrOpen (key "servers" w)
  let w := cfg.servers.foldl (fun w name => jwStr name.text.str w) w
  let w := jwArrClose w
  let w := writeIp cfg.router (key "router" w)
  jwObjClose w

/-- One element of `static`. -/
def writeStatic (entry : DhcpStatic) (w : Writer) : Writer :=
  let w := jwObjOpen w
  let w := jwStr entry.mac.str (key "mac" w)
  let w := jwStr (inetNtop entry.ip) (key "ip" w)
  let w := jwStr entry.hostname.str (key "hostname" w)
  jwObjClose w

def stateText (servers : List Label) (networks : List DhcpNetwork)
    (statics : List DhcpStatic) : List UInt8 :=
  let w := jwObjOpen jwInit
  let w := jwArrOpen (key "servers" w)
  let w := servers.foldl (fun w name => jwStr name.text.str w) w
  let w := jwArrOpen (key "networks" (jwArrClose w))
  let w := networks.foldl (fun w cfg => dhcpNetworkWriteJson cfg w) w
  let w := jwArrOpen (key "static" (jwArrClose w))
  let w := statics.foldl (fun w entry => writeStatic entry w) w
  (jwObjClose (jwArrClose w)).buf

def bufferSize : Nat := 16384

/-- `save_state`, with whether the write succeeds. -/
def saveState (written : Bool) (t : Tables) : Tables × DhcpError :=
  let text := stateText t.servers.entries t.networks.entries t.statics.entries
  if text.length ≥ bufferSize ∨ written = false then (t, .persistFailed)
  else ({ t with file := some text }, .ok)

def parseIp (text : Option CStr) : Address :=
  match text with
  | none => 0
  | some text => (inetPton text).getD 0

def readEntries {α : Type} (room : Nat) (read : Value → Option α) : Option Value → List α
  | some (.array items) => (items.filterMap read).take room
  | _ => []

theorem readEntries_length {α : Type} (room : Nat) (read : Value → Option α)
    (value : Option Value) : (readEntries room read value).length ≤ room := by
  unfold readEntries
  split
  · exact List.length_take_le _ _
  · exact Nat.zero_le _

def readLabel (item : Value) : Option Label :=
  Label.read (asString (some item))

def isTrue : Option Value → Bool
  | some (.bool b) => b
  | _ => false

/-- One element of `networks`, when it has a name. -/
def readNetwork (item : Value) : Option DhcpNetwork :=
  (Label.read (asString (objectGet (some item) "network"))).map fun network =>
    { network := network
      enabled := isTrue (objectGet (some item) "enabled")
      rangeStart := parseIp (asString (objectGet (some item) "range_start"))
      rangeEnd := parseIp (asString (objectGet (some item) "range_end"))
      leaseSeconds := (asNumber (objectGet (some item) "lease_seconds")).toInt
      router := parseIp (asString (objectGet (some item) "router"))
      servers := readEntries dhcpMaxRangeServers readLabel (objectGet (some item) "servers")
      atMost := readEntries_length _ _ _ }

/-- One element of `static`, when its MAC is valid. -/
def readStatic (item : Value) : Option DhcpStatic :=
  match asString (objectGet (some item) "mac") with
  | none => none
  | some mac =>
    if macIsValid mac then
      some
        { mac := BoundedStr.store 18 (by decide) mac
          ip := parseIp (asString (objectGet (some item) "ip"))
          hostname := BoundedStr.store 64 pos_64
            ((asString (objectGet (some item) "hostname")).getD CStr.empty) }
    else none

/-- `dhcp_init` in a new process, with whether the file can be read. -/
def dhcpInit (readable : Bool) (t : Tables) : Tables :=
  let root := if readable then t.file.bind jsonParse else none
  { t with
    servers := Slots.ofEntries _ (readEntries dhcpMaxServers readLabel (objectGet root "servers"))
    networks := Slots.ofEntries _
      (readEntries dhcpMaxNetworks readNetwork (objectGet root "networks"))
    statics := Slots.ofEntries _ (readEntries dhcpMaxStatic readStatic (objectGet root "static")) }

def Tables.dhcpServerIsRegistered (t : Tables) (container : CStr) : Bool :=
  t.servers.entries.any fun name => name.text.str = container

def dhcpServerRegister (container : CStr) (written : Bool) (t : Tables) : Tables × DhcpError :=
  match Label.read (some container) with
  | none => (t, .invalid)
  | some name =>
    if t.dhcpServerIsRegistered container then (t, .duplicate)
    else
      match t.servers.firstFree with
      | none => (t, .full)
      | some slot =>
        saveState written
          { t with servers := t.servers.put slot (some name) }

theorem length_eraseP_le {container : CStr} {servers : List Label}
    (atMost : servers.length ≤ dhcpMaxRangeServers) :
    (servers.eraseP fun name => name.text.str = container).length ≤
      dhcpMaxRangeServers :=
  Nat.le_trans (List.eraseP_sublist).length_le atMost

/-- A range after `dhcp_server_unregister`: with the last server it is off. -/
def DhcpNetwork.without (container : CStr) (cfg : DhcpNetwork) :
    DhcpNetwork :=
  if cfg.servers.any fun name => name.text.str = container then
    { cfg with
      servers := cfg.servers.eraseP fun name => name.text.str = container
      atMost := length_eraseP_le cfg.atMost
      enabled := cfg.enabled &&
        (cfg.servers.eraseP fun name => name.text.str = container).length ≠ 0 }
  else cfg

def dhcpServerUnregister (container : CStr) (written : Bool) (t : Tables) : Tables × DhcpError :=
  if t.dhcpServerIsRegistered container = false then (t, .notFound)
  else
    saveState written
      { t with
        servers := t.servers.keep fun name => name.text.str ≠ container
        networks := t.networks.adjust fun _ cfg => cfg.without container }

def dhcpServerForget (container : CStr) (written : Bool) (t : Tables) :
    Tables :=
  if t.dhcpServerIsRegistered container then
    (dhcpServerUnregister container written t).1
  else t

def Tables.netFind (t : Tables) (network : CStr) : Option (Nat × DhcpNetwork) :=
  t.networks.find fun cfg => cfg.network.text.str = network

/-- The checks of `dhcp_network_set` on a range that is enabled. -/
def DhcpNetwork.rangeIsValid (cfg : DhcpNetwork) : Bool :=
  cfg.rangeStart ≠ 0 && cfg.rangeEnd ≠ 0 && !decide (cfg.rangeStart > cfg.rangeEnd) &&
    !(cfg.leaseSeconds < 60 || cfg.leaseSeconds > 30 * 24 * 3600) &&
    !decide (cfg.servers.length < 1)

def dhcpNetworkSet (cfg : DhcpNetwork) (written : Bool) (t : Tables) : Tables × DhcpError :=
  if cfg.enabled ∧ cfg.rangeIsValid = false then (t, .invalid)
  else
    let slot :=
      match t.netFind cfg.network.text.str with
      | some (slot, _) => some slot
      | none => t.networks.firstFree
    match slot with
    | none => (t, .full)
    | some slot =>
      saveState written
        { t with networks := t.networks.put slot (some cfg) }

def dhcpNetworkDelete (network : CStr) (written : Bool) (t : Tables) : Tables × DhcpError :=
  match t.netFind network with
  | none => (t, .notFound)
  | some (slot, _) => saveState written { t with networks := t.networks.put slot none }

def dhcpForgetNetwork (network : CStr) (written : Bool) (t : Tables) :
    Tables :=
  (dhcpNetworkDelete network written t).1

def dhcpIpInSubnet (net : NetworkDef) (ip : Address) : Bool :=
  ip &&& maskForPrefix net.prefixLen = net.base &&& maskForPrefix net.prefixLen

def dhcpIpInRange (ip first last : Address) : Bool :=
  ip ≥ first && ip ≤ last

def givenIp (root : Value) (name : String) (current : Address) : Address :=
  match asString (objectGet (some root) name) with
  | none => current
  | some text => (inetPton text).getD current

/-- The range that `handle_network_dhcp_put` starts from. -/
def Tables.existing (t : Tables) (network : Label) : DhcpNetwork :=
  match t.netFind network.text.str with
  | some (_, cfg) => { cfg with network := network }
  | none =>
    { network := network
      enabled := false
      rangeStart := 0
      rangeEnd := 0
      leaseSeconds := dhcpDefaultLeaseSeconds
      router := 0
      servers := []
      atMost := Nat.zero_le _ }

def DhcpNetwork.updated (cfg : DhcpNetwork) (root : Value) : DhcpNetwork :=
  let mem := fun name => objectGet (some root) name
  let cfg :=
    { cfg with
      enabled := match mem "enabled" with
        | some (.bool b) => b
        | _ => cfg.enabled
      rangeStart := givenIp root "range_start" cfg.rangeStart
      rangeEnd := givenIp root "range_end" cfg.rangeEnd
      -- an emptied field is no router
      router := match asString (mem "router") with
        | none => cfg.router
        | some text => if text.length = 0 then 0 else (inetPton text).getD cfg.router
      leaseSeconds := match mem "lease_seconds" with
        | none => cfg.leaseSeconds
        | some value => (asNumber (some value)).toInt }
  match mem "servers" with
  | some (.array items) =>
    { cfg with
      servers := readEntries dhcpMaxRangeServers readLabel (some (.array items))
      atMost := readEntries_length _ _ _ }
  | _ => cfg

inductive PutAnswer where
  | noSuchNetwork
  | invalidBody
  | outsideSubnet
  | coversOwnAddress
  | noServer
  | notRegistered (server : Label)
  | notAttached (server : Label)
  | tooFewAddresses (addresses : Address) (servers : Nat)
  | stored (answer : DhcpError)
  deriving DecidableEq, Repr

def onNetwork (h : Host) (network : CStr) (server : Label) : Bool :=
  match h.registryFind server.text.str with
  | none => false
  | some (_, e) => e.nets.any fun a => a.network.str = network

def Tables.checkServers (t : Tables) (h : Host) (network : CStr) : List Label → Option PutAnswer
  | [] => none
  | server :: rest =>
    if t.dhcpServerIsRegistered server.text.str = false then
      some (.notRegistered server)
    else if onNetwork h network server = false then
      some (.notAttached server)
    else t.checkServers h network rest

/-- The checks of `handle_network_dhcp_put` on a range that is enabled. -/
def Tables.checkRange (t : Tables) (h : Host) (net : NetworkDef)
    (network : CStr) (cfg : DhcpNetwork) : Option PutAnswer :=
  if dhcpIpInSubnet net cfg.rangeStart = false ∨
      dhcpIpInSubnet net cfg.rangeEnd = false then some .outsideSubnet
  else if net.hasAddress ∧ dhcpIpInRange net.address cfg.rangeStart cfg.rangeEnd then
    some .coversOwnAddress
  else if cfg.servers.length = 0 then some .noServer
  else
    match t.checkServers h network cfg.servers with
    | some refusal => some refusal
    | none =>
      if cfg.rangeEnd - cfg.rangeStart + 1 < BitVec.ofNat 32 cfg.servers.length then
        some (.tooFewAddresses (cfg.rangeEnd - cfg.rangeStart + 1) cfg.servers.length)
      else none

/-- `handle_network_dhcp_put`, with the networks and the containers there
are. -/
def handleNetworkDhcpPut (h : Host) (network : CStr) (body : List UInt8)
    (written : Bool) (t : Tables) : Tables × PutAnswer :=
  match h.net.networkFind network with
  | none => (t, .noSuchNetwork)
  | some (_, net) =>
    match jsonParse body with
    | none => (t, .invalidBody)
    | some root =>
      match Label.read (some network) with
      | none => (t, .stored .invalid)
      | some label =>
        let cfg := (t.existing label).updated root
        match if cfg.enabled then t.checkRange h net network cfg
            else none with
        | some refusal => (t, refusal)
        | none =>
          let (after, answer) := dhcpNetworkSet cfg written t
          (after, .stored answer)

def Tables.staticFind (t : Tables) (mac : CStr) : Option (Nat × DhcpStatic) :=
  t.statics.find fun entry => entry.mac.str = mac

def dhcpStaticAdd (entry : DhcpStatic) (written : Bool) (t : Tables) : Tables × DhcpError :=
  if macIsValid entry.mac.str = false ∨ entry.ip = 0 then (t, .invalid)
  else if entry.hostname.str.length ≠ 0 ∧
      hostnameIsValid entry.hostname.str = false then (t, .invalid)
  else if (t.staticFind entry.mac.str).isSome then (t, .duplicate)
  else if t.statics.entries.any fun other => other.ip = entry.ip then
    (t, .duplicate)
  else
    match t.statics.firstFree with
    | none => (t, .full)
    | some slot =>
      saveState written { t with statics := t.statics.put slot (some entry) }

def dhcpStaticDelete (mac : CStr) (written : Bool) (t : Tables) : Tables × DhcpError :=
  match t.staticFind mac with
  | none => (t, .notFound)
  | some (slot, _) => saveState written { t with statics := t.statics.put slot none }

inductive DhcpEvent where
  | init (readable : Bool)
  | put (h : Host) (network : CStr) (body : List UInt8) (written : Bool)
  | networkDelete (network : CStr) (written : Bool)
  | forgetNetwork (network : CStr) (written : Bool)
  | register (h : Host) (container : CStr) (written : Bool)
  | unregister (container : CStr) (written : Bool)
  | forgetServer (container : CStr) (written : Bool)
  | staticAdd (entry : DhcpStatic) (written : Bool)
  | staticDelete (mac : CStr) (written : Bool)

def Tables.step (t : Tables) : DhcpEvent → Tables
  | .init readable => dhcpInit readable t
  | .put h network body written => (handleNetworkDhcpPut h network body written t).1
  | .networkDelete network written => (dhcpNetworkDelete network written t).1
  | .forgetNetwork network written => dhcpForgetNetwork network written t
  -- `handle_dhcp_server_register` takes only a container there is
  | .register h container written =>
    if (h.registryFind container).isNone then t
    else (dhcpServerRegister container written t).1
  | .unregister container written => (dhcpServerUnregister container written t).1
  | .forgetServer container written => dhcpServerForget container written t
  | .staticAdd entry written => (dhcpStaticAdd entry written t).1
  | .staticDelete mac written => (dhcpStaticDelete mac written t).1

end Cix.Net.Dhcp
