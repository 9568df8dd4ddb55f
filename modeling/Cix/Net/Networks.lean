import Cix.Json.Parser
import Cix.Json.Writer
import Cix.Lib.Subnet
import Cix.Pkg.Entries

/-!
# The table of networks

`daemon/src/network.c`: the networks in their slots, the file they are saved
to, and the requests that change them.  Addresses are in host byte order.  The
answers of the kernel, of the device table and of the registry of containers,
and whether a write of the file succeeds, come with each request.
-/

namespace Cix.Net

open Cix.Lib Cix.Json

abbrev Address := BitVec 32

def octet (digits : List UInt8) : Option Nat :=
  if digits ≠ [] ∧ digits.all isDigit ∧ (digits.length = 1 ∨ digits.head? ≠ some 48) ∧
      digitsValue digits ≤ 255 then
    some (digitsValue digits)
  else none

/-- `inet_pton` for `AF_INET`. -/
def inetPton (text : CStr) : Option Address :=
  match text.bytes.splitOn 46 with
  | [a, b, c, d] =>
    match octet a, octet b, octet c, octet d with
    | some a, some b, some c, some d =>
      some (BitVec.ofNat 32 (((a * 256 + b) * 256 + c) * 256 + d))
    | _, _, _, _ => none
  | _ => none

def octets (a : Address) : List Nat :=
  [a.toNat / 2 ^ 24, a.toNat / 2 ^ 16 % 256, a.toNat / 2 ^ 8 % 256, a.toNat % 256]

/-- `inet_ntop` for `AF_INET`. -/
def inetNtop (a : Address) : CStr :=
  CStr.ofBytes ([46].intercalate ((octets a).map natText))

def maskForPrefix (prefixLen : Int) : Address :=
  if prefixLen ≤ 0 then 0 else Subnet.mask 32 prefixLen.toNat

def hostMaxForPrefix (prefixLen : Int) : Int :=
  2 ^ (32 - prefixLen).toNat - 2

def rangesOverlap (a : Address) (aPrefix : Int) (b : Address) (bPrefix : Int) : Bool :=
  let common := if aPrefix < bPrefix then aPrefix else bPrefix
  a &&& maskForPrefix common = b &&& maskForPrefix common

structure Interface where
  ifname : BoundedStr 16
  vlanId : Int32

structure NetworkDef where
  name : BoundedStr 16
  base : Address
  prefixLen : Int
  hasAddress : Bool
  address : Address
  interfaces : List Interface
  (allocStartHost allocEndHost : Int)

def NetworkDef.contains (net : NetworkDef) (address : Address) : Bool :=
  address &&& maskForPrefix net.prefixLen = net.base

inductive NetworkError where
  | ok
  | invalidName
  | duplicate
  | invalidSubnet
  | invalidAddress
  | overlap
  | full
  | createFailed
  | notFound
  | isManagement
  | inUse
  | deleteFailed
  | interfaceFull
  | interfaceAttached
  | interfaceNameTooLong
  | interfaceNotFound
  | interfaceNotAttached
  deriving DecidableEq, Repr

def networkMax : Nat := 64

def networkMaxInterfaces : Nat := 8

/-- The globals of `network.c`, the state file, and whether the daemon is
up. -/
structure State where
  nets : Slots NetworkDef networkMax
  file : Option (List UInt8)
  /-- `g_mgmt_address_be`, as far as `g_have_mgmt`. -/
  mgmt : Option Address
  /-- `g_legacy_mgmt_address_be`, as far as `g_have_legacy_mgmt`. -/
  legacyMgmt : Option Address
  up : Bool

def State.fresh : State :=
  ⟨Slots.empty networkMax, none, none, none, false⟩

def key (name : String) : Writer → Writer :=
  jwKey (CStr.ofString name)

/-- One element of `interfaces`. -/
def writeInterface (ifc : Interface) (w : Writer) : Writer :=
  let w := jwObjOpen w
  let w := jwStr ifc.ifname.str (key "ifname" w)
  let w := jwInt ifc.vlanId.toInt (key "vlan_id" w)
  jwObjClose w

def writeBound (host : Int) (w : Writer) : Writer :=
  if host > 0 then jwInt host w else jwNull w

/-- The value of `address`. -/
def writeAddress (net : NetworkDef) (w : Writer) : Writer :=
  if net.hasAddress then jwStr (inetNtop net.address) w else jwNull w

/-- `write_one` with `for_api` zero. -/
def writeOne (net : NetworkDef) (w : Writer) : Writer :=
  let w := jwObjOpen w
  let w := jwStr net.name.str (key "name" w)
  let w := jwStr (inetNtop net.base) (key "subnet" w)
  let w := jwInt net.prefixLen (key "prefix_len" w)
  let w := jwBool net.hasAddress (key "has_address" w)
  let w := writeBound net.allocStartHost (key "alloc_start_host" w)
  let w := writeBound net.allocEndHost (key "alloc_end_host" w)
  let w := writeAddress net (key "address" w)
  let w := jwArrOpen (key "interfaces" w)
  let w := net.interfaces.foldl (fun w ifc => writeInterface ifc w) w
  let w := jwArrClose w
  jwObjClose w

/-- What `write_list` leaves in the buffer of `save_state`. -/
def listText (nets : List NetworkDef) : List UInt8 :=
  (jwArrClose (nets.foldl (fun w net => writeOne net w) (jwArrOpen jwInit))).buf

def saveState (written : Bool) (s : State) : State :=
  if written then { s with file := some (listText s.nets.entries) } else s

def parseInterfaces : Option Value → Option (List Interface)
  | none => some []
  | some (.array items) =>
    if items.length > networkMaxInterfaces then none
    else items.mapM fun item =>
      match asString (objectGet (some item) "ifname"),
          objectGet (some item) "vlan_id" with
      | some ifname, some vlan =>
        if Pkg.simpleNameIsValid ifname 16 then
          some ⟨BoundedStr.store 16 pos_16 ifname, (asNumber (some vlan)).toInt⟩
        else none
      | _, _ => none
  | some _ => none

def parseBound : Option Value → Int
  | some (.number n) => n.toInt.toInt
  | _ => 0

/-- The own address: an entry without `has_address` is of the first format,
which always had the first address of the subnet. -/
def parseOwnAddress (item : Value) (base : Address) : Option (Bool × Address) :=
  match objectGet (some item) "has_address" with
  | none => some (true, base ||| 1)
  | some (.bool true) =>
    match asString (objectGet (some item) "address") with
    | none => none
    | some text => (inetPton text).map fun address => (true, address)
  | some _ => some (false, 0)

/-- `parse_persisted_entry` behind the entries that are loaded, with the
address that a management flag of an older format leaves. -/
def parsePersistedEntry (item : Value) (loaded : List NetworkDef) :
    Option (NetworkDef × Option Address) :=
  match asString (objectGet (some item) "name"),
      asString (objectGet (some item) "subnet"),
      objectGet (some item) "prefix_len" with
  | some name, some subnet, some length =>
    let prefixLen := (asNumber (some length)).toInt.toInt
    if Pkg.simpleNameIsValid name 16 = false then none
    else if prefixLen < 8 ∨ prefixLen > 30 then none
    else
      match inetPton subnet with
      | none => none
      | some base =>
        if base &&& ~~~ maskForPrefix prefixLen ≠ 0 then none
        else
          match parseOwnAddress item base with
          | none => none
          | some (hasAddress, address) =>
            if loaded.any fun other =>
                other.name.str = name || rangesOverlap base prefixLen other.base
                    other.prefixLen then none
            else
              match parseInterfaces
                  (objectGet (some item) "interfaces") with
              | none => none
              | some interfaces =>
                some (
                  { name := BoundedStr.store 16 pos_16 name
                    base := base
                    prefixLen := prefixLen
                    hasAddress := hasAddress
                    address := address
                    interfaces := interfaces
                    allocStartHost := parseBound (objectGet (some item) "alloc_start_host")
                    allocEndHost := parseBound (objectGet (some item) "alloc_end_host") },
                  match objectGet (some item) "is_management" with
                  | some (.bool true) => if hasAddress then some address else none
                  | _ => none)
  | _, _, _ => none

/-- The loop of `load_state`. -/
def loadEntries : List Value → List NetworkDef → Option Address →
    Option (List NetworkDef × Option Address)
  | [], loaded, legacy => some (loaded, legacy)
  | item :: rest, loaded, legacy =>
    match parsePersistedEntry item loaded with
    | none => none
    | some (net, flagged) => loadEntries rest (loaded ++ [net]) (flagged.or legacy)

def loadState : Option (List UInt8) → Option (List NetworkDef × Option Address)
  | none => some ([], none)
  | some text =>
    match asArray (jsonParse text) with
    | none => none
    | some items =>
      if items.length > networkMax then none
      else loadEntries items [] none

/-- `network_init` in a new process.  When it fails the daemon does not come
up. -/
def networkInit (applied : Bool) (s : State) : State :=
  match loadState s.file with
  | none => { s with nets := Slots.empty _, mgmt := none, up := false }
  | some (nets, legacy) =>
    if applied then
      { s with
        nets := Slots.ofEntries networkMax nets
        mgmt := none
        legacyMgmt := legacy
        up := true }
    else { s with nets := Slots.empty _, mgmt := none, up := false }

def State.networkFind (s : State) (name : CStr) : Option (Nat × NetworkDef) :=
  s.nets.find fun net => net.name.str = name

def State.netIsManagement (s : State) (net : NetworkDef) : Bool :=
  match s.mgmt with
  | none => false
  | some address => net.contains address

def addressStrIsValid (text : CStr) (base : Address) (prefixLen : Int) :
    Option Address :=
  match inetPton text with
  | none => none
  | some ip =>
    if ip &&& maskForPrefix prefixLen ≠ base then none
    else if (ip - base).toInt < 1 ∨ (ip - base).toInt > hostMaxForPrefix prefixLen + 1 then none
    else some ip

/-- `parse_alloc_bound`; `some 0` is a bound that is not set. -/
def parseAllocBound (text : Option CStr) (base : Address) (prefixLen : Int) : Option Int :=
  match text with
  | none => some 0
  | some text =>
    if text.length = 0 then some 0
    else
      match inetPton text with
      | none => none
      | some a =>
        if a &&& maskForPrefix prefixLen ≠ base then none
        else if (a - base).toNat < 1 ∨ (a - base).toInt > hostMaxForPrefix prefixLen then none
        else some (a - base).toInt

/-- The arguments of `network_create`. -/
structure CreateRequest where
  (name subnet : CStr)
  prefixLen : Int
  (address allocStart allocEnd : Option CStr)

/-- The answers of the kernel to `network_create`. -/
structure CreateReplies where
  (opened bridgeCreated addressAdded linkUp : Bool)

/-- The own address of a request: `none` is an invalid one. -/
def requestedAddress (request : CreateRequest) (base : Address) : Option (Bool × Address) :=
  match request.address with
  | none => some (false, 0)
  | some text =>
    if text.length = 0 then some (false, 0)
    else (addressStrIsValid text base request.prefixLen).map fun address => (true, address)

/-- The window of a request: `none` is an invalid one. -/
def requestedWindow (request : CreateRequest) (base : Address) : Option (Int × Int) :=
  match parseAllocBound request.allocStart base request.prefixLen,
      parseAllocBound request.allocEnd base request.prefixLen with
  | some first, some last =>
    if first ≠ 0 ∧ last ≠ 0 ∧ last < first then none
    else some (first, last)
  | _, _ => none

def networkCreate (request : CreateRequest) (kernel : CreateReplies)
    (written : Bool) (s : State) : State × NetworkError :=
  if Pkg.simpleNameIsValid request.name 16 = false then (s, .invalidName)
  else if (s.networkFind request.name).isSome then (s, .duplicate)
  else if request.prefixLen < 8 ∨ request.prefixLen > 30 then
    (s, .invalidSubnet)
  else
    match inetPton request.subnet with
    | none => (s, .invalidSubnet)
    | some base =>
      if base &&& ~~~ maskForPrefix request.prefixLen ≠ 0 then
        (s, .invalidSubnet)
      else
        match requestedAddress request base with
        | none => (s, .invalidAddress)
        | some (hasAddress, address) =>
          if (s.nets.find fun other =>
              rangesOverlap base request.prefixLen other.base other.prefixLen).isSome then
            (s, .overlap)
          else
            match s.nets.firstFree with
            | none => (s, .full)
            | some slot =>
              match requestedWindow request base with
              | none => (s, .invalidAddress)
              | some (first, last) =>
                let net : NetworkDef :=
                  { name := BoundedStr.store 16 pos_16
                      request.name
                    base := base
                    prefixLen := request.prefixLen
                    hasAddress := hasAddress
                    address := address
                    interfaces := []
                    allocStartHost := first
                    allocEndHost := last }
                if ¬ kernel.opened ∨ ¬ kernel.bridgeCreated ∨ (hasAddress ∧ ¬ kernel.addressAdded) ∨
                    ¬ kernel.linkUp then
                  (s, .createFailed)
                else
                  let made := { s with nets := s.nets.put slot (some net) }
                  if written then (saveState true made, .ok)
                  -- a network that cannot be saved is taken back: `in_use` is 0 again
                  else ({ made with nets := made.nets.put slot none }, .createFailed)

def networkDelete (name : CStr) (inUse opened linkDeleted written : Bool)
    (s : State) : State × NetworkError :=
  match s.networkFind name with
  | none => (s, .notFound)
  | some (slot, net) =>
    if s.netIsManagement net then (s, .isManagement)
    else if inUse then (s, .inUse)
    else if ¬ opened ∨ ¬ linkDeleted then (s, .deleteFailed)
    else
      (saveState written { s with nets := s.nets.put slot none },
        if written then .ok else .deleteFailed)

/-- The length of `"<ifname>.<vlan_id>"`. -/
def derivedLength (ifname : CStr) (vlanId : Int32) : Nat :=
  ifname.length + 1 + (intText vlanId.toInt).length

/-- `network_attach_interface`, with whether the device table has a free
device of that name and whether the kernel applied the change. -/
def networkAttachInterface (name ifname : CStr) (vlanId : Int32)
    (deviceFree applied written : Bool) (s : State) :
    State × NetworkError :=
  match s.networkFind name with
  | none => (s, .notFound)
  | some (slot, net) =>
    if net.interfaces.length ≥ networkMaxInterfaces then
      (s, .interfaceFull)
    else if net.interfaces.any fun ifc => ifc.ifname.str = ifname then
      (s, .interfaceAttached)
    else if vlanId ≠ 0 ∧ derivedLength ifname vlanId ≥ 16 then
      (s, .interfaceNameTooLong)
    else if ¬ deviceFree then (s, .interfaceNotFound)
    else if ¬ applied then (s, .createFailed)
    else
      let attached : Interface := ⟨BoundedStr.store 16 pos_16 ifname, vlanId⟩
      let grown := { net with interfaces := net.interfaces ++ [attached] }
      let made := { s with nets := s.nets.put slot (some grown) }
      if written then (saveState true made, .ok)
      -- `interface_count--`
      else
        ({ made with
            nets := made.nets.put slot (some
              { grown with interfaces := grown.interfaces.dropLast }) },
          .createFailed)

theorem created_taken_back {s : State} {slot : Nat} (free : s.nets.firstFree = some slot)
    (net : NetworkDef) :
    { s with nets := (s.nets.put slot (some net)).put slot none } = s := by
  rw [Slots.put_put, Slots.put_none (Slots.get_firstFree free).2]

theorem attached_taken_back {s : State} {name : CStr} {slot : Nat} {net : NetworkDef}
    (found : s.networkFind name = some (slot, net)) (attached : Interface) :
    { s with
      nets := (s.nets.put slot (some { net with interfaces := net.interfaces ++ [attached] })).put
        slot (some { net with interfaces := (net.interfaces ++ [attached]).dropLast }) } = s := by
  rw [Slots.put_put, List.dropLast_concat, Slots.put_get (Slots.get_of_find found).1]

theorem networkAttachInterface_cases (name ifname : CStr) (vlanId : Int32)
    (deviceFree applied written : Bool) (s : State) :
    (∃ error, networkAttachInterface name ifname vlanId deviceFree applied written s =
        (s, error)) ∨
      ∃ slot net attached, s.networkFind name = some (slot, net) ∧
        networkAttachInterface name ifname vlanId deviceFree applied written s =
          (saveState true
            { s with
              nets := s.nets.put slot (some
                { net with interfaces := net.interfaces ++ [attached] }) },
            .ok) := by
  unfold networkAttachInterface
  split
  next => exact Or.inl ⟨_, rfl⟩
  next slot net found =>
    dsimp only
    split_ifs
    any_goals exact Or.inl ⟨_, rfl⟩
    · exact Or.inr ⟨slot, net, _, found, rfl⟩
    · exact Or.inl ⟨_, congrArg (·, _) (attached_taken_back found _)⟩

def networkDetachInterface (name ifname : CStr) (released written : Bool)
    (s : State) : State × NetworkError :=
  match s.networkFind name with
  | none => (s, .notFound)
  | some (slot, net) =>
    if s.netIsManagement net then (s, .isManagement)
    else
      match net.interfaces.findIdx? fun ifc => ifc.ifname.str = ifname with
      | none => (s, .interfaceNotAttached)
      | some index =>
        if ¬ released then (s, .deleteFailed)
        else
          (saveState written
            { s with
              nets := s.nets.put slot (some
                { net with
                  interfaces := net.interfaces.eraseIdx index }) },
            if written then .ok else .deleteFailed)

/-- A bound of `network_set_alloc_window`: an absent text leaves the current
one and an empty text clears it. -/
def updatedBound (text : Option CStr) (current : Int) (base : Address)
    (prefixLen : Int) : Option Int :=
  match text with
  | none => some current
  | some text =>
    if text.length = 0 then some 0
    else parseAllocBound (some text) base prefixLen

/-- `network_set_alloc_window`.  The change stays in memory when the file
cannot be written. -/
def networkSetAllocWindow (name : CStr) (allocStart allocEnd : Option CStr)
    (written : Bool) (s : State) : State × NetworkError :=
  match s.networkFind name with
  | none => (s, .notFound)
  | some (slot, net) =>
    match updatedBound allocStart net.allocStartHost net.base
          net.prefixLen,
        updatedBound allocEnd net.allocEndHost net.base net.prefixLen with
    | some first, some last =>
      if first ≠ 0 ∧ last ≠ 0 ∧ last < first then (s, .invalidAddress)
      else
        (saveState written
          { s with
            nets := s.nets.put slot (some
              { net with
                allocStartHost := first
                allocEndHost := last }) },
          if written then .ok else .createFailed)
    | _, _ => (s, .invalidAddress)

def State.networkFindContaining (s : State) (address : Address) : Option (Nat × NetworkDef) :=
  s.nets.find fun net => net.contains address

def networkSetManagementAddress (text : Option CStr) (s : State) : State × NetworkError :=
  match text with
  | none => ({ s with mgmt := none }, .ok)
  | some text =>
    if text.length = 0 then ({ s with mgmt := none }, .ok)
    else
      match inetPton text with
      | none => (s, .invalidAddress)
      | some address =>
        if (s.networkFindContaining address).isNone then (s, .notFound)
        else ({ s with mgmt := some address }, .ok)

inductive Event where
  | init (applied : Bool)
  | create (request : CreateRequest) (kernel : CreateReplies)
      (written : Bool)
  | delete (name : CStr) (inUse opened linkDeleted written : Bool)
  | attach (name ifname : CStr) (vlanId : Int32)
      (deviceFree applied written : Bool)
  | detach (name ifname : CStr) (released written : Bool)
  | setAllocWindow (name : CStr) (allocStart allocEnd : Option CStr)
      (written : Bool)
  | setManagementAddress (text : Option CStr)

def Event.isInit : Event → Bool
  | .init _ => true
  | _ => false

def serve (s : State) : Event → State
  | .init applied => networkInit applied s
  | .create request kernel written => (networkCreate request kernel written s).1
  | .delete name inUse opened linkDeleted written =>
    (networkDelete name inUse opened linkDeleted written s).1
  | .attach name ifname vlanId deviceFree applied written =>
    (networkAttachInterface name ifname vlanId deviceFree applied written s).1
  | .detach name ifname released written =>
    (networkDetachInterface name ifname released written s).1
  | .setAllocWindow name allocStart allocEnd written =>
    (networkSetAllocWindow name allocStart allocEnd written s).1
  | .setManagementAddress text => (networkSetManagementAddress text s).1

def step (s : State) (event : Event) : State :=
  if s.up || event.isInit then serve s event else s

end Cix.Net
