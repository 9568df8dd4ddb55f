import Cix.Net.Networks

/-!
# The handover record

The record of `daemon/src/handover.c`, which a daemon writes before it executes
its successor and which the successor reads first: its structures, the writer
and the reader.  A flag is an `int` of the source that is 0 or 1.  The file is
the text that was written, and reading it fails as a whole.
-/

namespace Cix.Handover

open Cix.Lib Cix.Json
open Cix.Net (Address inetNtop inetPton key)

structure NetworkAttachment where
  name : BoundedStr 16
  ip : Address
  (vethHost ifname containerBridge : BoundedStr 16)

structure DeviceAttachment where
  id : BoundedStr 96
  devPath : BoundedStr 64
  type : Int32
  (major minor : UInt32)
  (live shared : Bool)
  ref : BoundedStr 96

structure PendingDevice where
  ref : BoundedStr 96
  shared : Bool

/-- `struct registry_interface_record`, with its element of
`interface_hosts`. -/
structure InterfaceRecord where
  granted : BoundedStr 48
  phy : BoundedStr 16
  anchor : BoundedStr 96
  description : BoundedStr 64
  (driver mac : BoundedStr 32)
  macPermanent : Bool
  ref : BoundedStr 64
  ifname : BoundedStr 16
  leftHost : Bool
  host : BoundedStr 16

structure HandoverService where
  (state pid : Int32)
  hasExit : Bool
  (exitKind exitValue restarts failReason failDetail outputFd : Int32)
  outputPartial : BoundedStr 1024

/-- The descriptors of a container: `fd_init_control` and the others. -/
structure Descriptors where
  (initControl initReport capture bpfProg : Int32)

structure HandoverContainer where
  (name image : BoundedStr 64)
  imageVersion : BoundedStr 65
  running : Bool
  pid : Int32
  startedAt : Int64
  paused : Bool
  (exitStatus termSignal : Int32)
  lastExitReason : BoundedStr 256
  usernsEnabled : Bool
  diskQuotaBytes : Int64
  (reserveDevices ipForward captureRequested : Bool)
  procfuseExpected : Int32
  (initUp ready : Bool)
  nets : List NetworkAttachment
  filePaths : List (BoundedStr 256)
  dnsServers : List (BoundedStr 16)
  devices : List DeviceAttachment
  pendingDevices : List PendingDevice
  interfaces : List InterfaceRecord
  services : List HandoverService
  fds : Descriptors
  initOutputPartial : BoundedStr 1024
  capturedOutput : BoundedStr 4096
  capturedOutputLen : Int32

structure HandoverConsole where
  tty : BoundedStr 32
  pid : Int32

structure HandoverRecord where
  format : Int32
  writtenBy : BoundedStr 64
  writtenAt : Int64
  slot : BoundedStr 8
  (bindAddr uplinkUnattached : BoundedStr 64)
  kmodscan : Option CStr
  (procfusePid procfuseLoadFd : Int32)
  consoles : List HandoverConsole
  containers : List HandoverContainer

def handoverFormat : Int32 := 1

def maxNetworks : Nat := 64

def maxFiles : Nat := 16

def maxNameservers : Nat := 3

def maxDevices : Nat := 16

def maxInterfaces : Nat := 16

def maxServices : Nat := 16

def maxConsoles : Nat := 4

def maxContainers : Nat := 256

def putStr {n : Nat} (name : String) (s : BoundedStr n) (w : Writer) :
    Writer :=
  jwStr s.str (key name w)

def putInt (name : String) (v : Int) (w : Writer) : Writer :=
  jwInt v (key name w)

def putFlag (name : String) (b : Bool) (w : Writer) : Writer :=
  jwBool b (key name w)

def putArr {α : Type} (name : String) (write : α → Writer → Writer)
    (items : List α) (w : Writer) : Writer :=
  jwArrClose (items.foldl (fun w a => write a w) (jwArrOpen (key name w)))

def putNet (n : NetworkAttachment) (w : Writer) : Writer :=
  let w := putStr "name" n.name (jwObjOpen w)
  -- `put_ip`
  let w := jwStr (inetNtop n.ip) (key "ip" w)
  let w := putStr "veth_host" n.vethHost w
  let w := putStr "ifname" n.ifname w
  let w := putStr "container_bridge" n.containerBridge w
  jwObjClose w

def putDevice (d : DeviceAttachment) (w : Writer) : Writer :=
  let w := putStr "id" d.id (jwObjOpen w)
  let w := putStr "dev_path" d.devPath w
  let w := putInt "type" d.type.toInt w
  let w := putInt "major" d.major.toNat w
  let w := putInt "minor" d.minor.toNat w
  let w := putFlag "live" d.live w
  let w := putFlag "shared" d.shared w
  let w := putStr "ref" d.ref w
  jwObjClose w

def putPending (d : PendingDevice) (w : Writer) : Writer :=
  let w := putStr "ref" d.ref (jwObjOpen w)
  let w := putFlag "shared" d.shared w
  jwObjClose w

def putInterface (r : InterfaceRecord) (w : Writer) : Writer :=
  let w := putStr "granted" r.granted (jwObjOpen w)
  let w := putStr "phy" r.phy w
  let w := putStr "anchor" r.anchor w
  let w := putStr "description" r.description w
  let w := putStr "driver" r.driver w
  let w := putStr "mac" r.mac w
  let w := putFlag "mac_permanent" r.macPermanent w
  let w := putStr "ref" r.ref w
  let w := putStr "ifname" r.ifname w
  let w := putFlag "left_host" r.leftHost w
  let w := putStr "host" r.host w
  jwObjClose w

def putService (s : HandoverService) (w : Writer) : Writer :=
  let w := putInt "state" s.state.toInt (jwObjOpen w)
  let w := putInt "pid" s.pid.toInt w
  let w := putFlag "has_exit" s.hasExit w
  let w := putInt "exit_kind" s.exitKind.toInt w
  let w := putInt "exit_value" s.exitValue.toInt w
  let w := putInt "restarts" s.restarts.toInt w
  let w := putInt "fail_reason" s.failReason.toInt w
  let w := putInt "fail_detail" s.failDetail.toInt w
  let w := putInt "output_fd" s.outputFd.toInt w
  let w := putStr "output_partial" s.outputPartial w
  jwObjClose w

def putDescriptors (fds : Descriptors) (w : Writer) : Writer :=
  let w := putInt "init_control" fds.initControl.toInt (jwObjOpen w)
  let w := putInt "init_report" fds.initReport.toInt w
  let w := putInt "capture" fds.capture.toInt w
  let w := putInt "bpf_prog" fds.bpfProg.toInt w
  jwObjClose w

def putContainer (c : HandoverContainer) (w : Writer) : Writer :=
  let w := putStr "name" c.name (jwObjOpen w)
  let w := putStr "image" c.image w
  let w := putStr "image_version" c.imageVersion w
  let w := putFlag "running" c.running w
  let w := putInt "pid" c.pid.toInt w
  let w := putInt "started_at" c.startedAt.toInt w
  let w := putFlag "paused" c.paused w
  let w := putInt "exit_status" c.exitStatus.toInt w
  let w := putInt "term_signal" c.termSignal.toInt w
  let w := putStr "last_exit_reason" c.lastExitReason w
  let w := putFlag "userns_enabled" c.usernsEnabled w
  let w := putInt "disk_quota_bytes" c.diskQuotaBytes.toInt w
  let w := putFlag "reserve_devices" c.reserveDevices w
  let w := putFlag "ip_forward" c.ipForward w
  let w := putFlag "capture_requested" c.captureRequested w
  let w := putInt "procfuse_expected" c.procfuseExpected.toInt w
  let w := putFlag "init_up" c.initUp w
  let w := putFlag "ready" c.ready w
  let w := putArr "nets" putNet c.nets w
  let w := putArr "file_paths" (fun p => jwStr p.str) c.filePaths w
  let w := putArr "dns_servers" (fun s => jwStr s.str) c.dnsServers w
  let w := putArr "devices" putDevice c.devices w
  let w := putArr "pending_devices" putPending c.pendingDevices w
  let w := putArr "interfaces" putInterface c.interfaces w
  let w := putArr "services" putService c.services w
  let w := putDescriptors c.fds (key "fds" w)
  let w := putStr "init_output_partial" c.initOutputPartial w
  let w := putStr "captured_output" c.capturedOutput w
  jwObjClose w

def putConsole (c : HandoverConsole) (w : Writer) : Writer :=
  let w := putStr "tty" c.tty (jwObjOpen w)
  let w := putInt "pid" c.pid.toInt w
  jwObjClose w

/-- The optional member `kmodscan`. -/
def putKmodscan (kmodscan : Option CStr) (w : Writer) : Writer :=
  match kmodscan with
  | none => w
  | some text => jwStr text (key "kmodscan" w)

/-- What `handover_write` writes. -/
def handoverText (rec : HandoverRecord) : List UInt8 :=
  let w := putInt "format" handoverFormat.toInt (jwObjOpen jwInit)
  let w := putStr "written_by" rec.writtenBy w
  let w := putInt "written_at" rec.writtenAt.toInt w
  let w := putStr "slot" rec.slot w
  let w := putStr "bind_addr" rec.bindAddr w
  let w := putStr "uplink_unattached" rec.uplinkUnattached w
  let w := putKmodscan rec.kmodscan w
  let w := putInt "procfuse_pid" rec.procfusePid.toInt w
  let w := putInt "procfuse_load_fd" rec.procfuseLoadFd.toInt w
  let w := putArr "consoles" putConsole rec.consoles w
  let w := putArr "containers" putContainer rec.containers w
  (jwObjClose w).buf

abbrev Reading := StateM (Option String)

def note (name : String) : Reading Unit :=
  modify fun missing => missing.or (some name)

def need (o : Option Value) (name : String) : Reading (Option Value) := do
  let v := objectGet o name
  if v.isNone then note name
  return v

def getInt (o : Option Value) (name : String) : Reading Int := do
  match ← need o name with
  | none => return 0
  | some (.bool b) => return if b then 1 else 0
  | some v => return (asNumber (some v)).toLongLong

def getInt32 (o : Option Value) (name : String) : Reading Int32 :=
  return Int32.ofInt (← getInt o name)

def getInt64 (o : Option Value) (name : String) : Reading Int64 :=
  return Int64.ofInt (← getInt o name)

def getUInt32 (o : Option Value) (name : String) : Reading UInt32 :=
  return UInt32.ofInt (← getInt o name)

def getFlag (o : Option Value) (name : String) : Reading Bool :=
  return (← getInt32 o name) ≠ 0

/-- What a field of `n` bytes holds of a value that may be no string. -/
def fieldOf (n : Nat) (positive : 0 < n) (v : Option Value) : BoundedStr n :=
  BoundedStr.store n positive ((asString v).getD CStr.empty)

def getStr (n : Nat) (positive : 0 < n) (o : Option Value) (name : String) :
    Reading (BoundedStr n) :=
  return fieldOf n positive (← need o name)

def getArr (o : Option Value) (name : String) (max : Nat) : Reading (List Value) := do
  match ← need o name with
  | none => return []
  | some (.array items) =>
    if items.length > max then
      note name
      return []
    else return items
  | some _ =>
    note name
    return []

def getNet (n : Value) : Reading NetworkAttachment := do
  let name ← getStr 16 pos_16 (some n) "name"
  let ip ← getStr 16 pos_16 (some n) "ip"
  let address := inetPton ip.str
  if address.isNone then note "nets[].ip"
  let vethHost ← getStr 16 pos_16 (some n) "veth_host"
  let ifname ← getStr 16 pos_16 (some n) "ifname"
  let containerBridge ← getStr 16 pos_16 (some n) "container_bridge"
  return ⟨name, address.getD 0, vethHost, ifname, containerBridge⟩

def getDevice (d : Value) : Reading DeviceAttachment := do
  let id ← getStr 96 (by decide) (some d) "id"
  let devPath ← getStr 64 pos_64 (some d) "dev_path"
  let type ← getInt32 (some d) "type"
  let major ← getUInt32 (some d) "major"
  let minor ← getUInt32 (some d) "minor"
  let live ← getFlag (some d) "live"
  let shared ← getFlag (some d) "shared"
  let ref ← getStr 96 (by decide) (some d) "ref"
  return ⟨id, devPath, type, major, minor, live, shared, ref⟩

def getPending (d : Value) : Reading PendingDevice := do
  let ref ← getStr 96 (by decide) (some d) "ref"
  let shared ← getFlag (some d) "shared"
  return ⟨ref, shared⟩

def getInterface (r : Value) : Reading InterfaceRecord := do
  let granted ← getStr 48 (by decide) (some r) "granted"
  let phy ← getStr 16 pos_16 (some r) "phy"
  let anchor ← getStr 96 (by decide) (some r) "anchor"
  let description ← getStr 64 pos_64 (some r) "description"
  let driver ← getStr 32 pos_32 (some r) "driver"
  let mac ← getStr 32 pos_32 (some r) "mac"
  let macPermanent ← getFlag (some r) "mac_permanent"
  let ref ← getStr 64 pos_64 (some r) "ref"
  let ifname ← getStr 16 pos_16 (some r) "ifname"
  let leftHost ← getFlag (some r) "left_host"
  let host ← getStr 16 pos_16 (some r) "host"
  return ⟨granted, phy, anchor, description, driver, mac, macPermanent, ref, ifname, leftHost, host⟩

def getService (s : Value) : Reading HandoverService := do
  let state ← getInt32 (some s) "state"
  let pid ← getInt32 (some s) "pid"
  let hasExit ← getFlag (some s) "has_exit"
  let exitKind ← getInt32 (some s) "exit_kind"
  let exitValue ← getInt32 (some s) "exit_value"
  let restarts ← getInt32 (some s) "restarts"
  let failReason ← getInt32 (some s) "fail_reason"
  let failDetail ← getInt32 (some s) "fail_detail"
  let outputFd ← getInt32 (some s) "output_fd"
  let outputPartial ← getStr 1024 pos_1024 (some s) "output_partial"
  return ⟨state, pid, hasExit, exitKind, exitValue, restarts, failReason,
    failDetail, outputFd, outputPartial⟩

/-- The descriptors, from a value of `fds` that may be missing. -/
def getDescriptors (fds : Option Value) : Reading Descriptors := do
  if fds.isNone then return ⟨-1, -1, -1, -1⟩
  let initControl ← getInt32 fds "init_control"
  let initReport ← getInt32 fds "init_report"
  let capture ← getInt32 fds "capture"
  let bpfProg ← getInt32 fds "bpf_prog"
  return ⟨initControl, initReport, capture, bpfProg⟩

def getContainer (c : Value) : Reading HandoverContainer := do
  let o := some c
  let name ← getStr 64 pos_64 o "name"
  let image ← getStr 64 pos_64 o "image"
  let imageVersion ← getStr 65 pos_65 o "image_version"
  let running ← getFlag o "running"
  let pid ← getInt32 o "pid"
  let startedAt ← getInt64 o "started_at"
  let paused ← getFlag o "paused"
  let exitStatus ← getInt32 o "exit_status"
  let termSignal ← getInt32 o "term_signal"
  let lastExitReason ← getStr 256 pos_256 o "last_exit_reason"
  let usernsEnabled ← getFlag o "userns_enabled"
  let diskQuotaBytes ← getInt64 o "disk_quota_bytes"
  let reserveDevices ← getFlag o "reserve_devices"
  let ipForward ← getFlag o "ip_forward"
  let captureRequested ← getFlag o "capture_requested"
  let procfuseExpected ← getInt32 o "procfuse_expected"
  let initUp ← getFlag o "init_up"
  let ready ← getFlag o "ready"
  let nets ← (← getArr o "nets" maxNetworks).mapM getNet
  let filePaths := (← getArr o "file_paths" maxFiles).map fun v =>
    fieldOf 256 pos_256 (some v)
  let dnsServers := (← getArr o "dns_servers" maxNameservers).map fun v =>
    fieldOf 16 pos_16 (some v)
  let devices ← (← getArr o "devices" maxDevices).mapM getDevice
  let pendingDevices ← (← getArr o "pending_devices" maxDevices).mapM
    getPending
  let interfaces ← (← getArr o "interfaces" maxInterfaces).mapM getInterface
  let services ← (← getArr o "services" maxServices).mapM getService
  let fds ← getDescriptors (← need o "fds")
  let initOutputPartial ← getStr 1024 pos_1024 o "init_output_partial"
  let capturedOutput ← getStr 4096 pos_4096 o "captured_output"
  return {
    name, image, imageVersion, running, pid, startedAt, paused, exitStatus,
    termSignal, lastExitReason, usernsEnabled, diskQuotaBytes, reserveDevices,
    ipForward, captureRequested, procfuseExpected, initUp, ready, nets,
    filePaths, dnsServers, devices, pendingDevices, interfaces, services, fds,
    initOutputPartial, capturedOutput
    capturedOutputLen := Int32.ofInt capturedOutput.str.length }

def getConsole (c : Value) : Reading HandoverConsole := do
  let tty ← getStr 32 pos_32 (some c) "tty"
  let pid ← getInt32 (some c) "pid"
  return ⟨tty, pid⟩

/-- `get_top`, for a record of that format without containers. -/
def getTop (root : Value) (format : Int32) : Reading HandoverRecord := do
  let o := some root
  let writtenBy ← getStr 64 pos_64 o "written_by"
  let writtenAt ← getInt64 o "written_at"
  let slot ← getStr 8 pos_8 o "slot"
  let bindAddr ← getStr 64 pos_64 o "bind_addr"
  let uplinkUnattached ← getStr 64 pos_64 o "uplink_unattached"
  let procfusePid ← getInt32 o "procfuse_pid"
  let procfuseLoadFd ← getInt32 o "procfuse_load_fd"
  let consoles ← (← getArr o "consoles" maxConsoles).mapM getConsole
  return {
    format, writtenBy, writtenAt, slot, bindAddr, uplinkUnattached,
    procfusePid, procfuseLoadFd, consoles
    kmodscan := asString (objectGet o "kmodscan")
    containers := [] }

inductive ReadError where
  | noRecord
  | notAnObject
  | newerFormat (format : Int)
  | noValid (name : String)
  | containerHasNoValid (index : Nat) (name : String)
  deriving DecidableEq, Repr

def getContainers : Nat → List Value → Except ReadError (List HandoverContainer)
  | _, [] => .ok []
  | index, item :: rest =>
    match (getContainer item).run none with
    | (_, some name) => .error (.containerHasNoValid index name)
    | (container, none) =>
      (getContainers (index + 1) rest).map fun others =>
        container :: others

/-- What `handover_read` reads above the containers, with their items. -/
def getRecord (root : Value) : Reading (Int × HandoverRecord × List Value) := do
  let format ← getInt (some root) "format"
  let top ← getTop root (Int32.ofInt format)
  let items ← getArr (some root) "containers" maxContainers
  return (format, top, items)

def handoverRead (file : Option (List UInt8)) :
    Except ReadError HandoverRecord :=
  match file with
  | none => .error .noRecord
  | some text =>
    match jsonParse text with
    | some (.object members) =>
      let root := Value.object members
      let format := (getInt (some root) "format").run none
      if format.2 = none ∧ format.1 > handoverFormat.toInt then
        .error (.newerFormat format.1)
      else
        match (getRecord root).run none with
        | (_, some name) => .error (.noValid name)
        | ((_, top, items), none) =>
          (getContainers 0 items).map fun containers =>
            { top with containers := containers }
    | _ => .error .notAnObject

end Cix.Handover
