import Cix.Handover.Readers
import Cix.Net.Disjoint

/-!
# What is written is what is read

Every member that the writer puts into a record is one that the reader asks
for, with the same meaning.  What the reader adds is the length of the captured
output, which the writer leaves to it.
-/

namespace Cix.Handover

open Cix.Lib Cix.Json
open List hiding asString
open Cix.Net (inetNtop inetPton inetPton_inetNtop inetNtop_bytes key)

/-! ## Members -/

theorem fills_str {n : Nat} (name : String) (s : BoundedStr n) :
    FillsObj (putStr name s) [(CStr.ofString name, .str s.str)] :=
  (emits_str s.str).member (CStr.ofString name)

theorem fills_int {v : Int} (name : String) (bounded : v.natAbs ≤ 2 ^ 53) :
    FillsObj (putInt name v) [(CStr.ofString name, intDoc v)] :=
  (emits_int bounded).member (CStr.ofString name)

theorem fills_int32 (name : String) (v : Int32) : FillsObj (putInt name v.toInt)
      [(CStr.ofString name, intDoc v.toInt)] :=
  fills_int name (int32_bounded v)

theorem fills_flag (name : String) (b : Bool) :
    FillsObj (putFlag name b) [(CStr.ofString name, .bool b)] :=
  (emits_bool b).member (CStr.ofString name)

theorem fills_arr {α : Type} {write : α → Writer → Writer} {doc : α → Doc}
    {items : List α} (name : String)
    (emits : ∀ a ∈ items, Emits (write a) (doc a)) :
    FillsObj (putArr name write items) [(CStr.ofString name, .arr (items.map doc))] :=
  (emits_arr emits).member (CStr.ofString name)

theorem found_at {members : List (CStr × Doc)}
    (distinct : (members.map Prod.fst).Nodup) (i : Nat) {name : String}
    {d : Doc} (held : members[i]? = some (CStr.ofString name, d)) :
    objectGet (some (Doc.obj members).value) name = some d.value :=
  objectGet_member distinct (mem_of_getElem? held)

theorem found_in {members part : List (CStr × Doc)}
    (distinct : (members.map Prod.fst).Nodup) (within : part ⊆ members)
    (i : Nat) {name : String} {d : Doc}
    (held : part[i]? = some (CStr.ofString name, d)) :
    objectGet (some (Doc.obj members).value) name = some d.value :=
  objectGet_member distinct (within (mem_of_getElem? held))

/-! ## Networks -/

def netMembers (n : NetworkAttachment) : List (CStr × Doc) :=
  [("name", .str n.name.str), ("ip", .str (inetNtop n.ip)), ("veth_host", .str n.vethHost.str),
    ("ifname", .str n.ifname.str),
    ("container_bridge", .str n.containerBridge.str)]

theorem netMembers_distinct (n : NetworkAttachment) : ((netMembers n).map Prod.fst).Nodup := by
  simp only [netMembers, map_cons, map_nil]
  decide

theorem emits_net (n : NetworkAttachment) : Emits (putNet n) (.obj (netMembers n)) := by
  have ip := (emits_str (inetNtop n.ip)).member "ip"
  have fills := ((((fills_str "name" n.name).comp ip).comp (fills_str "veth_host" n.vethHost)).comp
    (fills_str "ifname" n.ifname)).comp
    (fills_str "container_bridge" n.containerBridge)
  exact fills.emits_of rfl

theorem natText_short {n : Nat} (small : n < 10 ^ 3) : (natText n).length ≤ 3 := by
  unfold natText
  split_ifs with zero
  · simp
  · have digits : (Nat.digits 10 n).length ≤ 3 :=
      (Nat.digits_length_le_iff (by omega) n).mpr small
    simpa using digits

theorem inetNtop_short (a : Net.Address) : (inetNtop a).length < 16 := by
  have bound := a.isLt
  have first := natText_short (n := a.toNat / 2 ^ 24) (by omega)
  have second := natText_short (n := a.toNat / 2 ^ 16 % 256) (by omega)
  have third := natText_short (n := a.toNat / 2 ^ 8 % 256) (by omega)
  have fourth := natText_short (n := a.toNat % 256) (by omega)
  rw [CStr.length, inetNtop_bytes]
  simp only [Net.octets, map_cons, map_nil, List.intercalate,
    List.intersperse, flatten_cons, flatten_nil,
    length_append, length_cons, length_nil]
  omega

def ipText (a : Net.Address) : BoundedStr 16 where
  str := inetNtop a
  fits := inetNtop_short a

theorem reads_net (n : NetworkAttachment) : Reads (getNet (Doc.obj (netMembers n)).value) n := by
  have distinct := netMembers_distinct n
  have ip : objectGet (some (Doc.obj (netMembers n)).value) "ip" =
      some (Doc.str (ipText n.ip).str).value :=
    found_at distinct 1 rfl
  have address : inetPton (ipText n.ip).str = some n.ip := inetPton_inetNtop n.ip
  refine (reads_str (found_at distinct 0 rfl)).bind ?_
  refine (reads_str ip).bind ?_
  simp only [address, Option.isNone_some, Bool.false_eq_true, if_false]
  refine (reads_str (found_at distinct 2 rfl)).bind ?_
  refine (reads_str (found_at distinct 3 rfl)).bind ?_
  refine (reads_str (found_at distinct 4 rfl)).bind ?_
  exact Reads.pure n

/-! ## Devices -/

def deviceMembers (d : DeviceAttachment) : List (CStr × Doc) :=
  [("id", .str d.id.str), ("dev_path", .str d.devPath.str), ("type", intDoc d.type.toInt),
    ("major", intDoc d.major.toNat),
    ("minor", intDoc d.minor.toNat),
    ("live", .bool d.live),
    ("shared", .bool d.shared),
    ("ref", .str d.ref.str)]

theorem deviceMembers_distinct (d : DeviceAttachment) : ((deviceMembers d).map Prod.fst).Nodup := by
  simp only [deviceMembers, map_cons, map_nil]
  decide

theorem emits_device (d : DeviceAttachment) : Emits (putDevice d) (.obj (deviceMembers d)) := by
  have fills := (((((((fills_str "id" d.id).comp (fills_str "dev_path" d.devPath)).comp
    (fills_int32 "type" d.type)).comp
    (fills_int "major" (uint32_bounded d.major))).comp
    (fills_int "minor" (uint32_bounded d.minor))).comp
    (fills_flag "live" d.live)).comp
    (fills_flag "shared" d.shared)).comp
    (fills_str "ref" d.ref)
  exact fills.emits_of rfl

theorem reads_device (d : DeviceAttachment) :
    Reads (getDevice (Doc.obj (deviceMembers d)).value) d := by
  have distinct := deviceMembers_distinct d
  refine (reads_str (found_at distinct 0 rfl)).bind ?_
  refine (reads_str (found_at distinct 1 rfl)).bind ?_
  refine (reads_int32 (found_at distinct 2 rfl)).bind ?_
  refine (reads_uint32 (found_at distinct 3 rfl)).bind ?_
  refine (reads_uint32 (found_at distinct 4 rfl)).bind ?_
  refine (reads_flag (found_at distinct 5 rfl)).bind ?_
  refine (reads_flag (found_at distinct 6 rfl)).bind ?_
  refine (reads_str (found_at distinct 7 rfl)).bind ?_
  exact Reads.pure d

/-! ## Pending devices -/

def pendingMembers (d : PendingDevice) : List (CStr × Doc) :=
  [("ref", .str d.ref.str), ("shared", .bool d.shared)]

theorem pendingMembers_distinct (d : PendingDevice) : ((pendingMembers d).map Prod.fst).Nodup := by
  simp only [pendingMembers, map_cons, map_nil]
  decide

theorem emits_pending (d : PendingDevice) : Emits (putPending d) (.obj (pendingMembers d)) := by
  have fills := (fills_str "ref" d.ref).comp (fills_flag "shared" d.shared)
  exact fills.emits_of rfl

theorem reads_pending (d : PendingDevice) :
    Reads (getPending (Doc.obj (pendingMembers d)).value) d := by
  have distinct := pendingMembers_distinct d
  refine (reads_str (found_at distinct 0 rfl)).bind ?_
  refine (reads_flag (found_at distinct 1 rfl)).bind ?_
  exact Reads.pure d

/-! ## Interfaces -/

def interfaceMembers (r : InterfaceRecord) : List (CStr × Doc) :=
  [("granted", .str r.granted.str), ("phy", .str r.phy.str), ("anchor", .str r.anchor.str),
    ("description", .str r.description.str),
    ("driver", .str r.driver.str),
    ("mac", .str r.mac.str),
    ("mac_permanent", .bool r.macPermanent),
    ("ref", .str r.ref.str),
    ("ifname", .str r.ifname.str),
    ("left_host", .bool r.leftHost),
    ("host", .str r.host.str)]

theorem interfaceMembers_distinct (r : InterfaceRecord) :
    ((interfaceMembers r).map Prod.fst).Nodup := by
  simp only [interfaceMembers, map_cons, map_nil]
  decide

theorem emits_interface (r : InterfaceRecord) :
    Emits (putInterface r) (.obj (interfaceMembers r)) := by
  have fills := ((((((((((fills_str "granted" r.granted).comp (fills_str "phy" r.phy)).comp
    (fills_str "anchor" r.anchor)).comp
    (fills_str "description" r.description)).comp
    (fills_str "driver" r.driver)).comp
    (fills_str "mac" r.mac)).comp
    (fills_flag "mac_permanent" r.macPermanent)).comp
    (fills_str "ref" r.ref)).comp
    (fills_str "ifname" r.ifname)).comp
    (fills_flag "left_host" r.leftHost)).comp
    (fills_str "host" r.host)
  exact fills.emits_of rfl

theorem reads_interface (r : InterfaceRecord) :
    Reads (getInterface (Doc.obj (interfaceMembers r)).value) r := by
  have distinct := interfaceMembers_distinct r
  refine (reads_str (found_at distinct 0 rfl)).bind ?_
  refine (reads_str (found_at distinct 1 rfl)).bind ?_
  refine (reads_str (found_at distinct 2 rfl)).bind ?_
  refine (reads_str (found_at distinct 3 rfl)).bind ?_
  refine (reads_str (found_at distinct 4 rfl)).bind ?_
  refine (reads_str (found_at distinct 5 rfl)).bind ?_
  refine (reads_flag (found_at distinct 6 rfl)).bind ?_
  refine (reads_str (found_at distinct 7 rfl)).bind ?_
  refine (reads_str (found_at distinct 8 rfl)).bind ?_
  refine (reads_flag (found_at distinct 9 rfl)).bind ?_
  refine (reads_str (found_at distinct 10 rfl)).bind ?_
  exact Reads.pure r

/-! ## Services -/

def serviceMembers (s : HandoverService) : List (CStr × Doc) :=
  [("state", intDoc s.state.toInt), ("pid", intDoc s.pid.toInt), ("has_exit", .bool s.hasExit),
    ("exit_kind", intDoc s.exitKind.toInt),
    ("exit_value", intDoc s.exitValue.toInt),
    ("restarts", intDoc s.restarts.toInt),
    ("fail_reason", intDoc s.failReason.toInt),
    ("fail_detail", intDoc s.failDetail.toInt),
    ("output_fd", intDoc s.outputFd.toInt),
    ("output_partial", .str s.outputPartial.str)]

theorem serviceMembers_distinct (s : HandoverService) :
    ((serviceMembers s).map Prod.fst).Nodup := by
  simp only [serviceMembers, map_cons, map_nil]
  decide

theorem emits_service (s : HandoverService) : Emits (putService s) (.obj (serviceMembers s)) := by
  have fills := (((((((((fills_int32 "state" s.state).comp (fills_int32 "pid" s.pid)).comp
    (fills_flag "has_exit" s.hasExit)).comp
    (fills_int32 "exit_kind" s.exitKind)).comp
    (fills_int32 "exit_value" s.exitValue)).comp
    (fills_int32 "restarts" s.restarts)).comp
    (fills_int32 "fail_reason" s.failReason)).comp
    (fills_int32 "fail_detail" s.failDetail)).comp
    (fills_int32 "output_fd" s.outputFd)).comp
    (fills_str "output_partial" s.outputPartial)
  exact fills.emits_of rfl

theorem reads_service (s : HandoverService) :
    Reads (getService (Doc.obj (serviceMembers s)).value) s := by
  have distinct := serviceMembers_distinct s
  refine (reads_int32 (found_at distinct 0 rfl)).bind ?_
  refine (reads_int32 (found_at distinct 1 rfl)).bind ?_
  refine (reads_flag (found_at distinct 2 rfl)).bind ?_
  refine (reads_int32 (found_at distinct 3 rfl)).bind ?_
  refine (reads_int32 (found_at distinct 4 rfl)).bind ?_
  refine (reads_int32 (found_at distinct 5 rfl)).bind ?_
  refine (reads_int32 (found_at distinct 6 rfl)).bind ?_
  refine (reads_int32 (found_at distinct 7 rfl)).bind ?_
  refine (reads_int32 (found_at distinct 8 rfl)).bind ?_
  refine (reads_str (found_at distinct 9 rfl)).bind ?_
  exact Reads.pure s

/-! ## Descriptors -/

def descriptorMembers (fds : Descriptors) : List (CStr × Doc) :=
  [("init_control", intDoc fds.initControl.toInt), ("init_report", intDoc fds.initReport.toInt),
    ("capture", intDoc fds.capture.toInt),
    ("bpf_prog", intDoc fds.bpfProg.toInt)]

theorem descriptorMembers_distinct (fds : Descriptors) :
    ((descriptorMembers fds).map Prod.fst).Nodup := by
  simp only [descriptorMembers, map_cons, map_nil]
  decide

theorem emits_descriptors (fds : Descriptors) :
    Emits (putDescriptors fds) (.obj (descriptorMembers fds)) := by
  have fills := (((fills_int32 "init_control" fds.initControl).comp
    (fills_int32 "init_report" fds.initReport)).comp
    (fills_int32 "capture" fds.capture)).comp
    (fills_int32 "bpf_prog" fds.bpfProg)
  exact fills.emits_of rfl

theorem reads_descriptors (fds : Descriptors) :
    Reads (getDescriptors (some (Doc.obj (descriptorMembers fds)).value)) fds := by
  have distinct := descriptorMembers_distinct fds
  refine (reads_int32 (found_at distinct 0 rfl)).bind ?_
  refine (reads_int32 (found_at distinct 1 rfl)).bind ?_
  refine (reads_int32 (found_at distinct 2 rfl)).bind ?_
  refine (reads_int32 (found_at distinct 3 rfl)).bind ?_
  exact Reads.pure fds

/-! ## Containers -/

/-- The arrays are as long as the source has room for, and a double holds the 64-bit
numbers. -/
structure HandoverContainer.Fits (c : HandoverContainer) : Prop where
  startedAt : c.startedAt.toInt.natAbs ≤ 2 ^ 53
  diskQuotaBytes : c.diskQuotaBytes.toInt.natAbs ≤ 2 ^ 53
  nets : c.nets.length ≤ maxNetworks
  filePaths : c.filePaths.length ≤ maxFiles
  dnsServers : c.dnsServers.length ≤ maxNameservers
  devices : c.devices.length ≤ maxDevices
  pendingDevices : c.pendingDevices.length ≤ maxDevices
  interfaces : c.interfaces.length ≤ maxInterfaces
  services : c.services.length ≤ maxServices

def HandoverContainer.reread (c : HandoverContainer) : HandoverContainer :=
  { c with capturedOutputLen := Int32.ofInt c.capturedOutput.str.length }

def strDoc {n : Nat} (s : BoundedStr n) : Doc := .str s.str

def containerMembers (c : HandoverContainer) : List (CStr × Doc) :=
  [("name", .str c.name.str), ("image", .str c.image.str),
    ("image_version", .str c.imageVersion.str),
    ("running", .bool c.running),
    ("pid", intDoc c.pid.toInt),
    ("started_at", intDoc c.startedAt.toInt),
    ("paused", .bool c.paused),
    ("exit_status", intDoc c.exitStatus.toInt),
    ("term_signal", intDoc c.termSignal.toInt),
    ("last_exit_reason", .str c.lastExitReason.str),
    ("userns_enabled", .bool c.usernsEnabled),
    ("disk_quota_bytes", intDoc c.diskQuotaBytes.toInt),
    ("reserve_devices", .bool c.reserveDevices),
    ("ip_forward", .bool c.ipForward),
    ("capture_requested", .bool c.captureRequested),
    ("procfuse_expected", intDoc c.procfuseExpected.toInt),
    ("init_up", .bool c.initUp),
    ("ready", .bool c.ready),
    ("nets", .arr (c.nets.map fun n => .obj (netMembers n))),
    ("file_paths", .arr (c.filePaths.map strDoc)),
    ("dns_servers", .arr (c.dnsServers.map strDoc)),
    ("devices", .arr (c.devices.map fun d => .obj (deviceMembers d))),
    ("pending_devices", .arr (c.pendingDevices.map fun d => .obj (pendingMembers d))),
    ("interfaces", .arr (c.interfaces.map fun r => .obj (interfaceMembers r))),
    ("services", .arr (c.services.map fun s => .obj (serviceMembers s))),
    ("fds", .obj (descriptorMembers c.fds)),
    ("init_output_partial", .str c.initOutputPartial.str),
    ("captured_output", .str c.capturedOutput.str)]

theorem containerMembers_distinct (c : HandoverContainer) :
    ((containerMembers c).map Prod.fst).Nodup := by
  simp only [containerMembers, map_cons, map_nil]
  decide +kernel

theorem fills_strs {n : Nat} (name : String) (list : List (BoundedStr n)) :
    FillsObj (putArr name (fun s => jwStr s.str) list)
      [(CStr.ofString name, .arr (list.map strDoc))] :=
  fills_arr name fun s _ => emits_str s.str

theorem fills_fds (fds : Descriptors) : FillsObj (fun w => putDescriptors fds (key "fds" w))
      [("fds", .obj (descriptorMembers fds))] :=
  (emits_descriptors fds).member "fds"

theorem emits_container {c : HandoverContainer} (fits : c.Fits) :
    Emits (putContainer c) (.obj (containerMembers c)) := by
  have identity := (((((fills_str "name" c.name).comp (fills_str "image" c.image)).comp
    (fills_str "image_version" c.imageVersion)).comp
    (fills_flag "running" c.running)).comp
    (fills_int32 "pid" c.pid)).comp
    (fills_int "started_at" fits.startedAt)
  have exit := (((((fills_flag "paused" c.paused).comp
    (fills_int32 "exit_status" c.exitStatus)).comp
    (fills_int32 "term_signal" c.termSignal)).comp
    (fills_str "last_exit_reason" c.lastExitReason)).comp
    (fills_flag "userns_enabled" c.usernsEnabled)).comp
    (fills_int "disk_quota_bytes" fits.diskQuotaBytes)
  have flags := (((((fills_flag "reserve_devices" c.reserveDevices).comp
    (fills_flag "ip_forward" c.ipForward)).comp
    (fills_flag "capture_requested" c.captureRequested)).comp
    (fills_int32 "procfuse_expected" c.procfuseExpected)).comp
    (fills_flag "init_up" c.initUp)).comp
    (fills_flag "ready" c.ready)
  have attachments := ((fills_arr "nets" fun n (_ : n ∈ c.nets) => emits_net n).comp
    (fills_strs "file_paths" c.filePaths)).comp
    (fills_strs "dns_servers" c.dnsServers)
  have hardware := (((fills_arr "devices" fun d (_ : d ∈ c.devices) => emits_device d).comp
    (fills_arr "pending_devices" fun d (_ : d ∈ c.pendingDevices) => emits_pending d)).comp
    (fills_arr "interfaces" fun r (_ : r ∈ c.interfaces) => emits_interface r)).comp
    (fills_arr "services" fun s (_ : s ∈ c.services) => emits_service s)
  have rest := ((fills_fds c.fds).comp (fills_str "init_output_partial" c.initOutputPartial)).comp
    (fills_str "captured_output" c.capturedOutput)
  have fills := ((((identity.comp exit).comp flags).comp attachments).comp hardware).comp rest
  exact fills.emits_of rfl

theorem fieldOf_strDoc {n : Nat} (positive : 0 < n) (list : List (BoundedStr n)) :
    ((list.map strDoc).map Doc.value).map (fun v => fieldOf n positive (some v)) = list := by
  rw [map_map, map_map]
  refine map_id'' (fun s => ?_) list
  simp only [Function.comp_apply, strDoc, fieldOf, Doc.value, asString, Option.getD_some]
  exact BoundedStr.store_str positive s

theorem reads_container {c : HandoverContainer} (fits : c.Fits) :
    Reads (getContainer (Doc.obj (containerMembers c)).value) c.reread := by
  have distinct := containerMembers_distinct c
  refine (reads_str (found_at distinct 0 rfl)).bind ?_
  refine (reads_str (found_at distinct 1 rfl)).bind ?_
  refine (reads_str (found_at distinct 2 rfl)).bind ?_
  refine (reads_flag (found_at distinct 3 rfl)).bind ?_
  refine (reads_int32 (found_at distinct 4 rfl)).bind ?_
  refine (reads_int64 fits.startedAt (found_at distinct 5 rfl)).bind ?_
  refine (reads_flag (found_at distinct 6 rfl)).bind ?_
  refine (reads_int32 (found_at distinct 7 rfl)).bind ?_
  refine (reads_int32 (found_at distinct 8 rfl)).bind ?_
  refine (reads_str (found_at distinct 9 rfl)).bind ?_
  refine (reads_flag (found_at distinct 10 rfl)).bind ?_
  refine (reads_int64 fits.diskQuotaBytes (found_at distinct 11 rfl)).bind ?_
  refine (reads_flag (found_at distinct 12 rfl)).bind ?_
  refine (reads_flag (found_at distinct 13 rfl)).bind ?_
  refine (reads_flag (found_at distinct 14 rfl)).bind ?_
  refine (reads_int32 (found_at distinct 15 rfl)).bind ?_
  refine (reads_flag (found_at distinct 16 rfl)).bind ?_
  refine (reads_flag (found_at distinct 17 rfl)).bind ?_
  refine (reads_arr (found_at distinct 18 rfl) (by rw [length_map]; exact fits.nets)).bind ?_
  refine (Reads.mapM fun n _ => reads_net n).bind ?_
  refine (reads_arr (found_at distinct 19 rfl) (by rw [length_map]; exact fits.filePaths)).bind ?_
  refine (reads_arr (found_at distinct 20 rfl) (by rw [length_map]; exact fits.dnsServers)).bind ?_
  refine (reads_arr (found_at distinct 21 rfl) (by rw [length_map]; exact fits.devices)).bind ?_
  refine (Reads.mapM fun d _ => reads_device d).bind ?_
  refine (reads_arr (found_at distinct 22 rfl)
    (by rw [length_map]; exact fits.pendingDevices)).bind ?_
  refine (Reads.mapM fun d _ => reads_pending d).bind ?_
  refine (reads_arr (found_at distinct 23 rfl) (by rw [length_map]; exact fits.interfaces)).bind ?_
  refine (Reads.mapM fun r _ => reads_interface r).bind ?_
  refine (reads_arr (found_at distinct 24 rfl) (by rw [length_map]; exact fits.services)).bind ?_
  refine (Reads.mapM fun s _ => reads_service s).bind ?_
  refine (reads_need (found_at distinct 25 rfl)).bind ?_
  refine (reads_descriptors c.fds).bind ?_
  refine (reads_str (found_at distinct 26 rfl)).bind ?_
  refine (reads_str (found_at distinct 27 rfl)).bind ?_
  simp only [fieldOf_strDoc]
  exact Reads.pure c.reread

/-! ## Consoles -/

def consoleMembers (c : HandoverConsole) : List (CStr × Doc) :=
  [("tty", .str c.tty.str), ("pid", intDoc c.pid.toInt)]

theorem consoleMembers_distinct (c : HandoverConsole) :
    ((consoleMembers c).map Prod.fst).Nodup := by
  simp only [consoleMembers, map_cons, map_nil]
  decide

theorem emits_console (c : HandoverConsole) : Emits (putConsole c) (.obj (consoleMembers c)) := by
  have fills := (fills_str "tty" c.tty).comp (fills_int32 "pid" c.pid)
  exact fills.emits_of rfl

theorem reads_console (c : HandoverConsole) :
    Reads (getConsole (Doc.obj (consoleMembers c)).value) c := by
  have distinct := consoleMembers_distinct c
  refine (reads_str (found_at distinct 0 rfl)).bind ?_
  refine (reads_int32 (found_at distinct 1 rfl)).bind ?_
  exact Reads.pure c

/-! ## The record -/

variable {rec : HandoverRecord}

structure HandoverRecord.Buildable (rec : HandoverRecord) : Prop where
  format : rec.format = handoverFormat
  writtenAt : rec.writtenAt.toInt.natAbs ≤ 2 ^ 53
  consoles : rec.consoles.length ≤ maxConsoles
  containers : rec.containers.length ≤ maxContainers
  each : ∀ c ∈ rec.containers, c.Fits

def HandoverRecord.reread (rec : HandoverRecord) : HandoverRecord :=
  { rec with containers := rec.containers.map HandoverContainer.reread }

def kmodscanMembers (kmodscan : Option CStr) : List (CStr × Doc) :=
  kmodscan.toList.map fun text => ("kmodscan", .str text)

def beforeMembers (rec : HandoverRecord) : List (CStr × Doc) :=
  [("format", intDoc handoverFormat.toInt), ("written_by", .str rec.writtenBy.str),
    ("written_at", intDoc rec.writtenAt.toInt),
    ("slot", .str rec.slot.str),
    ("bind_addr", .str rec.bindAddr.str),
    ("uplink_unattached", .str rec.uplinkUnattached.str)]

def afterMembers (rec : HandoverRecord) : List (CStr × Doc) :=
  [("procfuse_pid", intDoc rec.procfusePid.toInt),
    ("procfuse_load_fd", intDoc rec.procfuseLoadFd.toInt),
    ("consoles", .arr (rec.consoles.map fun c => .obj (consoleMembers c))),
    ("containers", .arr (rec.containers.map fun c => .obj (containerMembers c)))]

def recordMembers (rec : HandoverRecord) : List (CStr × Doc) :=
  beforeMembers rec ++ kmodscanMembers rec.kmodscan ++ afterMembers rec

theorem recordMembers_distinct (rec : HandoverRecord) :
    ((recordMembers rec).map Prod.fst).Nodup := by
  cases scan : rec.kmodscan <;>
    simp only [recordMembers, beforeMembers, afterMembers, scan,
      kmodscanMembers, Option.toList, map_cons, map_nil,
      cons_append, nil_append] <;>
    decide

theorem fills_kmodscan (kmodscan : Option CStr) :
    FillsObj (putKmodscan kmodscan) (kmodscanMembers kmodscan) := by
  cases kmodscan with
  | none => exact fills_nothing .obj
  | some text => exact (emits_str text).member "kmodscan"

theorem handoverText_eq (buildable : rec.Buildable) :
    handoverText rec = (Doc.obj (recordMembers rec)).text := by
  have before := (((((fills_int32 "format" handoverFormat).comp
    (fills_str "written_by" rec.writtenBy)).comp
    (fills_int "written_at" buildable.writtenAt)).comp
    (fills_str "slot" rec.slot)).comp
    (fills_str "bind_addr" rec.bindAddr)).comp
    (fills_str "uplink_unattached" rec.uplinkUnattached)
  have after := (((fills_int32 "procfuse_pid" rec.procfusePid).comp
    (fills_int32 "procfuse_load_fd" rec.procfuseLoadFd)).comp
    (fills_arr "consoles" fun c (_ : c ∈ rec.consoles) =>
      emits_console c)).comp
    (fills_arr "containers" fun c mem =>
      emits_container (buildable.each c mem))
  have fills := (before.comp (fills_kmodscan rec.kmodscan)).comp after
  have emitted := FillsObj.emits fills
  simp only [cons_append, nil_append] at emitted
  exact emitted.buf_jwInit

theorem before_within (rec : HandoverRecord) : beforeMembers rec ⊆ recordMembers rec := by
  intro mem held
  exact mem_append_left _ (mem_append_left _ held)

theorem after_within (rec : HandoverRecord) : afterMembers rec ⊆ recordMembers rec := by
  intro mem held
  exact mem_append_right _ held

theorem kmodscan_read (rec : HandoverRecord) :
    asString (objectGet (some (Doc.obj (recordMembers rec)).value) "kmodscan") = rec.kmodscan := by
  cases scan : rec.kmodscan with
  | none =>
    have absent : CStr.ofString "kmodscan" ∉ (recordMembers rec).map Prod.fst := by
      simp only [recordMembers, beforeMembers, afterMembers, scan,
        kmodscanMembers, Option.toList, map_cons, map_nil,
        cons_append, nil_append]
      decide
    rw [objectGet_absent absent]
    rfl
  | some text =>
    have held : (CStr.ofString "kmodscan", Doc.str text) ∈
        recordMembers rec := by
      rw [recordMembers, scan]
      apply mem_append_left
      apply mem_append_right
      exact mem_singleton_self _
    rw [objectGet_member (recordMembers_distinct rec) held]
    rfl

theorem reads_top (buildable : rec.Buildable) :
    Reads (getTop (Doc.obj (recordMembers rec)).value rec.format)
      { rec with containers := [] } := by
  have distinct := recordMembers_distinct rec
  have before := before_within rec
  have after := after_within rec
  refine (reads_str (found_in distinct before 1 rfl)).bind ?_
  refine (reads_int64 buildable.writtenAt (found_in distinct before 2 rfl)).bind ?_
  refine (reads_str (found_in distinct before 3 rfl)).bind ?_
  refine (reads_str (found_in distinct before 4 rfl)).bind ?_
  refine (reads_str (found_in distinct before 5 rfl)).bind ?_
  refine (reads_int32 (found_in distinct after 0 rfl)).bind ?_
  refine (reads_int32 (found_in distinct after 1 rfl)).bind ?_
  refine (reads_arr (found_in distinct after 2 rfl)
    (by rw [length_map]; exact buildable.consoles)).bind ?_
  refine (Reads.mapM fun c _ => reads_console c).bind ?_
  rw [kmodscan_read]
  exact Reads.pure _

theorem reads_format (buildable : rec.Buildable) :
    Reads (getInt (some (Doc.obj (recordMembers rec)).value) "format")
      rec.format.toInt := by
  rw [buildable.format]
  exact reads_int (int32_bounded handoverFormat)
    (found_in (recordMembers_distinct rec) (before_within rec) 0 rfl)

def containerValues (containers : List HandoverContainer) : List Value :=
  (containers.map fun c => Doc.obj (containerMembers c)).map Doc.value

theorem reads_record (buildable : rec.Buildable) :
    Reads (getRecord (Doc.obj (recordMembers rec)).value)
      (rec.format.toInt, { rec with containers := [] }, containerValues rec.containers) := by
  refine (reads_format buildable).bind ?_
  rw [Int32.ofInt_toInt]
  refine (reads_top buildable).bind ?_
  refine (reads_arr (found_in (recordMembers_distinct rec) (after_within rec) 3 rfl)
    (by rw [length_map]; exact buildable.containers)).bind ?_
  exact Reads.pure _

theorem getContainers_written (index : Nat)
    {containers : List HandoverContainer}
    (fits : ∀ c ∈ containers, c.Fits) :
    getContainers index (containerValues containers) =
      .ok (containers.map HandoverContainer.reread) := by
  induction containers generalizing index with
  | nil => rfl
  | cons first rest ih =>
    have read := reads_container (fits first mem_cons_self) none
    have others := ih (index + 1) fun c mem =>
      fits c (mem_cons_of_mem _ mem)
    rw [containerValues, map_cons, map_cons, getContainers, read]
    change (getContainers (index + 1) (containerValues rest)).map _ = _
    rw [others]
    rfl

theorem handoverRead_handoverText (buildable : rec.Buildable) :
    handoverRead (some (handoverText rec)) = .ok rec.reread := by
  have format := reads_format buildable none
  have record := reads_record buildable none
  have containers := getContainers_written 0 buildable.each
  have parsed := jsonParse_text (Doc.obj (recordMembers rec))
  rw [Doc.value] at format record parsed
  have notNewer : ¬ rec.format.toInt > handoverFormat.toInt := by
    rw [buildable.format]
    exact lt_irrefl _
  rw [handoverRead, handoverText_eq buildable, parsed]
  simp only [format, record, notNewer, and_false, if_false, containers]
  rfl

end Cix.Handover
