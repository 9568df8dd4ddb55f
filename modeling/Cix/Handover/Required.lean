import Cix.Handover.Roundtrip

/-!
# The keys that a record must have

Every key that is written, the optional `kmodscan` aside, is one that the
reader insists on, at every level of the document.  A record that has lost one
of them anywhere is refused whole.
-/

namespace Cix.Handover

open Cix.Lib Cix.Json List

def netKeys : List String :=
  ["name", "ip", "veth_host", "ifname", "container_bridge"]

def deviceKeys : List String :=
  ["id", "dev_path", "type", "major", "minor", "live", "shared", "ref"]

def pendingKeys : List String :=
  ["ref", "shared"]

def interfaceKeys : List String :=
  ["granted", "phy", "anchor", "description", "driver", "mac",
    "mac_permanent", "ref", "ifname", "left_host", "host"]

def serviceKeys : List String :=
  ["state", "pid", "has_exit", "exit_kind", "exit_value", "restarts",
    "fail_reason", "fail_detail", "output_fd", "output_partial"]

def descriptorKeys : List String :=
  ["init_control", "init_report", "capture", "bpf_prog"]

def containerKeys : List String :=
  ["name", "image", "image_version", "running", "pid", "started_at",
    "paused", "exit_status", "term_signal", "last_exit_reason",
    "userns_enabled", "disk_quota_bytes", "reserve_devices", "ip_forward",
    "capture_requested", "procfuse_expected", "init_up", "ready", "nets",
    "file_paths", "dns_servers", "devices", "pending_devices", "interfaces",
    "services", "fds", "init_output_partial", "captured_output"]

def consoleKeys : List String :=
  ["tty", "pid"]

def topKeys : List String :=
  ["written_by", "written_at", "slot", "bind_addr", "uplink_unattached",
    "procfuse_pid", "procfuse_load_fd", "consoles"]

def recordKeys : List String :=
  "format" :: topKeys ++ ["containers"]

def HasKeys (o : Option Value) (keys : List String) : Prop :=
  ∀ name ∈ keys, Present o name

def EachHasKeys (o : Option Value) (name : String) (keys : List String) :
    Prop :=
  ∀ item ∈ itemsOf o name, HasKeys (some item) keys

structure CompleteContainer (c : Value) : Prop where
  keys : HasKeys (some c) containerKeys
  nets : EachHasKeys (some c) "nets" netKeys
  devices : EachHasKeys (some c) "devices" deviceKeys
  pendingDevices : EachHasKeys (some c) "pending_devices" pendingKeys
  interfaces : EachHasKeys (some c) "interfaces" interfaceKeys
  services : EachHasKeys (some c) "services" serviceKeys
  fds : HasKeys (objectGet (some c) "fds") descriptorKeys

structure Complete (root : Value) : Prop where
  keys : HasKeys (some root) recordKeys
  consoles : EachHasKeys (some root) "consoles" consoleKeys
  containers : ∀ c ∈ itemsOf (some root) "containers", CompleteContainer c

theorem hasKeys_nil (o : Option Value) : HasKeys o [] := by
  intro name mem
  cases mem

theorem hasKeys_cons {o : Option Value} {name : String}
    {names : List String} (present : Present o name)
    (others : HasKeys o names) : HasKeys o (name :: names) := by
  intro other mem
  rcases mem_cons.mp mem with isFirst | later
  · rw [isFirst]
    exact present
  · exact others other later

section Sequences

variable {α β : Type} {o : Option Value} {name : String}

theorem Insists.andThen {act : Reading α} {f : α → Reading β}
    {first later : Prop} (insists : Insists act first)
    (others : ∀ a, Insists (f a) later) :
    Insists (act >>= f) (first ∧ later) :=
  @Insists.bind _ _ _ _ _ (fun _ => later) insists others

theorem Insists.key {act : Reading α} {f : α → Reading β}
    {names : List String} (insists : Insists act (Present o name))
    (others : ∀ a, Insists (f a) (HasKeys o names)) :
    Insists (act >>= f) (HasKeys o (name :: names)) := by
  apply (insists.andThen others).imp
  intro both
  exact hasKeys_cons both.1 both.2

theorem Insists.done (a : α) : Insists (Pure.pure a) (HasKeys o []) :=
  (Insists.pure a).imp fun _ => hasKeys_nil o

theorem Insists.items {max : Nat} {read : Value → Reading α}
    {f : List α → Reading β} {keys : List String} {later : Prop}
    (each : ∀ item, Insists (read item) (HasKeys (some item) keys))
    (others : ∀ list, Insists (f list) later) :
    Insists (getArr o name max >>= fun items => items.mapM read >>= f)
      ((Present o name ∧ EachHasKeys o name keys) ∧ later) := by
  have insists := (@insists_arr o name max).bind fun items =>
    (@Insists.mapM _ _ items _ _ each).andThen others
  apply insists.imp
  intro conditions
  obtain ⟨⟨present, read⟩, conditions, holds⟩ := conditions
  rw [read] at conditions
  exact ⟨⟨present, conditions⟩, holds⟩

end Sequences

theorem insists_net (n : Value) : Insists (getNet n) (HasKeys (some n) netKeys) := by
  refine insists_str.key fun name => ?_
  refine insists_str.key fun ip => ?_
  have others : Insists (do
      let vethHost ← getStr 16 (by decide) (some n) "veth_host"
      let ifname ← getStr 16 (by decide) (some n) "ifname"
      let containerBridge ← getStr 16 (by decide) (some n) "container_bridge"
      return (⟨name, (Net.inetPton ip.str).getD 0, vethHost, ifname,
        containerBridge⟩ : NetworkAttachment))
      (HasKeys (some n) ["veth_host", "ifname", "container_bridge"]) :=
    insists_str.key fun _ => insists_str.key fun _ =>
      insists_str.key fun _ => Insists.done _
  dsimp only
  split
  · have noted := @insists_note "nets[].ip" True
    exact (noted.andThen fun _ => others).imp And.right
  · exact others

theorem insists_device (d : Value) : Insists (getDevice d) (HasKeys (some d) deviceKeys) := by
  refine insists_str.key fun _ => ?_
  refine insists_str.key fun _ => ?_
  refine insists_int32.key fun _ => ?_
  refine insists_uint32.key fun _ => ?_
  refine insists_uint32.key fun _ => ?_
  refine insists_flag.key fun _ => ?_
  refine insists_flag.key fun _ => ?_
  refine insists_str.key fun _ => ?_
  exact Insists.done _

theorem insists_pending (d : Value) : Insists (getPending d) (HasKeys (some d) pendingKeys) := by
  refine insists_str.key fun _ => ?_
  refine insists_flag.key fun _ => ?_
  exact Insists.done _

theorem insists_interface (r : Value) :
    Insists (getInterface r) (HasKeys (some r) interfaceKeys) := by
  refine insists_str.key fun _ => ?_
  refine insists_str.key fun _ => ?_
  refine insists_str.key fun _ => ?_
  refine insists_str.key fun _ => ?_
  refine insists_str.key fun _ => ?_
  refine insists_str.key fun _ => ?_
  refine insists_flag.key fun _ => ?_
  refine insists_str.key fun _ => ?_
  refine insists_str.key fun _ => ?_
  refine insists_flag.key fun _ => ?_
  refine insists_str.key fun _ => ?_
  exact Insists.done _

theorem insists_service (s : Value) : Insists (getService s) (HasKeys (some s) serviceKeys) := by
  refine insists_int32.key fun _ => ?_
  refine insists_int32.key fun _ => ?_
  refine insists_flag.key fun _ => ?_
  refine insists_int32.key fun _ => ?_
  refine insists_int32.key fun _ => ?_
  refine insists_int32.key fun _ => ?_
  refine insists_int32.key fun _ => ?_
  refine insists_int32.key fun _ => ?_
  refine insists_int32.key fun _ => ?_
  refine insists_str.key fun _ => ?_
  exact Insists.done _

theorem insists_console (c : Value) : Insists (getConsole c) (HasKeys (some c) consoleKeys) := by
  refine insists_str.key fun _ => ?_
  refine insists_int32.key fun _ => ?_
  exact Insists.done _

theorem insists_descriptors (fds : Option Value) : Insists (getDescriptors fds)
      (fds.isSome = true → HasKeys fds descriptorKeys) := by
  cases fds with
  | none =>
    apply (Insists.pure _).imp
    intro _ isSome
    cases isSome
  | some v =>
    have insists : Insists (getDescriptors (some v)) (HasKeys (some v) descriptorKeys) := by
      refine insists_int32.key fun _ => ?_
      refine insists_int32.key fun _ => ?_
      refine insists_int32.key fun _ => ?_
      refine insists_int32.key fun _ => ?_
      exact Insists.done _
    apply insists.imp
    intro holds _
    exact holds

theorem run_need (o : Option Value) (name : String) :
    ((need o name).run none).1 = objectGet o name := by
  cases found : objectGet o name with
  | none =>
    rw [need, found]
    rfl
  | some v => rw [reads_need found none]

theorem Insists.descriptors {α : Type} {o : Option Value}
    {f : Descriptors → Reading α} {later : Prop}
    (others : ∀ fds, Insists (f fds) later) :
    Insists (need o "fds" >>= fun fds => getDescriptors fds >>= f)
      ((Present o "fds" ∧ HasKeys (objectGet o "fds") descriptorKeys) ∧ later) := by
  have insists := (@insists_need o "fds").bind fun fds =>
    (insists_descriptors fds).andThen others
  apply insists.imp
  intro conditions
  obtain ⟨present, keys, holds⟩ := conditions
  rw [run_need] at keys
  exact ⟨⟨present, keys present⟩, holds⟩

theorem insists_container (c : Value) : Insists (getContainer c) (CompleteContainer c) := by
  have insists : Insists (getContainer c) _ :=
    insists_str.andThen fun _ => insists_str.andThen fun _ =>
    insists_str.andThen fun _ => insists_flag.andThen fun _ =>
    insists_int32.andThen fun _ => insists_int64.andThen fun _ =>
    insists_flag.andThen fun _ => insists_int32.andThen fun _ =>
    insists_int32.andThen fun _ => insists_str.andThen fun _ =>
    insists_flag.andThen fun _ => insists_int64.andThen fun _ =>
    insists_flag.andThen fun _ => insists_flag.andThen fun _ =>
    insists_flag.andThen fun _ => insists_int32.andThen fun _ =>
    insists_flag.andThen fun _ => insists_flag.andThen fun _ =>
    Insists.items insists_net fun _ =>
    (insists_arr.imp And.left).andThen fun _ =>
    (insists_arr.imp And.left).andThen fun _ =>
    Insists.items insists_device fun _ =>
    Insists.items insists_pending fun _ =>
    Insists.items insists_interface fun _ =>
    Insists.items insists_service fun _ =>
    Insists.descriptors fun _ =>
    insists_str.andThen fun _ => insists_str.andThen fun _ =>
    Insists.pure _
  apply insists.imp
  intro conditions
  obtain ⟨name, image, imageVersion, running, pid, startedAt, paused,
    exitStatus, termSignal, lastExitReason, usernsEnabled, diskQuotaBytes,
    reserveDevices, ipForward, captureRequested, procfuseExpected, initUp,
    ready, ⟨nets, eachNet⟩, filePaths, dnsServers, ⟨devices, eachDevice⟩,
    ⟨pendingDevices, eachPending⟩, ⟨interfaces, eachInterface⟩,
    ⟨services, eachService⟩, ⟨fds, descriptors⟩, initOutputPartial,
    capturedOutput, -⟩ := conditions
  have keys : HasKeys (some c) containerKeys := by
    simp only [HasKeys, containerKeys, forall_mem_cons]
    exact ⟨name, image, imageVersion, running, pid, startedAt, paused,
      exitStatus, termSignal, lastExitReason, usernsEnabled, diskQuotaBytes,
      reserveDevices, ipForward, captureRequested, procfuseExpected, initUp,
      ready, nets, filePaths, dnsServers, devices, pendingDevices,
      interfaces, services, fds, initOutputPartial, capturedOutput,
      hasKeys_nil _⟩
  exact ⟨keys, eachNet, eachDevice, eachPending, eachInterface, eachService, descriptors⟩

theorem insists_top (root : Value) (format : Int32) : Insists (getTop root format)
      (HasKeys (some root) topKeys ∧ EachHasKeys (some root) "consoles" consoleKeys) := by
  have insists : Insists (getTop root format) _ :=
    insists_str.andThen fun _ => insists_int64.andThen fun _ =>
    insists_str.andThen fun _ => insists_str.andThen fun _ =>
    insists_str.andThen fun _ => insists_int32.andThen fun _ =>
    insists_int32.andThen fun _ =>
    Insists.items insists_console fun _ =>
    Insists.pure _
  apply insists.imp
  intro conditions
  obtain ⟨writtenBy, writtenAt, slot, bindAddr, uplinkUnattached,
    procfusePid, procfuseLoadFd, ⟨consoles, eachConsole⟩, -⟩ := conditions
  refine ⟨?_, eachConsole⟩
  simp only [HasKeys, topKeys, forall_mem_cons]
  exact ⟨writtenBy, writtenAt, slot, bindAddr, uplinkUnattached,
    procfusePid, procfuseLoadFd, consoles, hasKeys_nil _⟩

theorem getArr_value (o : Option Value) (name : String) (max : Nat) (missing : Option String) :
    ((getArr o name max).run missing).1 = ((getArr o name max).run none).1 := by
  cases found : objectGet o name with
  | none =>
    simp only [getArr, need, found]
    rfl
  | some v =>
    cases v with
    | array items =>
      rw [run_getArr found, run_getArr found]
      split <;> rfl
    | _ =>
      simp only [getArr, need, found]
      rfl

theorem insists_record (root : Value) : Insists (getRecord root) (HasKeys (some root) recordKeys ∧
      EachHasKeys (some root) "consoles" consoleKeys ∧
      ((getRecord root).run none).1.2.2 = itemsOf (some root) "containers") := by
  have insists : Insists (getRecord root) _ :=
    insists_int.andThen fun format =>
    Insists.bind (insists_top root (Int32.ofInt format)) fun _ =>
    insists_arr.andThen fun _ => Insists.pure _
  apply insists.imp
  intro conditions
  obtain ⟨format, ⟨top, eachConsole⟩, ⟨containers, items⟩, -⟩ := conditions
  refine ⟨?_, eachConsole, ?_⟩
  · intro name mem
    rcases mem_append.mp mem with inFirst | isContainers
    · exact hasKeys_cons format top name inFirst
    · rw [mem_singleton.mp isContainers]
      exact containers
  · rw [← items, ← getArr_value]
    rfl

theorem getContainers_complete {index : Nat} {items : List Value}
    {containers : List HandoverContainer}
    (reads : getContainers index items = .ok containers) :
    ∀ c ∈ items, CompleteContainer c := by
  induction items generalizing index containers with
  | nil =>
    intro c mem
    cases mem
  | cons first rest ih =>
    rw [getContainers] at reads
    cases read : (getContainer first).run none with
    | mk container missing =>
      cases missing with
      | some name =>
        rw [read] at reads
        cases reads
      | none =>
        have complete := (insists_container first none (by rw [read])).2
        rw [read] at reads
        intro c mem
        rcases mem_cons.mp mem with isFirst | later
        · rw [isFirst]
          exact complete
        · cases others : getContainers (index + 1) rest with
          | error e =>
            rw [others] at reads
            cases reads
          | ok list => exact ih others c later

theorem complete_of_handoverRead {text : List UInt8} {root : Value}
    {rec : HandoverRecord} (parsed : jsonParse text = some root)
    (reads : handoverRead (some text) = .ok rec) : Complete root := by
  cases root with
  | object members =>
    rw [handoverRead, parsed] at reads
    dsimp only at reads
    split at reads
    · cases reads
    · have insists := insists_record (.object members) none
      cases read : (getRecord (.object members)).run none with
      | mk values missing =>
        obtain ⟨format, top, items⟩ := values
        rw [read] at reads insists
        cases missing with
        | some name => cases reads
        | none =>
          obtain ⟨-, keys, consoles, isItems⟩ := insists rfl
          dsimp only at isItems
          cases containers : getContainers 0 items with
          | error e =>
            simp only [containers] at reads
            cases reads
          | ok list =>
            have complete := getContainers_complete containers
            rw [isItems] at complete
            exact ⟨keys, consoles, complete⟩
  | _ =>
    rw [handoverRead, parsed] at reads
    cases reads

/-- Reading what was written gives the record back, with the length of each
captured output computed again; and a text that lacks a required key anywhere
is refused. -/
theorem handover_round_trip : (∀ rec : HandoverRecord, rec.Buildable →
      handoverRead (some (handoverText rec)) = .ok rec.reread) ∧
    (∀ (text : List UInt8) (root : Value), jsonParse text = some root →
      ¬ Complete root → ∃ e, handoverRead (some text) = .error e) := by
  refine ⟨fun rec buildable => handoverRead_handoverText buildable, ?_⟩
  intro text root parsed incomplete
  cases read : handoverRead (some text) with
  | error e => exact ⟨e, rfl⟩
  | ok rec => exact absurd (complete_of_handoverRead parsed read) incomplete

def stoppedContainer : HandoverContainer where
  name := BoundedStr.store 64 pos_64 "web"
  image := BoundedStr.store 64 pos_64 "base"
  imageVersion := BoundedStr.store 65 pos_65 "1"
  running := false
  pid := 0
  startedAt := 1700000000
  paused := false
  exitStatus := 1
  termSignal := 0
  lastExitReason := BoundedStr.store 256 pos_256 "exited"
  usernsEnabled := true
  diskQuotaBytes := 0
  reserveDevices := false
  ipForward := false
  captureRequested := true
  procfuseExpected := 0
  initUp := false
  ready := false
  nets := [⟨BoundedStr.store 16 pos_16 "lan", 0x0A000002#32, BoundedStr.store 16 pos_16 "veth7",
    BoundedStr.store 16 pos_16 "eth0", BoundedStr.store 16 pos_16 ""⟩]
  filePaths := [BoundedStr.store 256 pos_256 "/etc/hosts"]
  dnsServers := [BoundedStr.store 16 pos_16 "10.0.0.1"]
  devices := []
  pendingDevices := []
  interfaces := []
  services := [⟨2, 0, true, 0, 1, 3, 0, 0, -1, BoundedStr.store 1024 pos_1024 "bye"⟩]
  fds := ⟨-1, -1, -1, -1⟩
  initOutputPartial := BoundedStr.store 1024 pos_1024 ""
  capturedOutput := BoundedStr.store 4096 pos_4096 "oops"
  capturedOutputLen := 0

def stoppedRecord : HandoverRecord where
  format := handoverFormat
  writtenBy := BoundedStr.store 64 pos_64 "667"
  writtenAt := 1700000001
  slot := BoundedStr.store 8 pos_8 "a"
  bindAddr := BoundedStr.store 64 pos_64 "0.0.0.0:80"
  uplinkUnattached := BoundedStr.store 64 pos_64 ""
  kmodscan := none
  procfusePid := 0
  procfuseLoadFd := -1
  consoles := [⟨BoundedStr.store 32 pos_32 "tty1", 7⟩]
  containers := [stoppedContainer]

theorem stoppedRecord_buildable : stoppedRecord.Buildable where
  format := rfl
  writtenAt := by decide
  consoles := by decide
  containers := by decide
  each := by
    intro c mem
    rw [mem_singleton.mp mem]
    constructor <;> decide

/-- A record that is read back, and its text without the first key is refused. -/
theorem handover_round_trip_stoppedRecord :
    handoverRead (some (handoverText stoppedRecord)) = .ok stoppedRecord.reread ∧
    ∃ e, handoverRead (some (Doc.obj (recordMembers stoppedRecord).tail).text) = .error e := by
  refine ⟨handover_round_trip.1 stoppedRecord stoppedRecord_buildable, ?_⟩
  apply handover_round_trip.2 _ _ (jsonParse_text _)
  intro complete
  have present := complete.keys "format" mem_cons_self
  revert present
  unfold Present
  decide

/-- The length of the captured output is not read as it was written. -/
theorem stoppedRecord_not_equal : stoppedRecord.Buildable ∧
    handoverRead (some (handoverText stoppedRecord)) ≠
      .ok stoppedRecord := by
  refine ⟨stoppedRecord_buildable, ?_⟩
  rw [handoverRead_handoverText stoppedRecord_buildable]
  intro equality
  injection equality with equality
  have containers := congrArg HandoverRecord.containers equality
  have lengths := congrArg (List.map HandoverContainer.capturedOutputLen) containers
  revert lengths
  decide

end Cix.Handover
