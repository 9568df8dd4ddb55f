import Cix.Net.Slices

/-!
# The DHCP tables agree

An enabled range names servers that are registered, and the static leases are
distinct.  A server that leaves is taken out of each range once, so this rests
on no enabled range naming a server twice.  The file is always the text of
tables that agree, and what was saved is what comes back.
-/

namespace Cix.Net.Dhcp

open Cix.Lib Cix.Json
open List hiding asString

/-! ## The document that is saved -/

def labelDoc (name : Label) : Doc := .str name.text.str

def ipDoc (address : Address) : Doc :=
  if address ≠ 0 then .str (inetNtop address) else .null

def networkMembers (cfg : DhcpNetwork) : List (CStr × Doc) :=
  [("network", labelDoc cfg.network), ("enabled", .bool cfg.enabled),
    ("range_start", ipDoc cfg.rangeStart),
    ("range_end", ipDoc cfg.rangeEnd),
    ("lease_seconds", intDoc cfg.leaseSeconds.toInt),
    ("servers", .arr (cfg.servers.map labelDoc)),
    ("router", ipDoc cfg.router)]

def staticMembers (entry : DhcpStatic) : List (CStr × Doc) :=
  [("mac", .str entry.mac.str), ("ip", .str (inetNtop entry.ip)),
    ("hostname", .str entry.hostname.str)]

def stateMembers (servers : List Label) (networks : List DhcpNetwork)
    (statics : List DhcpStatic) : List (CStr × Doc) :=
  [("servers", .arr (servers.map labelDoc)), ("networks",
      .arr (networks.map fun cfg => .obj (networkMembers cfg))),
    ("static", .arr (statics.map fun entry => .obj (staticMembers entry)))]

theorem networkMembers_distinct (cfg : DhcpNetwork) :
    ((networkMembers cfg).map Prod.fst).Nodup := by
  simp only [networkMembers, map_cons, map_nil]
  decide

theorem staticMembers_distinct (entry : DhcpStatic) :
    ((staticMembers entry).map Prod.fst).Nodup := by
  simp only [staticMembers, map_cons, map_nil]
  decide

theorem stateMembers_distinct (servers : List Label)
    (networks : List DhcpNetwork) (statics : List DhcpStatic) :
    ((stateMembers servers networks statics).map Prod.fst).Nodup := by
  simp only [stateMembers, map_cons, map_nil]
  decide

theorem emits_writeIp (address : Address) : Emits (writeIp address) (ipDoc address) := by
  intro w
  unfold writeIp ipDoc
  split_ifs
  · exact emits_str _ w
  · exact emits_null w

theorem emits_labels (names : List Label) : Emits (fun w => jwArrClose (names.foldl
        (fun w name => jwStr name.text.str w) (jwArrOpen w)))
      (.arr (names.map labelDoc)) :=
  emits_arr fun name _ => emits_str name.text.str

theorem emits_network (cfg : DhcpNetwork) :
    Emits (dhcpNetworkWriteJson cfg) (.obj (networkMembers cfg)) := by
  have network := (emits_str cfg.network.text.str).member "network"
  have enabled := (emits_bool cfg.enabled).member "enabled"
  have ip := fun (name : String) (address : Address) =>
    (emits_writeIp address).member (CStr.ofString name)
  have seconds := (emits_int32 cfg.leaseSeconds).member "lease_seconds"
  have servers := (emits_labels cfg.servers).member "servers"
  have range := ((network.comp enabled).comp
    (ip "range_start" cfg.rangeStart)).comp (ip "range_end" cfg.rangeEnd)
  exact FillsObj.emits (((range.comp seconds).comp servers).comp (ip "router" cfg.router))

theorem emits_static (entry : DhcpStatic) :
    Emits (writeStatic entry) (.obj (staticMembers entry)) := by
  have str := fun (name : String) (s : CStr) =>
    (emits_str s).member (CStr.ofString name)
  exact FillsObj.emits (((str "mac" entry.mac.str).comp
    (str "ip" (inetNtop entry.ip))).comp (str "hostname" entry.hostname.str))

theorem stateText_eq (servers : List Label) (networks : List DhcpNetwork)
    (statics : List DhcpStatic) :
    stateText servers networks statics =
      (Doc.obj (stateMembers servers networks statics)).text := by
  have first := (emits_labels servers).member "servers"
  have second := (emits_arr fun cfg (_ : cfg ∈ networks) =>
    emits_network cfg).member "networks"
  have third := (emits_arr fun entry (_ : entry ∈ statics) =>
    emits_static entry).member "static"
  exact (FillsObj.emits ((first.comp second).comp third)).buf_jwInit

/-! ## Reading it back -/

variable {t : Tables} {servers : List Label} {networks : List DhcpNetwork}

theorem Label.ext {a b : Label} (equal : a.text.str = b.text.str) : a = b := by
  cases a
  cases b
  simp only [Label.mk.injEq]
  exact BoundedStr.ext equal

theorem readLabel_labelDoc (name : Label) : readLabel (labelDoc name).value = some name := by
  simp only [readLabel, labelDoc, Doc.value, asString, Label.read]
  rw [dif_pos name.named]
  apply congrArg some
  apply Label.ext
  exact congrArg BoundedStr.str (BoundedStr.store_str (by decide) name.text)

theorem parseIp_ipDoc (address : Address) :
    parseIp (asString (some (ipDoc address).value)) = address := by
  unfold ipDoc
  split_ifs with given
  · simp only [Doc.value, asString, parseIp, inetPton_inetNtop, Option.getD_some]
  · have isZero := not_not.mp given
    simp only [Doc.value, asString, parseIp, isZero]

theorem readEntries_docs {α : Type} {room : Nat} {read : Value → Option α}
    {doc : α → Doc} {items : List α} (fits : items.length ≤ room)
    (reads : ∀ a ∈ items, read (doc a).value = some a) :
    readEntries room read (some (Doc.arr (items.map doc)).value) = items := by
  rw [Doc.value, Doc.itemValues_eq_map, readEntries,
    filterMap_written id reads, map_id, take_of_length_le fits]

theorem readNetwork_members (cfg : DhcpNetwork) :
    readNetwork (Doc.obj (networkMembers cfg)).value = some cfg := by
  have read := fun (name : String) (doc : Doc)
      (mem : (CStr.ofString name, doc) ∈ networkMembers cfg) =>
    objectGet_member (networkMembers_distinct cfg) mem
  have label := readLabel_labelDoc cfg.network
  rw [readLabel] at label
  have seconds := toInt_intDoc cfg.leaseSeconds
  unfold readNetwork
  simp only [read "network" (labelDoc cfg.network) (by simp [networkMembers]),
    read "enabled" (.bool cfg.enabled) (by simp [networkMembers]),
    read "range_start" (ipDoc cfg.rangeStart) (by simp [networkMembers]),
    read "range_end" (ipDoc cfg.rangeEnd) (by simp [networkMembers]),
    read "lease_seconds" (intDoc cfg.leaseSeconds.toInt) (by simp [networkMembers]),
    read "servers" (.arr (cfg.servers.map labelDoc)) (by simp [networkMembers]),
    read "router" (ipDoc cfg.router) (by simp [networkMembers]),
    label, Option.map_some, parseIp_ipDoc, seconds,
    readEntries_docs cfg.atMost fun name _ => readLabel_labelDoc name]
  rfl

theorem readStatic_members {entry : DhcpStatic} (valid : macIsValid entry.mac.str = true) :
    readStatic (Doc.obj (staticMembers entry)).value = some entry := by
  have read := fun (name : String) (doc : Doc)
      (mem : (CStr.ofString name, doc) ∈ staticMembers entry) =>
    objectGet_member (staticMembers_distinct entry) mem
  unfold readStatic
  simp only [read "mac" (.str entry.mac.str) (by simp [staticMembers]),
    read "ip" (.str (inetNtop entry.ip)) (by simp [staticMembers]),
    read "hostname" (.str entry.hostname.str) (by simp [staticMembers])]
  simp only [Doc.value, asString, valid, if_true, parseIp, inetPton_inetNtop,
    Option.getD_some, BoundedStr.store_str]

theorem dhcpInit_saved {statics : List DhcpStatic}
    (isFile : t.file = some (stateText servers networks statics))
    (fitServers : servers.length ≤ dhcpMaxServers)
    (fitNetworks : networks.length ≤ dhcpMaxNetworks)
    (fitStatics : statics.length ≤ dhcpMaxStatic)
    (macs : ∀ entry ∈ statics, macIsValid entry.mac.str = true) :
    dhcpInit true t =
      { t with
        servers := Slots.ofEntries _ servers
        networks := Slots.ofEntries _ networks
        statics := Slots.ofEntries _ statics } := by
  have read := fun (name : String) (doc : Doc) (mem :
      (CStr.ofString name, doc) ∈ stateMembers servers networks statics) =>
    objectGet_member (stateMembers_distinct servers networks statics) mem
  have root : t.file.bind jsonParse =
      some (Doc.obj (stateMembers servers networks statics)).value := by
    rw [isFile, Option.bind_some, stateText_eq, jsonParse_text]
  unfold dhcpInit
  simp only [if_true, root]
  rw [read "servers" (.arr (servers.map labelDoc)) (by simp [stateMembers]),
    read "networks" (.arr (networks.map fun cfg =>
      .obj (networkMembers cfg))) (by simp [stateMembers]),
    read "static" (.arr (statics.map fun entry =>
      .obj (staticMembers entry))) (by simp [stateMembers]),
    readEntries_docs fitServers fun name _ => readLabel_labelDoc name,
    readEntries_docs fitNetworks fun cfg _ => readNetwork_members cfg,
    readEntries_docs fitStatics fun entry mem =>
      readStatic_members (macs entry mem)]

/-! ## The invariant -/

structure Served (servers : List Label) (cfg : DhcpNetwork) : Prop where
  some : cfg.servers ≠ []
  distinct : cfg.servers.Nodup
  registered : ∀ name ∈ cfg.servers, name ∈ servers

def LeasesDiffer (a b : DhcpStatic) : Prop :=
  a.mac ≠ b.mac ∧ a.ip ≠ b.ip

theorem LeasesDiffer.symm {a b : DhcpStatic} (differ : LeasesDiffer a b) :
    LeasesDiffer b a :=
  ⟨differ.1.symm, differ.2.symm⟩

structure Agree (servers : List Label) (networks : List DhcpNetwork)
    (statics : Slots DhcpStatic dhcpMaxStatic) : Prop where
  ranges : ∀ cfg ∈ networks, cfg.enabled = true → Served servers cfg
  leases : ∀ i j a b, i ≠ j → statics.get i = some a → statics.get j = some b → LeasesDiffer a b
  macs : ∀ entry ∈ statics.entries, macIsValid entry.mac.str = true

def Tables.Agree (t : Tables) : Prop :=
  Dhcp.Agree t.servers.entries t.networks.entries t.statics

structure Inv (t : Tables) : Prop where
  memory : t.Agree
  file : ∀ text, t.file = some text → ∃ saved : Tables,
    text = stateText saved.servers.entries saved.networks.entries
      saved.statics.entries ∧ saved.Agree

theorem agree_empty : Agree [] [] (Slots.empty dhcpMaxStatic) := by
  refine ⟨?_, ?_, ?_⟩
  · intro cfg mem
    cases mem
  · intro i j a b _ held
    rw [Slots.get_empty] at held
    cases held
  · intro entry mem
    rw [Slots.entries_empty] at mem
    cases mem

theorem inv_fresh : Inv Tables.fresh := by
  refine ⟨?_, ?_⟩
  · rw [Tables.Agree, Tables.fresh]
    simp only [Slots.entries_empty]
    exact agree_empty
  · intro text isText
    cases isText

variable {statics : Slots DhcpStatic dhcpMaxStatic}

theorem Inv.saveState {t : Tables} (inv : Inv t)
    {servers : Slots Label dhcpMaxServers}
    {networks : Slots DhcpNetwork dhcpMaxNetworks}
    (agree : Dhcp.Agree servers.entries networks.entries statics)
    (written : Bool) :
    Inv (saveState written ⟨servers, networks, statics, t.file⟩).1 := by
  unfold Dhcp.saveState
  dsimp only
  split
  · exact ⟨agree, inv.file⟩
  · refine ⟨agree, ?_⟩
    intro text isText
    exact ⟨⟨servers, networks, statics, t.file⟩, (Option.some.inj isText).symm, agree⟩

theorem Agree.reloaded
    (agree : Agree servers networks statics) :
    Agree servers networks (Slots.ofEntries _ statics.entries) := by
  refine ⟨agree.ranges, ?_, ?_⟩
  · have apart : statics.entries.Pairwise LeasesDiffer := by
      apply Slots.entries_pairwise
      intro i j a b less
      exact agree.leases i j a b (Nat.ne_of_lt less)
    intro i j a b differ heldA heldB
    rcases Nat.lt_or_gt_of_ne differ with less | greater
    · exact Slots.pairwise_ofEntries apart less heldA heldB
    · exact (Slots.pairwise_ofEntries apart greater heldB heldA).symm
  · intro entry mem
    exact agree.macs entry (Slots.mem_of_mem_ofEntries mem)

theorem dhcpInit_unread {readable : Bool}
    (unread : (if readable then t.file.bind jsonParse else none) = none) :
    dhcpInit readable t =
      { t with
        servers := Slots.empty _
        networks := Slots.empty _
        statics := Slots.empty _ } := by
  unfold dhcpInit
  simp only [unread, objectGet, readEntries, Slots.ofEntries_nil]

theorem dhcpInit_text {saved : Tables} (agree : saved.Agree)
    (isFile : t.file = some (stateText saved.servers.entries
      saved.networks.entries saved.statics.entries)) :
    dhcpInit true t =
      { t with
        servers := Slots.ofEntries _ saved.servers.entries
        networks := Slots.ofEntries _ saved.networks.entries
        statics := Slots.ofEntries _ saved.statics.entries } :=
  dhcpInit_saved isFile (Slots.length_entries_le _)
    (Slots.length_entries_le _) (Slots.length_entries_le _) agree.macs

theorem Inv.init {t : Tables} (inv : Inv t) (readable : Bool) : Inv (dhcpInit readable t) := by
  have unread : (if readable then t.file.bind jsonParse else none) = none →
      Inv (dhcpInit readable t) := by
    intro isNone
    rw [dhcpInit_unread isNone]
    refine ⟨?_, inv.file⟩
    simp only [Tables.Agree, Slots.entries_empty]
    exact agree_empty
  cases readable with
  | false => exact unread rfl
  | true =>
    cases isFile : t.file with
    | none => exact unread (by rw [isFile]; rfl)
    | some text =>
      obtain ⟨saved, isText, agree⟩ := inv.file text isFile
      rw [isText] at isFile
      rw [dhcpInit_text agree isFile]
      refine ⟨?_, inv.file⟩
      simp only [Tables.Agree, Slots.entries_ofEntries (Slots.length_entries_le _)]
      exact agree.reloaded

/-! ## Servers come and go -/

theorem Tables.registered_iff {name : Label} :
    t.dhcpServerIsRegistered name.text.str = true ↔ name ∈ t.servers.entries := by
  rw [Tables.dhcpServerIsRegistered, any_eq_true]
  refine ⟨?_, ?_⟩
  · intro found
    obtain ⟨other, mem, same⟩ := found
    rw [Label.ext (of_decide_eq_true same)] at mem
    exact mem
  · intro mem
    exact ⟨name, mem, decide_eq_true rfl⟩

theorem Served.mono {more : List Label} {cfg : DhcpNetwork}
    (served : Served servers cfg) (subset : servers ⊆ more) : Served more cfg :=
  ⟨served.some, served.distinct, fun name mem =>
    subset (served.registered name mem)⟩

theorem ne_of_mem_eraseP {container : CStr} {names : List Label}
    (distinct : names.Nodup) {name : Label}
    (mem : name ∈ names.eraseP fun other => other.text.str = container) :
    name.text.str ≠ container := by
  induction names with
  | nil => cases mem
  | cons first rest ih =>
    obtain ⟨away, restDistinct⟩ := nodup_cons.mp distinct
    by_cases isFirst : first.text.str = container
    · rw [eraseP_cons_of_pos (by simpa using isFirst)] at mem
      intro same
      apply away
      rw [Label.ext (isFirst.trans same.symm)]
      exact mem
    · rw [eraseP_cons_of_neg (by simpa using isFirst)] at mem
      rcases mem_cons.mp mem with isName | later
      · rw [isName]
        exact isFirst
      · exact ih restDistinct later

theorem Served.without {cfg : DhcpNetwork}
    (served : cfg.enabled = true → Served servers cfg) (container : CStr)
    (enabled : (cfg.without container).enabled = true) :
    Served (servers.filter fun name => name.text.str ≠ container) (cfg.without container) := by
  unfold DhcpNetwork.without at enabled ⊢
  split at enabled
  next mentioned =>
    rw [if_pos mentioned]
    simp only [Bool.and_eq_true, decide_eq_true_eq] at enabled
    have before := served enabled.1
    refine ⟨length_pos_iff.mp (Nat.pos_of_ne_zero enabled.2),
      before.distinct.sublist eraseP_sublist, ?_⟩
    intro name mem
    have inRange := mem_of_mem_eraseP mem
    refine mem_filter.mpr ⟨before.registered name inRange, ?_⟩
    rw [decide_eq_true_eq]
    exact ne_of_mem_eraseP before.distinct mem
  next unmentioned =>
    rw [if_neg unmentioned]
    have before := served enabled
    refine ⟨before.some, before.distinct, ?_⟩
    intro name mem
    refine mem_filter.mpr ⟨before.registered name mem, ?_⟩
    rw [decide_eq_true_eq]
    intro same
    apply unmentioned
    rw [any_eq_true]
    exact ⟨name, mem, decide_eq_true same⟩

theorem Inv.register (inv : Inv t) (container : CStr) (written : Bool) :
    Inv (dhcpServerRegister container written t).1 := by
  unfold dhcpServerRegister
  split
  · exact inv
  next name isName =>
    split
    · exact inv
    · split
      · exact inv
      next slot free =>
        have isFree := (Slots.get_firstFree free).2
        refine inv.saveState ⟨?_, inv.memory.leases, inv.memory.macs⟩ written
        intro cfg mem enabled
        refine (inv.memory.ranges cfg mem enabled).mono ?_
        intro other held
        obtain ⟨i, atI⟩ := Slots.mem_entries_iff_get.mp held
        refine Slots.mem_entries_iff_get.mpr ⟨i, ?_⟩
        rw [Slots.get_put_of_ne, atI]
        intro same
        rw [same, isFree] at atI
        cases atI

theorem Inv.unregister (inv : Inv t) (container : CStr) (written : Bool) :
    Inv (dhcpServerUnregister container written t).1 := by
  unfold dhcpServerUnregister
  split
  · exact inv
  · refine inv.saveState ⟨?_, inv.memory.leases, inv.memory.macs⟩ written
    intro cfg mem enabled
    obtain ⟨i, held⟩ := Slots.mem_entries_iff_get.mp mem
    rw [Slots.get_adjust, Option.map_eq_some_iff] at held
    obtain ⟨before, heldBefore, isCfg⟩ := held
    subst isCfg
    rw [Slots.entries_keep]
    exact Served.without (inv.memory.ranges before
      (Slots.mem_entries_iff_get.mpr ⟨i, heldBefore⟩)) container enabled

theorem Inv.forgetServer (inv : Inv t) (container : CStr) (written : Bool) :
    Inv (dhcpServerForget container written t) := by
  unfold dhcpServerForget
  split
  · exact inv.unregister container written
  · exact inv

/-! ## Ranges -/

theorem Inv.putNetwork (inv : Inv t) {slot : Nat} {cell : Option DhcpNetwork}
    (written : Bool) (served : ∀ cfg, cell = some cfg → cfg.enabled = true →
      Served t.servers.entries cfg) :
    Inv (Dhcp.saveState written
      { t with networks := t.networks.put slot cell }).1 := by
  refine inv.saveState ⟨?_, inv.memory.leases, inv.memory.macs⟩ written
  intro cfg mem enabled
  rcases Slots.mem_entries_put mem with old | new
  · exact inv.memory.ranges cfg old enabled
  · exact served cfg new enabled

theorem Inv.networkDelete (inv : Inv t) (network : CStr) (written : Bool) :
    Inv (dhcpNetworkDelete network written t).1 := by
  unfold dhcpNetworkDelete
  split
  · exact inv
  · apply inv.putNetwork written
    intro cfg assigned
    cases assigned

theorem Tables.registered_of_checked {t : Tables} {h : Host} {network : CStr}
    {servers : List Label} (passed : t.checkServers h network servers = none)
    {name : Label} (mem : name ∈ servers) : name ∈ t.servers.entries := by
  induction servers with
  | nil => cases mem
  | cons first rest ih =>
    rw [Tables.checkServers] at passed
    split at passed
    · cases passed
    next registered =>
      split at passed
      · cases passed
      · rcases mem_cons.mp mem with isFirst | later
        · rw [isFirst]
          exact Tables.registered_iff.mp (Bool.eq_true_of_not_eq_false registered)
        · exact ih passed later

theorem Tables.served_of_checked {h : Host} {net : NetworkDef} {network : CStr}
    {cfg : DhcpNetwork} (passed : t.checkRange h net network cfg = none)
    (distinct : cfg.servers.Nodup) : Served t.servers.entries cfg := by
  unfold Tables.checkRange at passed
  split at passed
  · cases passed
  · split at passed
    · cases passed
    · split at passed
      · cases passed
      next some =>
        split at passed
        · cases passed
        next checked =>
          refine ⟨?_, distinct, ?_⟩
          · intro isNil
            rw [isNil] at some
            exact some rfl
          · intro name mem
            exact Tables.registered_of_checked checked mem

def DhcpEvent.NamesOnce (t : Tables) : DhcpEvent → Prop
  | .put _ network body _ => ∀ root label, jsonParse body = some root →
      Label.read (some network) = some label →
      ((t.existing label).updated root).enabled = true →
      ((t.existing label).updated root).servers.Nodup
  | _ => True

theorem Inv.put (inv : Inv t) {h : Host} {network : CStr} {body : List UInt8}
    {written : Bool} (once : (DhcpEvent.put h network body written).NamesOnce t)
    :
    Inv (handleNetworkDhcpPut h network body written t).1 := by
  unfold handleNetworkDhcpPut
  split
  · exact inv
  · split
    · exact inv
    next root parsed =>
      split
      · exact inv
      next label isLabel =>
        dsimp only
        split
        · exact inv
        next passed =>
          simp only [dhcpNetworkSet]
          split
          · exact inv
          · split
            · exact inv
            · apply inv.putNetwork written
              intro cfg assigned enabled
              cases assigned
              rw [if_pos enabled] at passed
              exact Tables.served_of_checked passed (once root label parsed isLabel enabled)

/-! ## Static leases -/

theorem Agree.addStatic
    (agree : Agree servers networks statics) {slot : Nat} {entry : DhcpStatic}
    (valid : macIsValid entry.mac.str = true)
    (fresh : ∀ i other, statics.get i = some other → LeasesDiffer entry other) :
    Agree servers networks (statics.put slot (some entry)) := by
  refine ⟨agree.ranges, ?_, ?_⟩
  · intro i j a b differ heldA heldB
    rcases Slots.get_of_get_put heldA with ⟨atI, newA⟩ | ⟨_, oldA⟩
    · cases newA
      rcases Slots.get_of_get_put heldB with ⟨atJ, _⟩ | ⟨_, oldB⟩
      · exact absurd (atI.trans atJ.symm) differ
      · exact fresh j b oldB
    · rcases Slots.get_of_get_put heldB with ⟨_, newB⟩ | ⟨_, oldB⟩
      · cases newB
        exact (fresh i a oldA).symm
      · exact agree.leases i j a b differ oldA oldB
  · intro other mem
    rcases Slots.mem_entries_put mem with old | new
    · exact agree.macs other old
    · cases new
      exact valid

theorem Inv.staticAdd (inv : Inv t) (entry : DhcpStatic) (written : Bool) :
    Inv (dhcpStaticAdd entry written t).1 := by
  unfold dhcpStaticAdd
  split
  · exact inv
  next valid =>
    split
    · exact inv
    · split
      · exact inv
      next newMac =>
        split
        · exact inv
        next newIp =>
          split
          · exact inv
          · rw [Bool.not_eq_true, Option.isSome_eq_false_iff, Option.isNone_iff_eq_none] at newMac
            rw [not_or] at valid
            refine inv.saveState (inv.memory.addStatic
              (Bool.eq_true_of_not_eq_false valid.1) ?_) written
            intro i other held
            refine ⟨?_, ?_⟩
            · intro same
              have differs := Slots.find_eq_none newMac held
              rw [decide_eq_false_iff_not] at differs
              exact differs (congrArg BoundedStr.str same).symm
            · intro same
              apply newIp
              rw [any_eq_true]
              exact ⟨other, Slots.mem_entries_iff_get.mpr ⟨i, held⟩, decide_eq_true same.symm⟩

theorem Inv.staticDelete (inv : Inv t) (mac : CStr) (written : Bool) :
    Inv (dhcpStaticDelete mac written t).1 := by
  unfold dhcpStaticDelete
  split
  · exact inv
  · refine inv.saveState ⟨inv.memory.ranges, ?_, ?_⟩ written
    · intro i j a b differ heldA heldB
      rcases Slots.get_of_get_put heldA with ⟨_, new⟩ | ⟨_, oldA⟩
      · cases new
      · rcases Slots.get_of_get_put heldB with ⟨_, new⟩ | ⟨_, oldB⟩
        · cases new
        · exact inv.memory.leases i j a b differ oldA oldB
    · intro entry mem
      rcases Slots.mem_entries_put mem with old | new
      · exact inv.memory.macs entry old
      · cases new

/-! ## Every run -/

theorem Inv.step {t : Tables} (inv : Inv t) {event : DhcpEvent}
    (once : event.NamesOnce t) : Inv (t.step event) := by
  cases event with
  | init readable => exact inv.init readable
  | put h network body written => exact inv.put once
  | networkDelete network written => exact inv.networkDelete network written
  | forgetNetwork network written => exact inv.networkDelete network written
  | register h container written =>
    simp only [Tables.step]
    split
    · exact inv
    · exact inv.register container written
  | unregister container written => exact inv.unregister container written
  | forgetServer container written => exact inv.forgetServer container written
  | staticAdd entry written => exact inv.staticAdd entry written
  | staticDelete mac written => exact inv.staticDelete mac written

def SameRecords (t u : Tables) : Prop :=
  t.servers.entries = u.servers.entries ∧ t.networks.entries = u.networks.entries ∧
    t.statics.entries = u.statics.entries

structure Consistent (t : Tables) : Prop where
  served : ∀ cfg ∈ t.networks.entries, cfg.enabled = true →
    cfg.servers ≠ [] ∧ ∀ name ∈ cfg.servers, t.dhcpServerIsRegistered name.text.str = true
  leases : ∀ i j a b, i ≠ j → t.statics.get i = some a →
    t.statics.get j = some b → a.mac ≠ b.mac ∧ a.ip ≠ b.ip
  reloads : (saveState true t).2 = .ok → SameRecords (dhcpInit true (saveState true t).1) t

theorem Tables.Agree.consistent (agree : t.Agree) : Consistent t := by
  refine ⟨?_, agree.leases, ?_⟩
  · intro cfg mem enabled
    have served := agree.ranges cfg mem enabled
    refine ⟨served.some, ?_⟩
    intro name inRange
    exact Tables.registered_iff.mpr (served.registered name inRange)
  · intro saved
    have isFile : (saveState true t).1.file = some (stateText
        t.servers.entries t.networks.entries t.statics.entries) := by
      unfold saveState at saved ⊢
      dsimp only at saved ⊢
      split at saved
      · cases saved
      next room => rw [if_neg room]
    rw [dhcpInit_text agree isFile]
    exact ⟨Slots.entries_ofEntries (Slots.length_entries_le _),
      Slots.entries_ofEntries (Slots.length_entries_le _),
      Slots.entries_ofEntries (Slots.length_entries_le _)⟩

/-- As long as no request leaves an enabled range that names a server twice,
the tables are consistent in every state. -/
theorem dhcp_tables_consistent (events : List DhcpEvent)
    (once : Guarded Tables.step (fun t event => event.NamesOnce t) Tables.fresh events) :
    Throughout Tables.step Consistent Tables.fresh events := by
  have holds := once.throughout Inv (fun _ _ inv names => inv.step names) inv_fresh
  exact holds.mono fun _ inv => inv.memory.consistent

/-! ## Two runs -/

/-- The network `lan`, 192.168.15.0/24. -/
def lan : NetworkDef :=
  { name := BoundedStr.store 16 pos_16 "lan"
    base := 0xC0A80F00
    prefixLen := 24
    hasAddress := false
    address := 0
    interfaces := []
    allocStartHost := 0
    allocEndHost := 0 }

/-- The network and a container `s` that is attached to it. -/
def lanHost : Host :=
  { net :=
      { State.fresh with nets := (Slots.empty networkMax).put 0 (some lan) }
    entries := (Slots.empty registryMaxContainers).put 0 (some
      { name := BoundedStr.store 64 pos_64 "s"
        running := true
        nets :=
          [{ network := lan.name
             ip := 0xC0A80F01
             live := false
             ifname := BoundedStr.store 16 pos_16 "eth0" }] }) }

def rangeDoc (servers : List String) : Doc :=
  .obj [("enabled", .bool true), ("range_start", .str "192.168.15.10"),
      ("range_end", .str "192.168.15.19"),
      ("servers", .arr (servers.map fun name => .str (CStr.ofString name)))]

def serveAndLeave (servers : List String) : List DhcpEvent :=
  [.init true, .register lanHost "s" true, .put lanHost "lan" (rangeDoc servers).text true,
    .unregister "s" true]

theorem dhcp_tables_consistent_one :
    (run Tables.step Tables.fresh (serveAndLeave ["s"])).networks.entries.map
        (fun cfg => (cfg.enabled, cfg.servers.length)) = [(false, 0)] ∧
      Throughout Tables.step Consistent Tables.fresh (serveAndLeave ["s"]) := by
  refine ⟨by decide +kernel, dhcp_tables_consistent _ ?_⟩
  refine Guarded.cons trivial (Guarded.cons trivial (Guarded.cons ?_
    (Guarded.cons trivial (guarded_nil _ _))))
  intro root label parsed isLabel _
  rw [jsonParse_text] at parsed
  cases parsed
  have isLan : Label.read (some "lan") = some (Dhcp.label "lan" (by decide)) := by decide
  rw [isLan] at isLabel
  cases isLabel
  decide +kernel

/-- The server is gone and the range still names it. -/
theorem twice_named_server_stays : ¬ Consistent
      (run Tables.step Tables.fresh (serveAndLeave ["s", "s"])) := by
  intro consistent
  have facts : (run Tables.step Tables.fresh (serveAndLeave ["s", "s"])).networks.entries.map
        (fun cfg => (cfg.enabled, cfg.servers)) =
      [(true, [label "s" (by decide)])] := by
    decide +kernel
  have gone : (run Tables.step Tables.fresh (serveAndLeave ["s", "s"])).dhcpServerIsRegistered
        (label "s" (by decide)).text.str = false := by
    decide +kernel
  have mem : (true, [label "s" (by decide)]) ∈ (run Tables.step
      Tables.fresh (serveAndLeave ["s", "s"])).networks.entries.map
        (fun cfg => (cfg.enabled, cfg.servers)) := by
    rw [facts]
    exact mem_cons_self
  obtain ⟨cfg, inTable, isCfg⟩ := mem_map.mp mem
  simp only [Prod.mk.injEq] at isCfg
  have served := (consistent.served cfg inTable isCfg.1).2 _ (by rw [isCfg.2]; exact mem_cons_self)
  rw [gone] at served
  cases served

end Cix.Net.Dhcp
