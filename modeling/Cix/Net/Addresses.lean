import Cix.Net.Attachments

/-!
# Addresses do not collide

An address is free when it is chosen and recorded in the same request, so it
differs from every address that is recorded.  Within one request to create a
container the addresses are chosen before any of them is recorded: two entries
for one network may get the same one.
-/

namespace Cix.Net

open Cix.Lib Cix.Json List

/-! ## Windows of reachable networks -/

variable {slot : Nat} {net : NetworkDef} {name : CStr}

structure SizedState (s : State) : Prop where
  nets : ∀ i net, s.nets.get i = some net → net.Sized
  file : ∀ text, s.file = some text → ∃ nets : List NetworkDef,
    text = listText nets ∧ ∀ net ∈ nets, net.Sized

theorem sizedState_fresh : SizedState State.fresh := by
  refine ⟨?_, ?_⟩
  · intro i net held
    rw [State.fresh, Slots.get_empty] at held
    cases held
  · intro text isText
    cases isText

variable {s : State}

theorem SizedState.saveState (sized : SizedState s)
    (written : Bool) : SizedState (saveState written s) := by
  cases written with
  | false => exact sized
  | true =>
    refine ⟨sized.nets, ?_⟩
    intro text isText
    refine ⟨s.nets.entries, (Option.some.inj isText).symm, ?_⟩
    intro net mem
    obtain ⟨i, held⟩ := Slots.mem_entries_iff_get.mp mem
    exact sized.nets i net held

theorem SizedState.update (sized : SizedState s)
    {cell : Option NetworkDef} (written : Bool)
    (fits : ∀ net, cell = some net → net.Sized) :
    SizedState (Net.saveState written
      { s with nets := s.nets.put slot cell }) := by
  apply SizedState.saveState
  refine ⟨?_, sized.file⟩
  intro i net held
  rcases Slots.get_of_get_put held with ⟨_, new⟩ | ⟨_, old⟩
  · exact fits net new
  · exact sized.nets i net old

theorem SizedState.of_find (sized : SizedState s)
    (found : s.networkFind name = some (slot, net)) : net.Sized :=
  sized.nets slot net (Slots.get_of_find found).1

theorem NetworkDef.Sized.withInterfaces (sized : net.Sized) (interfaces : List Interface) :
    { net with interfaces := interfaces }.Sized :=
  ⟨sized.prefixLow, sized.prefixHigh, sized.aligned, sized.goodStart, sized.goodEnd, sized.ordered⟩

theorem SizedState.serve (sized : SizedState s) (event : Event) :
    SizedState (serve s event) := by
  cases event with
  | init applied =>
    simp only [Net.serve, networkInit]
    have cleared : ∀ i (net : NetworkDef),
        (Slots.empty networkMax).get i = some net → net.Sized := by
      intro i net held
      rw [Slots.get_empty] at held
      cases held
    split
    · exact ⟨cleared, sized.file⟩
    next nets legacy parsed =>
      have loaded := loadState_saved NetworkDef.Sized
        (fun valid entry => entry.sized valid) (fun _ good => good)
        sized.file parsed
      split
      · refine ⟨?_, sized.file⟩
        intro i net held
        have position := Slots.getElem?_of_get_ofEntries held
        exact loaded.1 net (mem_of_getElem? position)
      · exact ⟨cleared, sized.file⟩
  | create request kernel written =>
    change SizedState (networkCreate request kernel written s).1
    rcases networkCreate_cases s request kernel written with
      same | ⟨slot, net, created, added⟩
    · rw [same]
      exact sized
    · rw [added]
      apply sized.update true
      intro new assigned
      cases assigned
      exact created.sized
  | delete name inUse opened linkDeleted written =>
    simp only [Net.serve, networkDelete]
    split
    · exact sized
    · split
      · exact sized
      · split
        · exact sized
        · split
          · exact sized
          · apply sized.update written
            intro net assigned
            cases assigned
  | attach name ifname vlanId deviceFree applied written =>
    change SizedState (networkAttachInterface name ifname vlanId deviceFree applied written s).1
    rcases networkAttachInterface_cases name ifname vlanId deviceFree applied written s with
      ⟨error, same⟩ | ⟨slot, net, attached, found, grown⟩
    · rw [same]
      exact sized
    · rw [grown]
      apply sized.update true
      intro changed assigned
      cases assigned
      exact (sized.of_find found).withInterfaces _
  | detach name ifname released written =>
    simp only [Net.serve, networkDetachInterface]
    split
    · exact sized
    next slot net found =>
      split
      · exact sized
      · split
        · exact sized
        · split
          · exact sized
          · apply sized.update written
            intro changed assigned
            cases assigned
            exact (sized.of_find found).withInterfaces _
  | setAllocWindow name allocStart allocEnd written =>
    simp only [Net.serve, networkSetAllocWindow]
    split
    · exact sized
    next slot net found =>
      split
      next first last updatedFirst updatedLast =>
        split
        · exact sized
        next forwards =>
          apply sized.update written
          intro changed assigned
          cases assigned
          exact (sized.of_find found).withWindow updatedFirst updatedLast forwards
      · exact sized
  | setManagementAddress text =>
    simp only [Net.serve, networkSetManagementAddress]
    repeat' split
    all_goals exact ⟨sized.nets, sized.file⟩

theorem SizedState.step (sized : SizedState s) (event : Event) :
    SizedState (step s event) := by
  unfold Net.step
  split
  · exact sized.serve event
  · exact sized

/-! ## Hosts of a subnet -/

variable {ip : Address}

structure NetworkDef.InWindow (net : NetworkDef) (ip : Address) : Prop where
  inside : net.contains ip = true
  first : net.windowStart ≤ (ip - net.base).toNat
  last : ((ip - net.base).toNat : Int) ≤ net.windowEnd

def NetworkDef.hostAddress (net : NetworkDef) (host : Int) : Address :=
  net.base ||| BitVec.ofInt 32 host

theorem NetworkDef.Sized.masked (sized : net.Sized) :
    net.base &&& Subnet.mask 32 net.prefixLen.toNat = net.base := by
  have aligned := sized.aligned
  rw [maskForPrefix_eq sized.prefixLow] at aligned
  have split : net.base &&& Subnet.mask 32 net.prefixLen.toNat |||
      net.base &&& ~~~ Subnet.mask 32 net.prefixLen.toNat = net.base := by
    rw [← BitVec.and_or_distrib_left, BitVec.or_not_self, BitVec.and_allOnes]
  rw [aligned] at split
  exact (BitVec.or_zero).symm.trans split

theorem NetworkDef.Sized.size (sized : net.Sized) : hostMaxForPrefix net.prefixLen =
        ((2 ^ (32 - net.prefixLen.toNat) : Nat) : Int) - 2 ∧
      2 ^ (32 - net.prefixLen.toNat) ≤ 2 ^ 24 := by
  have low := sized.prefixLow
  have high := sized.prefixHigh
  refine ⟨?_, Nat.pow_le_pow_right (by omega) (by omega)⟩
  have width : (32 - net.prefixLen).toNat = 32 - net.prefixLen.toNat := by omega
  rw [hostMaxForPrefix, width]
  push_cast
  rfl

theorem toNat_ofInt_host {host : Int} (low : 1 ≤ host) (high : host < 2 ^ 24) :
    ((BitVec.ofInt 32 host).toNat : Int) = host := by
  rw [BitVec.toNat_ofInt]
  omega

theorem NetworkDef.Sized.hostAddress (sized : net.Sized) {host : Int}
    (low : 1 ≤ host) (high : host ≤ hostMaxForPrefix net.prefixLen) :
    net.contains (net.hostAddress host) = true ∧
      ((net.hostAddress host - net.base).toNat : Int) = host := by
  obtain ⟨maximum, bound⟩ := sized.size
  have number := toNat_ofInt_host low (by omega)
  have small : (BitVec.ofInt 32 host).toNat < 2 ^ (32 - net.prefixLen.toNat) := by omega
  refine ⟨?_, ?_⟩
  · have inside := Subnet.contains_or sized.masked small
    rw [NetworkDef.contains, maskForPrefix_eq sized.prefixLow]
    exact decide_eq_true inside
  · rw [NetworkDef.hostAddress, Subnet.or_sub sized.masked small]
    exact number

theorem NetworkDef.Sized.eq_hostAddress (sized : net.Sized) (inside : net.contains ip = true) :
    net.hostAddress ((ip - net.base).toNat : Int) = ip := by
  rw [NetworkDef.contains, maskForPrefix_eq sized.prefixLow, decide_eq_true_eq] at inside
  rw [NetworkDef.hostAddress, BitVec.ofInt_natCast, BitVec.ofNat_toNat, BitVec.setWidth_eq]
  exact Subnet.or_sub_of_contains sized.masked inside

theorem NetworkDef.InWindow.ne_zero (window : net.InWindow ip) (sized : net.Sized) : ip ≠ 0 := by
  intro isZero
  have inside := window.inside
  have first := window.first
  have low := sized.window.1
  rw [NetworkDef.contains, decide_eq_true_eq, isZero] at inside
  have base : net.base = 0 := by
    rw [← inside]
    exact BitVec.zero_and
  rw [base, isZero] at first
  have hostPart : ((0 : Address) - 0).toNat = 0 := by decide
  omega

/-! ## Allocation -/

variable {h : Host}

theorem Host.allocFrom_some {h : Host} {base exclude ip : Address}
    {turns : Nat} {host : Int}
    (found : h.allocFrom base exclude turns host = some ip) :
    ip ≠ exclude ∧ h.ipInUse ip = false ∧ ∃ number, host ≤ number ∧ number < host + turns ∧
        ip = base ||| BitVec.ofInt 32 number := by
  induction turns generalizing host with
  | zero => cases found
  | succ turns ih =>
    simp only [Host.allocFrom] at found
    have later : h.allocFrom base exclude turns (host + 1) = some ip →
        ip ≠ exclude ∧ h.ipInUse ip = false ∧
          ∃ number, host ≤ number ∧ number < host + (turns + 1 : Nat) ∧
            ip = base ||| BitVec.ofInt 32 number := by
      intro foundLater
      obtain ⟨other, free, number, low, high, isAddress⟩ := ih foundLater
      exact ⟨other, free, number, by omega, by omega, isAddress⟩
    split at found
    · exact later found
    next differs =>
      split at found
      next free =>
        cases found
        exact ⟨differs, free, host, by omega, by omega, rfl⟩
      · exact later found

theorem Host.allocFrom_none {h : Host} {base exclude : Address} {turns : Nat}
    {host : Int} (missing : h.allocFrom base exclude turns host = none)
    {number : Int} (low : host ≤ number) (high : number < host + turns) :
    base ||| BitVec.ofInt 32 number = exclude ∨
      h.ipInUse (base ||| BitVec.ofInt 32 number) = true := by
  induction turns generalizing host with
  | zero => omega
  | succ turns ih =>
    simp only [Host.allocFrom] at missing
    by_cases first : number = host
    · subst first
      split at missing
      next same => exact Or.inl same
      · split at missing
        · cases missing
        next used => exact Or.inr (by simpa using used)
    · have rest : h.allocFrom base exclude turns (host + 1) = none := by
        split at missing
        · exact missing
        · split at missing
          · cases missing
          · exact missing
      exact ih rest (by omega) (by omega)

/-- The address is not handed out: the network's own, or the first host of
the management network as long as no window says where to start. -/
def State.Excluded (s : State) (net : NetworkDef) (ip : Address) : Prop :=
  (net.hasAddress = true ∧ ip = net.address) ∨
    (s.netIsManagement net = true ∧ net.allocStartHost = 0 ∧ (ip - net.base).toNat = 1)

theorem State.allocLow_cases (s : State) (net : NetworkDef) : s.allocLow net = net.windowStart ∨
      (s.netIsManagement net = true ∧ net.allocStartHost = 0 ∧
        net.windowStart = 1 ∧ s.allocLow net = 2) := by
  unfold State.allocLow NetworkDef.windowStart
  by_cases unset : net.allocStartHost = 0
  · cases management : s.netIsManagement net with
    | false => simp
    | true => simp [unset]
  · simp [unset]

theorem State.windowStart_le_allocLow (s : State) (net : NetworkDef) :
    net.windowStart ≤ s.allocLow net := by
  rcases s.allocLow_cases net with same | ⟨-, -, isOne, isTwo⟩ <;> omega

theorem Host.networkIpAvailable_ok
    (found : h.net.networkFind name = some (slot, net)) (sized : net.Sized)
    (window : net.InWindow ip)
    (other : ¬ (net.hasAddress = true ∧ ip = net.address))
    (free : h.ipInUse ip = false) : h.networkIpAvailable name ip = .ok := by
  obtain ⟨low, -, high⟩ := sized.window
  obtain ⟨maximum, bound⟩ := sized.size
  have first := window.first
  have last := window.last
  have number : (ip - net.base).toInt = (ip - net.base).toNat :=
    BitVec.toInt_eq_toNat_of_lt (by omega)
  have inside := window.inside
  rw [NetworkDef.contains, decide_eq_true_eq] at inside
  rw [Host.networkIpAvailable, found]
  simp only [ne_eq]
  rw [if_neg (not_not.mpr inside), if_neg (by omega), if_neg other, free]
  rfl

theorem Host.networkAllocIp_ok (sized : SizedState h.net)
    (allocated : h.networkAllocIp name = .ok ip) :
    ∃ slot net, h.net.networkFind name = some (slot, net) ∧
      net.InWindow ip ∧ h.networkIpAvailable name ip = .ok := by
  unfold Host.networkAllocIp at allocated
  split at allocated
  · cases allocated
  next slot net found =>
    have netSized := sized.of_find found
    obtain ⟨low, -, high⟩ := netSized.window
    have start := h.net.windowStart_le_allocLow net
    simp only at allocated
    split at allocated
    · cases allocated
    · split at allocated
      · cases allocated
      next chosen foundIp =>
        cases allocated
        obtain ⟨differs, free, number, numberLow, numberHigh, isHost⟩ :=
          Host.allocFrom_some foundIp
        have low : 1 ≤ number := by omega
        have high : number ≤ hostMaxForPrefix net.prefixLen := by omega
        obtain ⟨inside, hostPart⟩ := netSized.hostAddress low high
        rw [NetworkDef.hostAddress, ← isHost] at inside hostPart
        have window : net.InWindow ip := ⟨inside, by omega, by omega⟩
        refine ⟨slot, net, found, window, ?_⟩
        apply Host.networkIpAvailable_ok found netSized window ?_ free
        intro own
        rw [if_pos own.1] at differs
        exact differs own.2

theorem Host.networkAllocIp_unavailable (sized : SizedState h.net)
    (failed : h.networkAllocIp name = .error .unavailable)
    (found : h.net.networkFind name = some (slot, net))
    (window : net.InWindow ip) :
    h.ipInUse ip = true ∨ h.net.Excluded net ip := by
  have netSized := sized.of_find found
  unfold Host.networkAllocIp at failed
  rw [found] at failed
  simp only at failed
  split at failed
  · cases failed
  · split at failed
    next missing =>
      have isHost := netSized.eq_hostAddress window.inside
      have first := window.first
      have last := window.last
      rw [Host.registryAllocIp] at missing
      by_cases lowest : h.net.allocLow net ≤ ((ip - net.base).toNat : Int)
      · have outcome := Host.allocFrom_none missing lowest (by omega)
        rw [NetworkDef.hostAddress] at isHost
        rw [isHost] at outcome
        rcases outcome with own | used
        · right
          left
          cases owns : net.hasAddress with
          | true =>
            rw [owns, if_pos rfl] at own
            exact ⟨rfl, own⟩
          | false =>
            -- no host of the subnet is the address 0
            rw [owns, if_neg (by decide)] at own
            exact absurd own (window.ne_zero netSized)
        · exact Or.inl used
      · right
        right
        rcases h.net.allocLow_cases net with
          same | ⟨management, unset, isOne, isTwo⟩
        · omega
        · exact ⟨management, unset, by omega⟩
    · cases failed

/-! ## Attachments -/

def Attachment.Collide (a b : Attachment) : Prop :=
  a.network = b.network ∧ a.ip = b.ip

structure Host.Distinct (h : Host) : Prop where
  within : ∀ i e, h.entries.get i = some e → e.nets.Pairwise fun a b => ¬ a.Collide b
  across : ∀ i j e f, i ≠ j → h.entries.get i = some e →
    h.entries.get j = some f → ∀ a ∈ e.nets, ∀ b ∈ f.nets, ¬ a.Collide b

theorem Host.distinct_of_empty (s : State) :
    Host.Distinct ⟨s, Slots.empty registryMaxContainers⟩ := by
  refine ⟨?_, ?_⟩
  · intro i e held
    rw [Slots.get_empty] at held
    cases held
  · intro i j e f _ held
    rw [Slots.get_empty] at held
    cases held

theorem Host.ipInUse_of_get {i : Nat} {e : Entry}
    (held : h.entries.get i = some e) {a : Attachment} (mem : a ∈ e.nets) :
    h.ipInUse a.ip = true := by
  rw [Host.ipInUse, any_eq_true]
  refine ⟨e, Slots.mem_entries_iff_get.mpr ⟨i, held⟩, ?_⟩
  rw [any_eq_true]
  exact ⟨a, mem, decide_eq_true rfl⟩

theorem Host.Distinct.put (distinct : h.Distinct) {e : Entry}
    (own : e.nets.Pairwise fun a b => ¬ a.Collide b)
    (origin : ∀ a ∈ e.nets, h.ipInUse a.ip = false ∨
      ∃ old, h.entries.get slot = some old ∧ a ∈ old.nets) :
    Host.Distinct { h with entries := h.entries.put slot (some e) } := by
  have separate : ∀ j f, j ≠ slot → h.entries.get j = some f →
      ∀ a ∈ e.nets, ∀ b ∈ f.nets, ¬ a.Collide b := by
    intro j f other held a inE b inF collide
    rcases origin a inE with free | ⟨old, heldOld, inOld⟩
    · rw [collide.2, Host.ipInUse_of_get held inF] at free
      cases free
    · exact distinct.across slot j old f other.symm heldOld held a inOld b inF collide
  refine ⟨?_, ?_⟩
  · intro i f held
    rcases Slots.get_of_get_put held with ⟨_, new⟩ | ⟨_, old⟩
    · cases new
      exact own
    · exact distinct.within i f old
  · intro i j f g differ heldF heldG a inF b inG collide
    rcases Slots.get_of_get_put heldF with ⟨atI, newF⟩ | ⟨awayI, oldF⟩
    · cases newF
      rcases Slots.get_of_get_put heldG with ⟨atJ, _⟩ | ⟨awayJ, oldG⟩
      · exact differ (atI.trans atJ.symm)
      · exact separate j g awayJ oldG a inF b inG collide
    · rcases Slots.get_of_get_put heldG with ⟨atJ, newG⟩ | ⟨awayJ, oldG⟩
      · cases newG
        exact separate i f awayI oldF b inG a inF ⟨collide.1.symm, collide.2.symm⟩
      · exact distinct.across i j f g differ oldF oldG a inF b inG collide

theorem Host.free_of_available (available : h.networkIpAvailable name ip = .ok) :
    h.ipInUse ip = false := by
  unfold Host.networkIpAvailable at available
  split at available
  · cases available
  · split_ifs at available with _ _ _ used
    simpa using used

theorem Host.attachment_free {h : Host} (sized : SizedState h.net)
    {entry : NetworkEntry} {position : Nat} {a : Attachment}
    (given : ∀ ip, entry.ip = some ip → h.networkIpAvailable entry.network.str ip = .ok)
    (planned : h.attachment entry position = some a) :
    a.network = entry.network ∧ h.ipInUse a.ip = false := by
  simp only [Host.attachment, Option.map_eq_some_iff] at planned
  obtain ⟨ip, address, isAttachment⟩ := planned
  subst isAttachment
  refine ⟨rfl, ?_⟩
  cases chosen : entry.ip with
  | some wanted =>
    rw [chosen] at address
    cases address
    exact Host.free_of_available (given ip chosen)
  | none =>
    rw [chosen] at address
    simp only at address
    split at address
    next allocated isAllocated =>
      cases address
      obtain ⟨_, _, _, _, available⟩ := Host.networkAllocIp_ok sized isAllocated
      exact Host.free_of_available available
    · cases address

theorem Host.planned {h : Host} (sized : SizedState h.net)
    {requested : List NetworkEntry} {start : Nat} {nets : List Attachment}
    (given : ∀ entry ∈ requested, ∀ ip, entry.ip = some ip →
      h.networkIpAvailable entry.network.str ip = .ok)
    (planned : ((requested.zipIdx start).mapM fun (entry, position) =>
      h.attachment entry position) = some nets) :
    nets.map Attachment.network = requested.map NetworkEntry.network ∧
      ∀ a ∈ nets, h.ipInUse a.ip = false := by
  induction requested generalizing start nets with
  | nil =>
    cases planned
    exact ⟨rfl, fun a mem => by cases mem⟩
  | cons entry rest ih =>
    rw [zipIdx_cons, mapM_cons] at planned
    simp only [Option.bind_eq_bind, Option.bind_eq_some_iff,
      Option.pure_def, Option.some.injEq] at planned
    obtain ⟨a, first, others, later, isNets⟩ := planned
    subst isNets
    obtain ⟨network, free⟩ := Host.attachment_free sized (given entry mem_cons_self) first
    obtain ⟨networks, allFree⟩ := ih (fun other mem => given other (mem_cons_of_mem _ mem)) later
    refine ⟨by simp only [map_cons, network, networks], ?_⟩
    intro b mem
    rcases mem_cons.mp mem with isFirst | inOthers
    · subst isFirst
      exact free
    · exact allFree b inOthers

theorem pairwise_of_nodup {nets : List Attachment}
    (networks : (nets.map Attachment.network).Nodup) :
    nets.Pairwise fun a b => ¬ a.Collide b := by
  have apart := pairwise_map.mp networks
  exact apart.imp fun differ collide => differ collide.1

def HostEvent.NamesOnce : HostEvent → Prop
  | .create _ requested _ _ => (requested.map NetworkEntry.network).Nodup
  | _ => True

theorem Host.Distinct.createContainer (distinct : h.Distinct)
    (sized : SizedState h.net) {name : BoundedStr 64}
    {requested : List NetworkEntry} (admits cloned : Bool)
    (once : (requested.map NetworkEntry.network).Nodup) :
    (h.createContainer name requested admits cloned).Distinct := by
  unfold Host.createContainer
  split
  · exact distinct
  next refused =>
    have passed : h.networksPass requested = true := by
      cases pass : h.networksPass requested with
      | false => exact absurd (Or.inl pass) refused
      | true => rfl
    have given : ∀ entry ∈ requested, ∀ ip, entry.ip = some ip →
        h.networkIpAvailable entry.network.str ip = .ok := by
      intro entry mem ip isIp
      simp only [Host.networksPass, Bool.and_eq_true, all_eq_true] at passed
      have checked := (passed.2 entry mem).2
      rw [isIp, Option.all_some] at checked
      exact of_decide_eq_true checked
    split
    · exact distinct
    next nets planned =>
      obtain ⟨networks, free⟩ := Host.planned sized given planned
      split
      · exact distinct
      · split
        · apply distinct.put
          · apply pairwise_of_nodup
            rw [networks]
            exact once
          · exact fun a mem => Or.inl (free a mem)
        · exact distinct

theorem Host.Distinct.networkAttach (distinct : h.Distinct)
    (sized : SizedState h.net) (container : CStr) (entry : NetworkEntry)
    (attached : Bool) :
    (h.networkAttach container entry attached).Distinct := by
  unfold Host.networkAttach
  split
  · exact distinct
  next slot e found =>
    have held := (Slots.get_of_find found).1
    split
    · exact distinct
    · split
      · exact distinct
      next available =>
        split
        · exact distinct
        next planned isPlanned =>
          have free : h.ipInUse planned.ip = false := by
            refine (Host.attachment_free sized ?_ isPlanned).2
            intro ip isIp
            rw [isIp, Option.any_some] at available
            simpa using available
          split
          · exact distinct
          · split
            · exact distinct
            next changed recorded =>
              unfold registryNetworkAttach at recorded
              split at recorded
              · cases recorded
              · cases recorded
                apply distinct.put
                · rw [pairwise_append]
                  refine ⟨distinct.within slot e held, pairwise_singleton _ _, ?_⟩
                  intro a mem b isNew collide
                  rw [mem_singleton] at isNew
                  subst isNew
                  have used := Host.ipInUse_of_get held mem
                  rw [collide.2] at used
                  rw [used] at free
                  cases free
                · intro a mem
                  rcases mem_append.mp mem with old | new
                  · exact Or.inr ⟨e, held, old⟩
                  · rw [mem_singleton] at new
                    subst new
                    exact Or.inl free

theorem Host.Distinct.shrink (distinct : h.Distinct) {e changed : Entry}
    (held : h.entries.get slot = some e) (kept : changed.nets.Sublist e.nets) :
    Host.Distinct { h with
      entries := h.entries.put slot (some changed) } := by
  apply distinct.put
  · exact (distinct.within slot e held).sublist kept
  · exact fun a mem => Or.inr ⟨e, held, kept.subset mem⟩

theorem Host.Distinct.step {h : Host} (distinct : h.Distinct)
    (sized : SizedState h.net) {event : HostEvent} (once : event.NamesOnce) :
    (h.step event).Distinct := by
  cases event with
  | network event =>
    simp only [Host.step]
    split
    · exact Host.distinct_of_empty _
    · exact ⟨distinct.within, distinct.across⟩
  | create name requested admits cloned =>
    exact distinct.createContainer sized admits cloned once
  | attach container entry attached =>
    exact distinct.networkAttach sized container entry attached
  | detach container network =>
    simp only [Host.step, Host.networkDetach]
    split
    · exact distinct
    next slot e found =>
      have held := (Slots.get_of_find found).1
      split
      · exact distinct
      · split
        · exact distinct
        · split
          · exact distinct
          · exact distinct.shrink held (eraseIdx_sublist _ _)
  | exited container =>
    simp only [Host.step, Host.markExited]
    split
    · exact distinct
    next slot e found =>
      have held := (Slots.get_of_find found).1
      exact distinct.shrink held (List.Sublist.refl _)
  | remove container =>
    simp only [Host.step, Host.registryRemove]
    split
    · exact distinct
    next slot e found =>
      split
      · exact distinct
      · refine ⟨?_, ?_⟩
        · intro i f held
          rcases Slots.get_of_get_put held with ⟨_, new⟩ | ⟨_, old⟩
          · cases new
          · exact distinct.within i f old
        · intro i j f g differ heldF heldG
          rcases Slots.get_of_get_put heldF with ⟨_, new⟩ | ⟨_, oldF⟩
          · cases new
          · rcases Slots.get_of_get_put heldG with ⟨_, new⟩ | ⟨_, oldG⟩
            · cases new
            · exact distinct.across i j f g differ oldF oldG

/-! ## Every run -/

theorem Host.step_net (h : Host) (event : HostEvent) : (h.step event).net = h.net ∨
      ∃ netEvent, (h.step event).net = Net.step h.net netEvent := by
  cases event with
  | network event => exact Or.inr ⟨h.answered event, rfl⟩
  | create name requested admits cloned =>
    left
    simp only [Host.step, Host.createContainer]
    repeat' split
    all_goals rfl
  | attach container entry attached =>
    left
    simp only [Host.step, Host.networkAttach]
    repeat' split
    all_goals rfl
  | detach container network =>
    left
    simp only [Host.step, Host.networkDetach]
    repeat' split
    all_goals rfl
  | exited container =>
    left
    simp only [Host.step, Host.markExited]
    split <;> rfl
  | remove container =>
    left
    simp only [Host.step, Host.registryRemove]
    repeat' split
    all_goals rfl

theorem Host.sized_step (sized : SizedState h.net) (event : HostEvent) :
    SizedState (h.step event).net := by
  rcases h.step_net event with same | ⟨netEvent, stepped⟩
  · rw [same]
    exact sized
  · rw [stepped]
    exact sized.step netEvent

theorem Host.sized_run (events : List HostEvent) :
    SizedState (run Host.step Host.fresh events).net :=
  run_invariant_of_step (fun h : Host => SizedState h.net)
    (fun _ event sized => Host.sized_step sized event) sizedState_fresh
    events

theorem Host.distinct_run {events : List HostEvent} (once : ∀ event ∈ events, event.NamesOnce) :
    (run Host.step Host.fresh events).Distinct := by
  have guarded : Guarded Host.step (fun _ event => event.NamesOnce)
      Host.fresh events := by
    intro before event after equality
    apply once
    simp [equality]
  have holds := guarded.throughout (fun h => SizedState h.net ∧ h.Distinct)
    (fun h event inv names =>
      ⟨Host.sized_step inv.1 event, inv.2.step inv.1 names⟩)
    ⟨sizedState_fresh, Host.distinct_of_empty _⟩
  exact holds.last.2

/-- What `network_alloc_ip` answers for a network, in that state. -/
structure Host.AllocSound (h : Host) (name : CStr) : Prop where
  available : ∀ ip, h.networkAllocIp name = .ok ip →
    ∃ slot net, h.net.networkFind name = some (slot, net) ∧
      net.InWindow ip ∧ h.networkIpAvailable name ip = .ok
  refused : h.networkAllocIp name = .error .undeclaredPool →
    ∃ slot net, h.net.networkFind name = some (slot, net) ∧
      net.interfaces ≠ [] ∧ net.allocStartHost = 0 ∧ net.allocEndHost = 0
  exhausted : h.networkAllocIp name = .error .unavailable →
    ∀ slot net, h.net.networkFind name = some (slot, net) →
      ∀ ip, net.InWindow ip → h.ipInUse ip = true ∨ h.net.Excluded net ip

theorem Host.networkAllocIp_undeclared (failed : h.networkAllocIp name = .error .undeclaredPool) :
    ∃ slot net, h.net.networkFind name = some (slot, net) ∧
      net.interfaces ≠ [] ∧ net.allocStartHost = 0 ∧ net.allocEndHost = 0 := by
  unfold Host.networkAllocIp at failed
  split at failed
  · cases failed
  next slot net found =>
    simp only at failed
    split at failed
    next bridged => exact ⟨slot, net, found, length_pos_iff.mp bridged.1, bridged.2⟩
    · split at failed <;> cases failed

/-- In every reachable state an address that is handed out is a free one of
the window, and none is handed out only when the network is bridged without a
declared pool or nothing is left of the window.  As long as no container is
created with two attachments to one network, no two attachments hold the same
address of one network. -/
theorem addresses_never_collide (events : List HostEvent) :
    (∀ name, (run Host.step Host.fresh events).AllocSound name) ∧
      ((∀ event ∈ events, event.NamesOnce) → (run Host.step Host.fresh events).Distinct) := by
  have sized := Host.sized_run events
  refine ⟨?_, fun once => Host.distinct_run once⟩
  intro name
  exact
    { available := fun ip allocated => Host.networkAllocIp_ok sized allocated
      refused := fun failed => Host.networkAllocIp_undeclared failed
      exhausted := fun failed slot net found ip window =>
        Host.networkAllocIp_unavailable sized failed found window }

/-! ## Runs with one network -/

/-- A network `192.168.15.0/24` without a window. -/
def plainRequest : CreateRequest :=
  { name := "lan"
    subnet := "192.168.15.0"
    prefixLen := 24
    address := none
    allocStart := none
    allocEnd := none }

def plainNetwork : List HostEvent :=
  [.network (.init true), .network (.create plainRequest kernelAgrees true)]

def anyAddress : NetworkEntry :=
  { network := BoundedStr.store 16 pos_16 "lan"
    ip := none
    ifname := BoundedStr.store 16 pos_16 ""
    bridge := BoundedStr.store 16 pos_16 "" }

def containerName (name : String) : BoundedStr 64 :=
  BoundedStr.store 64 pos_64 (CStr.ofString name)

def twoContainers : List HostEvent :=
  plainNetwork ++ [.create (containerName "a") [anyAddress] true true,
      .create (containerName "b") [anyAddress] true true]

theorem addresses_never_collide_two : (run Host.step Host.fresh twoContainers).entries.entries.map
        (fun e => e.nets.map Attachment.ip) =
      [[0xC0A80F01], [0xC0A80F02]] ∧
      (run Host.step Host.fresh twoContainers).Distinct := by
  refine ⟨by decide +kernel, (addresses_never_collide twoContainers).2 ?_⟩
  intro event mem
  simp only [twoContainers, plainNetwork, cons_append, nil_append,
    mem_cons, not_mem_nil, or_false] at mem
  rcases mem with isEvent | isEvent | isEvent | isEvent <;> subst isEvent
  · trivial
  · trivial
  · exact nodup_singleton _
  · exact nodup_singleton _

def bridgedNetwork : List HostEvent :=
  plainNetwork ++ [.network (.attach "lan" "eth0" 0 true true true)]

def twiceAttached : List HostEvent :=
  plainNetwork ++ [.create (containerName "a") [anyAddress, anyAddress] true true]

/-- A bridged network without a window hands out none of its free addresses,
and a container that is created with two attachments to one network gets one
address twice. -/
theorem bridged_network_refuses : (¬ ∀ events name failure slot net ip,
      (run Host.step Host.fresh events).networkAllocIp name = .error failure →
      (run Host.step Host.fresh events).net.networkFind name = some (slot, net) →
      net.InWindow ip →
      (run Host.step Host.fresh events).ipInUse ip = true ∨
        (run Host.step Host.fresh events).net.Excluded net ip) ∧
    ¬ ∀ events, (run Host.step Host.fresh events).Distinct := by
  refine ⟨?_, ?_⟩
  · intro always
    have failed : (run Host.step Host.fresh bridgedNetwork).networkAllocIp
        "lan" = .error .undeclaredPool := by
      decide +kernel
    obtain ⟨slot, net, found, -⟩ := Host.networkAllocIp_undeclared failed
    have facts : ((run Host.step Host.fresh bridgedNetwork).net.networkFind
        "lan").map (fun cell => (cell.2.base,
          cell.2.prefixLen, cell.2.hasAddress, cell.2.allocStartHost,
          cell.2.allocEndHost)) =
        some (0xC0A80F00, 24, false, 0, 0) := by
      decide +kernel
    rw [found] at facts
    simp only [Option.map_some, Option.some.injEq, Prod.mk.injEq] at facts
    obtain ⟨base, prefixLen, own, first, last⟩ := facts
    have window : net.InWindow 0xC0A80F07 := by
      refine ⟨?_, ?_, ?_⟩
      · rw [NetworkDef.contains, base, prefixLen]
        decide +kernel
      · rw [NetworkDef.windowStart, base, first]
        decide +kernel
      · rw [NetworkDef.windowEnd, base, prefixLen, last]
        decide +kernel
    rcases always _ _ _ slot net _ failed found window with used | excluded
    · have free : (run Host.step Host.fresh bridgedNetwork).ipInUse 0xC0A80F07 = false := by
        decide +kernel
      rw [free] at used
      cases used
    · rcases excluded with ⟨has, -⟩ | ⟨-, -, isFirst⟩
      · rw [own] at has
        cases has
      · rw [base] at isFirst
        exact absurd isFirst (by decide)
  · intro always
    have distinct := always twiceAttached
    have facts : ((run Host.step Host.fresh twiceAttached).entries.get
        0).map (fun e => e.nets.map fun a => (a.network, a.ip)) =
        some [(anyAddress.network, 0xC0A80F01), (anyAddress.network, 0xC0A80F01)] := by
      decide +kernel
    obtain ⟨e, held, nets⟩ := Option.map_eq_some_iff.mp facts
    have apart := pairwise_map.mpr ((distinct.within 0 e held).imp
      (fun {a b} differ => show (a.network, a.ip) ≠ (b.network, b.ip) from
        fun same => differ ⟨congrArg Prod.fst same, congrArg Prod.snd same⟩))
    rw [nets] at apart
    simp at apart

end Cix.Net
