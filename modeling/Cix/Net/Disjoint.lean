import Cix.Json.Roundtrip
import Cix.Lib.Machine
import Cix.Net.Networks

/-!
# Networks never overlap

Names and ranges are compared by `network_create` and again by the loader, so
they are apart in every run.  The own address and the window are not looked at
when the file is read: that a loaded network has good ones follows from the
file being the text of a table that had good ones.
-/

namespace Cix.Net

open Cix.Lib Cix.Json
open List hiding asString

/-! ## Addresses survive their text -/

theorem octet_natText {n : Nat} (small : n ≤ 255) : octet (natText n) = some n := by
  have digits : (natText n).all isDigit = true :=
    all_eq_true.mpr fun _ mem => isDigit_of_mem_natText mem
  have short : (natText n).length = 1 ∨ (natText n).head? ≠ some 48 := by
    by_cases zero : n = 0
    · left
      simp [natText, zero]
    · exact Or.inr (natText_head zero)
  rw [octet, digitsValue_natText, if_pos ⟨natText_ne_nil n, digits, short, small⟩]

theorem inetNtop_bytes (a : Address) :
    (inetNtop a).bytes = [46].intercalate ((octets a).map natText) := by
  apply takeWhile_eq_self_iff.mpr
  intro byte mem
  have nonzero : ∀ n, ∀ b ∈ natText n, b ≠ 0 := by
    intro n b inText zero
    subst zero
    exact not_mem_natText n (by decide) inText
  simp only [octets, map_cons, map_nil, List.intercalate,
    List.intersperse, flatten_cons, flatten_nil, mem_append,
    append_nil, mem_singleton] at mem
  have : byte ≠ 0 := by
    rcases mem with h | rfl | h | rfl | h | rfl | h
    · exact nonzero _ _ h
    · decide
    · exact nonzero _ _ h
    · decide
    · exact nonzero _ _ h
    · decide
    · exact nonzero _ _ h
  simpa using this

theorem inetPton_inetNtop (a : Address) : inetPton (inetNtop a) = some a := by
  have pieces : (inetNtop a).bytes.splitOn 46 = (octets a).map natText := by
    rw [inetNtop_bytes]
    apply splitOn_intercalate
    · intro piece mem
      obtain ⟨n, _, rfl⟩ := mem_map.mp mem
      exact not_mem_natText n (by decide)
    · simp [octets]
  have bound := a.isLt
  rw [inetPton, pieces]
  simp only [octets, map_cons, map_nil]
  rw [octet_natText (by omega), octet_natText (by omega),
    octet_natText (by omega), octet_natText (by omega)]
  have whole : ((a.toNat / 2 ^ 24 * 256 + a.toNat / 2 ^ 16 % 256) * 256 +
      a.toNat / 2 ^ 8 % 256) * 256 + a.toNat % 256 = a.toNat := by
    omega
  simp only [whole, BitVec.ofNat_toNat, BitVec.setWidth_eq]

/-! ## What a good network is -/

variable {net : NetworkDef} {prefixLen : Int}

def broadcast (base : Address) (prefixLen : Int) : Address :=
  base ||| ~~~ maskForPrefix prefixLen

def NetworkDef.IsHost (net : NetworkDef) (address : Address) : Prop :=
  net.contains address = true ∧ address ≠ net.base ∧ address ≠ broadcast net.base net.prefixLen

def NetworkDef.windowStart (net : NetworkDef) : Int :=
  if net.allocStartHost > 0 then net.allocStartHost else 1

def NetworkDef.windowEnd (net : NetworkDef) : Int :=
  if net.allocEndHost > 0 then net.allocEndHost
  else hostMaxForPrefix net.prefixLen

def GoodBound (host prefixLen : Int) : Prop :=
  0 ≤ host ∧ host ≤ hostMaxForPrefix prefixLen

structure NetworkDef.Valid (net : NetworkDef) : Prop where
  prefixLow : 8 ≤ net.prefixLen
  prefixHigh : net.prefixLen ≤ 30
  aligned : net.base &&& ~~~ maskForPrefix net.prefixLen = 0
  ownAddress : net.hasAddress = true → net.IsHost net.address
  goodStart : GoodBound net.allocStartHost net.prefixLen
  goodEnd : GoodBound net.allocEndHost net.prefixLen
  ordered : net.allocStartHost ≠ 0 → net.allocEndHost ≠ 0 → net.allocStartHost ≤ net.allocEndHost

structure NetworkDef.Sized (net : NetworkDef) : Prop where
  prefixLow : 8 ≤ net.prefixLen
  prefixHigh : net.prefixLen ≤ 30
  aligned : net.base &&& ~~~ maskForPrefix net.prefixLen = 0
  goodStart : GoodBound net.allocStartHost net.prefixLen
  goodEnd : GoodBound net.allocEndHost net.prefixLen
  ordered : net.allocStartHost ≠ 0 → net.allocEndHost ≠ 0 → net.allocStartHost ≤ net.allocEndHost

theorem NetworkDef.Valid.sized (valid : net.Valid) : net.Sized :=
  ⟨valid.prefixLow, valid.prefixHigh, valid.aligned, valid.goodStart, valid.goodEnd, valid.ordered⟩

theorem NetworkDef.Sized.valid (sized : net.Sized)
    (own : net.hasAddress = true → net.IsHost net.address) : net.Valid :=
  ⟨sized.prefixLow, sized.prefixHigh, sized.aligned, own, sized.goodStart,
    sized.goodEnd, sized.ordered⟩

def Apart (x y : NetworkDef) : Prop :=
  x.name ≠ y.name ∧ rangesOverlap x.base x.prefixLen y.base y.prefixLen = false

theorem rangesOverlap_comm (a b : Address) (p q : Int) :
    rangesOverlap a p b q = rangesOverlap b q a p := by
  have common : (if p < q then p else q) = if q < p then q else p := by split_ifs <;> omega
  simp only [rangesOverlap, common, eq_comm]

theorem Apart.symm {x y : NetworkDef} (apart : Apart x y) : Apart y x := by
  refine ⟨apart.1.symm, ?_⟩
  rw [rangesOverlap_comm]
  exact apart.2

theorem hostMax_pos (high : prefixLen ≤ 30) : 2 ≤ hostMaxForPrefix prefixLen := by
  have wide : 2 ≤ (32 - prefixLen).toNat := by omega
  have grows : 2 ^ 2 ≤ 2 ^ (32 - prefixLen).toNat := Nat.pow_le_pow_right (by omega) wide
  have cast : ((2 ^ (32 - prefixLen).toNat : Nat) : Int) = 2 ^ (32 - prefixLen).toNat := by
    push_cast
    rfl
  rw [hostMaxForPrefix, ← cast]
  omega

theorem NetworkDef.Sized.window (valid : net.Sized) :
    1 ≤ net.windowStart ∧ net.windowStart ≤ net.windowEnd ∧
      net.windowEnd ≤ hostMaxForPrefix net.prefixLen := by
  have hosts := hostMax_pos valid.prefixHigh
  obtain ⟨startLow, startHigh⟩ := valid.goodStart
  obtain ⟨endLow, endHigh⟩ := valid.goodEnd
  have ordered := valid.ordered
  unfold NetworkDef.windowStart NetworkDef.windowEnd
  split_ifs <;> omega

theorem maskForPrefix_eq (low : 8 ≤ prefixLen) :
    maskForPrefix prefixLen = Subnet.mask 32 prefixLen.toNat := by
  rw [maskForPrefix, if_neg (by omega)]

theorem Apart.disjoint {x y : NetworkDef} (apart : Apart x y)
    (lowX : 8 ≤ x.prefixLen) (lowY : 8 ≤ y.prefixLen) (a : Address) :
    ¬ (x.contains a = true ∧ y.contains a = true) := by
  intro both
  obtain ⟨inX, inY⟩ := both
  simp only [NetworkDef.contains, decide_eq_true_eq,
    maskForPrefix_eq lowX, maskForPrefix_eq lowY] at inX inY
  have overlap : Subnet.Overlap x.base x.prefixLen.toNat y.base
      y.prefixLen.toNat := Subnet.overlap_of_contains inX inY
  have common : (if x.prefixLen < y.prefixLen then x.prefixLen
      else y.prefixLen).toNat =
      min x.prefixLen.toNat y.prefixLen.toNat := by
    split_ifs <;> omega
  have low : 8 ≤ if x.prefixLen < y.prefixLen then x.prefixLen
      else y.prefixLen := by
    split_ifs <;> assumption
  have distinct := apart.2
  simp only [rangesOverlap, maskForPrefix_eq low, common, decide_eq_false_iff_not] at distinct
  exact distinct overlap

/-! ## The invariant -/

variable {slot : Nat} {s : State}

/-- What holds of the table between two requests. -/
structure Tidy (nets : Slots NetworkDef networkMax) : Prop where
  valid : ∀ i net, nets.get i = some net → net.Valid
  apart : ∀ i j x y, i ≠ j → nets.get i = some x → nets.get j = some y → Apart x y

/-- A file that `save_state` can have written. -/
def GoodFile (file : Option (List UInt8)) : Prop :=
  ∀ text, file = some text → ∃ nets : List NetworkDef, text = listText nets ∧
      ∀ net ∈ nets, net.Valid

structure Inv (s : State) : Prop where
  tidy : Tidy s.nets
  file : GoodFile s.file

theorem tidy_empty : Tidy (Slots.empty networkMax) := by
  constructor
  · intro i net held
    rw [Slots.get_empty] at held
    cases held
  · intro i j x y _ held
    rw [Slots.get_empty] at held
    cases held

theorem inv_fresh : Inv State.fresh := by
  refine ⟨tidy_empty, ?_⟩
  intro text held
  cases held

/-- The network can stand in the slot beside the others. -/
def Fits (nets : Slots NetworkDef networkMax) (slot : Nat) (net : NetworkDef) : Prop :=
  net.Valid ∧ ∀ j other, j ≠ slot → nets.get j = some other → Apart other net

theorem Tidy.put {nets : Slots NetworkDef networkMax} (tidy : Tidy nets)
    {cell : Option NetworkDef}
    (fits : ∀ net, cell = some net → Fits nets slot net) :
    Tidy (nets.put slot cell) := by
  constructor
  · intro i net held
    rcases Slots.get_of_get_put held with ⟨_, new⟩ | ⟨_, old⟩
    · exact (fits net new).1
    · exact tidy.valid i net old
  · intro i j x y different heldX heldY
    rcases Slots.get_of_get_put heldX with ⟨atX, newX⟩ | ⟨offX, oldX⟩
    · rcases Slots.get_of_get_put heldY with ⟨atY, _⟩ | ⟨offY, oldY⟩
      · exact absurd (atX.trans atY.symm) different
      · exact ((fits x newX).2 j y offY oldY).symm
    · rcases Slots.get_of_get_put heldY with ⟨_, newY⟩ | ⟨_, oldY⟩
      · exact (fits y newY).2 i x offX oldX
      · exact tidy.apart i j x y different oldX oldY

theorem Inv.saveState {s : State} (inv : Inv s) (written : Bool) : Inv (saveState written s) := by
  cases written with
  | false => exact inv
  | true =>
    refine ⟨inv.tidy, ?_⟩
    intro text held
    refine ⟨s.nets.entries, (Option.some.inj held).symm, ?_⟩
    intro net mem
    obtain ⟨i, heldNet⟩ := Slots.mem_entries_iff_get.mp mem
    exact inv.tidy.valid i net heldNet

theorem Inv.update (inv : Inv s) {cell : Option NetworkDef} (written : Bool)
    (fits : ∀ net, cell = some net → Fits s.nets slot net) :
    Inv (Net.saveState written
      { s with nets := s.nets.put slot cell }) := by
  apply Inv.saveState
  exact ⟨inv.tidy.put fits, inv.file⟩

/-! ## Requests -/

variable {name : CStr}

variable {base : Address}

theorem toInt_sub_of_contains {a : Address} (low : 8 ≤ prefixLen)
    (inside : a &&& maskForPrefix prefixLen = base) :
    (a - base).toInt = (a - base).toNat := by
  rw [maskForPrefix_eq low] at inside
  have small := Subnet.toNat_sub_lt_of_contains inside
  have narrow : 2 ^ (32 - prefixLen.toNat) ≤ 2 ^ 24 :=
    Nat.pow_le_pow_right (by omega) (by omega)
  rw [BitVec.toInt_eq_toNat_of_lt (by omega)]

theorem goodBound_zero (high : prefixLen ≤ 30) : GoodBound 0 prefixLen := by
  have hosts := hostMax_pos high
  exact ⟨by omega, by omega⟩

theorem goodBound_of_parseAllocBound {text : Option CStr}
    {prefixLen host : Int} (low : 8 ≤ prefixLen) (high : prefixLen ≤ 30)
    (parsed : parseAllocBound text base prefixLen = some host) :
    GoodBound host prefixLen := by
  cases text with
  | none =>
    cases parsed
    exact goodBound_zero high
  | some text =>
    rw [parseAllocBound] at parsed
    split_ifs at parsed with nothing
    · cases parsed
      exact goodBound_zero high
    · cases address : inetPton text with
      | none => simp [address] at parsed
      | some a =>
        simp only [address] at parsed
        split_ifs at parsed with outside numbers
        cases parsed
        rw [not_not] at outside
        have positive := toInt_sub_of_contains low outside
        exact ⟨by omega, by omega⟩

theorem goodBound_of_updatedBound {text : Option CStr}
    {prefixLen current host : Int} (low : 8 ≤ prefixLen)
    (high : prefixLen ≤ 30) (good : GoodBound current prefixLen)
    (updated : updatedBound text current base prefixLen = some host) :
    GoodBound host prefixLen := by
  cases text with
  | none =>
    cases updated
    exact good
  | some text =>
    rw [updatedBound] at updated
    split_ifs at updated with nothing
    · cases updated
      exact goodBound_zero high
    · exact goodBound_of_parseAllocBound low high updated

theorem addressStrIsValid_eq_some {text : CStr} {ip : Address}
    (valid : addressStrIsValid text base prefixLen = some ip) :
    inetPton text = some ip ∧ ip &&& maskForPrefix prefixLen = base ∧ 1 ≤ (ip - base).toInt := by
  unfold addressStrIsValid at valid
  split at valid
  next => cases valid
  next a address =>
    split_ifs at valid with outside numbers
    cases valid
    exact ⟨address, not_not.mp outside, by omega⟩

theorem isHost_of_addressStrIsValid {text : CStr} {ip : Address}
    (valid : addressStrIsValid text net.base net.prefixLen = some ip)
    (inner : ip ≠ broadcast net.base net.prefixLen) : net.IsHost ip := by
  obtain ⟨_, inside, positive⟩ := addressStrIsValid_eq_some valid
  refine ⟨by simp [NetworkDef.contains, inside], ?_, inner⟩
  intro first
  rw [first, BitVec.sub_self] at positive
  exact absurd positive (by decide)

theorem name_store (valid : Pkg.simpleNameIsValid name 16 = true) :
    (BoundedStr.store 16 (by decide) name).str = name := by
  simp only [Pkg.simpleNameIsValid, Bool.and_eq_true, decide_eq_true_eq] at valid
  exact CStr.truncate_of_fits valid.2

theorem apart_of_not_found (unnamed : s.networkFind net.name.str = none)
    (unranged : (s.nets.find fun other =>
      rangesOverlap net.base net.prefixLen other.base other.prefixLen) =
        none) {j : Nat} {other : NetworkDef} (held : s.nets.get j = some other) :
    Apart other net := by
  have name := Slots.find_eq_none unnamed held
  have range := Slots.find_eq_none unranged held
  refine ⟨?_, ?_⟩
  · intro same
    rw [same] at name
    simp at name
  · rw [rangesOverlap_comm]
    exact range

def CreateRequest.AvoidsBroadcast (request : CreateRequest) : Prop :=
  ∀ base text address, inetPton request.subnet = some base →
    request.address = some text → inetPton text = some address →
      address ≠ broadcast base request.prefixLen

/-- What `network_create` has checked of a network that it adds. -/
structure Created (s : State) (request : CreateRequest)
    (net : NetworkDef) : Prop where
  name : net.name.str = request.name
  unnamed : s.networkFind request.name = none
  prefixLen : net.prefixLen = request.prefixLen
  inRange : ¬ (request.prefixLen < 8 ∨ request.prefixLen > 30)
  subnet : inetPton request.subnet = some net.base
  aligned : net.base &&& ~~~ maskForPrefix request.prefixLen = 0
  own : requestedAddress request net.base = some (net.hasAddress, net.address)
  unranged : (s.nets.find fun other =>
    rangesOverlap net.base request.prefixLen other.base other.prefixLen) = none
  window : requestedWindow request net.base = some (net.allocStartHost, net.allocEndHost)

theorem networkCreate_cases (s : State) (request : CreateRequest)
    (kernel : CreateReplies) (written : Bool) :
    (networkCreate request kernel written s).1 = s ∨ ∃ slot net, Created s request net ∧
        (networkCreate request kernel written s).1 =
          saveState true { s with nets := s.nets.put slot (some net) } := by
  unfold networkCreate
  split
  next => exact Or.inl rfl
  next goodName =>
  split
  next => exact Or.inl rfl
  next untaken =>
  split
  next => exact Or.inl rfl
  next inRange =>
  split
  next => exact Or.inl rfl
  next base subnet =>
  split
  next => exact Or.inl rfl
  next aligned =>
  split
  next => exact Or.inl rfl
  next hasAddress address own =>
  split
  next => exact Or.inl rfl
  next unranged =>
  split
  next => exact Or.inl rfl
  next slot free =>
  split
  next => exact Or.inl rfl
  next first last window =>
  dsimp only
  split
  next => exact Or.inl rfl
  next =>
  split
  rotate_left
  next => exact Or.inl (created_taken_back free _)
  refine Or.inr ⟨slot, _, ?_, rfl⟩
  exact
    { name := name_store (Bool.eq_true_of_not_eq_false goodName)
      unnamed := Option.not_isSome_iff_eq_none.mp untaken
      prefixLen := rfl
      inRange := inRange
      subnet := subnet
      aligned := not_not.mp aligned
      own := own
      unranged := Option.not_isSome_iff_eq_none.mp unranged
      window := window }

theorem Created.ownAddress {s : State} {request : CreateRequest}
    {net : NetworkDef} (created : Created s request net)
    (inner : request.AvoidsBroadcast) (has : net.hasAddress = true) :
    net.IsHost net.address := by
  have own := created.own
  rw [has] at own
  unfold requestedAddress at own
  cases asked : request.address with
  | none => simp [asked] at own
  | some text =>
    simp only [asked] at own
    split_ifs at own with nothing
    · simp at own
    · obtain ⟨ip, valid, same⟩ := Option.map_eq_some_iff.mp own
      cases same
      rw [← created.prefixLen] at valid
      have notLast := inner net.base text net.address created.subnet
        asked (addressStrIsValid_eq_some valid).1
      rw [← created.prefixLen] at notLast
      exact isHost_of_addressStrIsValid valid notLast

theorem Created.sized {request : CreateRequest} (created : Created s request net) : net.Sized := by
  have inRange := created.inRange
  have prefixLen := created.prefixLen
  have window := created.window
  unfold requestedWindow at window
  split at window
  next first last parsedFirst parsedLast =>
    split_ifs at window with backwards
    cases window
    rw [← prefixLen] at parsedFirst parsedLast
    exact
      { prefixLow := by omega
        prefixHigh := by omega
        aligned := by
          rw [prefixLen]
          exact created.aligned
        goodStart := goodBound_of_parseAllocBound (by omega) (by omega) parsedFirst
        goodEnd := goodBound_of_parseAllocBound (by omega) (by omega) parsedLast
        ordered := by
          intro set set'
          by_contra less
          exact backwards ⟨set, set', by omega⟩ }
  next => cases window

theorem Created.valid {request : CreateRequest}
    (created : Created s request net) (inner : request.AvoidsBroadcast) :
    net.Valid :=
  created.sized.valid (created.ownAddress inner)

theorem Inv.networkCreate {s : State} (inv : Inv s)
    {request : CreateRequest} {kernel : CreateReplies} {written : Bool}
    (inner : request.AvoidsBroadcast) :
    Inv (networkCreate request kernel written s).1 := by
  rcases networkCreate_cases s request kernel written with
    same | ⟨slot, net, created, added⟩
  · rw [same]
    exact inv
  · rw [added]
    apply inv.update true
    intro new assigned
    cases assigned
    refine ⟨created.valid inner, ?_⟩
    intro j other _ held
    have unnamed := created.unnamed
    have unranged := created.unranged
    rw [← created.name] at unnamed
    rw [← created.prefixLen] at unranged
    exact apart_of_not_found unnamed unranged held

theorem fits_of_find (inv : Inv s) {changed : NetworkDef}
    (found : s.networkFind name = some (slot, net)) (valid : changed.Valid)
    (sameName : changed.name = net.name) (sameBase : changed.base = net.base)
    (samePrefix : changed.prefixLen = net.prefixLen) :
    Fits s.nets slot changed := by
  refine ⟨valid, ?_⟩
  intro j other different held
  have here := (Slots.get_of_find found).1
  have apart := inv.tidy.apart j slot other net different held here
  unfold Apart at apart ⊢
  rw [sameName, sameBase, samePrefix]
  exact apart

theorem Inv.valid_of_find (inv : Inv s)
    (found : s.networkFind name = some (slot, net)) : net.Valid :=
  inv.tidy.valid slot net (Slots.get_of_find found).1

theorem Inv.networkDelete {s : State} (inv : Inv s) (name : CStr)
    (inUse opened linkDeleted written : Bool) :
    Inv (networkDelete name inUse opened linkDeleted written s).1 := by
  unfold Net.networkDelete
  split
  next => exact inv
  next slot net found =>
    split
    next => exact inv
    next =>
      split
      next => exact inv
      next =>
        split
        next => exact inv
        next =>
          apply inv.update written
          intro net assigned
          cases assigned

theorem NetworkDef.Valid.withInterfaces (valid : net.Valid) (interfaces : List Interface) :
    { net with interfaces := interfaces }.Valid :=
  { prefixLow := valid.prefixLow
    prefixHigh := valid.prefixHigh
    aligned := valid.aligned
    ownAddress := valid.ownAddress
    goodStart := valid.goodStart
    goodEnd := valid.goodEnd
    ordered := valid.ordered }

theorem NetworkDef.Sized.withWindow (sized : net.Sized)
    {allocStart allocEnd : Option CStr} {first last : Int}
    (updatedFirst : updatedBound allocStart net.allocStartHost net.base net.prefixLen = some first)
    (updatedLast : updatedBound allocEnd net.allocEndHost net.base net.prefixLen = some last)
    (forwards : ¬ (first ≠ 0 ∧ last ≠ 0 ∧ last < first)) :
    { net with allocStartHost := first, allocEndHost := last }.Sized :=
  { prefixLow := sized.prefixLow
    prefixHigh := sized.prefixHigh
    aligned := sized.aligned
    goodStart := goodBound_of_updatedBound sized.prefixLow sized.prefixHigh
      sized.goodStart updatedFirst
    goodEnd := goodBound_of_updatedBound sized.prefixLow sized.prefixHigh sized.goodEnd updatedLast
    ordered := by
      intro set set'
      by_contra less
      exact forwards ⟨set, set', Int.not_le.mp less⟩ }

theorem Inv.withInterfaces (inv : Inv s) (found : s.networkFind name = some (slot, net))
    (interfaces : List Interface) (written : Bool) :
    Inv (Net.saveState written
      { s with
        nets := s.nets.put slot (some
          { net with interfaces := interfaces }) }) := by
  apply inv.update written
  intro changed assigned
  cases assigned
  exact fits_of_find inv found ((inv.valid_of_find found).withInterfaces interfaces) rfl rfl rfl

theorem Inv.networkAttachInterface {s : State} (inv : Inv s) (name ifname : CStr) (vlanId : Int32)
    (deviceFree applied written : Bool) :
    Inv (networkAttachInterface name ifname vlanId deviceFree applied written s).1 := by
  rcases networkAttachInterface_cases name ifname vlanId deviceFree applied written s with
    ⟨error, same⟩ | ⟨slot, net, attached, found, grown⟩
  · rw [same]
    exact inv
  · rw [grown]
    exact inv.withInterfaces found _ true

theorem Inv.networkDetachInterface {s : State} (inv : Inv s)
    (name ifname : CStr) (released written : Bool) :
    Inv (networkDetachInterface name ifname released written s).1 := by
  unfold Net.networkDetachInterface
  split
  next => exact inv
  next slot net found =>
    split
    next => exact inv
    next =>
      split
      next => exact inv
      next index position =>
        split
        next => exact inv
        next => exact inv.withInterfaces found _ written

theorem Inv.networkSetAllocWindow {s : State} (inv : Inv s) (name : CStr)
    (allocStart allocEnd : Option CStr) (written : Bool) :
    Inv (networkSetAllocWindow name allocStart allocEnd written s).1 := by
  unfold Net.networkSetAllocWindow
  split
  next => exact inv
  next slot net found =>
    have valid := inv.valid_of_find found
    split
    next first last updatedFirst updatedLast =>
      split
      next => exact inv
      next backwards =>
        apply inv.update written
        intro changed assigned
        cases assigned
        refine fits_of_find inv found ?_ rfl rfl rfl
        exact (valid.sized.withWindow updatedFirst updatedLast backwards).valid valid.ownAddress
    next => exact inv

theorem Inv.networkSetManagementAddress {s : State} (inv : Inv s)
    (text : Option CStr) : Inv (networkSetManagementAddress text s).1 := by
  have same : (Net.networkSetManagementAddress text s).1.nets = s.nets ∧
      (Net.networkSetManagementAddress text s).1.file = s.file := by
    unfold Net.networkSetManagementAddress
    split
    next => exact ⟨rfl, rfl⟩
    next text =>
      split
      next => exact ⟨rfl, rfl⟩
      next =>
        split
        next => exact ⟨rfl, rfl⟩
        next address parsed =>
          split
          next => exact ⟨rfl, rfl⟩
          next => exact ⟨rfl, rfl⟩
  refine ⟨?_, ?_⟩
  · rw [same.1]
    exact inv.tidy
  · rw [same.2]
    exact inv.file

/-! ## Loading what was saved -/

variable {earlier : List NetworkDef}

def interfaceMembers (ifc : Interface) : List (CStr × Doc) :=
  [("ifname", .str ifc.ifname.str), ("vlan_id", .int (Double.Whole.ofInt ifc.vlanId.toInt))]

def boundDoc (host : Int) : Doc :=
  if host > 0 then .int (Double.Whole.ofInt host) else .null

def addressDoc (net : NetworkDef) : Doc :=
  if net.hasAddress then .str (inetNtop net.address) else .null

def networkMembers (net : NetworkDef) : List (CStr × Doc) :=
  [("name", .str net.name.str), ("subnet", .str (inetNtop net.base)),
    ("prefix_len", .int (Double.Whole.ofInt net.prefixLen)),
    ("has_address", .bool net.hasAddress),
    ("alloc_start_host", boundDoc net.allocStartHost),
    ("alloc_end_host", boundDoc net.allocEndHost),
    ("address", addressDoc net),
    ("interfaces", .arr (net.interfaces.map fun ifc => .obj (interfaceMembers ifc)))]

theorem networkMembers_distinct (net : NetworkDef) : ((networkMembers net).map Prod.fst).Nodup := by
  simp only [networkMembers, map_cons, map_nil]
  decide

theorem hostMax_le (low : 8 ≤ prefixLen) : hostMaxForPrefix prefixLen ≤ 2 ^ 24 := by
  have narrow : 2 ^ (32 - prefixLen).toNat ≤ 2 ^ 24 :=
    Nat.pow_le_pow_right (by omega) (by omega)
  have cast : ((2 ^ (32 - prefixLen).toNat : Nat) : Int) = 2 ^ (32 - prefixLen).toNat := by
    push_cast
    rfl
  rw [hostMaxForPrefix, ← cast]
  omega

theorem GoodBound.bounded {host : Int} (low : 8 ≤ prefixLen)
    (good : GoodBound host prefixLen) : host.natAbs ≤ 2 ^ 53 := by
  have top := hostMax_le low
  obtain ⟨least, most⟩ := good
  omega

theorem emits_writeInterface (ifc : Interface) :
    Emits (writeInterface ifc) (.obj (interfaceMembers ifc)) := by
  have bounded : ifc.vlanId.toInt.natAbs ≤ 2 ^ 53 := by
    have lower := ifc.vlanId.le_toInt
    have upper := ifc.vlanId.toInt_lt
    omega
  have ifname := (emits_str ifc.ifname.str).member "ifname"
  have vlan := (emits_int bounded).member "vlan_id"
  exact FillsObj.emits (ifname.comp vlan)

theorem emits_writeBound {host : Int} (bounded : host.natAbs ≤ 2 ^ 53) :
    Emits (writeBound host) (boundDoc host) := by
  intro w
  unfold writeBound boundDoc
  split_ifs
  · exact emits_int bounded w
  · exact emits_null w

theorem emits_writeAddress (net : NetworkDef) : Emits (writeAddress net) (addressDoc net) := by
  intro w
  unfold writeAddress addressDoc
  split_ifs
  · exact emits_str _ w
  · exact emits_null w

theorem emits_writeOne (valid : net.Sized) : Emits (writeOne net) (.obj (networkMembers net)) := by
  have low := valid.prefixLow
  have high := valid.prefixHigh
  have str := fun (name : String) (s : CStr) =>
    (emits_str s).member (CStr.ofString name)
  have length : net.prefixLen.natAbs ≤ 2 ^ 53 := by omega
  have prefixLen := (emits_int length).member "prefix_len"
  have has := (emits_bool net.hasAddress).member "has_address"
  have start := (emits_writeBound (valid.goodStart.bounded low)).member "alloc_start_host"
  have last := (emits_writeBound (valid.goodEnd.bounded low)).member "alloc_end_host"
  have address := (emits_writeAddress net).member "address"
  have interfaces := (emits_arr fun ifc (_ : ifc ∈ net.interfaces) =>
    emits_writeInterface ifc).member "interfaces"
  have range := ((str "name" net.name.str).comp (str "subnet" (inetNtop net.base))).comp prefixLen
  have window := ((range.comp has).comp start).comp last
  exact FillsObj.emits ((window.comp address).comp interfaces)

variable {nets : List NetworkDef}

theorem listText_eq (valid : ∀ net ∈ nets, net.Sized) :
    listText nets = (Doc.arr (nets.map fun net => .obj (networkMembers net))).text := by
  have emits := emits_arr fun net (mem : net ∈ nets) =>
    emits_writeOne (valid net mem)
  exact emits.buf_jwInit

theorem parseBound_boundDoc {host : Int} (low : 8 ≤ prefixLen) (good : GoodBound host prefixLen) :
    parseBound (some (boundDoc host).value) = host := by
  have top := hostMax_le low
  have most := good.2
  unfold boundDoc
  split_ifs with set
  · rw [Doc.value, parseBound]
    exact Double.toInt_ofInt (by omega) (by omega)
  · have unset : host = 0 := by
      have least := good.1
      omega
    simp [Doc.value, parseBound, unset]

/-- What `parse_persisted_entry` has checked of a network that it loads, and
where it has the rest from. -/
structure Loaded (item : Value) (earlier : List NetworkDef)
    (net : NetworkDef) : Prop where
  subnet : ∃ text, asString (objectGet (some item) "subnet") = some text ∧
    inetPton text = some net.base
  prefixLen : net.prefixLen = (asNumber (objectGet (some item) "prefix_len")).toInt.toInt
  inRange : ¬ (net.prefixLen < 8 ∨ net.prefixLen > 30)
  aligned : net.base &&& ~~~ maskForPrefix net.prefixLen = 0
  own : parseOwnAddress item net.base = some (net.hasAddress, net.address)
  apart : ∀ other ∈ earlier, Apart other net
  start : net.allocStartHost = parseBound (objectGet (some item) "alloc_start_host")
  last : net.allocEndHost = parseBound (objectGet (some item) "alloc_end_host")

theorem apart_of_not_any (sameName : net.name.str = name)
    (free : ¬ (earlier.any fun other => other.name.str = name ||
      rangesOverlap net.base net.prefixLen other.base other.prefixLen) =
        true) : ∀ other ∈ earlier, Apart other net := by
  intro other mem
  rw [Bool.not_eq_true, any_eq_false] at free
  have clear := free other mem
  rw [Bool.or_eq_true, not_or] at clear
  refine ⟨?_, ?_⟩
  · intro same
    apply clear.1
    rw [same, sameName, decide_eq_true_eq]
  · rw [rangesOverlap_comm]
    exact Bool.eq_false_iff.mpr clear.2

variable {flagged : Option Address}

theorem parsePersistedEntry_eq_some {item : Value}
    (parsed : parsePersistedEntry item earlier = some (net, flagged)) :
    Loaded item earlier net := by
  unfold parsePersistedEntry at parsed
  split at parsed
  next name subnet length nameRead subnetRead lengthRead =>
    dsimp only at parsed
    split_ifs at parsed with badName badPrefix
    split at parsed
    next => cases parsed
    next base baseRead =>
      split at parsed
      next => cases parsed
      next unaligned =>
      split at parsed
      next => cases parsed
      next hasAddress address own =>
        split at parsed
        next => cases parsed
        next taken =>
        split at parsed
        next => cases parsed
        next interfaces interfacesRead =>
          cases parsed
          have sameName := name_store (Bool.eq_true_of_not_eq_false badName)
          exact
            { subnet := ⟨subnet, subnetRead, baseRead⟩
              prefixLen := by rw [lengthRead]
              inRange := badPrefix
              aligned := not_not.mp unaligned
              own := own
              apart := apart_of_not_any sameName taken
              start := rfl
              last := rfl }
  next => cases parsed

theorem Loaded.same {loaded : NetworkDef} (valid : net.Sized)
    (parsed : Loaded (Doc.obj (networkMembers net)).value earlier loaded) :
    loaded.base = net.base ∧ loaded.prefixLen = net.prefixLen ∧
      loaded.allocStartHost = net.allocStartHost ∧
      loaded.allocEndHost = net.allocEndHost ∧
      (loaded.hasAddress = true → net.hasAddress = true ∧ loaded.address = net.address) := by
  have distinct := networkMembers_distinct net
  have low := valid.prefixLow
  have high := valid.prefixHigh
  have read : ∀ (name : String) (d : Doc), (CStr.ofString name, d) ∈ networkMembers net →
        objectGet (some (Doc.obj (networkMembers net)).value) name = some d.value :=
    fun _ _ mem => objectGet_member distinct mem
  refine ⟨?_, ?_, ?_, ?_, ?_⟩
  · obtain ⟨text, subnet, address⟩ := parsed.subnet
    rw [read "subnet" (.str (inetNtop net.base)) (by simp [networkMembers]),
      Doc.value, asString] at subnet
    cases subnet
    rw [inetPton_inetNtop] at address
    exact (Option.some.inj address).symm
  · rw [parsed.prefixLen, read "prefix_len"
      (.int (Double.Whole.ofInt net.prefixLen)) (by simp [networkMembers]),
      Doc.value, asNumber]
    exact Double.toInt_ofInt (by omega) (by omega)
  · rw [parsed.start, read "alloc_start_host" (boundDoc net.allocStartHost)
      (by simp [networkMembers]), parseBound_boundDoc low valid.goodStart]
  · rw [parsed.last, read "alloc_end_host" (boundDoc net.allocEndHost)
      (by simp [networkMembers]), parseBound_boundDoc low valid.goodEnd]
  · intro has
    have parsedOwn := parsed.own
    rw [parseOwnAddress, read "has_address" (.bool net.hasAddress)
      (by simp [networkMembers]), Doc.value] at parsedOwn
    cases netHas : net.hasAddress with
    | false =>
      rw [netHas, has] at parsedOwn
      simp at parsedOwn
    | true =>
      rw [netHas] at parsedOwn
      rw [read "address" (addressDoc net) (by simp [networkMembers]),
        addressDoc, if_pos netHas, Doc.value] at parsedOwn
      simp only [asString, inetPton_inetNtop, Option.map_some,
        Option.some.injEq, Prod.mk.injEq] at parsedOwn
      exact ⟨rfl, parsedOwn.2.symm⟩

theorem Loaded.sized {loaded : NetworkDef} (valid : net.Sized)
    (parsed : Loaded (Doc.obj (networkMembers net)).value earlier loaded) :
    loaded.Sized := by
  obtain ⟨_, prefixLen, start, last, _⟩ := parsed.same valid
  exact
    { prefixLow := by
        rw [prefixLen]
        exact valid.prefixLow
      prefixHigh := by
        rw [prefixLen]
        exact valid.prefixHigh
      aligned := parsed.aligned
      goodStart := by
        rw [start, prefixLen]
        exact valid.goodStart
      goodEnd := by
        rw [last, prefixLen]
        exact valid.goodEnd
      ordered := by
        rw [start, last]
        exact valid.ordered }

theorem Loaded.valid {net loaded : NetworkDef} {earlier : List NetworkDef} (valid : net.Valid)
    (parsed : Loaded (Doc.obj (networkMembers net)).value earlier loaded) :
    loaded.Valid := by
  obtain ⟨base, prefixLen, _, _, own⟩ := parsed.same valid.sized
  apply (parsed.sized valid.sized).valid
  intro has
  obtain ⟨netHas, same⟩ := own has
  have host := valid.ownAddress netHas
  unfold NetworkDef.IsHost NetworkDef.contains at host ⊢
  rw [same, base, prefixLen]
  exact host

theorem loadEntries_saved (good : NetworkDef → Prop) (again : ∀ {net loaded earlier}, good net →
      Loaded (Doc.obj (networkMembers net)).value earlier loaded →
        good loaded)
    (valid : ∀ net ∈ nets, good net) {earlier loaded : List NetworkDef}
    {legacy : Option Address}
    (parsed : loadEntries ((nets.map fun net =>
      Doc.obj (networkMembers net)).map Doc.value) earlier legacy = some (loaded, flagged))
    (earlierValid : ∀ net ∈ earlier, good net)
    (earlierApart : earlier.Pairwise Apart) :
    (∀ net ∈ loaded, good net) ∧ loaded.Pairwise Apart := by
  induction nets generalizing earlier legacy with
  | nil =>
    cases parsed
    exact ⟨earlierValid, earlierApart⟩
  | cons net rest ih =>
    rw [map_cons, map_cons, loadEntries] at parsed
    split at parsed
    next => cases parsed
    next new flag entry =>
      have checked := parsePersistedEntry_eq_some entry
      have newValid := again (valid net mem_cons_self) checked
      refine ih (fun other mem => valid other (mem_cons_of_mem _ mem)) parsed ?_ ?_
      · intro other mem
        rcases mem_append.mp mem with old | last
        · exact earlierValid other old
        · rw [mem_singleton] at last
          rw [last]
          exact newValid
      · rw [pairwise_append]
        refine ⟨earlierApart, pairwise_singleton _ _, ?_⟩
        intro other mem last isLast
        rw [mem_singleton] at isLast
        rw [isLast]
        exact checked.apart other mem

theorem loadState_saved (good : NetworkDef → Prop) (again : ∀ {net loaded earlier}, good net →
      Loaded (Doc.obj (networkMembers net)).value earlier loaded →
        good loaded) (sized : ∀ net, good net → net.Sized)
    {file : Option (List UInt8)}
    (saved : ∀ text, file = some text → ∃ nets : List NetworkDef,
      text = listText nets ∧ ∀ net ∈ nets, good net)
    {loaded : List NetworkDef}
    (parsed : loadState file = some (loaded, flagged)) :
    (∀ net ∈ loaded, good net) ∧ loaded.Pairwise Apart := by
  cases file with
  | none =>
    cases parsed
    exact ⟨by simp, List.Pairwise.nil⟩
  | some text =>
    obtain ⟨nets, rfl, valid⟩ := saved text rfl
    rw [loadState, listText_eq fun net mem =>
      sized net (valid net mem), jsonParse_text, asArray_arr] at parsed
    dsimp only at parsed
    split_ifs at parsed
    exact loadEntries_saved good again valid parsed (by simp) List.Pairwise.nil

theorem loadState_good {file : Option (List UInt8)} (good : GoodFile file)
    {loaded : List NetworkDef}
    (parsed : loadState file = some (loaded, flagged)) :
    (∀ net ∈ loaded, net.Valid) ∧ loaded.Pairwise Apart :=
  loadState_saved NetworkDef.Valid (fun valid entry => entry.valid valid)
    (fun _ valid => valid.sized) good parsed

theorem tidy_ofEntries
    (valid : ∀ net ∈ nets, net.Valid) (apart : nets.Pairwise Apart) :
    Tidy (Slots.ofEntries networkMax nets) := by
  constructor
  · intro i net held
    have position := Slots.getElem?_of_get_ofEntries held
    exact valid net (mem_of_getElem? position)
  · intro i j x y different heldX heldY
    rcases Nat.lt_or_gt_of_ne different with less | more
    · exact Slots.pairwise_ofEntries apart less heldX heldY
    · exact (Slots.pairwise_ofEntries apart more heldY heldX).symm

theorem Inv.networkInit {s : State} (inv : Inv s) (applied : Bool) :
    Inv (networkInit applied s) := by
  unfold Net.networkInit
  split
  next => exact ⟨tidy_empty, inv.file⟩
  next nets legacy parsed =>
    have loaded := loadState_good inv.file parsed
    split
    next => exact ⟨tidy_ofEntries loaded.1 loaded.2, inv.file⟩
    next => exact ⟨tidy_empty, inv.file⟩

/-! ## Runs -/

def Event.AvoidsBroadcast : Event → Prop
  | .create request _ _ => request.AvoidsBroadcast
  | _ => True

theorem Inv.step {s : State} (inv : Inv s) {event : Event}
    (inner : event.AvoidsBroadcast) : Inv (step s event) := by
  unfold Net.step
  split
  next =>
    cases event with
    | init applied => exact inv.networkInit applied
    | create request kernel written => exact inv.networkCreate inner
    | delete name inUse opened linkDeleted written =>
      exact inv.networkDelete name inUse opened linkDeleted written
    | attach name ifname vlanId deviceFree applied written =>
      exact inv.networkAttachInterface name ifname vlanId deviceFree applied written
    | detach name ifname released written =>
      exact inv.networkDetachInterface name ifname released written
    | setAllocWindow name allocStart allocEnd written =>
      exact inv.networkSetAllocWindow name allocStart allocEnd written
    | setManagementAddress text => exact inv.networkSetManagementAddress text
  next => exact inv

/-- What is to hold in every state. -/
structure NeverOverlap (s : State) : Prop where
  distinctNames : ∀ i j x y, i ≠ j → s.nets.get i = some x → s.nets.get j = some y → x.name ≠ y.name
  prefixRange : ∀ i net, s.nets.get i = some net → 8 ≤ net.prefixLen ∧ net.prefixLen ≤ 30
  hostBits : ∀ i net, s.nets.get i = some net → net.base &&& ~~~ maskForPrefix net.prefixLen = 0
  ownAddress : ∀ i net, s.nets.get i = some net → net.hasAddress = true → net.IsHost net.address
  window : ∀ i net, s.nets.get i = some net →
    1 ≤ net.windowStart ∧ net.windowStart ≤ net.windowEnd ∧
      net.windowEnd ≤ hostMaxForPrefix net.prefixLen
  /-- The ranges are disjoint: at most one network contains an address. -/
  atMostOne : ∀ i j x y address, s.nets.get i = some x →
    s.nets.get j = some y → x.contains address = true → y.contains address = true → i = j

theorem Inv.neverOverlap (inv : Inv s) : NeverOverlap s where
  distinctNames := fun i j x y different heldX heldY =>
    (inv.tidy.apart i j x y different heldX heldY).1
  prefixRange := fun i net held =>
    ⟨(inv.tidy.valid i net held).prefixLow, (inv.tidy.valid i net held).prefixHigh⟩
  hostBits := fun i net held => (inv.tidy.valid i net held).aligned
  ownAddress := fun i net held => (inv.tidy.valid i net held).ownAddress
  window := fun i net held => (inv.tidy.valid i net held).sized.window
  atMostOne := by
    intro i j x y address heldX heldY inX inY
    by_contra different
    have apart := inv.tidy.apart i j x y different heldX heldY
    exact apart.disjoint (inv.tidy.valid i x heldX).prefixLow
      (inv.tidy.valid j y heldY).prefixLow address ⟨inX, inY⟩

/-- In every run that never gives a network the last address of its subnet the
networks in use stay apart and well formed. -/
theorem networks_never_overlap (events : List Event)
    (inner : ∀ event ∈ events, event.AvoidsBroadcast) :
    Throughout step NeverOverlap State.fresh events := by
  have guarded : Guarded step (fun _ event => event.AvoidsBroadcast)
      State.fresh events := by
    intro before event after equality
    apply inner
    simp [equality]
  have holds := guarded.throughout Inv (fun _ _ inv avoids => inv.step avoids) inv_fresh
  exact holds.mono fun _ inv => inv.neverOverlap

/-! ## Two runs -/

def kernelAgrees : CreateReplies := ⟨true, true, true, true⟩

/-- A network `10.0.0.0/24` of that name with that own address. -/
def lanRequest (address : String) : CreateRequest :=
  { name := "lan"
    subnet := "10.0.0.0"
    prefixLen := 24
    address := some (CStr.ofString address)
    allocStart := some "10.0.0.10"
    allocEnd := some "10.0.0.20" }

def createAndRestart (address : String) : List Event :=
  [.init true, .create (lanRequest address) kernelAgrees true, .init true]

/-- A network of 256 addresses without one of its own. -/
def unaddressed (name subnet : String) : CreateRequest :=
  { name := CStr.ofString name
    subnet := CStr.ofString subnet
    prefixLen := 24
    address := none
    allocStart := none
    allocEnd := none }

/-- Beside `lan` there comes `dmz`, and `lab` is refused in the range of `dmz`. -/
def twoNetworks : List Event :=
  createAndRestart "10.0.0.1" ++
    [.create (unaddressed "dmz" "10.0.1.0") kernelAgrees true,
      .create (unaddressed "lab" "10.0.1.0") kernelAgrees true, .init true]

theorem avoidsBroadcast_lan : (lanRequest "10.0.0.1").AvoidsBroadcast := by
  intro base text address subnet asked parsed
  have base_eq : base = 0x0a000000#32 := by
    have value : inetPton (lanRequest "10.0.0.1").subnet = some 0x0a000000#32 := by decide +kernel
    exact Option.some.inj (subnet.symm.trans value)
  have address_eq : address = 0x0a000001#32 := by
    have value : inetPton "10.0.0.1" = some 0x0a000001#32 := by decide +kernel
    rw [← Option.some.inj asked] at parsed
    exact Option.some.inj (parsed.symm.trans value)
  rw [base_eq, address_eq]
  decide +kernel

theorem avoidsBroadcast_unaddressed (name subnet : String) :
    (unaddressed name subnet).AvoidsBroadcast := by
  intro base text address _ asked
  cases asked

theorem networks_never_overlap_lan :
    (run step State.fresh twoNetworks).nets.entries.map (fun net => net.name.str) =
        ["lan", "dmz"] ∧
      (networkCreate (unaddressed "lab" "10.0.1.0") kernelAgrees true
        (run step State.fresh (twoNetworks.take 4))).2 = .overlap ∧
      Throughout step NeverOverlap State.fresh twoNetworks := by
  refine ⟨by decide +kernel, by decide +kernel, networks_never_overlap _ ?_⟩
  intro event mem
  simp only [twoNetworks, createAndRestart, cons_append, nil_append, mem_cons, not_mem_nil,
    or_false] at mem
  rcases mem with rfl | rfl | rfl | rfl | rfl | rfl
  · trivial
  · exact avoidsBroadcast_lan
  · trivial
  · exact avoidsBroadcast_unaddressed _ _
  · exact avoidsBroadcast_unaddressed _ _
  · trivial

/-- The check of the own address lets the last address of the subnet
through. -/
theorem broadcast_is_own_address : ¬ NeverOverlap
      (run step State.fresh (createAndRestart "10.0.0.255")) := by
  intro holds
  have found : (run step State.fresh (createAndRestart "10.0.0.255")).nets.get 0 ≠ none ∧
      ∀ net ∈ (run step State.fresh (createAndRestart "10.0.0.255")).nets.get 0,
        net.hasAddress = true ∧ net.address = broadcast net.base net.prefixLen := by
    decide +kernel
  obtain ⟨net, held⟩ := Option.ne_none_iff_exists'.mp found.1
  obtain ⟨has, last⟩ := found.2 net held
  exact (holds.ownAddress 0 net held has).2.2 last

end Cix.Net
