import Cix.Net.Disjoint

/-!
# The own address of a network

`network_create` takes an own address that is a host of the subnet.  Its check
compares the number of the host with one more than the greatest, so the last
address of the subnet passes as well, and nothing else does.
-/

namespace Cix.Net

open Cix.Lib

def IsHostAddress (text : CStr) (base : Address) (prefixLen : Int) (a : Address) : Prop :=
  inetPton text = some a ∧ a &&& maskForPrefix prefixLen = base ∧ a ≠ base ∧
    a ≠ broadcast base prefixLen

section Subnets

variable {base a : Address} {prefixLen : Int}

theorem addressStrIsValid_iff (text : CStr) (low : 8 ≤ prefixLen) :
    addressStrIsValid text base prefixLen = some a ↔
      inetPton text = some a ∧ a &&& maskForPrefix prefixLen = base ∧ a ≠ base := by
  constructor
  · intro valid
    obtain ⟨parsed, inside, positive⟩ := addressStrIsValid_eq_some valid
    refine ⟨parsed, inside, ?_⟩
    intro first
    rw [first, BitVec.sub_self] at positive
    exact absurd positive (by decide)
  · rintro ⟨parsed, inside, notFirst⟩
    have number := toInt_sub_of_contains low inside
    have contains := inside
    rw [maskForPrefix_eq low] at contains
    have below := Subnet.toNat_sub_lt_of_contains contains
    have nonzero : (a - base).toNat ≠ 0 := by
      intro zero
      apply notFirst
      have same := BitVec.eq_of_toNat_eq (y := 0#32) zero
      rw [← BitVec.sub_add_cancel a base, same, BitVec.zero_add]
    have size : hostMaxForPrefix prefixLen = ((2 ^ (32 - prefixLen.toNat) : Nat) : Int) - 2 := by
      have width : (32 - prefixLen).toNat = 32 - prefixLen.toNat := by omega
      rw [hostMaxForPrefix, width]
      push_cast
      rfl
    unfold addressStrIsValid
    rw [parsed]
    dsimp only
    rw [if_neg (not_not.mpr inside), if_neg (by omega)]

theorem broadcast_spec (low : 8 ≤ prefixLen) (high : prefixLen ≤ 30)
    (aligned : base &&& ~~~ maskForPrefix prefixLen = 0) :
    broadcast base prefixLen &&& maskForPrefix prefixLen = base ∧
      broadcast base prefixLen ≠ base := by
  have wide : ~~~ maskForPrefix prefixLen ≠ 0 := by
    have all : ∀ n : Fin 23, ~~~ maskForPrefix (8 + n.val) ≠ 0 := by decide +kernel
    have isOne := all ⟨prefixLen.toNat - 8, by omega⟩
    have same : (8 + (prefixLen.toNat - 8 : Nat) : Int) = prefixLen := by omega
    rwa [same] at isOne
  unfold broadcast
  generalize maskForPrefix prefixLen = m at aligned wide
  change base &&& ~~~ m = 0#32 at aligned
  constructor
  · have split : base &&& m ||| base &&& ~~~ m = base := by
      rw [← BitVec.and_or_distrib_left, BitVec.or_not_self, BitVec.and_allOnes]
    rw [aligned, BitVec.or_zero] at split
    have nothing : m &&& ~~~ m = 0#32 := BitVec.and_not_self m
    rw [BitVec.and_comm, BitVec.and_or_distrib_left, nothing,
      BitVec.or_zero, BitVec.and_comm, split]
  · intro same
    apply wide
    have absorbed : ~~~ m &&& (base ||| ~~~ m) = ~~~ m := by
      rw [BitVec.and_or_distrib_left, BitVec.and_self, BitVec.and_comm, aligned, BitVec.zero_or]
    rw [same, BitVec.and_comm, aligned] at absorbed
    exact absorbed.symm

theorem addressStrIsValid_exact_iff (text : CStr) (low : 8 ≤ prefixLen) (high : prefixLen ≤ 30)
    (aligned : base &&& ~~~ maskForPrefix prefixLen = 0) :
    (∀ a, addressStrIsValid text base prefixLen = some a ↔ IsHostAddress text base prefixLen a) ↔
      inetPton text ≠ some (broadcast base prefixLen) := by
  obtain ⟨inside, notFirst⟩ := broadcast_spec low high aligned
  constructor
  · intro exactly parsed
    have passes := (addressStrIsValid_iff text low).mpr ⟨parsed, inside, notFirst⟩
    exact ((exactly _).mp passes).2.2.2 rfl
  · intro notLast a
    rw [addressStrIsValid_iff text low, IsHostAddress]
    constructor
    · rintro ⟨parsed, contains, different⟩
      refine ⟨parsed, contains, different, ?_⟩
      rintro rfl
      exact notLast parsed
    · rintro ⟨parsed, contains, different, _⟩
      exact ⟨parsed, contains, different⟩

end Subnets

structure FitsOtherwise (s : State) (request : CreateRequest)
    (base : Address) : Prop where
  name : Pkg.simpleNameIsValid request.name 16 = true
  unnamed : s.networkFind request.name = none
  low : 8 ≤ request.prefixLen
  high : request.prefixLen ≤ 30
  subnet : inetPton request.subnet = some base
  aligned : base &&& ~~~ maskForPrefix request.prefixLen = 0
  unranged : (s.nets.find fun other =>
    rangesOverlap base request.prefixLen other.base other.prefixLen) = none
  free : s.nets.firstFree ≠ none
  window : requestedWindow request base ≠ none

def CreatedWith (s : State) (request : CreateRequest) (a : Address) : Prop :=
  (networkCreate request kernelAgrees true s).2 = .ok ∧ ∃ slot net, s.nets.firstFree = some slot ∧
      (networkCreate request kernelAgrees true s).1.nets.get slot = some net ∧
      net.hasAddress = true ∧ net.address = a

theorem networkCreate_fits {s : State} {request : CreateRequest}
    {base : Address} (fits : FitsOtherwise s request base) :
    match requestedAddress request base with
    | none => networkCreate request kernelAgrees true s = (s, .invalidAddress)
    | some (hasAddress, address) =>
      ∃ slot net, s.nets.firstFree = some slot ∧
        net.hasAddress = hasAddress ∧ net.address = address ∧
        networkCreate request kernelAgrees true s =
          (saveState true { s with nets := s.nets.put slot (some net) }, .ok) := by
  obtain ⟨slot, free⟩ := Option.ne_none_iff_exists'.mp fits.free
  obtain ⟨⟨first, last⟩, window⟩ := Option.ne_none_iff_exists'.mp fits.window
  have inRange : ¬ (request.prefixLen < 8 ∨ request.prefixLen > 30) := by
    have low := fits.low
    have high := fits.high
    omega
  have named : ¬ Pkg.simpleNameIsValid request.name 16 = false := by
    rw [fits.name]
    exact Bool.noConfusion
  have unnamed : ¬ (s.networkFind request.name).isSome = true := by
    rw [fits.unnamed]
    exact Bool.noConfusion
  unfold networkCreate
  rw [if_neg named, if_neg unnamed, if_neg inRange, fits.subnet]
  dsimp only
  rw [if_neg (not_not.mpr fits.aligned)]
  cases requestedAddress request base with
  | none => rfl
  | some own =>
    obtain ⟨hasAddress, address⟩ := own
    have unranged : ¬ (s.nets.find fun other =>
        rangesOverlap base request.prefixLen other.base other.prefixLen).isSome = true := by
      rw [fits.unranged]
      exact Bool.noConfusion
    dsimp only
    rw [if_neg unranged, free]
    dsimp only
    rw [window]
    dsimp only
    rw [if_neg (by simp [kernelAgrees]), if_pos rfl]
    exact ⟨slot, _, rfl, rfl, rfl, rfl⟩

theorem createdWith_of_created {s : State} {request : CreateRequest}
    {slot : Nat} {net : NetworkDef} (free : s.nets.firstFree = some slot)
    (created : networkCreate request kernelAgrees true s =
      (saveState true { s with nets := s.nets.put slot (some net) }, .ok))
    (a : Address) :
    CreatedWith s request a ↔ net.hasAddress = true ∧ net.address = a := by
  unfold CreatedWith
  rw [created]
  have held : (saveState true { s with
      nets := s.nets.put slot (some net) }).nets.get slot = some net := by
    change (s.nets.put slot (some net)).get slot = some net
    rw [Slots.get_put (Slots.get_firstFree free).1, if_pos rfl]
  constructor
  · rintro ⟨_, slot', net', free', held', has, isAddress⟩
    obtain rfl := Option.some.inj (free.symm.trans free')
    obtain rfl := Option.some.inj (held.symm.trans held')
    exact ⟨has, isAddress⟩
  · rintro ⟨has, isAddress⟩
    exact ⟨rfl, slot, net, free, held, has, isAddress⟩

theorem createdWith_iff {s : State} {request : CreateRequest} {base : Address}
    {text : CStr} (fits : FitsOtherwise s request base)
    (asked : request.address = some text) (a : Address) :
    CreatedWith s request a ↔ addressStrIsValid text base request.prefixLen = some a := by
  have made := networkCreate_fits fits
  unfold requestedAddress at made
  rw [asked] at made
  dsimp only at made
  by_cases empty : text.length = 0
  · rw [if_pos empty] at made
    obtain ⟨slot, net, free, has, _, created⟩ := made
    have bytes : text.bytes = [] := List.length_eq_zero_iff.mp empty
    have unparsed : addressStrIsValid text base request.prefixLen = none := by
      have nothing : inetPton text = none := by
        rw [inetPton, bytes]
        rfl
      rw [addressStrIsValid, nothing]
    rw [createdWith_of_created free created, has, unparsed]
    simp
  · rw [if_neg empty] at made
    cases valid : addressStrIsValid text base request.prefixLen with
    | none =>
      rw [valid] at made
      change networkCreate request kernelAgrees true s = _ at made
      rw [CreatedWith, made]
      simp
    | some address =>
      rw [valid] at made
      obtain ⟨slot, net, free, has, isAddress, created⟩ := made
      rw [createdWith_of_created free created, has, isAddress]
      simp

/-- A creation gives the network exactly the addresses that are hosts of its
subnet, unless it is asked for the last address of the subnet. -/
theorem own_address_is_host_iff {s : State} {request : CreateRequest}
    {base : Address} {text : CStr} (fits : FitsOtherwise s request base)
    (asked : request.address = some text) :
    (∀ a, CreatedWith s request a ↔ IsHostAddress text base request.prefixLen a) ↔
      inetPton text ≠ some (broadcast base request.prefixLen) := by
  have exactly := addressStrIsValid_exact_iff text fits.low fits.high fits.aligned
  rw [← exactly]
  apply forall_congr'
  intro a
  rw [createdWith_iff fits asked]

theorem fits_lanRequest (address : String) :
    FitsOtherwise State.fresh (lanRequest address) 0x0a000000#32 where
  name := by
    change Pkg.simpleNameIsValid "lan" 16 = true
    decide +kernel
  unnamed := by
    change State.fresh.networkFind "lan" = none
    decide +kernel
  low := by
    change (8 : Int) ≤ 24
    decide
  high := by
    change (24 : Int) ≤ 30
    decide
  subnet := by
    change inetPton "10.0.0.0" = _
    decide +kernel
  aligned := by
    change 0x0a000000#32 &&& ~~~ maskForPrefix 24 = 0
    decide +kernel
  unranged := rfl
  free := by decide +kernel
  window := by
    have first : parseAllocBound (lanRequest address).allocStart 0x0a000000#32
        (lanRequest address).prefixLen = some 10 := by
      change parseAllocBound (some "10.0.0.10") 0x0a000000#32 24 = some 10
      decide +kernel
    have last : parseAllocBound (lanRequest address).allocEnd 0x0a000000#32
        (lanRequest address).prefixLen = some 20 := by
      change parseAllocBound (some "10.0.0.20") 0x0a000000#32 24 = some 20
      decide +kernel
    rw [requestedWindow, first, last]
    decide

/-- The first host of the subnet is taken for the own address. -/
theorem first_host_is_own_address :
    CreatedWith State.fresh (lanRequest "10.0.0.1") 0x0a000001#32 := by
  have notLast : inetPton "10.0.0.1" ≠
      some (broadcast 0x0a000000#32 (lanRequest "10.0.0.1").prefixLen) := by
    decide +kernel
  have exactly := (own_address_is_host_iff (fits_lanRequest "10.0.0.1")
    rfl).mpr notLast
  apply (exactly 0x0a000001#32).mpr
  refine ⟨?_, ?_, ?_, ?_⟩ <;> decide +kernel

/-- And so is the last address of the subnet. -/
theorem last_address_is_own_address :
    CreatedWith State.fresh (lanRequest "10.0.0.255") 0x0a0000ff#32 ∧
      ¬ IsHostAddress "10.0.0.255" 0x0a000000#32 24 0x0a0000ff#32 := by
  constructor
  · apply (createdWith_iff (fits_lanRequest "10.0.0.255") rfl _).mpr
    decide +kernel
  · rintro ⟨_, _, _, notLast⟩
    revert notLast
    decide +kernel

end Cix.Net
