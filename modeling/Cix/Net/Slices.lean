import Cix.Lib.EvenSplit
import Cix.Net.Dhcp

/-!
# Slices of a DHCP range

`dhcp_slice_for` shares the addresses of a range evenly among its servers, and
`dhcp_render_conf` writes to each server its own slice.  All of the arithmetic
is on 32 bits: it is written here operation by operation, each with the value
that it leaves and the one that the integers have.
-/

namespace Cix.Net.Dhcp

open Cix.Lib Cix.Json List

/-! ## Computing a slice -/

structure Op where
  result : Address
  exact : Int
  deriving DecidableEq

def Op.add (a b : Address) : Op := ⟨a + b, a.toNat + b.toNat⟩

def Op.sub (a b : Address) : Op := ⟨a - b, (a.toNat : Int) - b.toNat⟩

def Op.mul (a b : Address) : Op := ⟨a * b, a.toNat * b.toNat⟩

def Op.Wraps (op : Op) : Prop := (op.result.toNat : Int) ≠ op.exact

instance (op : Op) : Decidable op.Wraps :=
  inferInstanceAs (Decidable (_ ≠ _))

/-- The operations of `dhcp_slice_for` that can wrap. -/
structure SliceSteps where
  /-- `last - first` -/
  span : Op
  /-- `last - first + 1` -/
  total : Op
  /-- `base * server_index` -/
  product : Op
  /-- `first + base * server_index` -/
  shifted : Op
  /-- `start` -/
  start : Op
  /-- `size` -/
  size : Op
  /-- `start + size` -/
  behind : Op
  /-- `start + size - 1` -/
  last : Op

def sliceSteps (first last index count : Address) : SliceSteps :=
  let span := Op.sub last first
  let total := Op.add span.result 1
  let base := total.result / count
  let extra := total.result % count
  let product := Op.mul base index
  let shifted := Op.add first product.result
  let start := Op.add shifted.result (if index < extra then index else extra)
  let size := Op.add base (if index < extra then 1 else 0)
  let behind := Op.add start.result size.result
  let last := Op.sub behind.result 1
  ⟨span, total, product, shifted, start, size, behind, last⟩

def DhcpNetwork.steps (cfg : DhcpNetwork) (serverIndex serverCount : Int) :
    SliceSteps :=
  sliceSteps cfg.rangeStart cfg.rangeEnd (BitVec.ofInt 32 serverIndex) (BitVec.ofInt 32 serverCount)

def dhcpSliceFor (cfg : DhcpNetwork) (serverIndex serverCount : Int) : Option (Address × Address) :=
  if serverCount ≤ 1 then some (cfg.rangeStart, cfg.rangeEnd)
  else if cfg.rangeEnd < cfg.rangeStart then none
  else
    let steps := cfg.steps serverIndex serverCount
    if steps.total.result < BitVec.ofInt 32 serverCount then none
    else some (steps.start.result, steps.last.result)

def DhcpNetwork.performed (cfg : DhcpNetwork) (serverIndex serverCount : Int) : List Op :=
  if serverCount ≤ 1 then []
  else if cfg.rangeEnd < cfg.rangeStart then []
  else
    let steps := cfg.steps serverIndex serverCount
    if steps.total.result < BitVec.ofInt 32 serverCount then
      [steps.span, steps.total]
    else
      [steps.span, steps.total, steps.product, steps.shifted, steps.start,
        steps.size, steps.behind, steps.last]

/-! ## The configuration of a server -/

def Tables.serversForNetwork (t : Tables) (cfg : DhcpNetwork) : List Label :=
  cfg.servers.filter fun name => t.dhcpServerIsRegistered name.text.str

def sliceAmong (cfg : DhcpNetwork) (onNet : List Label) (server : Label) :
    Option (Address × Address) :=
  match onNet.findIdx? fun name => name = server with
  | none => none
  | some index => dhcpSliceFor cfg index onNet.length

/-- The slice of a range for a server, as `dhcp_render_conf` asks for it. -/
def Tables.sliceOf (t : Tables) (cfg : DhcpNetwork) (server : Label) : Option (Address × Address) :=
  sliceAmong cfg (t.serversForNetwork cfg) server

/-! ## What the operations leave -/

variable {cfg : DhcpNetwork}

def DhcpNetwork.addresses (cfg : DhcpNetwork) : Nat :=
  cfg.rangeEnd.toNat - cfg.rangeStart.toNat + 1

theorem DhcpNetwork.ordered (valid : cfg.rangeIsValid = true) : 1 ≤ cfg.rangeStart.toNat ∧
      cfg.rangeStart.toNat ≤ cfg.rangeEnd.toNat := by
  simp only [DhcpNetwork.rangeIsValid, Bool.and_eq_true, decide_eq_true_eq,
    Bool.not_eq_true', decide_eq_false_iff_not] at valid
  obtain ⟨⟨⟨⟨notZero, -⟩, order⟩, -⟩, -⟩ := valid
  refine ⟨?_, ?_⟩
  · by_contra low
    apply notZero
    apply BitVec.eq_of_toNat_eq
    have isZero : cfg.rangeStart.toNat = 0 := by omega
    rw [isZero]
    rfl
  · exact Nat.le_of_not_lt order

theorem Op.not_wraps {op : Op} (same : (op.result.toNat : Int) = op.exact) : ¬ op.Wraps :=
  not_not.mpr same

theorem Op.toNat_add {a b : Address} (fits : a.toNat + b.toNat < 2 ^ 32) :
    (Op.add a b).result.toNat = a.toNat + b.toNat ∧ ¬ (Op.add a b).Wraps := by
  have value : (a + b).toNat = a.toNat + b.toNat := by
    rw [BitVec.toNat_add, Nat.mod_eq_of_lt fits]
  refine ⟨value, Op.not_wraps ?_⟩
  simp only [Op.add, value]
  push_cast
  rfl

theorem steps_total {first last : Address} (index count : Address)
    (low : 1 ≤ first.toNat) (order : first.toNat ≤ last.toNat) :
    (sliceSteps first last index count).total.result.toNat = last.toNat - first.toNat + 1 ∧
      ¬ (sliceSteps first last index count).span.Wraps ∧
      ¬ (sliceSteps first last index count).total.Wraps := by
  have span : (last - first).toNat = last.toNat - first.toNat :=
    BitVec.toNat_sub_of_le (BitVec.le_def.mpr order)
  have bound := last.isLt
  have fits : (last - first).toNat + (1 : Address).toNat < 2 ^ 32 := by
    have one : (1 : Address).toNat = 1 := by decide
    omega
  obtain ⟨total, exact⟩ := Op.toNat_add fits
  refine ⟨?_, ?_, exact⟩
  · have one : (1 : Address).toNat = 1 := by decide
    simp only [sliceSteps, Op.sub]
    rw [total, span, one]
  · apply Op.not_wraps
    simp only [sliceSteps, Op.sub, span]
    omega

theorem Op.toNat_mul {a b : Address} (fits : a.toNat * b.toNat < 2 ^ 32) :
    (Op.mul a b).result.toNat = a.toNat * b.toNat ∧ ¬ (Op.mul a b).Wraps := by
  have value : (a * b).toNat = a.toNat * b.toNat := by
    rw [BitVec.toNat_mul, Nat.mod_eq_of_lt fits]
  refine ⟨value, Op.not_wraps ?_⟩
  simp only [Op.mul, value]
  push_cast
  rfl

theorem Op.behind_last {start size : Address} (positive : 1 ≤ size.toNat)
    (fits : start.toNat + size.toNat ≤ 2 ^ 32) :
    (Op.sub (Op.add start size).result 1).result.toNat + 1 = start.toNat + size.toNat ∧
      ((Op.add start size).Wraps ↔ start.toNat + size.toNat = 2 ^ 32) ∧
      ((Op.sub (Op.add start size).result 1).Wraps ↔ start.toNat + size.toNat = 2 ^ 32) := by
  have one : (1 : Address).toNat = 1 := by decide
  have sum : (start + size).toNat = (start.toNat + size.toNat) % 2 ^ 32 := BitVec.toNat_add _ _
  have difference : (start + size - 1).toNat = (2 ^ 32 - 1 + (start + size).toNat) % 2 ^ 32 := by
    rw [BitVec.toNat_sub, one]
  simp only [Op.Wraps, Op.add, Op.sub, one]
  omega

theorem steps_values {first last index count : Address} {n i : Nat}
    (low : 1 ≤ first.toNat) (order : first.toNat ≤ last.toNat)
    (isCount : count.toNat = n) (isIndex : index.toNat = i)
    (inside : i < n) (enough : n ≤ last.toNat - first.toNat + 1) :
    let steps := sliceSteps first last index count
    let total := last.toNat - first.toNat + 1
    steps.start.result.toNat = first.toNat + EvenSplit.offset total n i ∧
      steps.last.result.toNat + 1 =
        first.toNat + EvenSplit.offset total n (i + 1) ∧
      (¬ steps.product.Wraps ∧ ¬ steps.shifted.Wraps ∧ ¬ steps.start.Wraps ∧ ¬ steps.size.Wraps) ∧
      (steps.behind.Wraps ↔ last.toNat + 1 = 2 ^ 32 ∧ i + 1 = n) ∧
      (steps.last.Wraps ↔ last.toNat + 1 = 2 ^ 32 ∧ i + 1 = n) := by
  intro steps total
  have span : first.toNat + total = last.toNat + 1 := by
    change first.toNat + (last.toNat - first.toNat + 1) = last.toNat + 1
    omega
  have isTotal := (steps_total index count low order).1
  have bound := last.isLt
  obtain ⟨word, isWord⟩ : ∃ word, word = (Op.add (Op.sub last first).result 1).result := ⟨_, rfl⟩
  have wordValue : word.toNat = total := by
    rw [isWord]
    exact isTotal
  have base : (word / count).toNat = total / n := by rw [BitVec.toNat_udiv, wordValue, isCount]
  have extra : (word % count).toNat = total % n := by rw [BitVec.toNat_umod, wordValue, isCount]
  have less : index < word % count ↔ i < total % n := by rw [BitVec.lt_def, extra, isIndex]
  have share : (if index < word % count then index
      else word % count).toNat = min i (total % n) := by
    split_ifs with isLess
    · rw [less] at isLess
      rw [isIndex]
      omega
    · rw [less] at isLess
      rw [extra]
      omega
  have oneMore : (if index < word % count then 1 else 0 : Address).toNat =
      if i < total % n then 1 else 0 := by
    simp only [less]
    split_ifs <;> rfl
  have ends : EvenSplit.offset total n (i + 1) ≤ total := EvenSplit.offset_succ_le inside
  have next := EvenSplit.offset_succ total n i
  have size : total / n + (if i < total % n then 1 else 0) =
      EvenSplit.size total n i := rfl
  have grows : 0 < EvenSplit.size total n i := EvenSplit.size_pos enough (by omega) i
  have starts : total / n * i + min i (total % n) =
      EvenSplit.offset total n i := rfl
  obtain ⟨productValue, productExact⟩ := Op.toNat_mul
    (a := word / count) (b := index) (by rw [base, isIndex]; omega)
  rw [base, isIndex] at productValue
  obtain ⟨shiftedValue, shiftedExact⟩ := Op.toNat_add (a := first)
    (b := (Op.mul (word / count) index).result)
    (by rw [productValue]; omega)
  rw [productValue] at shiftedValue
  obtain ⟨startValue, startExact⟩ := Op.toNat_add
    (a := (Op.add first (Op.mul (word / count) index).result).result)
    (b := if index < word % count then index else word % count)
    (by rw [shiftedValue, share]; omega)
  rw [shiftedValue, share] at startValue
  obtain ⟨sizeValue, sizeExact⟩ := Op.toNat_add (a := word / count)
    (b := if index < word % count then 1 else 0)
    (by rw [base, oneMore]; omega)
  rw [base, oneMore, size] at sizeValue
  have isStart : steps.start = Op.add (Op.add first (Op.mul (word / count) index).result).result
      (if index < word % count then index else word % count) := by
    rw [isWord]
    rfl
  have isSize : steps.size = Op.add (word / count) (if index < word % count then 1 else 0) := by
    rw [isWord]
    rfl
  rw [← isStart] at startValue startExact
  rw [← isSize] at sizeValue sizeExact
  have holds : 1 ≤ steps.size.result.toNat := by
    rw [sizeValue]
    exact grows
  have room : steps.start.result.toNat + steps.size.result.toNat ≤ 2 ^ 32 := by
    rw [startValue, sizeValue]
    omega
  obtain ⟨lastValue, behindWraps, lastWraps⟩ := Op.behind_last holds room
  have touches : steps.start.result.toNat + steps.size.result.toNat =
      2 ^ 32 ↔ last.toNat + 1 = 2 ^ 32 ∧ i + 1 = n := by
    rw [← EvenSplit.offset_succ_eq_iff enough inside]
    change _ ↔ _ ∧ EvenSplit.offset total n (i + 1) = total
    rw [startValue, sizeValue]
    omega
  refine ⟨?_, ?_, ⟨?_, ?_, startExact, sizeExact⟩, ?_, ?_⟩
  · rw [startValue]
    omega
  · change (Op.sub (Op.add steps.start.result steps.size.result).result 1).result.toNat + 1 = _
    rw [lastValue, startValue, sizeValue]
    omega
  · rw [isWord] at productExact
    exact productExact
  · rw [isWord] at shiftedExact
    exact shiftedExact
  · exact behindWraps.trans touches
  · exact lastWraps.trans touches

/-! ## The slices of a range -/

variable {servers : List Label}

theorem toNat_ofInt_count {n : Nat} (small : n < 2 ^ 31) :
    (BitVec.ofInt 32 (n : Int)).toNat = n := by
  rw [BitVec.ofInt_natCast, BitVec.toNat_ofNat]
  omega

theorem steps_few_iff (valid : cfg.rangeIsValid = true) {n : Nat} (i : Nat) (small : n < 2 ^ 31) :
    (cfg.steps i n).total.result < BitVec.ofInt 32 (n : Int) ↔ cfg.addresses < n := by
  obtain ⟨low, order⟩ := cfg.ordered valid
  have total := (steps_total (BitVec.ofInt 32 (i : Int)) (BitVec.ofInt 32 (n : Int)) low order).1
  rw [BitVec.lt_def, DhcpNetwork.steps, total, toNat_ofInt_count small]
  rfl

theorem not_backwards (valid : cfg.rangeIsValid = true) : ¬ cfg.rangeEnd < cfg.rangeStart := by
  rw [BitVec.lt_def]
  exact Nat.not_lt_of_le (cfg.ordered valid).2

theorem dhcpSliceFor_few (valid : cfg.rangeIsValid = true) {n : Nat} (i : Nat)
    (small : n < 2 ^ 31) (few : cfg.addresses < n) :
    dhcpSliceFor cfg i n = none := by
  have least : 1 ≤ cfg.addresses := Nat.le_add_left 1 _
  rw [dhcpSliceFor, if_neg (by omega), if_neg (not_backwards valid)]
  dsimp only
  rw [if_pos ((steps_few_iff valid i small).mpr few)]

theorem dhcpSliceFor_share (valid : cfg.rangeIsValid = true) {n i : Nat}
    (small : n < 2 ^ 31) (inside : i < n) (enough : n ≤ cfg.addresses) :
    ∃ a b, dhcpSliceFor cfg i n = some (a, b) ∧ a.toNat = cfg.rangeStart.toNat +
        EvenSplit.offset cfg.addresses n i ∧
      b.toNat + 1 = cfg.rangeStart.toNat + EvenSplit.offset cfg.addresses n (i + 1) := by
  obtain ⟨low, order⟩ := cfg.ordered valid
  by_cases single : n = 1
  · have isFirst : i = 0 := by omega
    subst single isFirst
    refine ⟨cfg.rangeStart, cfg.rangeEnd, rfl, ?_, ?_⟩
    · rw [EvenSplit.offset_zero]
      rfl
    · rw [EvenSplit.offset_parts (by omega)]
      unfold DhcpNetwork.addresses
      omega
  · have values := steps_values low order (toNat_ofInt_count small)
      (toNat_ofInt_count (n := i) (by omega)) inside enough
    refine ⟨_, _, ?_, values.1, values.2.1⟩
    rw [dhcpSliceFor, if_neg (by omega), if_neg (not_backwards valid)]
    dsimp only
    rw [if_neg (by rw [steps_few_iff valid i small]; omega)]
    rfl

theorem performed_wraps (valid : cfg.rangeIsValid = true) {n i : Nat}
    (small : n < 2 ^ 31) (inside : i < n) {op : Op}
    (carried : op ∈ cfg.performed i n) (wraps : op.Wraps) :
    (op = (cfg.steps i n).behind ∨ op = (cfg.steps i n).last) ∧
      cfg.rangeEnd.toNat + 1 = 2 ^ 32 ∧ i + 1 = n := by
  obtain ⟨low, order⟩ := cfg.ordered valid
  obtain ⟨-, span, total⟩ := steps_total (BitVec.ofInt 32 (i : Int))
    (BitVec.ofInt 32 (n : Int)) low order
  unfold DhcpNetwork.performed at carried
  split at carried
  · cases carried
  · rw [if_neg (not_backwards valid)] at carried
    dsimp only at carried
    split at carried
    · simp only [mem_cons, not_mem_nil, or_false] at carried
      rcases carried with isSpan | isTotal
      · exact absurd wraps (isSpan ▸ span)
      · exact absurd wraps (isTotal ▸ total)
    next enough =>
      rw [steps_few_iff valid i small] at enough
      obtain ⟨-, -, ⟨product, shifted, start, size⟩, behind, last⟩ :=
        steps_values low order (toNat_ofInt_count small)
          (toNat_ofInt_count (n := i) (by omega)) inside
          (Nat.le_of_not_lt enough)
      simp only [mem_cons, not_mem_nil, or_false] at carried
      rcases carried with isOp | isOp | isOp | isOp | isOp | isOp | isOp | isOp
      · exact absurd wraps (isOp ▸ span)
      · exact absurd wraps (isOp ▸ total)
      · exact absurd wraps (isOp ▸ product)
      · exact absurd wraps (isOp ▸ shifted)
      · exact absurd wraps (isOp ▸ start)
      · exact absurd wraps (isOp ▸ size)
      · rw [isOp] at wraps ⊢
        exact ⟨Or.inl rfl, behind.mp wraps⟩
      · rw [isOp] at wraps ⊢
        exact ⟨Or.inr rfl, last.mp wraps⟩

def InSlice (x : Address) (slice : Address × Address) : Prop :=
  slice.1 ≤ x ∧ x ≤ slice.2

structure Partitioned (cfg : DhcpNetwork) (servers : List Label) : Prop where
  disjoint : ∀ a ∈ servers, ∀ b ∈ servers, a ≠ b → ∀ x first second,
    sliceAmong cfg servers a = some first →
    sliceAmong cfg servers b = some second →
    ¬ (InSlice x first ∧ InSlice x second)
  inside : ∀ a ∈ servers, ∀ slice, sliceAmong cfg servers a = some slice →
    cfg.rangeStart ≤ slice.1 ∧ slice.1 ≤ slice.2 ∧ slice.2 ≤ cfg.rangeEnd
  covered : servers.length ≤ cfg.addresses → ∀ x, cfg.rangeStart ≤ x → x ≤ cfg.rangeEnd →
    ∃ a ∈ servers, ∃ slice, sliceAmong cfg servers a = some slice ∧ InSlice x slice

theorem sliceAmong_of_getElem? (distinct : servers.Nodup) {i : Nat} {a : Label}
    (held : servers[i]? = some a) :
    sliceAmong cfg servers a = dhcpSliceFor cfg i servers.length := by
  obtain ⟨inside, isA⟩ := List.getElem?_eq_some_iff.mp held
  have found : servers.findIdx? (fun name => name = a) = some i := by
    rw [findIdx?_eq_some_iff_getElem]
    refine ⟨inside, decide_eq_true isA, ?_⟩
    intro j before same
    have equal : servers[j] = servers[i] := (of_decide_eq_true same).trans isA.symm
    have position := (List.Nodup.getElem_inj_iff distinct).mp equal
    omega
  rw [sliceAmong, found]

theorem sliceAmong_share (valid : cfg.rangeIsValid = true)
    (distinct : servers.Nodup) (small : servers.length < 2 ^ 31) {a : Label}
    {i : Nat} (held : servers[i]? = some a) {slice : Address × Address}
    (isSlice : sliceAmong cfg servers a = some slice) :
    servers.length ≤ cfg.addresses ∧ slice.1.toNat = cfg.rangeStart.toNat +
        EvenSplit.offset cfg.addresses servers.length i ∧
      slice.2.toNat + 1 = cfg.rangeStart.toNat +
        EvenSplit.offset cfg.addresses servers.length (i + 1) := by
  have inside : i < servers.length := (List.getElem?_eq_some_iff.mp held).1
  rw [sliceAmong_of_getElem? distinct held] at isSlice
  by_cases enough : servers.length ≤ cfg.addresses
  · obtain ⟨first, last, isShare, starts, ends⟩ := dhcpSliceFor_share valid small inside enough
    rw [isShare] at isSlice
    cases isSlice
    exact ⟨enough, starts, ends⟩
  · rw [dhcpSliceFor_few valid i small (by omega)] at isSlice
    cases isSlice

theorem partitioned (valid : cfg.rangeIsValid = true) (given : servers ≠ [])
    (distinct : servers.Nodup) (small : servers.length < 2 ^ 31) :
    Partitioned cfg servers := by
  have positive : 0 < servers.length := length_pos_iff.mpr given
  have order := (cfg.ordered valid).2
  refine ⟨?_, ?_, ?_⟩
  · intro a inA b inB differ x first second isFirst isSecond both
    obtain ⟨i, heldA⟩ := mem_iff_getElem?.mp inA
    obtain ⟨j, heldB⟩ := mem_iff_getElem?.mp inB
    obtain ⟨-, startA, endA⟩ := sliceAmong_share valid distinct small heldA isFirst
    obtain ⟨-, startB, endB⟩ := sliceAmong_share valid distinct small heldB isSecond
    obtain ⟨⟨fromA, toA⟩, ⟨fromB, toB⟩⟩ := both
    rw [BitVec.le_def] at fromA toA fromB toB
    -- of two shares the one of the earlier position ends first
    rcases Nat.lt_trichotomy i j with before | same | behind
    · have ends := EvenSplit.offset_mono cfg.addresses servers.length (show i + 1 ≤ j from before)
      omega
    · rw [same, heldB] at heldA
      exact differ (Option.some.inj heldA).symm
    · have ends := EvenSplit.offset_mono cfg.addresses servers.length (show j + 1 ≤ i from behind)
      omega
  · intro a inA slice isSlice
    obtain ⟨i, held⟩ := mem_iff_getElem?.mp inA
    have inside : i < servers.length := (List.getElem?_eq_some_iff.mp held).1
    obtain ⟨enough, starts, ends⟩ := sliceAmong_share valid distinct small held isSlice
    have next := EvenSplit.offset_succ cfg.addresses servers.length i
    have grows := EvenSplit.size_pos enough positive i
    have bounded := @EvenSplit.offset_succ_le cfg.addresses _ _ inside
    have total : cfg.addresses = cfg.rangeEnd.toNat - cfg.rangeStart.toNat + 1 := rfl
    simp only [BitVec.le_def]
    omega
  · intro enough x low high
    rw [BitVec.le_def] at low high
    have total : cfg.addresses = cfg.rangeEnd.toNat - cfg.rangeStart.toNat + 1 := rfl
    have within : x.toNat - cfg.rangeStart.toNat < cfg.addresses := by omega
    obtain ⟨i, inside, starts, ends⟩ := EvenSplit.exists_share positive within
    obtain ⟨first, last, isShare, isFirst, isLast⟩ :=
      dhcpSliceFor_share valid small inside enough
    have held : servers[i]? = some (servers.get ⟨i, inside⟩) := getElem?_eq_getElem inside
    refine ⟨servers.get ⟨i, inside⟩, get_mem _ _, (first, last), ?_, ?_⟩
    · rw [sliceAmong_of_getElem? distinct held, isShare]
    · simp only [InSlice, BitVec.le_def]
      omega

theorem Tables.sliceOf_registered {t : Tables} (registered : ∀ name ∈ cfg.servers,
      t.dhcpServerIsRegistered name.text.str = true) (server : Label) :
    t.sliceOf cfg server = sliceAmong cfg cfg.servers server := by
  have all : t.serversForNetwork cfg = cfg.servers := filter_eq_self.mpr registered
  rw [Tables.sliceOf, all]

/-- The slices of a range that is accepted, among servers that differ, are
disjoint, inside the range and cover it, and no operation wraps except behind
the last address of all, where the result is still right.  They are the slices
that the servers of the range are given when all of them are registered. -/
theorem slices_partition_range (cfg : DhcpNetwork)
    (valid : cfg.rangeIsValid = true) (servers : List Label)
    (given : servers ≠ []) (distinct : servers.Nodup)
    (small : servers.length < 2 ^ 31) :
    Partitioned cfg servers ∧ (∀ i < servers.length, ∀ op ∈ cfg.performed i servers.length,
        op.Wraps →
        (op = (cfg.steps i servers.length).behind ∨ op = (cfg.steps i servers.length).last) ∧
          cfg.rangeEnd.toNat + 1 = 2 ^ 32 ∧ i + 1 = servers.length) ∧
      ∀ t : Tables, cfg.servers = servers →
        (∀ name ∈ servers, t.dhcpServerIsRegistered name.text.str = true) →
        ∀ server, t.sliceOf cfg server = sliceAmong cfg servers server := by
  refine ⟨partitioned valid given distinct small, ?_, ?_⟩
  · intro i inside op carried wraps
    exact performed_wraps valid small inside carried wraps
  · intro t isServers registered server
    subst isServers
    exact t.sliceOf_registered registered server

/-! ## A range at the end -/

def label (name : String) (given : (CStr.ofString name).length ≠ 0) : Label :=
  ⟨_, truncate_length_ne given⟩

def lastRange : DhcpNetwork :=
  { network := label "lan" (by decide)
    enabled := true
    rangeStart := 0xFFFFFFFC
    rangeEnd := 0xFFFFFFFF
    leaseSeconds := 3600
    router := 0
    servers := [label "a" (by decide), label "b" (by decide)]
    atMost := by decide }

theorem slices_partition_range_last :
    lastRange.rangeIsValid = true ∧ Partitioned lastRange lastRange.servers :=
  ⟨by decide, (slices_partition_range lastRange (by decide) lastRange.servers
    (by decide) (by decide) (by decide)).1⟩

def lastTables : Tables :=
  { Tables.fresh with servers := Slots.ofEntries _ lastRange.servers }

/-- The address behind the last slice of that range is 0. -/
theorem slice_wraps_at_the_end : ¬ ∀ (t : Tables) (cfg : DhcpNetwork) (servers : List Label),
      cfg.rangeIsValid = true → servers ≠ [] → servers.Nodup →
      (∀ name ∈ servers, t.dhcpServerIsRegistered name.text.str = true) →
      ∀ i < servers.length, ∀ op ∈ cfg.performed i servers.length, ¬ op.Wraps := by
  intro always
  have never := always lastTables lastRange lastRange.servers (by decide)
    (by decide) (by decide) (by decide) 1 (by decide)
    (lastRange.steps 1 2).behind (by decide)
  exact never (by decide)

end Cix.Net.Dhcp
