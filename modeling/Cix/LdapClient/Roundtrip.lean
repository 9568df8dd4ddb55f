import Cix.LdapClient.Ber

/-!
# What is written is read back

An element that `ber_write_tlv` has written is read by `ber_parse_tlv` with its
tag and its content, wherever it stands in memory and whatever follows it, and
an integer by `ber_parse_integer`.
-/

namespace Cix.LdapClient

open Cix.Lib List

section Memory

variable {mem : Nat → UInt8} {start : Nat}

@[simp]
theorem length_octetsAt (count : Nat) : (octetsAt mem start count).length = count := by
  simp [octetsAt]

theorem octetsAt_add (first second : Nat) : octetsAt mem start (first + second) =
      octetsAt mem start first ++ octetsAt mem (start + first) second := by
  unfold octetsAt
  rw [range_add, map_append, map_map]
  congr 1
  apply map_congr_left
  intro i _
  change mem (start + (first + i)) = mem (start + first + i)
  rw [Nat.add_assoc]

def Holds (mem : Nat → UInt8) (start : Nat) (octets : List UInt8) : Prop :=
  octetsAt mem start octets.length = octets

theorem holds_append {front back : List UInt8} : Holds mem start (front ++ back) ↔
      Holds mem start front ∧ Holds mem (start + front.length) back := by
  unfold Holds
  rw [length_append, octetsAt_add]
  constructor
  · intro same
    exact append_inj same (length_octetsAt _)
  · rintro ⟨first, second⟩
    rw [first, second]

theorem holds_cons {octet : UInt8} {rest : List UInt8} : Holds mem start (octet :: rest) ↔
      mem start = octet ∧ Holds mem (start + 1) rest := by
  rw [← singleton_append, holds_append]
  simp [Holds, octetsAt]

end Memory

/-- Octets that state a length: the length alone, or how many octets follow, no
more than a `size_t` has, and in these the length. -/
inductive LengthForm : List UInt8 → Nat → Prop where
  | short {len : Nat} (small : len < 128) : LengthForm [UInt8.ofNat len] len
  | long {digits : List UInt8} (some : digits ≠ []) (few : digits.length ≤ 8) :
      LengthForm ((0x80 ||| UInt8.ofNat digits.length) :: digits) (octetsNumber digits)

def Element (tag : UInt8) (content octets : List UInt8) : Prop :=
  ∃ form, LengthForm form content.length ∧ octets = tag :: form ++ content

theorem lenbyte_short {len : Nat} (short : len < 128) :
    UInt8.ofNat len < 0x80 ∧ (UInt8.ofNat len).toUInt64.toNat = len := by
  have small : len < 256 := by omega
  constructor
  · rw [UInt8.lt_iff_toNat_lt, UInt8.toNat_ofNat', Nat.mod_eq_of_lt small]
    exact short
  · rw [UInt8.toNat_toUInt64, UInt8.toNat_ofNat', Nat.mod_eq_of_lt small]

theorem lenbyte_long {count : Nat} (few : count ≤ 8) : ¬ (0x80 ||| UInt8.ofNat count) < 0x80 ∧
      ((0x80 ||| UInt8.ofNat count) &&& 0x7F).toNat = count := by
  have all : ∀ count : Fin 9, ¬ (0x80 ||| UInt8.ofNat count) < 0x80 ∧
      ((0x80 ||| UInt8.ofNat count) &&& 0x7F).toNat = count.val := by
    decide
  exact all ⟨count, Nat.lt_succ_of_le few⟩

theorem lenbyte_split {lenbyte : UInt8} (long : ¬ lenbyte < 0x80) :
    0x80 ||| UInt8.ofNat (lenbyte &&& 0x7F).toNat = lenbyte := by
  have all : ∀ n : Fin 256, ¬ UInt8.ofNat n < 0x80 →
      0x80 ||| UInt8.ofNat (UInt8.ofNat n &&& 0x7F).toNat = UInt8.ofNat n := by
    decide +kernel
  have same : UInt8.ofNat lenbyte.toNat = lenbyte := UInt8.ofNat_toNat
  have split := all ⟨lenbyte.toNat, lenbyte.toNat_lt⟩
  dsimp only at split
  rw [same] at split
  exact split long

theorem LengthForm.ne_nil {form : List UInt8} {len : Nat}
    (states : LengthForm form len) : form ≠ [] := by
  cases states with
  | short => exact cons_ne_nil _ _
  | long => exact cons_ne_nil _ _

theorem lengthForm_lengthOctets {len : Nat} (small : len < 2 ^ 64) :
    LengthForm (lengthOctets len) len := by
  unfold lengthOctets
  split
  next short => exact LengthForm.short short
  next long =>
    have few : (numberOctets len).length ≤ 8 := length_numberOctets_le (by omega)
    have some : numberOctets len ≠ [] := numberOctets_ne_nil (by omega)
    have form := LengthForm.long some few
    rw [octetsNumber_numberOctets] at form
    exact form

section Elements

variable {mem : Nat → UInt8} {start : Nat} {buflen : UInt64}

theorem berHeader_of_form {tag : UInt8} {form : List UInt8} {len : Nat}
    (states : LengthForm form len) (holds : Holds mem start (tag :: form))
    (within : 1 + form.length + len ≤ buflen.toNat) :
    ∃ pos contentLen, berHeader mem start buflen = some (pos, contentLen) ∧
      pos.toNat = 1 + form.length ∧ contentLen.toNat = len := by
  have buflenLt := buflen.toNat_lt
  have positive := length_pos_of_ne_nil states.ne_nil
  have notShort : ¬ buflen < 2 := by
    rw [UInt64.lt_iff_toNat_lt]
    change ¬ buflen.toNat < 2
    omega
  unfold berHeader
  rw [if_neg notShort]
  have length := (holds_cons.mp holds).2
  cases states with
  | short small =>
    obtain ⟨isShort, value⟩ := lenbyte_short small
    refine ⟨2, (UInt8.ofNat len).toUInt64, ?_, rfl, value⟩
    dsimp only
    rw [(holds_cons.mp length).1, if_pos isShort]
  | @long digits some few =>
    obtain ⟨notSmall, count⟩ := lenbyte_long few
    have notEmpty : digits.length ≠ 0 := by
      rw [Ne, length_eq_zero_iff]
      exact some
    have rest : (buflen - 2).toNat = buflen.toNat - 2 := by
      rw [UInt64.toNat_sub_of_le _ _ (UInt64.not_lt.mp notShort)]
      rfl
    rw [length_cons] at within
    refine ⟨2 + UInt64.ofNat digits.length, readWord digits, ?_, ?_, ?_⟩
    · dsimp only
      obtain ⟨first, read⟩ := holds_cons.mp length
      change octetsAt mem (start + 2) digits.length = digits at read
      rw [first, if_neg notSmall, count, if_neg, read]
      omega
    · rw [UInt64.toNat_add, UInt64.toNat_ofNat']
      change (2 + _ % 2 ^ 64) % 2 ^ 64 = _
      rw [length_cons]
      omega
    · exact toNat_readWord_of_short few

theorem berParseTlv_of_form {tag : UInt8} {form : List UInt8} {len : Nat}
    (states : LengthForm form len) (holds : Holds mem start (tag :: form))
    (within : 1 + form.length + len ≤ buflen.toNat) :
    ∃ t, berParseTlv mem start buflen = some t ∧ t.tag = tag ∧
      t.content = start + (1 + form.length) ∧ t.contentLen.toNat = len ∧
      t.totalLen.toNat = 1 + form.length + len := by
  have buflenLt := buflen.toNat_lt
  obtain ⟨pos, contentLen, header, isPos, isLen⟩ := berHeader_of_form states holds within
  have sum : (pos + contentLen).toNat = pos.toNat + contentLen.toNat := by
    rw [UInt64.toNat_add]
    omega
  have fits : ¬ pos + contentLen > buflen := by
    rw [gt_iff_lt, UInt64.lt_iff_toNat_lt, sum]
    omega
  unfold berParseTlv
  rw [header]
  dsimp only
  rw [if_neg fits]
  refine ⟨_, rfl, (holds_cons.mp holds).1, ?_, isLen, ?_⟩
  · dsimp only
    rw [isPos]
  · rw [sum, isPos, isLen]

theorem berParseTlv_element {tag : UInt8} {content octets : List UInt8}
    (isElement : Element tag content octets) (holds : Holds mem start octets)
    (within : octets.length ≤ buflen.toNat) :
    ∃ t, berParseTlv mem start buflen = some t ∧ t.tag = tag ∧
      octetsAt mem t.content t.contentLen.toNat = content ∧
      t.content + t.contentLen.toNat = start + octets.length ∧
      t.totalLen.toNat = octets.length := by
  obtain ⟨form, states, rfl⟩ := isElement
  have total : (tag :: form ++ content).length = 1 + form.length + content.length := by
    rw [length_append, length_cons]
    omega
  obtain ⟨front, back⟩ := holds_append.mp holds
  rw [total] at within
  obtain ⟨t, parsed, isTag, isContent, isLen, isTotal⟩ := berParseTlv_of_form states front within
  rw [total]
  refine ⟨t, parsed, isTag, ?_, by omega, isTotal⟩
  have behind : start + (tag :: form).length = t.content := by
    rw [length_cons, isContent]
    omega
  rw [behind] at back
  rw [isLen]
  exact back

end Elements

theorem octetsNumber_berEncodeInteger (value : Nat) :
    octetsNumber (berEncodeInteger value) = value := by
  unfold berEncodeInteger
  split
  next zero => rw [zero]; rfl
  next =>
    rw [octetsNumber_append, octetsNumber_numberOctets]
    split
    · simp [octetsNumber]
    · simp

theorem toInt_toInt64 {word : UInt64} (small : 2 * word.toNat < 2 ^ 64) :
    word.toInt64.toInt = word.toNat := by
  change word.toBitVec.toInt = _
  rw [BitVec.toInt_eq_toNat_of_lt small]
  rfl

/-- What fits the buffer is written, and an element that has been written is read
back with its tag and content and takes as many octets as were written; every
length is read back behind a tag, whether or not its content is there to be
written; and a `long` that is not negative is read back from its octets. -/
theorem ber_round_trip (tag : UInt8) (content buf : List UInt8) :
    (buf.length + (tlvOctets tag content).length ≤ berBufMax →
      ∃ out, berWriteTlv tag content buf = some out) ∧
    (∀ out, berWriteTlv tag content buf = some out →
      ∀ mem start buflen, Holds mem start (out.drop buf.length) →
        (out.drop buf.length).length ≤ UInt64.toNat buflen →
          ∃ t, berParseTlv mem start buflen = some t ∧ t.tag = tag ∧
            octetsAt mem t.content t.contentLen.toNat = content ∧
            t.totalLen.toNat = (out.drop buf.length).length) ∧
    (∀ len : Fin (2 ^ 64), buf.length + (lengthOctets len).length ≤ berBufMax →
      ∃ octets, berWriteLength len buf = some (buf ++ octets) ∧
        ∀ mem start buflen, Holds mem start (tag :: octets) →
          1 + octets.length + len ≤ UInt64.toNat buflen →
            ∃ t, berParseTlv mem start buflen = some t ∧ t.tag = tag ∧
              t.content = start + (1 + octets.length) ∧ t.contentLen.toNat = len ∧
              t.totalLen.toNat = 1 + octets.length + len) ∧
    ∀ value : Fin (2 ^ 63), (berParseInteger (berEncodeInteger value)).toInt = value := by
  refine ⟨fun fits => ⟨_, berWriteTlv_of_fits fits⟩, ?_, ?_, ?_⟩
  · intro out written mem start buflen holds within
    rw [berWriteTlv_eq_some written, drop_left] at holds within ⊢
    have buflenLt := buflen.toNat_lt
    have small : content.length < 2 ^ 64 := by
      have shorter : content.length ≤ (tlvOctets tag content).length := by
        rw [tlvOctets, length_append]
        exact Nat.le_add_left _ _
      omega
    have isElement : Element tag content (tlvOctets tag content) :=
      ⟨lengthOctets content.length, lengthForm_lengthOctets small, rfl⟩
    obtain ⟨t, parsed, isTag, isContent, _, isTotal⟩ :=
      berParseTlv_element isElement holds within
    exact ⟨t, parsed, isTag, isContent, isTotal⟩
  · intro len fits
    refine ⟨_, berWriteLength_of_fits fits, ?_⟩
    intro mem start buflen holds within
    exact berParseTlv_of_form (lengthForm_lengthOctets len.isLt) holds within
  · intro value
    have small := value.isLt
    have read : (readWord (berEncodeInteger value)).toNat = value.val := by
      rw [toNat_readWord, octetsNumber_berEncodeInteger, Nat.mod_eq_of_lt (by omega)]
    unfold berParseInteger
    rw [toInt_toInt64 (by omega), read]

/-- The message identifier 5 with its length in the short form, and behind one
octet a string of 200 octets, whose length takes the long form. -/
theorem both_forms_round_trip :
    (∀ mem start buflen, Holds mem start [2, 1, 5] → 3 ≤ UInt64.toNat buflen →
      ∃ t, berParseTlv mem start buflen = some t ∧ t.tag = 2 ∧
        octetsAt mem t.content t.contentLen.toNat = [5] ∧ t.totalLen.toNat = 3) ∧
    (∃ out, berWriteTlv 4 (replicate 200 97) [48] = some out) ∧
    ∀ mem start buflen, Holds mem start ([4, 0x81, 200] ++ replicate 200 97) →
      203 ≤ UInt64.toNat buflen →
        ∃ t, berParseTlv mem start buflen = some t ∧ t.tag = 4 ∧
          octetsAt mem t.content t.contentLen.toNat = replicate 200 97 ∧
          t.totalLen.toNat = 203 := by
  have short : berWriteTlv 2 [5] [] = some [2, 1, 5] := by decide +kernel
  have long : berWriteTlv 4 (replicate 200 97) [48] =
      some ([48] ++ ([4, 0x81, 200] ++ replicate 200 97)) := by decide +kernel
  have fits : ([48] : List UInt8).length + (tlvOctets 4 (replicate 200 97)).length ≤
      berBufMax := by decide +kernel
  refine ⟨(ber_round_trip 2 [5] []).2.1 _ short,
    (ber_round_trip 4 (replicate 200 97) [48]).1 fits, ?_⟩
  intro mem start buflen holds within
  exact (ber_round_trip 4 (replicate 200 97) [48]).2.1 _ long mem start buflen holds within

end Cix.LdapClient
