import Cix.Ws.Frames

/-!
# What is written is taken off again

A frame in any of the three forms of its length is found at the start of a
buffer that holds it, and what a buffer holds at its start does not depend on
the bytes that follow.
-/

namespace Cix.Ws

open Cix.Lib List Option

@[simp]
theorem length_bigBytes (count value : Nat) : (bigBytes count value).length = count := by
  induction count with
  | zero => rfl
  | succ count ih => rw [bigBytes, length_cons, ih]

theorem foldl_bigBytes (count value start : Nat) : (bigBytes count value).foldl
        (fun value byte => value * 256 + byte.toNat) start =
      start * 256 ^ count + value % 256 ^ count := by
  induction count generalizing start with
  | zero =>
    rw [bigBytes, foldl_nil, Nat.pow_zero, Nat.mod_one]
    omega
  | succ count ih =>
    have digit : (UInt8.ofNat (value / 256 ^ count % 256)).toNat = value / 256 ^ count % 256 := by
      rw [UInt8.toNat_ofNat']
      exact Nat.mod_eq_of_lt (Nat.mod_lt _ (by decide))
    have split : value % 256 ^ (count + 1) =
        value / 256 ^ count % 256 * 256 ^ count + value % 256 ^ count := by
      rw [Nat.pow_succ, Nat.mod_mul, Nat.mul_comm, Nat.add_comm]
    rw [bigBytes, foldl_cons, ih, digit, split,
      Nat.pow_succ, Nat.add_mul, Nat.mul_assoc, Nat.mul_comm 256,
      Nat.add_assoc]

theorem bigEndian_bigBytes {count value : Nat} (small : value < 256 ^ count) :
    bigEndian (bigBytes count value) = value := by
  rw [bigEndian, foldl_bigBytes, Nat.mod_eq_of_lt small]
  omega

theorem foldl_bigEndian (bytes : Bytes) (start : Nat) :
    bytes.foldl (fun value byte => value * 256 + byte.toNat) start =
      start * 256 ^ bytes.length + bigEndian bytes := by
  induction bytes generalizing start with
  | nil => simp [bigEndian]
  | cons byte rest ih =>
    rw [bigEndian, foldl_cons, foldl_cons, ih, ih (0 * 256 + byte.toNat), length_cons,
      Nat.pow_succ, Nat.add_mul, Nat.zero_mul, Nat.zero_add, Nat.mul_assoc,
      Nat.mul_comm 256, Nat.add_assoc]

theorem bigEndian_cons (byte : UInt8) (rest : Bytes) : bigEndian (byte :: rest) =
      byte.toNat * 256 ^ rest.length + bigEndian rest := by
  rw [bigEndian, foldl_cons, foldl_bigEndian]
  simp

theorem bigEndian_lt (bytes : Bytes) : bigEndian bytes < 256 ^ bytes.length := by
  induction bytes with
  | nil => simp [bigEndian]
  | cons byte rest ih =>
    have digit : byte.toNat + 1 ≤ 256 := byte.toNat_lt
    have whole := Nat.mul_le_mul_right (256 ^ rest.length) digit
    rw [bigEndian_cons, length_cons, Nat.pow_succ]
    rw [Nat.add_mul, Nat.mul_comm 256] at whole
    omega

theorem bigBytes_add (count high value : Nat) :
    bigBytes count (high * 256 ^ count + value) = bigBytes count value := by
  induction count generalizing high with
  | zero => rfl
  | succ count ih =>
    have shifted : high * 256 ^ (count + 1) = high * 256 * 256 ^ count := by
      rw [Nat.pow_succ, Nat.mul_comm (256 ^ count), Nat.mul_assoc]
    have digit : (high * 256 * 256 ^ count + value) / 256 ^ count % 256 =
        value / 256 ^ count % 256 := by
      rw [Nat.add_comm, Nat.add_mul_div_right _ _
        (Nat.pow_pos (by decide : 0 < 256)), Nat.add_mul_mod_self_right]
    rw [bigBytes, bigBytes, shifted, digit, ih]

theorem bigBytes_bigEndian (bytes : Bytes) : bigBytes bytes.length (bigEndian bytes) = bytes := by
  induction bytes with
  | nil => rfl
  | cons byte rest ih =>
    have small := bigEndian_lt rest
    have digit : (byte.toNat * 256 ^ rest.length + bigEndian rest) /
        256 ^ rest.length % 256 = byte.toNat := by
      rw [Nat.add_comm, Nat.add_mul_div_right _ _
        (Nat.pow_pos (by decide : 0 < 256)), Nat.div_eq_of_lt small,
        Nat.zero_add]
      exact Nat.mod_eq_of_lt byte.toNat_lt
    rw [length_cons, bigBytes, bigEndian_cons, digit, bigBytes_add, ih, UInt8.ofNat_toNat]

theorem unmask_unmask (mask payload : Bytes) : unmask mask (unmask mask payload) = payload := by
  apply ext_getElem
  · simp [unmask]
  · intro i _ _
    simp [unmask, UInt8.xor_assoc]

@[simp]
theorem length_unmask (mask payload : Bytes) : (unmask mask payload).length = payload.length := by
  simp [unmask]

theorem toNat_firstByte (opcode : Nat) : (firstByte opcode).toNat = 128 + opcode % 16 := by
  rw [firstByte, UInt8.toNat_ofNat']
  omega

theorem extended_le_headerLen (b1 : UInt8) : 2 + extended b1 ≤ headerLen b1 := by
  unfold headerLen
  omega

theorem four_le_headerLen {b1 : UInt8} (masked : isMasked b1 = true) :
    6 + extended b1 = headerLen b1 := by
  rw [headerLen, if_pos masked]
  omega

theorem payloadLen_append {buf : Bytes} {b1 : UInt8}
    (whole : headerLen b1 ≤ buf.length) (later : Bytes) :
    payloadLen (buf ++ later) b1 = payloadLen buf b1 := by
  have inside := extended_le_headerLen b1
  have same : ((buf ++ later).drop 2).take (extended b1) = (buf.drop 2).take (extended b1) := by
    rw [drop_append_of_le_length (by omega), take_append_of_le_length (by rw [length_drop]; omega)]
  rw [payloadLen, payloadLen, same]

theorem payloadAt_append {buf : Bytes} {b1 : UInt8}
    (whole : headerLen b1 + payloadLen buf b1 ≤ buf.length)
    (later : Bytes) : payloadAt (buf ++ later) b1 = payloadAt buf b1 := by
  have sameLen := @payloadLen_append buf b1 (by omega) later
  have samePayload : ((buf ++ later).drop (headerLen b1)).take (payloadLen buf b1) =
        (buf.drop (headerLen b1)).take (payloadLen buf b1) := by
    rw [drop_append_of_le_length (by omega), take_append_of_le_length (by rw [length_drop]; omega)]
  simp only [payloadAt, sameLen, samePayload]
  cases masked : isMasked b1 with
  | false => rfl
  | true =>
    have room := four_le_headerLen masked
    rw [drop_append_of_le_length (by omega), take_append_of_le_length (by rw [length_drop]; omega)]

theorem scanFrame_size {rules : FrameRules} {buf : Bytes} {frame : Frame}
    {size : Nat} (found : scanFrame rules buf = .found frame size) :
    0 < size ∧ size ≤ buf.length := by
  match buf with
  | [] => cases found
  | [_] => cases found
  | b0 :: b1 :: rest =>
    simp only [scanFrame] at found
    split at found
    · cases found
    split at found
    · cases found
    split at found
    · cases found
    split at found
    · cases found
    split at found
    · cases found
    next whole =>
      cases found
      have positive := extended_le_headerLen b1
      omega

theorem scanFrame_append {rules : FrameRules} {buf : Bytes}
    (decided : scanFrame rules buf ≠ .more) (later : Bytes) :
    scanFrame rules (buf ++ later) = scanFrame rules buf := by
  match buf with
  | [] => exact absurd rfl decided
  | [_] => exact absurd rfl decided
  | b0 :: b1 :: rest =>
    simp only [cons_append]
    have longer : b0 :: b1 :: (rest ++ later) = (b0 :: b1 :: rest) ++ later := rfl
    simp only [scanFrame] at decided ⊢
    split
    · rfl
    next taken =>
      rw [if_neg taken] at decided
      by_cases short : (b0 :: b1 :: rest).length < headerLen b1
      · rw [if_pos short] at decided
        exact absurd rfl decided
      · rw [if_neg short] at decided
        have whole : headerLen b1 ≤ (b0 :: b1 :: rest).length := by omega
        have long : ¬ (b0 :: b1 :: (rest ++ later)).length <
            headerLen b1 := by
          rw [longer, length_append]
          omega
        rw [if_neg short, if_neg long, longer, payloadLen_append whole later]
        split
        · rfl
        next small =>
          rw [if_neg small] at decided
          split
          · rfl
          next masked =>
            rw [if_neg masked] at decided
            by_cases part : (b0 :: b1 :: rest).length <
                headerLen b1 + payloadLen (b0 :: b1 :: rest) b1
            · rw [if_pos part] at decided
              exact absurd rfl decided
            · rw [if_neg part, length_append, if_neg (by omega), payloadAt_append (by omega)]

def frames (rules : FrameRules) (last : Frame → Bool) : Scanner UInt8 Frame where
  scan := scanFrame rules
  last := last
  scan_nil := rfl
  size_found := scanFrame_size
  stable := scanFrame_append

inductive LengthForm where
  | short
  | medium
  | long
  deriving DecidableEq

def LengthForm.Holds : LengthForm → Nat → Prop
  | .short, len => len < 126
  | .medium, len => len < 2 ^ 16
  | .long, len => len < 2 ^ 64

instance (form : LengthForm) (len : Nat) : Decidable (form.Holds len) :=
  match form with
  | .short => inferInstanceAs (Decidable (len < 126))
  | .medium => inferInstanceAs (Decidable (len < 2 ^ 16))
  | .long => inferInstanceAs (Decidable (len < 2 ^ 64))

def LengthForm.code (len : Nat) : LengthForm → Nat
  | .short => len
  | .medium => 126
  | .long => 127

def LengthForm.extra (len : Nat) : LengthForm → Bytes
  | .short => []
  | .medium => bigBytes 2 len
  | .long => bigBytes 8 len

structure Mask where
  bytes : Bytes
  size : bytes.length = 4
  deriving DecidableEq

def secondByte (masked : Bool) (code : Nat) : UInt8 :=
  UInt8.ofNat ((if masked then 128 else 0) + code)

structure WireFrame (rules : FrameRules) where
  opcode : Nat
  form : LengthForm
  mask : Option Mask
  payload : Bytes
  opcodeRange : opcode < 16
  holds : form.Holds payload.length
  small : payload.length ≤ rules.maxPayload
  masked : rules.maskRequired = true → mask.isSome = true
  taken : rules.refuses (firstByte opcode) = false

namespace WireFrame

variable {rules : FrameRules}

def header (f : WireFrame rules) : Bytes :=
  firstByte f.opcode :: secondByte f.mask.isSome (f.form.code f.payload.length) ::
      f.form.extra f.payload.length

def body (f : WireFrame rules) : Bytes :=
  match f.mask with
  | none => f.payload
  | some mask => mask.bytes ++ unmask mask.bytes f.payload

def encode (f : WireFrame rules) : Bytes :=
  f.header ++ f.body

def frame (f : WireFrame rules) : Frame :=
  ⟨f.opcode, f.payload⟩

end WireFrame

theorem code_lt {form : LengthForm} {len : Nat} (holds : form.Holds len) : form.code len < 128 := by
  cases form with
  | short => exact Nat.lt_trans holds (by decide)
  | medium => exact (by decide : 126 < 128)
  | long => exact (by decide : 127 < 128)

theorem isMasked_secondByte {code : Nat} (small : code < 128)
    (masked : Bool) : isMasked (secondByte masked code) = masked := by
  unfold isMasked secondByte
  rw [UInt8.toNat_ofNat']
  cases masked with
  | true =>
    rw [if_pos rfl, decide_eq_true_iff]
    omega
  | false =>
    rw [if_neg Bool.false_ne_true, decide_eq_false_iff_not]
    omega

theorem len7_secondByte {code : Nat} (small : code < 128) (masked : Bool) :
    len7 (secondByte masked code) = code := by
  unfold len7 secondByte
  rw [UInt8.toNat_ofNat']
  cases masked with
  | true =>
    rw [if_pos rfl]
    omega
  | false =>
    rw [if_neg Bool.false_ne_true]
    omega

theorem length_said {form : LengthForm} {len : Nat} (holds : form.Holds len)
    (b0 : UInt8) (masked : Bool) (rest : Bytes) :
    let b1 := secondByte masked (form.code len)
    extended b1 = (form.extra len).length ∧
      payloadLen (b0 :: b1 :: (form.extra len ++ rest)) b1 = len := by
  intro b1
  have seven := len7_secondByte (code_lt holds) masked
  have extra : extended b1 = (form.extra len).length := by
    unfold extended
    rw [seven]
    cases form with
    | short =>
      have short : len < 126 := holds
      have code : LengthForm.short.code len = len := rfl
      rw [code, if_neg (by omega), if_neg (by omega)]
      rfl
    | medium =>
      have code : LengthForm.medium.code len = 126 := rfl
      rw [code, if_pos rfl]
      exact (length_bigBytes 2 len).symm
    | long =>
      have code : LengthForm.long.code len = 127 := rfl
      rw [code, if_neg (by decide), if_pos rfl]
      exact (length_bigBytes 8 len).symm
  refine ⟨extra, ?_⟩
  unfold payloadLen
  rw [seven, extra, drop_succ_cons, drop_succ_cons, drop_zero, take_left]
  cases form with
  | short => exact if_pos holds
  | medium =>
    have small : len < 256 ^ 2 := holds
    have code : LengthForm.medium.code len = 126 := rfl
    rw [code, if_neg (by decide)]
    exact bigEndian_bigBytes small
  | long =>
    have small : len < 256 ^ 8 := holds
    have code : LengthForm.long.code len = 127 := rfl
    rw [code, if_neg (by decide)]
    exact bigEndian_bigBytes small

theorem drop_header (b0 b1 : UInt8) (extra rest : Bytes) :
    (b0 :: b1 :: (extra ++ rest)).drop (2 + extra.length) = rest := by
  rw [Nat.add_comm, drop_succ_cons, drop_succ_cons, drop_left]

theorem length_body {rules : FrameRules} (f : WireFrame rules) :
    f.body.length = (if f.mask.isSome then 4 else 0) + f.payload.length := by
  unfold WireFrame.body
  cases f.mask with
  | none => simp
  | some mask => simp [mask.size]

theorem payloadAt_encode {rules : FrameRules} (f : WireFrame rules) (later : Bytes) :
    payloadAt (f.encode ++ later) (secondByte f.mask.isSome (f.form.code f.payload.length)) =
      f.payload := by
  obtain ⟨extra, said⟩ := length_said f.holds (firstByte f.opcode) f.mask.isSome (f.body ++ later)
  have masked := isMasked_secondByte (code_lt f.holds) f.mask.isSome
  have whole : f.encode ++ later = firstByte f.opcode ::
      secondByte f.mask.isSome (f.form.code f.payload.length) ::
        (f.form.extra f.payload.length ++ (f.body ++ later)) := by
    simp [WireFrame.encode, WireFrame.header]
  rw [whole]
  simp only [payloadAt, said, masked, headerLen, extra]
  cases isMask : f.mask with
  | none =>
    have isBody : f.body = f.payload := by rw [WireFrame.body, isMask]
    simp only [isSome_none, Bool.false_eq_true, if_false, Nat.add_zero]
    rw [drop_header, isBody, take_left]
  | some mask =>
    have isBody : f.body = mask.bytes ++ unmask mask.bytes f.payload := by
      rw [WireFrame.body, isMask]
    have sizes : f.payload.length = (unmask mask.bytes f.payload).length :=
      (length_unmask mask.bytes f.payload).symm
    simp only [isSome_some, if_true, Nat.add_sub_cancel]
    have behind := drop_header (firstByte f.opcode) (secondByte true (f.form.code f.payload.length))
      (f.form.extra f.payload.length) (f.body ++ later)
    rw [isBody, append_assoc] at behind
    have beyond := congrArg (List.drop 4) behind
    rw [drop_drop, ← mask.size, drop_left] at beyond
    rw [isBody, append_assoc, behind, ← mask.size, take_left,
      beyond, sizes, take_left, unmask_unmask]

theorem scanFrame_encode {rules : FrameRules} (f : WireFrame rules) (later : Bytes) :
    scanFrame rules (f.encode ++ later) = .found f.frame f.encode.length := by
  obtain ⟨extra, said⟩ := length_said f.holds (firstByte f.opcode) f.mask.isSome (f.body ++ later)
  have masked := isMasked_secondByte (code_lt f.holds) f.mask.isSome
  have found := payloadAt_encode f later
  have bodySize := length_body f
  have whole : f.encode ++ later = firstByte f.opcode ::
      secondByte f.mask.isSome (f.form.code f.payload.length) ::
        (f.form.extra f.payload.length ++ (f.body ++ later)) := by
    simp [WireFrame.encode, WireFrame.header]
  have encodeSize : f.encode.length =
      2 + (f.form.extra f.payload.length).length + f.body.length := by
    simp only [WireFrame.encode, WireFrame.header, length_append, length_cons]
    omega
  have headerSize : headerLen (secondByte f.mask.isSome (f.form.code f.payload.length)) +
        f.payload.length = f.encode.length := by
    rw [headerLen, extra, masked, encodeSize, bodySize]
    omega
  have hasMask : (rules.maskRequired && !f.mask.isSome) = false := by
    cases required : rules.maskRequired with
    | false => rfl
    | true => simp [f.masked required]
  rw [whole] at found ⊢
  simp only [scanFrame]
  rw [said, headerSize, found, f.taken, masked, hasMask, toNat_firstByte, ← whole, length_append]
  have opcode : (128 + f.opcode % 16) % 16 = f.opcode := by
    have range := f.opcodeRange
    omega
  have small := f.small
  rw [if_neg Bool.false_ne_true, if_neg (by omega), if_neg (by omega),
    if_neg Bool.false_ne_true, if_neg (by omega), opcode]
  rfl

theorem firstByte_of_taken {b0 : UInt8} (taken : daemonRules.refuses b0 = false) :
    firstByte (b0.toNat % 16) = b0 := by
  simp only [daemonRules, Bool.or_eq_false_iff, decide_eq_false_iff_not] at taken
  have byte := b0.toNat_lt
  have isByte : 128 + b0.toNat % 16 % 16 = b0.toNat := by omega
  rw [firstByte, isByte, UInt8.ofNat_toNat]

theorem secondByte_of_masked {b1 : UInt8} (masked : isMasked b1 = true) :
    secondByte true (len7 b1) = b1 := by
  have high : 128 ≤ b1.toNat := of_decide_eq_true masked
  have byte := b1.toNat_lt
  have isByte : 128 + len7 b1 = b1.toNat := by
    unfold len7
    omega
  rw [secondByte, if_pos rfl, isByte, UInt8.ofNat_toNat]

theorem exists_form {b1 : UInt8} {extra : Bytes} (size : extra.length = extended b1) :
    ∃ form : LengthForm,
      let len := if len7 b1 < 126 then len7 b1 else bigEndian extra
      form.Holds len ∧ form.code len = len7 b1 ∧ form.extra len = extra := by
  have small := bigEndian_lt extra
  have seven : len7 b1 < 128 := Nat.mod_lt _ (by decide)
  unfold extended at size
  by_cases isShort : len7 b1 < 126
  · rw [if_neg (by omega), if_neg (by omega)] at size
    refine ⟨.short, ?_⟩
    rw [if_pos isShort]
    exact ⟨isShort, rfl, (length_eq_zero_iff.mp size).symm⟩
  · by_cases isMedium : len7 b1 = 126
    · rw [if_pos isMedium] at size
      rw [size] at small
      refine ⟨.medium, ?_⟩
      rw [if_neg isShort]
      refine ⟨small, isMedium.symm, ?_⟩
      rw [LengthForm.extra, ← size, bigBytes_bigEndian]
    · have isLong : len7 b1 = 127 := by omega
      rw [if_neg isMedium, if_pos isLong] at size
      rw [size] at small
      refine ⟨.long, ?_⟩
      rw [if_neg isShort]
      refine ⟨small, isLong.symm, ?_⟩
      rw [LengthForm.extra, ← size, bigBytes_bigEndian]

theorem exists_wireFrame {buf : Bytes} {frame : Frame} {size : Nat}
    (found : wsConnTryParse buf = .found frame size) :
    ∃ f : WireFrame daemonRules, f.encode <+: buf := by
  match buf with
  | [] => cases found
  | [_] => cases found
  | b0 :: b1 :: rest =>
    simp only [wsConnTryParse, scanFrame] at found
    split at found
    · cases found
    next taken =>
    split at found
    · cases found
    split at found
    · cases found
    next small =>
    split at found
    · cases found
    next hasMask =>
    split at found
    · cases found
    next whole =>
    have masked : isMasked b1 = true := by simpa [daemonRules] using hasMask
    have headerSize := four_le_headerLen masked
    simp only [length_cons] at whole
    have extraSize : (rest.take (extended b1)).length = extended b1 := by
      rw [length_take]
      omega
    obtain ⟨form, holds, code, extra⟩ := exists_form extraSize
    have said : payloadLen (b0 :: b1 :: rest) b1 =
        if len7 b1 < 126 then len7 b1
        else bigEndian (rest.take (extended b1)) := rfl
    rw [← said] at holds code extra
    have maskSize : ((rest.drop (extended b1)).take 4).length = 4 := by
      rw [length_take, length_drop]
      omega
    have rawSize : (((rest.drop (extended b1)).drop 4).take
        (payloadLen (b0 :: b1 :: rest) b1)).length = payloadLen (b0 :: b1 :: rest) b1 := by
      rw [length_take, length_drop, length_drop]
      omega
    refine ⟨{
      opcode := b0.toNat % 16
      form := form
      mask := some ⟨_, maskSize⟩
      payload := unmask ((rest.drop (extended b1)).take 4)
        (((rest.drop (extended b1)).drop 4).take (payloadLen (b0 :: b1 :: rest) b1))
      opcodeRange := Nat.mod_lt _ (by decide)
      holds := by rw [length_unmask, rawSize]; exact holds
      small := by rw [length_unmask, rawSize]; exact Nat.not_lt.mp small
      masked := fun _ => rfl
      taken := by
        rw [firstByte_of_taken (by simpa using taken)]
        simpa using taken }, ?_⟩
    simp only [WireFrame.encode, WireFrame.header, WireFrame.body,
      isSome_some, length_unmask, rawSize, code, extra,
      unmask_unmask, firstByte_of_taken (Bool.not_eq_true _ ▸ taken),
      secondByte_of_masked masked, cons_append,
      prefix_cons_inj]
    refine ⟨((rest.drop (extended b1)).drop 4).drop (payloadLen (b0 :: b1 :: rest) b1), ?_⟩
    rw [append_assoc, append_assoc, take_append_drop, take_append_drop, take_append_drop]

def wire (rules : FrameRules) (last : Frame → Bool) :
    Wire (frames rules last) (WireFrame rules) where
  encode := WireFrame.encode
  view := WireFrame.frame
  scan_encode := scanFrame_encode

end Cix.Ws
