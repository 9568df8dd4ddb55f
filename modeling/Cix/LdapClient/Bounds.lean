import Cix.LdapClient.Roundtrip

/-!
# Elements inside the buffer

Where the content of an element lies, and how far the reader goes.  The length
that a header states is added to a position before it is compared, and the sum
is a `size_t`: where it wraps around, a length far beyond the buffer is
accepted.
-/

namespace Cix.LdapClient

open Cix.Lib

/-- The header of a message as `ber_read_message` receives it, from what the
server sends until it closes the connection. -/
def readHeader (server : List UInt8) (bufcap : UInt64) : Option (UInt64 × UInt64) :=
  match server with
  | _ :: lenbyte :: rest =>
    if lenbyte < 0x80 then some (2, lenbyte.toUInt64)
    else
      let nbytes := (lenbyte &&& 0x7F).toNat
      if nbytes = 0 ∨ nbytes > 8 ∨ 2 + UInt64.ofNat nbytes > bufcap then none
      else if rest.length < nbytes then none
      else some (2 + UInt64.ofNat nbytes, readWord (rest.take nbytes))
  | _ => none

/-- The header that `ber_read_message` accepts: from there on it receives as
many octets as the header states. -/
def acceptedHeader (server : List UInt8) (bufcap : UInt64) : Option (UInt64 × UInt64) :=
  (readHeader server bufcap).filter fun (pos, contentLen) =>
    pos + contentLen ≤ bufcap

/-- What becomes of a message: it fails, it is stored beyond the end of the
buffer, or it is there. -/
inductive ReadResult where
  | failed
  | beyond
  | message (octets : List UInt8)
  deriving DecidableEq

def berReadMessage (server : List UInt8) (bufcap : UInt64) : ReadResult :=
  match acceptedHeader server bufcap with
  | none => .failed
  | some (pos, contentLen) =>
    let stored := min (pos.toNat + contentLen.toNat) server.length
    if stored > bufcap.toNat then .beyond
    else if stored < pos.toNat + contentLen.toNat then .failed
    else .message (server.take stored)

def berParseMessageOp (mem : Nat → UInt8) (start : Nat) (len : UInt64) :
    Option Tlv := do
  let outer ← berParseTlv mem start len
  guard (outer.tag = 0x30)
  let msgid ← berParseTlv mem outer.content outer.contentLen
  guard (msgid.tag = 0x02)
  berParseTlv mem (outer.content + msgid.totalLen.toNat) (outer.contentLen - msgid.totalLen)

def Tlv.Within (t : Tlv) (start stop : Nat) : Prop :=
  start ≤ t.content ∧ t.content + t.contentLen.toNat ≤ stop

/-- The header at a position states a length with which the position behind the
element wraps around to one inside the buffer. -/
def Overruns (mem : Nat → UInt8) (start : Nat) (buflen : UInt64) : Prop :=
  ∃ pos contentLen, berHeader mem start buflen = some (pos, contentLen) ∧
    2 ^ 64 ≤ pos.toNat + contentLen.toNat ∧
    pos.toNat + contentLen.toNat ≤ 2 ^ 64 + buflen.toNat

def ReadOverruns (server : List UInt8) (bufcap : UInt64) : Prop :=
  ∃ pos contentLen, readHeader server bufcap = some (pos, contentLen) ∧
    2 ^ 64 ≤ pos.toNat + contentLen.toNat ∧
    pos.toNat + contentLen.toNat ≤ 2 ^ 64 + bufcap.toNat

theorem add_le_iff (pos contentLen bound : UInt64) : pos + contentLen ≤ bound ↔
      pos.toNat + contentLen.toNat ≤ bound.toNat ∨ 2 ^ 64 ≤ pos.toNat + contentLen.toNat ∧
          pos.toNat + contentLen.toNat ≤ 2 ^ 64 + bound.toNat := by
  have posLt := pos.toNat_lt
  have lenLt := contentLen.toNat_lt
  have boundLt := bound.toNat_lt
  rw [UInt64.le_iff_toNat_le, UInt64.toNat_add]
  omega

theorem berParseTlv_eq_some {mem : Nat → UInt8} {start : Nat}
    {buflen : UInt64} {t : Tlv} :
    berParseTlv mem start buflen = some t ↔
      ∃ pos contentLen, berHeader mem start buflen = some (pos, contentLen) ∧
        pos + contentLen ≤ buflen ∧
        t = ⟨mem start, start + pos.toNat, contentLen, pos + contentLen⟩ := by
  unfold berParseTlv
  cases berHeader mem start buflen with
  | none => simp
  | some header =>
    obtain ⟨pos, contentLen⟩ := header
    dsimp only
    split
    next beyond =>
      have notLe : ¬ pos + contentLen ≤ buflen := UInt64.not_le.mpr beyond
      simp [notLe]
    next inside =>
      have le : pos + contentLen ≤ buflen := UInt64.not_lt.mp inside
      simp [le, eq_comm]

theorem two_le_berHeader {mem : Nat → UInt8} {start : Nat}
    {buflen pos contentLen : UInt64}
    (header : berHeader mem start buflen = some (pos, contentLen)) :
    2 ≤ pos.toNat := by
  unfold berHeader at header
  split at header
  · cases header
  · dsimp only at header
    split at header
    · obtain ⟨rfl, _⟩ := Prod.mk.inj (Option.some.inj header)
      exact Nat.le_refl 2
    · split at header
      next => cases header
      next valid =>
        obtain ⟨rfl, _⟩ := Prod.mk.inj (Option.some.inj header)
        rw [UInt64.toNat_add, UInt64.toNat_ofNat']
        change 2 ≤ (2 + _ % 2 ^ 64) % 2 ^ 64
        omega

theorem inside_iff (mem : Nat → UInt8) (start : Nat) (buflen : UInt64) :
    (∀ t, berParseTlv mem start buflen = some t → t.Within start (start + buflen.toNat) ∧
        start < start + t.totalLen.toNat) ↔
      ¬ Overruns mem start buflen := by
  constructor
  · rintro inside ⟨pos, contentLen, header, wraps, low⟩
    have accepted := (add_le_iff pos contentLen buflen).mpr (Or.inr ⟨wraps, low⟩)
    have within := (inside _ (berParseTlv_eq_some.mpr ⟨pos, contentLen, header, accepted, rfl⟩)).1.2
    have buflenLt := buflen.toNat_lt
    dsimp only at within
    omega
  · intro stays t parsed
    obtain ⟨pos, contentLen, header, accepted, rfl⟩ := berParseTlv_eq_some.mp parsed
    have positive := two_le_berHeader header
    rcases (add_le_iff pos contentLen buflen).mp accepted with fits | ⟨wraps, low⟩
    · have buflenLt := buflen.toNat_lt
      refine ⟨⟨Nat.le_add_right _ _, ?_⟩, ?_⟩
      · dsimp only
        omega
      · dsimp only
        rw [UInt64.toNat_add]
        omega
    · exact absurd ⟨pos, contentLen, header, wraps, low⟩ stays

theorem accepted_iff (server : List UInt8) (bufcap : UInt64) :
    (∀ pos contentLen, acceptedHeader server bufcap = some (pos, contentLen) →
      pos.toNat + contentLen.toNat ≤ bufcap.toNat) ↔
      ¬ ReadOverruns server bufcap := by
  unfold acceptedHeader ReadOverruns
  simp only [Option.filter_eq_some_iff, decide_eq_true_eq]
  constructor
  · rintro inside ⟨pos, contentLen, header, wraps, low⟩
    have accepted := (add_le_iff pos contentLen bufcap).mpr (Or.inr ⟨wraps, low⟩)
    have fits := inside pos contentLen ⟨header, accepted⟩
    have bufcapLt := bufcap.toNat_lt
    omega
  · rintro stays pos contentLen ⟨header, accepted⟩
    rcases (add_le_iff pos contentLen bufcap).mp accepted with fits | ⟨wraps, low⟩
    · exact fits
    · exact absurd ⟨pos, contentLen, header, wraps, low⟩ stays

def Agree (mem mem' : Nat → UInt8) (start stop : Nat) : Prop :=
  ∀ i, start ≤ i → i < stop → mem' i = mem i

section Walks

variable {mem mem' : Nat → UInt8} {start : Nat} {buflen : UInt64}

theorem Agree.mono {stop inner innerStop : Nat}
    (agree : Agree mem mem' start stop) (from_le : start ≤ inner)
    (to_le : innerStop ≤ stop) : Agree mem mem' inner innerStop := by
  intro i above below
  exact agree i (from_le.trans above) (below.trans_le to_le)

theorem Agree.octetsAt_eq {stop inner count : Nat}
    (agree : Agree mem mem' start stop) (from_le : start ≤ inner)
    (to_le : inner + count ≤ stop) :
    octetsAt mem' inner count = octetsAt mem inner count := by
  unfold octetsAt
  apply List.map_congr_left
  intro i member
  have below := List.mem_range.mp member
  exact agree (inner + i) (by omega) (by omega)

theorem berParseTlv_congr (agree : Agree mem mem' start (start + buflen.toNat)) :
    berParseTlv mem' start buflen = berParseTlv mem start buflen := by
  by_cases tooShort : buflen < 2
  · unfold berParseTlv berHeader
    rw [if_pos tooShort, if_pos tooShort]
  have two : 2 ≤ buflen.toNat := by
    rw [UInt64.lt_iff_toNat_lt] at tooShort
    exact Nat.not_lt.mp tooShort
  have tag : mem' start = mem start := agree start le_rfl (by omega)
  have lenbyte : mem' (start + 1) = mem (start + 1) := agree (start + 1) (by omega) (by omega)
  have header : berHeader mem' start buflen = berHeader mem start buflen := by
    unfold berHeader
    rw [lenbyte]
    split
    · rfl
    · dsimp only
      split
      · rfl
      · split
        next => rfl
        next valid =>
          have rest : (buflen - 2).toNat = buflen.toNat - 2 := by
            rw [UInt64.toNat_sub_of_le _ _ (UInt64.not_lt.mp tooShort)]
            rfl
          rw [agree.octetsAt_eq (by omega) (by omega)]
  unfold berParseTlv
  rw [header, tag]

def NoOverrun (mem : Nat → UInt8) (start : Nat) (len : UInt64) : Prop :=
  ∀ (inner : Nat) (innerLen : UInt64), start ≤ inner →
    inner + innerLen.toNat ≤ start + len.toNat → ¬ Overruns mem inner innerLen

def Confined (mem : Nat → UInt8) (start : Nat) (len : UInt64) : Prop :=
  (∀ (inner : Nat) (innerLen : UInt64), start ≤ inner → inner + innerLen.toNat ≤ start + len.toNat →
      ∀ t, berParseTlv mem inner innerLen = some t →
        t.Within inner (inner + innerLen.toNat) ∧ inner < inner + t.totalLen.toNat) ∧
    (∀ t, berParseMessageOp mem start len = some t → t.Within start (start + len.toNat)) ∧
    ∀ mem', Agree mem mem' start (start + len.toNat) →
      berParseMessageOp mem' start len = berParseMessageOp mem start len

theorem totalLen_le {t : Tlv} (parsed : berParseTlv mem start buflen = some t) :
    t.totalLen.toNat ≤ buflen.toNat := by
  obtain ⟨pos, contentLen, _, accepted, rfl⟩ := berParseTlv_eq_some.mp parsed
  exact UInt64.le_iff_toNat_le.mp accepted

theorem berParseMessageOp_eq_some {op : Tlv} : berParseMessageOp mem start buflen = some op ↔
      ∃ outer msgid, berParseTlv mem start buflen = some outer ∧ outer.tag = 0x30 ∧
        berParseTlv mem outer.content outer.contentLen = some msgid ∧
        msgid.tag = 0x02 ∧
        berParseTlv mem (outer.content + msgid.totalLen.toNat)
          (outer.contentLen - msgid.totalLen) = some op := by
  unfold berParseMessageOp
  simp [Option.bind_eq_some_iff, guard]

theorem rest_toNat {t : Tlv} (parsed : berParseTlv mem start buflen = some t) :
    start + t.totalLen.toNat + (buflen - t.totalLen).toNat = start + buflen.toNat := by
  have within := totalLen_le parsed
  rw [UInt64.toNat_sub_of_le _ _ (UInt64.le_iff_toNat_le.mpr within)]
  omega

variable {len : UInt64}

theorem NoOverrun.within (stays : NoOverrun mem start len) {inner : Nat}
    {innerLen : UInt64} (from_le : start ≤ inner)
    (to_le : inner + innerLen.toNat ≤ start + len.toNat) {t : Tlv}
    (parsed : berParseTlv mem inner innerLen = some t) :
    t.Within start (start + len.toNat) := by
  obtain ⟨first, last⟩ := ((inside_iff mem inner innerLen).mpr
    (stays inner innerLen from_le to_le) t parsed).1
  exact ⟨from_le.trans first, last.trans to_le⟩

theorem NoOverrun.op_within (stays : NoOverrun mem start len) {op : Tlv}
    (parsed : berParseMessageOp mem start len = some op) :
    op.Within start (start + len.toNat) := by
  obtain ⟨outer, msgid, isOuter, _, isMsgid, _, isOp⟩ := berParseMessageOp_eq_some.mp parsed
  obtain ⟨above, below⟩ := stays.within le_rfl le_rfl isOuter
  have rest := rest_toNat isMsgid
  exact stays.within (by omega) (by omega) isOp

theorem NoOverrun.op_congr (stays : NoOverrun mem start len)
    (agree : Agree mem mem' start (start + len.toNat)) :
    berParseMessageOp mem' start len = berParseMessageOp mem start len := by
  have first := berParseTlv_congr agree
  apply Option.ext
  intro op
  rw [berParseMessageOp_eq_some, berParseMessageOp_eq_some, first]
  -- each step has the octets of the message that are left
  apply exists_congr
  intro outer
  apply exists_congr
  intro msgid
  apply and_congr_right
  intro isOuter
  obtain ⟨above, below⟩ := stays.within le_rfl le_rfl isOuter
  have second := berParseTlv_congr (agree.mono above below)
  rw [second]
  apply and_congr_right
  intro _
  apply and_congr_right
  intro isMsgid
  have rest := rest_toNat isMsgid
  have agreeRest : Agree mem mem' (outer.content + msgid.totalLen.toNat)
      (outer.content + msgid.totalLen.toNat + (outer.contentLen - msgid.totalLen).toNat) :=
    agree.mono (by omega) (by omega)
  have third := berParseTlv_congr agreeRest
  rw [third]

end Walks

/-- A message is walked through inside it exactly when no header in it states a
length with which the next position wraps around into the buffer, and a message
is not longer than the buffer it is received into under the same condition on
its header. -/
theorem confined_iff (mem : Nat → UInt8) (start : Nat) (len : UInt64)
    (server : List UInt8) (bufcap : UInt64) :
    (Confined mem start len ↔ NoOverrun mem start len) ∧ ((∀ pos contentLen,
        acceptedHeader server bufcap = some (pos, contentLen) →
          pos.toNat + contentLen.toNat ≤ bufcap.toNat) ↔
        ¬ ReadOverruns server bufcap) := by
  refine ⟨⟨?_, ?_⟩, accepted_iff server bufcap⟩
  · rintro ⟨inside, _⟩ inner innerLen from_le to_le
    exact (inside_iff mem inner innerLen).mp (inside inner innerLen from_le to_le)
  · intro stays
    refine ⟨?_, fun op parsed => stays.op_within parsed, fun mem' agree => stays.op_congr agree⟩
    intro inner innerLen from_le to_le
    exact (inside_iff mem inner innerLen).mpr (stays inner innerLen from_le to_le)

/-- A message of ten octets whose header states 2 ^ 64 - 1 octets of content:
as a buffer it is accepted with that content and nine octets in all, and as a
message it is received beyond the buffer. -/
theorem length_wraps_around :
    let message : List UInt8 := [0x30, 0x88] ++ List.replicate 8 0xff
    (∃ t, berParseTlv (fun i => message.getD i 0) 0 10 = some t ∧
      t.contentLen.toNat = 2 ^ 64 - 1 ∧ t.totalLen = 9 ∧ ¬ t.Within 0 10) ∧
      berReadMessage (message ++ List.replicate 9000 0) 8192 = .beyond := by
  have parsed : berParseTlv (fun i => ([0x30, 0x88] ++ List.replicate 8 0xff : List UInt8).getD i 0)
      0 10 = some ⟨0x30, 10, 0xffffffffffffffff, 9⟩ := by
    decide +kernel
  dsimp only
  refine ⟨⟨_, parsed, by decide, rfl, ?_⟩, by decide +kernel⟩
  rintro ⟨_, below⟩
  revert below
  decide

end Cix.LdapClient
