import Cix.LdapClient.Bounds

/-!
# The result of a bind

`ldapclient_bind` reads one message of the server and takes the result code out
of it.  The code is an integer of any length on the wire; it is read into a
machine word, so that more octet strings than those of the number 0 come out as
0.
-/

namespace Cix.LdapClient

open Cix.Lib List

def ldapMsgMax : UInt64 := 8192

inductive LdapclientError where
  | ok
  | errConnect
  | errProtocol
  | errLdapResult
  deriving DecidableEq

/-- `parse_ldap_result_message`, the code as an `int`. -/
def parseLdapResultMessage (mem : Nat → UInt8) (len : UInt64)
    (expectedOpTag : UInt8) : Option Int32 := do
  let op ← berParseMessageOp mem 0 len
  guard (op.tag = expectedOpTag)
  let resultcode ← berParseTlv mem op.content op.contentLen
  guard (resultcode.tag = 0x0A)
  return (berParseInteger (octetsAt mem resultcode.content resultcode.contentLen.toNat)).toInt32

structure Connection where
  (opens built sent : Bool)
  server : List UInt8
  stale : Nat → UInt8

def Connection.recvbuf (c : Connection) (message : List UInt8) (i : Nat) :
    UInt8 :=
  message.getD i (c.stale i)

/-- `ldapclient_bind`, with `out_ldap_result_code`.  Where the message went
beyond the buffer, nothing is said. -/
def ldapclientBind (c : Connection) : Option (LdapclientError × Int32) :=
  if !c.opens then some (.errConnect, -1)
  else if !c.built then some (.errProtocol, -1)
  else if !c.sent then some (.errConnect, -1)
  else
    match berReadMessage c.server ldapMsgMax with
    | .failed => some (.errConnect, -1)
    | .beyond => none
    | .message message =>
      match parseLdapResultMessage (c.recvbuf message)
        (UInt64.ofNat message.length) 0x61 with
      | none => some (.errProtocol, -1)
      | some code => some (if code = 0 then .ok else .errLdapResult, code)

def BindReply (reply code : List UInt8) : Prop :=
  ∃ id idPart opPart codePart results controls,
    Element 0x30 (idPart ++ (opPart ++ controls)) reply ∧
    Element 0x02 id idPart ∧
    Element 0x61 (codePart ++ results) opPart ∧
    Element 0x0A code codePart

inductive Visits (mem : Nat → UInt8) (len : UInt64) : Nat → UInt64 → Prop where
  | message : Visits mem len 0 len
  | msgid {outer : Tlv} : berParseTlv mem 0 len = some outer →
      outer.tag = 0x30 → Visits mem len outer.content outer.contentLen
  | op {outer msgid : Tlv} : berParseTlv mem 0 len = some outer →
      outer.tag = 0x30 →
      berParseTlv mem outer.content outer.contentLen = some msgid →
      msgid.tag = 0x02 →
      Visits mem len (outer.content + msgid.totalLen.toNat) (outer.contentLen - msgid.totalLen)
  | resultcode {op : Tlv} : berParseMessageOp mem 0 len = some op →
      op.tag = 0x61 → Visits mem len op.content op.contentLen

section Found

variable {mem : Nat → UInt8} {start : Nat} {buflen : UInt64}

theorem berHeader_form {pos contentLen : UInt64}
    (header : berHeader mem start buflen = some (pos, contentLen)) :
    LengthForm (octetsAt mem (start + 1) (pos.toNat - 1)) contentLen.toNat := by
  unfold berHeader at header
  split at header
  · cases header
  · dsimp only at header
    split at header
    next isShort =>
      obtain ⟨rfl, rfl⟩ := Prod.mk.inj (Option.some.inj header)
      have small : (mem (start + 1)).toNat < 128 := UInt8.lt_iff_toNat_lt.mp isShort
      have form := LengthForm.short small
      rw [UInt8.ofNat_toNat] at form
      exact form
    next isLong =>
      split at header
      next => cases header
      next valid =>
        obtain ⟨rfl, rfl⟩ := Prod.mk.inj (Option.some.inj header)
        have again := lenbyte_split isLong
        generalize (mem (start + 1) &&& 0x7F).toNat = nbytes at valid again ⊢
        have position : (2 + UInt64.ofNat nbytes).toNat - 1 = 1 + nbytes := by
          rw [UInt64.toNat_add, UInt64.toNat_ofNat']
          change (2 + _ % 2 ^ 64) % 2 ^ 64 - 1 = _
          omega
        have some : octetsAt mem (start + 2) nbytes ≠ [] := by
          rw [← length_pos_iff, length_octetsAt]
          omega
        have few : (octetsAt mem (start + 2) nbytes).length ≤ 8 := by
          rw [length_octetsAt]
          omega
        have form := LengthForm.long some few
        rw [length_octetsAt, again] at form
        rw [position, octetsAt_add, toNat_readWord_of_short few]
        exact form

theorem element_of_berParseTlv (stays : ¬ Overruns mem start buflen) {t : Tlv}
    (parsed : berParseTlv mem start buflen = some t) :
    Element t.tag (octetsAt mem t.content t.contentLen.toNat)
        (octetsAt mem start t.totalLen.toNat) ∧
      t.content + t.contentLen.toNat = start + t.totalLen.toNat := by
  obtain ⟨pos, contentLen, header, accepted, rfl⟩ := berParseTlv_eq_some.mp parsed
  have two := two_le_berHeader header
  have fits : pos.toNat + contentLen.toNat ≤ buflen.toNat := by
    rcases (add_le_iff pos contentLen buflen).mp accepted with fits | ⟨wraps, low⟩
    · exact fits
    · exact absurd ⟨pos, contentLen, header, wraps, low⟩ stays
  have buflenLt := buflen.toNat_lt
  have total : (pos + contentLen).toNat = 1 + (pos.toNat - 1) + contentLen.toNat := by
    rw [UInt64.toNat_add]
    omega
  dsimp only
  constructor
  · refine ⟨octetsAt mem (start + 1) (pos.toNat - 1), ?_, ?_⟩
    · rw [length_octetsAt]
      exact berHeader_form header
    · have behind : start + (1 + (pos.toNat - 1)) = start + pos.toNat := by omega
      rw [total, octetsAt_add, octetsAt_add, behind]
      rfl
  · omega

end Found

theorem readHeader_form {server : List UInt8} {bufcap pos contentLen : UInt64}
    (header : readHeader server bufcap = some (pos, contentLen)) :
    ∃ tag form rest, server = tag :: form ++ rest ∧
      pos.toNat = 1 + form.length ∧ LengthForm form contentLen.toNat := by
  unfold readHeader at header
  split at header
  next tag lenbyte rest =>
    split at header
    next isShort =>
      obtain ⟨rfl, rfl⟩ := Prod.mk.inj (Option.some.inj header)
      have small : lenbyte.toNat < 128 := UInt8.lt_iff_toNat_lt.mp isShort
      have form := LengthForm.short small
      rw [UInt8.ofNat_toNat] at form
      exact ⟨tag, [lenbyte], rest, rfl, rfl, form⟩
    next isLong =>
      dsimp only at header
      have again := lenbyte_split isLong
      generalize (lenbyte &&& 0x7F).toNat = nbytes at header again
      split at header
      next => cases header
      next valid =>
        split at header
        next => cases header
        next received =>
          obtain ⟨rfl, rfl⟩ := Prod.mk.inj (Option.some.inj header)
          have count : (rest.take nbytes).length = nbytes := by
            rw [length_take]
            omega
          have few : (rest.take nbytes).length ≤ 8 := by omega
          have some : rest.take nbytes ≠ [] := by
            rw [← length_pos_iff]
            omega
          have form := LengthForm.long some few
          rw [count, again] at form
          refine ⟨tag, lenbyte :: rest.take nbytes, rest.drop nbytes, ?_, ?_, ?_⟩
          · simp
          · rw [length_cons, count, UInt64.toNat_add, UInt64.toNat_ofNat']
            change (2 + _ % 2 ^ 64) % 2 ^ 64 = _
            omega
          · rw [toNat_readWord_of_short few]
            exact form
  next => cases header

theorem element_of_berReadMessage {server reply : List UInt8} {bufcap : UInt64}
    (received : berReadMessage server bufcap = .message reply) :
    reply.length ≤ bufcap.toNat ∧ ∃ tag content, Element tag content reply := by
  unfold berReadMessage at received
  split at received
  next => cases received
  next pos contentLen accepted =>
    obtain ⟨header, _⟩ := Option.filter_eq_some_iff.mp accepted
    obtain ⟨tag, form, rest, rfl, isPos, states⟩ := readHeader_form header
    have total : (tag :: form ++ rest).length = pos.toNat + rest.length := by
      rw [length_append, length_cons, isPos]
      omega
    dsimp only at received
    rw [total] at received
    split at received
    next => cases received
    next inside =>
      split at received
      next => cases received
      next complete =>
        obtain rfl := ReadResult.message.inj received
        have enough : contentLen.toNat ≤ rest.length := by omega
        have stored : min (pos.toNat + contentLen.toNat) (pos.toNat + rest.length) =
              (tag :: form).length + contentLen.toNat := by
          rw [length_cons, isPos]
          omega
        rw [stored] at inside ⊢
        rw [take_length_add_append]
        have length : (rest.take contentLen.toNat).length =
            contentLen.toNat := by
          rw [length_take]
          exact Nat.min_eq_left enough
        refine ⟨?_, tag, rest.take contentLen.toNat, form, ?_, rfl⟩
        · rw [length_append, length]
          omega
        · rw [length]
          exact states

section ResultCode

variable {mem : Nat → UInt8}

theorem resultCode_eq_zero_iff (code : List UInt8) :
    (berParseInteger code).toInt32 = 0 ↔ octetsNumber code % 2 ^ 32 = 0 := by
  have word := toNat_readWord code
  have low : (berParseInteger code).toInt32.toUInt32.toNat = (readWord code).toNat % 2 ^ 32 := by
    unfold berParseInteger
    change ((readWord code).toBitVec.signExtend 32).toNat = _
    rw [BitVec.signExtend_eq_setWidth_of_le _ (by decide), BitVec.toNat_setWidth]
    rfl
  have zero : (berParseInteger code).toInt32 = 0 ↔
      (berParseInteger code).toInt32.toUInt32.toNat = 0 := by
    rw [← Int32.toBitVec_inj]
    exact BitVec.toNat_inj.symm
  rw [zero, low, word]
  omega

theorem holds_recvbuf (c : Connection) (reply : List UInt8) : Holds (c.recvbuf reply) 0 reply := by
  unfold Holds octetsAt
  apply ext_getElem
  · simp
  · intro i below _
    rw [length_map, length_range] at below
    simp [Connection.recvbuf, getElem?_eq_getElem below]

theorem parseLdapResultMessage_eq_some {len : UInt64} {tag : UInt8}
    {code : Int32} :
    parseLdapResultMessage mem len tag = some code ↔
      ∃ op resultcode, berParseMessageOp mem 0 len = some op ∧ op.tag = tag ∧
        berParseTlv mem op.content op.contentLen = some resultcode ∧
        resultcode.tag = 0x0A ∧
        (berParseInteger (octetsAt mem resultcode.content
          resultcode.contentLen.toNat)).toInt32 = code := by
  unfold parseLdapResultMessage
  simp [Option.bind_eq_some_iff, guard]

variable {reply code : List UInt8}

theorem toNat_ofNat_length (short : reply.length < 2 ^ 64) :
    (UInt64.ofNat reply.length).toNat = reply.length := by
  rw [UInt64.toNat_ofNat', Nat.mod_eq_of_lt short]

theorem berParseTlv_front {start : Nat} {buflen : UInt64} {tag : UInt8}
    {content octets rest : List UInt8}
    (isElement : Element tag content octets)
    (holds : Holds mem start (octets ++ rest))
    (length : buflen.toNat = (octets ++ rest).length) :
    ∃ t, berParseTlv mem start buflen = some t ∧ t.tag = tag ∧
      Holds mem t.content content ∧ t.contentLen.toNat = content.length ∧
      Holds mem (start + t.totalLen.toNat) rest ∧
      (buflen - t.totalLen).toNat = rest.length := by
  rw [length_append] at length
  obtain ⟨front, back⟩ := holds_append.mp holds
  have within : octets.length ≤ buflen.toNat := by omega
  obtain ⟨t, parsed, isTag, isContent, _, isTotal⟩ := berParseTlv_element isElement front within
  have count : t.contentLen.toNat = content.length := by
    have lengths := congrArg List.length isContent
    rwa [length_octetsAt] at lengths
  have rest_len := rest_toNat parsed
  refine ⟨t, parsed, isTag, ?_, count, ?_, ?_⟩
  · rw [count] at isContent
    exact isContent
  · rw [isTotal]
    exact back
  · omega

theorem resultcode_of_bindReply (holds : Holds mem 0 reply)
    (short : reply.length < 2 ^ 64) (isReply : BindReply reply code) :
    ∃ op resultcode, berParseMessageOp mem 0 (UInt64.ofNat reply.length) = some op ∧ op.tag = 0x61 ∧
        berParseTlv mem op.content op.contentLen = some resultcode ∧
        resultcode.tag = 0x0A ∧
        octetsAt mem resultcode.content resultcode.contentLen.toNat = code := by
  obtain ⟨id, idPart, opPart, codePart, results, controls, isMessage, isId, isOp, isCode⟩ := isReply
  have length := toNat_ofNat_length short
  rw [← append_nil reply] at holds length
  obtain ⟨outer, outerParsed, outerTag, outerHolds, outerLen, _⟩ :=
    berParseTlv_front isMessage holds length
  obtain ⟨msgid, msgidParsed, msgidTag, _, _, restHolds, restLen⟩ :=
    berParseTlv_front isId outerHolds outerLen
  obtain ⟨op, opParsed, opTag, opHolds, opLen, _⟩ := berParseTlv_front isOp restHolds restLen
  obtain ⟨result, resultParsed, resultTag, resultHolds, resultLen, _⟩ :=
    berParseTlv_front isCode opHolds opLen
  rw [append_nil] at outerParsed
  refine ⟨op, result, berParseMessageOp_eq_some.mpr
    ⟨outer, msgid, outerParsed, outerTag, msgidParsed, msgidTag, opParsed⟩,
    opTag, resultParsed, resultTag, ?_⟩
  rw [resultLen, resultHolds]

theorem BindReply.unique {first second : List UInt8}
    (short : reply.length < 2 ^ 64) (firstReply : BindReply reply first)
    (secondReply : BindReply reply second) : first = second := by
  have holds : Holds (fun i => reply.getD i 0) 0 reply := by
    exact holds_recvbuf ⟨true, true, true, [], fun _ => 0⟩ reply
  obtain ⟨op, result, opParsed, _, resultParsed, _, isFirst⟩ :=
    resultcode_of_bindReply holds short firstReply
  obtain ⟨op', result', opParsed', _, resultParsed', _, isSecond⟩ :=
    resultcode_of_bindReply holds short secondReply
  obtain rfl := Option.some.inj (opParsed.symm.trans opParsed')
  obtain rfl := Option.some.inj (resultParsed.symm.trans resultParsed')
  rw [← isFirst, ← isSecond]

theorem octetsAt_split {start : Nat} {buflen : UInt64} {t : Tlv}
    (parsed : berParseTlv mem start buflen = some t) :
    octetsAt mem start buflen.toNat = octetsAt mem start t.totalLen.toNat ++
        octetsAt mem (start + t.totalLen.toNat) (buflen - t.totalLen).toNat := by
  have rest := rest_toNat parsed
  have sum : buflen.toNat = t.totalLen.toNat + (buflen - t.totalLen).toNat := by omega
  conv_lhs => rw [sum]
  exact octetsAt_add _ _

theorem bindReply_of_parse {result : Int32} {tag : UInt8}
    {content : List UInt8} (holds : Holds mem 0 reply)
    (isElement : Element tag content reply)
    (short : reply.length < 2 ^ 64)
    (stays : ∀ start len, Visits mem (UInt64.ofNat reply.length) start len →
      ¬ Overruns mem start len)
    (parsed : parseLdapResultMessage mem (UInt64.ofNat reply.length) 0x61 = some result) :
    ∃ code, BindReply reply code ∧ (berParseInteger code).toInt32 = result := by
  obtain ⟨op, resultcode, opFound, opTag, codeParsed, codeTag, isResult⟩ :=
    parseLdapResultMessage_eq_some.mp parsed
  obtain ⟨outer, msgid, outerParsed, outerTag, msgidParsed, msgidTag,
    opParsed⟩ := berParseMessageOp_eq_some.mp opFound
  -- the message is the whole of the reply
  have length := toNat_ofNat_length short
  rw [← append_nil reply] at holds
  obtain ⟨whole, wholeParsed, wholeTag, wholeHolds, wholeLen, _⟩ :=
    berParseTlv_front isElement holds (by rw [length, append_nil])
  obtain rfl : outer = whole := Option.some.inj (outerParsed.symm.trans wholeParsed)
  have contentIs : content = octetsAt mem outer.content outer.contentLen.toNat := by
    rw [wholeLen]
    exact wholeHolds.symm
  -- and the elements in it follow each other
  obtain ⟨isId, _⟩ := element_of_berParseTlv
    (stays _ _ (Visits.msgid outerParsed outerTag)) msgidParsed
  obtain ⟨isOp, _⟩ := element_of_berParseTlv
    (stays _ _ (Visits.op outerParsed outerTag msgidParsed msgidTag)) opParsed
  obtain ⟨isCode, _⟩ := element_of_berParseTlv
    (stays _ _ (Visits.resultcode opFound opTag)) codeParsed
  rw [octetsAt_split msgidParsed, octetsAt_split opParsed] at contentIs
  rw [octetsAt_split codeParsed] at isOp
  rw [← wholeTag, outerTag, contentIs] at isElement
  rw [msgidTag] at isId
  rw [opTag] at isOp
  rw [codeTag] at isCode
  exact ⟨_, ⟨_, _, _, _, _, _, isElement, isId, isOp, isCode⟩, isResult⟩

end ResultCode

variable {c : Connection}

def Gets (c : Connection) (reply : List UInt8) : Prop :=
  c.opens = true ∧ c.built = true ∧ c.sent = true ∧
    berReadMessage c.server ldapMsgMax = .message reply

def OnlyOnSuccess (c : Connection) : Prop :=
  ∀ code, ldapclientBind c = some (.ok, code) →
    ∃ reply octets, Gets c reply ∧ BindReply reply octets ∧ octetsInteger octets = some 0

def StaysInside (c : Connection) : Prop :=
  ∀ reply, Gets c reply → ∀ start len,
    Visits (c.recvbuf reply) (UInt64.ofNat reply.length) start len →
      ¬ Overruns (c.recvbuf reply) start len

def ExactCode (c : Connection) : Prop :=
  ∀ reply code, Gets c reply → BindReply reply code →
    octetsNumber code % 2 ^ 32 = 0 → code ≠ [] ∧ ∀ octet ∈ code, octet = 0

theorem ldapclientBind_of_gets {reply : List UInt8} (gets : Gets c reply) : ldapclientBind c =
      match parseLdapResultMessage (c.recvbuf reply)
        (UInt64.ofNat reply.length) 0x61 with
      | none => some (.errProtocol, -1)
      | some code => some (if code = 0 then .ok else .errLdapResult, code) := by
  obtain ⟨opens, built, sent, received⟩ := gets
  unfold ldapclientBind
  rw [opens, built, sent, received]
  rfl

theorem gets_of_ok {code : Int32} (succeeds : ldapclientBind c = some (.ok, code)) :
    ∃ reply, Gets c reply ∧ code = 0 ∧
      parseLdapResultMessage (c.recvbuf reply) (UInt64.ofNat reply.length) 0x61 = some 0 := by
  unfold ldapclientBind at succeeds
  grind [Gets]

theorem Gets.unique {first second : List UInt8} (firstGets : Gets c first)
    (secondGets : Gets c second) : first = second := by
  have same := firstGets.2.2.2.symm.trans secondGets.2.2.2
  exact ReadResult.message.inj same

theorem Gets.short {reply : List UInt8} (gets : Gets c reply) : reply.length < 2 ^ 64 := by
  have within := (element_of_berReadMessage gets.2.2.2).1
  have most : ldapMsgMax.toNat = 8192 := rfl
  omega

theorem exactCode_of_onlyOnSuccess (only : OnlyOnSuccess c) : ExactCode c := by
  intro reply code gets isReply low
  obtain ⟨op, resultcode, opParsed, opTag, codeParsed, codeTag, isCode⟩ :=
    resultcode_of_bindReply (holds_recvbuf c reply) gets.short isReply
  have zero := (resultCode_eq_zero_iff code).mpr low
  have read := parseLdapResultMessage_eq_some.mpr
    ⟨op, resultcode, opParsed, opTag, codeParsed, codeTag, rfl⟩
  rw [isCode, zero] at read
  have succeeds : ldapclientBind c = some (.ok, 0) := by
    rw [ldapclientBind_of_gets gets, read]
    rfl
  obtain ⟨other, octets, otherGets, otherReply, isZero⟩ := only 0 succeeds
  obtain rfl := gets.unique otherGets
  obtain rfl := isReply.unique gets.short otherReply
  obtain ⟨some, isZero⟩ := (octetsInteger_eq_zero_iff code).mp isZero
  exact ⟨some, (octetsNumber_eq_zero_iff code).mp isZero⟩

theorem onlyOnSuccess_of_exactCode (stays : StaysInside c)
    (exactly : ExactCode c) : OnlyOnSuccess c := by
  intro code succeeds
  obtain ⟨reply, gets, rfl, parsed⟩ := gets_of_ok succeeds
  obtain ⟨_, tag, content, isElement⟩ := element_of_berReadMessage gets.2.2.2
  obtain ⟨octets, isReply, isZero⟩ := bindReply_of_parse
    (holds_recvbuf c reply) isElement gets.short (stays reply gets) parsed
  have low := (resultCode_eq_zero_iff octets).mp isZero
  obtain ⟨some, zeros⟩ := exactly reply octets gets isReply low
  exact ⟨reply, octets, gets, isReply, (octetsInteger_eq_zero_iff octets).mpr
    ⟨some, (octetsNumber_eq_zero_iff octets).mpr zeros⟩⟩

/-- A bind succeeds on the result code 0 alone when no length on the way to the
code wraps around and the code, where its last four octets are 0, has an octet
and no others; and only when the code is so. -/
theorem bind_succeeds_on_zero (c : Connection) :
    (StaysInside c → ExactCode c → OnlyOnSuccess c) ∧ (OnlyOnSuccess c → ExactCode c) :=
  ⟨onlyOnSuccess_of_exactCode, exactCode_of_onlyOnSuccess⟩

/-- A BindResponse with the result code 2 ^ 32 is taken for a success. -/
theorem success_on_another_code :
    let reply : List UInt8 := [0x30, 12, 0x02, 1, 1,
      0x61, 7, 0x0A, 5, 1, 0, 0, 0, 0]
    let c : Connection := ⟨true, true, true, reply, fun _ => 0⟩
    ldapclientBind c = some (.ok, 0) ∧ BindReply reply [1, 0, 0, 0, 0] ∧ ¬ OnlyOnSuccess c := by
  intro reply c
  have isReply : BindReply reply [1, 0, 0, 0, 0] := by
    refine ⟨[1], [0x02, 1, 1], [0x61, 7, 0x0A, 5, 1, 0, 0, 0, 0],
      [0x0A, 5, 1, 0, 0, 0, 0], [], [], ⟨[12], ?_, rfl⟩, ⟨[1], ?_, rfl⟩,
      ⟨[7], ?_, rfl⟩, ⟨[5], ?_, rfl⟩⟩
    · exact LengthForm.short (by decide)
    · exact LengthForm.short (by decide)
    · exact LengthForm.short (by decide)
    · exact LengthForm.short (by decide)
  refine ⟨by decide +kernel, isReply, ?_⟩
  intro only
  have gets : Gets c reply := ⟨rfl, rfl, rfl, by decide +kernel⟩
  have low : octetsNumber [1, 0, 0, 0, 0] % 2 ^ 32 = 0 := by decide +kernel
  have zeros := (exactCode_of_onlyOnSuccess only reply _ gets isReply low).2
  exact absurd (zeros 1 mem_cons_self) (by decide)

end Cix.LdapClient
