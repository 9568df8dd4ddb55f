import Cix.Ws.Daemon

/-!
# The console of the client

What `send_masked_frame` writes is what the daemon takes off, unless the
payload has exactly `WS_MAX_FRAME_PAYLOAD` bytes.  A session writes what the
server's frames say until the close frame, as long as each read fits into its
buffer beside the frame that is not whole yet.
-/

namespace Cix.Ws

open Cix.Lib List

theorem formOf_short {len : Nat} (short : len < 126) : formOf len = .short :=
  if_pos short

theorem formOf_medium {len : Nat} (long : ¬ len < 126)
    (small : len < 2 ^ 16) : formOf len = .medium := by
  rw [formOf, if_neg long, if_pos small]

theorem taken_firstByte (opcode : Nat) :
    daemonRules.refuses (firstByte (opcode % 16)) = false := by
  have byte := toNat_firstByte (opcode % 16)
  simp only [daemonRules, byte, Bool.or_eq_false_iff, decide_eq_false_iff_not]
  omega

def maskedFrame (mask : Mask) (opcode : Nat) (payload : Bytes)
    (small : payload.length ≤ maxFramePayload) : WireFrame daemonRules where
  opcode := opcode % 16
  form := formOf payload.length
  mask := some mask
  payload := payload
  opcodeRange := opcode_lt opcode
  holds := holds_formOf (Nat.le_trans small (by decide))
  small := small
  masked := fun _ => rfl
  taken := taken_firstByte opcode

theorem sendMaskedFrame_short (mask : Mask) (opcode : Nat) {payload : Bytes}
    (small : payload.length ≤ 65535) :
    sendMaskedFrame mask.bytes opcode payload = some (maskedFrame mask opcode payload
        (Nat.le_trans small (by decide))).encode := by
  have bound : maxFramePayload = 65536 := rfl
  have accepted : ¬ payload.length > maxFramePayload := by omega
  simp only [sendMaskedFrame, if_neg accepted]
  by_cases short : payload.length < 126
  · simp [if_pos short, WireFrame.encode, WireFrame.header, WireFrame.body,
      maskedFrame, formOf_short short, LengthForm.code, LengthForm.extra,
      secondByte]
  · have medium := formOf_medium short (by omega)
    simp [if_neg short, WireFrame.encode, WireFrame.header, WireFrame.body,
      maskedFrame, medium, LengthForm.code, LengthForm.extra, secondByte,
      bigBytes]

def hollowFrame (mask : Mask) (opcode : Nat) : WireFrame daemonRules where
  opcode := opcode % 16
  form := .medium
  mask := some mask
  payload := []
  opcodeRange := opcode_lt opcode
  holds := by decide
  small := by decide
  masked := fun _ => rfl
  taken := (maskedFrame mask opcode [] (by decide)).taken

theorem sendMaskedFrame_full (mask : Mask) (opcode : Nat) {payload : Bytes}
    (full : payload.length = maxFramePayload) :
    sendMaskedFrame mask.bytes opcode payload =
      some ((hollowFrame mask opcode).encode ++ unmask mask.bytes payload) := by
  have accepted : ¬ payload.length > maxFramePayload := by omega
  have long : ¬ payload.length < 126 := by
    rw [full]
    decide
  unfold sendMaskedFrame
  simp only
  rw [if_neg accepted, if_neg long, full]
  simp [WireFrame.encode, WireFrame.header, WireFrame.body, hollowFrame,
    LengthForm.code, LengthForm.extra, secondByte, bigBytes, unmask,
    maxFramePayload]

def TakenWhole (written : Bytes) (frame : Frame) : Prop :=
  ∀ later, wsConnTryParse (written ++ later) = .found frame written.length

theorem takenWhole_iff {mask : Mask} {opcode : Nat} {payload written : Bytes}
    (sent : sendMaskedFrame mask.bytes opcode payload = some written) :
    TakenWhole written ⟨opcode, payload⟩ ↔ payload.length ≠ maxFramePayload ∧ opcode < 16 := by
  have accepted : ¬ payload.length > maxFramePayload := by
    intro long
    simp only [sendMaskedFrame, if_pos long] at sent
    cases sent
  by_cases full : payload.length = maxFramePayload
  · rw [sendMaskedFrame_full mask opcode full] at sent
    cases sent
    refine iff_of_false ?_ fun both => both.1 full
    intro whole
    have found := whole []
    rw [append_nil] at found
    have hollow : wsConnTryParse ((hollowFrame mask opcode).encode ++
        unmask mask.bytes payload) = .found (hollowFrame mask opcode).frame
            (hollowFrame mask opcode).encode.length :=
      scanFrame_encode _ _
    rw [hollow] at found
    injection found with isFrame _
    injection isFrame with _ isPayload
    rw [← isPayload] at full
    cases full
  · have bound : maxFramePayload = 65536 := rfl
    have small : payload.length ≤ 65535 := by omega
    rw [sendMaskedFrame_short mask opcode small] at sent
    cases sent
    have found : ∀ later, wsConnTryParse ((maskedFrame mask opcode payload
          (Nat.le_trans small (by decide))).encode ++ later) =
          .found ⟨opcode % 16, payload⟩ (maskedFrame mask opcode payload
            (Nat.le_trans small (by decide))).encode.length :=
      fun later => scanFrame_encode _ later
    constructor
    · intro whole
      have both := whole []
      rw [found] at both
      injection both with isFrame _
      injection isFrame with isOpcode _
      refine ⟨full, ?_⟩
      omega
    · rintro ⟨_, range⟩ later
      rw [found, Nat.mod_eq_of_lt range]

def isClose (frame : Frame) : Bool :=
  decide (frame.opcode = 8)

def serverFrames : Scanner UInt8 Frame :=
  frames clientRules isClose

def serverWire : Wire serverFrames (WireFrame clientRules) :=
  wire clientRules isClose

def dataOf (frames : List Frame) : Bytes :=
  frames.flatMap fun frame =>
    if frame.opcode = 1 ∨ frame.opcode = 2 then frame.payload else []

@[simp]
theorem dataOf_append (first second : List Frame) :
    dataOf (first ++ second) = dataOf first ++ dataOf second :=
  flatMap_append

structure Session.At (s : Session) (r : Reader UInt8 Frame) : Prop where
  written : s.written = dataOf r.items
  going : s.status = .going → r.pending = some s.inbuf ∧ r.items.any isClose = false
  closed : s.status = .closed → r.pending = none ∧ r.items.any isClose = true
  failed : s.status = .failed → r.pending = none ∧ r.items.any isClose = false

theorem consume_eq {inbuf : Bytes} {frameLen : Nat} :
    consume inbuf frameLen = inbuf.drop frameLen := by
  unfold consume
  split
  next whole => exact (drop_eq_nil_of_le whole).symm
  next => rfl

theorem drainFrames_at (fuel : Nat) {s : Session} {items : List Frame}
    (going : s.status = .going) (written : s.written = dataOf items)
    (goes : items.any isClose = false) :
    (drainFrames fuel s).At ((serverFrames.drainUpTo fuel s.inbuf).after items) := by
  have waiting : s.At ⟨items, some s.inbuf⟩ :=
    { written := written
      going := fun _ => ⟨rfl, goes⟩
      closed := fun other => by rw [going] at other; cases other
      failed := fun other => by rw [going] at other; cases other }
  induction fuel generalizing s items with
  | zero => simpa [Reader.after, drainFrames, Scanner.drainUpTo] using waiting
  | succ fuel ih =>
    have scan : serverFrames.scan s.inbuf = tryParseServerFrame s.inbuf := rfl
    rw [drainFrames, Scanner.drainUpTo, scan]
    cases found : tryParseServerFrame s.inbuf with
    | more => simpa [Reader.after] using waiting
    | bad =>
      exact
        { written := by simpa [Reader.after] using written
          going := fun other => by cases other
          closed := fun other => by cases other
          failed := fun _ => ⟨rfl, by simpa [Reader.after] using goes⟩ }
    | found frame size =>
      have last : serverFrames.last frame = isClose frame := rfl
      simp only [consume_eq, last]
      by_cases isData : frame.opcode = 1 ∨ frame.opcode = 2
      · have open_ : isClose frame = false := by
          rw [isClose, decide_eq_false_iff_not]
          omega
        rw [if_pos isData, open_, if_neg Bool.false_ne_true, Reader.after_after]
        have more : s.written ++ frame.payload = dataOf (items ++ [frame]) := by
          rw [dataOf_append, ← written]
          simp [dataOf, if_pos isData]
        have goesOn : (items ++ [frame]).any isClose = false := by simp [goes, open_]
        exact ih going more goesOn
          { written := more
            going := fun _ => ⟨rfl, goesOn⟩
            closed := fun other => by rw [going] at other; cases other
            failed := fun other => by rw [going] at other; cases other }
      · have same : s.written = dataOf (items ++ [frame]) := by
          rw [dataOf_append, ← written]
          simp [dataOf, if_neg isData]
        rw [if_neg isData]
        by_cases close : frame.opcode = 8
        · have closing : isClose frame = true := by
            rw [isClose, close]
            rfl
          rw [if_pos close, closing, if_pos rfl]
          exact
            { written := same
              going := fun other => by cases other
              closed := fun _ => ⟨rfl, by simp [Reader.after, closing]⟩
              failed := fun other => by cases other }
        · have open_ : isClose frame = false := by
            rw [isClose, decide_eq_false_iff_not]
            exact close
          rw [if_neg close, open_, if_neg Bool.false_ne_true, Reader.after_after]
          have goesOn : (items ++ [frame]).any isClose = false := by simp [goes, open_]
          exact ih going same goesOn
            { written := same
              going := fun _ => ⟨rfl, goesOn⟩
              closed := fun other => by rw [going] at other; cases other
              failed := fun other => by
                rw [going] at other; cases other }

def handshakeMax : Nat := 2047

theorem seed_at {inbuf : Bytes} (small : inbuf.length ≤ handshakeMax) :
    (Session.seed inbuf).At (serverFrames.read clientLimit Reader.start inbuf) := by
  have room : ¬ clientLimit < 0 + inbuf.length := by
    have limit : clientLimit = 1048608 := rfl
    have bound : handshakeMax = 2047 := rfl
    omega
  have read : serverFrames.read clientLimit Reader.start inbuf =
      (serverFrames.drain inbuf).after [] := by
    simp only [Scanner.read, Reader.start, length_nil, if_neg room, nil_append]
  rw [read]
  unfold Session.seed
  split
  next => exact drainFrames_at _ rfl rfl rfl
  next empty =>
    have isNil : inbuf = [] := length_eq_zero_iff.mp (Nat.le_zero.mp (Nat.not_lt.mp empty))
    subst isNil
    exact
      { written := rfl
        going := fun _ => ⟨rfl, rfl⟩
        closed := fun other => by cases other
        failed := fun other => by cases other }

theorem read_at {s : Session} {r : Reader UInt8 Frame} (at_ : s.At r) (data : Bytes) :
    (s.read data).At (serverFrames.read clientLimit r data) := by
  unfold Session.read Scanner.read
  cases status : s.status with
  | going =>
    obtain ⟨pending, goes⟩ := at_.going status
    rw [pending]
    simp only [gt_iff_lt]
    by_cases long : clientLimit < s.inbuf.length + data.length
    · rw [if_pos long, if_pos long]
      exact
        { written := at_.written
          going := fun other => by cases other
          closed := fun other => by cases other
          failed := fun _ => ⟨rfl, goes⟩ }
    · rw [if_neg long, if_neg long]
      exact drainFrames_at _ rfl at_.written goes
  | closed =>
    rw [(at_.closed status).1]
    exact at_
  | failed =>
    rw [(at_.failed status).1]
    exact at_

theorem run_at {s : Session} {r : Reader UInt8 Frame} (at_ : s.At r) (reads : List Bytes) :
    (run Session.read s reads).At (run (serverFrames.read clientLimit) r reads) := by
  induction reads generalizing s r with
  | nil => exact at_
  | cons data rest ih => exact ih (read_at at_ data)

def Session.Fits (s : Session) (data : Bytes) : Prop :=
  s.status = .going → s.inbuf.length + data.length ≤ clientLimit

instance (s : Session) (data : Bytes) : Decidable (s.Fits data) :=
  inferInstanceAs (Decidable (_ → _))

/-- The session has written the payloads up to the close frame, and has ended
exactly if that frame was among them. -/
def Session.Right (sent : List (WireFrame clientRules)) (count : Nat) (s : Session) : Prop :=
  s.written = dataOf (serverWire.due sent count) ∧
    s.status = if serverWire.closes sent count then .closed else .going

theorem right_iff {sent : List (WireFrame clientRules)} {seed : Bytes}
    {reads : List Bytes} (small : seed.length ≤ handshakeMax)
    (starts : seed ++ reads.flatten <+: serverWire.stream sent) :
    (∀ before after, reads = before ++ after →
      (run Session.read (Session.seed seed) before).Right sent (seed ++ before.flatten).length) ↔
    Guarded Session.read Session.Fits (Session.seed seed) reads := by
  constructor
  · intro right before data after equality going
    by_contra tooLong
    have next : (run Session.read (Session.seed seed)
        (before ++ [data])).status = .failed := by
      rw [run_snoc, Session.read, going]
      simp only [gt_iff_lt, if_pos (Nat.lt_of_not_le tooLong)]
    have ends := (right (before ++ [data]) after (by simp [equality])).2
    rw [next] at ends
    split at ends
    · cases ends
    · cases ends
  · intro fits before after equality
    have seedFits : Scanner.Fits clientLimit (Reader.start : Reader UInt8 Frame) seed := by
      rintro buf ⟨⟩
      have limit : clientLimit = 1048608 := rfl
      have bound : handshakeMax = 2047 := rfl
      simp only [length_nil]
      omega
    have readsFit : Guarded (serverFrames.read clientLimit) (Scanner.Fits clientLimit)
        (serverFrames.read clientLimit Reader.start seed) reads := by
      intro before data after equality buf pending
      have at_ := run_at (seed_at small) before
      have room := fits before data after equality
      cases status : (run Session.read (Session.seed seed) before).status with
      | going =>
        rw [(at_.going status).1] at pending
        cases pending
        exact room status
      | closed =>
        rw [(at_.closed status).1] at pending
        cases pending
      | failed =>
        rw [(at_.failed status).1] at pending
        cases pending
    have faithful := (@Wire.faithful_iff _ _ _ _ serverWire clientLimit sent
      (seed :: reads) starts).mpr (Guarded.cons seedFits readsFit)
    obtain ⟨items, ended⟩ := faithful (seed :: before) after (by simp [equality])
    have at_ := run_at (seed_at small) before
    rw [flatten_cons, run_cons] at items ended
    have any : (serverWire.due sent (seed ++ before.flatten).length).any isClose =
          serverWire.closes sent (seed ++ before.flatten).length :=
      any_upTo _ _
    refine ⟨by rw [at_.written, items], ?_⟩
    cases status : (run Session.read (Session.seed seed) before).status with
    | going =>
      have goes := (at_.going status).2
      rw [items, any] at goes
      rw [goes]
      rfl
    | closed =>
      have closes := (at_.closed status).2
      rw [items, any] at closes
      rw [closes]
      rfl
    | failed =>
      obtain ⟨pending, goes⟩ := at_.failed status
      rw [items, any] at goes
      rw [ended.mp pending] at goes
      cases goes

def plainMask : Mask := ⟨[0, 0, 0, 0], rfl⟩

def greeting : List (WireFrame clientRules) :=
  [serverFrame 1 [104, 105] (by decide), serverFrame 8 [] (by decide)]

/-- What the client sends in one frame. -/
structure Message where
  mask : Mask
  opcode : Nat
  payload : Bytes
  small : payload.length ≤ 65535

def Message.wireFrame (m : Message) : WireFrame daemonRules :=
  maskedFrame m.mask m.opcode m.payload (Nat.le_trans m.small (by decide))

/-- Reads that fit leave what has been handled of the frames in their bytes. -/
theorem run_handle {ends : Ends} {reads : List Bytes}
    (fits : Guarded (Received.handle ends) Received.Fits Received.start reads) :
    run (Received.handle ends) Received.start reads =
      handled ends [] (clientFrames.drain reads.flatten) := by
  induction reads using List.reverseRecOn with
  | nil =>
    rw [flatten_nil, Scanner.drain_more clientFrames.scan_nil]
    simp [handled, upToEnd, isEnded, Received.start]
  | append_singleton before data ih =>
    have soFar := ih fits.initial
    have room := fits before data [] rfl
    rw [soFar, Received.Fits] at room
    rw [run_snoc, soFar, flatten_append, flatten_singleton, Scanner.drain_append]
    generalize clientFrames.drain before.flatten = first at room ⊢
    cases ended : isEnded ends [] first.items with
    | true =>
      -- the session is over, and the later frames do not count
      have noConn : (handled ends [] first).conn = none := by simp [handled, ended]
      rw [Received.handle, noConn]
      cases first.pending with
      | none => rfl
      | some rest =>
        have cut := upToEnd_append ends [] first.items (clientFrames.drain (rest ++ data)).items
        rw [ended] at cut
        simp [handled, cut, ended]
    | false =>
      have taken := upToEnd_of_going ended
      have going : handled ends [] first = ⟨first.items, first.pending⟩ := by
        simp [handled, ended, taken]
      rw [going] at room ⊢
      cases waiting : first.pending with
      | none => simp [Received.handle, handled, ended, taken, waiting]
      | some rest =>
        have inside : ¬ rest.length + data.length > connLimit :=
          Nat.not_lt.mpr (room rest (by rw [waiting]; rfl))
        have cut := upToEnd_append ends [] first.items (clientFrames.drain (rest ++ data)).items
        rw [ended, nil_append] at cut
        simp only [Received.handle, wsConnFeed, if_neg inside, handleFrames_eq]
        change handled ends first.items (clientFrames.drain (rest ++ data)) = _
        simp [handled, cut]

/-- Whatever the client sends arrives at the daemon as it was sent, in order
and unmasked, however it is cut into reads that fit, up to the first frame that
ends the session; and nothing else ends it. -/
theorem messages_delivered (ptyFails : Ends) (messages : List Message) (reads : List Bytes)
    (sent : reads.flatten = (messages.filterMap fun m =>
      sendMaskedFrame m.mask.bytes m.opcode m.payload).flatten)
    (fits : Guarded (Received.handle (endsSession ptyFails)) Received.Fits Received.start reads) :
    let ends := endsSession ptyFails
    let frames := messages.map fun m => ⟨m.opcode % 16, m.payload⟩
    let received := run (Received.handle ends) Received.start reads
    received.frames = upToEnd ends [] frames ∧
      (received.conn = none ↔ isEnded ends [] frames = true) := by
  intro ends frames received
  have stream : reads.flatten = clientWire.stream (messages.map Message.wireFrame) := by
    have encoded : (fun m : Message => sendMaskedFrame m.mask.bytes m.opcode m.payload) =
        fun m => some (m.wireFrame.encode) :=
      funext fun m => sendMaskedFrame_short m.mask m.opcode m.small
    rw [sent, encoded, filterMap_eq_map', Wire.stream, map_map]
    rfl
  have starts : reads.flatten <+: clientWire.stream (messages.map Message.wireFrame) :=
    ⟨[], by rw [append_nil, stream]⟩
  have whole := Wire.drain_start starts
  have isRun : received = handled ends [] (clientFrames.drain reads.flatten) := run_handle fits
  have goesOn : ∀ items : List Frame, items.any clientFrames.last = false := by
    intro items
    simp [clientFrames, Cix.Ws.frames]
  rw [stream, Wire.due, Wire.closes, Wire.within_stream, goesOn, upTo_of_none (goesOn _),
    map_map] at whole
  have items : (clientFrames.drain reads.flatten).items = frames := by
    rw [stream]
    exact whole.1
  have standing : (clientFrames.drain reads.flatten).pending ≠ none := by
    rw [stream]
    simpa using whole.2
  rw [isRun, handled, items]
  refine ⟨rfl, ?_⟩
  cases isEnded ends [] frames <;> simp [standing]

/-- Two keys and a close frame behind which a third key is sent, in three reads. -/
theorem keys_until_close :
    let received := run (Received.handle (endsSession fun _ _ => false)) Received.start
      [[130, 129, 0, 0, 0], [0, 107, 130, 129, 0, 0, 0, 0, 108],
        [136, 128, 0, 0, 0, 0, 130, 129, 0, 0, 0, 0, 109]]
    received.frames = [⟨2, [107]⟩, ⟨2, [108]⟩, ⟨8, []⟩] ∧ received.conn = none := by
  have delivered := messages_delivered (fun _ _ => false)
    [⟨plainMask, 2, [107], by decide⟩, ⟨plainMask, 2, [108], by decide⟩,
      ⟨plainMask, 8, [], by decide⟩, ⟨plainMask, 2, [109], by decide⟩]
    [[130, 129, 0, 0, 0], [0, 107, 130, 129, 0, 0, 0, 0, 108],
      [136, 128, 0, 0, 0, 0, 130, 129, 0, 0, 0, 0, 109]] (by decide +kernel)
    (Guarded.cons (by decide +kernel) (Guarded.cons (by decide +kernel)
      (Guarded.cons (by decide +kernel) (guarded_nil _ _))))
  exact ⟨delivered.1, delivered.2.mpr rfl⟩

end Cix.Ws
