import Cix.Ws.Decoding

/-!
# What the daemon writes and reads

The header of a payload of exactly `WS_MAX_FRAME_PAYLOAD` bytes says 0, every
other one says the length.  A connection reads the frames that its bytes are,
as long as each read fits into its buffer beside the frame that is not whole
yet.
-/

namespace Cix.Ws

open Cix.Lib List

def rfcPayloadLength : Bytes → Option Nat
  | _ :: b1 :: rest =>
    if len7 b1 < 126 then some (len7 b1)
    else if len7 b1 = 126 then
      if 2 ≤ rest.length then some (bigEndian (rest.take 2)) else none
    else if 8 ≤ rest.length then some (bigEndian (rest.take 8))
    else none
  | _ => none

def Says (header : Bytes) (opcode len : Nat) : Prop :=
  rfcPayloadLength header = some len ∧ ∀ payload : Bytes, payload.length = len →
      tryParseServerFrame (header ++ payload) = .found ⟨opcode % 16, payload⟩ (header.length + len)

def formOf (len : Nat) : LengthForm :=
  if len < 126 then .short else if len < 2 ^ 16 then .medium else .long

theorem holds_formOf {len : Nat} (small : len ≤ maxSendPayload) : (formOf len).Holds len := by
  unfold formOf
  split
  next short => exact short
  next =>
    split
    next medium => exact medium
    next =>
      have bound : maxSendPayload < 2 ^ 64 := by decide
      exact Nat.lt_of_le_of_lt small bound

@[simp]
theorem firstByte_mod (opcode : Nat) : firstByte (opcode % 16) = firstByte opcode := by
  rw [firstByte, firstByte, Nat.mod_mod]

theorem opcode_lt (opcode : Nat) : opcode % 16 < 16 := Nat.mod_lt _ (by decide)

def serverFrame (opcode : Nat) (payload : Bytes)
    (small : payload.length ≤ maxSendPayload) : WireFrame clientRules where
  opcode := opcode % 16
  form := formOf payload.length
  mask := none
  payload := payload
  opcodeRange := opcode_lt opcode
  holds := holds_formOf small
  small := small
  masked := fun required => by cases required
  taken := rfl

theorem rfc_header {rules : FrameRules} (f : WireFrame rules) :
    rfcPayloadLength f.header = some f.payload.length := by
  have seven := len7_secondByte (code_lt f.holds) f.mask.isSome
  unfold WireFrame.header
  rw [rfcPayloadLength, seven]
  have holds := f.holds
  cases form : f.form with
  | short =>
    rw [form] at holds
    exact if_pos holds
  | medium =>
    rw [form] at holds
    have code : LengthForm.medium.code f.payload.length = 126 := rfl
    have small : f.payload.length < 256 ^ 2 := holds
    rw [code, if_neg (by decide), if_pos rfl, LengthForm.extra, if_pos (by simp),
      take_of_length_le (Nat.le_of_eq (length_bigBytes 2 _)),
      bigEndian_bigBytes small]
  | long =>
    rw [form] at holds
    have code : LengthForm.long.code f.payload.length = 127 := rfl
    have small : f.payload.length < 256 ^ 8 := holds
    rw [code, if_neg (by decide), if_neg (by decide), LengthForm.extra, if_pos (by simp),
      take_of_length_le (Nat.le_of_eq (length_bigBytes 8 _)),
      bigEndian_bigBytes small]

def properHeader (opcode len : Nat) : Bytes :=
  firstByte opcode :: secondByte false ((formOf len).code len) :: (formOf len).extra len

theorem properHeader_spec (opcode : Nat) {len : Nat} (small : len ≤ maxSendPayload) :
    Says (properHeader opcode len) opcode len := by
  have isHeader : ∀ payload : Bytes, ∀ same : payload.length = len,
      (serverFrame opcode payload (same ▸ small)).header =
        properHeader opcode len := by
    rintro payload rfl
    simp [WireFrame.header, serverFrame, properHeader]
  constructor
  · have size : (List.replicate len (0 : UInt8)).length = len := length_replicate
    have said := rfc_header (serverFrame opcode _ (size ▸ small))
    rw [isHeader _ size] at said
    rw [said]
    exact congrArg some size
  · intro payload size
    have scanned := scanFrame_encode (serverFrame opcode payload (size ▸ small)) []
    rw [append_nil, WireFrame.encode, isHeader payload size] at scanned
    have body : (serverFrame opcode payload (size ▸ small)).body = payload := rfl
    rw [body, length_append] at scanned
    subst size
    exact scanned

theorem wsFrameHeader_short (opcode : Nat) {len : Nat} (small : len ≤ 65535) :
    wsFrameHeader opcode len = some (properHeader opcode len) := by
  have bound : maxFramePayload = 65536 := rfl
  unfold wsFrameHeader properHeader formOf
  rw [if_neg (by omega)]
  split
  next short => simp [secondByte, LengthForm.code, LengthForm.extra]
  next =>
    rw [if_pos (by omega)]
    simp [secondByte, LengthForm.code, LengthForm.extra, bigBytes]

theorem wsFrameHeader_full (opcode : Nat) : wsFrameHeader opcode maxFramePayload =
      some [firstByte opcode, 126, 0, 0] := rfl

def clientFrames : Scanner UInt8 Frame :=
  frames daemonRules fun _ => false

def clientWire : Wire clientFrames (WireFrame daemonRules) :=
  wire daemonRules fun _ => false

def Received.reader (s : Received) : Reader UInt8 Frame :=
  ⟨s.frames, s.conn⟩

/-- The frames up to the first one that ends the session. -/
def upToEnd (ends : Ends) : (taken frames : List Frame) → List Frame
  | _, [] => []
  | taken, frame :: rest =>
    if ends taken frame then [frame] else frame :: upToEnd ends (taken ++ [frame]) rest

def isEnded (ends : Ends) : (taken frames : List Frame) → Bool
  | _, [] => false
  | taken, frame :: rest => ends taken frame || isEnded ends (taken ++ [frame]) rest

theorem upToEnd_append (ends : Ends) (taken first second : List Frame) :
    upToEnd ends taken (first ++ second) =
        (if isEnded ends taken first then upToEnd ends taken first
          else first ++ upToEnd ends (taken ++ first) second) ∧
      isEnded ends taken (first ++ second) =
        (isEnded ends taken first || isEnded ends (taken ++ first) second) := by
  induction first generalizing taken with
  | nil => simp [isEnded]
  | cons frame rest ih =>
    obtain ⟨frames, ended⟩ := ih (taken ++ [frame])
    rw [append_assoc, singleton_append] at frames ended
    rw [cons_append, upToEnd, upToEnd, isEnded, isEnded, frames, ended, Bool.or_assoc]
    refine ⟨?_, rfl⟩
    cases ends taken frame <;> cases isEnded ends (taken ++ [frame]) rest <;> simp

theorem upToEnd_of_going {ends : Ends} {taken frames : List Frame}
    (going : isEnded ends taken frames = false) : upToEnd ends taken frames = frames := by
  have split := (upToEnd_append ends taken frames []).1
  rw [going, append_nil] at split
  simpa [upToEnd] using split

@[simp]
theorem isEnded_never (taken frames : List Frame) :
    isEnded (fun _ _ => false) taken frames = false := by
  induction frames generalizing taken with
  | nil => rfl
  | cons frame rest ih => rw [isEnded, ih, Bool.or_false]

/-- What has been handled of the frames that the parser finds. -/
def handled (ends : Ends) (taken : List Frame) (r : Reader UInt8 Frame) : Received :=
  ⟨taken ++ upToEnd ends taken r.items, if isEnded ends taken r.items then none else r.pending⟩

theorem handleFrames_eq (ends : Ends) (fuel : Nat) (taken : List Frame) (buf : Bytes) :
    handleFrames ends fuel taken buf = handled ends taken (clientFrames.drainUpTo fuel buf) := by
  induction fuel generalizing taken buf with
  | zero => simp [handleFrames, handled, Scanner.drainUpTo, upToEnd, isEnded]
  | succ fuel ih =>
    have scan : clientFrames.scan buf = wsConnTryParse buf := rfl
    rw [handleFrames, Scanner.drainUpTo, scan]
    cases found : wsConnTryParse buf with
    | more => simp [handled, upToEnd, isEnded]
    | bad => simp [handled, upToEnd, isEnded]
    | found frame size =>
      have consumed : wsConnConsume buf size = buf.drop size := by
        unfold wsConnConsume
        split
        next whole => exact (drop_eq_nil_of_le whole).symm
        next => rfl
      have goesOn : clientFrames.last frame = false := rfl
      simp only [consumed, ih, goesOn, Bool.false_eq_true, if_false]
      cases isLast : ends taken frame <;>
        simp [handled, upToEnd, isEnded, Reader.after, isLast]

theorem reader_read (s : Received) (data : Bytes) :
    (s.read data).reader = clientFrames.read connLimit s.reader data := by
  unfold Received.read Received.handle Scanner.read Received.reader wsConnFeed
  cases isConn : s.conn with
  | none => simp only [isConn]
  | some buf =>
    simp only [gt_iff_lt]
    by_cases long : connLimit < buf.length + data.length
    · simp only [if_pos long]
    · simp only [if_neg long, handleFrames_eq, handled, isEnded_never,
        upToEnd_of_going (isEnded_never _ _), Bool.false_eq_true, if_false]
      rfl

theorem reader_run (s : Received) (pieces : List Bytes) : (run Received.read s pieces).reader =
      run (clientFrames.read connLimit) s.reader pieces := by
  induction pieces generalizing s with
  | nil => rfl
  | cons piece rest ih => rw [run_cons, run_cons, ih, reader_read]

def framesOf (pieces : List Bytes) : List Frame :=
  (run Received.read Received.start pieces).frames

theorem framesOf_eq (pieces : List Bytes) : framesOf pieces =
      (run (clientFrames.read connLimit) Reader.start pieces).items := by
  have same := reader_run Received.start pieces
  exact congrArg Reader.items same

theorem framesOf_short {pieces : List Bytes} (short : pieces.flatten.length ≤ connLimit) :
    framesOf pieces = (clientFrames.drain pieces.flatten).items := by
  rw [framesOf_eq, Scanner.run_read (Scanner.fits_of_length short)]

theorem framesOf_long {data : Bytes} (long : connLimit < data.length) : framesOf [data] = [] := by
  rw [framesOf_eq]
  simp only [run_cons, run_nil, Scanner.read, Reader.start, length_nil, Nat.zero_add, if_pos long]

theorem drain_items_nil_iff (bytes : Bytes) : (clientFrames.drain bytes).items = [] ↔
      ¬ ∃ f : WireFrame daemonRules, f.encode <+: bytes := by
  have scan : clientFrames.scan bytes = wsConnTryParse bytes := rfl
  constructor
  · rintro nothing ⟨f, later, rfl⟩
    have found : clientFrames.scan (f.encode ++ later) =
        .found f.frame f.encode.length := scanFrame_encode f later
    rw [Scanner.drain_found found] at nothing
    cases nothing
  · intro nothing
    cases found : wsConnTryParse bytes with
    | more => rw [Scanner.drain_more (scan.trans found)]
    | bad => rw [Scanner.drain_bad (scan.trans found)]
    | found frame size => exact absurd (exists_wireFrame found) nothing

theorem framesOf_eq_framesOf_whole (pieces : List Bytes) :
    framesOf pieces = framesOf [pieces.flatten] ↔ pieces.flatten.length ≤ connLimit ∨
        ¬ ∃ f : WireFrame daemonRules,
          f.encode <+: (Scanner.leading connLimit 0 pieces).flatten := by
  rw [← drain_items_nil_iff]
  obtain ⟨_, nothing, something⟩ := @Scanner.run_eq_leading _ _ clientFrames connLimit pieces
  by_cases short : pieces.flatten.length ≤ connLimit
  · have atOnce : [pieces.flatten].flatten.length ≤ connLimit := by simpa using short
    rw [framesOf_short short, framesOf_short atOnce, flatten_singleton]
    exact ⟨fun _ => Or.inl short, fun _ => rfl⟩
  · rw [framesOf_long (Nat.lt_of_not_le short), framesOf_eq]
    constructor
    · intro none_
      by_contra both
      rw [not_or] at both
      exact something both.2 none_
    · rintro (fits | empty)
      · exact absurd fits short
      · rw [nothing empty, if_neg short]

def Received.Fits (s : Received) (data : Bytes) : Prop :=
  ∀ buf ∈ s.conn, buf.length + data.length ≤ connLimit

instance (s : Received) (data : Bytes) : Decidable (s.Fits data) :=
  inferInstanceAs (Decidable (∀ _ ∈ _, _))

def ReadsAll (sent : List (WireFrame daemonRules)) (pieces : List Bytes) :
    Prop :=
  ∀ before after, pieces = before ++ after → framesOf before =
        (clientWire.within sent before.flatten.length).map WireFrame.frame ∧
      (run Received.read Received.start before).conn ≠ none

theorem fits_iff {pieces : List Bytes} : Guarded Received.read Received.Fits Received.start pieces ↔
      Guarded (clientFrames.read connLimit) (Scanner.Fits connLimit)
        Reader.start pieces := by
  unfold Guarded
  apply forall_congr'
  intro before
  have same := reader_run Received.start before
  have start : Received.start.reader = Reader.start := rfl
  rw [start] at same
  rw [← same]
  exact Iff.rfl

theorem readsAll_iff {sent : List (WireFrame daemonRules)}
    {pieces : List Bytes}
    (starts : pieces.flatten <+: clientWire.stream sent) :
    ReadsAll sent pieces ↔ Guarded Received.read Received.Fits Received.start pieces := by
  rw [fits_iff]
  refine Iff.trans ?_ (@Wire.faithful_iff _ _ _ _ _ connLimit _ _ starts)
  have goesOn : ∀ count, clientWire.closes sent count = false := by
    intro count
    simp [Wire.closes, clientFrames, frames]
  have due : ∀ count, clientWire.due sent count =
      (clientWire.within sent count).map WireFrame.frame :=
    fun count => upTo_of_none (goesOn count)
  unfold ReadsAll Wire.Faithful
  apply forall_congr'
  intro before
  have same := reader_run Received.start before
  have start : Received.start.reader = Reader.start := rfl
  rw [start] at same
  rw [framesOf_eq]
  simp only [due, goesOn, ← same, Bool.false_eq_true, iff_false]
  exact Iff.rfl

/-- A header says the length exactly if the length is not
`WS_MAX_FRAME_PAYLOAD`; a header of the long kind always does.  Bytes in
several reads give the frames that they give at once exactly if they fit
together, or do not begin with a whole frame that fits; and a stream of frames
is read whole exactly if each read fits beside what is not whole yet. -/
theorem framing_faithful (opcode len : Nat) (header : Bytes) :
    (wsFrameHeader opcode len = some header →
      (Says header opcode len ↔ len ≠ maxFramePayload)) ∧
    (wsFrameHeaderLong opcode len = some header → Says header opcode len) ∧
    (∀ pieces : List Bytes, framesOf pieces = framesOf [pieces.flatten] ↔
      pieces.flatten.length ≤ connLimit ∨ ¬ ∃ f : WireFrame daemonRules,
          f.encode <+: (Scanner.leading connLimit 0 pieces).flatten) ∧
    ∀ (sent : List (WireFrame daemonRules)) (pieces : List Bytes),
      pieces.flatten <+: clientWire.stream sent → (ReadsAll sent pieces ↔
          Guarded Received.read Received.Fits Received.start pieces) := by
  refine ⟨?_, ?_, framesOf_eq_framesOf_whole, fun _ _ => readsAll_iff⟩
  · intro written
    have bound : maxFramePayload = 65536 := rfl
    by_cases full : len = maxFramePayload
    · subst full
      rw [wsFrameHeader_full] at written
      cases written
      refine iff_of_false ?_ fun different => different rfl
      rintro ⟨said, _⟩
      have zero : rfcPayloadLength [firstByte opcode, 126, 0, 0] = some 0 := rfl
      rw [zero] at said
      cases said
    · have accepted : ¬ len > maxFramePayload := by
        intro long
        rw [wsFrameHeader, if_pos long] at written
        cases written
      have small : len ≤ 65535 := by omega
      rw [wsFrameHeader_short opcode small] at written
      cases written
      refine iff_of_true (properHeader_spec opcode ?_) full
      have limit : maxSendPayload = 1048576 := rfl
      omega
  · intro written
    unfold wsFrameHeaderLong at written
    split at written
    · cases written
    next accepted =>
      have small : len ≤ maxSendPayload := Nat.not_lt.mp accepted
      split at written
      next short =>
        rw [wsFrameHeader_short opcode short] at written
        cases written
        exact properHeader_spec opcode small
      next long =>
        cases written
        have isHeader : properHeader opcode len = firstByte opcode :: 127 :: bigBytes 8 len := by
          unfold properHeader formOf
          rw [if_neg (by omega), if_neg (by omega)]
          rfl
        rw [← isHeader]
        exact properHeader_spec opcode small

def keyFrame : WireFrame daemonRules where
  opcode := 2
  form := .short
  mask := some ⟨[1, 2, 3, 4], rfl⟩
  payload := [97]
  opcodeRange := by decide
  holds := by decide
  small := by decide
  masked := fun _ => rfl
  taken := by decide

def twoKeys : List Bytes :=
  [keyFrame.encode.take 5, keyFrame.encode.drop 5 ++ keyFrame.encode]

theorem two_keys_read : Says (properHeader 1 300) 1 300 ∧
      ReadsAll [keyFrame, keyFrame] twoKeys := by
  constructor
  · exact ((framing_faithful 1 300 _).1 (wsFrameHeader_short 1 (by decide))).mpr (by decide)
  · have starts : twoKeys.flatten <+: clientWire.stream [keyFrame, keyFrame] := by
      decide +kernel
    refine ((framing_faithful 1 300 []).2.2.2 _ _ starts).mpr ?_
    exact Guarded.cons (by decide +kernel) (Guarded.cons (by decide +kernel) (guarded_nil _ _))

theorem full_header_says_nothing : wsFrameHeader 1 65536 = some [129, 126, 0, 0] ∧
      rfcPayloadLength [129, 126, 0, 0] = some 0 ∧ ¬ Says [129, 126, 0, 0] 1 65536 := by
  refine ⟨rfl, rfl, ?_⟩
  rintro ⟨said, _⟩
  have zero : rfcPayloadLength [129, 126, 0, 0] = some 0 := rfl
  rw [zero] at said
  cases said

end Cix.Ws
