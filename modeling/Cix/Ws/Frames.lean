import Cix.Lib.Framing
import Mathlib.Algebra.Group.Nat.Defs

/-!
# WebSocket frames

`daemon/src/websocket.c` and the frames of `client/src/console.c`: how each
side writes the header of a frame and takes a frame off the start of its
buffer.
-/

namespace Cix.Ws

open Cix.Lib

abbrev Bytes := List UInt8

def maxFramePayload : Nat := 64 * 1024

/-- `WS_MAX_SEND_PAYLOAD` of the daemon, `WS_MAX_RECV_PAYLOAD` of the
client. -/
def maxSendPayload : Nat := 1024 * 1024

/-- The last `count` bytes of a number, the highest first. -/
def bigBytes : Nat → Nat → Bytes
  | 0, _ => []
  | count + 1, value => UInt8.ofNat (value / 256 ^ count % 256) :: bigBytes count value

def bigEndian (bytes : Bytes) : Nat :=
  bytes.foldl (fun value byte => value * 256 + byte.toNat) 0

/-- `0x80 | (opcode & 0x0f)`. -/
def firstByte (opcode : Nat) : UInt8 :=
  UInt8.ofNat (128 + opcode % 16)

/-- `ws_frame_header`; nothing for the length 0 that says no. -/
def wsFrameHeader (opcode len : Nat) : Option Bytes :=
  if len > maxFramePayload then none
  else if len < 126 then some [firstByte opcode, UInt8.ofNat len]
  else
    some [firstByte opcode, 126, UInt8.ofNat (len / 256 % 256), UInt8.ofNat (len % 256)]

def wsFrameHeaderLong (opcode len : Nat) : Option Bytes :=
  if len > maxSendPayload then none
  else if len ≤ 65535 then wsFrameHeader opcode len
  else some (firstByte opcode :: 127 :: bigBytes 8 len)

structure Frame where
  opcode : Nat
  payload : Bytes
  deriving DecidableEq

/-- `b1 & 0x80`. -/
def isMasked (b1 : UInt8) : Bool :=
  decide (128 ≤ b1.toNat)

/-- `b1 & 0x7f`. -/
def len7 (b1 : UInt8) : Nat :=
  b1.toNat % 128

def extended (b1 : UInt8) : Nat :=
  if len7 b1 = 126 then 2 else if len7 b1 = 127 then 8 else 0

def headerLen (b1 : UInt8) : Nat :=
  2 + extended b1 + if isMasked b1 then 4 else 0

def payloadLen (buf : Bytes) (b1 : UInt8) : Nat :=
  if len7 b1 < 126 then len7 b1
  else bigEndian ((buf.drop 2).take (extended b1))

def unmask (mask payload : Bytes) : Bytes :=
  payload.mapIdx fun i byte => byte ^^^ mask.getD (i % 4) 0

structure FrameRules where
  /-- The first byte is of no frame that this side takes. -/
  refuses : UInt8 → Bool
  maxPayload : Nat
  maskRequired : Bool

def payloadAt (buf : Bytes) (b1 : UInt8) : Bytes :=
  let payload := (buf.drop (headerLen b1)).take (payloadLen buf b1)
  if isMasked b1 then unmask ((buf.drop (headerLen b1 - 4)).take 4) payload
  else payload

def scanFrame (rules : FrameRules) : Bytes → Scan Frame
  | b0 :: b1 :: rest =>
    let buf := b0 :: b1 :: rest
    if rules.refuses b0 then .bad
    else if buf.length < headerLen b1 then .more
    else if payloadLen buf b1 > rules.maxPayload then .bad
    else if rules.maskRequired && !isMasked b1 then .bad
    else if buf.length < headerLen b1 + payloadLen buf b1 then .more
    else
      .found ⟨b0.toNat % 16, payloadAt buf b1⟩ (headerLen b1 + payloadLen buf b1)
  | _ => .more

def daemonRules : FrameRules where
  refuses b0 := decide (b0.toNat / 16 % 8 ≠ 0) || decide (b0.toNat < 128)
  maxPayload := maxFramePayload
  maskRequired := true

/-- 0 is `more`, -1 is `bad`. -/
def wsConnTryParse (buf : Bytes) : Scan Frame :=
  scanFrame daemonRules buf

def clientRules : FrameRules where
  refuses _ := false
  maxPayload := maxSendPayload
  maskRequired := false

def tryParseServerFrame (buf : Bytes) : Scan Frame :=
  scanFrame clientRules buf

/-- The limit of `ws_conn_feed`. -/
def connLimit : Nat := maxFramePayload + 14

/-- `ws_conn_feed`, unless there is no memory. -/
def wsConnFeed (buf data : Bytes) : Option Bytes :=
  if buf.length + data.length > connLimit then none else some (buf ++ data)

def wsConnConsume (buf : Bytes) (frameLen : Nat) : Bytes :=
  if frameLen ≥ buf.length then [] else buf.drop frameLen

/-- The frames that were taken, and the buffer until the session is torn down. -/
structure Received where
  frames : List Frame
  conn : Option Bytes
  deriving DecidableEq

def Received.start : Received := ⟨[], some []⟩

/-- Whether a frame ends the session, behind those that were taken before it. -/
abbrev Ends := List Frame → Frame → Bool

/-- A close frame, or input for which `console_pty_write` fails. -/
def endsSession (ptyFails : Ends) : Ends := fun taken frame =>
  frame.opcode = 8 ||
    (frame.opcode = 2 && decide (frame.payload.length > 0) && ptyFails taken frame)

/-- The inner loop of `handle_console_ws_event`. -/
def handleFrames (ends : Ends) : Nat → List Frame → Bytes → Received
  | 0, taken, buf => ⟨taken, some buf⟩
  | fuel + 1, taken, buf =>
    match wsConnTryParse buf with
    | .more => ⟨taken, some buf⟩
    | .bad => ⟨taken, none⟩
    | .found frame frameLen =>
      if ends taken frame then ⟨taken ++ [frame], none⟩
      else handleFrames ends fuel (taken ++ [frame]) (wsConnConsume buf frameLen)

/-- One read of `handle_console_ws_event`. -/
def Received.handle (ends : Ends) (s : Received) (data : Bytes) : Received :=
  match s.conn with
  | none => s
  | some buf =>
    match wsConnFeed buf data with
    | none => { s with conn := none }
    | some buf => handleFrames ends (buf.length + 1) s.frames buf

/-- The parser by itself: no frame ends the reading. -/
def Received.read : Received → Bytes → Received :=
  Received.handle fun _ _ => false

def sendMaskedFrame (mask : Bytes) (opcode : Nat) (payload : Bytes) :
    Option Bytes :=
  let len := payload.length
  if len > maxFramePayload then none
  else
    let header :=
      if len < 126 then [firstByte opcode, UInt8.ofNat (128 + len)]
      else
        [firstByte opcode, 254, UInt8.ofNat (len / 256 % 256), UInt8.ofNat (len % 256)]
    some (header ++ mask ++ unmask mask payload)

/-- The `buf` of `struct client_ws_buf`. -/
def clientLimit : Nat := maxSendPayload + 32

inductive Status where
  | going
  /-- A close frame has come. -/
  | closed
  | failed
  deriving DecidableEq

structure Session where
  (written inbuf : Bytes)
  status : Status
  deriving DecidableEq

def consume (inbuf : Bytes) (frameLen : Nat) : Bytes :=
  if frameLen ≥ inbuf.length then [] else inbuf.drop frameLen

/-- `drain_frames` of a byte stream to a standard output that takes
everything. -/
def drainFrames : Nat → Session → Session
  | 0, s => s
  | fuel + 1, s =>
    match tryParseServerFrame s.inbuf with
    | .more => s
    | .bad => { s with status := .failed }
    | .found frame frameLen =>
      let rest := consume s.inbuf frameLen
      if frame.opcode = 1 ∨ frame.opcode = 2 then
        drainFrames fuel
          { s with written := s.written ++ frame.payload, inbuf := rest }
      else if frame.opcode = 8 then
        { s with inbuf := rest, status := .closed }
      else drainFrames fuel { s with inbuf := rest }

/-- What `relay` begins with: the bytes that came with the handshake. -/
def Session.seed (inbuf : Bytes) : Session :=
  if inbuf.length > 0 then
    drainFrames (inbuf.length + 1) ⟨[], inbuf, .going⟩
  else ⟨[], inbuf, .going⟩

/-- One read of `relay`. -/
def Session.read (s : Session) (data : Bytes) : Session :=
  match s.status with
  | .going =>
    if s.inbuf.length + data.length > clientLimit then
      { s with status := .failed }
    else
      drainFrames ((s.inbuf ++ data).length + 1)
        { s with inbuf := s.inbuf ++ data }
  | _ => s

end Cix.Ws
