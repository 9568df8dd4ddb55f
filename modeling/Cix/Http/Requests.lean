import Cix.Lib.CString
import Cix.Lib.Substring
import Mathlib.Algebra.Group.Int.Defs

/-!
# The buffer of a request and its parser

`daemon/src/http.c`: the bytes of a connection are collected until they hold a
whole request.  What the headers say is kept from the call that finds their
end.
-/

namespace Cix.Http

open Cix.Lib

def maxMethod : Nat := 8

def maxPath : Nat := 256

def maxRequestSize : Nat := 2 ^ 20

abbrev Bytes := List UInt8

def space : UInt8 := 32
def colon : UInt8 := 58
def crlf : Bytes := [13, 10]

structure Request where
  (method path : Bytes)
  contentLength : Nat
  (headers body : Bytes)
  deriving DecidableEq

structure Head where
  headersEnd : Nat
  (method path : Bytes)
  contentLength : Nat
  deriving DecidableEq

/-- `struct http_conn`; there is no head as long as `headers_end` is
negative. -/
structure Conn where
  buf : Bytes
  head : Option Head
  deriving DecidableEq

def Conn.init : Conn := ⟨[], none⟩

/-- `http_conn_feed`, unless there is no memory. -/
def httpConnFeed (c : Conn) (data : Bytes) : Option Conn :=
  if c.buf.length + data.length > maxRequestSize then none
  else some { c with buf := c.buf ++ data }

def findHeadersEnd (buf : Bytes) : Option Nat :=
  (strstr (crlf ++ crlf) buf).map fun found => found.1.length + 4

/-- The length of the first line: the loop over `line_len` in
`http_conn_try_parse`. -/
def lineLength : Bytes → Nat
  | a :: b :: rest => if a = 13 ∧ b = 10 then 0 else lineLength (b :: rest) + 1
  | _ => 0

def parseRequestLine (line : Bytes) : Option (Bytes × Bytes) :=
  let method := line.takeWhile (· ≠ space)
  if method.length = 0 ∨ method.length ≥ maxMethod ∨ method.length ≥ line.length then none
  else
    let path := (line.drop (method.length + 1)).takeWhile (· ≠ space)
    if path.length = 0 ∨ path.length ≥ maxPath then none
    else some (method, path)

def headerLines : Bytes → Bytes → List Bytes
  | [], [] => []
  | piece, [] => [piece]
  | piece, [c] => [piece ++ [c]]
  | piece, a :: b :: rest =>
    if a = 13 ∧ b = 10 then piece :: headerLines [] rest
    else headerLines (piece ++ [a]) (b :: rest)

/-- `tolower` in the C locale. -/
def tolower (c : UInt8) : UInt8 :=
  if 65 ≤ c ∧ c ≤ 90 then c + 32 else c

def isHeader (name line : Bytes) : Bool :=
  let before := line.takeWhile (· ≠ colon)
  decide (before.length < line.length) &&
    decide (before.map tolower = name.map tolower)

def headerValue (line : Bytes) : Bytes :=
  let after := (line.dropWhile (· ≠ colon)).tail
  let start := after.dropWhile (· = space)
  (start.reverse.dropWhile (· = space)).reverse

/-- `http_find_header`, with the size of the buffer for the value. -/
def httpFindHeader (headers name : Bytes) (outSize : Nat) : Option Bytes :=
  match (headerLines [] headers).tail.find? (isHeader name) with
  | none => none
  | some line =>
    if (headerValue line).length + 1 ≤ outSize then some (headerValue line)
    else none

/-- `isspace` in the C locale. -/
def isSpace (c : UInt8) : Bool :=
  decide (c = 32) || (decide (9 ≤ c) && decide (c ≤ 13))

def isDigit (c : UInt8) : Bool :=
  decide (48 ≤ c) && decide (c ≤ 57)

def longMax : Int := 2 ^ 63 - 1

def decimal (digits : Bytes) : Int :=
  digits.foldl (fun value c => value * 10 + (c.toNat - 48 : Nat)) 0

/-- `atol`, which stops at the range of `long`. -/
def atol (text : Bytes) : Int :=
  let number := (cstrAt text).dropWhile isSpace
  match number with
  | 45 :: rest => max (-longMax - 1) (-decimal (rest.takeWhile isDigit))
  | 43 :: rest => min longMax (decimal (rest.takeWhile isDigit))
  | rest => min longMax (decimal (rest.takeWhile isDigit))

def contentLengthName : Bytes :=
  [67, 111, 110, 116, 101, 110, 116, 45, 76, 101, 110, 103, 116, 104]

def findContentLength (block : Bytes) : Int :=
  match httpFindHeader block contentLengthName 32 with
  | none => -1
  | some value => atol value

/-- What `http_conn_try_parse` keeps once it knows the end of the headers. -/
def parseHead (buf : Bytes) (headersEnd : Nat) : Option Head :=
  let block := buf.take (headersEnd - 2)
  match parseRequestLine (block.take (lineLength block)) with
  | none => none
  | some (method, path) =>
    some ⟨headersEnd, method, path, (findContentLength block).toNat⟩

inductive Outcome where
  | incomplete
  | rejected
  | request (r : Request)
  deriving DecidableEq

/-- The second half of `http_conn_try_parse`, with the head known. -/
def takeBody (buf : Bytes) (head : Head) : Outcome :=
  if buf.length < head.headersEnd + head.contentLength then .incomplete
  else
    .request
      { method := head.method
        path := head.path
        contentLength := head.contentLength
        headers := buf.take (head.headersEnd - 2)
        body := (buf.drop head.headersEnd).take head.contentLength }

/-- `http_conn_try_parse`. A connection that it rejects is closed, so its fields are
not kept. -/
def httpConnTryParse (c : Conn) : Outcome × Conn :=
  match c.head with
  | some head => (takeBody c.buf head, c)
  | none =>
    match findHeadersEnd c.buf with
    | none => (.incomplete, c)
    | some headersEnd =>
      match parseHead c.buf headersEnd with
      | none => (.rejected, c)
      | some head => (takeBody c.buf head, { c with head := some head })

structure Exchange where
  conn : Conn
  outcome : Outcome
  deriving DecidableEq

def Exchange.start : Exchange := ⟨Conn.init, .incomplete⟩

/-- One read of `handle_client_event`; once the parser has an answer, nothing more
is read. -/
def Exchange.read (x : Exchange) (data : Bytes) : Exchange :=
  match x.outcome with
  | .incomplete =>
    match httpConnFeed x.conn data with
    | none => { x with outcome := .rejected }
    | some conn =>
      let (outcome, conn) := httpConnTryParse conn
      ⟨conn, outcome⟩
  | _ => x

end Cix.Http
