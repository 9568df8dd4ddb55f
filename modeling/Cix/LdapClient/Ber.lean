import Cix.Lib.Octets

/-!
# BER elements

The writer and the reader of `daemon/src/ldapclient.c` for the elements of an
LDAP message: a tag, a length and that many octets of content.  The reader gets
a position in memory and the number of octets that it may look at; what it
computes with is a `size_t`.
-/

namespace Cix.LdapClient

open Cix.Lib List Option

def berBufMax : Nat := 2048

def berBufAppend (data buf : List UInt8) : Option (List UInt8) :=
  if data.length > 0 ∧ buf.length + data.length > berBufMax then none
  else some (buf ++ data)

def berWriteLength (len : Nat) (buf : List UInt8) : Option (List UInt8) :=
  if len < 128 then berBufAppend [UInt8.ofNat len] buf
  else
    let rev := (numberOctets len).reverse
    (berBufAppend [0x80 ||| UInt8.ofNat rev.length] buf).bind fun buf =>
      rev.reverse.foldlM (fun buf octet => berBufAppend [octet] buf) buf

/-- `ber_write_tlv`, and with the content of another buffer `ber_wrap`. -/
def berWriteTlv (tag : UInt8) (content buf : List UInt8) : Option (List UInt8) := do
  let buf ← berBufAppend [tag] buf
  let buf ← berWriteLength content.length buf
  berBufAppend content buf

/-- `ber_encode_integer` for a value that is not negative. -/
def berEncodeInteger (value : Nat) : List UInt8 :=
  if value = 0 then [0]
  else
    let octets := numberOctets value
    (if octets.head?.any fun octet => octet &&& 0x80 ≠ 0 then [0] else []) ++ octets

def berParseInteger (content : List UInt8) : Int64 :=
  (readWord content).toInt64

def octetsAt (mem : Nat → UInt8) (start count : Nat) : List UInt8 :=
  (List.range count).map fun i => mem (start + i)

/-- `struct ber_tlv`, with the position of the content in memory. -/
structure Tlv where
  tag : UInt8
  content : Nat
  (contentLen totalLen : UInt64)
  deriving DecidableEq

def berHeader (mem : Nat → UInt8) (start : Nat) (buflen : UInt64) : Option (UInt64 × UInt64) :=
  if buflen < 2 then none
  else
    let lenbyte := mem (start + 1)
    if lenbyte < 0x80 then some (2, lenbyte.toUInt64)
    else
      let nbytes := (lenbyte &&& 0x7F).toNat
      if nbytes = 0 ∨ nbytes > 8 ∨ nbytes > (buflen - 2).toNat then none
      else
        some (2 + UInt64.ofNat nbytes, readWord (octetsAt mem (start + 2) nbytes))

def berParseTlv (mem : Nat → UInt8) (start : Nat) (buflen : UInt64) :
    Option Tlv :=
  match berHeader mem start buflen with
  | none => none
  | some (pos, contentLen) =>
    if pos + contentLen > buflen then none
    else some ⟨mem start, start + pos.toNat, contentLen, pos + contentLen⟩

def lengthOctets (len : Nat) : List UInt8 :=
  if len < 128 then [UInt8.ofNat len]
  else (0x80 ||| UInt8.ofNat (numberOctets len).length) :: numberOctets len

def tlvOctets (tag : UInt8) (content : List UInt8) : List UInt8 :=
  tag :: lengthOctets content.length ++ content

variable {buf out : List UInt8}

theorem berBufAppend_eq_some {data : List UInt8}
    (written : berBufAppend data buf = some out) : out = buf ++ data := by
  unfold berBufAppend at written
  split at written
  · cases written
  · exact (some.inj written).symm

theorem berBufAppend_of_fits {data : List UInt8} (fits : buf.length + data.length ≤ berBufMax) :
    berBufAppend data buf = some (buf ++ data) := by
  unfold berBufAppend
  rw [if_neg (by omega)]

theorem foldlM_append_of_fits {octets : List UInt8}
    (fits : buf.length + octets.length ≤ berBufMax) :
    octets.foldlM (fun buf octet => berBufAppend [octet] buf) buf = some (buf ++ octets) := by
  induction octets generalizing buf with
  | nil => simp
  | cons octet rest ih =>
    rw [length_cons] at fits
    have first : berBufAppend [octet] buf = some (buf ++ [octet]) :=
      berBufAppend_of_fits (by rw [length_singleton]; omega)
    have later := @ih (buf ++ [octet]) (by rw [length_append, length_singleton]; omega)
    rw [foldlM_cons, first]
    change rest.foldlM _ (buf ++ [octet]) = _
    rw [later, append_assoc, singleton_append]

theorem berWriteLength_of_fits {len : Nat}
    (fits : buf.length + (lengthOctets len).length ≤ berBufMax) :
    berWriteLength len buf = some (buf ++ lengthOctets len) := by
  unfold lengthOctets at fits ⊢
  unfold berWriteLength
  split at fits
  next short => rw [if_pos short, if_pos short, berBufAppend_of_fits fits]
  next long =>
    rw [length_cons] at fits
    rw [if_neg long, if_neg long]
    dsimp only
    rw [reverse_reverse, length_reverse, berBufAppend_of_fits (by rw [length_singleton]; omega),
      bind_some, foldlM_append_of_fits (by rw [length_append, length_singleton]; omega),
      append_assoc, singleton_append]

theorem berWriteTlv_of_fits {tag : UInt8} {content : List UInt8}
    (fits : buf.length + (tlvOctets tag content).length ≤ berBufMax) :
    berWriteTlv tag content buf = some (buf ++ tlvOctets tag content) := by
  rw [tlvOctets, cons_append, length_cons, length_append] at fits
  have first : berBufAppend [tag] buf = some (buf ++ [tag]) :=
    berBufAppend_of_fits (by rw [length_singleton]; omega)
  have second : berWriteLength content.length (buf ++ [tag]) =
      some (buf ++ [tag] ++ lengthOctets content.length) :=
    berWriteLength_of_fits (by rw [length_append, length_singleton]; omega)
  have third : berBufAppend content (buf ++ [tag] ++ lengthOctets content.length) =
      some (buf ++ [tag] ++ lengthOctets content.length ++ content) :=
    berBufAppend_of_fits (by rw [length_append, length_append, length_singleton]; omega)
  unfold berWriteTlv
  rw [first]
  change (berWriteLength content.length (buf ++ [tag])).bind _ = _
  rw [second]
  change berBufAppend content _ = _
  rw [third, tlvOctets]
  simp [append_assoc]

theorem foldlM_append_eq_some {octets : List UInt8}
    (written : octets.foldlM (fun buf octet => berBufAppend [octet] buf) buf =
      some out) : out = buf ++ octets := by
  induction octets generalizing buf with
  | nil =>
    rw [append_nil]
    exact (some.inj written).symm
  | cons octet rest ih =>
    rw [foldlM_cons] at written
    obtain ⟨next, first, later⟩ := bind_eq_some_iff.mp written
    rw [ih later, berBufAppend_eq_some first, append_assoc, singleton_append]

theorem berWriteLength_eq_some {len : Nat}
    (written : berWriteLength len buf = some out) :
    out = buf ++ lengthOctets len := by
  unfold berWriteLength at written
  unfold lengthOctets
  split at written
  next short => rw [if_pos short, berBufAppend_eq_some written]
  next long =>
    obtain ⟨next, first, later⟩ := bind_eq_some_iff.mp written
    rw [if_neg long, foldlM_append_eq_some later, berBufAppend_eq_some first,
      reverse_reverse, length_reverse, append_assoc,
      singleton_append]

theorem berWriteTlv_eq_some {tag : UInt8} {content : List UInt8}
    (written : berWriteTlv tag content buf = some out) :
    out = buf ++ tlvOctets tag content := by
  unfold berWriteTlv at written
  obtain ⟨tagged, first, rest⟩ := bind_eq_some_iff.mp written
  obtain ⟨measured, second, last⟩ := bind_eq_some_iff.mp rest
  rw [berBufAppend_eq_some last, berWriteLength_eq_some second,
    berBufAppend_eq_some first, tlvOctets]
  simp [append_assoc]

end Cix.LdapClient
