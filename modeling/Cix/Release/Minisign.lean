import Cix.Lib.Base64
import Cix.Lib.CString

/-!
# Signed files

`daemon/src/releasekey.c`: `releasekey_public_of`, `releasekey_sign_file_of`
and `releasekey_verify_file`, with `base64_encode` and `base64_decode` of
`daemon/src/base64.c`.  What libcrypto does is a parameter: reading a private
key, Ed25519, SHA-256 and the blocks of Base64.  What is written to a file
reaches it.
-/

namespace Cix.Release

open Cix.Lib

/-- `EVP_EncodeBlock` and `EVP_DecodeBlock`. -/
structure Evp where
  encodeBlock : List UInt8 → List UInt8
  decodeBlock : List UInt8 → Option (List UInt8)

/-- Three bytes become four characters of the alphabet, the last group is filled
up, and what it is filled up with is decoded to zeros. -/
structure Evp.Documented (evp : Evp) : Prop where
  length : ∀ bytes, (evp.encodeBlock bytes).length = (bytes.length + 2) / 3 * 4
  text : ∀ bytes, ∀ c ∈ evp.encodeBlock bytes, Base64.IsText c
  fillers : ∀ bytes, Base64.fillersAtEnd (evp.encodeBlock bytes) = Base64.fillers bytes.length
  decoded : ∀ bytes, evp.decodeBlock (evp.encodeBlock bytes) =
    some (bytes ++ List.replicate (Base64.fillers bytes.length) 0)

structure Crypto (Key : Type) extends Evp where
  /-- An Ed25519 key in a file. -/
  load : List UInt8 → Option Key
  publicRaw : Key → List UInt8
  sign : Key → List UInt8 → Option (List UInt8)
  verify : (pub sig message : List UInt8) → Bool
  sha256 : List UInt8 → List UInt8
  publicRaw_length : ∀ key, (publicRaw key).length = 32
  sign_length : ∀ key message sig, sign key message = some sig → sig.length = 64
  sha256_length : ∀ bytes, (sha256 bytes).length = 32

def Crypto.Correct {Key : Type} (crypto : Crypto Key) : Prop :=
  ∀ key message sig, crypto.sign key message = some sig →
    crypto.verify (crypto.publicRaw key) sig message = true

/-- `base64_encode` into a buffer of `size`. -/
def base64Encode (evp : Evp) (bytes : List UInt8) (size : Nat) : Option (List UInt8) :=
  if size < (bytes.length + 2) / 3 * 4 + 1 then none
  else if bytes = [] then none
  else some (evp.encodeBlock bytes)

/-- `base64_decode` into a buffer of `size`. -/
def base64Decode (evp : Evp) (text : List UInt8) (size : Nat) : Option (List UInt8) :=
  if text.length = 0 ∨ text.length % 4 ≠ 0 then none
  else if text.length / 4 * 3 > size then none
  else
    match evp.decodeBlock text with
    | none => none
    | some bytes =>
      if bytes.length ≠ text.length / 4 * 3 then none
      else some (bytes.take (bytes.length - Base64.fillersAtEnd text))

/-- A line ends at `\n`. -/
def newline : UInt8 := 10

/-- What `fgets` stores, call after call, in a buffer of `size`; `buf` is what
it has of the first. -/
def fgetsFrom (size : Nat) (buf : List UInt8) : List UInt8 → List (List UInt8)
  | [] => if buf = [] then [] else [buf]
  | c :: rest =>
    if c = newline ∨ size ≤ buf.length + 2 then
      (buf ++ [c]) :: fgetsFrom size [] rest
    else fgetsFrom size (buf ++ [c]) rest

def fgetsAll (size : Nat) (text : List UInt8) : List (List UInt8) :=
  fgetsFrom size [] text

def isLineEnd (c : UInt8) : Bool := c = newline || c = 13

def lineText (buf : List UInt8) : List UInt8 :=
  ((cstrAt buf).reverse.dropWhile isLineEnd).reverse

/-- `enum releasekey_key`. -/
inductive ReleaseKey where
  | release
  | catalogue
  deriving DecidableEq

def ReleaseKey.publicComment : ReleaseKey → CStr
  | .release => "cix release signing key"
  | .catalogue => "cix catalogue signing key"

def ReleaseKey.signatureComment : ReleaseKey → CStr
  | .release => "signature from the cix release key"
  | .catalogue => "signature from the cix catalogue key"

/-- `enum releasekey_error`, but for success. -/
inductive ReleaseError where
  | badKey
  | notSet
  | io
  | sign
  | badSig
  | unknownKey
  | verify
  deriving DecidableEq

def idLength : Nat := 8

/-- The bytes `Ed`. -/
def magic : List UInt8 := [69, 100]

def untrustedWord : List UInt8 := (CStr.ofString "untrusted comment:").bytes

def trustedWord : List UInt8 := (CStr.ofString "trusted comment: ").bytes

def commentAndBlob (word comment encoded : List UInt8) : List UInt8 :=
  word ++ comment ++ newline :: encoded ++ [newline]

section Signing

variable {Key : Type} (crypto : Crypto Key)

def keyId (pub : List UInt8) : List UInt8 :=
  (crypto.sha256 pub).take idLength

/-- `releasekey_public_of`, into a buffer that is large enough. -/
def releasekeyPublicOf (k : ReleaseKey) (keyFile : Option (List UInt8)) :
    Except ReleaseError (List UInt8) :=
  match keyFile with
  | none => .error .notSet
  | some pem =>
    match crypto.load pem with
    | none => .error .badKey
    | some key =>
      let pub := crypto.publicRaw key
      match base64Encode crypto.toEvp (magic ++ keyId crypto pub ++ pub) 128 with
      | none => .error .io
      | some encoded => .ok (commentAndBlob (untrustedWord ++ [32])
          k.publicComment.bytes encoded)

def releasekeySignFileOf (k : ReleaseKey) (keyFile content : Option (List UInt8))
    (trustedComment : CStr) : Except ReleaseError (List UInt8) :=
  match keyFile with
  | none => .error .notSet
  | some pem =>
    match crypto.load pem with
    | none => .error .badKey
    | some key =>
      match content.bind (crypto.sign key) with
      | none => .error .sign
      | some sig =>
        match crypto.sign key (sig ++ trustedComment.bytes) with
        | none => .error .sign
        | some gsig =>
          let blob := magic ++ keyId crypto (crypto.publicRaw key) ++
            sig
          match base64Encode crypto.toEvp blob 256, base64Encode crypto.toEvp gsig 256 with
          | some sigText, some gsigText =>
            .ok (commentAndBlob (untrustedWord ++ [32]) k.signatureComment.bytes sigText ++
              commentAndBlob trustedWord trustedComment.bytes gsigText)
          | _, _ => .error .io

end Signing

def pathMax : Nat := 4096

structure KeyFile where
  name : CStr
  text : Option (List UInt8)

def readPublicKeyFile (evp : Evp) (text : List UInt8) : Option (List UInt8 × List UInt8) :=
  let found := ((fgetsAll 512 text).map lineText).find? fun line =>
    !(line.isEmpty || untrustedWord.isPrefixOf line)
  match found.bind fun line => base64Decode evp line 64 with
  | none => none
  | some blob =>
    if blob.length ≠ 2 + idLength + 32 ∨ blob.take 2 ≠ magic then none
    else some ((blob.drop 2).take idLength, (blob.drop (2 + idLength)).take 32)

def KeyFile.states (evp : Evp) (dir : CStr) (file : KeyFile) : Option (List UInt8 × List UInt8) :=
  if file.name.bytes.head? = some 46 then none
  else if dir.length + 1 + file.name.length ≥ pathMax then none
  else file.text.bind (readPublicKeyFile evp)

/-- `find_trusted_key`, over a directory in the order of `readdir`. -/
def findTrustedKey (evp : Evp) (dir : CStr) (listing : List KeyFile)
    (wanted : List UInt8) : Option (List UInt8) :=
  ((listing.filterMap (KeyFile.states evp dir)).find? fun stated =>
    decide (stated.1 = wanted)).map Prod.snd

/-- The size of `comment`. -/
def commentMax : Nat := 768

structure Signature where
  (keyId sig gsig comment : List UInt8)

/-- The lines that `releasekey_verify_file` reads. -/
def signatureLines (text : List UInt8) : List (List UInt8) :=
  ((fgetsAll 1024 text).take 4).map lineText

def parseSignature (evp : Evp) (text : List UInt8) : Option Signature :=
  match signatureLines text with
  | [first, second, third, fourth] =>
    if !untrustedWord.isPrefixOf first then none
    else if !trustedWord.isPrefixOf third then none
    else
      match base64Decode evp second 128 with
      | none => none
      | some blob =>
        if blob.length ≠ 2 + idLength + 64 ∨ blob.take 2 ≠ magic then none
        else
          match base64Decode evp fourth 96 with
          | none => none
          | some gsig =>
            if gsig.length ≠ 64 then none
            else if third.length - trustedWord.length ≥ commentMax then
              none
            else some
              { keyId := (blob.drop 2).take idLength
                sig := (blob.drop (2 + idLength)).take 64
                gsig := gsig
                comment := third.drop trustedWord.length }
  | _ => none

/-- The trusted comment. With `outSize` the caller has a buffer of that size for it. -/
def releasekeyVerifyFile {Key : Type} (crypto : Crypto Key)
    (content sigFile : Option (List UInt8)) (dir : CStr)
    (listing : List KeyFile) (outSize : Option Nat) :
    Except ReleaseError (List UInt8) :=
  match sigFile with
  | none => .error .io
  | some text =>
    match parseSignature crypto.toEvp text with
    | none => .error .badSig
    | some signature =>
      match findTrustedKey crypto.toEvp dir listing signature.keyId with
      | none => .error .unknownKey
      | some pub =>
        if !content.any (crypto.verify pub signature.sig) then
          .error .verify
        else if !crypto.verify pub signature.gsig (signature.sig ++ signature.comment) then
          .error .verify
        else if outSize.any fun size =>
            decide (signature.comment.length ≥ size) then
          .error .io
        else .ok signature.comment

end Cix.Release
