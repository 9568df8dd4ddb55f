import Cix.Ldap.Records

/-!
# The users and groups as a server's configuration

`render_users_groups_toml` of `daemon/src/ldap.c`: the records as the tables
that the directory server reads, in a buffer of fixed size.
-/

namespace Cix.Ldap

open Cix.Lib Cix.Json List

/-- The bytes that `toml_append_string` writes for one byte. -/
def tomlEscape (c : UInt8) : List UInt8 :=
  if c = 92 || c = 34 then [92, c]
  else if c = 10 then [92, 110]
  else if c = 13 then [92, 114]
  else if c = 9 then [92, 116]
  else if c < 0x20 then
    [92, 117, 48, 48, hexDigit (c.toNat / 16), hexDigit (c.toNat % 16)]
  else [c]

inductive Piece where
  | raw (text : String)
  | string (s : CStr)
  | int (v : Int32)

def Piece.chunks : Piece → List (List UInt8)
  | .raw text => [ascii text]
  | .string s => [34] :: s.bytes.map tomlEscape ++ [[34]]
  | .int v => [intText v.toInt]

/-- An append to the buffer, and `none` for an offset that has reached its
end: from there on nothing is written any more. -/
def append (bufsize : Nat) (buf : Option (List UInt8)) (chunk : List UInt8) : Option (List UInt8) :=
  buf.bind fun out =>
    if out.length + chunk.length < bufsize then some (out ++ chunk) else none

/-- `toml_append_raw`, `toml_append_string` and `toml_append_int`. -/
def tomlAppend (bufsize : Nat) (buf : Option (List UInt8)) (piece : Piece) : Option (List UInt8) :=
  piece.chunks.foldl (append bufsize) buf

/-- The string that `toml_append_bcrypt_hex` appends. -/
def bcryptHex (hash : CStr) : CStr :=
  CStr.ofBytes ((hash.bytes.take 60).flatMap fun c =>
    [hexDigit (c.toNat / 16), hexDigit (c.toNat % 16)])

def listPieces : List Piece → List Piece
  | [] => []
  | [item] => [item]
  | item :: rest => item :: .raw ", " :: listPieces rest

def groupPieces (g : Group) : List Piece :=
  [.raw "\n[[groups]]\nname = ", .string g.name.str,
    .raw "\ngidnumber = ", .int g.gidnumber, .raw "\n"]

def userPieces (u : User) : List Piece :=
  [Piece.raw "\n[[users]]\nname = ", .string u.name.str, .raw "\nuidnumber = ", .int u.uidnumber,
    .raw "\nprimarygroup = ", .int u.primarygroup] ++
  (if u.secondaryGroups ≠ [] then
    Piece.raw "\nothergroups = [" :: listPieces (u.secondaryGroups.map .int) ++ [.raw "]"]
  else []) ++
  [Piece.raw "\ngivenname = ", .string u.givenname.str, .raw "\nsn = ", .string u.sn.str,
    .raw "\nmail = ", .string u.mail.str,
    .raw "\nloginshell = ", .string u.loginshell.str,
    .raw "\nhomedir = ", .string u.homedirectory.str,
    .raw "\ndisabled = ", .raw (if u.disabled then "true" else "false")] ++
  (if u.passbcrypt.str.length ≠ 0 then
    [Piece.raw "\npassbcrypt = ", .string (bcryptHex u.passbcrypt.str)]
  else []) ++
  (if u.appPasswords ≠ [] then
    Piece.raw "\npassappbcrypt = [" :: listPieces (u.appPasswords.map fun a =>
        .string (bcryptHex a.passbcrypt.str)) ++ [.raw "]"]
  else []) ++
  (if u.sshPublicKey.str.length ≠ 0 then
    [Piece.raw "\nsshkeys = [", .string u.sshPublicKey.str, .raw "]"]
  else []) ++
  [Piece.raw "\n"] ++
  (if u.canSearch then
    [Piece.raw "  [[users.capabilities]]\n  action = \"search\"\n  object = \"*\"\n"]
  else [])

/-- The calls of `render_users_groups_toml` in their order. -/
def pieces (d : Directory) : List Piece :=
  d.groups.entries.flatMap groupPieces ++ d.users.entries.flatMap userPieces

/-- `render_users_groups_toml`; `none` when the buffer is too small. -/
def renderUsersGroupsToml (bufsize : Nat) (d : Directory) : Option (List UInt8) :=
  (pieces d).foldl (tomlAppend bufsize) (if 0 < bufsize then some [] else none)

def Piece.text (piece : Piece) : List UInt8 :=
  piece.chunks.flatten

def rendering (d : Directory) : List UInt8 :=
  ((pieces d).map Piece.text).flatten

theorem foldl_append_none (bufsize : Nat) (chunks : List (List UInt8)) :
    chunks.foldl (append bufsize) none = none := by
  induction chunks with
  | nil => rfl
  | cons chunk rest ih => exact ih

theorem foldl_append {bufsize : Nat} (chunks : List (List UInt8))
    {out : List UInt8} (room : out.length < bufsize) :
    chunks.foldl (append bufsize) (some out) =
      if out.length + chunks.flatten.length < bufsize then
        some (out ++ chunks.flatten)
      else none := by
  induction chunks generalizing out with
  | nil => simp [room]
  | cons chunk rest ih =>
    rw [foldl_cons, append, Option.bind_some, flatten_cons]
    by_cases fits : out.length + chunk.length < bufsize
    · rw [if_pos fits, ih (by simpa using fits)]
      simp [Nat.add_assoc]
    · rw [if_neg fits, foldl_append_none, if_neg]
      simp only [length_append]
      omega

theorem foldl_tomlAppend (bufsize : Nat) (list : List Piece) (buf : Option (List UInt8)) :
    list.foldl (tomlAppend bufsize) buf =
      (list.flatMap Piece.chunks).foldl (append bufsize) buf := by
  induction list generalizing buf with
  | nil => rfl
  | cons piece rest ih =>
    rw [foldl_cons, ih, flatMap_cons, List.foldl_append]
    rfl

theorem flatten_chunks (list : List Piece) :
    (list.flatMap Piece.chunks).flatten = (list.map Piece.text).flatten := by
  induction list with
  | nil => rfl
  | cons piece rest ih =>
    rw [flatMap_cons, flatten_append, ih]
    rfl

theorem renderUsersGroupsToml_eq (bufsize : Nat) (d : Directory) : renderUsersGroupsToml bufsize d =
      if (rendering d).length < bufsize then some (rendering d) else none := by
  unfold renderUsersGroupsToml rendering
  rw [foldl_tomlAppend]
  by_cases positive : 0 < bufsize
  · rw [if_pos positive, foldl_append _ (by simpa using positive),
      flatten_chunks, nil_append, length_nil, Nat.zero_add]
  · rw [if_neg positive, foldl_append_none, if_neg (by omega)]

def usersMarker : List UInt8 :=
  [10, 91, 91, 117, 115, 101, 114, 115, 93, 93]

def groupsMarker : List UInt8 :=
  [10, 91, 91, 103, 114, 111, 117, 112, 115, 93, 93]

theorem prefix_userText (u : User) : usersMarker <+: ((userPieces u).map Piece.text).flatten := by
  have first : usersMarker <+: ascii "\n[[users]]\nname = " := by decide +kernel
  obtain ⟨rest, begins⟩ := first
  exact ⟨rest ++ (((userPieces u).map Piece.text).tail).flatten, by
    rw [← append_assoc, begins]
    simp [userPieces, Piece.text, Piece.chunks]⟩

theorem prefix_groupText (g : Group) :
    groupsMarker <+: ((groupPieces g).map Piece.text).flatten := by
  have first : groupsMarker <+: ascii "\n[[groups]]\nname = " := by decide +kernel
  obtain ⟨rest, begins⟩ := first
  exact ⟨rest ++ (((groupPieces g).map Piece.text).tail).flatten, by
    rw [← append_assoc, begins]
    simp [groupPieces, Piece.text, Piece.chunks]⟩

theorem rendering_begins (d : Directory) : rendering d = [] ∨ usersMarker <+: rendering d ∨
      groupsMarker <+: rendering d := by
  unfold rendering pieces
  cases groups : d.groups.entries with
  | cons g rest =>
    right
    right
    rw [flatMap_cons, append_assoc, map_append, flatten_append]
    exact (prefix_groupText g).trans (prefix_append _ _)
  | nil =>
    cases users : d.users.entries with
    | nil => exact Or.inl rfl
    | cons u rest =>
      right
      left
      rw [flatMap_nil, nil_append, flatMap_cons, map_append, flatten_append]
      exact (prefix_userText u).trans (prefix_append _ _)

end Cix.Ldap
