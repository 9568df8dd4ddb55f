import Cix.Ldap.Rewritten
import Cix.Ldap.Rendering
import Cix.Json.Roundtrip
import Cix.Lib.Substring

/-!
# A directory server's configuration file

`ldap_write_config_file` of `daemon/src/ldap.c`: the file is read, cut at the
first table of users or groups, and written anew with its base DN and its
listeners set, and with the current users and groups at its end.
-/

namespace Cix.Ldap

open Cix.Lib Cix.Json List

/-- What `hostauth_ldap_base_dn` and `g_config` say. -/
structure Configuration where
  baseDn : BoundedStr 256
  (listenersManaged serverPlaintext : Bool)
  serverPlaintextPort : Int32
  serverTls : Bool
  serverTlsPort : Int32

def operatorPart (current : List UInt8) : List UInt8 :=
  match strstr usersMarker current, strstr groupsMarker current with
  | some (users, _), none => users
  | some (users, _), some (groups, _) =>
    if users.length < groups.length then users else groups
  | none, some (groups, _) => groups
  | none, none => current

/-- Does the line begin with `baseDN`? -/
def isBaseLine (line : List UInt8) : Bool :=
  (line.dropWhile isBlank).take 6 = [98, 97, 115, 101, 68, 78]

/-- What follows the quote that opens the value, in a text that begins with the
`baseDN` line. -/
def openedValue (text : List UInt8) : Option (List UInt8) :=
  match ((text.dropWhile isBlank).drop 6).dropWhile isBlank with
  | 61 :: rest =>
    match rest.dropWhile isBlank with
    | 34 :: value => some value
    | _ => none
  | _ => none

/-- `rewrite_basedn`; `none` where it leaves the text as it is. -/
def rewriteBasedn (newBasedn : CStr) (text : List UInt8) : Option (List UInt8) :=
  let fromLine := ((markedLines 10 text).dropWhile fun line => !isBaseLine line).flatten
  match openedValue fromLine with
  | none => none
  | some value =>
    if 34 ∈ value then
      some (text.take (text.length - value.length) ++ newBasedn.bytes ++
        value.dropWhile fun c => decide (c ≠ 34))
    else none

/-- A value as `snprintf` leaves it in `char value[128]`. -/
def storedValue (bytes : List UInt8) : BoundedStr 128 :=
  BoundedStr.store 128 pos_128 (CStr.ofBytes bytes)

theorem notMem_storedValue {c : UInt8} {bytes : List UInt8}
    (absent : c ∉ bytes) : c ∉ (storedValue bytes).str.bytes :=
  fun mem => absent (takeWhile_subset _ (mem_of_mem_take mem))

def boolText (on : Bool) : List UInt8 :=
  if on then [116, 114, 117, 101] else [102, 97, 108, 115, 101]

/-- `"0.0.0.0:%d"`, in quotes. -/
def listenText (port : Int32) : List UInt8 :=
  [34, 48, 46, 48, 46, 48, 46, 48, 58] ++ intText port.toInt ++ [34]

/-- A file below `PKI_CONTAINER_CERT_DIR`, in quotes. -/
def certText (name : List UInt8) : List UInt8 :=
  [34, 47, 101, 116, 99, 47, 99, 105, 120, 45, 116, 108, 115, 47] ++ name ++ [34]

theorem newline_notMem_listenText (port : Int32) : 10 ∉ listenText port := by
  have digits : 10 ∉ natText port.toInt.natAbs := by
    intro mem
    exact absurd (isDigit_of_mem_natText mem) (by decide)
  have number : 10 ∉ intText port.toInt := by
    unfold intText
    split
    · simp [digits]
    · exact digits
  simp [listenText, number]

theorem enabled_nulFree : (0 : UInt8) ∉ [101, 110, 97, 98, 108, 101, 100] := by decide

theorem enabled_bare : ∀ c ∈ (CStr.mk [101, 110, 97, 98, 108, 101, 100] enabled_nulFree).bytes,
    isBlank c = false ∧ c ≠ 61 ∧ c ≠ 10 := by decide +kernel

def enabledPair (on : Bool) : Kv where
  key := ⟨[101, 110, 97, 98, 108, 101, 100], enabled_nulFree⟩
  value := storedValue (boolText on)
  named := by decide
  bare := enabled_bare
  oneLine := notMem_storedValue (by cases on <;> decide)

def listenPair (port : Int32) : Kv where
  key := ⟨[108, 105, 115, 116, 101, 110], by decide⟩
  value := storedValue (listenText port)
  named := by decide
  bare := by decide +kernel
  oneLine := notMem_storedValue (newline_notMem_listenText port)

/-- `cert = "…/tls.crt"`. -/
def certPair : Kv where
  key := ⟨[99, 101, 114, 116], by decide⟩
  value := storedValue (certText [116, 108, 115, 46, 99, 114, 116])
  named := by decide
  bare := by decide +kernel
  oneLine := notMem_storedValue (by decide +kernel)

/-- `key = "…/tls.key"`. -/
def keyPair : Kv where
  key := ⟨[107, 101, 121], by decide⟩
  value := storedValue (certText [116, 108, 115, 46, 107, 101, 121])
  named := by decide
  bare := by decide +kernel
  oneLine := notMem_storedValue (by decide +kernel)

def plainPairs (c : Configuration) : List Kv :=
  [enabledPair c.serverPlaintext, listenPair c.serverPlaintextPort]

/-- The pairs for `[ldaps]`, with the paths only when the section is being
created. -/
def tlsPairs (c : Configuration) (created : Bool) : List Kv :=
  [enabledPair c.serverTls, listenPair c.serverTlsPort] ++
    if created then [certPair, keyPair] else []

def ldapsSection : SectionName where
  text := ⟨[108, 100, 97, 112, 115], by decide⟩
  oneLine := by decide

def lacksSection (name : SectionName) (text : List UInt8) : Bool :=
  (sectionBound name (markedLines 10 text)).isNone

/-- `rewrite_listeners`; `none` when a line does not fit into the buffer. -/
def rewriteListeners (c : Configuration) (text : List UInt8) : Option (List UInt8) :=
  if c.listenersManaged = false ∨ text = [] then some text
  else
    (rewriteSection ldapSection (plainPairs c) text).bind fun stage =>
      rewriteSection ldapsSection (tlsPairs c (lacksSection ldapsSection stage)) stage

/-- Why a file is not written: the rendering does not fit into its buffer, or
the rewriting of a section goes past its own. -/
inductive WriteError where
  | tooLong
  | pastBuffer

def basednStage (c : Configuration) (text : List UInt8) : List UInt8 :=
  if text ≠ [] ∧ c.baseDn.str.length ≠ 0 then
    (rewriteBasedn c.baseDn.str text).getD text
  else text

/-- `ldap_write_config_file`; the content is `none` for a file that cannot be read. -/
def ldapWriteConfigFile (c : Configuration) (d : Directory)
    (current : Option (List UInt8)) : Except WriteError (List UInt8) :=
  match renderUsersGroupsToml 1048576 d with
  | none => .error .tooLong
  | some rendered =>
    match rewriteListeners c
        (basednStage c (operatorPart (current.getD []))) with
    | none => .error .pastBuffer
    | some front => .ok (front ++ rendered)

def Unmanaged (text : List UInt8) : Prop :=
  ¬ usersMarker <:+: text ∧ ¬ groupsMarker <:+: text

theorem prefix_of_strstr {piece text before after : List UInt8}
    (found : strstr piece text = some (before, after)) : before <+: text := by
  rw [strstr_eq_some found]
  exact prefix_append _ _

theorem unmanaged_operatorPart (current : List UInt8) : Unmanaged (operatorPart current) := by
  unfold operatorPart
  cases usersAt : strstr usersMarker current with
  | none =>
    have noUsers := strstr_eq_none_iff.mp usersAt
    cases groupsAt : strstr groupsMarker current with
    | none => exact ⟨noUsers, strstr_eq_none_iff.mp groupsAt⟩
    | some pair =>
      have begins := prefix_of_strstr groupsAt
      exact ⟨fun inside => noUsers (inside.trans begins.isInfix),
        strstr_before (by decide) groupsAt⟩
  | some users =>
    have noUsers := strstr_before (by decide) usersAt
    cases groupsAt : strstr groupsMarker current with
    | none =>
      have begins := prefix_of_strstr usersAt
      exact ⟨noUsers, fun inside => strstr_eq_none_iff.mp groupsAt (inside.trans begins.isInfix)⟩
    | some groups =>
      have noGroups := strstr_before (by decide) groupsAt
      have usersBegin := prefix_of_strstr usersAt
      have groupsBegin := prefix_of_strstr groupsAt
      dsimp only
      split
      next sooner =>
        have begins := prefix_of_prefix_length_le usersBegin groupsBegin (Nat.le_of_lt sooner)
        exact ⟨noUsers, fun inside =>
          noGroups (inside.trans begins.isInfix)⟩
      next later =>
        have begins := prefix_of_prefix_length_le groupsBegin usersBegin (Nat.not_lt.mp later)
        exact ⟨fun inside => noUsers (inside.trans begins.isInfix), noGroups⟩

theorem strstr_behind {piece front back : List UInt8} (foreign : 10 ∉ piece)
    (absent : ¬ 10 :: piece <:+: front) :
    strstr (10 :: piece) (front ++ (10 :: piece ++ back)) = some (front, back) := by
  cases found : strstr (10 :: piece) (front ++ (10 :: piece ++ back)) with
  | none =>
    exact absurd ⟨front, back, by rw [append_assoc]⟩
      (strstr_eq_none_iff.mp found)
  | some pair =>
    obtain ⟨before, after⟩ := pair
    have whole := strstr_eq_some found
    have sooner := strstr_length_le found
    have later := length_le_of_split foreign absent (Or.inr rfl) whole
    obtain ⟨rfl, rest⟩ := append_inj whole (Nat.le_antisymm later sooner)
    rw [append_cancel_left rest]

theorem length_le_strstr {piece front back before after : List UInt8}
    (foreign : 10 ∉ piece) (absent : ¬ 10 :: piece <:+: front)
    (begins : back.head? = some 10)
    (found : strstr (10 :: piece) (front ++ back) = some (before, after)) :
    front.length ≤ before.length :=
  length_le_of_split foreign absent (Or.inr begins) (strstr_eq_some found)

theorem operatorPart_append {front back : List UInt8} (unmanaged : Unmanaged front)
    (begins : back = [] ∨ usersMarker <+: back ∨ groupsMarker <+: back) :
    operatorPart (front ++ back) = front := by
  unfold operatorPart
  rcases begins with rfl | ⟨rest, rfl⟩ | ⟨rest, rfl⟩
  · rw [append_nil, strstr_eq_none_iff.mpr unmanaged.1, strstr_eq_none_iff.mpr unmanaged.2]
  · have usersAt : strstr usersMarker (front ++ (usersMarker ++ rest)) =
        some (front, rest) := strstr_behind (by decide) unmanaged.1
    rw [usersAt]
    cases groupsAt : strstr groupsMarker (front ++ (usersMarker ++ rest)) with
    | none => rfl
    | some groups =>
      obtain ⟨before, after⟩ := groups
      have behind := length_le_strstr (by decide) unmanaged.2 rfl groupsAt
      dsimp only
      split
      next => rfl
      next notSooner =>
        exact (prefix_of_prefix_length_le (prefix_of_strstr groupsAt)
          (prefix_append _ _) (Nat.not_lt.mp notSooner)).eq_of_length
            (Nat.le_antisymm (Nat.not_lt.mp notSooner) behind)
  · have groupsAt : strstr groupsMarker (front ++ (groupsMarker ++ rest)) =
        some (front, rest) := strstr_behind (by decide) unmanaged.2
    rw [groupsAt]
    cases usersAt : strstr usersMarker (front ++ (groupsMarker ++ rest)) with
    | none => rfl
    | some users =>
      obtain ⟨before, after⟩ := users
      have behind := length_le_strstr (by decide) unmanaged.1 rfl usersAt
      dsimp only
      rw [if_neg (Nat.not_lt.mpr behind)]

end Cix.Ldap
