import Cix.Json.Roundtrip
import Cix.Ldap.Operations
import Cix.Lib.Machine

/-!
# Login sessions

The session table of `daemon/src/hostauth.c`, the file it is carried in across
a restart, and every entry point that reads or changes it.  `sha256` stands for
`pkicrypto_sha256_hex`.  What the outside decides comes with each event: the
clock, the token that `/dev/urandom` gives, whether a write of the file
succeeds, and the answers of the permission mapping.

`refused` and `issued` are no part of the daemon's state: they keep the hashes
of the tokens that were turned away as expired, and of those that a login gave
out.
-/

namespace Cix.Auth

open Cix.Lib Cix.Json
open Cix.Ldap (Clock key)

def isSha256Hex (text : CStr) : Bool :=
  decide (text.length = 64) &&
    text.bytes.all fun c => isDigit c || (decide (97 ≤ c) && decide (c ≤ 102))

/-- What `token_hash` stores. -/
structure TokenHash where
  str : CStr
  valid : isSha256Hex str = true
  deriving DecidableEq

structure Session where
  tokenHash : TokenHash
  username : BoundedStr 32
  (expiresAt loggedInAt : Int)
  sourceIp : BoundedStr 46
  savedExpiresAt : Int

def sessionMax : Nat := 64

def sessionSaveSlack : Int := 60

structure Sessions where
  table : Slots Session sessionMax
  /-- `g_config.idle_timeout_seconds`. -/
  idle : Int32
  /-- `hostauth_sessions.json`. -/
  file : Option (List UInt8)
  /-- The idle timeout in `hostauth_config.json`. -/
  savedIdle : Int32
  /-- The latest time at which anything happened. -/
  clock : Nat
  (refused issued : List TokenHash)

def Sessions.fresh : Sessions :=
  { table := Slots.empty sessionMax
    idle := 900
    file := none
    savedIdle := 900
    clock := 0
    refused := []
    issued := [] }

def lapsed (idle : Int32) (now : Clock) (expiresAt : Int) : Bool :=
  decide (idle.toInt > 0) && decide (expiresAt ≤ now.seconds)

def writeSession (s : Session) (w : Writer) : Writer :=
  let w := jwObjOpen w
  let w := jwStr s.tokenHash.str (key "token_sha256" w)
  let w := jwStr s.username.str (key "username" w)
  let w := jwInt s.expiresAt (key "expires_at" w)
  let w := jwInt s.loggedInAt (key "logged_in_at" w)
  let w := jwStr s.sourceIp.str (key "source_ip" w)
  jwObjClose w

def sessionsText (sessions : List Session) : List UInt8 :=
  let w := jwArrOpen (key "sessions" (jwObjOpen jwInit))
  let w := sessions.foldl (fun w s => writeSession s w) w
  (jwObjClose (jwArrClose w)).buf

def saveSessions (written : Bool) (now : Clock) (s : Sessions) : Sessions :=
  if written then
    { s with
      file := some (sessionsText (s.table.entries.filter fun session =>
        !lapsed s.idle now session.expiresAt))
      table := s.table.adjust fun _ session =>
        { session with savedExpiresAt := session.expiresAt } }
  else s

/-- The body of the loop of `load_sessions`, apart from the test of the
expiry. -/
def loadSession (item : Value) : Option Session :=
  match asString (objectGet (some item) "token_sha256"),
      asString (objectGet (some item) "username"),
      objectGet (some item) "expires_at",
      objectGet (some item) "logged_in_at" with
  | some hash, some user, some expires, some loggedIn =>
    if valid : isSha256Hex hash = true then
      if user.length ≠ 0 ∧ user.length < 32 then
        let expiresAt := (asNumber (some expires)).toLongLong
        some
          { tokenHash := ⟨hash, valid⟩
            username := BoundedStr.store 32 pos_32 user
            expiresAt := expiresAt
            loggedInAt := (asNumber (some loggedIn)).toLongLong
            sourceIp := BoundedStr.store 46 (by decide)
              ((asString (objectGet (some item) "source_ip")).getD CStr.empty)
            savedExpiresAt := expiresAt }
      else none
    else none
  | _, _, _, _ => none

def fileSessions : Option (List UInt8) → List Session
  | none => []
  | some text =>
    match asArray (objectGet (jsonParse text) "sessions") with
    | none => []
    | some items => items.filterMap loadSession

/-- `load_sessions`, after the configuration. -/
def loadSessions (now : Clock) (s : Sessions) : Sessions :=
  { s with
    table := Slots.ofEntries sessionMax ((fileSessions s.file).filter fun session =>
        !lapsed s.savedIdle now session.expiresAt)
    idle := s.savedIdle }

section Tokens

variable (sha256 : CStr → TokenHash)

def findSession (token : CStr) (s : Sessions) : Option (Nat × Session) :=
  if token.length = 0 then none
  else s.table.find fun session => session.tokenHash = sha256 token

def deadline (idle : Int32) (now : Clock) : Int :=
  now.seconds + idle.toInt

def slideSession (slot : Nat) (session : Session) (now : Clock)
    (written : Bool) (s : Sessions) : Sessions :=
  let slid := { session with expiresAt := deadline s.idle now }
  let s := { s with table := s.table.put slot (some slid) }
  if slid.expiresAt - slid.savedExpiresAt ≥ sessionSaveSlack then
    saveSessions written now s
  else s

def refuse (token : CStr) (s : Sessions) : Sessions :=
  { s with refused := sha256 token :: s.refused }

/-- `hostauth_check_token`, with the name of the user it lets in. -/
def hostauthCheckToken (token : CStr) (now : Clock) (written : Bool)
    (s : Sessions) : Sessions × Option (BoundedStr 32) :=
  match findSession sha256 token s with
  | none => (s, none)
  | some (slot, session) =>
    if s.idle = 0 then
      (saveSessions written now
        { s with table := s.table.put slot none }, some session.username)
    else if session.expiresAt ≤ now.seconds then
      (refuse sha256 token { s with table := s.table.put slot none }, none)
    else (slideSession slot session now written s, some session.username)

def hostauthPeekToken (token : CStr) (now : Clock) (s : Sessions) :
    Sessions × Option (BoundedStr 32) :=
  match findSession sha256 token s with
  | none => (s, none)
  | some (_, session) =>
    if s.idle ≠ 0 ∧ session.expiresAt ≤ now.seconds then
      (refuse sha256 token s, none)
    else (s, some session.username)

def hostauthTouchToken (token : CStr) (now : Clock) (written : Bool) (s : Sessions) : Sessions :=
  if s.idle = 0 then s
  else
    match findSession sha256 token s with
    | none => s
    | some (slot, session) =>
      if session.expiresAt ≤ now.seconds then s
      else slideSession slot session now written s

inductive Authz where
  | ok
  | noSession
  | forbidden
  deriving DecidableEq, Repr

/-- `authorize_session`, with the answers of the permission mapping. -/
def authorizeSession (token : CStr) (permission : Option CStr)
    (gating : Bool) (holds : BoundedStr 32 → Bool) (peeks : Bool)
    (now : Clock) (written : Bool) (s : Sessions) : Sessions × Authz :=
  match permission with
  | none => (s, .forbidden)
  | some permission =>
    if permission = "public" ∨ gating = false then (s, .ok)
    else
      let answer :=
        if peeks then hostauthPeekToken sha256 token now s
        else hostauthCheckToken sha256 token now written s
      match answer with
      | (s, none) => (s, .noSession)
      | (s, some user) =>
        if permission = "authenticated" ∨ holds user then
          (s, .ok)
        else (s, .forbidden)

def dropLapsed (now : Clock) (s : Sessions) : Sessions :=
  { s with
    table := s.table.keep fun session =>
      !lapsed s.idle now session.expiresAt }

/-- `hostauth_issue_session`; a token that cannot be made is `none`. -/
def hostauthIssueSession (token : Option CStr) (username sourceIp : CStr)
    (now : Clock) (written : Bool) (s : Sessions) : Sessions :=
  let s := dropLapsed now s
  match s.table.firstFree, token with
  | some slot, some token =>
    let session : Session :=
      { tokenHash := sha256 token
        username := BoundedStr.store 32 pos_32 username
        expiresAt := deadline s.idle now
        loggedInAt := now.seconds
        sourceIp := BoundedStr.store 46 (by decide) sourceIp
        savedExpiresAt := 0 }
    saveSessions written now
      { s with
        table := s.table.put slot (some session)
        issued := sha256 token :: s.issued }
  | _, _ => s

def hostauthLogout (token : CStr) (now : Clock) (written : Bool) (s : Sessions) : Sessions :=
  match findSession sha256 token s with
  | none => s
  | some (slot, _) => saveSessions written now { s with table := s.table.put slot none }

def hostauthRevokeSessionsForUser (username : CStr) (now : Clock)
    (written : Bool) (s : Sessions) : Sessions :=
  if username.length = 0 then s
  else if s.table.entries.any fun session =>
      session.username.str = username then
    saveSessions written now
      { s with
        table := s.table.keep fun session =>
          session.username.str ≠ username }
  else s

/-- `hostauth_reap_expired`, which does not write the file. -/
def hostauthReapExpired (now : Clock) (s : Sessions) : Sessions :=
  dropLapsed now s

/-- `hostauth_set_config` for the idle timeout, with whether its other fields
and the mapping are accepted. -/
def hostauthSetIdle (idle : Int32) (accepted written : Bool) (s : Sessions) : Sessions :=
  if idle.toInt < 0 ∨ accepted = false ∨ written = false then s
  else { s with idle := idle, savedIdle := idle }

inductive SessionEvent where
  | login (token : Option CStr) (username sourceIp : CStr)
      (written : Bool)
  | check (token : CStr) (written : Bool)
  | peek (token : CStr)
  | touch (token : CStr) (written : Bool)
  | authorize (token : CStr) (permission : Option CStr) (gating : Bool)
      (holds : BoundedStr 32 → Bool) (peeks written : Bool)
  | logout (token : CStr) (written : Bool)
  | revoke (username : CStr) (written : Bool)
  | reap
  | setIdle (idle : Int32) (accepted written : Bool)
  | restart

def serveSession (s : Sessions) (now : Clock) : SessionEvent → Sessions
  | .login token username sourceIp written =>
    hostauthIssueSession sha256 token username sourceIp now written s
  | .check token written => (hostauthCheckToken sha256 token now written s).1
  | .peek token => (hostauthPeekToken sha256 token now s).1
  | .touch token written => hostauthTouchToken sha256 token now written s
  | .authorize token permission gating holds peeks written =>
    (authorizeSession sha256 token permission gating holds peeks now written s).1
  | .logout token written => hostauthLogout sha256 token now written s
  | .revoke username written => hostauthRevokeSessionsForUser username now written s
  | .reap => hostauthReapExpired now s
  | .setIdle idle accepted written => hostauthSetIdle idle accepted written s
  | .restart => loadSessions now s

def sessionStep (s : Sessions) (event : Clock × SessionEvent) : Sessions :=
  serveSession sha256 { s with clock := event.1.seconds } event.1 event.2

end Tokens

end Cix.Auth
