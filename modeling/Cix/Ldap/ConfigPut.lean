import Cix.Json.Parser
import Cix.Lib.Machine

/-!
# A request for the LDAP configuration

`PUT /ldap/config`: `handle_ldap_config_put` of `daemon/src/api_ldap.c` hands
three groups of fields to `ldap_config_set`, `ldap_config_set_client` and
`ldap_config_set_listeners` of `daemon/src/ldap.c`, one after the other.
-/

namespace Cix.Ldap

open Cix.Lib Cix.Json Option

structure LdapConfig where
  (startUid startGid : Int32)
  clientUri : BoundedStr 512
  (baseDn bindDn bindPassword : BoundedStr 256)
  (clientTls listenersManaged serverPlaintext : Bool)
  serverPlaintextPort : Int32
  serverTls : Bool
  serverTlsPort : Int32
  deriving DecidableEq

/-- A base DN that `hostauth_ldap_base_dn` knows replaces the stored one. -/
def ldapConfigGet (canonical : CStr) (c : LdapConfig) : LdapConfig :=
  if canonical.bytes = [] then c
  else { c with baseDn := BoundedStr.store 256 pos_256 canonical }

/-! ## The setters -/

/-- The results of the setters, out of `enum ldap_record_error`. -/
inductive ConfigSetError where
  | invalidField
  | persistFailed
  | noServerCert (container : BoundedStr 64)
  deriving DecidableEq

def ldapConfigSet (startUid startGid : Int32) (written : Bool)
    (c : LdapConfig) : LdapConfig × Option ConfigSetError :=
  if startUid ≤ 0 ∨ startGid ≤ 0 then (c, some .invalidField)
  else
    let next := { c with startUid := startUid, startGid := startGid }
    if written then (next, none)
    else
      ({ next with startUid := c.startUid, startGid := c.startGid }, some .persistFailed)

/-- The strings of a request for the clients' side; `none` is `NULL`. -/
structure ClientAsked where
  (clientUri baseDn bindDn bindPassword : Option CStr)

def storeAsked (n : Nat) (positive : 0 < n) (asked : Option CStr)
    (stored : BoundedStr n) : BoundedStr n :=
  match asked with
  | none => stored
  | some text => BoundedStr.store n positive text

def ClientAsked.store (a : ClientAsked) (c : LdapConfig) : LdapConfig :=
  { c with
    clientUri := storeAsked 512 pos_512 a.clientUri c.clientUri
    baseDn := storeAsked 256 pos_256 a.baseDn c.baseDn
    bindDn := storeAsked 256 pos_256 a.bindDn c.bindDn
    bindPassword := storeAsked 256 pos_256 a.bindPassword c.bindPassword }

def ldapConfigSetClient (a : ClientAsked) (written : Bool) (c : LdapConfig) :
    LdapConfig × Option ConfigSetError :=
  if written then (a.store c, none) else (c, some .persistFailed)

structure ListenersAsked where
  (clientTls serverPlaintext serverPlaintextPort serverTls serverTlsPort : Int32)

def storeFlag (asked : Int32) (stored : Bool) : Bool :=
  if asked ≥ 0 then asked ≠ 0 else stored

def storePort (asked stored : Int32) : Int32 :=
  if asked ≥ 0 then asked else stored

def ListenersAsked.store (a : ListenersAsked) (c : LdapConfig) :
    LdapConfig :=
  { c with
    clientTls := storeFlag a.clientTls c.clientTls
    serverPlaintext := storeFlag a.serverPlaintext c.serverPlaintext
    serverPlaintextPort :=
      storePort a.serverPlaintextPort c.serverPlaintextPort
    serverTls := storeFlag a.serverTls c.serverTls
    serverTlsPort := storePort a.serverTlsPort c.serverTlsPort }

def ListenersAsked.touchedServer (a : ListenersAsked) : Bool :=
  a.serverPlaintext ≥ 0 || a.serverTls ≥ 0 || a.serverPlaintextPort ≥ 0 || a.serverTlsPort ≥ 0

def badPorts (c : LdapConfig) : Bool :=
  c.serverPlaintextPort < 1 || c.serverPlaintextPort > 65535 ||
    c.serverTlsPort < 1 || c.serverTlsPort > 65535 ||
    c.serverPlaintextPort = c.serverTlsPort

/-- `ldap_config_set_listeners`. `offender` is a running server without a certificate. -/
def ldapConfigSetListeners (a : ListenersAsked)
    (offender : Option (BoundedStr 64)) (written : Bool) (c : LdapConfig) :
    LdapConfig × Option ConfigSetError :=
  let next := a.store c
  if badPorts next then (c, some .invalidField)
  else if !next.serverPlaintext && !next.serverTls then
    (c, some .invalidField)
  else if next.clientTls && !next.serverTls ||
      !next.clientTls && !next.serverPlaintext then (c, some .invalidField)
  else
    match next.serverTls && !c.serverTls, offender with
    | true, some container => (c, some (.noServerCert container))
    | _, _ =>
      if written then
        ({ next with
          listenersManaged := next.listenersManaged || a.touchedServer },
          none)
      else (c, some .persistFailed)

/-! ## The request -/

structure PutMeets where
  canonical : CStr
  offender : Option (BoundedStr 64)
  (floorsWritten clientWritten listenersWritten : Bool)

/-- The errors that `handle_ldap_config_put` responds with. -/
inductive PutError where
  | invalidJson
  | floors
  | clientNotPersisted
  | noServerCert (container : BoundedStr 64)
  | listeners
  deriving DecidableEq

def stringOrClear (root : Value) (key : String) : Option CStr :=
  match objectGet (some root) key with
  | none => none
  | some .null => some CStr.empty
  | some v => asString (some v)

def floorAsked (root : Value) (key : String) : Option Int32 :=
  (objectGet (some root) key).map fun v => (asNumber (some v)).toInt

def flagAsked : Option Value → Int32
  | some (.bool b) => if b then 1 else 0
  | _ => -1

def portAsked : Option Value → Int32
  | some (.number n) => n.toInt
  | _ => -1

def clientAsked (root : Value) : ClientAsked where
  clientUri := stringOrClear root "client_uri"
  baseDn := stringOrClear root "base_dn"
  bindDn := stringOrClear root "bind_dn"
  bindPassword := stringOrClear root "bind_password"

def ClientAsked.any (a : ClientAsked) : Bool :=
  a.clientUri.isSome || a.baseDn.isSome || a.bindDn.isSome || a.bindPassword.isSome

def listenersAsked (root : Value) : ListenersAsked where
  clientTls := flagAsked (objectGet (some root) "client_tls")
  serverPlaintext := flagAsked (objectGet (some root) "server_plaintext")
  serverPlaintextPort :=
    portAsked (objectGet (some root) "server_plaintext_port")
  serverTls := flagAsked (objectGet (some root) "server_tls")
  serverTlsPort := portAsked (objectGet (some root) "server_tls_port")

def namesListener (root : Value) : Bool :=
  (objectGet (some root) "client_tls").isSome ||
    (objectGet (some root) "server_plaintext").isSome ||
    (objectGet (some root) "server_plaintext_port").isSome ||
    (objectGet (some root) "server_tls").isSome ||
    (objectGet (some root) "server_tls_port").isSome

/-- The first group of the request.  A floor that is not given is read from
`ldap_config_get`. -/
def putFloors (m : PutMeets) (root : Value) (c : LdapConfig) : LdapConfig × Option PutError :=
  match floorAsked root "start_uid", floorAsked root "start_gid" with
  | none, none => (c, none)
  | some uid, some gid =>
    let outcome := ldapConfigSet uid gid m.floorsWritten c
    (outcome.1, outcome.2.map fun _ => .floors)
  | some uid, none =>
    let read := ldapConfigGet m.canonical c
    let outcome := ldapConfigSet uid read.startGid m.floorsWritten read
    (outcome.1, outcome.2.map fun _ => .floors)
  | none, some gid =>
    let read := ldapConfigGet m.canonical c
    let outcome := ldapConfigSet read.startUid gid m.floorsWritten read
    (outcome.1, outcome.2.map fun _ => .floors)

def putClient (m : PutMeets) (root : Value) (c : LdapConfig) : LdapConfig × Option PutError :=
  if (clientAsked root).any then
    let outcome := ldapConfigSetClient (clientAsked root) m.clientWritten c
    (outcome.1, outcome.2.map fun _ => .clientNotPersisted)
  else (c, none)

def putListeners (m : PutMeets) (root : Value) (c : LdapConfig) : LdapConfig × Option PutError :=
  if namesListener root then
    match ldapConfigSetListeners (listenersAsked root) m.offender
        m.listenersWritten c with
    | (c, none) => (c, none)
    | (c, some (.noServerCert container)) => (c, some (.noServerCert container))
    | (c, some _) => (c, some .listeners)
  else (c, none)

/-- `handle_ldap_config_put`; the response with the configuration reads it
through `ldap_config_get`. -/
def handleLdapConfigPut (m : PutMeets) (body : List UInt8) (c : LdapConfig) :
    LdapConfig × Option PutError :=
  match jsonParse body with
  | none => (c, some .invalidJson)
  | some root =>
    match putFloors m root c with
    | (c, some error) => (c, some error)
    | (c, none) =>
      match putClient m root c with
      | (c, some error) => (c, some error)
      | (c, none) =>
        match putListeners m root c with
        | (c, some error) => (c, some error)
        | (c, none) => (ldapConfigGet m.canonical c, none)

/-! ## What is to hold -/

/-- The listener rule: usable and distinct ports, a listener, and clients that
are pointed at an enabled one. -/
structure ListenersSound (c : LdapConfig) : Prop where
  plaintextPort : 1 ≤ c.serverPlaintextPort ∧ c.serverPlaintextPort ≤ 65535
  tlsPort : 1 ≤ c.serverTlsPort ∧ c.serverTlsPort ≤ 65535
  distinct : c.serverPlaintextPort ≠ c.serverTlsPort
  enabled : c.serverPlaintext = true ∨ c.serverTls = true
  clients : if c.clientTls then c.serverTls = true
    else c.serverPlaintext = true

def oneFloor (root : Value) : Bool :=
  (floorAsked root "start_uid").isSome != (floorAsked root "start_gid").isSome

def readForFloors (m : PutMeets) (root : Value) (c : LdapConfig) :
    LdapConfig :=
  if oneFloor root then ldapConfigGet m.canonical c else c

def storeFloors (m : PutMeets) (root : Value) (c : LdapConfig) :
    LdapConfig :=
  { readForFloors m root c with
    startUid := (floorAsked root "start_uid").getD c.startUid
    startGid := (floorAsked root "start_gid").getD c.startGid }

def FloorsRefused (m : PutMeets) (root : Value) (c : LdapConfig) : Prop :=
  ((floorAsked root "start_uid").isSome = true ∨ (floorAsked root "start_gid").isSome = true) ∧
  ((floorAsked root "start_uid").getD c.startUid ≤ 0 ∨
    (floorAsked root "start_gid").getD c.startGid ≤ 0 ∨
    m.floorsWritten = false)

def ClientRefused (m : PutMeets) (root : Value) : Prop :=
  (clientAsked root).any = true ∧ m.clientWritten = false

def ListenersRefused (m : PutMeets) (root : Value) (c : LdapConfig) : Prop :=
  namesListener root = true ∧
  (¬ ListenersSound ((listenersAsked root).store c) ∨
    (((listenersAsked root).store c).serverTls = true ∧
      c.serverTls = false ∧ m.offender.isSome = true) ∨
    m.listenersWritten = false)

inductive Slips (m : PutMeets) (root : Value) (c : LdapConfig) : Prop
  | floors (refused : FloorsRefused m root c)
      (changed : readForFloors m root c ≠ c)
  | client (floorsPass : ¬ FloorsRefused m root c)
      (refused : ClientRefused m root) (changed : storeFloors m root c ≠ c)
  | listeners (floorsPass : ¬ FloorsRefused m root c)
      (clientPasses : ¬ ClientRefused m root)
      (refused : ListenersRefused m root c)
      (changed : (clientAsked root).store (storeFloors m root c) ≠ c)
  | unasked (floorsPass : ¬ FloorsRefused m root c)
      (clientPasses : ¬ ClientRefused m root)
      (unnamed : namesListener root = false) (unsound : ¬ ListenersSound c)

/-! ## The groups one by one -/

section GroupByGroup

variable {m : PutMeets} {root : Value} {c : LdapConfig}

@[simp]
theorem startUid_ldapConfigGet (canonical : CStr) (c : LdapConfig) :
    (ldapConfigGet canonical c).startUid = c.startUid := by
  unfold ldapConfigGet
  split <;> rfl

@[simp]
theorem startGid_ldapConfigGet (canonical : CStr) (c : LdapConfig) :
    (ldapConfigGet canonical c).startGid = c.startGid := by
  unfold ldapConfigGet
  split <;> rfl

theorem ldapConfigSet_refused {uid gid : Int32} {written : Bool} (c : LdapConfig)
    (reason : uid ≤ 0 ∨ gid ≤ 0 ∨ written = false) :
    ∃ error, ldapConfigSet uid gid written c = (c, some error) := by
  unfold ldapConfigSet
  split
  next => exact ⟨_, rfl⟩
  next positive =>
    have failed : written = false := by tauto
    rw [failed]
    exact ⟨_, rfl⟩

theorem putFloors_refused (refused : FloorsRefused m root c) :
    putFloors m root c = (readForFloors m root c, some .floors) := by
  obtain ⟨given, reason⟩ := refused
  have refuses := fun uid gid => @ldapConfigSet_refused uid gid m.floorsWritten
  unfold putFloors readForFloors oneFloor
  cases uid : floorAsked root "start_uid" with
  | none =>
    cases gid : floorAsked root "start_gid" with
    | none => simp [uid, gid] at given
    | some asked =>
      simp only [uid, gid, getD_none, getD_some] at reason
      obtain ⟨error, outcome⟩ := refuses _ _ (ldapConfigGet m.canonical c) reason
      simp [outcome]
  | some asked =>
    cases gid : floorAsked root "start_gid" with
    | none =>
      simp only [uid, gid, getD_none, getD_some] at reason
      obtain ⟨error, outcome⟩ := refuses _ _ (ldapConfigGet m.canonical c) reason
      simp [outcome]
    | some other =>
      simp only [uid, gid, getD_some] at reason
      obtain ⟨error, outcome⟩ := refuses _ _ c reason
      simp [outcome]

theorem putFloors_passes (passes : ¬ FloorsRefused m root c) :
    putFloors m root c = (storeFloors m root c, none) := by
  unfold FloorsRefused at passes
  unfold putFloors storeFloors readForFloors oneFloor ldapConfigSet
  cases uid : floorAsked root "start_uid" with
  | none =>
    cases gid : floorAsked root "start_gid" with
    | none => simp
    | some asked =>
      simp only [uid, gid, isSome_none, isSome_some,
        Bool.false_eq_true, or_true, true_and, getD_none,
        getD_some, not_or, Bool.not_eq_false] at passes
      simp [passes]
  | some asked =>
    cases gid : floorAsked root "start_gid" with
    | none =>
      simp only [uid, gid, isSome_none, isSome_some,
        Bool.false_eq_true, or_false, true_and, getD_none,
        getD_some, not_or, Bool.not_eq_false] at passes
      simp [passes]
    | some other =>
      simp only [uid, gid, isSome_some, or_true, true_and,
        getD_some, not_or, Bool.not_eq_false] at passes
      simp [passes]

theorem putClient_refused (refused : ClientRefused m root) :
    putClient m root c = (c, some .clientNotPersisted) := by
  simp [putClient, ldapConfigSetClient, refused.1, refused.2]

theorem putClient_passes (passes : ¬ ClientRefused m root) :
    putClient m root c = ((clientAsked root).store c, none) := by
  unfold ClientRefused at passes
  unfold putClient ldapConfigSetClient
  by_cases given : (clientAsked root).any = true
  · simp only [given, true_and, Bool.not_eq_false] at passes
    simp [given, passes]
  · have absent := given
    simp only [ClientAsked.any, Bool.or_eq_true, not_or, Bool.not_eq_true,
      isSome_eq_false_iff, isNone_iff_eq_none] at absent
    simp [given, ClientAsked.store, absent, storeAsked]

theorem listenersSound_iff (c : LdapConfig) : ListenersSound c ↔ badPorts c = false ∧
      (!c.serverPlaintext && !c.serverTls) = false ∧
      (c.clientTls && !c.serverTls || !c.clientTls && !c.serverPlaintext) = false := by
  simp only [badPorts, Bool.or_eq_false_iff, decide_eq_false_iff_not, Int32.not_lt, gt_iff_lt]
  constructor
  · intro sound
    refine ⟨⟨⟨⟨⟨sound.plaintextPort.1, sound.plaintextPort.2⟩,
      sound.tlsPort.1⟩, sound.tlsPort.2⟩, sound.distinct⟩, ?_, ?_⟩
    · rcases sound.enabled with on | on <;> simp [on]
    · have clients := sound.clients
      cases tls : c.clientTls <;> simp [tls] at clients <;> simp [clients]
  · rintro ⟨⟨⟨⟨⟨low, high⟩, lowTls⟩, highTls⟩, distinct⟩, enabled, clients⟩
    refine ⟨⟨low, high⟩, ⟨lowTls, highTls⟩, distinct, ?_, ?_⟩
    · cases on : c.serverPlaintext <;> simp [on] at enabled ⊢
      exact enabled
    · cases tls : c.clientTls <;> simp [tls] at clients ⊢ <;> exact clients

theorem setListeners_refused (refused : ¬ ListenersSound ((listenersAsked root).store c) ∨
      (((listenersAsked root).store c).serverTls = true ∧
        c.serverTls = false ∧ m.offender.isSome = true) ∨
      m.listenersWritten = false) :
    ∃ error, ldapConfigSetListeners (listenersAsked root) m.offender
      m.listenersWritten c = (c, some error) := by
  rw [listenersSound_iff] at refused
  unfold ldapConfigSetListeners
  dsimp only
  split
  next => exact ⟨_, rfl⟩
  next ports =>
    split
    next => exact ⟨_, rfl⟩
    next enabled =>
      split
      next => exact ⟨_, rfl⟩
      next clients =>
        split
        next => exact ⟨_, rfl⟩
        next certified =>
          have failed : m.listenersWritten = false := by
            rcases refused with unsound | ⟨on, off, missing⟩ | failed
            · simp only [Bool.not_eq_true] at ports enabled clients
              exact absurd ⟨ports, enabled, clients⟩ unsound
            · obtain ⟨container, isMissing⟩ := isSome_iff_exists.mp missing
              exact absurd isMissing (certified container (by rw [on, off]; rfl))
            · exact failed
          rw [failed]
          exact ⟨_, rfl⟩

theorem setListeners_passes (sound : ListenersSound ((listenersAsked root).store c))
    (certified : ¬ (((listenersAsked root).store c).serverTls = true ∧
      c.serverTls = false ∧ m.offender.isSome = true))
    (written : m.listenersWritten = true) :
    ldapConfigSetListeners (listenersAsked root) m.offender m.listenersWritten c =
      ({ (listenersAsked root).store c with
        listenersManaged :=
          ((listenersAsked root).store c).listenersManaged ||
            (listenersAsked root).touchedServer }, none) := by
  have checks := (listenersSound_iff _).mp sound
  unfold ldapConfigSetListeners
  dsimp only
  rw [checks.1, checks.2.1, checks.2.2, written]
  simp only [Bool.false_eq_true, ↓reduceIte]
  split
  next container turnedOn missing =>
    simp only [Bool.and_eq_true, Bool.not_eq_true'] at turnedOn
    rw [missing] at certified
    exact absurd ⟨turnedOn.1, turnedOn.2, rfl⟩ certified
  next => rfl

theorem putListeners_passes (named : namesListener root = true)
    (passes : ¬ ListenersRefused m root c) :
    ∃ stored, putListeners m root c = (stored, none) ∧
      ListenersSound stored := by
  unfold ListenersRefused at passes
  simp only [named, true_and, not_or, not_not] at passes
  obtain ⟨sound, certified, written⟩ := passes
  rw [Bool.not_eq_false] at written
  refine ⟨{ (listenersAsked root).store c with
    listenersManaged := ((listenersAsked root).store c).listenersManaged ||
      (listenersAsked root).touchedServer }, ?_, ?_⟩
  · unfold putListeners
    rw [if_pos named, setListeners_passes sound certified written]
  · exact ⟨sound.plaintextPort, sound.tlsPort, sound.distinct, sound.enabled, sound.clients⟩

theorem putListeners_refused (refused : ListenersRefused m root c) :
    ∃ error, putListeners m root c = (c, some error) := by
  obtain ⟨named, reason⟩ := refused
  obtain ⟨error, fails⟩ := setListeners_refused reason
  unfold putListeners
  rw [if_pos named, fails]
  cases error <;> exact ⟨_, rfl⟩

theorem putListeners_unnamed (unnamed : namesListener root = false) :
    putListeners m root c = (c, none) := by
  simp [putListeners, unnamed]

/-! ## The groups in turn -/

theorem storeGroups_listeners : ∃ startUid startGid clientUri baseDn bindDn bindPassword,
      (clientAsked root).store (storeFloors m root c) =
        { c with
          startUid := startUid
          startGid := startGid
          clientUri := clientUri
          baseDn := baseDn
          bindDn := bindDn
          bindPassword := bindPassword } := by
  unfold ClientAsked.store storeFloors readForFloors ldapConfigGet
  split
  · split
    · exact ⟨_, _, _, _, _, _, rfl⟩
    · exact ⟨_, _, _, _, _, _, rfl⟩
  · exact ⟨_, _, _, _, _, _, rfl⟩

theorem listenersSound_storeGroups :
    ListenersSound ((clientAsked root).store (storeFloors m root c)) ↔
      ListenersSound c := by
  obtain ⟨_, _, _, _, _, _, same⟩ := @storeGroups_listeners m root c
  rw [same, listenersSound_iff, listenersSound_iff]
  rfl

theorem listenersRefused_storeGroups : ListenersRefused m root
        ((clientAsked root).store (storeFloors m root c)) ↔
      ListenersRefused m root c := by
  obtain ⟨_, _, _, _, _, _, same⟩ := @storeGroups_listeners m root c
  rw [same, ListenersRefused, ListenersRefused, listenersSound_iff, listenersSound_iff]
  rfl

theorem ListenersSound.ldapConfigGet {c : LdapConfig}
    (sound : ListenersSound c) (canonical : CStr) :
    ListenersSound (ldapConfigGet canonical c) := by
  unfold Ldap.ldapConfigGet
  split
  · exact sound
  · exact ⟨sound.plaintextPort, sound.tlsPort, sound.distinct, sound.enabled, sound.clients⟩

theorem ListenersSound.of_ldapConfigGet {c : LdapConfig} {canonical : CStr}
    (sound : ListenersSound (Ldap.ldapConfigGet canonical c)) :
    ListenersSound c := by
  unfold Ldap.ldapConfigGet at sound
  split at sound
  · exact sound
  · exact ⟨sound.plaintextPort, sound.tlsPort, sound.distinct, sound.enabled, sound.clients⟩

end GroupByGroup

def PutSound (c : LdapConfig) (outcome : LdapConfig × Option PutError) :
    Prop :=
  match outcome with
  | (after, some _) => after = c
  | (after, none) => ListenersSound after

section Slipping

variable {m : PutMeets} {root : Value} {c : LdapConfig}

theorem slips_iff_floors (floors : FloorsRefused m root c) :
    Slips m root c ↔ readForFloors m root c ≠ c := by
  refine ⟨fun slips => ?_, .floors floors⟩
  cases slips with
  | floors _ changed => exact changed
  | client passes => exact absurd floors passes
  | listeners passes => exact absurd floors passes
  | unasked passes => exact absurd floors passes

variable (floors : ¬ FloorsRefused m root c)
include floors

theorem slips_iff_client (client : ClientRefused m root) :
    Slips m root c ↔ storeFloors m root c ≠ c := by
  refine ⟨fun slips => ?_, .client floors client⟩
  cases slips with
  | floors refused => exact absurd refused floors
  | client _ _ changed => exact changed
  | listeners _ passes => exact absurd client passes
  | unasked _ passes => exact absurd client passes

variable (client : ¬ ClientRefused m root)
include client

theorem slips_iff_listeners (refused : ListenersRefused m root c) :
    Slips m root c ↔ (clientAsked root).store (storeFloors m root c) ≠ c := by
  refine ⟨fun slips => ?_, .listeners floors client refused⟩
  cases slips with
  | floors refused => exact absurd refused floors
  | client _ refused => exact absurd refused client
  | listeners _ _ _ changed => exact changed
  | unasked _ _ unnamed =>
    rw [refused.1] at unnamed
    cases unnamed

theorem slips_iff_stored (passes : ¬ ListenersRefused m root c) :
    Slips m root c ↔ namesListener root = false ∧ ¬ ListenersSound c := by
  refine ⟨fun slips => ?_, fun ⟨unnamed, unsound⟩ => .unasked floors client unnamed unsound⟩
  cases slips with
  | floors refused => exact absurd refused floors
  | client _ refused => exact absurd refused client
  | listeners _ _ refused => exact absurd refused passes
  | unasked _ _ unnamed unsound => exact ⟨unnamed, unsound⟩

end Slipping

/-- The request does what it is to do unless a group is refused after a change,
or the listeners are against the rule and no field names them. -/
theorem putSound_iff (m : PutMeets) (body : List UInt8) (c : LdapConfig) :
    PutSound c (handleLdapConfigPut m body c) ↔
      ∀ root, jsonParse body = some root → ¬ Slips m root c := by
  unfold handleLdapConfigPut
  cases parsed : jsonParse body with
  | none =>
    refine iff_of_true rfl ?_
    intro root isRoot
    cases isRoot
  | some root =>
    have only : (∀ root', some root = some root' → ¬ Slips m root' c) ↔ ¬ Slips m root c := by
      simp
    rw [only]
    dsimp only
    by_cases floors : FloorsRefused m root c
    · rw [putFloors_refused floors, slips_iff_floors floors, not_not]
      rfl
    rw [putFloors_passes floors]
    dsimp only
    by_cases client : ClientRefused m root
    · rw [putClient_refused client, slips_iff_client floors client, not_not]
      rfl
    rw [putClient_passes client]
    dsimp only
    by_cases refused : ListenersRefused m root c
    · obtain ⟨error, fails⟩ := putListeners_refused (listenersRefused_storeGroups.mpr refused)
      rw [fails, slips_iff_listeners floors client refused, not_not]
      rfl
    rw [slips_iff_stored floors client refused]
    by_cases named : namesListener root = true
    · obtain ⟨stored, passes, sound⟩ := putListeners_passes named
        (mt listenersRefused_storeGroups.mp refused)
      rw [passes]
      exact iff_of_true (sound.ldapConfigGet m.canonical) (by simp [named])
    · rw [Bool.not_eq_true] at named
      rw [putListeners_unnamed named, named, not_and, not_not]
      constructor
      · intro sound _
        exact listenersSound_storeGroups.mp (ListenersSound.of_ldapConfigGet sound)
      · intro sound
        exact (listenersSound_storeGroups.mpr (sound rfl)).ldapConfigGet m.canonical

theorem ListenersSound.put {c : LdapConfig} (sound : ListenersSound c)
    (m : PutMeets) (body : List UInt8) :
    ListenersSound (handleLdapConfigPut m body c).1 := by
  unfold handleLdapConfigPut
  cases jsonParse body with
  | none => exact sound
  | some root =>
    dsimp only
    by_cases floors : FloorsRefused m root c
    · rw [putFloors_refused floors]
      dsimp only [readForFloors]
      split
      · exact sound.ldapConfigGet m.canonical
      · exact sound
    rw [putFloors_passes floors]
    dsimp only
    have stored := @listenersSound_storeGroups m root c
    by_cases client : ClientRefused m root
    · rw [putClient_refused client]
      dsimp only [storeFloors, readForFloors]
      split
      · have read := sound.ldapConfigGet m.canonical
        exact ⟨read.plaintextPort, read.tlsPort, read.distinct, read.enabled, read.clients⟩
      · exact ⟨sound.plaintextPort, sound.tlsPort, sound.distinct, sound.enabled, sound.clients⟩
    rw [putClient_passes client]
    dsimp only
    by_cases named : namesListener root = true
    · by_cases refused : ListenersRefused m root ((clientAsked root).store (storeFloors m root c))
      · obtain ⟨error, fails⟩ := putListeners_refused refused
        rw [fails]
        exact stored.mpr sound
      · obtain ⟨kept, passes, isSound⟩ := putListeners_passes named refused
        rw [passes]
        exact isSound.ldapConfigGet m.canonical
    · rw [Bool.not_eq_true] at named
      rw [putListeners_unnamed named]
      exact (stored.mpr sound).ldapConfigGet m.canonical

theorem listenersSound_run {c : LdapConfig} (sound : ListenersSound c)
    (requests : List (PutMeets × List UInt8)) :
    ListenersSound (run (fun c request =>
      (handleLdapConfigPut request.1 request.2 c).1) c requests) :=
  run_invariant_of_step ListenersSound
    (fun _ request sound => sound.put request.1 request.2) sound requests

def freshConfig : LdapConfig where
  startUid := 10000
  startGid := 10000
  clientUri := BoundedStr.store 512 pos_512 CStr.empty
  baseDn := BoundedStr.store 256 pos_256 CStr.empty
  bindDn := BoundedStr.store 256 pos_256 CStr.empty
  bindPassword := BoundedStr.store 256 pos_256 CStr.empty
  clientTls := false
  listenersManaged := false
  serverPlaintext := true
  serverPlaintextPort := 3893
  serverTls := false
  serverTlsPort := 636

def clearWay : PutMeets where
  canonical := CStr.empty
  offender := none
  floorsWritten := true
  clientWritten := true
  listenersWritten := true

theorem freshConfig_run_sound : ListenersSound (run (fun c request =>
    (handleLdapConfigPut request.1 request.2 c).1) freshConfig
      [(clearWay, ascii "\x7b\"client_tls\":true\x7d")]) :=
  listenersSound_run ⟨by decide, by decide, by decide, by decide, by decide⟩ _

/-- A floor is raised by a request that is refused for its listeners. -/
theorem refused_request_raises_floor : handleLdapConfigPut clearWay
        (ascii "\x7b\"start_uid\":50000,\"client_tls\":true\x7d")
        freshConfig =
      ({ freshConfig with startUid := 50000 }, some .listeners) ∧
    ¬ PutSound freshConfig (handleLdapConfigPut clearWay
      (ascii "\x7b\"start_uid\":50000,\"client_tls\":true\x7d")
      freshConfig) := by
  have outcome : handleLdapConfigPut clearWay
      (ascii "\x7b\"start_uid\":50000,\"client_tls\":true\x7d") freshConfig =
      ({ freshConfig with startUid := 50000 }, some .listeners) := by
    decide +kernel
  refine ⟨outcome, ?_⟩
  rw [outcome]
  intro same
  exact absurd (congrArg LdapConfig.startUid same) (by decide)

end Cix.Ldap
