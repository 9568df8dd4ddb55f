import Cix.Init.Argv
import Cix.Init.Supervisor
import Cix.Lib.Toposort

/-!
# Compiling a services document

`cixinit_table_from_json` of `daemon/src/cixinit_table.c`: a JSON array of
service declarations becomes the table that cix-init is given.  The records
are parsed in the order of the document, their `after` names are resolved to
indices, the services are put in a topological order and the dependency masks
are rebuilt under that order.
-/

namespace Cix.Init

open Cix.Lib Cix.Json

def maxIfaces : Nat := 16

def defaultReadyTimeout : Int := 30
def defaultRestartDelay : Int := 2
def defaultStopTimeout : Int := 10

/-- `isalnum`, or one of `_` and `-`. -/
def isNameByte (byte : UInt8) : Bool :=
  (48 ≤ byte && byte ≤ 57) || (65 ≤ byte && byte ≤ 90) ||
    (97 ≤ byte && byte ≤ 122) || byte = 95 || byte = 45

def nameOk (name : Option CStr) : Bool :=
  match name with
  | none => false
  | some s => s.length ≠ 0 && s.length < nameMax && s.bytes.all isNameByte

def signals : List (String × Int) :=
  [("SIGTERM", 15), ("SIGINT", 2), ("SIGHUP", 1), ("SIGQUIT", 3),
    ("SIGUSR1", 10), ("SIGUSR2", 12), ("SIGKILL", 9)]

/-- `TERM` is accepted for `SIGTERM`. -/
def cixinitSignalFromName (name : Option CStr) : Int :=
  match name with
  | none => -1
  | some s =>
    let known := if s.bytes.take 3 ≠ ascii "SIG" then
        signals.find? fun entry => (ascii entry.1).drop 3 = s.bytes
      else signals.find? fun entry => ascii entry.1 = s.bytes
    match known with
    | some entry => entry.2
    | none => -1

def intField (obj : Option Value) (key : String) (lo hi dflt : Int)
    (svc : CStr) : Except ServiceError Int :=
  match objectGet obj key with
  | none => .ok dflt
  | some (.number v) =>
    if v.ltInt lo ∨ v.gtInt hi ∨ ¬ v.eqInt v.truncate then
      .error (.outOfRange svc key lo hi)
    else .ok v.truncate
  | some _ => .error (.notANumber svc key)

def parseType (name : CStr) (type : Option CStr) : Except ServiceError Int :=
  match type with
  | none => .ok typeDaemon
  | some s =>
    if s = "daemon" then .ok typeDaemon
    else if s = "oneshot" then .ok typeOneshot
    else .error (.badType name)

/-- The loop over the items of `after`. -/
def parseAfterItems (name : CStr) : List Value → Except ServiceError (List CStr)
  | [] => .ok []
  | item :: rest =>
    match asString (some item) with
    | none => .error (.badAfter name)
    | some dep =>
      if !nameOk (some dep) then .error (.badAfter name)
      else if dep = name then .error (.afterItself name)
      else
        match parseAfterItems name rest with
        | .error e => .error e
        | .ok deps => .ok (dep :: deps)

def parseAfter (name : CStr) (jafter : Option Value) : Except ServiceError (List CStr) :=
  match jafter with
  | none => .ok []
  | some j =>
    match asArray (some j) with
    | none => .error (.badAfter name)
    | some items =>
      if items.length > maxServices then .error (.badAfter name)
      else parseAfterItems name items

structure Readiness where
  (kind port : Int)
  path : Buffer pathMax
  timeoutSeconds : Int

def parseReadySocket (name : CStr) (jsock : Option Value) : Except ServiceError (Buffer pathMax) :=
  match asString jsock with
  | none => .error (.readySocket name)
  | some path =>
    if path.bytes.head? ≠ some 47 ∨ path.length ≥ pathMax then
      .error (.readySocket name)
    else .ok (Buffer.ofCStr pathMax path)

/-- The part of `ready` that says what is probed; the timeout comes after. -/
def parseReadyKind (name : CStr) (jready : Value) :
    Except ServiceError (Int × Int × Buffer pathMax) :=
  let jport := objectGet (some jready) "tcp_port"
  let jsock := objectGet (some jready) "socket"
  let jcmd := objectGet (some jready) "command"
  let kinds := jport.isSome.toNat + jsock.isSome.toNat + jcmd.isSome.toNat
  if kinds ≠ 1 then .error (.readyKinds name)
  else if jport.isSome then
    match intField (some jready) "tcp_port" 1 65535 0 name with
    | .error e => .error e
    | .ok port => .ok (readyTcp, port, Buffer.zero pathMax)
  else if jsock.isSome then
    match parseReadySocket name jsock with
    | .error e => .error e
    | .ok path => .ok (readySocket, 0, path)
  else
    match packArgv jcmd pathMax "ready.command" name with
    | .error e => .error e
    | .ok path => .ok (readyCommand, 0, path)

def parseReady (name : CStr) (jready : Option Value) :
    Except ServiceError Readiness :=
  match jready with
  | none => .ok ⟨readyNone, 0, Buffer.zero pathMax, defaultReadyTimeout⟩
  | some (.object members) =>
    match parseReadyKind name (.object members) with
    | .error e => .error e
    | .ok (kind, port, path) =>
      match intField (some (.object members)) "timeout_seconds" 1 300
          defaultReadyTimeout name with
      | .error e => .error e
      | .ok timeout => .ok ⟨kind, port, path, timeout⟩
  | some _ => .error (.readyShape name)

/-- `on_exit` without the rule about one-shots. -/
def parseOnExitName (name : CStr) (type : Int) (onExit : Option CStr) :
    Except ServiceError Int :=
  match onExit with
  | none => .ok (if type = typeOneshot then onExitFailContainer else onExitRestart)
  | some s =>
    if s = "restart" then .ok onExitRestart
    else if s = "stop" then .ok onExitStop
    else if s = "fail-container" then
      .ok onExitFailContainer
    else .error (.badOnExit name)

def parseOnExit (name : CStr) (type : Int) (onExit : Option CStr) :
    Except ServiceError Int :=
  match parseOnExitName name type onExit with
  | .error e => .error e
  | .ok policy =>
    if type = typeOneshot ∧ policy = onExitRestart then
      .error (.oneshotRestarts name)
    else .ok policy

def parseStopSignal (name : CStr) (stopSignal : Option CStr) :
    Except ServiceError Int :=
  match stopSignal with
  | none => .ok 15
  | some s =>
    let signal := cixinitSignalFromName (some s)
    if signal < 0 then .error (.badStopSignal name) else .ok signal

/-- What `parse_one` fills in: the record and the names it is after. -/
structure Parsed where
  record : ServiceRecord
  after : List CStr

def Parsed.name (p : Parsed) : CStr := p.record.name.cstr

/-- `parse_one` once the name is known. -/
def parseNamed (item : Option Value) (name : CStr) :
    Except ServiceError Parsed := do
  let type ← parseType name (asString (objectGet item "type"))
  let argv ← packArgv (objectGet item "cmd") argvMax "cmd" name
  let after ← parseAfter name (objectGet item "after")
  let ready ← parseReady name (objectGet item "ready")
  let onExit ← parseOnExit name type (asString (objectGet item "on_exit"))
  let restartDelay ← intField item "restart_delay_seconds" 1 300
    defaultRestartDelay name
  let stopSignal ← parseStopSignal name
    (asString (objectGet item "stop_signal"))
  let stopTimeout ← intField item "stop_timeout_seconds" 1 300
    defaultStopTimeout name
  let uid ← intField item "uid" 0 2147483647 (-1) name
  let gid ← intField item "gid" 0 2147483647 (-1) name
  .ok
    { record :=
        { name := Buffer.ofCStr nameMax name
          argv := argv
          type := type
          afterMask := 0
          readyKind := ready.kind
          readyPort := ready.port
          readyTimeoutSeconds := ready.timeoutSeconds
          readyPath := ready.path
          onExit := onExit
          restartDelaySeconds := restartDelay
          stopSignal := stopSignal
          stopTimeoutSeconds := stopTimeout
          uid := uid
          gid := gid }
      after := after }

def parseOne (item : Value) : Except ServiceError Parsed :=
  match item with
  | .object members =>
    match asString (objectGet (some (.object members)) "name") with
    | none => .error .badName
    | some name =>
      if nameOk (some name) then
        parseNamed (some (.object members)) name
      else .error .badName
  | _ => .error .notAnObject

inductive TableError where
  | serviceCount
  | service (e : ServiceError)
  | duplicateName (name : CStr)
  | unknownAfter (name dependency : CStr)
  | cycle (name : CStr)
  | tooManyAddresses
  | tooManyInterfaces
  deriving DecidableEq

def TableError.message : TableError → List UInt8
  | .serviceCount => ascii "services must be an array of 1 to 16 entries"
  | .service e => e.message
  | .duplicateName name =>
    ascii "service name '" ++ name.bytes ++ ascii "' is declared more than once"
  | .unknownAfter name dependency =>
    ascii "service '" ++ name.bytes ++ ascii "' is after '" ++
      dependency.bytes ++ ascii "', which is not declared"
  | .cycle name =>
    ascii "service '" ++ name.bytes ++ ascii "' is part of an `after` cycle"
  | .tooManyAddresses => ascii
      "a container with more than 64 addresses cannot declare services"
  | .tooManyInterfaces => ascii
      "a container with more than 16 interfaces cannot declare services"

def parseServices : (done : List Parsed) → List Value → Except TableError (List Parsed)
  | done, [] => .ok done
  | done, item :: rest =>
    match parseOne item with
    | .error e => .error (.service e)
    | .ok p =>
      if done.any fun q => q.name = p.name then
        .error (.duplicateName p.name)
      else parseServices (done ++ [p]) rest

def findDeclared (parsed : List Parsed) (name : CStr) : Option Nat :=
  parsed.zipIdx.foldl (fun found entry => if entry.1.name = name then some entry.2 else found) none

/-- `deps[i]` for one service. -/
def resolveAfter (parsed : List Parsed) (service : CStr) :
    List CStr → (mask : Nat) → Except TableError Nat
  | [], mask => .ok mask
  | dep :: rest, mask =>
    match findDeclared parsed dep with
    | none => .error (.unknownAfter service dep)
    | some found => resolveAfter parsed service rest (mask ||| 1 <<< found)

/-- `deps` for the services from a given one on. -/
def resolveAll (parsed : List Parsed) : List Parsed → Except TableError (List Nat)
  | [] => .ok []
  | p :: rest =>
    match resolveAfter parsed p.name p.after 0 with
    | .error e => .error e
    | .ok mask =>
      match resolveAll parsed rest with
      | .error e => .error e
      | .ok masks => .ok (mask :: masks)

/-- `placed_mask` after the services in `order` have been placed. -/
def placedMask (n : Nat) (order : List Nat) : Nat :=
  (List.range n).foldl (fun mask k => if order.contains k then mask ||| 1 <<< k else mask) 0

/-- `(deps[i] & ~placed_mask) == 0`, in 32 bits. -/
def depsPlaced (n : Nat) (deps order : List Nat) (i : Nat) :
    Bool :=
  deps.getD i 0 &&& (placedMask n order ^^^ 0xffffffff) = 0

/-- `after_mask` of the service with body index `body`. -/
def tableMask (n : Nat) (deps order : List Nat) (body : Nat) : Nat :=
  (List.range n).foldl (fun mask k =>
      if (deps.getD body 0).testBit k then mask ||| 1 <<< order.idxOf k
      else mask) 0

/-- `struct cixinit_table`. -/
structure CompiledTable where
  services : List ServiceRecord
  (order addresses : List Nat)
  interfaces : List (Buffer nameMax)

def placeRecords (parsed : List Parsed) (deps order : List Nat) :
    List ServiceRecord :=
  order.map fun body =>
    { (parsed.map Parsed.record).getD body ServiceRecord.zero with
      afterMask := tableMask parsed.length deps order body }

/-- `cixinit_table_from_json` after every service has been parsed. -/
def compileParsed (parsed : List Parsed) (addresses : List Nat)
    (interfaces : List CStr) : Except TableError CompiledTable :=
  match resolveAll parsed parsed with
  | .error e => .error e
  | .ok deps =>
    match greedy parsed.length (depsPlaced parsed.length deps)
        parsed.length [] with
    | .error order =>
      .error (.cycle ((((List.range parsed.length).find? fun i =>
        !order.contains i).bind fun i =>
          parsed[i]?.map Parsed.name).getD CStr.empty))
    | .ok order =>
      if addresses.length > maxAddrs then .error .tooManyAddresses
      else if interfaces.length > maxIfaces then
        .error .tooManyInterfaces
      else
        .ok
          { services := placeRecords parsed deps order
            order := order
            addresses := addresses
            interfaces := interfaces.map (Buffer.ofCStr nameMax) }

def cixinitTableFromJson (jservices : Option Value) (addresses : List Nat)
    (interfaces : List CStr) : Except TableError CompiledTable :=
  match asArray jservices with
  | none => .error .serviceCount
  | some items =>
    if items.length < 1 ∨ items.length > maxServices then
      .error .serviceCount
    else
      match parseServices [] items with
      | .error e => .error e
      | .ok parsed => compileParsed parsed addresses interfaces

end Cix.Init
