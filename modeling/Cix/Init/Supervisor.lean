import Cix.Init.Wire
import Cix.Lib.Machine

/-!
# The supervisor: cix-init

A shallow embedding of `init/src/cix_init.c`.  The global variables of the
source are the fields of `Supervisor`, and every function that changes them is
a function on that state.  What the kernel answers (`fork`, the connects of a
readiness probe, the clock) is an input; what the program asks of it (`fork`,
`kill`) is appended to `effects`.  Diagnostics on descriptor 2 are left out.
-/

namespace Cix.Init

open Cix.Lib List

inductive SvcState where
  | pending
  | starting
  | ready
  | exited
  | restartWait
  | stopped
  | failed
  deriving DecidableEq, Repr

/-- A process id as `fork` and `wait4` return it for a child. -/
structure Pid where
  val : Nat
  positive : 0 < val
  isInt : val < 2 ^ 31
  deriving DecidableEq, Repr

/-- `struct svc`; `pid` and `probePid` are `0` when there is no child, and
`probeFd` says whether a connect is in flight. -/
structure Svc where
  decl : ServiceRecord
  state : SvcState
  pid : Nat
  probeDeadline : Int
  probePid : Nat
  probePidDeadline : Int
  probeFd : Bool
  probeAddrIdx : Nat
  (restartAt stopSentAt : Int)
  (killed operatorStopped restartAfterStop : Bool)
  (exitKind exitValue : Int)
  restarts : Nat
  deriving DecidableEq, Repr

inductive Effect where
  | fork (service : Nat) (pid : Pid)
  | stop (service : Nat) (signal : Int)
  | kill (service : Nat)
  | probeKill (service : Nat)
  deriving DecidableEq, Repr

inductive Fork where
  | error (errno : Nat)
  | child (pid : Pid)
  deriving DecidableEq, Repr

/-- What a non-blocking TCP `connect` answers. -/
inductive Connect where
  | connected
  | inProgress
  | refused
  deriving DecidableEq, Repr

/-- What `poll` and `SO_ERROR` say about a connect in flight. -/
inductive ConnectPoll where
  | quiet
  | hangup
  | notWritable
  | failed
  | connected
  deriving DecidableEq, Repr

structure TcpAnswer where
  socket : Bool
  connect : Connect
  poll : ConnectPoll
  deriving DecidableEq, Repr

structure Env where
  fork : Nat → Fork
  clock : Nat → Int
  tcp : Nat → TcpAnswer
  unix : Nat → Bool
  probeFork : Nat → Fork
  written : Nat

def pendingMax : Nat := 256

/-- `pending` is the ring `g_pending`, `sent` what was written to the report socket
and `history` every report made. -/
structure Outbox where
  pending : List Report
  dropped : Nat
  (sent history : List Report)
  bounded : pending.length ≤ pendingMax
  complete : dropped = 0 → sent ++ pending = history

namespace Outbox

def empty : Outbox where
  pending := []
  dropped := 0
  sent := []
  history := []
  bounded := by simp
  complete := by simp

def push (r : Report) (box : Outbox) : Outbox :=
  if full : box.pending.length = pendingMax then
    { pending := box.pending.tail ++ [r]
      dropped := box.dropped + 1
      sent := box.sent
      history := box.history ++ [r]
      bounded := by simp [full, pendingMax]
      complete := by simp }
  else
    { pending := box.pending ++ [r]
      dropped := box.dropped
      sent := box.sent
      history := box.history ++ [r]
      bounded := by
        have := box.bounded
        simp only [length_append, length_singleton]
        omega
      complete := fun none => by
        rw [← box.complete none, append_assoc] }

/-- The socket takes `written` of the waiting records. -/
def flush (written : Nat) (box : Outbox) : Outbox where
  pending := box.pending.drop written
  dropped := box.dropped
  sent := box.sent ++ box.pending.take written
  history := box.history
  bounded := by
    have := box.bounded
    simp only [length_drop]
    omega
  complete := fun none => by
    rw [append_assoc, take_append_drop, box.complete none]

@[simp]
theorem push_history (r : Report) (box : Outbox) : (box.push r).history = box.history ++ [r] := by
  unfold push
  split <;> rfl

@[simp]
theorem flush_history (written : Nat) (box : Outbox) :
    (box.flush written).history = box.history := rfl

end Outbox

structure Supervisor where
  svc : Nat → Svc
  (count addrCount : Nat)
  shuttingDown : Bool
  exitCode : Int
  outbox : Outbox
  effects : List Effect
  (controlOpen finished : Bool)

namespace Supervisor

def modSvc (idx : Nat) (change : Svc → Svc) (st : Supervisor) : Supervisor :=
  { st with svc := fun j => if j = idx then change (st.svc j) else st.svc j }

def emit (effect : Effect) (st : Supervisor) : Supervisor :=
  { st with effects := st.effects ++ [effect] }

end Supervisor

open Supervisor

def report (service : Int) (event : Event) (a b : Int) (st : Supervisor) : Supervisor :=
  { st with outbox := st.outbox.push ⟨service, event, a, b⟩ }

/-- `report_flush` when the socket takes `written` of the waiting records. -/
def reportFlush (written : Nat) (st : Supervisor) : Supervisor :=
  { st with outbox := st.outbox.flush written }

/-- The fields `start_service` sets once `fork` has returned a child. -/
def Svc.spawned (pid : Pid) (clock : Int) (s : Svc) : Svc :=
  { s with
    pid := pid.val
    state := .starting
    stopSentAt := 0
    killed := false
    probePid := 0
    probeAddrIdx := 0
    probeFd := false
    probeDeadline := clock + (if s.decl.readyTimeoutSeconds > 0 then s.decl.readyTimeoutSeconds
        else 30) * 1000 }

/-- The fields `start_service` sets when `fork` fails. -/
def Svc.spawnFailed (s : Svc) : Svc :=
  { s with
    state := .failed
    exitKind := exitKindExited
    exitValue := 126 }

def Svc.withState (state : SvcState) (s : Svc) : Svc :=
  { s with state := state }

def startService (env : Env) (idx : Nat) (st : Supervisor) : Supervisor :=
  let st := report idx .starting 0 0 st
  match env.fork idx with
  | .error errno =>
    let st := st.modSvc idx Svc.spawnFailed
    report idx .failed failSpawn (-errno) { st with exitCode := 126 }
  | .child pid =>
    let st := (st.emit (.fork idx pid)).modSvc idx
      (Svc.spawned pid (env.clock idx))
    let st := report idx .started pid.val 0 st
    if (st.svc idx).decl.readyKind = readyNone then
      report idx .ready 0 0 (st.modSvc idx (Svc.withState .ready))
    else st

/-- The second half of `probe_tcp`: ask about the connect in flight. -/
def probeTcpPoll (answer : ConnectPoll) (s : Svc) : Bool × Svc :=
  match answer with
  | .quiet => (false, s)
  | .hangup => (false, { s with probeFd := false })
  | .notWritable => (false, s)
  | .failed => (false, { s with probeFd := false })
  | .connected => (true, { s with probeFd := false })

def probeTcp (answer : TcpAnswer) (s : Svc) : Bool × Svc :=
  if s.probeFd then probeTcpPoll answer.poll s
  else if !answer.socket then (false, s)
  else
    match answer.connect with
    | .connected => (true, s)
    | .refused => (false, s)
    | .inProgress => probeTcpPoll answer.poll { s with probeFd := true }

/-- The TCP arm of `probe_service`: one candidate address a turn, and the next
one only after an attempt has concluded. -/
def probeTcpRotate (addrCount : Nat) (answer : TcpAnswer) (s : Svc) : Bool × Svc :=
  let candidates := 1 + addrCount
  let s := if s.probeAddrIdx ≥ candidates then
      { s with probeAddrIdx := 0 } else s
  let (ready, s) := probeTcp answer s
  if !ready && !s.probeFd then
    (ready, { s with probeAddrIdx :=
      if s.probeAddrIdx + 1 ≥ candidates then 0 else s.probeAddrIdx + 1 })
  else (ready, s)

def probeCommandSpawn (env : Env) (idx : Nat) (st : Supervisor) :
    Supervisor :=
  match env.probeFork idx with
  | .error _ => st
  | .child pid =>
    st.modSvc idx fun s =>
      { s with
        probePid := pid.val
        probePidDeadline := env.clock idx + 5000 }

/-- The end of `probe_service`, which every kind but a command reaches. -/
def probeSettle (idx : Nat) (now : Int) (ready : Bool) (st : Supervisor) :
    Supervisor :=
  if ready then
    report idx .ready 0 0 (st.modSvc idx (Svc.withState .ready))
  else if now ≥ (st.svc idx).probeDeadline then
    let st := report idx .failed failProbe 0 st
    let st := st.modSvc idx fun s =>
      { s with probeFd := false, state := .ready }
    report idx .ready 1 0 st
  else st

def probeService (env : Env) (idx : Nat) (now : Int) (st : Supervisor) :
    Supervisor :=
  let s := st.svc idx
  if s.decl.readyKind = readyTcp then
    let answer := probeTcpRotate st.addrCount (env.tcp idx) s
    probeSettle idx now answer.1 (st.modSvc idx fun _ => answer.2)
  else if s.decl.readyKind = readySocket then
    probeSettle idx now (env.unix idx) st
  else if s.decl.readyKind = readyCommand then
    if s.probePid = 0 then probeCommandSpawn env idx st
    else if now ≥ s.probePidDeadline then st.emit (.probeKill idx)
    else st
  else probeSettle idx now false st

def depReady (d : Svc) : Bool :=
  if d.decl.type = typeOneshot then
    d.state = .exited && d.exitKind = exitKindExited && d.exitValue = 0
  else d.state = .ready

def depDead (d : Svc) : Bool :=
  d.state = .failed || d.state = .stopped || (d.state = .exited && !depReady d)

/-- The answers of `deps_satisfied`: `dead` carries `*dead_dep`. -/
inductive DepStatus where
  | satisfied
  | waiting
  | dead (dep : Nat)
  deriving DecidableEq, Repr

def depsScan (svc : Nat → Svc) (mask : Nat) : List Nat → DepStatus
  | [] => .satisfied
  | j :: rest =>
    if mask.testBit j = false then depsScan svc mask rest
    else if depDead (svc j) then .dead j
    else if !depReady (svc j) then .waiting
    else depsScan svc mask rest

def depsSatisfied (st : Supervisor) (idx : Nat) : DepStatus :=
  depsScan st.svc (st.svc idx).decl.afterMask (List.range idx)

def hasRunningDependent (st : Supervisor) (idx : Nat) : Bool :=
  (List.range st.count).any fun j =>
    idx < j && 0 < (st.svc j).pid && (st.svc j).decl.afterMask.testBit idx

def sendStop (idx : Nat) (now : Int) (st : Supervisor) : Supervisor :=
  let s := st.svc idx
  if s.pid = 0 ∨ s.stopSentAt ≠ 0 then st
  else
    (st.emit (.stop idx s.decl.stopSignal)).modSvc idx fun s =>
      { s with stopSentAt := now }

def escalateStop (idx : Nat) (now : Int) (st : Supervisor) : Supervisor :=
  let s := st.svc idx
  let timeoutMs := (if s.decl.stopTimeoutSeconds > 0 then
    s.decl.stopTimeoutSeconds else 10) * 1000
  if s.pid = 0 ∨ s.stopSentAt = 0 ∨ s.killed = true then st
  else if now - s.stopSentAt ≥ timeoutMs then
    (st.emit (.kill idx)).modSvc idx fun s => { s with killed := true }
  else st

def Svc.retired (s : Svc) : Svc :=
  if s.state = .pending ∨ s.state = .restartWait then
    { s with state := .exited } else s

def retireOne (idx : Nat) (st : Supervisor) : Supervisor :=
  let st := st.modSvc idx Svc.retired
  if 0 < (st.svc idx).probePid then st.emit (.probeKill idx) else st

def beginShutdown (exitCode : Int) (st : Supervisor) : Supervisor :=
  if st.shuttingDown then st
  else
    let st := { st with shuttingDown := true, exitCode := exitCode }
    forUp st.count retireOne (report (-1) .shutdown 0 0 st)

def mappedStatus (s : Svc) : Int :=
  if s.exitKind = exitKindExited then s.exitValue else 128 + s.exitValue

/-- The fields `service_exited` resets before it decides what follows. -/
def Svc.reaped (kind value : Int) (s : Svc) : Svc :=
  { s with
    pid := 0
    exitKind := kind
    exitValue := value
    stopSentAt := 0
    killed := false
    probePid := 0
    probeFd := false }

/-- The delayed respawn of an `on_exit: restart` daemon. -/
def Svc.awaitRestart (now : Int) (s : Svc) : Svc :=
  { s with
    state := .restartWait
    restartAt := now + (if s.decl.restartDelaySeconds > 0 then
      s.decl.restartDelaySeconds else 1) * 1000
    restarts := s.restarts + 1 }

/-- What `service_exited` decides for a service that was neither being
restarted nor stopped by an operator. -/
def exitPolicy (idx : Nat) (kind value now : Int) (st : Supervisor) :
    Supervisor :=
  let s := st.svc idx
  if s.decl.type = typeOneshot then
    if kind = exitKindExited ∧ value = 0 then
      st.modSvc idx (Svc.withState .exited)
    else
      let st := report idx .failed failOneshot (mappedStatus s) st
      if s.decl.onExit = onExitFailContainer then
        beginShutdown (mappedStatus s) st
      else st.modSvc idx (Svc.withState .failed)
  else if s.decl.onExit = onExitRestart then
    let st := st.modSvc idx (Svc.awaitRestart now)
    report idx .restartIn (((st.svc idx).restartAt - now) / 1000) (st.svc idx).restarts st
  else if s.decl.onExit = onExitFailContainer then
    beginShutdown (mappedStatus s) st
  else st.modSvc idx (Svc.withState .exited)

def serviceExited (idx : Nat) (kind value now : Int) (st : Supervisor) :
    Supervisor :=
  let st := if 0 < (st.svc idx).probePid then st.emit (.probeKill idx)
    else st
  let st := report idx .exited kind value
    (st.modSvc idx (Svc.reaped kind value))
  if st.shuttingDown then st.modSvc idx (Svc.withState .exited)
  else
    let st := { st with exitCode := mappedStatus (st.svc idx) }
    if (st.svc idx).restartAfterStop then
      st.modSvc idx fun s =>
        { s with restartAfterStop := false, state := .pending }
    else if (st.svc idx).operatorStopped then
      report idx .stopped 0 0 (st.modSvc idx (Svc.withState .stopped))
    else exitPolicy idx kind value now st

/-- What `wait4`'s status says: the exit kind and value, or `none` for a child
that was stopped rather than ended. -/
def exitOfStatus (status : Nat) : Option (Int × Int) :=
  if status &&& 0x7f = 0 then
    some (exitKindExited, ((status >>> 8) &&& 0xff : Nat))
  else if status &&& 0x7f ≠ 0x7f then
    some (if status &&& 0x80 ≠ 0 then exitKindDumped else exitKindKilled, (status &&& 0x7f : Nat))
  else none

/-- One round of `reap_all`. -/
def reapOne (pid : Pid) (status : Nat) (now : Int) (st : Supervisor) :
    Supervisor :=
  match (List.range st.count).find? fun i =>
      (st.svc i).pid = pid.val || (st.svc i).probePid = pid.val with
  | none => st
  | some i =>
    if (st.svc i).pid = pid.val then
      match exitOfStatus status with
      | some (kind, value) => serviceExited i kind value now st
      | none => st
    else
      let st := st.modSvc i fun s => { s with probePid := 0 }
      if (st.svc i).state = .starting ∧ status = 0 then
        report i .ready 0 0 (st.modSvc i (Svc.withState .ready))
      else st

def handleStart (idx : Nat) (st : Supervisor) : Supervisor :=
  st.modSvc idx fun s =>
    if s.pid = 0 ∧ s.state ≠ .pending then
      { s with
        operatorStopped := false
        state := .pending
        restartAfterStop := false }
    else { s with operatorStopped := false }

def handleStop (idx : Nat) (now : Int) (st : Supervisor) : Supervisor :=
  let st := st.modSvc idx fun s =>
    { s with operatorStopped := true, restartAfterStop := false }
  if 0 < (st.svc idx).pid then sendStop idx now st
  else if (st.svc idx).state ≠ .stopped then
    report idx .stopped 0 0 (st.modSvc idx (Svc.withState .stopped))
  else st

def handleRestart (idx : Nat) (now : Int) (st : Supervisor) : Supervisor :=
  let st := st.modSvc idx fun s => { s with operatorStopped := false }
  if 0 < (st.svc idx).pid then
    sendStop idx now (st.modSvc idx fun s =>
      { s with restartAfterStop := true })
  else st.modSvc idx (Svc.withState .pending)

def handleCommand (c : Command) (now : Int) (st : Supervisor) :
    Supervisor :=
  if c.magic ≠ magic then st
  else if c.op = opShutdown then beginShutdown 0 st
  else if c.service < 0 ∨ c.service ≥ st.count then st
  else if c.op = opStart then handleStart c.service.toNat st
  else if c.op = opStop then handleStop c.service.toNat now st
  else if c.op = opRestart then handleRestart c.service.toNat now st
  else st

/-- The `ST_PENDING` case of `schedule`. -/
def schedulePending (env : Env) (idx : Nat) (st : Supervisor) :
    Supervisor :=
  if (st.svc idx).operatorStopped then st
  else
    match depsSatisfied st idx with
    | .satisfied => startService env idx st
    | .waiting => st
    | .dead dep =>
      let st := report idx .failed failDependency dep
        (st.modSvc idx (Svc.withState .failed))
      if (st.svc idx).decl.onExit = onExitFailContainer then
        beginShutdown (if (st.svc dep).state = .failed then
          mappedStatus (st.svc dep) else 1) st
      else st

/-- One iteration of the loop in `schedule`. -/
def scheduleOne (env : Env) (now : Int) (idx : Nat) (st : Supervisor) :
    Supervisor :=
  match (st.svc idx).state with
  | .pending => schedulePending env idx st
  | .restartWait => if now ≥ (st.svc idx).restartAt then startService env idx st else st
  | .starting =>
    escalateStop idx now (if (st.svc idx).stopSentAt = 0 then probeService env idx now st
        else st)
  | .ready => escalateStop idx now st
  | _ => st

/-- `schedule` after `n` iterations of its loop. -/
def scheduleUpTo (env : Env) (now : Int) (n : Nat) (st : Supervisor) :
    Supervisor :=
  forUp n (scheduleOne env now) st

def schedule (env : Env) (now : Int) (st : Supervisor) : Supervisor :=
  scheduleUpTo env now st.count st

/-- One iteration of the loop in `shutdown_step`. -/
def shutdownOne (now : Int) (idx : Nat) (st : Supervisor) : Supervisor :=
  if (st.svc idx).pid = 0 then st
  else if hasRunningDependent st idx then st
  else escalateStop idx now (sendStop idx now st)

def shutdownStep (now : Int) (st : Supervisor) : Supervisor :=
  forDown st.count (shutdownOne now) st

def serviceLeft (st : Supervisor) (idx : Nat) : Bool :=
  let s := st.svc idx
  if 0 < s.pid ∨ s.state = .restartWait then true
  else if s.state = .pending ∧ s.operatorStopped = false then
    match depsSatisfied st idx with
    | .dead _ => false
    | _ => true
  else false

def anythingLeft (st : Supervisor) : Bool :=
  (List.range st.count).any (serviceLeft st)

def finish (written : Nat) (st : Supervisor) : Supervisor :=
  { reportFlush written st with finished := true }

def supervise (env : Env) (now : Int) (st : Supervisor) : Supervisor :=
  if st.shuttingDown then
    let st := shutdownStep now st
    if anythingLeft st then st
    else finish env.written (report (-1) .shutdown 1 0 st)
  else
    let st := schedule env now st
    if anythingLeft st then st else finish env.written st

/-- One read of `drain_control`. -/
inductive ControlMsg where
  | command (c : Command)
  | unexpectedSize
  | closed
  deriving DecidableEq, Repr

def drainOne (message : ControlMsg) (now : Int) (st : Supervisor) :
    Supervisor :=
  if st.controlOpen then
    match message with
    | .command c => handleCommand c now st
    | .unexpectedSize => st
    | .closed => { st with controlOpen := false }
  else st

inductive Action where
  | reap (pid : Pid) (status : Nat) (now : Int)
  | sigterm
  | control (message : ControlMsg) (now : Int)
  | supervise (env : Env) (now : Int)
  | flush (written : Nat)

def step (st : Supervisor) (action : Action) : Supervisor :=
  if st.finished then st
  else
    match action with
    | .reap pid status now => reapOne pid status now st
    | .sigterm => beginShutdown 0 st
    | .control message now => drainOne message now st
    | .supervise env now => supervise env now st
    | .flush written => reportFlush written st

structure Turn where
  now : Int
  reaped : List (Pid × Nat)
  sigterm : Bool
  control : List ControlMsg
  env : Env
  written : Nat

def Turn.actions (turn : Turn) : List Action :=
  turn.reaped.map (fun child => .reap child.1 child.2 turn.now) ++
    (if turn.sigterm then [.sigterm] else []) ++
    turn.control.map (fun message => .control message turn.now) ++
    [.supervise turn.env turn.now, .flush turn.written]

/-- A service as `read_table` leaves it. -/
def Svc.initial (decl : ServiceRecord) : Svc where
  decl := decl
  state := .pending
  pid := 0
  probeDeadline := 0
  probePid := 0
  probePidDeadline := 0
  probeFd := false
  probeAddrIdx := 0
  restartAt := 0
  stopSentAt := 0
  killed := false
  operatorStopped := false
  restartAfterStop := false
  exitKind := 0
  exitValue := 0
  restarts := 0

/-- A record of zero bytes: what `g_svc` holds beyond the table. -/
def ServiceRecord.zero : ServiceRecord where
  name := Buffer.zero nameMax
  argv := Buffer.zero argvMax
  type := 0
  afterMask := 0
  readyKind := 0
  readyPort := 0
  readyTimeoutSeconds := 0
  readyPath := Buffer.zero pathMax
  onExit := 0
  restartDelaySeconds := 0
  stopSignal := 0
  stopTimeoutSeconds := 0
  uid := 0
  gid := 0

structure Table where
  records : List ServiceRecord
  addrCount : Nat
  nonempty : 1 ≤ records.length
  bounded : records.length ≤ maxServices
  valid : ∀ i, (h : i < records.length) → validateService i records[i] = .ok ()

def Table.record (table : Table) (idx : Nat) : ServiceRecord :=
  table.records.getD idx ServiceRecord.zero

def boot (table : Table) : Supervisor :=
  report (-1) .up 3 table.records.length
    { svc := fun i => Svc.initial (table.record i)
      count := table.records.length
      addrCount := table.addrCount
      shuttingDown := false
      exitCode := 0
      outbox := Outbox.empty
      effects := []
      controlOpen := true
      finished := false }

end Cix.Init
