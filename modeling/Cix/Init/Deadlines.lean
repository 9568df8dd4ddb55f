import Cix.Init.Agreement

/-!
# Readiness probes and their deadline

`probe_service` ends a probe in one of two ways: the probe answers, or its
deadline has come and the service is treated as ready all the same.  Every
readiness kind but one reaches the test of the deadline; a command probe
returns before it.
-/

namespace Cix.Init

open Cix.Lib Supervisor

variable {idx : Nat} {st : Supervisor}

def probeAnswer (env : Env) (idx : Nat) (st : Supervisor) : Bool :=
  let s := st.svc idx
  if s.decl.readyKind = readyTcp then
    (probeTcpRotate st.addrCount (env.tcp idx) s).1
  else if s.decl.readyKind = readySocket then env.unix idx
  else false

def probeVerdict (idx : Nat) (answered : Bool) : List Report :=
  if answered then [⟨idx, .ready, 0, 0⟩]
  else [⟨idx, .failed, failProbe, 0⟩, ⟨idx, .ready, 1, 0⟩]

/-- The call takes the service to `ST_READY` and reports the failed probe,
unless the probe answers in this very call. -/
structure TimesOut (env : Env) (idx : Nat) (now : Int)
    (st : Supervisor) : Prop where
  ready : ((probeService env idx now st).svc idx).state = .ready
  reported : (probeService env idx now st).outbox.history =
    st.outbox.history ++ probeVerdict idx (probeAnswer env idx st)

theorem probeTcpPoll_deadline (answer : ConnectPoll) (s : Svc) :
    (probeTcpPoll answer s).2.probeDeadline = s.probeDeadline := by
  cases answer <;> rfl

theorem probeTcp_deadline (answer : TcpAnswer) (s : Svc) :
    (probeTcp answer s).2.probeDeadline = s.probeDeadline := by
  unfold probeTcp
  split
  · exact probeTcpPoll_deadline _ _
  · split
    · rfl
    · cases answer.connect with
      | connected => rfl
      | refused => rfl
      | inProgress => exact probeTcpPoll_deadline _ _

theorem probeTcpRotate_deadline (addrCount : Nat) (answer : TcpAnswer) (s : Svc) :
    (probeTcpRotate addrCount answer s).2.probeDeadline =
      s.probeDeadline := by
  unfold probeTcpRotate
  dsimp only
  have bounded : (if s.probeAddrIdx ≥ 1 + addrCount then
      { s with probeAddrIdx := 0 } else s).probeDeadline =
        s.probeDeadline := by
    split <;> rfl
  have probed := (probeTcp_deadline answer _).trans bounded
  generalize probeTcp answer _ = outcome at probed ⊢
  by_cases concluded : (!outcome.1 && !outcome.2.probeFd) = true
  · rw [if_pos concluded]
    exact probed
  · rw [if_neg concluded]
    exact probed

variable {now : Int}

theorem probeSettle_due {idx : Nat} {st : Supervisor}
    (due : (st.svc idx).probeDeadline ≤ now) (ready : Bool) :
    ((probeSettle idx now ready st).svc idx).state = .ready ∧
      (probeSettle idx now ready st).outbox.history =
        st.outbox.history ++ probeVerdict idx ready := by
  unfold probeSettle probeVerdict
  cases ready with
  | true => simp [Svc.withState]
  | false => simp [due]

theorem probeService_due {env : Env} (due : (st.svc idx).probeDeadline ≤ now)
    (notCommand : (st.svc idx).decl.readyKind ≠ readyCommand) :
    TimesOut env idx now st := by
  have settled : ∀ (after : Supervisor) (answered : Bool), (after.svc idx).probeDeadline ≤ now →
      after.outbox = st.outbox →
      probeService env idx now st = probeSettle idx now answered after →
      probeAnswer env idx st = answered → TimesOut env idx now st := by
    intro after answered stillDue quiet equal answer
    obtain ⟨ready, reported⟩ := probeSettle_due stillDue answered
    rw [quiet] at reported
    constructor
    · rw [equal, ready]
    · rw [equal, answer, reported]
  by_cases tcp : (st.svc idx).decl.readyKind = readyTcp
  · apply settled (st.modSvc idx fun _ =>
      (probeTcpRotate st.addrCount (env.tcp idx) (st.svc idx)).2)
      (probeTcpRotate st.addrCount (env.tcp idx) (st.svc idx)).1
    · rw [modSvc_svc, if_pos rfl, probeTcpRotate_deadline]
      exact due
    · rfl
    · simp [probeService, tcp]
    · simp [probeAnswer, tcp]
  · by_cases socket : (st.svc idx).decl.readyKind = readySocket
    · apply settled st (env.unix idx) due rfl
      · simp [probeService, socket, readySocket, readyTcp]
      · simp [probeAnswer, socket, readySocket, readyTcp]
    · apply settled st false due rfl
      · simp [probeService, tcp, socket, notCommand]
      · simp [probeAnswer, tcp, socket]

theorem probeService_command (env : Env) (now : Int)
    (command : (st.svc idx).decl.readyKind = readyCommand) :
    ((probeService env idx now st).svc idx).state = (st.svc idx).state ∧
      ((probeService env idx now st).svc idx).stopSentAt = (st.svc idx).stopSentAt := by
  have shape : probeService env idx now st =
      if (st.svc idx).probePid = 0 then probeCommandSpawn env idx st
      else if now ≥ (st.svc idx).probePidDeadline then
        st.emit (.probeKill idx)
      else st := by
    simp [probeService, command, readyCommand, readySocket, readyTcp]
  rw [shape]
  split
  · unfold probeCommandSpawn
    cases env.probeFork idx with
    | error errno => exact ⟨rfl, rfl⟩
    | child pid => exact ⟨by simp, by simp⟩
  · split <;> exact ⟨rfl, rfl⟩

theorem timesOut_iff {env : Env} (starting : (st.svc idx).state = .starting)
    (due : (st.svc idx).probeDeadline ≤ now) :
    TimesOut env idx now st ↔ (st.svc idx).decl.readyKind ≠ readyCommand := by
  constructor
  · intro timesOut command
    have unchanged := (probeService_command env now command).1
    rw [timesOut.ready, starting] at unchanged
    exact absurd unchanged (by decide)
  · exact probeService_due due

variable {other : Nat}

theorem modSvc_svc_of_ne (apart : other ≠ idx) (change : Svc → Svc)
    (st : Supervisor) : (st.modSvc idx change).svc other = st.svc other := by
  rw [modSvc_svc, if_neg apart]

theorem startService_other (env : Env) {idx other : Nat} (apart : other ≠ idx) (st : Supervisor) :
    (startService env idx st).svc other = st.svc other := by
  unfold startService
  dsimp only
  cases env.fork idx with
  | error errno => simp [apart]
  | child pid =>
    dsimp only
    split <;> simp [apart]

theorem escalateStop_other (apart : other ≠ idx) (now : Int) (st : Supervisor) :
    (escalateStop idx now st).svc other = st.svc other := by
  rcases escalateStop_cases idx now st with same | killed
  · rw [same]
  · rw [killed, modSvc_svc_of_ne apart, emit_svc]

theorem probeSettle_other (apart : other ≠ idx) (now : Int) (ready : Bool) (st : Supervisor) :
    (probeSettle idx now ready st).svc other = st.svc other := by
  unfold probeSettle
  split
  · simp [apart]
  · split <;> simp [apart]

theorem probeService_other (env : Env) (apart : other ≠ idx) (now : Int) (st : Supervisor) :
    (probeService env idx now st).svc other = st.svc other := by
  unfold probeService
  dsimp only
  split
  · rw [probeSettle_other apart, modSvc_svc_of_ne apart]
  · split
    · exact probeSettle_other apart now _ st
    · split
      · split
        · unfold probeCommandSpawn
          cases env.probeFork idx with
          | error errno => rfl
          | child pid => exact modSvc_svc_of_ne apart _ st
        · split <;> rfl
      · exact probeSettle_other apart now _ st

/-- The states that `begin_shutdown` leaves alone. -/
def SvcState.Engaged (state : SvcState) : Prop :=
  state ≠ .pending ∧ state ≠ .restartWait

theorem Svc.retired_of_engaged {s : Svc} (engaged : s.state.Engaged) : s.retired = s := by
  unfold Svc.retired
  rw [if_neg (not_or.mpr ⟨engaged.1, engaged.2⟩)]

theorem beginShutdown_engaged (code : Int) {st : Supervisor} {other : Nat}
    (engaged : (st.svc other).state.Engaged) :
    (beginShutdown code st).svc other = st.svc other := by
  cases down : st.shuttingDown with
  | true => rw [beginShutdown_of_shuttingDown code st down]
  | false =>
    rw [beginShutdown_svc code st down, Svc.retired_of_engaged engaged, ite_self]

theorem schedulePending_other (env : Env) (apart : other ≠ idx)
    (engaged : (st.svc other).state.Engaged) :
    (schedulePending env idx st).svc other = st.svc other := by
  unfold schedulePending
  split
  · rfl
  · split
    · exact startService_other env apart st
    · rfl
    next dep _ =>
      have reported : (report idx .failed failDependency dep
          (st.modSvc idx (Svc.withState .failed))).svc other =
            st.svc other := by
        simp [apart]
      dsimp only
      split
      · rw [beginShutdown_engaged _ (by rw [reported]; exact engaged), reported]
      · exact reported

theorem scheduleOne_other (env : Env) (now : Int) (apart : other ≠ idx)
    (engaged : (st.svc other).state.Engaged) :
    (scheduleOne env now idx st).svc other = st.svc other := by
  unfold scheduleOne
  split
  · exact schedulePending_other env apart engaged
  · split
    · exact startService_other env apart st
    · rfl
  · rw [escalateStop_other apart]
    split
    · exact probeService_other env apart now st
    · rfl
  · exact escalateStop_other apart now st
  · rfl

def probeOutcome (readyKind : Int) : SvcState :=
  if readyKind = readyCommand then .starting else .ready

theorem probeOutcome_engaged (readyKind : Int) : (probeOutcome readyKind).Engaged := by
  unfold probeOutcome SvcState.Engaged
  split <;> decide

theorem escalateStop_state (idx : Nat) (now : Int) (st : Supervisor) :
    ((escalateStop idx now st).svc idx).state = (st.svc idx).state := by
  rcases escalateStop_cases idx now st with same | killed
  · rw [same]
  · simp [killed]

theorem scheduleOne_overdue (env : Env) (starting : (st.svc idx).state = .starting)
    (unstopped : (st.svc idx).stopSentAt = 0)
    (due : (st.svc idx).probeDeadline ≤ now) :
    ((scheduleOne env now idx st).svc idx).state = probeOutcome (st.svc idx).decl.readyKind := by
  unfold scheduleOne
  rw [starting]
  dsimp only
  rw [if_pos unstopped, escalateStop_state]
  unfold probeOutcome
  split
  next command => rw [(probeService_command env now command).1, starting]
  next other => exact (probeService_due due other).ready

structure Overdue (idx : Nat) (now : Int) (st : Supervisor) : Prop where
  listed : idx < st.count
  starting : (st.svc idx).state = .starting
  unstopped : (st.svc idx).stopSentAt = 0
  due : (st.svc idx).probeDeadline ≤ now

/-- A service in the course of a pass: untouched before its own turn, decided
by it, and untouched after it. -/
structure PassPart (idx : Nat) (st : Supervisor) (n : Nat)
    (current : Supervisor) : Prop where
  before : n ≤ idx → current.svc idx = st.svc idx
  after : idx < n → (current.svc idx).state = probeOutcome (st.svc idx).decl.readyKind

theorem Overdue.scheduleOne {idx i : Nat}
    {st current : Supervisor} (overdue : Overdue idx now st) (env : Env)
    (part : PassPart idx st i current) :
    PassPart idx st (i + 1) (scheduleOne env now i current) := by
  rcases Nat.lt_trichotomy i idx with early | here | late
  · have same := part.before early.le
    refine ⟨fun _ => ?_, fun past => absurd past (by omega)⟩
    rw [scheduleOne_other env now (Nat.ne_of_gt early), same]
    rw [same, overdue.starting]
    exact ⟨by decide, by decide⟩
  · subst here
    have same := part.before le_rfl
    refine ⟨fun past => absurd past (by omega), fun _ => ?_⟩
    rw [← same]
    apply scheduleOne_overdue env
    · rw [same, overdue.starting]
    · rw [same, overdue.unstopped]
    · rw [same]
      exact overdue.due
  · have outcome := part.after late
    refine ⟨fun past => absurd past (by omega), fun _ => ?_⟩
    rw [scheduleOne_other env now (Nat.ne_of_lt late), outcome]
    rw [outcome]
    exact probeOutcome_engaged _

theorem Overdue.schedule {idx : Nat} {st : Supervisor}
    (overdue : Overdue idx now st) (env : Env) :
    ((schedule env now st).svc idx).state = probeOutcome (st.svc idx).decl.readyKind := by
  have pass : PassPart idx st st.count (Cix.Init.schedule env now st) :=
    forUp_invariant (PassPart idx st) (fun i current _ part => overdue.scheduleOne env part)
      ⟨fun _ => rfl, fun past => absurd past (Nat.not_lt_zero _)⟩
  exact pass.after overdue.listed

theorem finish_svc (written : Nat) (st : Supervisor) : (finish written st).svc = st.svc := rfl

theorem Overdue.supervise (overdue : Overdue idx now st)
    (up : st.shuttingDown = false) (unfinished : st.finished = false)
    (env : Env) :
    ((step st (.supervise env now)).svc idx).state = probeOutcome (st.svc idx).decl.readyKind := by
  rw [← overdue.schedule env]
  unfold step Cix.Init.supervise
  simp only [unfinished, up, Bool.false_eq_true, if_false]
  split
  · rfl
  · rw [finish_svc]

/-- For a service that is starting and not being stopped: a call of
`probe_service` past its deadline times it out, and a turn of the main loop
past its deadline takes it out of `ST_STARTING`, exactly when its readiness
is not a command's. -/
theorem probe_timeout_iff (st : Supervisor) (idx : Nat) (starting : (st.svc idx).state = .starting)
    (unstopped : (st.svc idx).stopSentAt = 0) :
    (∀ env now, (st.svc idx).probeDeadline ≤ now → (TimesOut env idx now st ↔
          (st.svc idx).decl.readyKind ≠ readyCommand)) ∧
      (idx < st.count → st.shuttingDown = false → st.finished = false →
        ∀ env now, (st.svc idx).probeDeadline ≤ now →
          (((step st (.supervise env now)).svc idx).state ≠ .starting ↔
            (st.svc idx).decl.readyKind ≠ readyCommand)) := by
  refine ⟨fun env now due => timesOut_iff starting due, ?_⟩
  intro listed up unfinished env now due
  have overdue : Overdue idx now st := ⟨listed, starting, unstopped, due⟩
  rw [overdue.supervise up unfinished env]
  unfold probeOutcome
  split
  next command => simp [command]
  next other => simp [other]

def commandTable : Table where
  records :=
    [{ plainRecord typeDaemon 0 readyCommand onExitStop with
      readyPath := Buffer.ofPrefix pathMax [47, 97, 0] }]
  addrCount := 0
  nonempty := by decide
  bounded := by decide
  valid := by decide +kernel

def probeChild : Pid := ⟨200, by omega, by omega⟩

def probingEnv : Env :=
  { plainEnv with probeFork := fun _ => .child probeChild }

def failedProbe (now : Int) : Turn :=
  ⟨now, [(probeChild, 0x100)], false, [], probingEnv, 0⟩

def commandRun (turns : Nat) : List Action :=
  (plainTurn 0 [] false []).actions ++ (Turn.mk 0 [] false [] probingEnv 0).actions ++
    (List.range turns).flatMap fun i : Nat =>
      (failedProbe (30000 + 250 * i)).actions

structure Probing (st : Supervisor) : Prop where
  count : st.count = 1
  up : st.shuttingDown = false
  unfinished : st.finished = false
  starting : (st.svc 0).state = .starting
  unstopped : (st.svc 0).stopSentAt = 0
  command : (st.svc 0).decl.readyKind = readyCommand
  pid : (st.svc 0).pid = 100
  probePid : (st.svc 0).probePid = 200
  deadline : (st.svc 0).probeDeadline = 30000

theorem failedProbe_probing (probing : Probing st) (now : Int) :
    Probing (run step st (failedProbe now).actions) := by
  obtain ⟨count, up, unfinished, starting, unstopped, command, pid, probePid, deadline⟩ := probing
  have reaped : step st (.reap probeChild 0x100 now) =
      st.modSvc 0 fun s => { s with probePid := 0 } := by
    simp [step, reapOne, unfinished, count, probeChild, pid, probePid, List.range_one]
  have supervised : step (st.modSvc 0 fun s => { s with probePid := 0 })
      (.supervise probingEnv now) =
      (st.modSvc 0 fun s => { s with probePid := 0 }).modSvc 0 fun s =>
        { s with probePid := 200, probePidDeadline := 5000 } := by
    simp [step, supervise, schedule, scheduleUpTo, forUp, scheduleOne,
      probeService, probeCommandSpawn, escalateStop, anythingLeft,
      serviceLeft, unfinished, up, count, starting, unstopped, command,
      pid, probeChild, probingEnv, plainEnv, readyTcp, readySocket,
      readyCommand, List.range_one]
  have turn : (failedProbe now).actions =
      [.reap probeChild 0x100 now, .supervise probingEnv now, .flush 0] :=
    rfl
  rw [turn, run_cons, run_cons, run_cons, run_nil, reaped, supervised]
  constructor <;>
    simp [step, reportFlush, count, up, unfinished, starting, unstopped, command, pid, deadline]

theorem failedProbes_probing {rounds : List Nat} {st : Supervisor} (probing : Probing st) :
    Probing (run step st (rounds.flatMap fun i : Nat =>
      (failedProbe (30000 + 250 * i)).actions)) := by
  induction rounds generalizing st with
  | nil => exact probing
  | cons i rest ih =>
    rw [List.flatMap_cons, run_append]
    exact ih (failedProbe_probing probing _)

theorem commandRun_probing (turns : Nat) :
    Probing (run step (boot commandTable) (commandRun turns)) := by
  unfold commandRun
  rw [run_append]
  apply failedProbes_probing
  constructor <;> decide +kernel

/-- However many turns pass after its deadline, the service is starting, and
a call of `probe_service` does not time its probe out. -/
theorem command_never_times_out : (∀ turns, ((run step (boot commandTable)
        (commandRun turns)).svc 0).state = .starting) ∧
      ((run step (boot commandTable) (commandRun 1)).svc 0).probeDeadline = 30000 ∧
      ¬ TimesOut probingEnv 0 30000 (run step (boot commandTable) (commandRun 1)) := by
  refine ⟨fun turns => (commandRun_probing turns).starting,
    (commandRun_probing 1).deadline, fun timesOut => ?_⟩
  have probing := commandRun_probing 1
  have unchanged := (probeService_command probingEnv 30000 probing.command).1
  rw [timesOut.ready, probing.starting] at unchanged
  exact absurd unchanged (by decide)

/-- The equivalences at a service with a TCP probe that is refused. -/
theorem probe_timeout_iff_tcp : (∀ env now, 30000 ≤ now →
      (TimesOut env 0 now (run step (boot fragileTable)
        (plainTurn 0 [] false []).actions) ↔ readyTcp ≠ readyCommand)) ∧
      ∀ env now, 30000 ≤ now → (((step (run step (boot fragileTable)
          (plainTurn 0 [] false []).actions) (.supervise env now)).svc 0).state ≠ .starting ↔
          readyTcp ≠ readyCommand) := by
  have both := probe_timeout_iff (run step (boot fragileTable) (plainTurn 0 [] false []).actions) 0
    (by decide +kernel) (by decide +kernel)
  have deadline : ((run step (boot fragileTable)
      (plainTurn 0 [] false []).actions).svc 0).probeDeadline = 30000 := by
    decide +kernel
  have kind : ((run step (boot fragileTable)
      (plainTurn 0 [] false []).actions).svc 0).decl.readyKind =
        readyTcp := by
    decide +kernel
  rw [deadline, kind] at both
  exact ⟨both.1, both.2 (by decide +kernel) (by decide +kernel) (by decide +kernel)⟩

end Cix.Init
