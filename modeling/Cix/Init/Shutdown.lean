import Cix.Init.Agreement
import Mathlib.Data.List.GetD
import Mathlib.Logic.Relation

/-!
# Shutting down

Two laws of a shutdown.  Once `begin_shutdown` has run, no service should be
armed again, so that the main loop ends when the last process is gone; and a
service should be signalled only after everything that depends on it is gone.
Both hold of a run exactly when the run avoids one kind of step.
-/

namespace Cix.Init

open Cix.Lib Supervisor List

/-! ## No service is armed again -/

variable {st : Supervisor} {table : Table} {idx : Nat}

def Svc.armed (s : Svc) : Prop :=
  s.state = .pending ∨ s.state = .restartWait

def Disarmed (st : Supervisor) : Prop :=
  st.shuttingDown = true → ∀ idx < st.count, ¬ (st.svc idx).armed

theorem Svc.retired_not_armed (s : Svc) : ¬ s.retired.armed := by
  unfold Svc.retired
  split
  next => simp [Svc.armed]
  next other => exact other

theorem SvcMove.not_armed {idx : Nat} {s s' : Svc}
    {reports : List Report} (moved : SvcMove true idx s reports s')
    (disarmed : ¬ s.armed) : ¬ s'.armed := by
  unfold Svc.armed at disarmed ⊢
  cases moved with
  | quiet kin state pid restarts probe =>
    rw [state]
    exact disarmed
  | exitIdle kind value kin state pid restarts probe =>
    rcases state with exited | ⟨_, up⟩
    · simp [exited]
    · exact absurd up (by simp)
  | exitRestart kind value delay kin up free state pid restarts probe =>
    exact absurd up (by simp)
  | spawn _ _ state => simp [state]
  | spawnReady _ _ state => simp [state]
  | spawnFail _ _ _ state => simp [state]
  | becomeReady _ _ _ _ _ state => simp [state]
  | depFail _ _ _ _ state => simp [state]
  | exitStopped _ _ _ state => simp [state]
  | exitFailed _ _ _ _ state => simp [state]

theorem beginShutdown_disarmed (code : Int) {st : Supervisor}
    (disarmed : Disarmed st) : Disarmed (beginShutdown code st) := by
  intro _ idx inTable
  rw [beginShutdown_count] at inTable
  cases down : st.shuttingDown with
  | true =>
    rw [beginShutdown_of_shuttingDown code st down]
    exact disarmed down idx inTable
  | false =>
    rw [beginShutdown_svc code st down, if_pos inTable]
    exact Svc.retired_not_armed _

variable {st' : Supervisor}

theorem Local.disarmed {idx : Nat} {reports : List Report}
    {st : Supervisor} (touched : Local idx reports st st')
    (own : st.shuttingDown = true → idx < st.count → ¬ (st.svc idx).armed → ¬ (st'.svc idx).armed)
    (disarmed : Disarmed st) : Disarmed st' := by
  intro down other inTable
  rw [touched.shuttingDown] at down
  rw [touched.count] at inTable
  by_cases same : other = idx
  · rw [same] at inTable ⊢
    exact own down inTable (disarmed down idx inTable)
  · rw [touched.others other same]
    exact disarmed down other inTable

theorem Calm.disarmed {st : Supervisor} (calm : Calm st st')
    (disarmed : Disarmed st) : Disarmed st' := by
  induction calm with
  | refl => exact disarmed
  | trans _ _ first second => exact second (first disarmed)
  | aux svc count down reports history own dropped =>
    unfold Disarmed
    rw [svc, count, down]
    exact disarmed
  | move idx reports touched moved =>
    apply touched.disarmed _ disarmed
    intro down _ before
    rw [down] at moved
    exact moved.not_armed before
  | shutdown code st => exact beginShutdown_disarmed code disarmed

def Rearms (st : Supervisor) (action : Action) : Prop :=
  ∃ c now idx, action = .control (.command c) now ∧
    st.finished = false ∧ st.shuttingDown = true ∧ st.controlOpen = true ∧
    Addressed c st idx ∧ (c.op = opStart ∨ c.op = opRestart) ∧
    (st.svc idx).pid = 0

theorem step_disarmed {action : Action} (tracked : Tracked table st)
    (disarmed : Disarmed st) (calmly : ¬ Rearms st action) :
    Disarmed (step st action) := by
  rcases step_cases tracked.ready action with
    calm | ⟨c, now, idx, sent, running, opened, addressed, reports, touched, commanded⟩ |
      ⟨pid, status, now, idx, _, _, _, code, middle, reports, equal, up, touched, left⟩
  · exact calm.disarmed disarmed
  · apply touched.disarmed _ disarmed
    intro down _ before
    unfold Svc.armed at before ⊢
    generalize (step st action).svc idx = s' at commanded
    cases commanded with
    | kept decl state pid restarts probe wanted obeyed alive =>
      rw [state]
      exact before
    | armed decl idle state pid restarts probe wanted starts =>
      exact absurd ⟨c, now, idx, sent, running, down, opened, addressed, starts, idle⟩ calmly
    | stopped decl idle state pid restarts probe stops obeyed => simp [state]
  · rw [equal]
    apply beginShutdown_disarmed
    intro down
    rw [touched.shuttingDown, up] at down
    exact absurd down (by simp)

theorem handleCommand_start {c : Command} (addressed : Addressed c st idx)
    (starts : c.op = opStart) (now : Int) :
    handleCommand c now st = handleStart idx st := by
  have inTable := addressed.inTable
  unfold handleCommand
  rw [if_neg (not_not.mpr addressed.magic), if_neg (by rw [starts]; decide),
    if_neg (by rw [addressed.service]; omega), if_pos starts,
    addressed.service]
  rfl

theorem handleCommand_restart {c : Command} (addressed : Addressed c st idx)
    (restarts : c.op = opRestart) (now : Int) :
    handleCommand c now st = handleRestart idx now st := by
  have inTable := addressed.inTable
  unfold handleCommand
  rw [if_neg (not_not.mpr addressed.magic), if_neg (by rw [restarts]; decide),
    if_neg (by rw [addressed.service]; omega),
    if_neg (by rw [restarts]; decide), if_neg (by rw [restarts]; decide),
    if_pos restarts, addressed.service]
  rfl

theorem Commanded.pending_of_idle {op : Int} {idx : Nat} {s s' : Svc}
    {reports : List Report} (commanded : Commanded op idx s reports s')
    (starts : op = opStart ∨ op = opRestart) (idle : s.pid = 0) :
    s'.state = .pending := by
  cases commanded with
  | kept decl state pid restarts probe wanted obeyed alive =>
    rcases alive starts with live | pending
    · omega
    · rw [state, pending]
  | armed decl idle state pid restarts probe wanted starts => exact state
  | stopped decl idle state pid restarts probe stops obeyed =>
    rw [stops] at starts
    exact absurd starts (by decide)

theorem step_of_rearms {action : Action} (rearms : Rearms st action) :
    ¬ Disarmed (step st action) := by
  obtain ⟨c, now, idx, rfl, running, down, opened, addressed, starts, idle⟩ := rearms
  have reduced : step st (.control (.command c) now) =
      handleCommand c now st := by
    rw [step, if_neg (by simp [running])]
    simp [drainOne, opened]
  have command : CommandStep c.op idx st (step st (.control (.command c) now)) := by
    rw [reduced]
    rcases starts with op | op
    · rw [op, handleCommand_start addressed op]
      exact handleStart_command idx st
    · rw [op, handleCommand_restart addressed op]
      exact handleRestart_command idx now st
  obtain ⟨reports, touched, commanded⟩ := command
  intro disarmed
  apply disarmed (touched.shuttingDown.trans down) idx
  · rw [touched.count]
    exact addressed.inTable
  · exact Or.inl (commanded.pending_of_idle starts idle)

/-! ## The main loop ends -/

theorem shutdownStep_of_idle (now : Int) (idle : ∀ idx < st.count, (st.svc idx).pid = 0) :
    shutdownStep now st = st :=
  forDown_invariant (fun _ current => current = st) (fun idx current inTable same => by
      rw [same, shutdownOne, if_pos (idle idx inTable)]) rfl

theorem anythingLeft_of_idle (idle : ∀ idx < st.count, (st.svc idx).pid = 0)
    (disarmed : ∀ idx < st.count, ¬ (st.svc idx).armed) :
    anythingLeft st = false := by
  rw [anythingLeft, any_eq_false]
  intro idx mem
  have inTable : idx < st.count := mem_range.mp mem
  have rest := disarmed idx inTable
  rw [Svc.armed, not_or] at rest
  simp [serviceLeft, idle idx inTable, rest.1, rest.2]

/-- No service is waiting to be started, and once every process is gone the next
turn of the main loop is the last. -/
def StaysDown (st : Supervisor) : Prop :=
  st.shuttingDown = true → (∀ idx < st.count, ¬ (st.svc idx).armed) ∧
    ((∀ idx < st.count, (st.svc idx).pid = 0) → anythingLeft st = false ∧
        ∀ env now, (step st (.supervise env now)).finished = true)

theorem staysDown_iff (st : Supervisor) : StaysDown st ↔ Disarmed st := by
  constructor
  · intro stays down
    exact (stays down).1
  · intro disarmed down
    refine ⟨disarmed down, fun idle => ?_⟩
    have nothing := anythingLeft_of_idle idle (disarmed down)
    refine ⟨nothing, fun env now => ?_⟩
    unfold step
    split
    next ended => exact ended
    next =>
      simp only
      rw [supervise, if_pos down]
      dsimp only
      rw [shutdownStep_of_idle now idle, if_neg (by simp [nothing])]
      rfl

/-- A shutdown stays a shutdown throughout a run exactly when no START or
RESTART for a service without a process is handled during it. -/
theorem staysDown_throughout_iff (table : Table) (actions : List Action) :
    Throughout step StaysDown (boot table) actions ↔
      Guarded step (fun st action => ¬ Rearms st action) (boot table) actions := by
  constructor
  · intro stays before action after equality rearms
    apply step_of_rearms rearms
    rw [← staysDown_iff]
    exact stays.after_step equality
  · intro guarded
    have invariant := Guarded.throughout (fun st => Tracked table st ∧ Disarmed st)
      (fun st action holds calmly => ⟨step_tracked table st action holds.1,
        step_disarmed holds.1 holds.2 calmly⟩)
      ⟨boot_tracked table, fun down => absurd down (by simp [boot])⟩ guarded
    exact invariant.mono fun st holds => (staysDown_iff st).mpr holds.2

def lonelyTable : Table where
  records := [plainRecord typeDaemon 0 readyNone onExitStop]
  addrCount := 0
  nonempty := by decide
  bounded := by decide
  valid := by decide +kernel

def rearmedRun : List Action :=
  [plainTurn 1000 [] false [], plainTurn 2000 [] true [], plainTurn 3000 [(plainPid 0, 0)] false
      [.command ⟨magic, opStart, 0⟩]].flatMap Turn.actions

/-- No process is left, and the main loop goes on. -/
theorem shutdown_rearmed_by_start : ((run step (boot lonelyTable) rearmedRun).shuttingDown = true ∧
      ((run step (boot lonelyTable) rearmedRun).svc 0).state = .pending ∧
      ((run step (boot lonelyTable) rearmedRun).svc 0).pid = 0 ∧
      anythingLeft (run step (boot lonelyTable) rearmedRun) = true ∧
      (run step (boot lonelyTable) rearmedRun).finished = false) ∧
    ¬ Throughout step StaysDown (boot lonelyTable) rearmedRun := by
  refine ⟨by decide +kernel, fun stays => ?_⟩
  have disarmed := (stays.last (by decide +kernel)).1 0 (by decide +kernel)
  exact disarmed (Or.inl (by decide +kernel))

/-! ## What depends on what -/

/-- Service `j` names service `i` in its `after`. -/
def DependsOn (table : Table) (j i : Nat) : Prop :=
  j < table.records.length ∧ (table.record j).afterMask.testBit i = true

theorem Table.record_valid (table : Table)
    (inTable : idx < table.records.length) : Valid idx (table.record idx) := by
  rw [← validateService_ok_iff, Table.record, getD_eq_getElem _ _ inTable]
  exact table.valid idx inTable

/-- In a table that `read_table` accepts the order of the services is an order
of their dependencies, so the table has no cycle. -/
theorem DependsOn.lt {j i : Nat} (depends : DependsOn table j i) : i < j :=
  (table.record_valid depends.1).lt_of_testBit depends.2

def Declared (table : Table) (st : Supervisor) : Prop :=
  ∀ idx, (st.svc idx).decl = table.record idx

theorem SvcMove.kin {down : Bool} {s s' : Svc} {reports : List Report}
    (moved : SvcMove down idx s reports s') : Kin s s' := by
  cases moved <;> assumption

theorem Commanded.decl_eq {op : Int} {s s' : Svc} {reports : List Report}
    (commanded : Commanded op idx s reports s') : s'.decl = s.decl := by
  cases commanded <;> assumption

theorem Local.declared {table : Table} {idx : Nat} {reports : List Report}
    {st : Supervisor} (touched : Local idx reports st st')
    (own : (st'.svc idx).decl = (st.svc idx).decl)
    (declared : Declared table st) : Declared table st' := by
  intro other
  by_cases same : other = idx
  · rw [same, own]
    exact declared idx
  · rw [touched.others other same]
    exact declared other

theorem beginShutdown_declared {table : Table} {st : Supervisor}
    (code : Int) (declared : Declared table st) :
    Declared table (beginShutdown code st) := by
  intro idx
  cases down : st.shuttingDown with
  | true =>
    rw [beginShutdown_of_shuttingDown code st down]
    exact declared idx
  | false =>
    rw [beginShutdown_svc code st down]
    split
    · rw [(Svc.retired_kin _).decl]
      exact declared idx
    · exact declared idx

theorem Calm.declared {table : Table} {st : Supervisor}
    (calm : Calm st st') (declared : Declared table st) :
    Declared table st' := by
  induction calm with
  | refl => exact declared
  | trans _ _ first second => exact second (first declared)
  | aux svc count down reports history own dropped =>
    unfold Declared
    rw [svc]
    exact declared
  | move idx reports touched moved => exact touched.declared moved.kin.decl declared
  | shutdown code st => exact beginShutdown_declared code declared

theorem step_declared (tracked : Tracked table st)
    (declared : Declared table st) (action : Action) :
    Declared table (step st action) := by
  rcases step_cases tracked.ready action with
    calm | ⟨_, _, _, _, _, _, _, _, touched, commanded⟩ |
      ⟨_, _, _, _, _, _, _, code, middle, _, equal, _, touched, left⟩
  · exact calm.declared declared
  · exact touched.declared commanded.decl_eq declared
  · rw [equal]
    exact beginShutdown_declared code (touched.declared left.kin.decl declared)

theorem run_declared (table : Table) (actions : List Action) :
    Declared table (run step (boot table) actions) := by
  have both : Tracked table (run step (boot table) actions) ∧
      Declared table (run step (boot table) actions) :=
    run_invariant_of_step (fun st => Tracked table st ∧ Declared table st)
      (fun st action holds => ⟨step_tracked table st action holds.1,
        step_declared holds.1 holds.2 action⟩)
      ⟨boot_tracked table, fun _ => rfl⟩ actions
  exact both.2

theorem hasRunningDependent_iff (declared : Declared table st)
    (count : st.count = table.records.length) (i : Nat) :
    hasRunningDependent st i = true ↔ ∃ j, DependsOn table j i ∧ 0 < (st.svc j).pid := by
  rw [hasRunningDependent, any_eq_true]
  constructor
  · rintro ⟨j, mem, running⟩
    rw [mem_range, count] at mem
    simp only [Bool.and_eq_true, decide_eq_true_eq] at running
    rw [declared j] at running
    exact ⟨j, ⟨mem, running.2⟩, running.1.2⟩
  · rintro ⟨j, depends, running⟩
    refine ⟨j, by rw [mem_range, count]; exact depends.1, ?_⟩
    simp only [Bool.and_eq_true, decide_eq_true_eq]
    rw [declared j]
    exact ⟨⟨depends.lt, running⟩, depends.2⟩

/-! ## Which services a turn of the shutdown signals -/

variable {current : Supervisor}

/-- The services to which `shutdown_step` sends their stop signal. -/
structure Signalled (st : Supervisor) (i : Nat) : Prop where
  inTable : i < st.count
  running : 0 < (st.svc i).pid
  unsent : (st.svc i).stopSentAt = 0
  unneeded : hasRunningDependent st i = false

/-- The loop of `shutdown_step` before the services below `bound`: the stop signals
sent so far are those from `bound` on. -/
structure ShutdownPart (st : Supervisor) (bound : Nat)
    (current : Supervisor) : Prop where
  count : current.count = st.count
  pid : ∀ j, (current.svc j).pid = (st.svc j).pid
  decl : ∀ j, (current.svc j).decl = (st.svc j).decl
  later : ∀ j < bound, current.svc j = st.svc j
  effects : ∃ new, current.effects = st.effects ++ new ∧
    ∀ i, (∃ signal, Effect.stop i signal ∈ new) ↔
      bound ≤ i ∧ Signalled st i

variable {bound : Nat}

theorem ShutdownPart.hasRunningDependent_eq
    (part : ShutdownPart st bound current) (i : Nat) :
    hasRunningDependent current i = hasRunningDependent st i := by
  unfold hasRunningDependent
  rw [part.count]
  congr 1
  funext j
  rw [part.pid, part.decl]

theorem ShutdownPart.skip
    (part : ShutdownPart st (bound + 1) current) (silent : ¬ Signalled st bound) :
    ShutdownPart st bound current := by
  obtain ⟨new, equality, stops⟩ := part.effects
  refine { part with
    later := fun j smaller => part.later j (by omega)
    effects := ⟨new, equality, fun i => ?_⟩ }
  rw [stops i]
  constructor
  · rintro ⟨above, signalled⟩
    exact ⟨by omega, signalled⟩
  · rintro ⟨above, signalled⟩
    refine ⟨?_, signalled⟩
    by_contra notAbove
    have same : i = bound := by omega
    rw [same] at signalled
    exact silent signalled

theorem ShutdownPart.escalateStop {st current : Supervisor}
    (part : ShutdownPart st bound current) (now : Int) {idx : Nat}
    (done : bound ≤ idx) :
    ShutdownPart st bound (escalateStop idx now current) := by
  rcases escalateStop_cases idx now current with same | killed
  · rw [same]
    exact part
  · rw [killed]
    obtain ⟨new, equality, stops⟩ := part.effects
    exact {
      count := part.count
      pid := fun j => by
        rw [← part.pid j, modSvc_svc]
        split <;> rfl
      decl := fun j => by
        rw [← part.decl j, modSvc_svc]
        split <;> rfl
      later := fun j smaller => by
        rw [modSvc_svc, if_neg (by omega)]
        exact part.later j smaller
      effects := ⟨new ++ [.kill idx], by simp [equality], fun i => by
        rw [← stops i]
        simp⟩ }

theorem ShutdownPart.sendStop {st current : Supervisor}
    (part : ShutdownPart st (bound + 1) current) (now : Int)
    (inTable : bound < st.count)
    (unneeded : hasRunningDependent st bound = false) :
    ShutdownPart st bound (sendStop bound now current) := by
  have untouched := part.later bound (Nat.lt_succ_self bound)
  rcases sendStop_cases bound now current with
    ⟨silent, same⟩ | ⟨running, unsent, sent⟩
  · rw [same]
    apply part.skip
    intro signalled
    rw [untouched] at silent
    have := signalled.running
    rcases silent with idle | already
    · omega
    · exact already signalled.unsent
  · rw [sent]
    rw [untouched] at running unsent
    have signalled : Signalled st bound := ⟨inTable, running, unsent, unneeded⟩
    obtain ⟨new, equality, stops⟩ := part.effects
    refine {
      count := part.count
      pid := fun j => by
        rw [← part.pid j, modSvc_svc]
        split <;> rfl
      decl := fun j => by
        rw [← part.decl j, modSvc_svc]
        split <;> rfl
      later := fun j smaller => by
        rw [modSvc_svc, if_neg (by omega)]
        exact part.later j (by omega)
      effects := ⟨_, by
        rw [modSvc_effects, emit_effects, equality, append_assoc],
        fun i => ?_⟩ }
    simp only [mem_append, mem_singleton, Effect.stop.injEq]
    constructor
    · rintro ⟨signal, earlier | ⟨rfl, _⟩⟩
      · obtain ⟨above, held⟩ := (stops i).mp ⟨signal, earlier⟩
        exact ⟨by omega, held⟩
      · exact ⟨Nat.le_refl _, signalled⟩
    · rintro ⟨above, held⟩
      by_cases same : i = bound
      · exact ⟨_, Or.inr ⟨same, rfl⟩⟩
      · obtain ⟨signal, earlier⟩ := (stops i).mpr ⟨by omega, held⟩
        exact ⟨signal, Or.inl earlier⟩

theorem shutdownOne_part (part : ShutdownPart st (bound + 1) current) (now : Int)
    (inTable : bound < st.count) :
    ShutdownPart st bound (shutdownOne now bound current) := by
  unfold shutdownOne
  rw [part.pid bound, part.hasRunningDependent_eq bound]
  split
  next idle =>
    apply part.skip
    intro signalled
    have := signalled.running
    omega
  next =>
    split
    next needed =>
      apply part.skip
      intro signalled
      rw [signalled.unneeded] at needed
      exact absurd needed (by simp)
    next unneeded =>
      exact (part.sendStop now inTable (by simpa using unneeded)).escalateStop now (Nat.le_refl _)

theorem shutdownStep_part (now : Int) (st : Supervisor) : ShutdownPart st 0 (shutdownStep now st) :=
  forDown_invariant (ShutdownPart st)
    (fun bound current inTable part => shutdownOne_part part now inTable)
    { count := rfl
      pid := fun _ => rfl
      decl := fun _ => rfl
      later := fun _ _ => rfl
      effects := ⟨[], by simp, fun i => by
        constructor
        · rintro ⟨_, mem⟩
          exact absurd mem (by simp)
        · rintro ⟨outside, signalled⟩
          have := signalled.inTable
          omega⟩ }

/-! ## Reverse dependency order -/

def ShutdownTurn (st : Supervisor) (action : Action) : Prop :=
  st.finished = false ∧ st.shuttingDown = true ∧ ∃ env now, action = .supervise env now

theorem step_effects_of_shutdownTurn {action : Action} (turn : ShutdownTurn st action) :
    ∃ new, (step st action).effects = st.effects ++ new ∧
      ∀ i, (∃ signal, Effect.stop i signal ∈ new) ↔ Signalled st i := by
  obtain ⟨running, down, env, now, rfl⟩ := turn
  obtain ⟨new, equality, stops⟩ := (shutdownStep_part now st).effects
  refine ⟨new, ?_, fun i => by simpa using stops i⟩
  rw [step, if_neg (by simp [running]), ← equality]
  rw [supervise, if_pos down]
  dsimp only
  split <;> rfl

/-- In this step no service is sent its stop signal while a service that
depends on it, through any chain, has a process. -/
def StopsInOrder (table : Table) (st : Supervisor) (action : Action) :
    Prop :=
  ShutdownTurn st action → ∀ new, (step st action).effects = st.effects ++ new →
      ∀ i signal k, Effect.stop i signal ∈ new →
        Relation.TransGen (DependsOn table) k i → (st.svc k).pid = 0

/-- A service that would be signalled, none of whose direct dependents has a
process, is still needed through one of them. -/
def Overlooked (table : Table) (st : Supervisor) (i : Nat) : Prop :=
  0 < (st.svc i).pid ∧ (st.svc i).stopSentAt = 0 ∧ (∀ j, DependsOn table j i → (st.svc j).pid = 0) ∧
    ∃ j k, DependsOn table j i ∧ Relation.TransGen (DependsOn table) k j ∧ 0 < (st.svc k).pid

def Overlooks (table : Table) (st : Supervisor) (action : Action) : Prop :=
  ShutdownTurn st action ∧ ∃ i, Overlooked table st i

theorem signalled_iff (declared : Declared table st)
    (count : st.count = table.records.length) (i : Nat) :
    Signalled st i ↔ i < st.count ∧ 0 < (st.svc i).pid ∧ (st.svc i).stopSentAt = 0 ∧
      ∀ j, DependsOn table j i → (st.svc j).pid = 0 := by
  have direct : hasRunningDependent st i = false ↔
      ∀ j, DependsOn table j i → (st.svc j).pid = 0 := by
    rw [← Bool.not_eq_true, hasRunningDependent_iff declared count]
    constructor
    · intro none j depends
      by_contra running
      exact none ⟨j, depends, by omega⟩
    · rintro idle ⟨j, depends, running⟩
      have := idle j depends
      omega
  constructor
  · intro signalled
    exact ⟨signalled.inTable, signalled.running, signalled.unsent, direct.mp signalled.unneeded⟩
  · rintro ⟨inTable, running, unsent, idle⟩
    exact ⟨inTable, running, unsent, direct.mpr idle⟩

theorem stopsInOrder_iff (declared : Declared table st)
    (count : st.count = table.records.length) (action : Action) :
    StopsInOrder table st action ↔ ¬ Overlooks table st action := by
  constructor
  · rintro inOrder ⟨turn, i, running, unsent, idle, j, k, direct, chain, needed⟩
    have inTable : i < st.count := by
      rw [count]
      exact direct.lt.trans direct.1
    have signalled : Signalled st i :=
      (signalled_iff declared count i).mpr ⟨inTable, running, unsent, idle⟩
    obtain ⟨new, equality, stops⟩ := step_effects_of_shutdownTurn turn
    obtain ⟨signal, mem⟩ := (stops i).mpr signalled
    have gone := inOrder turn new equality i signal k mem (chain.tail direct)
    omega
  · intro careful turn new equality i signal k mem chain
    obtain ⟨stopped, same, stops⟩ := step_effects_of_shutdownTurn turn
    have newEq : new = stopped := append_cancel_left (equality.symm.trans same)
    rw [newEq] at mem
    have signalled := (stops i).mp ⟨signal, mem⟩
    obtain ⟨inTable, running, unsent, idle⟩ := (signalled_iff declared count i).mp signalled
    by_contra needed
    obtain ⟨j, path, direct⟩ := Relation.TransGen.tail'_iff.mp chain
    rcases Relation.reflTransGen_iff_eq_or_transGen.mp path with
      equal | longer
    · rw [equal] at direct
      exact needed (idle k direct)
    · exact careful ⟨turn, i, running, unsent, idle, j, k, direct, longer, by omega⟩

/-- A run shuts down in reverse dependency order exactly when no turn of its
shutdown meets a running, unsignalled service whose direct dependents are all
gone while something still depends on it through one of them. -/
theorem stopsInOrder_throughout_iff (table : Table) (actions : List Action) :
    Guarded step (StopsInOrder table) (boot table) actions ↔
      Guarded step (fun st action => ¬ Overlooks table st action) (boot table) actions := by
  have perStep : ∀ before action, StopsInOrder table (run step (boot table) before) action ↔
        ¬ Overlooks table (run step (boot table) before) action :=
    fun before action => stopsInOrder_iff (run_declared table before)
      (run_count table before) action
  constructor
  · intro inOrder before action after equality
    exact (perStep before action).mp (inOrder before action after equality)
  · intro careful before action after equality
    exact (perStep before action).mpr (careful before action after equality)

def chainTable : Table where
  records :=
    [plainRecord typeDaemon 0 readyNone onExitStop, plainRecord typeOneshot 1 readyNone onExitStop,
      plainRecord typeDaemon 2 readyNone onExitStop]
  addrCount := 0
  nonempty := by decide
  bounded := by decide
  valid := by decide +kernel

def chainRun : List Action :=
  [plainTurn 1000 [] false [], plainTurn 2000 [(plainPid 1, 0)] false []].flatMap Turn.actions ++
    [.sigterm]

/-- The first daemon is sent its stop signal in the turn in which the second
one is, although that one depends on it through the one-shot. -/
theorem chainRun_stops_out_of_order : ¬ Guarded step (StopsInOrder chainTable) (boot chainTable)
      (chainRun ++ [.supervise plainEnv 3000]) := by
  intro inOrder
  have last := inOrder chainRun (.supervise plainEnv 3000) [] rfl
    ⟨by decide +kernel, by decide +kernel, plainEnv, 3000, rfl⟩
    [.stop 2 15, .stop 0 15] (by decide +kernel) 0 15 2 (by decide +kernel)
    (Relation.TransGen.tail (Relation.TransGen.single ⟨by decide, by decide +kernel⟩)
      (b := 1) ⟨by decide, by decide +kernel⟩)
  exact absurd last (by decide +kernel)

end Cix.Init
