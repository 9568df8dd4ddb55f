import Cix.Init.Steps

/-!
# The daemon's record follows the supervisor

`Tracks` relates a service of cix-init to the record that the daemon holds
after it has been given every report of the service so far.  It is kept by
every step, so it holds in every state of every run.
-/

namespace Cix.Init

open Cix.Lib Supervisor

variable {r : RegistryService} {down : Bool} {s : Svc} {reports : List Report}

structure Tracks (down : Bool) (s : Svc) (r : RegistryService) : Prop where
  live : 0 < s.pid → s.state = .starting ∨ s.state = .ready
  held : s.state = .starting ∨ s.state = .ready →
    0 < s.pid ∨ (down = true ∧ s.decl.onExit = onExitFailContainer)
  probing : 0 < s.probePid → 0 < s.pid
  waits : s.state = .restartWait → s.operatorStopped = false
  pid : r.pid = s.pid
  restarts : r.restarts = s.restarts
  running : r.state = .running ↔ s.state = .ready ∧ 0 < s.pid
  starting : r.state = .starting ↔ s.state = .starting ∧ 0 < s.pid

theorem Tracks.initial (d : ServiceRecord) (r : RegistryService)
    (pid : r.pid = 0) (restarts : r.restarts = 0)
    (state : r.state = .pending) : Tracks false (Svc.initial d) r where
  live := by simp [Svc.initial]
  held := by simp [Svc.initial]
  probing := by simp [Svc.initial]
  waits := by simp [Svc.initial]
  pid := by simp [Svc.initial, pid]
  restarts := by simp [Svc.initial, restarts]
  running := by simp [Svc.initial, state]
  starting := by simp [Svc.initial, state]

theorem Tracks.idle_state (tracks : Tracks down s r) (idle : s.pid = 0) :
    r.state ≠ .running ∧ r.state ≠ .starting := by
  constructor
  · intro running
    have := (tracks.running.mp running).2
    omega
  · intro starting
    have := (tracks.starting.mp starting).2
    omega

theorem Tracks.of_idle (idle : s.pid = 0) (probe : s.probePid = 0)
    (state : s.state ≠ .starting ∧ s.state ≠ .ready)
    (waits : s.state = .restartWait → s.operatorStopped = false)
    (pid : r.pid = 0) (restarts : r.restarts = s.restarts)
    (shown : r.state ≠ .running ∧ r.state ≠ .starting) :
    Tracks down s r where
  live := by omega
  held := by
    rintro (starting | ready)
    · exact absurd starting state.1
    · exact absurd ready state.2
  probing := by omega
  waits := waits
  pid := by rw [pid, idle]; rfl
  restarts := restarts
  running := by simp [shown.1, state.2]
  starting := by simp [shown.2, state.1]

theorem Tracks.probePid_eq_zero (tracks : Tracks down s r) (idle : s.pid = 0) : s.probePid = 0 := by
  have := tracks.probing
  omega

variable {idx : Nat} {s' : Svc}

theorem Tracks.move {down : Bool} {s : Svc}
    {r : RegistryService} {reports : List Report}
    (tracks : Tracks down s r) (moved : SvcMove down idx s reports s') :
    Tracks down s' (applyFor idx reports r) := by
  cases moved with
  | quiet kin state pid restarts probe =>
    exact {
      live := by rw [pid, state]; exact tracks.live
      held := by rw [pid, state, kin.decl]; exact tracks.held
      probing := by
        intro probing
        rw [pid]
        rcases probe probing with before | ⟨_, live⟩
        · exact tracks.probing before
        · exact live
      waits := by rw [state, kin.operatorStopped]; exact tracks.waits
      pid := by rw [pid]; exact tracks.pid
      restarts := by rw [restarts]; exact tracks.restarts
      running := by rw [pid, state]; exact tracks.running
      starting := by rw [pid, state]; exact tracks.starting }
  | spawn pid kin state pidEq restarts probe =>
    exact {
      live := fun _ => Or.inl state
      held := fun _ => Or.inl (by rw [pidEq]; exact pid.positive)
      probing := by omega
      waits := by simp [state]
      pid := by simp [applyFor, RegistryService.apply, pidEq]
      restarts := by
        simp [applyFor, RegistryService.apply, restarts, tracks.restarts]
      running := by simp [applyFor, RegistryService.apply, state]
      starting := by
        simp [applyFor, RegistryService.apply, state, pidEq, pid.positive] }
  | spawnReady pid kin state pidEq restarts probe =>
    exact {
      live := fun _ => Or.inr state
      held := fun _ => Or.inl (by rw [pidEq]; exact pid.positive)
      probing := by omega
      waits := by simp [state]
      pid := by simp [applyFor, RegistryService.apply, pidEq]
      restarts := by
        simp [applyFor, RegistryService.apply, restarts, tracks.restarts]
      running := by
        simp [applyFor, RegistryService.apply, state, pidEq, pid.positive]
      starting := by simp [applyFor, RegistryService.apply, state] }
  | spawnFail detail kin idle state pid restarts probe =>
    apply Tracks.of_idle (pid.trans idle) (probe.trans (tracks.probePid_eq_zero idle))
    · simp [state]
    · simp [state]
    · simp [applyFor, RegistryService.apply, failSpawn, failProbe]
    · simp [applyFor, RegistryService.apply, failSpawn, failProbe, restarts, tracks.restarts]
    · simp [applyFor, RegistryService.apply, failSpawn, failProbe]
  | becomeReady detail reports kin source live state pid restarts announced =>
    have applied : (applyFor idx reports r).state = .running ∧
        (applyFor idx reports r).pid = r.pid ∧
        (applyFor idx reports r).restarts = r.restarts := by
      rcases announced with rfl | rfl
      · simp [applyFor, RegistryService.apply]
      · simp [applyFor, RegistryService.apply, failProbe]
    exact {
      live := fun _ => Or.inr state
      held := fun _ => Or.inl (by rw [pid]; exact live)
      probing := fun _ => by rw [pid]; exact live
      waits := by simp [state]
      pid := by rw [applied.2.1, pid, tracks.pid]
      restarts := by rw [applied.2.2, restarts, tracks.restarts]
      running := by simp [applied.1, state, pid, live]
      starting := by simp [applied.1, state] }
  | depFail dep kin source idle state pid restarts probe =>
    have zero : r.pid = 0 := by rw [tracks.pid, idle]; rfl
    apply Tracks.of_idle (pid.trans idle) (probe.trans (tracks.probePid_eq_zero idle))
    · simp [state]
    · simp [state]
    · simp [applyFor, RegistryService.apply, failDependency, failProbe, zero]
    · simp [applyFor, RegistryService.apply, failDependency, failProbe, restarts, tracks.restarts]
    · simp [applyFor, RegistryService.apply, failDependency, failProbe]
  | exitIdle kind value kin state pid restarts probe =>
    apply Tracks.of_idle pid probe
    · rcases state with exited | ⟨pending, _⟩
      · simp [exited]
      · simp [pending]
    · rcases state with exited | ⟨pending, _⟩
      · simp [exited]
      · simp [pending]
    · simp [applyFor, RegistryService.apply]
    · simp [applyFor, RegistryService.apply, restarts, tracks.restarts]
    · simp [applyFor, RegistryService.apply]
  | exitStopped kind value kin state pid restarts probe =>
    apply Tracks.of_idle pid probe
    · simp [state]
    · simp [state]
    · simp [applyFor, RegistryService.apply]
    · simp [applyFor, RegistryService.apply, restarts, tracks.restarts]
    · simp [applyFor, RegistryService.apply]
  | exitFailed kind value status kin state pid restarts probe =>
    apply Tracks.of_idle pid probe
    · simp [state]
    · simp [state]
    · simp [applyFor, RegistryService.apply, failOneshot, failProbe]
    · simp [applyFor, RegistryService.apply, failOneshot, failProbe, restarts, tracks.restarts]
    · simp [applyFor, RegistryService.apply, failOneshot, failProbe]
  | exitRestart kind value delay kin up free state pid restarts probe =>
    apply Tracks.of_idle pid probe
    · simp [state]
    · intro _
      rw [kin.operatorStopped, free]
    · simp [applyFor, RegistryService.apply]
    · simp [applyFor, RegistryService.apply]
    · simp [applyFor, RegistryService.apply]

theorem Tracks.commanded {down : Bool} {op : Int} {s : Svc}
    {r : RegistryService} {reports : List Report}
    (tracks : Tracks down s r) (commanded : Commanded op idx s reports s') :
    Tracks down s' (applyFor idx reports r) := by
  cases commanded with
  | kept decl state pid restarts probe wanted obeyed alive =>
    exact {
      live := by rw [pid, state]; exact tracks.live
      held := by rw [pid, state, decl]; exact tracks.held
      probing := by rw [pid, probe]; exact tracks.probing
      waits := by
        intro waiting
        rw [state] at waiting
        rcases wanted with free | live | stopped
        · exact free
        · rcases tracks.live live with starting | ready
          · simp [starting] at waiting
          · simp [ready] at waiting
        · simp [stopped] at waiting
      pid := by rw [pid]; exact tracks.pid
      restarts := by rw [restarts]; exact tracks.restarts
      running := by rw [pid, state]; exact tracks.running
      starting := by rw [pid, state]; exact tracks.starting }
  | armed decl idle state pid restarts probe wanted starts =>
    apply Tracks.of_idle (pid.trans idle) (probe.trans (tracks.probePid_eq_zero idle))
    · simp [state]
    · simp [state]
    · rw [applyFor_nil, tracks.pid, idle]
      rfl
    · rw [restarts, applyFor_nil, tracks.restarts]
    · exact tracks.idle_state idle
  | stopped decl idle state pid restarts probe stops obeyed =>
    apply Tracks.of_idle (pid.trans idle) (probe.trans (tracks.probePid_eq_zero idle))
    · simp [state]
    · simp [state]
    · simp [applyFor, RegistryService.apply]
    · simp [applyFor, RegistryService.apply, restarts, tracks.restarts]
    · simp [applyFor, RegistryService.apply]

theorem Tracks.abandoned (tracks : Tracks false s r)
    (left : Abandoned idx s reports s') :
    Tracks true s' (applyFor idx reports r) := by
  have applied : (applyFor idx reports r).state ≠ .running ∧
      (applyFor idx reports r).state ≠ .starting ∧
      (applyFor idx reports r).pid = 0 ∧
      (applyFor idx reports r).restarts = r.restarts := by
    obtain ⟨kind, value, status, announced | announced⟩ := left.announced
    · simp [announced, applyFor, RegistryService.apply]
    · simp [announced, applyFor, RegistryService.apply, failOneshot, failProbe]
  exact {
    live := by rw [left.pid]; omega
    held := fun _ => Or.inr ⟨rfl, by rw [left.kin.decl]; exact left.onExit⟩
    probing := by rw [left.probe]; omega
    waits := by
      rw [left.state, left.kin.operatorStopped]
      exact tracks.waits
    pid := by rw [applied.2.2.1, left.pid]; rfl
    restarts := by rw [applied.2.2.2, left.restarts, tracks.restarts]
    running := by simp [applied.1, left.pid]
    starting := by simp [applied.2.1, left.pid] }

theorem Tracks.retired (tracks : Tracks down s r) : Tracks true s.retired r := by
  have lifted : Tracks true s r :=
    { tracks with
      held := fun state => by
        rcases tracks.held state with live | ⟨_, onExit⟩
        · exact Or.inl live
        · exact Or.inr ⟨rfl, onExit⟩ }
  unfold Svc.retired
  split
  next waiting =>
    have idle : s.pid = 0 := by
      by_contra alive
      have running := tracks.live (by omega)
      rcases waiting with pending | restart
      · simp [pending] at running
      · simp [restart] at running
    exact Tracks.of_idle idle (tracks.probePid_eq_zero idle) (by simp)
      (by simp) (by rw [tracks.pid, idle]; rfl) tracks.restarts
      (tracks.idle_state idle)
  next => exact lifted

/-! ## Whole states -/

variable {st : Supervisor} {table : Table}

/-- The daemon's record of service `idx` once every report is delivered. -/
def recordOf (table : Table) (st : Supervisor) (idx : Nat) :
    RegistryService :=
  applyFor idx st.outbox.history ((registrySetServices table).services idx)

def Tracked (table : Table) (st : Supervisor) : Prop :=
  ∀ idx, Tracks st.shuttingDown (st.svc idx) (recordOf table st idx)

variable {st' : Supervisor}

theorem recordOf_append (table : Table)
    (history : st'.outbox.history = st.outbox.history ++ reports) (idx : Nat) :
    recordOf table st' idx = applyFor idx reports (recordOf table st idx) := by
  rw [recordOf, recordOf, history, applyFor_append]

theorem Local.recordOf_of_ne {other : Nat}
    (touched : Local idx reports st st') (table : Table)
    (different : other ≠ idx) :
    recordOf table st' other = recordOf table st other := by
  rw [recordOf_append table touched.history]
  apply applyFor_of_other
  intro r mem
  rw [touched.own r mem]
  omega

theorem beginShutdown_tracked {table : Table} {st : Supervisor} (code : Int)
    (tracked : ∀ idx, ∃ down, Tracks down (st.svc idx) (recordOf table st idx))
    (already : st.shuttingDown = true → Tracked table st) :
    Tracked table (beginShutdown code st) := by
  intro idx
  cases down : st.shuttingDown with
  | true =>
    rw [beginShutdown_of_shuttingDown code st down]
    exact already down idx
  | false =>
    have unchanged : recordOf table (beginShutdown code st) idx =
        recordOf table st idx := by
      rw [recordOf_append table (beginShutdown_history code st down)]
      apply applyFor_of_other
      simp
    obtain ⟨before, tracks⟩ := tracked idx
    rw [beginShutdown_svc code st down, beginShutdown_shuttingDown, unchanged]
    split
    · exact tracks.retired
    · exact { tracks with
        held := fun state => by
          rcases tracks.held state with live | ⟨_, onExit⟩
          · exact Or.inl live
          · exact Or.inr ⟨rfl, onExit⟩ }

theorem Calm.tracked {table : Table} {st : Supervisor}
    (calm : Calm st st') (tracked : Tracked table st) :
    Tracked table st' := by
  induction calm with
  | refl => exact tracked
  | trans _ _ first second => exact second (first tracked)
  | aux svc count down reports history own dropped =>
    intro idx
    rw [svc, down, recordOf_append table history, applyFor_of_other _ (by
        intro r mem
        rw [own r mem]
        omega)]
    exact tracked idx
  | move idx reports touched moved =>
    intro other
    rw [touched.shuttingDown]
    by_cases same : other = idx
    · rw [same, recordOf_append table touched.history]
      exact (tracked idx).move moved
    · rw [touched.others other same, touched.recordOf_of_ne table same]
      exact tracked other
  | shutdown code st =>
    exact beginShutdown_tracked code (fun idx => ⟨_, tracked idx⟩) (fun _ => tracked)

theorem CommandStep.tracked {table : Table} {op : Int}
    {st : Supervisor} (command : CommandStep op idx st st')
    (tracked : Tracked table st) : Tracked table st' := by
  obtain ⟨reports, touched, commanded⟩ := command
  intro other
  rw [touched.shuttingDown]
  by_cases same : other = idx
  · rw [same, recordOf_append table touched.history]
    exact (tracked idx).commanded commanded
  · rw [touched.others other same, touched.recordOf_of_ne table same]
    exact tracked other

theorem Abandons.tracked {table : Table}
    {st : Supervisor} (abandons : Abandons idx st st')
    (tracked : Tracked table st) : Tracked table st' := by
  obtain ⟨code, middle, reports, equal, up, touched, left⟩ := abandons
  rw [equal]
  apply beginShutdown_tracked
  · intro other
    have before := tracked other
    rw [up] at before
    by_cases same : other = idx
    · rw [same, recordOf_append table touched.history]
      rw [same] at before
      exact ⟨true, before.abandoned left⟩
    · rw [touched.others other same, touched.recordOf_of_ne table same]
      exact ⟨false, before⟩
  · intro down
    rw [touched.shuttingDown, up] at down
    exact absurd down (by simp)

theorem Tracked.ready (tracked : Tracked table st) : Ready st where
  sound := by
    intro up idx
    constructor
    · exact (tracked idx).live
    · intro state
      rcases (tracked idx).held state with live | ⟨down, _⟩
      · exact live
      · rw [up] at down
        exact absurd down (by simp)
  probing := fun idx => (tracked idx).probing

theorem step_tracked (table : Table) (st : Supervisor) (action : Action)
    (tracked : Tracked table st) : Tracked table (step st action) := by
  rcases step_cases tracked.ready action with
    calm | ⟨_, _, idx, _, _, _, _, command⟩ | ⟨_, _, _, idx, _, _, _, abandons⟩
  · exact calm.tracked tracked
  · exact command.tracked tracked
  · exact abandons.tracked tracked

theorem boot_tracked (table : Table) : Tracked table (boot table) := by
  intro idx
  exact Tracks.initial (table.record idx) _ rfl rfl rfl

theorem run_tracked (table : Table) (actions : List Action) :
    Tracked table (run step (boot table) actions) :=
  run_invariant_of_step (Tracked table)
    (fun st action => step_tracked table st action) (boot_tracked table)
    actions

/-! ## The record that the daemon holds -/

theorem Calm.count_eq {st : Supervisor} (calm : Calm st st') : st'.count = st.count := by
  induction calm with
  | refl => rfl
  | trans _ _ first second => exact second.trans first
  | aux svc count down reports history own dropped => exact count
  | move idx reports touched moved => exact touched.count
  | shutdown code st => exact beginShutdown_count code st

theorem Calm.dropped_le {st : Supervisor} (calm : Calm st st') :
    st.outbox.dropped ≤ st'.outbox.dropped := by
  induction calm with
  | refl => exact Nat.le_refl _
  | trans _ _ first second => exact first.trans second
  | aux svc count down reports history own dropped => exact dropped
  | move idx reports touched moved => exact touched.dropped
  | shutdown code st => exact beginShutdown_dropped code st

theorem step_dropped_le (tracked : Tracked table st) (action : Action) :
    st.outbox.dropped ≤ (step st action).outbox.dropped := by
  rcases step_cases tracked.ready action with
    calm | ⟨_, _, idx, _, _, _, _, _, touched, _⟩ |
      ⟨_, _, _, _, _, _, _, _, _, _, equal, _, touched, _⟩
  · exact calm.dropped_le
  · exact touched.dropped
  · rw [equal]
    exact touched.dropped.trans (beginShutdown_dropped _ _)

theorem step_count (tracked : Tracked table st) (action : Action) :
    (step st action).count = st.count := by
  rcases step_cases tracked.ready action with
    calm | ⟨_, _, idx, _, _, _, _, _, touched, _⟩ |
      ⟨_, _, _, _, _, _, _, _, _, _, equal, _, touched, _⟩
  · exact calm.count_eq
  · exact touched.count
  · rw [equal, beginShutdown_count]
    exact touched.count

theorem run_count (table : Table) (actions : List Action) :
    (run step (boot table) actions).count = table.records.length := by
  have both : Tracked table (run step (boot table) actions) ∧
      (run step (boot table) actions).count = table.records.length :=
    run_invariant_of_step (fun st => Tracked table st ∧ st.count = table.records.length)
      (fun st action holds => ⟨step_tracked table st action holds.1,
        (step_count holds.1 action).trans holds.2⟩)
      ⟨boot_tracked table, rfl⟩ actions
  exact both.2

theorem run_dropped_eq_zero {before after : List Action} (complete :
      (run step (boot table) (before ++ after)).outbox.dropped = 0) :
    (run step (boot table) before).outbox.dropped = 0 := by
  rw [run_append] at complete
  have both : Tracked table (run step (run step (boot table) before) after) ∧
      (run step (boot table) before).outbox.dropped ≤
        (run step (run step (boot table) before) after).outbox.dropped :=
    run_invariant_of_step (fun st => Tracked table st ∧
        (run step (boot table) before).outbox.dropped ≤ st.outbox.dropped)
      (fun st action holds => ⟨step_tracked table st action holds.1,
        holds.2.trans (step_dropped_le holds.1 action)⟩)
      ⟨run_tracked table before, Nat.le_refl _⟩ after
  omega

/-- The registry once the reports of `st`, sent and still waiting, have all
been delivered in their order. -/
def delivered (table : Table) (st : Supervisor) : Registry :=
  deliver (registrySetServices table) (st.outbox.sent ++ st.outbox.pending)

theorem delivered_services (complete : st.outbox.dropped = 0)
    (inTable : idx < table.records.length) :
    (delivered table st).services idx = recordOf table st idx := by
  rw [delivered, st.outbox.complete complete]
  exact deliver_services _ _ inTable

structure ServiceAgrees (s : Svc) (r : RegistryService) : Prop where
  pid : r.pid = s.pid
  restarts : r.restarts = s.restarts
  running : r.state = .running ↔ s.state = .ready ∧ 0 < s.pid
  starting : r.state = .starting ↔ s.state = .starting

def Agrees (table : Table) (st : Supervisor) : Prop :=
  ∀ idx < table.records.length, ServiceAgrees (st.svc idx) ((delivered table st).services idx)

def StaleExit (st : Supervisor) (action : Action) : Prop :=
  ∃ pid status now idx, action = .reap pid status now ∧
    st.finished = false ∧ ForsakenExit pid status st idx ∧
    (st.svc idx).state = .starting

def StartingLive (st : Supervisor) : Prop :=
  ∀ idx, (st.svc idx).state = .starting → 0 < (st.svc idx).pid

theorem SvcMove.startingLive {down : Bool} {s : Svc}
    {reports : List Report} (moved : SvcMove down idx s reports s')
    (live : s.state = .starting → 0 < s.pid)
    (starting : s'.state = .starting) : 0 < s'.pid := by
  cases moved with
  | quiet kin state pid restarts probe =>
    rw [state] at starting
    rw [pid]
    exact live starting
  | spawn pid kin state pidEq restarts probe =>
    rw [pidEq]
    exact pid.positive
  | exitIdle kind value kin state pid restarts probe =>
    rcases state with exited | ⟨pending, _⟩
    · simp [exited] at starting
    · simp [pending] at starting
  | spawnReady _ _ state => simp [state] at starting
  | spawnFail _ _ _ state => simp [state] at starting
  | becomeReady _ _ _ _ _ state => simp [state] at starting
  | depFail _ _ _ _ state => simp [state] at starting
  | exitStopped _ _ _ state => simp [state] at starting
  | exitFailed _ _ _ _ state => simp [state] at starting
  | exitRestart _ _ _ _ _ _ state => simp [state] at starting

theorem Svc.retired_eq_of_starting (starting : s.retired.state = .starting) : s.retired = s := by
  unfold Svc.retired at starting ⊢
  split
  next waiting => simp [waiting] at starting
  next => rfl

theorem beginShutdown_startingLive {st : Supervisor} (code : Int)
    (live : StartingLive st) : StartingLive (beginShutdown code st) := by
  intro idx
  cases down : st.shuttingDown with
  | true =>
    rw [beginShutdown_of_shuttingDown code st down]
    exact live idx
  | false =>
    rw [beginShutdown_svc code st down]
    split
    · intro starting
      have same := Svc.retired_eq_of_starting starting
      rw [same] at starting ⊢
      exact live idx starting
    · exact live idx

theorem Calm.startingLive {st : Supervisor} (calm : Calm st st')
    (live : StartingLive st) : StartingLive st' := by
  induction calm with
  | refl => exact live
  | trans _ _ first second => exact second (first live)
  | aux svc count down reports history own dropped =>
    intro idx
    rw [svc]
    exact live idx
  | move idx reports touched moved =>
    intro other
    by_cases same : other = idx
    · rw [same]
      exact moved.startingLive (live idx)
    · rw [touched.others other same]
      exact live other
  | shutdown code st => exact beginShutdown_startingLive code live

theorem Commanded.startingLive {op : Int} {s : Svc}
    {reports : List Report} (commanded : Commanded op idx s reports s')
    (live : s.state = .starting → 0 < s.pid)
    (starting : s'.state = .starting) : 0 < s'.pid := by
  cases commanded with
  | kept decl state pid restarts probe wanted obeyed alive =>
    rw [state] at starting
    rw [pid]
    exact live starting
  | armed _ _ state => simp [state] at starting
  | stopped _ _ state => simp [state] at starting

theorem step_startingLive {action : Action} (tracked : Tracked table st)
    (live : StartingLive st) (fresh : ¬ StaleExit st action) :
    StartingLive (step st action) := by
  rcases step_cases tracked.ready action with
    calm | ⟨_, _, idx, _, _, _, _, reports, touched, commanded⟩ |
      ⟨pid, status, now, idx, reaped, running, exit, code, middle, reports, equal, _, touched, left⟩
  · exact calm.startingLive live
  · intro other
    by_cases same : other = idx
    · rw [same]
      exact commanded.startingLive (live idx)
    · rw [touched.others other same]
      exact live other
  · rw [equal]
    apply beginShutdown_startingLive
    intro other starting
    by_cases same : other = idx
    · rw [same, left.state] at starting
      exact absurd ⟨pid, status, now, idx, reaped, running, exit, starting⟩ fresh
    · rw [touched.others other same] at starting ⊢
      exact live other starting

theorem step_of_staleExit {action : Action} (stale : StaleExit st action) :
    ∃ idx < st.count, ((step st action).svc idx).state = .starting ∧
      ((step st action).svc idx).pid = 0 := by
  obtain ⟨pid, status, now, idx, rfl, running, exit, starting⟩ := stale
  obtain ⟨kind, value, ended, forsaken⟩ := exit.ended
  obtain ⟨code, middle, reports, equal, touched, left⟩ :=
    serviceExited_of_forsaken now exit.up forsaken
  have reduced : step st (.reap pid status now) =
      beginShutdown code middle := by
    rw [step, if_neg (by simp [running]), ← equal]
    unfold reapOne
    have found := exit.found
    unfold reapedService at found
    rw [found]
    dsimp only
    rw [if_pos exit.own, ended]
  have up : middle.shuttingDown = false := touched.shuttingDown.trans exit.up
  have state : (middle.svc idx).state = .starting := left.state.trans starting
  have kept : (middle.svc idx).retired = middle.svc idx := by
    unfold Svc.retired
    rw [if_neg (by simp [state])]
  refine ⟨idx, reapedService_lt exit.found, ?_⟩
  rw [reduced, beginShutdown_svc code middle up, kept, ite_self]
  exact ⟨state, left.pid⟩

theorem Tracks.agrees_iff (tracks : Tracks down s r) :
    ServiceAgrees s r ↔ (s.state = .starting → 0 < s.pid) := by
  constructor
  · intro agrees starting
    exact (tracks.starting.mp (agrees.starting.mpr starting)).2
  · intro live
    refine ⟨tracks.pid, tracks.restarts, tracks.running, ?_⟩
    rw [tracks.starting]
    exact ⟨And.left, fun starting => ⟨starting, live starting⟩⟩

/-- In a run that drops no report, supervisor and daemon agree in every state
exactly when no fail-container service ever ends while it is starting. -/
theorem agrees_throughout_iff (table : Table) (actions : List Action)
    (complete : (run step (boot table) actions).outbox.dropped = 0) :
    Throughout step (Agrees table) (boot table) actions ↔
      Guarded step (fun st action => ¬ StaleExit st action) (boot table) actions := by
  have agreesIff : ∀ before after, actions = before ++ after →
      (Agrees table (run step (boot table) before) ↔ ∀ idx < table.records.length,
          ((run step (boot table) before).svc idx).state = .starting →
            0 < ((run step (boot table) before).svc idx).pid) := by
    intro before after equality
    rw [equality] at complete
    have none := run_dropped_eq_zero complete
    apply forall₂_congr
    intro idx inTable
    rw [delivered_services none inTable]
    exact (run_tracked table before idx).agrees_iff
  constructor
  · intro agrees before action after equality stale
    obtain ⟨idx, inTable, starting, idle⟩ := step_of_staleExit stale
    rw [run_count] at inTable
    have whole : actions = (before ++ [action]) ++ after := by simp [equality]
    have live := (agreesIff _ _ whole).mp (agrees _ _ whole) idx inTable
    rw [run_snoc] at live
    have := live starting
    omega
  · intro guarded before after equality
    apply (agreesIff before after equality).mpr
    rw [equality] at guarded
    have invariant : Tracked table (run step (boot table) before) ∧
        StartingLive (run step (boot table) before) :=
      run_invariant (fun st => Tracked table st ∧ StartingLive st)
        (fun st action holds fresh => ⟨step_tracked table st action holds.1,
          step_startingLive holds.1 holds.2 fresh⟩)
        ⟨boot_tracked table, by
          intro idx starting
          exact absurd starting (by simp [boot, Svc.initial])⟩
        guarded.initial
    intro idx _
    exact invariant.2 idx

/-! ## A run in which they part -/

def plainRecord (type : Int) (afterMask : Nat) (readyKind onExit : Int) :
    ServiceRecord :=
  { ServiceRecord.zero with
    name := Buffer.ofCStr nameMax (CStr.ofString "service")
    argv := Buffer.ofPrefix argvMax [47, 97, 0]
    type := type
    afterMask := afterMask
    readyKind := readyKind
    readyPort := 80
    onExit := onExit
    stopSignal := 15 }

def plainPid (i : Nat) : Pid :=
  ⟨100 + i % 16, by omega, by omega⟩

def plainEnv : Env where
  fork := fun i => .child (plainPid i)
  clock := fun _ => 0
  tcp := fun _ => ⟨true, .refused, .quiet⟩
  unix := fun _ => false
  probeFork := fun _ => .error 11
  written := 0

def plainTurn (now : Int) (reaped : List (Pid × Nat)) (sigterm : Bool)
    (control : List ControlMsg) : Turn :=
  ⟨now, reaped, sigterm, control, plainEnv, 0⟩

def fragileTable : Table where
  records := [plainRecord typeDaemon 0 readyTcp onExitFailContainer]
  addrCount := 0
  nonempty := by decide
  bounded := by decide
  valid := by decide +kernel

def fragileRun : List Action :=
  [plainTurn 1000 [] false [], plainTurn 2000 [(plainPid 0, 0x100)] false []].flatMap Turn.actions

theorem agrees_fails_of_exit_while_starting :
    (run step (boot fragileTable) fragileRun).outbox.dropped = 0 ∧
      ¬ Agrees fragileTable (run step (boot fragileTable) fragileRun) := by
  refine ⟨by decide +kernel, ?_⟩
  intro agrees
  have shown := (agrees 0 (by decide)).starting.mpr (by decide +kernel)
  exact absurd shown (by decide +kernel)

/-- The equivalence at a run that drops no report: here both sides fail. -/
theorem agrees_throughout_iff_fragileRun :
    Throughout step (Agrees fragileTable) (boot fragileTable) fragileRun ↔
      Guarded step (fun st action => ¬ StaleExit st action) (boot fragileTable) fragileRun :=
  agrees_throughout_iff fragileTable fragileRun (by decide +kernel)

end Cix.Init
