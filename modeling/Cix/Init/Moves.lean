import Cix.Init.Registry

/-!
# What the functions of cix-init can do

`SvcMove` lists the ways in which one service changes together with the
reports that announce the change; `Calm` closes them under composition, with
`begin_shutdown` and the steps that touch no service.  Every function of the
source is shown once to be such a composition, so an invariant of the
supervisor is a statement about the constructors below and not about the text
of the functions.
-/

namespace Cix.Init

open Cix.Lib Supervisor

section Projections

variable (st : Supervisor) (idx : Nat) (change : Svc → Svc)
  (effect : Effect) (service : Int) (event : Event) (a b : Int)
  (written : Nat)

@[simp]
theorem modSvc_svc (j : Nat) : (st.modSvc idx change).svc j =
      if j = idx then change (st.svc j) else st.svc j := rfl

@[simp]
theorem modSvc_count : (st.modSvc idx change).count = st.count := rfl

@[simp]
theorem modSvc_addrCount : (st.modSvc idx change).addrCount = st.addrCount := rfl

@[simp]
theorem modSvc_shuttingDown : (st.modSvc idx change).shuttingDown = st.shuttingDown := rfl

@[simp]
theorem modSvc_outbox : (st.modSvc idx change).outbox = st.outbox := rfl

@[simp]
theorem modSvc_effects : (st.modSvc idx change).effects = st.effects := rfl

@[simp]
theorem modSvc_finished : (st.modSvc idx change).finished = st.finished := rfl

@[simp]
theorem emit_svc : (st.emit effect).svc = st.svc := rfl

@[simp]
theorem emit_count : (st.emit effect).count = st.count := rfl

@[simp]
theorem emit_addrCount : (st.emit effect).addrCount = st.addrCount := rfl

@[simp]
theorem emit_shuttingDown : (st.emit effect).shuttingDown = st.shuttingDown := rfl

@[simp]
theorem emit_outbox : (st.emit effect).outbox = st.outbox := rfl

@[simp]
theorem emit_effects : (st.emit effect).effects = st.effects ++ [effect] := rfl

@[simp]
theorem emit_finished : (st.emit effect).finished = st.finished := rfl

@[simp]
theorem report_svc : (report service event a b st).svc = st.svc := rfl

@[simp]
theorem report_count : (report service event a b st).count = st.count := rfl

@[simp]
theorem report_addrCount : (report service event a b st).addrCount = st.addrCount := rfl

@[simp]
theorem report_shuttingDown : (report service event a b st).shuttingDown = st.shuttingDown := rfl

@[simp]
theorem report_history : (report service event a b st).outbox.history =
      st.outbox.history ++ [⟨service, event, a, b⟩] := by
  simp [report]

theorem report_dropped : st.outbox.dropped ≤ (report service event a b st).outbox.dropped := by
  change _ ≤ (st.outbox.push _).dropped
  unfold Outbox.push
  split
  · exact Nat.le_succ _
  · exact Nat.le_refl _

@[simp]
theorem report_effects : (report service event a b st).effects = st.effects := rfl

@[simp]
theorem report_finished : (report service event a b st).finished = st.finished := rfl

end Projections

structure Kin (s s' : Svc) : Prop where
  decl : s'.decl = s.decl
  operatorStopped : s'.operatorStopped = s.operatorStopped

theorem Kin.trans {first second third : Svc} (left : Kin first second) (right : Kin second third) :
    Kin first third :=
  ⟨right.decl.trans left.decl,
    right.operatorStopped.trans left.operatorStopped⟩

/-- The moves that a service makes by itself. `down` says whether a shutdown is
under way. -/
inductive SvcMove (down : Bool) (idx : Nat) (s : Svc) :
    List Report → Svc → Prop
  | quiet {s' : Svc} (kin : Kin s s')
      (state : s'.state = s.state) (pid : s'.pid = s.pid)
      (restarts : s'.restarts = s.restarts)
      (probe : 0 < s'.probePid → 0 < s.probePid ∨ (s.state = .starting ∧ 0 < s.pid)) :
      SvcMove down idx s [] s'
  | spawn {s' : Svc} (pid : Pid) (kin : Kin s s')
      (state : s'.state = .starting) (pidEq : s'.pid = pid.val)
      (restarts : s'.restarts = s.restarts) (probe : s'.probePid = 0) :
      SvcMove down idx s [⟨idx, .starting, 0, 0⟩, ⟨idx, .started, pid.val, 0⟩] s'
  | spawnReady {s' : Svc} (pid : Pid) (kin : Kin s s')
      (state : s'.state = .ready) (pidEq : s'.pid = pid.val)
      (restarts : s'.restarts = s.restarts) (probe : s'.probePid = 0) :
      SvcMove down idx s [⟨idx, .starting, 0, 0⟩, ⟨idx, .started, pid.val, 0⟩,
          ⟨idx, .ready, 0, 0⟩] s'
  | spawnFail {s' : Svc} (detail : Int) (kin : Kin s s')
      (idle : s.pid = 0) (state : s'.state = .failed) (pid : s'.pid = s.pid)
      (restarts : s'.restarts = s.restarts)
      (probe : s'.probePid = s.probePid) :
      SvcMove down idx s [⟨idx, .starting, 0, 0⟩, ⟨idx, .failed, failSpawn, detail⟩] s'
  | becomeReady {s' : Svc} (detail : Int) (reports : List Report)
      (kin : Kin s s') (source : s.state = .starting)
      (live : 0 < s.pid) (state : s'.state = .ready)
      (pid : s'.pid = s.pid) (restarts : s'.restarts = s.restarts)
      (announced : reports = [⟨idx, .ready, detail, 0⟩] ∨
        reports = [⟨idx, .failed, failProbe, 0⟩, ⟨idx, .ready, detail, 0⟩]) :
      SvcMove down idx s reports s'
  | depFail {s' : Svc} (dep : Int) (kin : Kin s s')
      (source : s.state = .pending) (idle : s.pid = 0)
      (state : s'.state = .failed)
      (pid : s'.pid = s.pid) (restarts : s'.restarts = s.restarts)
      (probe : s'.probePid = s.probePid) :
      SvcMove down idx s [⟨idx, .failed, failDependency, dep⟩] s'
  | exitIdle {s' : Svc} (kind value : Int) (kin : Kin s s')
      (state : s'.state = .exited ∨ (s'.state = .pending ∧ down = false))
      (pid : s'.pid = 0) (restarts : s'.restarts = s.restarts)
      (probe : s'.probePid = 0) :
      SvcMove down idx s [⟨idx, .exited, kind, value⟩] s'
  | exitStopped {s' : Svc} (kind value : Int) (kin : Kin s s')
      (state : s'.state = .stopped)
      (pid : s'.pid = 0) (restarts : s'.restarts = s.restarts)
      (probe : s'.probePid = 0) :
      SvcMove down idx s [⟨idx, .exited, kind, value⟩, ⟨idx, .stopped, 0, 0⟩] s'
  | exitFailed {s' : Svc} (kind value status : Int) (kin : Kin s s')
      (state : s'.state = .failed)
      (pid : s'.pid = 0) (restarts : s'.restarts = s.restarts)
      (probe : s'.probePid = 0) :
      SvcMove down idx s [⟨idx, .exited, kind, value⟩, ⟨idx, .failed, failOneshot, status⟩] s'
  | exitRestart {s' : Svc} (kind value delay : Int) (kin : Kin s s')
      (up : down = false) (free : s.operatorStopped = false)
      (state : s'.state = .restartWait)
      (pid : s'.pid = 0) (restarts : s'.restarts = s.restarts + 1)
      (probe : s'.probePid = 0) :
      SvcMove down idx s [⟨idx, .exited, kind, value⟩, ⟨idx, .restartIn, delay, s'.restarts⟩] s'

/-- The exit of a fail-container service: its process is gone, its reports are
out, and its state is left as it was. -/
structure Abandoned (idx : Nat) (s : Svc) (reports : List Report)
    (s' : Svc) : Prop where
  kin : Kin s s'
  onExit : s.decl.onExit = onExitFailContainer
  state : s'.state = s.state
  pid : s'.pid = 0
  restarts : s'.restarts = s.restarts
  probe : s'.probePid = 0
  announced : ∃ kind value status, reports = [⟨idx, .exited, kind, value⟩] ∨
      reports = [⟨idx, .exited, kind, value⟩, ⟨idx, .failed, failOneshot, status⟩]

/-- Only service `idx` changes, and the reports that go out name it. -/
structure Local (idx : Nat) (reports : List Report)
    (st st' : Supervisor) : Prop where
  count : st'.count = st.count
  shuttingDown : st'.shuttingDown = st.shuttingDown
  others : ∀ j, j ≠ idx → st'.svc j = st.svc j
  history : st'.outbox.history = st.outbox.history ++ reports
  own : ∀ r ∈ reports, r.service = (idx : Int)
  dropped : st.outbox.dropped ≤ st'.outbox.dropped

/-- Compositions of moves, of steps that touch no service, and of
`begin_shutdown`. -/
inductive Calm : Supervisor → Supervisor → Prop
  | refl (st : Supervisor) : Calm st st
  | trans {first second third : Supervisor} :
      Calm first second → Calm second third → Calm first third
  | aux {st st' : Supervisor} (svc : st'.svc = st.svc)
      (count : st'.count = st.count)
      (shuttingDown : st'.shuttingDown = st.shuttingDown)
      (reports : List Report)
      (history : st'.outbox.history = st.outbox.history ++ reports)
      (own : ∀ r ∈ reports, r.service = -1)
      (dropped : st.outbox.dropped ≤ st'.outbox.dropped) :
      Calm st st'
  | move {st st' : Supervisor} (idx : Nat) (reports : List Report)
      (touched : Local idx reports st st')
      (moved : SvcMove st.shuttingDown idx (st.svc idx) reports (st'.svc idx)) :
      Calm st st'
  | shutdown (code : Int) (st : Supervisor) : Calm st (beginShutdown code st)

theorem Svc.retired_kin (s : Svc) : Kin s s.retired := by
  unfold Svc.retired
  split <;> exact ⟨rfl, rfl⟩

section RetireOne

variable (idx : Nat) (st : Supervisor)

private theorem retireOne_svc (j : Nat) : (retireOne idx st).svc j =
      if j = idx then (st.svc j).retired else st.svc j := by
  unfold retireOne
  dsimp only
  split <;> rfl

private theorem retireOne_count : (retireOne idx st).count = st.count := by
  unfold retireOne
  dsimp only
  split <;> rfl

private theorem retireOne_shuttingDown : (retireOne idx st).shuttingDown = st.shuttingDown := by
  unfold retireOne
  dsimp only
  split <;> rfl

private theorem retireOne_outbox : (retireOne idx st).outbox = st.outbox := by
  unfold retireOne
  dsimp only
  split <;> rfl

private theorem retireOne_finished : (retireOne idx st).finished = st.finished := by
  unfold retireOne
  dsimp only
  split <;> rfl

end RetireOne

private theorem retire_spec (n : Nat) (st : Supervisor) : (∀ j, (forUp n retireOne st).svc j =
        if j < n then (st.svc j).retired else st.svc j) ∧
      (forUp n retireOne st).count = st.count ∧
      (forUp n retireOne st).shuttingDown = st.shuttingDown ∧
      (forUp n retireOne st).outbox = st.outbox ∧
      (forUp n retireOne st).finished = st.finished := by
  induction n with
  | zero => simp
  | succ n ih =>
    obtain ⟨svc, count, down, outbox, finished⟩ := ih
    rw [forUp_succ]
    refine ⟨fun j => ?_, ?_, ?_, ?_, ?_⟩
    · rw [retireOne_svc, svc j]
      by_cases last : j = n
      · simp [last]
      · by_cases earlier : j < n
        · simp [last, earlier, Nat.lt_succ_of_lt earlier]
        · have later : ¬ j < n + 1 := by omega
          simp [last, earlier, later]
    · rw [retireOne_count, count]
    · rw [retireOne_shuttingDown, down]
    · rw [retireOne_outbox, outbox]
    · rw [retireOne_finished, finished]

section BeginShutdown

variable (code : Int) (st : Supervisor)

theorem beginShutdown_of_shuttingDown (down : st.shuttingDown = true) :
    beginShutdown code st = st := by
  simp [beginShutdown, down]

theorem beginShutdown_svc (up : st.shuttingDown = false) (j : Nat) : (beginShutdown code st).svc j =
      if j < st.count then (st.svc j).retired else st.svc j := by
  unfold beginShutdown
  rw [if_neg (by simp [up])]
  exact (retire_spec st.count _).1 j

@[simp]
theorem beginShutdown_count : (beginShutdown code st).count = st.count := by
  unfold beginShutdown
  split
  · rfl
  · exact (retire_spec _ _).2.1

@[simp]
theorem beginShutdown_shuttingDown : (beginShutdown code st).shuttingDown = true := by
  unfold beginShutdown
  split
  · assumption
  · exact (retire_spec _ _).2.2.1

theorem beginShutdown_history (up : st.shuttingDown = false) :
    (beginShutdown code st).outbox.history = st.outbox.history ++ [⟨-1, .shutdown, 0, 0⟩] := by
  unfold beginShutdown
  rw [if_neg (by simp [up])]
  dsimp only
  rw [(retire_spec _ _).2.2.2.1]
  simp

theorem beginShutdown_dropped : st.outbox.dropped ≤ (beginShutdown code st).outbox.dropped := by
  unfold beginShutdown
  split
  · exact Nat.le_refl _
  · dsimp only
    rw [(retire_spec _ _).2.2.2.1]
    exact report_dropped _ _ _ _ _

@[simp]
theorem beginShutdown_finished : (beginShutdown code st).finished = st.finished := by
  unfold beginShutdown
  split
  · rfl
  · exact (retire_spec _ _).2.2.2.2

end BeginShutdown

end Cix.Init
