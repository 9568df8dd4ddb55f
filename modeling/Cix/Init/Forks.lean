import Cix.Init.Shutdown

/-!
# Who may be started, and when

`fork` for a service is called in one place, `start_service`, and only the
loop of `schedule` calls that.  Everything else that cix-init does is
`Forkless`, so what the loop checks before it starts a service is what can be
said of every process that is ever forked.
-/

namespace Cix.Init

open Cix.Lib Supervisor List

variable {st : Supervisor}

def Forkless (st st' : Supervisor) : Prop :=
  ∃ new, st'.effects = st.effects ++ new ∧ ∀ i pid, Effect.fork i pid ∉ new

namespace Forkless

theorem of_effects_eq {st' : Supervisor} (same : st'.effects = st.effects) :
    Forkless st st' :=
  ⟨[], by simp [same], by simp⟩

theorem refl (st : Supervisor) : Forkless st st :=
  of_effects_eq rfl

theorem trans {first second third : Supervisor}
    (left : Forkless first second) (right : Forkless second third) :
    Forkless first third := by
  obtain ⟨early, earlyEq, noneEarly⟩ := left
  obtain ⟨late, lateEq, noneLate⟩ := right
  refine ⟨early ++ late, by rw [lateEq, earlyEq, append_assoc], ?_⟩
  intro i pid mem
  rcases mem_append.mp mem with before | after
  · exact noneEarly i pid before
  · exact noneLate i pid after

theorem emit (st : Supervisor) {effect : Effect} (other : ∀ i pid, effect ≠ .fork i pid) :
    Forkless st (st.emit effect) := by
  refine ⟨[effect], rfl, fun i pid mem => ?_⟩
  exact other i pid (mem_singleton.mp mem).symm

theorem forUp {n : Nat} {body : Nat → Supervisor → Supervisor}
    (each : ∀ idx st, Forkless st (body idx st)) (st : Supervisor) :
    Forkless st (forUp n body st) :=
  forUp_invariant (fun _ current => Forkless st current)
    (fun idx current _ before => before.trans (each idx current)) (refl st)

theorem forDown {n : Nat} {body : Nat → Supervisor → Supervisor}
    (each : ∀ idx st, Forkless st (body idx st)) (st : Supervisor) :
    Forkless st (forDown n body st) :=
  forDown_invariant (fun _ current => Forkless st current)
    (fun idx current _ before => before.trans (each idx current)) (refl st)

end Forkless

/-! ## What forks nothing -/

theorem probeKill_forkless (idx : Nat) (st : Supervisor) : Forkless st (st.emit (.probeKill idx)) :=
  Forkless.emit st fun _ _ => Effect.noConfusion

theorem retireOne_forkless (idx : Nat) (st : Supervisor) : Forkless st (retireOne idx st) := by
  have retired : Forkless st (st.modSvc idx Svc.retired) := Forkless.of_effects_eq rfl
  unfold retireOne
  dsimp only
  split
  · exact retired.trans (probeKill_forkless idx _)
  · exact retired

theorem beginShutdown_forkless (code : Int) (st : Supervisor) :
    Forkless st (beginShutdown code st) := by
  unfold beginShutdown
  split
  · exact Forkless.refl st
  · dsimp only
    apply Forkless.trans _ (Forkless.forUp retireOne_forkless _)
    exact Forkless.of_effects_eq rfl

theorem sendStop_forkless (idx : Nat) (now : Int) (st : Supervisor) :
    Forkless st (sendStop idx now st) := by
  rcases sendStop_cases idx now st with ⟨_, same⟩ | ⟨_, _, sent⟩
  · rw [same]
    exact Forkless.refl st
  · rw [sent]
    exact (Forkless.emit st fun _ _ => Effect.noConfusion).trans (Forkless.of_effects_eq rfl)

theorem escalateStop_forkless (idx : Nat) (now : Int) (st : Supervisor) :
    Forkless st (escalateStop idx now st) := by
  rcases escalateStop_cases idx now st with same | killed
  · rw [same]
    exact Forkless.refl st
  · rw [killed]
    exact (Forkless.emit st fun _ _ => Effect.noConfusion).trans (Forkless.of_effects_eq rfl)

theorem shutdownStep_forkless (now : Int) (st : Supervisor) :
    Forkless st (shutdownStep now st) := by
  apply Forkless.forDown
  intro idx current
  unfold shutdownOne
  split
  · exact Forkless.refl current
  · split
    · exact Forkless.refl current
    · exact (sendStop_forkless idx now current).trans (escalateStop_forkless idx now _)

theorem probeSettle_forkless (idx : Nat) (now : Int) (ready : Bool)
    (st : Supervisor) : Forkless st (probeSettle idx now ready st) := by
  apply Forkless.of_effects_eq
  unfold probeSettle
  split
  · rfl
  · split <;> rfl

theorem probeService_forkless (env : Env) (idx : Nat) (now : Int)
    (st : Supervisor) : Forkless st (probeService env idx now st) := by
  unfold probeService
  dsimp only
  split
  · apply Forkless.trans _ (probeSettle_forkless idx now _ _)
    exact Forkless.of_effects_eq rfl
  · split
    · exact probeSettle_forkless idx now _ st
    · split
      · split
        · apply Forkless.of_effects_eq
          unfold probeCommandSpawn
          split <;> rfl
        · split
          · exact probeKill_forkless idx st
          · exact Forkless.refl st
      · exact probeSettle_forkless idx now _ st

theorem exitPolicy_forkless (idx : Nat) (kind value now : Int) (st : Supervisor) :
    Forkless st (exitPolicy idx kind value now st) := by
  unfold exitPolicy
  dsimp only
  split
  · split
    · exact Forkless.of_effects_eq rfl
    · split
      · apply Forkless.trans _ (beginShutdown_forkless _ _)
        exact Forkless.of_effects_eq rfl
      · exact Forkless.of_effects_eq rfl
  · split
    · exact Forkless.of_effects_eq rfl
    · split
      · exact beginShutdown_forkless _ st
      · exact Forkless.of_effects_eq rfl

theorem serviceExited_forkless (idx : Nat) (kind value now : Int) (st : Supervisor) :
    Forkless st (serviceExited idx kind value now st) := by
  have announced : Forkless st (exitAnnounced idx kind value st) := by
    unfold exitAnnounced
    split
    · exact (probeKill_forkless idx st).trans (Forkless.of_effects_eq rfl)
    · exact Forkless.of_effects_eq rfl
  rw [serviceExited_eq]
  apply announced.trans
  unfold exitDecided
  dsimp only
  split
  · exact Forkless.of_effects_eq rfl
  · split
    · exact Forkless.of_effects_eq rfl
    · split
      · exact Forkless.of_effects_eq rfl
      · apply Forkless.trans _ (exitPolicy_forkless idx kind value now _)
        exact Forkless.of_effects_eq rfl

theorem reapOne_forkless (pid : Pid) (status : Nat) (now : Int)
    (st : Supervisor) : Forkless st (reapOne pid status now st) := by
  have outcome := reapOne_cases pid status now st
  generalize reapOne pid status now st = st' at outcome
  cases outcome with
  | nobody => exact Forkless.refl st
  | service idx kind value found own ended =>
    exact serviceExited_forkless idx kind value now st
  | probe idx probing => exact Forkless.of_effects_eq rfl
  | probePassed idx probing starting => exact Forkless.of_effects_eq rfl

theorem handleCommand_forkless (c : Command) (now : Int)
    (st : Supervisor) : Forkless st (handleCommand c now st) := by
  have stop : ∀ idx, Forkless st (handleStop idx now st) := by
    intro idx
    unfold handleStop
    dsimp only
    split
    · apply Forkless.trans _ (sendStop_forkless idx now _)
      exact Forkless.of_effects_eq rfl
    · split <;> exact Forkless.of_effects_eq rfl
  have restart : ∀ idx, Forkless st (handleRestart idx now st) := by
    intro idx
    unfold handleRestart
    dsimp only
    split
    · apply Forkless.trans _ (sendStop_forkless idx now _)
      exact Forkless.of_effects_eq rfl
    · exact Forkless.of_effects_eq rfl
  unfold handleCommand
  split
  · exact Forkless.refl st
  · split
    · exact beginShutdown_forkless 0 st
    · split
      · exact Forkless.refl st
      · split
        · exact Forkless.of_effects_eq rfl
        · split
          · exact stop _
          · split
            · exact restart _
            · exact Forkless.refl st

theorem drainOne_forkless (message : ControlMsg) (now : Int)
    (st : Supervisor) : Forkless st (drainOne message now st) := by
  unfold drainOne
  split
  · cases message with
    | command c => exact handleCommand_forkless c now st
    | unexpectedSize => exact Forkless.refl st
    | closed => exact Forkless.of_effects_eq rfl
  · exact Forkless.refl st

/-! ## The loop of `schedule` -/

def Due (now : Int) (idx : Nat) (st : Supervisor) : Prop :=
  ((st.svc idx).state = .pending ∧ (st.svc idx).operatorStopped = false ∧
      depsSatisfied st idx = .satisfied) ∨
    ((st.svc idx).state = .restartWait ∧ (st.svc idx).restartAt ≤ now)

theorem startService_effects (env : Env) (idx : Nat) (st : Supervisor) :
    ∃ new, (startService env idx st).effects = st.effects ++ new ∧
      ∀ i pid, Effect.fork i pid ∈ new → i = idx := by
  unfold startService
  dsimp only
  cases env.fork idx with
  | error errno => exact ⟨[], by simp, by simp⟩
  | child pid =>
    refine ⟨[.fork idx pid], ?_, ?_⟩
    · dsimp only
      split <;> simp
    · intro i other mem
      exact (Effect.fork.inj (mem_singleton.mp mem)).1

variable {idx : Nat}

theorem schedulePending_effects (env : Env) {now : Int}
    (pending : (st.svc idx).state = .pending) :
    ∃ new, (schedulePending env idx st).effects = st.effects ++ new ∧
      ∀ i pid, Effect.fork i pid ∈ new → i = idx ∧ Due now idx st := by
  have quiet : ∀ {st' : Supervisor}, Forkless st st' → ∃ new, st'.effects = st.effects ++ new ∧
        ∀ i pid, Effect.fork i pid ∈ new → i = idx ∧ Due now idx st := by
    rintro st' ⟨new, equality, none⟩
    exact ⟨new, equality, fun i pid mem => absurd mem (none i pid)⟩
  unfold schedulePending
  split
  · exact quiet (Forkless.refl st)
  next wanted =>
    split
    next satisfied =>
      obtain ⟨new, equality, own⟩ := startService_effects env idx st
      exact ⟨new, equality, fun i pid mem => ⟨own i pid mem,
        Or.inl ⟨pending, by simpa using wanted, satisfied⟩⟩⟩
    next => exact quiet (Forkless.refl st)
    next dep _ =>
      apply quiet
      dsimp only
      split
      · apply Forkless.trans _ (beginShutdown_forkless _ _)
        exact Forkless.of_effects_eq rfl
      · exact Forkless.of_effects_eq rfl

theorem scheduleOne_effects (env : Env) (now : Int) (idx : Nat) (st : Supervisor) :
    ∃ new, (scheduleOne env now idx st).effects = st.effects ++ new ∧
      ∀ i pid, Effect.fork i pid ∈ new → i = idx ∧ Due now idx st := by
  have quiet : ∀ {st' : Supervisor}, Forkless st st' → ∃ new, st'.effects = st.effects ++ new ∧
        ∀ i pid, Effect.fork i pid ∈ new → i = idx ∧ Due now idx st := by
    rintro st' ⟨new, equality, none⟩
    exact ⟨new, equality, fun i pid mem => absurd mem (none i pid)⟩
  unfold scheduleOne
  split
  next pending => exact schedulePending_effects env pending
  next waiting =>
    split
    next due =>
      obtain ⟨new, equality, own⟩ := startService_effects env idx st
      exact ⟨new, equality, fun i pid mem => ⟨own i pid mem, Or.inr ⟨waiting, due⟩⟩⟩
    next => exact quiet (Forkless.refl st)
  next =>
    apply quiet
    apply Forkless.trans _ (escalateStop_forkless idx now _)
    split
    · exact probeService_forkless env idx now st
    · exact Forkless.refl st
  next => exact quiet (escalateStop_forkless idx now st)
  next => exact quiet (Forkless.refl st)

theorem scheduleUpTo_effects (env : Env) (now : Int) (n : Nat) (st : Supervisor) :
    ∃ new, (scheduleUpTo env now n st).effects = st.effects ++ new ∧
      ∀ i pid, Effect.fork i pid ∈ new → i < n ∧ Due now i (scheduleUpTo env now i st) := by
  induction n with
  | zero => exact ⟨[], by simp [scheduleUpTo], by simp⟩
  | succ n ih =>
    obtain ⟨early, earlyEq, earlyDue⟩ := ih
    obtain ⟨late, lateEq, lateDue⟩ := scheduleOne_effects env now n (scheduleUpTo env now n st)
    refine ⟨early ++ late, ?_, ?_⟩
    · rw [← append_assoc, ← earlyEq, ← lateEq]
      simp only [scheduleUpTo, forUp_succ]
    · intro i pid mem
      rcases mem_append.mp mem with before | here
      · obtain ⟨smaller, due⟩ := earlyDue i pid before
        exact ⟨Nat.lt_succ_of_lt smaller, due⟩
      · obtain ⟨rfl, due⟩ := lateDue i pid here
        exact ⟨Nat.lt_succ_self _, due⟩

theorem step_forkless_of_not_schedule {action : Action}
    (other : ¬ (st.finished = false ∧ st.shuttingDown = false ∧
      ∃ env now, action = .supervise env now)) :
    Forkless st (step st action) := by
  unfold step
  split
  · exact Forkless.refl st
  next running =>
    cases action with
    | reap pid status now => exact reapOne_forkless pid status now st
    | sigterm => exact beginShutdown_forkless 0 st
    | control message now => exact drainOne_forkless message now st
    | supervise env now =>
      have down : st.shuttingDown = true := by
        by_contra up
        exact other ⟨by simpa using running, by simpa using up, env, now,
          rfl⟩
      have stopped := shutdownStep_forkless now st
      change Forkless st (supervise env now st)
      rw [supervise, if_pos down]
      dsimp only
      split
      · exact stopped
      · exact stopped.trans (Forkless.of_effects_eq rfl)
    | flush written => exact Forkless.of_effects_eq rfl

/-- Every fork of a step happens in the loop of `schedule`, for a service that
was due at that point of the loop. -/
theorem step_forks (st : Supervisor) (action : Action) :
    ∃ new, (step st action).effects = st.effects ++ new ∧ ∀ i pid, Effect.fork i pid ∈ new →
        st.shuttingDown = false ∧ ∃ env now, action = .supervise env now ∧
          i < st.count ∧ Due now i (scheduleUpTo env now i st) := by
  by_cases schedules : st.finished = false ∧ st.shuttingDown = false ∧
      ∃ env now, action = .supervise env now
  · obtain ⟨running, up, env, now, rfl⟩ := schedules
    obtain ⟨new, equality, due⟩ := scheduleUpTo_effects env now st.count st
    refine ⟨new, ?_, fun i pid mem => ?_⟩
    · rw [step, if_neg (by simp [running]), ← equality]
      rw [supervise, if_neg (by simp [up])]
      dsimp only
      split <;> rfl
    · obtain ⟨inTable, dueHere⟩ := due i pid mem
      exact ⟨up, env, now, rfl, inTable, dueHere⟩
  · obtain ⟨new, equality, none⟩ := step_forkless_of_not_schedule schedules
    exact ⟨new, equality, fun i pid mem => absurd mem (none i pid)⟩

/-! ## The rules of starting -/

variable {table : Table}

theorem depsScan_satisfied {svc : Nat → Svc} {mask : Nat}
    {candidates : List Nat}
    (satisfied : depsScan svc mask candidates = .satisfied) :
    ∀ j ∈ candidates, mask.testBit j = true → depReady (svc j) = true := by
  induction candidates with
  | nil => simp
  | cons head rest ih =>
    intro j mem bit
    unfold depsScan at satisfied
    split at satisfied
    next clear =>
      rcases mem_cons.mp mem with rfl | later
      · rw [bit] at clear
        exact absurd clear (by simp)
      · exact ih satisfied j later bit
    next =>
      split at satisfied
      next => exact absurd satisfied (by simp)
      next =>
        split at satisfied
        next => exact absurd satisfied (by simp)
        next ready =>
          rcases mem_cons.mp mem with rfl | later
          · simpa using ready
          · exact ih satisfied j later bit

structure MayStart (table : Table) (now : Int) (idx : Nat)
    (st : Supervisor) : Prop where
  inTable : idx < table.records.length
  up : st.shuttingDown = false
  wanted : (st.svc idx).operatorStopped = false
  due : ((st.svc idx).state = .pending ∧ ∀ j, DependsOn table idx j → depReady (st.svc j) = true) ∨
    ((st.svc idx).state = .restartWait ∧ (st.svc idx).restartAt ≤ now)

theorem Due.mayStart {now : Int} (due : Due now idx st)
    (tracked : Tracked table st) (declared : Declared table st)
    (disarmed : Disarmed st) (count : st.count = table.records.length)
    (inTable : idx < table.records.length) : MayStart table now idx st := by
  have armed : (st.svc idx).armed := by
    rcases due with ⟨pending, _⟩ | ⟨waiting, _⟩
    · exact Or.inl pending
    · exact Or.inr waiting
  have up : st.shuttingDown = false := by
    by_contra down
    exact disarmed (by simpa using down) idx (by rw [count]; exact inTable) armed
  rcases due with ⟨pending, wanted, satisfied⟩ | ⟨waiting, time⟩
  · refine ⟨inTable, up, wanted, Or.inl ⟨pending, fun j depends => ?_⟩⟩
    unfold depsSatisfied at satisfied
    rw [declared idx] at satisfied
    exact depsScan_satisfied satisfied j (mem_range.mpr depends.lt) depends.2
  · exact ⟨inTable, up, (tracked idx).waits waiting, Or.inr ⟨waiting, time⟩⟩

/-- Every fork of this step is one that the rules allow at the point of the
loop of `schedule` where it happens. -/
def StartsByTheRules (table : Table) (st : Supervisor) (action : Action) :
    Prop :=
  ∀ new, (step st action).effects = st.effects ++ new → ∀ i pid, Effect.fork i pid ∈ new →
      ∃ env now, action = .supervise env now ∧ MayStart table now i (scheduleUpTo env now i st)

theorem run_startsByTheRules (table : Table) (before : List Action) (action : Action) :
    StartsByTheRules table (run step (boot table) before) action := by
  intro new equality i pid mem
  obtain ⟨forks, same, due⟩ := step_forks (run step (boot table) before) action
  have newEq : new = forks := append_cancel_left (equality.symm.trans same)
  rw [newEq] at mem
  obtain ⟨up, env, now, schedules, inTable, dueHere⟩ := due i pid mem
  have tracked := run_tracked table before
  have calm := scheduleUpTo_calm env now i (tracked.ready.sound up)
  have count : (scheduleUpTo env now i
      (run step (boot table) before)).count = table.records.length :=
    calm.count_eq.trans (run_count table before)
  refine ⟨env, now, schedules, dueHere.mayStart (calm.tracked tracked)
    (calm.declared (run_declared table before))
    (calm.disarmed fun down => ?_) count ?_⟩
  · rw [up] at down
    exact absurd down (by simp)
  · rw [run_count] at inTable
    exact inTable

/-! ## What the operator stopped stays stopped -/

/-- A START or RESTART command for service `idx`. -/
def Restarts (idx : Nat) (action : Action) : Prop :=
  ∃ c now, action = .control (.command c) now ∧ c.magic = magic ∧
    c.service = (idx : Int) ∧ (c.op = opStart ∨ c.op = opRestart)

theorem Calm.operatorStopped_eq {st st' : Supervisor} (calm : Calm st st') (idx : Nat) :
    (st'.svc idx).operatorStopped = (st.svc idx).operatorStopped := by
  induction calm with
  | refl => rfl
  | trans _ _ first second => exact second.trans first
  | aux svc count down reports history own dropped => rw [svc]
  | move other reports touched moved =>
    by_cases same : idx = other
    · rw [same]
      exact moved.kin.operatorStopped
    · rw [touched.others idx same]
  | shutdown code st =>
    cases down : st.shuttingDown with
    | true => rw [beginShutdown_of_shuttingDown code st down]
    | false =>
      rw [beginShutdown_svc code st down]
      split
      · exact (Svc.retired_kin _).operatorStopped
      · rfl

theorem step_operatorStopped {action : Action}
    (tracked : Tracked table st) (stopped : (st.svc idx).operatorStopped = true)
    (other : ¬ Restarts idx action) :
    ((step st action).svc idx).operatorStopped = true := by
  rcases step_cases tracked.ready action with
    calm | ⟨c, now, named, sent, _, _, addressed, reports, touched, commanded⟩ |
      ⟨_, _, _, named, _, _, _, code, middle, reports, equal, up, touched,
        left⟩
  · rw [calm.operatorStopped_eq]
    exact stopped
  · by_cases same : idx = named
    · have stops : ¬ (c.op = opStart ∨ c.op = opRestart) := by
        intro starts
        exact other ⟨c, now, sent, addressed.magic, by rw [addressed.service, same], starts⟩
      rw [same] at stopped ⊢
      generalize (step st action).svc named = s' at commanded ⊢
      cases commanded with
      | kept decl state pid restarts probe wanted obeyed alive => exact obeyed stops
      | armed decl idle state pid restarts probe wanted starts =>
        exact absurd starts stops
      | stopped decl idle state pid restarts probe stops obeyed => exact obeyed
    · rw [touched.others idx same]
      exact stopped
  · rw [equal, (Calm.shutdown code middle).operatorStopped_eq]
    by_cases same : idx = named
    · rw [same] at stopped ⊢
      rw [left.kin.operatorStopped]
      exact stopped
    · rw [touched.others idx same]
      exact stopped

theorem step_no_fork_of_stopped {before : List Action}
    (stopped : ((run step (boot table) before).svc idx).operatorStopped = true) (action : Action) :
    ∃ new, (step (run step (boot table) before) action).effects =
        (run step (boot table) before).effects ++ new ∧
      ∀ pid, Effect.fork idx pid ∉ new := by
  obtain ⟨new, equality, due⟩ := step_forks (run step (boot table) before) action
  refine ⟨new, equality, fun pid mem => ?_⟩
  obtain ⟨env, now, _, may⟩ := run_startsByTheRules table before action new equality idx pid mem
  have up := (due idx pid mem).1
  have calm := scheduleUpTo_calm env now idx ((run_tracked table before).ready.sound up)
  have wanted := may.wanted
  rw [calm.operatorStopped_eq, stopped] at wanted
  exact absurd wanted (by simp)

theorem run_no_fork_of_stopped {table : Table} {before : List Action}
    (stopped : ((run step (boot table) before).svc idx).operatorStopped =
      true) {later : List Action}
    (unasked : ∀ action ∈ later, ¬ Restarts idx action) :
    ((run step (boot table) (before ++ later)).svc idx).operatorStopped = true ∧
      ∃ new, (run step (boot table) (before ++ later)).effects =
          (run step (boot table) before).effects ++ new ∧
        ∀ pid, Effect.fork idx pid ∉ new := by
  induction later using List.reverseRecOn with
  | nil =>
    rw [append_nil]
    exact ⟨stopped, [], by simp, by simp⟩
  | append_singleton later action ih =>
    obtain ⟨still, early, earlyEq, noneEarly⟩ :=
      ih fun other mem =>
        unasked other (mem_append_left _ mem)
    obtain ⟨late, lateEq, noneLate⟩ := step_no_fork_of_stopped still action
    rw [← append_assoc, run_snoc]
    refine ⟨step_operatorStopped (run_tracked table (before ++ later))
      still (unasked action (by simp)), early ++ late, ?_, ?_⟩
    · rw [lateEq, earlyEq, append_assoc]
    · intro pid mem
      rcases mem_append.mp mem with first | second
      · exact noneEarly pid first
      · exact noneLate pid second

/-- A STOP command for service `idx` that cix-init handles. -/
def Stops (st : Supervisor) (idx : Nat) (action : Action) : Prop :=
  ∃ c now, action = .control (.command c) now ∧ st.finished = false ∧
    st.controlOpen = true ∧ Addressed c st idx ∧ c.op = opStop

theorem step_of_stops {st : Supervisor} {action : Action}
    (stops : Stops st idx action) :
    ((step st action).svc idx).operatorStopped = true ∧ Forkless st (step st action) := by
  obtain ⟨c, now, rfl, running, opened, addressed, op⟩ := stops
  have reduced : step st (.control (.command c) now) =
      handleCommand c now st := by
    rw [step, if_neg (by simp [running])]
    simp [drainOne, opened]
  have inTable := addressed.inTable
  have handled : handleCommand c now st = handleStop idx now st := by
    unfold handleCommand
    rw [if_neg (not_not.mpr addressed.magic), if_neg (by rw [op]; decide),
      if_neg (by rw [addressed.service]; omega),
      if_neg (by rw [op]; decide), if_pos op, addressed.service]
    rfl
  rw [reduced]
  refine ⟨?_, handleCommand_forkless c now st⟩
  rw [handled]
  obtain ⟨reports, touched, commanded⟩ := handleStop_command idx now st
  generalize (handleStop idx now st).svc idx = s' at commanded
  cases commanded with
  | kept decl state pid restarts probe wanted obeyed alive => exact obeyed (by decide)
  | armed decl idle state pid restarts probe wanted starts =>
    exact absurd starts (by decide)
  | stopped decl idle state pid restarts probe stops obeyed => exact obeyed

/-! ## The invariant of the supervisor -/

/-- A service has a process exactly if it is starting or ready, but for a
fail-container service during the shutdown. -/
def PidMatchesState (st : Supervisor) : Prop :=
  ∀ idx, (0 < (st.svc idx).pid → (st.svc idx).state = .starting ∨ (st.svc idx).state = .ready) ∧
    ((st.svc idx).state = .starting ∨ (st.svc idx).state = .ready →
      st.shuttingDown = false ∨ (st.svc idx).decl.onExit ≠ onExitFailContainer →
      0 < (st.svc idx).pid)

theorem Tracked.pidMatchesState (tracked : Tracked table st) :
    PidMatchesState st := by
  intro idx
  refine ⟨(tracked idx).live, fun state usual => ?_⟩
  rcases (tracked idx).held state with live | ⟨down, onExit⟩
  · exact live
  · rcases usual with up | other
    · rw [down] at up
      exact absurd up (by simp)
    · exact absurd onExit other

/-- In every run: pids and states match; every fork is by the rules; and after
a handled STOP nothing is forked for the service until a START or RESTART
command for it. -/
theorem supervisor_invariant (table : Table) (actions : List Action) :
    Throughout step PidMatchesState (boot table) actions ∧
      Guarded step (StartsByTheRules table) (boot table) actions ∧
      ∀ before stop later after idx, actions = before ++ stop :: (later ++ after) →
        Stops (run step (boot table) before) idx stop →
        (∀ action ∈ later, ¬ Restarts idx action) →
        ∃ new, (run step (boot table) (before ++ stop :: later)).effects =
            (run step (boot table) before).effects ++ new ∧
          ∀ pid, Effect.fork idx pid ∉ new := by
  refine ⟨?_, ?_, ?_⟩
  · intro before after equality
    exact (run_tracked table before).pidMatchesState
  · intro before action after equality
    exact run_startsByTheRules table before action
  · intro before stop later after idx equality stops unasked
    obtain ⟨stopped, none, noneEq, noFork⟩ := step_of_stops stops
    rw [← run_snoc step] at stopped noneEq
    obtain ⟨_, new, newEq, noneNew⟩ := run_no_fork_of_stopped stopped unasked
    refine ⟨none ++ new, ?_, ?_⟩
    · rw [← append_assoc, ← noneEq, ← newEq, append_assoc]
      rfl
    · intro pid mem
      rcases mem_append.mp mem with first | second
      · exact noFork idx pid first
      · exact noneNew pid second

/-! ## A restart does not wait for dependencies -/

def StartsOnlyPending (table : Table) (st : Supervisor) (action : Action) :
    Prop :=
  ∀ new, (step st action).effects = st.effects ++ new → ∀ i pid, Effect.fork i pid ∈ new →
      ∃ env now, action = .supervise env now ∧
        ((scheduleUpTo env now i st).svc i).state = .pending ∧
        (scheduleUpTo env now i st).shuttingDown = false ∧
        ∀ j, DependsOn table i j → depReady ((scheduleUpTo env now i st).svc j) = true

def restartTable : Table where
  records :=
    [plainRecord typeDaemon 0 readyNone onExitStop,
      plainRecord typeDaemon 1 readyNone onExitRestart]
  addrCount := 0
  nonempty := by decide
  bounded := by decide
  valid := by decide +kernel

def restartRun : List Action :=
  [plainTurn 1000 [] false [], plainTurn 2000 [(plainPid 0, 0), (plainPid 1, 0)] false
      []].flatMap Turn.actions

/-- The second daemon is forked again from `ST_RESTART_WAIT`, while the first
one, which it depends on, is down. -/
theorem restart_forks_without_dependency :
    ((run step (boot restartTable) restartRun).svc 1).state = .restartWait ∧
      depReady ((run step (boot restartTable) restartRun).svc 0) = false ∧
      ¬ Guarded step (StartsOnlyPending restartTable) (boot restartTable)
        (restartRun ++ [.supervise plainEnv 9000]) := by
  refine ⟨by decide +kernel, by decide +kernel, fun strict => ?_⟩
  obtain ⟨env, now, equal, pending, _⟩ :=
    strict restartRun (.supervise plainEnv 9000) [] rfl
      [.fork 1 (plainPid 1)] (by decide +kernel) 1 (plainPid 1)
      (by decide +kernel)
  obtain ⟨rfl, rfl⟩ := Action.supervise.inj equal
  exact absurd pending (by decide +kernel)

end Cix.Init
