import Cix.Init.Moves

/-!
# Every step of cix-init as a composition of moves

One lemma for each function of the source, down to `step_cases`: a step is a
composition of moves, or a command that changes what the operator wants, or
the exit of a fail-container service.
-/

namespace Cix.Init

open Cix.Lib Supervisor List

/-! ## Building local changes -/

namespace Local

variable {idx : Nat} {reports : List Report} {st st' : Supervisor}

theorem refl (idx : Nat) (st : Supervisor) : Local idx [] st st where
  count := rfl
  shuttingDown := rfl
  others := fun _ _ => rfl
  history := by simp
  own := by simp
  dropped := Nat.le_refl _

theorem emit (touched : Local idx reports st st') (effect : Effect) :
    Local idx reports st (st'.emit effect) :=
  { touched with }

theorem modSvc (touched : Local idx reports st st') (change : Svc → Svc) :
    Local idx reports st (st'.modSvc idx change) :=
  { touched with
    others := fun j other => by
      rw [modSvc_svc, if_neg other]
      exact touched.others j other }

theorem exitCode (touched : Local idx reports st st') (code : Int) :
    Local idx reports st { st' with exitCode := code } :=
  { touched with }

theorem report (touched : Local idx reports st st') (event : Event) (a b : Int) :
    Local idx (reports ++ [⟨idx, event, a, b⟩]) st (report idx event a b st') :=
  { touched with
    history := by
      rw [report_history, touched.history, append_assoc]
    own := by
      intro r mem
      rcases mem_append.mp mem with earlier | last
      · exact touched.own r earlier
      · rw [mem_singleton.mp last]
    dropped := touched.dropped.trans (report_dropped _ _ _ _ _) }

theorem calm_of_quiet (touched : Local idx [] st st') (kin : Kin (st.svc idx) (st'.svc idx))
    (state : (st'.svc idx).state = (st.svc idx).state)
    (pid : (st'.svc idx).pid = (st.svc idx).pid)
    (restarts : (st'.svc idx).restarts = (st.svc idx).restarts)
    (probe : 0 < (st'.svc idx).probePid → 0 < (st.svc idx).probePid ∨
      ((st.svc idx).state = .starting ∧ 0 < (st.svc idx).pid)) :
    Calm st st' :=
  Calm.move idx [] touched (SvcMove.quiet kin state pid restarts probe)

end Local

theorem Calm.emit (st : Supervisor) (effect : Effect) : Calm st (st.emit effect) :=
  Calm.aux rfl rfl rfl [] (by simp) (by simp) (Nat.le_refl _)

theorem Calm.ownReport (st : Supervisor) (event : Event) (a b : Int) :
    Calm st (report (-1) event a b st) :=
  Calm.aux rfl rfl rfl _ (report_history _ _ _ _ _) (by simp) (report_dropped _ _ _ _ _)

/-! ## Starting and probing -/

theorem startService_calm (env : Env) {idx : Nat} {st : Supervisor} (idle : (st.svc idx).pid = 0) :
    Calm st (startService env idx st) := by
  unfold startService
  dsimp only
  cases env.fork idx with
  | error errno =>
    apply Calm.move idx _ (((((Local.refl idx st).report .starting 0 0).modSvc
        Svc.spawnFailed).exitCode 126).report .failed failSpawn (-(errno : Int)))
    exact SvcMove.spawnFail _ ⟨by simp [Svc.spawnFailed],
      by simp [Svc.spawnFailed]⟩ idle (by simp [Svc.spawnFailed])
      (by simp [Svc.spawnFailed]) (by simp [Svc.spawnFailed])
      (by simp [Svc.spawnFailed])
  | child pid =>
    have spawned := ((((Local.refl idx st).report .starting 0 0).emit
      (.fork idx pid)).modSvc (Svc.spawned pid (env.clock idx))).report .started pid.val 0
    dsimp only
    split
    · apply Calm.move idx _ ((spawned.modSvc (Svc.withState .ready)).report .ready 0 0)
      exact SvcMove.spawnReady pid ⟨by simp [Svc.withState, Svc.spawned],
          by simp [Svc.withState, Svc.spawned]⟩
        (by simp [Svc.withState]) (by simp [Svc.withState, Svc.spawned])
        (by simp [Svc.withState, Svc.spawned])
        (by simp [Svc.withState, Svc.spawned])
    · apply Calm.move idx _ spawned
      exact SvcMove.spawn pid ⟨by simp [Svc.spawned], by simp [Svc.spawned]⟩
        (by simp [Svc.spawned]) (by simp [Svc.spawned])
        (by simp [Svc.spawned]) (by simp [Svc.spawned])

structure ProbeKin (s s' : Svc) : Prop where
  kin : Kin s s'
  state : s'.state = s.state
  pid : s'.pid = s.pid
  restarts : s'.restarts = s.restarts
  probePid : s'.probePid = s.probePid

theorem probeTcpPoll_kin (answer : ConnectPoll) (s : Svc) :
    ProbeKin s (probeTcpPoll answer s).2 := by
  cases answer <;> exact ⟨⟨rfl, rfl⟩, rfl, rfl, rfl, rfl⟩

theorem probeTcp_kin (answer : TcpAnswer) (s : Svc) : ProbeKin s (probeTcp answer s).2 := by
  have same : ProbeKin s s := ⟨⟨rfl, rfl⟩, rfl, rfl, rfl, rfl⟩
  unfold probeTcp
  split
  · exact probeTcpPoll_kin _ _
  · split
    · exact same
    · cases answer.connect with
      | connected => exact same
      | refused => exact same
      | inProgress =>
        obtain ⟨kin, state, pid, restarts, probePid⟩ :=
          probeTcpPoll_kin answer.poll { s with probeFd := true }
        exact ⟨⟨kin.decl, kin.operatorStopped⟩, state, pid, restarts, probePid⟩

theorem ProbeKin.trans {first second third : Svc}
    (left : ProbeKin first second) (right : ProbeKin second third) :
    ProbeKin first third :=
  ⟨left.kin.trans right.kin, right.state.trans left.state,
    right.pid.trans left.pid, right.restarts.trans left.restarts,
    right.probePid.trans left.probePid⟩

theorem probeTcpRotate_kin (addrCount : Nat) (answer : TcpAnswer) (s : Svc) :
    ProbeKin s (probeTcpRotate addrCount answer s).2 := by
  unfold probeTcpRotate
  dsimp only
  have bounded : ProbeKin s (if s.probeAddrIdx ≥ 1 + addrCount then
      { s with probeAddrIdx := 0 } else s) := by
    split <;> exact ⟨⟨rfl, rfl⟩, rfl, rfl, rfl, rfl⟩
  generalize (if s.probeAddrIdx ≥ 1 + addrCount then
      { s with probeAddrIdx := 0 } else s) = candidate at bounded ⊢
  have probed := bounded.trans (probeTcp_kin answer candidate)
  generalize probeTcp answer candidate = outcome at probed ⊢
  by_cases concluded : (!outcome.1 && !outcome.2.probeFd) = true
  · rw [if_pos concluded]
    exact probed.trans ⟨⟨rfl, rfl⟩, rfl, rfl, rfl, rfl⟩
  · rw [if_neg concluded]
    exact probed

theorem probeSettle_calm (idx : Nat) (now : Int) (ready : Bool)
    {st : Supervisor} (starting : (st.svc idx).state = .starting)
    (live : 0 < (st.svc idx).pid) :
    Calm st (probeSettle idx now ready st) := by
  unfold probeSettle
  split
  · apply Calm.move idx _ (((Local.refl idx st).modSvc (Svc.withState .ready)).report .ready 0 0)
    exact SvcMove.becomeReady 0 _ ⟨by simp [Svc.withState],
      by simp [Svc.withState]⟩ starting live (by simp [Svc.withState])
      (by simp [Svc.withState]) (by simp [Svc.withState]) (Or.inl rfl)
  · split
    · dsimp only
      apply Calm.move idx _ ((((Local.refl idx st).report .failed failProbe
        0).modSvc fun s => { s with probeFd := false, state := .ready
          }).report .ready 1 0)
      exact SvcMove.becomeReady 1 _ ⟨by simp, by simp⟩ starting live
        (by simp) (by simp) (by simp) (Or.inr rfl)
    · exact Calm.refl st

theorem probeService_calm (env : Env) {idx : Nat} (now : Int)
    {st : Supervisor} (starting : (st.svc idx).state = .starting)
    (live : 0 < (st.svc idx).pid) :
    Calm st (probeService env idx now st) := by
  unfold probeService
  dsimp only
  split
  · have kin := probeTcpRotate_kin st.addrCount (env.tcp idx) (st.svc idx)
    have touched := (Local.refl idx st).modSvc fun _ =>
      (probeTcpRotate st.addrCount (env.tcp idx) (st.svc idx)).2
    refine Calm.trans (touched.calm_of_quiet ?_ ?_ ?_ ?_ ?_) (probeSettle_calm idx now _ ?_ ?_)
    · simpa using kin.kin
    · simpa using kin.state
    · simpa using kin.pid
    · simpa using kin.restarts
    · intro probing
      rw [modSvc_svc, if_pos rfl, kin.probePid] at probing
      exact Or.inl probing
    · simpa [kin.state] using starting
    · simpa [kin.pid] using live
  · split
    · exact probeSettle_calm idx now _ starting live
    · split
      · split
        · unfold probeCommandSpawn
          cases env.probeFork idx with
          | error errno => exact Calm.refl st
          | child pid =>
            exact ((Local.refl idx st).modSvc _).calm_of_quiet
              ⟨by simp, by simp⟩ (by simp) (by simp) (by simp)
              (fun _ => Or.inr ⟨starting, live⟩)
        · split
          · exact Calm.emit st _
          · exact Calm.refl st
      · exact probeSettle_calm idx now _ starting live

/-! ## Stopping -/

theorem sendStop_cases (idx : Nat) (now : Int) (st : Supervisor) :
    (((st.svc idx).pid = 0 ∨ (st.svc idx).stopSentAt ≠ 0) ∧ sendStop idx now st = st) ∨
      (0 < (st.svc idx).pid ∧ (st.svc idx).stopSentAt = 0 ∧ sendStop idx now st =
          (st.emit (.stop idx (st.svc idx).decl.stopSignal)).modSvc idx
            fun s => { s with stopSentAt := now }) := by
  unfold sendStop
  by_cases silent : (st.svc idx).pid = 0 ∨ (st.svc idx).stopSentAt ≠ 0
  · exact Or.inl ⟨silent, if_pos silent⟩
  · have signalled : 0 < (st.svc idx).pid ∧ (st.svc idx).stopSentAt = 0 := by omega
    exact Or.inr ⟨signalled.1, signalled.2, if_neg silent⟩

theorem escalateStop_cases (idx : Nat) (now : Int) (st : Supervisor) :
    escalateStop idx now st = st ∨ escalateStop idx now st =
        (st.emit (.kill idx)).modSvc idx fun s => { s with killed := true } := by
  unfold escalateStop
  dsimp only
  generalize (if (st.svc idx).decl.stopTimeoutSeconds > 0 then
    (st.svc idx).decl.stopTimeoutSeconds else 10) * 1000 = timeout
  split
  · exact Or.inl rfl
  · split
    · exact Or.inr rfl
    · exact Or.inl rfl

theorem sendStop_calm (idx : Nat) (now : Int) (st : Supervisor) :
    Calm st (sendStop idx now st) := by
  rcases sendStop_cases idx now st with ⟨_, same⟩ | ⟨_, _, sent⟩
  · rw [same]
    exact Calm.refl st
  · rw [sent]
    exact (((Local.refl idx st).emit _).modSvc _).calm_of_quiet
      ⟨by simp, by simp⟩ (by simp) (by simp) (by simp)
      (fun probing => Or.inl (by simpa using probing))

theorem escalateStop_calm (idx : Nat) (now : Int) (st : Supervisor) :
    Calm st (escalateStop idx now st) := by
  rcases escalateStop_cases idx now st with same | killed
  · rw [same]
    exact Calm.refl st
  · rw [killed]
    exact (((Local.refl idx st).emit _).modSvc _).calm_of_quiet
      ⟨by simp, by simp⟩ (by simp) (by simp) (by simp)
      (fun probing => Or.inl (by simpa using probing))

theorem shutdownOne_calm (now : Int) (idx : Nat) (st : Supervisor) :
    Calm st (shutdownOne now idx st) := by
  unfold shutdownOne
  split
  · exact Calm.refl st
  · split
    · exact Calm.refl st
    · exact Calm.trans (sendStop_calm idx now st) (escalateStop_calm idx now _)

theorem shutdownStep_calm (now : Int) (st : Supervisor) : Calm st (shutdownStep now st) :=
  forDown_invariant (fun _ current => Calm st current) (fun idx current _ calm =>
      Calm.trans calm (shutdownOne_calm now idx current))
    (Calm.refl st)

/-! ## Scheduling -/

def Sound (st : Supervisor) : Prop :=
  ∀ i, 0 < (st.svc i).pid ↔ (st.svc i).state = .starting ∨ (st.svc i).state = .ready

theorem SvcMove.sound {down : Bool} {idx : Nat} {s s' : Svc}
    {reports : List Report} (moved : SvcMove down idx s reports s')
    (sound : 0 < s.pid ↔ s.state = .starting ∨ s.state = .ready) :
    0 < s'.pid ↔ s'.state = .starting ∨ s'.state = .ready := by
  cases moved with
  | quiet kin state pid restarts probe =>
    rw [state, pid]
    exact sound
  | spawn pid kin state pidEq restarts probe => simp [state, pidEq, pid.positive]
  | spawnReady pid kin state pidEq restarts probe => simp [state, pidEq, pid.positive]
  | spawnFail detail kin idle state pid restarts probe => simp [state, pid, idle]
  | becomeReady detail reports kin source live state pid restarts announced =>
    simp [state, pid, live]
  | depFail dep kin source idle state pid restarts probe => simp [state, pid, idle]
  | exitIdle kind value kin state pid restarts probe =>
    rcases state with exited | ⟨pending, _⟩
    · simp [exited, pid]
    · simp [pending, pid]
  | exitStopped kind value kin state pid restarts probe => simp [state, pid]
  | exitFailed kind value status kin state pid restarts probe => simp [state, pid]
  | exitRestart kind value delay kin up free state pid restarts probe =>
    simp [state, pid]

theorem Svc.retired_sound {s : Svc} (sound : 0 < s.pid ↔ s.state = .starting ∨ s.state = .ready) :
    0 < s.retired.pid ↔ s.retired.state = .starting ∨ s.retired.state = .ready := by
  unfold Svc.retired
  split
  next idle =>
    rcases idle with pending | waiting
    · simpa [pending] using sound
    · simpa [waiting] using sound
  next => exact sound

theorem beginShutdown_sound (code : Int) {st : Supervisor}
    (sound : Sound st) : Sound (beginShutdown code st) := by
  intro i
  cases down : st.shuttingDown with
  | true =>
    rw [beginShutdown_of_shuttingDown code st down]
    exact sound i
  | false =>
    rw [beginShutdown_svc code st down]
    split
    · exact Svc.retired_sound (sound i)
    · exact sound i

theorem Calm.sound {st st' : Supervisor} (calm : Calm st st') (sound : Sound st) : Sound st' := by
  induction calm with
  | refl => exact sound
  | trans _ _ first second => exact second (first sound)
  | aux svc count down reports history own dropped =>
    intro i
    rw [svc]
    exact sound i
  | move idx reports touched moved =>
    intro i
    by_cases same : i = idx
    · rw [same]
      exact moved.sound (sound idx)
    · rw [touched.others i same]
      exact sound i
  | shutdown code st => exact beginShutdown_sound code sound

theorem schedulePending_calm (env : Env) {idx : Nat} {st : Supervisor}
    (sound : Sound st) (pending : (st.svc idx).state = .pending) :
    Calm st (schedulePending env idx st) := by
  have idle : (st.svc idx).pid = 0 := by
    have := (sound idx).not.mpr (by simp [pending])
    omega
  unfold schedulePending
  split
  · exact Calm.refl st
  · split
    · exact startService_calm env idle
    · exact Calm.refl st
    next dep _ =>
      have failed : Calm st (report idx .failed failDependency dep
          (st.modSvc idx (Svc.withState .failed))) := by
        apply Calm.move idx _ (((Local.refl idx st).modSvc
          (Svc.withState .failed)).report .failed failDependency dep)
        exact SvcMove.depFail _ ⟨by simp [Svc.withState],
          by simp [Svc.withState]⟩ pending idle (by simp [Svc.withState])
          (by simp [Svc.withState]) (by simp [Svc.withState])
          (by simp [Svc.withState])
      dsimp only
      split
      · exact Calm.trans failed (Calm.shutdown _ _)
      · exact failed

theorem scheduleOne_calm (env : Env) (now : Int) (idx : Nat)
    {st : Supervisor} (sound : Sound st) :
    Calm st (scheduleOne env now idx st) := by
  unfold scheduleOne
  split
  next pending => exact schedulePending_calm env sound pending
  next waiting =>
    have idle : (st.svc idx).pid = 0 := by
      have := (sound idx).not.mpr (by simp [waiting])
      omega
    split
    · exact startService_calm env idle
    · exact Calm.refl st
  next starting =>
    have live := (sound idx).mpr (Or.inl starting)
    apply Calm.trans _ (escalateStop_calm idx now _)
    split
    · exact probeService_calm env now starting live
    · exact Calm.refl st
  next => exact escalateStop_calm idx now st
  next => exact Calm.refl st

theorem scheduleUpTo_calm (env : Env) (now : Int) (n : Nat)
    {st : Supervisor} (sound : Sound st) :
    Calm st (scheduleUpTo env now n st) :=
  forUp_invariant (fun _ current => Calm st current) (fun idx _ _ calm =>
      Calm.trans calm (scheduleOne_calm env now idx (calm.sound sound)))
    (Calm.refl st)

theorem finish_calm (written : Nat) (st : Supervisor) : Calm st (finish written st) :=
  Calm.aux rfl rfl rfl [] (by simp [finish, reportFlush]) (by simp) (Nat.le_refl _)

theorem supervise_calm (env : Env) (now : Int) {st : Supervisor}
    (sound : st.shuttingDown = false → Sound st) :
    Calm st (supervise env now st) := by
  unfold supervise
  by_cases down : st.shuttingDown = true
  · rw [if_pos down]
    have stopped := shutdownStep_calm now st
    dsimp only
    split
    · exact stopped
    · exact Calm.trans (Calm.trans stopped (Calm.ownReport _ _ _ _)) (finish_calm _ _)
  · rw [if_neg down]
    have scheduled : Calm st (schedule env now st) :=
      scheduleUpTo_calm env now st.count (sound (by simpa using down))
    dsimp only
    split
    · exact scheduled
    · exact Calm.trans scheduled (finish_calm _ _)

/-! ## Exits -/

/-- The first half of `service_exited`: the exit is recorded and reported. -/
def exitAnnounced (idx : Nat) (kind value : Int) (st : Supervisor) :
    Supervisor :=
  report idx .exited kind value ((if 0 < (st.svc idx).probePid then st.emit (.probeKill idx)
      else st).modSvc idx (Svc.reaped kind value))

theorem exitAnnounced_local (idx : Nat) (kind value : Int) (st : Supervisor) :
    Local idx [⟨idx, .exited, kind, value⟩] st (exitAnnounced idx kind value st) := by
  unfold exitAnnounced
  split
  · exact (((Local.refl idx st).emit _).modSvc _).report _ _ _
  · exact ((Local.refl idx st).modSvc _).report _ _ _

theorem exitAnnounced_svc (idx : Nat) (kind value : Int) (st : Supervisor) :
    (exitAnnounced idx kind value st).svc idx = (st.svc idx).reaped kind value := by
  unfold exitAnnounced
  split <;> simp

/-- The second half of `service_exited`: what follows from the exit. -/
def exitDecided (idx : Nat) (kind value now : Int) (st : Supervisor) :
    Supervisor :=
  if st.shuttingDown then st.modSvc idx (Svc.withState .exited)
  else
    let st := { st with exitCode := mappedStatus (st.svc idx) }
    if (st.svc idx).restartAfterStop then
      st.modSvc idx fun s =>
        { s with restartAfterStop := false, state := .pending }
    else if (st.svc idx).operatorStopped then
      report idx .stopped 0 0 (st.modSvc idx (Svc.withState .stopped))
    else exitPolicy idx kind value now st

theorem serviceExited_eq (idx : Nat) (kind value now : Int) (st : Supervisor) :
    serviceExited idx kind value now st =
      exitDecided idx kind value now (exitAnnounced idx kind value st) :=
  rfl

/-- The exits of a fail-container service that end in `begin_shutdown`
without a new state for the service itself. -/
structure Forsaken (s : Svc) (kind value : Int) : Prop where
  restartAfterStop : s.restartAfterStop = false
  operatorStopped : s.operatorStopped = false
  onExit : s.decl.onExit = onExitFailContainer
  failing : ¬ (s.decl.type = typeOneshot ∧ kind = exitKindExited ∧ value = 0)

theorem serviceExited_of_forsaken {idx : Nat} {kind value : Int} (now : Int)
    {st : Supervisor} (up : st.shuttingDown = false)
    (forsaken : Forsaken (st.svc idx) kind value) :
    ∃ code middle reports, serviceExited idx kind value now st = beginShutdown code middle ∧
      Local idx reports st middle ∧
      Abandoned idx (st.svc idx) reports (middle.svc idx) := by
  have announced := exitAnnounced_local idx kind value st
  have reaped := exitAnnounced_svc idx kind value st
  have stillUp : (exitAnnounced idx kind value st).shuttingDown = false :=
    announced.shuttingDown.trans up
  rw [serviceExited_eq]
  unfold exitDecided
  rw [if_neg (by simp [stillUp])]
  dsimp only
  rw [if_neg (by simp [reaped, Svc.reaped, forsaken.restartAfterStop]),
    if_neg (by simp [reaped, Svc.reaped, forsaken.operatorStopped])]
  unfold exitPolicy
  dsimp only
  rw [reaped]
  have notRestart : ¬ (st.svc idx).decl.onExit = onExitRestart := by
    rw [forsaken.onExit]
    decide
  by_cases oneshot : (st.svc idx).decl.type = typeOneshot
  · rw [if_pos (by simpa [Svc.reaped] using oneshot),
      if_neg (fun success => forsaken.failing ⟨oneshot, success⟩),
      if_pos (by simpa [Svc.reaped] using forsaken.onExit)]
    refine ⟨_, _, _, rfl, (announced.exitCode _).report _ _ _, ?_⟩
    exact {
      kin := ⟨by simp [reaped, Svc.reaped], by simp [reaped, Svc.reaped]⟩
      onExit := forsaken.onExit
      state := by simp [reaped, Svc.reaped]
      pid := by simp [reaped, Svc.reaped]
      restarts := by simp [reaped, Svc.reaped]
      probe := by simp [reaped, Svc.reaped]
      announced := ⟨kind, value, _, Or.inr rfl⟩ }
  · rw [if_neg (by simpa [Svc.reaped] using oneshot),
      if_neg (by simpa [Svc.reaped] using notRestart),
      if_pos (by simpa [Svc.reaped] using forsaken.onExit)]
    refine ⟨_, _, _, rfl, announced.exitCode _, ?_⟩
    exact {
      kin := ⟨by simp [reaped, Svc.reaped], by simp [reaped, Svc.reaped]⟩
      onExit := forsaken.onExit
      state := by simp [reaped, Svc.reaped]
      pid := by simp [reaped, Svc.reaped]
      restarts := by simp [reaped, Svc.reaped]
      probe := by simp [reaped, Svc.reaped]
      announced := ⟨kind, value, 0, Or.inl rfl⟩ }

private theorem exitPolicy_calm {idx : Nat} {kind value : Int} (now : Int)
    {st : Supervisor} (up : st.shuttingDown = false)
    (free : (st.svc idx).operatorStopped = false)
    (restartAfterStop : (st.svc idx).restartAfterStop = false)
    (kept : ¬ Forsaken (st.svc idx) kind value) {announced : Supervisor}
    (touched : Local idx [⟨idx, .exited, kind, value⟩] st announced)
    (reaped : announced.svc idx = (st.svc idx).reaped kind value) :
    Calm st (exitPolicy idx kind value now announced) := by
  unfold exitPolicy
  dsimp only
  rw [reaped]
  by_cases oneshot : (st.svc idx).decl.type = typeOneshot
  · rw [if_pos (by simpa [Svc.reaped] using oneshot)]
    split
    · apply Calm.move idx _ (touched.modSvc (Svc.withState .exited))
      exact SvcMove.exitIdle kind value ⟨by simp [reaped, Svc.reaped, Svc.withState],
          by simp [reaped, Svc.reaped, Svc.withState]⟩
        (Or.inl (by simp [Svc.withState]))
        (by simp [reaped, Svc.reaped, Svc.withState])
        (by simp [reaped, Svc.reaped, Svc.withState])
        (by simp [reaped, Svc.reaped, Svc.withState])
    next failing =>
      rw [if_neg fun onExit => kept ⟨restartAfterStop, free,
        by simpa [Svc.reaped] using onExit, fun success =>
          failing success.2⟩]
      apply Calm.move idx _ ((touched.report .failed failOneshot _).modSvc (Svc.withState .failed))
      exact SvcMove.exitFailed kind value _ ⟨by simp [reaped, Svc.reaped, Svc.withState],
          by simp [reaped, Svc.reaped, Svc.withState]⟩
        (by simp [Svc.withState])
        (by simp [reaped, Svc.reaped, Svc.withState])
        (by simp [reaped, Svc.reaped, Svc.withState])
        (by simp [reaped, Svc.reaped, Svc.withState])
  · rw [if_neg (by simpa [Svc.reaped] using oneshot)]
    split
    · apply Calm.move idx _ ((touched.modSvc (Svc.awaitRestart now)).report .restartIn _ _)
      exact SvcMove.exitRestart kind value _ ⟨by simp [reaped, Svc.reaped, Svc.awaitRestart],
          by simp [reaped, Svc.reaped, Svc.awaitRestart]⟩ up free
        (by simp [Svc.awaitRestart])
        (by simp [reaped, Svc.reaped, Svc.awaitRestart])
        (by simp [reaped, Svc.reaped, Svc.awaitRestart])
        (by simp [reaped, Svc.reaped, Svc.awaitRestart])
    · rw [if_neg fun onExit => kept ⟨restartAfterStop, free,
        by simpa [Svc.reaped] using onExit, fun success =>
          oneshot success.1⟩]
      apply Calm.move idx _ (touched.modSvc (Svc.withState .exited))
      exact SvcMove.exitIdle kind value ⟨by simp [reaped, Svc.reaped, Svc.withState],
          by simp [reaped, Svc.reaped, Svc.withState]⟩
        (Or.inl (by simp [Svc.withState]))
        (by simp [reaped, Svc.reaped, Svc.withState])
        (by simp [reaped, Svc.reaped, Svc.withState])
        (by simp [reaped, Svc.reaped, Svc.withState])

theorem serviceExited_calm {idx : Nat} {kind value : Int} (now : Int)
    {st : Supervisor}
    (kept : st.shuttingDown = true ∨ ¬ Forsaken (st.svc idx) kind value) :
    Calm st (serviceExited idx kind value now st) := by
  have announced := exitAnnounced_local idx kind value st
  have reaped := exitAnnounced_svc idx kind value st
  rw [serviceExited_eq]
  unfold exitDecided
  by_cases down : st.shuttingDown = true
  · rw [if_pos (announced.shuttingDown.trans down)]
    apply Calm.move idx _ (announced.modSvc (Svc.withState .exited))
    exact SvcMove.exitIdle kind value ⟨by simp [reaped, Svc.reaped, Svc.withState],
        by simp [reaped, Svc.reaped, Svc.withState]⟩
      (Or.inl (by simp [Svc.withState]))
      (by simp [reaped, Svc.reaped, Svc.withState])
      (by simp [reaped, Svc.reaped, Svc.withState])
      (by simp [reaped, Svc.reaped, Svc.withState])
  · rw [if_neg (by rw [announced.shuttingDown]; exact down)]
    have up : st.shuttingDown = false := by simpa using down
    have kept : ¬ Forsaken (st.svc idx) kind value := kept.resolve_left down
    have coded := announced.exitCode (mappedStatus ((exitAnnounced idx kind value st).svc idx))
    dsimp only
    by_cases restarting : (st.svc idx).restartAfterStop = true
    · rw [if_pos (by simpa [reaped, Svc.reaped] using restarting)]
      apply Calm.move idx _ (coded.modSvc _)
      exact SvcMove.exitIdle kind value ⟨by simp [reaped, Svc.reaped], by simp [reaped, Svc.reaped]⟩
        (Or.inr ⟨by simp, up⟩) (by simp [reaped, Svc.reaped])
        (by simp [reaped, Svc.reaped]) (by simp [reaped, Svc.reaped])
    · rw [if_neg (by simpa [reaped, Svc.reaped] using restarting)]
      by_cases stopped : (st.svc idx).operatorStopped = true
      · rw [if_pos (by simpa [reaped, Svc.reaped] using stopped)]
        apply Calm.move idx _ ((coded.modSvc (Svc.withState .stopped)).report .stopped 0 0)
        exact SvcMove.exitStopped kind value ⟨by simp [reaped, Svc.reaped, Svc.withState],
            by simp [reaped, Svc.reaped, Svc.withState]⟩
          (by simp [Svc.withState])
          (by simp [reaped, Svc.reaped, Svc.withState])
          (by simp [reaped, Svc.reaped, Svc.withState])
          (by simp [reaped, Svc.reaped, Svc.withState])
      · rw [if_neg (by simpa [reaped, Svc.reaped] using stopped)]
        exact exitPolicy_calm now up (by simpa using stopped)
          (by simpa using restarting) kept coded reaped

/-- The service that `reap_all` takes a child for. -/
def reapedService (pid : Pid) (st : Supervisor) : Option Nat :=
  (List.range st.count).find? fun i =>
    (st.svc i).pid = pid.val || (st.svc i).probePid = pid.val

inductive Reaped (pid : Pid) (status : Nat) (now : Int) (st : Supervisor) :
    Supervisor → Prop
  | nobody : Reaped pid status now st st
  | service (idx : Nat) (kind value : Int)
      (found : reapedService pid st = some idx)
      (own : (st.svc idx).pid = pid.val)
      (ended : exitOfStatus status = some (kind, value)) :
      Reaped pid status now st (serviceExited idx kind value now st)
  | probe (idx : Nat) (probing : 0 < (st.svc idx).probePid) :
      Reaped pid status now st (st.modSvc idx fun s => { s with probePid := 0 })
  | probePassed (idx : Nat) (probing : 0 < (st.svc idx).probePid)
      (starting : (st.svc idx).state = .starting) :
      Reaped pid status now st (report idx .ready 0 0
          ((st.modSvc idx fun s => { s with probePid := 0 }).modSvc idx (Svc.withState .ready)))

theorem reapedService_lt {pid : Pid} {st : Supervisor} {idx : Nat}
    (found : reapedService pid st = some idx) : idx < st.count := by
  simpa using mem_of_find?_eq_some found

theorem reapOne_cases (pid : Pid) (status : Nat) (now : Int) (st : Supervisor) :
    Reaped pid status now st (reapOne pid status now st) := by
  unfold reapOne
  split
  next => exact Reaped.nobody
  next i found =>
    have hit := find?_some found
    split
    next own =>
      split
      next kind value ended => exact Reaped.service i kind value found own ended
      next => exact Reaped.nobody
    next other =>
      have probing : 0 < (st.svc i).probePid := by
        have probe : (st.svc i).probePid = pid.val := by simpa [other] using hit
        rw [probe]
        exact pid.positive
      dsimp only
      split
      next ready => exact Reaped.probePassed i probing (by simpa using ready.1)
      next => exact Reaped.probe i probing

/-! ## Commands -/

/-- A command for service `idx` of the table. -/
structure Addressed (c : Command) (st : Supervisor) (idx : Nat) : Prop where
  magic : c.magic = magic
  service : c.service = idx
  inTable : idx < st.count

inductive Commanded (op : Int) (idx : Nat) (s : Svc) :
    List Report → Svc → Prop
  | kept {s' : Svc} (decl : s'.decl = s.decl) (state : s'.state = s.state)
      (pid : s'.pid = s.pid) (restarts : s'.restarts = s.restarts)
      (probe : s'.probePid = s.probePid)
      (wanted : s'.operatorStopped = false ∨ 0 < s.pid ∨ s.state = .stopped)
      (obeyed : ¬ (op = opStart ∨ op = opRestart) → s'.operatorStopped = true)
      (live : op = opStart ∨ op = opRestart → 0 < s.pid ∨ s.state = .pending) :
      Commanded op idx s [] s'
  | armed {s' : Svc} (decl : s'.decl = s.decl) (idle : s.pid = 0)
      (state : s'.state = .pending) (pid : s'.pid = s.pid)
      (restarts : s'.restarts = s.restarts)
      (probe : s'.probePid = s.probePid)
      (wanted : s'.operatorStopped = false)
      (starts : op = opStart ∨ op = opRestart) :
      Commanded op idx s [] s'
  | stopped {s' : Svc} (decl : s'.decl = s.decl) (idle : s.pid = 0)
      (state : s'.state = .stopped) (pid : s'.pid = s.pid)
      (restarts : s'.restarts = s.restarts)
      (probe : s'.probePid = s.probePid)
      (stops : op = opStop) (obeyed : s'.operatorStopped = true) :
      Commanded op idx s [⟨idx, .stopped, 0, 0⟩] s'

def CommandStep (op : Int) (idx : Nat) (st st' : Supervisor) : Prop :=
  ∃ reports, Local idx reports st st' ∧ Commanded op idx (st.svc idx) reports (st'.svc idx)

theorem Local.sendStop {idx : Nat} {reports : List Report}
    {st st' : Supervisor} (touched : Local idx reports st st') (now : Int) :
    Local idx reports st (sendStop idx now st') := by
  rcases sendStop_cases idx now st' with ⟨_, same⟩ | ⟨_, _, sent⟩
  · rw [same]
    exact touched
  · rw [sent]
    exact (touched.emit _).modSvc _

theorem sendStop_kin (idx : Nat) (now : Int) (st : Supervisor) :
    ProbeKin (st.svc idx) ((sendStop idx now st).svc idx) := by
  rcases sendStop_cases idx now st with ⟨_, same⟩ | ⟨_, _, sent⟩
  · rw [same]
    exact ⟨⟨rfl, rfl⟩, rfl, rfl, rfl, rfl⟩
  · rw [sent]
    exact ⟨⟨by simp, by simp⟩, by simp, by simp, by simp, by simp⟩

theorem handleStart_command (idx : Nat) (st : Supervisor) :
    CommandStep opStart idx st (handleStart idx st) := by
  refine ⟨[], (Local.refl idx st).modSvc _, ?_⟩
  rw [handleStart, modSvc_svc, if_pos rfl]
  split
  next idle => exact Commanded.armed rfl idle.1 rfl rfl rfl rfl rfl (Or.inl rfl)
  next busy =>
    refine Commanded.kept rfl rfl rfl rfl rfl (Or.inl rfl)
      (fun other => absurd (Or.inl rfl) other) fun _ => ?_
    by_cases idle : (st.svc idx).pid = 0
    · exact Or.inr (not_not.mp fun other => busy ⟨idle, other⟩)
    · exact Or.inl (by omega)

theorem handleStop_command (idx : Nat) (now : Int) (st : Supervisor) :
    CommandStep opStop idx st (handleStop idx now st) := by
  have touched := (Local.refl idx st).modSvc fun s =>
    { s with operatorStopped := true, restartAfterStop := false }
  have notStart : ∀ {claim : Prop}, opStop = opStart ∨ opStop = opRestart → claim := by
    intro claim starts
    exact absurd starts (by decide)
  unfold handleStop
  dsimp only
  split
  next live =>
    have kin := sendStop_kin idx now (st.modSvc idx fun s =>
      { s with operatorStopped := true, restartAfterStop := false })
    refine ⟨[], touched.sendStop now, Commanded.kept ?_ ?_ ?_ ?_ ?_
      (Or.inr (Or.inl (by simpa using live))) (fun _ => ?_) notStart⟩
    · rw [kin.kin.decl]
      simp
    · rw [kin.state]
      simp
    · rw [kin.pid]
      simp
    · rw [kin.restarts]
      simp
    · rw [kin.probePid]
      simp
    · rw [kin.kin.operatorStopped]
      simp
  next idle =>
    have idle : (st.svc idx).pid = 0 := by simpa using idle
    split
    · refine ⟨_, (touched.modSvc (Svc.withState .stopped)).report .stopped 0 0, ?_⟩
      exact Commanded.stopped (by simp [Svc.withState]) idle
        (by simp [Svc.withState]) (by simp [Svc.withState])
        (by simp [Svc.withState]) (by simp [Svc.withState]) rfl
        (by simp [Svc.withState])
    next stopped =>
      refine ⟨[], touched, ?_⟩
      exact Commanded.kept (by simp) (by simp) (by simp) (by simp) (by simp)
        (Or.inr (Or.inr (by simpa using stopped))) (fun _ => by simp)
        notStart

theorem handleRestart_command (idx : Nat) (now : Int) (st : Supervisor) :
    CommandStep opRestart idx st (handleRestart idx now st) := by
  have touched := (Local.refl idx st).modSvc fun s =>
    { s with operatorStopped := false }
  unfold handleRestart
  dsimp only
  split
  next live =>
    have kin := sendStop_kin idx now ((st.modSvc idx fun s =>
      { s with operatorStopped := false }).modSvc idx fun s =>
        { s with restartAfterStop := true })
    refine ⟨[], (touched.modSvc _).sendStop now, Commanded.kept ?_ ?_ ?_ ?_
      ?_ (Or.inl ?_) (fun other => absurd (Or.inr rfl) other)
      (fun _ => Or.inl (by simpa using live))⟩
    · rw [kin.kin.decl]
      simp
    · rw [kin.state]
      simp
    · rw [kin.pid]
      simp
    · rw [kin.restarts]
      simp
    · rw [kin.probePid]
      simp
    · rw [kin.kin.operatorStopped]
      simp
  next idle =>
    have idle : (st.svc idx).pid = 0 := by simpa using idle
    refine ⟨[], touched.modSvc _, ?_⟩
    exact Commanded.armed (by simp [Svc.withState]) idle
      (by simp [Svc.withState]) (by simp [Svc.withState])
      (by simp [Svc.withState]) (by simp [Svc.withState])
      (by simp [Svc.withState]) (Or.inr rfl)

theorem handleCommand_cases (c : Command) (now : Int) (st : Supervisor) :
    Calm st (handleCommand c now st) ∨ ∃ idx, Addressed c st idx ∧
        CommandStep c.op idx st (handleCommand c now st) := by
  unfold handleCommand
  split
  · exact Or.inl (Calm.refl st)
  next wellFormed =>
    split
    · exact Or.inl (Calm.shutdown 0 st)
    · split
      · exact Or.inl (Calm.refl st)
      next inside =>
        have addressed : Addressed c st c.service.toNat :=
          ⟨not_not.mp wellFormed, by omega, by omega⟩
        split
        next op => exact Or.inr ⟨_, addressed, op ▸ handleStart_command _ st⟩
        next =>
          split
          next op => exact Or.inr ⟨_, addressed, op ▸ handleStop_command _ now st⟩
          next =>
            split
            next op => exact Or.inr ⟨_, addressed, op ▸ handleRestart_command _ now st⟩
            next => exact Or.inl (Calm.refl st)

/-! ## One step -/

/-- The exit of service `idx` that leaves its state behind. -/
def Abandons (idx : Nat) (st st' : Supervisor) : Prop :=
  ∃ code middle reports, st' = beginShutdown code middle ∧
    st.shuttingDown = false ∧ Local idx reports st middle ∧
    Abandoned idx (st.svc idx) reports (middle.svc idx)

/-- A child's end that `service_exited` answers with `begin_shutdown` alone. -/
structure ForsakenExit (pid : Pid) (status : Nat) (st : Supervisor)
    (idx : Nat) : Prop where
  found : reapedService pid st = some idx
  own : (st.svc idx).pid = pid.val
  up : st.shuttingDown = false
  ended : ∃ kind value, exitOfStatus status = some (kind, value) ∧
    Forsaken (st.svc idx) kind value

/-- What a step relies on: while services may still be started, pids and
states agree, and a probe runs only for a live service. -/
structure Ready (st : Supervisor) : Prop where
  sound : st.shuttingDown = false → Sound st
  probing : ∀ i, 0 < (st.svc i).probePid → 0 < (st.svc i).pid

theorem reapOne_step {st : Supervisor} (ready : Ready st) (pid : Pid) (status : Nat) (now : Int) :
    Calm st (reapOne pid status now st) ∨ ∃ idx, ForsakenExit pid status st idx ∧
        Abandons idx st (reapOne pid status now st) := by
  have outcome := reapOne_cases pid status now st
  generalize reapOne pid status now st = st' at outcome
  cases outcome with
  | nobody => exact Or.inl (Calm.refl st)
  | service idx kind value found own ended =>
    by_cases forsaken : st.shuttingDown = false ∧ Forsaken (st.svc idx) kind value
    · obtain ⟨code, middle, reports, equal, touched, left⟩ :=
        serviceExited_of_forsaken now forsaken.1 forsaken.2
      exact Or.inr ⟨idx, ⟨found, own, forsaken.1, kind, value, ended,
        forsaken.2⟩, code, middle, reports, equal, forsaken.1, touched,
        left⟩
    · apply Or.inl
      apply serviceExited_calm
      by_cases down : st.shuttingDown = true
      · exact Or.inl down
      · exact Or.inr fun held => forsaken ⟨by simpa using down, held⟩
  | probe idx probing =>
    apply Or.inl
    exact ((Local.refl idx st).modSvc _).calm_of_quiet
      ⟨by simp, by simp⟩ (by simp) (by simp) (by simp)
      (fun still => absurd still (by simp))
  | probePassed idx probing starting =>
    apply Or.inl
    apply Calm.move idx _ ((((Local.refl idx st).modSvc _).modSvc
      (Svc.withState .ready)).report .ready 0 0)
    exact SvcMove.becomeReady 0 _ ⟨by simp [Svc.withState],
      by simp [Svc.withState]⟩ starting (ready.probing idx probing)
      (by simp [Svc.withState]) (by simp [Svc.withState])
      (by simp [Svc.withState]) (Or.inl rfl)

theorem drainOne_cases (message : ControlMsg) (now : Int) (st : Supervisor) :
    Calm st (drainOne message now st) ∨
      ∃ c idx, message = .command c ∧ st.controlOpen = true ∧ Addressed c st idx ∧
        CommandStep c.op idx st (drainOne message now st) := by
  unfold drainOne
  split
  next opened =>
    cases message with
    | command c =>
      rcases handleCommand_cases c now st with
        calm | ⟨idx, addressed, command⟩
      · exact Or.inl calm
      · exact Or.inr ⟨c, idx, rfl, opened, addressed, command⟩
    | unexpectedSize => exact Or.inl (Calm.refl st)
    | closed =>
      exact Or.inl (Calm.aux rfl rfl rfl [] (by simp) (by simp) (Nat.le_refl _))
  · exact Or.inl (Calm.refl st)

theorem step_cases {st : Supervisor} (ready : Ready st) (action : Action) :
    Calm st (step st action) ∨ (∃ c now idx, action = .control (.command c) now ∧
        st.finished = false ∧ st.controlOpen = true ∧ Addressed c st idx ∧
        CommandStep c.op idx st (step st action)) ∨
      ∃ pid status now idx, action = .reap pid status now ∧
        st.finished = false ∧ ForsakenExit pid status st idx ∧
        Abandons idx st (step st action) := by
  unfold step
  split
  · exact Or.inl (Calm.refl st)
  next running =>
    cases action with
    | reap pid status now =>
      rcases reapOne_step ready pid status now with
        calm | ⟨idx, exit, abandons⟩
      · exact Or.inl calm
      · exact Or.inr (Or.inr ⟨pid, status, now, idx, rfl, by simpa using running, exit, abandons⟩)
    | sigterm => exact Or.inl (Calm.shutdown 0 st)
    | control message now =>
      rcases drainOne_cases message now st with
        calm | ⟨c, idx, rfl, opened, addressed, command⟩
      · exact Or.inl calm
      · exact Or.inr (Or.inl ⟨c, now, idx, rfl, by simpa using running,
          opened, addressed, command⟩)
    | supervise env now => exact Or.inl (supervise_calm env now ready.sound)
    | flush written =>
      exact Or.inl (Calm.aux rfl rfl rfl [] (by simp [reportFlush]) (by simp) (Nat.le_refl _))

end Cix.Init
