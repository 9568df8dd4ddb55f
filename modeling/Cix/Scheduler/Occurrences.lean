import Cix.Lib.CString
import Cix.Lib.Machine
import Cix.Scheduler.Clock

/-!
# Every occurrence once

`scheduler_run_due` of `daemon/src/scheduler.c`, over ticks, each with writes
that fail or not, and restarts.  Where the ticks fall at regular instants and a
restart finds the job as it was, a job of a time of day runs once for the
occurrences that it has not accounted for, at the first tick that sees one; the
first tick after a boot only notes that one was missed, unless the job catches up.
-/

namespace Cix.Scheduler

open Cix.Lib List

/-- `enum schedule_kind` with the fields of each kind. -/
inductive Kind where
  | every (seconds : Int)
  | daily
  | weekly (weekday : Fin 7)
  deriving DecidableEq

structure Schedule where
  (name action params : CStr)
  kind : Kind
  hour : Fin 24
  minute : Fin 60
  (catchUp enabled : Bool)
  (anchorAt lastRunAt lastSkippedAt : Int)
  lastOk : Bool
  lastReason : CStr

def Schedule.time (s : Schedule) : TimeOfDay where
  hour := s.hour
  minute := s.minute
  weekday :=
    match s.kind with
    | .weekly weekday => some weekday
    | _ => none

/-- What `scheduler_run_due` compares an occurrence with. -/
def Schedule.done (s : Schedule) : Int := max s.lastRunAt s.anchorAt

structure Action where
  name : CStr
  fn : (now : Int) → Option CStr → Bool × CStr

def reasonMax : Nat := 256

def recordOutcome (s : Schedule) (now : Int) (ok : Bool) (reason : CStr) :
    Schedule :=
  { s with
    lastRunAt := now
    anchorAt := if now > s.anchorAt then now else s.anchorAt
    lastOk := ok
    lastReason := reason.truncate reasonMax }

def runOne (actions : List Action) (s : Schedule) (now : Int) : Schedule :=
  match actions.find? fun a => a.name = s.action with
  | none =>
    recordOutcome s now false (CStr.ofBytes ((CStr.ofString "action \"").bytes ++ s.action.bytes ++
        (CStr.ofString "\" is not registered in this build").bytes))
  | some a =>
    let (ok, reason) := a.fn now
      (if s.params.bytes = [] then none else some s.params)
    recordOutcome s now ok (if reason.bytes ≠ [] then reason
        else if ok then CStr.ofString "ok" else CStr.ofString "failed")

def recordSkip (s : Schedule) (occurrence : Int) : Schedule :=
  { s with lastSkippedAt := occurrence, anchorAt := occurrence }

/-- What the loop of `scheduler_run_due` does with a job. -/
inductive Turn where
  | pass
  | skip (occurrence : Int)
  | run
  deriving DecidableEq

def turnOf (zone : Zone) (now : Int) (startup : Bool) (s : Schedule) : Turn :=
  if !s.enabled then .pass
  else
    match s.kind with
    | .every seconds =>
      let due := if s.lastRunAt = 0 then now else s.lastRunAt + seconds
      if now < due then .pass else .run
    | _ =>
      let prev := prevWallclock zone s.time now
      if prev ≤ s.done then .pass
      else if startup && !s.catchUp then .skip prev
      else .run

def runDue (zone : Zone) (actions : List Action) (now : Int) (startup : Bool)
    (s : Schedule) : Schedule :=
  match turnOf zone now startup s with
  | .pass => s
  | .skip occurrence => recordSkip s occurrence
  | .run => runOne actions s now

/-- The loop of `scheduler_run_due` over the jobs in use, with what the state file
holds.  A run or a skip is followed by a `persist_all` of the whole table, of which
`written` says whether it succeeds. -/
def schedulerRunDue (zone : Zone) (actions : List Action) (now : Int) (startup : Bool)
    (written : Nat → Bool) (saved before : List Schedule) :
    List Schedule → List Schedule × List Schedule
  | [] => (before, saved)
  | s :: rest =>
    let s' := runDue zone actions now startup s
    let persists := turnOf zone now startup s ≠ .pass ∧ written before.length
    schedulerRunDue zone actions now startup written
      (if persists then before ++ s' :: rest else saved) (before ++ [s']) rest

/-- The jobs in memory, and those of the state file. -/
structure State where
  (jobs saved : List Schedule)
  startup : Bool

/-- A tick, or a restart, after which the jobs are those of the state file; a
handover is no downtime. -/
inductive Event where
  | tick (now : Int) (written : Nat → Bool)
  | restart (handover : Bool)

variable (zone : Zone) (actions : List Action)

def State.step (s : State) : Event → State
  | .tick now written =>
    let due := schedulerRunDue zone actions now s.startup written s.saved [] s.jobs
    { jobs := due.1, saved := due.2, startup := false }
  | .restart handover => { s with jobs := s.saved, startup := !handover }

def State.Runs (s : State) (i : Nat) (now : Int) : Prop :=
  ∃ job, s.jobs[i]? = some job ∧ turnOf zone now s.startup job = .run

/-- A tick falls at a regular instant for the job; a restart finds it in the state
file as it is in memory. -/
def State.Meets (time : TimeOfDay) (i : Nat) (s : State) : Event → Prop
  | .tick now _ => Regular zone time now
  | .restart _ => s.saved[i]? = s.jobs[i]?

variable {zone actions}

def Schedule.SameSettings (s s' : Schedule) : Prop :=
  s'.kind = s.kind ∧ s'.hour = s.hour ∧ s'.minute = s.minute ∧
    s'.catchUp = s.catchUp ∧ s'.enabled = s.enabled

def Schedule.WallClock (s : Schedule) : Prop :=
  ∀ seconds, s.kind ≠ .every seconds

variable {s' : Schedule}

theorem Schedule.SameSettings.time {s : Schedule}
    (same : s.SameSettings s') : s'.time = s.time := by
  obtain ⟨kind, hour, minute, _, _⟩ := same
  rw [Schedule.time, Schedule.time, kind, hour, minute]

theorem Schedule.SameSettings.trans {s s'' : Schedule}
    (first : s.SameSettings s') (second : s'.SameSettings s'') :
    s.SameSettings s'' := by
  obtain ⟨kind, hour, minute, catchUp, enabled⟩ := first
  obtain ⟨kind', hour', minute', catchUp', enabled'⟩ := second
  exact ⟨kind'.trans kind, hour'.trans hour, minute'.trans minute,
    catchUp'.trans catchUp, enabled'.trans enabled⟩

theorem Schedule.SameSettings.wallClock {s : Schedule}
    (same : s.SameSettings s') (wallClock : s.WallClock) : s'.WallClock := by
  intro seconds
  rw [same.1]
  exact wallClock seconds

theorem Schedule.SameSettings.enabled {s : Schedule}
    (same : s.SameSettings s') (enabled : s.enabled = true) :
    s'.enabled = true := by
  rw [same.2.2.2.2]
  exact enabled

theorem recordOutcome_spec (s : Schedule) (now : Int) (ok : Bool) (reason : CStr) :
    s.SameSettings (recordOutcome s now ok reason) ∧
      (recordOutcome s now ok reason).done = max s.anchorAt now := by
  refine ⟨⟨rfl, rfl, rfl, rfl, rfl⟩, ?_⟩
  unfold Schedule.done recordOutcome
  dsimp only
  split <;> omega

theorem runOne_spec (s : Schedule) (now : Int) : s.SameSettings (runOne actions s now) ∧
      (runOne actions s now).done = max s.anchorAt now := by
  unfold runOne
  split
  · exact recordOutcome_spec _ _ _ _
  · exact recordOutcome_spec _ _ _ _

theorem turnOf_eq {s : Schedule} (wallClock : s.WallClock)
    (enabled : s.enabled = true) (now : Int) (startup : Bool) :
    turnOf zone now startup s =
      if prevWallclock zone s.time now ≤ s.done then .pass
      else if startup && !s.catchUp then
        .skip (prevWallclock zone s.time now)
      else .run := by
  rw [turnOf, enabled]
  cases isKind : s.kind with
  | every seconds => exact absurd isKind (wallClock seconds)
  | daily => rfl
  | weekly weekday => rfl

theorem runDue_spec {s : Schedule} (wallClock : s.WallClock)
    (enabled : s.enabled = true) {now : Int}
    (regular : Regular zone s.time now) (startup : Bool) :
    s.SameSettings (runDue zone actions now startup s) ∧
      s.done ≤ (runDue zone actions now startup s).done ∧
      (runDue zone actions now startup s).done ≤ max s.done now ∧
      (turnOf zone now startup s = .run → now ≤ (runDue zone actions now startup s).done) := by
  have last := prevWallclock_last regular
  have turn := @turnOf_eq zone s wallClock enabled now startup
  unfold runDue
  rw [turn]
  by_cases known : prevWallclock zone s.time now ≤ s.done
  · rw [if_pos known]
    exact ⟨⟨rfl, rfl, rfl, rfl, rfl⟩, le_refl _, le_max_left _ _, fun isRun => by cases isRun⟩
  have come := last.2.1
  rw [if_neg known]
  by_cases missed : (startup && !s.catchUp) = true
  · rw [if_pos missed]
    refine ⟨⟨rfl, rfl, rfl, rfl, rfl⟩, ?_, ?_, fun isRun => by cases isRun⟩
    · dsimp only [recordSkip, Schedule.done] at *
      omega
    · dsimp only [recordSkip, Schedule.done] at *
      omega
  · rw [if_neg missed]
    obtain ⟨same, isDone⟩ := @runOne_spec actions s now
    dsimp only
    rw [isDone]
    refine ⟨same, ?_, ?_, fun _ => le_max_right _ _⟩
    · unfold Schedule.done at *
      omega
    · unfold Schedule.done at *
      omega

def State.Holds (job : Schedule) (i : Nat) (property : Schedule → Prop) (s : State) : Prop :=
  ∃ job', s.jobs[i]? = some job' ∧ job.SameSettings job' ∧ property job'

theorem jobs_schedulerRunDue (now : Int) (startup : Bool) (written : Nat → Bool)
    (saved before rest : List Schedule) :
    (schedulerRunDue zone actions now startup written saved before rest).1 =
      before ++ rest.map (runDue zone actions now startup) := by
  induction rest generalizing saved before with
  | nil => simp [schedulerRunDue]
  | cons s rest ih => simp [schedulerRunDue, ih]

/-- Where every write succeeds, the state file follows the table. -/
theorem saved_schedulerRunDue (now : Int) (startup : Bool) (before rest : List Schedule) :
    (schedulerRunDue zone actions now startup (fun _ => true) (before ++ rest) before rest).2 =
      before ++ rest.map (runDue zone actions now startup) := by
  induction rest generalizing before with
  | nil => simp [schedulerRunDue]
  | cons s rest ih =>
    have followed := ih (before ++ [runDue zone actions now startup s])
    simp only [append_assoc, singleton_append] at followed
    rw [schedulerRunDue, map_cons]
    by_cases passes : turnOf zone now startup s = .pass
    · have same : runDue zone actions now startup s = s := by rw [runDue, passes]
      rw [same] at followed ⊢
      simpa [passes] using followed
    · simpa [passes] using followed

theorem saved_step {s : State} {event : Event} (written : ∀ now w, event = .tick now w →
      w = fun _ => true) (known : s.saved = s.jobs) :
    (s.step zone actions event).saved = (s.step zone actions event).jobs := by
  cases event with
  | restart handover => rfl
  | tick now w =>
    have followed := @saved_schedulerRunDue zone actions now s.startup [] s.jobs
    simp only [State.step, written now w rfl, known, jobs_schedulerRunDue]
    exact followed

theorem jobs_tick {s : State} {i : Nat} {job : Schedule}
    (isJob : s.jobs[i]? = some job) (now : Int) (written : Nat → Bool) :
    (s.step zone actions (.tick now written)).jobs[i]? =
      some (runDue zone actions now s.startup job) := by
  simp [State.step, jobs_schedulerRunDue, isJob]

section Runs

variable {job : Schedule} {i : Nat} {property : Schedule → Prop}

theorem holds_run (wallClock : job.WallClock) (enabled : job.enabled = true)
    {s : State} {events : List Event}
    (meets : Guarded (State.step zone actions) (State.Meets zone job.time i) s events)
    (kept : ∀ now written, Event.tick now written ∈ events → Regular zone job.time now →
      ∀ startup job', job.SameSettings job' → job'.WallClock →
        job'.enabled = true → Regular zone job'.time now → property job' →
        property (runDue zone actions now startup job'))
    (start : s.Holds job i property) :
    (run (State.step zone actions) s events).Holds job i property := by
  have guarded : Guarded (State.step zone actions)
      (fun state event => state.Meets zone job.time i event ∧ event ∈ events) s events :=
    fun before event after equality =>
      ⟨meets before event after equality, by simp [equality]⟩
  apply run_invariant (State.Holds job i property) _ start guarded
  rintro state event ⟨job', isJob, same, holds⟩ ⟨meetsNow, mem⟩
  cases event with
  | restart handover => exact ⟨job', meetsNow.trans isJob, same, holds⟩
  | tick now written =>
    have regularNow : Regular zone job.time now := meetsNow
    have wallClock' := same.wallClock wallClock
    have enabled' := same.enabled enabled
    have regular' : Regular zone job'.time now := by
      rw [same.time]
      exact regularNow
    have turn := @runDue_spec zone actions _ wallClock' enabled' _ regular' state.startup
    exact ⟨_, jobs_tick isJob now written, same.trans turn.1,
      kept now written mem regularNow _ _ same wallClock' enabled' regular' holds⟩

theorem done_run (wallClock : job.WallClock) (enabled : job.enabled = true)
    {s : State} {events : List Event} {low : Int}
    (meets : Guarded (State.step zone actions) (State.Meets zone job.time i) s events)
    (start : s.Holds job i fun job' => low ≤ job'.done) :
    (run (State.step zone actions) s events).Holds job i fun job' => low ≤ job'.done := by
  apply holds_run wallClock enabled meets _ start
  intro now _ _ _ startup job' _ wallClock' enabled' regular' known
  have turn := @runDue_spec zone actions _ wallClock' enabled' _ regular' startup
  exact known.trans turn.2.1

theorem not_done_run (wallClock : job.WallClock)
    (enabled : job.enabled = true) {s : State} {events : List Event}
    {high : Int}
    (meets : Guarded (State.step zone actions) (State.Meets zone job.time i) s events)
    (early : ∀ now written, Event.tick now written ∈ events → now < high)
    (start : s.Holds job i fun job' => job'.done < high) :
    (run (State.step zone actions) s events).Holds job i fun job' => job'.done < high := by
  apply holds_run wallClock enabled meets _ start
  intro now written mem _ startup job' _ wallClock' enabled' regular' open'
  have turn := @runDue_spec zone actions _ wallClock' enabled' _ regular' startup
  exact lt_of_le_of_lt turn.2.2.1 (max_lt open' (early now written mem))

theorem occurrence_of_runs (wallClock : job.WallClock)
    (enabled : job.enabled = true) {s : State} {now low : Int}
    (regular : Regular zone job.time now)
    (holds : s.Holds job i fun job' => low ≤ job'.done)
    (runs : s.Runs zone i now) :
    ∃ o, Occurrence zone job.time o ∧ low < o ∧ o ≤ now := by
  obtain ⟨job', isJob, same, known⟩ := holds
  obtain ⟨again, isAgain, isRun⟩ := runs
  rw [isJob] at isAgain
  cases isAgain
  have turn := @turnOf_eq zone job' (same.wallClock wallClock) (same.enabled enabled) now s.startup
  rw [isRun, same.time] at turn
  have last := prevWallclock_last regular
  by_cases seen : prevWallclock zone job.time now ≤ job'.done
  · rw [if_pos seen] at turn
    cases turn
  · exact ⟨_, last.1, by omega, last.2.1⟩

theorem holds_tick (wallClock : job.WallClock) (enabled : job.enabled = true)
    {s : State} {now : Int} (written : Nat → Bool) (regular : Regular zone job.time now)
    (holds : s.Holds job i property) (runs : s.Runs zone i now) :
    (s.step zone actions (.tick now written)).Holds job i fun job' => now ≤ job'.done := by
  obtain ⟨job', isJob, same, _⟩ := holds
  obtain ⟨again, isAgain, isRun⟩ := runs
  rw [isJob] at isAgain
  cases isAgain
  have turn := @runDue_spec zone actions job' (same.wallClock wallClock)
    (same.enabled enabled) now (by rw [same.time]; exact regular) s.startup
  exact ⟨_, jobs_tick isJob now written, same.trans turn.1, turn.2.2.2 isRun⟩

theorem turn_at_occurrence (wallClock : job.WallClock)
    (enabled : job.enabled = true) {s : State} {now o : Int} (written : Nat → Bool)
    (regular : Regular zone job.time now)
    (unaccounted : s.Holds job i fun job' => job'.done < o)
    (occurs : Occurrence zone job.time o) (come : o ≤ now) :
    if s.startup = true ∧ job.catchUp = false then
      ∃ job' missed, (s.step zone actions (.tick now written)).jobs[i]? = some job' ∧
        LastOccurrence zone job.time now missed ∧ job'.lastSkippedAt = missed
    else s.Runs zone i now := by
  obtain ⟨job', isJob, same, open'⟩ := unaccounted
  have last := prevWallclock_last regular
  have latest := last.2.2 o occurs come
  have turn := @turnOf_eq zone job' (same.wallClock wallClock) (same.enabled enabled) now s.startup
  rw [same.time, if_neg (by omega), same.2.2.2.1] at turn
  by_cases missed : s.startup = true ∧ job.catchUp = false
  · rw [if_pos missed]
    rw [missed.1, missed.2] at turn
    refine ⟨_, _, jobs_tick isJob now written, last, ?_⟩
    rw [runDue, missed.1, turn]
    rfl
  · rw [if_neg missed]
    rw [if_neg (by simpa using missed)] at turn
    exact ⟨job', isJob, turn⟩

end Runs

variable {s : State} {events : List Event} {i : Nat} {job : Schedule}

def utc : Zone where
  offset _ := 0
  mktime reading := reading
  mktime_shown _ _ _ := by simp
  offset_bounds _ := by decide
  mktime_bounds _ := by omega

def summerEnds : Zone where
  offset instant := if instant < 867600 then 7200 else 3600
  mktime reading :=
    if reading - 7200 < 867600 then reading - 7200 else reading - 3600
  mktime_shown reading instant shown := by
    by_cases first : reading - 7200 < 867600
    · rw [if_pos first, if_pos first]
      omega
    · rw [if_neg first, if_neg]
      · omega
      · split at shown <;> omega
  offset_bounds instant := by split <;> decide
  mktime_bounds reading := by split <;> omega

def nightly (catchUp : Bool) (lastRunAt : Int) : Schedule where
  name := "roll"
  action := "system.roll"
  params := CStr.empty
  kind := .daily
  hour := 3
  minute := 0
  catchUp := catchUp
  enabled := true
  anchorAt := 0
  lastRunAt := lastRunAt
  lastSkippedAt := 0
  lastOk := true
  lastReason := "ok"

theorem regular_utc (now : Int) (s : Schedule) : Regular utc s.time now := by
  apply Regular.of_days
  · intro first second notAfter
    simp only [Zone.day, Zone.reading, utc]
    omega
  · intro day
    apply @own_of_shown utc s.time day
      (day * 86400 + (s.hour : Nat) * 3600 + (s.minute : Nat) * 60)
    simp [Zone.reading, utc, Schedule.time]
  · intro _
    simp only [Zone.at, utc]
    omega

end Cix.Scheduler
