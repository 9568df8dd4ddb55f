import Cix.Json.Parser
import Cix.Lib.Machine
import Mathlib.Logic.Function.Basic

/-!
# The progress of a build

`daemon/src/cbsevents.c` folds the event lines of a build into the state of
each of its phases, the phase that is running and the phase that failed.  A
phase begins and ends by an event of its own, except `finalize`, which ends
with the build.
-/

namespace Cix.Cbs

open Cix.Lib Cix.Json Option

inductive Phase where
  | prepare
  | configure
  | build
  | check
  | install
  | finalize
  deriving DecidableEq

inductive PhaseState where
  | notPlanned
  | pending
  | running
  | ok
  | failed
  | blocked
  | cancelled
  deriving DecidableEq

def Phase.index : Phase → Nat
  | prepare => 0
  | configure => 1
  | build => 2
  | check => 3
  | install => 4
  | finalize => 5

/-- `g_phase_names`. -/
def Phase.name : Phase → String
  | prepare => "prepare"
  | configure => "configure"
  | build => "build"
  | check => "check"
  | install => "install"
  | finalize => "finalize"

def phases : List Phase :=
  [.prepare, .configure, .build, .check, .install, .finalize]

def cbsPhaseFromName (name : CStr) : Option Phase :=
  phases.find? fun x => CStr.ofString x.name = name

/-- `struct cbs_build_progress`; `none` stands for -1. -/
structure BuildProgress where
  state : Phase → PhaseState
  durationMs : Phase → Int
  (current failed : Option Phase)
  failedCommand : CStr
  (failedExitStatus failedSignal : Int)
  failedEndKnown : Bool
  (failedLog failedMessage : CStr)
  buildEnd : Option Bool
  changed : Bool
  (lastCommand lastLog : CStr)

def cbsProgressInit (planned : Nat) : BuildProgress where
  state x :=
    if planned.testBit x.index ∨ x = .finalize then .pending else .notPlanned
  durationMs _ := -1
  current := none
  failed := none
  failedCommand := CStr.empty
  failedExitStatus := 0
  failedSignal := 0
  failedEndKnown := false
  failedLog := CStr.empty
  failedMessage := CStr.empty
  buildEnd := none
  changed := false
  lastCommand := CStr.empty
  lastLog := CStr.empty

def strField (root : Value) (key : String) : CStr :=
  (asString (objectGet (some root) key)).getD CStr.empty

def numField (root : Value) (key : String) : Int :=
  match objectGet (some root) key with
  | some (.number n) => n.toLongLong
  | _ => 0

/-- The conversion of a `long` to an `int`. -/
def toInt (v : Int) : Int :=
  (v + 2 ^ 31) % 2 ^ 32 - 2 ^ 31

def phaseBegin (p : BuildProgress) (phase : Phase) : BuildProgress :=
  { p with
    state := Function.update p.state phase .running
    current := some phase
    changed := true }

def phaseEnd (p : BuildProgress) (phase : Phase) (status duration : Int) :
    BuildProgress :=
  { p with
    state := Function.update p.state phase (if status = 0 then .ok else .failed)
    durationMs := Function.update p.durationMs phase duration
    failed := if status ≠ 0 ∧ p.failed = none then some phase else p.failed
    current := if p.current = some phase then none else p.current
    changed := true }

/-- `CBS_EVENTS_COMMAND_MAX` and the sizes beside it. -/
def commandBegin (p : BuildProgress) (root : Value) : BuildProgress :=
  let args := strField root "arguments"
  { p with
    lastCommand :=
      (if args ≠ CStr.empty then args else strField root "command").truncate 192
    lastLog := (strField root "log_path").truncate 128 }

def commandFailed (p : BuildProgress) (root : Value) : BuildProgress :=
  if p.failedCommand ≠ CStr.empty then p
  else
    have endKnown :=
      match objectGet (some root) "exit_status",
        objectGet (some root) "signal" with
      | some (.number _), some (.number _) => true
      | _, _ => false
    { p with
      failedCommand :=
        (if p.lastCommand ≠ CStr.empty then p.lastCommand
          else strField root "command").truncate 192
      failedLog := p.lastLog.truncate 128
      failedMessage := (strField root "message").truncate 64
      failedEndKnown := endKnown
      failedExitStatus :=
        if endKnown then toInt (numField root "exit_status") else 0
      failedSignal := if endKnown then toInt (numField root "signal") else 0
      changed := true }

/-- What a `build-end` does to `finalize`, which has no event of its own. -/
def buildEnded (p : BuildProgress) (status : Int) : BuildProgress :=
  let p := { p with buildEnd := some (status ≠ 0), changed := true }
  if status = 0 then
    { p with state := Function.update p.state .finalize .ok }
  else if p.failed = none ∧ p.current = none then
    { p with
      state := Function.update p.state .finalize .failed
      failed := some .finalize }
  else p

def typeOf (root : Value) : CStr :=
  strField root "type"

def phaseOf (root : Value) : Option Phase :=
  cbsPhaseFromName (strField root "phase")

def statusOf (root : Value) : Int :=
  toInt (numField root "status")

/-- The branches of `cbs_progress_feed` for an object. -/
def fed (p : BuildProgress) (root : Value) : BuildProgress :=
  if typeOf root = "phase-begin" then
    match phaseOf root with
    | some phase => phaseBegin p phase
    | none => p
  else if typeOf root = "phase-end" then
    match phaseOf root with
    | some phase => phaseEnd p phase (statusOf root) (numField root "duration_ms")
    | none => p
  else if typeOf root = "command-begin" then commandBegin p root
  else if typeOf root = "command-end" then
    if statusOf root ≠ 0 then commandFailed p root else p
  else if typeOf root = "build-end" then
    buildEnded p (statusOf root)
  else p

def eventOf (line : List UInt8) : Option Value :=
  match jsonParse line with
  | some (.object members) => some (.object members)
  | _ => none

/-- `cbs_progress_feed`, with the value that it returns. -/
def cbsProgressFeed (p : BuildProgress) (line : List UInt8) : BuildProgress × Int :=
  if line = [] then (p, 0)
  else
    match eventOf line with
    | none => (p, -1)
    | some root => (fed p root, 0)

def phaseCut (p : BuildProgress) (cancelled : Bool) : BuildProgress :=
  match p.current with
  | none => p
  | some phase =>
    { p with
      state := Function.update p.state phase (if cancelled then .cancelled else .failed)
      failed := if !cancelled ∧ p.failed = none then some phase else p.failed
      current := none
      changed := true }

def waiting (succeeded cancelled : Bool) (phase : Phase) : PhaseState :=
  if succeeded ∧ phase = .finalize then .ok
  else if succeeded then .pending
  else if cancelled then .cancelled
  else .blocked

def cbsProgressFinish (p : BuildProgress) (succeeded cancelled : Bool) :
    BuildProgress :=
  let p := phaseCut p cancelled
  { p with
    state := fun x =>
      if p.state x ≠ .pending then p.state x else waiting succeeded cancelled x
    changed := p.changed || phases.any fun x => p.state x = .pending }

namespace BuildProgress

variable {p q : BuildProgress} {x : Phase} {root : Value}

/-- The running phase is the current one, and the phase that is reported as
failed is recorded as such. -/
structure Consistent (p : BuildProgress) : Prop where
  running : ∀ x, p.state x = .running → p.current = some x
  failed : ∀ x, p.failed = some x → p.state x = .failed

structure Sound (p : BuildProgress) : Prop extends p.Consistent where
  apart : ∀ x, p.current = some x → p.failed ≠ some x

structure Settled (p : BuildProgress) (succeeded : Bool) : Prop
    extends p.Consistent where
  stopped : ∀ x, p.state x ≠ .running
  decided : succeeded = false → ∀ x, p.state x ≠ .pending

/-- A phase begins while no other one runs, and the phase that failed neither begins
again nor ends well. -/
structure Orderly (p : BuildProgress) (root : Value) : Prop where
  alone : typeOf root = "phase-begin" →
    ∀ x, phaseOf root = some x → ∀ y, p.state y = .running → y = x
  begins : typeOf root = "phase-begin" → ∀ x, phaseOf root = some x → p.failed ≠ some x
  ends : typeOf root = "phase-end" → statusOf root = 0 →
    ∀ x, phaseOf root = some x → p.failed ≠ some x
  finalizes : typeOf root = "build-end" → statusOf root = 0 → p.failed ≠ some .finalize

def OrderlyLine (p : BuildProgress) (line : List UInt8) : Prop :=
  line ≠ [] → ∀ root, eventOf line = some root → p.Orderly root

theorem Sound.congr (sound : p.Sound) (state : q.state = p.state)
    (current : q.current = p.current) (failed : q.failed = p.failed) :
    q.Sound where
  running x := by
    rw [state, current]
    exact sound.running x
  failed x := by
    rw [state, failed]
    exact sound.failed x
  apart x := by
    rw [current, failed]
    exact sound.apart x

theorem sound_init (planned : Nat) : (cbsProgressInit planned).Sound where
  running x running := by
    unfold cbsProgressInit at running
    dsimp only at running
    split at running <;> cases running
  failed x failed := by cases failed
  apart x current := by cases current

theorem running_of_update {state : Phase → PhaseState} {v : PhaseState} {y : Phase}
    (stopped : v ≠ .running) (running : Function.update state x v y = .running) :
    y ≠ x ∧ state y = .running := by
  have other : y ≠ x := by
    rintro rfl
    rw [Function.update_self] at running
    exact stopped running
  rw [Function.update_of_ne other] at running
  exact ⟨other, running⟩

theorem Sound.phaseBegin (sound : p.Sound)
    (alone : ∀ y, p.state y = .running → y = x) (begins : p.failed ≠ some x) :
    (phaseBegin p x).Sound where
  running y running := by
    by_cases same : y = x
    · rw [same]
      rfl
    · have still := (Function.update_of_ne same ..).symm.trans running
      exact absurd (alone y still) same
  failed y failed := by
    have other : y ≠ x := by
      rintro rfl
      exact begins failed
    exact (Function.update_of_ne other ..).trans (sound.failed y failed)
  apart y current := by
    cases current
    exact begins

theorem Sound.phaseEnd (sound : p.Sound) {status : Int} (duration : Int)
    (ends : status = 0 → p.failed ≠ some x) :
    (phaseEnd p x status duration).Sound where
  running y running := by
    obtain ⟨other, before⟩ := running_of_update (by split <;> decide) running
    have current := sound.running y before
    simp only [Cbs.phaseEnd, current, some.injEq, other, if_false]
  failed y failed := by
    simp only [Cbs.phaseEnd] at failed ⊢
    by_cases same : y = x
    · rw [same, Function.update_self, if_neg]
      intro well
      rw [if_neg (fun bad => bad.1 well), same] at failed
      exact ends well failed
    · rw [Function.update_of_ne same]
      split at failed
      · exact absurd (some.inj failed).symm same
      · exact sound.failed y failed
  apart y current failed := by
    simp only [Cbs.phaseEnd] at current failed
    split at current
    · cases current
    next other =>
      split at failed
      · exact other (current.trans failed.symm)
      · exact sound.apart y current failed

theorem Sound.buildEnded (sound : p.Sound) {status : Int}
    (finalizes : status = 0 → p.failed ≠ some .finalize) :
    (buildEnded p status).Sound := by
  unfold Cbs.buildEnded
  dsimp only
  split
  next well =>
    refine ⟨⟨?_, ?_⟩, sound.apart⟩
    · intro y running
      exact sound.running y (running_of_update (by decide) running).2
    · intro y failed
      have other : y ≠ .finalize := by
        rintro rfl
        exact finalizes well failed
      exact (Function.update_of_ne other ..).trans (sound.failed y failed)
  split
  next idle =>
    refine ⟨⟨?_, ?_⟩, ?_⟩
    · intro y running
      exact sound.running y (running_of_update (by decide) running).2
    · intro y failed
      cases failed
      simp only [Function.update_self]
    · intro y current
      cases idle.2.symm.trans current
  · exact sound.congr rfl rfl rfl

theorem Sound.fed (sound : p.Sound) (orderly : p.Orderly root) : (fed p root).Sound := by
  unfold Cbs.fed
  split
  next begins =>
    cases phase : phaseOf root with
    | none => exact sound
    | some x =>
      exact sound.phaseBegin (orderly.alone begins x phase) (orderly.begins begins x phase)
  split
  next ends =>
    cases phase : phaseOf root with
    | none => exact sound
    | some x => exact sound.phaseEnd _ fun well => orderly.ends ends well x phase
  split
  · exact sound.congr rfl rfl rfl
  split
  · split
    · unfold commandFailed
      split
      · exact sound
      · exact sound.congr rfl rfl rfl
    · exact sound
  split
  next ended => exact sound.buildEnded (orderly.finalizes ended)
  · exact sound

theorem orderly_of_consistent (after : (fed p root).Consistent) : p.Orderly root where
  alone begins x phase y running := by
    by_contra other
    have still : (fed p root).state y = .running := by
      rw [fed, if_pos begins, phase]
      simp only [phaseBegin, Function.update_of_ne other]
      exact running
    have current := after.running y still
    rw [fed, if_pos begins, phase] at current
    exact other (some.inj current).symm
  begins begins x phase failed := by
    have state := after.failed x (by rw [fed, if_pos begins, phase]; exact failed)
    rw [fed, if_pos begins, phase] at state
    simp [phaseBegin] at state
  ends ends well x phase failed := by
    have later : typeOf root ≠ "phase-begin" := by
      rw [ends]
      decide
    have state := after.failed x (by
      rw [fed, if_neg later, if_pos ends, phase]
      simpa [phaseEnd, well] using failed)
    rw [fed, if_neg later, if_pos ends, phase] at state
    simp [phaseEnd, well] at state
  finalizes ended well failed := by
    have kind : fed p root = buildEnded p (statusOf root) := by
      unfold fed
      rw [ended, if_neg (by decide), if_neg (by decide), if_neg (by decide),
        if_neg (by decide), if_pos rfl]
    rw [kind] at after
    have state := after.failed .finalize (by
      simpa [buildEnded, well] using failed)
    simp [buildEnded, well] at state

def step (p : BuildProgress) (line : List UInt8) : BuildProgress :=
  (cbsProgressFeed p line).1

theorem Sound.step {line : List UInt8} (sound : p.Sound)
    (orderly : p.OrderlyLine line) : (p.step line).Sound := by
  unfold BuildProgress.step cbsProgressFeed
  split
  · exact sound
  next filled =>
    cases event : eventOf line with
    | none => exact sound
    | some root => exact sound.fed (orderly filled root event)

theorem orderlyLine_of_consistent {line : List UInt8}
    (after : (p.step line).Consistent) : p.OrderlyLine line := by
  intro filled root event
  rw [step, cbsProgressFeed, if_neg filled, event] at after
  exact orderly_of_consistent after

theorem waiting_settled (cancelled : Bool) (x : Phase) : waiting false cancelled x ≠ .pending := by
  cases cancelled <;> exact PhaseState.noConfusion

theorem waiting_stopped (succeeded cancelled : Bool) (x : Phase) :
    waiting succeeded cancelled x ≠ .running := by
  unfold waiting
  split
  · exact PhaseState.noConfusion
  cases succeeded <;> cases cancelled <;> exact PhaseState.noConfusion

theorem Sound.phaseCut (sound : p.Sound) (cancelled : Bool) :
    (phaseCut p cancelled).Consistent := by
  unfold Cbs.phaseCut
  cases current : p.current with
  | none => exact sound.toConsistent
  | some x =>
    constructor
    · intro y running
      obtain ⟨other, before⟩ := running_of_update (by cases cancelled <;> decide) running
      cases current.symm.trans (sound.running y before)
      exact absurd rfl other
    · intro y failed
      dsimp only at failed ⊢
      by_cases same : y = x
      · subst same
        cases cancelled with
        | false => simp
        | true => exact absurd failed (sound.apart y current)
      · rw [Function.update_of_ne same]
        split at failed
        · exact absurd (some.inj failed).symm same
        · exact sound.failed y failed

theorem phaseCut_current (p : BuildProgress) (cancelled : Bool) :
    (phaseCut p cancelled).current = none := by
  unfold Cbs.phaseCut
  split
  next idle => exact idle
  · rfl

theorem Sound.finish (sound : p.Sound) (succeeded cancelled : Bool) :
    (cbsProgressFinish p succeeded cancelled).Settled succeeded := by
  have consistent := sound.phaseCut cancelled
  have idle := phaseCut_current p cancelled
  have stopped : ∀ x, (cbsProgressFinish p succeeded cancelled).state x ≠ .running := by
    intro x
    unfold cbsProgressFinish
    dsimp only
    split
    · intro running
      cases idle.symm.trans (consistent.running x running)
    · exact waiting_stopped succeeded cancelled x
  refine ⟨⟨fun x running => absurd running (stopped x), ?_⟩, stopped, ?_⟩
  · intro x failed
    have state := consistent.failed x failed
    simp only [cbsProgressFinish, state, reduceCtorEq, not_false_eq_true, if_true, ne_eq]
  · rintro rfl x
    unfold cbsProgressFinish
    dsimp only
    split
    next other => exact other
    next => exact waiting_settled cancelled x

theorem sound_of_throughout (planned : Nat) (lines : List (List UInt8))
    (holds : Throughout step Consistent (cbsProgressInit planned) lines) :
    Guarded step OrderlyLine (cbsProgressInit planned) lines ∧
      (run step (cbsProgressInit planned) lines).Sound := by
  induction lines using List.reverseRecOn with
  | nil => exact ⟨guarded_nil _ _, sound_init planned⟩
  | append_singleton lines line ih =>
    have last := holds.last
    rw [run_snoc] at last ⊢
    obtain ⟨guarded, sound⟩ := ih fun before after isLines =>
      holds before (after ++ [line]) (by rw [isLines, List.append_assoc])
    have orderly := orderlyLine_of_consistent last
    exact ⟨guarded.snoc orderly, sound.step orderly⟩

end BuildProgress

open BuildProgress

/-- Every record of a build is consistent, up to the last one, if and only if
each of its events fits. -/
theorem progress_consistent_iff (planned : Nat) (lines : List (List UInt8)) :
    (Throughout step Consistent (cbsProgressInit planned) lines ∧
      ∀ succeeded cancelled, (cbsProgressFinish
        (run step (cbsProgressInit planned) lines) succeeded cancelled).Settled succeeded) ↔
      Guarded step OrderlyLine (cbsProgressInit planned) lines := by
  constructor
  · rintro ⟨holds, _⟩
    exact (sound_of_throughout planned lines holds).1
  · intro guarded
    have sound := guarded.throughout Sound
      (fun _ _ sound orderly => sound.step orderly) (sound_init planned)
    exact ⟨sound.mono fun _ sound => sound.toConsistent,
      fun succeeded cancelled => sound.last.finish succeeded cancelled⟩

def nestedLines : List (List UInt8) :=
  [ascii "\x7b\"type\":\"phase-begin\",\"phase\":\"prepare\"\x7d",
    ascii "\x7b\"type\":\"phase-begin\",\"phase\":\"configure\"\x7d"]

/-- Two phases run, and only the second one is current. -/
theorem nested_phases_run : ¬ ∀ planned lines,
      Throughout step Consistent (cbsProgressInit planned) lines ∧
        ∀ succeeded cancelled, (cbsProgressFinish
          (run step (cbsProgressInit planned) lines) succeeded cancelled).Settled
            succeeded := by
  intro holds
  have last := (holds 63 nestedLines).1.last
  have runs : (run step (cbsProgressInit 63) nestedLines).state .prepare = .running := by
    decide +kernel
  have current : (run step (cbsProgressInit 63) nestedLines).current = some .configure := by
    decide +kernel
  cases current.symm.trans (last.running .prepare runs)

end Cix.Cbs
