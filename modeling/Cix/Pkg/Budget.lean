import Cix.Lib.Machine
import Cix.Pkg.Entries
import Mathlib.Algebra.Group.Int.Defs

/-!
# The memory budget of the builds

All builds share one parent cgroup, whose limit is `memory_max` or what the
recipe of a running build has raised it to.  Each chain slot carries a flag
that says whether its build container is running, and one number remembers
the highest need; the flag is set when a container is started and cleared by
its completion, in other functions than those that hand out and release the
slots.
-/

namespace Cix.Pkg

open Cix.Lib Option

/-- A slot of `g_chains`. `entry` is the state of its entry, `container` the need of
the container under its name. -/
structure BuildSlot where
  (busy producing : Bool)
  entry : Option EntryState
  fetchResolvedBuildMemory : Int
  buildRunning : Bool
  container : Option Int
  deriving DecidableEq

def BuildSlot.free : BuildSlot where
  busy := false
  producing := false
  entry := none
  fetchResolvedBuildMemory := 0
  buildRunning := false
  container := none

/-- Does `chain_reap_stale` reclaim the slot?  Not while it is free, while its
producer runs, or while its job can still report. -/
def BuildSlot.stale (slot : BuildSlot) : Bool :=
  slot.busy && !slot.producing &&
    match slot.entry with
    | some .fetching => false
    | some .building => slot.container.isNone
    | _ => true

structure BuildBudget where
  slots : ChainIdx → BuildSlot
  raised : Int
  (memoryMax memoryMaxCeiling : Nat)

/-- How `pkg_build_completed` leaves the slot: the job is over, its producer
has been forked, or the slot belongs to another job. -/
inductive BuildEnd
  | ends
  | produces
  | keeps
  deriving DecidableEq

namespace BuildBudget

def modSlot (i : ChainIdx) (change : BuildSlot → BuildSlot) (s : BuildBudget) : BuildBudget :=
  { s with slots := Function.update s.slots i (change (s.slots i)) }

/-! ## The build configuration -/

/-- `pkg_build_effective_memory_max`; `0` is no limit. -/
def pkgBuildEffectiveMemoryMax (s : BuildBudget) : Int :=
  if s.memoryMax = 0 then 0
  else if s.raised > s.memoryMax then s.raised else s.memoryMax

def memoryBudgetAtLeast (a b : Int) : Bool :=
  if a = 0 then true else if b = 0 then false else a ≥ b

/-- `pkg_build_set_memory`, which changes nothing when it refuses. -/
def pkgBuildSetMemory (memoryMax ceiling : Int) (s : BuildBudget) :
    BuildBudget :=
  if memoryMax < 0 ∨ ceiling < 0 then s
  else if !memoryBudgetAtLeast ceiling memoryMax then s
  else
    { s with
      memoryMax := memoryMax.toNat
      memoryMaxCeiling := ceiling.toNat }

def buildMemoryAdmit (need : Int) (s : BuildBudget) : Bool :=
  need ≤ 0 || s.memoryMax = 0 || s.memoryMaxCeiling = 0 || need ≤ s.memoryMaxCeiling

def pkgBuildMemoryNoteStart (i : ChainIdx) (need : Int) (s : BuildBudget) :
    BuildBudget :=
  let s := s.modSlot i fun slot => { slot with buildRunning := true }
  if need > s.raised then { s with raised := need } else s

/-- Is `build_running` set in some slot? -/
def anyBuildRunning (s : BuildBudget) : Bool :=
  (List.finRange maxConcurrentJobs).any fun j => (s.slots j).buildRunning

def pkgBuildMemoryNoteEnd (i : ChainIdx) (s : BuildBudget) : BuildBudget :=
  if !(s.slots i).buildRunning then s
  else
    let s := s.modSlot i fun slot => { slot with buildRunning := false }
    if s.anyBuildRunning then s else { s with raised := 0 }

/-! ## Slots -/

def chainRelease (i : ChainIdx) (s : BuildBudget) : BuildBudget :=
  s.modSlot i fun slot => { slot with busy := false, producing := false }

/-- The body of the loop of `chain_reap_stale`. -/
def reapOne (i : ChainIdx) (s : BuildBudget) : BuildBudget :=
  if (s.slots i).stale then s.chainRelease i else s

/-- `chain_handout` and `chain_claim`, with the need of the recipe that
`start_fetch_for` has resolved in between. -/
def startFetchFor (i : ChainIdx) (need : Int) (s : BuildBudget) :
    BuildBudget :=
  s.modSlot i fun slot =>
    { slot with
      busy := true
      entry := some .fetching
      fetchResolvedBuildMemory := need }

def chainReleaseIfJobOver (i : ChainIdx) (s : BuildBudget) : BuildBudget :=
  match (s.slots i).entry with
  | some .fetching | some .building => s
  | _ => s.chainRelease i

/-! ## The start and the end of a build -/

def startBuildContainerSpec (i : ChainIdx) (cacheHit : Bool) (s : BuildBudget) : BuildBudget :=
  let need := if cacheHit then 0 else (s.slots i).fetchResolvedBuildMemory
  (s.pkgBuildMemoryNoteStart i need).modSlot i fun slot =>
    { slot with entry := some .building }

def pkgBuildCompleted (i : ChainIdx) (outcome : BuildEnd) (s : BuildBudget) : BuildBudget :=
  if (s.slots i).producing then s
  else
    let s := s.pkgBuildMemoryNoteEnd i
    match outcome with
    | .ends => s.chainRelease i
    | .produces => s.modSlot i fun slot => { slot with producing := true }
    | .keeps => s

def pkgBuildSpawnFailed (i : ChainIdx) (s : BuildBudget) : BuildBudget :=
  (s.pkgBuildMemoryNoteEnd i).chainRelease i

/-- `spawn_pkgbuild_container`; the registry refuses a second container of
the same name. -/
def spawnPkgbuildContainer (i : ChainIdx) (spawns : Bool) (s : BuildBudget) : BuildBudget :=
  if spawns && (s.slots i).container.isNone then
    s.modSlot i fun slot =>
      { slot with container := some slot.fetchResolvedBuildMemory }
  else s.pkgBuildSpawnFailed i

structure BuildStart where
  cacheHit : Bool
  declared : Int
  spawns : Bool
  outcome : BuildEnd

/-- `pkg_prepare_build_and_start`, from the admission of the build, and what
its caller does with the result. -/
def pkgPrepareBuildAndStart (i : ChainIdx) (start : BuildStart) (s : BuildBudget) : BuildBudget :=
  if !start.cacheHit && !s.buildMemoryAdmit start.declared then
    s.chainRelease i
  else
    let s := s.startBuildContainerSpec i start.cacheHit
    if start.cacheHit then s.pkgBuildCompleted i start.outcome
    else s.spawnPkgbuildContainer i start.spawns

/-- `pkg_resume_build`, and the spawn that follows it.  The container that
was kept under the slot's name is removed first. -/
def pkgResumeBuild (i : ChainIdx) (declared : Int) (spawns : Bool)
    (s : BuildBudget) : BuildBudget :=
  if (s.slots i).busy || !s.buildMemoryAdmit declared then s
  else
    let s := s.modSlot i fun slot =>
      { slot with
        busy := true
        fetchResolvedBuildMemory := declared
        container := none }
    (s.startBuildContainerSpec i false).spawnPkgbuildContainer i spawns

end BuildBudget

/-! ## Events -/

inductive BuildEvent
  /-- A job takes a free slot and starts its fetch. -/
  | claimed (i : ChainIdx) (need : Int)
  /-- An uninstall takes a free slot; it only runs a producer. -/
  | uninstalls (i : ChainIdx)
  /-- A fetch, a composition or an unpacking fails, or is cancelled. -/
  | abandoned (i : ChainIdx)
  /-- A fetch, a composition or an unpacking leads to the build. -/
  | prepared (i : ChainIdx) (start : BuildBudget.BuildStart)
  /-- A kept build is resumed in its slot. -/
  | resumed (i : ChainIdx) (declared : Int) (spawns : Bool)
  /-- A build container ends, by itself or by a cancel or a stop. -/
  | exited (i : ChainIdx) (outcome : BuildEnd)
  /-- A build container disappears from the registry without a report. -/
  | lost (i : ChainIdx)
  /-- A stop or a cancel finds the container gone, and reports it. -/
  | reported (i : ChainIdx) (outcome : BuildEnd)
  /-- The producer of the slot ends; the job goes on with its next package,
  which declares `next`, or is over. -/
  | produced (i : ChainIdx) (next : Option Int)
  /-- `chain_reap_stale` looks at the slot. -/
  | reaped (i : ChainIdx)
  /-- Another job, or an uninstall, changes the entry that the slot names. -/
  | entryChanges (i : ChainIdx) (entry : Option EntryState)
  | setMemory (memoryMax ceiling : Int)

namespace BuildBudget

def step (s : BuildBudget) : BuildEvent → BuildBudget
  | .claimed i need => if (s.slots i).busy then s else s.startFetchFor i need
  | .uninstalls i =>
    if (s.slots i).busy then s
    else s.modSlot i fun slot =>
      { slot with busy := true, producing := true }
  | .abandoned i =>
    if (s.slots i).entry = some .fetching then s.chainRelease i
    else s.chainReleaseIfJobOver i
  | .prepared i start =>
    if (s.slots i).busy && (s.slots i).entry = some .fetching then
      s.pkgPrepareBuildAndStart i start
    else s.chainReleaseIfJobOver i
  | .resumed i declared spawns => s.pkgResumeBuild i declared spawns
  | .exited i outcome =>
    if (s.slots i).container.isSome then
      (s.modSlot i fun slot => { slot with container := none
        }).pkgBuildCompleted i outcome
    else s
  | .lost i => s.modSlot i fun slot => { slot with container := none }
  | .reported i outcome =>
    if (s.slots i).container.isSome then s
    else s.pkgBuildCompleted i outcome
  | .produced i next =>
    if (s.slots i).producing then
      let s := s.modSlot i fun slot => { slot with producing := false }
      match next with
      | none => s.chainRelease i
      | some need => s.startFetchFor i need
    else s
  | .reaped i => s.reapOne i
  | .entryChanges i entry => s.modSlot i fun slot => { slot with entry := entry }
  | .setMemory memoryMax ceiling => s.pkgBuildSetMemory memoryMax ceiling

def initial (memoryMax ceiling : Nat) : BuildBudget where
  slots := fun _ => BuildSlot.free
  raised := 0
  memoryMax := memoryMax
  memoryMaxCeiling := ceiling

/-! ## Fields after an assignment -/

section Fields

variable (s : BuildBudget) (i : ChainIdx) (change : BuildSlot → BuildSlot)

@[simp]
theorem modSlot_self : (s.modSlot i change).slots i = change (s.slots i) := by
  simp [modSlot]

theorem modSlot_of_ne {j : ChainIdx} (other : j ≠ i) :
    (s.modSlot i change).slots j = s.slots j := by
  simp [modSlot, other]

@[simp]
theorem modSlot_raised : (s.modSlot i change).raised = s.raised := rfl

theorem anyBuildRunning_eq_false :
    s.anyBuildRunning = false ↔ ∀ j, (s.slots j).buildRunning = false := by
  simp [anyBuildRunning]

end Fields

/-! ## What the flags say -/

/-- The flag of a slot is set exactly while the container runs that the slot's
job has started, and the budget has been raised to its need. -/
structure Fits (raised : Int) (slot : BuildSlot) : Prop where
  running : slot.buildRunning = slot.container.isSome
  held : slot.buildRunning = true → slot.busy = true ∧ slot.producing = false
  covered : ∀ need, slot.container = some need → need ≤ raised

structure Sound (s : BuildBudget) : Prop where
  fits : ∀ i, Fits s.raised (s.slots i)
  low : s.anyBuildRunning = false → s.raised = 0

structure Ending (i : ChainIdx) (s : BuildBudget) : Prop where
  others : ∀ j, j ≠ i → Fits s.raised (s.slots j)
  gone : (s.slots i).container = none
  low : s.anyBuildRunning = false → s.raised = 0

variable {s : BuildBudget} {i : ChainIdx}

theorem Fits.of_idle {raised : Int} {slot : BuildSlot}
    (idle : slot.buildRunning = false) (gone : slot.container = none) :
    Fits raised slot where
  running := by rw [idle, gone, isSome_none]
  held := fun running => absurd running (by simp [idle])
  covered := fun need present => absurd present (by simp [gone])

theorem Fits.mono {low high : Int} {slot : BuildSlot}
    (fits : Fits low slot) (raised : low ≤ high) : Fits high slot where
  running := fits.running
  held := fits.held
  covered := fun need present =>
    Int.le_trans (fits.covered need present) raised

theorem Fits.gone {raised : Int} {slot : BuildSlot}
    (fits : Fits raised slot) (idle : slot.buildRunning = false) :
    slot.container = none := by
  rw [← not_isSome_iff_eq_none, ← fits.running, idle]
  exact Bool.false_ne_true

theorem Sound.ending (sound : Sound s) (gone : (s.slots i).container = none) :
    Ending i s :=
  ⟨fun j _ => sound.fits j, gone, sound.low⟩

theorem Sound.modSlot (sound : Sound s) {change : BuildSlot → BuildSlot}
    (fits : Fits s.raised (change (s.slots i)))
    (same : (change (s.slots i)).buildRunning = (s.slots i).buildRunning) :
    Sound (s.modSlot i change) where
  fits := by
    intro j
    by_cases here : j = i
    · rw [here, modSlot_self]
      exact fits
    · rw [modSlot_of_ne s i change here]
      exact sound.fits j
  low := by
    intro idle
    apply sound.low
    rw [anyBuildRunning_eq_false] at idle ⊢
    intro j
    have flag := idle j
    by_cases here : j = i
    · rw [here, modSlot_self, same] at flag
      rw [here]
      exact flag
    · rwa [modSlot_of_ne s i change here] at flag

theorem Sound.release (sound : Sound s)
    (idle : (s.slots i).buildRunning = false) : Sound (s.chainRelease i) :=
  sound.modSlot (Fits.of_idle idle ((sound.fits i).gone idle)) rfl

theorem Ending.noteEnd (ending : Ending i s) : Sound (s.pkgBuildMemoryNoteEnd i) ∧
      ((s.pkgBuildMemoryNoteEnd i).slots i).buildRunning = false := by
  unfold pkgBuildMemoryNoteEnd
  cases flag : (s.slots i).buildRunning with
  | false =>
    refine ⟨⟨fun j => ?_, ending.low⟩, flag⟩
    by_cases here : j = i
    · rw [here]
      exact Fits.of_idle flag ending.gone
    · exact ending.others j here
  | true =>
    have fits : ∀ j, Fits s.raised ((s.modSlot i fun slot =>
        { slot with buildRunning := false }).slots j) := by
      intro j
      by_cases here : j = i
      · rw [here, modSlot_self]
        exact Fits.of_idle rfl ending.gone
      · rw [modSlot_of_ne s i _ here]
        exact ending.others j here
    rw [if_neg (by simp)]
    dsimp only
    split
    next more => exact ⟨⟨fits, fun idle => absurd more (by simp [idle])⟩, by simp⟩
    next last =>
      rw [Bool.not_eq_true, anyBuildRunning_eq_false] at last
      exact ⟨⟨fun j => Fits.of_idle (last j) ((fits j).gone (last j)), fun _ => rfl⟩, by simp⟩

theorem Ending.spawnFailed (ending : Ending i s) : Sound (s.pkgBuildSpawnFailed i) :=
  ending.noteEnd.1.release ending.noteEnd.2

theorem Ending.completed (ending : Ending i s)
    (waits : (s.slots i).producing = false) (outcome : BuildEnd) :
    Sound (s.pkgBuildCompleted i outcome) := by
  unfold pkgBuildCompleted
  rw [if_neg (by simp [waits])]
  obtain ⟨sound, idle⟩ := ending.noteEnd
  cases outcome with
  | ends => exact sound.release idle
  | produces => exact sound.modSlot (Fits.of_idle idle ((sound.fits i).gone idle)) rfl
  | keeps => exact sound

def startNeed (i : ChainIdx) (cacheHit : Bool) (s : BuildBudget) : Int :=
  if cacheHit then 0 else (s.slots i).fetchResolvedBuildMemory

theorem noteStart_slots (need : Int) : (s.pkgBuildMemoryNoteStart i need).slots =
      (s.modSlot i fun slot => { slot with buildRunning := true }).slots := by
  unfold pkgBuildMemoryNoteStart
  dsimp only
  split <;> rfl

theorem noteStart_raised (need : Int) :
    (s.pkgBuildMemoryNoteStart i need).raised = max s.raised need := by
  unfold pkgBuildMemoryNoteStart
  dsimp only
  split
  next more => simp only [modSlot_raised] at more ⊢; omega
  next enough => simp only [modSlot_raised] at enough ⊢; omega

theorem startBuildContainerSpec_slots (cacheHit : Bool) :
    (s.startBuildContainerSpec i cacheHit).slots = (s.modSlot i fun slot =>
        { slot with buildRunning := true, entry := some .building }).slots := by
  unfold startBuildContainerSpec
  simp [BuildBudget.modSlot, noteStart_slots]

theorem startBuildContainerSpec_raised (cacheHit : Bool) :
    (s.startBuildContainerSpec i cacheHit).raised = max s.raised (s.startNeed i cacheHit) :=
  noteStart_raised _

theorem Sound.start (sound : Sound s) (idle : (s.slots i).buildRunning = false) (cacheHit : Bool) :
    Ending i (s.startBuildContainerSpec i cacheHit) where
  others := by
    intro j other
    rw [startBuildContainerSpec_slots, startBuildContainerSpec_raised, modSlot_of_ne s i _ other]
    exact (sound.fits j).mono (Int.le_max_left _ _)
  gone := by
    rw [startBuildContainerSpec_slots, modSlot_self]
    exact (sound.fits i).gone idle
  low := by
    intro none
    rw [anyBuildRunning_eq_false] at none
    have flag := none i
    rw [startBuildContainerSpec_slots, modSlot_self] at flag
    exact absurd flag (by simp)

theorem Sound.spawn (sound : Sound s) (idle : (s.slots i).buildRunning = false)
    (held : (s.slots i).busy = true ∧ (s.slots i).producing = false)
    (spawns : Bool) :
    Sound ((s.startBuildContainerSpec i false).spawnPkgbuildContainer i spawns) := by
  have ending := sound.start idle false
  unfold spawnPkgbuildContainer
  split
  · constructor
    · intro j
      by_cases here : j = i
      · rw [here, modSlot_self, modSlot_raised, startBuildContainerSpec_slots, modSlot_self,
          startBuildContainerSpec_raised]
        refine ⟨rfl, fun _ => held, fun need present => ?_⟩
        rw [← some.inj present]
        exact Int.le_max_right _ _
      · rw [modSlot_of_ne _ i _ here]
        exact ending.others j here
    · intro none
      rw [anyBuildRunning_eq_false] at none
      have flag := none i
      rw [modSlot_self, startBuildContainerSpec_slots, modSlot_self] at flag
      exact absurd flag (by simp)
  · exact ending.spawnFailed

/-! ## Every event -/

/-- While its flag is set, a slot is not reclaimed, released or given another build,
and its container does not disappear without a report. -/
def Settled (s : BuildBudget) : BuildEvent → Prop
  | .lost i => (s.slots i).container = none
  | .reaped i => (s.slots i).stale = true → (s.slots i).buildRunning = false
  | .abandoned i =>
    (s.slots i).entry ≠ some .building → (s.slots i).buildRunning = false
  | .prepared i _ =>
    (s.slots i).entry ≠ some .building →
      (s.slots i).buildRunning = false ∧ (s.slots i).producing = false
  | .resumed i _ _ => (s.slots i).busy = false → (s.slots i).producing = false
  | _ => True

theorem Sound.releaseIfJobOver (sound : Sound s)
    (settled : (s.slots i).entry ≠ some .building → (s.slots i).buildRunning = false) :
    Sound (s.chainReleaseIfJobOver i) := by
  unfold chainReleaseIfJobOver
  split
  · exact sound
  · exact sound
  next notFetching notBuilding => exact sound.release (settled notBuilding)

theorem Sound.prepare (sound : Sound s) (idle : (s.slots i).buildRunning = false)
    (held : (s.slots i).busy = true ∧ (s.slots i).producing = false)
    (start : BuildStart) : Sound (s.pkgPrepareBuildAndStart i start) := by
  unfold pkgPrepareBuildAndStart
  split
  · exact sound.release idle
  · cases hit : start.cacheHit with
    | true =>
      apply (sound.start idle true).completed
      rw [startBuildContainerSpec_slots, modSlot_self]
      exact held.2
    | false => exact sound.spawn idle held start.spawns

theorem Sound.idle_of_free (sound : Sound s) (free : (s.slots i).busy = false) :
    (s.slots i).buildRunning = false := by
  rw [← Bool.not_eq_true]
  intro running
  have held := ((sound.fits i).held running).1
  rw [free] at held
  exact Bool.false_ne_true held

theorem Sound.idle_of_producing (sound : Sound s) (producing : (s.slots i).producing = true) :
    (s.slots i).buildRunning = false := by
  rw [← Bool.not_eq_true]
  intro running
  have held := ((sound.fits i).held running).2
  rw [producing] at held
  exact Bool.false_ne_true held.symm

theorem Sound.vanished (sound : Sound s) (i : ChainIdx) :
    Ending i (s.modSlot i fun slot => { slot with container := none }) where
  others := by
    intro j other
    rw [modSlot_of_ne s i _ other]
    exact sound.fits j
  gone := by
    rw [modSlot_self]
  low := by
    intro none
    apply sound.low
    rw [anyBuildRunning_eq_false] at none ⊢
    intro j
    have flag := none j
    by_cases here : j = i
    · rw [here, modSlot_self] at flag
      rw [here]
      exact flag
    · rwa [modSlot_of_ne s i _ here] at flag

theorem step_sound {event : BuildEvent} (sound : Sound s)
    (settled : Settled s event) : Sound (s.step event) := by
  cases event with
  | claimed i need =>
    dsimp only [step]
    split
    · exact sound
    next free =>
      have idle := sound.idle_of_free (Bool.eq_false_iff.mpr free)
      exact sound.modSlot (Fits.of_idle idle ((sound.fits i).gone idle)) rfl
  | uninstalls i =>
    dsimp only [step]
    split
    · exact sound
    next free =>
      have idle := sound.idle_of_free (Bool.eq_false_iff.mpr free)
      exact sound.modSlot (Fits.of_idle idle ((sound.fits i).gone idle)) rfl
  | abandoned i =>
    dsimp only [step]
    split
    next fetching => exact sound.release (settled (by rw [fetching]; decide))
    · exact sound.releaseIfJobOver settled
  | prepared i start =>
    dsimp only [step]
    split
    next ready =>
      rw [Bool.and_eq_true, decide_eq_true_eq] at ready
      have quiet := settled (by rw [ready.2]; decide)
      exact sound.prepare quiet.1 ⟨ready.1, quiet.2⟩ start
    · exact sound.releaseIfJobOver fun entry => (settled entry).1
  | resumed i declared spawns =>
    dsimp only [step]
    unfold pkgResumeBuild
    split
    · exact sound
    next free =>
      rw [Bool.not_eq_true, Bool.or_eq_false_iff] at free
      have idle := sound.idle_of_free free.1
      have claimed : Sound (s.modSlot i fun slot =>
          { slot with
            busy := true
            fetchResolvedBuildMemory := declared
            container := none }) :=
        sound.modSlot (Fits.of_idle idle rfl) rfl
      apply claimed.spawn
      · rw [modSlot_self]
        exact idle
      · rw [modSlot_self]
        exact ⟨rfl, settled free.1⟩
  | exited i outcome =>
    dsimp only [step]
    split
    next present =>
      have flag : (s.slots i).buildRunning = true := by rw [(sound.fits i).running, present]
      have waits := ((sound.fits i).held flag).2
      apply (sound.vanished i).completed
      rw [modSlot_self]
      exact waits
    · exact sound
  | lost i =>
    have fits := sound.fits i
    dsimp only [step]
    apply sound.modSlot
    · refine ⟨?_, fits.held, fun need present => ?_⟩
      · rw [fits.running, settled]
      · exact absurd present (by simp)
    · rfl
  | reported i outcome =>
    dsimp only [step]
    split
    · exact sound
    next absent =>
      have gone := not_isSome_iff_eq_none.mp absent
      cases producing : (s.slots i).producing with
      | true =>
        unfold pkgBuildCompleted
        rw [if_pos producing]
        exact sound
      | false => exact (sound.ending gone).completed producing outcome
  | produced i next =>
    dsimp only [step]
    split
    next producing =>
      have idle := sound.idle_of_producing producing
      have gone := (sound.fits i).gone idle
      have ended : Sound (s.modSlot i fun slot =>
          { slot with producing := false }) :=
        sound.modSlot (Fits.of_idle idle gone) rfl
      cases next with
      | none => exact ended.release (by simpa using idle)
      | some need =>
        apply ended.modSlot
        · rw [modSlot_self]
          exact Fits.of_idle idle gone
        · rfl
    · exact sound
  | reaped i =>
    dsimp only [step]
    unfold reapOne
    split
    next stale => exact sound.release (settled stale)
    · exact sound
  | entryChanges i entry =>
    have fits := sound.fits i
    dsimp only [step]
    apply sound.modSlot
    · exact ⟨fits.running, fits.held, fits.covered⟩
    · rfl
  | setMemory memoryMax ceiling =>
    dsimp only [step]
    unfold pkgBuildSetMemory
    split
    · exact sound
    · split
      · exact sound
      · exact ⟨sound.fits, sound.low⟩

theorem initial_sound (memoryMax ceiling : Nat) : Sound (initial memoryMax ceiling) where
  fits := fun _ => Fits.of_idle rfl rfl
  low := fun _ => rfl

/-! ## The budget follows the builds -/

/-- The budget is unlimited, or at least what each running build declares; and
it is `memory_max` when no build is running. -/
structure Follows (s : BuildBudget) : Prop where
  covers : ∀ i need, (s.slots i).container = some need →
    s.memoryMax = 0 ∨ need ≤ s.pkgBuildEffectiveMemoryMax
  returns : (∀ i, (s.slots i).container = none) → s.pkgBuildEffectiveMemoryMax = s.memoryMax

theorem Sound.follows (sound : Sound s) : Follows s where
  covers := by
    intro i need present
    have covered := (sound.fits i).covered need present
    unfold pkgBuildEffectiveMemoryMax
    split
    next unlimited => exact Or.inl unlimited
    next =>
      right
      split <;> omega
  returns := by
    intro none
    have low := sound.low (by
      rw [anyBuildRunning_eq_false]
      intro j
      rw [(sound.fits j).running, none j, isSome_none])
    unfold pkgBuildEffectiveMemoryMax
    split
    · omega
    · rw [if_neg (by omega)]

/-- In a run in which no slot loses or changes its build while its flag is
set, the budget follows the builds. -/
theorem budget_follows_builds (memoryMax ceiling : Nat) (events : List BuildEvent)
    (settled : Guarded step Settled (initial memoryMax ceiling) events) :
    Throughout step Follows (initial memoryMax ceiling) events := by
  intro before after equality
  rw [equality] at settled
  have sound := run_invariant Sound (fun s event holds guard => step_sound holds guard)
    (initial_sound memoryMax ceiling) settled.initial
  exact sound.follows

/-! ## A build that vanishes -/

def gib (n : Nat) : Int := n * 1024 ^ 3

def freshStart (declared : Int) : BuildStart where
  cacheHit := false
  declared := declared
  spawns := true
  outcome := .ends

def slot0 : ChainIdx := ⟨0, by decide⟩

def slot1 : ChainIdx := ⟨1, by decide⟩

def vanishedBuild : List BuildEvent :=
  [.claimed slot0 (gib 4), .prepared slot0 (freshStart (gib 4)), .lost slot0,
    .reaped slot0, .claimed slot1 0, .prepared slot1 (freshStart 0),
    .exited slot1 .ends]

/-- No build is running and no slot is taken, and the budget stays raised. -/
theorem vanished_build_keeps_budget_raised :
    (∀ i, ((run step (initial (2 * 1024 ^ 3) (8 * 1024 ^ 3))
        vanishedBuild).slots i).container = none ∧
      ((run step (initial (2 * 1024 ^ 3) (8 * 1024 ^ 3)) vanishedBuild).slots i).busy = false) ∧
      (run step (initial (2 * 1024 ^ 3) (8 * 1024 ^ 3))
        vanishedBuild).pkgBuildEffectiveMemoryMax = gib 4 ∧
      ¬ Follows (run step (initial (2 * 1024 ^ 3) (8 * 1024 ^ 3)) vanishedBuild) := by
  have idle : ∀ i, ((run step (initial (2 * 1024 ^ 3) (8 * 1024 ^ 3))
      vanishedBuild).slots i).container = none ∧
      ((run step (initial (2 * 1024 ^ 3) (8 * 1024 ^ 3)) vanishedBuild).slots i).busy = false := by
    decide +kernel
  refine ⟨idle, by decide +kernel, fun follows => ?_⟩
  exact absurd (follows.returns fun i => (idle i).1) (by decide +kernel)

def resumedBuild : List BuildEvent :=
  [.claimed slot0 (gib 4), .prepared slot0 (freshStart (gib 4)),
    .exited slot0 .ends, .resumed slot0 (gib 3) true]

/-- The rule at a run in which a build is resumed in its slot. -/
theorem resumed_build_is_followed :
    Guarded step Settled (initial (2 * 1024 ^ 3) (8 * 1024 ^ 3)) resumedBuild ∧
      Throughout step Follows (initial (2 * 1024 ^ 3) (8 * 1024 ^ 3))
        resumedBuild := by
  have settled : Guarded step Settled (initial (2 * 1024 ^ 3) (8 * 1024 ^ 3)) resumedBuild := by
    refine Guarded.cons trivial (Guarded.cons ?_ (Guarded.cons trivial
      (Guarded.cons ?_ (guarded_nil _ _))))
    · intro _
      decide +kernel
    · intro _
      decide +kernel
  exact ⟨settled, budget_follows_builds _ _ _ settled⟩

end BuildBudget

end Cix.Pkg
