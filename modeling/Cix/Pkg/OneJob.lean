import Cix.Lib.Machine
import Cix.Pkg.Starts

/-!
# One job for each package

A chain is retargeted in two places: by `delete_start`, which has asked
before whether a job for the package is in flight, and by `start_fetch_for`,
which has not.  Everything else leaves a chain its target or frees it.
-/

namespace Cix.Pkg

open Cix.Lib List Option

namespace State

def OneJob (s : State) : Prop :=
  ∀ i j key, (s.chains i).target = some key → (s.chains j).target = some key → i = j

def Apart (s : State) (i : ChainIdx) (name : Name) : Prop :=
  ∀ j, j ≠ i → (s.chains j).target ≠ some ⟨name, (s.chains i).image⟩

def StartsApart (s : State) (event : Event) : Prop :=
  s.alive = true → ∀ s₀ w i name, s.fetchStart event = some (s₀, w, i, name) →
      (s₀.startFetchFor w name i).2 = .ok → s₀.Apart i name

def Narrows (s s' : State) : Prop :=
  ∀ j, (s'.chains j).target = none ∨ (s'.chains j).target = (s.chains j).target

section Narrows

variable {s s' s'' : State} {i : ChainIdx} {w : World} {slot : Nat}
  {e : Entry}

theorem Narrows.trans (first : s.Narrows s') (second : s'.Narrows s'') :
    s.Narrows s'' := by
  intro j
  rcases second j with gone | same
  · exact Or.inl gone
  · rw [same]
    exact first j

theorem narrows_of_chains (same : s'.chains = s.chains) :
    s.Narrows s' := by
  intro j
  rw [same]
  exact Or.inr rfl

theorem narrows_refl (s : State) : s.Narrows s :=
  narrows_of_chains rfl

theorem narrows_setChain {c : Chain} (narrow : c.target = none ∨ c.target = (s.chains i).target) :
    s.Narrows (s.setChain i c) := by
  intro j
  by_cases here : j = i
  · subst here
    rw [setChain_self]
    exact narrow
  · rw [setChain_of_ne s i c here]
    exact Or.inr rfl

theorem narrows_release : s.Narrows (s.release i) :=
  narrows_setChain (Or.inl rfl)

theorem narrows_setTable {t : Table} : s.Narrows (s.setTable t) :=
  narrows_of_chains rfl

theorem narrows_release_of_chains (same : s'.chains = s.chains) : s.Narrows (s'.release i) :=
  (narrows_of_chains same).trans narrows_release

theorem narrows_reapOne : s.Narrows (s.reapOne i) := by
  rw [reapOne]
  split_ifs
  · exact narrows_refl s
  · split
    · exact narrows_release
    · split_ifs
      · exact narrows_refl s
      · exact narrows_release_of_chains (fail_chains s _ _)
      · exact narrows_release

theorem narrows_chainReapStale : s.Narrows s.chainReapStale := by
  rw [chainReapStale]
  induction List.finRange maxConcurrentJobs generalizing s with
  | nil => exact narrows_refl s
  | cons first rest ih =>
    rw [foldl_cons]
    exact narrows_reapOne.trans ih

theorem narrows_chainAllocFrom {order : List ChainIdx} : s.Narrows (s.chainAllocFrom order).1 := by
  rw [chainAllocFrom]
  cases order.find? fun i => (s.chainReapStale.chains i).name.isNone with
  | none => exact narrows_chainReapStale
  | some i =>
    apply narrows_chainReapStale.trans
    exact narrows_setChain (Or.inr rfl)

theorem narrows_chainReleaseIfJobOver {e : Option (Nat × Entry)} :
    s.Narrows (s.chainReleaseIfJobOver i e) := by
  cases e with
  | none => exact narrows_release
  | some found =>
    rw [chainReleaseIfJobOver]
    split_ifs
    · exact narrows_refl s
    · exact narrows_release

theorem narrows_startProducer {change : Mutation} : s.Narrows (s.startProducer i slot change) := by
  rw [startProducer]
  split_ifs
  · exact narrows_setChain (Or.inr rfl)
  · exact narrows_setChain (Or.inr rfl)

theorem narrows_installProduceFailed {upgrade : Bool} :
    s.Narrows (s.installProduceFailed i slot upgrade) :=
  narrows_release_of_chains rfl

theorem narrows_installProduceBegin {upgrade : Bool} :
    s.Narrows (s.installProduceBegin w i slot upgrade) := by
  rw [installProduceBegin]
  split_ifs
  · exact narrows_startProducer
  · exact narrows_installProduceFailed
  · exact narrows_installProduceFailed
  · exact narrows_startProducer
  · exact narrows_installProduceFailed

theorem narrows_buildStaged {files : List CStr} : s.Narrows (s.buildStaged w i slot e files) := by
  rw [buildStaged]
  have harvest : s.Narrows ((s.setTable (s.table.modify slot
      (harvested (s.chains i)))).setChain i { s.chains i with
        staged := files
        produceE := some slot
        producePrevVersion := e.version
        producePrevDepends := e.depends }) :=
    narrows_setChain (Or.inr rfl)
  split_ifs
  · exact harvest.trans narrows_installProduceFailed
  · exact harvest.trans narrows_installProduceBegin

theorem narrows_pkgBuildCompleted {outcome : BuildOutcome} :
    s.Narrows (s.pkgBuildCompleted w i outcome) := by
  rw [pkgBuildCompleted]
  split_ifs
  · exact narrows_refl s
  · split
    · split
      · exact narrows_release
      · split_ifs
        · exact narrows_release
        · exact narrows_refl s
    · split_ifs
      · exact narrows_release_of_chains rfl
      · cases outcome with
        | failed => exact narrows_release_of_chains (fail_chains s _ _)
        | staged files => exact narrows_buildStaged

theorem narrows_prepareBuildAndStart {answer : PrepAnswer} :
    s.Narrows (s.prepareBuildAndStart w i slot answer) := by
  have failed : ∀ t keep, s.Narrows (((s.setTable t).fail slot keep).release i) :=
    fun t keep => narrows_release_of_chains rfl
  cases answer with
  | exitFailed => exact failed s.table _
  | refused => exact failed s.table _
  | another => exact narrows_of_chains rfl
  | container => exact narrows_of_chains rfl
  | containerFailed => exact failed _ _
  | cached outcome => exact narrows_setTable.trans narrows_pkgBuildCompleted

theorem narrows_pkgFetchCompleted {answer : PrepAnswer} :
    s.Narrows (s.pkgFetchCompleted w i answer) := by
  have failed : ∀ t slot keep, s.Narrows (((s.setTable t).fail slot keep).release i) :=
    fun t slot keep => narrows_release_of_chains rfl
  have goes : ∀ t slot answer, s.Narrows ((s.setTable t).prepareBuildAndStart w i slot answer) :=
    fun t slot answer => narrows_setTable.trans narrows_prepareBuildAndStart
  rw [pkgFetchCompleted]
  split
  · exact narrows_chainReleaseIfJobOver
  · rename_i slot e found
    simp only
    split
    · exact narrows_chainReleaseIfJobOver
    · split
      · exact failed _ _ _
      · exact failed s.table _ _
      · split
        · exact failed _ _ _
        · exact goes _ _ _

theorem narrows_pkgPrepareCompleted {answer : PrepAnswer} :
    s.Narrows (s.pkgPrepareCompleted w i answer) := by
  rw [pkgPrepareCompleted]
  split
  · exact narrows_chainReleaseIfJobOver
  · split_ifs
    · exact narrows_chainReleaseIfJobOver
    · exact narrows_prepareBuildAndStart

theorem narrows_pkgCancel {key : Key} : s.Narrows (s.pkgCancel w key).1 := by
  have completed : ∀ t i, s.Narrows ((s.setTable t).pkgBuildCompleted w i .failed) :=
    fun t i => narrows_setTable.trans narrows_pkgBuildCompleted
  rw [pkgCancel]
  split
  · exact narrows_refl s
  · split_ifs
    · exact narrows_refl s
    · simp only
      split
      · exact narrows_of_chains rfl
      · split
        · exact narrows_of_chains rfl
        · exact completed _ _

theorem narrows_startFetchFor {name : Name} (refused : (s.startFetchFor w name i).2 ≠ .ok) :
    s.Narrows (s.startFetchFor w name i).1 := by
  rw [startFetchFor] at refused ⊢
  cases recipe : w.recipe name (s.chains i).effectiveVersion with
  | none => exact narrows_refl s
  | some found =>
    simp only [recipe] at refused ⊢
    cases place : fetchEntry ⟨name, (s.chains i).image⟩ s.table with
    | none => exact narrows_refl s
    | some slot =>
      simp only [place] at refused ⊢
      split_ifs at refused ⊢
      · exact absurd rfl refused
      · exact narrows_setChain (Or.inr rfl)

theorem narrows_deleteProduced {built : Built} : s.Narrows (s.deleteProduced w i slot e built) := by
  rw [deleteProduced]
  split_ifs
  · apply narrows_release_of_chains
    rw [save]
    split_ifs <;> rfl
  · exact narrows_of_chains rfl
  · exact narrows_release

theorem narrows_installProduced {built : Built} (unsettled : s.settles w i built = false) :
    s.Narrows (s.installProduced w i slot e built) := by
  have failed : ∀ t image what u keep, s.Narrows (((((s.setTable t).commit
      image built.version what).setTable u).fail slot keep).release i) := by
    intro t image what u keep
    apply narrows_release_of_chains
    simp only [fail_chains, setTable_chains, commit_chains]
  have uncommitted : ∀ t upgrade, s.Narrows ((s.setTable t).installProduceFailed i slot upgrade) :=
    fun t upgrade => narrows_setTable.trans narrows_installProduceFailed
  simp only [settles] at unsettled
  simp only [installProduced, installAfterProduce, setTable_chains,
    commit_chains, setTable_images, currentPaths_commit]
  split
  · split
    · split
      · split
        · exact failed _ _ _ _ _
        · rename_i commits survives listWhole found
          rw [Bool.not_eq_true] at found
          rw [commits, survives, listWhole, found] at unsettled
          cases unsettled
      · exact failed _ _ _ _ _
    · exact narrows_of_chains rfl
  · exact uncommitted _ _

theorem narrows_settled {built : Built} : s.Narrows (s.settled w i slot e built) := by
  apply narrows_of_chains
  simp only [settled, save]
  split_ifs <;> rfl

theorem narrows_nextStart {next : Name}
    (call : s.nextStart i = some (s', next)) : s.Narrows s' := by
  rw [nextStart] at call
  split_ifs at call
  obtain ⟨name, _, same⟩ := map_eq_some_iff.mp call
  cases same
  exact narrows_setChain (Or.inr rfl)

theorem name_startFetchFor {name : Name} (refused : (s.startFetchFor w name i).2 ≠ .ok) :
    ((s.startFetchFor w name i).1.chains i).name = (s.chains i).name := by
  cases recipe : w.recipe name (s.chains i).effectiveVersion with
  | none => simp only [startFetchFor, recipe]
  | some resolved =>
    cases place : fetchEntry ⟨name, (s.chains i).image⟩ s.table with
    | none => simp only [startFetchFor, recipe, place]
    | some found =>
      simp only [startFetchFor, recipe, place] at refused ⊢
      split_ifs at refused ⊢
      · exact absurd rfl refused
      · rw [fail_chains, setChain_self]

theorem target_startFetchFor {name : Name} (started : (s.startFetchFor w name i).2 = .ok) :
    ((s.startFetchFor w name i).1.chains i).target = some ⟨name, (s.chains i).image⟩ ∧
      ∀ j, j ≠ i → (s.startFetchFor w name i).1.chains j = s.chains j := by
  rw [startFetchFor] at started ⊢
  cases recipe : w.recipe name (s.chains i).effectiveVersion with
  | none => simp [recipe] at started
  | some found =>
    simp only [recipe] at started ⊢
    cases place : fetchEntry ⟨name, (s.chains i).image⟩ s.table with
    | none => simp [place] at started
    | some slot =>
      simp only [place] at started ⊢
      split_ifs at started ⊢
      · constructor
        · simp [Chain.target]
        · intro j other
          rw [spawn_chains, setChain_of_ne _ _ _ other]
          rfl

theorem narrows_installNext (quiet : ∀ s₀ next, s.nextStart i = some (s₀, next) →
      (s₀.startFetchFor w next i).2 ≠ .ok) :
    s.Narrows (s.installNext w i) := by
  rw [installNext_eq]
  cases call : s.nextStart i with
  | none =>
    simp only
    split_ifs
    · exact narrows_release
    · apply Narrows.trans _ narrows_release
      exact narrows_setChain (Or.inr rfl)
  | some found =>
    obtain ⟨s₀, next⟩ := found
    have refused := quiet s₀ next call
    have narrows := (narrows_nextStart call).trans (narrows_startFetchFor refused)
    simp only
    exact narrows.trans narrows_release

theorem narrows_pkgProduceCompleted {report : Option Built}
    (quiet : ∀ s₀ next, s.produceStart w i report = some (s₀, next) →
      (s₀.startFetchFor w next i).2 ≠ .ok) :
    s.Narrows (s.pkgProduceCompleted w i report) := by
  have isNarrow : s.Narrows (s.setChain i { s.chains i with
      producer := .none }) :=
    narrows_setChain (Or.inr rfl)
  rw [pkgProduceCompleted]
  split
  · rename_i word slot e busy entry
    split_ifs with delete waited waited
    · rw [deleteProduceStart]
      split_ifs
      · exact isNarrow.trans narrows_startProducer
      · exact isNarrow.trans narrows_release
    · cases report with
      | none => exact isNarrow.trans narrows_release
      | some built => exact isNarrow.trans narrows_deleteProduced
    · exact isNarrow.trans narrows_installProduceBegin
    · cases report with
      | none => exact isNarrow.trans narrows_installProduceFailed
      | some built =>
        cases whole : (s.setChain i { s.chains i with
            producer := .none }).settles w i built with
        | false => exact isNarrow.trans (narrows_installProduced whole)
        | true =>
          simp only
          rw [installProduced_of_settles whole]
          apply isNarrow.trans
          apply narrows_settled.trans
          apply narrows_installNext
          intro s₀ next call
          apply quiet
          have waits : (s.chains i).producer ≠ .waiting := by simpa using waited
          simp only [setChain_table] at entry
          rw [produceStart, if_pos (by simp [busy, delete, waits])]
          simp only [setChain_table, entry, bind_some]
          rw [if_pos whole]
          exact call
  · split_ifs
    · exact isNarrow.trans narrows_release
    · exact isNarrow
  · exact isNarrow

theorem name_chainAllocFrom {order : List ChainIdx}
    (found : s.chainAllocFrom order = (s', some i)) :
    (s'.chains i).name = none := by
  rw [chainAllocFrom] at found
  split at found
  · cases found
  · rename_i j free
    simp only [Prod.mk.injEq, some.injEq] at found
    obtain ⟨rfl, rfl⟩ := found
    have unnamed := find?_some free
    rw [setChain_self]
    simpa [Chain.handedOut] using unnamed

variable {r : InstallRequest}

theorem narrows_installAdmit : s.Narrows (s.installAdmit w r).1 := by
  have alloc : ∀ s : State, s.Narrows (s.chainAlloc w).1 := fun s => narrows_chainAllocFrom
  rw [installAdmit]
  cases requestKey r.name r.image with
  | none => exact narrows_refl s
  | some key =>
    have first : s.Narrows (s.pkgJobInFlightFor key).1 := narrows_chainReapStale
    have second := first.trans (alloc (s.pkgJobInFlightFor key).1)
    have third := second.trans (alloc ((s.pkgJobInFlightFor key).1.chainAlloc w).1)
    simp only
    split
    · rename_i inFlight
      rw [inFlight] at first
      exact first
    · rename_i inFlight
      rw [inFlight] at second third
      simp only at second third
      split
      · rename_i none
        rw [none] at second
        exact second
      · rename_i some
        rw [some] at third
        simp only at third
        split
        · rename_i none
          rw [none] at third
          exact third
        · rename_i again
          rw [again] at third
          exact third

theorem name_installAdmit {key : Key}
    (admitted : s.installAdmit w r = (s', .ok (key, i))) :
    (s'.chains i).name = none := by
  rw [installAdmit] at admitted
  split at admitted
  · cases admitted
  · split at admitted
    · cases admitted
    · split at admitted
      · cases admitted
      · split at admitted
        · cases admitted
        · rename_i found
          simp only [Prod.mk.injEq, Except.ok.injEq] at admitted
          obtain ⟨rfl, rfl, rfl⟩ := admitted
          exact name_chainAllocFrom found

theorem name_installPlan (w : World) (r : InstallRequest) (key : Key)
    (t : Table) (c : Chain) : (installPlan w r key t c).1.name = c.name := by
  rw [installPlan]
  split
  · rfl
  · simp only
    split
    · rfl
    · split
      · rfl
      · split <;> rfl

theorem narrows_plan (r : InstallRequest) (key : Key) (free : (s.chains i).name = none) :
    s.Narrows (s.setChain i (installPlan w r key s.table (s.chains i)).1) := by
  apply narrows_setChain
  left
  rw [Chain.target, name_installPlan, free, map_none]

theorem narrows_installStart {s₀ : State}
    {name : Name} (call : s.installStart w r = some (s₀, i, name)) :
    s.Narrows s₀ := by
  have admits := narrows_installAdmit (s := s) (w := w) (r := r)
  rw [installStart] at call
  split at call
  · cases call
  · rename_i s₁ key chain admitted
    rw [admitted] at admits
    have planned := narrows_plan (w := w) r key (name_installAdmit admitted)
    split at call
    · rename_i c plan
      obtain ⟨first, _, same⟩ := map_eq_some_iff.mp call
      simp only [Prod.mk.injEq] at same
      obtain ⟨rfl, rfl, rfl⟩ := same
      rw [plan] at planned
      exact admits.trans planned
    · cases call

theorem narrows_pkgInstallStart
    (quiet : ∀ s₀ i name, s.installStart w r = some (s₀, i, name) →
      (s₀.startFetchFor w name i).2 ≠ .ok) :
    s.Narrows (s.pkgInstallStart w r).1 := by
  have admits := narrows_installAdmit (s := s) (w := w) (r := r)
  rw [pkgInstallStart]
  split
  · rename_i refused
    rw [refused] at admits
    exact admits
  · rename_i s₁ key i admitted
    rw [admitted] at admits
    have planned := narrows_plan (w := w) r key (name_installAdmit admitted)
    have before := admits.trans planned
    rw [installInto]
    simp only
    split
    · rename_i first rest ok queue
      have refused := quiet _ i first (by
        rw [installStart, admitted]
        simp only
        rw [show installPlan w r key s₁.table (s₁.chains i) =
          ((installPlan w r key s₁.table (s₁.chains i)).1, .ok) from Prod.ext rfl ok]
        simp only [queue, head?_cons, map_some]
        rfl)
      have narrows := before.trans (narrows_startFetchFor refused)
      split
      · rename_i started
        rw [started] at refused
        exact absurd rfl refused
      · rename_i failed
        rw [failed] at narrows
        exact narrows.trans (narrows_setChain (Or.inr rfl))
    · exact before
    · exact before

end Narrows

section OneJob

variable {s s' : State} {i : ChainIdx} {w : World} {key : Key}

theorem OneJob.narrows (one : s.OneJob) (narrows : s.Narrows s') :
    s'.OneJob := by
  have before : ∀ j key, (s'.chains j).target = some key → (s.chains j).target = some key := by
    intro j key target
    rcases narrows j with gone | same
    · rw [gone] at target
      cases target
    · rw [← same]
      exact target
  intro i j key first second
  exact one i j key (before i key first) (before j key second)

theorem OneJob.retarget (one : s.OneJob)
    (chains : ∀ j, j ≠ i → (s'.chains j).target = (s.chains j).target)
    (target : (s'.chains i).target = some key)
    (apart : ∀ j, j ≠ i → (s.chains j).target ≠ some key) :
    s'.OneJob := by
  intro a b found first second
  by_cases aHere : a = i
  · by_cases bHere : b = i
    · rw [aHere, bHere]
    · rw [aHere, target] at first
      rw [chains b bHere, ← first] at second
      exact absurd second (apart b bHere)
  · by_cases bHere : b = i
    · rw [bHere, target] at second
      rw [chains a aHere, ← second] at first
      exact absurd first (apart a aHere)
    · rw [chains a aHere] at first
      rw [chains b bHere] at second
      exact one a b found first second

theorem oneJob_startFetchFor {name : Name} (one : s.OneJob)
    (started : (s.startFetchFor w name i).2 = .ok)
    (apart : s.Apart i name) : (s.startFetchFor w name i).1.OneJob := by
  obtain ⟨target, others⟩ := target_startFetchFor started
  apply one.retarget _ target apart
  intro j other
  rw [others j other]

theorem oneJob_deleteInto {slot : Nat} (one : s.OneJob)
    (apart : ∀ j, (s.chains j).target ≠ some key) :
    (s.deleteInto w key slot i).1.OneJob := by
  have taken : (s.setChain i { s.chains i with
      name := some key.name
      image := key.image
      depQueue := []
      produceE := some slot
      isDelete := true }).OneJob := by
    refine one.retarget (i := i) ?_ ?_ fun j _ => apart j
    · intro j other
      rw [setChain_of_ne s i _ other]
    · rw [setChain_self]
      rfl
  rw [deleteInto, deleteProduceStart]
  split_ifs
  · exact taken.narrows narrows_startProducer
  · exact taken.narrows narrows_release

theorem pkgJobInFlightFor_eq_false (none : s.pkgJobInFlightFor key = (s', false)) (j : ChainIdx) :
    (s'.chains j).target ≠ some key := by
  rw [pkgJobInFlightFor] at none
  simp only [Prod.mk.injEq] at none
  obtain ⟨rfl, found⟩ := none
  have here := any_eq_false.mp found j (mem_finRange j)
  simpa using here

theorem oneJob_deleteStart (one : s.OneJob) : (s.deleteStart w key).1.OneJob := by
  have reaped : s.Narrows (s.pkgJobInFlightFor key).1 := narrows_chainReapStale
  rw [deleteStart]
  split
  · exact one
  · split
    · exact one
    · split
      · rename_i inFlight
        rw [inFlight] at reaped
        exact one.narrows reaped
      · rename_i s₁ inFlight
        rw [inFlight] at reaped
        have apart := pkgJobInFlightFor_eq_false inFlight
        split
        · apply one.narrows (reaped.trans _)
          apply narrows_of_chains
          rw [save]
          split_ifs <;> rfl
        · have allocates : s₁.Narrows s₁.chainAllocDelete.1 := narrows_chainAllocFrom
          split
          · rename_i full
            rw [full] at allocates
            exact one.narrows (reaped.trans allocates)
          · rename_i s₂ i found
            rw [found] at allocates
            apply oneJob_deleteInto (one.narrows (reaped.trans allocates))
            intro j target
            rcases allocates j with gone | same
            · simp only at gone
              rw [gone] at target
              cases target
            · exact apart j (same.symm.trans target)

theorem narrows_fetchStart {event : Event} {s₀ : State} {name : Name}
    (call : s.fetchStart event = some (s₀, w, i, name)) :
    s.Narrows s₀ := by
  cases event with
  | install world r =>
    obtain ⟨⟨s₁, j, first⟩, found, same⟩ := map_eq_some_iff.mp call
    cases same
    exact narrows_installStart found
  | produceExits k world ok =>
    cases ok with
    | false => simp [fetchStart] at call
    | true =>
      rw [fetchStart] at call
      split at call
      · obtain ⟨⟨s₁, next⟩, produced, same⟩ := map_eq_some_iff.mp call
        cases same
        rw [produceStart] at produced
        split_ifs at produced
        obtain ⟨found, _, produced⟩ := bind_eq_some_iff.mp produced
        obtain ⟨built, _, produced⟩ := bind_eq_some_iff.mp produced
        split_ifs at produced
        have isNarrow : (s.withoutChild k).Narrows ((s.withoutChild k).setChain i
              { (s.withoutChild k).chains i with producer := .none }) :=
          narrows_setChain (Or.inr rfl)
        exact isNarrow.trans (narrows_settled.trans (narrows_nextStart produced))
      · cases call
  | _ => simp [fetchStart] at call

theorem oneJob_handle_of_quiet {event : Event} (one : s.OneJob)
    (quiet : ∀ s₀ w i name, s.fetchStart event = some (s₀, w, i, name) →
      (s₀.startFetchFor w name i).2 ≠ .ok) :
    (s.handle event).OneJob := by
  cases event with
  | install w r =>
    apply one.narrows
    apply narrows_pkgInstallStart
    intro s₀ i name call
    apply quiet s₀ w i name
    rw [fetchStart, call, map_some]
  | uninstall w name image =>
    rw [handle]
    split
    · exact one
    · exact oneJob_deleteStart one
  | cancel w name image =>
    rw [handle]
    split
    · exact one
    · exact one.narrows narrows_pkgCancel
  | reap => exact one.narrows narrows_chainReapStale
  | prepExits k w answer =>
    rw [handle]
    split
    · exact one.narrows narrows_pkgFetchCompleted
    · exact one.narrows narrows_pkgPrepareCompleted
    · exact one
  | buildExits k w outcome =>
    rw [handle]
    split
    · exact one.narrows narrows_pkgBuildCompleted
    · exact one
  | buildLost k =>
    rw [handle]
    split
    · exact one
    · exact one
  | places k =>
    rw [handle]
    split
    · split_ifs
      · exact one
      · exact one
    · exact one
  | produceExits k w ok =>
    rw [handle]
    split
    · apply one.narrows
      have exited : s.Narrows (s.withoutChild k) := narrows_of_chains rfl
      apply exited.trans
      apply narrows_pkgProduceCompleted
      intro s₀ next call
      rw [produceStart] at call
      simp at call
    · rename_i i p there
      apply one.narrows
      have exited : s.Narrows (s.withoutChild k) := narrows_of_chains rfl
      apply exited.trans
      apply narrows_pkgProduceCompleted
      intro s₀ next call
      cases ok with
      | false =>
        rw [produceStart] at call
        simp at call
      | true =>
        apply quiet s₀ w i next
        rw [fetchStart, there]
        simp only [if_true] at call ⊢
        rw [call, map_some]
    · exact one
  | stop orderly =>
    rw [handle]
    split_ifs
    · exact one
    · exact one
  | restart => exact one

theorem oneJob_step {event : Event} (one : s.OneJob)
    (apart : s.StartsApart event) : (s.step event).OneJob := by
  cases alive : s.alive with
  | true =>
    rw [step_of_alive alive]
    by_cases quiet : ∀ s₀ w i name, s.fetchStart event = some (s₀, w, i, name) →
          (s₀.startFetchFor w name i).2 ≠ .ok
    · exact oneJob_handle_of_quiet one quiet
    · push Not at quiet
      obtain ⟨s₀, w, i, name, call, started⟩ := quiet
      rw [handle_fetchStart call started]
      exact oneJob_startFetchFor (one.narrows (narrows_fetchStart call))
        started (apart alive s₀ w i name call started)
  | false =>
    rcases step_of_dead alive event with same | ⟨t, _, _, boots⟩
    · rw [same]
      exact one
    · rw [boots]
      intro a b key first
      simp [booted, Chain.unused, Chain.target] at first

theorem startsApart_of_oneJob {event : Event}
    (after : (s.step event).OneJob) : s.StartsApart event := by
  intro alive s₀ w i name call started j other same
  rw [step_of_alive alive, handle_fetchStart call started] at after
  obtain ⟨target, others⟩ := target_startFetchFor started
  apply other
  apply after j i _ _ target
  rw [others j other]
  exact same

theorem oneJob_initial : initial.OneJob := by
  intro i j key first
  simp [initial, Chain.unused, Chain.target] at first

end OneJob

end State

/-- In every run, no two chains ever work on the same package exactly when
each fetch is started for a package that no other chain works on. -/
theorem oneJob_throughout_iff (events : List Event) :
    Throughout State.step State.OneJob State.initial events ↔
      Guarded State.step State.StartsApart State.initial events := by
  constructor
  · intro holds before event after equality
    exact State.startsApart_of_oneJob (holds.after_step equality)
  · intro guarded
    exact guarded.throughout State.OneJob (fun _ _ one apart => State.oneJob_step one apart)
      State.oneJob_initial

/-- A store in which every package but `d` depends on `d`. -/
def sharedDependency : World :=
  World.steady fun name _ =>
    if name.str = CStr.ofString "d" then
      some (Recipe.ofTexts "1-1" "" "" named_1_1)
    else some (Recipe.ofTexts "1-1" "d" "" named_1_1)

/-- Two requests whose packages share a dependency that is not installed both
work on it. -/
theorem dependency_in_two_chains : ¬ Throughout State.step State.OneJob State.initial
      [.install sharedDependency (.latest "x" false),
        .install sharedDependency (.latest "y" false)] := by
  intro holds
  have last := holds.last ⟨0, by decide⟩ ⟨1, by decide⟩
    ⟨Name.ofLiteral "d" (by decide), defaultImage⟩
  have same := last (by decide +kernel) (by decide +kernel)
  exact absurd same (by decide)

end Cix.Pkg
