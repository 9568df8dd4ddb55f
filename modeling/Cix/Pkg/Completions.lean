import Cix.Pkg.Turns

/-!
# What the completion functions do

One lemma for each function that a child's exit calls: the other jobs stay as
they are, and the job takes its turn.
-/

namespace Cix.Pkg

open Cix.Lib List

namespace State

variable {i : ChainIdx} {slot : Nat} {c : Chain} {e e₁ : Entry} {s : State}
  {w : World}

def Childless (s : State) (i : ChainIdx) : Prop :=
  s.childrenOf i = []

/-- The effect of an event on the job of chain `i`: the others stay, the job
takes its turn. -/
def Takes (i : ChainIdx) (slot : Nat) (c : Chain) (e : Entry) (s s' : State) : Prop :=
  s.Others i slot s' ∧ s'.Turn i slot c e

theorem Takes.after {s' s'' : State} (first : s.Others i slot s')
    (second : Takes i slot c e s' s'') : Takes i slot c e s s'' :=
  ⟨first.trans second.1, second.2⟩

theorem takes_fail {keep : Bool} (here : s.table.get slot = some e₁)
    (keyed : e₁.key = e.key) (listed : e₁.files = e.files)
    (version : e₁.version = e.version) (childless : s.Childless i)
    (install : c.isDelete = false) (standing : c.standing e = e.version)
    (reason : keep = c.isUpgrade ∨ (keep = e.named ∧ c.producer = .none)) :
    Takes i slot c e s ((s.fail slot keep).release i) := by
  constructor
  · exact Others.fail.trans Others.release
  · apply Turn.ended (pkgRecordOutcome keep e₁) keep e.version
    constructor
    · exact get_modify_self _ here
    · exact keyed
    · exact listed
    · exact install
    · exact Or.inl rfl
    · rcases reason with flag | ⟨kept, unproduced⟩
      · exact Or.inl flag
      · exact Or.inr ⟨kept, rfl, unproduced⟩
    · rw [← version]
      rfl
    · rw [standing, ite_self]
      exact version
    · rw [release_self]
      exact released_idle _
    · exact childless

theorem takes_installProduceFailed (here : s.table.get slot = some e₁)
    (keyed : e₁.key = e.key) (listed : e₁.files = e.files)
    (tries : e₁.version = e.version ∨ e₁.named = true)
    (childless : s.Childless i) (install : c.isDelete = false)
    (kept : (s.chains i).producePrevVersion = c.standing e) :
    Takes i slot c e s (s.installProduceFailed i slot c.isUpgrade) := by
  have failed : (s.fail slot c.isUpgrade).table.get slot = some (pkgRecordOutcome c.isUpgrade e₁) :=
    get_modify_self _ here
  constructor
  · exact Others.fail.trans ((Others.modify (by simp)).trans Others.release)
  · apply Turn.ended _ c.isUpgrade e₁.version
    constructor
    · exact get_modify_self _ failed
    · rw [installKeepPrevVersion_key]
      exact keyed
    · rw [installKeepPrevVersion_files]
      exact listed
    · exact install
    · rcases tries with same | named
      · exact Or.inl same
      · exact Or.inr (of_decide_eq_true named)
    · exact Or.inl rfl
    · rw [installKeepPrevVersion_state]
      rfl
    · rw [installKeepPrevVersion_version, kept]
      rfl
    · rw [installProduceFailed, release_self]
      exact released_idle _
    · exact childless

theorem imageProducerWait_eq_false (free : s.imageProducerWait i = false)
    {j : ChainIdx} (other : j ≠ i)
    (producing : (s.chains j).producer = .producing) :
    (s.chains j).image ≠ (s.chains i).image := by
  have here := any_eq_false.mp free j (mem_finRange j)
  simpa [other, producing] using here

theorem goesOn_startProducer (here : s.table.get slot = some e₁)
    (keyed : e₁.key = e.key) (listed : e₁.files = e.files)
    (target : (s.chains i).target = c.target)
    (isUpgrade : (s.chains i).isUpgrade = c.isUpgrade)
    (isDelete : (s.chains i).isDelete = c.isDelete)
    (produceE : (s.chains i).produceE = some slot)
    (state : e₁.state = (s.chains i).workState)
    (named : (s.chains i).isDelete = false → e₁.named = true)
    (version : e₁.version = e.version ∨ e₁.named = true)
    (standing : (if (s.chains i).isDelete = true then e₁.version
      else (s.chains i).producePrevVersion) = c.standing e)
    (childless : s.Childless i)
    (gate : (s.chains i).isDelete = false → s.imageProducerWait i = true ∨
      ∃ hit, pathOwnerGate hit s.table slot (s.chains i).image
        (s.chains i).staged (s.chains i).fetchResolvedReplaces.str = false) :
    s.Others i slot (s.startProducer i slot (s.chains i).mutation) ∧
      ∃ child, (s.startProducer i slot (s.chains i).mutation).GoesOn i slot
        c e e₁ child := by
  have only : ∀ (child : Child) (p : Producer), ((s.setChain i { s.chains i with
        producer := p }).spawn i child).childrenOf i = [child] := by
    intro child p
    rw [childrenOf_spawn, childrenOf_setChain, childless, nil_append]
  have stands : ∀ p : Producer, p ≠ .none →
      ({ s.chains i with producer := p } : Chain).standing e₁ =
        c.standing e := by
    intro p producing
    rw [← standing, Chain.standing]
    simp [producing]
  by_cases wait : s.imageProducerWait i = true
  · rw [startProducer, if_pos wait]
    refine ⟨(Others.setChain _).trans (Others.spawn _), .waiter, ?_⟩
    constructor
    · exact here
    · exact keyed
    · exact listed
    · simpa [Chain.target] using target
    · simpa [Chain.isUpgrade, Chain.jobIsFinal] using isUpgrade
    · simpa using isDelete
    · simp only [spawn_chains, setChain_self]
      exact ⟨rfl, produceE, state, named⟩
    · simpa using stands .waiting (by simp)
    · simp
    · exact version
    · exact only .waiter .waiting
    · intro p impossible
      cases impossible
  · have free : s.imageProducerWait i = false := by simpa using wait
    rw [startProducer, if_neg wait]
    refine ⟨(Others.setChain _).trans (Others.spawn _), .producer
      ⟨slot, (s.chains i).image, (s.chains i).mutation, s.table, none⟩, ?_⟩
    constructor
    · exact here
    · exact keyed
    · exact listed
    · simpa [Chain.target] using target
    · simpa [Chain.isUpgrade, Chain.jobIsFinal] using isUpgrade
    · simpa using isDelete
    · simp only [spawn_chains, setChain_self]
      exact ⟨rfl, produceE, state, named, rfl, rfl, rfl⟩
    · simpa using stands .producing (by simp)
    · simp
    · exact version
    · exact only _ .producing
    · intro p same
      cases same
      refine ⟨rfl, rfl, ?_, ?_⟩
      · intro j other producing
        rw [spawn_chains, setChain_of_ne _ _ _ other] at producing ⊢
        exact imageProducerWait_eq_false free other producing
      · intro install
        rw [spawn_chains, setChain_self] at install ⊢
        rcases gate install with waits | passed
        · rw [free] at waits
          cases waits
        · exact passed

theorem takes_installProduceBegin (here : s.table.get slot = some e₁)
    (keyed : e₁.key = e.key) (listed : e₁.files = e.files)
    (target : (s.chains i).target = c.target)
    (isUpgrade : (s.chains i).isUpgrade = c.isUpgrade)
    (isDelete : (s.chains i).isDelete = c.isDelete)
    (install : c.isDelete = false)
    (produceE : (s.chains i).produceE = some slot)
    (state : e₁.state = .building) (named : e₁.named = true)
    (kept : (s.chains i).producePrevVersion = c.standing e)
    (childless : s.Childless i) :
    Takes i slot c e s (s.installProduceBegin w i slot c.isUpgrade) := by
  have failed := takes_installProduceFailed here keyed listed (Or.inr named) childless install kept
  have installs : (s.chains i).isDelete = false := by rw [isDelete, install]
  have change : (s.chains i).mutation = .install c.isUpgrade (s.chains i).staged := by
    rw [Chain.mutation, installs, isUpgrade]
    rfl
  have started : (s.imageProducerWait i = true ∨
      ∃ hit, pathOwnerGate hit s.table slot (s.chains i).image
        (s.chains i).staged (s.chains i).fetchResolvedReplaces.str = false) →
      Takes i slot c e s (s.startProducer i slot (.install c.isUpgrade (s.chains i).staged)) := by
    intro gate
    rw [← change]
    have work : e₁.state = (s.chains i).workState := by
      rw [state, Chain.workState, installs]
      rfl
    have stands : (if (s.chains i).isDelete = true then e₁.version
        else (s.chains i).producePrevVersion) = c.standing e := by
      rw [installs]
      exact kept
    obtain ⟨others, child, how⟩ := goesOn_startProducer here keyed listed
      target isUpgrade isDelete produceE work (fun _ => named)
      (Or.inr named) stands childless (fun _ => gate)
    exact ⟨others, .goesOn e₁ child how⟩
  rw [installProduceBegin]
  split_ifs with wait spawns refused spawns
  · exact started (Or.inl wait)
  · exact failed
  · exact failed
  · apply started
    simp only [Bool.or_eq_true, not_or, Bool.not_eq_true] at refused
    exact Or.inr ⟨w.hit, refused.2⟩
  · exact failed

theorem takes_buildStaged {files : List CStr}
    (here : s.table.get slot = some e₁) (keyed : e₁.key = e.key)
    (listed : e₁.files = e.files) (version : e₁.version = e.version)
    (chain : s.chains i = c) (install : c.isDelete = false)
    (producer : c.producer = .none) (state : e₁.state = .building)
    (resolved : c.fetchResolvedVersion.str.length ≠ 0)
    (childless : s.Childless i) :
    Takes i slot c e s (s.buildStaged w i slot e₁ files) := by
  have standing : c.standing e = e₁.version := by
    rw [Chain.standing, if_pos (Or.inl producer), version]
  have taken : harvested c e₁ = { e₁ with
      version := c.fetchResolvedVersion
      depends := c.fetchResolvedDepends } := by
    rw [harvested, if_pos resolved]
  have harvest : ((s.setTable (s.table.modify slot (harvested c))).setChain i { c with
        staged := files
        produceE := some slot
        producePrevVersion := e₁.version
        producePrevDepends := e₁.depends }).table.get slot = some (harvested c e₁) :=
    get_modify_self _ here
  have named : (harvested c e₁).named = true := by
    rw [taken]
    exact decide_eq_true resolved
  have before : s.Others i slot ((s.setTable (s.table.modify slot
      (harvested c))).setChain i { c with
        staged := files
        produceE := some slot
        producePrevVersion := e₁.version
        producePrevDepends := e₁.depends }) := by
    apply (Others.modify _).trans (Others.setChain _)
    intro o
    rw [harvested]
    split_ifs <;> rfl
  have keptKey : (harvested c e₁).key = e.key := by
    rw [taken]
    exact keyed
  have keptFiles : (harvested c e₁).files = e.files := by
    rw [taken]
    exact listed
  rw [buildStaged, chain]
  apply Takes.after before
  split_ifs with empty
  · apply takes_installProduceFailed harvest keptKey keptFiles (Or.inr named) childless install
    simp [standing]
  · apply takes_installProduceBegin harvest keptKey keptFiles
    · simp [Chain.target]
    · simp [Chain.isUpgrade, Chain.jobIsFinal]
    · simp
    · exact install
    · simp
    · rw [taken]
      exact state
    · exact named
    · simp [standing]
    · exact childless

theorem takes_pkgBuildCompleted {outcome : BuildOutcome} (here : s.table.get slot = some e₁)
    (keyed : e₁.key = e.key) (listed : e₁.files = e.files)
    (version : e₁.version = e.version)
    (chain : s.chains i = c) (install : c.isDelete = false)
    (producer : c.producer = .none)
    (found : findByBuildContainer i s.table = some (slot, e₁))
    (usable : e₁.cancelRequested = true ∨ outcome = .failed ∨
      (e₁.state = .building ∧ c.fetchResolvedVersion.str.length ≠ 0))
    (childless : s.Childless i) :
    Takes i slot c e s (s.pkgBuildCompleted w i outcome) := by
  have standing : c.standing e = e.version := by rw [Chain.standing, if_pos (Or.inl producer)]
  rw [pkgBuildCompleted, chain, found]
  simp only [producer, ne_eq, not_true_eq_false, if_false]
  split_ifs with cancelled
  · have flag : (s.setTable (s.table.modify slot fun e =>
        { e with cancelRequested := false })).table.get slot =
          some { e₁ with cancelRequested := false } :=
      get_modify_self _ here
    have flagged : s.Others i slot (s.setTable (s.table.modify slot
        fun e => { e with cancelRequested := false })) :=
      Others.modify fun _ => rfl
    apply Takes.after flagged
    exact takes_fail flag keyed listed version childless install standing (Or.inl rfl)
  · cases outcome with
    | failed =>
      exact takes_fail here keyed listed version childless install standing (Or.inl rfl)
    | staged files =>
      rcases usable with impossible | impossible | ⟨state, resolved⟩
      · exact absurd impossible cancelled
      · cases impossible
      · exact takes_buildStaged here keyed listed version chain install
          producer state resolved childless

theorem takes_prepareBuildAndStart {answer : PrepAnswer} (containers : s.table.Containers)
    (here : s.table.get slot = some e₁)
    (keyed : e₁.key = e.key) (listed : e₁.files = e.files)
    (version : e₁.version = e.version)
    (chain : s.chains i = c) (install : c.isDelete = false)
    (producer : c.producer = .none) (state : e₁.state = .fetching)
    (resolved : c.fetchResolvedVersion.str.length ≠ 0)
    (container : e₁.buildContainer = some i)
    (childless : s.Childless i) :
    Takes i slot c e s (s.prepareBuildAndStart w i slot answer) := by
  have standing : c.standing e = e.version := by rw [Chain.standing, if_pos (Or.inl producer)]
  have standing₁ : c.standing e₁ = c.standing e := by
    rw [standing, Chain.standing, if_pos (Or.inl producer), version]
  have built : (s.setTable (s.table.modify slot fun e =>
      { e with state := .building })).table.get slot = some { e₁ with state := .building } :=
    get_modify_self _ here
  have building : s.Others i slot (s.setTable (s.table.modify slot
      fun e => { e with state := .building })) :=
    Others.modify fun _ => rfl
  have only : ∀ (t : Table) (child : Child),
      ((s.setTable t).spawn i child).childrenOf i = [child] := by
    intro t child
    rw [childrenOf_spawn, childrenOf_setTable, childless, nil_append]
  have failed : Takes i slot c e s ((s.fail slot (s.chains i).isUpgrade).release i) := by
    rw [chain]
    exact takes_fail here keyed listed version childless install standing (Or.inl rfl)
  cases answer with
  | exitFailed => exact failed
  | refused => exact failed
  | another =>
    simp only [prepareBuildAndStart]
    refine ⟨Others.spawn _, ?_⟩
    apply Turn.goesOn e₁ .prepare
    constructor
    · exact here
    · exact keyed
    · exact listed
    · rw [spawn_chains, chain]
    · rw [spawn_chains, chain]
    · rw [spawn_chains, chain]
    · rw [spawn_chains, chain]
      exact ⟨install, producer, state, resolved, container⟩
    · rw [spawn_chains, chain]
      exact standing₁
    · exact fun _ => version
    · exact Or.inl version
    · exact only s.table .prepare
    · intro p impossible
      cases impossible
  | container =>
    simp only [prepareBuildAndStart]
    refine ⟨building.trans (Others.spawn _), ?_⟩
    apply Turn.goesOn { e₁ with state := .building } .build
    constructor
    · exact built
    · exact keyed
    · exact listed
    · rw [spawn_chains, setTable_chains, chain]
    · rw [spawn_chains, setTable_chains, chain]
    · rw [spawn_chains, setTable_chains, chain]
    · rw [spawn_chains, setTable_chains, chain]
      exact ⟨install, producer, rfl, resolved, container⟩
    · rw [spawn_chains, setTable_chains, chain]
      exact standing₁
    · exact fun _ => version
    · exact Or.inl version
    · exact only _ .build
    · intro p impossible
      cases impossible
  | containerFailed =>
    simp only [prepareBuildAndStart]
    rw [chain]
    apply Takes.after building
    exact takes_fail built keyed listed version childless install standing (Or.inl rfl)
  | cached outcome =>
    apply Takes.after building
    apply takes_pkgBuildCompleted built keyed listed version chain install
      producer _ (Or.inr (Or.inr ⟨rfl, resolved⟩)) childless
    apply findByBuildContainer_of _ built container
    exact containers.modify fun _ => rfl

theorem targetEntry_of (distinct : s.table.Distinct) (here : s.table.get slot = some e)
    (target : (s.chains i).target = some e.key) :
    s.targetEntry i = some (slot, e) := by
  rw [targetEntry, target]
  exact distinct.pkgFind here

theorem takes_pkgFetchCompleted {answer : PrepAnswer}
    (distinct : s.table.Distinct) (containers : s.table.Containers)
    (here : s.table.get slot = some e)
    (target : (s.chains i).target = some e.key)
    (stage : (s.chains i).Stage i slot e .fetch)
    (childless : s.Childless i) :
    Takes i slot (s.chains i) e s (s.pkgFetchCompleted w i answer) := by
  obtain ⟨install, producer, state, resolved⟩ := stage
  have standing : (s.chains i).standing e = e.version := by
    rw [Chain.standing, if_pos (Or.inl producer)]
  have refused : Takes i slot (s.chains i) e s ((s.fail slot (s.chains i).isUpgrade).release i) :=
    takes_fail here rfl rfl rfl childless install standing (Or.inl rfl)
  have cancelled : Takes i slot (s.chains i) e s (((s.setTable (s.table.modify slot fun e =>
        { e with cancelRequested := false })).fail slot (s.chains i).isUpgrade).release i) := by
    have flagged : s.Others i slot (s.setTable (s.table.modify slot
        fun e => { e with cancelRequested := false })) :=
      Others.modify fun _ => rfl
    apply Takes.after flagged
    exact takes_fail (get_modify_self _ here) rfl rfl rfl childless install standing (Or.inl rfl)
  have goes : ∀ answer, Takes i slot (s.chains i) e s ((s.setTable (takeBuildContainer i slot
        s.table)).prepareBuildAndStart w i slot answer) := by
    intro answer
    apply Takes.after Others.take
    exact takes_prepareBuildAndStart (containers_takeBuildContainer containers)
      (get_takeBuildContainer_self here) rfl rfl rfl rfl install producer
      state resolved rfl childless
  rw [pkgFetchCompleted, targetEntry_of distinct here target]
  simp only [state, ne_eq, not_true_eq_false, if_false]
  cases answer with
  | exitFailed => exact cancelled
  | refused => exact refused
  | another =>
    simp only
    split_ifs
    · exact cancelled
    · exact goes .another
  | container =>
    simp only
    split_ifs
    · exact cancelled
    · exact goes .container
  | containerFailed =>
    simp only
    split_ifs
    · exact cancelled
    · exact goes .containerFailed
  | cached outcome =>
    simp only
    split_ifs
    · exact cancelled
    · exact goes (.cached outcome)

theorem takes_pkgPrepareCompleted {answer : PrepAnswer}
    (distinct : s.table.Distinct) (containers : s.table.Containers)
    (here : s.table.get slot = some e)
    (target : (s.chains i).target = some e.key)
    (stage : (s.chains i).Stage i slot e .prepare)
    (childless : s.Childless i) :
    Takes i slot (s.chains i) e s (s.pkgPrepareCompleted w i answer) := by
  obtain ⟨install, producer, state, resolved, container⟩ := stage
  rw [pkgPrepareCompleted, targetEntry_of distinct here target]
  simp only [state, ne_eq, not_true_eq_false, if_false]
  exact takes_prepareBuildAndStart containers here rfl rfl rfl rfl install
    producer state resolved container childless

end State

end Cix.Pkg
