import Cix.Pkg.Events

/-!
# A failed job keeps the installed version

An upgrade takes its package through `fetching` and `building` while the image
still holds the old version.  When the attempt fails, the entry goes back to
the version and the list it had, provided that the chain knows that it is
upgrading the package.
-/

namespace Cix.Pkg

open Cix.Lib Option

def keepRules : Rules :=
  { Rules.any with
    starts := fun s i name => ∀ slot e, s.table.get slot = some e →
      e.key = ⟨name, (s.chains i).image⟩ → e.state = .installed → (s.chains i).isUpgrade = true }

namespace State

def ShowsVersions (t : Table) : Prop :=
  ∀ slot e, t.get slot = some e → e.state = .installed → e.named = true

structure Versioned (s : State) : Prop where
  table : s.alive = true → ShowsVersions s.table
  file : ∀ t, loadState s.file = some t → ShowsVersions t

variable {rules : Rules} {s s' : State} {i : ChainIdx} {slot : Nat}
  {e : Entry} {w : World}

theorem showsVersions_of_others (shows : ShowsVersions s.table) (others : s.Others i slot s')
    (mine : ∀ e', s'.table.get slot = some e' → e'.state = .installed →
      e'.named = true) : ShowsVersions s'.table := by
  intro index e' held installed
  by_cases here : index = slot
  · subst here
    exact mine e' held installed
  · obtain ⟨o, before, like⟩ := others.source index e' here held
    rw [Entry.named, like.version]
    apply shows index o before
    rw [← like.state]
    exact installed

variable {t : Table}

theorem showsVersions_alike {t' : Table} (shows : ShowsVersions t)
    (alike : t.Alike t') : ShowsVersions t' := by
  intro index e' held installed
  obtain ⟨e, before, core⟩ := alike.get_of held
  rw [Entry.named, core.version]
  apply shows index e before
  rw [← core.state]
  exact installed

theorem showsVersions_modify {change : Entry → Entry} (shows : ShowsVersions t)
    (mine : ∀ e, t.get slot = some e → (change e).state = .installed →
      (change e).named = true) : ShowsVersions (t.modify slot change) := by
  intro index e' held installed
  rw [get_modify] at held
  split_ifs at held with here
  · obtain ⟨e, before, rfl⟩ := map_eq_some_iff.mp held
    exact mine e before installed
  · exact shows index e' held installed

theorem showsVersions_clear (shows : ShowsVersions t) :
    ShowsVersions (t.put slot none) := by
  intro index e' held
  rcases Slots.get_of_get_put held with ⟨_, impossible⟩ | ⟨_, before⟩
  · cases impossible
  · exact shows index e' before

theorem showsVersions_saved {loaded : Table} (distinct : t.Distinct) (shows : ShowsVersions t)
    (load : loadState (some (saveStateText t)) = some loaded) :
    ShowsVersions loaded := by
  intro index e held _
  obtain ⟨i, o, before, installed, rfl⟩ := (get_loadState distinct load).mp ⟨index, held⟩
  exact shows i o before installed

theorem Versioned.saved (inv : s.Versioned) (shows : ShowsVersions s'.table)
    (distinct : s'.table.Distinct)
    (file : s'.file =
      if w.saves then some (saveStateText s'.table) else s.file) :
    s'.Versioned := by
  refine ⟨fun _ => shows, ?_⟩
  intro t load
  rw [file] at load
  split_ifs at load
  · exact showsVersions_saved distinct shows load
  · exact inv.file t load

theorem Versioned.shows_produced (inv : s.Versioned)
    (alive : s.alive = true) (held : s.table.get slot = some e)
    (named : e.named = true) :
    ShowsVersions (s.table.modify slot fun e =>
      { e with state := .installed }) := by
  apply showsVersions_modify (inv.table alive)
  intro o oHeld _
  rw [held] at oHeld
  cases oHeld
  exact named

theorem get_listed_of_ne {built : Built} {index : Nat}
    (elsewhere : index ≠ slot) (held : t.get index = some e)
    (spared : e.claims (s.chains i).image = true →
      nameInList (s.chains i).fetchResolvedReplaces.str e.key.name.str = false) :
    (listed i slot built s t).get index = some e := by
  rw [listed, get_modify_of_ne elsewhere, transferReplacedPaths,
    Slots.get_adjust, get_modify_of_ne elsewhere, held, map_some,
    if_neg]
  intro gives
  simp only [Bool.and_eq_true] at gives
  rw [spared gives.1.2] at gives
  cases gives.2

theorem Disciplined.staged (inv : s.Disciplined) (target : (s.chains i).target = some e.key)
    (held : s.table.get slot = some e) {child : Child}
    (mem : child ∈ s.childrenOf i) :
    (s.chains i).Stage i slot e child := by
  obtain ⟨index, o, oTarget, oHeld, stage⟩ := inv.fits i child mem
  rw [target] at oTarget
  have here := inv.slot_eq held oHeld (some.inj oTarget).symm
  subst here
  rw [held] at oHeld
  cases oHeld
  exact stage

theorem stage_state {c : Chain} {child : Child} (stage : c.Stage i slot e child) :
    if c.isDelete then e.state = .installed
    else e.state.inFlight = true := by
  have produced : e.state = c.workState → if c.isDelete then
      e.state = .installed else e.state.inFlight = true := by
    intro works
    rw [works, Chain.workState]
    split_ifs <;> rfl
  cases child with
  | fetch =>
    rw [stage.1, stage.2.2.1]
    rfl
  | prepare =>
    rw [stage.1, stage.2.2.1]
    rfl
  | build =>
    rw [stage.1, stage.2.2.1]
    rfl
  | waiter => exact produced stage.2.2.1
  | producer p => exact produced stage.2.2.1

theorem stage_delete_of_installed {c : Chain} {child : Child}
    (stage : c.Stage i slot e child) (installed : e.state = .installed) :
    c.isDelete = true := by
  have state := stage_state stage
  split_ifs at state with delete
  · exact delete
  · rw [installed] at state
    cases state

theorem Disciplined.installed_of_delete (inv : s.Disciplined)
    (target : (s.chains i).target = some e.key)
    (held : s.table.get slot = some e)
    (delete : (s.chains i).isDelete = true) : e.state = .installed := by
  cases children : s.childrenOf i with
  | nil =>
    have install := (inv.backed i children).2
    rw [delete] at install
    cases install
  | cons child rest =>
    have stage := inv.staged target held (by
      rw [children]
      exact List.mem_cons_self)
    have state := stage_state stage
    rw [if_pos delete] at state
    exact state

theorem Disciplined.named_of_producer (inv : s.Disciplined)
    (target : (s.chains i).target = some e.key)
    (held : s.table.get slot = some e)
    (install : (s.chains i).isDelete = false)
    (producer : (s.chains i).producer ≠ .none) : e.named = true := by
  cases children : s.childrenOf i with
  | nil => exact absurd (inv.backed i children).1 producer
  | cons child rest =>
    have stage := inv.staged target held (by
      rw [children]
      exact List.mem_cons_self)
    cases child with
    | fetch => exact absurd stage.2.1 producer
    | prepare => exact absurd stage.2.1 producer
    | build => exact absurd stage.2.1 producer
    | waiter => exact stage.2.2.2 install
    | producer p => exact stage.2.2.2.1 install

theorem Turn.named {c : Chain} (turn : s'.Turn i slot c e)
    (shows : c.isDelete = true → e.named = true) (e' : Entry)
    (held : s'.table.get slot = some e') (installed : e'.state = .installed) :
    e'.named = true := by
  cases turn with
  | ended e₁ keep tried how =>
    rw [how.here] at held
    cases held
    rw [how.state] at installed
    split_ifs at installed with kept
    rw [Bool.and_eq_true, decide_eq_true_eq] at kept
    rw [Entry.named, how.version]
    split_ifs with stands
    · rw [Bool.and_eq_true, decide_eq_true_eq] at stands
      exact decide_eq_true stands.2
    · exact decide_eq_true kept.2
  | goesOn e₁ child how =>
    rw [how.here] at held
    cases held
    rcases how.named with same | named
    · have delete := stage_delete_of_installed how.stage installed
      rw [how.isDelete] at delete
      rw [Entry.named, same]
      exact shows delete
    · exact named

theorem named_of_refused {e' : Entry} (state : e'.state = if e'.named then .installed else .failed)
    (installed : e'.state = .installed) : e'.named = true := by
  rw [state] at installed
  split_ifs at installed with named
  exact named

theorem Versioned.move (inv : s.Versioned) (ordered : s.InOrder)
    (move : Move rules s s') : s'.Versioned := by
  cases move with
  | turn i slot e s' acts target held works others turn =>
    refine ⟨?_, by rw [others.file]; exact inv.file⟩
    intro alive'
    have alive := others.alive.symm.trans alive'
    apply showsVersions_of_others (inv.table alive) others
    apply turn.named
    intro delete
    apply inv.table alive slot e held
    exact (ordered alive).installed_of_delete target held delete
  | drop i slot s' acts rests others table idle gone =>
    refine ⟨?_, by rw [others.file]; exact inv.file⟩
    intro alive'
    rw [table]
    exact inv.table (others.alive.symm.trans alive')
  | prime i c acts rests childless target idle producer isDelete =>
    exact ⟨inv.table, inv.file⟩
  | start i slot name e' s' acts rests childless apart rule others fetched
      here target keyed isUpgrade stage only =>
      refine ⟨?_, by rw [others.file]; exact inv.file⟩
      intro alive'
      apply showsVersions_of_others (inv.table (others.alive.symm.trans alive')) others
      intro e'' held installed
      rw [here] at held
      cases held
      have fetching := stage.2.2.1
      rw [installed] at fetching
      cases fetching
  | refuse i slot name e' s' acts rests childless apart rule others fetched
      here keyed state target idle producer isDelete gone =>
      refine ⟨?_, by rw [others.file]; exact inv.file⟩
      intro alive'
      apply showsVersions_of_others (inv.table (others.alive.symm.trans alive')) others
      intro e'' held installed
      rw [here] at held
      cases held
      exact named_of_refused state installed
  | remove i slot c e e' child s' acts free apart held installed target
      isDelete others how =>
      refine ⟨?_, by rw [others.file]; exact inv.file⟩
      intro alive'
      have alive := others.alive.symm.trans alive'
      apply showsVersions_of_others (inv.table alive) others
      apply (Turn.goesOn e' child how).named
      exact fun _ => inv.table alive slot e held installed
  | flag slot =>
    refine ⟨?_, inv.file⟩
    intro alive
    apply showsVersions_alike (inv.table alive)
    exact Table.Alike.modify fun _ => ⟨rfl, rfl, rfl, rfl⟩
  | lose k i acts there => exact ⟨inv.table, inv.file⟩
  | place k i p acts there unbuilt rule => exact ⟨inv.table, inv.file⟩
  | settle k w i p built slot e acts reports install rule settles =>
    have ready := ordered reports.alive
    obtain ⟨_, stage, _⟩ := ready.reports reports
    apply inv.saved _ (ready.settle reports install).distinct (settled_file w i slot e built _)
    rw [settled_table]
    exact showsVersions_alike (inv.shows_produced reports.alive
      reports.held (stage.2.2.2.1 install)) alike_listed
  | spoil k w i p built slot e files acts reports install rule why =>
    obtain ⟨_, stage, _⟩ := (ordered reports.alive).reports reports
    refine ⟨fun _ => ?_, inv.file⟩
    rw [spoilt_table, pkgFail]
    apply showsVersions_modify
    · apply showsVersions_alike (inv.shows_produced reports.alive
        reports.held (stage.2.2.2.1 install))
      exact Table.Alike.modify fun _ => ⟨rfl, rfl, rfl, rfl⟩
    · intro o _ installed
      cases installed
  | erase k w i p built slot e acts reports delete rule survives =>
    have ready := ordered reports.alive
    apply inv.saved _ (ready.erase reports).distinct (erased_file w i slot e built _)
    rw [erased_table]
    exact showsVersions_clear (inv.table reports.alive)
  | forget w slot e isAlive apart held failed rule =>
    have cleared := (ordered isAlive).clear held apart
    apply inv.saved _ _ (by rw [save_table]; exact save_file _ w)
    · rw [save_table]
      exact showsVersions_clear (inv.table isAlive)
    · rw [save_table]
      exact cleared.distinct
  | kill k w i p built slot e t reports rule killed =>
    exact ⟨fun alive' => Bool.noConfusion alive', inv.file⟩
  | die t => exact ⟨fun alive' => Bool.noConfusion alive', inv.file⟩
  | boot t dead load rule => exact ⟨fun _ => inv.file t load, inv.file⟩

/-! ## The installed version -/

/-- The version and the list of the entry stand, and a chain that works on it can go
back to them. -/
structure Standing (s : State) (key : Key) (version : BoundedStr 64)
    (files : List CStr) (e : Entry) : Prop where
  keyed : e.key = key
  listed : e.files = files
  stands : (e.state = .installed ∧ e.version = version) ∨
    (e.state.inFlight = true ∧ ∃ i, (s.chains i).target = some key ∧
      (s.chains i).isDelete = false ∧ (s.chains i).isUpgrade = true ∧
      (s.chains i).standing e = version)

/-- The package in slot `slot` stands. -/
def Stands (key : Key) (version : BoundedStr 64) (files : List CStr)
    (slot : Nat) (s : State) : Prop :=
  ∃ e, s.table.get slot = some e ∧ s.Standing key version files e

variable {key : Key} {version : BoundedStr 64} {files : List CStr}

theorem Standing.version_of_installed (stands : s.Standing key version files e)
    (installed : e.state = .installed) : e.version = version := by
  rcases stands.stands with ⟨_, same⟩ | ⟨flying, _⟩
  · exact same
  · rw [installed] at flying
    cases flying

theorem Standing.elsewhere (stands : s.Standing key version files e)
    (held : s.table.get slot = some e) {other : Nat}
    (others : s.Others i other s') (elsewhere : slot ≠ other)
    (apart : e.state.inFlight = true → (s.chains i).target ≠ some e.key) :
    s'.Stands key version files slot := by
  obtain ⟨e', held', like⟩ := others.kept slot e elsewhere held
  refine ⟨e', held', like.key.trans stands.keyed, like.files.trans stands.listed, ?_⟩
  rcases stands.stands with ⟨installed, same⟩ | ⟨flying, j, target, rest⟩
  · exact Or.inl ⟨like.state.trans installed, like.version.trans same⟩
  · have different : j ≠ i := by
      intro here
      rw [here, ← stands.keyed] at target
      exact apart flying target
    have standing : ∀ c : Chain, c.standing e' = c.standing e := by
      intro c
      rw [Chain.standing, Chain.standing, like.version]
    refine Or.inr ⟨by rw [like.state]; exact flying, j, ?_⟩
    rw [others.chains j different, standing]
    exact ⟨target, rest⟩

theorem Standing.kept (stands : s.Standing key version files e) {e' : Entry}
    (held' : s'.table.get slot = some e') (core : e.Core e')
    (listed : e'.files = e.files)
    (chains : e.state.inFlight = true →
      ∀ j, (s.chains j).target = some key → s'.chains j = s.chains j) :
    s'.Stands key version files slot := by
  refine ⟨e', held', core.key.trans stands.keyed, listed.trans stands.listed, ?_⟩
  rcases stands.stands with ⟨installed, same⟩ | ⟨flying, j, target, rest⟩
  · exact Or.inl ⟨core.state.trans installed, core.version.trans same⟩
  · have standing : ∀ c : Chain, c.standing e' = c.standing e := by
      intro c
      rw [Chain.standing, Chain.standing, core.version]
    refine Or.inr ⟨by rw [core.state]; exact flying, j, ?_⟩
    rw [chains flying j target, standing]
    exact ⟨target, rest⟩

theorem Standing.turn (stands : s.Standing key version files e)
    (inv : s.Disciplined) (named : version.str.length ≠ 0)
    (target : (s.chains i).target = some e.key)
    (held : s.table.get slot = some e)
    (works : e.state.inFlight = true ∨ (s.chains i).isDelete = true ∧ e.state = .installed)
    (turn : s'.Turn i slot (s.chains i) e) :
    s'.Stands key version files slot := by
  rcases stands.stands with ⟨installed, same⟩ | ⟨flying, j, jTarget, install, upgrade, standing⟩
  · have delete : (s.chains i).isDelete = true := by
      rcases works with flying | ⟨delete, _⟩
      · rw [installed] at flying
        cases flying
      · exact delete
    cases turn with
    | ended e' keep tried how => cases delete.symm.trans how.install
    | goesOn e' child how =>
      have delete' : (s'.chains i).isDelete = true := how.isDelete.trans delete
      have state := stage_state how.stage
      have stays := how.standing
      rw [if_pos delete'] at state
      rw [Chain.standing, if_pos (Or.inr delete'), Chain.standing, if_pos (Or.inr delete)] at stays
      exact ⟨e', how.here, how.keyed.trans stands.keyed, how.listed.trans stands.listed,
        Or.inl ⟨state, stays.trans same⟩⟩
  · have here : j = i := by
      apply inv.oneJob j i key jTarget
      rw [target, stands.keyed]
    subst here
    cases turn with
    | ended e' keep tried how =>
      have eNamed : e.named = true := by
        by_cases idle : (s.chains j).producer = .none
        · rw [Chain.standing, if_pos (Or.inl idle)] at standing
          rw [Entry.named, standing]
          exact decide_eq_true named
        · exact inv.named_of_producer target held install idle
      have keeps : keep = true := by
        rcases how.reason with same | ⟨same, _, _⟩
        · exact same.trans upgrade
        · exact same.trans eNamed
      have attempted : tried.str.length ≠ 0 := by
        rcases how.tries with same | named
        · rw [same]
          exact of_decide_eq_true eNamed
        · exact named
      have state := how.state
      have goesBack := how.version
      rw [keeps, decide_eq_true attempted] at state
      rw [keeps, standing, decide_eq_true named] at goesBack
      exact ⟨e', how.here, how.keyed.trans stands.keyed,
        how.listed.trans stands.listed, Or.inl ⟨state, goesBack⟩⟩
    | goesOn e' child how =>
      have install' : (s'.chains j).isDelete = false := how.isDelete.trans install
      have state := stage_state how.stage
      rw [install'] at state
      refine ⟨e', how.here, how.keyed.trans stands.keyed,
        how.listed.trans stands.listed, Or.inr ⟨state, j, ?_, install',
          how.isUpgrade.trans upgrade, how.standing.trans standing⟩⟩
      exact how.target.trans jTarget

theorem Standing.fetched (stands : s.Standing key version files e)
    (held : s.table.get slot = some e)
    (rests : s.Rests i) {name : Name} (apart : s.Apart i name)
    (keyed : e.key = ⟨name, (s.chains i).image⟩) {e' : Entry}
    (fetched : Fetched s.table slot ⟨name, (s.chains i).image⟩ e') :
    e.state = .installed ∧ e.version = version ∧ e'.version = version ∧ e'.files = files := by
  have installed : e.state = .installed ∧ e.version = version := by
    rcases stands.stands with rest | ⟨flying, j, target, _⟩
    · exact rest
    · rw [← stands.keyed] at target
      by_cases here : j = i
      · subst here
        rw [rests slot e held target] at flying
        cases flying
      · rw [keyed] at target
        exact absurd target (apart j here)
  refine ⟨installed.1, installed.2, ?_⟩
  cases fetched with
  | kept o oHeld _ _ sameVersion sameFiles =>
    rw [held] at oHeld
    cases oHeld
    exact ⟨sameVersion.trans installed.2, sameFiles.trans stands.listed⟩
  | fresh _ only _ _ => exact absurd installed.1 (only slot e held keyed).2

end State

/-- No version is recorded for the package `key`, and no paths of it are taken while
it is installed. -/
def sparing (key : Key) : Rules :=
  { keepRules with
    records := fun s w i _ _ => w.survives = true ∧ (s.chains i).target ≠ some key ∧
      ∀ slot e, s.table.get slot = some e → e.key = key →
        e.state = .installed → (s.chains i).isDelete = false →
          (s.chains i).image = key.image → nameInList (s.chains i).fetchResolvedReplaces.str
              key.name.str = false
    boots := fun _ _ => False }

namespace State

variable {s s' : State} {slot : Nat} {key : Key} {version : BoundedStr 64}
  {files : List CStr}

theorem Stands.move (stands : s.Stands key version files slot)
    (inv : s.Disciplined) (named : version.str.length ≠ 0)
    (move : Move (sparing key) s s') (alive' : s'.alive = true) :
    s'.Stands key version files slot := by
  obtain ⟨e, held, standing⟩ := stands
  have slot_of : ∀ other (o : Entry), s.table.get other = some o →
      o.key = e.key → slot = other := by
    intro other o oHeld same
    exact (inv.slot_eq held oHeld same).symm
  have core : e.Core e := ⟨rfl, rfl, rfl, rfl⟩
  -- A report on another package is one on another slot.
  have apartOf : ∀ i k p built other (o : Entry),
      s.Reports k i p built other o → (s.chains i).target ≠ some key → slot ≠ other := by
    intro i k p built other o reports notOurs here
    obtain ⟨target, _, _⟩ := inv.reports reports
    have same := reports.held
    rw [← here, held] at same
    cases same
    rw [standing.keyed] at target
    exact notOurs target
  have apartFrom : ∀ {i j}, (s.chains i).target ≠ some key →
      (s.chains j).target = some key → j ≠ i := by
    rintro i _ notOurs target rfl
    exact notOurs target
  -- A chain whose package rests does not work on an entry in flight.
  have busy : ∀ i, s.Rests i → e.state.inFlight = true →
      ∀ j, (s.chains j).target = some key → j ≠ i := by
    intro i rests flying j target here
    rw [here, ← standing.keyed] at target
    rw [rests slot e held target] at flying
    cases flying
  cases move with
  | turn i other o s' acts target oHeld works others turn =>
    by_cases here : slot = other
    · subst here
      rw [held] at oHeld
      cases oHeld
      exact standing.turn inv named target held works turn
    · apply standing.elsewhere held others here
      intro _ same
      rw [target] at same
      exact here (slot_of other o oHeld (some.inj same))
  | drop i other s' acts rests others table idle gone =>
    apply standing.kept (by rw [table]; exact held) core rfl
    intro flying j target
    apply others.chains j
    exact busy i rests flying j target
  | prime i c acts rests childless target idle producer isDelete =>
    refine standing.kept ?_ core rfl ?_
    · exact held
    · intro flying j target'
      exact setChain_of_ne _ _ _ (busy i rests flying j target')
  | start i other name e' s' acts rests childless apart rule others fetched
      here target keyed isUpgrade stage only =>
      by_cases same : slot = other
      · subst same
        have keyed' := fetched.mine held
        obtain ⟨installed, _, version', files'⟩ :=
          standing.fetched held rests apart keyed' fetched
        have flying := stage_state stage
        rw [stage.1] at flying
        refine ⟨e', here, ?_, files', Or.inr ⟨flying, i, ?_, stage.1, ?_, ?_⟩⟩
        · rw [keyed, ← keyed', standing.keyed]
        · rw [target, keyed, ← keyed', standing.keyed]
        · rw [isUpgrade]
          exact rule slot e held keyed' installed
        · rw [Chain.standing, if_pos (Or.inl stage.2.1)]
          exact version'
      · apply standing.elsewhere held others same
        intro flying ours
        rw [rests slot e held ours] at flying
        cases flying
  | refuse i other name e' s' acts rests childless apart rule others fetched
      here keyed state target idle producer isDelete gone =>
      by_cases same : slot = other
      · subst same
        have keyed' := fetched.mine held
        obtain ⟨_, _, version', files'⟩ := standing.fetched held rests apart keyed' fetched
        have isNamed : e'.named = true := by
          rw [Entry.named, version']
          exact decide_eq_true named
        rw [if_pos isNamed] at state
        refine ⟨e', here, ?_, files', Or.inl ⟨state, version'⟩⟩
        rw [keyed, ← keyed', standing.keyed]
      · apply standing.elsewhere held others same
        intro flying ours
        rw [rests slot e held ours] at flying
        cases flying
  | remove i other c o e' child s' acts free apart oHeld installed target
      isDelete others how =>
      by_cases here : slot = other
      · subst here
        rw [held] at oHeld
        cases oHeld
        have delete' : (s'.chains i).isDelete = true := how.isDelete.trans isDelete
        have state := stage_state how.stage
        have stays := how.standing
        rw [if_pos delete'] at state
        rw [Chain.standing, if_pos (Or.inr delete'), Chain.standing,
          if_pos (Or.inr isDelete)] at stays
        refine ⟨e', how.here, how.keyed.trans standing.keyed,
          how.listed.trans standing.listed, Or.inl ⟨state, ?_⟩⟩
        rw [stays]
        exact standing.version_of_installed installed
      · apply standing.elsewhere held others here
        intro _ same
        rw [Chain.target, free] at same
        cases same
  | flag other =>
    have alike : s.table.Alike (s.table.modify other fun e =>
        { e with cancelRequested := true }) :=
      Table.Alike.modify fun _ => ⟨rfl, rfl, rfl, rfl⟩
    obtain ⟨e', held', same⟩ := alike.of_get held
    refine standing.kept ?_ same ?_ fun _ _ _ => rfl
    · exact held'
    rw [get_modify] at held'
    split_ifs at held' with here
    · rw [← here, held] at held'
      cases held'
      rfl
    · rw [held] at held'
      cases held'
      rfl
  | lose k i acts there =>
    refine standing.kept ?_ core rfl fun _ _ _ => rfl
    exact held
  | place k i p acts there unbuilt rule =>
    refine standing.kept ?_ core rfl fun _ _ _ => rfl
    exact held
  | settle k w i p built other o acts reports install rule settles =>
    obtain ⟨_, notOurs, spared⟩ := rule
    have elsewhere := apartOf i k p built other o reports notOurs
    have held' : ((s.reported k i).settled w i other o built).table.get slot = some e := by
      rw [settled_table]
      apply get_listed_of_ne elsewhere
      · rw [get_modify_of_ne elsewhere]
        exact held
      · intro claims
        rw [Entry.claims, reported_self, Bool.and_eq_true,
          decide_eq_true_eq, decide_eq_true_eq] at claims
        rw [reported_self, standing.keyed]
        apply spared slot e held standing.keyed claims.1 install
        rw [← claims.2, standing.keyed]
    apply standing.kept held' core rfl
    intro _ j target
    rw [settled_chains]
    exact reported_of_ne _ _ _ (apartFrom notOurs target)
  | spoil k w i p built other o files acts reports install rule why =>
    obtain ⟨_, notOurs, _⟩ := rule
    have elsewhere := apartOf i k p built other o reports notOurs
    have held' : ((s.reported k i).spoilt i other o built files).table.get slot = some e := by
      rw [spoilt_table, pkgFail, get_modify_of_ne elsewhere,
        get_modify_of_ne elsewhere, get_modify_of_ne elsewhere]
      exact held
    apply standing.kept held' core rfl
    intro _ j target
    have different := apartFrom notOurs target
    rw [spoilt_of_ne _ _ _ _ _ _ different]
    exact reported_of_ne _ _ _ different
  | erase k w i p built other o acts reports delete rule survives =>
    obtain ⟨_, notOurs, _⟩ := rule
    have elsewhere := apartOf i k p built other o reports notOurs
    have held' : ((s.reported k i).erased w i other o built).table.get slot = some e := by
      rw [erased_table, Slots.get_put_of_ne elsewhere]
      exact held
    apply standing.kept held' core rfl
    intro _ j target
    have different := apartFrom notOurs target
    rw [erased_of_ne _ _ _ _ _ _ different]
    exact reported_of_ne _ _ _ different
  | forget w other o isAlive apart oHeld failed rule =>
    have elsewhere : slot ≠ other := by
      intro here
      rw [← here, held] at oHeld
      cases oHeld
      rcases standing.stands with ⟨installed, _⟩ | ⟨flying, _⟩
      · rw [failed] at installed
        cases installed
      · rw [failed] at flying
        cases flying
    have held' : ((s.setTable (s.table.put other none)).save w).table.get slot = some e := by
      rw [save_table, setTable_table, Slots.get_put_of_ne elsewhere]
      exact held
    apply standing.kept held' core rfl
    intro _ j _
    rw [save_chains]
    rfl
  | kill k w i p built slot e t reports rule killed => cases alive'
  | die t => cases alive'
  | boot t dead load rule => exact absurd rule id

theorem Stands.run {during : List Event}
    (stands : s.Stands key version files slot) (inv : s.Disciplined)
    (named : version.str.length ≠ 0)
    (guarded : Guarded step (sparing key).Allows s during)
    (alive' : (Lib.run step s during).alive = true) :
    (Lib.run step s during).Disciplined ∧
      (Lib.run step s during).Stands key version files slot := by
  induction during using List.reverseRecOn with
  | nil => exact ⟨inv, stands⟩
  | append_singleton during event ih =>
    have allowed := guarded during event [] rfl
    rw [run_snoc] at alive' ⊢
    cases was : (Lib.run step s during).alive with
    | false =>
      rcases step_of_dead was event with same | ⟨t, restart, load, _⟩
      · rw [same, was] at alive'
        cases alive'
      · exact absurd (allowed.boots was restart t load) id
    | true =>
      have before := ih guarded.initial was
      apply before.1.event_induction was allowed (fun _ _ => id) alive'
        (fun s => s.Disciplined ∧ s.Stands key version files slot) before
      intro m s' holds disciplined _ move after
      exact ⟨disciplined.move move after, holds.2.move disciplined named move after⟩

theorem versioned_initial : initial.Versioned := by
  constructor
  · intro _ slot e held
    rw [initial, Slots.get_empty] at held
    cases held
  · intro t load slot e held
    have empty : t = Slots.empty 1024 := (some.inj load).symm
    rw [empty, Slots.get_empty] at held
    cases held

end State

def State.startsUpgrade (s : State) (event : Event) : Bool :=
  match s.fetchStart event with
  | none => true
  | some (s₀, _, i, name) =>
    (s₀.chains i).isUpgrade || (s₀.table.find fun e =>
      decide (e.key = ⟨name, (s₀.chains i).image⟩) &&
        decide (e.state = .installed)).isNone

theorem allows_keepRules {s : State} {event : Event} (apart : s.startsApart event = true)
    (upgrade : s.startsUpgrade event = true)
    (cancels : s.CancelsOwn event) : keepRules.Allows s event := by
  refine { Rules.allows_any apart cancels with starts := ?_ }
  intro alive s₀ w i name call writes
  refine ⟨State.apart_of_startsApart apart call, ?_⟩
  intro slot e held keyed installed
  rw [State.startsUpgrade, call, Bool.or_eq_true] at upgrade
  rcases upgrade with isUpgrade | missing
  · exact isUpgrade
  · have none := Slots.find_eq_none (isNone_iff_eq_none.mp missing) held
    simp [keyed, installed] at none

theorem allows_sparing {s : State} {event : Event} {key : Key}
    (allowed : keepRules.Allows s event) (alive : s.alive = true)
    (quiet : ∀ k w, event ≠ .produceExits k w true) :
    (sparing key).Allows s event :=
  { allowed with
    records := fun _ k w _ _ _ isExit => absurd isExit (quiet k w)
    boots := by
      intro dead
      rw [alive] at dead
      cases dead }

def failedUpgrade : List Event :=
  [.install (World.flat "2-1" (by decide)) (.latest "a" true),
    .prepExits 0 (World.flat "2-1" (by decide)) .exitFailed]

/-- A store in which `c` depends on `x` and on `d`. -/
def lateDependency : World :=
  World.steady fun name _ =>
    if name.str = "c" then
      some (Recipe.ofTexts "1-1" "x d" "" named_1_1)
    else some (Recipe.ofTexts "1-1" "" "" named_1_1)

/-- The install of `c` works on `x` while another request installs `d`. -/
def lateInstall : List Event :=
  .install lateDependency (.latest "c" false) :: installEvents lateDependency 1 "d" "bin/d" false

/-- `x` is installed, the queue of `c` comes to `d`, and its fetch fails. -/
def lateFailure : List Event :=
  [.prepExits 0 lateDependency .container, .buildExits 0 lateDependency (.staged ["bin/x"]),
    .places 0, .produceExits 0 lateDependency true,
    .prepExits 0 lateDependency .exitFailed]

def State.recordings (s : State) (key : Key) : Nat :=
  s.recorded.countP fun
    | .installed package _ _ _ => decide (package = key)
    | .removed package => decide (package = key)

end Cix.Pkg
