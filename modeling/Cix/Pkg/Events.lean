import Mathlib.Logic.Relation
import Cix.Pkg.Moves

/-!
# The events as moves

Under the rules that are assumed of its moves, an event of a disciplined
daemon is a sequence of moves.  What every move keeps, every event keeps.
-/

namespace Cix.Pkg

open Cix.Lib List Option

variable {c : Chain}

namespace State

def writesEntry (s : State) (w : World) (i : ChainIdx) (name : Name) : Bool :=
  decide ((s.startFetchFor w name i).2 = .ok) ||
    decide ((s.startFetchFor w name i).2 = .spawnFailed)

def mayAct (s : State) : Event → ChainIdx → Prop
  | .prepExits k _ _, i => ∃ child, s.children[k]? = some (i, child)
  | .buildExits k _ _, i => ∃ child, s.children[k]? = some (i, child)
  | .buildLost k, i => ∃ child, s.children[k]? = some (i, child)
  | .places k, i => ∃ child, s.children[k]? = some (i, child)
  | .produceExits k _ _, i => ∃ child, s.children[k]? = some (i, child)
  | .cancel _ name image, i => ∃ key, requestKey name image = some key ∧
      (s.chains i).target = some key
  | _, _ => True

/-- A cancel that finds no build container running ends a job of the package
itself, and one that has no child left. -/
def CancelsOwn (s : State) : Event → Prop
  | .cancel _ name image => ∀ key slot e i,
      requestKey name image = some key →
      pkgFind key s.table = some (slot, e) →
      e.state.inFlight = true → s.entryBeingProduced slot = false →
      e.buildContainer = some i → s.buildLive i = false →
        (s.chains i).target = some key ∧ s.childrenOf i = []
  | _ => True

end State

/-- The event meets the rules, a fetch is of a package that no other chain works on,
and a cancel ends no other job. -/
structure Rules.Allows (rules : Rules) (s : State) (event : Event) :
    Prop where
  acts : s.alive = true → ∀ i, s.mayAct event i → rules.acts i
  starts : s.alive = true → ∀ s₀ w i name, s.fetchStart event = some (s₀, w, i, name) →
      s₀.writesEntry w i name = true → s₀.Apart i name ∧ rules.starts s₀ i name
  cancels : s.alive = true → s.CancelsOwn event
  records : s.alive = true → ∀ k w i p built, event = .produceExits k w true →
      s.children[k]? = some (i, .producer p) → p.built = some built →
        w.commits = true → rules.records s w i p built
  places : s.alive = true → ∀ k i p, event = .places k →
    s.children[k]? = some (i, .producer p) → p.built = none → rules.places s i p
  forgets : s.alive = true → ∀ w name image key slot e, event = .uninstall w name image →
      State.requestKey name image = some key →
      pkgFind key s.table = some (slot, e) → e.state = .failed → rules.forgets s.chainReapStale w
  boots : s.alive = false → event = .restart → ∀ t, loadState s.file = some t → rules.boots s t

namespace State

structure Leads (rules : Rules) (s s' : State) : Prop where
  moves : Relation.ReflTransGen (Move rules) s s'
  disciplined : s'.Disciplined

variable {rules : Rules} {s s' s'' : State} {i : ChainIdx} {slot : Nat}
  {e : Entry} {w : World}

theorem Leads.trans (first : Leads rules s s') (second : Leads rules s' s'') :
    Leads rules s s'' :=
  ⟨first.moves.trans second.moves, second.disciplined⟩

theorem Disciplined.leads (inv : s.Disciplined) : Leads rules s s :=
  ⟨.refl, inv⟩

def deleting (c : Chain) (key : Key) (slot : Nat) : Chain :=
  { c with
    name := some key.name
    image := key.image
    depQueue := []
    produceE := some slot
    isDelete := true }

section Leads

variable (inv : s.Disciplined)
include inv

theorem Disciplined.leads_turn (acts : rules.acts i) (target : (s.chains i).target = some e.key)
    (held : s.table.get slot = some e)
    (works : e.state.inFlight = true ∨ (s.chains i).isDelete = true ∧ e.state = .installed)
    (takes : Takes i slot (s.chains i) e s s') : Leads rules s s' :=
  ⟨.single (.turn i slot e s' acts target held works takes.1 takes.2),
    inv.turn target held takes.1 takes.2⟩

theorem Disciplined.leads_drop (acts : rules.acts i) (rests : s.Rests i)
    (others : s.Others i slot s') (table : s'.table = s.table)
    (idle : (s'.chains i).Idle) (gone : s'.childrenOf i = []) :
    Leads rules s s' :=
  ⟨.single (.drop i slot s' acts rests others table idle gone),
    inv.drop rests others table idle gone⟩

theorem Disciplined.leads_release (acts : rules.acts i) (rests : s.Rests i)
    (gone : s.childrenOf i = []) : Leads rules s (s.release i) := by
  have others : s.Others i 0 (s.release i) := Others.release
  apply inv.leads_drop acts rests others rfl _ gone
  rw [release_self]
  exact released_idle _

theorem Disciplined.leads_prime (acts : rules.acts i) (rests : s.Rests i)
    (childless : s.childrenOf i = []) (target : c.target = (s.chains i).target)
    (idle : c.name = none → c.Idle) (producer : c.producer = .none)
    (isDelete : c.isDelete = false) : Leads rules s (s.setChain i c) :=
  ⟨.single (.prime i c acts rests childless target idle producer isDelete),
    inv.prime rests childless target idle producer isDelete⟩

theorem Disciplined.childless_of_free (free : (s.chains i).name = none) : s.childrenOf i = [] := by
  rw [eq_nil_iff_forall_not_mem]
  intro child mem
  obtain ⟨_, _, target, _⟩ := inv.fits i child mem
  rw [Chain.target, free] at target
  cases target

omit inv in
theorem rests_of_free (free : (s.chains i).name = none) : s.Rests i := by
  intro index e held target
  rw [Chain.target, free] at target
  cases target

omit inv in
theorem rests_of (held : s.table.get slot = some e) (distinct : s.table.Distinct)
    (target : (s.chains i).target = some e.key)
    (resting : e.state.inFlight = false) : s.Rests i := by
  intro index o oHeld same
  rw [target] at same
  have here := distinct index slot o e oHeld held (some.inj same).symm
  subst here
  rw [held] at oHeld
  cases oHeld
  exact resting

omit inv in
theorem of_targetEntry (found : s.targetEntry i = some (slot, e)) :
    (s.chains i).target = some e.key ∧ s.table.get slot = some e := by
  rw [targetEntry] at found
  split at found
  · cases found
  · rename_i key target
    obtain ⟨held, keyed⟩ := get_of_pkgFind found
    rw [keyed]
    exact ⟨target, held⟩

/-- A chain that is busy with nothing but a name: `chain_reap_stale` finds
its package missing, at rest, or building in a container that is gone. -/
theorem Disciplined.childless_of_stale (producer : (s.chains i).producer = .none)
    (stale : ∀ slot e, s.targetEntry i = some (slot, e) →
      e.state.inFlight = true → s.buildJobCanStillReport e = false) :
    s.childrenOf i = [] := by
  rw [eq_nil_iff_forall_not_mem]
  intro child mem
  obtain ⟨index, o, target, held, stage⟩ := inv.fits i child mem
  have found := targetEntry_of inv.distinct held target
  have fetching : o.state = .fetching → False := by
    intro state
    have silent := stale index o found (by rw [state]; rfl)
    rw [buildJobCanStillReport, state] at silent
    cases silent
  cases child with
  | fetch => exact fetching stage.2.2.1
  | prepare => exact fetching stage.2.2.1
  | build =>
    obtain ⟨_, _, state, _, container⟩ := stage
    have silent := stale index o found (by rw [state]; rfl)
    rw [buildJobCanStillReport, state, container] at silent
    rw [mem_childrenOf] at mem
    have live := any_eq_false.mp silent _ mem
    simp at live
  | waiter =>
    rw [stage.1] at producer
    cases producer
  | producer p =>
    rw [stage.1] at producer
    cases producer

theorem Disciplined.leads_reapOne (acts : rules.acts i) : Leads rules s (s.reapOne i) := by
  rw [reapOne]
  split_ifs with out
  · exact inv.leads
  · simp only [Bool.or_eq_true, decide_eq_true_eq, not_or, not_not] at out
    obtain ⟨_, producer⟩ := out
    cases found : s.targetEntry i with
    | none =>
      have gone := inv.childless_of_stale producer (by
        intro slot e impossible
        rw [found] at impossible
        cases impossible)
      apply inv.leads_release acts _ gone
      intro index o held target
      rw [targetEntry_of inv.distinct held target] at found
      cases found
    | some entry =>
      obtain ⟨slot, e⟩ := entry
      obtain ⟨target, held⟩ := of_targetEntry found
      simp only
      split_ifs with inFlight reports
      · exact inv.leads
      · have gone := inv.childless_of_stale producer (by
          intro index o same _
          rw [found] at same
          cases same
          simpa using reports)
        apply inv.leads_turn acts target held (Or.inl inFlight)
        apply takes_fail held rfl rfl rfl gone (inv.backed i gone).2
        · rw [Chain.standing, if_pos (Or.inl producer)]
        · exact Or.inr ⟨rfl, producer⟩
      · have resting : e.state.inFlight = false := by simpa using inFlight
        have gone := inv.childless_of_stale producer (by
          intro index o same flying
          rw [found] at same
          cases same
          exact absurd flying inFlight)
        exact inv.leads_release acts (rests_of held inv.distinct target resting) gone

theorem Disciplined.leads_chainReapStale (every : ∀ i, rules.acts i) :
    Leads rules s s.chainReapStale := by
  rw [chainReapStale]
  induction List.finRange maxConcurrentJobs generalizing s with
  | nil => exact inv.leads
  | cons first rest ih =>
    have reaped : Leads rules s (s.reapOne first) := inv.leads_reapOne (every first)
    exact reaped.trans (ih reaped.disciplined)

theorem Disciplined.leads_handedOut (acts : rules.acts i) (free : (s.chains i).name = none) :
    Leads rules s (s.setChain i (s.chains i).handedOut) := by
  have idle := inv.idle i free
  apply inv.leads_prime acts (rests_of_free free) (inv.childless_of_free free)
  · rfl
  · exact fun _ => ⟨idle.name, idle.producer, idle.isDelete⟩
  · exact idle.producer
  · exact idle.isDelete

theorem Disciplined.leads_chainAllocFrom {order : List ChainIdx} (every : ∀ i, rules.acts i) :
    Leads rules s (s.chainAllocFrom order).1 := by
  have reaped : Leads rules s s.chainReapStale := inv.leads_chainReapStale every
  rw [chainAllocFrom]
  cases found : order.find? fun i =>
      (s.chainReapStale.chains i).name.isNone with
  | none => exact reaped
  | some i =>
    have free := find?_some found
    rw [isNone_iff_eq_none] at free
    exact reaped.trans (reaped.disciplined.leads_handedOut (every i) free)

theorem Disciplined.leads_installAdmit {r : InstallRequest} (every : ∀ i, rules.acts i) :
    Leads rules s (s.installAdmit w r).1 := by
  rw [installAdmit]
  cases requestKey r.name r.image with
  | none => exact inv.leads
  | some key =>
    have first : Leads rules s (s.pkgJobInFlightFor key).1 := inv.leads_chainReapStale every
    simp only
    split
    · rename_i inFlight
      rw [inFlight] at first
      exact first
    · rename_i s₁ inFlight
      rw [inFlight] at first
      have second : Leads rules s₁ (s₁.chainAlloc w).1 :=
        first.disciplined.leads_chainAllocFrom every
      split
      · rename_i full
        rw [full] at second
        exact first.trans second
      · rename_i s₂ _ found
        rw [found] at second
        have third : Leads rules s₂ (s₂.chainAlloc w).1 :=
          second.disciplined.leads_chainAllocFrom every
        split
        · rename_i full
          rw [full] at third
          exact first.trans (second.trans third)
        · rename_i again
          rw [again] at third
          exact first.trans (second.trans third)

omit inv in
theorem fetched_of_fetchEntry {key : Key} {t : Table} {isUpgrade : Bool} (distinct : t.Distinct)
    (found : fetchEntry key t = some (slot, e, isUpgrade)) :
    e.key = key ∧ slot < 1024 ∧ (e.buildContainer = none ∨ ∃ o, t.get slot = some o ∧
        o.buildContainer = e.buildContainer) ∧
      (∀ e' : Entry, e'.version = e.version → e'.files = e.files → Fetched t slot key e') ∧
      (isUpgrade = false → e.named = false) := by
  rw [fetchEntry] at found
  split at found
  · rename_i index o lookup
    obtain ⟨held, keyed⟩ := get_of_pkgFind lookup
    split_ifs at found with installed
    · simp only [some.injEq, Prod.mk.injEq] at found
      obtain ⟨rfl, rfl, rfl⟩ := found
      refine ⟨keyed, Slots.lt_of_get held, Or.inr ⟨o, held, rfl⟩, ?_, ?_⟩
      · intro e' version files
        exact .kept o held keyed installed version files
      · intro impossible
        cases impossible
    · simp only [some.injEq, Prod.mk.injEq] at found
      obtain ⟨rfl, rfl, rfl⟩ := found
      refine ⟨rfl, Slots.lt_of_get held, Or.inl rfl, ?_, fun _ => rfl⟩
      intro e' version files
      apply Fetched.fresh
      · intro p pHeld
        rw [held] at pHeld
        cases pHeld
        exact keyed
      · intro j p pHeld pKeyed
        have here := distinct j index p o pHeld held (pKeyed.trans keyed.symm)
        subst here
        rw [held] at pHeld
        cases pHeld
        exact ⟨rfl, installed⟩
      · rw [Entry.named, version]
        rfl
      · exact files
  · rename_i missing
    obtain ⟨free, isFree, same⟩ := map_eq_some_iff.mp found
    cases same
    obtain ⟨inside, empty⟩ := Slots.get_firstFree isFree
    refine ⟨rfl, inside, Or.inl rfl, ?_, fun _ => rfl⟩
    intro e' version files
    apply Fetched.fresh
    · intro p pHeld
      rw [empty] at pHeld
      cases pHeld
    · intro j p pHeld pKeyed
      exact absurd pKeyed (ne_of_pkgFind_none missing pHeld)
    · rw [Entry.named, version]
      rfl
    · exact files

theorem Disciplined.leads_started {name : Name} (e' : Entry)
    (acts : rules.acts i) (rests : s.Rests i) (childless : s.childrenOf i = [])
    (apart : s.Apart i name) (rule : rules.starts s i name)
    (keyed : e'.key = ⟨name, (s.chains i).image⟩) (inside : slot < 1024)
    (container : e'.buildContainer = none ∨ ∃ o,
      s.table.get slot = some o ∧ o.buildContainer = e'.buildContainer)
    (fetched : Fetched s.table slot ⟨name, (s.chains i).image⟩ e')
    (target : c.target = some e'.key)
    (isUpgrade : c.isUpgrade = (s.chains i).isUpgrade)
    (stage : c.Stage i slot e' .fetch) :
    Leads rules s (((s.setTable (s.table.put slot (some e'))).setChain i c).spawn i .fetch) := by
  have others : s.Others i slot (((s.setTable (s.table.put slot
      (some e'))).setChain i c).spawn i .fetch) :=
    (Others.put container).trans ((Others.setChain c).trans (Others.spawn .fetch))
  have here : (s.table.put slot (some e')).get slot = some e' := by
    rw [Slots.get_put inside, if_pos rfl]
  have only : (((s.setTable (s.table.put slot (some e'))).setChain i
      c).spawn i .fetch).childrenOf i = [.fetch] := by
    rw [childrenOf_spawn, childrenOf_setChain, childrenOf_setTable, childless, nil_append]
  have chain : (((s.setTable (s.table.put slot (some e'))).setChain i
      c).spawn i .fetch).chains i = c := by
    rw [spawn_chains, setChain_self]
  rw [← chain] at target isUpgrade stage
  exact ⟨.single (.start i slot name e' _ acts rests childless apart rule others
      fetched here target keyed isUpgrade stage only),
    inv.start rests apart others fetched here target keyed stage only⟩

theorem Disciplined.leads_refused {name : Name} (e' : Entry) {keep : Bool}
    (acts : rules.acts i) (rests : s.Rests i) (childless : s.childrenOf i = [])
    (apart : s.Apart i name) (rule : rules.starts s i name)
    (keyed : e'.key = ⟨name, (s.chains i).image⟩) (inside : slot < 1024)
    (container : e'.buildContainer = none ∨ ∃ o,
      s.table.get slot = some o ∧ o.buildContainer = e'.buildContainer)
    (fetched : Fetched s.table slot ⟨name, (s.chains i).image⟩
      (pkgRecordOutcome keep e')) (kept : keep = false → e'.named = false)
    (target : c.target = (s.chains i).target) (idle : c.name = none → c.Idle)
    (producer : c.producer = .none) (isDelete : c.isDelete = false) :
    Leads rules s (((s.setTable (s.table.put slot (some e'))).setChain i c).fail slot keep) := by
  have others : s.Others i slot (((s.setTable (s.table.put slot
      (some e'))).setChain i c).fail slot keep) :=
    (Others.put container).trans ((Others.setChain c).trans Others.fail)
  have put : (s.table.put slot (some e')).get slot = some e' := by
    rw [Slots.get_put inside, if_pos rfl]
  have here : (((s.setTable (s.table.put slot (some e'))).setChain i
      c).fail slot keep).table.get slot = some (pkgRecordOutcome keep e') :=
    get_modify_self _ put
  have state : (pkgRecordOutcome keep e').state =
      if (pkgRecordOutcome keep e').named then .installed else .failed := by
    have named : (pkgRecordOutcome keep e').named = e'.named := rfl
    rw [named]
    cases keep with
    | true => rfl
    | false =>
      rw [kept rfl]
      rfl
  have chain : (((s.setTable (s.table.put slot (some e'))).setChain i
      c).fail slot keep).chains i = c := by
    rw [fail_chains, setChain_self]
  replace target := (congrArg Chain.target chain).trans target
  rw [← chain] at idle producer isDelete
  exact ⟨.single (.refuse i slot name _ _ acts rests childless apart rule others
      fetched here keyed state target idle producer isDelete childless),
    inv.refuse rests apart others fetched here keyed state target idle producer isDelete
      childless⟩

theorem Disciplined.leads_startFetchFor {name : Name} (acts : rules.acts i) (rests : s.Rests i)
    (childless : s.childrenOf i = [])
    (allowed : s.writesEntry w i name = true → s.Apart i name ∧ rules.starts s i name) :
    Leads rules s (s.startFetchFor w name i).1 := by
  obtain ⟨producer, install⟩ := inv.backed i childless
  rw [writesEntry] at allowed
  cases recipe : w.recipe name (s.chains i).effectiveVersion with
  | none =>
    simp only [startFetchFor, recipe]
    exact inv.leads
  | some resolved =>
    cases place : fetchEntry ⟨name, (s.chains i).image⟩ s.table with
    | none =>
      simp only [startFetchFor, recipe, place]
      exact inv.leads
    | some found =>
      obtain ⟨slot, e, isUpgrade⟩ := found
      simp only [startFetchFor, recipe, place] at allowed ⊢
      obtain ⟨keyed, inside, container, fetched, unnamed⟩ :=
        fetched_of_fetchEntry inv.distinct place
      split_ifs at allowed ⊢ with spawns
      · obtain ⟨apart, rule⟩ := allowed (by simp)
        apply inv.leads_started { e with
          state := .fetching, runOpen := true } acts rests childless
          apart rule keyed inside container (fetched _ rfl rfl)
        · simp only [keyed]
          rfl
        · rfl
        · exact ⟨install, producer, rfl, resolved.versionNamed⟩
      · obtain ⟨apart, rule⟩ := allowed (by simp)
        apply inv.leads_refused { e with
          state := .fetching, runOpen := true } acts rests childless
          apart rule keyed inside container (fetched _ rfl rfl) unnamed
        · rfl
        · intro free
          have before := inv.idle i free
          exact ⟨before.name, before.producer, before.isDelete⟩
        · exact producer
        · exact install

omit inv in
theorem idle_installPlan (idle : c.Idle) (r : InstallRequest) (key : Key)
    (t : Table) : (installPlan w r key t c).1.Idle := by
  obtain ⟨name, producer, isDelete⟩ := idle
  rw [installPlan]
  split
  · exact ⟨name, producer, isDelete⟩
  · simp only
    split
    · exact ⟨name, producer, isDelete⟩
    · split
      · exact ⟨name, producer, isDelete⟩
      · split
        · exact ⟨name, producer, isDelete⟩
        · exact ⟨name, producer, isDelete⟩

theorem Disciplined.leads_setFree (acts : rules.acts i)
    (free : (s.chains i).name = none) (idle : c.Idle) :
    Leads rules s (s.setChain i c) := by
  apply inv.leads_prime acts (rests_of_free free) (inv.childless_of_free free)
  · rw [Chain.target, Chain.target, idle.name, free]
    rfl
  · exact fun _ => idle
  · exact idle.producer
  · exact idle.isDelete

theorem Disciplined.leads_pkgInstallStart {r : InstallRequest} (every : ∀ i, rules.acts i)
    (allowed : ∀ s₀ i name, s.installStart w r = some (s₀, i, name) →
      s₀.writesEntry w i name = true → s₀.Apart i name ∧ rules.starts s₀ i name) :
    Leads rules s (s.pkgInstallStart w r).1 := by
  have admits : Leads rules s (s.installAdmit w r).1 := inv.leads_installAdmit every
  rw [pkgInstallStart]
  split
  · rename_i refused
    rw [refused] at admits
    exact admits
  · rename_i s₁ key i admitted
    rw [admitted] at admits
    have free := name_installAdmit admitted
    have idle := idle_installPlan (w := w) (admits.disciplined.idle i free) r key s₁.table
    have planned := admits.trans (admits.disciplined.leads_setFree (every i) free idle)
    have freeStill : ((s₁.setChain i (installPlan w r key s₁.table
        (s₁.chains i)).1).chains i).name = none := by
      rw [setChain_self]
      exact idle.name
    rw [installInto]
    simp only
    split
    · rename_i first rest ok queue
      have plan : installPlan w r key s₁.table (s₁.chains i) =
          ((installPlan w r key s₁.table (s₁.chains i)).1, .ok) :=
        Prod.ext rfl ok
      have call : s.installStart w r = some (s₁.setChain i (installPlan w r
          key s₁.table (s₁.chains i)).1, i, first) := by
        rw [installStart, admitted]
        simp only
        rw [plan]
        simp only [queue, head?_cons, map_some]
      have started := planned.disciplined.leads_startFetchFor (every i) (rests_of_free freeStill)
        (planned.disciplined.childless_of_free freeStill)
        (allowed _ i first call)
      split
      · rename_i fetched
        rw [fetched] at started
        exact planned.trans started
      · rename_i s₂ err failed fetched
        have refused : ((s₁.setChain i (installPlan w r key s₁.table
            (s₁.chains i)).1).startFetchFor w first i).2 ≠ .ok := by
          rw [fetched]
          exact failed
        have stillFree := name_startFetchFor refused
        rw [fetched] at started stillFree
        have isFree : (s₂.chains i).name = none := stillFree.trans freeStill
        have before := started.disciplined.idle i isFree
        exact planned.trans (started.trans (started.disciplined.leads_setFree (every i) isFree
            ⟨before.name, before.producer, before.isDelete⟩))
    · exact planned
    · exact planned

theorem Disciplined.get_reapOne (held : s.table.get slot = some e)
    (resting : e.state.inFlight = false) :
    (s.reapOne i).table.get slot = some e := by
  rw [reapOne]
  split_ifs
  · exact held
  · split
    · exact held
    · rename_i index o found
      obtain ⟨_, oHeld⟩ := of_targetEntry found
      split_ifs with inFlight reports
      · exact held
      · rw [release_table, fail_table, pkgFail, get_modify_of_ne]
        · exact held
        · intro same
          rw [← same, held] at oHeld
          cases oHeld
          rw [resting] at inFlight
          cases inFlight
      · exact held

theorem Disciplined.get_chainReapStale (held : s.table.get slot = some e)
    (resting : e.state.inFlight = false) :
    s.chainReapStale.table.get slot = some e := by
  rw [chainReapStale]
  induction List.finRange maxConcurrentJobs generalizing s with
  | nil => exact held
  | cons first rest ih =>
    have reaped : Leads Rules.any s (s.reapOne first) := inv.leads_reapOne trivial
    exact ih reaped.disciplined (inv.get_reapOne held resting)

theorem Disciplined.get_chainAllocFrom {order : List ChainIdx} (held : s.table.get slot = some e)
    (resting : e.state.inFlight = false) :
    (s.chainAllocFrom order).1.table.get slot = some e := by
  have kept := inv.get_chainReapStale held resting
  rw [chainAllocFrom]
  cases order.find? fun i => (s.chainReapStale.chains i).name.isNone with
  | none => exact kept
  | some i => exact kept

theorem Disciplined.leads_deleteInto (acts : rules.acts i) (free : (s.chains i).name = none)
    (apart : ∀ j, (s.chains j).target ≠ some e.key)
    (held : s.table.get slot = some e) (installed : e.state = .installed) :
    Leads rules s (s.deleteInto w e.key slot i).1 := by
  have childless := inv.childless_of_free free
  have before : s.Others i slot (s.setChain i (deleting (s.chains i) e.key slot)) :=
    Others.setChain _
  have chain : (s.setChain i (deleting (s.chains i) e.key slot)).chains i =
      deleting (s.chains i) e.key slot := by
    rw [setChain_self]
  have change : (deleting (s.chains i) e.key slot).mutation = .delete := rfl
  have target : (deleting (s.chains i) e.key slot).target = some e.key := rfl
  rw [deleteInto, deleteProduceStart]
  split_ifs with spawns
  · obtain ⟨others, child, how⟩ := goesOn_startProducer
      (s := s.setChain i (deleting (s.chains i) e.key slot))
      (c := deleting (s.chains i) e.key slot) (e := e) held rfl rfl
      (by rw [chain]) (by rw [chain]) (by rw [chain]) (by rw [chain]; rfl)
      (by rw [chain, installed]; rfl)
      (by rw [chain]; intro impossible; cases impossible) (Or.inl rfl)
      (by rw [chain]; simp [Chain.standing, deleting])
      childless (by rw [chain]; intro impossible; cases impossible)
    rw [chain, change] at others how
    have all := before.trans others
    constructor
    · apply Relation.ReflTransGen.single
      exact Move.remove i slot _ e e child _ acts free apart held installed target rfl all how
    · exact inv.remove free apart held target all how
  · have others : s.Others i slot ((s.setChain i (deleting (s.chains i) e.key slot)).release i) :=
      before.trans Others.release
    apply inv.leads_drop acts (rests_of_free free) others rfl _ childless
    rw [release_self]
    exact released_idle _

omit inv in
theorem alive_chainReapStale : s.chainReapStale.alive = s.alive := by
  have one : ∀ (m : State) i, (m.reapOne i).alive = m.alive := by
    intro m i
    rw [reapOne]
    split
    · rfl
    · split
      · rfl
      · split_ifs <;> rfl
  rw [chainReapStale]
  induction List.finRange maxConcurrentJobs generalizing s with
  | nil => rfl
  | cons first rest ih => exact ih.trans (one s first)

theorem Disciplined.leads_deleteStart {key : Key} (alive : s.alive = true)
    (every : ∀ i, rules.acts i)
    (allowed : ∀ slot e, pkgFind key s.table = some (slot, e) →
      e.state = .failed → rules.forgets s.chainReapStale w) :
    Leads rules s (s.deleteStart w key).1 := by
  have reaped : Leads rules s (s.pkgJobInFlightFor key).1 := inv.leads_chainReapStale every
  rw [deleteStart]
  split
  · exact inv.leads
  · rename_i slot e found
    obtain ⟨held, keyed⟩ := get_of_pkgFind found
    split
    · exact inv.leads
    · rename_i notInFlight
      have resting : e.state.inFlight = false := by simpa using notInFlight
      have kept := inv.get_chainReapStale held resting
      split
      · rename_i inFlight
        rw [inFlight] at reaped
        exact reaped
      · rename_i s₁ inFlight
        have apart := pkgJobInFlightFor_eq_false inFlight
        have isReaped : s.chainReapStale = s₁ := by
          rw [pkgJobInFlightFor] at inFlight
          exact congrArg Prod.fst inFlight
        rw [inFlight] at reaped
        rw [isReaped] at kept
        rw [← keyed] at apart ⊢
        split
        · rename_i failed
          have rule := allowed slot e found failed
          have stays := alive_chainReapStale.trans alive
          rw [isReaped] at rule stays
          apply reaped.trans
          constructor
          · apply Relation.ReflTransGen.single
            exact Move.forget w slot e stays apart kept failed rule
          · apply (reaped.disciplined.clear kept apart).congr
            · exact save_table _ w
            · exact save_chains _ w
            · exact save_children _ w
        · rename_i notFailed
          have installed : e.state = .installed := by
            cases state : e.state with
            | installed => rfl
            | failed => exact absurd state notFailed
            | fetching =>
              rw [state] at resting
              cases resting
            | building =>
              rw [state] at resting
              cases resting
          have allocates : Leads rules s₁ s₁.chainAllocDelete.1 :=
            reaped.disciplined.leads_chainAllocFrom every
          have narrows : s₁.Narrows s₁.chainAllocDelete.1 := narrows_chainAllocFrom
          have there : s₁.chainAllocDelete.1.table.get slot = some e :=
            reaped.disciplined.get_chainAllocFrom kept resting
          split
          · rename_i full
            rw [full] at allocates
            exact reaped.trans allocates
          · rename_i s₂ i allocated
            have free := name_chainAllocFrom allocated
            rw [allocated] at allocates narrows there
            apply reaped.trans (allocates.trans _)
            apply allocates.disciplined.leads_deleteInto (every i) free _ there installed
            intro j target
            rcases narrows j with gone | same
            · simp only at gone
              rw [gone] at target
              cases target
            · exact apart j (same.symm.trans target)

theorem Disciplined.leads_flag : Leads rules s (s.setTable (s.table.modify slot fun e =>
      { e with cancelRequested := true })) :=
  ⟨.single (.flag slot), inv.alike (Table.Alike.modify fun _ => ⟨rfl, rfl, rfl, rfl⟩)⟩

theorem Disciplined.leads_pkgCancel {key : Key}
    (acts : ∀ i, (s.chains i).target = some key → rules.acts i)
    (own : ∀ slot e i, pkgFind key s.table = some (slot, e) →
      e.state.inFlight = true → s.entryBeingProduced slot = false →
      e.buildContainer = some i → s.buildLive i = false →
        (s.chains i).target = some key ∧ s.childrenOf i = []) :
    Leads rules s (s.pkgCancel w key).1 := by
  rw [pkgCancel]
  split
  · exact inv.leads
  · rename_i slot e found
    obtain ⟨held, keyed⟩ := get_of_pkgFind found
    split
    · exact inv.leads
    · rename_i cancels
      simp only [Bool.or_eq_true, Bool.not_eq_true', not_or,
        Bool.not_eq_false, Bool.not_eq_true] at cancels
      obtain ⟨inFlight, unproduced⟩ := cancels
      have flagged : Leads rules s (s.setTable (s.table.modify slot fun e =>
          { e with cancelRequested := true })) := inv.leads_flag
      have here : (s.setTable (s.table.modify slot fun e =>
          { e with cancelRequested := true })).table.get slot =
            some { e with cancelRequested := true } :=
        get_modify_self _ held
      simp only
      split
      · exact flagged
      · rename_i i container
        split
        · exact flagged
        · rename_i notLive
          rw [Bool.not_eq_true] at notLive
          obtain ⟨target, childless⟩ := own slot e i found inFlight unproduced container notLive
          obtain ⟨producer, install⟩ := inv.backed i childless
          have owns := acts i target
          rw [← keyed] at target
          have named : findByBuildContainer i (s.table.modify slot fun e =>
              { e with cancelRequested := true }) =
                some (slot, { e with cancelRequested := true }) :=
            findByBuildContainer_of flagged.disciplined.containers here container
          have takes : Takes i slot (s.chains i)
              { e with cancelRequested := true }
              (s.setTable (s.table.modify slot fun e =>
                { e with cancelRequested := true }))
              ((s.setTable (s.table.modify slot fun e =>
                { e with cancelRequested := true })).pkgBuildCompleted w i .failed) :=
            takes_pkgBuildCompleted here rfl rfl rfl rfl install producer
              named (Or.inl rfl) childless
          exact flagged.trans (flagged.disciplined.leads_turn owns
            (e := { e with cancelRequested := true }) target here
            (Or.inl inFlight) takes)

theorem Disciplined.exits {k : Nat} {child : Child} (there : s.children[k]? = some (i, child)) :
    ∃ slot e, (s.chains i).target = some e.key ∧
      s.table.get slot = some e ∧ (s.chains i).Stage i slot e child ∧
      (s.withoutChild k).Childless i := by
  have mem : child ∈ s.childrenOf i := by
    rw [mem_childrenOf]
    exact mem_of_getElem? there
  obtain ⟨slot, e, target, held, stage⟩ := inv.fits i child mem
  exact ⟨slot, e, target, held, stage, childrenOf_withoutChild there (inv.single i)⟩

theorem Disciplined.leads_prepExits {k : Nat} {answer : PrepAnswer}
    (acts : ∀ i child, s.children[k]? = some (i, child) → rules.acts i) :
    Leads rules s (s.handle (.prepExits k w answer)) := by
  rw [handle]
  split
  · rename_i i there
    obtain ⟨slot, e, target, held, stage, childless⟩ := inv.exits there
    have takes : Takes i slot (s.chains i) e (s.withoutChild k)
        ((s.withoutChild k).pkgFetchCompleted w i answer) :=
      takes_pkgFetchCompleted inv.distinct inv.containers held target stage childless
    have flying : e.state.inFlight = true := by
      rw [stage.2.2.1]
      rfl
    exact inv.leads_turn (acts i _ there) target held (Or.inl flying)
      (takes.after (Others.withoutChild there))
  · rename_i i there
    obtain ⟨slot, e, target, held, stage, childless⟩ := inv.exits there
    have takes : Takes i slot (s.chains i) e (s.withoutChild k)
        ((s.withoutChild k).pkgPrepareCompleted w i answer) :=
      takes_pkgPrepareCompleted inv.distinct inv.containers held target stage childless
    have flying : e.state.inFlight = true := by
      rw [stage.2.2.1]
      rfl
    exact inv.leads_turn (acts i _ there) target held (Or.inl flying)
      (takes.after (Others.withoutChild there))
  · exact inv.leads

theorem Disciplined.leads_buildExits {k : Nat} {outcome : BuildOutcome}
    (acts : ∀ i child, s.children[k]? = some (i, child) → rules.acts i) :
    Leads rules s (s.handle (.buildExits k w outcome)) := by
  rw [handle]
  split
  · rename_i i there
    obtain ⟨slot, e, target, held, stage, childless⟩ := inv.exits there
    obtain ⟨install, producer, state, resolved, container⟩ := stage
    have found : findByBuildContainer i (s.withoutChild k).table = some (slot, e) :=
      findByBuildContainer_of inv.containers held container
    have takes : Takes i slot (s.chains i) e (s.withoutChild k)
        ((s.withoutChild k).pkgBuildCompleted w i outcome) :=
      takes_pkgBuildCompleted held rfl rfl rfl rfl install producer found
        (Or.inr (Or.inr ⟨state, resolved⟩)) childless
    have flying : e.state.inFlight = true := by
      rw [state]
      rfl
    exact inv.leads_turn (acts i _ there) target held (Or.inl flying)
      (takes.after (Others.withoutChild there))
  · exact inv.leads

omit inv in
theorem rests_startFetchFor {name : Name}
    (refused : (s.startFetchFor w name i).2 ≠ .ok) (rests : s.Rests i)
    (childless : s.childrenOf i = []) :
    (s.startFetchFor w name i).1.Rests i ∧ (s.startFetchFor w name i).1.childrenOf i = [] := by
  cases recipe : w.recipe name (s.chains i).effectiveVersion with
  | none =>
    simp only [startFetchFor, recipe]
    exact ⟨rests, childless⟩
  | some resolved =>
    cases place : fetchEntry ⟨name, (s.chains i).image⟩ s.table with
    | none =>
      simp only [startFetchFor, recipe, place]
      exact ⟨rests, childless⟩
    | some found =>
      obtain ⟨slot, e, isUpgrade⟩ := found
      simp only [startFetchFor, recipe, place] at refused ⊢
      split_ifs at refused ⊢
      · exact absurd rfl refused
      · refine ⟨?_, childless⟩
        intro index o held target
        rw [fail_chains, setChain_self] at target
        rw [fail_table, pkgFail, get_modify] at held
        split_ifs at held with here
        · obtain ⟨old, _, rfl⟩ := map_eq_some_iff.mp held
          simp only [pkgRecordOutcome]
          split_ifs <;> rfl
        · rw [setChain_table, setTable_table, Slots.get_put_of_ne here] at held
          exact rests index o held target

theorem Disciplined.leads_installNext (acts : rules.acts i) (rests : s.Rests i)
    (childless : s.childrenOf i = [])
    (allowed : ∀ s₀ next, s.nextStart i = some (s₀, next) →
      s₀.writesEntry w i next = true →
        s₀.Apart i next ∧ rules.starts s₀ i next) :
    Leads rules s (s.installNext w i) := by
  obtain ⟨producer, install⟩ := inv.backed i childless
  have primed : Leads rules s (s.setChain i { s.chains i with
      depQueuePos := (s.chains i).depQueuePos + 1 }) := by
    apply inv.leads_prime acts rests childless
    · rfl
    · intro free
      have before := inv.idle i free
      exact ⟨before.name, before.producer, before.isDelete⟩
    · exact producer
    · exact install
  have still : (s.setChain i { s.chains i with
      depQueuePos := (s.chains i).depQueuePos + 1 }).Rests i := by
    intro index e held target
    rw [setChain_self] at target
    exact rests index e held target
  rw [installNext_eq]
  cases call : s.nextStart i with
  | none =>
    simp only
    split_ifs
    · exact inv.leads_release acts rests childless
    · exact primed.trans (primed.disciplined.leads_release acts still childless)
  | some found =>
    obtain ⟨s₀, next⟩ := found
    have isPrimed : s₀ = s.setChain i { s.chains i with
        depQueuePos := (s.chains i).depQueuePos + 1 } := by
      rw [nextStart] at call
      split_ifs at call
      obtain ⟨name, _, same⟩ := map_eq_some_iff.mp call
      exact (congrArg Prod.fst same).symm
    subst isPrimed
    have started := primed.disciplined.leads_startFetchFor acts still
      childless (allowed _ next call)
    simp only
    split
    · rename_i fetched
      rw [fetched] at started
      exact primed.trans started
    · rename_i s₂ err failed fetched
      have refused : ((s.setChain i { s.chains i with
          depQueuePos := (s.chains i).depQueuePos + 1 }).startFetchFor w
            next i).2 ≠ .ok := by
        rw [fetched]
        exact failed
      obtain ⟨resting, gone⟩ := rests_startFetchFor refused still childless
      rw [fetched] at started resting gone
      exact primed.trans (started.trans (started.disciplined.leads_release acts resting gone))

omit inv in
theorem name_of_target {key : Key} (target : c.target = some key) : c.name = some key.name := by
  obtain ⟨name, named, rfl⟩ := map_eq_some_iff.mp target
  exact named

omit inv in
theorem produceE_entry (produces : (s.chains i).produceE = some slot)
    (held : s.table.get slot = some e) :
    ((s.chains i).produceE.bind fun slot =>
      (s.table.get slot).map fun e => (slot, e)) = some (slot, e) := by
  rw [produces, bind_some, held, map_some]

omit inv in
theorem standing_of_producer (producer : c.producer ≠ .none)
    (install : c.isDelete = false) : c.standing e = c.producePrevVersion := by
  rw [Chain.standing, if_neg]
  rw [install]
  simp [producer]

section Reported

variable {k : Nat} {child : Child}
  (there : s.children[k]? = some (i, child))
  (target : (s.chains i).target = some e.key)
  (held : s.table.get slot = some e)
include there

theorem Disciplined.childless_reported : (s.reported k i).Childless i :=
  childrenOf_withoutChild there (inv.single i)

include target held

theorem Disciplined.leads_dropReported (acts : rules.acts i) (installed : e.state = .installed) :
    Leads rules s ((s.reported k i).release i) := by
  have others : s.Others i slot ((s.reported k i).release i) :=
    (Others.reported there).trans Others.release
  apply inv.leads_drop acts _ others rfl _ (inv.childless_reported there)
  · apply rests_of held inv.distinct target
    rw [installed]
    rfl
  · rw [release_self]
    exact released_idle _

theorem Disciplined.leads_failReported {e₁ : Entry} {t : Table}
    (acts : rules.acts i) (flying : e.state.inFlight = true)
    (producer : (s.chains i).producer ≠ .none)
    (install : (s.chains i).isDelete = false)
    (changes : s.Others i slot ((s.reported k i).setTable t))
    (here : t.get slot = some e₁) (keyed : e₁.key = e.key)
    (listed : e₁.files = e.files) (version : e₁.version = e.version) :
    Leads rules s (((s.reported k i).setTable t).installProduceFailed i
      slot (s.chains i).isUpgrade) := by
  apply inv.leads_turn acts target held (Or.inl flying)
  apply Takes.after changes
  have childless : ((s.reported k i).setTable t).Childless i := inv.childless_reported there
  apply takes_installProduceFailed here keyed listed (Or.inl version) childless install
  rw [standing_of_producer producer install]
  simp [reported]

end Reported

theorem Disciplined.leads_waiter {k : Nat} (acts : rules.acts i)
    (there : s.children[k]? = some (i, .waiter)) :
    Leads rules s ((s.withoutChild k).pkgProduceCompleted w i none) := by
  obtain ⟨slot, e, target, held, stage, _⟩ := inv.exits there
  obtain ⟨producer, produces, state, named⟩ := stage
  have childless := inv.childless_reported there
  rw [pkgProduceCompleted_eq (s := s.withoutChild k) (name_of_target target)
    (produceE_entry produces held)]
  change Leads rules s (produceOutcome w i slot e (s.chains i) none (s.reported k i))
  rw [produceOutcome, if_pos producer, if_pos producer]
  have chain : (s.reported k i).chains i =
      { s.chains i with producer := .none } := setChain_self _ _ _
  split_ifs with delete
  · have installed : e.state = .installed := by rw [state, Chain.workState, if_pos delete]
    rw [deleteProduceStart]
    split_ifs
    · have change : ((s.reported k i).chains i).mutation = .delete := by
        rw [chain, Chain.mutation, if_pos delete]
      have standing : (if ((s.reported k i).chains i).isDelete = true
          then e.version
          else ((s.reported k i).chains i).producePrevVersion) = (s.chains i).standing e := by
        rw [chain, Chain.standing, if_pos delete, if_pos (Or.inr delete)]
      have work : e.state = ((s.reported k i).chains i).workState := by
        rw [chain]
        exact state
      have started := goesOn_startProducer (s := s.reported k i)
        (c := s.chains i) held rfl rfl (by rw [chain]; rfl)
        (by rw [chain]; rfl) (by rw [chain]) (by rw [chain, produces])
        work (by rw [chain]; exact named) (Or.inl rfl) standing childless
        (by rw [chain, delete]; intro impossible; cases impossible)
      rw [change] at started
      obtain ⟨others, child, how⟩ := started
      apply inv.leads_turn acts target held (Or.inr ⟨delete, installed⟩)
      exact ⟨(Others.reported there).trans others, .goesOn e child how⟩
    · exact inv.leads_dropReported there target held acts installed
  · rw [Bool.not_eq_true] at delete
    have building : e.state = .building := by
      rw [state, Chain.workState, delete]
      rfl
    have flying : e.state.inFlight = true := by
      rw [building]
      rfl
    apply inv.leads_turn acts target held (Or.inl flying)
    apply Takes.after (Others.reported there)
    apply takes_installProduceBegin (s := s.reported k i) held rfl rfl _ _ _
      delete _ building (named delete) _ childless
    · rw [chain]
      rfl
    · rw [chain]
      rfl
    · rw [chain]
    · rw [chain, produces]
    · rw [chain, standing_of_producer (by simp [producer]) delete]

theorem Disciplined.leads_unreported {k : Nat} {p : Production} (acts : rules.acts i)
    (there : s.children[k]? = some (i, .producer p)) :
    Leads rules s ((s.withoutChild k).pkgProduceCompleted w i none) := by
  obtain ⟨slot, e, target, held, stage, _⟩ := inv.exits there
  obtain ⟨producer, produces, state, _⟩ := stage
  have notWaiting : (s.chains i).producer ≠ .waiting := by
    rw [producer]
    simp
  rw [pkgProduceCompleted_eq (s := s.withoutChild k) (name_of_target target)
    (produceE_entry produces held)]
  change Leads rules s (produceOutcome w i slot e (s.chains i) none (s.reported k i))
  rw [produceOutcome, if_neg notWaiting, if_neg notWaiting]
  split_ifs with delete
  · apply inv.leads_dropReported there target held acts
    rw [state, Chain.workState, if_pos delete]
  · rw [Bool.not_eq_true] at delete
    have producing : (s.chains i).producer ≠ .none := by
      rw [producer]
      simp
    have flying : e.state.inFlight = true := by
      rw [state, Chain.workState, delete]
      rfl
    exact inv.leads_failReported there target held acts flying producing
      delete (Others.reported there) held rfl rfl rfl

omit inv in
/-- What `pkg_produce_completed` does once a version with the package has been
recorded: the package gets its list, or it fails, or the daemon is killed. -/
theorem installProduced_cases {built : Built} (commits : w.commits = true) :
    (s.settles w i built = true ∧ s.installProduced w i slot e built =
        (s.settled w i slot e built).installNext w i) ∨
      (w.survives = true ∧ (w.listWhole = false ∨ s.settles w i built = false) ∧
        ∃ files, s.installProduced w i slot e built = s.spoilt i slot e built files) ∨
      (w.survives = false ∧ s.installProduced w i slot e built =
        (((s.setTable (s.table.modify slot fun e =>
          { e with state := .installed })).commit (s.chains i).image
            built.version (.installed e.key e.version built.files
              (s.chains i).fetchResolvedReplaces.str))).stopped) := by
  cases whole : s.settles w i built with
  | true => exact Or.inl ⟨rfl, installProduced_of_settles whole⟩
  | false =>
    right
    simp only [settles, commits, Bool.true_and] at whole
    simp only [installProduced, installAfterProduce, commits, if_true,
      setTable_chains, commit_chains, setTable_images,
      currentPaths_commit]
    cases survives : w.survives with
    | false => exact Or.inr ⟨rfl, rfl⟩
    | true =>
      refine Or.inl ⟨rfl, Or.inr trivial, ?_⟩
      simp only [if_true]
      cases listWhole : w.listWhole with
      | false => exact ⟨[], rfl⟩
      | true =>
        rw [survives, listWhole, Bool.true_and, Bool.true_and, Bool.not_eq_false'] at whole
        simp only [if_true]
        rw [if_pos whole]
        exact ⟨built.files, rfl⟩

theorem Disciplined.moves_report {k : Nat} {p : Production} {built : Built}
    (alive : s.alive = true) (acts : rules.acts i)
    (there : s.children[k]? = some (i, .producer p))
    (isBuilt : p.built = some built)
    (records : w.commits = true → rules.records s w i p built)
    (starts : ∀ s₀ next,
      (s.withoutChild k).produceStart w i (some built) = some (s₀, next) →
        s₀.writesEntry w i next = true →
          s₀.Apart i next ∧ rules.starts s₀ i next) :
    Relation.ReflTransGen (Move rules) s
      ((s.withoutChild k).pkgProduceCompleted w i (some built)) := by
  obtain ⟨slot, e, target, held, stage, _⟩ := inv.exits there
  obtain ⟨producer, produces, state, _⟩ := stage
  have reports : s.Reports k i p built slot e := ⟨alive, there, isBuilt, produces, held⟩
  have producing : (s.chains i).producer ≠ .none := by
    rw [producer]
    simp
  have notWaiting : (s.chains i).producer ≠ .waiting := by
    rw [producer]
    simp
  have chain : (s.reported k i).chains i =
      { s.chains i with producer := .none } := setChain_self _ _ _
  rw [pkgProduceCompleted_eq (s := s.withoutChild k) (name_of_target target)
    (produceE_entry produces held)]
  change Relation.ReflTransGen (Move rules) s (produceOutcome w i slot e
    (s.chains i) (some built) (s.reported k i))
  rw [produceOutcome, if_neg notWaiting, if_neg notWaiting]
  split_ifs with delete
  · simp only [deleteProduced]
    split_ifs with commits survives
    · exact .single (.erase k w i p built slot e acts reports delete (records commits) survives)
    · rw [Bool.not_eq_true] at survives
      have killed := Move.kill k w i p built slot e
        (s.table.put slot none) reports (records commits) survives
      rw [Chain.recording, if_pos delete] at killed
      apply Relation.ReflTransGen.single
      rw [chain]
      exact killed
    · apply (inv.leads_dropReported there target held acts _).moves
      rw [state, Chain.workState, if_pos delete]
  · rw [Bool.not_eq_true] at delete
    cases commits : w.commits with
    | false =>
      have changes : s.Others i slot ((s.reported k i).setTable
          (s.table.modify slot fun e => { e with state := .installed })) :=
        (Others.reported there).trans (Others.modify fun _ => rfl)
      rw [installProduced, commits, chain]
      have flying : e.state.inFlight = true := by
        rw [state, Chain.workState, delete]
        rfl
      exact (inv.leads_failReported there target held acts flying
        producing delete changes (get_modify_self _ held) rfl rfl rfl).moves
    | true =>
      rcases installProduced_cases (s := s.reported k i) (i := i) (e := e) commits with
        ⟨settles, same⟩ | ⟨survives, why, files, same⟩ | ⟨killed, same⟩
      · rw [same]
        have settled := inv.settle (w := w) reports delete
        refine Relation.ReflTransGen.head (.settle k w i p built slot e
          acts reports delete (records commits) settles) ?_
        have here : ∃ e', (((s.reported k i).settled w i slot e
            built).table.get slot = some e') ∧ e'.key = e.key ∧ e'.state = .installed := by
          have before := get_modify_self (fun e : Entry =>
            { e with state := .installed }) held
          obtain ⟨e', after, core⟩ := (alike_listed (i := i) (s := s.reported k i)).of_get before
          rw [settled_table]
          exact ⟨e', after, core.key, core.state⟩
        obtain ⟨e', held', keyed, installed⟩ := here
        apply (settled.leads_installNext acts _ _ _).moves
        · apply rests_of held' settled.distinct
          · rw [settled_chains, chain, keyed]
            exact target
          · rw [installed]
            rfl
        · rw [childrenOf, settled_children]
          exact inv.childless_reported there
        · intro s₀ next call
          apply starts
          rw [produceStart, if_pos (by
            simp [name_of_target target, delete, notWaiting])]
          simp only [withoutChild_chains, setChain_table, withoutChild_table]
          rw [produceE_entry produces held, bind_some, bind_some]
          change (if (s.reported k i).settles w i built = true then
            ((s.reported k i).settled w i slot e built).nextStart i
            else none) = _
          rw [if_pos settles]
          exact call
      · rw [same]
        exact .single (.spoil k w i p built slot e files acts reports delete
          (records commits) ⟨survives, why⟩)
      · have isKilled := Move.kill k w i p built slot e
          (s.table.modify slot fun e => { e with state := .installed })
          reports (records commits) killed
        rw [Chain.recording, delete] at isKilled
        apply Relation.ReflTransGen.single
        rw [same, chain]
        exact isKilled

end Leads

theorem moves_step {event : Event} (inv : s.alive = true → s.Disciplined)
    (allowed : rules.Allows s event) :
    Relation.ReflTransGen (Move rules) s (s.step event) := by
  cases alive : s.alive with
  | false =>
    rcases step_of_dead alive event with same | ⟨t, restart, load, boots⟩
    · rw [same]
    · rw [boots]
      exact .single (.boot t alive load (allowed.boots alive restart t load))
  | true =>
    rw [step_of_alive alive]
    replace inv := inv alive
    have acts := allowed.acts alive
    cases event with
    | install w r =>
      apply (inv.leads_pkgInstallStart (fun i => acts i trivial) _).moves
      intro s₀ i name call
      apply allowed.starts alive s₀ w i name
      rw [fetchStart, call, map_some]
    | uninstall w name image =>
      rw [handle]
      split
      · exact .refl
      · rename_i key requested
        apply (inv.leads_deleteStart alive (fun i => acts i trivial) _).moves
        intro slot e found failed
        exact allowed.forgets alive w name image key slot e rfl requested found failed
    | cancel w name image =>
      rw [handle]
      split
      · exact .refl
      · rename_i key requested
        apply (inv.leads_pkgCancel (fun i target =>
          acts i ⟨key, requested, target⟩) _).moves
        intro slot e i found
        exact allowed.cancels alive key slot e i requested found
    | reap => exact (inv.leads_chainReapStale fun i => acts i trivial).moves
    | prepExits k w answer =>
      exact (inv.leads_prepExits fun i child there =>
        acts i ⟨child, there⟩).moves
    | buildExits k w outcome =>
      exact (inv.leads_buildExits fun i child there =>
        acts i ⟨child, there⟩).moves
    | buildLost k =>
      rw [handle]
      split
      · rename_i i there
        exact .single (.lose k i (acts i ⟨_, there⟩) there)
      · exact .refl
    | places k =>
      rw [handle]
      split
      · rename_i i p there
        split_ifs with unbuilt
        · rw [isNone_iff_eq_none] at unbuilt
          exact .single (.place k i p (acts i ⟨_, there⟩) there unbuilt
            (allowed.places alive k i p rfl there unbuilt))
        · exact .refl
      · exact .refl
    | produceExits k w ok =>
      rw [handle]
      split
      · rename_i i there
        exact (inv.leads_waiter (acts i ⟨_, there⟩) there).moves
      · rename_i i p there
        cases ok with
        | false => exact (inv.leads_unreported (acts i ⟨_, there⟩) there).moves
        | true =>
          simp only [if_true]
          cases isBuilt : p.built with
          | none =>
              exact (inv.leads_unreported (acts i ⟨_, there⟩)
            there).moves
          | some built =>
            apply inv.moves_report alive (acts i ⟨_, there⟩) there isBuilt
            · exact allowed.records alive k w i p built rfl there isBuilt
            · intro s₀ next call
              apply allowed.starts alive s₀ w i next
              rw [fetchStart, there]
              simp only [isBuilt]
              rw [call, map_some]
      · exact .refl
    | stop orderly =>
      rw [handle]
      split_ifs
      · exact .single (.die _)
      · exact .single (.die s.table)
    | restart => exact .refl

theorem Move.alive (move : Move rules s s') (alive' : s'.alive = true) :
    s.alive = true ∨ ∃ t, loadState s.file = some t ∧ rules.boots s t ∧ s' = s.booted t := by
  cases move with
  | turn i slot e s' acts target held works others turn =>
    exact Or.inl (others.alive.symm.trans alive')
  | drop i slot s' acts rests others table idle gone =>
    exact Or.inl (others.alive.symm.trans alive')
  | start i slot name e' s' acts rests childless apart rule others fetched
      here target keyed isUpgrade stage only =>
      exact Or.inl (others.alive.symm.trans alive')
  | refuse i slot name e' s' acts rests childless apart rule others fetched
      here keyed state target idle producer isDelete gone =>
      exact Or.inl (others.alive.symm.trans alive')
  | remove i slot c e e' child s' acts free apart held installed target
      isDelete others how =>
      exact Or.inl (others.alive.symm.trans alive')
  | settle k w i p built slot e acts reports install rule settles =>
    exact Or.inl reports.alive
  | erase k w i p built slot e acts reports delete rule survives =>
    exact Or.inl reports.alive
  | forget w slot e isAlive apart held failed rule => exact Or.inl isAlive
  | kill k w i p built slot e t reports rule killed => cases alive'
  | die t => cases alive'
  | boot t dead load rule => exact Or.inr ⟨t, load, rule, rfl⟩
  | prime i c acts rests childless target idle producer isDelete => exact Or.inl alive'
  | flag slot => exact Or.inl alive'
  | lose k i acts there => exact Or.inl alive'
  | place k i p acts there unbuilt rule => exact Or.inl alive'
  | spoil k w i p built slot e files acts reports install rule why =>
    exact Or.inl alive'

def InOrder (s : State) : Prop :=
  s.alive = true → s.Disciplined

theorem InOrder.move (inv : s.InOrder) (move : Move rules s s') :
    s'.InOrder := by
  intro alive'
  rcases move.alive alive' with alive | ⟨t, load, _, rfl⟩
  · exact (inv alive).move move alive'
  · exact disciplined_booted load

theorem Disciplined.event_induction {event : Event} (inv : s.Disciplined)
    (alive : s.alive = true) (allowed : rules.Allows s event)
    (stays : ∀ m t, ¬ rules.boots m t)
    (alive' : (s.step event).alive = true)
    (property : State → Prop) (start : property s)
    (keeps : ∀ m s', property m → m.Disciplined → m.alive = true →
      Move rules m s' → s'.alive = true → property s') :
    property (s.step event) := by
  have moves := moves_step (fun _ => inv) allowed
  have both : (s.step event).alive = true →
      (s.step event).Disciplined ∧ property (s.step event) := by
    clear alive'
    generalize s.step event = last at moves ⊢
    induction moves with
    | refl => exact fun _ => ⟨inv, start⟩
    | tail _ move ih =>
      intro alive'
      rcases move.alive alive' with before | ⟨t, _, impossible, _⟩
      · obtain ⟨disciplined, holds⟩ := ih before
        exact ⟨disciplined.move move alive', keeps _ _ holds disciplined before move alive'⟩
      · exact absurd impossible (stays _ t)
  exact (both alive').2

theorem disciplined_initial : initial.Disciplined := by
  have empty : ∀ i, (Slots.empty 1024 : Table).get i = none := fun i => Slots.get_empty i
  constructor
  · exact Table.distinct_empty
  · exact Table.containers_empty
  · intro i
    simp [initial, childrenOf]
  · intro i child mem
    simp [initial, childrenOf] at mem
  · intro index e held
    rw [initial, empty] at held
    cases held
  · exact oneJob_initial
  · exact fun i _ => ⟨rfl, rfl, rfl⟩
  · exact fun i _ => ⟨rfl, rfl⟩
  · intro i j p q mem
    simp [initial, childrenOf] at mem

end State

def State.startsApart (s : State) (event : Event) : Bool :=
  match s.fetchStart event with
  | none => true
  | some (s₀, _, i, name) =>
    (List.finRange maxConcurrentJobs).all fun j => decide (j = i) ||
      decide ((s₀.chains j).target ≠ some ⟨name, (s₀.chains i).image⟩)

theorem State.apart_of_startsApart {s s₀ : State} {event : Event} {w : World}
    {i : ChainIdx} {name : Name} (apart : s.startsApart event = true)
    (call : s.fetchStart event = some (s₀, w, i, name)) :
    s₀.Apart i name := by
  rw [startsApart, call] at apart
  intro j other
  have here := all_eq_true.mp apart j (mem_finRange j)
  simpa [other] using here

theorem Rules.allows_any {s : State} {event : Event}
    (apart : s.startsApart event = true) (cancels : s.CancelsOwn event) :
    Rules.any.Allows s event where
  acts := fun _ _ _ => trivial
  starts := fun _ _ _ _ _ call _ =>
    ⟨State.apart_of_startsApart apart call, trivial⟩
  cancels := fun _ => cancels
  records := fun _ _ _ _ _ _ _ _ _ _ => trivial
  places := fun _ _ _ _ _ _ _ => trivial
  forgets := fun _ _ _ _ _ _ _ _ _ _ _ => trivial
  boots := fun _ _ _ _ => trivial

theorem Rules.invariant {rules : Rules} (inv : State → Prop)
    (keeps : ∀ s s', s.InOrder → inv s → State.Move rules s s' → inv s')
    {events : List Event} (start : inv State.initial)
    (guarded : Guarded State.step rules.Allows State.initial events) :
    Throughout State.step (fun s => s.InOrder ∧ inv s) State.initial
      events := by
  apply guarded.throughout (fun s => s.InOrder ∧ inv s)
  · intro s event both allowed
    have moves := State.moves_step both.1 allowed
    generalize s.step event = last at moves ⊢
    induction moves with
    | refl => exact both
    | tail _ move ih => exact ⟨ih.1.move move, keeps _ _ ih.1 ih.2 move⟩
  · exact ⟨fun _ => State.disciplined_initial, start⟩

end Cix.Pkg
