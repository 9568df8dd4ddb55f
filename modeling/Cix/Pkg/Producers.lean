import Cix.Pkg.Events

/-!
# Producers take turns

In a daemon whose jobs keep out of each other's way, an image has one producer
at a time, what a producer builds is built from the version that is still
current when it is recorded, and the end of a child touches no other job.
-/

namespace Cix.Pkg

open Cix.Lib List

namespace State

/-- The job of chain `j` is as it was: the chain, its children, and what its
package is and at which version. -/
structure Untouched (j : ChainIdx) (s s' : State) : Prop where
  chain : s'.chains j = s.chains j
  children : s'.childrenOf j = s.childrenOf j
  entry : ∀ slot e, s.table.get slot = some e → (s.chains j).target = some e.key →
      ∃ e', s'.table.get slot = some e' ∧ e'.key = e.key ∧
        e'.state = e.state ∧ e'.version = e.version

variable {rules : Rules} {s s' s'' : State} {i j : ChainIdx} {slot : Nat}
  {e : Entry}

theorem untouched_refl (j : ChainIdx) (s : State) : Untouched j s s where
  chain := rfl
  children := rfl
  entry := fun _ e held _ => ⟨e, held, rfl, rfl, rfl⟩

theorem Untouched.trans (first : Untouched j s s')
    (second : Untouched j s' s'') : Untouched j s s'' where
  chain := second.chain.trans first.chain
  children := second.children.trans first.children
  entry := by
    intro slot e held target
    obtain ⟨e', held', key, state, version⟩ := first.entry slot e held target
    have target' : (s'.chains j).target = some e'.key := by rw [first.chain, target, key]
    obtain ⟨e'', held'', key', state', version'⟩ := second.entry slot e' held' target'
    exact ⟨e'', held'', key'.trans key, state'.trans state, version'.trans version⟩

theorem untouched_of_others (others : s.Others i slot s') (other : j ≠ i)
    (apart : ∀ o, s.table.get slot = some o →
      (s.chains j).target ≠ some o.key) : Untouched j s s' where
  chain := others.chains j other
  children := others.children j other
  entry := by
    intro index e held target
    have elsewhere : index ≠ slot := by
      intro here
      rw [here] at held
      exact apart e held target
    obtain ⟨e', held', like⟩ := others.kept index e elsewhere held
    exact ⟨e', held', like.key, like.state, like.version⟩

variable {built : Built}

theorem Disciplined.untouched_report (inv : s.Disciplined) {k : Nat}
    {p : Production}
    (reports : s.Reports k i p built slot e) (other : j ≠ i)
    (chain : s'.chains j = s.chains j)
    (children : s'.children = (s.withoutChild k).children)
    (table : ∀ index o, index ≠ slot → s.table.get index = some o →
      ∃ o', s'.table.get index = some o' ∧ o.Core o') :
    Untouched j s s' where
  chain := chain
  children := by
    rw [childrenOf, children]
    exact childrenOf_withoutChild_of_ne reports.there other
  entry := by
    intro index o held target
    have elsewhere : index ≠ slot := by
      intro here
      rw [here, reports.held] at held
      cases held
      exact inv.apart (inv.reports reports).1 j other target
    obtain ⟨o', held', core⟩ := table index o elsewhere held
    exact ⟨o', held', core.key, core.state, core.version⟩

theorem Disciplined.untouched (inv : s.Disciplined) (alive : s.alive = true)
    (move : Move rules s s') (alive' : s'.alive = true)
    (idle : ¬ rules.acts j) : Untouched j s s' := by
  have differs : ∀ i, rules.acts i → j ≠ i := by
    intro i acts same
    rw [same] at idle
    exact idle acts
  have ours : ∀ i index (o : Entry), j ≠ i →
      (s.chains i).target = some o.key → s.table.get index = some o →
        ∀ q, s.table.get index = some q → (s.chains j).target ≠ some q.key := by
    intro i index o other target held q qHeld
    rw [held] at qHeld
    cases qHeld
    exact inv.apart target j other
  cases move with
  | turn i slot e s' acts target held works others turn =>
    exact untouched_of_others others (differs i acts) (ours i slot e (differs i acts) target held)
  | drop i slot s' acts rests others table gone =>
    constructor
    · exact others.chains j (differs i acts)
    · exact others.children j (differs i acts)
    · intro index o held _
      exact ⟨o, by rw [table]; exact held, rfl, rfl, rfl⟩
  | prime i c acts rests childless target isIdle producer isDelete =>
    have others : s.Others i 0 (s.setChain i c) := Others.setChain c
    constructor
    · exact others.chains j (differs i acts)
    · exact others.children j (differs i acts)
    · exact fun index o held _ => ⟨o, held, rfl, rfl, rfl⟩
  | start i slot name e' s' acts rests childless apart rule others fetched
      here target keyed isUpgrade stage only =>
      apply untouched_of_others others (differs i acts)
      intro o held
      rw [fetched.mine held]
      exact apart j (differs i acts)
  | refuse i slot name e' s' acts rests childless apart rule others fetched
      here keyed state target isIdle producer isDelete gone =>
      apply untouched_of_others others (differs i acts)
      intro o held
      rw [fetched.mine held]
      exact apart j (differs i acts)
  | remove i slot c e e' child s' acts free apart held installed target
      isDelete others how =>
      apply untouched_of_others others (differs i acts)
      intro o oHeld
      rw [held] at oHeld
      cases oHeld
      exact apart j
  | flag slot =>
    refine ⟨rfl, rfl, ?_⟩
    intro index o held _
    have alike : s.table.Alike (s.table.modify slot fun e =>
        { e with cancelRequested := true }) :=
      Table.Alike.modify fun _ => ⟨rfl, rfl, rfl, rfl⟩
    obtain ⟨o', held', core⟩ := alike.of_get held
    exact ⟨o', held', core.key, core.state, core.version⟩
  | lose k i acts there =>
    refine ⟨rfl, ?_, fun _ o held _ => ⟨o, held, rfl, rfl, rfl⟩⟩
    exact childrenOf_withoutChild_of_ne there (differs i acts)
  | place k i p acts there unbuilt rule =>
    have set : (s.place k i p).children = _ := rfl
    obtain ⟨_, _, rest⟩ := childrenOf_replace there (inv.single i) set
    refine ⟨rfl, ?_, fun _ o held _ => ⟨o, held, rfl, rfl, rfl⟩⟩
    exact rest j (differs i acts)
  | settle k w i p built slot e acts reports install rule settles =>
    have other := differs i acts
    apply inv.untouched_report reports other
    · rw [settled_chains]
      exact reported_of_ne k i s other
    · rw [settled_children]
      rfl
    · intro index o elsewhere held
      rw [settled_table]
      apply alike_listed.of_get
      rw [get_modify_of_ne elsewhere]
      exact held
  | spoil k w i p built slot e files acts reports install rule why =>
    have other := differs i acts
    apply inv.untouched_report reports other
    · rw [spoilt_of_ne i slot e built files _ other]
      exact reported_of_ne k i s other
    · rfl
    · intro index o elsewhere held
      refine ⟨o, ?_, ⟨rfl, rfl, rfl, rfl⟩⟩
      rw [spoilt_table, pkgFail, get_modify_of_ne elsewhere,
        get_modify_of_ne elsewhere, get_modify_of_ne elsewhere]
      exact held
  | erase k w i p built slot e acts reports delete rule survives =>
    have other := differs i acts
    apply inv.untouched_report reports other
    · rw [erased_of_ne w i slot e built _ other]
      exact reported_of_ne k i s other
    · rw [erased_children]
      rfl
    · intro index o elsewhere held
      refine ⟨o, ?_, ⟨rfl, rfl, rfl, rfl⟩⟩
      rw [erased_table, Slots.get_put_of_ne elsewhere]
      exact held
  | forget w slot e isAlive apart held failed rule =>
    have kept : ∀ index o, s.table.get index = some o → (s.chains j).target = some o.key →
          (s.table.put slot none).get index = some o := by
      intro index o oHeld target
      rw [Slots.get_put_of_ne]
      · exact oHeld
      · intro here
        rw [here, held] at oHeld
        cases oHeld
        exact apart j target
    have table : ((s.setTable (s.table.put slot none)).save w).table =
        s.table.put slot none := save_table _ w
    constructor
    · rw [save_chains]
      rfl
    · rw [childrenOf, save_children]
      rfl
    · intro index o oHeld target
      rw [table]
      exact ⟨o, kept index o oHeld target, rfl, rfl, rfl⟩
  | kill k w i p built slot e t reports rule killed => cases alive'
  | die t => cases alive'
  | boot t dead load rule =>
    rw [alive] at dead
    cases dead

/-- The rules of one event: its moves are moves of the chains whose event it
is, and only a producer that places its version does so. -/
def eventRules (s : State) (event : Event) : Rules :=
  { Rules.any with
    acts := s.mayAct event
    places := fun _ _ _ => ∃ k, event = .places k
    boots := fun _ _ => False }

theorem allows_eventRules {event : Event} (alive : s.alive = true)
    (allowed : Rules.any.Allows s event) :
    (s.eventRules event).Allows s event where
  acts := fun _ _ acts => acts
  starts := fun _ s₀ w i name call writes =>
    ⟨(allowed.starts alive s₀ w i name call writes).1, trivial⟩
  cancels := allowed.cancels
  records := fun _ _ _ _ _ _ _ _ _ _ => trivial
  places := fun _ k _ _ isPlaces _ _ => ⟨k, isPlaces⟩
  forgets := fun _ _ _ _ _ _ _ _ _ _ _ => trivial
  boots := by
    intro dead
    rw [alive] at dead
    cases dead

theorem Disciplined.untouched_step {event : Event} (inv : s.Disciplined)
    (alive : s.alive = true) (allowed : Rules.any.Allows s event)
    (alive' : (s.step event).alive = true) (idle : ¬ s.mayAct event j) :
    Untouched j s (s.step event) := by
  apply inv.event_induction alive (allows_eventRules alive allowed)
    (fun _ _ => id) alive' (Untouched j s) (untouched_refl j s)
  intro m s' holds disciplined before move after
  exact holds.trans (disciplined.untouched before move after idle)

def KeepsBuilt (s s' : State) : Prop :=
  ∀ i p built, .producer p ∈ s'.childrenOf i → p.built = some built →
    .producer p ∈ s.childrenOf i ∧ s'.images p.image = s.images p.image

theorem keepsBuilt_of_others (others : s.Others i slot s')
    (mine : ∀ p, .producer p ∈ s'.childrenOf i → p.built = none) :
    KeepsBuilt s s' := by
  intro j p built mem isBuilt
  by_cases here : j = i
  · subst here
    rw [mine p mem] at isBuilt
    cases isBuilt
  · rw [others.children j here] at mem
    exact ⟨mem, by rw [others.images]⟩

theorem Disciplined.keepsBuilt_report (inv : s.Disciplined) {k : Nat}
    {p : Production}
    (reports : s.Reports k i p built slot e)
    (children : s'.children = (s.withoutChild k).children)
    (images : s'.images = Function.update s.images (s.chains i).image
      ((s.images (s.chains i).image).record built.version)) :
    KeepsBuilt s s' := by
  obtain ⟨_, stage, only⟩ := inv.reports reports
  have gone := childrenOf_withoutChild reports.there (inv.single i)
  have mine : Child.producer p ∈ s.childrenOf i := by
    rw [only]
    exact mem_singleton_self _
  have image : p.image = (s.chains i).image := stage.2.2.2.2.2.1
  intro j q isBuilt mem _
  rw [childrenOf, children] at mem
  change Child.producer q ∈ (s.withoutChild k).childrenOf j at mem
  by_cases here : j = i
  · subst here
    rw [gone] at mem
    cases mem
  · rw [childrenOf_withoutChild_of_ne reports.there here] at mem
    refine ⟨mem, ?_⟩
    rw [images, Function.update_of_ne]
    intro same
    rw [← image] at same
    exact here (inv.oneProducer j i q p mem mine same)

theorem Disciplined.keepsBuilt (inv : s.Disciplined)
    (move : Move rules s s') (alive' : s'.alive = true)
    (unplaced : ∀ i p, ¬ rules.places s i p) : KeepsBuilt s s' := by
  cases move with
  | turn i slot e s' acts target held works others turn =>
    apply keepsBuilt_of_others others
    intro p mem
    cases turn with
    | ended e' keep tried how =>
      rw [how.gone] at mem
      cases mem
    | goesOn e' child how =>
      rw [how.only, mem_singleton] at mem
      exact (how.forked p mem.symm).unbuilt
  | drop i slot s' acts rests others table isIdle gone =>
    apply keepsBuilt_of_others others
    intro p mem
    rw [gone] at mem
    cases mem
  | start i slot name e' s' acts rests childless apart rule others fetched
      here target keyed isUpgrade stage only =>
      apply keepsBuilt_of_others others
      intro p mem
      rw [only, mem_singleton] at mem
      cases mem
  | refuse i slot name e' s' acts rests childless apart rule others fetched
      here keyed state target isIdle producer isDelete gone =>
      apply keepsBuilt_of_others others
      intro p mem
      rw [gone] at mem
      cases mem
  | remove i slot c e e' child s' acts free apart held installed target
      isDelete others how =>
      apply keepsBuilt_of_others others
      intro p mem
      rw [how.only, mem_singleton] at mem
      exact (how.forked p mem.symm).unbuilt
  | lose k i acts there =>
    have others : s.Others i 0 (s.withoutChild k) := Others.withoutChild there
    apply keepsBuilt_of_others others
    intro p mem
    rw [childrenOf_withoutChild there (inv.single i)] at mem
    cases mem
  | place k i p acts there unbuilt rule => exact absurd rule (unplaced i p)
  | settle k w i p built slot e acts reports install rule settles =>
    apply inv.keepsBuilt_report reports
    · rw [settled_children]
      rfl
    · rw [settled_images, reported_self]
      rfl
  | spoil k w i p built slot e files acts reports install rule why =>
    apply inv.keepsBuilt_report reports
    · rfl
    · rw [spoilt_images, reported_self]
      rfl
  | erase k w i p built slot e acts reports delete rule survives =>
    apply inv.keepsBuilt_report reports
    · rw [erased_children]
      rfl
    · rw [erased_images, reported_self]
      rfl
  | forget w slot e isAlive apart held failed rule =>
    intro j p built mem _
    have children : ((s.setTable (s.table.put slot none)).save
        w).childrenOf j = s.childrenOf j := by
      rw [save]
      split_ifs <;> rfl
    have images : ((s.setTable (s.table.put slot none)).save w).images =
        s.images := by
      rw [save]
      split_ifs <;> rfl
    rw [children] at mem
    exact ⟨mem, by rw [images]⟩
  | prime i c acts rests childless target isIdle producer isDelete =>
    exact fun j p built mem _ => ⟨mem, rfl⟩
  | flag slot => exact fun j p built mem _ => ⟨mem, rfl⟩
  | kill k w i p built slot e t reports rule killed => cases alive'
  | die t => cases alive'
  | boot t dead load rule =>
    intro j p built mem
    simp [booted, childrenOf] at mem

theorem step_places (alive : s.alive = true) (k : Nat) : s.step (.places k) = s ∨ ∃ i p,
      s.children[k]? = some (i, .producer p) ∧ p.built = none ∧
        s.step (.places k) = s.place k i p := by
  rw [step_of_alive alive, handle]
  split
  · rename_i i p there
    split_ifs with unbuilt
    · rw [Option.isNone_iff_eq_none] at unbuilt
      exact Or.inr ⟨i, p, there, unbuilt, rfl⟩
    · exact Or.inl rfl
  · exact Or.inl rfl

theorem Disciplined.built_step {event : Event} (inv : s.Disciplined)
    (alive : s.alive = true) (allowed : Rules.any.Allows s event)
    (alive' : (s.step event).alive = true) {p : Production}
    (mem : .producer p ∈ (s.step event).childrenOf i)
    (isBuilt : p.built = some built) :
    (.producer p ∈ s.childrenOf i ∧ (s.step event).images p.image = s.images p.image) ∨
      imageVersionBuild p (s.images p.image) = ((s.step event).images p.image, built) := by
  by_cases placing : ∃ k, event = .places k
  · obtain ⟨k, rfl⟩ := placing
    rcases step_places alive k with same | ⟨chain, q, there, unbuilt, same⟩
    · rw [same] at mem ⊢
      exact Or.inl ⟨mem, rfl⟩
    · rw [same] at mem ⊢
      have set : (s.place k chain q).children = _ := rfl
      obtain ⟨old, new, rest⟩ := childrenOf_replace there (inv.single chain) set
      by_cases here : i = chain
      · subst here
        rw [new, mem_singleton] at mem
        have isPlaced : p = { q with
            built := some (imageVersionBuild q (s.images q.image)).2 } :=
          Child.producer.inj mem
        rw [isPlaced] at isBuilt ⊢
        right
        rw [place_images, Function.update_self, ← Option.some.inj isBuilt]
        rfl
      · rw [rest i here] at mem
        have mine : Child.producer q ∈ s.childrenOf chain := by
          rw [old]
          exact mem_singleton_self _
        have apart : p.image ≠ q.image := by
          intro equal
          exact here (inv.oneProducer i chain p q mem mine equal)
        refine Or.inl ⟨mem, ?_⟩
        rw [place_images, Function.update_of_ne apart]
  · have kept : KeepsBuilt s (s.step event) := by
      apply inv.event_induction alive (allows_eventRules alive allowed)
        (fun _ _ => id) alive' (KeepsBuilt s)
      · exact fun j q b isMember _ => ⟨isMember, rfl⟩
      · intro m s' holds disciplined before move after j q b isMember qBuilt
        obtain ⟨inMiddle, same⟩ := disciplined.keepsBuilt move after
          (fun _ _ => placing) j q b isMember qBuilt
        obtain ⟨atStart, also⟩ := holds j q b inMiddle qBuilt
        exact ⟨atStart, same.trans also⟩
    exact Or.inl (kept i p built mem isBuilt)

theorem Disciplined.position (inv : s.Disciplined) {k m : Nat}
    {child other : Child} (there : s.children[k]? = some (i, child))
    (also : s.children[m]? = some (i, other)) : k = m := by
  by_contra different
  have gone := childrenOf_withoutChild there (inv.single i)
  have mem : other ∈ (s.withoutChild k).childrenOf i := by
    rw [mem_childrenOf]
    exact mem_eraseIdx_iff_getElem?.mpr ⟨m, fun same => different same.symm, also⟩
  rw [gone] at mem
  cases mem

/-- No two children of the daemon are producers of one image, and every child
belongs to the job that its chain has now. -/
def TakesTurns (s : State) : Prop :=
  s.alive = true → (∀ (k m : Nat) (i j : ChainIdx) (p q : Production),
      s.children[k]? = some (i, .producer p) →
      s.children[m]? = some (j, .producer q) → p.image = q.image → k = m) ∧
    ∀ (k : Nat) (i : ChainIdx) (child : Child), s.children[k]? = some (i, child) →
      ∃ slot e, (s.chains i).target = some e.key ∧
        s.table.get slot = some e ∧ (s.chains i).Stage i slot e child

theorem InOrder.takesTurns (inv : s.InOrder) : s.TakesTurns := by
  intro alive
  have disciplined := inv alive
  constructor
  · intro k m i j p q first second same
    have one := mem_of_getElem? first
    have two := mem_of_getElem? second
    rw [← mem_childrenOf] at one two
    have chains := disciplined.oneProducer i j p q one two same
    subst chains
    exact disciplined.position first second
  · intro k i child there
    obtain ⟨slot, e, target, held, stage, _⟩ := disciplined.exits there
    exact ⟨slot, e, target, held, stage⟩

/-- The version that the `k`-th child is about to have recorded was built from the
version that is current now. -/
def BuiltFromCurrent (before : List Event) (k : Nat) : Prop :=
  ∀ (i : ChainIdx) (p : Production) (built : Built),
    (run step initial before).children[k]? = some (i, .producer p) → p.built = some built →
        ∃ earlier later, before = earlier ++ later ∧
          ((run step initial earlier).images p.image).current =
            ((run step initial before).images p.image).current ∧
          imageVersionBuild p ((run step initial earlier).images p.image) =
            ((run step initial before).images p.image, built)

def LeavesOthers (s : State) (event : Event) : Prop :=
  s.alive = true → (s.step event).alive = true →
    ∀ j, ¬ s.mayAct event j → Untouched j s (s.step event)

theorem inOrder_run {events : List Event} (guarded : Guarded step Rules.any.Allows initial events) :
    Throughout step InOrder initial events := by
  have both := Rules.invariant (fun _ => True) (fun _ _ _ _ _ => trivial)
    trivial guarded
  exact both.mono fun _ holds => holds.1

theorem builtFromCurrent_of_member {before : List Event}
    (guarded : Guarded step Rules.any.Allows initial before)
    (alive : (run step initial before).alive = true) {p : Production}
    (mem : .producer p ∈ (run step initial before).childrenOf i)
    (isBuilt : p.built = some built) :
    ∃ earlier later, before = earlier ++ later ∧
      imageVersionBuild p ((run step initial earlier).images p.image) =
        ((run step initial before).images p.image, built) := by
  induction before using List.reverseRecOn with
  | nil => simp [initial, childrenOf] at mem
  | append_singleton before event ih =>
    have allowed := guarded before event [] rfl
    rw [run_snoc] at alive mem ⊢
    cases was : (run step initial before).alive with
    | false =>
      rcases step_of_dead was event with same | ⟨t, _, _, boots⟩
      · rw [same, was] at alive
        cases alive
      · rw [boots] at mem
        simp [booted, childrenOf] at mem
    | true =>
      have disciplined := (inOrder_run guarded.initial).last was
      rcases disciplined.built_step was allowed alive mem isBuilt
        with ⟨wasThere, same⟩ | places
      · obtain ⟨earlier, later, split, builds⟩ := ih guarded.initial was wasThere
        refine ⟨earlier, later ++ [event], by simp [split], ?_⟩
        rw [same]
        exact builds
      · exact ⟨before, [event], rfl, places⟩

end State

def flatStore : World := World.flat "1-1" named_1_1

/-- Two installs into one image.  The build container of `a` disappears and `a`
is cancelled and asked for again, while `x` is fetched; then the producer of
`a` waits for that of `x`. -/
def twoInstalls : List Event :=
  [.install flatStore (.latest "a" false), .install flatStore (.latest "x" false),
    .prepExits 0 flatStore .container, .buildLost 1, .cancel flatStore "a" none,
    .install flatStore (.latest "a" false),
    .prepExits 0 flatStore .container, .prepExits 0 flatStore .container,
    .buildExits 0 flatStore (.staged ["bin/x"]), .buildExits 0 flatStore (.staged ["bin/a"]),
    .places 0, .produceExits 0 flatStore true, .produceExits 0 flatStore true,
    .places 0, .produceExits 0 flatStore true]

theorem State.cancelsOwn_of_container {s : State} {w : World} {name : CStr} (i : ChainIdx)
    (container : ((requestKey name none).bind fun key => (pkgFind key s.table).bind fun entry =>
      entry.2.buildContainer) = some i)
    (target : (s.chains i).target = requestKey name none) (childless : s.childrenOf i = []) :
    s.CancelsOwn (.cancel w name none) := by
  intro key slot e j requested found _ _ named _
  rw [requested, Option.bind_some, found, Option.bind_some, named] at container
  cases container
  exact ⟨target.trans requested, childless⟩

theorem guarded_twoInstalls : Guarded State.step Rules.any.Allows State.initial twoInstalls := by
  refine .cons (Rules.allows_any ?_ trivial) (.cons (Rules.allows_any ?_ trivial)
    (.cons (Rules.allows_any ?_ trivial) (.cons (Rules.allows_any ?_ trivial)
    (.cons (Rules.allows_any ?_ (State.cancelsOwn_of_container
      ⟨0, by decide⟩ ?_ ?_ ?_))
    (.cons (Rules.allows_any ?_ trivial) (.cons (Rules.allows_any ?_ trivial)
    (.cons (Rules.allows_any ?_ trivial) (.cons (Rules.allows_any ?_ trivial)
    (.cons (Rules.allows_any ?_ trivial) (.cons (Rules.allows_any ?_ trivial)
    (.cons (Rules.allows_any ?_ trivial) (.cons (Rules.allows_any ?_ trivial)
    (.cons (Rules.allows_any ?_ trivial) (.cons (Rules.allows_any ?_ trivial)
    (guarded_nil _ _))))))))))))))) <;> decide +kernel

end Cix.Pkg
