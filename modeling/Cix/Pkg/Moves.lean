import Cix.Pkg.Discipline

/-!
# What an event of the daemon is made of

Every event is a sequence of moves, each of which concerns one job: it takes
its turn, is dropped, is taken up, records a version.  The moves that some
property depends on carry a rule, which says what is assumed of them.
-/

namespace Cix.Pkg

open Cix.Lib List Option

variable {p : Production}

structure Rules where
  acts : ChainIdx → Prop
  starts : State → ChainIdx → Name → Prop
  records : State → World → ChainIdx → Production → Built → Prop
  places : State → ChainIdx → Production → Prop
  forgets : State → World → Prop
  boots : State → Table → Prop

def Rules.any : Rules where
  acts := fun _ => True
  starts := fun _ _ _ => True
  records := fun _ _ _ _ _ => True
  places := fun _ _ _ => True
  forgets := fun _ _ => True
  boots := fun _ _ => True

/-- The entry that `start_fetch_for` leaves: an installed one keeps its version and
its list, any other is cleared. -/
inductive Fetched (t : Table) (slot : Nat) (key : Key) (e' : Entry) : Prop
  | kept (o : Entry) (held : t.get slot = some o) (keyed : o.key = key)
      (installed : o.state = .installed) (version : e'.version = o.version)
      (files : e'.files = o.files)
  | fresh (mine : ∀ o, t.get slot = some o → o.key = key)
      (only : ∀ j o, t.get j = some o → o.key = key → j = slot ∧ o.state ≠ .installed)
      (unnamed : e'.named = false) (files : e'.files = [])

variable {t : Table} {e' : Entry}

theorem Fetched.mine {slot : Nat} {key : Key} {o : Entry}
    (fetched : Fetched t slot key e') (held : t.get slot = some o) :
    o.key = key := by
  cases fetched with
  | kept old oldHeld keyed _ _ _ =>
    rw [held] at oldHeld
    cases oldHeld
    exact keyed
  | fresh mine _ _ _ => exact mine o held

def Chain.recording (c : Chain) (e : Entry) (built : Built) : Recording :=
  if c.isDelete then .removed e.key
  else .installed e.key e.version built.files c.fetchResolvedReplaces.str

namespace State

def reported (k : Nat) (i : ChainIdx) (s : State) : State :=
  (s.withoutChild k).setChain i { s.chains i with producer := .none }

/-- A version was recorded, but its package does not get its list: the entry
fails with the list `files`. -/
def spoilt (i : ChainIdx) (slot : Nat) (e : Entry) (built : Built)
    (files : List CStr) (s : State) : State :=
  let c := s.chains i
  let s := (s.setTable (s.table.modify slot fun e =>
    { e with state := .installed })).commit c.image built.version
      (.installed e.key e.version built.files c.fetchResolvedReplaces.str)
  let s := s.setTable (s.table.modify slot fun e => { e with files := files })
  (s.fail slot false).release i

def erased (w : World) (i : ChainIdx) (slot : Nat) (e : Entry)
    (built : Built) (s : State) : State :=
  (((s.setTable (s.table.put slot none)).commit (s.chains i).image
    built.version (.removed e.key)).save w).release i

/-- The `k`-th child of the daemon is a producer that has left a report. -/
structure Reports (s : State) (k : Nat) (i : ChainIdx) (p : Production)
    (built : Built) (slot : Nat) (e : Entry) : Prop where
  alive : s.alive = true
  there : s.children[k]? = some (i, .producer p)
  isBuilt : p.built = some built
  produces : (s.chains i).produceE = some slot
  held : s.table.get slot = some e

inductive Move (rules : Rules) (s : State) : State → Prop
  /-- A job takes its turn. -/
  | turn (i : ChainIdx) (slot : Nat) (e : Entry) (s' : State)
      (acts : rules.acts i)
      (target : (s.chains i).target = some e.key)
      (held : s.table.get slot = some e)
      (works : e.state.inFlight = true ∨ (s.chains i).isDelete = true ∧ e.state = .installed)
      (others : s.Others i slot s') (turn : s'.Turn i slot (s.chains i) e) :
      Move rules s s'
  /-- A job whose package is not in flight is dropped. -/
  | drop (i : ChainIdx) (slot : Nat) (s' : State) (acts : rules.acts i)
      (rests : s.Rests i)
      (others : s.Others i slot s') (table : s'.table = s.table)
      (idle : (s'.chains i).Idle) (gone : s'.childrenOf i = []) :
      Move rules s s'
  /-- A chain without a child is prepared for its next package. -/
  | prime (i : ChainIdx) (c : Chain) (acts : rules.acts i)
      (rests : s.Rests i)
      (childless : s.childrenOf i = [])
      (target : c.target = (s.chains i).target)
      (idle : c.name = none → c.Idle)
      (producer : c.producer = .none) (isDelete : c.isDelete = false) :
      Move rules s (s.setChain i c)
  /-- A fetch starts. -/
  | start (i : ChainIdx) (slot : Nat) (name : Name) (e' : Entry) (s' : State)
      (acts : rules.acts i)
      (rests : s.Rests i) (childless : s.childrenOf i = [])
      (apart : s.Apart i name)
      (rule : rules.starts s i name)
      (others : s.Others i slot s')
      (fetched : Fetched s.table slot ⟨name, (s.chains i).image⟩ e')
      (here : s'.table.get slot = some e')
      (target : (s'.chains i).target = some e'.key)
      (keyed : e'.key = ⟨name, (s.chains i).image⟩)
      (isUpgrade : (s'.chains i).isUpgrade = (s.chains i).isUpgrade)
      (stage : (s'.chains i).Stage i slot e' .fetch)
      (only : s'.childrenOf i = [.fetch]) :
      Move rules s s'
  /-- A fetch could not be started. -/
  | refuse (i : ChainIdx) (slot : Nat) (name : Name) (e' : Entry) (s' : State)
      (acts : rules.acts i)
      (rests : s.Rests i) (childless : s.childrenOf i = [])
      (apart : s.Apart i name)
      (rule : rules.starts s i name)
      (others : s.Others i slot s')
      (fetched : Fetched s.table slot ⟨name, (s.chains i).image⟩ e')
      (here : s'.table.get slot = some e')
      (keyed : e'.key = ⟨name, (s.chains i).image⟩)
      (state : e'.state = if e'.named then .installed else .failed)
      (target : (s'.chains i).target = (s.chains i).target)
      (idle : (s'.chains i).name = none → (s'.chains i).Idle)
      (producer : (s'.chains i).producer = .none)
      (isDelete : (s'.chains i).isDelete = false)
      (gone : s'.childrenOf i = []) :
      Move rules s s'
  /-- The removal of an installed package starts. -/
  | remove (i : ChainIdx) (slot : Nat) (c : Chain) (e e' : Entry)
      (child : Child) (s' : State) (acts : rules.acts i)
      (free : (s.chains i).name = none)
      (apart : ∀ j, (s.chains j).target ≠ some e.key)
      (held : s.table.get slot = some e) (installed : e.state = .installed)
      (target : c.target = some e.key) (isDelete : c.isDelete = true)
      (others : s.Others i slot s') (how : s'.GoesOn i slot c e e' child) :
      Move rules s s'
  /-- A cancel is noted. -/
  | flag (slot : Nat) :
      Move rules s (s.setTable (s.table.modify slot fun e =>
        { e with cancelRequested := true }))
  /-- A build container disappears. -/
  | lose (k : Nat) (i : ChainIdx) (acts : rules.acts i)
      (there : s.children[k]? = some (i, .build)) :
      Move rules s (s.withoutChild k)
  /-- A producer builds its version. -/
  | place (k : Nat) (i : ChainIdx) (p : Production) (acts : rules.acts i)
      (there : s.children[k]? = some (i, .producer p))
      (unbuilt : p.built = none) (rule : rules.places s i p) :
      Move rules s (s.place k i p)
  /-- A version with a package is recorded, and the package has its list. -/
  | settle (k : Nat) (w : World) (i : ChainIdx) (p : Production)
      (built : Built) (slot : Nat) (e : Entry) (acts : rules.acts i)
      (reports : s.Reports k i p built slot e)
      (install : (s.chains i).isDelete = false)
      (rule : rules.records s w i p built)
      (settles : (s.reported k i).settles w i built = true) :
      Move rules s ((s.reported k i).settled w i slot e built)
  /-- A version with a package is recorded, and the package has no list. -/
  | spoil (k : Nat) (w : World) (i : ChainIdx) (p : Production)
      (built : Built) (slot : Nat) (e : Entry) (files : List CStr)
      (acts : rules.acts i)
      (reports : s.Reports k i p built slot e)
      (install : (s.chains i).isDelete = false)
      (rule : rules.records s w i p built)
      (why : w.survives = true ∧ (w.listWhole = false ∨
        (s.reported k i).settles w i built = false)) :
      Move rules s ((s.reported k i).spoilt i slot e built files)
  /-- A version without a package is recorded. -/
  | erase (k : Nat) (w : World) (i : ChainIdx) (p : Production)
      (built : Built) (slot : Nat) (e : Entry) (acts : rules.acts i)
      (reports : s.Reports k i p built slot e)
      (delete : (s.chains i).isDelete = true)
      (rule : rules.records s w i p built) (survives : w.survives = true) :
      Move rules s ((s.reported k i).erased w i slot e built)
  /-- A failed entry is removed. -/
  | forget (w : World) (slot : Nat) (e : Entry) (alive : s.alive = true)
      (apart : ∀ j, (s.chains j).target ≠ some e.key)
      (held : s.table.get slot = some e) (failed : e.state = .failed)
      (rule : rules.forgets s w) :
      Move rules s ((s.setTable (s.table.put slot none)).save w)
  /-- The daemon is killed after it has recorded a version. -/
  | kill (k : Nat) (w : World) (i : ChainIdx) (p : Production)
      (built : Built) (slot : Nat) (e : Entry) (t : Table)
      (reports : s.Reports k i p built slot e)
      (rule : rules.records s w i p built) (killed : w.survives = false) :
      Move rules s ((((s.reported k i).setTable t).commit (s.chains i).image built.version
          ((s.chains i).recording e built)).stopped)
  /-- The daemon stops. -/
  | die (t : Table) : Move rules s (s.setTable t).stopped
  /-- The daemon starts. -/
  | boot (t : Table) (dead : s.alive = false)
      (load : loadState s.file = some t) (rule : rules.boots s t) :
      Move rules s (s.booted t)

variable {rules : Rules} {s s' : State} {i : ChainIdx} {slot : Nat}
  {e : Entry}

theorem Others.reported {k : Nat} {child : Child} (there : s.children[k]? = some (i, child)) :
    s.Others i slot (s.reported k i) :=
  (Others.withoutChild there).trans (Others.setChain _)

section Fields

variable (k : Nat) (w : World) (i : ChainIdx) (slot : Nat) (e : Entry)
  (built : Built) (files : List CStr) (s : State)

theorem reported_of_ne {j : ChainIdx} (other : j ≠ i) : (s.reported k i).chains j = s.chains j :=
  setChain_of_ne _ _ _ other

@[simp]
theorem reported_self : (s.reported k i).chains i = { s.chains i with producer := .none } :=
  setChain_self _ _ _

theorem spoilt_of_ne {j : ChainIdx} (other : j ≠ i) :
    (s.spoilt i slot e built files).chains j = s.chains j :=
  setChain_of_ne _ _ _ other

theorem erased_of_ne {j : ChainIdx} (other : j ≠ i) :
    (s.erased w i slot e built).chains j = s.chains j := by
  rw [erased, release, setChain_of_ne _ _ _ other, save_chains]
  rfl

theorem erased_children : (s.erased w i slot e built).children = s.children := by
  rw [erased, release_children, save_children]
  rfl

theorem erased_table : (s.erased w i slot e built).table = s.table.put slot none := by
  rw [erased, release_table, save_table]
  rfl

theorem erased_images : (s.erased w i slot e built).images =
    Function.update s.images (s.chains i).image
      ((s.images (s.chains i).image).record built.version) := by
  rw [erased]
  exact save_images _ w

theorem erased_file : (s.erased w i slot e built).file =
    if w.saves then some (saveStateText (s.erased w i slot e built).table)
    else s.file := by
  rw [erased_table]
  exact save_file _ w

theorem place_images (p : Production) : (s.place k i p).images =
    Function.update s.images p.image (imageVersionBuild p (s.images p.image)).1 := rfl

theorem spoilt_images : (s.spoilt i slot e built files).images =
    Function.update s.images (s.chains i).image
      ((s.images (s.chains i).image).record built.version) := rfl

theorem spoilt_table : (s.spoilt i slot e built files).table =
    pkgFail slot false ((s.table.modify slot fun e =>
      { e with state := .installed }).modify slot fun e =>
        { e with files := files }) := rfl

end Fields

theorem alike_listed {built : Built} : t.Alike (listed i slot built s t) := by
  have files : t.Alike (t.modify slot fun e =>
      { e with files := built.files }) :=
    Table.Alike.modify fun _ => ⟨rfl, rfl, rfl, rfl⟩
  have closed : ∀ t : Table, t.Alike (t.modify slot fun e =>
      { e with runOpen := false }) :=
    fun t => Table.Alike.modify fun _ => ⟨rfl, rfl, rfl, rfl⟩
  exact (files.trans alike_transferReplacedPaths).trans (closed _)

section Preserved

variable {built : Built}

variable (inv : s.Disciplined)
include inv

theorem Disciplined.apart (target : (s.chains i).target = some e.key)
    (j : ChainIdx) (other : j ≠ i) :
    (s.chains j).target ≠ some e.key :=
  fun same => other (inv.oneJob j i e.key same target)

theorem Disciplined.slot_eq {other : Nat} {o : Entry}
    (held : s.table.get slot = some e) (also : s.table.get other = some o)
    (same : o.key = e.key) : other = slot :=
  inv.distinct other slot o e also held same

theorem Disciplined.alone (held : s.table.get slot = some e)
    (keyed : e'.key = e.key) (j : Nat) (o : Entry) (other : j ≠ slot)
    (oHeld : s.table.get j = some o) : o.key ≠ e'.key := by
  intro same
  exact other (inv.slot_eq held oHeld (same.trans keyed))

theorem Disciplined.turn (target : (s.chains i).target = some e.key)
    (held : s.table.get slot = some e) (others : s.Others i slot s')
    (turn : s'.Turn i slot (s.chains i) e) : s'.Disciplined := by
  have mine : ∀ o, s.table.get slot = some o → ∀ j, j ≠ i → (s.chains j).target ≠ some o.key := by
    intro o oHeld
    rw [held] at oHeld
    cases oHeld
    exact inv.apart target
  have gives : ∀ other o, other ≠ slot → s.table.get other = some o →
      (s.chains i).target = some o.key → o.state.inFlight = true →
        (s'.chains i).target = some o.key := by
    intro other o different oHeld same
    rw [target] at same
    exact absurd (inv.slot_eq held oHeld (some.inj same).symm) different
  cases turn with
  | ended e' keep tried how =>
    have distinct := others.distinct inv.distinct how.here (inv.alone held how.keyed)
    apply inv.frame others distinct mine gives
    constructor
    · intro key same
      rw [Chain.target, how.idle.name] at same
      cases same
    · exact fun _ => how.idle
    · intro o oHeld inFlight
      rw [how.here] at oHeld
      cases oHeld
      rw [how.state] at inFlight
      split_ifs at inFlight
      · cases inFlight
      · cases inFlight
    · exact Or.inl ⟨how.gone, how.idle.producer, how.idle.isDelete⟩
  | goesOn e' child how =>
    have distinct := others.distinct inv.distinct how.here (inv.alone held how.keyed)
    have target' : (s'.chains i).target = some e'.key := by rw [how.target, target, how.keyed]
    apply inv.frame others distinct mine gives
    constructor
    · intro key same j other
      rw [target', how.keyed] at same
      cases same
      rw [others.chains j other]
      exact inv.apart target j other
    · intro unnamed
      rw [Chain.target, unnamed] at target'
      cases target'
    · intro o oHeld _
      rw [how.here] at oHeld
      cases oHeld
      exact ⟨i, target'⟩
    · refine Or.inr ⟨child, e', how.only, how.here, target', how.stage, ?_⟩
      intro p isProducer
      exact (how.forked p isProducer).alone

theorem Disciplined.quiet (others : s.Others i slot s') (table : s'.table = s.table)
    (gives : ∀ index e, s.table.get index = some e →
      (s.chains i).target = some e.key → e.state.inFlight = true →
        (s'.chains i).target = some e.key)
    (target : ∀ key, (s'.chains i).target = some key → (s.chains i).target = some key)
    (idle : (s'.chains i).name = none → (s'.chains i).Idle)
    (gone : s'.childrenOf i = []) (producer : (s'.chains i).producer = .none)
    (isDelete : (s'.chains i).isDelete = false) : s'.Disciplined := by
  -- The frame is that of a slot which the table does not have.
  have wide : s.Others i 1024 s' :=
    { others with
      kept := fun other e _ held =>
        ⟨e, by rw [table]; exact held, Or.inl rfl⟩
      source := fun other e _ held =>
        ⟨e, by rw [← table]; exact held, Or.inl rfl⟩ }
  have beyond : ∀ e : Entry, s.table.get 1024 ≠ some e := by
    intro e held
    exact absurd (Slots.lt_of_get held) (by decide)
  apply inv.frame wide
  · rw [table]
    exact inv.distinct
  · intro o held
    exact absurd held (beyond o)
  · exact fun index e _ => gives index e
  · constructor
    · intro key same j other also
      rw [others.chains j other] at also
      exact other (inv.oneJob j i key also (target key same))
    · exact idle
    · intro e held
      rw [table] at held
      exact absurd held (beyond e)
    · exact Or.inl ⟨gone, producer, isDelete⟩

theorem Disciplined.drop (rests : s.Rests i) (others : s.Others i slot s')
    (table : s'.table = s.table) (idle : (s'.chains i).Idle)
    (gone : s'.childrenOf i = []) : s'.Disciplined := by
  apply inv.quiet others table _ _ (fun _ => idle) gone idle.producer idle.isDelete
  · intro index e held target inFlight
    rw [rests index e held target] at inFlight
    cases inFlight
  · intro key same
    rw [Chain.target, idle.name] at same
    cases same

theorem Disciplined.prime {c : Chain} (rests : s.Rests i) (childless : s.childrenOf i = [])
    (target : c.target = (s.chains i).target)
    (idle : c.name = none → c.Idle)
    (producer : c.producer = .none) (isDelete : c.isDelete = false) :
    (s.setChain i c).Disciplined := by
  have others : s.Others i 0 (s.setChain i c) := Others.setChain c
  apply inv.quiet others rfl
  · intro index e held same inFlight
    rw [rests index e held same] at inFlight
    cases inFlight
  · intro key same
    rw [setChain_self, target] at same
    exact same
  · rw [setChain_self]
    exact idle
  · exact childless
  · rw [setChain_self]
    exact producer
  · rw [setChain_self]
    exact isDelete

theorem Disciplined.lose {k : Nat} (there : s.children[k]? = some (i, .build)) :
    (s.withoutChild k).Disciplined := by
  have mem : Child.build ∈ s.childrenOf i := by
    rw [mem_childrenOf]
    exact mem_of_getElem? there
  obtain ⟨index, e, target, held, install, producer, _⟩ := inv.fits i _ mem
  have others : s.Others i 0 (s.withoutChild k) := Others.withoutChild there
  apply inv.quiet others rfl
  · exact fun _ _ _ same _ => same
  · exact fun _ same => same
  · exact inv.idle i
  · exact childrenOf_withoutChild there (inv.single i)
  · exact producer
  · exact install

theorem Disciplined.distinct_fetched {key : Key} (others : s.Others i slot s')
    (fetched : Fetched s.table slot key e')
    (here : s'.table.get slot = some e') (keyed : e'.key = key) :
    s'.table.Distinct := by
  apply others.distinct inv.distinct here
  intro j o other held same
  rw [keyed] at same
  cases fetched with
  | kept old oldHeld oldKeyed _ _ _ =>
    exact other (inv.slot_eq oldHeld held (same.trans oldKeyed.symm))
  | fresh _ only _ _ => exact other (only j o held same).1

theorem Disciplined.start {name : Name} (rests : s.Rests i)
    (apart : s.Apart i name) (others : s.Others i slot s')
    (fetched : Fetched s.table slot ⟨name, (s.chains i).image⟩ e')
    (here : s'.table.get slot = some e')
    (target : (s'.chains i).target = some e'.key)
    (keyed : e'.key = ⟨name, (s.chains i).image⟩)
    (stage : (s'.chains i).Stage i slot e' .fetch)
    (only : s'.childrenOf i = [.fetch]) : s'.Disciplined := by
  apply inv.frame others (inv.distinct_fetched others fetched here keyed)
  · intro o held j other
    rw [fetched.mine held]
    exact apart j other
  · intro index o _ held same inFlight
    rw [rests index o held same] at inFlight
    cases inFlight
  · constructor
    · intro key same j other
      rw [target, keyed] at same
      cases same
      rw [others.chains j other]
      exact apart j other
    · intro unnamed
      rw [Chain.target, unnamed] at target
      cases target
    · intro o held _
      rw [here] at held
      cases held
      exact ⟨i, target⟩
    · refine Or.inr ⟨.fetch, e', only, here, target, stage, ?_⟩
      intro p impossible
      cases impossible

theorem Disciplined.refuse {name : Name} (rests : s.Rests i)
    (apart : s.Apart i name) (others : s.Others i slot s')
    (fetched : Fetched s.table slot ⟨name, (s.chains i).image⟩ e')
    (here : s'.table.get slot = some e')
    (keyed : e'.key = ⟨name, (s.chains i).image⟩)
    (state : e'.state = if e'.named then .installed else .failed)
    (target : (s'.chains i).target = (s.chains i).target)
    (idle : (s'.chains i).name = none → (s'.chains i).Idle)
    (producer : (s'.chains i).producer = .none)
    (isDelete : (s'.chains i).isDelete = false)
    (gone : s'.childrenOf i = []) : s'.Disciplined := by
  apply inv.frame others (inv.distinct_fetched others fetched here keyed)
  · intro o held j other
    rw [fetched.mine held]
    exact apart j other
  · intro index o _ held same inFlight
    rw [rests index o held same] at inFlight
    cases inFlight
  · constructor
    · intro key same j other also
      rw [target] at same
      rw [others.chains j other] at also
      exact other (inv.oneJob j i key also same)
    · exact idle
    · intro o held inFlight
      rw [here] at held
      cases held
      rw [state] at inFlight
      split_ifs at inFlight
      · cases inFlight
      · cases inFlight
    · exact Or.inl ⟨gone, producer, isDelete⟩

theorem Disciplined.remove {c : Chain} {child : Child}
    (free : (s.chains i).name = none)
    (apart : ∀ j, (s.chains j).target ≠ some e.key)
    (held : s.table.get slot = some e)
    (target : c.target = some e.key)
    (others : s.Others i slot s') (how : s'.GoesOn i slot c e e' child) :
    s'.Disciplined := by
  have target' : (s'.chains i).target = some e'.key := by rw [how.target, target, how.keyed]
  apply inv.frame others (others.distinct inv.distinct how.here (inv.alone held how.keyed))
  · intro o oHeld j _
    rw [held] at oHeld
    cases oHeld
    exact apart j
  · intro index o _ _ same
    rw [Chain.target, free] at same
    cases same
  · constructor
    · intro key same j other
      rw [target', how.keyed] at same
      cases same
      rw [others.chains j other]
      exact apart j
    · intro unnamed
      rw [Chain.target, unnamed] at target'
      cases target'
    · intro o oHeld _
      rw [how.here] at oHeld
      cases oHeld
      exact ⟨i, target'⟩
    · refine Or.inr ⟨child, e', how.only, how.here, target', how.stage, ?_⟩
      intro p isProducer
      exact (how.forked p isProducer).alone

theorem Disciplined.congr (table : s'.table = s.table)
    (chains : s'.chains = s.chains) (children : s'.children = s.children) :
    s'.Disciplined := by
  have childrenOf : ∀ i, s'.childrenOf i = s.childrenOf i := by
    intro i
    rw [State.childrenOf, children, State.childrenOf]
  constructor
  · rw [table]
    exact inv.distinct
  · rw [table]
    exact inv.containers
  · intro i
    rw [childrenOf]
    exact inv.single i
  · intro i
    rw [childrenOf, chains, table]
    exact inv.fits i
  · rw [table, chains]
    exact inv.worked
  · rw [OneJob, chains]
    exact inv.oneJob
  · rw [chains]
    exact inv.idle
  · intro i
    rw [childrenOf, chains]
    exact inv.backed i
  · intro i j
    rw [childrenOf, childrenOf]
    exact inv.oneProducer i j

theorem Disciplined.alike (alike : s.table.Alike t) : (s.setTable t).Disciplined := by
  constructor
  · exact alike.distinct inv.distinct
  · exact alike.containers inv.containers
  · exact inv.single
  · intro i child mem
    obtain ⟨index, e, target, held, stage⟩ := inv.fits i child mem
    obtain ⟨e', held', same⟩ := alike.of_get held
    refine ⟨index, e', ?_, held', ?_⟩
    · rw [setTable_chains, target, same.key]
    · rw [setTable_chains]
      exact stage.core same
  · intro index e' held' inFlight
    obtain ⟨e, held, same⟩ := alike.get_of held'
    rw [same.key]
    apply inv.worked index e held
    rw [← same.state]
    exact inFlight
  · exact inv.oneJob
  · exact inv.idle
  · exact inv.backed
  · exact inv.oneProducer

theorem Disciplined.clear (held : s.table.get slot = some e)
    (apart : ∀ j, (s.chains j).target ≠ some e.key) :
    (s.setTable (s.table.put slot none)).Disciplined := by
  constructor
  · exact inv.distinct.clear
  · exact inv.containers.clear
  · exact inv.single
  · intro i child mem
    obtain ⟨index, o, target, oHeld, stage⟩ := inv.fits i child mem
    refine ⟨index, o, target, ?_, stage⟩
    rw [setTable_table, Slots.get_put_of_ne]
    · exact oHeld
    · intro same
      rw [same, held] at oHeld
      cases oHeld
      exact apart i target
  · intro index o oHeld
    rcases Slots.get_of_get_put oHeld with ⟨_, impossible⟩ | ⟨_, before⟩
    · cases impossible
    · exact inv.worked index o before
  · exact inv.oneJob
  · exact inv.idle
  · exact inv.backed
  · exact inv.oneProducer

theorem Disciplined.place {k : Nat} (there : s.children[k]? = some (i, .producer p)) :
    (s.place k i p).Disciplined := by
  have set : (s.place k i p).children = _ := rfl
  obtain ⟨old, new, rest⟩ := childrenOf_replace there (inv.single i) set
  have mem : Child.producer p ∈ s.childrenOf i := by
    rw [old]
    exact mem_singleton_self _
  -- A producer of the new state is one of the old state, but for its report.
  have source : ∀ j q, Child.producer q ∈ (s.place k i p).childrenOf j →
      ∃ o, Child.producer o ∈ s.childrenOf j ∧ o.image = q.image := by
    intro j q isMember
    by_cases here : j = i
    · subst here
      rw [new, mem_singleton] at isMember
      cases isMember
      exact ⟨p, mem, rfl⟩
    · rw [rest j here] at isMember
      exact ⟨q, isMember, rfl⟩
  constructor
  · exact inv.distinct
  · exact inv.containers
  · intro j
    by_cases here : j = i
    · subst here
      simp [new]
    · rw [rest j here]
      exact inv.single j
  · intro j child isMember
    by_cases here : j = i
    · subst here
      rw [new, mem_singleton] at isMember
      subst isMember
      obtain ⟨index, o, target, held, stage⟩ := inv.fits j _ mem
      exact ⟨index, o, target, held, stage⟩
    · rw [rest j here] at isMember
      exact inv.fits j child isMember
  · exact inv.worked
  · exact inv.oneJob
  · exact inv.idle
  · intro j none
    by_cases here : j = i
    · subst here
      rw [new] at none
      cases none
    · rw [rest j here] at none
      exact inv.backed j none
  · intro a b x y first second same
    obtain ⟨x', xMember, xImage⟩ := source a x first
    obtain ⟨y', yMember, yImage⟩ := source b y second
    apply inv.oneProducer a b x' y' xMember yMember
    rw [xImage, yImage, same]

theorem Disciplined.reports {k : Nat} {p : Production} {built : Built}
    (reports : s.Reports k i p built slot e) :
    (s.chains i).target = some e.key ∧ (s.chains i).Stage i slot e (.producer p) ∧
      s.childrenOf i = [.producer p] := by
  have set : (s.place k i p).children = _ := rfl
  obtain ⟨only, _, _⟩ := childrenOf_replace reports.there (inv.single i) set
  have mem : Child.producer p ∈ s.childrenOf i := by
    rw [only]
    exact mem_singleton_self _
  obtain ⟨index, o, target, held, stage⟩ := inv.fits i _ mem
  have here : index = slot := by
    have produces := stage.2.1
    rw [reports.produces] at produces
    exact (some.inj produces).symm
  subst here
  rw [reports.held] at held
  cases held
  exact ⟨target, stage, only⟩

/-- A producer's exit that leaves the package in the state `e'`, with the
chain kept or released. -/
theorem Disciplined.produced {k : Nat} {c : Chain}
    (reports : s.Reports k i p built slot e)
    (same : ∀ other, other ≠ slot → t.get other = s.table.get other)
    (containers : s.table.Containers → t.Containers)
    (mine : ∀ e', t.get slot = some e' → e'.key = e.key ∧ e'.state.inFlight = false)
    (target : c.target = none ∨ c.target = (s.chains i).target)
    (idle : c.name = none → c.Idle) (producer : c.producer = .none)
    (isDelete : c.isDelete = false) :
    (((s.withoutChild k).setTable t).setChain i c).Disciplined := by
  obtain ⟨isTarget, _, _⟩ := inv.reports reports
  have gone := childrenOf_withoutChild reports.there (inv.single i)
  have others : s.Others i slot (((s.withoutChild k).setTable t).setChain i c) :=
    (Others.withoutChild reports.there).trans
      ((Others.setSlot (s := s.withoutChild k) same containers).trans (Others.setChain c))
  have distinct : t.Distinct := by
    intro a b x y first second equal
    have before : ∀ m z, t.get m = some z → ∃ o, s.table.get m = some o ∧ o.key = z.key := by
      intro m z found
      by_cases here : m = slot
      · subst here
        exact ⟨e, reports.held, (mine z found).1.symm⟩
      · exact ⟨z, (same m here).symm.trans found, rfl⟩
    obtain ⟨x', xHeld, xKey⟩ := before a x first
    obtain ⟨y', yHeld, yKey⟩ := before b y second
    apply inv.distinct a b x' y' xHeld yHeld
    rw [xKey, yKey, equal]
  apply inv.frame others distinct
  · intro o held
    rw [reports.held] at held
    cases held
    exact inv.apart isTarget
  · intro index o other held isOurs
    rw [isTarget] at isOurs
    exact absurd (inv.slot_eq reports.held held (some.inj isOurs).symm) other
  · constructor
    · intro key isKey j other also
      rw [setChain_self] at isKey
      rw [others.chains j other] at also
      rcases target with none | kept
      · rw [none] at isKey
        cases isKey
      · rw [kept] at isKey
        exact other (inv.oneJob j i key also isKey)
    · rw [setChain_self]
      exact idle
    · intro o held inFlight
      rw [(mine o held).2] at inFlight
      cases inFlight
    · rw [setChain_self]
      exact Or.inl ⟨gone, producer, isDelete⟩

theorem Disciplined.settle {k : Nat} {w : World} (reports : s.Reports k i p built slot e)
    (install : (s.chains i).isDelete = false) :
    ((s.reported k i).settled w i slot e built).Disciplined := by
  obtain ⟨target, _, _⟩ := inv.reports reports
  have before : (((s.withoutChild k).setTable (s.table.modify slot
      fun e => { e with state := .installed })).setChain i
        { s.chains i with producer := .none }).Disciplined := by
    apply inv.produced reports
    · exact fun other different => get_modify_of_ne different
    · exact fun containers => containers.modify fun _ => rfl
    · intro e' held
      rw [get_modify_self _ reports.held] at held
      cases held
      exact ⟨rfl, rfl⟩
    · exact Or.inr rfl
    · intro unnamed
      rw [Chain.target, unnamed] at target
      cases target
    · rfl
    · exact install
  apply (before.alike (alike_listed (s := s.reported k i))).congr
  · rw [settled_table]
    rfl
  · rw [settled_chains]
    rfl
  · rw [settled_children]
    rfl

theorem Disciplined.spoil {k : Nat} {files : List CStr} (reports : s.Reports k i p built slot e) :
    ((s.reported k i).spoilt i slot e built files).Disciplined := by
  have before : (((s.withoutChild k).setTable (pkgFail slot false
      ((s.table.modify slot fun e => { e with state := .installed }).modify
        slot fun e => { e with files := files }))).setChain i
          (s.chains i).released).Disciplined := by
    apply inv.produced reports
    · intro other different
      rw [pkgFail, get_modify_of_ne different, get_modify_of_ne different,
        get_modify_of_ne different]
    · intro containers
      have settled : Table.Containers (s.table.modify slot fun e =>
          { e with state := .installed }) :=
        containers.modify fun _ => rfl
      have listed : Table.Containers ((s.table.modify slot fun e =>
          { e with state := .installed }).modify slot fun e =>
            { e with files := files }) :=
        settled.modify fun _ => rfl
      exact listed.modify fun _ => rfl
    · intro e' held
      have settled := get_modify_self (fun e : Entry =>
        { e with state := .installed }) reports.held
      have listed := get_modify_self (fun e : Entry =>
        { e with files := files }) settled
      rw [pkgFail, get_modify_self _ listed] at held
      cases held
      exact ⟨rfl, rfl⟩
    · exact Or.inl rfl
    · exact fun _ => released_idle _
    · rfl
    · rfl
  apply before.congr
  · simp [spoilt, reported]
  · funext j
    by_cases here : j = i
    · subst here
      simp [spoilt, reported, Chain.released]
    · simp [spoilt, reported, release, setChain, here]
  · rfl

theorem Disciplined.erase {k : Nat} {w : World} (reports : s.Reports k i p built slot e) :
    ((s.reported k i).erased w i slot e built).Disciplined := by
  have before : (((s.withoutChild k).setTable (s.table.put slot
      none)).setChain i (s.chains i).released).Disciplined := by
    apply inv.produced reports
    · exact fun other different => Slots.get_put_of_ne different
    · exact fun containers => containers.clear
    · intro e' held
      rcases Slots.get_of_get_put held with ⟨_, impossible⟩ | ⟨other, _⟩
      · cases impossible
      · exact absurd rfl other
    · exact Or.inl rfl
    · exact fun _ => released_idle _
    · rfl
    · rfl
  apply before.congr
  · simp only [erased, save, reported]
    split_ifs <;> simp
  · funext j
    by_cases here : j = i
    · subst here
      simp only [erased, save, reported]
      split_ifs <;> simp [Chain.released]
    · simp only [erased, save, reported]
      split_ifs <;> simp [release, setChain, here]
  · simp only [erased, save, reported]
    split_ifs <;> rfl

end Preserved

theorem disciplined_booted
    (load : loadState s.file = some t) : (s.booted t).Disciplined := by
  have installed : ∀ {i e}, t.get i = some e → e.state = .installed ∧
      e.buildContainer = none := fun held => installed_loadState load held
  constructor
  · exact distinct_loadState load
  · intro i j a b first _ named
    exact absurd (installed first).2 named
  · intro i
    simp [booted, childrenOf]
  · intro i child mem
    simp [booted, childrenOf] at mem
  · intro index e held inFlight
    rw [(installed held).1] at inFlight
    cases inFlight
  · intro i j key target
    simp [booted, Chain.unused, Chain.target] at target
  · exact fun i _ => ⟨rfl, rfl, rfl⟩
  · exact fun i _ => ⟨rfl, rfl⟩
  · intro i j p q mem
    simp [booted, childrenOf] at mem

theorem Disciplined.move (inv : s.Disciplined) (move : Move rules s s')
    (alive' : s'.alive = true) : s'.Disciplined := by
  cases move with
  | turn i slot e s' acts target held works others turn =>
    exact inv.turn target held others turn
  | drop i slot s' acts rests others table idle gone =>
    exact inv.drop rests others table idle gone
  | prime i c acts rests childless target idle producer isDelete =>
    exact inv.prime rests childless target idle producer isDelete
  | start i slot name e' s' acts rests childless apart rule others fetched
      here target keyed isUpgrade stage only =>
      exact inv.start rests apart others fetched here target keyed stage only
  | refuse i slot name e' s' acts rests childless apart rule others fetched
      here keyed state target idle producer isDelete gone =>
      exact inv.refuse rests apart others fetched here keyed state target
        idle producer isDelete gone
  | remove i slot c e e' child s' acts free apart held installed target
      isDelete others how =>
      exact inv.remove free apart held target others how
  | flag slot =>
    apply inv.alike
    exact Table.Alike.modify fun _ => ⟨rfl, rfl, rfl, rfl⟩
  | lose k i acts there => exact inv.lose there
  | place k i p acts there unbuilt rule => exact inv.place there
  | settle k w i p built slot e acts reports install rule settles =>
    exact inv.settle reports install
  | spoil k w i p built slot e files acts reports install rule why =>
    exact inv.spoil reports
  | erase k w i p built slot e acts reports delete rule survives =>
    exact inv.erase reports
  | forget w slot e alive apart held failed rule =>
    apply (inv.clear held apart).congr
    · exact save_table _ w
    · exact save_chains _ w
    · exact save_children _ w
  | kill k w i p built slot e t reports rule killed => cases alive'
  | die t => cases alive'
  | boot t dead load rule => exact disciplined_booted load

end State

end Cix.Pkg
