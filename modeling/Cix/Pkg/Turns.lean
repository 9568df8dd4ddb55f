import Cix.Pkg.Jobs

/-!
# What an event can do to a job

Every completion function works on one chain and on the entry of one package.
It leaves the other chains, their children and the other entries as they are
(`Others`), and it either ends the job or takes it to its next stage (`Turn`).
-/

namespace Cix.Pkg

open Cix.Lib List Option

namespace State

variable (s : State) (i : ChainIdx) (c : Chain) (t : Table) (slot : Nat)
  (keep : Bool) (child : Child) (k : Nat) (w : World)

@[simp]
theorem setChain_self : (s.setChain i c).chains i = c := by
  simp [setChain]

theorem setChain_of_ne {j : ChainIdx} (other : j ≠ i) : (s.setChain i c).chains j = s.chains j := by
  simp [setChain, other]

@[simp]
theorem setChain_table : (s.setChain i c).table = s.table := rfl

@[simp]
theorem setChain_children : (s.setChain i c).children = s.children := rfl

@[simp]
theorem setTable_table : (s.setTable t).table = t := rfl

@[simp]
theorem setTable_chains : (s.setTable t).chains = s.chains := rfl

@[simp]
theorem setTable_children : (s.setTable t).children = s.children := rfl

@[simp]
theorem setTable_images : (s.setTable t).images = s.images := rfl

@[simp]
theorem release_self : (s.release i).chains i = (s.chains i).released :=
  setChain_self s i _

@[simp]
theorem release_table : (s.release i).table = s.table := rfl

@[simp]
theorem release_children : (s.release i).children = s.children := rfl

@[simp]
theorem fail_table : (s.fail slot keep).table = pkgFail slot keep s.table := rfl

@[simp]
theorem fail_chains : (s.fail slot keep).chains = s.chains := rfl

@[simp]
theorem fail_children : (s.fail slot keep).children = s.children := rfl

@[simp]
theorem spawn_table : (s.spawn i child).table = s.table := rfl

@[simp]
theorem spawn_chains : (s.spawn i child).chains = s.chains := rfl

@[simp]
theorem spawn_children : (s.spawn i child).children = s.children ++ [(i, child)] := rfl

@[simp]
theorem commit_chains (image : Name) (version : CStr) (what : Recording) :
    (s.commit image version what).chains = s.chains := rfl

@[simp]
theorem commit_table (image : Name) (version : CStr) (what : Recording) :
    (s.commit image version what).table = s.table := rfl

@[simp]
theorem commit_children (image : Name) (version : CStr) (what : Recording) :
    (s.commit image version what).children = s.children := rfl

@[simp]
theorem currentPaths_commit (image : Name) (version : CStr) (what : Recording) :
    ((s.commit image version what).images image).currentPaths = (s.images image).paths version := by
  simp [commit, Image.record, Image.currentPaths, Image.paths]

@[simp]
theorem withoutChild_table : (s.withoutChild k).table = s.table := rfl

@[simp]
theorem withoutChild_chains : (s.withoutChild k).chains = s.chains := rfl

@[simp]
theorem save_table : (s.save w).table = s.table := by
  rw [save]
  split_ifs <;> rfl

@[simp]
theorem save_chains : (s.save w).chains = s.chains := by
  rw [save]
  split_ifs <;> rfl

@[simp]
theorem save_children : (s.save w).children = s.children := by
  rw [save]
  split_ifs <;> rfl

@[simp]
theorem save_images : (s.save w).images = s.images := by
  rw [save]
  split_ifs <;> rfl

theorem save_file : (s.save w).file =
    if w.saves then some (saveStateText s.table) else s.file := by
  rw [save]
  split_ifs <;> rfl

/-- The child, if it is one of chain `i`. -/
def childOf (child : ChainIdx × Child) : Option Child :=
  if child.1 = i then some child.2 else none

def childrenOf : List Child :=
  s.children.filterMap (childOf i)

@[simp]
theorem mem_childrenOf : child ∈ s.childrenOf i ↔ (i, child) ∈ s.children := by
  simp only [childrenOf, childOf, mem_filterMap, Prod.exists]
  constructor
  · rintro ⟨j, other, mem, same⟩
    split_ifs at same with here
    cases same
    rw [← here]
    exact mem
  · intro mem
    exact ⟨i, child, mem, if_pos rfl⟩

@[simp]
theorem childrenOf_setChain (j : ChainIdx) : (s.setChain j c).childrenOf i = s.childrenOf i := rfl

@[simp]
theorem childrenOf_setTable : (s.setTable t).childrenOf i = s.childrenOf i :=
  rfl

@[simp]
theorem childrenOf_release (j : ChainIdx) : (s.release j).childrenOf i = s.childrenOf i := rfl

@[simp]
theorem childrenOf_fail : (s.fail slot keep).childrenOf i = s.childrenOf i := rfl

@[simp]
theorem childrenOf_spawn : (s.spawn i child).childrenOf i = s.childrenOf i ++ [child] := by
  simp [childrenOf, childOf]

theorem childrenOf_spawn_of_ne {j : ChainIdx} (other : j ≠ i) :
    (s.spawn i child).childrenOf j = s.childrenOf j := by
  simp [childrenOf, childOf, other.symm]

variable {s i child k} in
theorem childrenOf_split (there : s.children[k]? = some (i, child))
    (j : ChainIdx) : ∃ before after, s.childrenOf j =
        before ++ (if i = j then [child] else []) ++ after ∧
      (s.withoutChild k).childrenOf j = before ++ after := by
  obtain ⟨inside, here⟩ := List.getElem?_eq_some_iff.mp there
  have whole : s.children = s.children.take k ++ (i, child) :: s.children.drop (k + 1) := by
    rw [← here, getElem_cons_drop, take_append_drop]
  refine ⟨(s.children.take k).filterMap (childOf j),
    (s.children.drop (k + 1)).filterMap (childOf j), ?_, ?_⟩
  · rw [childrenOf]
    conv_lhs => rw [whole]
    rw [filterMap_append, filterMap_cons, childOf]
    split_ifs <;> simp
  · rw [childrenOf, withoutChild]
    simp only [eraseIdx_eq_take_drop_succ, filterMap_append]

variable {s i child k} in
theorem childrenOf_replace (there : s.children[k]? = some (i, child))
    (single : (s.childrenOf i).length ≤ 1) {s' : State} {new : Child}
    (set : s'.children = s.children.set k (i, new)) :
    s.childrenOf i = [child] ∧ s'.childrenOf i = [new] ∧
      ∀ j, j ≠ i → s'.childrenOf j = s.childrenOf j := by
  obtain ⟨inside, here⟩ := List.getElem?_eq_some_iff.mp there
  have whole : s.children = s.children.take k ++ (i, child) :: s.children.drop (k + 1) := by
    rw [← here, getElem_cons_drop, take_append_drop]
  have whole' : s'.children = s.children.take k ++ (i, new) :: s.children.drop (k + 1) := by
    rw [set, set_eq_take_append_cons_drop, if_pos inside]
  have before : ∀ j, s.childrenOf j = (s.children.take k).filterMap (childOf j) ++
        ((if i = j then [child] else []) ++ (s.children.drop (k + 1)).filterMap (childOf j)) := by
    intro j
    rw [childrenOf]
    conv_lhs => rw [whole]
    rw [filterMap_append, filterMap_cons, childOf]
    split_ifs <;> simp
  have after : ∀ j, s'.childrenOf j = (s.children.take k).filterMap (childOf j) ++
        ((if i = j then [new] else []) ++ (s.children.drop (k + 1)).filterMap (childOf j)) := by
    intro j
    rw [childrenOf, whole', filterMap_append, filterMap_cons, childOf]
    split_ifs <;> simp
  rw [before i, if_pos rfl] at single
  simp only [length_append, length_singleton] at single
  have first : (s.children.take k).filterMap (childOf i) = [] := by
    apply eq_nil_of_length_eq_zero
    omega
  have last : (s.children.drop (k + 1)).filterMap (childOf i) = [] := by
    apply eq_nil_of_length_eq_zero
    omega
  refine ⟨?_, ?_, ?_⟩
  · rw [before i, if_pos rfl, first, last]
    rfl
  · rw [after i, if_pos rfl, first, last]
    rfl
  · intro j other
    rw [before j, after j, if_neg other.symm, if_neg other.symm]

variable {s i child k} in
theorem childrenOf_withoutChild (there : s.children[k]? = some (i, child))
    (single : (s.childrenOf i).length ≤ 1) :
    (s.withoutChild k).childrenOf i = [] := by
  obtain ⟨before, after, split, rest⟩ := childrenOf_split there i
  rw [split, if_pos rfl] at single
  simp only [length_append, length_singleton] at single
  rw [rest, append_eq_nil_iff]
  constructor
  · apply eq_nil_of_length_eq_zero
    omega
  · apply eq_nil_of_length_eq_zero
    omega

variable {s i child k} in
theorem childrenOf_withoutChild_of_ne (there : s.children[k]? = some (i, child)) {j : ChainIdx}
    (other : j ≠ i) : (s.withoutChild k).childrenOf j = s.childrenOf j := by
  obtain ⟨before, after, split, rest⟩ := childrenOf_split there j
  rw [split, rest, if_neg other.symm, append_nil]

variable {s} in
theorem step_of_alive (alive : s.alive = true) (event : Event) : s.step event = s.handle event := by
  simp [step, alive]

variable {s} in
theorem step_of_dead (dead : s.alive = false) (event : Event) : s.step event = s ∨
      ∃ t, event = .restart ∧ loadState s.file = some t ∧ s.step event = s.booted t := by
  simp only [step, dead, Bool.false_eq_true, if_false]
  split
  · rename_i t load
    exact Or.inr ⟨t, rfl, load, rfl⟩
  · exact Or.inl rfl

end State

structure Chain.Idle (c : Chain) : Prop where
  name : c.name = none
  producer : c.producer = .none
  isDelete : c.isDelete = false

def Chain.standing (c : Chain) (e : Entry) : BoundedStr 64 :=
  if c.producer = .none ∨ c.isDelete = true then e.version
  else c.producePrevVersion

def Chain.workState (c : Chain) : EntryState :=
  if c.isDelete then .installed else .building

def Chain.mutation (c : Chain) : Mutation :=
  if c.isDelete then .delete else .install c.isUpgrade c.staged

/-- The chain, its entry `e` in slot `slot` and its child fit together. -/
def Chain.Stage (c : Chain) (i : ChainIdx) (slot : Nat) (e : Entry) : Child → Prop
  | .fetch =>
    c.isDelete = false ∧ c.producer = .none ∧ e.state = .fetching ∧
      c.fetchResolvedVersion.str.length ≠ 0
  | .prepare =>
    c.isDelete = false ∧ c.producer = .none ∧ e.state = .fetching ∧
      c.fetchResolvedVersion.str.length ≠ 0 ∧ e.buildContainer = some i
  | .build =>
    c.isDelete = false ∧ c.producer = .none ∧ e.state = .building ∧
      c.fetchResolvedVersion.str.length ≠ 0 ∧ e.buildContainer = some i
  | .waiter =>
    c.producer = .waiting ∧ c.produceE = some slot ∧
      e.state = c.workState ∧ (c.isDelete = false → e.named = true)
  | .producer p =>
    c.producer = .producing ∧ c.produceE = some slot ∧
      e.state = c.workState ∧ (c.isDelete = false → e.named = true) ∧
      p.slot = slot ∧ p.image = c.image ∧ p.mutation = c.mutation

/-- The entry is as it was, but it may have lost the name of the build
container of chain `i`. -/
def Entry.Like (i : ChainIdx) (e e' : Entry) : Prop :=
  e' = e ∨ (e.buildContainer = some i ∧ e' = { e with buildContainer := none })

namespace Entry.Like

variable {i : ChainIdx} {e e' : Entry}

theorem key (like : e.Like i e') : e'.key = e.key := by
  rcases like with rfl | ⟨_, rfl⟩ <;> rfl

theorem state (like : e.Like i e') : e'.state = e.state := by
  rcases like with rfl | ⟨_, rfl⟩ <;> rfl

theorem version (like : e.Like i e') : e'.version = e.version := by
  rcases like with rfl | ⟨_, rfl⟩ <;> rfl

theorem files (like : e.Like i e') : e'.files = e.files := by
  rcases like with rfl | ⟨_, rfl⟩ <;> rfl

theorem container (like : e.Like i e') {j : ChainIdx} (other : j ≠ i)
    (named : e.buildContainer = some j) : e'.buildContainer = some j := by
  rcases like with rfl | ⟨taken, _⟩
  · exact named
  · rw [taken] at named
    exact absurd (some.inj named).symm other

theorem trans {e'' : Entry} (first : e.Like i e') (second : e'.Like i e'') :
    e.Like i e'' := by
  rcases first with rfl | ⟨taken, rfl⟩
  · exact second
  · rcases second with rfl | ⟨impossible, _⟩
    · exact Or.inr ⟨taken, rfl⟩
    · cases impossible

end Entry.Like

/-- Other chains, their children and other slots are as they were, and nothing is
written to disk. -/
structure State.Others (i : ChainIdx) (slot : Nat) (s s' : State) : Prop where
  chains : ∀ j, j ≠ i → s'.chains j = s.chains j
  children : ∀ j, j ≠ i → s'.childrenOf j = s.childrenOf j
  kept : ∀ other e, other ≠ slot → s.table.get other = some e →
    ∃ e', s'.table.get other = some e' ∧ e.Like i e'
  source : ∀ other e', other ≠ slot → s'.table.get other = some e' →
    ∃ e, s.table.get other = some e ∧ e.Like i e'
  containers : s.table.Containers → s'.table.Containers
  alive : s'.alive = s.alive
  images : s'.images = s.images
  file : s'.file = s.file
  recorded : s'.recorded = s.recorded

namespace State.Others

variable {i : ChainIdx} {slot : Nat} {s s' s'' : State}

theorem refl (i : ChainIdx) (slot : Nat) (s : State) : Others i slot s s where
  chains := fun _ _ => rfl
  children := fun _ _ => rfl
  kept := fun _ e _ held => ⟨e, held, Or.inl rfl⟩
  source := fun _ e _ held => ⟨e, held, Or.inl rfl⟩
  containers := id
  alive := rfl
  images := rfl
  file := rfl
  recorded := rfl

theorem trans (first : Others i slot s s') (second : Others i slot s' s'') :
    Others i slot s s'' where
  chains := fun j other => by
    rw [second.chains j other, first.chains j other]
  children := fun j other => by
    rw [second.children j other, first.children j other]
  kept := by
    intro other e different held
    obtain ⟨e', middle, like⟩ := first.kept other e different held
    obtain ⟨e'', after, alsoLike⟩ := second.kept other e' different middle
    exact ⟨e'', after, like.trans alsoLike⟩
  source := by
    intro other e'' different held
    obtain ⟨e', middle, like⟩ := second.source other e'' different held
    obtain ⟨e, before, alsoLike⟩ := first.source other e' different middle
    exact ⟨e, before, alsoLike.trans like⟩
  containers := fun before => second.containers (first.containers before)
  alive := second.alive.trans first.alive
  images := second.images.trans first.images
  file := second.file.trans first.file
  recorded := second.recorded.trans first.recorded

theorem setChain (c : Chain) : Others i slot s (s.setChain i c) :=
  { refl i slot s with
    chains := fun _ other => State.setChain_of_ne s i c other }

theorem release : Others i slot s (s.release i) :=
  setChain _

theorem spawn (child : Child) : Others i slot s (s.spawn i child) :=
  { refl i slot s with
    children := fun _ other => State.childrenOf_spawn_of_ne s i child other }

theorem withoutChild {k : Nat} {child : Child} (there : s.children[k]? = some (i, child)) :
    Others i slot s (s.withoutChild k) :=
  { refl i slot s with
    children := fun _ other => childrenOf_withoutChild_of_ne there other }

theorem setSlot {t : Table} (same : ∀ other, other ≠ slot → t.get other = s.table.get other)
    (containers : s.table.Containers → t.Containers) :
    Others i slot s (s.setTable t) :=
  { refl i slot s with
    kept := fun other e different held =>
      ⟨e, (same other different).trans held, Or.inl rfl⟩
    source := fun other e different held =>
      ⟨e, (same other different).symm.trans held, Or.inl rfl⟩
    containers := containers }

theorem modify {change : Entry → Entry}
    (keeps : ∀ e, (change e).buildContainer = e.buildContainer) :
    Others i slot s (s.setTable (s.table.modify slot change)) :=
  setSlot (fun _ different => get_modify_of_ne different)
    (fun containers => containers.modify keeps)

theorem fail {keep : Bool} : Others i slot s (s.fail slot keep) :=
  modify fun _ => rfl

theorem put {e : Entry} (mine : e.buildContainer = none ∨ ∃ o, s.table.get slot = some o ∧
      o.buildContainer = e.buildContainer) :
    Others i slot s (s.setTable (s.table.put slot (some e))) :=
  setSlot (fun _ different => Slots.get_put_of_ne different) (fun containers => containers.put mine)

theorem distinct (others : Others i slot s s') (before : s.table.Distinct)
    {e' : Entry} (here : s'.table.get slot = some e')
    (alone : ∀ j o, j ≠ slot → s.table.get j = some o → o.key ≠ e'.key) :
    s'.table.Distinct := by
  intro j k a b first second equal
  by_cases jHere : j = slot
  · by_cases kHere : k = slot
    · rw [jHere, kHere]
    · obtain ⟨o, was, like⟩ := others.source k b kHere second
      rw [jHere, here] at first
      cases first
      exact absurd (like.key.symm.trans equal.symm) (alone k o kHere was)
  · obtain ⟨o, was, like⟩ := others.source j a jHere first
    by_cases kHere : k = slot
    · rw [kHere, here] at second
      cases second
      exact absurd (like.key.symm.trans equal) (alone j o jHere was)
    · obtain ⟨q, wasToo, alsoLike⟩ := others.source k b kHere second
      apply before j k o q was wasToo
      rw [← like.key, ← alsoLike.key, equal]

end State.Others

namespace State

variable {i : ChainIdx} {slot : Nat} {t : Table} {e : Entry}

theorem get_takeBuildContainer (j : Nat) :
    (takeBuildContainer i slot t).get j = (t.get j).map fun e =>
      if j = slot then { e with buildContainer := some i }
      else if e.buildContainer = some i then
        { e with buildContainer := none }
      else e := by
  rw [takeBuildContainer, Slots.get_adjust]

theorem get_takeBuildContainer_self (held : t.get slot = some e) :
    (takeBuildContainer i slot t).get slot = some { e with buildContainer := some i } := by
  rw [get_takeBuildContainer, held, map_some, if_pos rfl]

theorem like_takeBuildContainer {j : Nat} (other : j ≠ slot) (e : Entry) :
    e.Like i (if j = slot then { e with buildContainer := some i }
      else if e.buildContainer = some i then
        { e with buildContainer := none }
      else e) := by
  rw [if_neg other]
  split_ifs with taken
  · exact Or.inr ⟨taken, rfl⟩
  · exact Or.inl rfl

theorem containers_takeBuildContainer (containers : t.Containers) :
    (takeBuildContainer i slot t).Containers := by
  -- The container of chain `i` is named by slot `slot` alone; every other
  -- name was there before.
  have before : ∀ k a, (takeBuildContainer i slot t).get k = some a →
      (k = slot ∧ a.buildContainer = some i) ∨ (k ≠ slot ∧ a.buildContainer ≠ some i ∧
          (a.buildContainer ≠ none → ∃ e, t.get k = some e ∧
            e.buildContainer = a.buildContainer)) := by
    intro k a held
    rw [get_takeBuildContainer] at held
    obtain ⟨e, here, rfl⟩ := map_eq_some_iff.mp held
    by_cases same : k = slot
    · rw [if_pos same]
      exact Or.inl ⟨same, rfl⟩
    · rw [if_neg same]
      refine Or.inr ⟨same, ?_⟩
      split_ifs with taken
      · exact ⟨by simp, fun named => absurd rfl named⟩
      · exact ⟨taken, fun _ => ⟨e, here, rfl⟩⟩
  intro a b x y first second named same
  rcases before a x first with ⟨aHere, aNamed⟩ | ⟨_, aOther, aBefore⟩
  · rcases before b y second with ⟨bHere, _⟩ | ⟨_, bOther, _⟩
    · rw [aHere, bHere]
    · rw [← same, aNamed] at bOther
      exact absurd rfl bOther
  · rcases before b y second with ⟨_, bNamed⟩ | ⟨_, _, bBefore⟩
    · rw [same, bNamed] at aOther
      exact absurd rfl aOther
    · obtain ⟨e, eHeld, eSame⟩ := aBefore named
      obtain ⟨f, fHeld, fSame⟩ := bBefore (by rwa [← same])
      apply containers a b e f eHeld fHeld
      · rw [eSame]
        exact named
      · rw [eSame, fSame, same]

theorem Others.take {s : State} :
    Others i slot s (s.setTable (takeBuildContainer i slot s.table)) :=
  { Others.refl i slot s with
    kept := by
      intro j o elsewhere held
      refine ⟨_, ?_, like_takeBuildContainer elsewhere o⟩
      rw [setTable_table, get_takeBuildContainer, held, map_some]
    source := by
      intro j o elsewhere held
      rw [setTable_table, get_takeBuildContainer] at held
      obtain ⟨old, before, rfl⟩ := map_eq_some_iff.mp held
      exact ⟨old, before, like_takeBuildContainer elsewhere old⟩
    containers := containers_takeBuildContainer }

theorem findByBuildContainer_of (containers : t.Containers)
    (held : t.get slot = some e) (named : e.buildContainer = some i) :
    findByBuildContainer i t = some (slot, e) := by
  apply Slots.find_of_unique held (decide_eq_true named)
  intro j other otherHeld test
  have otherNamed : other.buildContainer = some i := of_decide_eq_true test
  apply containers j slot other e otherHeld held
  · rw [otherNamed]
    simp
  · rw [otherNamed, named]

end State

/-- What a producer of an install knows: the daemon's table, and that no other chain
is producing a version of the image. -/
structure State.Forked (s : State) (i : ChainIdx) (slot : Nat)
    (p : Production) : Prop where
  memory : p.memory = s.table
  unbuilt : p.built = none
  alone : ∀ j, j ≠ i → (s.chains j).producer = .producing → (s.chains j).image ≠ p.image
  gate : (s.chains i).isDelete = false → ∃ hit, pathOwnerGate hit p.memory
    slot p.image (s.chains i).staged
    (s.chains i).fetchResolvedReplaces.str = false

section Turns

variable (i : ChainIdx) (slot : Nat) (c : Chain) (e : Entry) (s : State)

/-- The job of chain `c` and entry `e` has ended. The attempt had the version
`tried`; `keep` says whether it asked to keep the install. -/
structure State.Ended (e' : Entry) (keep : Bool) (tried : BoundedStr 64) :
    Prop where
  here : s.table.get slot = some e'
  keyed : e'.key = e.key
  listed : e'.files = e.files
  install : c.isDelete = false
  tries : tried = e.version ∨ tried.str.length ≠ 0
  reason : keep = c.isUpgrade ∨ (keep = e.named ∧ tried = e.version ∧ c.producer = .none)
  state : e'.state =
    if keep && decide (tried.str.length ≠ 0) then .installed else .failed
  version : e'.version =
    if keep && decide ((c.standing e).str.length ≠ 0) then c.standing e
    else tried
  idle : (s.chains i).Idle
  gone : s.childrenOf i = []

/-- The job that had chain `c` and entry `e` in slot `slot` goes on with one
child. -/
structure State.GoesOn (e' : Entry) (child : Child) : Prop where
  here : s.table.get slot = some e'
  keyed : e'.key = e.key
  listed : e'.files = e.files
  target : (s.chains i).target = c.target
  isUpgrade : (s.chains i).isUpgrade = c.isUpgrade
  isDelete : (s.chains i).isDelete = c.isDelete
  stage : (s.chains i).Stage i slot e' child
  standing : (s.chains i).standing e' = c.standing e
  version : (s.chains i).producer = .none → e'.version = e.version
  named : e'.version = e.version ∨ e'.named = true
  only : s.childrenOf i = [child]
  forked : ∀ p, child = .producer p → s.Forked i slot p

inductive State.Turn : Prop
  | ended (e' : Entry) (keep : Bool) (tried : BoundedStr 64)
      (how : s.Ended i slot c e e' keep tried)
  | goesOn (e' : Entry) (child : Child) (how : s.GoesOn i slot c e e' child)

end Turns

theorem released_idle (c : Chain) : c.released.Idle :=
  ⟨rfl, rfl, rfl⟩

end Cix.Pkg
