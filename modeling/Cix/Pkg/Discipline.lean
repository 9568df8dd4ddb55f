import Cix.Pkg.Completions
import Cix.Pkg.OneJob

/-!
# The discipline of the chains

In a daemon whose jobs do not get into each other's way, every child belongs
to the job of its chain, every entry in flight is some chain's package, and no
two producers work on one image.
-/

namespace Cix.Pkg

open Cix.Lib Option

structure State.Disciplined (s : State) : Prop where
  distinct : s.table.Distinct
  containers : s.table.Containers
  single : ∀ i, (s.childrenOf i).length ≤ 1
  fits : ∀ i, ∀ child ∈ s.childrenOf i, ∃ slot e,
    (s.chains i).target = some e.key ∧ s.table.get slot = some e ∧ (s.chains i).Stage i slot e child
  worked : ∀ slot e, s.table.get slot = some e → e.state.inFlight = true →
    ∃ i, (s.chains i).target = some e.key
  oneJob : s.OneJob
  idle : ∀ i, (s.chains i).name = none → (s.chains i).Idle
  backed : ∀ i, s.childrenOf i = [] → (s.chains i).producer = .none ∧ (s.chains i).isDelete = false
  oneProducer : ∀ i j p q, .producer p ∈ s.childrenOf i →
    .producer q ∈ s.childrenOf j → p.image = q.image → i = j

def State.Rests (s : State) (i : ChainIdx) : Prop :=
  ∀ slot e, s.table.get slot = some e → (s.chains i).target = some e.key → e.state.inFlight = false

theorem Chain.Stage.like {c : Chain} {i j : ChainIdx} {slot : Nat}
    {e e' : Entry} {child : Child} (stage : c.Stage j slot e child)
    (like : e.Like i e') (other : j ≠ i) : c.Stage j slot e' child := by
  have named : e'.named = e.named := by rw [Entry.named, Entry.named, like.version]
  cases child with
  | fetch => simpa [Chain.Stage, like.state] using stage
  | prepare =>
    obtain ⟨install, producer, state, resolved, container⟩ := stage
    exact ⟨install, producer, like.state.trans state, resolved, like.container other container⟩
  | build =>
    obtain ⟨install, producer, state, resolved, container⟩ := stage
    exact ⟨install, producer, like.state.trans state, resolved, like.container other container⟩
  | waiter => simpa [Chain.Stage, like.state, named] using stage
  | producer p => simpa [Chain.Stage, like.state, named] using stage

structure Entry.Core (e e' : Entry) : Prop where
  key : e'.key = e.key
  state : e'.state = e.state
  version : e'.version = e.version
  container : e'.buildContainer = e.buildContainer

theorem Chain.Stage.core {c : Chain} {i : ChainIdx} {slot : Nat}
    {e e' : Entry} {child : Child} (stage : c.Stage i slot e child)
    (same : e.Core e') : c.Stage i slot e' child := by
  have named : e'.named = e.named := by rw [Entry.named, Entry.named, same.version]
  cases child <;>
    simpa [Chain.Stage, same.state, same.container, named] using stage

structure Table.Alike (t t' : Table) : Prop where
  of_get : ∀ {i e}, t.get i = some e → ∃ e', t'.get i = some e' ∧ e.Core e'
  get_of : ∀ {i e'}, t'.get i = some e' → ∃ e, t.get i = some e ∧ e.Core e'

namespace Table.Alike

variable {t t' t'' : Table}

theorem trans (first : t.Alike t') (second : t'.Alike t'') : t.Alike t'' where
  of_get := by
    intro i e held
    obtain ⟨e', held', same⟩ := first.of_get held
    obtain ⟨e'', held'', also⟩ := second.of_get held'
    exact ⟨e'', held'', ⟨also.key.trans same.key,
      also.state.trans same.state, also.version.trans same.version,
      also.container.trans same.container⟩⟩
  get_of := by
    intro i e'' held''
    obtain ⟨e', held', also⟩ := second.get_of held''
    obtain ⟨e, held, same⟩ := first.get_of held'
    exact ⟨e, held, ⟨also.key.trans same.key,
      also.state.trans same.state, also.version.trans same.version,
      also.container.trans same.container⟩⟩

theorem adjust {change : Nat → Entry → Entry}
    (same : ∀ i (e : Entry), e.Core (change i e)) : t.Alike (t.adjust change) where
  of_get := by
    intro i e held
    refine ⟨change i e, ?_, same i e⟩
    rw [Slots.get_adjust, held, map_some]
  get_of := by
    intro i e' held
    rw [Slots.get_adjust] at held
    obtain ⟨e, before, rfl⟩ := map_eq_some_iff.mp held
    exact ⟨e, before, same i e⟩

theorem modify {slot : Nat} {change : Entry → Entry}
    (same : ∀ e : Entry, e.Core (change e)) : t.Alike (t.modify slot change) where
  of_get := by
    intro i e held
    by_cases here : i = slot
    · subst here
      exact ⟨change e, get_modify_self change held, same e⟩
    · exact ⟨e, (get_modify_of_ne here).trans held, ⟨rfl, rfl, rfl, rfl⟩⟩
  get_of := by
    intro i e' held
    rw [get_modify] at held
    split_ifs at held with here
    · obtain ⟨e, before, rfl⟩ := map_eq_some_iff.mp held
      exact ⟨e, by rw [here]; exact before, same e⟩
    · exact ⟨e', held, ⟨rfl, rfl, rfl, rfl⟩⟩

theorem distinct (alike : t.Alike t') (before : t.Distinct) :
    t'.Distinct := by
  intro i j a b first second equal
  obtain ⟨x, xHeld, xSame⟩ := alike.get_of first
  obtain ⟨y, yHeld, ySame⟩ := alike.get_of second
  apply before i j x y xHeld yHeld
  rw [← xSame.key, ← ySame.key, equal]

theorem containers (alike : t.Alike t') (before : t.Containers) :
    t'.Containers := by
  intro i j a b first second named equal
  obtain ⟨x, xHeld, xSame⟩ := alike.get_of first
  obtain ⟨y, yHeld, ySame⟩ := alike.get_of second
  apply before i j x y xHeld yHeld
  · rw [← xSame.container]
    exact named
  · rw [← xSame.container, ← ySame.container, equal]

end Table.Alike

theorem alike_transferReplacedPaths {t : Table} {image : Name} {self : Nat}
    {mine : List CStr} {replaces : CStr} :
    t.Alike (transferReplacedPaths image self mine replaces t) := by
  apply Table.Alike.adjust
  intro i e
  split_ifs <;> exact ⟨rfl, rfl, rfl, rfl⟩

namespace State

variable {s s' : State} {i : ChainIdx} {slot : Nat} {e : Entry}

/-- How chain `i` and its package, in slot `slot`, stand. -/
structure Own (s : State) (i : ChainIdx) (slot : Nat) : Prop where
  apart : ∀ key, (s.chains i).target = some key → ∀ j, j ≠ i → (s.chains j).target ≠ some key
  idle : (s.chains i).name = none → (s.chains i).Idle
  worked : ∀ e, s.table.get slot = some e → e.state.inFlight = true →
    ∃ j, (s.chains j).target = some e.key
  child : (s.childrenOf i = [] ∧ (s.chains i).producer = .none ∧ (s.chains i).isDelete = false) ∨
    ∃ child e, s.childrenOf i = [child] ∧ s.table.get slot = some e ∧
      (s.chains i).target = some e.key ∧
      (s.chains i).Stage i slot e child ∧
      ∀ p, child = .producer p → ∀ j, j ≠ i →
        (s.chains j).producer = .producing → (s.chains j).image ≠ p.image

/-- The frame rule: what happens to one chain and to one slot keeps the
discipline when that slot is no other chain's and the chain itself stands as
it should.  `gives` says that the package which the chain has left, if it has
left one, is not in flight. -/
theorem Disciplined.frame (inv : s.Disciplined)
    (others : s.Others i slot s') (distinct : s'.table.Distinct)
    (mine : ∀ o, s.table.get slot = some o → ∀ j, j ≠ i → (s.chains j).target ≠ some o.key)
    (gives : ∀ other e, other ≠ slot → s.table.get other = some e →
      (s.chains i).target = some e.key → e.state.inFlight = true →
        (s'.chains i).target = some e.key)
    (own : s'.Own i slot) : s'.Disciplined where
  distinct := distinct
  containers := others.containers inv.containers
  single := by
    intro j
    by_cases here : j = i
    · subst here
      rcases own.child with ⟨none, _⟩ | ⟨child, e, only, _⟩
      · simp [none]
      · simp [only]
    · rw [others.children j here]
      exact inv.single j
  fits := by
    intro j child mem
    by_cases here : j = i
    · subst here
      rcases own.child with ⟨none, _⟩ | ⟨only, e, isOnly, held, target, stage, _⟩
      · rw [none] at mem
        cases mem
      · rw [isOnly, List.mem_singleton] at mem
        subst mem
        exact ⟨slot, e, target, held, stage⟩
    · rw [others.children j here] at mem
      obtain ⟨index, o, target, held, stage⟩ := inv.fits j child mem
      have elsewhere : index ≠ slot := by
        intro same
        rw [same] at held
        exact mine o held j here target
      obtain ⟨o', held', like⟩ := others.kept index o elsewhere held
      refine ⟨index, o', ?_, held', ?_⟩
      · rw [others.chains j here, target, like.key]
      · rw [others.chains j here]
        exact stage.like like here
  worked := by
    intro index e' held inFlight
    by_cases here : index = slot
    · subst here
      exact own.worked e' held inFlight
    · obtain ⟨o, before, like⟩ := others.source index e' here held
      rw [like.state] at inFlight
      obtain ⟨j, target⟩ := inv.worked index o before inFlight
      rw [like.key]
      by_cases same : j = i
      · subst same
        exact ⟨j, gives index o here before target inFlight⟩
      · refine ⟨j, ?_⟩
        rw [others.chains j same]
        exact target
  oneJob := by
    intro a b key first second
    by_cases aHere : a = i
    · by_cases bHere : b = i
      · rw [aHere, bHere]
      · rw [aHere] at first
        exact absurd second (own.apart key first b bHere)
    · by_cases bHere : b = i
      · rw [bHere] at second
        exact absurd first (own.apart key second a aHere)
      · rw [others.chains a aHere] at first
        rw [others.chains b bHere] at second
        exact inv.oneJob a b key first second
  idle := by
    intro j
    by_cases here : j = i
    · subst here
      exact own.idle
    · rw [others.chains j here]
      exact inv.idle j
  backed := by
    intro j none
    by_cases here : j = i
    · subst here
      rcases own.child with ⟨_, producer, isDelete⟩ | ⟨child, e, only, _⟩
      · exact ⟨producer, isDelete⟩
      · rw [only] at none
        cases none
    · rw [others.children j here] at none
      rw [others.chains j here]
      exact inv.backed j none
  oneProducer := by
    -- A producer of chain `i` was forked while no other chain produced a
    -- version of its image.
    have alone : ∀ j p q, j ≠ i → Child.producer p ∈ s'.childrenOf i →
        Child.producer q ∈ s'.childrenOf j → p.image ≠ q.image := by
      intro j p q other mineMember mem
      rw [others.children j other] at mem
      obtain ⟨_, o, _, _, producing, _, _, _, _, image, _⟩ := inv.fits j _ mem
      rcases own.child with ⟨none, _⟩ | ⟨only, e, isOnly, _, _, _, forked⟩
      · rw [none] at mineMember
        cases mineMember
      · rw [isOnly, List.mem_singleton] at mineMember
        have apart := forked p mineMember.symm j other
        rw [others.chains j other] at apart
        rw [image]
        exact (apart producing).symm
    intro a b p q first second same
    by_cases aHere : a = i
    · by_cases bHere : b = i
      · rw [aHere, bHere]
      · subst aHere
        exact absurd same (alone b p q bHere first second)
    · by_cases bHere : b = i
      · subst bHere
        exact absurd same.symm (alone a q p aHere second first)
      · rw [others.children a aHere] at first
        rw [others.children b bHere] at second
        exact inv.oneProducer a b p q first second same

end State

end Cix.Pkg
