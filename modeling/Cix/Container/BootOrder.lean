import Cix.Container.Definitions
import Cix.Lib.DepthFirst

/-!
# The order of the boot

`containerdef_resolve_order` lists the definitions with every dependency before
what depends on it, and leaves out those that cannot be started: the ones that
depend on a definition there is not, or on a cycle.
-/

namespace Cix.Container

open Cix.Lib List

/-- `containerdef_find`, by a name that may be that of no definition. -/
def findNamed (name : BoundedStr 64) (defs : List ContainerDef) :
    Option ContainerDef :=
  defs.find? fun d => d.name.text = name

def dependenciesOf (defs : List ContainerDef) (name : BoundedStr 64) :
    Option (List (BoundedStr 64)) :=
  (findNamed name defs).map ContainerDef.dependsOn

/-- `visit`, with at most that many levels of recursion. -/
def visit (defs : List ContainerDef) (levels : Nat) (name : BoundedStr 64)
    (marks : DepthFirst.Marks (BoundedStr 64)) :
    Option (Bool × DepthFirst.Marks (BoundedStr 64)) :=
  DepthFirst.visit (dependenciesOf defs) levels name marks

/-- The loop of `containerdef_resolve_order`, which goes on whatever a visit
returns. -/
def visitDefs (defs : List ContainerDef) (levels : Nat) :
    List ContainerDef → DepthFirst.Marks (BoundedStr 64) →
    Option (DepthFirst.Marks (BoundedStr 64))
  | [], marks => some marks
  | d :: rest, marks =>
    match visit defs levels d.name.text marks with
    | none => none
    | some (_, marks) => visitDefs defs levels rest marks

/-- `containerdef_resolve_order`, with at most that many levels of
recursion. -/
def containerdefResolveOrder (levels : Nat) (defs : List ContainerDef) :
    Option (List (BoundedStr 64)) :=
  (visitDefs defs levels defs DepthFirst.Marks.none).map DepthFirst.Marks.out

variable {defs : List ContainerDef}

def DependsOn (defs : List ContainerDef) (name dep : BoundedStr 64) : Prop :=
  ∃ d, findNamed name defs = some d ∧ dep ∈ d.dependsOn

def Bootable (defs : List ContainerDef) (name : BoundedStr 64) : Prop :=
  ∀ dep, Relation.TransGen (DependsOn defs) name dep → (∃ e ∈ defs, e.name.text = dep) ∧
      ¬ Relation.TransGen (DependsOn defs) dep dep

theorem dependenciesOf_isSome {name : BoundedStr 64} :
    (dependenciesOf defs name).isSome = true ↔ ∃ d ∈ defs, d.name.text = name := by
  simp [dependenciesOf, findNamed]

theorem needs_iff {name dep : BoundedStr 64} : DepthFirst.Needs (dependenciesOf defs) name dep ↔
      DependsOn defs name dep := by
  simp only [DepthFirst.Needs, dependenciesOf, DependsOn, Option.map_eq_some_iff]
  refine ⟨?_, ?_⟩
  · intro needs
    obtain ⟨needed, ⟨d, found, isNeeded⟩, mem⟩ := needs
    subst isNeeded
    exact ⟨d, found, mem⟩
  · intro depends
    obtain ⟨d, found, mem⟩ := depends
    exact ⟨d.dependsOn, ⟨d, found, rfl⟩, mem⟩

theorem needs_eq (defs : List ContainerDef) :
    DepthFirst.Needs (dependenciesOf defs) = DependsOn defs := by
  funext name dep
  exact propext needs_iff

theorem resolvable_iff {d : ContainerDef} (mem : d ∈ defs) :
    DepthFirst.Resolvable (dependenciesOf defs) d.name.text ↔ Bootable defs d.name.text := by
  refine ⟨?_, ?_⟩
  · intro resolvable dep reaches
    rw [← needs_eq] at reaches ⊢
    exact ⟨dependenciesOf_isSome.mp (resolvable.exists_needed dep reaches),
      resolvable.acyclic dep reaches⟩
  · intro bootable
    unfold Bootable at bootable
    rw [← needs_eq] at bootable
    exact
      { exists_self := dependenciesOf_isSome.mpr ⟨d, mem, rfl⟩
        exists_needed := fun dep reaches =>
          dependenciesOf_isSome.mpr (bootable dep reaches).1
        acyclic := fun dep reaches => (bootable dep reaches).2 }

theorem visitDefs_eq (defs : List ContainerDef) (levels : Nat)
    (list : List ContainerDef) (marks : DepthFirst.Marks (BoundedStr 64)) :
    visitDefs defs levels list marks = DepthFirst.visitEach (dependenciesOf defs) levels
        (list.map fun d => d.name.text) marks := by
  induction list generalizing marks with
  | nil => rfl
  | cons d rest ih =>
    rw [map_cons, visitDefs, DepthFirst.visitEach, visit]
    cases DepthFirst.visit (dependenciesOf defs) levels d.name.text marks with
    | none => rfl
    | some outcome => exact ih outcome.2

/-- The search ends, with no more levels of recursion than one for each
definition and one more.  The order lists no definition twice, lists exactly
those that can be started, and has every dependency before what depends on
it. -/
theorem boot_order_complete (defs : List ContainerDef) (levels : Nat)
    (enough : defs.length < levels) :
    ∃ order, containerdefResolveOrder levels defs = some order ∧ order.Nodup ∧
      (∀ name ∈ order, ∃ d ∈ defs, d.name.text = name) ∧
      (∀ d ∈ defs, d.name.text ∈ order ↔ Bootable defs d.name.text) ∧
      ∀ before name after, order = before ++ name :: after →
        ∀ dep, DependsOn defs name dep → dep ∈ before := by
  have complete : ∀ name, (dependenciesOf defs name).isSome = true →
      name ∈ defs.map fun d => d.name.text := by
    intro name isSome
    obtain ⟨d, mem, isName⟩ := dependenciesOf_isSome.mp isSome
    exact mem_map.mpr ⟨d, mem, isName⟩
  obtain ⟨after, result, advances, allDone⟩ := DepthFirst.visitEach_spec
    complete (by rw [length_map]; exact enough)
    DepthFirst.wellMarked_none rfl
  have marked := advances.marked
  refine ⟨after.done, ?_, marked.nodup, ?_, ?_, ?_⟩
  · rw [containerdefResolveOrder, visitDefs_eq, result, Option.map_some, marked.out]
  · intro name mem
    exact dependenciesOf_isSome.mp (marked.ordered.exists_of_mem mem)
  · intro d mem
    rw [← resolvable_iff mem]
    refine ⟨?_, ?_⟩
    · exact fun listed => marked.ordered.resolvable marked.nodup listed
    · exact allDone _ (mem_map.mpr ⟨d, mem, rfl⟩)
  · intro before name rest isOrder dep depends
    rw [← needs_iff] at depends
    exact marked.ordered.before isOrder (.single depends)

def sampleDef (name : String) (named : (BoundedStr.store 64 pos_64
      (CStr.ofString name)).str ≠ CStr.empty) (deps : List String)
    (few : (deps.map fun dep => BoundedStr.store 64 pos_64
      (CStr.ofString dep)).length ≤ 16) : ContainerDef :=
  ContainerDef.filled ⟨_, named⟩ []
    { dependsOn := _
      dependsCount := few
      restartPolicy := .always
      restartDelaySeconds := 0
      followRolling := false
      followRollingJitter := none } none

def sampleDefs : List ContainerDef :=
  [sampleDef "web" (by decide) ["store"] (by decide),
    sampleDef "left" (by decide) ["right"] (by decide),
    sampleDef "right" (by decide) ["left"] (by decide),
    sampleDef "watcher" (by decide) ["store", "left"] (by decide),
    sampleDef "store" (by decide) [] (by decide)]

theorem boot_order_complete_sample : containerdefResolveOrder 6 sampleDefs =
        some (["store", "web"].map fun name =>
          BoundedStr.store 64 (by decide) (CStr.ofString name)) ∧
      ∃ order, containerdefResolveOrder 6 sampleDefs = some order ∧
        order.Nodup := by
  refine ⟨by decide +kernel, ?_⟩
  obtain ⟨order, isOrder, nodup, -⟩ := boot_order_complete sampleDefs 6 (by decide)
  exact ⟨order, isOrder, nodup⟩

end Cix.Container
