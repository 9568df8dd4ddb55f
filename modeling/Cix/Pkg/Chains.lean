import Cix.Lib.DepthFirst
import Cix.Pkg.Jobs

/-!
# The queue of an install

`resolve_chain` is a depth-first search of the recipes.  It succeeds if the
recipes that it reaches exist, none of them depends on itself, and there are
no more of them than the queue holds; then the queue is in an order in which
they can be installed.
-/

namespace Cix.Pkg

open Cix.Lib DepthFirst State List Option

section Search

variable (w : World) (t : Table) (image target : Name) (version : Option CStr)

def Installed (name : Name) : Bool :=
  (pkgFind ⟨name, image⟩ t).any fun found => decide (found.2.state = .installed)

def recipeOf (name : Name) : Option Recipe :=
  w.recipe name (if name = target then version else none)

/-- The dependencies of a package that are not installed: none, where the recipe
is missing or names a package that cannot exist. -/
def missing (name : Name) : Option (List Name) :=
  (recipeOf w target version name).bind fun recipe =>
    ((dependsWords recipe.depends.str).mapM Name.ofCStr).map fun names =>
      names.filter fun dep => !Installed t image dep

variable {w t image target version}

variable {fuel : Nat} {visiting queue q : List Name} {name : Name}

def resolveWords (w : World) (t : Table) (image : Name) (fuel : Nat) (visiting : List Name)
    (words : List CStr) (queue : Option (List Name)) : Option (List Name) :=
  words.foldl (fun queue word => queue.bind fun queue =>
    resolveChain w t image fuel word none false visiting queue) queue

theorem resolveWords_none (words : List CStr) :
    resolveWords w t image fuel visiting words none = none := by
  induction words with
  | nil => rfl
  | cons word rest ih => exact ih

/-- The part of `resolve_chain` behind the checks of the name. -/
def expand (w : World) (t : Table) (image : Name) (fuel : Nat) (recipe : Option Recipe)
    (visiting queue : List Name) (name : Name) : Option (List Name) :=
  match recipe with
  | none => none
  | some recipe =>
    if visiting.length ≥ maxDepChain then none
    else
      match resolveWords w t image fuel (visiting ++ [name])
          (dependsWords recipe.depends.str) (some queue) with
      | none => none
      | some queue => if queue.length ≥ maxDepChain then none else some (queue ++ [name])

theorem resolveChain_dependency (word : CStr) :
    resolveChain w t image (fuel + 1) word none false visiting queue =
      (Name.ofCStr word).bind fun name =>
        if Installed t image name then some queue
        else if name ∈ queue then some queue
        else if name ∈ visiting then none
        else expand w t image fuel (w.recipe name none) visiting queue name := by
  rw [resolveChain]
  cases Name.ofCStr word <;> rfl

theorem resolveChain_target : resolveChain w t image (fuel + 1) target.str version true [] [] =
      expand w t image fuel (recipeOf w target version target) [] [] target := by
  rw [resolveChain, Name.ofCStr_str, recipeOf, if_pos rfl]
  rfl

theorem expand_last {recipe : Option Recipe}
    (result : expand w t image fuel recipe visiting queue name = some q) :
    q.getLast? = some name := by
  unfold expand at result
  repeat' split at result
  all_goals cases result
  exact getLast?_concat

theorem visit_of_expand
    (words : ∀ (list : List CStr) {queue q}, resolveWords w t image fuel (visiting ++ [name])
      list (some queue) = some q → ∃ names, list.mapM Name.ofCStr = some names ∧
        visitAll (visit (missing w t image target version) fuel)
          (names.filter fun dep => !Installed t image dep)
          ⟨visiting ++ [name], queue, queue⟩ = some (true, ⟨visiting ++ [name], q, q⟩))
    (notDone : name ∉ queue) (notVisiting : name ∉ visiting)
    (result : expand w t image fuel (recipeOf w target version name) visiting queue name = some q) :
    q.length ≤ maxDepChain ∧
      visit (missing w t image target version) (fuel + 1) name ⟨visiting, queue, queue⟩ =
        some (true, ⟨visiting, q, q⟩) := by
  unfold expand at result
  cases isRecipe : recipeOf w target version name with
  | none =>
    rw [isRecipe] at result
    cases result
  | some recipe =>
    rw [isRecipe] at result
    dsimp only at result
    split at result
    · cases result
    split at result
    · cases result
    next queue' resolved =>
      split at result
      · cases result
      next room =>
        cases result
        obtain ⟨names, isNames, visited⟩ := words _ resolved
        have deps : missing w t image target version name =
            some (names.filter fun dep => !Installed t image dep) := by
          rw [missing, isRecipe, bind_some, isNames, map_some]
        refine ⟨by rw [length_append]; exact Nat.lt_of_not_le room, ?_⟩
        simp only [visit, notDone, notVisiting, if_false, deps, visited, dropLast_concat]

theorem recipe_of_ne (other : name ≠ target) :
    w.recipe name none = recipeOf w target version name := by
  rw [recipeOf, if_neg other]

theorem visitAll_of_resolveWords (inner : target ∈ visiting) {list : List CStr}
    (result : resolveWords w t image fuel visiting list (some queue) = some q) :
    ∃ names, list.mapM Name.ofCStr = some names ∧
      visitAll (visit (missing w t image target version) fuel)
        (names.filter fun dep => !Installed t image dep) ⟨visiting, queue, queue⟩ =
          some (true, ⟨visiting, q, q⟩) := by
  induction fuel generalizing visiting queue q list with
  | zero =>
    cases list with
    | nil =>
      cases result
      exact ⟨[], rfl, rfl⟩
    | cons word rest =>
      have stuck : resolveWords w t image 0 visiting rest none = some q := result
      rw [resolveWords_none] at stuck
      cases stuck
  | succ fuel ih =>
    induction list generalizing queue with
    | nil =>
      cases result
      exact ⟨[], rfl, rfl⟩
    | cons word rest ihRest =>
      cases step : resolveChain w t image (fuel + 1) word none false visiting queue with
      | none =>
        have stuck : resolveWords w t image (fuel + 1) visiting rest none = some q :=
          step ▸ result
        rw [resolveWords_none] at stuck
        cases stuck
      | some q₁ =>
        have later : resolveWords w t image (fuel + 1) visiting rest (some q₁) = some q :=
          step ▸ result
        obtain ⟨names, isNames, visited⟩ := ihRest later
        rw [resolveChain_dependency] at step
        cases isName : Name.ofCStr word with
        | none =>
          rw [isName] at step
          cases step
        | some name =>
          rw [isName, bind_some] at step
          refine ⟨name :: names, by rw [mapM_cons, isName, isNames]; rfl, ?_⟩
          split at step
          next installed =>
            cases step
            rw [filter_cons_of_neg (by simp [installed])]
            exact visited
          next notInstalled =>
            rw [filter_cons_of_pos (by simp [notInstalled]), visitAll]
            split at step
            next isDone =>
              cases step
              rw [visit, if_pos isDone]
              exact visited
            next notDone =>
              split at step
              · cases step
              next notVisiting =>
                have other : name ≠ target := fun same => notVisiting (same ▸ inner)
                rw [recipe_of_ne other] at step
                have one := (visit_of_expand (fun list => ih
                  (mem_append_left _ inner)) notDone notVisiting step).2
                rw [one]
                exact visited

theorem marks_of_advances {deps : Name → Option (List Name)} {after : Marks Name}
    (advances : Advances deps ⟨visiting, queue, queue⟩ after) :
    after = ⟨visiting, after.done, after.done⟩ := by
  obtain ⟨_, _, _⟩ := after
  have path := advances.path
  have out := advances.marked.out
  dsimp only at path out
  rw [path, out]

theorem expand_of_visit {after : Marks Name}
    (words : ∀ (list : List CStr) {names queue after}, list.mapM Name.ofCStr = some names →
      WellMarked (missing w t image target version) ⟨visiting ++ [name], queue, queue⟩ →
      visitAll (visit (missing w t image target version) fuel)
        (names.filter fun dep => !Installed t image dep)
        ⟨visiting ++ [name], queue, queue⟩ = some (true, after) →
      after.done.length + (visiting ++ [name]).length ≤ maxDepChain →
      resolveWords w t image fuel (visiting ++ [name]) list (some queue) = some after.done)
    (marked : WellMarked (missing w t image target version) ⟨visiting, queue, queue⟩)
    (notDone : name ∉ queue) (notVisiting : name ∉ visiting)
    (result : visit (missing w t image target version) (fuel + 1) name
      ⟨visiting, queue, queue⟩ = some (true, after))
    (room : after.done.length + visiting.length ≤ maxDepChain) :
    expand w t image fuel (recipeOf w target version name) visiting queue name =
      some after.done := by
  simp only [visit, notDone, notVisiting, if_false] at result
  split at result
  · cases result
  next needed deps =>
    have entered := marked.enter deps notDone notVisiting
    unfold missing at deps
    cases isRecipe : recipeOf w target version name with
    | none =>
      rw [isRecipe] at deps
      cases deps
    | some recipe =>
      rw [isRecipe, bind_some, map_eq_some_iff] at deps
      obtain ⟨names, isNames, rfl⟩ := deps
      split at result
      · cases result
      · cases result
      next middle visited =>
        cases result
        rw [length_append, length_singleton] at room
        have resolved := words _ isNames entered visited (by
          rw [length_append, length_singleton]
          omega)
        unfold expand
        dsimp only
        rw [if_neg (by omega), resolved]
        dsimp only
        rw [if_neg (by omega)]

theorem resolveWords_of_visitAll (inner : target ∈ visiting) {list : List CStr}
    {names : List Name} {after : Marks Name} (enough : maxDepChain < fuel + visiting.length)
    (isNames : list.mapM Name.ofCStr = some names)
    (marked : WellMarked (missing w t image target version) ⟨visiting, queue, queue⟩)
    (result : visitAll (visit (missing w t image target version) fuel)
      (names.filter fun dep => !Installed t image dep) ⟨visiting, queue, queue⟩ =
        some (true, after))
    (room : after.done.length + visiting.length ≤ maxDepChain) :
    resolveWords w t image fuel visiting list (some queue) = some after.done := by
  induction fuel generalizing visiting queue names after list with
  | zero => omega
  | succ fuel ih =>
    induction list generalizing queue names with
    | nil =>
      cases isNames
      cases result
      rfl
    | cons word rest ihRest =>
      rw [mapM_cons] at isNames
      obtain ⟨name, isName, isRest⟩ := bind_eq_some_iff.mp isNames
      obtain ⟨others, isOthers, same⟩ := bind_eq_some_iff.mp isRest
      cases same
      suffices ∃ queue', resolveChain w t image (fuel + 1) word none false visiting queue =
            some queue' ∧
          WellMarked (missing w t image target version) ⟨visiting, queue', queue'⟩ ∧
          visitAll (visit (missing w t image target version) (fuel + 1))
            (others.filter fun dep => !Installed t image dep) ⟨visiting, queue', queue'⟩ =
              some (true, after) by
        obtain ⟨queue', step, marked', later⟩ := this
        have whole := ihRest isOthers marked' later
        rw [← step] at whole
        exact whole
      rw [resolveChain_dependency, isName, bind_some]
      by_cases installed : Installed t image name = true
      · rw [if_pos installed]
        rw [filter_cons_of_neg (by simp [installed])] at result
        exact ⟨queue, rfl, marked, result⟩
      · rw [if_neg installed]
        rw [filter_cons_of_pos (by simp [installed]), visitAll] at result
        split at result
        · cases result
        · cases result
        next middle visited =>
          obtain ⟨advances, -⟩ := visits_visit _ name _ _ _ marked visited
          have isMiddle := marks_of_advances advances
          have later := ((visits_visit (fuel + 1)).all advances.marked result).1
          rw [isMiddle] at result
          refine ⟨middle.done, ?_, isMiddle ▸ advances.marked, result⟩
          by_cases isDone : name ∈ queue
          · rw [if_pos isDone]
            rw [visit, if_pos isDone] at visited
            cases visited
            rfl
          by_cases isVisiting : name ∈ visiting
          · rw [visit, if_neg isDone, if_pos isVisiting] at visited
            cases visited
          have size := later.grows.length_le
          have other : name ≠ target := fun same => isVisiting (same ▸ inner)
          rw [if_neg isDone, if_neg isVisiting, recipe_of_ne other]
          refine expand_of_visit (fun list => ?_) marked isDone isVisiting visited (by omega)
          intro names queue after isNames entered visited room
          exact ih (mem_append_left _ inner) (by rw [length_append, length_singleton]; omega)
            isNames entered visited room

theorem resolveChain_levels {text : CStr} {pin : Option CStr} {force : Bool}
    (enough : maxDepChain < fuel + visiting.length) (room : visiting.length ≤ maxDepChain) :
    resolveChain w t image (fuel + 1) text pin force visiting queue =
      resolveChain w t image fuel text pin force visiting queue := by
  induction fuel generalizing visiting queue text pin force with
  | zero => omega
  | succ fuel ih =>
    rw [resolveChain, resolveChain]
    cases Name.ofCStr text with
    | none => rfl
    | some name =>
      dsimp only
      cases w.recipe name pin with
      | none => rfl
      | some recipe =>
        by_cases full : visiting.length ≥ maxDepChain
        · simp only [if_pos full]
        · have deeper : ∀ word queue, resolveChain w t image (fuel + 1) word none false
              (visiting ++ [name]) queue =
                resolveChain w t image fuel word none false (visiting ++ [name]) queue := by
            intro word queue
            have size : (visiting ++ [name]).length = visiting.length + 1 := by simp
            exact ih (by omega) (by omega)
          simp only [deeper]

variable (w t image target version) in
def OnTheWay (name : Name) : Prop :=
  Relation.ReflTransGen (Needs (missing w t image target version)) target name

theorem missing_eq_none {name : Name} : missing w t image target version name = none ↔
      ∀ recipe, recipeOf w target version name = some recipe →
        ∃ word ∈ dependsWords recipe.depends.str, Name.ofCStr word = none := by
  unfold missing
  cases recipeOf w target version name with
  | none => simp
  | some recipe =>
    simp only [bind_some, map_eq_none_iff, some.injEq, forall_eq']
    induction dependsWords recipe.depends.str with
    | nil => simp
    | cons word rest ih =>
      cases isName : Name.ofCStr word with
      | none => simp [mapM_cons, isName]
      | some name =>
        rw [mapM_cons, isName]
        simp only [mem_cons, exists_eq_or_imp, isName, reduceCtorEq, false_or, ← ih]
        cases List.mapM Name.ofCStr rest <;> simp

theorem resolveChain_eq_some (levels : Nat) :
    resolveChain w t image (maxDepChain + 2 + levels) target.str version true [] [] = some q ↔
      visit (missing w t image target version) (maxDepChain + 2) target Marks.none =
        some (true, ⟨[], q, q⟩) ∧ q.length ≤ maxDepChain := by
  have base : resolveChain w t image (maxDepChain + 2 + levels) target.str version true [] [] =
      resolveChain w t image (maxDepChain + 2) target.str version true [] [] := by
    induction levels with
    | zero => rfl
    | succ levels ih => exact (resolveChain_levels (by simp; omega) (by simp)).trans ih
  rw [base, resolveChain_target]
  constructor
  · intro result
    have visited := visit_of_expand
      (fun list => visitAll_of_resolveWords (mem_singleton_self target))
      not_mem_nil not_mem_nil result
    exact ⟨visited.2, visited.1⟩
  · intro ⟨result, room⟩
    refine expand_of_visit (fun list => ?_) wellMarked_none not_mem_nil not_mem_nil result room
    intro names queue after isNames entered visited room
    exact resolveWords_of_visitAll (mem_singleton_self target) (by simp)
      isNames entered visited room

theorem dependencies_of_missing {needed : List Name}
    (deps : missing w t image target version name = some needed) :
    ∃ recipe names, recipeOf w target version name = some recipe ∧
      (dependsWords recipe.depends.str).mapM Name.ofCStr = some names ∧
        needed = names.filter fun dep => !Installed t image dep := by
  obtain ⟨recipe, isRecipe, isNeeded⟩ := bind_eq_some_iff.mp deps
  obtain ⟨names, isNames, same⟩ := map_eq_some_iff.mp isNeeded
  exact ⟨recipe, names, isRecipe, isNames, same.symm⟩

theorem resolveChain_queue (levels : Nat)
    (result : resolveChain w t image (maxDepChain + 2 + levels) target.str version true [] [] =
      some q) :
    q.Nodup ∧ Ordered (missing w t image target version) q ∧
      (∀ name, name ∈ q ↔ OnTheWay w t image target version name) := by
  obtain ⟨visited, -⟩ := resolveChain_eq_some levels |>.mp result
  obtain ⟨advances, isDone⟩ := visits_visit _ _ _ _ _ wellMarked_none visited
  have ordered := advances.marked.ordered
  refine ⟨advances.marked.nodup, ordered, ?_⟩
  intro name
  constructor
  · intro queued
    exact (visit_reaches visited name queued).resolve_left not_mem_nil
  · intro onTheWay
    rcases Relation.reflTransGen_iff_eq_or_transGen.mp onTheWay with same | leads
    · exact same ▸ isDone rfl
    · obtain ⟨before, after, isOrder⟩ := append_of_mem (isDone rfl)
      dsimp only at isOrder
      rw [isOrder]
      exact mem_append_left _ (ordered.before isOrder leads)

/-- The queue of an install: the target comes last, and each package after its
dependencies that are not installed.  There is none only if a recipe that is
needed is missing or names a package that cannot exist, if a package needs
itself, or if there are too many packages. -/
theorem resolveChain_complete (w : World) (t : Table) (image target : Name)
    (version : Option CStr) :
    ∃ result, (∀ levels, resolveChain w t image (maxDepChain + 2 + levels) target.str version
        true [] [] = result) ∧
      (∀ queue, result = some queue →
        queue.Nodup ∧ queue.getLast? = some target ∧ queue.length ≤ maxDepChain ∧
          ∀ before name after, queue = before ++ name :: after →
            ∃ recipe names, recipeOf w target version name = some recipe ∧
              (dependsWords recipe.depends.str).mapM Name.ofCStr = some names ∧
              ∀ dep ∈ names, Installed t image dep = true ∨ dep ∈ before) ∧
      (result = none ↔ (∃ name, OnTheWay w t image target version name ∧
          ∀ recipe, recipeOf w target version name = some recipe →
            ∃ word ∈ dependsWords recipe.depends.str, Name.ofCStr word = none) ∨
        (∃ name, OnTheWay w t image target version name ∧
          Relation.TransGen (Needs (missing w t image target version)) name name) ∨
        ∃ names : List Name, names.Nodup ∧ maxDepChain < names.length ∧
          ∀ name ∈ names, OnTheWay w t image target version name) := by
  refine ⟨resolveChain w t image (maxDepChain + 2) target.str version true [] [],
    fun levels => ?_, ?_, ?_⟩
  · apply Option.ext
    intro queue
    rw [resolveChain_eq_some, ← resolveChain_eq_some 0]
  · intro queue result
    obtain ⟨nodup, ordered, queued⟩ := resolveChain_queue 0 result
    obtain ⟨-, room⟩ := resolveChain_eq_some 0 |>.mp result
    refine ⟨nodup, expand_last (resolveChain_target.symm.trans result), room, ?_⟩
    · intro before name after isQueue
      obtain ⟨needed, deps, earlier⟩ := ordered before name after isQueue
      obtain ⟨recipe, names, isRecipe, isNames, rfl⟩ := dependencies_of_missing deps
      refine ⟨recipe, names, isRecipe, isNames, fun dep isDep => ?_⟩
      cases installed : Installed t image dep with
      | true => exact Or.inl rfl
      | false => exact Or.inr (earlier dep (mem_filter.mpr ⟨isDep, by simp [installed]⟩))
  · simp only [← @missing_eq_none w t image target version]
    constructor
    · intro fails
      cases visited : visit (missing w t image target version) (maxDepChain + 2) target
          Marks.none with
      | none =>
        obtain ⟨names, nodup, size, onTheWay⟩ := exists_path_of_visit_none wellMarked_none
          (fun _ mem => absurd mem not_mem_nil) .refl visited
        exact Or.inr (Or.inr ⟨names, nodup, by omega, onTheWay⟩)
      | some found =>
        obtain ⟨ok, after⟩ := found
        have advances := (visits_visit _ _ _ _ _ wellMarked_none visited).1
        cases ok with
        | false =>
          have stuck := visit_false wellMarked_none (fun _ mem => absurd mem not_mem_nil) visited
          by_contra none
          push Not at none
          obtain ⟨exist, acyclic, -⟩ := none
          refine stuck ⟨?_, ?_, ?_⟩
          · exact isSome_iff_ne_none.mpr (exist target .refl)
          · exact fun b leads => isSome_iff_ne_none.mpr (exist b leads.to_reflTransGen)
          · exact fun b leads => acyclic b leads.to_reflTransGen
        | true =>
          rw [marks_of_advances advances] at visited
          refine Or.inr (Or.inr ⟨after.done, advances.marked.nodup, ?_, fun name queued =>
            (visit_reaches visited name queued).resolve_left not_mem_nil⟩)
          by_contra room
          have result := resolveChain_eq_some 0 |>.mpr ⟨visited, Nat.le_of_not_lt room⟩
          exact absurd (fails.symm.trans result) (by simp)
    · intro reason
      cases result : resolveChain w t image (maxDepChain + 2) target.str version true [] [] with
      | none => rfl
      | some queue =>
        obtain ⟨nodup, ordered, queued⟩ := resolveChain_queue 0 result
        obtain ⟨-, room⟩ := resolveChain_eq_some 0 |>.mp result
        rcases reason with ⟨name, onTheWay, isMissing⟩ | ⟨name, onTheWay, cycle⟩ |
          ⟨names, distinct, size, onTheWay⟩
        · have isSome := ordered.exists_of_mem ((queued name).mpr onTheWay)
          rw [isMissing] at isSome
          cases isSome
        · exact absurd (ordered.resolvable nodup ((queued name).mpr onTheWay))
            (not_resolvable_of_cycle cycle)
        · have subset : names ⊆ queue := fun name mem =>
            (queued name).mpr (onTheWay name mem)
          exact absurd (distinct.subperm subset).length_le (by omega)

end Search

end Cix.Pkg
