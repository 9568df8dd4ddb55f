import Mathlib.Data.List.Nodup
import Mathlib.Data.List.Perm.Subperm
import Mathlib.Logic.Relation

/-!
# Depth-first resolution of dependencies

`deps a` lists what `a` depends on, and is `none` where there is no `a`.  A
visit puts the dependencies of its node, and then the node itself, behind the
nodes that are done; it fails where a node is missing or is met again on the
path that leads to it.  A failed visit leaves no trace besides the nodes it
finished on the way.

The depth of the recursion is an argument, and running out of it is a result of
its own.  No path is longer than the list of all nodes, so with one more than
that many levels this never happens.
-/

namespace Cix.Lib.DepthFirst

open List

universe u

variable {α : Type u}

/-- The marks of a search: the nodes on the current path, those that are done,
and the order that is given out. -/
structure Marks (α : Type u) where
  (visiting done out : List α)

def Marks.none : Marks α := ⟨[], [], []⟩

def visitAll (visit : α → Marks α → Option (Bool × Marks α)) :
    List α → Marks α → Option (Bool × Marks α)
  | [], marks => some (true, marks)
  | first :: rest, marks =>
    match visit first marks with
    | Option.none => Option.none
    | some (false, marks) => some (false, marks)
    | some (true, marks) => visitAll visit rest marks

variable (deps : α → Option (List α))

def visit [DecidableEq α] : (levels : Nat) → α → Marks α → Option (Bool × Marks α)
  | 0, _, _ => Option.none
  | levels + 1, node, marks =>
    if node ∈ marks.done then some (true, marks)
    else if node ∈ marks.visiting then some (false, marks)
    else
      match deps node with
      | Option.none => some (false, marks)
      | some needed =>
        match visitAll (visit levels) needed
            { marks with visiting := marks.visiting ++ [node] } with
        | Option.none => Option.none
        | some (false, after) =>
          some (false, { after with visiting := after.visiting.dropLast })
        | some (true, after) =>
          some (true,
            { visiting := after.visiting.dropLast
              done := after.done ++ [node]
              out := after.out ++ [node] })

def visitEach [DecidableEq α] (levels : Nat) : List α → Marks α → Option (Marks α)
  | [], marks => some marks
  | first :: rest, marks =>
    match visit deps levels first marks with
    | Option.none => Option.none
    | some (_, marks) => visitEach levels rest marks

/-! ## Dependencies -/

def Needs (a b : α) : Prop := ∃ needed, deps a = some needed ∧ b ∈ needed

structure Resolvable (a : α) : Prop where
  exists_self : (deps a).isSome = true
  exists_needed : ∀ b, Relation.TransGen (Needs deps) a b → (deps b).isSome = true
  acyclic : ∀ b, Relation.TransGen (Needs deps) a b → ¬ Relation.TransGen (Needs deps) b b

variable {deps}

theorem Resolvable.needed {a b : α} (resolvable : Resolvable deps a)
    (needs : Needs deps a b) : Resolvable deps b := by
  refine ⟨resolvable.exists_needed b (.single needs), ?_, ?_⟩
  · intro c reaches
    exact resolvable.exists_needed c (.head needs reaches)
  · intro c reaches
    exact resolvable.acyclic c (.head needs reaches)

theorem not_resolvable_of_cycle {a : α}
    (cycle : Relation.TransGen (Needs deps) a a) : ¬ Resolvable deps a :=
  fun resolvable => resolvable.acyclic a cycle cycle

/-! ## What a visit keeps -/

variable (deps) in
def Ordered (order : List α) : Prop :=
  ∀ before a after, order = before ++ a :: after →
    ∃ needed, deps a = some needed ∧ ∀ b ∈ needed, b ∈ before

variable (deps) in
structure WellMarked (marks : Marks α) : Prop where
  out : marks.out = marks.done
  nodup : marks.done.Nodup
  ordered : Ordered deps marks.done
  path : marks.visiting.Nodup
  known : ∀ a ∈ marks.visiting, (deps a).isSome = true
  apart : ∀ a ∈ marks.visiting, a ∉ marks.done

theorem wellMarked_none : WellMarked deps (Marks.none : Marks α) := by
  refine ⟨rfl, nodup_nil, ?_, nodup_nil, ?_, ?_⟩
  · intro before a after equality
    simp [Marks.none] at equality
  · intro a mem
    cases mem
  · intro a mem
    cases mem

variable {order : List α}

theorem ordered_snoc {node : α} {needed : List α}
    (ordered : Ordered deps order) (isNeeded : deps node = some needed)
    (before : ∀ b ∈ needed, b ∈ order) : Ordered deps (order ++ [node]) := by
  intro first a after equality
  rcases eq_nil_or_concat after with isNil | ⟨middle, last, isSnoc⟩
  · subst isNil
    obtain ⟨sameOrder, sameNode⟩ := append_inj' equality rfl
    cases sameNode
    subst sameOrder
    exact ⟨needed, isNeeded, before⟩
  · subst isSnoc
    have whole : order ++ [node] = (first ++ a :: middle) ++ [last] := by
      rw [equality]
      simp
    exact ordered first a middle (append_inj' whole rfl).1

variable (deps) in
/-- What a visit, or the visits of a list, makes of the marks: the path is
restored, and the nodes that are done stay first. -/
structure Advances (before after : Marks α) : Prop where
  marked : WellMarked deps after
  path : after.visiting = before.visiting
  grows : before.done <+: after.done

variable {marks : Marks α}

theorem Advances.refl (marked : WellMarked deps marks) :
    Advances deps marks marks :=
  ⟨marked, rfl, prefix_rfl⟩

theorem Advances.trans {first second third : Marks α} (earlier : Advances deps first second)
    (later : Advances deps second third) : Advances deps first third :=
  ⟨later.marked, later.path.trans earlier.path, earlier.grows.trans later.grows⟩

theorem Advances.mem {before after : Marks α} (advances : Advances deps before after) {a : α}
    (mem : a ∈ before.done) : a ∈ after.done :=
  advances.grows.subset mem

variable (deps) in
def Visits (visit : α → Marks α → Option (Bool × Marks α)) : Prop :=
  ∀ node marks ok after, WellMarked deps marks → visit node marks = some (ok, after) →
    Advances deps marks after ∧ (ok = true → node ∈ after.done)

variable {nodes : List α}

theorem Visits.all {visit : α → Marks α → Option (Bool × Marks α)}
    (visits : Visits deps visit) {after : Marks α}
    {ok : Bool} (marked : WellMarked deps marks)
    (result : visitAll visit nodes marks = some (ok, after)) :
    Advances deps marks after ∧ (ok = true → ∀ node ∈ nodes, node ∈ after.done) := by
  induction nodes generalizing marks with
  | nil =>
    cases result
    refine ⟨Advances.refl marked, ?_⟩
    intro _ node mem
    cases mem
  | cons first rest ih =>
    simp only [visitAll] at result
    split at result
    · cases result
    next middle visited =>
      cases result
      refine ⟨(visits first marks _ _ marked visited).1, ?_⟩
      intro isTrue
      cases isTrue
    next middle visited =>
      obtain ⟨step, isDone⟩ := visits first marks _ _ marked visited
      obtain ⟨others, allDone⟩ := ih step.marked result
      refine ⟨step.trans others, ?_⟩
      intro isTrue node mem
      rcases mem_cons.mp mem with isFirst | later
      · rw [isFirst]
        exact others.mem (isDone rfl)
      · exact allDone isTrue node later

theorem WellMarked.enter (marked : WellMarked deps marks)
    {node : α} {needed : List α} (isNeeded : deps node = some needed)
    (notDone : node ∉ marks.done) (notVisiting : node ∉ marks.visiting) :
    WellMarked deps { marks with visiting := marks.visiting ++ [node] } := by
  refine ⟨marked.out, marked.nodup, marked.ordered, ?_, ?_, ?_⟩
  · exact nodup_append.mpr ⟨marked.path, nodup_singleton node,
      fun a mem b isNode same => notVisiting (mem_singleton.mp isNode ▸ same ▸ mem)⟩
  · intro a mem
    rcases mem_append.mp mem with earlier | isNode
    · exact marked.known a earlier
    · rw [mem_singleton.mp isNode, isNeeded]
      rfl
  · intro a mem
    rcases mem_append.mp mem with earlier | isNode
    · exact marked.apart a earlier
    · rw [mem_singleton.mp isNode]
      exact notDone

theorem Advances.leave {after : Marks α} {node : α} (marked : WellMarked deps marks)
    (advances : Advances deps
      { marks with visiting := marks.visiting ++ [node] } after) :
    Advances deps marks
      { after with visiting := after.visiting.dropLast } := by
  have path : after.visiting.dropLast = marks.visiting := by rw [advances.path, dropLast_concat]
  have kept : ∀ a ∈ marks.visiting, a ∈ after.visiting := by
    intro a mem
    rw [advances.path]
    exact mem_append_left _ mem
  refine ⟨⟨advances.marked.out, advances.marked.nodup,
    advances.marked.ordered, ?_, ?_, ?_⟩, path, advances.grows⟩
  · rw [path]
    exact marked.path
  · rw [path]
    exact marked.known
  · rw [path]
    exact fun a mem => advances.marked.apart a (kept a mem)

theorem Advances.finish {after : Marks α} {node : α} {needed : List α}
    (marked : WellMarked deps marks) (isNeeded : deps node = some needed)
    (notVisiting : node ∉ marks.visiting)
    (advances : Advances deps
      { marks with visiting := marks.visiting ++ [node] } after)
    (allDone : ∀ b ∈ needed, b ∈ after.done) :
    Advances deps marks
      { visiting := after.visiting.dropLast
        done := after.done ++ [node]
        out := after.out ++ [node] } := by
  have left := advances.leave marked
  have notDone : node ∉ after.done := by
    apply advances.marked.apart
    rw [advances.path]
    exact mem_append_right _ (mem_singleton_self node)
  refine ⟨⟨?_, ?_, ordered_snoc advances.marked.ordered isNeeded allDone,
    left.marked.path, left.marked.known, ?_⟩, left.path,
    advances.grows.trans (prefix_append _ _)⟩
  · rw [advances.marked.out]
  · exact nodup_append.mpr ⟨advances.marked.nodup,
      nodup_singleton node, fun a mem b isNode same => notDone
        (mem_singleton.mp isNode ▸ same ▸ mem)⟩
  · intro a mem inDone
    rcases mem_append.mp inDone with earlier | isNode
    · exact left.marked.apart a mem earlier
    · rw [left.path, mem_singleton.mp isNode] at mem
      exact notVisiting mem

theorem visits_visit [DecidableEq α] (levels : Nat) : Visits deps (visit deps levels) := by
  induction levels with
  | zero =>
    intro node marks ok after _ result
    cases result
  | succ levels ih =>
    intro node marks ok after marked result
    simp only [visit] at result
    split_ifs at result with isDone isVisiting
    · cases result
      exact ⟨Advances.refl marked, fun _ => isDone⟩
    · cases result
      exact ⟨Advances.refl marked, fun isTrue => by cases isTrue⟩
    · split at result
      · cases result
        exact ⟨Advances.refl marked, fun isTrue => by cases isTrue⟩
      next needed isNeeded =>
        have entered := marked.enter isNeeded isDone isVisiting
        split at result
        · cases result
        next middle visited =>
          cases result
          have advances := (ih.all entered visited).1
          exact ⟨advances.leave marked, fun isTrue => by cases isTrue⟩
        next middle visited =>
          cases result
          obtain ⟨advances, allDone⟩ := ih.all entered visited
          exact ⟨advances.finish marked isNeeded isVisiting
            (allDone rfl), fun _ => mem_append_right _ (mem_singleton_self node)⟩

/-! ## Where a visit fails -/

variable (deps) in
def Reached (marks : Marks α) (node : α) : Prop :=
  ∀ v ∈ marks.visiting, Relation.TransGen (Needs deps) v node

theorem visitAll_false {visit : α → Marks α → Option (Bool × Marks α)} (visits : Visits deps visit)
    (fails : ∀ node marks after, WellMarked deps marks →
      Reached deps marks node → visit node marks = some (false, after) →
      ¬ Resolvable deps node) {after : Marks α} (marked : WellMarked deps marks)
    (reached : ∀ node ∈ nodes, Reached deps marks node)
    (result : visitAll visit nodes marks = some (false, after)) :
    ∃ node ∈ nodes, ¬ Resolvable deps node := by
  induction nodes generalizing marks with
  | nil => cases result
  | cons first rest ih =>
    have reachedFirst := reached first mem_cons_self
    simp only [visitAll] at result
    split at result
    · cases result
    next middle visited =>
      exact ⟨first, mem_cons_self, fails first marks middle marked reachedFirst visited⟩
    next middle visited =>
      have step := (visits first marks _ _ marked visited).1
      obtain ⟨node, mem, unresolvable⟩ := ih step.marked (fun node mem => by
          intro v onPath
          rw [step.path] at onPath
          exact reached node (mem_cons_of_mem _ mem) v onPath)
        result
      exact ⟨node, mem_cons_of_mem _ mem, unresolvable⟩

theorem visit_false [DecidableEq α] {levels : Nat} {node : α}
    {after : Marks α} (marked : WellMarked deps marks)
    (reached : Reached deps marks node)
    (result : visit deps levels node marks = some (false, after)) :
    ¬ Resolvable deps node := by
  induction levels generalizing node marks after with
  | zero => cases result
  | succ levels ih =>
    simp only [visit] at result
    split_ifs at result with isDone isVisiting
    · cases result
    · -- the path leads from the node back to it
      exact not_resolvable_of_cycle (reached node isVisiting)
    · split at result
      next missing =>
        intro resolvable
        have isSome := resolvable.exists_self
        rw [missing] at isSome
        cases isSome
      next needed isNeeded =>
        have entered := marked.enter isNeeded isDone isVisiting
        split at result
        · cases result
        next middle visited =>
          obtain ⟨dep, mem, unresolvable⟩ := visitAll_false (visits_visit levels)
            (fun node marks after marked reached result =>
              ih marked reached result)
            entered (fun dep mem => by
              have needs : Needs deps node dep := ⟨needed, isNeeded, mem⟩
              intro v onPath
              rcases mem_append.mp onPath with earlier | isNode
              · exact (reached v earlier).tail needs
              · rw [mem_singleton.mp isNode]
                exact .single needs)
            visited
          intro resolvable
          exact unresolvable (resolvable.needed ⟨needed, isNeeded, mem⟩)
        · cases result

/-! ## The nodes that are done -/

theorem Ordered.before (ordered : Ordered deps order)
    {first : List α} {a : α} {after : List α}
    (isOrder : order = first ++ a :: after) {b : α}
    (reaches : Relation.TransGen (Needs deps) a b) : b ∈ first := by
  induction reaches with
  | single needs =>
    obtain ⟨needed, isNeeded, mem⟩ := needs
    obtain ⟨listed, isListed, allBefore⟩ := ordered first a after isOrder
    rw [isNeeded] at isListed
    cases isListed
    exact allBefore _ mem
  | @tail middle last _ needs ih =>
    obtain ⟨before, between, isFirst⟩ := append_of_mem ih
    obtain ⟨needed, isNeeded, mem⟩ := needs
    have atMiddle : order = before ++ middle :: (between ++ a :: after) := by
      rw [isOrder, isFirst, append_assoc, cons_append]
    obtain ⟨listed, isListed, allBefore⟩ := ordered before _ _ atMiddle
    rw [isNeeded] at isListed
    cases isListed
    rw [isFirst]
    exact mem_append_left _ (allBefore _ mem)

theorem Ordered.exists_of_mem (ordered : Ordered deps order)
    {a : α} (mem : a ∈ order) : (deps a).isSome = true := by
  obtain ⟨first, after, isOrder⟩ := append_of_mem mem
  obtain ⟨needed, isNeeded, -⟩ := ordered first a after isOrder
  rw [isNeeded]
  rfl

theorem Ordered.resolvable (ordered : Ordered deps order)
    (nodup : order.Nodup) {a : α} (mem : a ∈ order) :
    Resolvable deps a := by
  have closed : ∀ b, Relation.TransGen (Needs deps) a b → b ∈ order := by
    intro b reaches
    obtain ⟨first, after, isOrder⟩ := append_of_mem mem
    rw [isOrder]
    exact mem_append_left _ (ordered.before isOrder reaches)
  refine ⟨ordered.exists_of_mem mem, ?_, ?_⟩
  · intro b reaches
    exact ordered.exists_of_mem (closed b reaches)
  · intro b reaches cycle
    obtain ⟨first, after, isOrder⟩ := append_of_mem (closed b reaches)
    have earlier := ordered.before isOrder cycle
    rw [isOrder] at nodup
    exact (nodup_append.mp nodup).2.2 b earlier b mem_cons_self rfl

/-! ## Enough levels -/

theorem WellMarked.path_length
    (complete : ∀ a, (deps a).isSome = true → a ∈ nodes)
    (marked : WellMarked deps marks) :
    marks.visiting.length ≤ nodes.length := by
  have subset : marks.visiting ⊆ nodes := fun a mem =>
    complete a (marked.known a mem)
  exact (marked.path.subperm subset).length_le

theorem visitAll_isSome {visit : α → Marks α → Option (Bool × Marks α)}
    (visits : Visits deps visit) {length : Nat} (list : List α)
    (total : ∀ node marks, WellMarked deps marks →
      marks.visiting.length = length → (visit node marks).isSome = true)
    (marked : WellMarked deps marks)
    (isLength : marks.visiting.length = length) :
    (visitAll visit list marks).isSome = true := by
  induction list generalizing marks with
  | nil => rfl
  | cons first rest ih =>
    simp only [visitAll]
    have returns := total first marks marked isLength
    split
    next missing =>
      rw [missing] at returns
      cases returns
    · rfl
    next middle visited =>
      have step := (visits first marks _ _ marked visited).1
      exact ih step.marked (by rw [step.path, isLength])

theorem visit_isSome [DecidableEq α]
    (complete : ∀ a, (deps a).isSome = true → a ∈ nodes)
    {levels : Nat} (node : α)
    (marked : WellMarked deps marks)
    (enough : nodes.length < levels + marks.visiting.length) :
    (visit deps levels node marks).isSome = true := by
  induction levels generalizing node marks with
  | zero =>
    have bound := marked.path_length complete
    omega
  | succ levels ih =>
    simp only [visit]
    split_ifs with isDone isVisiting
    · rfl
    · rfl
    · split
      · rfl
      next needed isNeeded =>
        have entered := marked.enter isNeeded isDone isVisiting
        have returns := visitAll_isSome (visits_visit levels) needed
          (fun node marks marked isLength =>
            ih node marked (by
              rw [isLength, length_append, length_singleton]
              omega))
          entered rfl
        split
        next missing =>
          rw [missing] at returns
          cases returns
        · rfl
        · rfl

theorem visitEach_spec [DecidableEq α]
    (complete : ∀ a, (deps a).isSome = true → a ∈ nodes)
    {levels : Nat} (enough : nodes.length < levels)
    {list : List α} (marked : WellMarked deps marks)
    (start : marks.visiting = []) :
    ∃ after, visitEach deps levels list marks = some after ∧ Advances deps marks after ∧
      ∀ node ∈ list, Resolvable deps node → node ∈ after.done := by
  induction list generalizing marks with
  | nil =>
    refine ⟨marks, rfl, Advances.refl marked, ?_⟩
    intro node mem
    cases mem
  | cons first rest ih =>
    have returns := visit_isSome complete first marked (by rw [start]; exact enough)
    obtain ⟨⟨ok, middle⟩, visited⟩ := Option.isSome_iff_exists.mp returns
    obtain ⟨step, isDone⟩ := visits_visit levels first marks ok middle marked visited
    obtain ⟨after, result, others, allDone⟩ := ih step.marked (step.path.trans start)
    refine ⟨after, ?_, step.trans others, ?_⟩
    · simp only [visitEach, visited]
      exact result
    · intro node mem resolvable
      rcases mem_cons.mp mem with isFirst | later
      · subst isFirst
        cases ok with
        | true => exact others.mem (isDone rfl)
        | false =>
          have reached : Reached deps marks node := by
            intro v onPath
            rw [start] at onPath
            cases onPath
          exact absurd resolvable (visit_false marked reached visited)
      · exact allDone node later resolvable

/-! ## How far a visit reaches -/

theorem visitAll_reaches {visit : α → Marks α → Option (Bool × Marks α)}
    (reaches : ∀ node marks ok after, visit node marks = some (ok, after) →
      ∀ a ∈ after.done, a ∈ marks.done ∨ Relation.ReflTransGen (Needs deps) node a)
    {after : Marks α} {ok : Bool}
    (result : visitAll visit nodes marks = some (ok, after)) :
    ∀ a ∈ after.done, a ∈ marks.done ∨
      ∃ node ∈ nodes, Relation.ReflTransGen (Needs deps) node a := by
  induction nodes generalizing marks with
  | nil =>
    cases result
    exact fun a mem => Or.inl mem
  | cons first rest ih =>
    simp only [visitAll] at result
    split at result
    · cases result
    next middle visited =>
      cases result
      intro a mem
      exact (reaches first marks _ _ visited a mem).imp_right
        fun leads => ⟨first, mem_cons_self, leads⟩
    next middle visited =>
      intro a mem
      rcases ih result a mem with earlier | ⟨node, inRest, leads⟩
      · exact (reaches first marks _ _ visited a earlier).imp_right
          fun leads => ⟨first, mem_cons_self, leads⟩
      · exact Or.inr ⟨node, mem_cons_of_mem _ inRest, leads⟩

theorem visit_reaches [DecidableEq α] {levels : Nat} {node : α} {after : Marks α}
    {ok : Bool} (result : visit deps levels node marks = some (ok, after)) :
    ∀ a ∈ after.done, a ∈ marks.done ∨ Relation.ReflTransGen (Needs deps) node a := by
  induction levels generalizing node marks after ok with
  | zero => cases result
  | succ levels ih =>
    simp only [visit] at result
    split_ifs at result with isDone isVisiting
    · cases result
      exact fun a mem => Or.inl mem
    · cases result
      exact fun a mem => Or.inl mem
    · split at result
      · cases result
        exact fun a mem => Or.inl mem
      next needed isNeeded =>
        have below : ∀ {ok middle}, visitAll (visit deps levels) needed
            { marks with visiting := marks.visiting ++ [node] } = some (ok, middle) →
            ∀ a ∈ middle.done, a ∈ marks.done ∨ Relation.ReflTransGen (Needs deps) node a := by
          intro ok middle visited a mem
          rcases visitAll_reaches (fun _ _ _ _ visited => ih visited) visited a mem with
            earlier | ⟨dep, isDep, leads⟩
          · exact Or.inl earlier
          · exact Or.inr (.head ⟨needed, isNeeded, isDep⟩ leads)
        split at result
        · cases result
        next middle visited =>
          cases result
          exact fun a mem => below visited a mem
        next middle visited =>
          cases result
          intro a mem
          rcases mem_append.mp mem with earlier | isNode
          · exact below visited a earlier
          · rw [mem_singleton.mp isNode]
            exact Or.inr .refl

theorem exists_path_of_visit_none [DecidableEq α] {root : α} {levels : Nat} {node : α}
    (marked : WellMarked deps marks)
    (path : ∀ a ∈ marks.visiting, Relation.ReflTransGen (Needs deps) root a)
    (leads : Relation.ReflTransGen (Needs deps) root node)
    (result : visit deps levels node marks = Option.none) :
    ∃ list : List α, list.Nodup ∧ list.length = levels + marks.visiting.length ∧
      ∀ a ∈ list, Relation.ReflTransGen (Needs deps) root a := by
  induction levels generalizing node marks with
  | zero => exact ⟨marks.visiting, marked.path, (Nat.zero_add _).symm, path⟩
  | succ levels ih =>
    simp only [visit] at result
    split_ifs at result with isDone isVisiting
    split at result
    · cases result
    next needed isNeeded =>
      have entered := marked.enter isNeeded isDone isVisiting
      have onPath : ∀ a ∈ marks.visiting ++ [node], Relation.ReflTransGen (Needs deps) root a := by
        intro a mem
        rcases mem_append.mp mem with earlier | isNode
        · exact path a earlier
        · rw [mem_singleton.mp isNode]
          exact leads
      have down : ∀ list : List α, (∀ dep ∈ list, dep ∈ needed) → ∀ marks',
          WellMarked deps marks' → marks'.visiting = marks.visiting ++ [node] →
          visitAll (visit deps levels) list marks' = Option.none →
          ∃ list : List α, list.Nodup ∧ list.length = levels + (marks.visiting.length + 1) ∧
            ∀ a ∈ list, Relation.ReflTransGen (Needs deps) root a := by
        intro list
        induction list with
        | nil => exact fun _ _ _ _ none => by cases none
        | cons first rest ihList =>
          intro all marks' marked' isPath none
          simp only [visitAll] at none
          split at none
          next stuck =>
            have longer := ih marked' (isPath ▸ onPath)
              (leads.tail ⟨needed, isNeeded, all first mem_cons_self⟩) stuck
            rwa [isPath, length_append, length_singleton] at longer
          · cases none
          next middle visited =>
            have step := (visits_visit levels first marks' _ _ marked' visited).1
            exact ihList (fun dep mem => all dep (mem_cons_of_mem _ mem)) middle
              step.marked (step.path.trans isPath) none
      split at result
      next stuck =>
        obtain ⟨list, nodup, size, all⟩ := down needed (fun _ h => h) _ entered rfl stuck
        exact ⟨list, nodup, by omega, all⟩
      · cases result
      · cases result

end Cix.Lib.DepthFirst
