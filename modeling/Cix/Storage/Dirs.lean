import Cix.Storage.Faithful

/-!
# Making and removing directories

`cix_mkdir_p` of `include/pathutil.h` and `persist_remove_tree` of
`daemon/src/persist.c`.  A removal may stop at what cannot be removed; what it
leaves is an input.
-/

namespace Cix.Storage

open Cix.Lib List

/-- `mkdir` for one directory after the other below `at_`. -/
def mkdirs (d : Daemon) (c : Copying) (at_ : Path) : Path → Outcome
  | [] => (c, true)
  | name :: rest =>
    Outcome.andThen (makeDir d c (at_ ++ [name])) fun c =>
      mkdirs d c (at_ ++ [name]) rest

def mkdirP (d : Daemon) (c : Copying) (path : Path) : Outcome :=
  mkdirs d c [] path

/-- Everything at and below a place is removed, apart from what could not be
and the directories in which that lies. -/
def removeBelow (fs : Host) (place : Path) (left : List Path) : Host :=
  fun path =>
    if place <+: path ∧ ¬ ∃ kept ∈ left, path <+: kept then none else fs path

/-- `persist_remove_tree`. `rmdir` of `.` or `..` fails, and the directory stays. -/
def persistRemoveTree (fs : Host) (path : List (Comp CStr)) (left : List Path) : Host :=
  match fs.resolve path with
  | none => fs
  | some place =>
    if place ≠ [] ∧ fs place = none then fs
    else
      match path.getLast? with
      | some (.name last) =>
        match fs.resolve path.dropLast with
        | none => fs
        | some dir => removeBelow fs (dir ++ [last]) left
      | _ => removeBelow fs place (place :: left)

variable {path : Path}

def Free (fs : Host) (path : Path) : Prop :=
  ∀ initial, initial <+: path → DirFits (fs initial)

variable {fs : Host}

theorem Free.of_prefix {initial : Path} (free : Free fs path)
    (isPrefix : initial <+: path) : Free fs initial :=
  fun shorter begins => free shorter (begins.trans isPrefix)

theorem walkWith_free
    {follow : Path → List (Comp CStr) → Option Path} (at_ path : Path)
    (free : Free fs (at_ ++ path)) :
    Files.walkWith fs follow at_ (path.map Comp.name) = none ∨
      Files.walkWith fs follow at_ (path.map Comp.name) = some (at_ ++ path) := by
  induction path generalizing at_ with
  | nil =>
    right
    rw [map_nil, Files.walkWith, append_nil]
  | cons name path ih =>
    have moved : at_ ++ name :: path = at_ ++ [name] ++ path := by simp
    have fits := free (at_ ++ [name]) (moved ▸ prefix_append _ _)
    rw [map_cons, Files.walkWith]
    cases holds : fs (at_ ++ [name]) with
    | none =>
      cases path with
      | nil => exact Or.inr rfl
      | cons next rest => exact Or.inl rfl
    | some entry =>
      rw [holds] at fits
      cases entry with
      | dir attr =>
        rw [moved] at free ⊢
        exact ih _ free
      | file attr content => exact fits.elim
      | link attr target => exact fits.elim
      | node attr kind => exact fits.elim

theorem resolve_free (free : Free fs path) : fs.resolve (path.map Comp.name) = none ∨
      fs.resolve (path.map Comp.name) = some path := by
  obtain ⟨follow, isWalk⟩ := Files.walk_eq fs Files.maxLinks
  rw [Files.resolve, isWalk]
  exact walkWith_free [] path free

theorem persistRemoveTree_free {name : CStr} (left : List Path)
    (free : Free fs (path ++ [name])) :
    persistRemoveTree fs ((path ++ [name]).map Comp.name) left = fs ∨
      persistRemoveTree fs ((path ++ [name]).map Comp.name) left =
        removeBelow fs (path ++ [name]) left := by
  rw [persistRemoveTree]
  rcases resolve_free free with nowhere | found
  · rw [nowhere]
    exact Or.inl rfl
  · rw [found]
    dsimp only
    split
    next => exact Or.inl rfl
    next =>
      have shorter := free.of_prefix (prefix_append path [name])
      rw [map_append, map_singleton, getLast?_concat, dropLast_concat]
      dsimp only
      rcases resolve_free shorter with nowhere | found'
      · rw [nowhere]
        exact Or.inl rfl
      · rw [found']
        exact Or.inr rfl

theorem removal_other (left : List Path) (nonempty : path ≠ [])
    (free : Free fs path) (other : Path) :
    persistRemoveTree fs (path.map Comp.name) left other = fs other ∨
      (persistRemoveTree fs (path.map Comp.name) left other = none ∧ path <+: other) := by
  obtain ⟨initial, name, rfl⟩ : ∃ initial name, path = initial ++ [name] :=
    ⟨path.dropLast, path.getLast nonempty, (dropLast_concat_getLast nonempty).symm⟩
  rcases persistRemoveTree_free left free with nothing | removed
  · rw [nothing]
    exact Or.inl rfl
  · rw [removed, removeBelow]
    split
    next isGone => exact Or.inr ⟨rfl, isGone.1⟩
    next => exact Or.inl rfl

theorem Free.removal (left : List Path) (nonempty : path ≠ []) (free : Free fs path) :
    Free (persistRemoveTree fs (path.map Comp.name) left) path := by
  intro initial isPrefix
  rcases removal_other left nonempty free initial with same | ⟨gone, -⟩
  · rw [same]
    exact free initial isPrefix
  · rw [gone]
    trivial

structure Makes (path : Path) (c c' : Copying) : Prop where
  kept : ∀ other, c.fs other ≠ none → c'.fs other = c.fs other
  made : ∀ other, c'.fs other = c.fs other ∨
    (other <+: path ∧ ∃ attr, c'.fs other = some (.dir attr))

theorem Makes.refl (path : Path) (c : Copying) : Makes path c c where
  kept _ _ := rfl
  made _ := Or.inl rfl

theorem Makes.trans {c c' c'' : Copying} (first : Makes path c c') (second : Makes path c' c'') :
    Makes path c c'' where
  kept other present := by
    have present' : c'.fs other ≠ none := by
      rw [first.kept other present]
      exact present
    rw [second.kept other present', first.kept other present]
  made other := by
    rcases second.made other with same | isDir
    · rw [same]
      exact first.made other
    · exact Or.inr isDir

def Daemon.KeepsGroup (d : Daemon) (a : Attr) : Prop := d.newGroup a = d.gid

theorem keepsGroup_default (d : Daemon) : d.KeepsGroup { uid := 0, gid := 0, mode := 493 } :=
  rfl

variable {parent : Attr}

theorem keepsGroup_createdDir {d : Daemon}
    (keeps : d.KeepsGroup parent) : d.KeepsGroup (d.createdDir parent) := by
  unfold Daemon.KeepsGroup at *
  rw [Daemon.newGroup]
  split
  · exact keeps
  · rfl

theorem keepsGroup_entered {d : Daemon}
    {place : Path} (keeps : d.KeepsGroup parent)
    (keeps' : d.KeepsGroup (dirAttr fs place)) :
    d.KeepsGroup (d.entered parent (fs place)) := by
  cases holds : fs place with
  | none => exact keepsGroup_createdDir keeps
  | some entry =>
    cases entry with
    | dir attr =>
      rw [dirAttr, holds] at keeps'
      exact keeps'
    | file attr content => exact keepsGroup_createdDir keeps
    | link attr target => exact keepsGroup_createdDir keeps
    | node attr kind => exact keepsGroup_createdDir keeps

theorem makeDir_makes {c c' : Copying} {dir : Path} {name : CStr}
    {d : Daemon} (begins : dir ++ [name] <+: path)
    (fits : DirFits (c.fs (dir ++ [name]))) (put : Put c c' (dir ++ [name])
      (.dir (d.entered parent (c.fs (dir ++ [name]))))) : Makes path c c' := by
  constructor
  · intro other present
    by_cases same : other = dir ++ [name]
    · rw [same, put.here]
      rw [same] at present
      cases holds : c.fs (dir ++ [name]) with
      | none => exact absurd holds present
      | some entry =>
        rw [holds] at fits
        cases entry with
        | dir attr => rfl
        | file attr content => exact fits.elim
        | link attr target => exact fits.elim
        | node attr kind => exact fits.elim
    · exact put.other same
  · intro other
    by_cases same : other = dir ++ [name]
    · right
      rw [same]
      exact ⟨begins, _, put.here⟩
    · exact Or.inl (put.other same)

theorem Makes.free {path : Path} {c c' : Copying} (makes : Makes path c c')
    {other : Path} (free : Free c.fs other) : Free c'.fs other := by
  intro initial isPrefix
  rcases makes.made initial with same | ⟨-, attr, isDir⟩
  · rw [same]
    exact free initial isPrefix
  · rw [isDir]
    trivial

def Daemon.Grouped (d : Daemon) (fs : Host) (path : Path) : Prop :=
  ∀ initial, initial <+: path → d.KeepsGroup (dirAttr fs initial)

theorem mkdirs_makes {d : Daemon} {c : Copying} (at_ path : Path)
    (real : c.fs.Real at_) (free : Free c.fs (at_ ++ path)) :
    ∃ c', mkdirs d c at_ path = (c', true) ∧ Makes (at_ ++ path) c c' ∧ c'.fs.Real (at_ ++ path) ∧
      ∀ other, d.Grouped c.fs other → d.Grouped c'.fs other := by
  induction path generalizing c at_ with
  | nil =>
    refine ⟨c, rfl, Makes.refl _ _, ?_, fun _ grouped => grouped⟩
    rw [append_nil]
    exact real
  | cons name path ih =>
    have moved : at_ ++ name :: path = at_ ++ [name] ++ path := by simp
    have begins : at_ ++ [name] <+: at_ ++ name :: path := moved ▸ prefix_append _ _
    have fits := free _ begins
    obtain ⟨c₁, isFirst, put⟩ := makeDir_put (d := d) real fits
    have makes := makeDir_makes begins fits put
    have groups : ∀ other, d.Grouped c.fs other → d.Grouped c₁.fs other := by
      intro other grouped initial isPrefix
      by_cases same : initial = at_ ++ [name]
      · rw [same] at isPrefix
        rw [same, dirAttr, put.here]
        exact keepsGroup_entered (grouped at_ ((prefix_append _ _).trans isPrefix))
          (grouped _ isPrefix)
      · rw [dirAttr_congr (put.other same)]
        exact grouped initial isPrefix
    have free₁ := makes.free free
    rw [moved] at free₁
    obtain ⟨c', isRest, makes', real', groups'⟩ := ih
      (at_ ++ [name]) ((put.real real).snoc (Or.inr ⟨_, put.here⟩)) free₁
    rw [← moved] at makes' real'
    refine ⟨c', ?_, makes.trans makes', real', ?_⟩
    · rw [mkdirs, isFirst, Outcome.andThen, if_pos rfl]
      exact isRest
    · intro other grouped
      exact groups' other (groups other grouped)

theorem mkdirP_makes {d : Daemon} {c : Copying} (free : Free c.fs path) :
    ∃ c', mkdirP d c path = (c', true) ∧ Makes path c c' ∧ c'.fs.Real path ∧
      ∀ other, d.Grouped c.fs other → d.Grouped c'.fs other := by
  have real : c.fs.Real [] := by
    intro initial isPrefix
    exact Or.inl (prefix_nil.mp isPrefix)
  exact mkdirs_makes [] path real free

theorem kinds_of_empty (forest : Forest) {dir : Path}
    (empty : ∀ name rel, fs (dir ++ name :: rel) = none) :
    forest.Kinds fs dir := by
  induction forest generalizing dir with
  | nil => trivial
  | leaf name item rest ih =>
    refine ⟨?_, ih empty⟩
    rw [empty name []]
    trivial
  | dir name attr inner rest innerHypothesis ih =>
    refine ⟨?_, innerHypothesis ?_, ih empty⟩
    · rw [empty name []]
      trivial
    · intro name' rel
      rw [append_assoc]
      exact empty name (name' :: rel)

theorem owners_of_empty {d : Daemon} (forest : Forest)
    {dir : Path} (keeps : d.KeepsGroup parent)
    (empty : ∀ name rel, fs (dir ++ name :: rel) = none) :
    forest.Owners d fs dir parent := by
  induction forest generalizing dir parent with
  | nil => trivial
  | leaf name item rest ih =>
    refine ⟨?_, ih keeps empty⟩
    rw [empty name []]
    cases item with
    | file attr content => exact fun _ => keeps
    | link uid gid target => exact fun _ _ => keeps
    | node attr kind => exact fun _ => keeps
  | dir name attr inner rest innerHypothesis ih =>
    refine ⟨?_, ih keeps empty⟩
    rw [empty name []]
    refine ⟨fun _ => keeps, innerHypothesis (keepsGroup_createdDir keeps) ?_⟩
    intro name' rel
    rw [append_assoc]
    exact empty name (name' :: rel)

end Cix.Storage
