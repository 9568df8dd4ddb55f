import Cix.Storage.Dirs

/-!
# Copying into an empty directory, and once more

A copy into a directory that holds nothing writes below it only, at every
moment, and ends as what was copied.  A second copy of the same tree, which is
the last pass of a move, then changes nothing, provided that no link of the
daemon lies in a directory that gives its group away: the link is made anew and
takes the group.
-/

namespace Cix.Storage

open Cix.Lib List

variable {d : Daemon} {fs : Host} {forest : Forest} {sourceRoot root dir : Path} {parent : Attr}

namespace Forest

theorem lookup_except (forest : Forest) (skip : List CStr) (name : CStr) (rel : Path) :
    (forest.except skip).lookup (name :: rel) =
      if name ∈ skip then none else forest.lookup (name :: rel) := by
  induction forest with
  | nil => exact (ite_self _).symm
  | leaf first item rest ih =>
    by_cases isHere : name :: rel = [first]
    · obtain ⟨rfl, rfl⟩ := List.cons.inj isHere
      by_cases skipped : name ∈ skip
      · rw [except, if_pos skipped, ih, if_pos skipped, if_pos skipped]
      · rw [except, if_neg skipped, if_neg skipped, lookup, lookup]
        rw [if_pos rfl, if_pos rfl]
    · rw [except, lookup, if_neg isHere]
      split
      · exact ih
      · rw [lookup, if_neg isHere, ih]
  | dir first attr inner rest _ ih =>
    by_cases isHere : name = first
    · subst isHere
      by_cases skipped : name ∈ skip
      · rw [except, if_pos skipped, ih, if_pos skipped, if_pos skipped]
      · rw [except, if_neg skipped, if_neg skipped, lookup, lookup]
        rw [if_pos rfl, if_pos rfl]
    · rw [except, lookup, if_neg isHere]
      split
      · exact ih
      · rw [lookup, if_neg isHere, ih]

theorem names_except (forest : Forest) (skip : List CStr) :
    (forest.except skip).names ⊆ forest.names := by
  induction forest with
  | nil => exact Subset.refl _
  | leaf first item rest ih =>
    rw [except]
    split
    · exact subset_cons_of_subset _ ih
    · exact cons_subset_cons _ ih
  | dir first attr inner rest _ ih =>
    rw [except]
    split
    · exact subset_cons_of_subset _ ih
    · exact cons_subset_cons _ ih

theorem Distinct.except (skip : List CStr) (distinct : forest.Distinct) :
    (forest.except skip).Distinct := by
  induction forest with
  | nil => trivial
  | leaf first item rest ih =>
    rw [Forest.except]
    split
    · exact ih distinct.2
    · exact ⟨fun mem => distinct.1 (names_except rest skip mem), ih distinct.2⟩
  | dir first attr inner rest _ ih =>
    rw [Forest.except]
    split
    · exact ih distinct.2.2
    · exact ⟨fun mem => distinct.1 (names_except rest skip mem), distinct.2.1, ih distinct.2.2⟩

/-- No link that belongs to the daemon lies in a directory that gives what is
made in it another group. -/
def LinksKept (d : Daemon) (parent : Attr) : Forest → Prop
  | .nil => True
  | .leaf _ item rest =>
    (match item with
      | .link uid gid _ => uid = d.uid → gid = d.gid → d.KeepsGroup parent
      | _ => True) ∧ rest.LinksKept d parent
  | .dir _ attr inner rest => inner.LinksKept d attr ∧ rest.LinksKept d parent

theorem fits_of_copied (distinct : forest.Distinct) (copied : forest.Copied fs dir) :
    forest.Kinds fs dir ∧ (forest.LinksKept d parent → forest.Owners d fs dir parent) := by
  induction forest generalizing dir parent with
  | nil => exact ⟨trivial, fun _ => trivial⟩
  | leaf name item rest ih =>
    have here := copied [name] item.entry (if_pos rfl)
    obtain ⟨kinds, owners⟩ := @ih dir parent distinct.2 fun rel entry found => copied rel entry (by
      rw [lookup, if_neg, found]
      rintro rfl
      exact distinct.1 (mem_names_of_lookup found))
    refine ⟨⟨?_, kinds⟩, fun kept => ⟨?_, owners kept.2⟩⟩
    · rw [here]
      cases item <;> trivial
    · rw [here]
      cases item with
      | file attr content => exact id
      | link uid gid target => exact kept.1
      | node attr kind => exact id
  | dir name attr inner rest innerHypothesis ih =>
    have here := copied [name] (.dir attr) (by rw [lookup, if_pos rfl, if_pos rfl])
    obtain ⟨below, belowOwners⟩ := @innerHypothesis (dir ++ [name]) attr distinct.2.1
      fun rel entry found => by
        rw [append_assoc]
        exact copied (name :: rel) entry (lookup_inner found)
    obtain ⟨kinds, owners⟩ := @ih dir parent distinct.2.2 fun rel entry found =>
      copied rel entry (lookup_rest distinct.1 found)
    refine ⟨⟨?_, below, kinds⟩, fun kept => ⟨?_, owners kept.2⟩⟩
    · rw [here]
      trivial
    · rw [here]
      exact ⟨id, belowOwners kept.1⟩

end Forest

/-- Nothing but what is below the root has changed or was written to. -/
structure Confined (root : Path) (fs : Host) (c : Copying) : Prop where
  other : ∀ path, (∀ name rel, path ≠ root ++ name :: rel) → c.fs path = fs path
  written : ∀ path ∈ c.written, ∃ name rel, path = root ++ name :: rel

theorem confined_of_touches {c : Copying} (touches : Touches (forest.places root) ⟨fs, []⟩ c) :
    Confined root fs c := by
  have below : ∀ path ∈ forest.places root, ∃ name rel, path = root ++ name :: rel := by
    rintro path ⟨rel, entry, rfl, found⟩
    cases rel with
    | nil => simp at found
    | cons name rel => exact ⟨name, rel, rfl⟩
  constructor
  · intro path outside
    apply touches.other
    intro inside
    obtain ⟨name, rel, same⟩ := below path inside
    exact outside name rel same
  · intro path mem
    rcases touches.written path mem with inside | before
    · exact below path inside
    · cases before

theorem treecopy_again {source : Forest} (skip : List CStr) (distinct : source.Distinct)
    (fits : (source.except skip).Fits sourceRoot root)
    (real : fs.Real root) (kept : (source.except skip).LinksKept d (dirAttr fs root))
    (there : ∀ name rel, name ∉ skip → ∀ entry ∈ source.lookup (name :: rel),
      fs (root ++ name :: rel) = some entry) :
    ∃ c, treecopyRecursiveExcept d fs source sourceRoot root skip = some (c, true) ∧
      c.fs = fs := by
  have lies : (source.except skip).Copied fs root := by
    intro rel entry found
    cases rel with
    | nil => simp at found
    | cons name rel =>
      rw [Forest.lookup_except] at found
      split_ifs at found with kept
      exact there name rel kept entry found
  obtain ⟨kinds, owners⟩ := Forest.fits_of_copied (distinct.except skip) lies
  obtain ⟨c, isSteps, touches, copied⟩ := @copiesTo d root (source.except skip) ⟨fs, []⟩ [] root
    ((source.except skip).steps []).length (append_nil _) (distinct.except skip) real kinds
  rw [take_length] at isSteps
  refine ⟨c, by rw [treecopyRecursiveExcept, if_pos fits, isSteps], funext fun path => ?_⟩
  by_cases inside : path ∈ (source.except skip).places root
  · obtain ⟨rel, entry, rfl, found⟩ := inside
    rw [copied (Nat.le_refl _) (owners kept) rel entry found]
    exact (lies rel entry found).symm
  · exact touches.other path inside

/-- A copy into an empty directory whose paths are not cut writes below it only,
after any number of steps, and ends as what was copied; where the links keep
their group, copying it once more changes nothing. -/
theorem treecopy_faithful {source : Forest} (skip : List CStr) (distinct : source.Distinct)
    (fits : (source.except skip).Fits sourceRoot root)
    (real : fs.Real root) (keeps : d.KeepsGroup (dirAttr fs root))
    (empty : ∀ name rel, fs (root ++ name :: rel) = none) :
    (∀ k, ∃ c, copySteps d root ⟨fs, []⟩ (((source.except skip).steps []).take k) = (c, true) ∧
      Confined root fs c) ∧
    ∃ c, treecopyRecursiveExcept d fs source sourceRoot root skip = some (c, true) ∧
      (∀ name rel, c.fs (root ++ name :: rel) =
        if name ∈ skip then none else source.lookup (name :: rel)) ∧
      ((source.except skip).LinksKept d (dirAttr fs root) →
        ∃ c', treecopyRecursiveExcept d c.fs source sourceRoot root skip = some (c', true) ∧
          c'.fs = c.fs) := by
  have copies := fun k => @copiesTo d root (source.except skip) ⟨fs, []⟩ [] root k (append_nil _)
    (distinct.except skip) real (kinds_of_empty _ empty)
  constructor
  · intro k
    obtain ⟨c, isSteps, touches, -⟩ := copies k
    exact ⟨c, isSteps, confined_of_touches touches⟩
  obtain ⟨c, isSteps, touches, copied⟩ := copies ((source.except skip).steps []).length
  rw [take_length] at isSteps
  have outside : ∀ initial, initial <+: root → initial ∉ (source.except skip).places root :=
    fun _ isPrefix mem => Forest.not_prefix_of_mem_places mem isPrefix
  have lies : ∀ name rel, c.fs (root ++ name :: rel) =
      if name ∈ skip then none else source.lookup (name :: rel) := by
    intro name rel
    rw [← Forest.lookup_except]
    cases found : (source.except skip).lookup (name :: rel) with
    | some entry =>
      exact copied (Nat.le_refl _) (owners_of_empty _ keeps empty) (name :: rel) entry found
    | none =>
      rw [touches.other]
      · exact empty name rel
      · rintro ⟨rel', entry, same, found'⟩
        rw [← append_cancel_left same, found] at found'
        cases found'
  refine ⟨c, by rw [treecopyRecursiveExcept, if_pos fits, isSteps], lies, fun kept => ?_⟩
  apply treecopy_again skip distinct fits (touches.real real outside)
  · rw [dirAttr_congr (touches.other root (outside root (prefix_refl _)))]
    exact kept
  · intro name rel spared entry found
    rw [lies, if_neg spared]
    exact found

def cixd : Daemon where
  uid := 0
  gid := 0
  umask := 18
  opens := fun _ => false

/-- A disk with an empty directory `srv`. -/
def emptyDisk : Host :=
  fun path => if path = ["srv"] then some (.dir ⟨0, 0, 493⟩) else none

/-- A home with a key and a link to it, on a volume with a directory of its own. -/
def homeVolume : Forest :=
  .dir "lost+found" ⟨0, 0, 448⟩ .nil <| .dir "home" ⟨5, 5, 448⟩
    (.leaf "key" (.file ⟨5, 5, 384⟩ [1]) <|
      .leaf "last" (.link 5 5 ⟨false, [.name "key"]⟩) .nil) .nil

theorem homeVolume_copied :
    ∃ c, treecopyRecursiveExcept cixd emptyDisk homeVolume ["vol"] ["srv"] ["lost+found"] =
        some (c, true) ∧
      c.fs ["srv", "lost+found"] = none ∧ c.fs ["srv", "home"] = some (.dir ⟨5, 5, 448⟩) ∧
      c.fs ["srv", "home", "key"] = some (.file ⟨5, 5, 384⟩ [1]) ∧
      c.fs ["srv", "home", "last"] = some (.link ⟨5, 5, linkMode⟩ ⟨false, [.name "key"]⟩) ∧
      ∃ c', treecopyRecursiveExcept cixd c.fs homeVolume ["vol"] ["srv"] ["lost+found"] =
        some (c', true) ∧ c'.fs = c.fs := by
  have distinct : homeVolume.Distinct := by
    simp [homeVolume, Forest.Distinct, Forest.names, show ("lost+found" : CStr) ≠ "home" by decide,
      show ("key" : CStr) ≠ "last" by decide]
  have real : emptyDisk.Real ["srv"] := by
    intro initial isPrefix
    rcases prefix_cons_iff.mp isPrefix with rfl | ⟨rest, rfl, none⟩
    · exact Or.inl rfl
    · obtain rfl := prefix_nil.mp none
      exact Or.inr ⟨_, rfl⟩
  obtain ⟨c, isCopy, lies, again⟩ := (@treecopy_faithful cixd emptyDisk ["vol"] ["srv"] homeVolume
    ["lost+found"] distinct (by decide) real rfl (fun name rel => by simp [emptyDisk])).2
  have spared : ("home" : CStr) ∉ [("lost+found" : CStr)] := by decide
  refine ⟨c, isCopy, ?_, ?_, ?_, ?_, again ?_⟩
  · exact lies "lost+found" []
  · exact lies "home" []
  · exact lies "home" ["key"]
  · exact lies "home" ["last"]
  · simp [homeVolume, Forest.except, Forest.LinksKept, spared, cixd]

end Cix.Storage
