import Mathlib.Data.Set.Basic
import Cix.Storage.Treecopy

/-!
# When a copy is what was copied

Where the target holds nothing, or an entry of the same kind, at every name of
the source, each step of the copy writes to its own name and to no other place.
What the source holds is then in the target, and so is its owner, unless the
daemon is the owner there and the target had another one.
-/

namespace Cix.Storage

open Cix.Lib List

/-! ## What the target may hold -/

def Daemon.Owns (d : Daemon) (a : Attr) : Prop := a.uid = d.uid ∧ a.gid = d.gid

def DirFits : Option FileEntry → Prop
  | none => True
  | some (.dir _) => True
  | some _ => False

/-- What may stand in the place of another entry: an entry of the same kind,
and in that of a link everything but a directory. -/
def LeafFits (item : Leaf) : Option FileEntry → Prop
  | none => True
  | some (.dir _) => False
  | some (.file _ _) =>
    match item with
    | .node _ _ => False
    | _ => True
  | some (.link _ _) =>
    match item with
    | .link _ _ _ => True
    | _ => False
  | some (.node _ kind) =>
    match item with
    | .file _ _ => False
    | .link _ _ _ => True
    | .node _ kind' => kind' = kind

def Forest.Kinds (fs : Host) (dir : Path) : Forest → Prop
  | .nil => True
  | .leaf name item rest => LeafFits item (fs (dir ++ [name])) ∧ rest.Kinds fs dir
  | .dir name _ inner rest =>
    DirFits (fs (dir ++ [name])) ∧ inner.Kinds fs (dir ++ [name]) ∧ rest.Kinds fs dir

/-- What the daemon owns in the source it owns in the target, or makes in a
directory that does not give it another group. -/
def OwnerKept (d : Daemon) (parent : Attr) (item : Leaf) : Option FileEntry → Prop
  | some (.file a _) =>
    match item with
    | .file attr _ => d.Owns attr → d.Owns a
    | .link uid gid _ => uid = d.uid → gid = d.gid → d.newGroup parent = d.gid
    | .node attr _ => d.Owns attr → d.Owns a
  | some (.node a _) =>
    match item with
    | .node attr _ => d.Owns attr → d.Owns a
    | .link uid gid _ => uid = d.uid → gid = d.gid → d.newGroup parent = d.gid
    | .file attr _ => d.Owns attr → d.Owns a
  | _ =>
    match item with
    | .file attr _ => d.Owns attr → d.newGroup parent = d.gid
    | .link uid gid _ => uid = d.uid → gid = d.gid → d.newGroup parent = d.gid
    | .node attr _ => d.Owns attr → d.newGroup parent = d.gid

/-- The same for all entries; `parent` are the attributes of the directory in
the target. -/
def Forest.Owners (d : Daemon) (fs : Host) (dir : Path) (parent : Attr) : Forest → Prop
  | .nil => True
  | .leaf name item rest =>
    OwnerKept d parent item (fs (dir ++ [name])) ∧ rest.Owners d fs dir parent
  | .dir name attr inner rest =>
    (match fs (dir ++ [name]) with
      | some (.dir a) => (d.Owns attr → d.Owns a) ∧ inner.Owners d fs (dir ++ [name]) a
      | _ =>
        (d.Owns attr → d.newGroup parent = d.gid) ∧
          inner.Owners d fs (dir ++ [name]) (d.createdDir parent)) ∧
      rest.Owners d fs dir parent

/-! ## One write -/

variable {entry : FileEntry} {place : Path} {c' : Copying}

structure Put (c c' : Copying) (place : Path) (entry : FileEntry) : Prop where
  fs : c'.fs = c.fs.write place (some entry)
  written : ∀ path ∈ c'.written, path = place ∨ path ∈ c.written

theorem Put.refl {c : Copying} (holds : c.fs place = some entry) : Put c c place entry where
  fs := by
    rw [← holds]
    exact (Function.update_eq_self place c.fs).symm
  written _ mem := Or.inr mem

theorem put_write (c : Copying) (place : Path) (entry : FileEntry) :
    Put c (c.write place entry) place entry where
  fs := rfl
  written _ mem := mem_cons.mp mem

theorem Put.trans {c c'' : Copying} {entry' : FileEntry}
    (first : Put c c' place entry) (second : Put c' c'' place entry') :
    Put c c'' place entry' where
  fs := by
    rw [second.fs, first.fs]
    exact Function.update_idem ..
  written path mem := by
    rcases second.written path mem with here | before
    · exact Or.inl here
    · exact first.written path before

theorem Put.here {c : Copying} (put : Put c c' place entry) : c'.fs place = some entry := by
  rw [put.fs, Files.write_same]

theorem Put.other {c : Copying} {path : Path} (put : Put c c' place entry)
    (different : path ≠ place) : c'.fs path = c.fs path := by
  rw [put.fs, Files.write_other _ _ different]

theorem not_snoc_initial (dir : Path) (name : CStr) : ¬ dir ++ [name] <+: dir := by
  intro isPrefix
  have size := isPrefix.length_le
  rw [length_append, length_singleton] at size
  omega

theorem Put.real {c c' : Copying} {dir : Path} {name : CStr}
    {entry : FileEntry} (put : Put c c' (dir ++ [name]) entry)
    (real : c.fs.Real dir) : c'.fs.Real dir := by
  rw [put.fs]
  exact Files.Real.write real fun isPrefix =>
    absurd isPrefix (not_snoc_initial dir name)

/-! ## Several writes -/

structure Touches (places : Set Path) (c c' : Copying) : Prop where
  other : ∀ path ∉ places, c'.fs path = c.fs path
  written : ∀ path ∈ c'.written, path ∈ places ∨ path ∈ c.written

theorem Touches.refl (places : Set Path) (c : Copying) : Touches places c c where
  other _ _ := rfl
  written _ mem := Or.inr mem

theorem Touches.trans {places : Set Path} {c c'' : Copying}
    (first : Touches places c c') (second : Touches places c' c'') :
    Touches places c c'' where
  other path outside := by
    rw [second.other path outside, first.other path outside]
  written path mem := by
    rcases second.written path mem with inside | before
    · exact Or.inl inside
    · exact first.written path before

theorem Touches.mono {places larger : Set Path} {c : Copying}
    (touches : Touches places c c') (subset : places ⊆ larger) :
    Touches larger c c' where
  other path outside := touches.other path fun inside => outside (subset inside)
  written path mem := by
    rcases touches.written path mem with inside | before
    · exact Or.inl (subset inside)
    · exact Or.inr before

theorem Put.touches {c : Copying} (put : Put c c' place entry)
    {places : Set Path} (inside : place ∈ places) :
    Touches places c c' where
  other path outside := put.other fun same => outside (same ▸ inside)
  written path mem := by
    rcases put.written path mem with here | before
    · exact Or.inl (here ▸ inside)
    · exact Or.inr before

theorem Touches.real {places : Set Path} {c c' : Copying} {dir : Path}
    (touches : Touches places c c') (real : c.fs.Real dir)
    (outside : ∀ initial, initial <+: dir → initial ∉ places) :
    c'.fs.Real dir := by
  intro initial isPrefix
  rcases real initial isPrefix with empty | ⟨attr, isDir⟩
  · exact Or.inl empty
  · right
    exact ⟨attr, by rw [touches.other initial (outside initial isPrefix),
      isDir]⟩

/-! ## The steps -/

variable {attr own : Attr}

section Steps

variable {d : Daemon} {c : Copying} {dir : Path} {name : CStr}

def dirAttr (fs : Host) (dir : Path) : Attr :=
  match fs dir with
  | some (.dir attr) => attr
  | _ => { uid := 0, gid := 0, mode := 493 }

theorem parentAttr_eq : c.parentAttr (dir ++ [name]) = dirAttr c.fs dir := by
  rw [Copying.parentAttr, dropLast_concat]
  rfl

/-- The entry that `apply_owner_and_mode` leaves. -/
def Daemon.settled (d : Daemon) (attr : Attr) (isLink : Bool) (entry : FileEntry) : FileEntry :=
  let owned :=
    if attr.uid ≠ d.uid ∨ attr.gid ≠ d.gid then
      withOwner attr.uid attr.gid entry
    else entry
  if isLink then owned else withMode attr.mode owned

theorem isLink_withOwner {entry : FileEntry} {uid gid : Nat}
    (noLink : ∀ a target, entry ≠ .link a target) :
    ∀ a target, withOwner uid gid entry ≠ .link a target := by
  intro a target
  cases entry with
  | link a' target' => exact absurd rfl (noLink a' target')
  | dir a' => exact fun same => by cases same
  | file a' content => exact fun same => by cases same
  | node a' kind => exact fun same => by cases same

theorem applyOwnerAndMode_put (real : c.fs.Real dir) {entry : FileEntry}
    (holds : c.fs (dir ++ [name]) = some entry) (attr : Attr)
    (isLink : Bool) (noLink : isLink = false → ∀ a target, entry ≠ .link a target) :
    ∃ c', applyOwnerAndMode d c (dir ++ [name]) attr isLink = (c', true) ∧
      Put c c' (dir ++ [name]) (d.settled attr isLink entry) := by
  have owned : ∃ c₁, (if attr.uid ≠ d.uid ∨ attr.gid ≠ d.gid then
        lchown c (dir ++ [name]) attr.uid attr.gid
      else (c, true)) = (c₁, true) ∧
      Put c c₁ (dir ++ [name]) (if attr.uid ≠ d.uid ∨ attr.gid ≠ d.gid then
        withOwner attr.uid attr.gid entry else entry) := by
    by_cases other : attr.uid ≠ d.uid ∨ attr.gid ≠ d.gid
    · rw [if_pos other, if_pos other, lchown, Files.resolveParent_real real]
      dsimp only
      rw [holds]
      exact ⟨_, rfl, put_write _ _ _⟩
    · rw [if_neg other, if_neg other]
      exact ⟨c, rfl, Put.refl holds⟩
  obtain ⟨c₁, isFirst, put⟩ := owned
  rw [applyOwnerAndMode, isFirst, Outcome.andThen, if_pos rfl]
  cases isLink with
  | true => exact ⟨c₁, rfl, put⟩
  | false =>
    have still : ∀ a target, c₁.fs (dir ++ [name]) ≠ some (.link a target) := by
      intro a target same
      rw [put.here] at same
      split at same
      · exact isLink_withOwner (noLink rfl) a target (Option.some.inj same)
      · exact noLink rfl a target (Option.some.inj same)
    dsimp only
    rw [if_neg Bool.false_ne_true, chmod, Files.resolve_snoc (put.real real) still]
    dsimp only
    rw [put.here]
    exact ⟨_, rfl, put.trans (put_write _ _ _)⟩

theorem settled_eq {attr own : Attr} {make : Attr → FileEntry}
    (ownerOf : ∀ a uid gid, withOwner uid gid (make a) = make { a with uid, gid })
    (modeOf : ∀ a mode, withMode mode (make a) = make { a with mode })
    (kept : d.Owns attr → d.Owns own) :
    d.settled attr false (make own) = make attr := by
  rw [Daemon.settled]
  by_cases other : attr.uid ≠ d.uid ∨ attr.gid ≠ d.gid
  · rw [if_pos other, if_neg Bool.false_ne_true, ownerOf, modeOf]
  · rw [if_neg other, if_neg Bool.false_ne_true, modeOf]
    rw [not_or, not_ne_iff, not_ne_iff] at other
    obtain ⟨sameUid, sameGid⟩ := kept other
    obtain ⟨uid, gid⟩ := other
    congr 1
    rw [sameUid, sameGid, ← uid, ← gid]

theorem settled_file (content : List UInt8) (kept : d.Owns attr → d.Owns own) :
    d.settled attr false (.file own content) = .file attr content :=
  @settled_eq d attr own (Entry.file · content) (fun _ _ _ => rfl) (fun _ _ => rfl) kept

theorem settled_node (kind : NodeKind) (kept : d.Owns attr → d.Owns own) :
    d.settled attr false (.node own kind) = .node attr kind :=
  @settled_eq d attr own (Entry.node · kind) (fun _ _ _ => rfl) (fun _ _ => rfl) kept

theorem settled_dir (kept : d.Owns attr → d.Owns own) :
    d.settled attr false (.dir own) = .dir attr :=
  @settled_eq d attr own Entry.dir (fun _ _ _ => rfl) (fun _ _ => rfl) kept

theorem settled_link (target : Link CStr) (sameMode : own.mode = attr.mode)
    (kept : d.Owns attr → d.Owns own) :
    d.settled attr true (.link own target) = .link attr target := by
  rw [Daemon.settled]
  by_cases other : attr.uid ≠ d.uid ∨ attr.gid ≠ d.gid
  · rw [if_pos other, if_pos rfl, withOwner, sameMode]
  · rw [if_neg other, if_pos rfl]
    rw [not_or, not_ne_iff, not_ne_iff] at other
    obtain ⟨sameUid, sameGid⟩ := kept other
    obtain ⟨uid, gid⟩ := other
    congr 1
    cases own
    cases attr
    rw [Attr.mk.injEq]
    exact ⟨sameUid.trans uid.symm, sameGid.trans gid.symm, sameMode⟩

theorem andThen_owner {first : Outcome} {c₁ : Copying} (real : c.fs.Real dir)
    (isFirst : first = (c₁, true)) (put : Put c c₁ (dir ++ [name]) entry)
    (attr : Attr) (isLink : Bool)
    (noLink : isLink = false → ∀ a target, entry ≠ .link a target) :
    ∃ c', Outcome.andThen first (fun c =>
        applyOwnerAndMode d c (dir ++ [name]) attr isLink) = (c', true) ∧
      Put c c' (dir ++ [name]) (d.settled attr isLink entry) := by
  obtain ⟨c', isSecond, second⟩ :=
    applyOwnerAndMode_put (d := d) (put.real real) put.here attr isLink noLink
  refine ⟨c', ?_, put.trans second⟩
  rw [isFirst, Outcome.andThen, if_pos rfl]
  exact isSecond

theorem copyFile_put (real : c.fs.Real dir) {attr : Attr}
    {content : List UInt8}
    (fits : LeafFits (.file attr content) (c.fs (dir ++ [name]))) :
    ∃ c' own, copyFilePreserveMode d c (dir ++ [name]) attr.mode content =
        (c', true) ∧ Put c c' (dir ++ [name]) (.file own content) ∧
      (OwnerKept d (dirAttr c.fs dir) (.file attr content)
        (c.fs (dir ++ [name])) → d.Owns attr → d.Owns own) := by
  have noLink : ∀ a target, c.fs (dir ++ [name]) ≠ some (.link a target) := by
    intro a target same
    rw [same] at fits
    exact fits
  rw [copyFilePreserveMode, Files.resolve_snoc real noLink]
  dsimp only
  cases holds : c.fs (dir ++ [name]) with
  | none =>
    refine ⟨_, _, rfl, put_write _ _ _, ?_⟩
    intro kept owns
    refine ⟨rfl, ?_⟩
    rw [parentAttr_eq]
    exact kept owns
  | some entry =>
    cases entry with
    | file own before => exact ⟨_, own, rfl, put_write _ _ _, fun kept => kept⟩
    | dir own =>
      rw [holds] at fits
      exact fits.elim
    | link own target => exact absurd holds (noLink own target)
    | node own kind =>
      rw [holds] at fits
      exact fits.elim

theorem makeLink_put (real : c.fs.Real dir) {uid gid : Nat}
    {target : Link CStr}
    (fits : LeafFits (.link uid gid target) (c.fs (dir ++ [name]))) :
    ∃ c' own, makeLink d c (dir ++ [name]) target = (c', true) ∧
      Put c c' (dir ++ [name]) (.link own target) ∧ own.mode = linkMode ∧
      (OwnerKept d (dirAttr c.fs dir) (.link uid gid target) (c.fs (dir ++ [name])) →
        d.Owns { uid, gid, mode := linkMode } → d.Owns own) := by
  rw [makeLink, Files.resolveParent_real real]
  dsimp only
  have made : ∀ present, c.fs (dir ++ [name]) = present →
      OwnerKept d (dirAttr c.fs dir) (.link uid gid target) present →
      d.Owns { uid, gid, mode := linkMode } →
      d.Owns { d.created (c.parentAttr (dir ++ [name])) 0 with
        mode := linkMode } := by
    intro present _ kept owns
    refine ⟨rfl, ?_⟩
    rw [parentAttr_eq]
    have group : uid = d.uid → gid = d.gid → d.newGroup (dirAttr c.fs dir) = d.gid := by
      cases present with
      | none => exact kept
      | some entry => cases entry <;> exact kept
    exact group owns.1 owns.2
  cases holds : c.fs (dir ++ [name]) with
  | none => exact ⟨_, _, rfl, put_write _ _ _, rfl, made _ holds⟩
  | some entry =>
    cases entry with
    | dir own =>
      rw [holds] at fits
      exact fits.elim
    | file own content => exact ⟨_, _, rfl, put_write _ _ _, rfl, made _ holds⟩
    | link own before => exact ⟨_, _, rfl, put_write _ _ _, rfl, made _ holds⟩
    | node own kind => exact ⟨_, _, rfl, put_write _ _ _, rfl, made _ holds⟩

theorem makeNode_put (real : c.fs.Real dir) {attr : Attr} {kind : NodeKind}
    (fits : LeafFits (.node attr kind) (c.fs (dir ++ [name]))) :
    ∃ c' own, makeNode d c (dir ++ [name]) attr.mode kind = (c', true) ∧
      Put c c' (dir ++ [name]) (.node own kind) ∧
      (OwnerKept d (dirAttr c.fs dir) (.node attr kind)
        (c.fs (dir ++ [name])) → d.Owns attr → d.Owns own) := by
  rw [makeNode, Files.resolveParent_real real]
  dsimp only
  cases holds : c.fs (dir ++ [name]) with
  | none =>
    refine ⟨_, _, rfl, put_write _ _ _, ?_⟩
    intro kept owns
    refine ⟨rfl, ?_⟩
    rw [parentAttr_eq]
    exact kept owns
  | some entry =>
    rw [holds] at fits
    cases entry with
    | node own before =>
      have same : kind = before := fits
      subst same
      exact ⟨c, own, rfl, Put.refl holds, fun kept => kept⟩
    | dir own => exact fits.elim
    | file own content => exact fits.elim
    | link own target => exact fits.elim

variable {root rel : Path}

theorem visit_leaf (place : root ++ rel = dir ++ [name]) (real : c.fs.Real dir) {item : Leaf}
    (fits : LeafFits item (c.fs (dir ++ [name]))) :
    ∃ c' entry, copyStep d root c (.visit rel item.entry) = (c', true) ∧
      Put c c' (dir ++ [name]) entry ∧
      (OwnerKept d (dirAttr c.fs dir) item (c.fs (dir ++ [name])) → entry = item.entry) := by
  cases item with
  | file attr content =>
    obtain ⟨c₁, own, isFirst, put, owner⟩ := copyFile_put (d := d) real fits
    obtain ⟨c', isStep, put'⟩ := andThen_owner (d := d) real isFirst put attr
      false (fun _ _ _ same => by cases same)
    rw [Leaf.entry, copyStep, place]
    exact ⟨c', _, isStep, put', fun kept => settled_file content (owner kept)⟩
  | link uid gid target =>
    obtain ⟨c₁, own, isFirst, put, mode, owner⟩ := makeLink_put (d := d) real fits
    obtain ⟨c', isStep, put'⟩ := andThen_owner (d := d) real isFirst put
      { uid, gid, mode := linkMode } true (fun isFalse => by cases isFalse)
    rw [Leaf.entry, copyStep, place]
    exact ⟨c', _, isStep, put', fun kept => settled_link target mode (owner kept)⟩
  | node attr kind =>
    obtain ⟨c₁, own, isFirst, put, owner⟩ := makeNode_put (d := d) real fits
    obtain ⟨c', isStep, put'⟩ := andThen_owner (d := d) real isFirst put attr
      false (fun _ _ _ same => by cases same)
    rw [Leaf.entry, copyStep, place]
    exact ⟨c', _, isStep, put', fun kept => settled_node kind (owner kept)⟩

def Daemon.entered (d : Daemon) (parent : Attr) : Option FileEntry → Attr
  | some (.dir a) => a
  | _ => d.createdDir parent

theorem makeDir_put (real : c.fs.Real dir) (fits : DirFits (c.fs (dir ++ [name]))) :
    ∃ c', makeDir d c (dir ++ [name]) = (c', true) ∧
      Put c c' (dir ++ [name]) (.dir (d.entered (dirAttr c.fs dir) (c.fs (dir ++ [name])))) := by
  rw [makeDir, Files.resolveParent_real real]
  dsimp only
  cases holds : c.fs (dir ++ [name]) with
  | none =>
    refine ⟨_, rfl, ?_⟩
    rw [parentAttr_eq]
    exact put_write _ _ _
  | some entry =>
    rw [holds] at fits
    cases entry with
    | dir own => exact ⟨c, rfl, Put.refl holds⟩
    | file own content => exact fits.elim
    | link own target => exact fits.elim
    | node own kind => exact fits.elim

theorem visit_dir (place : root ++ rel = dir ++ [name]) (real : c.fs.Real dir) (attr : Attr)
    (fits : DirFits (c.fs (dir ++ [name]))) :
    ∃ c', copyStep d root c (.visit rel (.dir attr)) = (c', true) ∧
      Put c c' (dir ++ [name]) (.dir (d.entered (dirAttr c.fs dir) (c.fs (dir ++ [name])))) := by
  rw [copyStep, place]
  exact makeDir_put real fits

theorem leave_dir (place : root ++ rel = dir ++ [name]) (real : c.fs.Real dir)
    (attr : Attr) (holds : c.fs (dir ++ [name]) = some (.dir own)) :
    ∃ c', copyStep d root c (.leave rel attr) = (c', true) ∧
      Put c c' (dir ++ [name]) (d.settled attr false (.dir own)) := by
  rw [copyStep, place]
  exact applyOwnerAndMode_put real holds attr false (fun _ _ _ same => by cases same)

end Steps

/-! ## Whole forests -/

variable {rest inner : Forest}

namespace Forest

@[simp]
theorem lookup_nil (forest : Forest) : forest.lookup [] = none := by
  induction forest with
  | nil => rfl
  | leaf name item rest ih => rw [lookup, if_neg (by simp), ih]
  | dir name attr inner rest _ _ => rfl

variable {forest : Forest}

theorem mem_names_of_lookup {first : CStr} {below : Path}
    {entry : FileEntry} (found : forest.lookup (first :: below) = some entry) :
    first ∈ forest.names := by
  induction forest with
  | nil => cases found
  | leaf name item rest ih =>
    rw [lookup] at found
    split at found
    next isHere =>
      rw [names, (List.cons.inj isHere).1]
      exact mem_cons_self
    next => exact mem_cons_of_mem _ (ih found)
  | dir name attr inner rest _ ih =>
    rw [lookup] at found
    by_cases isHere : first = name
    · rw [names, isHere]
      exact mem_cons_self
    · rw [if_neg isHere] at found
      exact mem_cons_of_mem _ (ih found)

def places (dir : Path) (forest : Forest) : Set Path :=
  { path | ∃ rel entry, path = dir ++ rel ∧ forest.lookup rel = some entry }

variable {dir : Path}

theorem not_prefix_of_mem_places {initial : Path}
    (mem : initial ∈ forest.places dir) : ¬ initial <+: dir := by
  obtain ⟨rel, entry, rfl, found⟩ := mem
  intro isPrefix
  have size := isPrefix.length_le
  rw [length_append] at size
  have empty : rel = [] := length_eq_zero_iff.mp (by omega)
  rw [empty, lookup_nil] at found
  cases found

theorem leaf_mem_places (dir : Path) (name : CStr) (item : Leaf)
    (rest : Forest) : dir ++ [name] ∈ (leaf name item rest).places dir :=
  ⟨[name], item.entry, rfl, if_pos rfl⟩

variable {name : CStr}

theorem leaf_rest_places {item : Leaf} (fresh : name ∉ rest.names) :
    rest.places dir ⊆ (leaf name item rest).places dir := by
  rintro path ⟨rel, entry, rfl, found⟩
  refine ⟨rel, entry, rfl, ?_⟩
  rw [lookup, if_neg, found]
  rintro rfl
  exact fresh (mem_names_of_lookup found)

theorem dir_mem_places (dir : Path) (name : CStr) (attr : Attr) (inner rest : Forest) :
    dir ++ [name] ∈ (Forest.dir name attr inner rest).places dir := by
  refine ⟨[name], .dir attr, rfl, ?_⟩
  rw [lookup]
  rw [if_pos rfl, if_pos rfl]

theorem lookup_inner {rel : Path} (found : inner.lookup rel = some entry) :
    (Forest.dir name attr inner rest).lookup (name :: rel) = some entry := by
  rw [lookup]
  rw [if_pos rfl, if_neg, found]
  rintro rfl
  rw [lookup_nil] at found
  cases found

theorem lookup_rest {name : CStr} {attr : Attr} {inner rest : Forest}
    {rel : Path} {entry : FileEntry} (fresh : name ∉ rest.names)
    (found : rest.lookup rel = some entry) :
    (Forest.dir name attr inner rest).lookup rel = some entry := by
  cases rel with
  | nil =>
    rw [lookup_nil] at found
    cases found
  | cons first below =>
    rw [lookup]
    rw [if_neg, found]
    rintro rfl
    exact fresh (mem_names_of_lookup found)

theorem dir_inner_places : inner.places (dir ++ [name]) ⊆
      (Forest.dir name attr inner rest).places dir := by
  rintro path ⟨rel, entry, rfl, found⟩
  exact ⟨name :: rel, entry, by simp, lookup_inner found⟩

theorem dir_rest_places (fresh : name ∉ rest.names) :
    rest.places dir ⊆ (Forest.dir name attr inner rest).places dir := by
  rintro path ⟨rel, entry, rfl, found⟩
  exact ⟨rel, entry, rfl, lookup_rest fresh found⟩

/-! ## What a check of the target looks at -/

variable {d : Daemon} {fs fs' : Host}

theorem Kinds.congr {dir : Path} (same : ∀ name ∈ forest.names, ∀ rel,
      fs' (dir ++ name :: rel) = fs (dir ++ name :: rel))
    (kinds : forest.Kinds fs dir) : forest.Kinds fs' dir := by
  induction forest generalizing dir with
  | nil => trivial
  | leaf name item rest ih =>
    obtain ⟨fits, kinds⟩ := kinds
    refine ⟨?_, ih (fun name mem =>
      same name (mem_cons_of_mem _ mem)) kinds⟩
    rw [same name mem_cons_self]
    exact fits
  | dir name attr inner rest innerHypothesis ih =>
    obtain ⟨fits, below, kinds⟩ := kinds
    refine ⟨?_, innerHypothesis (fun name' mem rel => ?_) below, ih (fun name mem =>
        same name (mem_cons_of_mem _ mem)) kinds⟩
    · rw [same name mem_cons_self]
      exact fits
    · rw [append_assoc]
      exact same name mem_cons_self (name' :: rel)

theorem Owners.congr {dir : Path} {parent : Attr}
    (same : ∀ name ∈ forest.names, ∀ rel, fs' (dir ++ name :: rel) = fs (dir ++ name :: rel))
    (owners : forest.Owners d fs dir parent) :
    forest.Owners d fs' dir parent := by
  induction forest generalizing dir parent with
  | nil => trivial
  | leaf name item rest ih =>
    obtain ⟨kept, owners⟩ := owners
    refine ⟨?_, ih (fun name mem =>
      same name (mem_cons_of_mem _ mem)) owners⟩
    rw [same name mem_cons_self]
    exact kept
  | dir name attr inner rest innerHypothesis ih =>
    obtain ⟨below, owners⟩ := owners
    refine ⟨?_, ih (fun name mem =>
        same name (mem_cons_of_mem _ mem)) owners⟩
    have inside : ∀ {parent}, inner.Owners d fs (dir ++ [name]) parent →
        inner.Owners d fs' (dir ++ [name]) parent := by
      intro parent
      apply innerHypothesis
      intro name' mem rel
      rw [append_assoc]
      exact same name mem_cons_self (name' :: rel)
    rw [same name mem_cons_self]
    split at below
    next a isDir => exact ⟨below.1, inside below.2⟩
    next notDir => exact ⟨below.1, inside below.2⟩

theorem Owners.entered {parent : Attr}
    (owners : (Forest.dir name attr inner rest).Owners d fs dir parent) :
    (d.Owns attr → d.Owns (d.entered parent (fs (dir ++ [name])))) ∧
      inner.Owners d fs (dir ++ [name]) (d.entered parent (fs (dir ++ [name]))) ∧
      rest.Owners d fs dir parent := by
  obtain ⟨below, owners⟩ := owners
  split at below
  next a isDir =>
    rw [isDir]
    exact ⟨below.1, below.2, owners⟩
  next notDir =>
    have isNew : d.entered parent (fs (dir ++ [name])) =
        d.createdDir parent := by
      rw [Daemon.entered]
      exact notDir
    rw [isNew]
    exact ⟨fun owns => ⟨rfl, below.1 owns⟩, below.2, owners⟩

end Forest

/-! ## The whole copy -/

section Copy

variable {d : Daemon} {root : Path}

theorem copySteps_append (c : Copying) (first second : List CopyStep) :
    copySteps d root c (first ++ second) = Outcome.andThen (copySteps d root c first)
        fun c => copySteps d root c second := by
  induction first generalizing c with
  | nil => rw [nil_append, copySteps, Outcome.andThen, if_pos rfl]
  | cons step first ih =>
    rw [cons_append, copySteps, copySteps, Outcome.andThen, Outcome.andThen, Outcome.andThen]
    by_cases succeeded : (copyStep d root c step).2 = true
    · rw [if_pos succeeded, if_pos succeeded, ih, Outcome.andThen]
    · rw [if_neg succeeded, if_neg succeeded, if_neg succeeded]

theorem copySteps_cons {c : Copying} {step : CopyStep} (rest : List CopyStep)
    (isStep : copyStep d root c step = (c', true)) :
    copySteps d root c (step :: rest) = copySteps d root c' rest := by
  rw [copySteps, isStep, Outcome.andThen, if_pos rfl]

def Forest.Copied (fs : Host) (dir : Path) (forest : Forest) : Prop :=
  ∀ rel entry, forest.lookup rel = some entry → fs (dir ++ rel) = some entry

/-- The first `k` steps of a copy succeed and write to the names of the forest only;
all of them leave the forest itself. -/
def CopiesTo (d : Daemon) (root : Path) (c : Copying) (at_ dir : Path)
    (forest : Forest) (k : Nat) : Prop :=
  ∃ c', copySteps d root c ((forest.steps at_).take k) = (c', true) ∧
    Touches (forest.places dir) c c' ∧
    ((forest.steps at_).length ≤ k →
      forest.Owners d c.fs dir (dirAttr c.fs dir) → forest.Copied c'.fs dir)

theorem dirAttr_congr {fs fs' : Host} {dir : Path} (same : fs' dir = fs dir) :
    dirAttr fs' dir = dirAttr fs dir := by
  rw [dirAttr, dirAttr, same]

theorem snoc_ne (dir : Path) (name : CStr) : dir ≠ dir ++ [name] := by
  intro same
  exact not_snoc_initial dir name (same ▸ prefix_refl _)

theorem copiesTo_leaf {c : Copying} {at_ dir : Path} {name : CStr} {item : Leaf}
    {k : Nat} (place : root ++ at_ = dir) (fresh : name ∉ rest.names)
    (real : c.fs.Real dir) (kinds : (Forest.leaf name item rest).Kinds c.fs dir)
    (ih : ∀ {c : Copying} {k : Nat}, c.fs.Real dir →
      rest.Kinds c.fs dir → CopiesTo d root c at_ dir rest k) :
    CopiesTo d root c at_ dir (.leaf name item rest) (k + 1) := by
  obtain ⟨fits, kinds⟩ := kinds
  have place' : root ++ (at_ ++ [name]) = dir ++ [name] := by rw [← append_assoc, place]
  obtain ⟨c₁, entry, isStep, put, isEntry⟩ := visit_leaf (d := d) place' real fits
  have same : ∀ name' ∈ rest.names, ∀ rel,
      c₁.fs (dir ++ name' :: rel) = c.fs (dir ++ name' :: rel) := by
    intro name' mem rel
    apply put.other
    intro samePlace
    have sameName := append_cancel_left samePlace
    exact fresh ((List.cons.inj sameName).1 ▸ mem)
  have sameAttr : dirAttr c₁.fs dir = dirAttr c.fs dir :=
    dirAttr_congr (put.other (snoc_ne dir name))
  obtain ⟨c', isRest, touches, copied⟩ := @ih c₁ k (put.real real) (kinds.congr same)
  refine ⟨c', ?_, ?_, ?_⟩
  · rw [Forest.steps, take_succ_cons, copySteps_cons _ isStep]
    exact isRest
  · exact (put.touches (Forest.leaf_mem_places dir name item rest)).trans
      (touches.mono (Forest.leaf_rest_places fresh))
  · intro all owners rel entry' found
    rw [Forest.steps, length_cons] at all
    have copiedRest := copied (by omega) (sameAttr ▸ owners.2.congr same)
    rw [Forest.lookup] at found
    split at found
    next isHere =>
      have notRest : dir ++ [name] ∉ rest.places dir := by
        rintro ⟨rel', other, sameRel, found'⟩
        have isName := append_cancel_left sameRel
        rw [← isName] at found'
        exact fresh (Forest.mem_names_of_lookup found')
      rw [isHere, touches.other _ notRest, put.here, isEntry owners.1]
      exact found
    next => exact copiedRest rel entry' found

theorem enters_dir {c : Copying} {at_ dir : Path} {name : CStr} (attr : Attr)
    (rest : Forest) (k : Nat) (place : root ++ at_ = dir) (real : c.fs.Real dir)
    (kinds : (Forest.dir name attr inner rest).Kinds c.fs dir)
    (innerHypothesis : ∀ {c : Copying} {k : Nat}, c.fs.Real (dir ++ [name]) →
      inner.Kinds c.fs (dir ++ [name]) →
      CopiesTo d root c (at_ ++ [name]) (dir ++ [name]) inner k) :
    ∃ c', copySteps d root c (.visit (at_ ++ [name]) (.dir attr) ::
        (inner.steps (at_ ++ [name])).take k) = (c', true) ∧
      Touches ({dir ++ [name]} ∪ inner.places (dir ++ [name])) c c' ∧
      c'.fs (dir ++ [name]) = some (.dir (d.entered (dirAttr c.fs dir) (c.fs (dir ++ [name])))) ∧
      ((inner.steps (at_ ++ [name])).length ≤ k →
        inner.Owners d c.fs (dir ++ [name]) (d.entered (dirAttr c.fs dir)
          (c.fs (dir ++ [name]))) → inner.Copied c'.fs (dir ++ [name])) := by
  obtain ⟨fits, below, -⟩ := kinds
  have place' : root ++ (at_ ++ [name]) = dir ++ [name] := by rw [← append_assoc, place]
  obtain ⟨c₁, isStep, put⟩ := visit_dir (d := d) place' real attr fits
  have same : ∀ name' ∈ inner.names, ∀ rel, c₁.fs (dir ++ [name] ++ name' :: rel) =
        c.fs (dir ++ [name] ++ name' :: rel) := by
    intro name' _ rel
    apply put.other
    intro samePlace
    have size := congrArg List.length samePlace
    simp at size
  have real₁ : c₁.fs.Real (dir ++ [name]) := (put.real real).snoc (Or.inr ⟨_, put.here⟩)
  have attr₁ : dirAttr c₁.fs (dir ++ [name]) =
      d.entered (dirAttr c.fs dir) (c.fs (dir ++ [name])) := by
    rw [dirAttr, put.here]
  obtain ⟨c', isInner, touches, copied⟩ := @innerHypothesis c₁ k real₁ (below.congr same)
  have outside : dir ++ [name] ∉ inner.places (dir ++ [name]) := fun mem =>
    Forest.not_prefix_of_mem_places mem (prefix_refl _)
  refine ⟨c', ?_, ?_, ?_, ?_⟩
  · rw [copySteps_cons _ isStep]
    exact isInner
  · exact (put.touches (Or.inl rfl)).trans (touches.mono Set.subset_union_right)
  · rw [touches.other _ outside, put.here]
  · intro all owners
    exact copied all (attr₁ ▸ owners.congr same)

theorem take_dir_steps (at_ : Path) (name : CStr) (attr : Attr) (inner rest : Forest) (k : Nat) :
    ((Forest.dir name attr inner rest).steps at_).take (k + 1) =
      (.visit (at_ ++ [name]) (.dir attr) :: (inner.steps (at_ ++ [name])).take k) ++
        (CopyStep.leave (at_ ++ [name]) attr :: rest.steps at_).take
          (k - (inner.steps (at_ ++ [name])).length) := by
  rw [Forest.steps, take_succ_cons, take_append, cons_append]

theorem copiesTo_dir {c : Copying} {at_ dir : Path} {name : CStr}
    {attr : Attr} {inner rest : Forest} {k : Nat} (place : root ++ at_ = dir)
    (fresh : name ∉ rest.names) (real : c.fs.Real dir)
    (kinds : (Forest.dir name attr inner rest).Kinds c.fs dir)
    (innerHypothesis : ∀ {c : Copying} {k : Nat}, c.fs.Real (dir ++ [name]) →
      inner.Kinds c.fs (dir ++ [name]) →
      CopiesTo d root c (at_ ++ [name]) (dir ++ [name]) inner k)
    (ih : ∀ {c : Copying} {k : Nat}, c.fs.Real dir →
      rest.Kinds c.fs dir → CopiesTo d root c at_ dir rest k) :
    CopiesTo d root c at_ dir (.dir name attr inner rest) (k + 1) := by
  have place' : root ++ (at_ ++ [name]) = dir ++ [name] := by rw [← append_assoc, place]
  obtain ⟨c₁, isEntered, touches₁, holds₁, copied₁⟩ :=
    enters_dir attr rest k place real kinds innerHypothesis
  have inside : {dir ++ [name]} ∪ inner.places (dir ++ [name]) ⊆
      (Forest.dir name attr inner rest).places dir := by
    rintro path (rfl | mem)
    · exact Forest.dir_mem_places dir name attr inner rest
    · exact Forest.dir_inner_places mem
  have atName : ∀ path ∈ ({dir ++ [name]} ∪ inner.places (dir ++ [name]) :
      Set Path), dir ++ [name] <+: path := by
    rintro path (rfl | ⟨rel, entry, rfl, -⟩)
    · exact prefix_refl _
    · exact prefix_append _ _
  have real₁ : c₁.fs.Real dir := touches₁.real real fun initial isPrefix mem =>
    not_snoc_initial dir name ((atName initial mem).trans isPrefix)
  unfold CopiesTo
  rw [take_dir_steps, copySteps_append, isEntered, Outcome.andThen, if_pos rfl]
  have size : ((Forest.dir name attr inner rest).steps at_).length =
      (inner.steps (at_ ++ [name])).length + (rest.steps at_).length + 2 := by
    rw [Forest.steps, length_cons, length_append, length_cons]
    omega
  rw [size]
  cases left : k - (inner.steps (at_ ++ [name])).length with
  | zero =>
    -- the copy stops in the directory
    refine ⟨c₁, rfl, touches₁.mono inside, ?_⟩
    intro all
    omega
  | succ k' =>
    obtain ⟨c₂, isLeft, put⟩ := leave_dir (d := d) place' real₁ attr holds₁
    have touches₂ : Touches ({dir ++ [name]} ∪ inner.places (dir ++ [name]))
        c c₂ := touches₁.trans (put.touches (Or.inl rfl))
    have same : ∀ name' ∈ rest.names, ∀ rel,
        c₂.fs (dir ++ name' :: rel) = c.fs (dir ++ name' :: rel) := by
      intro name' mem rel
      apply touches₂.other
      intro isThere
      obtain ⟨after, samePlace⟩ := atName _ isThere
      rw [append_assoc] at samePlace
      have sameName := append_cancel_left samePlace
      exact fresh ((List.cons.inj sameName).1 ▸ mem)
    have sameAttr : dirAttr c₂.fs dir = dirAttr c.fs dir :=
      dirAttr_congr (touches₂.other _ fun isThere =>
        not_snoc_initial dir name (atName _ isThere))
    obtain ⟨c', isRest, touches, copied⟩ := @ih c₂ k' (put.real real₁) (kinds.2.2.congr same)
    refine ⟨c', ?_, (touches₂.mono inside).trans (touches.mono (Forest.dir_rest_places fresh)), ?_⟩
    · rw [take_succ_cons, copySteps_cons _ isLeft]
      exact isRest
    · intro all owners
      obtain ⟨ownsDir, ownersInner, ownersRest⟩ := owners.entered
      have copiedRest := copied (by omega) (sameAttr ▸ ownersRest.congr same)
      have notRest : ∀ rel, dir ++ name :: rel ∉ rest.places dir := by
        rintro rel ⟨rel', other, sameRel, found'⟩
        have isName := append_cancel_left sameRel
        rw [← isName] at found'
        exact fresh (Forest.mem_names_of_lookup found')
      intro rel entry found
      cases rel with
      | nil =>
        rw [Forest.lookup_nil] at found
        cases found
      | cons first below =>
        rw [Forest.lookup] at found
        by_cases isName : first = name
        · rw [if_pos isName] at found
          rw [isName, touches.other _ (notRest below)]
          by_cases isDir : below = []
          · rw [if_pos isDir] at found
            rw [isDir, put.here, settled_dir ownsDir]
            exact found
          · rw [if_neg isDir] at found
            have different : dir ++ name :: below ≠ dir ++ [name] := by
              intro samePlace
              exact isDir (List.cons.inj (append_cancel_left samePlace)).2
            have copiedInner := copied₁ (by omega) ownersInner below entry found
            rw [append_assoc] at copiedInner
            rw [put.other different]
            exact copiedInner
        · rw [if_neg isName] at found
          exact copiedRest (first :: below) entry found

/-- Where all kinds fit, the first `k` steps of a copy write to the names of the
forest only, and all of them copy it. -/
theorem copiesTo (forest : Forest) {c : Copying} {at_ dir : Path} (k : Nat)
    (place : root ++ at_ = dir) (distinct : forest.Distinct)
    (real : c.fs.Real dir) (kinds : forest.Kinds c.fs dir) :
    CopiesTo d root c at_ dir forest k := by
  induction forest generalizing c at_ dir k with
  | nil =>
    refine ⟨c, ?_, Touches.refl _ _, ?_⟩
    · rw [Forest.steps, take_nil, copySteps]
    · intro _ _ rel entry found
      cases found
  | leaf name item rest ih =>
    obtain ⟨fresh, distinct⟩ := distinct
    cases k with
    | zero => exact ⟨c, rfl, Touches.refl _ _, fun all => by cases all⟩
    | succ k =>
      exact copiesTo_leaf place fresh real kinds fun real kinds =>
        ih _ place distinct real kinds
  | dir name attr inner rest innerHypothesis ih =>
    obtain ⟨fresh, distinctInner, distinct⟩ := distinct
    have place' : root ++ (at_ ++ [name]) = dir ++ [name] := by rw [← append_assoc, place]
    cases k with
    | zero => exact ⟨c, rfl, Touches.refl _ _, fun all => by cases all⟩
    | succ k =>
      exact copiesTo_dir place fresh real kinds
        (fun real kinds => innerHypothesis _ place' distinctInner real kinds)
        (fun real kinds => ih _ place distinct real kinds)

end Copy

end Cix.Storage
