import Mathlib.Data.List.Infix
import Mathlib.Logic.Function.Basic

/-!
# A tree of files with links

A file system is a map from paths to entries.  A name is looked up component
by component; a link on the way, or at the end if it is followed, sends the
search to its target, a bounded number of times.  Where all components are
directories a path is found at itself, and a write there is a write nowhere
else.
-/

namespace Cix.Lib

open List

inductive Comp (ν : Type) where
  | here
  | up
  | name (n : ν)
  deriving DecidableEq

structure Link (ν : Type) where
  absolute : Bool
  comps : List (Comp ν)
  deriving DecidableEq

/-- An entry, with attributes `α`, contents `β` and kinds of special nodes
`δ`. -/
inductive Entry (ν α β δ : Type) where
  | dir (attr : α)
  | file (attr : α) (content : β)
  | link (attr : α) (target : Link ν)
  | node (attr : α) (kind : δ)
  deriving DecidableEq

def Files (ν α β δ : Type) : Type := List ν → Option (Entry ν α β δ)

variable {ν α β δ : Type}

variable {path : List ν} {fs : Files ν α β δ}

namespace Files

def write [DecidableEq ν] (fs : Files ν α β δ) (path : List ν)
    (entry : Option (Entry ν α β δ)) : Files ν α β δ :=
  Function.update fs path entry

@[simp]
theorem write_same [DecidableEq ν] (fs : Files ν α β δ) (path : List ν)
    (entry : Option (Entry ν α β δ)) : fs.write path entry path = entry :=
  Function.update_self ..

theorem write_other [DecidableEq ν] (fs : Files ν α β δ) {other : List ν}
    (entry : Option (Entry ν α β δ)) (different : other ≠ path) :
    fs.write path entry other = fs other :=
  Function.update_of_ne different ..

/-- Looks up the components from a directory; `follow` goes on where a link
sends the search. -/
def walkWith (fs : Files ν α β δ) (follow : List ν → List (Comp ν) → Option (List ν)) :
    List ν → List (Comp ν) → Option (List ν)
  | at_, [] => some at_
  | at_, .here :: rest => walkWith fs follow at_ rest
  | at_, .up :: rest => walkWith fs follow at_.dropLast rest
  | at_, .name n :: rest =>
    match fs (at_ ++ [n]) with
    | some (.link _ target) =>
      follow (if target.absolute then [] else at_) (target.comps ++ rest)
    | some (.dir _) => walkWith fs follow (at_ ++ [n]) rest
    | _ => if rest = [] then some (at_ ++ [n]) else none

def walk (fs : Files ν α β δ) : (links : Nat) → List ν → List (Comp ν) → Option (List ν)
  | 0 => walkWith fs fun _ _ => none
  | links + 1 => walkWith fs (walk fs links)

def maxLinks : Nat := 40

def resolve (fs : Files ν α β δ) (path : List (Comp ν)) : Option (List ν) :=
  walk fs maxLinks [] path

def IsDir (fs : Files ν α β δ) (path : List ν) : Prop :=
  path = [] ∨ ∃ attr, fs path = some (.dir attr)

def isDir (fs : Files ν α β δ) (path : List ν) : Bool :=
  path.isEmpty ||
    match fs path with
    | some (.dir _) => true
    | _ => false

theorem isDir_iff (fs : Files ν α β δ) (path : List ν) : fs.isDir path = true ↔ fs.IsDir path := by
  rw [isDir, IsDir, Bool.or_eq_true, List.isEmpty_iff]
  cases fs path with
  | none => simp
  | some entry => cases entry <;> simp

def resolveParent (fs : Files ν α β δ) (path : List ν) : Option (List ν) :=
  match path.getLast? with
  | none => none
  | some last =>
    match fs.resolve (path.dropLast.map Comp.name) with
    | none => none
    | some dir => if fs.isDir dir then some (dir ++ [last]) else none

def Real (fs : Files ν α β δ) (path : List ν) : Prop :=
  ∀ initial, initial <+: path → fs.IsDir initial

theorem Real.of_prefix {initial : List ν} (real : fs.Real path)
    (isPrefix : initial <+: path) : fs.Real initial :=
  fun shorter begins => real shorter (begins.trans isPrefix)

theorem Real.snoc {n : ν} (real : fs.Real path) (isDir : fs.IsDir (path ++ [n])) :
    fs.Real (path ++ [n]) := by
  intro initial isPrefix
  rcases prefix_concat_iff.mp isPrefix with rfl | shorter
  · exact isDir
  · exact real initial shorter

theorem walkWith_real {fs : Files ν α β δ}
    {follow : List ν → List (Comp ν) → Option (List ν)}
    (at_ path : List ν) (rest : List (Comp ν))
    (real : fs.Real (at_ ++ path)) :
    walkWith fs follow at_ (path.map Comp.name ++ rest) =
      walkWith fs follow (at_ ++ path) rest := by
  induction path generalizing at_ with
  | nil => rw [map_nil, nil_append, append_nil]
  | cons n path ih =>
    have moved : at_ ++ n :: path = at_ ++ [n] ++ path := by simp
    have isDir : fs.IsDir (at_ ++ [n]) := by
      apply real
      rw [moved]
      exact prefix_append _ _
    rcases isDir with empty | ⟨attr, here⟩
    · simp at empty
    · rw [map_cons, cons_append, walkWith, here]
      dsimp only
      rw [moved] at real ⊢
      exact ih (at_ ++ [n]) real

theorem walk_eq (fs : Files ν α β δ) (links : Nat) :
    ∃ follow, walk fs links = walkWith fs follow := by
  cases links with
  | zero => exact ⟨_, rfl⟩
  | succ links => exact ⟨_, rfl⟩

theorem resolve_real (real : fs.Real path) : fs.resolve (path.map Comp.name) = some path := by
  obtain ⟨follow, isWalk⟩ := walk_eq fs maxLinks
  have found := @walkWith_real _ _ _ _ fs follow [] path [] real
  rw [append_nil, nil_append] at found
  rw [resolve, isWalk, found]
  cases path <;> rfl

theorem resolve_snoc {fs : Files ν α β δ} {path : List ν} {n : ν} (real : fs.Real path)
    (noLink : ∀ attr target, fs (path ++ [n]) ≠ some (.link attr target)) :
    fs.resolve ((path ++ [n]).map Comp.name) = some (path ++ [n]) := by
  obtain ⟨follow, isWalk⟩ := walk_eq fs maxLinks
  have found := @walkWith_real _ _ _ _ fs follow [] path [.name n] real
  rw [nil_append] at found
  rw [resolve, isWalk, map_append, map_singleton, found, walkWith]
  cases entry : fs (path ++ [n]) with
  | none => rfl
  | some entry' =>
    cases entry' with
    | dir attr => cases path <;> rfl
    | file attr content => rfl
    | link attr target => exact absurd entry (noLink attr target)
    | node attr kind => rfl

theorem resolveParent_real {n : ν} (real : fs.Real path) :
    fs.resolveParent (path ++ [n]) = some (path ++ [n]) := by
  have isDir := (isDir_iff fs path).mpr (real path (prefix_refl _))
  rw [resolveParent, getLast?_concat]
  dsimp only
  rw [dropLast_concat, resolve_real real]
  dsimp only
  rw [if_pos isDir]

theorem Real.write [DecidableEq ν] {other : List ν}
    {entry : Option (Entry ν α β δ)} (real : fs.Real path)
    (kept : other <+: path → ∃ attr, entry = some (.dir attr)) :
    (fs.write other entry).Real path := by
  intro initial isPrefix
  by_cases same : initial = other
  · rw [same] at isPrefix
    obtain ⟨attr, isDir⟩ := kept isPrefix
    right
    exact ⟨attr, by rw [same, write_same, isDir]⟩
  · rcases real initial isPrefix with empty | ⟨attr, isDir⟩
    · exact Or.inl empty
    · right
      exact ⟨attr, by rw [write_other _ _ same, isDir]⟩

end Files

end Cix.Lib
