import Mathlib.Data.List.Sort
import Mathlib.Logic.Function.Basic
import Cix.Pkg.Paths

/-!
# Image versions

A version of an image is a stored tree of files.  It is named by the set of
packages that are installed in the image when it is built, so a set that
recurs finds the tree that was stored for it before.  Building a version is
the work of a child process, which has the daemon's memory as it was at the
fork; recording the version as the current one is the work of the daemon.
-/

namespace Cix.Pkg

open Cix.Lib

structure ManifestRef where
  name : Name
  version : BoundedStr 64
  deriving DecidableEq

def Entry.ref (e : Entry) : ManifestRef :=
  ⟨e.key.name, e.version⟩

/-- `strcmp(a, b) <= 0`. -/
def strcmpLe : List UInt8 → List UInt8 → Bool
  | [], _ => true
  | _ :: _, [] => false
  | a :: as, b :: bs => decide (a < b) || (decide (a = b) && strcmpLe as bs)

/-- `manifest_ref_cmp`. -/
def manifestRefLe (a b : ManifestRef) : Prop :=
  strcmpLe a.name.str.bytes b.name.str.bytes = true

instance : DecidableRel manifestRefLe :=
  fun _ _ => inferInstanceAs (Decidable (_ = true))

def installedRefs (t : Table) (image : Name) : List ManifestRef :=
  ((t.entries.filter fun e => e.claims image).map Entry.ref).insertionSort manifestRefLe

/-- The text of `build_image_manifest_string`.  `image_hash_manifest_string`
names a version by the SHA-256 of this text; here the text itself is the
name. -/
def manifestString (refs : List ManifestRef) : CStr :=
  CStr.ofBytes ((refs.map fun r =>
    r.name.str.bytes ++ 64 :: r.version.str.bytes).intersperse [44]).flatten

/-- An image on disk: `current_version`, the tree stored for each version
and the package snapshot written beside it. -/
structure Image where
  current : CStr
  trees : CStr → Option (List CStr)
  snapshots : CStr → List ManifestRef

/-- `image_create`: an empty tree under the name of the empty set. -/
def Image.created : Image where
  current := manifestString []
  trees := fun version =>
    if version = manifestString [] then some [] else none
  snapshots := fun _ => []

def Image.paths (img : Image) (version : CStr) : List CStr :=
  (img.trees version).getD []

def Image.currentPaths (img : Image) : List CStr :=
  img.paths img.current

def filesMissingIn (tree : List CStr) (e : Entry) : Bool :=
  e.files.any fun rel => !tree.contains rel

def storedVersionIsWrong (t : Table) (image : Name) (tree : List CStr) :
    Bool :=
  t.entries.any fun e => e.claims image && filesMissingIn tree e

/-- The change of a producer: the staged files of a package, in place of its old
ones if `isUpgrade`, or its removal. -/
inductive Mutation
  | install (isUpgrade : Bool) (staged : List CStr)
  | delete
  deriving DecidableEq

/-- What `image_version_build` reports: the name of the version and the file
list of the package. -/
structure Built where
  version : CStr
  files : List CStr
  deriving DecidableEq

structure Production where
  slot : Nat
  image : Name
  mutation : Mutation
  memory : Table
  built : Option Built

/-- `install_mutate` and `delete_mutate`: the child's table and the staging
tree afterwards. -/
def mutate (slot : Nat) (mutation : Mutation) (memory : Table)
    (tree : List CStr) : Table × List CStr :=
  match memory.get slot with
  | none => (memory, tree)
  | some e =>
    match mutation with
    | .install isUpgrade staged =>
      let settled := memory.put slot (some { e with state := .installed })
      let kept :=
        if isUpgrade then unlinkManifestFiles settled slot e tree
        else tree
      let old := if isUpgrade then [] else e.files
      (settled.put slot (some { e with
        state := .installed, files := old ++ staged }), kept ++ staged)
    | .delete => (memory.put slot none, unlinkManifestFiles memory slot e tree)

/-- The placement at the end of `image_version_build`. A stored tree that lacks a
recorded file is not reused. -/
def Image.place (img : Image) (memory : Table) (image : Name)
    (version : CStr) (tree : List CStr) : Image where
  current := img.current
  trees := match img.trees version with
    | none => Function.update img.trees version (some tree)
    | some stored =>
      if storedVersionIsWrong memory image stored then
        Function.update img.trees version (some tree)
      else img.trees
  snapshots :=
    Function.update img.snapshots version (installedRefs memory image)

def imageVersionBuild (p : Production) (img : Image) : Image × Built :=
  let (memory, tree) := mutate p.slot p.mutation p.memory img.currentPaths
  let version := manifestString (installedRefs memory p.image)
  (img.place memory p.image version tree, ⟨version, ((memory.get p.slot).map Entry.files).getD []⟩)

/-- `image_record_version`. -/
def Image.record (img : Image) (version : CStr) : Image :=
  { img with current := version }

end Cix.Pkg
