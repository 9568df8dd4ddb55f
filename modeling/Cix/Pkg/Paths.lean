import Cix.Pkg.Entries

/-!
# Who owns a path

A path of an image belongs to one installed package.  An install is refused
when its staged tree holds a path that another installed package of the image
has recorded, unless the recipe declares that it replaces that package; then
the path moves from the list of the one to the list of the other.
-/

namespace Cix.Pkg

open Cix.Lib

structure PathClaim where
  rel : CStr
  owner : Entry
  deriving DecidableEq

/-- The entry is one that `path_claim_index_build` reads. -/
def Entry.claims (image : Name) (e : Entry) : Bool :=
  decide (e.state = .installed) && decide (e.key.image = image)

/-- `path_claim_index_build`; see `pathClaimOwner` for what depends on the sorting. -/
def pathClaimIndexBuild (t : Table) (self : Nat) (image : Name) :
    List PathClaim :=
  t.indexed.flatMap fun slot =>
    if slot.1 ≠ self && slot.2.claims image then
      slot.2.files.map fun rel => ⟨rel, slot.2⟩
    else []

/-- `path_claim_owner`. Which of several claims `bsearch` finds is not specified:
`hit` says it. -/
def pathClaimOwner (hit : CStr → Nat) (index : List PathClaim) (rel : CStr) : Option Entry :=
  let claims := index.filter fun c => decide (c.rel = rel)
  claims[hit rel % claims.length]?.map PathClaim.owner

def nameInList (list name : CStr) : Bool :=
  (list.bytes.splitOn 32).any fun word =>
    decide (word = name.bytes) && decide (name.length ≠ 0)

/-- `path_owner_gate` with `path_owner_walk`: is the staged tree refused? -/
def pathOwnerGate (hit : CStr → Nat) (t : Table) (self : Nat) (image : Name)
    (staged : List CStr) (replaces : CStr) : Bool :=
  let index := pathClaimIndexBuild t self image
  staged.any fun rel =>
    match pathClaimOwner hit index rel with
    | none => false
    | some owner => !nameInList replaces owner.key.name.str

/-- `unlink_manifest_files`; what another installed package claims stays. -/
def unlinkManifestFiles (t : Table) (self : Nat) (e : Entry) (tree : List CStr) : List CStr :=
  let index := pathClaimIndexBuild t self e.key.image
  tree.filter fun rel =>
    !(e.files.contains rel && !index.any fun c => decide (c.rel = rel))

/-- The installed packages of the image that the recipe replaces give up the paths
of the package in slot `self`. -/
def transferReplacedPaths (image : Name) (self : Nat) (mine : List CStr)
    (replaces : CStr) (t : Table) : Table :=
  t.adjust fun i o =>
    if i ≠ self && o.claims image && nameInList replaces o.key.name.str then
      { o with files := o.files.filter fun rel => !mine.contains rel }
    else o

end Cix.Pkg
