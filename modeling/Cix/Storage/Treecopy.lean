import Cix.Lib.CString
import Cix.Lib.Files

/-!
# Copying a tree

`treecopy_recursive_except` of `daemon/src/treecopy.c`.  What the copier reads
of the source is a forest in the order of `readdir`; the target lies in a file
system with links.  Besides the entries the model has the owners and modes, the
group that a directory with the setgid bit gives to what is made in it, and the
places that were written to.
-/

namespace Cix.Storage

open Cix.Lib

structure Attr where
  (uid gid : Nat)
  mode : BitVec 12
  deriving DecidableEq

def Attr.setgid (a : Attr) : Bool := a.mode.getLsbD 10

inductive NodeKind where
  | char (device : Nat)
  | block (device : Nat)
  | fifo
  | socket
  deriving DecidableEq

abbrev Path := List CStr

abbrev FileEntry := Entry CStr Attr (List UInt8) NodeKind

abbrev Host := Files CStr Attr (List UInt8) NodeKind

inductive Leaf where
  | file (attr : Attr) (content : List UInt8)
  | link (uid gid : Nat) (target : Link CStr)
  | node (attr : Attr) (kind : NodeKind)

def linkMode : BitVec 12 := 511

def Leaf.entry : Leaf → FileEntry
  | .file attr content => .file attr content
  | .link uid gid target => .link { uid, gid, mode := linkMode } target
  | .node attr kind => .node attr kind

/-- The entries of a directory in the order of `readdir`, with what is below
them. -/
inductive Forest where
  | nil
  | leaf (name : CStr) (item : Leaf) (rest : Forest)
  | dir (name : CStr) (attr : Attr) (inner rest : Forest)

namespace Forest

def names : Forest → List CStr
  | nil => []
  | leaf name _ rest => name :: rest.names
  | dir name _ _ rest => name :: rest.names

def lookup : Forest → Path → Option FileEntry
  | nil, _ => none
  | leaf name item rest, path =>
    if path = [name] then some item.entry else rest.lookup path
  | dir name attr inner rest, path =>
    match path with
    | [] => none
    | first :: below =>
      if first = name then
        if below = [] then some (.dir attr) else inner.lookup below
      else rest.lookup path

def Distinct : Forest → Prop
  | nil => True
  | leaf name _ rest => name ∉ rest.names ∧ rest.Distinct
  | dir name _ inner rest => name ∉ rest.names ∧ inner.Distinct ∧ rest.Distinct

/-- Without some entries of the directory itself, `is_skipped`. -/
def except (skip : List CStr) : Forest → Forest
  | nil => nil
  | leaf name item rest =>
    if name ∈ skip then rest.except skip
    else .leaf name item (rest.except skip)
  | dir name attr inner rest =>
    if name ∈ skip then rest.except skip
    else .dir name attr inner (rest.except skip)

end Forest

/-- What the walk does: an entry is copied, or a directory is left when what is
in it has been copied. -/
inductive CopyStep where
  | visit (path : Path) (entry : FileEntry)
  | leave (path : Path) (attr : Attr)

/-- `treecopy_walk`. -/
def Forest.steps (at_ : Path) : Forest → List CopyStep
  | .nil => []
  | .leaf name item rest => .visit (at_ ++ [name]) item.entry :: rest.steps at_
  | .dir name attr inner rest =>
    .visit (at_ ++ [name]) (.dir attr) :: (inner.steps (at_ ++ [name]) ++
        .leave (at_ ++ [name]) attr :: rest.steps at_)

def CopyStep.path : CopyStep → Path
  | .visit path _ => path
  | .leave path _ => path

def pathMax : Nat := 4096

/-- The length of a path as `snprintf` joins it, a slash before each name. -/
def textLength : Path → Nat
  | [] => 0
  | name :: rest => name.length + 1 + textLength rest

/-- `src_path` and `dst_path` hold what is joined in them for every entry. -/
def Forest.Fits (sourceRoot root : Path) (forest : Forest) : Prop :=
  ∀ step ∈ forest.steps [], textLength (sourceRoot ++ step.path) < pathMax ∧
    textLength (root ++ step.path) < pathMax

instance (sourceRoot root : Path) (forest : Forest) :
    Decidable (forest.Fits sourceRoot root) :=
  inferInstanceAs (Decidable (∀ step ∈ forest.steps [], _ ∧ _))

structure Daemon where
  (uid gid : Nat)
  umask : BitVec 12
  opens : NodeKind → Bool

variable (d : Daemon)

def Daemon.newGroup (parent : Attr) : Nat :=
  if parent.setgid then parent.gid else d.gid

def Daemon.created (parent : Attr) (mode : BitVec 12) : Attr where
  uid := d.uid
  gid := d.newGroup parent
  mode := mode &&& ~~~ d.umask

def Daemon.createdDir (parent : Attr) : Attr where
  uid := d.uid
  gid := d.newGroup parent
  mode := (493 &&& ~~~ d.umask) ||| (if parent.setgid then 1024 else 0)

structure Copying where
  fs : Host
  written : List Path

def Copying.write (c : Copying) (path : Path) (entry : FileEntry) : Copying where
  fs := c.fs.write path (some entry)
  written := path :: c.written

def Copying.parentAttr (c : Copying) (path : Path) : Attr :=
  match c.fs path.dropLast with
  | some (.dir attr) => attr
  | _ => { uid := 0, gid := 0, mode := 493 }

def withOwner (uid gid : Nat) : FileEntry → FileEntry
  | .dir a => .dir { a with uid, gid }
  | .file a content => .file { a with uid, gid } content
  | .link a target => .link { a with uid, gid } target
  | .node a kind => .node { a with uid, gid } kind

def withMode (mode : BitVec 12) : FileEntry → FileEntry
  | .dir a => .dir { a with mode }
  | .file a content => .file { a with mode } content
  | .link a target => .link a target
  | .node a kind => .node { a with mode } kind

abbrev Outcome := Copying × Bool

def Outcome.andThen (first : Outcome) (next : Copying → Outcome) : Outcome :=
  if first.2 then next first.1 else first

/-- `lchown`, which does not follow a link. -/
def lchown (c : Copying) (path : Path) (uid gid : Nat) : Outcome :=
  match c.fs.resolveParent path with
  | none => (c, false)
  | some place =>
    match c.fs place with
    | none => (c, false)
    | some entry => (c.write place (withOwner uid gid entry), true)

/-- `chmod`, which follows a link. -/
def chmod (c : Copying) (path : Path) (mode : BitVec 12) : Outcome :=
  match c.fs.resolve (path.map Comp.name) with
  | none => (c, false)
  | some place =>
    match c.fs place with
    | none => (c, false)
    | some entry => (c.write place (withMode mode entry), true)

def applyOwnerAndMode (c : Copying) (path : Path) (attr : Attr) (isLink : Bool) : Outcome :=
  Outcome.andThen (if attr.uid ≠ d.uid ∨ attr.gid ≠ d.gid then
      lchown c path attr.uid attr.gid
    else (c, true))
    fun c => if isLink then (c, true) else chmod c path attr.mode

/-- `mkdir`, and what is there already is no failure. -/
def makeDir (c : Copying) (path : Path) : Outcome :=
  match c.fs.resolveParent path with
  | none => (c, false)
  | some place =>
    match c.fs place with
    | some _ => (c, true)
    | none => (c.write place (.dir (d.createdDir (c.parentAttr place))), true)

def copyFilePreserveMode (c : Copying) (path : Path) (mode : BitVec 12)
    (content : List UInt8) : Outcome :=
  match c.fs.resolve (path.map Comp.name) with
  | none => (c, false)
  | some place =>
    match c.fs place with
    | none =>
      (c.write place (.file (d.created (c.parentAttr place) mode) content), true)
    | some (.file attr _) => (c.write place (.file attr content), true)
    | some (.node attr kind) =>
      -- what is written goes to the device
      if d.opens kind then (c.write place (.node attr kind), true)
      else (c, false)
    | some _ => (c, false)

/-- `unlink` and `symlink`. -/
def makeLink (c : Copying) (path : Path) (target : Link CStr) : Outcome :=
  match c.fs.resolveParent path with
  | none => (c, false)
  | some place =>
    match c.fs place with
    | some (.dir _) => (c, false)
    | _ =>
      (c.write place (.link
        { d.created (c.parentAttr place) 0 with mode := linkMode } target),
        true)

/-- `mknod`, and what is there already is no failure. -/
def makeNode (c : Copying) (path : Path) (mode : BitVec 12) (kind : NodeKind) : Outcome :=
  match c.fs.resolveParent path with
  | none => (c, false)
  | some place =>
    match c.fs place with
    | some _ => (c, true)
    | none => (c.write place (.node (d.created (c.parentAttr place) mode) kind), true)

/-- One step of the walk into the target at `root`. -/
def copyStep (root : Path) (c : Copying) : CopyStep → Outcome
  | .visit path (.dir _) => makeDir d c (root ++ path)
  | .visit path (.file attr content) =>
    Outcome.andThen (copyFilePreserveMode d c (root ++ path) attr.mode content)
      fun c => applyOwnerAndMode d c (root ++ path) attr false
  | .visit path (.link attr target) =>
    Outcome.andThen (makeLink d c (root ++ path) target)
      fun c => applyOwnerAndMode d c (root ++ path) attr true
  | .visit path (.node attr kind) =>
    Outcome.andThen (makeNode d c (root ++ path) attr.mode kind)
      fun c => applyOwnerAndMode d c (root ++ path) attr false
  | .leave path attr => applyOwnerAndMode d c (root ++ path) attr false

def copySteps (root : Path) : Copying → List CopyStep → Outcome
  | c, [] => (c, true)
  | c, step :: rest =>
    Outcome.andThen (copyStep d root c step) fun c => copySteps root c rest

/-- `treecopy_recursive_except` into a root that is there.  `none` is a copy
where a joined path is cut at `PATH_MAX`: the walk then reads or writes under
the cut path, and fails or not as an entry of that name is there. -/
def treecopyRecursiveExcept (fs : Host) (source : Forest) (sourceRoot root : Path)
    (skip : List CStr) : Option Outcome :=
  if (source.except skip).Fits sourceRoot root then
    some (copySteps d root { fs := fs, written := [] } ((source.except skip).steps []))
  else none

end Cix.Storage
