import Cix.Lib.CString
import Cix.Lib.Slots

/-!
# The package table of cixd

`g_packages` is a table of `PKG_MAX_PACKAGES` entries, one for each package
of each image.  An entry moves through `fetching` and `building` to
`installed` or `failed`; an entry that is installed and is being upgraded
keeps its version and its file list while it is in one of the first two
states.
-/

namespace Cix.Pkg

open Cix.Lib

/-- The bytes `simple_name_is_valid` lets through: letters, digits, `_` and
`-`. -/
def nameByte (c : UInt8) : Bool :=
  (decide (65 ≤ c) && decide (c ≤ 90)) || (decide (97 ≤ c) && decide (c ≤ 122)) ||
    (decide (48 ≤ c) && decide (c ≤ 57)) || c = 95 || c = 45

def simpleNameIsValid (name : CStr) (maxLen : Nat) : Bool :=
  decide (name.length ≠ 0) && name.bytes.all nameByte &&
    decide (name.length < maxLen)

/-- The name of a package or of an image.  `PKG_NAME_MAX` and
`PKG_IMAGE_NAME_MAX` are both 64. -/
structure Name where
  str : CStr
  valid : simpleNameIsValid str 64 = true
  deriving DecidableEq

namespace Name

@[ext]
theorem ext {left right : Name} (equal : left.str = right.str) :
    left = right := by
  cases left
  cases right
  simpa using equal

/-- `pkg_name_is_valid` and `pkg_image_is_valid`. -/
def ofCStr (text : CStr) : Option Name :=
  if valid : simpleNameIsValid text 64 = true then some ⟨text, valid⟩
  else none

@[simp]
theorem ofCStr_str (name : Name) : ofCStr name.str = some name := by
  simp [ofCStr, name.valid]

def ofLiteral (text : String) (valid : simpleNameIsValid (CStr.ofString text) 64 = true) : Name :=
  ⟨CStr.ofString text, valid⟩

theorem length_ne_zero (name : Name) : name.str.length ≠ 0 := by
  have valid := name.valid
  simp only [simpleNameIsValid, Bool.and_eq_true, decide_eq_true_eq] at valid
  exact valid.1.1

theorem length_lt (name : Name) : name.str.length < 64 := by
  have valid := name.valid
  simp only [simpleNameIsValid, Bool.and_eq_true, decide_eq_true_eq] at valid
  exact valid.2

theorem not_mem (name : Name) {c : UInt8} (invalid : nameByte c = false) : c ∉ name.str.bytes := by
  intro mem
  have valid := name.valid
  simp only [simpleNameIsValid, Bool.and_eq_true] at valid
  rw [List.all_eq_true.mp valid.1.2 c mem] at invalid
  cases invalid

end Name

def defaultImage : Name :=
  Name.ofLiteral "base" (by decide)

/-- `normalize_image` of an argument that may be null, then the validity
check its callers make. -/
def normalizeImage : Option CStr → Option Name
  | none => some defaultImage
  | some text => if text.length = 0 then some defaultImage else Name.ofCStr text

/-- A package of an image: what `pkg_find` looks for. -/
structure Key where
  (name image : Name)
  deriving DecidableEq

inductive EntryState
  | fetching
  | building
  | installed
  | failed
  deriving DecidableEq, Repr

def EntryState.inFlight : EntryState → Bool
  | .fetching => true
  | .building => true
  | .installed => false
  | .failed => false

def maxConcurrentJobs : Nat := 10

abbrev ChainIdx :=
  Fin maxConcurrentJobs

/-- `struct pkg_entry` of a slot in use. `buildContainer` is the number at the end
of `build_container_name`, and `runOpen` says that `run_started_at` is set. -/
structure Entry where
  key : Key
  state : EntryState
  version : BoundedStr 64
  depends : BoundedStr 256
  files : List CStr
  (cancelRequested runOpen : Bool)
  buildContainer : Option ChainIdx
  deriving DecidableEq

def blank (n : Nat) (positive : 0 < n) : BoundedStr n :=
  ⟨CStr.empty, positive⟩

def Entry.cleared (key : Key) : Entry where
  key := key
  state := .fetching
  version := blank 64 pos_64
  depends := blank 256 pos_256
  files := []
  cancelRequested := false
  runOpen := false
  buildContainer := none

def Entry.named (e : Entry) : Bool :=
  decide (e.version.str.length ≠ 0)

/-- `g_packages`, of `PKG_MAX_PACKAGES` entries. -/
abbrev Table :=
  Slots Entry 1024

def pkgFind (key : Key) (t : Table) : Option (Nat × Entry) :=
  t.find fun e => decide (e.key = key)

def Table.modify (slot : Nat) (change : Entry → Entry) (t : Table) : Table :=
  match t.get slot with
  | none => t
  | some e => t.put slot (some (change e))

/-- `pkg_record_outcome`. An attempt that asks to keep an install that has no
version is recorded as failed. -/
def pkgRecordOutcome (keepInstalled : Bool) (e : Entry) : Entry :=
  { e with
    state := if keepInstalled && e.named then .installed else .failed
    runOpen := false }

/-- `pkg_fail` and `pkg_fail_cancelled`, which differ in the recorded status
only. -/
def pkgFail (slot : Nat) (keepInstalled : Bool) (t : Table) : Table :=
  t.modify slot (pkgRecordOutcome keepInstalled)

def installKeepPrevVersion (isUpgrade : Bool) (version : BoundedStr 64)
    (depends : BoundedStr 256) (e : Entry) : Entry :=
  if isUpgrade && decide (version.str.length ≠ 0) then
    { e with version := version, depends := depends }
  else e

section KeepPrev

variable (isUpgrade : Bool) (version : BoundedStr 64)
  (depends : BoundedStr 256) (e : Entry)

@[simp]
theorem installKeepPrevVersion_key :
    (installKeepPrevVersion isUpgrade version depends e).key = e.key := by
  rw [installKeepPrevVersion]
  split_ifs <;> rfl

@[simp]
theorem installKeepPrevVersion_files : (installKeepPrevVersion isUpgrade version depends e).files =
      e.files := by
  rw [installKeepPrevVersion]
  split_ifs <;> rfl

@[simp]
theorem installKeepPrevVersion_state : (installKeepPrevVersion isUpgrade version depends e).state =
      e.state := by
  rw [installKeepPrevVersion]
  split_ifs <;> rfl

@[simp]
theorem installKeepPrevVersion_buildContainer :
    (installKeepPrevVersion isUpgrade version depends e).buildContainer =
      e.buildContainer := by
  rw [installKeepPrevVersion]
  split_ifs <;> rfl

theorem installKeepPrevVersion_version :
    (installKeepPrevVersion isUpgrade version depends e).version =
      if isUpgrade && decide (version.str.length ≠ 0) then version
      else e.version := by
  rw [installKeepPrevVersion]
  split_ifs <;> rfl

end KeepPrev

def pkgRunsCloseOpenAtShutdown (t : Table) : Table :=
  t.adjust fun _ e =>
    if e.runOpen then { e with state := .failed, runOpen := false } else e

section Lookup

variable {t : Table} {key : Key} {slot i : Nat} {e : Entry}

theorem get_of_pkgFind (found : pkgFind key t = some (slot, e)) :
    t.get slot = some e ∧ e.key = key := by
  obtain ⟨held, test⟩ := Slots.get_of_find found
  exact ⟨held, of_decide_eq_true test⟩

theorem ne_of_pkgFind_none (missing : pkgFind key t = none)
    (held : t.get i = some e) : e.key ≠ key :=
  of_decide_eq_false (Slots.find_eq_none missing held)

theorem get_modify (change : Entry → Entry) (i : Nat) : (t.modify slot change).get i =
      if i = slot then (t.get slot).map change else t.get i := by
  rw [Table.modify]
  cases held : t.get slot with
  | none =>
    by_cases same : i = slot
    · rw [if_pos same, same, held]
      rfl
    · rw [if_neg same]
  | some e => exact Slots.get_put (Slots.lt_of_get held) i

theorem get_modify_self (change : Entry → Entry) (held : t.get slot = some e) :
    (t.modify slot change).get slot = some (change e) := by
  rw [get_modify, if_pos rfl, held, Option.map_some]

theorem get_modify_of_ne {change : Entry → Entry} (different : i ≠ slot) :
    (t.modify slot change).get i = t.get i := by
  rw [get_modify, if_neg different]

end Lookup

def Table.Distinct (t : Table) : Prop :=
  ∀ i j a b, t.get i = some a → t.get j = some b → a.key = b.key → i = j

namespace Table

variable {t : Table} {key : Key} {slot i : Nat} {e : Entry}

theorem Distinct.pkgFind (distinct : t.Distinct)
    (held : t.get slot = some e) : pkgFind e.key t = some (slot, e) := by
  apply Slots.find_of_unique held (decide_eq_true rfl)
  intro j other otherHeld test
  exact distinct j slot other e otherHeld held (of_decide_eq_true test)

theorem distinct_empty : Table.Distinct (Slots.empty 1024) := by
  intro i j a b first
  simp at first

def Containers (t : Table) : Prop :=
  ∀ i j a b, t.get i = some a → t.get j = some b →
    a.buildContainer ≠ none → a.buildContainer = b.buildContainer → i = j

theorem containers_empty : Table.Containers (Slots.empty 1024) := by
  intro i j a b first
  simp at first

theorem Containers.ofSlot {t' : Table} (containers : t.Containers)
    (same : ∀ other, other ≠ slot → t'.get other = t.get other)
    (mine : ∀ e', t'.get slot = some e' → e'.buildContainer = none ∨
      ∃ e, t.get slot = some e ∧ e.buildContainer = e'.buildContainer) :
    t'.Containers := by
  have before : ∀ k a, t'.get k = some a → a.buildContainer ≠ none →
      ∃ e, t.get k = some e ∧ e.buildContainer = a.buildContainer := by
    intro k a held named
    by_cases here : k = slot
    · subst here
      rcases mine a held with unnamed | found
      · exact absurd unnamed named
      · exact found
    · exact ⟨a, (same k here).symm.trans held, rfl⟩
  intro i j a b first second named equal
  obtain ⟨e, eHeld, eSame⟩ := before i a first named
  obtain ⟨f, fHeld, fSame⟩ := before j b second (by rwa [← equal])
  apply containers i j e f eHeld fHeld
  · rw [eSame]
    exact named
  · rw [eSame, fSame, equal]

theorem Containers.modify (containers : t.Containers)
    {change : Entry → Entry}
    (keeps : ∀ e, (change e).buildContainer = e.buildContainer) :
    (t.modify slot change).Containers := by
  apply containers.ofSlot
  · intro other different
    exact get_modify_of_ne different
  · intro e' held
    rw [get_modify, if_pos rfl] at held
    obtain ⟨e, here, rfl⟩ := Option.map_eq_some_iff.mp held
    exact Or.inr ⟨e, here, (keeps e).symm⟩

theorem Containers.put (containers : t.Containers) (mine : e.buildContainer = none ∨
      ∃ o, t.get slot = some o ∧ o.buildContainer = e.buildContainer) :
    Table.Containers (t.put slot (some e)) := by
  apply containers.ofSlot
  · intro other different
    exact Slots.get_put_of_ne different
  · intro e' held
    rcases Slots.get_of_get_put held with ⟨_, isNew⟩ | ⟨other, _⟩
    · cases isNew
      exact mine
    · exact absurd rfl other

theorem Containers.clear (containers : t.Containers) : Table.Containers (t.put slot none) := by
  apply containers.ofSlot
  · intro other different
    exact Slots.get_put_of_ne different
  · intro e' held
    rcases Slots.get_of_get_put held with ⟨_, isNew⟩ | ⟨other, _⟩
    · cases isNew
    · exact absurd rfl other

theorem Distinct.clear (distinct : t.Distinct) : Table.Distinct (t.put slot none) := by
  intro i j a b first second same
  rcases Slots.get_of_get_put first with ⟨_, absurdity⟩ | ⟨_, firstHeld⟩
  · cases absurdity
  · rcases Slots.get_of_get_put second with ⟨_, absurdity⟩ | ⟨_, secondHeld⟩
    · cases absurdity
    · exact distinct i j a b firstHeld secondHeld same

theorem Distinct.replace (distinct : t.Distinct) {o : Entry}
    (held : t.get slot = some o) (keyed : e.key = o.key) :
    Table.Distinct (t.put slot (some e)) := by
  have before : ∀ k a, (t.put slot (some e)).get k = some a →
      ∃ old, t.get k = some old ∧ old.key = a.key := by
    intro k a here
    rcases Slots.get_of_get_put here with ⟨rfl, isNew⟩ | ⟨_, old⟩
    · cases isNew
      exact ⟨o, held, keyed.symm⟩
    · exact ⟨a, old, rfl⟩
  intro i j a b first second same
  obtain ⟨x, xHeld, xKey⟩ := before i a first
  obtain ⟨y, yHeld, yKey⟩ := before j b second
  apply distinct i j x y xHeld yHeld
  rw [xKey, yKey, same]

theorem Distinct.put (distinct : t.Distinct) (missing : Pkg.pkgFind e.key t = none) :
    Table.Distinct (t.put slot (some e)) := by
  intro i j a b first second same
  rcases Slots.get_of_get_put first with ⟨rfl, isNew⟩ | ⟨_, firstHeld⟩
  · cases isNew
    rcases Slots.get_of_get_put second with ⟨rfl, _⟩ | ⟨_, secondHeld⟩
    · rfl
    · exact absurd same.symm (ne_of_pkgFind_none missing secondHeld)
  · rcases Slots.get_of_get_put second with ⟨rfl, isNew⟩ | ⟨_, secondHeld⟩
    · cases isNew
      exact absurd same (ne_of_pkgFind_none missing firstHeld)
    · exact distinct i j a b firstHeld secondHeld same

end Table

end Cix.Pkg
