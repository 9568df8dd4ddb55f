import Cix.Boot.Counters

/-!
# Attempts over many boots

A run of boots that are never confirmed: every boot renames the file of the
entry that it chooses, and the directory may list its files in another order
afterwards.  Each boot of an entry while another one can be had uses up an
attempt.
-/

namespace Cix.Boot

open Cix.Lib List Option

/-- The files of `/loader/entries`, in the order of the directory. -/
structure Directory where
  files : List File
  names : (files.map File.name).Nodup
  nodes : (files.map File.node).Nodup

/-- `SetInfo` in `decrement_tries`. -/
def renameEntry (files : List File) (e : Entry) : List File :=
  files.map fun f =>
    if f.name = e.filename then
      { f with name := decrementedName e.toEntryName }
    else f

def Boots (conf : Option (List UInt8)) (before : Directory) (f : File) (after : Directory) : Prop :=
  f ∈ before.files ∧ ∃ e, bootChoice conf before.files = some e ∧ f.name = e.filename ∧
      after.files.Perm (if 0 < e.triesLeft then renameEntry before.files e
          else before.files)

/-- Boots one after the other, with the directory that each finds and the file
that it chooses. -/
inductive BootRun (conf : Option (List UInt8)) :
    Directory → List (Directory × File) → Directory → Prop where
  | nil (dir : Directory) : BootRun conf dir [] dir
  | boot {before next last : Directory} {f : File}
      {later : List (Directory × File)} :
      Boots conf before f next → BootRun conf next later last →
        BootRun conf before ((before, f) :: later) last

def entryOf (f : File) : Option Entry :=
  if f.isDirectory then none
  else
    match parseEntryName f.name, f.content with
    | some name, some text => some
        { toEntryName := name
          toEntryText := parseEntryText (text.take entryTextMax)
          filename := f.name }
    | _, _ => none

/-- Another file than `node` is a bootable entry that the default allows and
has attempts left or no counter. -/
def hasOther (conf : Option (List UInt8)) (files : List File) (node : Nat) :
    Bool :=
  files.any fun f =>
    decide (f.node ≠ node) &&
      match entryOf f with
      | none => false
      | some e => decide (e.triesLeft ≠ 0) && allowedBy (readDefaultPattern conf) e

structure Legible (files : List File) : Prop where
  short : ∀ f ∈ files, f.name.length < nameMaxChars
  few : (files.filterMap entryOf).length ≤ maxEntries

variable {f : File}

theorem find_name {files : List File} (names : (files.map File.name).Nodup)
    {f : File} (mem : f ∈ files) :
    (files.find? fun other => other.name = f.name) = some f := by
  induction files with
  | nil => cases mem
  | cons first rest ih =>
    rw [map_cons, nodup_cons] at names
    rcases mem_cons.mp mem with isFirst | later
    · rw [isFirst]
      exact find?_cons_of_pos (by simp)
    · have different : first.name ≠ f.name := fun same =>
        names.1 (same ▸ mem_map_of_mem later)
      rw [find?_cons_of_neg (by simpa using different)]
      exact ih names.2 later

theorem readEntry_eq {files : List File} (names : (files.map File.name).Nodup)
    (mem : f ∈ files) (short : f.name.length < nameMaxChars)
    (isFile : f.isDirectory = false) : readEntry files f = entryOf f := by
  have kept : f.name.take (nameMaxChars - 1) = f.name := take_of_length_le (by omega)
  rw [readEntry, entryOf, kept, readWholeFile, find_name names mem]
  simp only [isFile, Bool.false_eq_true, if_false]
  cases parseEntryName f.name <;> cases f.content <;> rfl

theorem readEntries_eq {files rest : List File} {list : List Entry}
    (names : (files.map File.name).Nodup) (subset : ∀ f ∈ rest, f ∈ files)
    (short : ∀ f ∈ files, f.name.length < nameMaxChars)
    (few : list.length + (rest.filterMap entryOf).length ≤ maxEntries) :
    readEntries files rest list = list ++ rest.filterMap entryOf := by
  induction rest generalizing list with
  | nil => rw [readEntries, filterMap_nil, append_nil]
  | cons f rest ih =>
    have shortName := short f (subset f mem_cons_self)
    have later : ∀ list : List Entry, list.length + (rest.filterMap entryOf).length ≤ maxEntries →
        readEntries files rest list = list ++ rest.filterMap entryOf :=
      fun list => ih (fun other mem => subset other (mem_cons_of_mem _ mem))
    rw [readEntries, if_neg (by unfold nameMaxChars infoNameMax at *; omega)]
    rw [filterMap_cons] at few ⊢
    by_cases directory : f.isDirectory = true
    · have none : entryOf f = none := by rw [entryOf, if_pos directory]
      rw [if_pos directory]
      rw [none] at few ⊢
      exact later list few
    rw [if_neg directory]
    have asRead := readEntry_eq names (subset f mem_cons_self)
      shortName (Bool.eq_false_iff.mpr directory)
    rw [asRead]
    cases entry : entryOf f with
    | none =>
      rw [entry] at few
      split
      next full =>
        -- the loop ends here, and nothing was left to find
        have nothing : rest.filterMap entryOf = [] :=
          eq_nil_of_length_eq_zero (by
            simp only at few
            omega)
        simp [nothing]
      · exact later list few
    | some e =>
      rw [entry] at few
      simp only [length_cons] at few
      rw [if_neg (by omega)]
      simp only
      rw [later (list ++ [e]) (by
        rw [length_append, length_singleton]
        omega)]
      simp

theorem readEntries_legible {dir : Directory} (legible : Legible dir.files) :
    readEntries dir.files dir.files [] = dir.files.filterMap entryOf := by
  rw [readEntries_eq dir.names (fun f mem => mem) legible.short
    (by simpa using legible.few), nil_append]

theorem mem_of_chooseEntry {list : List Entry} {pattern : CStr} {e : Entry}
    (chosen : chooseEntry list pattern = some e) : e ∈ list := by
  have picked : ∀ pattern, pickEntry list pattern = some e → e ∈ list := by
    intro pattern
    rw [pickEntry]
    cases best : bestOf newer (list.filter fun e =>
        decide (e.triesLeft ≠ 0) && allowedBy pattern e) with
    | none =>
      intro last
      exact (mem_filter.mp (mem_of_bestOf last)).1
    | some found =>
      intro same
      rw [← some.inj same]
      exact (mem_filter.mp (mem_of_bestOf best)).1
  rw [chooseEntry] at chosen
  cases pick : pickEntry list pattern with
  | none =>
    simp only [pick] at chosen
    by_cases restricted : pattern.bytes ≠ []
    · rw [if_pos restricted] at chosen
      exact picked _ chosen
    · rw [if_neg restricted] at chosen
      cases chosen
  | some found =>
    simp only [pick] at chosen
    exact picked pattern (pick.trans chosen)

theorem triesLeft_of_chooseEntry {list : List Entry} {pattern : CStr}
    {e other : Entry} (chosen : chooseEntry list pattern = some e)
    (mem : other ∈ list) (left : other.triesLeft ≠ 0)
    (allowed : allowedBy pattern other = true) : e.triesLeft ≠ 0 := by
  have nonempty : (list.filter fun e =>
      decide (e.triesLeft ≠ 0) && allowedBy pattern e) ≠ [] := by
    apply ne_nil_of_mem (a := other)
    rw [mem_filter]
    exact ⟨mem, by simp [left, allowed]⟩
  obtain ⟨best, inFilter, found⟩ := @exists_bestOf _ newer _ nonempty
  have pick : pickEntry list pattern = some best := by rw [pickEntry, found]
  rw [chooseEntry, pick] at chosen
  have isLeft := (mem_filter.mp inFilter).2
  rw [Bool.and_eq_true, decide_eq_true_eq] at isLeft
  rw [← some.inj chosen]
  exact isLeft.1

variable {before : Directory} {conf : Option (List UInt8)}

theorem name_of_entryOf {f : File} {e : Entry} (entry : entryOf f = some e) :
    e.filename = f.name ∧ parseEntryName f.name = some e.toEntryName ∧ f.isDirectory = false := by
  unfold entryOf at entry
  cases directory : f.isDirectory with
  | true => simp [directory] at entry
  | false =>
    cases parsed : parseEntryName f.name with
    | none => simp [directory, parsed] at entry
    | some name =>
      cases content : f.content with
      | none => simp [directory, parsed, content] at entry
      | some text =>
        simp [directory, parsed, content] at entry
        subst entry
        exact ⟨rfl, rfl, rfl⟩

theorem entryOf_chosen {e : Entry} (legible : Legible before.files)
    (mem : f ∈ before.files) (chosen : bootChoice conf before.files = some e)
    (named : f.name = e.filename) : entryOf f = some e := by
  rw [bootChoice, readEntries_legible legible] at chosen
  obtain ⟨other, otherMember, entry⟩ := mem_filterMap.mp (mem_of_chooseEntry chosen)
  have sameName : other.name = f.name := by rw [named, (name_of_entryOf entry).1]
  have same := find_name before.names otherMember
  rw [sameName, find_name before.names mem] at same
  rw [some.inj same]
  exact entry

/-- The file with that node has at most `k` attempts left, if it is an
entry. -/
def AttemptsAtMost (files : List File) (node : Nat) (k : Int) : Prop :=
  ∀ f ∈ files, f.node = node → ∀ e, entryOf f = some e → 0 ≤ e.triesLeft ∧ e.triesLeft ≤ k

theorem length_filterMap_le {α β : Type*} {g : α → Option β} {h : α → α}
    {list : List α} (stays : ∀ a ∈ list, (g (h a)).isSome → (g a).isSome) :
    ((list.map h).filterMap g).length ≤ (list.filterMap g).length := by
  induction list with
  | nil => exact le_refl _
  | cons a rest rule =>
    have ih := rule fun b mem =>
      stays b (mem_cons_of_mem _ mem)
    rw [map_cons, filterMap_cons, filterMap_cons]
    have stay := stays a mem_cons_self
    cases after : g (h a) with
    | none =>
      cases g a with
      | none => exact ih
      | some b =>
        rw [length_cons]
        exact Nat.le_succ_of_le ih
    | some b =>
      rw [after] at stay
      obtain ⟨c, present⟩ := isSome_iff_exists.mp (stay rfl)
      rw [present]
      simpa using ih

theorem eq_of_name {dir : Directory} {g : File} (mem : f ∈ dir.files)
    (other : g ∈ dir.files) (same : g.name = f.name) : g = f := by
  have found := find_name dir.names other
  rw [same, find_name dir.names mem] at found
  exact Eq.symm (some.inj found)

theorem eq_of_node {dir : Directory} {g : File} (mem : f ∈ dir.files)
    (other : g ∈ dir.files) (same : g.node = f.node) : g = f :=
  inj_on_of_nodup_map dir.nodes other mem same

theorem Boots.legible {conf : Option (List UInt8)} {before after : Directory}
    {f : File} (legible : Legible before.files)
    (boots : Boots conf before f after) : Legible after.files := by
  obtain ⟨mem, e, chosen, named, perm⟩ := boots
  have entry := entryOf_chosen legible mem chosen named
  split at perm
  next counted =>
    constructor
    · intro g gMember
      obtain ⟨old, oldMember, renamed⟩ := mem_map.mp (perm.mem_iff.mp gMember)
      rw [← renamed]
      split
      · exact length_decrementedName _
      · exact legible.short old oldMember
    · rw [(perm.filterMap entryOf).length_eq]
      refine le_trans (length_filterMap_le ?_) legible.few
      intro old oldMember isEntry
      split at isEntry
      next same =>
        rw [eq_of_name mem oldMember (same.trans (Eq.symm named)), entry]
        rfl
      · exact isEntry
  next uncounted =>
    constructor
    · intro g gMember
      exact legible.short g (perm.mem_iff.mp gMember)
    · rw [(perm.filterMap entryOf).length_eq]
      exact legible.few

theorem mem_after_boot {after : Directory} {e : Entry}
    (mem : f ∈ before.files) (named : f.name = e.filename)
    (perm : after.files.Perm (if 0 < e.triesLeft then renameEntry before.files e else before.files))
    {g : File} (gMember : g ∈ after.files) :
    (g ∈ before.files ∧ (g = f → e.triesLeft ≤ 0)) ∨ (0 < e.triesLeft ∧
        g = { f with name := decrementedName e.toEntryName }) := by
  split at perm
  next counted =>
    obtain ⟨old, oldMember, renamed⟩ := mem_map.mp (perm.mem_iff.mp gMember)
    split at renamed
    next same =>
      right
      rw [← renamed, eq_of_name mem oldMember (same.trans (Eq.symm named))]
      exact ⟨counted, rfl⟩
    next different =>
      left
      rw [← renamed]
      refine ⟨oldMember, ?_⟩
      rintro rfl
      exact absurd named different
  next uncounted =>
    left
    exact ⟨perm.mem_iff.mp gMember, fun _ => not_lt.mp uncounted⟩

theorem Boots.attempts {after : Directory} {node : Nat} {k : Int}
    (legible : Legible before.files) (boots : Boots conf before f after)
    (atMost : AttemptsAtMost before.files node k) :
    AttemptsAtMost after.files node k := by
  obtain ⟨mem, e, chosen, named, perm⟩ := boots
  have entry := entryOf_chosen legible mem chosen named
  intro g gMember isNode after' entryAfter
  rcases mem_after_boot mem named perm gMember with
    ⟨kept, _⟩ | ⟨counted, renamed⟩
  · exact atMost g kept isNode after' entryAfter
  · rw [renamed] at isNode entryAfter
    have least := atMost f mem isNode e entry
    have fewer := triesLeft_of_decremented counted (name_of_entryOf entryAfter).2.1
    exact ⟨fewer.1, by omega⟩

theorem Boots.uses_attempt {after : Directory} {k : Int}
    (legible : Legible before.files) (boots : Boots conf before f after)
    (other : hasOther conf before.files f.node = true)
    (atMost : AttemptsAtMost before.files f.node k) :
    0 < k ∧ AttemptsAtMost after.files f.node (k - 1) := by
  obtain ⟨mem, e, chosen, named, perm⟩ := boots
  have entry := entryOf_chosen legible mem chosen named
  have least := atMost f mem rfl e entry
  have hasLeft : e.triesLeft ≠ 0 := by
    obtain ⟨g, gMember, isOther⟩ := any_eq_true.mp other
    rw [Bool.and_eq_true] at isOther
    cases gEntry : entryOf g with
    | none => simp [gEntry] at isOther
    | some e' =>
      simp only [gEntry, Bool.and_eq_true, decide_eq_true_eq] at isOther
      rw [bootChoice, readEntries_legible legible] at chosen
      exact triesLeft_of_chooseEntry chosen (mem_filterMap.mpr ⟨g, gMember, gEntry⟩)
        isOther.2.1 isOther.2.2
  refine ⟨by omega, ?_⟩
  intro g gMember isNode after' entryAfter
  rcases mem_after_boot mem named perm gMember with
    ⟨kept, exhausted⟩ | ⟨counted, renamed⟩
  · have none := exhausted (eq_of_node mem kept isNode)
    omega
  · rw [renamed] at entryAfter
    have fewer := triesLeft_of_decremented counted (name_of_entryOf entryAfter).2.1
    exact ⟨fewer.1, by omega⟩

def chosenBesideOther (conf : Option (List UInt8)) (node : Nat)
    (trace : List (Directory × File)) : Nat :=
  trace.countP fun boot =>
    decide (boot.2.node = node) && hasOther conf boot.1.files node

theorem chosenBesideOther_le {conf : Option (List UInt8)}
    {dir last : Directory} {trace : List (Directory × File)} {node k : Nat}
    (legible : Legible dir.files)
    (run : BootRun conf dir trace last)
    (atMost : AttemptsAtMost dir.files node k) :
    chosenBesideOther conf node trace ≤ k := by
  induction run generalizing k with
  | nil dir => exact Nat.zero_le k
  | @boot before next last f later boots _ ih =>
    have nextLegible := boots.legible legible
    unfold chosenBesideOther at ih ⊢
    rw [countP_cons]
    split
    next counted =>
      rw [Bool.and_eq_true, decide_eq_true_eq] at counted
      obtain ⟨isNode, other⟩ := counted
      rw [← isNode] at other atMost
      obtain ⟨positive, fewer⟩ := boots.uses_attempt legible other atMost
      obtain ⟨rest, isSucc⟩ : ∃ rest, k = rest + 1 := ⟨k - 1, by omega⟩
      rw [isSucc, Nat.cast_succ, Int.add_sub_cancel, isNode] at fewer
      rw [isSucc]
      exact Nat.succ_le_succ (ih nextLegible fewer)
    next uncounted => exact ih nextLegible (boots.attempts legible atMost)

/-- The name that `decrement_tries` writes parses to the same id with one
attempt fewer exactly if it is countable, and in every run of boots from a
legible directory an entry with `k` attempts left is chosen at most `k` times
while another entry can be had. -/
theorem attempts_counted_down {conf : Option (List UInt8)}
    {dir last : Directory} {trace : List (Directory × File)} {f : File}
    {e : Entry} {k : Nat} (legible : Legible dir.files)
    (run : BootRun conf dir trace last) (mem : f ∈ dir.files)
    (entry : entryOf f = some e) (counter : e.triesLeft = k) :
    (∀ name : EntryName, 0 < name.triesLeft →
      (parseEntryName (decrementedName name) = some name.afterAttempt ↔ Countable name)) ∧
      chosenBesideOther conf f.node trace ≤ k := by
  refine ⟨fun name positive => parse_decrementedName_iff positive, ?_⟩
  apply chosenBesideOther_le legible run
  intro g gMember isNode other otherEntry
  rw [eq_of_node mem gMember isNode, entry] at otherEntry
  rw [← some.inj otherEntry]
  omega

/-- A new entry with one attempt beside a confirmed one, and the two boots
after which the confirmed one is chosen. -/
def newEntryFile (name : String) : File where
  node := 0
  name := ascii16 name
  isDirectory := false
  content := some (ascii "linux /a" ++ [newline] ++ ascii "version 2")

def confirmedFile : File where
  node := 1
  name := ascii16 "cix-b.conf"
  isDirectory := false
  content := some (ascii "linux /b" ++ [newline] ++ ascii "version 1")

def newBesideConfirmed : Directory where
  files := [newEntryFile "cix-a+1.conf", confirmedFile]
  names := by decide +kernel
  nodes := by decide

def exhaustedBesideConfirmed : Directory where
  files := [confirmedFile, newEntryFile "cix-a+0-1.conf"]
  names := by decide +kernel
  nodes := by decide

theorem boots_new : Boots none newBesideConfirmed
    (newEntryFile "cix-a+1.conf") exhaustedBesideConfirmed := by
  refine ⟨by decide +kernel,
    ⟨⟨"cix-a", 1, 0⟩, ⟨"/a", CStr.empty, 2⟩, ascii16 "cix-a+1.conf"⟩,
    by decide +kernel, by decide +kernel, ?_⟩
  exact List.Perm.trans (List.Perm.swap _ _ _) (List.Perm.of_eq (by decide +kernel))

theorem boots_confirmed : Boots none exhaustedBesideConfirmed confirmedFile
    exhaustedBesideConfirmed := by
  exact ⟨by decide +kernel,
    ⟨⟨"cix-b", -1, 0⟩, ⟨"/b", CStr.empty, 1⟩, ascii16 "cix-b.conf"⟩,
    by decide +kernel, by decide +kernel,
    List.Perm.of_eq (by decide +kernel)⟩

theorem new_entry_once : chosenBesideOther none 0
        [(newBesideConfirmed, newEntryFile "cix-a+1.conf"),
          (exhaustedBesideConfirmed, confirmedFile)] ≤ 1 ∧
      parseEntryName (decrementedName ⟨"cix-a", 1, 0⟩) = some ⟨"cix-a", 0, 1⟩ := by
  have counted := attempts_counted_down (k := 1) (f := newEntryFile "cix-a+1.conf")
    (e := ⟨⟨"cix-a", 1, 0⟩, ⟨"/a", CStr.empty, 2⟩, ascii16 "cix-a+1.conf"⟩)
    ⟨by decide +kernel, by decide +kernel⟩
    (BootRun.boot boots_new (BootRun.boot boots_confirmed (BootRun.nil _)))
    (by decide +kernel) (by decide +kernel) rfl
  exact ⟨counted.2, (counted.1 _ (by decide)).mpr (by decide)⟩

/-- Of 101 attempts none is left after one. -/
theorem attempts_of_101 : ∃ e,
    parseEntryName (ascii16 "cix-a+101.conf") = some e ∧ 0 < e.triesLeft ∧
      parseEntryName (decrementedName e) ≠ some e.afterAttempt := by
  refine ⟨⟨"cix-a", 101, 0⟩, ?_, ?_, ?_⟩ <;> decide +kernel

end Cix.Boot
