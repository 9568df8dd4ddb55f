import Mathlib.Data.List.Basic

/-!
# Fixed tables of slots

A C array of records in which a cleared record marks a free slot.  The users
of such a table look for the first record that meets a test, take the first
free slot, and write or clear one slot.
-/

namespace Cix.Lib

open List Option

variable {i : Nat}

universe u

/-- A table of `n` slots, each free or in use. -/
structure Slots (α : Type u) (n : Nat) where
  cells : List (Option α)
  size : cells.length = n

namespace Slots

variable {α : Type u} {n : Nat}

variable {s : Slots α n} {record : α} {test : α → Bool} {cell : Option α}
  {records : List α}

def empty (n : Nat) : Slots α n :=
  ⟨List.replicate n none, by simp⟩

def entries (s : Slots α n) : List α :=
  s.cells.filterMap id

def ofEntries (n : Nat) (records : List α) : Slots α n :=
  ⟨(records.map some ++ List.replicate n none).take n, by simp⟩

/-- The first record from slot `i` on that meets the test. -/
def findFrom (test : α → Bool) : (i : Nat) → List (Option α) → Option (Nat × α)
  | _, [] => none
  | i, some record :: rest =>
    if test record then some (i, record) else findFrom test (i + 1) rest
  | i, none :: rest => findFrom test (i + 1) rest

def find (test : α → Bool) (s : Slots α n) : Option (Nat × α) :=
  findFrom test 0 s.cells

def firstFree (s : Slots α n) : Option Nat :=
  s.cells.findIdx? Option.isNone

/-- Slot `i` after an assignment; a cleared record is `none`. -/
def put (i : Nat) (cell : Option α) (s : Slots α n) : Slots α n :=
  ⟨s.cells.set i cell, by simpa using s.size⟩

/-- The content of slot `i`. -/
def get (s : Slots α n) (i : Nat) : Option α :=
  s.cells[i]?.join

def indexed (s : Slots α n) : List (Nat × α) :=
  s.cells.zipIdx.filterMap fun p => p.1.map fun record => (p.2, record)

def adjust (change : Nat → α → α) (s : Slots α n) : Slots α n :=
  ⟨s.cells.zipIdx.map fun p => p.1.map (change p.2), by
    simpa using s.size⟩

def keep (test : α → Bool) (s : Slots α n) : Slots α n :=
  ⟨s.cells.map fun cell => cell.filter test, by simpa using s.size⟩

@[simp]
theorem entries_empty : (empty n : Slots α n).entries = [] := by
  simp [entries, empty]

theorem mem_entries : record ∈ s.entries ↔ some record ∈ s.cells := by
  simp [entries]

theorem length_entries_le (s : Slots α n) : s.entries.length ≤ n := by
  have bound := List.length_filterMap_le id s.cells
  rw [s.size] at bound
  exact bound

variable {cells : List (Option α)}

theorem mem_of_findFrom {test : α → Bool} {i index : Nat} {record : α}
    (found : findFrom test i cells = some (index, record)) :
    some record ∈ cells := by
  induction cells generalizing i with
  | nil => simp [findFrom] at found
  | cons cell rest ih =>
    cases cell with
    | none => exact mem_cons_of_mem _ (ih found)
    | some first =>
      simp only [findFrom] at found
      split_ifs at found with holds
      · cases found
        exact mem_cons_self
      · exact mem_cons_of_mem _ (ih found)

theorem mem_entries_of_find {index : Nat}
    (found : s.find test = some (index, record)) : record ∈ s.entries :=
  mem_entries.mpr (mem_of_findFrom found)

theorem mem_entries_put (mem : record ∈ (s.put i cell).entries) :
    record ∈ s.entries ∨ cell = some record := by
  rw [mem_entries] at mem ⊢
  rcases mem_or_eq_of_mem_set mem with old | new
  · exact Or.inl old
  · exact Or.inr new.symm

theorem entries_ofEntries (fits : records.length ≤ n) :
    (ofEntries n records).entries = records := by
  have taken : (records.map some ++ List.replicate n none).take n =
      records.map some ++ List.replicate (n - records.length) none := by
    rw [take_append, take_of_length_le (by simpa using fits), take_replicate]
    simp
  simp [entries, ofEntries, taken]

theorem ofEntries_nil : (ofEntries n [] : Slots α n) = empty n := by
  simp [ofEntries, empty]

theorem mem_of_mem_ofEntries (mem : record ∈ (ofEntries n records).entries) : record ∈ records := by
  have inCells := mem_of_mem_take (mem_entries.mp mem)
  simpa using inCells

theorem getElem?_of_get_ofEntries (held : (ofEntries n records).get i = some record) :
    records[i]? = some record := by
  have inCells : ((records.map some ++ List.replicate n none).take n)[i]? =
      some (some record) := join_eq_some_iff.mp held
  rw [getElem?_take] at inCells
  split_ifs at inCells
  rw [getElem?_append] at inCells
  split_ifs at inCells with inside
  · simpa using inCells
  · obtain ⟨_, impossible⟩ := List.getElem?_eq_some_iff.mp inCells
    simp at impossible

theorem mem_entries_iff_get : record ∈ s.entries ↔ ∃ i, s.get i = some record := by
  rw [mem_entries, mem_iff_getElem?]
  simp [get, join_eq_some_iff]

theorem lt_of_get (held : s.get i = some record) : i < n := by
  have inCells : s.cells[i]? = some (some record) := by
    simpa [get, join_eq_some_iff] using held
  rw [← s.size]
  exact (List.getElem?_eq_some_iff.mp inCells).1

@[simp]
theorem get_empty (i : Nat) : (empty n : Slots α n).get i = none := by
  simp only [get, empty, getElem?_replicate]
  split_ifs <;> rfl

theorem get_put {s : Slots α n} {i : Nat} {cell : Option α} (inside : i < n)
    (j : Nat) : (s.put i cell).get j = if j = i then cell else s.get j := by
  by_cases same : j = i
  · subst same
    have bound : j < s.cells.length := by
      rw [s.size]
      exact inside
    simp [get, put, bound]
  · simp [get, put, same, Ne.symm same]

theorem get_put_of_ne {j : Nat} (different : j ≠ i) : (s.put i cell).get j = s.get j := by
  simp [get, put, different.symm]

theorem get_of_get_put {j : Nat} (held : (s.put i cell).get j = some record) :
    (j = i ∧ cell = some record) ∨ (j ≠ i ∧ s.get j = some record) := by
  by_cases same : j = i
  · subst same
    have inside := lt_of_get held
    rw [get_put inside, if_pos rfl] at held
    exact Or.inl ⟨rfl, held⟩
  · rw [get_put_of_ne same] at held
    exact Or.inr ⟨same, held⟩

theorem get_of_findFrom {test : α → Bool} {i index : Nat} {record : α}
    (found : findFrom test i cells = some (index, record)) :
    i ≤ index ∧ cells[index - i]? = some (some record) ∧ test record = true := by
  induction cells generalizing i with
  | nil => simp [findFrom] at found
  | cons cell rest ih =>
    have later : findFrom test (i + 1) rest = some (index, record) →
        i ≤ index ∧ (cell :: rest)[index - i]? = some (some record) ∧ test record = true := by
      intro deeper
      obtain ⟨above, position, holds⟩ := ih deeper
      have shifted : index - i = (index - (i + 1)) + 1 := by omega
      refine ⟨by omega, ?_, holds⟩
      rw [shifted, getElem?_cons_succ]
      exact position
    cases cell with
    | none => exact later found
    | some first =>
      simp only [findFrom] at found
      split_ifs at found with holds
      · cases found
        simp [holds]
      · exact later found

theorem get_of_find {index : Nat} (found : s.find test = some (index, record)) :
    s.get index = some record ∧ test record = true := by
  obtain ⟨_, position, holds⟩ := get_of_findFrom found
  refine ⟨?_, holds⟩
  simp only [Nat.sub_zero] at position
  simp [get, position]

theorem findFrom_isSome {test : α → Bool} {i : Nat} {record : α} (mem : some record ∈ cells)
    (holds : test record = true) : (findFrom test i cells).isSome := by
  induction cells generalizing i with
  | nil => cases mem
  | cons cell rest ih =>
    rcases mem_cons.mp mem with here | later
    · subst here
      simp [findFrom, holds]
    · cases cell with
      | none => exact ih later
      | some first =>
        simp only [findFrom]
        split_ifs
        · rfl
        · exact ih later

theorem find_eq_none {s : Slots α n} {test : α → Bool}
    (missing : s.find test = none) {i : Nat} {record : α}
    (held : s.get i = some record) : test record = false := by
  by_contra holds
  have mem := mem_entries.mp (mem_entries_iff_get.mpr ⟨i, held⟩)
  have found := findFrom_isSome (i := 0) mem (Bool.not_eq_false _ ▸ holds)
  rw [find] at missing
  simp [missing] at found

theorem find_of_unique {s : Slots α n} {test : α → Bool} {i : Nat}
    {record : α} (held : s.get i = some record) (holds : test record = true)
    (unique : ∀ j other, s.get j = some other → test other = true → j = i) :
    s.find test = some (i, record) := by
  cases found : s.find test with
  | none =>
    rw [find_eq_none found held] at holds
    cases holds
  | some result =>
    obtain ⟨index, other⟩ := result
    obtain ⟨otherHeld, otherHolds⟩ := get_of_find found
    have same := unique index other otherHeld otherHolds
    subst same
    rw [held] at otherHeld
    rw [some.inj otherHeld]

theorem findFrom_set_of_not {test : α → Bool}
    {i k : Nat} {cell : Option α}
    (before : ∀ record, cells[i]? = some (some record) → test record = false)
    (after : ∀ record, cell = some record → test record = false) :
    findFrom test k (cells.set i cell) = findFrom test k cells := by
  induction cells generalizing i k with
  | nil => rfl
  | cons first rest ih =>
    cases i with
    | zero =>
      have skipsOld : findFrom test k (first :: rest) = findFrom test (k + 1) rest := by
        cases first with
        | none => rfl
        | some record => simp [findFrom, before record rfl]
      rw [set_cons_zero, skipsOld]
      cases cell with
      | none => rfl
      | some record => simp [findFrom, after record rfl]
    | succ i =>
      have deeper := ih (i := i) (k := k + 1)
        fun record there => before record (by simpa using there)
      rw [set_cons_succ]
      cases first with
      | none => exact deeper
      | some record => simp only [findFrom, deeper]

theorem find_put_of_not (before : ∀ record, s.get i = some record → test record = false)
    (after : ∀ record, cell = some record → test record = false) :
    (s.put i cell).find test = s.find test := by
  apply findFrom_set_of_not _ after
  intro record there
  exact before record (by simp [get, there])

theorem findFrom_set_found {test : α → Bool}
    {k index : Nat} {record other : α}
    (found : findFrom test k cells = some (index, record))
    (holds : test other = true) :
    findFrom test k (cells.set (index - k) (some other)) = some (index, other) := by
  induction cells generalizing k with
  | nil => simp [findFrom] at found
  | cons first rest ih =>
    have later : findFrom test (k + 1) rest = some (index, record) →
        findFrom test (k + 1) (rest.set (index - (k + 1)) (some other)) =
            some (index, other) ∧ index - k = index - (k + 1) + 1 := by
      intro deeper
      have above := (get_of_findFrom deeper).1
      exact ⟨ih deeper, by omega⟩
    cases first with
    | none =>
      obtain ⟨deeper, shifted⟩ := later found
      rw [shifted, set_cons_succ]
      exact deeper
    | some head =>
      simp only [findFrom] at found
      split_ifs at found with here
      · cases found
        simp [findFrom, holds]
      · obtain ⟨deeper, shifted⟩ := later found
        rw [shifted, set_cons_succ]
        simp only [findFrom, deeper, if_neg here]

theorem find_put_found {index : Nat} {other : α}
    (found : s.find test = some (index, record)) (holds : test other = true) :
    (s.put index (some other)).find test = some (index, other) := by
  have set := findFrom_set_found found holds
  rwa [Nat.sub_zero] at set

theorem put_get (held : s.get i = some record) : s.put i (some record) = s := by
  have inCells : s.cells[i]? = some (some record) := by
    simpa [get, join_eq_some_iff] using held
  obtain ⟨cells, size⟩ := s
  obtain ⟨bound, equal⟩ := List.getElem?_eq_some_iff.mp inCells
  simp only [put, mk.injEq]
  rw [← equal, set_getElem_self]

theorem put_none (free : s.get i = none) : s.put i none = s := by
  obtain ⟨cells, size⟩ := s
  simp only [put, mk.injEq]
  apply ext_getElem?
  intro j
  rw [getElem?_set]
  split_ifs with same inside
  · subst same
    simp only [get, getElem?_eq_getElem inside, join_some] at free
    rw [getElem?_eq_getElem inside, free]
  · subst same
    rw [getElem?_eq_none (Nat.le_of_not_lt inside)]
  · rfl

theorem put_put (s : Slots α n) (i : Nat) (first second : Option α) :
    (s.put i first).put i second = s.put i second := by
  simp [put]

theorem find_put_of_none (missing : s.find test = none) (inside : i < n)
    (holds : test record = true) :
    (s.put i (some record)).find test = some (i, record) := by
  apply find_of_unique _ holds
  · intro j other held otherHolds
    rcases get_of_get_put held with ⟨same, _⟩ | ⟨_, old⟩
    · exact same
    · rw [find_eq_none missing old] at otherHolds
      cases otherHolds
  · rw [get_put inside, if_pos rfl]

@[simp]
theorem get_adjust (s : Slots α n) (change : Nat → α → α) (i : Nat) :
    (s.adjust change).get i = (s.get i).map (change i) := by
  simp only [get, adjust, getElem?_map, getElem?_zipIdx]
  cases s.cells[i]? with
  | none => rfl
  | some cell => simp

theorem get_of_get_keep {s : Slots α n} {test : α → Bool} {i : Nat}
    {record : α} (held : (s.keep test).get i = some record) :
    s.get i = some record := by
  simp only [get, keep, getElem?_map] at held ⊢
  cases cell : s.cells[i]? with
  | none => simp [cell] at held
  | some cell' =>
    cases cell' with
    | none => simp [cell] at held
    | some other =>
      simp only [cell, map_some, Option.filter] at held
      split_ifs at held
      · exact held
      · cases held

theorem entries_keep (s : Slots α n) (test : α → Bool) :
    (s.keep test).entries = s.entries.filter test := by
  simp only [entries, keep, filterMap_map, filter_filterMap]
  rfl

theorem entries_pairwise {related : α → α → Prop}
    (apart : ∀ i j a b, i < j → s.get i = some a → s.get j = some b →
      related a b) : s.entries.Pairwise related := by
  rw [entries, pairwise_filterMap, pairwise_iff_getElem]
  intro i j boundI boundJ less a heldA b heldB
  apply apart i j a b less
  · simp [get, getElem?_eq_getElem boundI, show s.cells[i] = some a from heldA]
  · simp [get, getElem?_eq_getElem boundJ, show s.cells[j] = some b from heldB]

theorem pairwise_ofEntries {related : α → α → Prop}
    (apart : records.Pairwise related) {j : Nat} {a b : α} (less : i < j)
    (heldA : (ofEntries n records).get i = some a)
    (heldB : (ofEntries n records).get j = some b) : related a b := by
  have atA := getElem?_of_get_ofEntries heldA
  have atB := getElem?_of_get_ofEntries heldB
  obtain ⟨boundA, rfl⟩ := List.getElem?_eq_some_iff.mp atA
  obtain ⟨boundB, rfl⟩ := List.getElem?_eq_some_iff.mp atB
  exact pairwise_iff_getElem.mp apart i j boundA boundB less

theorem get_firstFree (found : s.firstFree = some i) : i < n ∧ s.get i = none := by
  obtain ⟨bound, free, _⟩ := findIdx?_eq_some_iff_getElem.mp found
  refine ⟨by rw [← s.size]; exact bound, ?_⟩
  simp [get, getElem?_eq_getElem bound, isNone_iff_eq_none.mp free]

theorem firstFree_eq_none : s.firstFree = none ↔ ∀ cell ∈ s.cells, cell.isSome := by
  rw [firstFree, findIdx?_eq_none_iff]
  simp [isSome_iff_ne_none]

theorem firstFree_put_some (full : s.firstFree = none) (i : Nat) (record : α) :
    (s.put i (some record)).firstFree = none := by
  rw [firstFree_eq_none] at full ⊢
  intro cell mem
  rcases mem_or_eq_of_mem_set mem with old | rfl
  · exact full cell old
  · rfl

theorem ext_cells {t : Slots α n} (same : s.cells = t.cells) : s = t := by
  obtain ⟨cells, _⟩ := s
  obtain ⟨others, _⟩ := t
  simpa using same

theorem cells_ofEntries (fits : records.length ≤ n) : (ofEntries n records).cells =
      records.map some ++ List.replicate (n - records.length) none := by
  change (records.map some ++ List.replicate n none).take n = _
  rw [take_append, take_of_length_le (by simpa using fits),
    take_replicate, length_map, Nat.min_eq_left (Nat.sub_le _ _)]

theorem get_ofEntries (fits : records.length ≤ n) (i : Nat) :
    (ofEntries n records).get i = records[i]? := by
  rw [get, cells_ofEntries fits, getElem?_append, length_map]
  by_cases inside : i < records.length
  · simp [inside]
  · rw [if_neg inside, getElem?_replicate, getElem?_eq_none (Nat.le_of_not_lt inside)]
    split_ifs <;> rfl

theorem firstFree_ofEntries (room : records.length < n) :
    (ofEntries n records).firstFree = some records.length := by
  have inside : records.length < (ofEntries n records).cells.length := by
    rw [(ofEntries n records).size]
    exact room
  rw [firstFree, findIdx?_eq_some_iff_getElem]
  refine ⟨inside, ?_, ?_⟩
  · simp [cells_ofEntries (Nat.le_of_lt room)]
  · intro j less
    simp [cells_ofEntries (Nat.le_of_lt room), less]

theorem firstFree_ofEntries_full (full : records.length = n) :
    (ofEntries n records).firstFree = none := by
  rw [firstFree, findIdx?_eq_none_iff, cells_ofEntries (Nat.le_of_eq full), full, Nat.sub_self]
  simp

theorem put_ofEntries (room : records.length < n) (record : α) :
    (ofEntries n records).put records.length (some record) = ofEntries n (records ++ [record]) := by
  have longer : (records ++ [record]).length ≤ n := by
    rw [length_append, length_singleton]
    exact room
  have split : n - records.length = (n - (records.length + 1)) + 1 := by omega
  apply ext_cells
  change (ofEntries n records).cells.set records.length (some record) = _
  rw [cells_ofEntries (Nat.le_of_lt room), cells_ofEntries longer,
    set_append_right _ _ (by simp), split, replicate_succ]
  simp

end Slots

end Cix.Lib
