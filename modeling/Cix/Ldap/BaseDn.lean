import Cix.Ldap.ConfigFile

/-!
# Setting the base DN

Where `rewrite_basedn` finds the value: behind the opening of the first
`baseDN` line.  What it leaves depends on that line alone, as long as the value
is closed on it.
-/

namespace Cix.Ldap

open Cix.Lib List Option

/-- `baseDN = "`, with blanks around. -/
def IsOpening (opening : List UInt8) : Prop :=
  ∃ first second third : List UInt8, (∀ c ∈ first ++ second ++ third, isBlank c = true) ∧
    opening = first ++ [98, 97, 115, 101, 68, 78] ++ second ++ [61] ++ third ++
      [34]

/-- The text is split behind the opening of the value on its first `baseDN`
line. -/
def ValueAt (text head value : List UInt8) : Prop :=
  ∃ before opening, head = before ++ opening ∧ text = head ++ value ∧
    IsOpening opening ∧ (before = [] ∨ before.getLast? = some 10) ∧
    ∀ line ∈ lines 10 before, isBaseLine line = false

theorem dropWhile_blanks {blanks : List UInt8}
    (areBlank : ∀ c ∈ blanks, isBlank c = true) {c : UInt8}
    (other : isBlank c = false) (rest : List UInt8) :
    (blanks ++ c :: rest).dropWhile isBlank = c :: rest := by
  rw [dropWhile_append_of_pos areBlank, dropWhile_cons_of_neg (by simp [other])]

namespace IsOpening

variable {opening : List UInt8}

theorem reads (isOpening : IsOpening opening) (value : List UInt8) :
    isBaseLine (opening ++ value) = true ∧ openedValue (opening ++ value) = some value := by
  obtain ⟨first, second, third, blanks, rfl⟩ := isOpening
  have areFirst : ∀ c ∈ first, isBlank c = true := fun c mem =>
    blanks c (by simp [mem])
  have areSecond : ∀ c ∈ second, isBlank c = true := fun c mem =>
    blanks c (by simp [mem])
  have areThird : ∀ c ∈ third, isBlank c = true := fun c mem =>
    blanks c (by simp [mem])
  have start : (first ++ [98, 97, 115, 101, 68, 78] ++ second ++ [61] ++
      third ++ [34] ++ value).dropWhile isBlank = [98, 97, 115, 101, 68, 78] ++
          (second ++ 61 :: (third ++ 34 :: value)) := by
    simp only [append_assoc, cons_append, nil_append]
    rw [dropWhile_blanks areFirst (by decide)]
  constructor
  · rw [isBaseLine, start]
    exact decide_eq_true rfl
  · have equals := dropWhile_blanks areSecond (c := 61) (by decide) (third ++ 34 :: value)
    have quote := dropWhile_blanks areThird (c := 34) (by decide) value
    have behind : ∀ rest : List UInt8,
        ([98, 97, 115, 101, 68, 78] ++ rest).drop 6 = rest := fun _ => rfl
    unfold openedValue
    rw [start, behind, equals]
    simp only [quote]

theorem plain (isOpening : IsOpening opening) : 10 ∉ opening := by
  obtain ⟨first, second, third, blanks, rfl⟩ := isOpening
  have notBlank : (10 : UInt8) ∉ first ++ second ++ third := fun mem =>
    absurd (blanks 10 mem) (by decide)
  simp only [mem_append, not_or] at notBlank
  simp [notBlank]

theorem ends (isOpening : IsOpening opening) : ∃ front, opening = front ++ [34] := by
  obtain ⟨first, second, third, _, rfl⟩ := isOpening
  exact ⟨_, rfl⟩

end IsOpening

theorem blank_of_mem_takeWhile {list : List UInt8} :
    ∀ c ∈ list.takeWhile isBlank, isBlank c = true :=
  fun _ mem => mem_takeWhile_imp mem

theorem exists_opening {text value : List UInt8}
    (isBase : isBaseLine text = true) (opened : openedValue text = some value) :
    ∃ opening, IsOpening opening ∧ text = opening ++ value := by
  have first := takeWhile_append_dropWhile (p := isBlank) (l := text)
  unfold isBaseLine at isBase
  unfold openedValue at opened
  rw [decide_eq_true_eq] at isBase
  have key := take_append_drop 6 (text.dropWhile isBlank)
  rw [isBase] at key
  generalize (text.dropWhile isBlank).drop 6 = rest at key opened
  have second := takeWhile_append_dropWhile (p := isBlank) (l := rest)
  split at opened
  next more equals =>
    have third := takeWhile_append_dropWhile (p := isBlank) (l := more)
    split at opened
    next found quote =>
      obtain rfl := some.inj opened
      refine ⟨_, ⟨text.takeWhile isBlank, rest.takeWhile isBlank,
        more.takeWhile isBlank, ?_, rfl⟩, ?_⟩
      · intro c mem
        rcases mem_append.mp mem with inside | inThird
        · rcases mem_append.mp inside with inFirst | inSecond
          · exact blank_of_mem_takeWhile c inFirst
          · exact blank_of_mem_takeWhile c inSecond
        · exact blank_of_mem_takeWhile c inThird
      · rw [quote] at third
        rw [equals] at second
        calc
          text = text.takeWhile isBlank ++ text.dropWhile isBlank := first.symm
          _ = text.takeWhile isBlank ++ ([98, 97, 115, 101, 68, 78] ++
              rest) := by rw [key]
          _ = text.takeWhile isBlank ++ ([98, 97, 115, 101, 68, 78] ++
              (rest.takeWhile isBlank ++ 61 :: more)) := by rw [second]
          _ = text.takeWhile isBlank ++ ([98, 97, 115, 101, 68, 78] ++
              (rest.takeWhile isBlank ++ 61 :: (more.takeWhile isBlank ++
                34 :: found))) := by rw [third]
          _ = _ := by simp [append_assoc]
    next => cases opened
  next => cases opened

theorem dropWhile_atEnd (line : List UInt8) {rest : List UInt8} (atEnd : AtEnd 10 rest) :
    (line ++ rest).dropWhile isBlank = line.dropWhile isBlank ++ rest := by
  induction line with
  | nil =>
    rcases atEnd with rfl | ⟨more, rfl⟩
    · rfl
    · rfl
  | cons c line ih =>
    by_cases blank : isBlank c = true
    · rw [cons_append, dropWhile_cons_of_pos blank, dropWhile_cons_of_pos blank, ih]
    · rw [cons_append, dropWhile_cons_of_neg blank, dropWhile_cons_of_neg blank, cons_append]

theorem isBaseLine_atEnd (line : List UInt8) {rest : List UInt8}
    (atEnd : AtEnd 10 rest) : isBaseLine (line ++ rest) = isBaseLine line := by
  unfold isBaseLine
  rw [dropWhile_atEnd line atEnd]
  generalize line.dropWhile isBlank = text
  by_cases long : 6 ≤ text.length
  · rw [take_append_of_le_length long]
  · rw [Bool.eq_iff_iff, decide_eq_true_eq, decide_eq_true_eq]
    have short : text.take 6 = text := take_of_length_le (Nat.le_of_not_le long)
    constructor
    · intro found
      rcases atEnd with rfl | ⟨more, rfl⟩
      · rwa [append_nil] at found
      · have mem : (10 : UInt8) ∈ (text ++ 10 :: more).take 6 := by
          rw [take_append, short]
          obtain ⟨n, positive⟩ : ∃ n, 6 - text.length = n + 1 := ⟨6 - text.length - 1, by omega⟩
          rw [positive, take_succ_cons]
          simp
        rw [found] at mem
        exact absurd mem (by decide)
    · intro found
      rw [short] at found
      rw [found] at long
      exact absurd (by decide) long

theorem isBaseLine_unmarked (line : List UInt8) :
    isBaseLine (unmarked 10 line) = isBaseLine line := by
  obtain ⟨rest, isLine, atEnd⟩ := exists_atEnd 10 line
  have same := isBaseLine_atEnd (unmarked 10 line) atEnd
  rw [← isLine] at same
  exact same.symm

theorem openedValue_atEnd {line rest value : List UInt8}
    (isBase : isBaseLine line = true) (plain : 10 ∉ line)
    (atEnd : AtEnd 10 rest) :
    openedValue (line ++ rest) = some value ↔
      openedValue line = some (unmarked 10 value) ∧
        value = unmarked 10 value ++ rest := by
  constructor
  · intro opened
    have whole : isBaseLine (line ++ rest) = true := by rw [isBaseLine_atEnd line atEnd, isBase]
    obtain ⟨opening, isOpening, split⟩ := exists_opening whole opened
    obtain ⟨more, isLine⟩ := prefix_of_atEnd isOpening.plain atEnd split.symm
    have isValue : value = more ++ rest := by
      rw [← isLine, append_assoc] at split
      exact (append_cancel_left split).symm
    have plainMore : 10 ∉ more := fun mem =>
      plain (isLine ▸ mem_append_right opening mem)
    have read : unmarked 10 value = more := by rw [isValue, unmarked_atEnd plainMore atEnd]
    rw [read, ← isLine]
    exact ⟨(isOpening.reads more).2, isValue⟩
  · rintro ⟨opened, isValue⟩
    obtain ⟨opening, isOpening, split⟩ := exists_opening isBase opened
    rw [split, append_assoc, ← isValue]
    exact (isOpening.reads value).2

/-- The text from the first `baseDN` line on. -/
def fromBaseLine (text : List UInt8) : List UInt8 :=
  ((markedLines 10 text).dropWhile fun line => !isBaseLine line).flatten

section Value

variable {text head value : List UInt8} {newBasedn : CStr}

theorem markedLines_base (text : List UInt8) :
    ((∀ line ∈ markedLines 10 text, isBaseLine line = false) ∧ fromBaseLine text = []) ∨
      ∃ before line after, markedLines 10 text = before ++ line :: after ∧
        (∀ other ∈ before, isBaseLine other = false) ∧
        isBaseLine line = true ∧
        fromBaseLine text = line ++ after.flatten := by
  unfold fromBaseLine
  generalize markedLines 10 text = list
  induction list with
  | nil => exact Or.inl ⟨fun line mem => absurd mem not_mem_nil, rfl⟩
  | cons line rest ih =>
    cases isBase : isBaseLine line with
    | true =>
      refine Or.inr ⟨[], line, rest, rfl, ?_, isBase, ?_⟩
      · exact fun other mem => absurd mem not_mem_nil
      · rw [dropWhile_cons_of_neg (by simp [isBase]), flatten_cons]
    | false =>
      have later : ∀ other, other = line → isBaseLine other = false :=
        fun other here => here ▸ isBase
      rcases ih with ⟨none, empty⟩ | ⟨before, found, after, parts, noneBefore, isFound, whole⟩
      · refine Or.inl ⟨fun other mem => ?_, ?_⟩
        · exact (mem_cons.mp mem).elim (later other) (none other)
        · rw [dropWhile_cons_of_pos (by simp [isBase]), empty]
      · refine Or.inr ⟨line :: before, found, after, ?_, ?_, isFound, ?_⟩
        · rw [parts, cons_append]
        · intro other mem
          exact (mem_cons.mp mem).elim (later other) (noneBefore other)
        · rw [dropWhile_cons_of_pos (by simp [isBase]), whole]

theorem isBaseLine_first {line : List UInt8} {after : List (List UInt8)}
    (marked : Marked 10 (line :: after)) :
    isBaseLine (line ++ after.flatten) = isBaseLine line := by
  obtain ⟨rest, whole, atEnd⟩ := atEnd_of_marked marked
  rw [whole, isBaseLine_atEnd _ atEnd, isBaseLine_unmarked]

theorem fromBaseLine_of_valueAt (valueAt : ValueAt text head value) :
    openedValue (fromBaseLine text) = some value := by
  obtain ⟨before, opening, rfl, rfl, isOpening, ended, none⟩ := valueAt
  have reads := isOpening.reads value
  have marked := markedLines_marked 10 (opening ++ value)
  have whole := flatten_markedLines 10 (opening ++ value)
  have noneMarked : ∀ line ∈ markedLines 10 before, (!isBaseLine line) = true := by
    intro line mem
    rw [← isBaseLine_unmarked, none, Bool.not_false]
    rw [← map_unmarked_markedLines]
    exact mem_map_of_mem mem
  unfold fromBaseLine
  rw [append_assoc, (markedLines_append ended _).2, dropWhile_append_of_pos noneMarked]
  generalize markedLines 10 (opening ++ value) = list at marked whole
  cases list with
  | nil =>
    rw [← whole] at reads
    cases reads.1
  | cons line after =>
    have isBase := isBaseLine_first marked
    rw [← flatten_cons, whole, reads.1] at isBase
    rw [dropWhile_cons_of_neg (by simp [← isBase]), whole, reads.2]

theorem exists_valueAt (opened : openedValue (fromBaseLine text) = some value) :
    ∃ head, ValueAt text head value := by
  have marked := markedLines_marked 10 text
  have joined := flatten_markedLines 10 text
  rcases markedLines_base text with ⟨_, empty⟩ | ⟨before, line, after, parts,
    none, isBase, fromLine⟩
  · rw [empty] at opened
    cases opened
  · rw [parts] at marked joined
    have first := isBaseLine_first marked.back
    rw [isBase, ← fromLine] at first
    obtain ⟨opening, isOpening, split⟩ := exists_opening first opened
    have closed := marked.closed_front (cons_ne_nil line after)
    refine ⟨before.flatten ++ opening, before.flatten, opening, rfl, ?_, isOpening, ?_, ?_⟩
    · rw [← joined, flatten_append, flatten_cons, ← fromLine, split, append_assoc]
    · by_cases nothing : before = []
      · rw [nothing]
        exact Or.inl rfl
      · exact Or.inr (closed.getLast?_flatten nothing)
    · intro other mem
      rw [← closed.marked.map_unmarked] at mem
      obtain ⟨old, inBefore, rfl⟩ := mem_map.mp mem
      rw [isBaseLine_unmarked]
      exact none old inBefore

theorem ValueAt.unique {head' value' : List UInt8}
    (first : ValueAt text head value) (second : ValueAt text head' value') :
    head = head' ∧ value = value' := by
  have opened := fromBaseLine_of_valueAt first
  rw [fromBaseLine_of_valueAt second, some.injEq] at opened
  obtain ⟨_, _, _, whole, _⟩ := first
  obtain ⟨_, _, _, whole', _⟩ := second
  rw [whole, opened] at whole'
  exact ⟨append_cancel_right whole', opened.symm⟩

theorem rewriteBasedn_of_valueAt (valueAt : ValueAt text head value) :
    rewriteBasedn newBasedn text =
      if 34 ∈ value then
        some (head ++ newBasedn.bytes ++ value.dropWhile fun c => decide (c ≠ 34))
      else none := by
  have opened := fromBaseLine_of_valueAt valueAt
  obtain ⟨_, _, _, whole, _⟩ := valueAt
  have front : text.take (text.length - value.length) = head := by
    rw [whole, length_append, Nat.add_sub_cancel, take_left]
  unfold rewriteBasedn
  rw [fromBaseLine] at opened
  simp only [opened]
  rw [front]

theorem rewriteBasedn_of_none (none : ∀ head value, ¬ValueAt text head value) :
    rewriteBasedn newBasedn text = Option.none := by
  unfold rewriteBasedn
  cases opened : openedValue (fromBaseLine text) with
  | none =>
    rw [fromBaseLine] at opened
    simp only [opened]
  | some value =>
    obtain ⟨head, valueAt⟩ := exists_valueAt opened
    exact absurd valueAt (none head value)

theorem ValueAt.line (valueAt : ValueAt text head value) :
    ∃ line, (lines 10 text).find? isBaseLine = some line ∧
      openedValue line = some (unmarked 10 value) := by
  have opened := fromBaseLine_of_valueAt valueAt
  have marked := markedLines_marked 10 text
  rcases markedLines_base text with ⟨_, empty⟩ | ⟨before, line, after, parts,
    none, isBase, fromLine⟩
  · rw [empty] at opened
    cases opened
  · rw [parts] at marked
    obtain ⟨rest, whole, atEnd⟩ := atEnd_of_marked marked.back
    rw [fromLine, whole, openedValue_atEnd (by rw [isBaseLine_unmarked, isBase])
      (mark_notMem_unmarked 10 line) atEnd] at opened
    refine ⟨unmarked 10 line, ?_, opened.1⟩
    rw [← map_unmarked_markedLines, parts, map_append, map_cons,
      find?_append, find?_eq_none.mpr, none_or,
      find?_cons_of_pos (by rw [isBaseLine_unmarked, isBase])]
    intro other mem
    obtain ⟨old, inBefore, rfl⟩ := mem_map.mp mem
    rw [isBaseLine_unmarked, none old inBefore]
    exact Bool.false_ne_true

theorem valueAt_of_line {line read : List UInt8}
    (first : (lines 10 text).find? isBaseLine = some line)
    (opened : openedValue line = some read) :
    ∃ head value, ValueAt text head value ∧ unmarked 10 value = read := by
  have marked := markedLines_marked 10 text
  rw [← map_unmarked_markedLines] at first
  rcases markedLines_base text with ⟨none, _⟩ | ⟨before, found, after, parts,
    none, isBase, fromLine⟩
  · have mem := mem_of_find?_eq_some first
    obtain ⟨old, inText, rfl⟩ := mem_map.mp mem
    have isBase := find?_some first
    rw [isBaseLine_unmarked, none old inText] at isBase
    cases isBase
  · rw [parts] at marked first
    have noneBefore : (before.map (unmarked 10)).find? isBaseLine =
        Option.none := by
      rw [find?_eq_none]
      intro other mem
      obtain ⟨old, inBefore, rfl⟩ := mem_map.mp mem
      rw [isBaseLine_unmarked, none old inBefore]
      exact Bool.false_ne_true
    rw [map_append, find?_append, noneBefore, none_or, map_cons,
      find?_cons_of_pos (by rw [isBaseLine_unmarked, isBase]),
      some.injEq] at first
    obtain ⟨rest, whole, atEnd⟩ := atEnd_of_marked marked.back
    have plain := mark_notMem_unmarked 10 found
    have isLine : isBaseLine (unmarked 10 found) = true := by rw [isBaseLine_unmarked, isBase]
    obtain ⟨opening, _, split⟩ := exists_opening isLine (first ▸ opened)
    have plainRead : 10 ∉ read := fun mem =>
      plain (split ▸ mem_append_right opening mem)
    have read' := unmarked_atEnd plainRead atEnd
    have reads : openedValue (unmarked 10 found ++ rest) = some (read ++ rest) := (openedValue_atEnd
      isLine plain atEnd).mpr ⟨by rw [read', first, opened], by rw [read']⟩
    rw [← whole, ← fromLine] at reads
    obtain ⟨head, valueAt⟩ := exists_valueAt reads
    exact ⟨head, _, valueAt, read'⟩

end Value

end Cix.Ldap
