import Cix.Lib.Lines

/-!
# Lines with their marks

A text as the list of its lines, each with the mark that ends it; only the
last one may lack it.  Concatenating the lines gives the text back, and a list
of such lines is the list of the lines of its concatenation.
-/

universe u

namespace Cix.Lib

open List

section Shape

variable {α : Type u} (mark : α)

inductive Marked : List (List α) → Prop
  | nil : Marked []
  | last {line : List α} (plain : mark ∉ line) (nonempty : line ≠ []) :
      Marked [line]
  | cons {line : List α} {rest : List (List α)} (plain : mark ∉ line)
      (later : Marked rest) : Marked ((line ++ [mark]) :: rest)

def Closed (list : List (List α)) : Prop :=
  ∀ piece ∈ list, ∃ line, mark ∉ line ∧ piece = line ++ [mark]

variable {mark}

variable {front : List (List α)}

theorem Closed.marked_append {back : List (List α)}
    (closed : Closed mark front) (marked : Marked mark back) :
    Marked mark (front ++ back) := by
  induction front with
  | nil => exact marked
  | cons piece rest ih =>
    obtain ⟨line, plain, equal⟩ := closed piece mem_cons_self
    rw [cons_append, equal]
    exact .cons plain (ih fun other mem =>
      closed other (mem_cons_of_mem _ mem))

theorem Closed.marked {list : List (List α)} (closed : Closed mark list) :
    Marked mark list := by
  have both := closed.marked_append .nil
  rwa [append_nil] at both

theorem Marked.back {back : List (List α)}
    (marked : Marked mark (front ++ back)) : Marked mark back := by
  induction front with
  | nil => exact marked
  | cons piece rest ih =>
    rw [cons_append] at marked
    generalize split : rest ++ back = tail at marked ih
    cases marked with
    | last plain nonempty =>
      rw [(append_eq_nil_iff.mp split).2]
      exact .nil
    | cons plain later => exact ih later

theorem Marked.closed_front {back : List (List α)}
    (marked : Marked mark (front ++ back)) (more : back ≠ []) :
    Closed mark front := by
  induction front with
  | nil =>
    intro piece mem
    cases mem
  | cons piece rest ih =>
    rw [cons_append] at marked
    generalize split : rest ++ back = tail at marked ih
    cases marked with
    | last plain nonempty => exact absurd (append_eq_nil_iff.mp split).2 more
    | cons plain later =>
      intro other mem
      rcases mem_cons.mp mem with first | inRest
      · exact ⟨_, plain, first⟩
      · exact ih later other inRest

variable {list : List (List α)}

theorem Marked.closed_or_open (marked : Marked mark list) :
    Closed mark list ∨ ∃ front last, list = front ++ [last] ∧
      Closed mark front ∧ mark ∉ last ∧ last ≠ [] := by
  induction marked with
  | nil => exact Or.inl fun piece mem => absurd mem not_mem_nil
  | last plain nonempty =>
    exact Or.inr ⟨[], _, rfl, fun piece mem =>
      absurd mem not_mem_nil, plain, nonempty⟩
  | @cons line rest plain later ih =>
    have first : ∀ {more : List (List α)}, Closed mark more →
        Closed mark ((line ++ [mark]) :: more) := by
      intro more closed piece mem
      rcases mem_cons.mp mem with here | inMore
      · exact ⟨line, plain, here⟩
      · exact closed piece inMore
    rcases ih with closed | ⟨front, last, rfl, closed, opened⟩
    · exact Or.inl (first closed)
    · exact Or.inr ⟨_ :: front, last, rfl, first closed, opened⟩

theorem Closed.append {back : List (List α)}
    (first : Closed mark front) (second : Closed mark back) :
    Closed mark (front ++ back) := by
  intro piece mem
  rcases mem_append.mp mem with inFront | inBack
  · exact first piece inFront
  · exact second piece inBack

theorem Closed.left {back : List (List α)}
    (closed : Closed mark (front ++ back)) : Closed mark front :=
  fun piece mem => closed piece (mem_append_left _ mem)

theorem Closed.right {back : List (List α)}
    (closed : Closed mark (front ++ back)) : Closed mark back :=
  fun piece mem => closed piece (mem_append_right _ mem)

theorem Closed.getLast?_flatten
    (closed : Closed mark list) (nonempty : list ≠ []) :
    list.flatten.getLast? = some mark := by
  obtain ⟨line, _, equal⟩ := closed _ (getLast_mem nonempty)
  rw [← dropLast_append_getLast nonempty, flatten_append, equal]
  simp

theorem Marked.closed_of_getLast?
    (marked : Marked mark list) (ended : list.flatten.getLast? = some mark) :
    Closed mark list := by
  rcases marked.closed_or_open with closed | ⟨front, last, rfl, _, plain, some⟩
  · exact closed
  · rw [flatten_append, flatten_singleton, getLast?_append_of_ne_nil _ some] at ended
    exact absurd (mem_of_getLast? ended) plain

theorem Marked.plain_last {last : List α}
    (marked : Marked mark (front ++ [last]))
    (unended : (front ++ [last]).flatten.getLast? ≠ some mark) :
    mark ∉ last := by
  rcases marked.closed_or_open with closed | ⟨other, line, parts, _, plain, _⟩
  · exact absurd (closed.getLast?_flatten (by simp)) unended
  · obtain ⟨_, same⟩ := append_inj' parts rfl
    rw [singleton_inj.mp same]
    exact plain

theorem Closed.map {f : List α → List α} (closed : Closed mark list)
    (keeps : ∀ line, mark ∉ line → ∃ other, mark ∉ other ∧
      f (line ++ [mark]) = other ++ [mark]) : Closed mark (list.map f) := by
  intro piece mem
  obtain ⟨old, inList, rfl⟩ := mem_map.mp mem
  obtain ⟨line, plain, rfl⟩ := closed old inList
  exact keeps line plain

end Shape

section Cutting

variable {α : Type u} [DecidableEq α] (mark : α)

def markedLines : List α → List (List α)
  | [] => []
  | c :: rest =>
    if c = mark then [c] :: markedLines rest
    else
      match markedLines rest with
      | [] => [[c]]
      | line :: more => (c :: line) :: more

def unmarked (line : List α) : List α :=
  line.takeWhile fun c => decide (c ≠ mark)

variable {mark}

theorem unmarked_plain {line : List α} (plain : mark ∉ line) : unmarked mark line = line := by
  unfold unmarked
  rw [takeWhile_eq_self_iff]
  intro c mem
  exact decide_eq_true fun isMark => plain (isMark ▸ mem)

theorem unmarked_append {line rest : List α} (plain : mark ∉ line) :
    unmarked mark (line ++ mark :: rest) = line := by
  unfold unmarked
  rw [takeWhile_append_of_pos]
  · simp
  · intro c mem
    exact decide_eq_true fun isMark => plain (isMark ▸ mem)

theorem mark_notMem_unmarked (mark : α) (line : List α) : mark ∉ unmarked mark line := by
  intro mem
  have plain := mem_takeWhile_imp mem
  simp at plain

theorem flatten_markedLines (mark : α) (text : List α) :
    (markedLines mark text).flatten = text := by
  induction text with
  | nil => rfl
  | cons c rest ih =>
    unfold markedLines
    split
    · simp [ih]
    · cases cut : markedLines mark rest with
      | nil =>
        rw [cut] at ih
        simp [← ih]
      | cons line more =>
        rw [cut] at ih
        simp [← ih]

theorem markedLines_marked (mark : α) (text : List α) : Marked mark (markedLines mark text) := by
  induction text with
  | nil => exact .nil
  | cons c rest ih =>
    unfold markedLines
    split
    next isMark =>
      rw [isMark]
      exact .cons not_mem_nil ih
    next other =>
      generalize markedLines mark rest = cut at ih
      have different : ∀ {line : List α}, mark ∉ line → mark ∉ c :: line :=
        fun plain mem => (mem_cons.mp mem).elim (fun isMark => other isMark.symm) plain
      cases ih with
      | nil => exact .last (different not_mem_nil) (cons_ne_nil _ _)
      | last plain nonempty => exact .last (different plain) (cons_ne_nil _ _)
      | cons plain later => exact .cons (different plain) later

theorem markedLines_cons {line : List α} (plain : mark ∉ line) (rest : List α) :
    markedLines mark (line ++ mark :: rest) = (line ++ [mark]) :: markedLines mark rest := by
  induction line with
  | nil => simp [markedLines]
  | cons c line ih =>
    obtain ⟨different, later⟩ := not_or.mp (mem_cons.not.mp plain)
    rw [cons_append, markedLines, if_neg (Ne.symm different), ih later]
    rfl

theorem markedLines_plain {line : List α} (plain : mark ∉ line)
    (nonempty : line ≠ []) : markedLines mark line = [line] := by
  induction line with
  | nil => exact absurd rfl nonempty
  | cons c line ih =>
    obtain ⟨different, later⟩ := not_or.mp (mem_cons.not.mp plain)
    rw [markedLines, if_neg (Ne.symm different)]
    cases line with
    | nil => rfl
    | cons d rest => rw [ih later (cons_ne_nil _ _)]

theorem markedLines_flatten {list : List (List α)} (marked : Marked mark list) :
    markedLines mark list.flatten = list := by
  induction marked with
  | nil => rfl
  | last plain nonempty => simpa using markedLines_plain plain nonempty
  | cons plain later ih =>
    rw [flatten_cons, append_assoc, singleton_append, markedLines_cons plain, ih]

theorem Marked.map_unmarked {list : List (List α)} (marked : Marked mark list) :
    list.map (unmarked mark) = lines mark list.flatten := by
  induction marked with
  | nil => rfl
  | last plain nonempty => simp [unmarked_plain plain, lines_plain plain nonempty]
  | cons plain later ih =>
    rw [map_cons, ih, unmarked_append plain, flatten_cons, append_assoc, singleton_append,
      lines_cons plain]

theorem map_unmarked_markedLines (text : List α) :
    (markedLines mark text).map (unmarked mark) = lines mark text := by
  rw [(markedLines_marked mark text).map_unmarked, flatten_markedLines]

theorem lines_joined {front back : List (List α)} {line next : List α}
    (closedFront : Closed mark front) (plain : mark ∉ line)
    (plainNext : mark ∉ next) (closedBack : Closed mark back) :
    lines mark (front ++ line :: (next ++ [mark]) :: back).flatten =
      front.map (unmarked mark) ++ (line ++ next) ::
        back.map (unmarked mark) := by
  have both : mark ∉ line ++ next := fun mem =>
    (mem_append.mp mem).elim plain plainNext
  have whole : Closed mark (front ++ ([(line ++ next) ++ [mark]] ++ back)) := by
    apply closedFront.append (Closed.append _ closedBack)
    intro piece mem
    exact ⟨_, both, mem_singleton.mp mem⟩
  have read := whole.marked.map_unmarked
  rw [map_append, map_append, map_singleton, unmarked_append both, singleton_append] at read
  rw [read]
  simp [append_assoc]

def missingMark (mark : α) (text : List α) : List α :=
  if text ≠ [] ∧ text.getLast? ≠ some mark then [mark] else []

def terminated (mark : α) (line : List α) : List α :=
  unmarked mark line ++ [mark]

theorem terminated_append {line : List α} (plain : mark ∉ line) :
    terminated mark (line ++ [mark]) = line ++ [mark] := by
  rw [terminated, unmarked_append plain]

theorem unmarked_terminated (line : List α) :
    unmarked mark (terminated mark line) = unmarked mark line :=
  unmarked_append (mark_notMem_unmarked mark line)

theorem closed_terminated (list : List (List α)) : Closed mark (list.map (terminated mark)) := by
  intro piece mem
  obtain ⟨line, _, rfl⟩ := mem_map.mp mem
  exact ⟨_, mark_notMem_unmarked mark line, rfl⟩

theorem Closed.map_terminated {list : List (List α)}
    (closed : Closed mark list) : list.map (terminated mark) = list := by
  rw [map_congr_left (g := id), map_id]
  intro piece mem
  obtain ⟨line, plain, rfl⟩ := closed piece mem
  exact terminated_append plain

theorem Marked.flatten_terminated {list : List (List α)} (marked : Marked mark list) :
    (list.map (terminated mark)).flatten = list.flatten ++ missingMark mark list.flatten := by
  unfold missingMark
  rcases marked.closed_or_open with closed | ⟨front, last, rfl, closed, plain, nonempty⟩
  · rw [closed.map_terminated, if_neg, append_nil]
    rintro ⟨some, unended⟩
    apply unended
    apply closed.getLast?_flatten
    intro none
    exact some (by rw [none, flatten_nil])
  · rw [map_append, closed.map_terminated, if_pos]
    · simp [terminated, unmarked_plain plain]
    · constructor
      · simp [nonempty]
      · simp only [flatten_append, flatten_cons, flatten_nil, append_nil]
        rw [getLast?_append_of_ne_nil _ nonempty]
        exact fun isMark => plain (mem_of_getLast? isMark)

def AtEnd (mark : α) (rest : List α) : Prop :=
  rest = [] ∨ ∃ more, rest = mark :: more

theorem exists_atEnd (mark : α) (line : List α) :
    ∃ rest, line = unmarked mark line ++ rest ∧ AtEnd mark rest := by
  refine ⟨line.dropWhile fun c => decide (c ≠ mark), ?_, ?_⟩
  · exact (takeWhile_append_dropWhile).symm
  · by_cases none : (line.dropWhile fun c => decide (c ≠ mark)) = []
    · exact Or.inl none
    · have stop := head_dropWhile_not (fun c => decide (c ≠ mark)) none
      obtain ⟨c, more, cut⟩ := exists_cons_of_ne_nil none
      simp only [cut, head_cons, decide_eq_false_iff_not, Decidable.not_not] at stop
      exact Or.inr ⟨more, by rw [cut, stop]⟩

theorem unmarked_atEnd {line rest : List α} (plain : mark ∉ line)
    (atEnd : AtEnd mark rest) : unmarked mark (line ++ rest) = line := by
  rcases atEnd with rfl | ⟨more, rfl⟩
  · rw [append_nil, unmarked_plain plain]
  · rw [unmarked_append plain]

theorem atEnd_of_marked {line : List α} {after : List (List α)}
    (marked : Marked mark (line :: after)) :
    ∃ rest, line ++ after.flatten = unmarked mark line ++ rest ∧
      AtEnd mark rest := by
  cases marked with
  | last plain _ =>
    refine ⟨[], ?_, Or.inl rfl⟩
    rw [unmarked_plain plain, flatten_nil]
  | cons plain _ =>
    refine ⟨mark :: after.flatten, ?_, Or.inr ⟨_, rfl⟩⟩
    rw [unmarked_append plain, append_assoc, singleton_append]

omit [DecidableEq α] in
theorem prefix_of_atEnd {piece more line rest : List α} (plain : mark ∉ piece)
    (atEnd : AtEnd mark rest) (same : piece ++ more = line ++ rest) :
    piece <+: line := by
  rcases append_eq_append_iff.mp same with ⟨back, isLine, _⟩ | ⟨back, isPiece, isRest⟩
  · exact ⟨back, isLine.symm⟩
  · cases back with
    | nil =>
      refine ⟨[], ?_⟩
      rw [isPiece, append_nil, append_nil]
    | cons c back =>
      rcases atEnd with none | ⟨others, isMark⟩
      · rw [none] at isRest
        cases isRest
      · rw [isMark] at isRest
        rw [isPiece, ← (List.cons.inj isRest).1] at plain
        simp at plain

theorem markedLines_append {front : List α}
    (ended : front = [] ∨ front.getLast? = some mark) (back : List α) :
    Closed mark (markedLines mark front) ∧ markedLines mark (front ++ back) =
        markedLines mark front ++ markedLines mark back := by
  have closed : Closed mark (markedLines mark front) := by
    rcases ended with rfl | last
    · exact fun piece mem => absurd mem not_mem_nil
    · apply (markedLines_marked mark front).closed_of_getLast?
      rw [flatten_markedLines, last]
  have marked := closed.marked_append (markedLines_marked mark back)
  have read := markedLines_flatten marked
  rw [flatten_append, flatten_markedLines, flatten_markedLines] at read
  exact ⟨closed, read⟩

theorem infix_mark_iff {piece : List α} (plain : mark ∉ piece)
    (nonempty : piece ≠ []) (text : List α) :
    mark :: piece <:+: text ↔ ∃ line ∈ (lines mark text).tail, piece <+: line := by
  rw [← map_unmarked_markedLines]
  constructor
  · rintro ⟨before, after, whole⟩
    have split : text = (before ++ [mark]) ++ (piece ++ after) := by
      rw [← whole]
      simp [append_assoc]
    have ended : (before ++ [mark]).getLast? = some mark := by simp
    have read := (markedLines_append (Or.inr ended) (piece ++ after)).2
    have marked := markedLines_marked mark (piece ++ after)
    have joined := flatten_markedLines mark (piece ++ after)
    have first : markedLines mark (before ++ [mark]) ≠ [] := by
      intro none
      have joined := flatten_markedLines mark (before ++ [mark])
      rw [none] at joined
      simp at joined
    rw [split, read, map_append, tail_append_of_ne_nil (by simpa)]
    generalize markedLines mark (piece ++ after) = list at marked joined
    cases list with
    | nil =>
      rw [flatten_nil] at joined
      exact absurd (append_eq_nil_iff.mp joined.symm).1 nonempty
    | cons line rest =>
      obtain ⟨more, isWhole, atEnd⟩ := atEnd_of_marked marked
      rw [flatten_cons, isWhole] at joined
      refine ⟨unmarked mark line, ?_, prefix_of_atEnd plain atEnd joined.symm⟩
      exact mem_append_right _ mem_cons_self
  · rintro ⟨line, mem, begins⟩
    have marked := markedLines_marked mark text
    have joined := flatten_markedLines mark text
    generalize markedLines mark text = list at mem marked joined
    cases list with
    | nil => cases mem
    | cons first others =>
      obtain ⟨old, inOthers, rfl⟩ := mem_map.mp mem
      obtain ⟨front, back, rfl⟩ := append_of_mem inOthers
      rw [← cons_append] at marked
      have closed := marked.closed_front (cons_ne_nil old back)
      have ended := closed.getLast?_flatten (cons_ne_nil first front)
      obtain ⟨init, isFront⟩ := getLast?_eq_some_iff.mp ended
      obtain ⟨rest, isLine, _⟩ := exists_atEnd mark old
      obtain ⟨more, isPiece⟩ := begins
      refine ⟨init, more ++ rest ++ back.flatten, ?_⟩
      rw [← joined, ← cons_append, flatten_append, isFront, flatten_cons, isLine, ← isPiece]
      simp [append_assoc]

end Cutting

end Cix.Lib
