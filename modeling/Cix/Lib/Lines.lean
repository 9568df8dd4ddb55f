import Mathlib.Data.List.Basic
import Mathlib.Data.List.TakeWhile

/-!
# The lines of a text, read from its end

A text is cut into lines at a mark.  A reader that knows only the end of the
text, and fetches the block before it when no line is complete, meets the same
lines in the opposite order.  From a limit on it gives up what it holds, the
mark included: a line that makes just as many bytes with its mark is lost where
a block begins with it.
-/

universe u v

namespace Cix.Lib

open List

section Lines

variable {α : Type u} [DecidableEq α] (mark : α)

/-- The lines of a text whose first line begins with `piece`.  What follows the
last mark is a line unless it is empty. -/
def linesFrom : (piece : List α) → List α → List (List α)
  | [], [] => []
  | c :: piece, [] => [c :: piece]
  | piece, c :: rest =>
    if c = mark then piece :: linesFrom [] rest
    else linesFrom (piece ++ [c]) rest

def lines (text : List α) : List (List α) :=
  linesFrom mark [] text

def Ends (line ending : List α) : Prop :=
  ending = [mark] ∨
    ending = [] ∧ line ≠ [] ∧ line.getLast? ≠ some mark

variable {mark}

theorem linesFrom_cons (piece : List α) (c : α) (rest : List α) : linesFrom mark piece (c :: rest) =
      if c = mark then piece :: linesFrom mark [] rest
      else linesFrom mark (piece ++ [c]) rest := by
  cases piece <;> rfl

theorem linesFrom_append_mark (piece first rest : List α) :
    linesFrom mark piece (first ++ mark :: rest) =
      linesFrom mark piece (first ++ [mark]) ++ lines mark rest := by
  induction first generalizing piece with
  | nil => simp [linesFrom_cons, lines, linesFrom]
  | cons c first ih =>
    simp only [cons_append, linesFrom_cons]
    split
    · rw [ih, cons_append]
    · exact ih _

theorem linesFrom_line {line ending : List α} (piece : List α)
    (plain : mark ∉ line) (ends : Ends mark (piece ++ line) ending) :
    linesFrom mark piece (line ++ ending) = [piece ++ line] := by
  induction line generalizing piece with
  | nil =>
    rcases ends with closed | ⟨unclosed, nonempty, _⟩
    · simp [closed, linesFrom_cons, linesFrom]
    · rw [append_nil] at nonempty ⊢
      cases piece with
      | nil => exact absurd rfl nonempty
      | cons c piece => simp [unclosed, linesFrom]
  | cons c line ih =>
    obtain ⟨different, rest⟩ := not_or.mp (mem_cons.not.mp plain)
    have moved : piece ++ c :: line = piece ++ [c] ++ line := by simp
    rw [cons_append, linesFrom_cons, if_neg (Ne.symm different), moved]
    apply ih _ rest
    rwa [← moved]

theorem lines_append_line {before line ending : List α}
    (begins : before = [] ∨ ∃ earlier, before = earlier ++ [mark])
    (plain : mark ∉ line) (ends : Ends mark line ending) :
    lines mark (before ++ (line ++ ending)) = lines mark before ++ [line] := by
  have last : lines mark (line ++ ending) = [line] := linesFrom_line [] plain ends
  rcases begins with empty | ⟨earlier, closed⟩
  · rw [empty, nil_append, last]
    rfl
  · rw [closed, append_assoc, singleton_append]
    exact (linesFrom_append_mark [] earlier _).trans (congrArg _ last)

theorem exists_line_of_stretch {stretch ending : List α} (piece before : List α)
    (plain : mark ∉ stretch) (ends : Ends mark stretch ending) :
    ∃ line ∈ linesFrom mark piece (before ++ (stretch ++ ending)),
      stretch.length ≤ line.length := by
  induction before generalizing piece with
  | nil =>
    have closed : Ends mark (piece ++ stretch) ending := by
      rcases ends with closed | ⟨unclosed, nonempty, unmarked⟩
      · exact Or.inl closed
      · refine Or.inr ⟨unclosed, by simp [nonempty], ?_⟩
        rwa [getLast?_append_of_ne_nil _ nonempty]
    rw [nil_append, linesFrom_line piece plain closed]
    exact ⟨_, mem_singleton_self _, by simp⟩
  | cons c before ih =>
    rw [cons_append, linesFrom_cons]
    split
    · obtain ⟨line, mem, longer⟩ := ih []
      exact ⟨line, mem_cons_of_mem _ mem, longer⟩
    · exact ih _

end Lines

section Joining

variable {α : Type u} [DecidableEq α] (mark : α)

def unlines (list : List (List α)) : List α :=
  list.flatMap fun line => line ++ [mark]

variable {mark}

@[simp]
theorem unlines_nil : unlines mark [] = [] := rfl

@[simp]
theorem unlines_cons (line : List α) (rest : List (List α)) :
    unlines mark (line :: rest) = line ++ mark :: unlines mark rest := by
  simp [unlines]

theorem lines_cons {line : List α} (plain : mark ∉ line) (rest : List α) :
    lines mark (line ++ mark :: rest) = line :: lines mark rest := by
  rw [lines, linesFrom_append_mark, linesFrom_line [] plain (Or.inl rfl)]
  rfl

theorem lines_plain {line : List α} (plain : mark ∉ line)
    (nonempty : line ≠ []) : lines mark line = [line] := by
  have unmarked : line.getLast? ≠ some mark := by
    intro last
    exact plain (mem_of_getLast? last)
  have ends : Ends mark ([] ++ line) [] := Or.inr ⟨rfl, nonempty, unmarked⟩
  have single := linesFrom_line [] plain ends
  rw [append_nil] at single
  exact single

theorem plain_of_mem_linesFrom {text : List α} (piece : List α) (unmarked : mark ∉ piece) :
    ∀ line ∈ linesFrom mark piece text, mark ∉ line := by
  induction text generalizing piece with
  | nil =>
    cases piece with
    | nil =>
      intro line mem
      cases mem
    | cons c piece =>
      intro line mem
      rw [linesFrom, mem_singleton] at mem
      rw [mem]
      exact unmarked
  | cons c rest ih =>
    rw [linesFrom_cons]
    split
    next isMark =>
      intro line mem
      rcases mem_cons.mp mem with isFirst | later
      · rw [isFirst]
        exact unmarked
      · exact ih [] not_mem_nil line later
    next other =>
      apply ih
      intro mem
      rcases mem_append.mp mem with earlier | isLast
      · exact unmarked earlier
      · exact other (mem_singleton.mp isLast).symm

theorem plain_of_mem_lines {text line : List α} (mem : line ∈ lines mark text) : mark ∉ line :=
  plain_of_mem_linesFrom [] not_mem_nil line mem

theorem lines_unlines {list : List (List α)} (plain : ∀ line ∈ list, mark ∉ line) :
    lines mark (unlines mark list) = list := by
  induction list with
  | nil => rfl
  | cons line rest ih =>
    rw [unlines_cons, lines_cons (plain line mem_cons_self), ih fun other mem =>
        plain other (mem_cons_of_mem _ mem)]

/-- The text is empty or its last line is ended. -/
def Whole (mark : α) (text : List α) : Prop :=
  text = [] ∨ ∃ earlier, text = earlier ++ [mark]

theorem unlines_linesFrom {text : List α} (piece : List α) (plain : mark ∉ piece)
    (whole : Whole mark (piece ++ text)) :
    unlines mark (linesFrom mark piece text) = piece ++ text := by
  induction text generalizing piece with
  | nil =>
    cases piece with
    | nil => rfl
    | cons c piece =>
      rcases whole with empty | ⟨earlier, closed⟩
      · cases empty
      · rw [append_nil] at closed
        rw [closed] at plain
        exact absurd (mem_append_right _ (mem_singleton_self mark)) plain
  | cons c rest ih =>
    rw [linesFrom_cons]
    split
    next isMark =>
      have rests : Whole mark ([] ++ rest) := by
        rcases whole with empty | ⟨earlier, closed⟩
        · cases (append_eq_nil_iff.mp empty).2
        · rcases eq_nil_or_concat rest with none | ⟨front, last, isLast⟩
          · exact Or.inl none
          · right
            rw [concat_eq_append] at isLast
            have moved : piece ++ c :: (front ++ [last]) = piece ++ c :: front ++ [last] := by simp
            rw [isLast, moved] at closed
            obtain ⟨_, same⟩ := append_inj' closed rfl
            exact ⟨front, by rw [isLast, same]; rfl⟩
      rw [unlines_cons, ih [] not_mem_nil rests, isMark]
      rfl
    next other =>
      have moved : piece ++ c :: rest = piece ++ [c] ++ rest := by simp
      rw [moved] at whole ⊢
      apply ih _ _ whole
      rw [mem_append, mem_singleton]
      rintro (inPiece | same)
      · exact plain inPiece
      · exact other same.symm

theorem unlines_lines {text : List α} (whole : Whole mark text) :
    unlines mark (lines mark text) = text :=
  unlines_linesFrom [] not_mem_nil whole

/-- The lines with the places at which they begin. -/
def placed : (start : Nat) → List (List α) → List (Nat × List α)
  | _, [] => []
  | start, line :: rest => (start, line) :: placed (start + line.length + 1) rest

def placedLines (mark : α) (text : List α) : List (Nat × List α) :=
  placed 0 (lines mark text)

omit [DecidableEq α] in
theorem map_placed (start : Nat) (list : List (List α)) :
    (placed start list).map Prod.snd = list := by
  induction list generalizing start with
  | nil => rfl
  | cons line rest ih => rw [placed, map_cons, ih]

theorem placed_concat (start : Nat) (list : List (List α)) (line : List α) :
    placed start (list ++ [line]) =
      placed start list ++ [(start + (unlines mark list).length, line)] := by
  induction list generalizing start with
  | nil => rfl
  | cons first rest ih =>
    rw [cons_append, placed, placed, ih, cons_append, unlines_cons, length_append, length_cons]
    congr 4
    omega

theorem mem_of_mem_linesFrom {text : List α} (piece : List α) {c : α} :
    ∀ line ∈ linesFrom mark piece text, c ∈ line → c ∈ piece ++ text := by
  induction text generalizing piece with
  | nil =>
    cases piece with
    | nil =>
      intro line mem
      cases mem
    | cons first piece =>
      intro line mem inLine
      rw [linesFrom, mem_singleton] at mem
      rw [mem] at inLine
      exact mem_append_left _ inLine
  | cons first rest ih =>
    rw [linesFrom_cons]
    split
    · intro line mem inLine
      rcases mem_cons.mp mem with isPiece | later
      · rw [isPiece] at inLine
        exact mem_append_left _ inLine
      · have inRest := ih [] line later inLine
        simp only [nil_append] at inRest
        simp [inRest]
    · intro line mem inLine
      have inRest := ih (piece ++ [first]) line mem inLine
      simpa using inRest

theorem mem_of_mem_lines {text line : List α} {c : α}
    (mem : line ∈ lines mark text) (inLine : c ∈ line) : c ∈ text :=
  mem_of_mem_linesFrom [] line mem inLine

theorem find_lines_take {wanted : List α → Bool}
    {before after : List (List α)} {line : List α}
    (plain : ∀ other ∈ before ++ [line], mark ∉ other)
    (others : ∀ other ∈ before, wanted other = false)
    (isWanted : wanted line = true) (nonempty : line ≠ []) (n : Nat) :
    ((unlines mark before).length + line.length ≤ n ∧
      (lines mark ((unlines mark (before ++ line :: after)).take n)).find? wanted = some line) ∨
    (n < (unlines mark before).length + line.length ∧ ∀ found, (lines mark
          ((unlines mark (before ++ line :: after)).take n)).find? wanted = some found →
        ∃ other ∈ before ++ [line], ∃ j < other.length, found = other.take j) := by
  induction before generalizing n with
  | nil =>
    have plainLine : mark ∉ line := plain line (by simp)
    rw [nil_append, unlines_cons]
    by_cases whole : line.length ≤ n
    · left
      refine ⟨by simpa using whole, ?_⟩
      rw [take_append, take_of_length_le whole]
      cases more : n - line.length with
      | zero =>
        rw [take_zero, append_nil, lines_plain plainLine nonempty, find?_cons_of_pos isWanted]
      | succ m => rw [take_succ_cons, lines_cons plainLine, find?_cons_of_pos isWanted]
    · right
      refine ⟨by simpa using whole, ?_⟩
      intro found isFound
      rw [take_append_of_le_length (by omega)] at isFound
      have mem := mem_of_find?_eq_some isFound
      have plainCut : mark ∉ line.take n := fun mem =>
        plainLine (mem_of_mem_take mem)
      by_cases empty : line.take n = []
      · rw [empty] at mem
        cases mem
      · rw [lines_plain plainCut empty, mem_singleton] at mem
        exact ⟨line, by simp, n, by omega, mem⟩
  | cons first before ih =>
    have plainFirst : mark ∉ first := plain first (by simp)
    have otherFirst := others first mem_cons_self
    have later := ih (fun other mem => plain other (mem_cons_of_mem _ mem))
      (fun other mem => others other (mem_cons_of_mem _ mem))
    rw [cons_append, unlines_cons, unlines_cons, length_append, length_cons]
    by_cases reached : first.length < n
    · have cut : (first ++ mark :: unlines mark (before ++ line :: after)).take n =
          first ++ mark :: (unlines mark (before ++ line :: after)).take
            (n - first.length - 1) := by
        obtain ⟨m, isSucc⟩ : ∃ m, n - first.length = m + 1 := ⟨n - first.length - 1, by omega⟩
        rw [take_append, take_of_length_le (by omega), isSucc, take_succ_cons]
        rfl
      rw [cut, lines_cons plainFirst, find?_cons_of_neg (by simp [otherFirst])]
      rcases later (n - first.length - 1) with ⟨whole, found⟩ | ⟨short, cuts⟩
      · exact Or.inl ⟨by omega, found⟩
      · refine Or.inr ⟨by omega, ?_⟩
        intro found isFound
        obtain ⟨other, mem, cutOther⟩ := cuts found isFound
        exact ⟨other, mem_cons_of_mem _ mem, cutOther⟩
    · right
      refine ⟨by
        have positive := length_pos_of_ne_nil nonempty
        omega, ?_⟩
      intro found isFound
      rw [take_append_of_le_length (by omega)] at isFound
      have mem := mem_of_find?_eq_some isFound
      have wantedFound := find?_some isFound
      have plainCut : mark ∉ first.take n := fun mem =>
        plainFirst (mem_of_mem_take mem)
      by_cases empty : first.take n = []
      · rw [empty] at mem
        cases mem
      · rw [lines_plain plainCut empty, mem_singleton] at mem
        refine ⟨first, by simp, n, ?_, mem⟩
        by_contra whole
        rw [take_of_length_le (by omega)] at mem
        rw [mem, otherFirst] at wantedFound
        cases wantedFound

end Joining

section Reader

variable {α : Type u} [DecidableEq α] (mark : α) (block limit : Nat)
  (content : List α)

/-- The reader of `content`: what is not read yet ends at `pos`, and `buf` is
what is read of it and not returned. -/
structure BackReader (α : Type u) where
  pos : Nat
  buf : List α

def BackReader.unread (r : BackReader α) : List α :=
  content.take r.pos ++ r.buf

/-- Fetches the block before `pos`. -/
def backFill (r : BackReader α) : BackReader α :=
  let want := min r.pos block
  { pos := r.pos - want
    buf := (content.take r.pos).drop (r.pos - want) ++ r.buf }

def BackReader.body (r : BackReader α) : List α :=
  if r.buf.getLast? = some mark then r.buf.dropLast else r.buf

def lineStart (text : List α) : Nat :=
  text.length - (text.reverse.takeWhile fun c => c ≠ mark).length

def backNextLine : (fuel : Nat) → BackReader α → Option (List α × BackReader α)
  | 0, _ => none
  | fuel + 1, r =>
    if r.buf = [] then
      if r.pos = 0 then none
      else backNextLine fuel (backFill block content r)
    else
      let text := r.body mark
      let start := lineStart mark text
      if 0 < start ∨ r.pos = 0 then
        some (text.drop start, { r with buf := r.buf.take start })
      -- a stretch this long is given up as one empty line
      else if limit ≤ r.buf.length then some ([], { r with buf := [] })
      else backNextLine fuel (backFill block content r)

variable {σ : Type v} (stop : σ → Bool) (visit : σ → List α → σ)

/-- Visits the lines from the last to the first until `stop`; the flag says
that the start was reached. -/
def backWalk : (fuel : Nat) → BackReader α → σ → Bool × σ
  | 0, _, state => (false, state)
  | fuel + 1, r, state =>
    if stop state then (false, state)
    else
      match backNextLine mark block limit content (r.pos + 1) r with
      | none => (true, state)
      | some (line, r) => backWalk fuel r (visit state line)

def walk : List (List α) → σ → Bool × σ
  | [], state => if stop state then (false, state) else (true, state)
  | line :: rest, state =>
    if stop state then (false, state) else walk rest (visit state line)

variable {mark block limit content stop visit}

variable (block content) in
omit [DecidableEq α] in
theorem unread_backFill (r : BackReader α) :
    (backFill block content r).unread content = r.unread content := by
  unfold backFill BackReader.unread
  dsimp only
  have whole : content.take (r.pos - min r.pos block) ++
      (content.take r.pos).drop (r.pos - min r.pos block) = content.take r.pos := by
    have cut := take_append_drop (r.pos - min r.pos block) (content.take r.pos)
    rwa [take_take, Nat.min_eq_left (by omega)] at cut
  rw [← append_assoc, whole]

variable (mark) in
theorem exists_ending {r : BackReader α} (nonempty : r.buf ≠ []) :
    ∃ ending, r.buf = r.body mark ++ ending ∧ Ends mark (r.body mark) ending := by
  unfold BackReader.body
  split
  next closed =>
    refine ⟨[mark], ?_, Or.inl rfl⟩
    have last := getLast?_eq_some_iff.mp closed
    obtain ⟨front, split⟩ := last
    rw [split, dropLast_concat]
  next unmarked => exact ⟨[], by simp, Or.inr ⟨rfl, nonempty, unmarked⟩⟩

theorem lineStart_le (text : List α) : lineStart mark text ≤ text.length :=
  Nat.sub_le _ _

theorem drop_lineStart (text : List α) : text.drop (lineStart mark text) =
      (text.reverse.takeWhile fun c => c ≠ mark).reverse := by
  unfold lineStart
  have cut := takeWhile_append_dropWhile (p := fun c => decide (c ≠ mark)) (l := text.reverse)
  have whole : text = (text.reverse.dropWhile fun c => c ≠ mark).reverse ++
      (text.reverse.takeWhile fun c => c ≠ mark).reverse := by
    rw [← reverse_append, cut, reverse_reverse]
  conv => lhs; arg 2; rw [whole]
  have sizes := congrArg List.length whole
  simp only [length_append, length_reverse] at sizes
  rw [drop_left']
  rw [length_reverse]
  omega

variable (mark) in
theorem mark_notMem_drop_lineStart (text : List α) : mark ∉ text.drop (lineStart mark text) := by
  rw [drop_lineStart, mem_reverse]
  intro mem
  have different := mem_takeWhile_imp mem
  simp at different

variable (mark) in
theorem take_lineStart (text : List α) : text.take (lineStart mark text) = [] ∨
      ∃ earlier, text.take (lineStart mark text) = earlier ++ [mark] := by
  have front : text.take (lineStart mark text) =
      (text.reverse.dropWhile fun c => c ≠ mark).reverse := by
    have cut := take_append_drop (lineStart mark text) text
    have whole := takeWhile_append_dropWhile (p := fun c => decide (c ≠ mark)) (l := text.reverse)
    rw [drop_lineStart] at cut
    have both : text.take (lineStart mark text) ++
          (text.reverse.takeWhile fun c => c ≠ mark).reverse =
        (text.reverse.dropWhile fun c => c ≠ mark).reverse ++
          (text.reverse.takeWhile fun c => c ≠ mark).reverse := by
      rw [cut, ← reverse_append, whole, reverse_reverse]
    exact append_cancel_right both
  cases rest : text.reverse.dropWhile fun c => c ≠ mark with
  | nil => exact Or.inl (by rw [front, rest]; rfl)
  | cons c rest' =>
    have isMark : c = mark := by
      have head := head?_dropWhile_not (fun c => decide (c ≠ mark)) text.reverse
      rw [rest] at head
      simpa using head
    refine Or.inr ⟨rest'.reverse, ?_⟩
    rw [front, rest, reverse_cons, isMark]

theorem unread_of_lineStart {r : BackReader α} {ending : List α}
    (split : r.buf = r.body mark ++ ending) :
    r.unread content = content.take r.pos ++ r.buf.take (lineStart mark (r.body mark)) ++
        ((r.body mark).drop (lineStart mark (r.body mark)) ++ ending) := by
  have front : r.buf.take (lineStart mark (r.body mark)) =
      (r.body mark).take (lineStart mark (r.body mark)) := by
    conv_lhs => rw [split]
    exact take_append_of_le_length (lineStart_le _)
  rw [BackReader.unread, front]
  conv_lhs => rw [split]
  rw [append_assoc, ← append_assoc (List.take _ (r.body mark)), take_append_drop]

theorem ends_of_drop {text ending : List α} (ends : Ends mark text ending) :
    Ends mark (text.drop (lineStart mark text)) ending := by
  rcases ends with closed | ⟨unclosed, nonempty, unmarked⟩
  · exact Or.inl closed
  · have present : text.drop (lineStart mark text) ≠ [] := by
      intro none
      have whole := take_append_drop (lineStart mark text) text
      rw [none, append_nil] at whole
      rcases take_lineStart mark text with empty | ⟨earlier, front⟩
      · exact nonempty (whole.symm.trans empty)
      · rw [← whole, front, getLast?_concat] at unmarked
        exact unmarked rfl
    refine Or.inr ⟨unclosed, present, ?_⟩
    intro last
    have mem := mem_of_getLast? last
    exact mark_notMem_drop_lineStart mark text mem

theorem lines_unread_of_complete {r next : BackReader α}
    (nonempty : r.buf ≠ [])
    (complete : 0 < lineStart mark (r.body mark) ∨ r.pos = 0)
    (taken : next =
      { r with buf := r.buf.take (lineStart mark (r.body mark)) }) :
    lines mark (r.unread content) = lines mark (next.unread content) ++
        [(r.body mark).drop (lineStart mark (r.body mark))] := by
  obtain ⟨ending, split, ends⟩ := exists_ending mark nonempty
  rw [unread_of_lineStart split, taken, BackReader.unread]
  apply lines_append_line _ (mark_notMem_drop_lineStart mark _) (ends_of_drop ends)
  have front : r.buf.take (lineStart mark (r.body mark)) =
      (r.body mark).take (lineStart mark (r.body mark)) := by
    conv_lhs => rw [split]
    exact take_append_of_le_length (lineStart_le _)
  rw [front]
  rcases take_lineStart mark (r.body mark) with empty | ⟨earlier, cut⟩
  · have size := congrArg List.length empty
    rw [length_take, Nat.min_eq_left (lineStart_le _)] at size
    rcases complete with inside | start
    · simp only [length_nil] at size
      omega
    · left
      rw [empty, start]
      rfl
  · right
    exact ⟨content.take r.pos ++ earlier, by rw [cut, append_assoc]⟩

theorem length_unread_lt {r next : BackReader α} (nonempty : r.buf ≠ [])
    (taken : next =
      { r with buf := r.buf.take (lineStart mark (r.body mark)) }) :
    (next.unread content).length < (r.unread content).length := by
  obtain ⟨ending, split, ends⟩ := exists_ending mark nonempty
  rw [unread_of_lineStart split, taken, BackReader.unread]
  generalize content.take r.pos ++ r.buf.take (lineStart mark (r.body mark)) = front
  have present : 0 < ((r.body mark).drop (lineStart mark (r.body mark)) ++ ending).length := by
    apply length_pos_of_ne_nil
    rcases ends_of_drop ends with closed | ⟨_, inside, _⟩
    · simp [closed]
    · simp [inside]
  rw [length_append]
  omega

variable (block limit) in
/-- With the mark that ends it the line makes `limit` bytes of a text of `size`
bytes, and a block begins with it. -/
def givenUp (size : Nat) (line : Nat × List α) : Bool :=
  decide (line.2.length + 1 = limit) && decide (0 < line.1) &&
    decide (line.1 + line.2.length < size) && decide (block ∣ size - line.1)

variable (block limit) in
/-- What the reader returns for the line. -/
def readBackwards (size : Nat) (line : Nat × List α) : List α :=
  if givenUp block limit size line then [] else line.2

variable (mark block limit content) in
/-- The reader stands between two lines, and a line that begins with a block
inside `buf` is below the limit. -/
structure BackReader.Between (r : BackReader α) : Prop where
  inside : r.pos + r.buf.length ≤ content.length
  prefixed : r.unread content = content.take (r.pos + r.buf.length)
  aligned : r.pos = 0 ∨ block ∣ content.length - r.pos
  below : ∀ start, r.pos < start → start < r.pos + r.buf.length →
    block ∣ content.length - start → r.pos + r.buf.length - start < limit
  ended : r.pos + r.buf.length = content.length ∨ Whole mark (r.unread content)

omit [DecidableEq α] in
theorem between_start : BackReader.Between mark block limit content ⟨content.length, []⟩ where
  inside := Nat.le_refl _
  prefixed := by
    rw [BackReader.unread, append_nil]
    rfl
  aligned := by
    right
    rw [Nat.sub_self]
    exact Nat.dvd_zero block
  below := by
    intro start after before
    rw [length_nil] at before
    omega
  ended := Or.inl rfl

omit [DecidableEq α] in
theorem BackReader.Between.fill {r : BackReader α} (between : r.Between mark block limit content)
    (short : r.buf = [] ∨ r.buf.length < limit) (more : r.pos ≠ 0) :
    (backFill block content r).Between mark block limit content ∧
      (backFill block content r).pos + (backFill block content r).buf.length =
        r.pos + r.buf.length := by
  obtain ⟨inside, prefixed, aligned, below, ended⟩ := between
  have size : (backFill block content r).buf.length = min r.pos block + r.buf.length := by
    rw [backFill, length_append, length_drop, length_take]
    omega
  have pos : (backFill block content r).pos = r.pos - min r.pos block := rfl
  have same : (backFill block content r).pos + (backFill block content r).buf.length =
      r.pos + r.buf.length := by omega
  have onBlock : block ∣ content.length - r.pos := by
    rcases aligned with start | onBlock
    · exact absurd start more
    · exact onBlock
  refine ⟨⟨by omega, ?_, ?_, ?_, ?_⟩, same⟩
  · rw [unread_backFill, prefixed, same]
  · rw [pos]
    by_cases last : r.pos ≤ block
    · left
      omega
    · right
      have further : content.length - (r.pos - min r.pos block) =
          content.length - r.pos + block := by omega
      rw [further]
      exact (Nat.dvd_add_right onBlock).mpr (Nat.dvd_refl block)
  · intro start after before isBlock
    rw [same] at before ⊢
    rcases Nat.lt_trichotomy start r.pos with less | equal | greater
    · -- no block begins inside a block
      have between : block ∣ (content.length - start) - (content.length - r.pos) :=
        Nat.dvd_sub isBlock onBlock
      have bound := Nat.le_of_dvd (by omega) between
      omega
    · rcases short with empty | short
      · rw [empty, length_nil] at before
        omega
      · omega
    · exact below start greater before isBlock
  · rw [unread_backFill, same]
    exact ended

omit [DecidableEq α] in
theorem length_unread {r : BackReader α} (between : r.Between mark block limit content) :
    (r.unread content).length = r.pos + r.buf.length := by
  have inside := between.inside
  rw [between.prefixed, length_take]
  omega

/-- A line that is found is not given up. -/
theorem BackReader.Between.found {r next : BackReader α}
    (between : r.Between mark block limit content) (nonempty : r.buf ≠ [])
    (complete : 0 < lineStart mark (r.body mark) ∨ r.pos = 0)
    (taken : next = { r with buf := r.buf.take (lineStart mark (r.body mark)) }) :
    next.Between mark block limit content ∧ Whole mark (next.unread content) ∧
      givenUp block limit content.length ((next.unread content).length,
        (r.body mark).drop (lineStart mark (r.body mark))) = false := by
  obtain ⟨ending, split, ends⟩ := exists_ending mark nonempty
  obtain ⟨inside, prefixed, aligned, below, ended⟩ := between
  have bodyLength : (r.body mark).length + ending.length = r.buf.length := by
    rw [← length_append, ← split]
  have startLe : lineStart mark (r.body mark) ≤ (r.body mark).length := lineStart_le _
  have taken' : (r.buf.take (lineStart mark (r.body mark))).length =
      lineStart mark (r.body mark) := by
    rw [length_take]
    omega
  have front : r.buf.take (lineStart mark (r.body mark)) =
      (r.body mark).take (lineStart mark (r.body mark)) := by
    conv_lhs => rw [split]
    exact take_append_of_le_length startLe
  have cut : next.unread content =
      content.take (r.pos + lineStart mark (r.body mark)) := by
    have whole : r.unread content = content.take r.pos ++ r.buf := rfl
    rw [prefixed] at whole
    have shorter := congrArg (List.take (r.pos + lineStart mark (r.body mark))) whole
    rw [take_take, Nat.min_eq_left (by omega), take_append, take_take] at shorter
    have sizes : (content.take r.pos).length = r.pos := by
      rw [length_take]
      omega
    rw [sizes, Nat.min_eq_right (by omega), Nat.add_sub_cancel_left] at shorter
    rw [taken, BackReader.unread]
    exact shorter.symm
  have cutLength : (next.unread content).length = r.pos + lineStart mark (r.body mark) := by
    rw [cut, length_take]
    omega
  have isWhole : Whole mark (next.unread content) := by
    rw [taken, BackReader.unread, front]
    dsimp only
    rcases take_lineStart mark (r.body mark) with empty | ⟨earlier, last⟩
    · have size := congrArg List.length empty
      rw [length_take, Nat.min_eq_left startLe, length_nil] at size
      rcases complete with after | start
      · omega
      · left
        rw [empty, start]
        rfl
    · right
      exact ⟨content.take r.pos ++ earlier, by rw [last, append_assoc]⟩
  have nextSize : next.pos + next.buf.length = r.pos + lineStart mark (r.body mark) := by
    rw [taken]
    dsimp only
    rw [taken']
  have nextPos : next.pos = r.pos := by rw [taken]
  refine ⟨⟨by omega, by rw [nextSize]; exact cut, by rw [nextPos]; exact aligned, ?_,
    Or.inr isWhole⟩, isWhole, ?_⟩
  · intro start after before isBlock
    rw [nextPos] at after
    rw [nextSize] at before ⊢
    have bound := below start after (by omega) isBlock
    omega
  · rw [givenUp, Bool.and_eq_false_iff]
    by_contra lost
    simp only [not_or, Bool.not_eq_false, Bool.and_eq_true, decide_eq_true_eq, cutLength,
      length_drop] at lost
    obtain ⟨⟨⟨whole, after⟩, more⟩, isBlock⟩ := lost
    have endingLength : ending.length ≤ 1 := by
      rcases ends with closed | ⟨unclosed, _⟩
      · rw [closed, length_singleton]
      · rw [unclosed]
        exact Nat.zero_le _
    have present : 0 < r.buf.length := length_pos_of_ne_nil nonempty
    have bodyOrMark : lineStart mark (r.body mark) < r.buf.length := by
      rcases ends_of_drop ends with closed | ⟨_, lineThere, _⟩
      · rw [closed, length_singleton] at bodyLength
        omega
      · have positive := length_pos_of_ne_nil lineThere
        rw [length_drop] at positive
        omega
    by_cases start : lineStart mark (r.body mark) = 0
    · omega
    have bound := below (r.pos + lineStart mark (r.body mark)) (by omega) (by omega) isBlock
    -- the line is not ended, so it is the last one of the text
    have unended : ending = [] := by
      apply length_eq_zero_iff.mp
      omega
    rcases ended with last | ended
    · rw [unended, length_nil] at bodyLength
      omega
    · rcases ends with closed | ⟨_, bodyPresent, unmarked⟩
      · rw [closed] at unended
        cases unended
      · rcases ended with empty | ⟨earlier, closed⟩
        · have none := (append_eq_nil_iff.mp empty).2
          exact nonempty none
        · rw [BackReader.unread, split, unended, append_nil] at closed
          have last := congrArg List.getLast? closed
          rw [getLast?_append_of_ne_nil _ bodyPresent, getLast?_concat] at last
          exact unmarked last

/-- What is given up is one line, which a block begins with. -/
theorem BackReader.Between.lost {r : BackReader α}
    (between : r.Between mark block limit content) (nonempty : r.buf ≠ [])
    (incomplete : lineStart mark (r.body mark) = 0) (more : r.pos ≠ 0)
    (short : ∀ line ∈ lines mark (r.unread content), line.length < limit)
    (full : limit ≤ r.buf.length) :
    lines mark (r.unread content) = lines mark (content.take r.pos) ++ [r.body mark] ∧
      Whole mark (content.take r.pos) ∧
      givenUp block limit content.length (r.pos, r.body mark) = true := by
  obtain ⟨ending, split, ends⟩ := exists_ending mark nonempty
  obtain ⟨inside, _, aligned, _, _⟩ := between
  have plain := mark_notMem_drop_lineStart mark (r.body mark)
  rw [incomplete, drop_zero] at plain
  have bodyLength : (r.body mark).length + ending.length = r.buf.length := by
    rw [← length_append, ← split]
  have unread : r.unread content = content.take r.pos ++ (r.body mark ++ ending) := by
    rw [← split]
    rfl
  obtain ⟨line, mem, longer⟩ := exists_line_of_stretch [] (content.take r.pos) plain ends
  rw [← unread] at mem
  have lineShort := short line mem
  have closed : ending = [mark] := by
    rcases ends with closed | ⟨unclosed, _⟩
    · exact closed
    · rw [unclosed, length_nil] at bodyLength
      omega
  have begins : Whole mark (content.take r.pos) := by
    rcases eq_nil_or_concat (content.take r.pos) with empty | ⟨front, c, isLast⟩
    · exact Or.inl empty
    by_cases isMark : c = mark
    · exact Or.inr ⟨front, by rw [isLast, isMark, concat_eq_append]⟩
    -- the line would begin before the stretch
    have plainer : mark ∉ c :: r.body mark := by
      rw [mem_cons, not_or]
      exact ⟨Ne.symm isMark, plain⟩
    obtain ⟨whole, inLines, longest⟩ := exists_line_of_stretch [] front plainer
      (Or.inl closed)
    have same : front ++ (c :: r.body mark ++ ending) = r.unread content := by
      rw [unread, isLast, concat_eq_append]
      simp
    rw [same] at inLines
    have bound := short whole inLines
    rw [length_cons] at longest
    rw [closed, length_singleton] at bodyLength
    omega
  refine ⟨?_, begins, ?_⟩
  · rw [unread]
    exact lines_append_line begins plain ends
  · rw [closed, length_singleton] at bodyLength
    have onBlock := aligned.resolve_left more
    simp only [givenUp, Bool.and_eq_true, decide_eq_true_eq]
    exact ⟨⟨⟨by omega, by omega⟩, by omega⟩, onBlock⟩

theorem backNextLine_spec (positive : 0 < block) (fuel : Nat)
    (r : BackReader α) (enough : r.pos < fuel)
    (between : r.Between mark block limit content)
    (nonempty : r.unread content ≠ [])
    (short : ∀ line ∈ lines mark (r.unread content), line.length < limit) :
    ∃ line next, backNextLine mark block limit content fuel r =
        some (readBackwards block limit content.length ((next.unread content).length, line), next) ∧
      next.Between mark block limit content ∧ Whole mark (next.unread content) ∧
      lines mark (r.unread content) = lines mark (next.unread content) ++ [line] ∧
      (next.unread content).length < (r.unread content).length := by
  induction fuel generalizing r with
  | zero => omega
  | succ fuel ih =>
    have filled : r.buf = [] ∨ r.buf.length < limit → r.pos ≠ 0 → ∃ line next,
        backNextLine mark block limit content fuel (backFill block content r) =
          some (readBackwards block limit content.length ((next.unread content).length, line),
            next) ∧
          next.Between mark block limit content ∧ Whole mark (next.unread content) ∧
          lines mark (r.unread content) = lines mark (next.unread content) ++ [line] ∧
          (next.unread content).length < (r.unread content).length := by
      intro small more
      have same := unread_backFill block content r
      have back : (backFill block content r).pos = r.pos - min r.pos block := rfl
      have after := (between.fill small more).1
      obtain ⟨line, next, returned, nextBetween, whole, cut, smaller⟩ :=
        ih (backFill block content r) (by omega) after (by rwa [same]) (by rwa [same])
      rw [same] at cut smaller
      exact ⟨line, next, returned, nextBetween, whole, cut, smaller⟩
    rw [backNextLine]
    by_cases empty : r.buf = []
    · have more : r.pos ≠ 0 := by
        intro start
        rw [BackReader.unread, start, empty] at nonempty
        exact nonempty rfl
      rw [if_pos empty, if_neg more]
      exact filled (Or.inl empty) more
    rw [if_neg empty]
    dsimp only
    by_cases complete : 0 < lineStart mark (r.body mark) ∨ r.pos = 0
    · rw [if_pos complete]
      obtain ⟨after, whole, kept⟩ := between.found empty complete rfl
      refine ⟨_, _, ?_, after, whole, lines_unread_of_complete empty complete rfl,
        length_unread_lt empty rfl⟩
      rw [readBackwards, kept]
      rfl
    obtain ⟨incomplete, more⟩ := not_or.mp complete
    have start : lineStart mark (r.body mark) = 0 := by omega
    rw [if_neg complete]
    by_cases full : limit ≤ r.buf.length
    · rw [if_pos full]
      obtain ⟨cut, whole, lost⟩ := between.lost empty start more short full
      have inside := between.inside
      have unread : BackReader.unread content ⟨r.pos, []⟩ = content.take r.pos := by
        rw [BackReader.unread, append_nil]
      have size : (content.take r.pos).length = r.pos := by
        rw [length_take]
        omega
      refine ⟨r.body mark, ⟨r.pos, []⟩, ?_, ?_, by rw [unread]; exact whole,
        by rw [unread]; exact cut, ?_⟩
      · rw [unread, size, readBackwards, lost, if_pos rfl]
      · refine ⟨?_, ?_, between.aligned, ?_, Or.inr (by rw [unread]; exact whole)⟩
        · dsimp only
          rw [length_nil]
          omega
        · rw [unread]
          rfl
        · intro start after before
          rw [length_nil] at before
          dsimp only at after before
          omega
      · rw [unread, size, length_unread between]
        have present := length_pos_of_ne_nil empty
        omega
    · rw [if_neg full]
      exact filled (Or.inr (Nat.lt_of_not_le full)) more

theorem backNextLine_start {fuel : Nat} {r : BackReader α} (start : r.pos = 0)
    (empty : r.buf = []) :
    backNextLine mark block limit content (fuel + 1) r = none := by
  rw [backNextLine, if_pos empty, if_pos start]

omit [DecidableEq α] in
theorem walk_cons (line : List α) (rest : List (List α)) (state : σ) :
    walk stop visit (line :: rest) state =
      if stop state then (false, state)
      else walk stop visit rest (visit state line) :=
  rfl

theorem placed_lines_concat {before : List α} (whole : Whole mark before) (line : List α) :
    placed 0 (lines mark before ++ [line]) =
      placed 0 (lines mark before) ++ [(before.length, line)] := by
  rw [@placed_concat α _ mark, unlines_lines whole, Nat.zero_add]

theorem backWalk_between (positive : 0 < block) (fuel : Nat)
    (r : BackReader α) (state : σ) (between : r.Between mark block limit content)
    (enough : (r.unread content).length < fuel)
    (short : ∀ line ∈ lines mark (r.unread content), line.length < limit) :
    backWalk mark block limit content stop visit fuel r state =
      walk stop visit ((placedLines mark (r.unread content)).map
        (readBackwards block limit content.length)).reverse state := by
  induction fuel generalizing r state with
  | zero => omega
  | succ fuel ih =>
    rw [backWalk]
    by_cases empty : r.unread content = []
    · obtain ⟨front, read⟩ := append_eq_nil_iff.mp empty
      have inside := between.inside
      have start : r.pos = 0 := by
        have size := congrArg List.length front
        rw [length_take, Nat.min_eq_left (by omega)] at size
        exact size
      rw [backNextLine_start start read, empty]
      rfl
    obtain ⟨line, next, returned, after, whole, cut, smaller⟩ :=
      backNextLine_spec positive (r.pos + 1) r (Nat.lt_succ_self _) between empty short
    have rest : ∀ state, backWalk mark block limit content stop visit fuel next state =
          walk stop visit ((placedLines mark (next.unread content)).map
            (readBackwards block limit content.length)).reverse state := by
      intro state
      apply ih next state after (by omega)
      intro other mem
      apply short
      rw [cut]
      exact mem_append_left _ mem
    rw [returned, placedLines, cut, placed_lines_concat whole, map_append, map_singleton,
      reverse_append, reverse_singleton, singleton_append, walk_cons, ← placedLines, ← rest]

/-- The reader meets the lines in the opposite order, but for those that it
gives up. -/
theorem backWalk_eq_walk (positive : 0 < block)
    (short : ∀ line ∈ lines mark content, line.length < limit) (state : σ) :
    backWalk mark block limit content stop visit (content.length + 1)
        ⟨content.length, []⟩ state =
      walk stop visit ((placedLines mark content).map
        (readBackwards block limit content.length)).reverse state := by
  have unread : BackReader.unread content ⟨content.length, []⟩ = content := by
    rw [BackReader.unread, take_length, append_nil]
  rw [backWalk_between positive _ _ _ between_start (by rw [unread]; exact Nat.lt_succ_self _)
    (by rwa [unread]), unread]

end Reader

end Cix.Lib
