import Cix.Log.Tail

/-!
# Reading a file backwards

`back_next_line` yields the lines of a file from the last to the first.  The
limit is compared with the bytes that are held, the newline of the line
included: a line of `TAIL_LINE_MAX - 1` bytes is lost where a block begins
with it.
-/

namespace Cix.Log

open Cix.Lib List

def backwardLines (block : Nat) (content : List UInt8) : Bool × List (List UInt8) :=
  backWalk 10 block tailLineMax content (fun _ => false) (fun read line => read ++ [line])
    (content.length + 1) ⟨content.length, []⟩ []

theorem walk_collects (list read : List (List UInt8)) :
    walk (fun _ => false) (fun read line => read ++ [line]) list read = (true, read ++ list) := by
  induction list generalizing read with
  | nil => rw [walk, if_neg (by decide), append_nil]
  | cons line rest ih =>
    rw [walk_cons, if_neg (by decide), ih, append_assoc, singleton_append]

theorem backwardLines_read {block : Nat} (positive : 0 < block) {content : List UInt8}
    (short : ∀ line ∈ lines 10 content, line.length < tailLineMax) :
    backwardLines block content = (true, ((placedLines 10 content).map
      (readBackwards block tailLineMax content.length)).reverse) := by
  rw [backwardLines, backWalk_eq_walk positive short, walk_collects, nil_append]

theorem readBackwards_eq_iff {block size : Nat} {line : Nat × List UInt8} :
    readBackwards block tailLineMax size line = line.2 ↔
      givenUp block tailLineMax size line = false := by
  rw [readBackwards]
  constructor
  · intro same
    by_contra lost
    rw [Bool.not_eq_false] at lost
    rw [if_pos lost] at same
    simp only [givenUp, ← same, length_nil, Bool.and_eq_true, decide_eq_true_eq] at lost
    exact absurd lost.1.1.1 (by decide)
  · intro kept
    rw [if_neg (by rw [kept]; exact Bool.false_ne_true)]

/-- The lines come back in the opposite order, each once, and the start of the
file is reached, unless a block begins with a line that makes `TAIL_LINE_MAX`
bytes with its newline. -/
theorem backwardLines_eq_iff {block : Nat} (positive : 0 < block) {content : List UInt8}
    (short : ∀ line ∈ lines 10 content, line.length < tailLineMax) :
    backwardLines block content = (true, (lines 10 content).reverse) ↔
      ∀ line ∈ placedLines 10 content, givenUp block tailLineMax content.length line = false := by
  have all : lines 10 content = (placedLines 10 content).map Prod.snd := (map_placed 0 _).symm
  rw [backwardLines_read positive short, Prod.mk.injEq, reverse_inj, all, map_inj_left]
  constructor
  · intro ⟨_, same⟩ line mem
    exact readBackwards_eq_iff.mp (same line mem)
  · intro kept
    exact ⟨rfl, fun line mem => readBackwards_eq_iff.mpr (kept line mem)⟩

/-- A file of three lines, the last one without a newline, in blocks of two
bytes. -/
theorem backwardLines_eq_iff_three :
    backwardLines 2 [97, 10, 10, 98] = (true, (lines 10 [97, 10, 10, 98]).reverse) :=
  (backwardLines_eq_iff (by decide) (by decide)).mpr (by decide)

def letters (n : Nat) : List UInt8 :=
  List.replicate n 97

def brimful (n : Nat) : List UInt8 :=
  10 :: (letters n ++ [10])

theorem lines_brimful (n : Nat) : lines 10 (brimful n) = [[], letters n] := by
  have plain : (10 : UInt8) ∉ letters n := by
    intro mem
    exact absurd (eq_of_mem_replicate mem) (by decide)
  have first := lines_cons (not_mem_nil (a := (10 : UInt8))) (letters n ++ [10])
  rw [lines_cons plain] at first
  exact first

/-- A line whose bytes are fewer than the limit is lost where its newline makes
them as many, and a block begins with it. -/
theorem brimful_line_lost :
    ¬ ∀ block content, 0 < block → (∀ line ∈ lines 10 content, line.length < tailLineMax) →
      backwardLines block content = (true, (lines 10 content).reverse) := by
  intro holds
  obtain ⟨n, limit⟩ : ∃ n, tailLineMax = n + 1 := ⟨262143, rfl⟩
  have short : ∀ line ∈ lines 10 (brimful n), line.length < tailLineMax := by
    rw [lines_brimful, limit]
    simp [letters]
  have blocks : 0 < tailBlock := by decide
  have all := holds tailBlock (brimful n) blocks short
  have size : (brimful n).length - 1 = tailLineMax := by simp [brimful, letters, limit]
  have lost : givenUp tailBlock tailLineMax (brimful n).length (1, letters n) = true := by
    simp only [givenUp, Bool.and_eq_true, decide_eq_true_eq, letters, length_replicate, size]
    exact ⟨⟨⟨limit.symm, by decide⟩, by simp [brimful, letters, Nat.add_comm]⟩, by decide⟩
  rw [backwardLines_read blocks short, placedLines, lines_brimful, Prod.mk.injEq,
    reverse_inj] at all
  have second : readBackwards tailBlock tailLineMax (brimful n).length
      (1, letters n) = letters n :=
    (List.cons.inj (List.cons.inj all.2).2).1
  rw [readBackwards_eq_iff.mp second] at lost
  cases lost

end Cix.Log
