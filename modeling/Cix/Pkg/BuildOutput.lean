import Mathlib.Data.List.DropRight
import Cix.Json.Value
import Cix.Lib.Substring

/-!
# What a build prints

`pkg_build_output_append` of `daemon/src/pkg.c`: the last bytes that a build has
printed, and the lines that say a tool is missing.  A line that is not finished
is kept between two reads, so how the output is cut makes no difference.
-/

namespace Cix.Pkg

open Cix.Lib List

def pkgBuildOutputCaptureMax : Nat := 3800

def pkgToolscanLineMax : Nat := 512

def pkgMissingToolMax : Nat := 64

/-- `: command not found`. -/
def missingPhrase : List UInt8 := Json.ascii ": command not found"

/-- The `toolscan_line`, and what has been found until then. -/
structure Toolscan where
  (line missingTool : List UInt8)
  missingToolCount : Nat
  deriving DecidableEq

def pkgToolscanLine (s : Toolscan) : Toolscan :=
  match strstr missingPhrase (s.line.takeWhile (· ≠ 0)) with
  | none => s
  | some (front, _) =>
    let name := front.rtakeWhile fun c => c ≠ 32 && c ≠ 58 && c ≠ 9
    { s with
      missingToolCount := s.missingToolCount + 1
      missingTool := if s.missingTool = [] ∧ name.length < pkgMissingToolMax then name
        else s.missingTool }

def endsLine (c : UInt8) : Bool := c = 10 || c = 13

def toolscanByte (s : Toolscan) (c : UInt8) : Toolscan :=
  if endsLine c then { pkgToolscanLine s with line := [] }
  else if s.line.length ≥ pkgToolscanLineMax - 1 then
    { s with line := s.line.rtake (pkgToolscanLineMax / 2) ++ [c] }
  else { s with line := s.line ++ [c] }

structure BuildOutput where
  captured : List UInt8
  toolscan : Toolscan
  deriving DecidableEq

/-- As the start of a build container leaves it. -/
def BuildOutput.start : BuildOutput := ⟨[], [], [], 0⟩

def pkgBuildOutputAppend (o : BuildOutput) (data : List UInt8) : BuildOutput :=
  let take := min data.length pkgBuildOutputCaptureMax
  { captured := o.captured.drop (o.captured.length + take - pkgBuildOutputCaptureMax) ++
      data.drop (data.length - take)
    toolscan := data.foldl toolscanByte o.toolscan }

/-- The lines that are finished, the first after what there is of it. -/
def linesOf (ends : UInt8 → Bool) (current : List UInt8) : List UInt8 → List (List UInt8)
  | [] => []
  | c :: rest =>
    if ends c then current :: linesOf ends [] rest else linesOf ends (current ++ [c]) rest

/-! ## The bytes that are kept -/

theorem rtake_rtake_append (n : Nat) (front back : List UInt8) :
    (front.rtake n ++ back).rtake n = (front ++ back).rtake n := by
  have inside : front.length - n ≤ front.length := Nat.sub_le _ _
  rw [rtake, rtake, rtake, ← drop_append_of_le_length inside, drop_drop, length_drop]
  congr 1
  rw [length_append]
  omega

theorem captured_append (o : BuildOutput) (data : List UInt8) :
    (pkgBuildOutputAppend o data).captured =
    (o.captured ++ data).rtake pkgBuildOutputCaptureMax := by
  rw [pkgBuildOutputAppend, rtake, drop_append, length_append]
  generalize pkgBuildOutputCaptureMax = limit
  dsimp only
  by_cases small : data.length ≤ limit
  · rw [Nat.min_eq_left small, Nat.sub_self, drop_zero]
    rw [show o.captured.length + data.length - limit - o.captured.length = 0 by omega, drop_zero]
  · have all : o.captured.length ≤ o.captured.length + limit - limit := by omega
    have all' : o.captured.length ≤ o.captured.length + data.length - limit := by omega
    rw [Nat.min_eq_right (by omega), drop_eq_nil_of_le all, drop_eq_nil_of_le all']
    congr 2
    omega

theorem append_pieces {o : BuildOutput} (short : o.captured.length ≤ pkgBuildOutputCaptureMax)
    (pieces : List (List UInt8)) : pieces.foldl pkgBuildOutputAppend o =
      ⟨(o.captured ++ pieces.flatten).rtake pkgBuildOutputCaptureMax,
        pieces.flatten.foldl toolscanByte o.toolscan⟩ := by
  induction pieces generalizing o with
  | nil =>
    rw [flatten_nil, append_nil, rtake, Nat.sub_eq_zero_of_le short]
    rfl
  | cons piece rest ih =>
    have kept := captured_append o piece
    rw [foldl_cons, ih, kept, rtake_rtake_append, append_assoc, flatten_cons, foldl_append]
    · rfl
    · rw [kept, rtake, length_drop]
      omega

/-! ## The lines that are counted -/

/-- The buffer of an unfinished line: all of it as long as it fits, and always
the end of it. -/
structure Tail (line current : List UInt8) : Prop where
  isSuffix : line <:+ current
  ending : min current.length 256 ≤ line.length
  whole : current.length < pkgToolscanLineMax → line = current

theorem tail_byte {s : Toolscan} {current : List UInt8} {c : UInt8}
    (tail : Tail s.line current) (goesOn : endsLine c = false) :
    Tail (toolscanByte s c).line (current ++ [c]) ∧
      (toolscanByte s c).missingToolCount = s.missingToolCount := by
  have limit : pkgToolscanLineMax = 512 := rfl
  have size := tail.isSuffix.length_le
  rw [toolscanByte, goesOn, if_neg Bool.false_ne_true]
  split_ifs with long
  · refine ⟨⟨?_, ?_, ?_⟩, rfl⟩
    · exact suffix_append_self_iff.mpr ((drop_suffix _ _).trans tail.isSuffix)
    · simp only [rtake, length_append, length_drop, length_singleton]
      omega
    · intro small
      rw [length_append, length_singleton] at small
      omega
  · refine ⟨⟨?_, ?_, ?_⟩, rfl⟩
    · exact suffix_append_self_iff.mpr tail.isSuffix
    · have := tail.ending
      simp only [length_append, length_singleton]
      omega
    · intro small
      rw [length_append] at small
      rw [tail.whole (by omega)]

/-- The line says that a tool is missing. -/
def Mentions (line : List UInt8) : Prop := missingPhrase <:+: line

/-- It does so where the buffer is sure to hold it. -/
def Visible (line : List UInt8) : Prop :=
  Mentions (if line.length < pkgToolscanLineMax then line else line.rtake 256)

instance (line : List UInt8) : Decidable (Mentions line) :=
  inferInstanceAs (Decidable (_ <:+: _))

instance (line : List UInt8) : Decidable (Visible line) :=
  inferInstanceAs (Decidable (Mentions _))

theorem mentions_of_tail {line current : List UInt8} (tail : Tail line current) :
    (Visible current → Mentions line) ∧ (Mentions line → Mentions current) := by
  refine ⟨?_, fun mentions => mentions.trans tail.isSuffix.isInfix⟩
  unfold Visible
  split
  next small =>
    rw [tail.whole small]
    exact id
  next =>
    intro mentions
    have ending := tail.ending
    refine mentions.trans (suffix_of_suffix_length_le (drop_suffix _ _) tail.isSuffix ?_).isInfix
    rw [length_drop]
    omega

theorem count_pkgToolscanLine {s : Toolscan} (clean : 0 ∉ s.line) :
    (pkgToolscanLine s).missingToolCount =
      s.missingToolCount + if Mentions s.line then 1 else 0 := by
  have all : s.line.takeWhile (· ≠ 0) = s.line := by
    rw [takeWhile_eq_self_iff]
    intro c mem
    simpa using fun isZero : c = 0 => clean (isZero ▸ mem)
  rw [pkgToolscanLine, all]
  cases found : strstr missingPhrase s.line with
  | none =>
    have silent : ¬ Mentions s.line := strstr_eq_none_iff.mp found
    rw [if_neg silent]
    rfl
  | some parts =>
    have said : Mentions s.line := by
      by_contra silent
      rw [Mentions, ← strstr_eq_none_iff, found] at silent
      cases silent
    rw [if_pos said]

/-- Scanning counts the lines that are visible, and only lines that mention a
missing tool. -/
theorem scan_counts (data : List UInt8) (clean : 0 ∉ data) {s : Toolscan} {current : List UInt8}
    (tail : Tail s.line current) (cleanLine : 0 ∉ current) :
    s.missingToolCount + (linesOf endsLine current data).countP (Visible ·) ≤
        (data.foldl toolscanByte s).missingToolCount ∧
      (data.foldl toolscanByte s).missingToolCount ≤
        s.missingToolCount + (linesOf endsLine current data).countP (Mentions ·) := by
  induction data generalizing s current with
  | nil => exact ⟨Nat.le_refl _, Nat.le_refl _⟩
  | cons c data ih =>
    rw [mem_cons, not_or] at clean
    rw [foldl_cons, linesOf]
    cases ends : endsLine c with
    | false =>
      obtain ⟨tail', same⟩ := tail_byte tail ends
      rw [← same]
      refine ih clean.2 tail' ?_
      simp [cleanLine, clean.1]
    | true =>
      have step : toolscanByte s c = { pkgToolscanLine s with line := [] } := if_pos ends
      have counted := count_pkgToolscanLine fun mem => cleanLine (tail.isSuffix.subset mem)
      obtain ⟨shown, said⟩ := mentions_of_tail tail
      have rest := @ih clean.2 { pkgToolscanLine s with line := [] } []
        ⟨suffix_rfl, Nat.le_refl _, fun _ => rfl⟩ not_mem_nil
      dsimp only at rest
      rw [step, if_pos rfl, countP_cons, countP_cons]
      rw [counted] at rest
      simp only [decide_eq_true_eq]
      grind

/-- What has been kept of a build whose output came in these reads. -/
def printed (pieces : List (List UInt8)) : BuildOutput :=
  pieces.foldl pkgBuildOutputAppend .start

/-- However the output of a build is cut into reads, the last bytes of it are
kept, and so many lines are counted: all those that say that a tool is missing
and fit into the buffer, or say it within their last 256 bytes, and no others
but such lines. -/
theorem build_output_spec (pieces : List (List UInt8)) (clean : 0 ∉ pieces.flatten) :
    printed pieces = printed [pieces.flatten] ∧
      (printed pieces).captured = pieces.flatten.rtake pkgBuildOutputCaptureMax ∧
      (linesOf endsLine [] pieces.flatten).countP (Visible ·) ≤
        (printed pieces).toolscan.missingToolCount ∧
      (printed pieces).toolscan.missingToolCount ≤
        (linesOf endsLine [] pieces.flatten).countP (Mentions ·) := by
  have short : BuildOutput.start.captured.length ≤ pkgBuildOutputCaptureMax := Nat.zero_le _
  have inPieces : printed pieces = _ := append_pieces short pieces
  have atOnce : printed [pieces.flatten] = _ := append_pieces short [pieces.flatten]
  rw [flatten_singleton] at atOnce
  obtain ⟨lower, upper⟩ := @scan_counts pieces.flatten clean ⟨[], [], 0⟩ []
    ⟨suffix_rfl, Nat.le_refl _, fun _ => rfl⟩ not_mem_nil
  rw [Nat.zero_add] at lower upper
  have all : BuildOutput.start.captured ++ pieces.flatten = pieces.flatten := nil_append _
  rw [all] at inPieces atOnce
  refine ⟨inPieces.trans atOnce.symm, ?_, inPieces ▸ lower, inPieces ▸ upper⟩
  rw [inPieces]

def twoReads : List (List UInt8) :=
  [Json.ascii "make: cc: comm", Json.ascii "and not found\n"]

theorem twoReads_counted : (printed twoReads).toolscan.missingToolCount = 1 := by
  obtain ⟨-, -, lower, upper⟩ := build_output_spec twoReads (by decide +kernel)
  have seen : (linesOf endsLine [] twoReads.flatten).countP (Visible ·) = 1 := by decide +kernel
  have said : (linesOf endsLine [] twoReads.flatten).countP (Mentions ·) = 1 := by decide +kernel
  omega

end Cix.Pkg
