import Mathlib.Data.List.Induction
import Mathlib.Tactic.Tauto
import Cix.Lib.CString

/-!
# Includes of installed headers that are not there

`header_includes_unresolved` looks at the includes of a header that stand in no
conditional but the include guard.  It takes the first `#ifndef` that a
`#define` follows for the guard, and from then on the depth one for that of the
guard, also in other conditionals and after the end of this one.
-/

namespace Cix.Headers

open Cix.Lib List

def isBlank (c : UInt8) : Bool := c == 32 || c == 9

/-- What stands behind the `#` of a line that is a directive. -/
def directiveOf (line : List UInt8) : Option (List UInt8) :=
  match line.dropWhile isBlank with
  | 35 :: rest => some (rest.dropWhile isBlank)
  | _ => none

/-- The directives of a text; the lines that `strtok_r` passes over are empty. -/
def directives (text : CStr) : List (List UInt8) :=
  (text.bytes.splitOnP (· == 10)).filterMap directiveOf

def begins (word : String) (p : List UInt8) : Bool := (CStr.ofString word).bytes.isPrefixOf p

def isOpening (p : List UInt8) : Bool := begins "ifndef" p || begins "ifdef" p || begins "if" p

def isClosing (p : List UInt8) : Bool := begins "endif" p

def angled (p : List UInt8) : Option (List UInt8) :=
  match (p.drop 7).dropWhile isBlank with
  | 60 :: rest =>
    if 62 ∈ rest ∧ rest.head? ≠ some 62 then some (rest.takeWhile (· != 62)) else none
  | _ => none

/-- Is the first directory of the include that of the header? Both are paths below
`usr/include/`. -/
def sameDirectory (header inc : List UInt8) : Bool :=
  let dir := inc.takeWhile (· != 47)
  inc.contains 47 && header.contains 47 && dir.isPrefixOf header &&
    (header.drop dir.length).head? == some 47

/-- The tree of the image's current version: `read` finds the installed files, and
`lstat` asks for a path below `usr/include/`. -/
structure Rootfs where
  path : CStr
  read : List UInt8 → Option CStr
  lstat : List UInt8 → Bool

def pathMax : Nat := 4096

structure Scan where
  depth : Nat
  guardPending : Bool
  guardDepth : Option Nat
  /-- What `unresolved` counts, each with the number of its directive. -/
  counted : List (Nat × List UInt8)

variable (r : Rootfs) (header : List UInt8)

def unresolvedInclude (p : List UInt8) : Option (List UInt8) :=
  (angled p).filter fun inc => inc.length < 256 && sameDirectory header inc &&
    r.path.length + 13 + inc.length < pathMax && !r.lstat inc

/-- The `#ifndef` before is taken for that of the guard if this is a `#define`. -/
def Scan.settled (s : Scan) (p : List UInt8) : Scan :=
  if s.guardPending then
    { s with guardPending := false
             guardDepth := if begins "define" p then some 1 else s.guardDepth }
  else s

/-- What the directive `p` with the number `i` makes of the scan. -/
def step (s : Scan) : List UInt8 × Nat → Scan
  | (p, i) =>
    let s := s.settled p
    if isOpening p then
      { s with depth := s.depth + 1
               guardPending := s.depth == 0 && s.guardDepth.isNone && begins "ifndef" p }
    else if isClosing p then { s with depth := s.depth - 1 }
    else if !begins "include" p then s
    else if s.guardDepth.getD 0 < s.depth then s
    else { s with counted := s.counted ++ (unresolvedInclude r header p).toList.map (i, ·) }

def scan (ds : List (List UInt8)) : Scan := ds.zipIdx.foldl (step r header) ⟨0, false, none, []⟩

/-! ## What is to be counted -/

def enclosing (ds : List (List UInt8)) : List Nat :=
  ds.zipIdx.foldl (fun stack (p, i) => if isOpening p then i :: stack
    else if isClosing p then stack.tail else stack) []

/-- The name behind an `ifndef` or a `define`. -/
def macroOf (p : List UInt8) : List UInt8 :=
  ((p.drop 6).dropWhile isBlank).takeWhile fun c => !isBlank c

/-- The header has an include guard: its first directive is an `#ifndef`, the next one
defines that name, and the last `#endif` closes it. -/
def guarded (ds : List (List UInt8)) : Bool :=
  match ds with
  | x :: y :: _ => begins "ifndef" x && begins "define" y && macroOf x == macroOf y &&
      enclosing (ds.reverse.dropWhile fun p => !isClosing p).tail.reverse == [0]
  | _ => false

/-- Behind the directives `pre` of the header no conditional is open but the guard. -/
def Unconditional (ds pre : List (List UInt8)) : Prop :=
  enclosing pre = [] ∨ guarded ds = true ∧ enclosing pre = [0]

def absent (p : List UInt8) : Option (List UInt8) :=
  if begins "include" p then (angled p).filter fun inc => sameDirectory header inc && !r.lstat inc
  else none

def Due (ds : List (List UInt8)) (i : Nat) (inc : List UInt8) : Prop :=
  ∃ pre p post, ds = pre ++ p :: post ∧ pre.length = i ∧ absent r header p = some inc ∧
    Unconditional ds pre

/-- The name fits into `inc`, and its path into `path`. -/
def fits (inc : List UInt8) : Bool :=
  inc.length < 256 && r.path.length + 13 + inc.length < pathMax

/-- Outside of all conditionals stands an `#ifndef` that a `#define` follows. -/
def Paired (ds : List (List UInt8)) : Prop :=
  ∃ pre x y post, ds = pre ++ x :: y :: post ∧ enclosing pre = [] ∧
    begins "ifndef" x = true ∧ begins "define" y = true

/-- A missing include that is inside of one conditional, behind such a pair, is inside of
the guard; and one that is to be counted fits the buffers. -/
structure Conforms (ds : List (List UInt8)) : Prop where
  guard : ∀ pre p post inc, ds = pre ++ p :: post → absent r header p = some inc →
    fits r inc = true → (enclosing pre).length = 1 → Paired pre → Unconditional ds pre
  room : ∀ pre p post inc, ds = pre ++ p :: post → absent r header p = some inc →
    Unconditional ds pre → fits r inc = true

/-! ## The scan follows the directives -/

variable {r header} {ds pre post : List (List UInt8)} {p : List UInt8}

theorem enclosing_snoc (ds : List (List UInt8)) (p : List UInt8) :
    enclosing (ds ++ [p]) = if isOpening p then ds.length :: enclosing ds
      else if isClosing p then (enclosing ds).tail else enclosing ds := by
  simp [enclosing, zipIdx_append]

theorem scan_snoc (ds : List (List UInt8)) (p : List UInt8) :
    scan r header (ds ++ [p]) = step r header (scan r header ds) (p, ds.length) := by
  simp [scan, zipIdx_append]

theorem append_singleton_eq_iff {q : List UInt8} : ds ++ [q] = pre ++ p :: post ↔
    (pre = ds ∧ p = q ∧ post = []) ∨ ∃ rest, post = rest ++ [q] ∧ ds = pre ++ p :: rest := by
  constructor
  · intro split
    rcases eq_nil_or_concat post with rfl | ⟨rest, z, rfl⟩
    · obtain ⟨same, last⟩ := append_inj' split rfl
      cases last
      exact Or.inl ⟨same.symm, rfl, rfl⟩
    · rw [show pre ++ p :: rest.concat z = pre ++ p :: rest ++ [z] by simp] at split
      obtain ⟨same, last⟩ := append_inj' split rfl
      cases last
      exact Or.inr ⟨rest, concat_eq_append, same⟩
  · rintro (⟨rfl, rfl, rfl⟩ | ⟨rest, rfl, rfl⟩)
    · rfl
    · simp

def Pending (ds : List (List UInt8)) : Prop :=
  ∃ pre x, ds = pre ++ [x] ∧ enclosing pre = [] ∧ begins "ifndef" x = true

theorem pending_snoc : Pending (ds ++ [p]) ↔ enclosing ds = [] ∧ begins "ifndef" p = true := by
  constructor
  · rintro ⟨pre, x, split, outside, opens⟩
    obtain ⟨rfl, same⟩ := append_inj' split rfl
    cases same
    exact ⟨outside, opens⟩
  · rintro ⟨outside, opens⟩
    exact ⟨ds, p, rfl, outside, opens⟩

theorem paired_snoc : Paired (ds ++ [p]) ↔ Paired ds ∨ Pending ds ∧ begins "define" p = true := by
  constructor
  · rintro ⟨pre, x, y, post, split, outside, opens, defines⟩
    rcases append_singleton_eq_iff.mp split with ⟨_, _, impossible⟩ | ⟨rest, back, front⟩
    · cases impossible
    · cases rest with
      | nil =>
        cases back
        exact Or.inr ⟨⟨pre, x, front, outside, opens⟩, defines⟩
      | cons z rest =>
        cases back
        exact Or.inl ⟨pre, x, _, rest, front, outside, opens, defines⟩
  · rintro (⟨pre, x, y, post, rfl, facts⟩ | ⟨⟨pre, x, rfl, outside, opens⟩, defines⟩)
    · exact ⟨pre, x, y, post ++ [p], by simp, facts⟩
    · exact ⟨pre, x, p, [], by simp, outside, opens, defines⟩

structure Follows (ds : List (List UInt8)) (s : Scan) : Prop where
  depth : s.depth = (enclosing ds).length
  pending : s.guardPending = true ↔ Pending ds ∧ ¬ Paired ds
  found : Paired ds → s.guardDepth = some 1
  unfound : ¬ Paired ds → s.guardDepth = none

theorem opening_of_ifndef (opens : begins "ifndef" p = true) : isOpening p = true := by
  rw [isOpening, opens]
  rfl

variable {s : Scan}

theorem Follows.settled (follows : Follows ds s) :
    (s.settled p).depth = (enclosing ds).length ∧ (s.settled p).guardPending = false ∧
      (Paired (ds ++ [p]) → (s.settled p).guardDepth = some 1) ∧
      (¬ Paired (ds ++ [p]) → (s.settled p).guardDepth = none) := by
  rw [paired_snoc, Scan.settled]
  cases pending : s.guardPending with
  | true =>
    obtain ⟨isPending, unpaired⟩ := follows.pending.mp pending
    cases defines : begins "define" p <;> simp [follows.depth, follows.unfound unpaired, *]
  | false =>
    refine ⟨follows.depth, pending, ?_, fun none => follows.unfound fun paired =>
      none (Or.inl paired)⟩
    rintro (paired | ⟨isPending, _⟩)
    · exact follows.found paired
    · by_contra
      have paired : Paired ds := by
        by_contra unpaired
        rw [follows.pending.mpr ⟨isPending, unpaired⟩] at pending
        cases pending
      exact this (follows.found paired)

theorem Follows.step (follows : Follows ds s) :
    Follows (ds ++ [p]) (step r header s (p, ds.length)) := by
  obtain ⟨depth, settled, found, unfound⟩ := follows.settled (p := p)
  have absent : (s.settled p).guardDepth.isNone = true ↔ ¬ Paired (ds ++ [p]) := by
    by_cases paired : Paired (ds ++ [p])
    · simp [found paired, paired]
    · simp [unfound paired, paired]
  have quiet : isOpening p = false → ¬ Pending (ds ++ [p]) := by
    intro other pending
    rw [opening_of_ifndef (pending_snoc.mp pending).2] at other
    cases other
  rw [Headers.step]
  split_ifs with opens closes other deep
  · refine ⟨by simp [enclosing_snoc, opens, depth], ?_, found, unfound⟩
    simp only [Bool.and_eq_true, beq_iff_eq, absent, depth, pending_snoc, length_eq_zero_iff]
    tauto
  all_goals
    rw [Bool.not_eq_true] at opens
    refine ⟨?_, by simp [settled, quiet opens], found, unfound⟩
    simp [enclosing_snoc, *]

theorem follows_scan (ds : List (List UInt8)) : Follows ds (scan r header ds) := by
  induction ds using reverseRecOn with
  | nil =>
    refine ⟨rfl, ?_, ?_, fun _ => rfl⟩
    · simp [scan, Pending]
    · rintro ⟨pre, x, y, post, split, _⟩
      simp at split
  | append_singleton ds p ih =>
    rw [scan_snoc]
    exact ih.step

/-! ## What is counted -/

theorem plain_of_include (including : begins "include" p = true) :
    isOpening p = false ∧ isClosing p = false ∧ begins "define" p = false := by
  obtain ⟨rest, rfl⟩ := isPrefixOf_iff_prefix.mp including
  exact ⟨rfl, rfl, rfl⟩

theorem unresolvedInclude_eq_some_iff {inc : List UInt8} (including : begins "include" p = true) :
    unresolvedInclude r header p = some inc ↔
      absent r header p = some inc ∧ fits r inc = true := by
  rw [absent, if_pos including]
  simp only [unresolvedInclude, fits, Option.filter_eq_some_iff, Bool.and_eq_true]
  tauto

/-- The directive `p` behind `pre` is an include that the code counts. -/
def Counts (r : Rootfs) (header : List UInt8) (pre : List (List UInt8)) (p inc : List UInt8) :
    Prop :=
  absent r header p = some inc ∧ fits r inc = true ∧
    (enclosing pre = [] ∨ (enclosing pre).length = 1 ∧ Paired pre)

theorem Follows.shallow (follows : Follows ds s) (including : begins "include" p = true) :
    ¬ (s.settled p).guardDepth.getD 0 < (s.settled p).depth ↔
      enclosing ds = [] ∨ (enclosing ds).length = 1 ∧ Paired ds := by
  obtain ⟨depth, _, found, unfound⟩ := follows.settled (p := p)
  rw [paired_snoc, (plain_of_include including).2.2] at found unfound
  rw [depth, ← length_eq_zero_iff]
  by_cases paired : Paired ds
  · rw [found (Or.inl paired), Option.getD_some]
    simp only [paired, and_true]
    omega
  · rw [unfound (by simp [paired]), Option.getD_none]
    simp only [paired, and_false, or_false]
    omega

theorem counted_snoc (r : Rootfs) (header : List UInt8) (ds : List (List UInt8)) (p : List UInt8) :
    ∃ new : Option (List UInt8), (scan r header (ds ++ [p])).counted =
        (scan r header ds).counted ++ new.toList.map (ds.length, ·) ∧
      ∀ inc, new = some inc ↔ Counts r header ds p inc := by
  have follows : Follows ds (scan r header ds) := follows_scan ds
  rw [scan_snoc]
  generalize scan r header ds = s at follows
  have kept : (s.settled p).counted = s.counted := by
    rw [Scan.settled]
    split <;> rfl
  have silent : begins "include" p = false → ∀ inc, ¬ Counts r header ds p inc := by
    intro other inc counts
    rw [Counts, absent, other] at counts
    cases counts.1
  cases including : begins "include" p with
  | false =>
    refine ⟨none, ?_, fun inc => iff_of_false (by simp) (silent including inc)⟩
    rw [step]
    split_ifs <;> simp_all
  | true =>
    obtain ⟨opens, closes, _⟩ := plain_of_include including
    have shallow := follows.shallow including
    rw [step, opens, closes, including]
    by_cases deep : (s.settled p).guardDepth.getD 0 < (s.settled p).depth
    · refine ⟨none, by simp [deep, kept], fun inc => iff_of_false (by simp) fun counts => ?_⟩
      exact shallow.mpr counts.2.2 deep
    · refine ⟨unresolvedInclude r header p, by simp [deep, kept], fun inc => ?_⟩
      rw [unresolvedInclude_eq_some_iff including, Counts,
        and_iff_left (shallow.mp deep)]

theorem mem_counted {i : Nat} {inc : List UInt8} : (i, inc) ∈ (scan r header ds).counted ↔
    ∃ pre p post, ds = pre ++ p :: post ∧ pre.length = i ∧ Counts r header pre p inc := by
  induction ds using reverseRecOn with
  | nil => simp [scan]
  | append_singleton ds q ih =>
    obtain ⟨new, isNew, counts⟩ := counted_snoc r header ds q
    have last : (i, inc) ∈ new.toList.map (ds.length, ·) ↔
        ds.length = i ∧ Counts r header ds q inc := by
      simp [← counts, and_comm]
    rw [isNew, mem_append, ih, last]
    simp only [append_singleton_eq_iff]
    constructor
    · rintro (⟨pre, p, post, split, facts⟩ | facts)
      · exact ⟨pre, p, post ++ [q], Or.inr ⟨post, rfl, split⟩, facts⟩
      · exact ⟨ds, q, [], Or.inl ⟨rfl, rfl, rfl⟩, facts⟩
    · rintro ⟨pre, p, post, ⟨rfl, rfl, rfl⟩ | ⟨rest, rfl, split⟩, facts⟩
      · exact Or.inr facts
      · exact Or.inl ⟨pre, p, rest, split, facts⟩

theorem counted_nodup (ds : List (List UInt8)) :
    ((scan r header ds).counted.map Prod.fst).Nodup := by
  induction ds using reverseRecOn with
  | nil => exact nodup_nil
  | append_singleton ds q ih =>
    obtain ⟨new, isNew, _⟩ := counted_snoc r header ds q
    rw [isNew, map_append]
    refine nodup_append.mpr ⟨ih, by cases new <;> simp, ?_⟩
    rintro i isOld j isLast rfl
    obtain ⟨⟨i, inc⟩, counted, rfl⟩ := mem_map.mp isOld
    obtain ⟨pre, p, post, rfl, isIndex, _⟩ := mem_counted.mp counted
    have same : i = (pre ++ p :: post).length := by
      cases new <;> simp_all
    simp only [length_append, length_cons] at same
    omega

theorem paired_of_guarded (isGuarded : guarded (pre ++ p :: post) = true)
    (inside : enclosing pre = [0]) (including : begins "include" p = true) : Paired pre := by
  match pre with
  | [] => cases inside
  | [x] =>
    simp only [guarded, cons_append, nil_append, Bool.and_eq_true] at isGuarded
    rw [(plain_of_include including).2.2] at isGuarded
    cases isGuarded.1.1.2
  | x :: y :: rest =>
    simp only [guarded, cons_append, Bool.and_eq_true] at isGuarded
    exact ⟨[], x, y, rest, rfl, rfl, isGuarded.1.1.1, isGuarded.1.1.2⟩

theorem include_of_absent {inc : List UInt8} (isAbsent : absent r header p = some inc) :
    begins "include" p = true := by
  rw [absent] at isAbsent
  split_ifs at isAbsent with including
  exact including

def defaultHeader : CStr :=
  "#ifndef D\n#define D 1\n#endif\n#ifdef S\n#include <a/c.h>\n#endif\n"

def emptyTree : Rootfs := ⟨"/i", fun _ => none, fun _ => false⟩

end Cix.Headers
