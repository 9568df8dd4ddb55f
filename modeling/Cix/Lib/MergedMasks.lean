import Mathlib.Data.List.Sort
import Mathlib.Data.Nat.Bitwise

/-!
# A sorted table of bit masks

Entries of a key and a mask are sorted by their keys, and neighbours of one
key are merged into one entry whose mask has the bits of both.  A key then has
a bit exactly if one of the entries with that key has it.  A bit stands for a
position of a list, and the number of bits is the number of the elements that
the mask selects.
-/

namespace Cix.Lib

open List

universe u

variable {κ : Type u} [DecidableEq κ] (cmp : κ → κ → Ordering)

def KeyLe (a b : κ × Nat) : Prop :=
  (cmp a.1 b.1).isLE = true

instance : DecidableRel (KeyLe cmp) :=
  fun a b => inferInstanceAs (Decidable ((cmp a.1 b.1).isLE = true))

def sortByKey (entries : List (κ × Nat)) : List (κ × Nat) :=
  entries.insertionSort (KeyLe cmp)

def mergeNext (entry : κ × Nat) : List (κ × Nat) → List (κ × Nat)
  | [] => [entry]
  | next :: rest =>
    if cmp entry.1 next.1 = .eq then
      mergeNext (entry.1, entry.2 ||| next.2) rest
    else entry :: mergeNext next rest

def mergeRuns : List (κ × Nat) → List (κ × Nat)
  | [] => []
  | entry :: rest => mergeNext cmp entry rest

def maskOf (table : List (κ × Nat)) (key : κ) : Nat :=
  match table.find? fun entry => entry.1 = key with
  | some entry => entry.2
  | none => 0

def HasBit (entries : List (κ × Nat)) (key : κ) (i : Nat) : Prop :=
  ∃ entry ∈ entries, entry.1 = key ∧ entry.2.testBit i = true

variable {cmp}

omit [DecidableEq κ] in
theorem hasBit_nil (key : κ) (i : Nat) : ¬ HasBit [] key i := by
  rintro ⟨entry, mem, _⟩
  cases mem

omit [DecidableEq κ] in
theorem hasBit_cons {entry : κ × Nat} {rest : List (κ × Nat)} {key : κ}
    {i : Nat} : HasBit (entry :: rest) key i ↔
      (entry.1 = key ∧ entry.2.testBit i = true) ∨ HasBit rest key i := by
  simp [HasBit]

omit [DecidableEq κ] in
theorem hasBit_perm {first second : List (κ × Nat)} (perm : first.Perm second) (key : κ) (i : Nat) :
    HasBit first key i ↔ HasBit second key i := by
  unfold HasBit
  constructor
  · rintro ⟨entry, mem, has⟩
    exact ⟨entry, perm.mem_iff.mp mem, has⟩
  · rintro ⟨entry, mem, has⟩
    exact ⟨entry, perm.mem_iff.mpr mem, has⟩

theorem maskOf_cons (entry : κ × Nat) (rest : List (κ × Nat)) (key : κ) :
    maskOf (entry :: rest) key =
      if entry.1 = key then entry.2 else maskOf rest key := by
  unfold maskOf
  rw [find?_cons]
  by_cases same : entry.1 = key
  · simp [same]
  · simp [same]

def Ascending (cmp : κ → κ → Ordering) (entries : List (κ × Nat)) : Prop :=
  entries.Pairwise (KeyLe cmp)

variable [Std.TransCmp cmp] [Std.LawfulEqCmp cmp]

omit [DecidableEq κ] [Std.LawfulEqCmp cmp] in
theorem ascending_sortByKey (entries : List (κ × Nat)) : Ascending cmp (sortByKey cmp entries) := by
  have : Std.Total (KeyLe cmp) := by
    constructor
    intro a b
    cases order : cmp a.1 b.1 with
    | lt => simp [KeyLe, order]
    | eq => simp [KeyLe, order]
    | gt =>
      right
      rw [KeyLe, @Std.OrientedCmp.eq_swap _ cmp, order]
      rfl
  have : IsTrans (κ × Nat) (KeyLe cmp) := ⟨fun a b c => Std.TransCmp.isLE_trans⟩
  exact pairwise_insertionSort (KeyLe cmp) entries

theorem testBit_maskOf_mergeNext {rest : List (κ × Nat)} {entry : κ × Nat}
    (ascending : Ascending cmp (entry :: rest)) (key : κ) (i : Nat) :
    (maskOf (mergeNext cmp entry rest) key).testBit i = true ↔ HasBit (entry :: rest) key i := by
  induction rest generalizing entry with
  | nil =>
    rw [mergeNext, maskOf_cons, hasBit_cons]
    by_cases same : entry.1 = key
    · simp [same, hasBit_nil]
    · simp [same, hasBit_nil, maskOf]
  | cons next rest ih =>
    obtain ⟨below, later⟩ := pairwise_cons.mp ascending
    obtain ⟨nextBelow, last⟩ := pairwise_cons.mp later
    rw [mergeNext]
    by_cases equal : cmp entry.1 next.1 = .eq
    · have sameKey : entry.1 = next.1 := Std.LawfulEqCmp.eq_of_compare equal
      rw [if_pos equal, ih]
      · simp only [hasBit_cons, Nat.testBit_or, Bool.or_eq_true, sameKey]
        tauto
      · refine pairwise_cons.mpr ⟨?_, last⟩
        intro other mem
        exact below other (mem_cons_of_mem _ mem)
    · rw [if_neg equal, maskOf_cons, hasBit_cons]
      by_cases same : entry.1 = key
      · have absent : ¬ HasBit (next :: rest) key i := by
          rintro ⟨other, mem, otherKey, _⟩
          -- A later entry of this key would put `next` between equals.
          have nextLe : (cmp next.1 entry.1).isLE = true := by
            rcases mem_cons.mp mem with rfl | inRest
            · rw [otherKey, same, @Std.ReflCmp.compare_self _ cmp]
              rfl
            · have := nextBelow other inRest
              rwa [KeyLe, otherKey, ← same] at this
          have entryLe : (cmp entry.1 next.1).isLE = true := below next mem_cons_self
          exact equal (Std.OrientedCmp.isLE_antisymm entryLe nextLe)
        simp [same, absent]
      · rw [if_neg same, ih later]
        simp [same]

theorem testBit_maskOf_mergeRuns (entries : List (κ × Nat)) (key : κ) (i : Nat) :
    (maskOf (mergeRuns cmp (sortByKey cmp entries)) key).testBit i = true ↔
      HasBit entries key i := by
  have ascending := @ascending_sortByKey _ cmp _ entries
  have perm : (sortByKey cmp entries).Perm entries := perm_insertionSort _ entries
  rw [← hasBit_perm perm]
  cases sorted : sortByKey cmp entries with
  | nil => simp [mergeRuns, maskOf, hasBit_nil]
  | cons entry rest =>
    rw [sorted] at ascending
    exact testBit_maskOf_mergeNext ascending key i

def popcount (v : Nat) : Nat :=
  if v = 0 then 0 else 1 + popcount (v &&& (v - 1))
termination_by v
decreasing_by
  have := @Nat.and_le_right v (v - 1)
  omega

def selected {α : Type*} (v : Nat) (items : List α) : List α :=
  (items.zipIdx.filter fun p => v.testBit p.2).map Prod.fst

@[simp]
theorem popcount_zero : popcount 0 = 0 := by
  rw [popcount, if_pos rfl]

theorem popcount_pos {v : Nat} (positive : 0 < v) : popcount v = 1 + popcount (v &&& (v - 1)) := by
  rw [popcount, if_neg (Nat.ne_of_gt positive)]

theorem popcount_eq_zero_iff {v : Nat} : popcount v = 0 ↔ v = 0 := by
  constructor
  · intro none
    by_contra nonzero
    rw [popcount_pos (Nat.pos_of_ne_zero nonzero)] at none
    omega
  · rintro rfl
    exact popcount_zero

theorem double_and_pred {w : Nat} (positive : 0 < w) :
    2 * w &&& (2 * w - 1) = 2 * (w &&& (w - 1)) := by
  apply Nat.eq_of_testBit_eq
  intro i
  cases i with
  | zero => simp
  | succ i =>
    have half : (2 * w - 1) / 2 = w - 1 := by omega
    have whole : 2 * w / 2 = w := Nat.mul_div_cancel_left w Nat.two_pos
    have cleared : 2 * (w &&& (w - 1)) / 2 = w &&& (w - 1) :=
      Nat.mul_div_cancel_left _ Nat.two_pos
    rw [Nat.testBit_and, Nat.testBit_succ, Nat.testBit_succ,
      Nat.testBit_succ, half, whole, cleared, Nat.testBit_and]

theorem popcount_double (w : Nat) : popcount (2 * w) = popcount w := by
  induction w using Nat.strong_induction_on with
  | h w ih =>
    by_cases positive : 0 < w
    · have smaller : w &&& (w - 1) < w := by
        have := @Nat.and_le_right w (w - 1)
        omega
      rw [popcount_pos (by omega : 0 < 2 * w), double_and_pred positive,
        ih _ smaller, ← popcount_pos positive]
    · have zero : w = 0 := by omega
      simp [zero]

theorem popcount_split (v : Nat) :
    popcount v = (if v.testBit 0 then 1 else 0) + popcount (v / 2) := by
  by_cases odd : v % 2 = 1
  · have whole : v = 2 * (v / 2) + 1 := by omega
    have cleared : v &&& (v - 1) = 2 * (v / 2) := by
      apply Nat.eq_of_testBit_eq
      intro i
      cases i with
      | zero =>
        have even : (v - 1) % 2 = 0 := by omega
        simp [Nat.testBit_zero, even]
      | succ i =>
        have half : (v - 1) / 2 = v / 2 := by omega
        have double : 2 * (v / 2) / 2 = v / 2 := Nat.mul_div_cancel_left _ Nat.two_pos
        rw [Nat.testBit_and, Nat.testBit_succ, Nat.testBit_succ,
          Nat.testBit_succ, half, double, Bool.and_self]
    rw [popcount_pos (by omega), cleared, popcount_double]
    simp [Nat.testBit_zero, odd]
  · have whole : v = 2 * (v / 2) := by omega
    have low : v.testBit 0 = false := by simp [Nat.testBit_zero, odd]
    rw [low]
    conv_lhs => rw [whole, popcount_double]
    simp

theorem selected_cons {α : Type*} (v : Nat) (item : α) (rest : List α) : selected v (item :: rest) =
      (if v.testBit 0 then [item] else []) ++ selected (v / 2) rest := by
  have shifted : rest.zipIdx 1 = rest.zipIdx.map fun p => (p.1, p.2 + 1) := zipIdx_succ
  have bits : ((fun p : α × Nat => v.testBit p.2) ∘ fun p : α × Nat => (p.1, p.2 + 1)) =
        fun p => (v / 2).testBit p.2 := by
    funext p
    simp [Nat.testBit_succ]
  unfold selected
  rw [zipIdx_cons, shifted, filter_cons, filter_map, bits]
  cases low : v.testBit 0 with
  | false => simp [Function.comp_def]
  | true => simp [Function.comp_def]

theorem length_selected {α : Type*} {v : Nat} {items : List α}
    (within : ∀ i, v.testBit i = true → i < items.length) :
    (selected v items).length = popcount v := by
  induction items generalizing v with
  | nil =>
    have zero : v = 0 := by
      apply Nat.eq_of_testBit_eq
      intro i
      cases set : v.testBit i with
      | false => simp
      | true => exact absurd (within i set) (by simp)
    simp [zero, selected]
  | cons item rest ih =>
    have later : ∀ i, (v / 2).testBit i = true → i < rest.length := by
      intro i set
      have := within (i + 1) (by rwa [Nat.testBit_succ])
      simpa using this
    rw [selected_cons, popcount_split, length_append, ih later]
    split <;> simp

theorem selected_eq_filter {α : Type*} {v : Nat} {items : List α}
    {p : α → Bool}
    (bits : ∀ i item, items[i]? = some item → v.testBit i = p item) :
    selected v items = items.filter p := by
  induction items generalizing v with
  | nil => rfl
  | cons item rest ih =>
    have later : ∀ i next, rest[i]? = some next →
        (v / 2).testBit i = p next := by
      intro i next found
      rw [← bits (i + 1) next (by simpa using found), Nat.testBit_succ]
    have first : v.testBit 0 = p item := bits 0 item rfl
    rw [selected_cons, ih later, first, filter_cons]
    split <;> simp

end Cix.Lib
