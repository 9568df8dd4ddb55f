import Mathlib.Data.Finset.Sort
import Mathlib.Data.List.Sort

/-!
# Sorting down and ranking by groups

A bubble sort that puts the greatest keys first, and the pass over a sorted
list that finds where the elements of each group start and how many there
are.  Both are compared with what the set of the keys says.
-/

namespace Cix.Lib

open List

universe u v w

section Bubble

variable {α : Type u} {β : Type v} [LinearOrder β] {key : α → β}

def bubblePass (less : α → α → Bool) : Nat → List α → List α
  | n + 1, a :: b :: rest =>
    if less a b then b :: bubblePass less n (a :: rest)
    else a :: bubblePass less n (b :: rest)
  | _, xs => xs

/-- Rounds of `n` comparisons, then of one less each time. -/
def bubbleDown (less : α → α → Bool) : Nat → List α → List α
  | 0, xs => xs
  | n + 1, xs => bubbleDown less n (bubblePass less (n + 1) xs)

variable {less : α → α → Bool} (compares : ∀ a b, less a b = true ↔ key a < key b)

include compares

theorem bubblePass_spec (n : Nat) (front back : List α) (size : front.length = n + 1) :
    ∃ rest last, bubblePass less n (front ++ back) = rest ++ last :: back ∧
      (rest ++ [last]).Perm front ∧ ∀ a ∈ rest, key last ≤ key a := by
  induction n generalizing front with
  | zero =>
    obtain ⟨a, rfl⟩ := length_eq_one_iff.mp size
    exact ⟨[], a, rfl, .refl _, by simp⟩
  | succ n ih =>
    obtain ⟨a, b, tail, rfl⟩ : ∃ a b tail, front = a :: b :: tail := by
      match front, size with
      | a :: b :: tail, _ => exact ⟨a, b, tail, rfl⟩
    have size' : tail.length = n := by simpa using size
    -- The element that stays in front is above the one that is carried on.
    have carry : ∀ top carried, key carried ≤ key top →
        ∃ rest last, top :: bubblePass less n (carried :: tail ++ back) = rest ++ last :: back ∧
          (rest ++ [last]).Perm (top :: carried :: tail) ∧
          ∀ c ∈ rest, key last ≤ key c := by
      intro top carried below
      obtain ⟨rest, last, isPass, perm, least⟩ := ih (carried :: tail) (by simp [size'])
      have lastBelow : key last ≤ key carried := by
        have mem := perm.mem_iff.mpr (mem_cons_self (a := carried) (l := tail))
        rw [mem_append, mem_singleton] at mem
        rcases mem with inRest | rfl
        · exact least carried inRest
        · exact le_rfl
      refine ⟨top :: rest, last, by rw [isPass, cons_append], perm.cons top, ?_⟩
      intro c mem
      rcases mem_cons.mp mem with rfl | inRest
      · exact lastBelow.trans below
      · exact least c inRest
    simp only [cons_append, bubblePass]
    split
    next lower =>
      obtain ⟨rest, last, isPass, perm, least⟩ := carry b a ((compares a b).mp lower).le
      exact ⟨rest, last, isPass, perm.trans (.swap ..), least⟩
    next notLower =>
      exact carry a b (not_lt.mp fun lower => notLower ((compares a b).mpr lower))

theorem bubbleDown_spec (n : Nat) (front back : List α) (size : front.length = n + 1)
    (sorted : back.Pairwise fun a b => key b ≤ key a)
    (above : ∀ a ∈ front, ∀ b ∈ back, key b ≤ key a) :
    (bubbleDown less n (front ++ back)).Perm (front ++ back) ∧
      (bubbleDown less n (front ++ back)).Pairwise fun a b => key b ≤ key a := by
  induction n generalizing front back with
  | zero =>
    obtain ⟨a, rfl⟩ := length_eq_one_iff.mp size
    exact ⟨.refl _, pairwise_cons.mpr ⟨above a mem_cons_self, sorted⟩⟩
  | succ n ih =>
    obtain ⟨rest, last, isPass, perm, least⟩ := bubblePass_spec compares (n + 1) front back size
    have restAbove : ∀ a ∈ rest ++ [last], ∀ b ∈ back, key b ≤ key a :=
      fun a inRest => above a (perm.mem_iff.mp inRest)
    have lastAbove := restAbove last (by simp)
    obtain ⟨permuted, isSorted⟩ := ih rest (last :: back) (by simpa [size] using perm.length_eq)
      (pairwise_cons.mpr ⟨lastAbove, sorted⟩) (by
        intro a inRest b mem
        rcases mem_cons.mp mem with rfl | inBack
        · exact least a inRest
        · exact restAbove a (mem_append_left _ inRest) b inBack)
    rw [bubbleDown, isPass]
    refine ⟨permuted.trans ?_, isSorted⟩
    have whole := perm.append_right back
    rwa [append_assoc, singleton_append] at whole

theorem bubbleDown_sorts (xs : List α) : (bubbleDown less (xs.length - 1) xs).Perm xs ∧
      (bubbleDown less (xs.length - 1) xs).Pairwise fun a b => key b ≤ key a := by
  cases xs with
  | nil => exact ⟨.refl _, .nil⟩
  | cons a rest =>
    simpa using bubbleDown_spec compares rest.length (a :: rest) [] rfl .nil (by simp)

end Bubble

section Groups

variable {β : Type v} {γ : Type w}

structure Group (γ : Type w) where
  label : γ
  (start count : Nat)

/-- The loop over the rest of a list whose last group so far is `cur`. -/
def groupsFrom [DecidableEq γ] (label : β → γ) (i : Nat) (cur : Group γ) : List β → List (Group γ)
  | [] => [cur]
  | x :: rest =>
    if label x = cur.label then
      groupsFrom label (i + 1) { cur with count := cur.count + 1 } rest
    else cur :: groupsFrom label (i + 1) ⟨label x, i, 1⟩ rest

def groupsOf [DecidableEq γ] (label : β → γ) : List β → List (Group γ)
  | [] => []
  | x :: rest => groupsFrom label 1 ⟨label x, 0, 1⟩ rest

variable [LinearOrder γ] {label : β → γ}

structure Group.Of (label : β → γ) (xs : List β) (g : Group γ) : Prop where
  start : g.start = xs.countP fun x => g.label < label x
  count : g.count = xs.countP fun x => label x = g.label

variable {xs : List β}

theorem Group.Of.append_lower {ys : List β} {g : Group γ} (of : g.Of label xs)
    (lower : ∀ y ∈ ys, label y < g.label) : g.Of label (xs ++ ys) := by
  have noneAbove : ys.countP (fun y => g.label < label y) = 0 :=
    countP_eq_zero.mpr fun y mem => by simpa using (lower y mem).le
  have noneAt : ys.countP (fun y => label y = g.label) = 0 :=
    countP_eq_zero.mpr fun y mem => by simpa using (lower y mem).ne
  constructor
  · rw [countP_append, noneAbove, of.start, Nat.add_zero]
  · rw [countP_append, noneAt, of.count, Nat.add_zero]

theorem groupsFrom_spec (xs ys : List β) (cur : Group γ) (of : cur.Of label xs)
    (isLast : ∀ x ∈ xs, cur.label ≤ label x)
    (lower : ∀ y ∈ ys, label y ≤ cur.label)
    (sorted : ys.Pairwise fun a b => label b ≤ label a) :
    (∀ g ∈ groupsFrom label xs.length cur ys, g.Of label (xs ++ ys)) ∧
      ((groupsFrom label xs.length cur ys).map Group.label).Pairwise (· > ·) ∧
      ∀ l, l ∈ (groupsFrom label xs.length cur ys).map Group.label ↔
        l = cur.label ∨ l ∈ ys.map label := by
  induction ys generalizing xs cur with
  | nil => simp [groupsFrom, of]
  | cons y ys ih =>
    obtain ⟨first, sorted'⟩ := pairwise_cons.mp sorted
    obtain ⟨yLower, lower'⟩ := forall_mem_cons.mp lower
    have whole : xs ++ y :: ys = xs ++ [y] ++ ys := by simp
    have index : xs.length + 1 = (xs ++ [y]).length := by simp
    rw [groupsFrom, whole, index]
    split
    next same =>
      obtain ⟨groups, down, labels⟩ := ih (xs ++ [y]) { cur with count := cur.count + 1 }
        ⟨by simp [of.start, same], by simp [of.count, same]⟩
        (by simpa [or_imp, forall_and, same] using isLast) lower' sorted'
      refine ⟨groups, down, fun l => ?_⟩
      rw [labels, map_cons, mem_cons, same, ← or_assoc, or_self]
    next other =>
      have below : label y < cur.label := lt_of_le_of_ne yLower other
      have aboveY : ∀ x ∈ xs, label y < label x := fun x mem => below.trans_le (isLast x mem)
      obtain ⟨groups, down, labels⟩ := ih (xs ++ [y]) ⟨label y, xs.length, 1⟩ ⟨by
          rw [countP_append, countP_eq_length.mpr (by simpa using aboveY)]
          simp,
         by
          rw [countP_append, countP_eq_zero.mpr]
          · simp
          · intro x mem
            simpa using (aboveY x mem).ne'⟩
        (by
          intro x mem
          rcases mem_append.mp mem with inXs | inY
          · exact (aboveY x inXs).le
          · rw [mem_singleton.mp inY])
        first sorted'
      have curOf : cur.Of label (xs ++ [y] ++ ys) := by
        rw [← whole]
        refine of.append_lower fun z mem => ?_
        rcases mem_cons.mp mem with rfl | inYs
        · exact below
        · exact (first z inYs).trans_lt below
      refine ⟨forall_mem_cons.mpr ⟨curOf, groups⟩, ?_, ?_⟩
      · refine pairwise_cons.mpr ⟨fun l mem => ?_, down⟩
        rcases (labels l).mp mem with rfl | inYs
        · exact below
        · obtain ⟨z, isIn, rfl⟩ := mem_map.mp inYs
          exact (first z isIn).trans_lt below
      · intro l
        rw [map_cons, mem_cons, labels, map_cons, mem_cons]

theorem groupsOf_spec (sorted : xs.Pairwise fun a b => label b ≤ label a) :
    (∀ g ∈ groupsOf label xs, g.Of label xs) ∧ (groupsOf label xs).map Group.label =
        (xs.map label).toFinset.sort (· ≥ ·) := by
  cases xs with
  | nil => simp [groupsOf]
  | cons x rest =>
    obtain ⟨first, sorted'⟩ := pairwise_cons.mp sorted
    obtain ⟨groups, down, labels⟩ := @groupsFrom_spec _ _ _ label [x] rest
      ⟨label x, 0, 1⟩ ⟨by simp, by simp⟩ (by simp) first sorted'
    refine ⟨groups, ?_⟩
    have same : ((groupsOf label (x :: rest)).map Group.label).toFinset =
        ((x :: rest).map label).toFinset := by
      ext l
      rw [mem_toFinset, mem_toFinset, map_cons, mem_cons]
      exact labels l
    rw [← same]
    exact ((toFinset_sort (r := (· ≥ ·)) (down.imp ne_of_gt)).mpr (down.imp le_of_lt)).symm

theorem filter_above_at_below
    (sorted : xs.Pairwise fun a b => label b ≤ label a) (l : γ) :
    xs.filter (fun x => l < label x) ++ (xs.filter (fun x => label x = l) ++
      xs.filter fun x => label x < l) = xs := by
  induction xs with
  | nil => rfl
  | cons x rest ih =>
    obtain ⟨first, sorted'⟩ := pairwise_cons.mp sorted
    have none : ∀ {p : β → Bool}, (∀ y, label y ≤ label x → p y = false) → rest.filter p = [] := by
      intro p fails
      exact filter_eq_nil_iff.mpr fun y mem => by simp [fails y (first y mem)]
    rcases lt_trichotomy l (label x) with above | same | below
    · rw [filter_cons_of_pos (by simpa using above), filter_cons_of_neg (by simpa using above.ne'),
        filter_cons_of_neg (by simpa using above.le), cons_append,
        ih sorted']
    · have noneAbove := none (p := fun y => l < label y) fun y lower => by simpa [same] using lower
      have rest' := ih sorted'
      rw [noneAbove, nil_append] at rest'
      rw [filter_cons_of_neg (by simpa using same.ge), noneAbove,
        filter_cons_of_pos (by simpa using same.symm),
        filter_cons_of_neg (by simpa using same.le), nil_append,
        cons_append, rest']
    · have noneAbove := none (p := fun y => l < label y)
        fun y lower => by simpa using lower.trans below.le
      have noneAt := none (p := fun y => label y = l)
        fun y lower => by simpa using (lower.trans_lt below).ne
      have rest' := ih sorted'
      rw [noneAbove, noneAt, nil_append, nil_append] at rest'
      rw [filter_cons_of_neg (by simpa using below.le), noneAbove,
        filter_cons_of_neg (by simpa using below.ne), noneAt,
        filter_cons_of_pos (by simpa using below), nil_append,
        nil_append, rest']

theorem Group.Of.pick {g : Group γ} (of : g.Of label xs)
    (sorted : xs.Pairwise fun a b => label b ≤ label a) {r : Nat} (inside : r < g.count) :
    xs[g.start + r]? = (xs.filter fun x => label x = g.label)[r]? := by
  have start : g.start = (xs.filter fun x => g.label < label x).length := by
    rw [of.start, countP_eq_length_filter]
  have count : r < (xs.filter fun x => label x = g.label).length := by
    rwa [← countP_eq_length_filter, ← of.count]
  conv_lhs => rw [← filter_above_at_below sorted g.label]
  rw [start, getElem?_append_right (Nat.le_add_right _ _), Nat.add_sub_cancel_left,
    getElem?_append_left count]

end Groups

end Cix.Lib
