import Cix.Lib.Selection

/-!
# What does not depend on the order of a list

An element that is better than each of the others is the best of the list in
every order of it.  A comparison that takes one order between some elements and
a second order between the others orders a list only if no element of the
others stands between two that the orders put the other way round.
-/

namespace Cix.Lib

open List Option

universe u v

variable {α : Type u} {better : α → α → Bool}

def BeatsAll (better : α → α → Bool) (list : List α) (winner : α) : Prop :=
  winner ∈ list ∧ ∀ a ∈ list, a = winner ∨ better winner a = true

variable {list : List α}

theorem BeatsAll.perm {other : List α} {winner : α}
    (beats : BeatsAll better list winner) (order : other.Perm list) :
    BeatsAll better other winner :=
  ⟨order.mem_iff.mpr beats.1, fun a mem =>
    beats.2 a (order.mem_iff.mp mem)⟩

theorem exists_first {a : α} (mem : a ∈ list) :
    ∃ earlier later, list = earlier ++ a :: later ∧ a ∉ earlier := by
  induction list with
  | nil => cases mem
  | cons first rest ih =>
    by_cases isFirst : first = a
    · exact ⟨[], rest, by rw [isFirst]; rfl, not_mem_nil⟩
    · have later : a ∈ rest := (mem_cons.mp mem).resolve_left (Ne.symm isFirst)
      obtain ⟨front, back, split, notFront⟩ := ih later
      refine ⟨first :: front, back, by rw [split]; rfl, ?_⟩
      rw [mem_cons, not_or]
      exact ⟨Ne.symm isFirst, notFront⟩

theorem bestOf_of_beatsAll {winner : α}
    (asymm : ∀ a b, better a b = true → better b a = false)
    (beats : BeatsAll better list winner) :
    bestOf better list = some winner := by
  obtain ⟨earlier, later, split, notEarlier⟩ := exists_first beats.1
  apply bestOf_of_leads
  refine ⟨earlier, later, split, ?_, ?_⟩
  · intro a inEarlier
    have mem : a ∈ list := split ▸ mem_append_left _ inEarlier
    rcases beats.2 a mem with isWinner | beaten
    · exact absurd (isWinner ▸ inEarlier) notEarlier
    · exact beaten
  · intro a inLater
    have mem : a ∈ list := split ▸ mem_append_right _ (mem_cons_of_mem _ inLater)
    rcases beats.2 a mem with isWinner | beaten
    · rw [isWinner]
      cases self : better winner winner with
      | false => rfl
      | true =>
        have no := asymm winner winner self
        rw [self] at no
        cases no
    · exact asymm winner a beaten

theorem bestOf_snoc (list : List α) (last : α) : bestOf better (list ++ [last]) =
      keepBest better (bestOf better list) last := by
  unfold bestOf
  rw [List.foldl_append]
  rfl

theorem ne_of_bestOf_snoc {last best loser : α}
    (beaten : better last loser = true) (different : last ≠ loser)
    (found : bestOf better (list ++ [last]) = some best) : best ≠ loser := by
  rintro rfl
  rw [bestOf_snoc] at found
  cases held : bestOf better list with
  | none =>
    rw [held] at found
    exact different (some.inj found)
  | some a =>
    rw [held, keepBest] at found
    split at found
    · exact different (some.inj found)
    next stays =>
      rw [some.inj found] at stays
      exact stays beaten

theorem exists_perm_filterMap {β : Type v} (f : β → Option α)
    {source : List β} (order : list.Perm (source.filterMap f)) :
    ∃ other : List β, other.Perm source ∧ other.filterMap f = list := by
  induction list generalizing source with
  | nil => exact ⟨source, List.Perm.refl _, order.nil_eq.symm⟩
  | cons first rest ih =>
    have mem : first ∈ source.filterMap f := order.mem_iff.mp mem_cons_self
    obtain ⟨b, inSource, isFirst⟩ := mem_filterMap.mp mem
    obtain ⟨front, back, split⟩ := append_of_mem inSource
    have moved : source.Perm (b :: (front ++ back)) := by
      rw [split]
      exact perm_middle
    have without : rest.Perm ((front ++ back).filterMap f) := by
      have both := order.trans (moved.filterMap f)
      rw [filterMap_cons_some isFirst] at both
      exact both.cons_inv
    obtain ⟨other, otherOrder, made⟩ := ih without
    refine ⟨b :: other, (otherOrder.cons b).trans moved.symm, ?_⟩
    rw [filterMap_cons_some isFirst, made]

section Mixed

variable {full : α → Bool} {strong weak : α → α → Ordering}

def Wedged (full : α → Bool) (strong weak : α → α → Ordering) (list : List α) : Prop :=
  ∃ a ∈ list, ∃ b ∈ list, ∃ c ∈ list, full a = true ∧ full b = false ∧
    full c = true ∧ strong a c = .lt ∧ (weak c b).isLE ∧ (weak b a).isLE

def mixed (full : α → Bool) (strong weak : α → α → Ordering) (a b : α) :
    Ordering :=
  if full a && full b then strong a b else weak a b

theorem not_lt_of_isLE {cmp : α → α → Ordering} [Std.TransCmp cmp] {a b c : α}
    (first : (cmp c b).isLE) (second : (cmp b a).isLE) : cmp a c ≠ .lt := by
  intro less
  have le := Std.TransCmp.isLE_trans first second
  rw [@Std.OrientedCmp.eq_swap _ cmp, less] at le
  cases le

theorem lt_or_eq_of_isLE {order : Ordering} (le : order.isLE) : order = .lt ∨ order = .eq := by
  cases order with
  | lt => exact Or.inl rfl
  | eq => exact Or.inr rfl
  | gt => cases le

variable [Std.TransCmp strong] [Std.TransCmp weak]

theorem mixed_swap (a b : α) : mixed full strong weak b a = (mixed full strong weak a b).swap := by
  unfold mixed
  rw [Bool.and_comm]
  split
  · exact Std.OrientedCmp.eq_swap
  · exact Std.OrientedCmp.eq_swap

theorem better_eq_false_iff (ordered : ∀ a b, better a b = true ↔ mixed full strong weak a b = .lt)
    (a b : α) :
    better a b = false ↔ (mixed full strong weak b a).isLE := by
  rw [← Bool.not_eq_true, ordered, mixed_swap a b, Ordering.isLE_swap, Ordering.isGE_iff_ne_lt]

theorem consistent_mixed_iff
    (ordered : ∀ a b, better a b = true ↔ mixed full strong weak a b = .lt)
    (refines : ∀ a b, strong a b = .eq → weak a b = .eq) :
    Consistent better list ↔ ¬ Wedged full strong weak list := by
  have isFalse := better_eq_false_iff ordered
  constructor
  · rintro consistent ⟨a, aMember, b, bMember, c, cMember, aFull, bNot, cFull, less, cb, ba⟩
    have noFirst : better a b = false := by
      rw [isFalse, mixed, bNot]
      exact ba
    have noSecond : better b c = false := by
      rw [isFalse, mixed, bNot, Bool.and_false]
      exact cb
    have no := consistent.negTrans a aMember b bMember c cMember noFirst noSecond
    have yes : better a c = true := by
      rw [ordered, mixed, aFull, cFull]
      exact less
    rw [yes] at no
    cases no
  · intro notWedged
    constructor
    · intro a _ b _ first
      rw [isFalse, (ordered a b).mp first]
      rfl
    · intro a aMember b bMember c cMember noFirst noSecond
      rw [isFalse] at noFirst noSecond
      rw [← Bool.not_eq_true, ordered]
      intro less
      unfold mixed at noFirst noSecond less
      -- the three pairs fall under one order unless two elements are full
      cases aFull : full a <;> cases bFull : full b <;> cases cFull : full c <;>
        rw [aFull, bFull] at noFirst <;> rw [bFull, cFull] at noSecond <;>
        rw [aFull, cFull] at less <;>
        simp only [Bool.and_true, Bool.and_false, if_true, Bool.false_eq_true,
          if_false] at noFirst noSecond less
      case true.false.true =>
        exact notWedged ⟨a, aMember, b, bMember, c, cMember, aFull, bFull,
          cFull, less, noSecond, noFirst⟩
      case true.true.false =>
        rcases lt_or_eq_of_isLE noFirst with before | same
        · exact notWedged ⟨b, bMember, c, cMember, a, aMember, bFull, cFull,
            aFull, before, by rw [less]; rfl, noSecond⟩
        · have equal : (weak b a).isLE := by rw [refines b a same]; rfl
          exact not_lt_of_isLE noSecond equal less
      case false.true.true =>
        rcases lt_or_eq_of_isLE noSecond with before | same
        · exact notWedged ⟨c, cMember, a, aMember, b, bMember, cFull, aFull,
            bFull, before, noFirst, by rw [less]; rfl⟩
        · have equal : (weak c b).isLE := by rw [refines c b same]; rfl
          exact not_lt_of_isLE equal noFirst less
      all_goals exact not_lt_of_isLE noSecond noFirst less

end Mixed

end Cix.Lib
