import Mathlib.Data.List.Induction
import Mathlib.Order.Defs.LinearOrder
import Mathlib.Order.Lattice

/-!
# The best of a list

A loop that keeps the best element it has seen and replaces it by every later
one that is better.  What it returns is an element of the list; it is the
element that every later one fails to beat and that beats every earlier one,
if there is one.
-/

namespace Cix.Lib

open List Option

universe u

variable {α : Type u} (better : α → α → Bool)

/-- Keeps `best` unless `candidate` is better. -/
def keepBest (best : Option α) (candidate : α) : Option α :=
  match best with
  | none => some candidate
  | some held => if better candidate held then some candidate else some held

def bestOf (list : List α) : Option α :=
  list.foldl (keepBest better) none

variable {better}

variable {list : List α}

theorem foldl_keepBest_some (list : List α) (held : α) :
    ∃ best, list.foldl (keepBest better) (some held) = some best ∧ (best = held ∨ best ∈ list) := by
  induction list generalizing held with
  | nil => exact ⟨held, rfl, Or.inl rfl⟩
  | cons candidate rest ih =>
    rw [foldl_cons, keepBest]
    split
    · obtain ⟨best, found, origin⟩ := ih candidate
      refine ⟨best, found, Or.inr ?_⟩
      rcases origin with isCandidate | later
      · exact isCandidate ▸ mem_cons_self
      · exact mem_cons_of_mem _ later
    · obtain ⟨best, found, origin⟩ := ih held
      exact ⟨best, found, origin.imp_right (mem_cons_of_mem _)⟩

@[simp]
theorem bestOf_nil : bestOf better [] = none := rfl

theorem exists_bestOf {list : List α} (nonempty : list ≠ []) :
    ∃ best ∈ list, bestOf better list = some best := by
  cases list with
  | nil => exact absurd rfl nonempty
  | cons first rest =>
    obtain ⟨best, found, origin⟩ := foldl_keepBest_some rest first
    refine ⟨best, ?_, found⟩
    rcases origin with isFirst | later
    · exact isFirst ▸ mem_cons_self
    · exact mem_cons_of_mem _ later

theorem bestOf_eq_none : bestOf better list = none ↔ list = [] := by
  constructor
  · intro nothing
    by_contra nonempty
    obtain ⟨best, _, found⟩ := @exists_bestOf _ better _ nonempty
    rw [nothing] at found
    cases found
  · intro empty
    rw [empty, bestOf_nil]

theorem mem_of_bestOf {best : α} (found : bestOf better list = some best) : best ∈ list := by
  have nonempty : list ≠ [] := by
    intro empty
    rw [empty, bestOf_nil] at found
    cases found
  obtain ⟨other, mem, foundOther⟩ := @exists_bestOf _ better _ nonempty
  rw [found] at foundOther
  exact some.inj foundOther ▸ mem

/-- `leader` is better than every earlier element, and no later one is better
than it. -/
def Leads (better : α → α → Bool) (list : List α) (leader : α) : Prop :=
  ∃ earlier later, list = earlier ++ leader :: later ∧ (∀ a ∈ earlier, better leader a = true) ∧
    ∀ a ∈ later, better a leader = false

theorem foldl_keepBest_stays {list : List α} {held : α}
    (stays : ∀ a ∈ list, better a held = false) :
    list.foldl (keepBest better) (some held) = some held := by
  induction list with
  | nil => rfl
  | cons candidate rest ih =>
    rw [foldl_cons, keepBest, stays candidate mem_cons_self]
    exact ih fun a mem =>
      stays a (mem_cons_of_mem _ mem)

theorem bestOf_of_leads {leader : α} (leads : Leads better list leader) :
    bestOf better list = some leader := by
  obtain ⟨earlier, later, split, beats, stays⟩ := leads
  rw [split, bestOf, List.foldl_append, foldl_cons]
  have taken : keepBest better (earlier.foldl (keepBest better) none) leader =
      some leader := by
    cases held : earlier.foldl (keepBest better) none with
    | none => rfl
    | some best =>
      have beaten := beats best (mem_of_bestOf held)
      rw [keepBest, beaten]
      rfl
  rw [taken, foldl_keepBest_stays stays]

structure Consistent (better : α → α → Bool) (list : List α) : Prop where
  asymm : ∀ a ∈ list, ∀ b ∈ list, better a b = true → better b a = false
  negTrans : ∀ a ∈ list, ∀ b ∈ list, ∀ c ∈ list,
    better a b = false → better b c = false → better a c = false

theorem leads_of_bestOf {list : List α} (consistent : Consistent better list) {leader : α}
    (found : bestOf better list = some leader) :
    Leads better list leader := by
  induction list using List.reverseRecOn generalizing leader with
  | nil => cases found
  | append_singleton list a ih =>
    have earlier : Consistent better list := by
      constructor
      · intro x xMember y yMember
        exact consistent.asymm x (mem_append_left _ xMember) y (mem_append_left _ yMember)
      · intro x xMember y yMember z zMember
        exact consistent.negTrans x (mem_append_left _ xMember) y (mem_append_left _ yMember) z
          (mem_append_left _ zMember)
    have last : a ∈ list ++ [a] := by simp
    rw [bestOf, List.foldl_append, foldl_cons, foldl_nil] at found
    cases held : list.foldl (keepBest better) none with
    | none =>
      rw [held] at found
      have empty : list = [] := bestOf_eq_none.mp held
      refine ⟨[], [], ?_, by simp, by simp⟩
      rw [empty, ← some.inj found, nil_append]
    | some best =>
      have mem : best ∈ list ++ [a] := mem_append_left _ (mem_of_bestOf held)
      obtain ⟨front, back, split, beats, stays⟩ := ih earlier held
      rw [held, keepBest] at found
      cases replaced : better a best with
      | false =>
        rw [replaced] at found
        have same : best = leader := some.inj found
        refine ⟨front, back ++ [a], by simp [split, same], ?_, ?_⟩
        · rw [← same]
          exact beats
        · intro other otherMember
          rw [← same]
          rcases mem_append.mp otherMember with inBack | isLast
          · exact stays other inBack
          · rw [mem_singleton.mp isLast]
            exact replaced
      | true =>
        rw [replaced] at found
        have same : a = leader := some.inj found
        refine ⟨list, [], by simp [same], ?_, by simp⟩
        intro other otherMember
        rw [← same]
        have inList := mem_append_left [a] otherMember
        -- what `best` does not lose to cannot keep `a` from winning
        have notBetter : better other best = false := by
          rw [split] at otherMember
          rcases mem_append.mp otherMember with inFront | rest
          · exact consistent.asymm best mem other inList (beats other inFront)
          · rcases mem_cons.mp rest with isBest | inBack
            · rw [isBest]
              cases self : better best best with
              | false => rfl
              | true =>
                have no := consistent.asymm best mem best mem self
                rw [self] at no
                cases no
            · exact stays other inBack
        by_contra notWon
        have lost := consistent.negTrans a last other inList best mem
          (Bool.eq_false_iff.mpr notWon) notBetter
        rw [lost] at replaced
        cases replaced

section Ranked

variable {κ : Type*} [LinearOrder κ] {key : α → κ}

theorem Consistent.of_key (ranked : ∀ a b, better a b = true ↔ key b < key a) (list : List α) :
    Consistent better list := by
  constructor
  · intro a _ b _ first
    rw [ranked] at first
    rw [← Bool.not_eq_true, ranked]
    exact not_lt_of_ge (le_of_lt first)
  · intro a _ b _ c _ noFirst noSecond
    rw [← Bool.not_eq_true, ranked, not_lt] at noFirst noSecond ⊢
    exact le_trans noFirst noSecond

theorem key_le_of_bestOf (ranked : ∀ a b, better a b = true ↔ key b < key a)
    {best : α} (found : bestOf better list = some best) :
    ∀ a ∈ list, key a ≤ key best := by
  obtain ⟨earlier, later, split, beats, stays⟩ :=
    leads_of_bestOf (Consistent.of_key ranked list) found
  intro a mem
  rw [split] at mem
  rcases mem_append.mp mem with inEarlier | rest
  · exact le_of_lt ((ranked best a).mp (beats a inEarlier))
  · rcases mem_cons.mp rest with isBest | inLater
    · rw [isBest]
    · have stay := stays a inLater
      rw [← Bool.not_eq_true, ranked, not_lt] at stay
      exact stay

theorem exists_perm_bestOf (ranked : ∀ a b, better a b = true ↔ key b < key a) {list : List α}
    {selected : α → Bool} {top : α} (mem : top ∈ list)
    (chosen : selected top = true)
    (highest : ∀ a ∈ list, selected a = true → key a ≤ key top) :
      ∃ other : List α, other.Perm list ∧
      bestOf better (other.filter selected) = some top := by
  obtain ⟨front, back, split⟩ := append_of_mem mem
  refine ⟨top :: (front ++ back), ?_, ?_⟩
  · rw [split]
    exact perm_middle.symm
  · rw [filter_cons_of_pos chosen]
    apply bestOf_of_leads
    refine ⟨[], (front ++ back).filter selected, rfl, by simp, ?_⟩
    intro a inRest
    obtain ⟨inRest, selectedA⟩ := mem_filter.mp inRest
    rw [← Bool.not_eq_true, ranked, not_lt]
    apply highest a _ selectedA
    rw [split]
    rw [mem_append] at inRest
    simp only [mem_append, mem_cons]
    tauto

end Ranked

theorem bestOf_map {β : Type*} (f : β → α) (list : List β) : bestOf better (list.map f) =
      (bestOf (fun a b => better (f a) (f b)) list).map f := by
  have fold : ∀ held : Option β, (list.map f).foldl (keepBest better) (held.map f) =
        (list.foldl (keepBest fun a b => better (f a) (f b)) held).map f := by
    induction list with
    | nil =>
      intro held
      rfl
    | cons first rest ih =>
      intro held
      rw [map_cons, foldl_cons, foldl_cons, ← ih]
      congr 1
      cases held with
      | none => rfl
      | some best =>
        simp only [keepBest, map_some]
        split <;> rfl
  exact fold none

end Cix.Lib
