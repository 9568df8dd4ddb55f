import Mathlib.Data.List.Infix

/-!
# The first occurrence of a piece of text

`strstr`, which splits a text at the first occurrence of a piece.  Where the
first occurrence is depends on nothing that follows it, and a separator that
the piece does not contain keeps an occurrence on one of its sides.
-/

namespace Cix.Lib

open List Option

variable {α : Type*} [DecidableEq α]

def strstr (piece : List α) : List α → Option (List α × List α)
  | [] => if piece = [] then some ([], []) else none
  | c :: rest =>
    if piece <+: c :: rest then
      some ([], (c :: rest).drop piece.length)
    else
      (strstr piece rest).map fun (before, after) => (c :: before, after)

theorem strstr_eq_some {piece text before after : List α}
    (found : strstr piece text = some (before, after)) :
    text = before ++ (piece ++ after) := by
  induction text generalizing before with
  | nil =>
    rw [strstr] at found
    split at found
    next empty =>
      cases found
      rw [empty]
      rfl
    next => cases found
  | cons c rest ih =>
    rw [strstr] at found
    split at found
    next here =>
      cases found
      exact prefix_iff_eq_append.mp here |>.symm
    next =>
      rw [map_eq_some_iff] at found
      obtain ⟨⟨front, last⟩, isFound, isPair⟩ := found
      cases isPair
      rw [cons_append, ← ih isFound]

theorem strstr_replace {piece before after : List α}
    (found : strstr piece (before ++ (piece ++ after)) = some (before, after)) (other : List α) :
    strstr piece (before ++ (piece ++ other)) = some (before, other) := by
  induction before with
  | nil =>
    cases piece with
    | nil => cases other <;> simp [strstr]
    | cons c piece =>
      have here : c :: piece <+: c :: (piece ++ other) := ⟨other, rfl⟩
      rw [nil_append, cons_append, strstr, if_pos here]
      simp
  | cons c before ih =>
    rw [cons_append, strstr] at found
    split at found
    next => cases found
    next later =>
      rw [map_eq_some_iff] at found
      obtain ⟨⟨front, last⟩, isFound, isPair⟩ := found
      cases isPair
      have elsewhere : ¬ piece <+: c :: (before ++ (piece ++ other)) := by
        intro here
        apply later
        rw [← cons_append, ← append_assoc] at here ⊢
        have fits : piece.length ≤ ((c :: before) ++ piece).length := by
          simp only [length_append, length_cons]
          omega
        have inside := prefix_of_prefix_length_le here (prefix_append _ other) fits
        exact inside.trans (prefix_append _ after)
      rw [cons_append, strstr, if_neg elsewhere, ih isFound]
      rfl

variable {front : List α}

theorem strstr_append_separator {piece : List α} {separator : α}
    (foreign : separator ∉ piece) (absent : strstr piece front = none)
    (after : List α) :
    strstr piece (front ++ separator :: (piece ++ after)) = some (front ++ [separator], after) := by
  have apart : ∀ text : List α,
      piece <+: text ++ separator :: (piece ++ after) → piece <+: text := by
    intro text ahead
    by_cases fits : piece.length ≤ text.length
    · exact prefix_of_prefix_length_le ahead (prefix_append text _) fits
    · exfalso
      apply foreign
      obtain ⟨more, isText⟩ := ahead
      have short : text.length < piece.length := Nat.lt_of_not_le fits
      have byte := congrArg (fun l => l[text.length]?) isText
      simp only [getElem?_append_left short, getElem?_append_right (Nat.le_refl text.length),
        Nat.sub_self, getElem?_cons_zero] at byte
      exact mem_of_getElem? byte
  have occupied : piece ≠ [] := by
    intro empty
    rw [empty] at absent
    cases front <;> simp [strstr] at absent
  induction front with
  | nil =>
    have elsewhere : ¬ piece <+: separator :: (piece ++ after) := by
      intro ahead
      exact occupied (prefix_nil.mp (apart [] ahead))
    have here : strstr piece (piece ++ after) = some ([], after) := by
      obtain ⟨c, rest, isPiece⟩ := exists_cons_of_ne_nil occupied
      subst isPiece
      have ahead : c :: rest <+: c :: (rest ++ after) := ⟨after, rfl⟩
      rw [cons_append, strstr, if_pos ahead]
      simp
    rw [nil_append, strstr, if_neg elsewhere, here]
    rfl
  | cons c front ih =>
    rw [strstr] at absent
    split at absent
    next => cases absent
    next notHere =>
      rw [map_eq_none_iff] at absent
      have elsewhere : ¬ piece <+: c :: (front ++ separator :: (piece ++ after)) := by
        intro ahead
        exact notHere (apart (c :: front) ahead)
      rw [cons_append, strstr, if_neg elsewhere, ih absent]
      rfl

theorem strstr_front {piece back : List α} (absent : strstr piece (front ++ back) = none) :
    strstr piece front = none := by
  induction front with
  | nil =>
    by_cases empty : piece = []
    · subst empty
      cases back <;> simp [strstr] at absent
    · rw [strstr, if_neg empty]
  | cons c front ih =>
    rw [cons_append, strstr] at absent
    split at absent
    next => cases absent
    next notHere =>
      rw [map_eq_none_iff] at absent
      have elsewhere : ¬ piece <+: c :: front := by
        intro ahead
        apply notHere
        exact ahead.trans (prefix_append (c :: front) back)
      rw [strstr, if_neg elsewhere, ih absent]
      rfl

theorem strstr_eq_none_iff {piece text : List α} :
    strstr piece text = none ↔ ¬ piece <:+: text := by
  induction text with
  | nil => simp [strstr]
  | cons c rest ih =>
    rw [strstr, infix_cons_iff, not_or, ← ih]
    split
    next here => simp [here]
    next elsewhere => simp [elsewhere]

theorem strstr_length_le {piece back before after : List α}
    (found : strstr piece (front ++ (piece ++ back)) = some (before, after)) :
    before.length ≤ front.length := by
  induction front generalizing before with
  | nil =>
    have here : piece <+: piece ++ back := prefix_append piece back
    cases text : piece ++ back with
    | nil =>
      rw [nil_append, text, strstr] at found
      split at found
      · cases found
        exact Nat.le_refl 0
      · cases found
    | cons c rest =>
      rw [text] at here
      rw [nil_append, text, strstr, if_pos here] at found
      cases found
      exact Nat.le_refl 0
  | cons c front ih =>
    rw [cons_append, strstr] at found
    split at found
    · cases found
      exact Nat.zero_le _
    · rw [map_eq_some_iff] at found
      obtain ⟨⟨inner, last⟩, isFound, isPair⟩ := found
      cases isPair
      exact Nat.succ_le_succ (ih isFound)

theorem strstr_before {piece text before after : List α} (nonempty : piece ≠ [])
    (found : strstr piece text = some (before, after)) :
    ¬ piece <:+: before := by
  rintro ⟨front, back, rfl⟩
  have whole := strstr_eq_some found
  rw [whole, append_assoc, append_assoc, append_assoc] at found
  have before := strstr_length_le found
  have positive := length_pos_iff.mpr nonempty
  simp only [length_append] at before
  omega

/-- An occurrence in a text does not begin before `back`, where the part before
contains none and `back` begins with the byte that only the start of the piece
has. -/
theorem length_le_of_split {mark : α} {piece back before after : List α}
    (foreign : mark ∉ piece) (absent : ¬ mark :: piece <:+: front)
    (begins : back = [] ∨ back.head? = some mark)
    (split : front ++ back = before ++ (mark :: piece ++ after)) :
    front.length ≤ before.length := by
  by_contra short
  apply absent
  rcases append_eq_append_iff.mp split with ⟨more, isBefore, _⟩ | ⟨more, isFront, isRest⟩
  · rw [isBefore, length_append] at short
    omega
  · have rest : mark :: piece <+: more := by
      rw [cons_append] at isRest
      cases more with
      | nil =>
        rw [isFront, append_nil] at short
        omega
      | cons c more =>
        obtain ⟨rfl, isPiece⟩ := List.cons.inj isRest
        rw [prefix_cons_inj]
        rcases append_eq_append_iff.mp isPiece with ⟨inner, isMore, _⟩ | ⟨inner, rfl, isBack⟩
        · exact ⟨inner, isMore.symm⟩
        · rcases begins with rfl | first
          · rw [(append_eq_nil_iff.mp isBack.symm).1, append_nil]
          · cases inner with
            | nil => rw [append_nil]
            | cons d inner =>
              rw [isBack, cons_append, head?_cons, some.injEq] at first
              rw [first] at foreign
              simp at foreign
    rw [isFront]
    exact rest.isInfix.trans (suffix_append before more).isInfix

omit [DecidableEq α] in
theorem infix_of_separator {separator : α} {piece back : List α} (foreign : separator ∉ piece)
    (contained : piece <:+: front ++ separator :: back) :
    piece <:+: front ∨ piece <:+: back := by
  obtain ⟨before, after, whole⟩ := contained
  rw [append_assoc] at whole
  rcases append_eq_append_iff.mp whole with ⟨more, isFront, isPiece⟩ | ⟨more, rfl, isSep⟩
  · left
    rcases append_eq_append_iff.mp isPiece with ⟨inner, isMore, _⟩ | ⟨inner, isPiece, isBack⟩
    · rw [isFront, isMore]
      exact ⟨before, inner, by rw [append_assoc]⟩
    · cases inner with
      | nil =>
        rw [append_nil] at isPiece
        rw [isFront, isPiece]
        exact (suffix_append before more).isInfix
      | cons c inner =>
        obtain ⟨isSep, _⟩ := List.cons.inj isBack
        rw [isPiece, isSep] at foreign
        simp at foreign
  · right
    cases more with
    | nil =>
      cases piece with
      | nil => exact nil_infix
      | cons c piece =>
        obtain ⟨isSep, _⟩ := List.cons.inj isSep
        rw [← isSep] at foreign
        simp at foreign
    | cons c more =>
      obtain ⟨_, isBack⟩ := List.cons.inj isSep
      refine ⟨more, after, ?_⟩
      rw [append_assoc]
      exact isBack.symm

end Cix.Lib
