import Cix.Json.Patch

/-!
# What a comparison reports

Where a declared key names the elements of the outermost arrays, they are
matched by name.  Applying the reported changes then gives the supplied
elements in some order.  Names are read from the elements as they are: members
that are ignored count for a name, so two elements that agree can have
different names.
-/

namespace Cix.Json

open Cix.Lib List

variable {live sup : List (List UInt8 × Value)} {pair : List UInt8 × Value}

section Reported

variable (general : Double → List UInt8)

/-! ## Elements with usable names -/

def nameOf (key : CStr) (v : Value) : List UInt8 :=
  (elementName general key v).getD []

variable {general}

theorem mapM_elementName {key : CStr} {items : List Value}
    {names : List (List UInt8)}
    (named : items.mapM (elementName general key) = some names) :
    names = items.map (nameOf general key) ∧ ∀ item ∈ items, elementName general key item =
        some (nameOf general key item) := by
  induction items generalizing names with
  | nil =>
    cases named
    exact ⟨rfl, by simp⟩
  | cons item rest ih =>
    rw [mapM_cons] at named
    cases first : elementName general key item with
    | none =>
      rw [first] at named
      cases named
    | some name =>
      cases others : rest.mapM (elementName general key) with
      | none =>
        rw [first, others] at named
        cases named
      | some tail =>
        rw [first, others] at named
        cases named
        obtain ⟨isTail, eachNamed⟩ := ih others
        have isName : nameOf general key item = name := by rw [nameOf, first, Option.getD_some]
        rw [map_cons, forall_mem_cons, isName, first, ← isTail]
        exact ⟨rfl, rfl, eachNamed⟩

theorem namesUsable_spec {key : CStr} {items : List Value}
    {elements : List (List UInt8 × Value)}
    (usable : namesUsable general key items = some elements) :
    elements = items.map (fun item => (nameOf general key item, item)) ∧
      (elements.map Prod.fst).Nodup ∧
      ∀ item ∈ items, elementName general key item = some (nameOf general key item) := by
  rw [namesUsable] at usable
  cases named : items.mapM (elementName general key) with
  | none =>
    rw [named] at usable
    cases usable
  | some names =>
    rw [named] at usable
    dsimp only at usable
    split at usable
    · rename_i distinct
      cases usable
      obtain ⟨isNames, eachNamed⟩ := mapM_elementName named
      have zipped : names.zip items = items.map fun item => (nameOf general key item, item) := by
        rw [isNames, zip_map_left, zip_eq_zipWith, zipWith_self, map_map]
        rfl
      refine ⟨zipped, ?_, eachNamed⟩
      rw [zipped, map_map]
      rw [isNames] at distinct
      exact distinct
    · cases usable

/-! ## The comparison as a whole -/

def namedChanges (ignored : CStr → Bool) (live sup : List (List UInt8 × Value)) : List Change :=
  pairsChanges .named ignored (fun _ => false) live sup

theorem diffNamed_eq (ignored : CStr → Bool) (sup live : List (List UInt8 × Value)) (d : Diff) :
    diffNamed ignored sup d live = record d (live.flatMap fun pair =>
        (pairChange ignored (fun _ => false) sup pair).map (Change.inside (.named pair.1))) := by
  induction live generalizing d with
  | nil => rfl
  | cons element live ih =>
    obtain ⟨name, a⟩ := element
    rw [diffNamed, ih, flatMap_cons, record_append]
    congr 1
    rw [pairChange, findKey]
    simp only [Bool.false_eq_true, if_false]
    cases sup.find? fun other => other.1 = name with
    | none => rfl
    | some other => exact diffWalk_eq ignored a d [.named name] other.2

theorem addNamed_eq (live sup : List (List UInt8 × Value)) (d : Diff) :
    addNamed live d sup = record d ((newPairs (fun _ => false) live sup).map fun pair =>
        ⟨[.named pair.1], .add, none, some pair.2⟩) := by
  induction sup generalizing d with
  | nil => rfl
  | cons element sup ih =>
    obtain ⟨name, b⟩ := element
    rw [addNamed, ih, newPairs, newPairs, filter_cons]
    by_cases known : name ∈ live.map Prod.fst
    · have present : (live.any fun other => other.1 = name) = true := by
        obtain ⟨other, mem, same⟩ := mem_map.mp known
        exact any_eq_true.mpr ⟨other, mem, decide_eq_true same⟩
      have found : findKey name live ≠ none := fun missing =>
        findKey_eq_none.mp missing known
      rw [present, if_pos rfl, if_neg (by simpa using found)]
    · have absent : (live.any fun other => other.1 = name) = false := by
        rw [any_eq_false]
        intro other mem same
        exact known (mem_map.mpr ⟨other, mem, of_decide_eq_true same⟩)
      have missing := findKey_eq_none.mpr known
      rw [absent, if_neg Bool.false_ne_true, if_pos (by simp [missing])]
      rfl

def namedPair (general : Double → List UInt8) (key : CStr) (live sup : Value) :
    Option (List (List UInt8 × Value) × List (List UInt8 × Value)) :=
  match live, sup with
  | .array live, .array sup =>
    if key = CStr.empty then none
    else
      match namesUsable general key live, namesUsable general key sup with
      | some liveNames, some supNames => some (liveNames, supNames)
      | _, _ => none
  | _, _ => none

theorem namedPair_spec {key : CStr} {live sup : Value}
    {liveNames supNames : List (List UInt8 × Value)}
    (matched : namedPair general key live sup = some (liveNames, supNames)) :
    key ≠ CStr.empty ∧ ∃ as bs, live = .array as ∧ sup = .array bs ∧
      namesUsable general key as = some liveNames ∧
      namesUsable general key bs = some supNames := by
  unfold namedPair at matched
  split at matched
  · rename_i as bs
    split at matched
    · cases matched
    · rename_i hasKey
      split at matched
      · rename_i l s isL isS
        cases matched
        exact ⟨hasKey, as, bs, rfl, rfl, isL, isS⟩
      · cases matched
  · cases matched

variable {ignoreFields : CStr}

theorem jsondiffCompute_named {key : CStr} {live sup : Value}
    {liveNames supNames : List (List UInt8 × Value)}
    (matched : namedPair general key live sup = some (liveNames, supNames)) :
    jsondiffCompute general live sup key ignoreFields = record ⟨[], false, []⟩ (namedChanges
        (jsondiffFieldListed ignoreFields.bytes) liveNames supNames) := by
  obtain ⟨hasKey, as, bs, rfl, rfl, liveUsable, supUsable⟩ := namedPair_spec matched
  rw [jsondiffCompute]
  rw [diffArrays, if_neg hasKey, liveUsable, supUsable]
  dsimp only
  rw [diffNamed_eq, addNamed_eq, ← record_append]
  rfl

def unkeyedNote (general : Double → List UInt8) (key : CStr) (live sup : Value) : List UInt8 :=
  match live, sup with
  | .array _, .array _ =>
    if key = CStr.empty ∨ (namedPair general key live sup).isSome then []
    else ascii "(section)"
  | _, _ => []

theorem jsondiffCompute_indexed {key : CStr} {live sup : Value}
    (unmatched : namedPair general key live sup = none) :
    jsondiffCompute general live sup key ignoreFields =
      record ⟨[], false, unkeyedNote general key live sup⟩
        (changesOf (jsondiffFieldListed ignoreFields.bytes) live sup) := by
  have place : ∀ cs : List Change, cs.map (Change.below []) = cs := by
    intro cs
    exact map_id cs
  have walk := diffWalk_eq (jsondiffFieldListed ignoreFields.bytes) live
    ⟨[], false, unkeyedNote general key live sup⟩ [] sup
  rw [place] at walk
  rw [← walk]
  cases live with
  | array live =>
    cases sup with
    | array sup =>
      rw [jsondiffCompute]
      rw [diffArrays, unkeyedNote, unmatched]
      by_cases noKey : key = CStr.empty
      · rw [if_pos noKey, if_pos (Or.inl noKey), diffWalk]
        rfl
      · rw [if_neg noKey, if_neg (by simp [noKey]), diffWalk]
        rw [namedPair] at unmatched
        rw [if_neg noKey] at unmatched
        cases liveUsable : namesUsable general key live with
        | none => rfl
        | some l =>
          cases supUsable : namesUsable general key sup with
          | none => rfl
          | some s =>
            rw [liveUsable, supUsable] at unmatched
            cases unmatched
    | _ => rfl
  | _ => rfl

/-! ## Matching by name -/

def reordered (live sup : List (List UInt8 × Value)) : List (List UInt8 × Value) :=
  (live.filterMap fun pair =>
    (findKey pair.1 sup).map fun b => (pair.1, b)) ++
    newPairs (fun _ => false) live sup

theorem mem_newPairs : pair ∈ newPairs (fun _ => false) live sup ↔
      pair ∈ sup ∧ findKey pair.1 live = none := by
  rw [newPairs, mem_filter, Bool.not_false, Bool.true_and, Option.isNone_iff_eq_none]

theorem mem_kept : (pair ∈ live.filterMap fun p => (findKey p.1 sup).map fun b => (p.1, b)) ↔
      findKey pair.1 sup = some pair.2 ∧ pair.1 ∈ live.map Prod.fst := by
  rw [mem_filterMap]
  constructor
  · rintro ⟨p, inLive, kept⟩
    obtain ⟨b, found, rfl⟩ := Option.map_eq_some_iff.mp kept
    exact ⟨found, mem_map.mpr ⟨p, inLive, rfl⟩⟩
  · rintro ⟨found, known⟩
    obtain ⟨p, inLive, same⟩ := mem_map.mp known
    refine ⟨p, inLive, ?_⟩
    rw [same, found]
    rfl

theorem mem_reordered (distinct : (sup.map Prod.fst).Nodup) :
    pair ∈ reordered live sup ↔ pair ∈ sup := by
  rw [reordered, mem_append, mem_kept, mem_newPairs, findKey_eq_none]
  constructor
  · rintro (⟨found, _⟩ | ⟨mem, _⟩)
    · exact mem_of_findKey found
    · exact mem
  · intro mem
    by_cases known : pair.1 ∈ live.map Prod.fst
    · exact Or.inl ⟨findKey_of_mem distinct mem, known⟩
    · exact Or.inr ⟨mem, known⟩

theorem kept_keys_sublist (live sup : List (List UInt8 × Value)) : ((live.filterMap fun p =>
      (findKey p.1 sup).map fun b => (p.1, b)).map Prod.fst).Sublist
      (live.map Prod.fst) := by
  induction live with
  | nil => exact List.Sublist.slnil
  | cons pair rest ih =>
    rw [filterMap_cons, map_cons]
    cases findKey pair.1 sup with
    | none => exact ih.cons pair.1
    | some b => exact ih.cons_cons pair.1

theorem reordered_perm (distinct : (live.map Prod.fst).Nodup)
    (distinct' : (sup.map Prod.fst).Nodup) : (reordered live sup).Perm sup := by
  apply (perm_ext_iff_of_nodup ?_ distinct'.of_map).mpr
  · intro pair
    exact mem_reordered distinct'
  · rw [reordered]
    apply List.Nodup.append
    · exact ((kept_keys_sublist live sup).nodup distinct).of_map
    · exact distinct'.of_map.filter _
    · intro pair inKept inNew
      exact findKey_eq_none.mp (mem_newPairs.mp inNew).2 (mem_kept.mp inKept).2

variable {ignored : CStr → Bool}

theorem patchedNamed_agree (distinct : (live.map Prod.fst).Nodup)
    (below : ∀ pair ∈ live, KeysDistinct pair.2) :
    List.Forall₂ (fun x y => Agree ignored x.2 y.2)
      (patchedNamed (namedChanges ignored live sup) live ++
        addedAt nameLabel (namedChanges ignored live sup))
      (reordered live sup) := by
  have labels : ∀ name, nameLabel (.named name) = some name := fun _ => rfl
  have kept := patchedPairs_changes labels ignored (fun _ => false) distinct sup
  have named : patchedNamed (namedChanges ignored live sup) live =
      patchedPairs .named (namedChanges ignored live sup) live := rfl
  rw [named, namedChanges, kept, addedAt_pairsChanges labels, reordered]
  apply rel_append
  · clear kept named distinct
    induction live with
    | nil => exact .nil
    | cons pair rest ih =>
      have later := ih fun p inRest =>
        below p (mem_cons_of_mem _ inRest)
      rw [filterMap_cons, filterMap_cons, pairResult]
      simp only [Bool.false_eq_true, if_false]
      cases findKey pair.1 sup with
      | none => exact later
      | some b => exact .cons (patched_agree (below pair mem_cons_self)) later
  · exact List.forall₂_same.mpr fun pair _ => Agree.refl pair.2

theorem namedChanges_eq_nil (distinct : (live.map Prod.fst).Nodup)
    (distinct' : (sup.map Prod.fst).Nodup)
    (below : ∀ pair ∈ live, KeysDistinct pair.2)
    (below' : ∀ pair ∈ sup, KeysDistinct pair.2) :
    namedChanges ignored live sup = [] ↔ ∃ others : List (List UInt8 × Value), others.Perm sup ∧
        List.Forall₂ (fun x y => x.1 = y.1 ∧ Agree ignored x.2 y.2) live
          others := by
  rw [namedChanges, pairsChanges, append_eq_nil_iff, flatMap_eq_nil_iff, map_eq_nil_iff]
  constructor
  · rintro ⟨unchanged, nothingNew⟩
    have perm := reordered_perm distinct distinct'
    rw [reordered, nothingNew, append_nil] at perm
    refine ⟨_, perm, ?_⟩
    clear perm nothingNew distinct
    induction live with
    | nil => exact .nil
    | cons pair rest ih =>
      have later := ih (fun p inRest => below p (mem_cons_of_mem _ inRest))
        fun p inRest => unchanged p (mem_cons_of_mem _ inRest)
      have here := unchanged pair mem_cons_self
      rw [map_eq_nil_iff, pairChange] at here
      simp only [Bool.false_eq_true, if_false] at here
      rw [filterMap_cons]
      cases found : findKey pair.1 sup with
      | none =>
        rw [found] at here
        cases here
      | some b =>
        rw [found] at here
        have agree := (changesOf_eq_nil (below pair mem_cons_self)
          (below' _ (mem_of_findKey found))).mp here
        exact .cons ⟨rfl, agree⟩ later
  · rintro ⟨others, perm, agree⟩
    constructor
    · intro pair inLive
      obtain ⟨i, within, isPair⟩ := mem_iff_getElem.mp inLive
      have within' : i < others.length := agree.length_eq ▸ within
      have matched := agree.get within within'
      have inSup := perm.mem_iff.mp (getElem_mem within')
      change live[i].1 = others[i].1 ∧ Agree ignored live[i].2 others[i].2 at matched
      rw [isPair] at matched
      have found : findKey pair.1 sup = some others[i].2 :=
        findKey_of_mem distinct' (by rw [matched.1]; exact inSup)
      rw [map_eq_nil_iff, pairChange]
      simp only [Bool.false_eq_true, if_false, found]
      exact (changesOf_eq_nil (below pair inLive) (below' _ inSup)).mpr matched.2
    · rw [eq_nil_iff_forall_not_mem]
      intro pair isNew
      obtain ⟨inSup, missing⟩ := mem_newPairs.mp isNew
      obtain ⟨i, within, isPair⟩ := mem_iff_getElem.mp (perm.mem_iff.mpr inSup)
      have within' : i < live.length := agree.length_eq.symm ▸ within
      have matched := agree.get within' within
      change live[i].1 = others[i].1 ∧ _ at matched
      rw [isPair] at matched
      apply findKey_eq_none.mp missing
      rw [← matched.1]
      exact mem_map_of_mem (f := Prod.fst) (getElem_mem within')

/-! ## Complete and sound -/

/-- Two values are the same up to the order of an array that is matched by name,
with `element` for two elements. -/
def SameUpTo (ignored : CStr → Bool) (element : Value → Value → Prop)
    (byName : Bool) (a b : Value) : Prop :=
  if byName then
    ∃ as bs others, a = .array as ∧ b = .array bs ∧ others.Perm bs ∧ List.Forall₂ element as others
  else Agree ignored a b

def SameNamed (general : Double → List UInt8) (key : CStr)
    (ignored : CStr → Bool) (a b : Value) : Prop :=
  elementName general key a = elementName general key b ∧ Agree ignored a b

theorem namesUsable_distinct {key : CStr} {items : List Value}
    {elements : List (List UInt8 × Value)}
    (usable : namesUsable general key items = some elements)
    (distinct : KeysDistinct (.array items)) :
    ∀ pair ∈ elements, KeysDistinct pair.2 := by
  intro pair mem
  rw [(namesUsable_spec usable).1] at mem
  obtain ⟨item, inItems, rfl⟩ := mem_map.mp mem
  exact distinct.items item inItems

theorem forall₂_named {key : CStr}
    {as bs : List Value}
    (named : ∀ a ∈ as, elementName general key a = some (nameOf general key a))
    (named' : ∀ b ∈ bs, elementName general key b = some (nameOf general key b)) :
    List.Forall₂ (fun x y => x.1 = y.1 ∧ Agree ignored x.2 y.2)
        (as.map fun a => (nameOf general key a, a))
        (bs.map fun b => (nameOf general key b, b)) ↔
      List.Forall₂ (SameNamed general key ignored) as bs := by
  rw [List.forall₂_map_left_iff, List.forall₂_map_right_iff]
  change List.Forall₂ (fun a b => nameOf general key a = nameOf general key b ∧
    Agree ignored a b) as bs ↔ _
  have pointwise : ∀ a ∈ as, ∀ b ∈ bs,
      (nameOf general key a = nameOf general key b ∧ Agree ignored a b ↔
        SameNamed general key ignored a b) := by
    intro a inA b inB
    rw [SameNamed, named a inA, named' b inB, Option.some.injEq]
  clear named named'
  induction as generalizing bs with
  | nil => rw [List.forall₂_nil_left_iff, List.forall₂_nil_left_iff]
  | cons a as ih =>
    cases bs with
    | nil => simp
    | cons b bs =>
      rw [List.forall₂_cons, List.forall₂_cons]
      apply and_congr
      · exact pointwise a mem_cons_self b mem_cons_self
      · exact ih fun x inAs y inBs =>
          pointwise x (mem_cons_of_mem _ inAs) y (mem_cons_of_mem _ inBs)

theorem record_empty_changes {note : List UInt8} {cs : List Change}
    (whole : (record ⟨[], false, note⟩ cs).truncated = false) :
    (record ⟨[], false, note⟩ cs).changes = cs := by
  obtain ⟨changes, truncated, _⟩ := record_limit ⟨[], false, note⟩ (Nat.zero_le _) rfl cs
  have short : ¬maxChanges < cs.length := by
    intro long
    have isTruncated := truncated.mpr (by simpa [Diff.count] using long)
    rw [whole] at isTruncated
    cases isTruncated
  rw [changes, nil_append, take_of_length_le (by omega)]

theorem record_empty_eq_nil {note : List UInt8} {cs : List Change} :
    (record ⟨[], false, note⟩ cs).changes = [] ↔ cs = [] := by
  rw [(record_limit ⟨[], false, note⟩ (Nat.zero_le _) rfl cs).1, nil_append]
  cases cs with
  | nil => simp
  | cons c cs => simp [maxChanges]

theorem applied_same {key : CStr} {live sup : Value} (distinct : KeysDistinct live)
    (whole : (jsondiffCompute general live sup key ignoreFields).truncated = false) :
    SameUpTo (jsondiffFieldListed ignoreFields.bytes)
      (Agree (jsondiffFieldListed ignoreFields.bytes))
      (namedPair general key live sup).isSome
      (applied general key (jsondiffCompute general live sup key ignoreFields) live) sup := by
  cases matched : namedPair general key live sup with
  | some names =>
    obtain ⟨liveNames, supNames⟩ := names
    obtain ⟨hasKey, as, bs, rfl, rfl, liveUsable, supUsable⟩ := namedPair_spec matched
    obtain ⟨isLive, liveDistinct, _⟩ := namesUsable_spec liveUsable
    obtain ⟨isSup, supDistinct, _⟩ := namesUsable_spec supUsable
    rw [jsondiffCompute_named matched] at whole ⊢
    have changes := record_empty_changes whole
    have note := (record_limit ⟨[], false, []⟩ (Nat.zero_le _) rfl
      (namedChanges (jsondiffFieldListed ignoreFields.bytes) liveNames supNames)).2.2
    rw [SameUpTo, Option.isSome_some, if_pos rfl]
    refine ⟨(patchedNamed (namedChanges (jsondiffFieldListed ignoreFields.bytes) liveNames supNames)
        liveNames ++ addedAt nameLabel (namedChanges
          (jsondiffFieldListed ignoreFields.bytes) liveNames supNames)).map Prod.snd, bs,
      (reordered liveNames supNames).map Prod.snd, ?_, rfl, ?_, ?_⟩
    · unfold applied
      dsimp only
      rw [liveUsable]
      dsimp only
      have inside : Below (namedChanges
          (jsondiffFieldListed ignoreFields.bytes) liveNames supNames) :=
        below_pairsChanges _ _ _ _ _
      rw [if_pos ⟨hasKey, note⟩, changes, replacement_of_below inside, Option.getD_none]
    · have values : supNames.map Prod.snd = bs := by
        rw [isSup, map_map]
        exact map_id bs
      rw [← values]
      exact (reordered_perm liveDistinct supDistinct).map Prod.snd
    · rw [List.forall₂_map_left_iff, List.forall₂_map_right_iff]
      exact patchedNamed_agree liveDistinct (namesUsable_distinct liveUsable distinct)
  | none =>
    rw [jsondiffCompute_indexed matched] at whole ⊢
    have changes := record_empty_changes whole
    have note := (record_limit ⟨[], false, unkeyedNote general key live sup⟩ (Nat.zero_le _) rfl
      (changesOf (jsondiffFieldListed ignoreFields.bytes) live sup)).2.2
    have agree := @patched_agree (jsondiffFieldListed ignoreFields.bytes) live sup distinct
    rw [SameUpTo, Option.isSome_none, if_neg Bool.false_ne_true]
    unfold applied
    split
    · rename_i items
      split
      · rename_i elements usable
        split
        · rename_i byName
          -- the live elements have names, so the supplied value is no array
          rw [note] at byName
          cases sup with
          | array bs =>
            rw [unkeyedNote, matched] at byName
            have noNote : ascii "(section)" = [] := by
              have note' := byName.2
              rw [if_neg (by simp [byName.1])] at note'
              exact note'
            exact absurd noNote (by decide +kernel)
          | _ =>
            rw [changes]
            exact Agree.refl _
        · rw [changes]
          exact agree
      · rw [changes]
        exact agree
    · rw [changes]
      exact agree

theorem changes_eq_nil {key : CStr} {live sup : Value}
    (distinct : KeysDistinct live) (distinct' : KeysDistinct sup) :
    (jsondiffCompute general live sup key ignoreFields).changes = [] ↔
      SameUpTo (jsondiffFieldListed ignoreFields.bytes)
        (SameNamed general key (jsondiffFieldListed ignoreFields.bytes))
        (namedPair general key live sup).isSome live sup := by
  cases matched : namedPair general key live sup with
  | none =>
    rw [jsondiffCompute_indexed matched, record_empty_eq_nil, SameUpTo,
      Option.isSome_none, if_neg Bool.false_ne_true]
    exact changesOf_eq_nil distinct distinct'
  | some names =>
    obtain ⟨liveNames, supNames⟩ := names
    obtain ⟨_, as, bs, rfl, rfl, liveUsable, supUsable⟩ := namedPair_spec matched
    obtain ⟨isLive, liveDistinct, liveNamed⟩ := namesUsable_spec liveUsable
    obtain ⟨isSup, supDistinct, supNamed⟩ := namesUsable_spec supUsable
    rw [jsondiffCompute_named matched, record_empty_eq_nil, SameUpTo,
      Option.isSome_some, if_pos rfl,
      namedChanges_eq_nil liveDistinct supDistinct (namesUsable_distinct liveUsable distinct)
        (namesUsable_distinct supUsable distinct')]
    rw [isLive, isSup]
    constructor
    · rintro ⟨others, perm, agree⟩
      have tagged : (others.map Prod.snd).map (fun b => (nameOf general key b, b)) = others := by
        rw [map_map]
        refine (map_congr_left ?_).trans (map_id others)
        intro pair mem
        obtain ⟨b, _, rfl⟩ := mem_map.mp (perm.mem_iff.mp mem)
        rfl
      have values : (others.map Prod.snd).Perm bs := by
        have mapped := perm.map Prod.snd
        rw [map_map] at mapped
        exact mapped.trans (List.Perm.of_eq (map_id bs))
      rw [← tagged] at agree
      refine ⟨as, bs, others.map Prod.snd, rfl, rfl, values, ?_⟩
      exact (forall₂_named liveNamed fun b mem =>
        supNamed b (values.mem_iff.mp mem)).mp agree
    · rintro ⟨_, _, others, same, same', perm, agree⟩
      cases same
      cases same'
      refine ⟨others.map fun b => (nameOf general key b, b), perm.map _, ?_⟩
      exact (forall₂_named liveNamed fun b mem =>
        supNamed b (perm.mem_iff.mp mem)).mpr agree

/-- A report that is not truncated leads from the live tree to the supplied
one, and a report is empty exactly when there is nothing to tell the trees
apart but ignored members and the order of elements matched by name. -/
theorem report_complete_and_sound (general : Double → List UInt8)
    (live sup : Value) (distinct : KeysDistinct live)
    (distinct' : KeysDistinct sup) (key ignoreFields : CStr) :
    ((jsondiffCompute general live sup key ignoreFields).truncated = false →
      SameUpTo (jsondiffFieldListed ignoreFields.bytes)
        (Agree (jsondiffFieldListed ignoreFields.bytes))
        (namedPair general key live sup).isSome
        (applied general key (jsondiffCompute general live sup key ignoreFields) live) sup) ∧
    ((jsondiffCompute general live sup key ignoreFields).count = 0 ↔
      SameUpTo (jsondiffFieldListed ignoreFields.bytes)
        (SameNamed general key (jsondiffFieldListed ignoreFields.bytes))
        (namedPair general key live sup).isSome live sup) := by
  constructor
  · exact applied_same distinct
  · rw [Diff.count, length_eq_zero_iff]
    exact changes_eq_nil distinct distinct'

end Reported

/-! ## Key fields that are ignored -/

def sectionDoc (members : List (CStr × Doc)) : Doc :=
  .arr [.obj members]

def textMember (key text : String) : CStr × Doc :=
  (CStr.ofString key, .str (CStr.ofString text))

theorem sectionDoc_distinct {members : List (CStr × Doc)} (keys : (members.map Prod.fst).Nodup)
    (texts : ∀ mem ∈ members, ∃ s, mem.2 = .str s) :
    KeysDistinct (sectionDoc members).value := by
  refine .array ?_
  intro item inItems
  rw [Doc.itemValues_eq_map, map_singleton, mem_singleton] at inItems
  rw [inItems, Doc.value]
  refine .object ?_ ?_
  · rw [Doc.memberValues_eq_map, map_map]
    exact keys
  · intro mem inMembers
    rw [Doc.memberValues_eq_map] at inMembers
    obtain ⟨original, inOriginal, rfl⟩ := mem_map.mp inMembers
    obtain ⟨s, isText⟩ := texts original inOriginal
    dsimp only
    rw [isText, Doc.value]
    exact .string s

/-- A renamed element, under a key that is not ignored. -/
theorem renamed_element_reported : ((jsondiffCompute (fun _ => [])
        (sectionDoc [textMember "name" "a"]).value
        (sectionDoc [textMember "name" "b"]).value "name"
        "state").truncated = false →
      SameUpTo (jsondiffFieldListed (CStr.ofString "state").bytes)
        (Agree (jsondiffFieldListed (CStr.ofString "state").bytes))
        (namedPair (fun _ => []) "name" (sectionDoc [textMember "name" "a"]).value
          (sectionDoc [textMember "name" "b"]).value).isSome
        (applied (fun _ => []) "name" (jsondiffCompute (fun _ => [])
            (sectionDoc [textMember "name" "a"]).value
            (sectionDoc [textMember "name" "b"]).value "name"
            "state")
          (sectionDoc [textMember "name" "a"]).value)
        (sectionDoc [textMember "name" "b"]).value) ∧
    ((jsondiffCompute (fun _ => []) (sectionDoc [textMember "name" "a"]).value
        (sectionDoc [textMember "name" "b"]).value "name"
        "state").count = 0 ↔
      SameUpTo (jsondiffFieldListed (CStr.ofString "state").bytes) (SameNamed (fun _ => []) "name"
          (jsondiffFieldListed (CStr.ofString "state").bytes))
        (namedPair (fun _ => []) "name" (sectionDoc [textMember "name" "a"]).value
          (sectionDoc [textMember "name" "b"]).value).isSome
        (sectionDoc [textMember "name" "a"]).value
        (sectionDoc [textMember "name" "b"]).value) :=
  report_complete_and_sound (fun _ => []) (sectionDoc [textMember "name" "a"]).value
    (sectionDoc [textMember "name" "b"]).value
    (sectionDoc_distinct (by simp) (by simp [textMember]))
    (sectionDoc_distinct (by simp) (by simp [textMember]))
    "name" "state"

def CompleteAndSound (general : Double → List UInt8)
    (element : CStr → (CStr → Bool) → Value → Value → Prop) : Prop :=
  ∀ live sup : Value, KeysDistinct live → KeysDistinct sup → ∀ key ignoreFields : CStr,
      ((jsondiffCompute general live sup key ignoreFields).truncated = false →
        SameUpTo (jsondiffFieldListed ignoreFields.bytes)
          (element key (jsondiffFieldListed ignoreFields.bytes))
          (namedPair general key live sup).isSome
          (applied general key (jsondiffCompute general live sup key ignoreFields) live) sup) ∧
      ((jsondiffCompute general live sup key ignoreFields).count = 0 ↔
        SameUpTo (jsondiffFieldListed ignoreFields.bytes)
          (element key (jsondiffFieldListed ignoreFields.bytes))
          (namedPair general key live sup).isSome live sup)

theorem singleton_elements {ignored : CStr → Bool}
    {element : Value → Value → Prop} {a b : Value}
    (same : SameUpTo ignored element true a (.array [b])) :
    ∃ x, a = .array [x] ∧ element x b := by
  rw [SameUpTo, if_pos rfl] at same
  obtain ⟨as, bs, others, isA, isB, perm, agree⟩ := same
  cases isB
  rw [perm_singleton.mp perm] at agree
  cases agree with
  | cons first rest =>
    cases rest
    exact ⟨_, isA, first⟩

/-- With an ignored key field the same notion does not serve both halves.  Two
elements that differ only in it agree, and are reported; a patched element has
the name that its own ignored field gives it. -/
theorem names_count_ignored_fields :
    ¬CompleteAndSound (fun _ => []) (fun _ ignored => Agree ignored) ∧
      ¬CompleteAndSound (fun _ => []) (SameNamed fun _ => []) := by
  constructor
  · intro claimed
    have whole := (claimed (sectionDoc [textMember "name" "a"]).value
      (sectionDoc [textMember "name" "b"]).value
      (sectionDoc_distinct (by simp) (by simp [textMember]))
      (sectionDoc_distinct (by simp) (by simp [textMember]))
      (CStr.ofString "name") (CStr.ofString "name")).2
    have named : (namedPair (fun _ => []) (CStr.ofString "name")
        (sectionDoc [textMember "name" "a"]).value
        (sectionDoc [textMember "name" "b"]).value).isSome = true := by
      decide +kernel
    have reported : (jsondiffCompute (fun _ => []) (sectionDoc [textMember "name" "a"]).value
        (sectionDoc [textMember "name" "b"]).value (CStr.ofString "name")
        (CStr.ofString "name")).count = 2 := by
      decide +kernel
    have listed : jsondiffFieldListed (CStr.ofString "name").bytes
        (CStr.ofString "name") = true := by
      decide +kernel
    rw [named, reported] at whole
    have zero := whole.mpr (by
      rw [SameUpTo, if_pos rfl]
      refine ⟨_, _, _, rfl, rfl, List.Perm.refl _, .cons ?_ .nil⟩
      have other : ∀ key text, jsondiffFieldListed (CStr.ofString "name").bytes key = false →
          findMember key (Doc.memberValues [textMember "name" text]) =
            none := by
        intro key text kept
        apply findMember_absent
        rw [Doc.memberValues_eq_map, map_singleton, map_singleton, mem_singleton]
        rintro rfl
        exact absurd (kept.symm.trans listed) Bool.false_ne_true
      refine .object ?_ ?_
      · intro key kept
        rw [other key "a" kept, other key "b" kept]
      · intro key x y kept found
        rw [other key "a" kept] at found
        cases found)
    cases zero
  · intro claimed
    have whole := (claimed (sectionDoc [textMember "x" "a,b", textMember "y" "c"]).value
      (sectionDoc [textMember "x" "a", textMember "y" "b,c"]).value
      (sectionDoc_distinct (by decide +kernel) (by simp [textMember]))
      (sectionDoc_distinct (by decide +kernel) (by simp [textMember]))
      (CStr.ofString "x,y") (CStr.ofString "x")).1 (by decide +kernel)
    have named : (namedPair (fun _ => []) (CStr.ofString "x,y")
        (sectionDoc [textMember "x" "a,b", textMember "y" "c"]).value
        (sectionDoc [textMember "x" "a", textMember "y" "b,c"]).value).isSome =
          true := by
      decide +kernel
    rw [named] at whole
    obtain ⟨x, isX, sameName, _⟩ := singleton_elements whole
    have differs : (asArray (some (applied (fun _ => []) (CStr.ofString "x,y")
          (jsondiffCompute (fun _ => [])
            (sectionDoc [textMember "x" "a,b", textMember "y" "c"]).value
            (sectionDoc [textMember "x" "a", textMember "y" "b,c"]).value
            (CStr.ofString "x,y") (CStr.ofString "x"))
          (sectionDoc [textMember "x" "a,b", textMember "y" "c"]).value))).map
            (List.map (elementName (fun _ => []) (CStr.ofString "x,y"))) =
        some [some ((CStr.ofString "a,b,b,c").bytes)] := by
      decide +kernel
    rw [isX, asArray, Option.map_some, map_singleton, sameName] at differs
    revert differs
    decide +kernel

end Cix.Json
