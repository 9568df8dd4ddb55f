import Cix.Json.Equivalence

/-!
# Applying a list of changes

A comparison reports how a supplied tree differs from the live one.  Applying
what it reports, each change at its place, turns the live tree into the
supplied one.  Objects and arrays matched by name are lists of values under
distinct keys, and what is proved of such lists serves both.
-/

namespace Cix.Json

open Cix.Lib List

/-! ## Applying changes -/

/-- The changes below a step, at their places from there on. -/
def under (step : Step) (cs : List Change) : List Change :=
  cs.filterMap fun c =>
    match c.place with
    | [] => none
    | first :: rest => if first = step then some { c with place := rest } else none

/-- The value that takes the place of the one at hand. -/
def replacement (cs : List Change) : Option Value :=
  cs.findSome? fun c =>
    if c.place = [] ∧ c.op = .replace then c.toValue else none

/-- The value at hand is taken out. -/
def removes (cs : List Change) : Bool :=
  cs.any fun c => c.place = [] ∧ c.op = .remove

def addedAt {κ : Type*} (label : Step → Option κ) (cs : List Change) : List (κ × Value) :=
  cs.filterMap fun c =>
    match c.place, c.op, c.toValue with
    | [step], .add, some v => (label step).map fun key => (key, v)
    | _, _, _ => none

def fieldLabel : Step → Option CStr
  | .field key => some key
  | _ => none

def indexLabel : Step → Option Nat
  | .index i => some i
  | _ => none

def nameLabel : Step → Option (List UInt8)
  | .named name => some name
  | _ => none

mutual

def patched (cs : List Change) : Value → Value
  | .object members =>
    (replacement cs).getD (.object (patchedMembers cs members ++ addedAt fieldLabel cs))
  | .array items =>
    (replacement cs).getD (.array (patchedItems cs 0 items ++ (addedAt indexLabel cs).map Prod.snd))
  | v => (replacement cs).getD v

def patchedMembers (cs : List Change) : List (CStr × Value) → List (CStr × Value)
  | [] => []
  | (key, v) :: rest =>
    (if removes (under (.field key) cs) then []
      else [(key, patched (under (.field key) cs) v)]) ++
      patchedMembers cs rest

def patchedItems (cs : List Change) (i : Nat) : List Value → List Value
  | [] => []
  | v :: rest =>
    (if removes (under (.index i) cs) then []
      else [patched (under (.index i) cs) v]) ++
      patchedItems cs (i + 1) rest

end

def patchedNamed (cs : List Change) (elements : List (List UInt8 × Value)) :
    List (List UInt8 × Value) :=
  elements.filterMap fun element =>
    let inside := under (.named element.1) cs
    if removes inside then none else some (element.1, patched inside element.2)

/-- The outermost value with a reported list of changes applied.  The report
says whether its elements are named by the array key. -/
def applied (general : Double → List UInt8) (key : CStr) (d : Diff) (live : Value) : Value :=
  match live with
  | .array items =>
    match namesUsable general key items with
    | some elements =>
      if key ≠ CStr.empty ∧ d.unkeyedPath = [] then
        (replacement d.changes).getD (.array ((patchedNamed d.changes elements ++
            addedAt nameLabel d.changes).map Prod.snd))
      else patched d.changes live
    | none => patched d.changes live
  | live => patched d.changes live

/-! ## The changes below a step -/

@[simp]
theorem under_nil (step : Step) : under step [] = [] := rfl

theorem under_append (step : Step) (cs ds : List Change) :
    under step (cs ++ ds) = under step cs ++ under step ds :=
  filterMap_append

theorem under_inside (step : Step) (cs : List Change) :
    under step (cs.map (Change.inside step)) = cs := by
  induction cs with
  | nil => rfl
  | cons c cs ih =>
    rw [map_cons, under, filterMap_cons]
    simp only [Change.inside, if_true]
    exact congrArg (c :: ·) ih

theorem under_inside_other {step other : Step} (apart : other ≠ step)
    (cs : List Change) : under step (cs.map (Change.inside other)) = [] := by
  rw [under, filterMap_eq_nil_iff]
  intro c mem
  obtain ⟨original, _, rfl⟩ := mem_map.mp mem
  simp only [Change.inside]
  exact if_neg apart

/-- No change is of the value at hand itself. -/
def Below (cs : List Change) : Prop :=
  ∀ c ∈ cs, c.place ≠ []

variable {cs : List Change}

theorem replacement_of_below (below : Below cs) : replacement cs = none := by
  rw [replacement, findSome?_eq_none_iff]
  intro c mem
  rw [if_neg fun own => below c mem own.1]

theorem below_inside_map (step : Step) (cs : List Change) :
    Below (cs.map (Change.inside step)) := by
  intro c mem
  obtain ⟨original, _, rfl⟩ := mem_map.mp mem
  exact cons_ne_nil _ _

theorem Below.append {ds : List Change} (first : Below cs)
    (second : Below ds) : Below (cs ++ ds) := by
  intro c mem
  rcases mem_append.mp mem with inFirst | inSecond
  · exact first c inFirst
  · exact second c inSecond

theorem below_newItems (i : Nat) (sup : List Value) : Below (newItems i sup) := by
  induction sup generalizing i with
  | nil =>
    intro c mem
    cases mem
  | cons b sup ih =>
    intro c mem
    rcases mem_cons.mp mem with rfl | later
    · exact cons_ne_nil _ _
    · exact ih (i + 1) c later

theorem below_oldItems (i : Nat) (live : List Value) : Below (oldItems i live) := by
  induction live generalizing i with
  | nil =>
    intro c mem
    cases mem
  | cons a live ih =>
    intro c mem
    rcases mem_cons.mp mem with rfl | later
    · exact cons_ne_nil _ _
    · exact ih (i + 1) c later

theorem below_itemChanges (ignored : CStr → Bool) (i : Nat)
    (live sup : List Value) : Below (itemChanges ignored i live sup) := by
  induction live generalizing i sup with
  | nil =>
    rw [itemChanges]
    exact below_newItems i sup
  | cons a live ih =>
    cases sup with
    | nil =>
      rw [itemChanges]
      exact below_oldItems i (a :: live)
    | cons b sup =>
      rw [itemChanges]
      exact (below_inside_map _ _).append (ih (i + 1) sup)

/-! ## Values under distinct keys -/

section Pairs

variable {κ : Type*} [DecidableEq κ]

def findKey (key : κ) (pairs : List (κ × Value)) : Option Value :=
  (pairs.find? fun pair => pair.1 = key).map Prod.snd

@[simp]
theorem findKey_nil (key : κ) : findKey key [] = none := rfl

theorem findKey_cons (key : κ) (pair : κ × Value) (rest : List (κ × Value)) :
    findKey key (pair :: rest) =
      if pair.1 = key then some pair.2 else findKey key rest := by
  rw [findKey, find?_cons]
  by_cases same : pair.1 = key
  · simp [same]
  · simp [same, findKey]

theorem findMember_eq_findKey (key : CStr) (members : List (CStr × Value)) :
    findMember key members = findKey key members := by
  induction members with
  | nil => rfl
  | cons mem rest ih => rw [findMember, findKey_cons, ih]

theorem mem_of_findKey {key : κ} {v : Value} {pairs : List (κ × Value)}
    (found : findKey key pairs = some v) : (key, v) ∈ pairs := by
  induction pairs with
  | nil => cases found
  | cons pair rest ih =>
    rw [findKey_cons] at found
    split at found
    · rename_i same
      cases found
      rw [← same]
      exact mem_cons_self
    · exact mem_cons_of_mem _ (ih found)

theorem findKey_of_mem {key : κ} {v : Value} {pairs : List (κ × Value)}
    (distinct : (pairs.map Prod.fst).Nodup) (mem : (key, v) ∈ pairs) :
    findKey key pairs = some v := by
  induction pairs with
  | nil => cases mem
  | cons pair rest ih =>
    rw [map_cons, nodup_cons] at distinct
    rw [findKey_cons]
    rcases mem_cons.mp mem with rfl | later
    · rw [if_pos rfl]
    · have other : pair.1 ≠ key := by
        rintro rfl
        exact distinct.1 (mem_map.mpr ⟨_, later, rfl⟩)
      rw [if_neg other]
      exact ih distinct.2 later

theorem findKey_eq_none {key : κ} {pairs : List (κ × Value)} :
    findKey key pairs = none ↔ key ∉ pairs.map Prod.fst := by
  induction pairs with
  | nil => simp
  | cons pair rest ih =>
    rw [findKey_cons, map_cons, mem_cons, not_or, ← ih]
    by_cases same : pair.1 = key
    · simp [same]
    · rw [if_neg same]
      exact ⟨fun missing => ⟨Ne.symm same, missing⟩, And.right⟩

theorem findKey_append (key : κ) (first second : List (κ × Value)) :
    findKey key (first ++ second) = (findKey key first).or (findKey key second) := by
  induction first with
  | nil => rfl
  | cons pair rest ih =>
    rw [cons_append, findKey_cons, findKey_cons]
    split
    · rfl
    · exact ih

theorem findKey_filterMap {pairs : List (κ × Value)}
    (distinct : (pairs.map Prod.fst).Nodup) (f : κ × Value → Option Value)
    (key : κ) :
    findKey key (pairs.filterMap fun pair => (f pair).map fun v => (pair.1, v)) =
      (findKey key pairs).bind fun v => f (key, v) := by
  induction pairs with
  | nil => rfl
  | cons pair rest ih =>
    rw [map_cons, nodup_cons] at distinct
    have later := ih distinct.2
    rw [filterMap_cons, findKey_cons]
    by_cases same : pair.1 = key
    · have absent : findKey key rest = none := by
        rw [findKey_eq_none, ← same]
        exact distinct.1
      rw [absent] at later
      rw [if_pos same]
      cases outcome : f pair with
      | none =>
        rw [← same] at later ⊢
        simp [outcome, later]
      | some v =>
        rw [← same]
        simp [outcome, findKey_cons]
    · rw [if_neg same, ← later]
      cases f pair with
      | none => rfl
      | some v =>
        simp only [Option.map_some]
        rw [findKey_cons, if_neg same]

theorem findKey_filter {pairs : List (κ × Value)} {kept : κ → Bool} {key : κ} :
    findKey key (pairs.filter fun pair => kept pair.1) =
      if kept key then findKey key pairs else none := by
  induction pairs with
  | nil => simp
  | cons pair rest ih =>
    rw [filter_cons]
    by_cases same : pair.1 = key
    · rw [findKey_cons, if_pos same, ← same]
      cases keeps : kept pair.1 with
      | true => simp [findKey_cons]
      | false =>
        rw [same] at keeps
        simpa [same, keeps] using ih
    · rw [findKey_cons, if_neg same, ← ih]
      cases kept pair.1 with
      | true => simp [findKey_cons, same]
      | false => simp

/-! ## Comparing values under distinct keys -/

def pairChange (ignored : CStr → Bool) (skipped : κ → Bool)
    (sup : List (κ × Value)) (pair : κ × Value) : List Change :=
  if skipped pair.1 then []
  else
    match findKey pair.1 sup with
    | none => [⟨[], .remove, some pair.2, none⟩]
    | some b => changesOf ignored pair.2 b

/-- What is supplied under a key that the live pairs lack. -/
def newPairs (skipped : κ → Bool) (live sup : List (κ × Value)) : List (κ × Value) :=
  sup.filter fun pair => !skipped pair.1 && (findKey pair.1 live).isNone

def pairsChanges (step : κ → Step) (ignored : CStr → Bool)
    (skipped : κ → Bool) (live sup : List (κ × Value)) : List Change :=
  (live.flatMap fun pair =>
    (pairChange ignored skipped sup pair).map (Change.inside (step pair.1))) ++
    (newPairs skipped live sup).map fun pair =>
      ⟨[step pair.1], .add, none, some pair.2⟩

def patchedPairs (step : κ → Step) (cs : List Change)
    (pairs : List (κ × Value)) : List (κ × Value) :=
  pairs.filterMap fun pair =>
    let inside := under (step pair.1) cs
    if removes inside then none else some (pair.1, patched inside pair.2)

theorem patchedMembers_eq (cs : List Change) (members : List (CStr × Value)) :
    patchedMembers cs members = patchedPairs .field cs members := by
  induction members with
  | nil =>
    rw [patchedMembers]
    rfl
  | cons mem rest ih =>
    obtain ⟨key, v⟩ := mem
    rw [patchedMembers, ih, patchedPairs, patchedPairs, filterMap_cons]
    by_cases gone : removes (under (.field key) cs) = true
    · rw [if_pos gone]
      simp only [if_pos gone]
      rfl
    · rw [if_neg gone]
      simp only [if_neg gone]
      rfl

theorem memberChanges_eq (ignored : CStr → Bool) (live sup : List (CStr × Value)) :
    memberChanges ignored live sup = live.flatMap fun pair =>
        (pairChange ignored ignored sup pair).map (Change.inside (.field pair.1)) := by
  induction live with
  | nil => rw [memberChanges, flatMap_nil]
  | cons mem rest ih =>
    obtain ⟨key, a⟩ := mem
    rw [memberChanges, ih, flatMap_cons, pairChange, findMember_eq_findKey]
    cases ignored key with
    | true => rfl
    | false =>
      simp only [Bool.false_eq_true, if_false]
      cases findKey key sup <;> rfl

theorem newMembers_eq (ignored : CStr → Bool) (live sup : List (CStr × Value)) :
    newMembers ignored live sup = (newPairs ignored live sup).map fun pair =>
        ⟨[.field pair.1], .add, none, some pair.2⟩ := by
  induction sup with
  | nil => rfl
  | cons mem rest ih =>
    obtain ⟨key, b⟩ := mem
    rw [newMembers, ih, newPairs, newPairs, filter_cons, findMember_eq_findKey]
    cases ignored key <;> cases findKey key live <;> simp

theorem changesOf_object (ignored : CStr → Bool) (live sup : List (CStr × Value)) :
    changesOf ignored (.object live) (.object sup) =
      pairsChanges .field ignored ignored live sup := by
  rw [changesOf, memberChanges_eq, newMembers_eq, pairsChanges]

theorem below_pairsChanges (step : κ → Step) (ignored : CStr → Bool)
    (skipped : κ → Bool) (live sup : List (κ × Value)) :
    Below (pairsChanges step ignored skipped live sup) := by
  apply Below.append
  · intro c mem
    obtain ⟨pair, _, inside⟩ := mem_flatMap.mp mem
    exact below_inside_map _ _ c inside
  · intro c mem
    obtain ⟨pair, _, rfl⟩ := mem_map.mp mem
    exact cons_ne_nil _ _

theorem changesOf_own {ignored : CStr → Bool} {live sup : Value} {c : Change}
    (mem : c ∈ changesOf ignored live sup) (own : c.place = []) :
    c.op = .replace := by
  have single : c ∈ (if live.kind = sup.kind ∧ valuesEqual live sup = true
      then [] else [(⟨[], .replace, some live, some sup⟩ : Change)]) →
      c.op = .replace := by
    intro among
    split at among
    · cases among
    · rw [mem_singleton.mp among]
  cases live with
  | object live =>
    cases sup with
    | object sup =>
      rw [changesOf_object] at mem
      exact absurd own (below_pairsChanges _ _ _ _ _ c mem)
    | _ => exact single mem
  | array live =>
    cases sup with
    | array sup =>
      rw [changesOf] at mem
      exact absurd own (below_itemChanges _ _ _ _ c mem)
    | _ => exact single mem
  | _ => cases sup <;> exact single mem

theorem removes_changesOf (ignored : CStr → Bool) (live sup : Value) :
    removes (changesOf ignored live sup) = false := by
  rw [removes, any_eq_false]
  intro c mem
  rw [decide_eq_true_eq]
  rintro ⟨own, isRemove⟩
  rw [changesOf_own mem own] at isRemove
  cases isRemove

theorem removes_pairChange (ignored : CStr → Bool) (skipped : κ → Bool)
    (sup : List (κ × Value)) (pair : κ × Value) :
    removes (pairChange ignored skipped sup pair) =
      (!skipped pair.1 && (findKey pair.1 sup).isNone) := by
  rw [pairChange]
  cases skipped pair.1 with
  | true => rfl
  | false =>
    simp only [Bool.false_eq_true, if_false]
    cases findKey pair.1 sup with
    | none => rfl
    | some b => exact removes_changesOf ignored pair.2 b

variable {step : κ → Step} {label : Step → Option κ}

theorem under_pairsChanges (labels : ∀ key, label (step key) = some key)
    (ignored : CStr → Bool) (skipped : κ → Bool) {live : List (κ × Value)}
    (distinct : (live.map Prod.fst).Nodup) (sup : List (κ × Value))
    {pair : κ × Value} (mem : pair ∈ live) :
    under (step pair.1) (pairsChanges step ignored skipped live sup) =
      pairChange ignored skipped sup pair := by
  have apart : ∀ {x y : κ}, x ≠ y → step x ≠ step y := by
    intro x y different same
    apply different
    have labelled := congrArg label same
    rw [labels, labels] at labelled
    exact Option.some.inj labelled
  have noneNew : under (step pair.1) ((newPairs skipped live sup).map fun p =>
      (⟨[step p.1], .add, none, some p.2⟩ : Change)) = [] := by
    rw [under, filterMap_eq_nil_iff]
    intro c isNew
    obtain ⟨p, inNew, rfl⟩ := mem_map.mp isNew
    have missing := (mem_filter.mp inNew).2
    rw [Bool.and_eq_true, Option.isNone_iff_eq_none, findKey_eq_none] at missing
    apply if_neg
    apply apart
    rintro same
    apply missing.2
    rw [same]
    exact mem_map_of_mem (f := Prod.fst) mem
  rw [pairsChanges, under_append, noneNew, append_nil]
  clear noneNew
  induction live with
  | nil => cases mem
  | cons head rest ih =>
    rw [map_cons, nodup_cons] at distinct
    rw [flatMap_cons, under_append]
    rcases mem_cons.mp mem with rfl | later
    · rw [under_inside]
      have others : under (step pair.1) (rest.flatMap fun p =>
          (pairChange ignored skipped sup p).map (Change.inside (step p.1))) = [] := by
        rw [under, filterMap_eq_nil_iff]
        intro c inRest
        obtain ⟨p, inPairs, inside⟩ := mem_flatMap.mp inRest
        have differs : p.1 ≠ pair.1 := by
          intro same
          exact distinct.1 (same ▸ mem_map_of_mem (f := Prod.fst) inPairs)
        have nothing := under_inside_other (apart differs) (pairChange ignored skipped sup p)
        rw [under, filterMap_eq_nil_iff] at nothing
        exact nothing c inside
      rw [others, append_nil]
    · have differs : head.1 ≠ pair.1 := by
        intro same
        exact distinct.1 (same ▸ mem_map_of_mem (f := Prod.fst) later)
      rw [under_inside_other (apart differs), nil_append]
      exact ih distinct.2 later

omit [DecidableEq κ] in
theorem addedAt_append (cs ds : List Change) :
    addedAt label (cs ++ ds) = addedAt label cs ++ addedAt label ds :=
  filterMap_append

omit [DecidableEq κ] in
theorem addedAt_inside (step : Step)
    (own : ∀ c ∈ cs, c.place = [] → c.op ≠ .add) :
    addedAt label (cs.map (Change.inside step)) = [] := by
  rw [addedAt, filterMap_eq_nil_iff]
  intro c mem
  obtain ⟨original, inList, rfl⟩ := mem_map.mp mem
  have notAdded := own original inList
  obtain ⟨place, op, fromValue, toValue⟩ := original
  cases place with
  | nil =>
    cases op with
    | add => exact absurd rfl (notAdded rfl)
    | _ => rfl
  | cons first rest => rfl

theorem addedAt_pairsChanges (labels : ∀ key, label (step key) = some key)
    (ignored : CStr → Bool) (skipped : κ → Bool)
    (live sup : List (κ × Value)) :
    addedAt label (pairsChanges step ignored skipped live sup) =
      newPairs skipped live sup := by
  have nested : addedAt label (live.flatMap fun pair =>
      (pairChange ignored skipped sup pair).map (Change.inside (step pair.1))) = [] := by
    rw [addedAt, filterMap_eq_nil_iff]
    intro c mem
    obtain ⟨pair, _, inside⟩ := mem_flatMap.mp mem
    have none' : addedAt label ((pairChange ignored skipped sup pair).map
        (Change.inside (step pair.1))) = [] := by
      apply addedAt_inside
      intro original inList own isAdd
      rw [pairChange] at inList
      split at inList
      · cases inList
      · split at inList
        · rw [mem_singleton.mp inList] at isAdd
          cases isAdd
        · rw [changesOf_own inList own] at isAdd
          cases isAdd
    rw [addedAt, filterMap_eq_nil_iff] at none'
    exact none' c inside
  rw [pairsChanges, addedAt_append, nested, nil_append, addedAt, filterMap_map]
  induction newPairs skipped live sup with
  | nil => rfl
  | cons pair rest ih =>
    rw [filterMap_cons, ih]
    simp [labels]

end Pairs

/-! ## No changes leave a value as it is -/

theorem patchedItems_nil {items : List Value}
    (below : ∀ item ∈ items, patched [] item = item) (i : Nat) :
    patchedItems [] i items = items := by
  induction items generalizing i with
  | nil => rw [patchedItems]
  | cons item rest ih =>
    rw [patchedItems, ih fun x mem =>
      below x (mem_cons_of_mem _ mem)]
    rw [under_nil, below item mem_cons_self]
    rfl

theorem patched_nil (v : Value) : patched [] v = v := by
  induction v using Value.treeInduction with
  | null | bool | number | string =>
    rw [patched]
    · rfl
    all_goals
      intro _ same
      cases same
  | array items ih =>
    rw [patched, patchedItems_nil ih]
    simp [replacement, addedAt]
  | object members ih =>
    have kept : patchedMembers [] members = members := by
      induction members with
      | nil => rw [patchedMembers]
      | cons mem rest later =>
        rw [patchedMembers, later fun m inRest =>
          ih m (mem_cons_of_mem _ inRest)]
        rw [under_nil, ih mem mem_cons_self]
        rfl
    rw [patched, kept]
    simp [replacement, addedAt]

/-! ## Pairs with their changes applied -/

variable {ignored : CStr → Bool}

section PatchedPairs

variable {κ : Type*} [DecidableEq κ] {step : κ → Step}
  {label : Step → Option κ}

def pairResult (ignored : CStr → Bool) (skipped : κ → Bool)
    (sup : List (κ × Value)) (pair : κ × Value) : Option Value :=
  if skipped pair.1 then some pair.2
  else
    (findKey pair.1 sup).map fun b =>
      patched (changesOf ignored pair.2 b) pair.2

theorem patchedPairs_changes (labels : ∀ key, label (step key) = some key)
    (ignored : CStr → Bool) (skipped : κ → Bool) {live : List (κ × Value)}
    (distinct : (live.map Prod.fst).Nodup) (sup : List (κ × Value)) :
    patchedPairs step (pairsChanges step ignored skipped live sup) live = live.filterMap fun pair =>
        (pairResult ignored skipped sup pair).map fun v => (pair.1, v) := by
  rw [patchedPairs]
  apply filterMap_congr
  intro pair mem
  dsimp only
  rw [under_pairsChanges labels ignored skipped distinct sup mem,
    removes_pairChange, pairResult, pairChange]
  cases skipped pair.1 with
  | true => simp [patched_nil]
  | false => cases findKey pair.1 sup <;> simp

theorem findKey_newPairs {skipped : κ → Bool} {live sup : List (κ × Value)}
    {key : κ} :
    findKey key (newPairs skipped live sup) =
      if !skipped key && (findKey key live).isNone then findKey key sup
      else none :=
  @findKey_filter κ _ sup (fun k => !skipped k && (findKey k live).isNone) key

end PatchedPairs

theorem patched_object_agree {live sup : List (CStr × Value)} (distinct : (live.map Prod.fst).Nodup)
    (below : ∀ mem ∈ live, ∀ b, findMember mem.1 sup = some b →
      Agree ignored (patched (changesOf ignored mem.2 b) mem.2) b) :
    Agree ignored (patched (changesOf ignored (.object live) (.object sup))
        (.object live)) (.object sup) := by
  have labels : ∀ key, fieldLabel (.field key) = some key := fun _ => rfl
  have members := findKey_filterMap distinct (pairResult ignored ignored sup)
  rw [patched, changesOf_object,
    replacement_of_below (below_pairsChanges _ _ _ _ _), Option.getD_none,
    patchedMembers_eq, patchedPairs_changes labels ignored ignored distinct,
    addedAt_pairsChanges labels]
  refine .object ?_ ?_
  · intro key named
    rw [findMember_eq_findKey, findMember_eq_findKey, findKey_append,
      members, findKey_newPairs, named]
    cases findKey key live with
    | none => simp
    | some a => simp [pairResult, named]
  · intro key x b named found found'
    rw [findMember_eq_findKey, findKey_append, members, findKey_newPairs, named] at found
    have supplied := found'
    rw [findMember_eq_findKey] at supplied
    rw [supplied] at found
    cases inLive : findKey key live with
    | none =>
      rw [inLive] at found
      have same : b = x := by simpa using found
      rw [same]
      exact Agree.refl x
    | some a =>
      rw [inLive] at found
      have same : patched (changesOf ignored a b) a = x := by
        simpa [pairResult, named, supplied] using found
      rw [← same]
      exact below (key, a) (mem_of_findKey inLive) b found'

/-! ## Items with their changes applied -/

def itemChange (ignored : CStr → Bool) : Option Value → Option Value → List Change
  | some a, some b => changesOf ignored a b
  | some a, none => [⟨[], .remove, some a, none⟩]
  | none, some b => [⟨[], .add, none, some b⟩]
  | none, none => []

theorem under_cons_index (i : Nat) (op : Op) (fromValue toValue : Option Value)
    (k : Nat) (cs : List Change) :
    under (.index k) (⟨[.index i], op, fromValue, toValue⟩ :: cs) =
      (if i = k then [⟨[], op, fromValue, toValue⟩] else []) ++ under (.index k) cs := by
  rw [under, filterMap_cons]
  by_cases same : i = k
  · simp [same, under]
  · simp [same, under]

theorem under_newItems (i j : Nat) (sup : List Value) (ignored : CStr → Bool) :
    under (.index (i + j)) (newItems i sup) = itemChange ignored none sup[j]? ∧
      ∀ k < i, under (.index k) (newItems i sup) = [] := by
  induction sup generalizing i j with
  | nil => exact ⟨rfl, fun _ _ => rfl⟩
  | cons b sup ih =>
    constructor
    · rw [newItems, under_cons_index]
      cases j with
      | zero =>
        rw [Nat.add_zero, if_pos rfl, (ih (i + 1) 0).2 i (by omega)]
        rfl
      | succ j =>
        have later := (ih (i + 1) j).1
        rw [if_neg (by omega), nil_append, getElem?_cons_succ, ← later, Nat.add_right_comm]
        rfl
    · intro k before
      rw [newItems, under_cons_index, if_neg (by omega), nil_append]
      exact (ih (i + 1) 0).2 k (by omega)

theorem under_oldItems (i j : Nat) (live : List Value) (ignored : CStr → Bool) :
    under (.index (i + j)) (oldItems i live) = itemChange ignored live[j]? none ∧
      ∀ k < i, under (.index k) (oldItems i live) = [] := by
  induction live generalizing i j with
  | nil => exact ⟨rfl, fun _ _ => rfl⟩
  | cons a live ih =>
    constructor
    · rw [oldItems, under_cons_index]
      cases j with
      | zero =>
        rw [Nat.add_zero, if_pos rfl, (ih (i + 1) 0).2 i (by omega)]
        rfl
      | succ j =>
        have later := (ih (i + 1) j).1
        rw [if_neg (by omega), nil_append, getElem?_cons_succ, ← later, Nat.add_right_comm]
        rfl
    · intro k before
      rw [oldItems, under_cons_index, if_neg (by omega), nil_append]
      exact (ih (i + 1) 0).2 k (by omega)

theorem under_itemChanges (ignored : CStr → Bool) (i j : Nat) (live sup : List Value) :
    under (.index (i + j)) (itemChanges ignored i live sup) = itemChange ignored live[j]? sup[j]? ∧
      ∀ k < i, under (.index k) (itemChanges ignored i live sup) = [] := by
  induction live generalizing i j sup with
  | nil =>
    rw [itemChanges]
    exact under_newItems i j sup ignored
  | cons a live ih =>
    cases sup with
    | nil =>
      rw [itemChanges]
      exact under_oldItems i j (a :: live) ignored
    | cons b sup =>
      have apart : ∀ k, k ≠ i → Step.index i ≠ Step.index k := by
        intro k different same
        cases same
        exact different rfl
      constructor
      · rw [itemChanges, under_append]
        cases j with
        | zero =>
          rw [Nat.add_zero, under_inside, (ih (i + 1) 0 sup).2 i (by omega), append_nil]
          rfl
        | succ j =>
          have later := (ih (i + 1) j sup).1
          rw [under_inside_other (apart _ (by omega)), nil_append,
            getElem?_cons_succ, getElem?_cons_succ, ← later,
            Nat.add_right_comm]
          rfl
      · intro k before
        rw [itemChanges, under_append, under_inside_other (apart k (by omega)), nil_append]
        exact (ih (i + 1) 0 sup).2 k (by omega)

theorem addedAt_newItems (i : Nat) (sup : List Value) :
    (addedAt indexLabel (newItems i sup)).map Prod.snd = sup := by
  induction sup generalizing i with
  | nil => rfl
  | cons b sup ih =>
    rw [newItems, addedAt, filterMap_cons]
    exact congrArg (b :: ·) (ih (i + 1))

theorem addedAt_oldItems (i : Nat) (live : List Value) :
    addedAt indexLabel (oldItems i live) = [] := by
  induction live generalizing i with
  | nil => rfl
  | cons a live ih =>
    rw [oldItems, addedAt, filterMap_cons]
    exact ih (i + 1)

theorem addedAt_itemChanges (ignored : CStr → Bool) (i : Nat) (live sup : List Value) :
    (addedAt indexLabel (itemChanges ignored i live sup)).map Prod.snd = sup.drop live.length := by
  induction live generalizing i sup with
  | nil =>
    rw [itemChanges, addedAt_newItems]
    rfl
  | cons a live ih =>
    cases sup with
    | nil =>
      rw [itemChanges, addedAt_oldItems]
      rfl
    | cons b sup =>
      have own : ∀ c ∈ changesOf ignored a b, c.place = [] → c.op ≠ .add := by
        intro c mem place isAdd
        rw [changesOf_own mem place] at isAdd
        cases isAdd
      rw [itemChanges, addedAt_append, addedAt_inside _ own, nil_append]
      exact ih (i + 1) sup

theorem patchedItems_agree {ignored : CStr → Bool}
    {live : List Value} {i : Nat} {sup : List Value}
    (changes : ∀ j < live.length, under (.index (i + j)) cs = itemChange ignored live[j]? sup[j]?)
    (below : ∀ a ∈ live, ∀ b ∈ sup, Agree ignored (patched (changesOf ignored a b) a) b) :
    List.Forall₂ (Agree ignored) (patchedItems cs i live ++ sup.drop live.length) sup := by
  induction live generalizing i sup with
  | nil =>
    rw [patchedItems]
    exact List.forall₂_same.mpr fun v _ => Agree.refl v
  | cons a live ih =>
    have here := changes 0 (by simp)
    have later : ∀ j < live.length, under (.index (i + 1 + j)) cs =
        itemChange ignored live[j]? sup.tail[j]? := by
      intro j within
      have atNext := changes (j + 1) (by simpa using within)
      rw [getElem?_cons_succ, ← getElem?_tail] at atNext
      rw [← atNext, Nat.add_assoc, Nat.add_comm 1]
    rw [Nat.add_zero, getElem?_cons_zero] at here
    have rest := ih later fun x inLive b inTail =>
      below x (mem_cons_of_mem _ inLive) b (mem_of_mem_tail inTail)
    rw [patchedItems, here]
    cases sup with
    | nil =>
      rw [tail_nil, drop_nil, append_nil] at rest
      rw [List.forall₂_nil_right_iff.mp rest]
      exact .nil
    | cons b sup =>
      have kept : removes (itemChange ignored (some a) (some b)) = false :=
        removes_changesOf ignored a b
      rw [getElem?_cons_zero, kept, if_neg Bool.false_ne_true]
      exact .cons (below a mem_cons_self b mem_cons_self) rest

theorem Agree.of_forall₂ {as bs : List Value} (agree : List.Forall₂ (Agree ignored) as bs) :
    Agree ignored (.array as) (.array bs) := by
  refine .array agree.length_eq ?_
  intro i a b atI atI'
  obtain ⟨within, isA⟩ := List.getElem?_eq_some_iff.mp atI
  obtain ⟨within', isB⟩ := List.getElem?_eq_some_iff.mp atI'
  rw [← isA, ← isB]
  exact agree.get within within'

theorem patched_replaced (fromValue : Option Value) (v w : Value) :
    patched [⟨[], .replace, fromValue, some w⟩] v = w := by
  have replaced : replacement [⟨[], .replace, fromValue, some w⟩] = some w := rfl
  cases v with
  | array items =>
    rw [patched, replaced]
    rfl
  | object members =>
    rw [patched, replaced]
    rfl
  | _ => rfl

theorem patched_scalar {live sup : Value} (whole : changesOf ignored live sup =
      if live.kind = sup.kind ∧ valuesEqual live sup = true then []
      else [⟨[], .replace, some live, some sup⟩])
    (unchanged : live.kind = sup.kind → valuesEqual live sup = true → Agree ignored live sup) :
    Agree ignored (patched (changesOf ignored live sup) live) sup := by
  rw [whole]
  split
  · rename_i same
    rw [patched_nil]
    exact unchanged same.1 same.2
  · rw [patched_replaced]
    exact Agree.refl sup

/-- The live value, patched, is the supplied one up to what is ignored. -/
theorem patched_agree {ignored : CStr → Bool} {live sup : Value} (distinct : KeysDistinct live) :
    Agree ignored (patched (changesOf ignored live sup) live) sup := by
  induction live using Value.treeInduction generalizing sup with
  | null =>
    cases sup with
    | null => exact patched_scalar rfl fun _ _ => .null
    | _ => exact patched_scalar rfl fun same => by cases same
  | bool b =>
    cases sup with
    | bool b' =>
      exact patched_scalar rfl fun _ equal =>
        of_decide_eq_true equal ▸ Agree.bool b
    | _ => exact patched_scalar rfl fun same => by cases same
  | number n =>
    cases sup with
    | number n' => exact patched_scalar rfl fun _ equal => .number equal
    | _ => exact patched_scalar rfl fun same => by cases same
  | string s =>
    cases sup with
    | string s' =>
      exact patched_scalar rfl fun _ equal =>
        of_decide_eq_true equal ▸ Agree.string s
    | _ => exact patched_scalar rfl fun same => by cases same
  | array items ih =>
    cases sup with
    | array others =>
      rw [patched, changesOf, replacement_of_below (below_itemChanges _ _ _ _),
        Option.getD_none, addedAt_itemChanges]
      apply Agree.of_forall₂
      apply patchedItems_agree
      · intro j _
        have inside := (under_itemChanges ignored 0 j items others).1
        exact inside
      · intro a inItems b _
        exact ih a inItems (distinct.items a inItems)
    | _ => exact patched_scalar rfl fun same => by cases same
  | object members ih =>
    cases sup with
    | object others =>
      apply patched_object_agree distinct.keys
      intro mem inMembers b _
      exact ih mem inMembers (distinct.members mem inMembers)
    | _ => exact patched_scalar rfl fun same => by cases same

end Cix.Json
