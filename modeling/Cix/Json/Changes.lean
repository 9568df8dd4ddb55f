import Cix.Json.Diff
import Cix.Json.Roundtrip

/-!
# What the comparison of two trees records

The loops of `jsondiff.c` record the changes of one list, the first 512 of
them.  The list is empty exactly when the trees agree in every member that is
not ignored, in whatever order an object holds its members.
-/

namespace Cix.Json

open Cix.Lib List

/-! ## Induction over a tree -/

@[elab_as_elim]
theorem Value.treeInduction {motive : Value → Prop} (null : motive .null)
    (bool : ∀ b, motive (.bool b)) (number : ∀ n, motive (.number n))
    (string : ∀ s, motive (.string s))
    (array : ∀ items, (∀ item ∈ items, motive item) → motive (.array items))
    (object : ∀ members : List (CStr × Value),
      (∀ mem ∈ members, motive mem.2) → motive (.object members)) :
    ∀ v, motive v
  | .null => null
  | .bool b => bool b
  | .number n => number n
  | .string s => string s
  | .array items =>
    array items fun item mem => by
      have smaller := sizeOf_lt_of_mem mem
      exact treeInduction null bool number string array object item
  | .object members =>
    object members fun mem inMembers => by
      have smaller := sizeOf_lt_of_mem inMembers
      have inside : sizeOf mem.2 < sizeOf mem := by
        cases mem
        simp +arith
      exact treeInduction null bool number string array object mem.2
termination_by v => sizeOf v
decreasing_by
  · simp only [Value.array.sizeOf_spec]
    omega
  · simp only [Value.object.sizeOf_spec]
    omega

/-! ## Trees that agree -/

theorem doublesEqual_finite {negative negative' : Bool}
    {magnitude magnitude' : Magnitude} :
    doublesEqual (.finite negative magnitude) (.finite negative' magnitude') = true ↔
      magnitude.units = magnitude'.units ∧ (negative = negative' ∨ magnitude.units = 0) := by
  simp [doublesEqual]

theorem doublesEqual_infinite {negative negative' : Bool} :
    doublesEqual (.infinite negative) (.infinite negative') = true ↔ negative = negative' := by
  simp [doublesEqual]

theorem doublesEqual_refl (a : Double) : doublesEqual a a = true := by
  cases a with
  | finite negative magnitude => exact doublesEqual_finite.mpr ⟨rfl, Or.inl rfl⟩
  | infinite negative => exact doublesEqual_infinite.mpr rfl

theorem doublesEqual_symm {a b : Double} (equal : doublesEqual a b = true) :
    doublesEqual b a = true := by
  cases a with
  | finite =>
    cases b with
    | finite =>
      rw [doublesEqual_finite] at equal ⊢
      exact ⟨equal.1.symm, equal.2.imp Eq.symm fun zero => equal.1.symm.trans zero⟩
    | infinite => cases equal
  | infinite =>
    cases b with
    | finite => cases equal
    | infinite =>
      rw [doublesEqual_infinite] at equal ⊢
      exact equal.symm

theorem doublesEqual_trans {a b c : Double} (first : doublesEqual a b = true)
    (second : doublesEqual b c = true) : doublesEqual a c = true := by
  cases a with
  | finite =>
    cases b with
    | infinite => cases first
    | finite =>
      cases c with
      | infinite => cases second
      | finite =>
        rw [doublesEqual_finite] at first second ⊢
        refine ⟨first.1.trans second.1, ?_⟩
        rcases first.2 with signs | zero
        · rw [signs, first.1]
          exact second.2
        · exact Or.inr zero
  | infinite =>
    cases b with
    | finite => cases first
    | infinite =>
      cases c with
      | finite => cases second
      | infinite =>
        rw [doublesEqual_infinite] at first second ⊢
        exact first.trans second

/-- Two trees agree up to the members that are ignored, and up to the order of
the members of an object. -/
inductive Agree (ignored : CStr → Bool) : Value → Value → Prop
  | null : Agree ignored .null .null
  | bool (b : Bool) : Agree ignored (.bool b) (.bool b)
  | number {a b : Double} (equal : doublesEqual a b = true) :
      Agree ignored (.number a) (.number b)
  | string (s : CStr) : Agree ignored (.string s) (.string s)
  | array {as bs : List Value} (length : as.length = bs.length)
      (items : ∀ (i : Nat) (a b : Value), as[i]? = some a → bs[i]? = some b →
        Agree ignored a b) : Agree ignored (.array as) (.array bs)
  | object {as bs : List (CStr × Value)}
      (keys : ∀ key, ignored key = false → (findMember key as).isSome = (findMember key bs).isSome)
      (members : ∀ key a b, ignored key = false →
        findMember key as = some a → findMember key bs = some b →
          Agree ignored a b) : Agree ignored (.object as) (.object bs)

theorem mem_of_findMember {key : CStr} {value : Value}
    {members : List (CStr × Value)}
    (found : findMember key members = some value) :
    (key, value) ∈ members := by
  induction members with
  | nil => cases found
  | cons head rest ih =>
    rw [findMember] at found
    split at found
    · rename_i isKey
      cases found
      rw [← isKey]
      exact mem_cons_self
    · exact mem_cons_of_mem _ (ih found)

theorem findMember_isSome {key : CStr} {members : List (CStr × Value)} :
    (findMember key members).isSome = true ↔ key ∈ members.map Prod.fst := by
  constructor
  · intro present
    obtain ⟨value, found⟩ := Option.isSome_iff_exists.mp present
    exact mem_map_of_mem (mem_of_findMember found)
  · intro mem
    by_contra missing
    rw [Option.not_isSome_iff_eq_none] at missing
    induction members with
    | nil => cases mem
    | cons head rest ih =>
      rw [findMember] at missing
      split at missing
      · cases missing
      · rename_i other
        rw [map_cons, mem_cons] at mem
        rcases mem with isHead | later
        · exact other isHead.symm
        · exact ih later missing

namespace Agree

variable {ignored : CStr → Bool}

theorem refl (a : Value) : Agree ignored a a := by
  induction a using Value.treeInduction with
  | null => exact .null
  | bool b => exact .bool b
  | number n => exact .number (doublesEqual_refl n)
  | string s => exact .string s
  | array items ih =>
    refine .array rfl ?_
    intro i a b atI atI'
    rw [atI] at atI'
    cases atI'
    exact ih a (mem_of_getElem? atI)
  | object members ih =>
    refine .object (fun _ _ => rfl) ?_
    intro key a b _ found found'
    rw [found] at found'
    cases found'
    exact ih (key, a) (mem_of_findMember found)

theorem symm {a b : Value} (agree : Agree ignored a b) :
    Agree ignored b a := by
  induction agree with
  | null => exact .null
  | bool b => exact .bool b
  | number equal => exact .number (doublesEqual_symm equal)
  | string s => exact .string s
  | array length _ ih =>
    exact .array length.symm fun i a b ofA ofB =>
      ih i b a ofB ofA
  | object keys _ ih =>
    exact .object (fun key kept => (keys key kept).symm)
      fun key a b kept ofA ofB => ih key b a kept ofB ofA

theorem trans {a b c : Value} (first : Agree ignored a b)
    (second : Agree ignored b c) : Agree ignored a c := by
  induction first generalizing c with
  | null => exact second
  | bool => exact second
  | number equal =>
    cases second with
    | number equal' => exact .number (doublesEqual_trans equal equal')
  | string => exact second
  | @array as bs length _ ih =>
    cases second with
    | @array _ cs length' items' =>
      refine .array (length.trans length') ?_
      intro i a c ofA ofC
      obtain ⟨within, _⟩ := List.getElem?_eq_some_iff.mp ofA
      have ofB := getElem?_eq_getElem (l := bs) (i := i) (by omega)
      exact ih i a _ ofA ofB (items' i _ c ofB ofC)
  | @object as bs keys _ ih =>
    cases second with
    | @object _ cs keys' members' =>
      refine .object (fun key kept => (keys key kept).trans (keys' key kept)) ?_
      intro key a c kept ofA ofC
      have present := keys key kept
      rw [ofA, Option.isSome_some, eq_comm, Option.isSome_iff_exists] at present
      obtain ⟨b, ofB⟩ := present
      exact ih key a b kept ofA ofB (members' key b c kept ofB ofC)

end Agree

/-! ## Trees without duplicate keys -/

inductive KeysDistinct : Value → Prop
  | null : KeysDistinct .null
  | bool (b : Bool) : KeysDistinct (.bool b)
  | number (n : Double) : KeysDistinct (.number n)
  | string (s : CStr) : KeysDistinct (.string s)
  | array {items : List Value} (below : ∀ item ∈ items, KeysDistinct item) :
      KeysDistinct (.array items)
  | object {members : List (CStr × Value)}
      (keys : (members.map Prod.fst).Nodup)
      (below : ∀ mem ∈ members, KeysDistinct mem.2) :
      KeysDistinct (.object members)

theorem KeysDistinct.items {items : List Value} (distinct : KeysDistinct (.array items)) :
    ∀ item ∈ items, KeysDistinct item := by
  cases distinct with
  | array below => exact below

theorem KeysDistinct.keys {members : List (CStr × Value)}
    (distinct : KeysDistinct (.object members)) :
    (members.map Prod.fst).Nodup := by
  cases distinct with
  | object keys _ => exact keys

theorem KeysDistinct.members {members : List (CStr × Value)}
    (distinct : KeysDistinct (.object members)) :
    ∀ mem ∈ members, KeysDistinct mem.2 := by
  cases distinct with
  | object _ below => exact below

/-! ## Equality of values -/

theorem itemsEqual_iff {as bs : List Value} (length : as.length = bs.length) :
    itemsEqual as bs = true ↔ ∀ (i : Nat) (a b : Value), as[i]? = some a → bs[i]? = some b →
        valuesEqual a b = true := by
  induction as generalizing bs with
  | nil => simp [itemsEqual]
  | cons a as ih =>
    cases bs with
    | nil => cases length
    | cons b bs =>
      rw [itemsEqual, Bool.and_eq_true, ih (Nat.succ.inj length)]
      constructor
      · rintro ⟨first, rest⟩ i x y atI atI'
        cases i with
        | zero =>
          cases atI
          cases atI'
          exact first
        | succ i => exact rest i x y atI atI'
      · intro all
        exact ⟨all 0 a b rfl rfl, fun i x y => all (i + 1) x y⟩

variable {as bs : List (CStr × Value)}

theorem membersEqual_iff : membersEqual as bs = true ↔
      ∀ mem ∈ as, ∃ b, findMember mem.1 bs = some b ∧ valuesEqual mem.2 b = true := by
  induction as with
  | nil => simp [membersEqual]
  | cons head as ih =>
    rw [membersEqual, Bool.and_eq_true, ih, forall_mem_cons]
    apply and_congr_left'
    cases findMember head.1 bs <;> simp

theorem valuesEqual_array {as bs : List Value} :
    valuesEqual (.array as) (.array bs) = true ↔ as.length = bs.length ∧
        ∀ (i : Nat) (a b : Value), as[i]? = some a → bs[i]? = some b → valuesEqual a b = true := by
  rw [valuesEqual, Bool.and_eq_true, decide_eq_true_eq]
  exact and_congr_right itemsEqual_iff

theorem valuesEqual_object :
    valuesEqual (.object as) (.object bs) = true ↔ as.length = bs.length ∧
        ∀ mem ∈ as, ∃ b, findMember mem.1 bs = some b ∧ valuesEqual mem.2 b = true := by
  rw [valuesEqual, Bool.and_eq_true, decide_eq_true_eq, membersEqual_iff]

theorem keys_subset_back
    (keys : (as.map Prod.fst).Nodup) (length : as.length = bs.length)
    (subset : as.map Prod.fst ⊆ bs.map Prod.fst) :
    bs.map Prod.fst ⊆ as.map Prod.fst := by
  have sizes : (bs.map Prod.fst).length ≤ (as.map Prod.fst).length := by
    rw [length_map, length_map]
    exact length.ge
  exact ((subperm_of_subset keys subset).perm_of_length_le sizes).symm.subset

theorem valuesEqual_iff {a b : Value} (distinct : KeysDistinct a) (distinct' : KeysDistinct b) :
    valuesEqual a b = true ↔ Agree (fun _ => false) a b := by
  induction a using Value.treeInduction generalizing b with
  | null | bool | number | string =>
    constructor
    · intro equal
      cases b <;> simp only [valuesEqual, reduceCtorEq] at equal
      all_goals first
        | exact .null
        | exact .number equal
        | (rw [of_decide_eq_true equal]; exact Agree.refl _)
    · intro agree
      cases agree
      all_goals simp_all [valuesEqual]
  | array items ih =>
    cases b with
    | array others =>
      have pointwise : ∀ (i : Nat) (x y : Value), items[i]? = some x → others[i]? = some y →
          (valuesEqual x y = true ↔ Agree (fun _ => false) x y) := by
        intro i x y atI atI'
        have inItems := mem_of_getElem? atI
        have inOthers := mem_of_getElem? atI'
        exact ih x inItems (distinct.items x inItems) (distinct'.items y inOthers)
      rw [valuesEqual_array]
      constructor
      · rintro ⟨length, equal⟩
        exact .array length fun i x y atI atI' =>
          (pointwise i x y atI atI').mp (equal i x y atI atI')
      · intro agree
        cases agree with
        | array length agree =>
          exact ⟨length, fun i x y atI atI' =>
            (pointwise i x y atI atI').mpr (agree i x y atI atI')⟩
    | _ =>
      constructor
      · intro equal
        cases equal
      · intro agree
        cases agree
  | object members ih =>
    cases b with
    | object others =>
      have pointwise : ∀ key x y, (key, x) ∈ members → findMember key others = some y →
          (valuesEqual x y = true ↔ Agree (fun _ => false) x y) := by
        intro key x y inMembers found
        exact ih (key, x) inMembers (distinct.members _ inMembers)
          (distinct'.members _ (mem_of_findMember found))
      rw [valuesEqual_object]
      constructor
      · rintro ⟨length, equal⟩
        have subset : members.map Prod.fst ⊆ others.map Prod.fst := by
          intro key mem
          obtain ⟨m, inMembers, rfl⟩ := mem_map.mp mem
          obtain ⟨y, found, _⟩ := equal m inMembers
          exact findMember_isSome.mp (Option.isSome_of_mem found)
        have back := keys_subset_back distinct.keys length subset
        refine .object ?_ ?_
        · intro key _
          rw [Bool.eq_iff_iff, findMember_isSome, findMember_isSome]
          exact ⟨fun inMembers => subset inMembers, fun inOthers => back inOthers⟩
        · intro key x y _ found found'
          have inMembers := mem_of_findMember found
          obtain ⟨z, foundZ, equalZ⟩ := equal (key, x) inMembers
          rw [found'] at foundZ
          cases foundZ
          exact (pointwise key x y inMembers found').mp equalZ
      · intro agree
        cases agree with
        | object keys agree =>
          constructor
          · have perm : (members.map Prod.fst).Perm (others.map Prod.fst) := by
              apply (perm_ext_iff_of_nodup distinct.keys distinct'.keys).mpr
              intro key
              rw [← findMember_isSome, ← findMember_isSome, keys key rfl]
            have lengths := perm.length_eq
            rw [length_map, length_map] at lengths
            exact lengths
          · intro mem inMembers
            have found := findMember_of_mem distinct.keys inMembers
            have present := keys mem.1 rfl
            rw [found, Option.isSome_some, eq_comm, Option.isSome_iff_exists] at present
            obtain ⟨y, found'⟩ := present
            exact ⟨y, found', (pointwise mem.1 mem.2 y inMembers
              found').mpr (agree mem.1 mem.2 y rfl found found')⟩
    | _ =>
      constructor
      · intro equal
        cases equal
      · intro agree
        cases agree

/-! ## The list that the loops record -/

def Change.inside (step : Step) (c : Change) : Change :=
  { c with place := step :: c.place }

def Change.below (base : List Step) (c : Change) : Change :=
  { c with place := base ++ c.place }

def newItems (i : Nat) : List Value → List Change
  | [] => []
  | b :: bs => ⟨[.index i], .add, none, some b⟩ :: newItems (i + 1) bs

def oldItems (i : Nat) : List Value → List Change
  | [] => []
  | a :: as => ⟨[.index i], .remove, some a, none⟩ :: oldItems (i + 1) as

def newMembers (ignored : CStr → Bool) (live : List (CStr × Value)) :
    List (CStr × Value) → List Change
  | [] => []
  | (key, b) :: bs =>
    (if (findMember key live).isSome || ignored key then []
      else [⟨[.field key], .add, none, some b⟩]) ++
      newMembers ignored live bs

mutual

def changesOf (ignored : CStr → Bool) : Value → Value → List Change
  | .object live, .object sup =>
    memberChanges ignored live sup ++ newMembers ignored live sup
  | .array live, .array sup => itemChanges ignored 0 live sup
  | live, sup =>
    if live.kind = sup.kind ∧ valuesEqual live sup = true then []
    else [⟨[], .replace, some live, some sup⟩]

def memberChanges (ignored : CStr → Bool) : List (CStr × Value) → List (CStr × Value) → List Change
  | [], _ => []
  | (key, a) :: live, sup =>
    (if ignored key then []
      else
        match findMember key sup with
        | none => [⟨[.field key], .remove, some a, none⟩]
        | some b => (changesOf ignored a b).map (Change.inside (.field key)))
      ++ memberChanges ignored live sup

def itemChanges (ignored : CStr → Bool) (i : Nat) : List Value → List Value → List Change
  | [], sup => newItems i sup
  | a :: live, [] => oldItems i (a :: live)
  | a :: live, b :: sup =>
    (changesOf ignored a b).map (Change.inside (.index i)) ++ itemChanges ignored (i + 1) live sup

end

def record (d : Diff) (cs : List Change) : Diff :=
  cs.foldl addChange d

theorem record_append (d : Diff) (cs ds : List Change) :
    record d (cs ++ ds) = record (record d cs) ds :=
  List.foldl_append

theorem addChange_truncated {d : Diff} (full : d.truncated = true)
    (c : Change) : addChange d c = d := by
  rw [addChange, full, if_pos rfl]

theorem record_truncated {d : Diff} (full : d.truncated = true)
    (cs : List Change) : record d cs = d := by
  induction cs with
  | nil => rfl
  | cons c cs ih =>
    rw [record, foldl_cons, addChange_truncated full]
    exact ih

@[simp]
theorem below_inside (base : List Step) (step : Step) (c : Change) :
    (c.inside step).below base = c.below (base ++ [step]) := by
  simp [Change.inside, Change.below]

theorem map_below_inside (base : List Step) (step : Step) (cs : List Change) :
    (cs.map (Change.inside step)).map (Change.below base) =
      cs.map (Change.below (base ++ [step])) := by
  rw [map_map]
  exact map_congr_left fun c _ => below_inside base step c

theorem addItems_eq (d : Diff) (base : List Step) (i : Nat) (sup : List Value) :
    addItems d base i sup = record d ((newItems i sup).map (Change.below base)) := by
  induction sup generalizing d i with
  | nil => rfl
  | cons b sup ih =>
    rw [addItems, ih]
    rfl

theorem removeItems_eq (d : Diff) (base : List Step) (i : Nat) (live : List Value) :
    removeItems d base i live = record d ((oldItems i live).map (Change.below base)) := by
  induction live generalizing d i with
  | nil => rfl
  | cons a live ih =>
    rw [removeItems, ih]
    rfl

theorem addMembers_eq (ignored : CStr → Bool) (d : Diff) (base : List Step)
    (live sup : List (CStr × Value)) :
    addMembers ignored d base live sup =
      record d ((newMembers ignored live sup).map (Change.below base)) := by
  induction sup generalizing d with
  | nil => rfl
  | cons mem sup ih =>
    obtain ⟨key, b⟩ := mem
    rw [addMembers, newMembers, ih, map_append, record_append]
    cases (findMember key live).isSome <;> cases ignored key <;> rfl

/-- What `diff_walk` leaves recorded of a pair of values. -/
def Records (ignored : CStr → Bool) (live : Value) : Prop :=
  ∀ (d : Diff) (base : List Step) (sup : Value), diffWalk ignored d base live sup =
      record d ((changesOf ignored live sup).map (Change.below base))

theorem diffMembers_eq {ignored : CStr → Bool} {live : List (CStr × Value)}
    (below : ∀ mem ∈ live, Records ignored mem.2) (d : Diff)
    (base : List Step) (sup : List (CStr × Value)) :
    diffMembers ignored d base live sup =
      record d ((memberChanges ignored live sup).map (Change.below base)) := by
  induction live generalizing d with
  | nil =>
    rw [diffMembers, memberChanges]
    rfl
  | cons mem live ih =>
    obtain ⟨key, a⟩ := mem
    have records := below (key, a) mem_cons_self
    have rest := ih fun m inLive =>
      below m (mem_cons_of_mem _ inLive)
    rw [diffMembers, memberChanges, map_append, record_append]
    cases ignored key with
    | true => exact rest d
    | false =>
      simp only [Bool.false_eq_true, if_false]
      cases findMember key sup with
      | none => exact rest _
      | some b =>
        dsimp only
        rw [rest, records, map_below_inside]

theorem diffItems_eq {ignored : CStr → Bool} {live : List Value}
    (below : ∀ item ∈ live, Records ignored item) (d : Diff)
    (base : List Step) (i : Nat) (sup : List Value) :
    diffItems ignored d base i live sup =
      record d ((itemChanges ignored i live sup).map (Change.below base)) := by
  induction live generalizing d i sup with
  | nil => rw [diffItems, itemChanges, addItems_eq]
  | cons a live ih =>
    cases sup with
    | nil => rw [diffItems, itemChanges, removeItems_eq]
    | cons b sup =>
      have records := below a mem_cons_self
      rw [diffItems, itemChanges, map_append, record_append, ih fun item inLive =>
          below item (mem_cons_of_mem _ inLive)]
      rw [records, map_below_inside]

theorem record_scalar {d : Diff} (base : List Step) (live sup : Value) : (if d.truncated then d
      else if live.kind ≠ sup.kind then
        addChange d ⟨base, .replace, some live, some sup⟩
      else if valuesEqual live sup then d
      else addChange d ⟨base, .replace, some live, some sup⟩) =
      record d ((if live.kind = sup.kind ∧ valuesEqual live sup = true then []
        else [⟨[], .replace, some live, some sup⟩]).map (Change.below base)) := by
  cases full : d.truncated with
  | true => rw [if_pos rfl, record_truncated full]
  | false =>
    rw [if_neg Bool.false_ne_true]
    by_cases kinds : live.kind = sup.kind
    · by_cases equal : valuesEqual live sup = true
      · rw [if_neg (not_not.mpr kinds), if_pos equal, if_pos ⟨kinds, equal⟩]
        rfl
      · rw [if_neg (not_not.mpr kinds), if_neg equal, if_neg fun both => equal both.2]
        simp [record, Change.below]
    · rw [if_pos kinds, if_neg fun both => kinds both.1]
      simp [record, Change.below]

theorem diffWalk_eq (ignored : CStr → Bool) (live : Value) :
    Records ignored live := by
  induction live using Value.treeInduction with
  | null | bool | number | string =>
    intro d base sup
    cases sup <;> simp only [diffWalk, changesOf] <;>
      exact record_scalar base _ _
  | array items ih =>
    intro d base sup
    cases sup with
    | array others =>
      rw [diffWalk, changesOf, diffItems_eq ih]
      split
      · rename_i full
        rw [record_truncated full]
      · rfl
    | _ =>
      simp only [diffWalk, changesOf]
      exact record_scalar base _ _
  | object members ih =>
    intro d base sup
    cases sup with
    | object others =>
      rw [diffWalk, changesOf, diffMembers_eq ih, addMembers_eq, map_append, record_append]
      split
      · rename_i full
        rw [record_truncated full, record_truncated full]
      · rfl
    | _ =>
      simp only [diffWalk, changesOf]
      exact record_scalar base _ _

/-! ## The limit -/

theorem record_limit (d : Diff) (fits : d.count ≤ maxChanges)
    (open' : d.truncated = false) (cs : List Change) :
    (record d cs).changes = (d.changes ++ cs).take maxChanges ∧
      ((record d cs).truncated = true ↔ maxChanges < d.count + cs.length) ∧
      (record d cs).unkeyedPath = d.unkeyedPath := by
  induction cs generalizing d with
  | nil =>
    refine ⟨?_, ?_, rfl⟩
    · rw [append_nil, take_of_length_le fits]
      rfl
    · rw [length_nil]
      change d.truncated = true ↔ _
      rw [open']
      simp only [Bool.false_eq_true, false_iff]
      omega
  | cons c cs ih =>
    rw [record, foldl_cons]
    by_cases full : maxChanges ≤ d.count
    · have step : addChange d c = { d with truncated := true } := by
        rw [addChange, open', if_neg Bool.false_ne_true, if_pos full]
      have stays : cs.foldl addChange { d with truncated := true } =
          { d with truncated := true } := record_truncated rfl cs
      rw [step, stays, length_cons]
      refine ⟨?_, ?_, rfl⟩
      · have exact' : d.changes.length = maxChanges := by
          unfold Diff.count at fits full
          omega
        rw [take_append_of_le_length exact'.ge, take_of_length_le exact'.le]
      · simp only [true_iff]
        omega
    · have step : addChange d c = { d with changes := d.changes ++ [c] } := by
        rw [addChange, open', if_neg Bool.false_ne_true, if_neg full]
      have count : Diff.count { d with changes := d.changes ++ [c] } = d.count + 1 := by
        simp [Diff.count]
      have result := ih { d with changes := d.changes ++ [c] } (by omega) open'
      rw [count, append_assoc] at result
      rw [step, length_cons]
      refine ⟨result.1, ?_, result.2.2⟩
      rw [← Nat.add_assoc, Nat.add_right_comm]
      exact result.2.1

/-! ## No changes -/

theorem newItems_eq_nil {i : Nat} {sup : List Value} : newItems i sup = [] ↔ sup = [] := by
  cases sup <;> simp [newItems]

theorem newMembers_eq_nil {ignored : CStr → Bool}
    {live sup : List (CStr × Value)} :
    newMembers ignored live sup = [] ↔ ∀ mem ∈ sup, ignored mem.1 = false →
        (findMember mem.1 live).isSome = true := by
  induction sup with
  | nil => simp [newMembers]
  | cons mem sup ih =>
    rw [newMembers, append_eq_nil_iff, ih, forall_mem_cons]
    apply and_congr_left'
    cases ignored mem.1 <;> cases (findMember mem.1 live).isSome <;>
      simp

theorem memberChanges_eq_nil {ignored : CStr → Bool}
    {live sup : List (CStr × Value)} :
    memberChanges ignored live sup = [] ↔ ∀ mem ∈ live, ignored mem.1 = false →
        ∃ b, findMember mem.1 sup = some b ∧ changesOf ignored mem.2 b = [] := by
  induction live with
  | nil => simp [memberChanges]
  | cons mem live ih =>
    rw [memberChanges, append_eq_nil_iff, ih, forall_mem_cons]
    apply and_congr_left'
    cases ignored mem.1 <;> cases findMember mem.1 sup <;> simp

theorem itemChanges_eq_nil {ignored : CStr → Bool} {i : Nat}
    {live sup : List Value} :
    itemChanges ignored i live sup = [] ↔ live.length = sup.length ∧
        ∀ (j : Nat) (a b : Value), live[j]? = some a → sup[j]? = some b →
          changesOf ignored a b = [] := by
  induction live generalizing i sup with
  | nil =>
    rw [itemChanges, newItems_eq_nil]
    cases sup <;> simp
  | cons a live ih =>
    cases sup with
    | nil => simp [itemChanges, oldItems]
    | cons b sup =>
      rw [itemChanges, append_eq_nil_iff, ih, map_eq_nil_iff, length_cons, length_cons,
        Nat.add_right_cancel_iff]
      constructor
      · rintro ⟨first, length, rest⟩
        refine ⟨length, ?_⟩
        intro j x y atJ atJ'
        cases j with
        | zero =>
          cases atJ
          cases atJ'
          exact first
        | succ j => exact rest j x y atJ atJ'
      · rintro ⟨length, all⟩
        exact ⟨all 0 a b rfl rfl, length, fun j x y => all (j + 1) x y⟩

theorem changesOf_eq_nil {ignored : CStr → Bool} {live sup : Value}
    (distinct : KeysDistinct live) (distinct' : KeysDistinct sup) :
    changesOf ignored live sup = [] ↔ Agree ignored live sup := by
  induction live using Value.treeInduction generalizing sup with
  | null | bool | number | string =>
    constructor
    · intro nothing
      cases sup <;> simp only [changesOf, ite_eq_left_iff, reduceCtorEq,
        imp_false, not_not, Value.kind, false_and, true_and, valuesEqual]
        at nothing
      all_goals first
        | exact .null
        | exact .number nothing
        | (rw [of_decide_eq_true nothing]; exact Agree.refl _)
    · intro agree
      cases agree
      all_goals simp_all [changesOf, Value.kind, valuesEqual]
  | array items ih =>
    cases sup with
    | array others =>
      have pointwise : ∀ (i : Nat) (x y : Value), items[i]? = some x → others[i]? = some y →
          (changesOf ignored x y = [] ↔ Agree ignored x y) := by
        intro i x y atI atI'
        have inItems := mem_of_getElem? atI
        have inOthers := mem_of_getElem? atI'
        exact ih x inItems (distinct.items x inItems) (distinct'.items y inOthers)
      rw [changesOf, itemChanges_eq_nil]
      constructor
      · rintro ⟨length, equal⟩
        exact .array length fun i x y atI atI' =>
          (pointwise i x y atI atI').mp (equal i x y atI atI')
      · intro agree
        cases agree with
        | array length agree =>
          exact ⟨length, fun i x y atI atI' =>
            (pointwise i x y atI atI').mpr (agree i x y atI atI')⟩
    | _ =>
      constructor
      · intro nothing
        simp [changesOf, Value.kind] at nothing
      · intro agree
        cases agree
  | object members ih =>
    cases sup with
    | object others =>
      have pointwise : ∀ key x y, (key, x) ∈ members → findMember key others = some y →
          (changesOf ignored x y = [] ↔ Agree ignored x y) := by
        intro key x y inMembers found
        exact ih (key, x) inMembers (distinct.members _ inMembers)
          (distinct'.members _ (mem_of_findMember found))
      rw [changesOf, append_eq_nil_iff, memberChanges_eq_nil, newMembers_eq_nil]
      constructor
      · rintro ⟨kept, known⟩
        refine .object ?_ ?_
        · intro key named
          rw [Bool.eq_iff_iff]
          constructor
          · intro present
            obtain ⟨x, found⟩ := Option.isSome_iff_exists.mp present
            obtain ⟨y, found', _⟩ := kept (key, x) (mem_of_findMember found) named
            exact Option.isSome_of_mem found'
          · intro present
            obtain ⟨y, found⟩ := Option.isSome_iff_exists.mp present
            exact known (key, y) (mem_of_findMember found) named
        · intro key x y named found found'
          have inMembers := mem_of_findMember found
          obtain ⟨z, foundZ, nothing⟩ := kept (key, x) inMembers named
          rw [found'] at foundZ
          cases foundZ
          exact (pointwise key x y inMembers found').mp nothing
      · intro agree
        cases agree with
        | object keys agree =>
          constructor
          · intro mem inMembers named
            have found := findMember_of_mem distinct.keys inMembers
            have present := keys mem.1 named
            rw [found, Option.isSome_some, eq_comm, Option.isSome_iff_exists] at present
            obtain ⟨y, found'⟩ := present
            exact ⟨y, found', (pointwise mem.1 mem.2 y inMembers
              found').mpr (agree mem.1 mem.2 y named found found')⟩
          · intro mem inOthers named
            have found := findMember_of_mem distinct'.keys inOthers
            rw [keys mem.1 named, found]
            rfl
    | _ =>
      constructor
      · intro nothing
        simp [changesOf, Value.kind] at nothing
      · intro agree
        cases agree

end Cix.Json
