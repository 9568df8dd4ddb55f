import Cix.Json.Changes
import Mathlib.Algebra.Order.BigOperators.Group.List

/-!
# Equality of JSON trees

`jsondiff_equal` looks the members of its left tree up in the right one and
counts both.  On trees without duplicate keys it is an equivalence, the same
one that a comparison with nothing ignored decides.  An object with a key twice
is lost on it: another tree, with the second key renamed, is found equal from
one side only, if the first tree is found equal to itself at all.
-/

namespace Cix.Json

open Cix.Lib List

def Readable (n : Double) : Prop :=
  ∃ input rest, parseNumber input = some (.number n, rest)

inductive NumbersReadable : Value → Prop
  | null : NumbersReadable .null
  | bool (b : Bool) : NumbersReadable (.bool b)
  | number {n : Double} (readable : Readable n) : NumbersReadable (.number n)
  | string (s : CStr) : NumbersReadable (.string s)
  | array {items : List Value} (below : ∀ item ∈ items, NumbersReadable item) :
      NumbersReadable (.array items)
  | object {members : List (CStr × Value)}
      (below : ∀ mem ∈ members, NumbersReadable mem.2) :
      NumbersReadable (.object members)

theorem parseNumber_readable {input rest : List UInt8} {v : Value}
    (parsed : parseNumber input = some (v, rest)) : NumbersReadable v := by
  have whole := parsed
  unfold parseNumber at parsed
  dsimp only at parsed
  split at parsed
  · cases parsed
  · split at parsed
    · cases parsed
    · cases parsed
      exact .number ⟨input, _, whole⟩

def ValuesReadable (fuel : Nat) : Prop :=
  ∀ input v rest, parseValue fuel input = some (v, rest) → NumbersReadable v

def ItemsReadable (fuel : Nat) : Prop :=
  ∀ items input v rest, (∀ item ∈ items, NumbersReadable item) →
    parseItems fuel items input = some (v, rest) → NumbersReadable v

def MembersReadable (fuel : Nat) : Prop :=
  ∀ (members : List (CStr × Value)) input v rest, (∀ mem ∈ members, NumbersReadable mem.2) →
    parseMembers fuel members input = some (v, rest) → NumbersReadable v

theorem itemsReadable_succ {fuel : Nat} (values : ValuesReadable fuel)
    (itemsRead : ItemsReadable fuel) : ItemsReadable (fuel + 1) := by
  intro items input v rest below parsed
  rw [parseItems] at parsed
  cases first : parseValue fuel input with
  | none =>
    rw [first] at parsed
    cases parsed
  | some outcome =>
    obtain ⟨item, afterItem⟩ := outcome
    have longer : ∀ x ∈ items ++ [item], NumbersReadable x := by
      intro x mem
      rcases mem_append.mp mem with earlier | last
      · exact below x earlier
      · rw [mem_singleton.mp last]
        exact values input item afterItem first
    rw [first] at parsed
    dsimp only at parsed
    split at parsed
    · exact itemsRead _ _ v rest longer parsed
    · cases parsed
      exact .array longer
    · cases parsed

theorem membersReadable_succ {fuel : Nat} (values : ValuesReadable fuel)
    (membersRead : MembersReadable fuel) : MembersReadable (fuel + 1) := by
  intro members input v rest below parsed
  rw [parseMembers] at parsed
  split at parsed
  · cases parsed
  · rename_i key afterKey _
    split at parsed
    · rename_i afterColon _
      cases first : parseValue fuel afterColon with
      | none =>
        rw [first] at parsed
        cases parsed
      | some outcome =>
        obtain ⟨value, afterValue⟩ := outcome
        have longer : ∀ x ∈ members ++ [(key, value)], NumbersReadable x.2 := by
          intro x mem
          rcases mem_append.mp mem with earlier | last
          · exact below x earlier
          · rw [mem_singleton.mp last]
            exact values afterColon value afterValue first
        rw [first] at parsed
        dsimp only at parsed
        split at parsed
        · exact membersRead _ _ v rest longer parsed
        · cases parsed
          exact .object longer
        · cases parsed
    · cases parsed

theorem valuesReadable_succ {fuel : Nat} (itemsRead : ItemsReadable fuel)
    (membersRead : MembersReadable fuel) : ValuesReadable (fuel + 1) := by
  intro input v rest parsed
  rw [parseValue] at parsed
  split at parsed
  · cases parsed
  · rename_i c tail _
    split at parsed
    · split at parsed
      · cases parsed
        exact .object (by simp)
      · exact membersRead [] _ v rest (by simp) parsed
    · split at parsed
      · split at parsed
        · cases parsed
          exact .array (by simp)
        · exact itemsRead [] _ v rest (by simp) parsed
      · split at parsed
        · split at parsed
          · cases parsed
          · cases parsed
            exact .string _
        · split at parsed
          · cases parsed
            exact .bool true
          · split at parsed
            · cases parsed
              exact .bool false
            · split at parsed
              · cases parsed
                exact .null
              · split at parsed
                · exact parseNumber_readable parsed
                · cases parsed

theorem parse_readable (fuel : Nat) :
    ValuesReadable fuel ∧ ItemsReadable fuel ∧ MembersReadable fuel := by
  induction fuel with
  | zero =>
    refine ⟨?_, ?_, ?_⟩
    · intro input v rest parsed
      cases parsed
    · intro items input v rest _ parsed
      cases parsed
    · intro members input v rest _ parsed
      cases parsed
  | succ fuel ih =>
    obtain ⟨values, items, members⟩ := ih
    exact ⟨valuesReadable_succ items members,
      itemsReadable_succ values items, membersReadable_succ values members⟩

theorem jsonParse_readable {text : List UInt8} {v : Value}
    (parsed : jsonParse text = some v) : NumbersReadable v := by
  unfold jsonParse at parsed
  split at parsed
  · cases parsed
  · rename_i outcome _ found
    split at parsed
    · cases parsed
      exact (parse_readable _).1 _ _ _ found
    · cases parsed

variable {members : List (CStr × Value)}

def lengthKey (n : Nat) : CStr where
  bytes := List.replicate n 97
  nulFree := by
    intro mem
    cases eq_of_mem_replicate mem

theorem lengthKey_length (n : Nat) : (lengthKey n).length = n :=
  length_replicate

def renameKeys : (n : Nat) → (seen : List CStr) → List (CStr × Value) → List (CStr × Value)
  | _, _, [] => []
  | n, seen, (key, v) :: rest =>
    if key ∈ seen then (lengthKey n, v) :: renameKeys (n + 1) seen rest
    else (key, v) :: renameKeys n (key :: seen) rest

def aboveKeys (members : List (CStr × Value)) : Nat :=
  (members.map fun mem => mem.1.length).sum + 1

mutual

def renamed : Value → Value
  | .array items => .array (renamedItems items)
  | .object members =>
    .object (renameKeys (aboveKeys members) [] (renamedMembers members))
  | v => v

def renamedItems : List Value → List Value
  | [] => []
  | item :: rest => renamed item :: renamedItems rest

def renamedMembers : List (CStr × Value) → List (CStr × Value)
  | [] => []
  | (key, v) :: rest => (key, renamed v) :: renamedMembers rest

end

theorem renamedItems_eq (items : List Value) : renamedItems items = items.map renamed := by
  induction items with
  | nil => rw [renamedItems, map_nil]
  | cons item rest ih => rw [renamedItems, ih, map_cons]

theorem renamedMembers_eq (members : List (CStr × Value)) :
    renamedMembers members = members.map fun m => (m.1, renamed m.2) := by
  induction members with
  | nil => rw [renamedMembers, map_nil]
  | cons mem rest ih => rw [renamedMembers, ih, map_cons]

theorem keys_renamedMembers (members : List (CStr × Value)) :
    (renamedMembers members).map Prod.fst = members.map Prod.fst := by
  rw [renamedMembers_eq, map_map]
  rfl

theorem findMember_renamedMembers (key : CStr) (members : List (CStr × Value)) :
    findMember key (renamedMembers members) = (findMember key members).map renamed := by
  induction members with
  | nil =>
    rw [renamedMembers]
    rfl
  | cons mem rest ih =>
    rw [renamedMembers, findMember, findMember, ih]
    split <;> rfl

theorem length_lt_aboveKeys {key : CStr} (mem : key ∈ members.map Prod.fst) :
    key.length < aboveKeys members := by
  obtain ⟨m, inMembers, rfl⟩ := mem_map.mp mem
  have bounded : m.1.length ≤ (members.map fun m => m.1.length).sum :=
    le_sum_of_mem (mem_map_of_mem inMembers)
  unfold aboveKeys
  omega

theorem renameKeys_length (n : Nat) (seen : List CStr) (members : List (CStr × Value)) :
    (renameKeys n seen members).length = members.length := by
  fun_induction renameKeys n seen members with
  | case1 => rfl
  | case2 _ _ _ _ _ _ ih => rw [length_cons, length_cons, ih]
  | case3 _ _ _ _ _ _ ih => rw [length_cons, length_cons, ih]

theorem renameKeys_values (n : Nat) (seen : List CStr) (members : List (CStr × Value)) :
    (renameKeys n seen members).map Prod.snd = members.map Prod.snd := by
  fun_induction renameKeys n seen members with
  | case1 => rfl
  | case2 _ _ _ _ _ _ ih => rw [map_cons, map_cons, ih]
  | case3 _ _ _ _ _ _ ih => rw [map_cons, map_cons, ih]

variable {seen : List CStr}

theorem findMember_renameKeys {n : Nat}
    {members : List (CStr × Value)} {key : CStr} (unseen : key ∉ seen)
    (short : key.length < n) :
    findMember key (renameKeys n seen members) = findMember key members := by
  fun_induction renameKeys n seen members with
  | case1 => rfl
  | case2 n seen other v rest isSeen ih =>
    have notOther : other ≠ key := fun same => unseen (same ▸ isSeen)
    have notLong : lengthKey n ≠ key := by
      rintro rfl
      rw [lengthKey_length] at short
      omega
    rw [findMember, findMember, if_neg notOther, if_neg notLong]
    exact ih unseen (by omega)
  | case3 n seen other v rest _ ih =>
    rw [findMember, findMember]
    split
    · rfl
    · rename_i notOther
      apply ih _ short
      rw [mem_cons, not_or]
      exact ⟨Ne.symm notOther, unseen⟩

theorem keys_renameKeys {n : Nat}
    {members : List (CStr × Value)} {key : CStr}
    (mem : key ∈ (renameKeys n seen members).map Prod.fst) :
    n ≤ key.length ∨ key ∉ seen ∧ key ∈ members.map Prod.fst := by
  fun_induction renameKeys n seen members with
  | case1 => cases mem
  | case2 n seen other v rest isSeen ih =>
    rcases mem_cons.mp mem with isNew | later
    · left
      rw [isNew, lengthKey_length]
    · rcases ih later with long | kept
      · exact Or.inl (by omega)
      · exact Or.inr ⟨kept.1, mem_cons_of_mem _ kept.2⟩
  | case3 n seen other v rest unseen ih =>
    rcases mem_cons.mp mem with isOther | later
    · right
      rw [isOther]
      exact ⟨unseen, mem_cons_self⟩
    · rcases ih later with long | kept
      · exact Or.inl long
      · exact Or.inr ⟨fun inSeen =>
          kept.1 (mem_cons_of_mem _ inSeen),
          mem_cons_of_mem _ kept.2⟩

theorem nodup_renameKeys {n : Nat}
    {members : List (CStr × Value)}
    (short : ∀ key ∈ members.map Prod.fst, key.length < n) :
    ((renameKeys n seen members).map Prod.fst).Nodup := by
  fun_induction renameKeys n seen members with
  | case1 => exact nodup_nil
  | case2 n seen other v rest isSeen ih =>
    rw [map_cons, forall_mem_cons] at short
    rw [map_cons, nodup_cons]
    constructor
    · intro again
      rcases keys_renameKeys again with long | kept
      · rw [lengthKey_length] at long
        omega
      · have shorter := short.2 _ kept.2
        rw [lengthKey_length] at shorter
        omega
    · apply ih
      intro key inRest
      have shorter := short.2 key inRest
      omega
  | case3 n seen other v rest unseen ih =>
    rw [map_cons, forall_mem_cons] at short
    rw [map_cons, nodup_cons]
    refine ⟨?_, ih short.2⟩
    intro again
    rcases keys_renameKeys again with long | kept
    · have shorter := short.1
      omega
    · exact kept.1 mem_cons_self

theorem exists_long_key {n : Nat}
    {members : List (CStr × Value)}
    (twice : ¬((members.map Prod.fst).Nodup ∧ ∀ key ∈ members.map Prod.fst, key ∉ seen)) :
    ∃ mem ∈ renameKeys n seen members, n ≤ mem.1.length := by
  fun_induction renameKeys n seen members with
  | case1 => exact absurd ⟨nodup_nil, by simp⟩ twice
  | case2 n seen other v rest isSeen ih =>
    refine ⟨(lengthKey n, v), mem_cons_self, ?_⟩
    rw [lengthKey_length]
  | case3 n seen other v rest unseen ih =>
    have later : ¬((rest.map Prod.fst).Nodup ∧ ∀ key ∈ rest.map Prod.fst, key ∉ other :: seen) := by
      rintro ⟨nodup, apart⟩
      apply twice
      rw [map_cons, nodup_cons, forall_mem_cons]
      refine ⟨⟨fun again => apart other again mem_cons_self, nodup⟩, unseen, ?_⟩
      intro key inRest inSeen
      exact apart key inRest (mem_cons_of_mem _ inSeen)
    obtain ⟨mem, inRenamed, long⟩ := ih later
    exact ⟨mem, mem_cons_of_mem _ inRenamed, long⟩

theorem renameKeys_of_nodup {n : Nat}
    {members : List (CStr × Value)} (keys : (members.map Prod.fst).Nodup)
    (unseen : ∀ key ∈ members.map Prod.fst, key ∉ seen) :
    renameKeys n seen members = members := by
  fun_induction renameKeys n seen members with
  | case1 => rfl
  | case2 n seen other v rest isSeen ih =>
    exact absurd isSeen (unseen other mem_cons_self)
  | case3 n seen other v rest _ ih =>
    rw [map_cons, nodup_cons] at keys
    rw [ih keys.2]
    intro key inRest
    rw [mem_cons, not_or]
    exact ⟨fun isOther => keys.1 (isOther ▸ inRest), unseen key (mem_cons_of_mem _ inRest)⟩

theorem mem_renameKeys_value {n : Nat}
    {mem : CStr × Value} (inRenamed : mem ∈ renameKeys n seen members) :
    ∃ other ∈ members, other.2 = mem.2 := by
  have value := mem_map_of_mem (f := Prod.snd) inRenamed
  rw [renameKeys_values] at value
  exact mem_map.mp value

theorem mem_renamedMembers {mem : CStr × Value} (inRenamed : mem ∈ renamedMembers members) :
    ∃ other ∈ members, renamed other.2 = mem.2 := by
  rw [renamedMembers_eq, mem_map] at inRenamed
  obtain ⟨other, inMembers, rfl⟩ := inRenamed
  exact ⟨other, inMembers, rfl⟩

theorem renamedMembers_short : ∀ key ∈ (renamedMembers members).map Prod.fst,
      key.length < aboveKeys members := by
  rw [keys_renamedMembers]
  exact fun key => length_lt_aboveKeys

theorem renamed_distinct (v : Value) : KeysDistinct (renamed v) := by
  induction v using Value.treeInduction with
  | null => exact .null
  | bool b => exact .bool b
  | number n => exact .number n
  | string s => exact .string s
  | array items ih =>
    rw [renamed, renamedItems_eq]
    refine .array ?_
    intro item mem
    obtain ⟨original, inItems, rfl⟩ := mem_map.mp mem
    exact ih original inItems
  | object members ih =>
    rw [renamed]
    refine .object (nodup_renameKeys renamedMembers_short) ?_
    intro mem inRenamed
    obtain ⟨other, inMembers, same⟩ := mem_renameKeys_value inRenamed
    obtain ⟨original, inOriginal, same'⟩ := mem_renamedMembers inMembers
    rw [← same, ← same']
    exact ih original inOriginal

theorem renamed_readable {v : Value} (readable : NumbersReadable v) :
    NumbersReadable (renamed v) := by
  induction v using Value.treeInduction with
  | null | bool | number | string => exact readable
  | array items ih =>
    cases readable with
    | array below =>
      rw [renamed, renamedItems_eq]
      refine .array ?_
      intro item mem
      obtain ⟨original, inItems, rfl⟩ := mem_map.mp mem
      exact ih original inItems (below original inItems)
  | object members ih =>
    cases readable with
    | object below =>
      rw [renamed]
      refine .object ?_
      intro mem inRenamed
      obtain ⟨other, inMembers, same⟩ := mem_renameKeys_value inRenamed
      obtain ⟨original, inOriginal, same'⟩ := mem_renamedMembers inMembers
      rw [← same, ← same']
      exact ih original inOriginal (below original inOriginal)

theorem valuesEqual_renamed {a b : Value} (equal : valuesEqual a b = true) :
    valuesEqual a (renamed b) = true := by
  induction a using Value.treeInduction generalizing b with
  | null | bool | number | string => cases b <;> exact equal
  | array items ih =>
    cases b with
    | array others =>
      rw [valuesEqual_array] at equal
      rw [renamed, renamedItems_eq, valuesEqual_array, length_map]
      refine ⟨equal.1, ?_⟩
      intro i x y atI atI'
      rw [getElem?_map, Option.map_eq_some_iff] at atI'
      obtain ⟨original, atOriginal, rfl⟩ := atI'
      exact ih x (mem_of_getElem? atI) (equal.2 i x original atI atOriginal)
    | _ => cases equal
  | object members ih =>
    cases b with
    | object others =>
      rw [valuesEqual_object] at equal
      rw [renamed, valuesEqual_object, renameKeys_length,
        renamedMembers_eq, length_map, ← renamedMembers_eq]
      refine ⟨equal.1, ?_⟩
      intro mem inMembers
      obtain ⟨y, found, equalY⟩ := equal.2 mem inMembers
      have known := findMember_isSome.mp (Option.isSome_of_mem found)
      refine ⟨renamed y, ?_, ih mem inMembers equalY⟩
      rw [findMember_renameKeys (by simp) (length_lt_aboveKeys known),
        findMember_renamedMembers, found]
      rfl
    | _ => cases equal

theorem renamed_not_equal {v : Value} (twice : ¬KeysDistinct v) :
    valuesEqual (renamed v) v = false := by
  induction v using Value.treeInduction with
  | null => exact absurd .null twice
  | bool b => exact absurd (.bool b) twice
  | number n => exact absurd (.number n) twice
  | string s => exact absurd (.string s) twice
  | array items ih =>
    have below : ∃ item ∈ items, ¬KeysDistinct item := by
      by_contra none'
      push Not at none'
      exact twice (.array none')
    obtain ⟨item, mem, itemTwice⟩ := below
    obtain ⟨i, atI⟩ := mem_iff_getElem?.mp mem
    rw [← Bool.not_eq_true, renamed, renamedItems_eq, valuesEqual_array]
    rintro ⟨_, equal⟩
    have equalItem := equal i (renamed item) item (by rw [getElem?_map, atI]; rfl) atI
    rw [ih item mem itemTwice] at equalItem
    cases equalItem
  | object members ih =>
    rw [← Bool.not_eq_true, renamed, valuesEqual_object]
    rintro ⟨_, equal⟩
    by_cases keys : (members.map Prod.fst).Nodup
    · have below : ∃ mem ∈ members, ¬KeysDistinct mem.2 := by
        by_contra none'
        push Not at none'
        exact twice (.object keys none')
      obtain ⟨mem, inMembers, memberTwice⟩ := below
      rw [renameKeys_of_nodup (by rw [keys_renamedMembers]; exact keys)
        (by simp), renamedMembers_eq] at equal
      obtain ⟨y, found, equalY⟩ := equal (mem.1, renamed mem.2) (mem_map_of_mem inMembers)
      rw [findMember_of_mem keys inMembers] at found
      cases found
      rw [ih mem inMembers memberTwice] at equalY
      cases equalY
    · have again : ¬(((renamedMembers members).map Prod.fst).Nodup ∧
          ∀ key ∈ (renamedMembers members).map Prod.fst, key ∉ ([] : List CStr)) := by
        rw [keys_renamedMembers]
        exact fun both => keys both.1
      obtain ⟨mem, inRenamed, long⟩ := exists_long_key (n := aboveKeys members) again
      obtain ⟨y, found, _⟩ := equal mem inRenamed
      have known := findMember_isSome.mp (Option.isSome_of_mem found)
      have short := length_lt_aboveKeys known
      omega

section Comparison

variable (general : Double → List UInt8)

theorem fieldListed_nil (name : CStr) : jsondiffFieldListed [] name = false := by
  have nothing : listEntries [] = [] := by decide
  rw [jsondiffFieldListed, nothing]
  rfl

theorem jsondiffCompute_unkeyed (live sup : Value) (ignoreFields : CStr) :
    jsondiffCompute general live sup CStr.empty ignoreFields = record ⟨[], false, []⟩
        (changesOf (jsondiffFieldListed ignoreFields.bytes) live sup) := by
  have place : ∀ cs : List Change, cs.map (Change.below []) = cs := by
    intro cs
    exact map_id cs
  have walk := diffWalk_eq (jsondiffFieldListed ignoreFields.bytes) live ⟨[], false, []⟩ [] sup
  rw [place] at walk
  rw [← walk]
  cases live with
  | array live =>
    cases sup with
    | array sup =>
      rw [jsondiffCompute, diffArrays, if_pos rfl, diffWalk]
      rfl
    | _ => rfl
  | _ => rfl

theorem jsondiffEqualIgnoring_iff {a b : Value} {ignoreFields : CStr} :
    jsondiffEqualIgnoring general a b ignoreFields = true ↔
      changesOf (jsondiffFieldListed ignoreFields.bytes) a b = [] := by
  rw [jsondiffEqualIgnoring, jsondiffCompute_unkeyed, decide_eq_true_eq]
  have limit := (record_limit ⟨[], false, []⟩ (Nat.zero_le _) rfl
    (changesOf (jsondiffFieldListed ignoreFields.bytes) a b)).1
  rw [Diff.count, limit, nil_append, length_take]
  have positive : maxChanges = 512 := rfl
  rw [← length_eq_zero_iff]
  omega

theorem jsondiffEqualIgnoring_empty {a b : Value} (distinct : KeysDistinct a)
    (distinct' : KeysDistinct b) :
    jsondiffEqualIgnoring general a b CStr.empty = valuesEqual a b := by
  have never : jsondiffFieldListed CStr.empty.bytes = fun _ => false := funext fieldListed_nil
  rw [Bool.eq_iff_iff, jsondiffEqualIgnoring_iff, never,
    changesOf_eq_nil distinct distinct', valuesEqual_iff distinct distinct']

structure Plain (v : Value) : Prop where
  keys : KeysDistinct v
  numbers : NumbersReadable v

/-- Comparing with a tree is sound: with itself, with plain trees from either
side, and in chains that pass through it. -/
structure ComparesSoundly (t : Value) : Prop where
  refl : valuesEqual t t = true
  symm : ∀ u, Plain u → valuesEqual t u = valuesEqual u t
  trans : ∀ u w, Plain u → Plain w → (valuesEqual t u = true → valuesEqual u w = true →
      valuesEqual t w = true) ∧
    (valuesEqual u t = true → valuesEqual t w = true → valuesEqual u w = true) ∧
    (valuesEqual u w = true → valuesEqual w t = true → valuesEqual u t = true)
  agrees : ∀ u, u = t ∨ Plain u → jsondiffEqualIgnoring general t u CStr.empty = valuesEqual t u ∧
    jsondiffEqualIgnoring general u t CStr.empty = valuesEqual u t

/-- A tree that the parser returns compares soundly exactly when none of its
objects has a key twice. -/
theorem comparesSoundly_iff (t : Value) (parsed : ∃ text, jsonParse text = some t) :
    ComparesSoundly general t ↔ KeysDistinct t := by
  constructor
  · intro sound
    by_contra twice
    obtain ⟨text, isText⟩ := parsed
    have plain : Plain (renamed t) :=
      ⟨renamed_distinct t, renamed_readable (jsonParse_readable isText)⟩
    have fromLeft := valuesEqual_renamed sound.refl
    rw [sound.symm (renamed t) plain, renamed_not_equal twice] at fromLeft
    cases fromLeft
  · intro distinct
    constructor
    · exact (valuesEqual_iff distinct distinct).mpr (Agree.refl t)
    · intro u plain
      rw [Bool.eq_iff_iff, valuesEqual_iff distinct plain.keys, valuesEqual_iff plain.keys distinct]
      exact ⟨Agree.symm, Agree.symm⟩
    · intro u w plainU plainW
      rw [valuesEqual_iff distinct plainU.keys, valuesEqual_iff plainU.keys plainW.keys,
        valuesEqual_iff distinct plainW.keys,
        valuesEqual_iff plainU.keys distinct,
        valuesEqual_iff plainW.keys distinct]
      exact ⟨Agree.trans, Agree.trans, Agree.trans⟩
    · intro u known
      have distinct' : KeysDistinct u := by
        rcases known with isT | plain
        · rw [isT]
          exact distinct
        · exact plain.keys
      exact ⟨jsondiffEqualIgnoring_empty general distinct distinct',
        jsondiffEqualIgnoring_empty general distinct' distinct⟩

end Comparison

def twiceDoc : Doc :=
  .obj [("a", .str "x"), ("a", .str "y")]

def onceDoc : Doc :=
  .obj [("a", .str "x"), ("b", .str "y")]

theorem once_comparesSoundly : ComparesSoundly (fun _ => []) onceDoc.value := by
  apply (comparesSoundly_iff (fun _ => []) onceDoc.value ⟨onceDoc.text, jsonParse_text onceDoc⟩).mpr
  refine .object (by decide +kernel) ?_
  intro mem inMembers
  simp only [Doc.memberValues, mem_cons, not_mem_nil, or_false] at inMembers
  rcases inMembers with rfl | rfl
  · exact .string _
  · exact .string _

theorem twice_not_equal_to_itself : ¬∀ t, (∃ text, jsonParse text = some t) →
      ComparesSoundly (fun _ => []) t := by
  intro claimed
  have sound := claimed twiceDoc.value ⟨twiceDoc.text, jsonParse_text twiceDoc⟩
  have equal := sound.refl
  revert equal
  decide +kernel

end Cix.Json
