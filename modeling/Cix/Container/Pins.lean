import Cix.Container.Creation
import Cix.Json.Local

/-!
# The pin as text and as a member

`containerdef_patch_image_version` finds the version by its text; a replay
finds it by parsing.  The two agree on a body in which the first occurrence of
the text is the name of the first top-level member of that name: then a change
of the text changes the value of that member and nothing else.
-/

namespace Cix.Container

open Cix.Lib Cix.Json
open List hiding asString

def versionKey : CStr := "image_version"

def usernsKey : CStr := "userns"

theorem pinKey_eq : pinKey = escapedString versionKey ++ [58, 34] := by
  decide

/-! ## Reading the pin -/

variable {text : List UInt8} {value : CStr}

def Spells (text : List UInt8) (value : CStr) : Prop :=
  parseStringRaw (34 :: (text ++ [34])) = some (value, [])

theorem Spells.read (spells : Spells text value) (rest : List UInt8) :
    parseStringRaw (34 :: (text ++ 34 :: rest)) = some (value, rest) := by
  obtain ⟨used, split, again⟩ := parseStringRaw_local spells
  rw [List.cons.injEq, append_nil] at split
  have next := again rest
  rw [← split.2, append_assoc] at next
  exact next

theorem parseStringLoop_plain {bytes : List UInt8}
    (plain : ∀ c ∈ bytes, c ≠ 34 ∧ c ≠ 92) (rest : List UInt8) {fuel : Nat}
    (enough : bytes.length < fuel) :
    parseStringLoop fuel (bytes ++ 34 :: rest) = some (bytes, rest) := by
  induction bytes generalizing fuel with
  | nil =>
    obtain ⟨fuel, rfl⟩ := Nat.exists_eq_succ_of_ne_zero (Nat.ne_of_gt enough)
    rfl
  | cons c bytes ih =>
    obtain ⟨fuel, rfl⟩ := Nat.exists_eq_succ_of_ne_zero (by omega : fuel ≠ 0)
    have head := plain c mem_cons_self
    have later := ih (fun b mem => plain b (mem_cons_of_mem c mem)) (Nat.lt_of_succ_lt_succ enough)
    simp only [cons_append, parseStringLoop, if_neg head.1, if_neg head.2, later, Option.map_some]

theorem ImageVersion.spells (version : ImageVersion) : Spells version.str.bytes version.str := by
  have read := parseStringLoop_plain version.plain [] (by
      rw [length_append]
      omega : version.str.bytes.length < (version.str.bytes ++ [34]).length + 1)
  rw [Spells, parseStringRaw, read]
  simp

theorem parseMembers_pin (spells : Spells text value) (n : Nat)
    (members : List (CStr × Value)) (rest : List UInt8) :
    parseMembers (n + 2) members (pinKey ++ (text ++ 34 :: rest)) =
      match skipWs rest with
      | 44 :: rest =>
        parseMembers (n + 1) (members ++ [(versionKey, .string value)]) rest
      | 125 :: rest => some (.object (members ++ [(versionKey, .string value)]), rest)
      | _ => none := by
  have named : parseStringRaw (skipWs (pinKey ++ (text ++ 34 :: rest))) =
      some (versionKey, 58 :: 34 :: (text ++ 34 :: rest)) := by
    rw [pinKey_eq, append_assoc]
    have start : ∀ tail, skipWs (escapedString versionKey ++ tail) =
        escapedString versionKey ++ tail := fun tail =>
      skipWs_cons _ (by decide)
    rw [start, parseStringRaw_escapedString]
    rfl
  have colon : skipWs (58 :: 34 :: (text ++ 34 :: rest)) =
      58 :: 34 :: (text ++ 34 :: rest) := skipWs_cons _ (by decide)
  have valued : parseValue (n + 1) (34 :: (text ++ 34 :: rest)) = some (.string value, rest) := by
    rw [parseValue_string, spells.read]
    rfl
  rw [parseMembers, named]
  simp only [colon, valued] <;> rfl

/-! ## Before a member -/

variable {members all : List (CStr × Value)} {before rest : List UInt8}

def AtMember (before : List UInt8) (members : List (CStr × Value)) : Prop :=
  (members = [] ∧ ∃ ws blanks, (∀ c ∈ ws, isWs c = true) ∧
    (∀ c ∈ blanks, isWs c = true) ∧ before = ws ++ 123 :: blanks) ∨
  (members ≠ [] ∧ ∃ front blanks, (∀ c ∈ blanks, isWs c = true) ∧ before = front ++ 44 :: blanks ∧
    jsonParse (front ++ [125]) = some (.object members))

theorem rdropWhile_brace (front : List UInt8) {ws : List UInt8} (blank : ∀ c ∈ ws, isWs c = true) :
    (front ++ 125 :: ws).rdropWhile isWs = front ++ [125] := by
  induction ws using List.reverseRecOn with
  | nil => exact rdropWhile_concat_neg _ _ _ (by decide)
  | append_singleton ws c ih =>
    have last := blank c (by simp)
    have shorter := ih fun b mem =>
      blank b (mem_append_left [c] mem)
    rw [← cons_append, ← append_assoc, rdropWhile_concat_pos _ _ _ last, shorter]

theorem AtMember.reads (position : AtMember before members) :
    ∃ k, k ≤ before.length ∧ ∀ rest n, before.length < n →
      parseValue n (before ++ 34 :: rest) = parseMembers (n - k) members (34 :: rest) := by
  rcases position with ⟨rfl, ws, blanks, blank, blank', rfl⟩ |
    ⟨nonempty, front, blanks, blank, rfl, parsed⟩
  · refine ⟨1, by simp only [length_append, length_cons]; omega,
      ?_⟩
    intro rest n enough
    obtain ⟨n, rfl⟩ := Nat.exists_eq_succ_of_ne_zero (by omega : n ≠ 0)
    rw [append_assoc, parseValue_ws blank, cons_append,
      parseValue_object n (skipWs_append_cons blank' rest (by decide)) (by decide)]
    rfl
  · obtain ⟨other, ws, split, blank', fewer, _, continues⟩ := jsonParse_object parsed
    have same : front = other := by
      have trimmed := congrArg (List.rdropWhile isWs) split
      rw [rdropWhile_brace other blank', rdropWhile_concat_neg _ _ _ (by decide)] at trimmed
      exact append_cancel_right trimmed
    subst same
    refine ⟨1 + members.length, ?_, ?_⟩
    · simp only [length_append, length_cons]
      omega
    · intro rest n enough
      simp only [length_append, length_cons] at enough
      have led := continues nonempty (blanks ++ 34 :: rest) n (by omega)
      rw [append_assoc, cons_append, led, Nat.sub_sub]
      exact parseMembers_ws blank _ _ _

theorem jsonParse_replace (position : AtMember before members) (spells : Spells text value)
    (parsed : jsonParse (before ++ (pinKey ++ (text ++ 34 :: rest))) = some (.object all)) :
    ∃ later, all = members ++ (versionKey, .string value) :: later ∧
      ∀ other otherValue, Spells other otherValue →
        jsonParse (before ++ (pinKey ++ (other ++ 34 :: rest))) = some
          (.object (members ++ (versionKey, .string otherValue) :: later)) := by
  obtain ⟨k, short, reads⟩ := position.reads
  -- The whole text is read as the members before the pin, and then the pin.
  have led : ∀ other otherValue, Spells other otherValue → ∃ n, rest.length < n ∧
      parseValue ((before ++ (pinKey ++ (other ++ 34 :: rest))).length + 1)
        (before ++ (pinKey ++ (other ++ 34 :: rest))) =
      match skipWs rest with
      | 44 :: rest => parseMembers n
          (members ++ [(versionKey, .string otherValue)]) rest
      | 125 :: rest => some
          (.object (members ++ [(versionKey, .string otherValue)]), rest)
      | _ => none := by
    intro other otherValue spellsOther
    have size : (before ++ (pinKey ++ (other ++ 34 :: rest))).length + 1 =
        before.length + 17 + other.length + rest.length + 2 := by
      simp only [length_append, length_cons,
        show pinKey.length = 17 by decide]
      omega
    have start : pinKey ++ (other ++ 34 :: rest) =
        34 :: (pinKey.tail ++ (other ++ 34 :: rest)) := rfl
    refine ⟨before.length + 17 + other.length + rest.length - k + 1, by omega, ?_⟩
    rw [size]
    have first := reads (pinKey.tail ++ (other ++ 34 :: rest))
      (before.length + 17 + other.length + rest.length + 2) (by omega)
    rw [← start] at first
    rw [first, show before.length + 17 + other.length + rest.length + 2 - k =
      before.length + 17 + other.length + rest.length - k + 2 by omega]
    exact parseMembers_pin spellsOther _ members rest
  unfold jsonParse at parsed
  obtain ⟨n, _, isRead⟩ := led text value spells
  rw [isRead] at parsed
  split at parsed
  · cases parsed
  next v last isValue =>
    split at parsed
    next ended =>
      cases parsed
      split at isValue
      next tail comma =>
        obtain ⟨inner, more, _, _, isObject, split, again, _⟩ :=
          (all_local n).2.2 _ _ _ _ isValue
        cases isObject
        refine ⟨more, by simp, ?_⟩
        intro other otherValue spellsOther
        obtain ⟨m, enough, isOther⟩ := led other otherValue spellsOther
        obtain ⟨ws, _, splitRest, _⟩ := split_skipWs comma
        have inside : inner.length < m := by
          rw [splitRest, split] at enough
          simp only [length_append, length_cons] at enough
          omega
        have same := again last m inside
        rw [← split] at same
        obtain ⟨more', isMore, others⟩ := parseMembers_other same
        rw [Value.object.injEq] at isMore
        have equal := append_cancel_left isMore
        subst equal
        rw [jsonParse, isOther, comma]
        simp only [others, ended, if_true]
        simp
      next tail brace =>
        cases isValue
        refine ⟨[], rfl, ?_⟩
        intro other otherValue spellsOther
        obtain ⟨m, enough, isOther⟩ := led other otherValue spellsOther
        rw [jsonParse, isOther, brace]
        simp only [ended, if_true]
      next => cases isValue
    next => cases parsed

/-! ## Splicing -/

variable {body : List UInt8}

def usernsMember (hasUserns userns : Bool) : List (CStr × Value) :=
  if hasUserns then [] else [(usernsKey, .bool userns)]

theorem parse_usernsPin (n : Nat) (members : List (CStr × Value)) (hasUserns userns : Bool) :
    (match skipWs (usernsPin hasUserns userns ++ [125]) with
      | 44 :: rest => parseMembers (n + 2) members rest
      | 125 :: rest => some (.object members, rest)
      | _ => none) =
    some (.object (members ++ usernsMember hasUserns userns), []) := by
  cases hasUserns with
  | true =>
    have brace : skipWs ([] ++ [125]) = [125] := by decide
    simp only [usernsPin, usernsMember, if_true, brace, append_nil]
  | false =>
    have comma : usernsPin false userns ++ [125] = 44 :: (escapedString usernsKey ++ 58 ::
          (ascii (if userns then "true" else "false") ++ [125])) := by
      cases userns <;> decide
    have skipped : skipWs (usernsPin false userns ++ [125]) = usernsPin false userns ++ [125] := by
      rw [comma]
      exact skipWs_cons _ (by decide)
    rw [skipped, comma]
    simp only
    have start : ∀ tail, skipWs (escapedString usernsKey ++ tail) =
        escapedString usernsKey ++ tail := fun tail =>
      skipWs_cons _ (by decide)
    have literal : parseValue (n + 1) (ascii (if userns then "true" else "false") ++ [125]) =
          some (.bool userns, [125]) := by
      cases userns with
      | true => exact (parseValue_literal n [125]).1
      | false => exact (parseValue_literal n [125]).2.1
    rw [parseMembers, start, parseStringRaw_escapedString]
    simp only [skipWs_cons _ (by decide : isWs 58 = false), literal,
      skipWs_cons _ (by decide : isWs 125 = false)]
    rfl

theorem splicePins_parse (version : ImageVersion) (hasUserns userns : Bool)
    (parsed : jsonParse body = some (.object members)) (nonempty : members ≠ [])
    :
    ∃ front ws, body = front ++ 125 :: ws ∧ (∀ c ∈ ws, isWs c = true) ∧
      AtMember (front ++ [44]) members ∧
      splicePins body version hasUserns userns =
        front ++ 44 :: (pinKey ++ (version.str.bytes ++ 34 ::
          (usernsPin hasUserns userns ++ [125]))) ∧
      jsonParse (splicePins body version hasUserns userns) =
        some (.object (members ++ (versionKey, .string version.str) ::
          usernsMember hasUserns userns)) := by
  obtain ⟨front, ws, split, blank, fewer, again, _⟩ := jsonParse_object parsed
  have closed : jsonParse (front ++ [125]) = some (.object members) := by
    rw [jsonParse, again [] _ (by simp)]
    simp [skipWs]
  have position : AtMember (front ++ [44]) members :=
    Or.inr ⟨nonempty, front, [], by simp, rfl, closed⟩
  have spliced : splicePins body version hasUserns userns =
      front ++ 44 :: (pinKey ++ (version.str.bytes ++ 34 ::
        (usernsPin hasUserns userns ++ [125]))) := by
    rw [splicePins, split]
    simp only [rdropWhile_brace front blank]
    simp
  refine ⟨front, ws, split, blank, position, spliced, ?_⟩
  rw [spliced]
  obtain ⟨k, short, reads⟩ := position.reads
  generalize tailIs : usernsPin hasUserns userns ++ [125] = tail
  have text : front ++ 44 :: (pinKey ++ (version.str.bytes ++ 34 :: tail)) =
      (front ++ [44]) ++ 34 :: (pinKey.tail ++ (version.str.bytes ++ 34 :: tail)) := by
    rw [append_assoc]
    rfl
  have size : (front ++ 44 :: (pinKey ++ (version.str.bytes ++
      34 :: tail))).length + 1 = (front ++ [44]).length +
        (16 + version.str.bytes.length + tail.length) + 3 := by
    simp only [length_append, length_cons, length_nil,
      show pinKey.length = 17 by decide]
    omega
  have led := reads (pinKey.tail ++ (version.str.bytes ++ 34 :: tail))
    ((front ++ [44]).length + (16 + version.str.bytes.length + tail.length) + 3) (by omega)
  have key : 34 :: (pinKey.tail ++ (version.str.bytes ++ 34 :: tail)) =
      pinKey ++ (version.str.bytes ++ 34 :: tail) := rfl
  obtain ⟨n, isFuel⟩ : ∃ n, (front ++ [44]).length + (16 +
      version.str.bytes.length + tail.length) + 3 - k = n + 1 + 2 :=
    ⟨(front ++ [44]).length + (16 + version.str.bytes.length + tail.length) - k, by omega⟩
  rw [jsonParse, size, text, led, isFuel, key, parseMembers_pin version.spells, ← tailIs]
  have pinned := parse_usernsPin n (members ++ [(versionKey, .string version.str)]) hasUserns userns
  rw [pinned]
  simp [skipWs]

/-! ## A body whose pin is where the text says -/

def setMember (key : CStr) (value : Value) : List (CStr × Value) → List (CStr × Value)
  | [] => []
  | m :: rest =>
    if m.1 = key then (key, value) :: rest
    else m :: setMember key value rest

theorem setMember_append {key : CStr} {members : List (CStr × Value)}
    (absent : findMember key members = none) (value old : Value)
    (later : List (CStr × Value)) :
    setMember key value (members ++ (key, old) :: later) = members ++ (key, value) :: later := by
  induction members with
  | nil =>
    rw [nil_append, setMember, if_pos rfl]
    rfl
  | cons m rest ih =>
    rw [findMember] at absent
    split at absent
    · cases absent
    next other =>
      rw [cons_append, setMember, if_neg other, ih absent]
      rfl

theorem findMember_append_cons (key : CStr) (value : Value) (members later : List (CStr × Value)) :
    findMember key (members ++ (key, value) :: later) =
      some ((findMember key members).getD value) := by
  induction members with
  | nil => simp [findMember]
  | cons m rest ih =>
    by_cases here : m.1 = key
    · simp [findMember, here]
    · rw [cons_append, findMember, if_neg here, ih, findMember, if_neg here]

theorem setMember_setMember (key : CStr) (value old : Value) (members : List (CStr × Value)) :
    setMember key value (setMember key old members) =
      setMember key value members := by
  induction members with
  | nil => rfl
  | cons m rest ih =>
    by_cases here : m.1 = key
    · simp [setMember, here]
    · simp only [setMember, if_neg here, ih]

theorem findMember_setMember (key : CStr) (value : Value)
    (members : List (CStr × Value)) (name : CStr) :
    findMember name (setMember key value members) =
      if name = key then (findMember key members).map fun _ => value
      else findMember name members := by
  induction members with
  | nil => simp [setMember, findMember]
  | cons m rest ih =>
    rw [setMember]
    by_cases here : m.1 = key
    · rw [if_pos here]
      by_cases same : name = key
      · simp [findMember, here, same]
      · simp [findMember, here, same, Ne.symm same]
    · rw [if_neg here]
      by_cases same : name = key
      · subst same
        simp only [findMember, if_neg here, ih, if_true]
      · simp only [findMember, ih, if_neg same]

/-- The first occurrence of the text of the pin is the name of the first member of
that name. -/
structure PinAt (body before text rest : List UInt8)
    (members : List (CStr × Value)) (value : CStr) : Prop where
  split : body = before ++ (pinKey ++ (text ++ 34 :: rest))
  first : strstr pinKey body = some (before, text ++ 34 :: rest)
  unquoted : 34 ∉ text
  position : AtMember before members
  absent : findMember versionKey members = none
  spells : Spells text value
  nonempty : value ≠ CStr.empty

def Pinned (all : List (CStr × Value)) (version : ImageVersion) (body : List UInt8) : Prop :=
  0 ∉ body ∧ ∃ before text rest members value, PinAt body before text rest members value ∧
    value.truncate 65 = version.str ∧
    findMember versionKey all ≠ none ∧
    jsonParse body = some (.object (setMember versionKey (.string value) all))

theorem cstrAt_of_nulFree {bytes : List UInt8} (nulFree : 0 ∉ bytes) : cstrAt bytes = bytes := by
  apply takeWhile_eq_self_iff.mpr
  intro byte mem
  simp only [decide_eq_true_eq]
  rintro rfl
  exact nulFree mem

theorem takeWhile_quote (unquoted : 34 ∉ text) (rest : List UInt8) :
    (text ++ 34 :: rest).takeWhile (· ≠ 34) = text := by
  have other : ∀ c ∈ text, decide (c ≠ 34) = true := by
    intro c mem
    simp only [decide_eq_true_eq]
    rintro rfl
    exact unquoted mem
  rw [takeWhile_append_of_pos other]
  simp

theorem PinAt.patchBody {body before text rest : List UInt8}
    {members : List (CStr × Value)} {value : CStr}
    (pin : PinAt body before text rest members value) (nulFree : 0 ∉ body)
    (version : CStr) :
    patchBody body version = some (before ++ (pinKey ++ (version.bytes ++ 34 :: rest))) := by
  have later : ¬ text.length = (text ++ 34 :: rest).length := by
    simp only [length_append, length_cons]
    omega
  have dropped : body.drop (before.length + pinKey.length + text.length) = 34 :: rest := by
    rw [pin.split, ← append_assoc, ← append_assoc]
    apply drop_left'
    simp only [length_append]
  rw [Container.patchBody, cstrAt_of_nulFree nulFree, pin.first]
  simp only [takeWhile_quote pin.unquoted, if_neg later, dropped]

theorem Pinned.patch {version : ImageVersion} (pinned : Pinned all version body)
    (next : ImageVersion) :
    ∃ patched, Container.patchBody body next.str = some patched ∧
      Pinned all next patched := by
  obtain ⟨nulFree, before, text, rest, members, value, pin, _, present, parsed⟩ := pinned
  refine ⟨_, pin.patchBody nulFree next.str, ?_, before, next.str.bytes,
    rest, members, next.str, ?_, CStr.truncate_of_fits next.fits, present, ?_⟩
  · intro mem
    rw [pin.split] at nulFree
    simp only [mem_append, mem_cons] at nulFree mem
    have fresh := next.str.nulFree
    tauto
  · refine ⟨rfl, ?_, ?_, pin.position, pin.absent, next.spells,
      next.nonempty⟩
    · have found := pin.first
      rw [pin.split] at found
      exact strstr_replace found _
    · intro mem
      exact (next.plain 34 mem).1 rfl
  · have whole := parsed
    rw [pin.split] at whole
    obtain ⟨later, isAll, replaced⟩ := jsonParse_replace pin.position pin.spells whole
    rw [replaced next.str.bytes next.str next.spells]
    have again := congrArg (setMember versionKey (.string next.str)) isAll
    rw [setMember_append pin.absent, setMember_setMember] at again
    rw [again]

/-! ## What a replay reads -/

theorem ofText_str (version : ImageVersion) : ImageVersion.ofText version.str = some version := by
  rw [ImageVersion.ofText, dif_pos ⟨version.nonempty, version.fits, version.plain⟩]

theorem ofText_eq_some {text : CStr} {version : ImageVersion}
    (valid : ImageVersion.ofText text = some version) : text = version.str := by
  unfold ImageVersion.ofText at valid
  split at valid
  · cases valid
    rfl
  · cases valid

theorem Pinned.version {all : List (CStr × Value)} {version : ImageVersion}
    {body : List UInt8} (pinned : Pinned all version body) (host : Host)
    (image : CStr) :
    resolveImageVersion host image (asString (objectGet (jsonParse body) "image_version")) =
        some version := by
  obtain ⟨_, _, _, _, _, value, pin, fits, present, parsed⟩ := pinned
  have found : asString (objectGet (jsonParse body) "image_version") =
      some value := by
    obtain ⟨old, isOld⟩ := Option.ne_none_iff_exists'.mp present
    rw [parsed, objectGet]
    change asString (findMember versionKey _) = _
    rw [findMember_setMember, if_pos rfl, isOld]
    rfl
  rw [found, resolveImageVersion, if_pos pin.nonempty, fits, ofText_str]

theorem Pinned.member {version : ImageVersion} (pinned : Pinned all version body) {name : String}
    (other : CStr.ofString name ≠ versionKey) :
    objectGet (jsonParse body) name = findMember (CStr.ofString name) all := by
  obtain ⟨_, _, _, _, _, _, _, _, _, parsed⟩ := pinned
  rw [parsed, objectGet, findMember_setMember, if_neg other]

/-! ## What a creation persists -/

def LeavesPin (body : List UInt8) (members : List (CStr × Value)) : Prop :=
  strstr pinKey body = none ∧ findMember versionKey members = none

def BringsPin (body : List UInt8) : Prop :=
  ∃ before text rest members value, PinAt body before text rest members value

theorem BringsPin.parse (pin : PinAt body before text rest members value)
    (parsed : jsonParse body = some (.object all)) :
    findMember versionKey all = some (.string value) ∧
      setMember versionKey (.string value) all = all := by
  have whole := parsed
  rw [pin.split] at whole
  obtain ⟨later, isAll, _⟩ := jsonParse_replace pin.position pin.spells whole
  rw [isAll, setMember_append pin.absent, findMember_append_cons, pin.absent]
  exact ⟨rfl, rfl⟩

theorem BringsPin.truncate {image : CStr} {host : Host} {version : ImageVersion}
    (pin : PinAt body before text rest members value)
    (parsed : jsonParse body = some (.object all))
    (resolved : resolveImageVersion host image
      (asString (objectGet (jsonParse body) "image_version")) =
        some version) : value.truncate 65 = version.str := by
  rw [parsed, objectGet] at resolved
  change resolveImageVersion host image (asString (findMember versionKey all)) = _ at resolved
  rw [(BringsPin.parse pin parsed).1, asString, resolveImageVersion,
    if_pos pin.nonempty] at resolved
  exact ofText_eq_some resolved

theorem split_before_brace {front back ws : List UInt8} (blank : ∀ c ∈ ws, isWs c = true)
    (split : back ++ 34 :: rest = front ++ 125 :: ws) :
    ∃ middle, front = back ++ 34 :: middle ∧ rest = middle ++ 125 :: ws := by
  rcases append_eq_append_iff.mp split with
    ⟨middle, isFront, isRest⟩ | ⟨middle, isBack, isRest⟩
  · cases middle with
    | nil => cases isRest
    | cons c middle =>
      rw [cons_append, List.cons.injEq] at isRest
      obtain ⟨rfl, isRest⟩ := isRest
      exact ⟨middle, isFront, isRest⟩
  · have mem : (34 : UInt8) ∈ 125 :: ws := by
      rw [isRest]
      simp
    rcases mem_cons.mp mem with equal | inside
    · cases equal
    · exact absurd (blank 34 inside) (by decide)

theorem nulFree_usernsPin (hasUserns userns : Bool) :
    (0 : UInt8) ∉ usernsPin hasUserns userns ++ [125] := by
  cases hasUserns <;> cases userns <;> decide

theorem splicePins_pinned {host : Host} {image : CStr} {version : ImageVersion}
    (hasUserns userns : Bool) (nulFree : 0 ∉ body)
    (parsed : jsonParse body = some (.object members)) (nonempty : members ≠ [])
    (resolved : resolveImageVersion host image
      (asString (objectGet (jsonParse body) "image_version")) = some version)
    (spelled : LeavesPin body members ∨ BringsPin body) :
    Pinned (members ++ (versionKey, .string version.str) :: usernsMember hasUserns userns) version
        (splicePins body version hasUserns userns) := by
  obtain ⟨front, ws, split, blank, position, isText, isParsed⟩ :=
    splicePins_parse version hasUserns userns parsed nonempty
  have noNul : (0 : UInt8) ∉ splicePins body version hasUserns userns := by
    have pin := nulFree_usernsPin hasUserns userns
    have fresh := version.str.nulFree
    have key : (0 : UInt8) ∉ pinKey := by decide
    rw [split, mem_append] at nulFree
    rw [isText]
    simp only [mem_append, mem_cons] at nulFree pin ⊢
    simp only [(by decide : ¬ (0 : UInt8) = 44),
      (by decide : ¬ (0 : UInt8) = 34), false_or]
    tauto
  have present : findMember versionKey (members ++ (versionKey, .string version.str) ::
        usernsMember hasUserns userns) ≠ none := by
    rw [findMember_append_cons]
    cases findMember versionKey members <;> simp
  rcases spelled with ⟨unspelled, absent⟩ | ⟨before, text, rest, read, value, pin⟩
  · rw [split] at unspelled
    have found := strstr_append_separator (by decide : (44 : UInt8) ∉ pinKey)
      (strstr_front unspelled) (version.str.bytes ++ 34 :: (usernsPin hasUserns userns ++ [125]))
    refine ⟨noNul, front ++ [44], version.str.bytes,
      usernsPin hasUserns userns ++ [125], members, version.str, ?_,
      CStr.truncate_of_fits version.fits, present, ?_⟩
    · refine ⟨?_, ?_, ?_, position, absent, version.spells, version.nonempty⟩
      · rw [isText, append_assoc]
        rfl
      · rw [isText]
        exact found
      · intro mem
        exact (version.plain 34 mem).1 rfl
    · rw [isParsed, setMember_append absent]
  · have fits := BringsPin.truncate pin parsed resolved
    have whole := pin.split
    rw [split] at whole
    have regrouped : (before ++ (pinKey ++ text)) ++ 34 :: rest = front ++ 125 :: ws := by
      rw [whole]
      simp
    obtain ⟨middle, isFront, _⟩ := split_before_brace blank regrouped
    have respelled : splicePins body version hasUserns userns =
        before ++ (pinKey ++ (text ++ 34 :: (middle ++ 44 :: (pinKey ++
          (version.str.bytes ++ 34 :: (usernsPin hasUserns userns ++ [125])))))) := by
      rw [isText, isFront]
      simp
    have found := pin.first
    rw [pin.split] at found
    have pinNew : PinAt (splicePins body version hasUserns userns) before
        text (middle ++ 44 :: (pinKey ++ (version.str.bytes ++ 34 ::
          (usernsPin hasUserns userns ++ [125])))) read value := by
      refine ⟨respelled, ?_, pin.unquoted, pin.position, pin.absent, pin.spells, pin.nonempty⟩
      rw [respelled]
      exact strstr_replace found _
    refine ⟨noNul, _, _, _, _, value, pinNew, fits, present, ?_⟩
    rw [isParsed, (BringsPin.parse pinNew isParsed).2]

theorem BringsPin.pinned {host : Host} {image : CStr} {version : ImageVersion}
    (brings : BringsPin body) (nulFree : 0 ∉ body)
    (parsed : jsonParse body = some (.object members))
    (resolved : resolveImageVersion host image
      (asString (objectGet (jsonParse body) "image_version")) =
        some version) : Pinned members version body := by
  obtain ⟨before, text, rest, read, value, pin⟩ := brings
  obtain ⟨reads, same⟩ := BringsPin.parse pin parsed
  have fits := BringsPin.truncate pin parsed resolved
  refine ⟨nulFree, before, text, rest, read, value, pin, fits, ?_, ?_⟩
  · rw [reads]
    simp
  · rw [parsed, same]

end Cix.Container
