import Cix.Http.Routes

/-!
# Query strings

`daemon/src/apiroute.c` reads a query string twice: once to refuse a parameter
that the route does not declare, and once for each parameter that a handler
asks for.  Both readers cut the text at `&`; the first ends a key at the first
`=` of its pair, the second looks for an `=` where the key it was given ends.
-/

namespace Cix.Http

open Cix.Lib List Option

def queryOf (path : CStr) : Option (List UInt8) :=
  match path.bytes.dropWhile (· ≠ 63) with
  | [] => none
  | _ :: query => some query

def queryPairs (path : CStr) : List (List UInt8) :=
  match queryOf path with
  | none => []
  | some query => query.splitOn 38

/-- The bytes of a pair that `strcspn` counts. -/
def keyOf (pair : List UInt8) : List UInt8 :=
  pair.takeWhile (· ≠ 61)

/-- `api_route_query_unknown` for a row with these `query_params`; a refusal
carries the name that it writes to `out`. -/
def apiRouteQueryUnknown (queryParams : List CStr) (outSize : Nat)
    (path : CStr) : Option (List UInt8) :=
  (((queryPairs path).map keyOf).find? fun key =>
    key ≠ [] && !queryParams.any fun d => d.bytes = key).map (·.take (outSize - 1))

/-- The test of `url_query_param` on a pair. -/
def holdsKey (key : CStr) (pair : List UInt8) : Bool :=
  key.length < pair.length && pair[key.length]? = some 61 && key.bytes.isPrefixOf pair

/-- The text that the inner loop of `url_query_param` makes of a value. -/
def percentDecoded : List UInt8 → List UInt8
  | [] => []
  | [a] => [a]
  | [a, b] => [a, b]
  | a :: high :: low :: rest =>
    match Json.hexValue high, Json.hexValue low with
    | some h, some l =>
      if a = 37 then UInt8.ofNat (h * 16 + l) :: percentDecoded rest
      else a :: percentDecoded (high :: low :: rest)
    | _, _ => a :: percentDecoded (high :: low :: rest)

/-- `url_query_param`.  The copy stops where `out` is full. -/
def urlQueryParam (path key : CStr) (outSize : Nat) : Option (List UInt8) :=
  ((queryPairs path).find? (holdsKey key)).bind fun pair =>
    let out := percentDecoded (pair.drop (key.length + 1))
    if out ≠ [] ∧ outSize ≤ out.length then none else some out

def occurrenceOf (pair : List UInt8) : Option (List UInt8 × List UInt8) :=
  match pair.dropWhile (· ≠ 61) with
  | [] => none
  | _ :: value => some (keyOf pair, value)

def occurrences (path : CStr) : List (List UInt8 × List UInt8) :=
  (queryPairs path).filterMap occurrenceOf

theorem occurrenceOf_eq_some {pair key value : List UInt8} :
    occurrenceOf pair = some (key, value) ↔ 61 ∉ key ∧ pair = key ++ 61 :: value := by
  constructor
  · intro occurs
    rw [occurrenceOf] at occurs
    have whole := takeWhile_append_dropWhile (p := (· ≠ (61 : UInt8))) (l := pair)
    cases after : pair.dropWhile (· ≠ 61) with
    | nil =>
      rw [after] at occurs
      cases occurs
    | cons c rest =>
      rw [after] at occurs whole
      have isEquals : c = 61 := by
        have head := head?_dropWhile_not (· ≠ (61 : UInt8)) pair
        rw [after] at head
        simpa using head
      obtain ⟨rfl, rfl⟩ := Prod.mk.inj (some.inj occurs)
      refine ⟨?_, ?_⟩
      · intro mem
        simpa using mem_takeWhile_imp mem
      · rw [← isEquals]
        exact whole.symm
  · rintro ⟨plain, rfl⟩
    have before : ∀ c ∈ key, (decide (c ≠ 61)) = true := by
      intro c mem
      simp only [decide_eq_true_eq]
      rintro rfl
      exact plain mem
    rw [occurrenceOf, keyOf, dropWhile_append_of_pos before, takeWhile_append_of_pos before]
    simp

theorem holdsKey_iff {key : CStr} (plain : 61 ∉ key.bytes)
    {pair : List UInt8} :
    holdsKey key pair = true ↔
      occurrenceOf pair = some (key.bytes, pair.drop (key.length + 1)) := by
  rw [occurrenceOf_eq_some, holdsKey]
  constructor
  · intro holds
    simp only [Bool.and_eq_true, decide_eq_true_eq, isPrefixOf_iff_prefix] at holds
    obtain ⟨⟨_, mark⟩, ⟨rest, rfl⟩⟩ := holds
    refine ⟨plain, ?_⟩
    rw [CStr.length, getElem?_append_right (Nat.le_refl _), Nat.sub_self] at mark
    cases rest with
    | nil => cases mark
    | cons c rest =>
      obtain rfl : c = 61 := by simpa using mark
      simp [CStr.length]
  · rintro ⟨_, isPair⟩
    rw [isPair]
    simp [CStr.length, isPrefixOf_iff_prefix]

theorem find_holdsKey {key : CStr} (plain : 61 ∉ key.bytes) (pairs : List (List UInt8)) :
    (pairs.find? (holdsKey key)).map (fun pair => pair.drop (key.length + 1)) =
      ((pairs.filterMap occurrenceOf).find? (·.1 = key.bytes)).map (·.2) := by
  induction pairs with
  | nil => rfl
  | cons pair rest ih =>
    cases holds : holdsKey key pair with
    | true =>
      rw [find?_cons_of_pos holds, filterMap_cons,
        (holdsKey_iff plain).mp holds, find?_cons_of_pos (by simp)]
      rfl
    | false =>
      rw [find?_cons_of_neg (by simp [holds]), ih, filterMap_cons]
      cases occurs : occurrenceOf pair with
      | none => rfl
      | some found =>
        obtain ⟨other, value⟩ := found
        rw [find?_cons_of_neg]
        intro same
        obtain rfl : other = key.bytes := by simpa using same
        have isPair := (occurrenceOf_eq_some.mp occurs).2
        rw [(holdsKey_iff plain).mpr (by
          rw [occurs, isPair, CStr.length]
          simp)] at holds
        cases holds

theorem urlQueryParam_eq {key : CStr} (plain : 61 ∉ key.bytes) (path : CStr) (outSize : Nat) :
    urlQueryParam path key outSize = ((occurrences path).find? (·.1 = key.bytes)).bind fun found =>
        let out := percentDecoded found.2
        if out ≠ [] ∧ outSize ≤ out.length then none else some out := by
  have found := find_holdsKey plain (queryPairs path)
  rw [urlQueryParam, occurrences]
  cases pair : (queryPairs path).find? (holdsKey key) with
  | none =>
    rw [pair, map_none] at found
    rw [map_eq_none_iff.mp found.symm, bind_none, bind_none]
  | some pair' =>
    rw [pair, map_some] at found
    obtain ⟨occurrence, first, value⟩ := map_eq_some_iff.mp found.symm
    rw [first, bind_some, bind_some, value]

theorem declared_of_accepted {queryParams : List CStr} {outSize : Nat}
    {path : CStr}
    (accepted : apiRouteQueryUnknown queryParams outSize path = none)
    {pair : List UInt8} (mem : pair ∈ queryPairs path)
    (nonempty : keyOf pair ≠ []) :
    ∃ d ∈ queryParams, d.bytes = keyOf pair := by
  rw [apiRouteQueryUnknown, map_eq_none_iff, find?_eq_none] at accepted
  have known := accepted _ (mem_map_of_mem mem)
  simpa [nonempty] using known

theorem length_percentDecoded_le (value : List UInt8) :
    (percentDecoded value).length ≤ value.length := by
  fun_induction percentDecoded value with
  | case1 | case2 | case3 => exact Nat.le_refl _
  | case4 high low rest h l _ _ ih =>
    simp only [length_cons]
    omega
  | case5 a high low rest h l _ _ _ ih =>
    simp only [length_cons] at ih ⊢
    omega
  | case6 a high low rest _ ih =>
    simp only [length_cons] at ih ⊢
    omega

/-- A key that the check accepts and a handler can find is declared, and a
declared key that occurs is found with its first value, where the key is a
name: not empty and without an `=`. -/
theorem query_check_agrees (queryParams : List CStr) (path : CStr) :
    (∀ n, apiRouteQueryUnknown queryParams n path = none →
      ∀ (key : CStr) (outSize : Nat) (out : List UInt8), key ≠ CStr.empty → 61 ∉ key.bytes →
        urlQueryParam path key outSize = some out → key ∈ queryParams) ∧
    ∀ key ∈ queryParams, ∀ value,
      (occurrences path).find? (·.1 = key.bytes) = some (key.bytes, value) →
      ∀ outSize, value.length < outSize →
        urlQueryParam path key outSize = some (percentDecoded value) := by
  constructor
  · intro n accepted key outSize out nonempty plain found
    rw [urlQueryParam_eq plain] at found
    obtain ⟨occurrence, first, _⟩ := bind_eq_some_iff.mp found
    have isKey : occurrence.1 = key.bytes := by simpa using find?_some first
    obtain ⟨pair, mem, occurs⟩ := mem_filterMap.mp (mem_of_find?_eq_some first)
    obtain ⟨plain', isPair⟩ := occurrenceOf_eq_some.mp occurs
    have sameKey : keyOf pair = key.bytes := by
      rw [← isKey, keyOf, isPair, takeWhile_append_of_pos]
      · simp
      · intro c inKey
        simp only [decide_eq_true_eq]
        rintro rfl
        exact plain' inKey
    obtain ⟨d, declared, same⟩ := declared_of_accepted accepted mem (by
      rw [sameKey]
      exact fun isNil => nonempty (CStr.ext isNil))
    obtain rfl : d = key := CStr.ext (same.trans sameKey)
    exact declared
  · intro key declared value first outSize room
    have plain : 61 ∉ key.bytes := by
      obtain ⟨pair, _, occurs⟩ := mem_filterMap.mp (mem_of_find?_eq_some first)
      exact (occurrenceOf_eq_some.mp occurs).1
    have short := length_percentDecoded_le value
    rw [urlQueryParam_eq plain, first, bind_some]
    dsimp only
    rw [if_neg]
    rintro ⟨_, full⟩
    omega

/-- A key with an `=` in it, an empty key, and a second value of a key. -/
theorem keys_read_differently : (apiRouteQueryUnknown ["a"] 64 "/x?a=b=c" = none ∧
      urlQueryParam "/x?a=b=c" "a=b" 64 = some [99] ∧
      CStr.ofString "a=b" ∉ [CStr.ofString "a"]) ∧
    (apiRouteQueryUnknown [] 64 "/x?=c" = none ∧ urlQueryParam "/x?=c" CStr.empty 64 = some [99]) ∧
    ([97], [50]) ∈ occurrences "/x?a=1&a=2" ∧ ∀ outSize, urlQueryParam "/x?a=1&a=2"
        (CStr.ofString "a") outSize ≠ some (percentDecoded [50]) := by
  refine ⟨by decide +kernel, by decide +kernel, by decide +kernel, ?_⟩
  intro outSize
  have plain : 61 ∉ (CStr.ofString "a").bytes := by decide +kernel
  have first : (occurrences "/x?a=1&a=2").find?
      (·.1 = (CStr.ofString "a").bytes) = some ([97], [49]) := by
    decide +kernel
  rw [urlQueryParam_eq plain, first, bind_some]
  dsimp only
  split
  · simp
  · simp [percentDecoded]

end Cix.Http
