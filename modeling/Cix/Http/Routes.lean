import Cix.Lib.Selection
import Cix.Json.Parser
import Mathlib.Order.PiLex
import Mathlib.Data.List.Pairwise

/-!
# Routing a request

`daemon/src/apiroute.c` finds the row of the generated route table that serves
a request.  Several rows can match one path; a literal beats a parameter at the
leftmost segment where two of them differ.  A row whose last parameter takes
the rest of the path matches beside longer rows, and this is the one way in
which two rows that differ tie.
-/

namespace Cix.Http

open Cix.Lib List

/-! ## The table -/

def apirouteMaxSegs : Nat := 16

def apirouteMaxParams : Nat := 2

def apirouteParamMax : Nat := 256

/-- `struct api_route`.  A segment is a literal text or `none` for a
parameter. -/
structure Route where
  method : CStr
  segs : List (Option CStr)
  opId : CStr
  restParam : Bool
  segsFit : segs.length ≤ apirouteMaxSegs
  finalParam : restParam = true → segs.getLast? = some none
  deriving DecidableEq

/-! ## The request -/

/-- `split_segments`, on the path without its query. -/
def splitSegments (path : List UInt8) : Option (List (List UInt8)) :=
  match path with
  | [] => none
  | c :: rest =>
    if c ≠ 47 then none
    else
      let segs := rest.splitOn 47
      if segs.any (fun seg => seg.isEmpty || apirouteParamMax ≤ seg.length) ||
          apirouteMaxSegs < segs.length then
        none
      else some segs

def withoutQuery (path : CStr) : List UInt8 :=
  path.bytes.takeWhile (· ≠ 63)

/-- `decode_path_param`; `none` is a refusal. -/
def decodePathParam : List UInt8 → Option (List UInt8)
  | [] => some []
  | [a] => some [a]
  | [a, b] => some [a, b]
  | a :: high :: low :: rest =>
    match Json.hexValue high, Json.hexValue low with
    | some h, some l =>
      if a = 37 then
        let c := UInt8.ofNat (h * 16 + l)
        if c = 47 ∨ c = 0 then none
        else (decodePathParam rest).map (c :: ·)
      else (decodePathParam (high :: low :: rest)).map (a :: ·)
    | _, _ => (decodePathParam (high :: low :: rest)).map (a :: ·)

/-! ## Matching -/

/-- The loop of `route_beats`.  Beyond its last segment a row holds null
pointers, which are parameters. -/
def kindsBeat : List (Option CStr) → List (Option CStr) → Bool
  | [], _ => false
  | a :: as, bs =>
    if a.isSome ≠ (bs.headD none).isSome then a.isSome
    else kindsBeat as bs.tail

def routeBeats (a b : Route) : Bool :=
  kindsBeat a.segs b.segs

namespace Route

def fixed (r : Route) : Nat :=
  if r.restParam then r.segs.length - 1 else r.segs.length

def pairs (r : Route) (segs : List (List UInt8)) : List (Option CStr × List UInt8) :=
  (r.segs.take r.fixed).zip segs

/-- The tests of `api_route_match` on one row. -/
def admits (r : Route) (method : CStr) (segs : List (List UInt8)) : Bool :=
  r.method = method && (if r.restParam then r.segs.length ≤ segs.length
      else segs.length = r.segs.length) &&
    (r.pairs segs).all fun pair =>
      match pair.1 with
      | none => true
      | some literal => literal.bytes = pair.2

def paramSegs (r : Route) (segs : List (List UInt8)) : List (List UInt8) :=
  ((r.pairs segs).filterMap fun pair =>
    match pair.1 with
    | none => some pair.2
    | some _ => none).take apirouteMaxParams

/-- What the last parameter of a row with `rest_param` takes. -/
def remainder (r : Route) (segs : List (List UInt8)) : List UInt8 :=
  [47].intercalate (segs.drop (r.segs.length - 1))

end Route

structure Params where
  decoded : List (List UInt8)
  rest : Option (List UInt8)
  deriving DecidableEq

def decodeParams : List (List UInt8) → Option (List (List UInt8))
  | [] => some []
  | seg :: rest =>
    match decodePathParam seg with
    | none => none
    | some param => (decodeParams rest).map (param :: ·)

/-- The parameters that `api_route_match` extracts for the row it chose. -/
def routeParams (r : Route) (segs : List (List UInt8)) : Option Params :=
  match decodeParams (r.paramSegs segs) with
  | none => none
  | some decoded =>
    if r.restParam && decoded.length < apirouteMaxParams then
      if apirouteParamMax ≤ (r.remainder segs).length then none
      else some ⟨decoded, some (r.remainder segs)⟩
    else some ⟨decoded, none⟩

def apiRouteMatch (routes : List Route) (method path : CStr) : Option (Nat × Params) :=
  match splitSegments (withoutQuery path) with
  | none => none
  | some segs =>
    match bestOf (fun a b => routeBeats a.1 b.1)
        (routes.zipIdx.filter fun row => row.1.admits method segs) with
    | none => none
    | some (r, i) => (routeParams r segs).map fun params => (i, params)

def matchedRow (routes : List Route) (method path : CStr) : Option (Route × Params) :=
  (apiRouteMatch routes method path).bind fun found =>
    routes[found.1]?.map fun r => (r, found.2)

/-! ## The segments of a path -/

theorem notMem_of_mem_splitOn {sep : UInt8} {text piece : List UInt8}
    (mem : piece ∈ text.splitOn sep) : sep ∉ piece := by
  induction text generalizing piece with
  | nil =>
    rw [splitOn_nil, mem_singleton] at mem
    rw [mem]
    exact not_mem_nil
  | cons c rest ih =>
    rw [splitOn_cons_eq_if_modifyHead] at mem
    split at mem
    · rcases mem_cons.mp mem with isNil | inRest
      · rw [isNil]
        exact not_mem_nil
      · exact ih inRest
    · rename_i notSep
      cases pieces : rest.splitOn sep with
      | nil => exact absurd pieces (splitOn_ne_nil sep rest)
      | cons first others =>
        rw [pieces] at mem ih
        rw [modifyHead_cons, mem_cons] at mem
        rcases mem with isFirst | inOthers
        · rw [isFirst, mem_cons, not_or]
          refine ⟨?_, ih mem_cons_self⟩
          intro isSep
          exact notSep (by simp [isSep])
        · exact ih (mem_cons_of_mem _ inOthers)

theorem mem_of_mem_splitOn {sep c : UInt8} {text piece : List UInt8}
    (mem : piece ∈ text.splitOn sep) (inPiece : c ∈ piece) : c ∈ text := by
  have whole : [sep].intercalate (text.splitOn sep) = text := intercalate_splitOn sep
  rw [← whole]
  generalize text.splitOn sep = pieces at mem
  clear whole
  induction pieces with
  | nil => cases mem
  | cons first others ih =>
    cases others with
    | nil =>
      rw [mem_singleton] at mem
      rw [intercalate_singleton, ← mem]
      exact inPiece
    | cons second others =>
      rw [intercalate_cons_cons, mem_append, mem_append]
      rcases mem_cons.mp mem with isFirst | inOthers
      · exact Or.inl (Or.inl (isFirst ▸ inPiece))
      · exact Or.inr (ih inOthers)

structure Segment (seg : List UInt8) : Prop where
  nonempty : seg ≠ []
  short : seg.length < apirouteParamMax
  slashFree : (47 : UInt8) ∉ seg
  nulFree : (0 : UInt8) ∉ seg

theorem splitSegments_segment {path : List UInt8} (nulFree : 0 ∉ path)
    {segs : List (List UInt8)} (split : splitSegments path = some segs) :
    ∀ seg ∈ segs, Segment seg := by
  cases path with
  | nil => cases split
  | cons c rest =>
    rw [splitSegments] at split
    split at split
    · cases split
    · dsimp only at split
      split at split
      · cases split
      · rename_i fine
        cases split
        rw [Bool.not_eq_true, Bool.or_eq_false_iff, any_eq_false] at fine
        intro seg mem
        have bounds := fine.1 seg mem
        simp only [List.isEmpty_iff, Bool.or_eq_true, decide_eq_true_eq, not_or, not_le] at bounds
        exact {
          nonempty := bounds.1
          short := bounds.2
          slashFree := notMem_of_mem_splitOn mem
          nulFree := fun inSeg =>
            nulFree (mem_cons_of_mem _ (mem_of_mem_splitOn mem inSeg)) }

theorem withoutQuery_nulFree (path : CStr) : (0 : UInt8) ∉ withoutQuery path :=
  fun mem => path.nulFree (takeWhile_subset _ mem)

/-! ## Decoding -/

variable {segs : List (List UInt8)}

theorem decodePathParam_safe {seg param : List UInt8}
    (slashFree : (47 : UInt8) ∉ seg) (nulFree : (0 : UInt8) ∉ seg)
    (decoded : decodePathParam seg = some param) :
    (47 : UInt8) ∉ param ∧ (0 : UInt8) ∉ param := by
  fun_induction decodePathParam seg generalizing param with
  | case1 | case2 | case3 =>
    cases decoded
    exact ⟨slashFree, nulFree⟩
  | case4 => cases decoded
  | case5 =>
    rename_i allowed ih
    simp only [mem_cons, not_or] at slashFree nulFree
    obtain ⟨tail, decodedTail, rfl⟩ := Option.map_eq_some_iff.mp decoded
    have safe := ih slashFree.2.2.2 nulFree.2.2.2 decodedTail
    simp only [mem_cons, not_or]
    rw [not_or] at allowed
    exact ⟨⟨Ne.symm allowed.1, safe.1⟩, Ne.symm allowed.2, safe.2⟩
  | case6 a high low rest h l _ _ _ ih =>
    rw [mem_cons, not_or] at slashFree nulFree
    obtain ⟨tail, decodedTail, rfl⟩ := Option.map_eq_some_iff.mp decoded
    have safe := ih slashFree.2 nulFree.2 decodedTail
    simp only [mem_cons, not_or]
    exact ⟨⟨slashFree.1, safe.1⟩, nulFree.1, safe.2⟩
  | case7 a high low rest _ ih =>
    rw [mem_cons, not_or] at slashFree nulFree
    obtain ⟨tail, decodedTail, rfl⟩ := Option.map_eq_some_iff.mp decoded
    have safe := ih slashFree.2 nulFree.2 decodedTail
    simp only [mem_cons, not_or]
    exact ⟨⟨slashFree.1, safe.1⟩, nulFree.1, safe.2⟩

theorem decodePathParam_nonempty {seg param : List UInt8}
    (nonempty : seg ≠ []) (decoded : decodePathParam seg = some param) :
    param ≠ [] := by
  fun_induction decodePathParam seg with
  | case1 => exact absurd rfl nonempty
  | case2 | case3 =>
    cases decoded
    exact cons_ne_nil _ _
  | case4 => cases decoded
  | case5 | case6 | case7 =>
    obtain ⟨tail, _, rfl⟩ := Option.map_eq_some_iff.mp decoded
    exact cons_ne_nil _ _

theorem decodeParams_mem {segs decoded : List (List UInt8)}
    (outcome : decodeParams segs = some decoded) {param : List UInt8}
    (mem : param ∈ decoded) :
    ∃ seg ∈ segs, decodePathParam seg = some param := by
  induction segs generalizing decoded with
  | nil =>
    cases outcome
    cases mem
  | cons seg rest ih =>
    rw [decodeParams] at outcome
    cases first : decodePathParam seg with
    | none =>
      rw [first] at outcome
      cases outcome
    | some head =>
      rw [first] at outcome
      obtain ⟨tail, decodedTail, rfl⟩ := Option.map_eq_some_iff.mp outcome
      rcases mem_cons.mp mem with isHead | inTail
      · exact ⟨seg, mem_cons_self, isHead ▸ first⟩
      · obtain ⟨other, inRest, found⟩ := ih decodedTail inTail
        exact ⟨other, mem_cons_of_mem _ inRest, found⟩

theorem decodeParams_eq_none {segs : List (List UInt8)} : decodeParams segs = none ↔
      ∃ seg ∈ segs, decodePathParam seg = none := by
  induction segs with
  | nil => simp [decodeParams]
  | cons seg rest ih =>
    rw [decodeParams]
    cases first : decodePathParam seg with
    | none => simp [first]
    | some head => simp [first, ih]

theorem decodeParams_length {segs decoded : List (List UInt8)}
    (outcome : decodeParams segs = some decoded) :
    decoded.length = segs.length := by
  induction segs generalizing decoded with
  | nil =>
    cases outcome
    rfl
  | cons seg rest ih =>
    rw [decodeParams] at outcome
    cases first : decodePathParam seg with
    | none =>
      rw [first] at outcome
      cases outcome
    | some head =>
      rw [first] at outcome
      obtain ⟨tail, decodedTail, rfl⟩ := Option.map_eq_some_iff.mp outcome
      rw [length_cons, length_cons, ih decodedTail]

namespace Route

theorem paramSegs_subset {r : Route} {seg : List UInt8}
    (mem : seg ∈ r.paramSegs segs) : seg ∈ segs := by
  obtain ⟨pair, inPairs, isSeg⟩ := mem_filterMap.mp (mem_of_mem_take mem)
  have inZip := of_mem_zip (a := pair.1) (b := pair.2) inPairs
  split at isSeg
  · cases isSeg
    exact inZip.2
  · cases isSeg

def Refuses (r : Route) (segs : List (List UInt8)) : Prop :=
  (∃ seg ∈ r.paramSegs segs, decodePathParam seg = none) ∨
    r.restParam = true ∧ (r.paramSegs segs).length < apirouteMaxParams ∧
      apirouteParamMax ≤ (r.remainder segs).length

end Route

variable {r : Route}

theorem routeParams_eq_none {segs : List (List UInt8)} :
    routeParams r segs = none ↔ r.Refuses segs := by
  rw [routeParams, Route.Refuses, ← decodeParams_eq_none]
  cases outcome : decodeParams (r.paramSegs segs) with
  | none => simp
  | some decoded =>
    simp only [decodeParams_length outcome, reduceCtorEq, false_or]
    split
    · rename_i takesRest
      simp_all
    · rename_i noRest
      simp_all

variable {params : Params}

theorem routeParams_decoded {segs : List (List UInt8)}
    (extracted : routeParams r segs = some params) :
    decodeParams (r.paramSegs segs) = some params.decoded := by
  rw [routeParams] at extracted
  cases outcome : decodeParams (r.paramSegs segs) with
  | none =>
    rw [outcome] at extracted
    cases extracted
  | some decoded =>
    rw [outcome] at extracted
    dsimp only at extracted
    split at extracted
    · split at extracted
      · cases extracted
      · cases extracted
        rfl
    · cases extracted
      rfl

/-! ## The order of the rows -/

variable {method : CStr}

def literalAt (segs : List (Option CStr)) (i : Nat) : Bool :=
  (segs.getD i none).isSome

theorem literalAt_zero (segs : List (Option CStr)) :
    literalAt segs 0 = (segs.headD none).isSome := by
  cases segs <;> rfl

theorem literalAt_succ (segs : List (Option CStr)) (i : Nat) :
    literalAt segs (i + 1) = literalAt segs.tail i := by
  cases segs <;> rfl

theorem kindsBeat_iff (as bs : List (Option CStr)) : kindsBeat as bs = true ↔
      ∃ i, (∀ j < i, literalAt as j = literalAt bs j) ∧
        literalAt as i = true ∧ literalAt bs i = false := by
  induction as generalizing bs with
  | nil => simp [kindsBeat, literalAt]
  | cons a as ih =>
    have here : literalAt (a :: as) 0 = a.isSome := rfl
    have there := literalAt_zero bs
    rw [kindsBeat]
    split
    · rename_i differ
      constructor
      · intro literal
        refine ⟨0, by omega, literal, ?_⟩
        rw [there]
        simpa [literal] using differ
      · rintro ⟨i, before, literal, parameter⟩
        cases i with
        | zero => exact literal
        | succ i =>
          have same := before 0 (by omega)
          rw [here, there] at same
          exact absurd same differ
    · rename_i same
      rw [not_not, ← here, ← there] at same
      rw [ih]
      constructor
      · rintro ⟨i, before, literal, parameter⟩
        refine ⟨i + 1, ?_, literal, ?_⟩
        · intro j inFront
          cases j with
          | zero => exact same
          | succ j =>
            rw [literalAt_succ, literalAt_succ]
            exact before j (by omega)
        · rw [literalAt_succ]
          exact parameter
      · rintro ⟨i, before, literal, parameter⟩
        cases i with
        | zero =>
          rw [same, parameter] at literal
          cases literal
        | succ i =>
          refine ⟨i, ?_, literal, ?_⟩
          · intro j inFront
            have agree := before (j + 1) (by omega)
            rw [literalAt_succ, literalAt_succ] at agree
            exact agree
          · rw [literalAt_succ] at parameter
            exact parameter

def Route.rank (r : Route) : Lex (Nat → Bool) :=
  toLex fun i => literalAt r.segs i

theorem routeBeats_iff (a b : Route) : routeBeats a b = true ↔ b.rank < a.rank := by
  rw [routeBeats, kindsBeat_iff]
  constructor
  · rintro ⟨i, before, literal, parameter⟩
    refine ⟨i, fun j inFront => (before j inFront).symm, ?_⟩
    change literalAt b.segs i < literalAt a.segs i
    rw [literal, parameter]
    exact Bool.false_lt_true
  · rintro ⟨i, before, less⟩
    have strict : literalAt b.segs i < literalAt a.segs i := less
    obtain ⟨parameter, literal⟩ := Bool.lt_iff.mp strict
    exact ⟨i, fun j inFront => (before j inFront).symm, literal, parameter⟩

theorem not_routeBeats_iff (a b : Route) : routeBeats a b = false ↔ a.rank ≤ b.rank := by
  rw [← Bool.not_eq_true]
  exact (not_congr (routeBeats_iff a b)).trans not_lt

theorem rank_eq_iff {a b : Route} :
    a.rank = b.rank ↔ ∀ i, literalAt a.segs i = literalAt b.segs i :=
  ⟨fun same i => congrFun same i, fun same => funext same⟩

/-- A path that ends before the last segment of a row without `rest_param`, or
goes on after it, is not admitted. -/
theorem Route.length_of_admits (admitted : r.admits method segs = true) :
    r.segs.length ≤ segs.length ∧ (r.restParam = false → r.segs.length = segs.length) := by
  rw [admits, Bool.and_eq_true, Bool.and_eq_true] at admitted
  have length := admitted.1.2
  split at length
  · rename_i takesRest
    rw [takesRest]
    exact ⟨of_decide_eq_true length, Bool.noConfusion⟩
  · have equal := of_decide_eq_true length
    exact ⟨equal.ge, fun _ => equal.symm⟩

theorem Route.method_of_admits
    (admitted : r.admits method segs = true) : r.method = method := by
  rw [admits, Bool.and_eq_true, Bool.and_eq_true] at admitted
  exact of_decide_eq_true admitted.1.1

theorem Route.literal_of_admits
    (admitted : r.admits method segs = true) (single : r.restParam = false)
    {i : Nat} {literal : CStr} (atI : r.segs[i]? = some (some literal)) :
    segs[i]? = some literal.bytes := by
  have lengths := (length_of_admits admitted).2 single
  rw [admits, Bool.and_eq_true, all_eq_true] at admitted
  obtain ⟨inRow, rowValue⟩ := List.getElem?_eq_some_iff.mp atI
  have inPath : i < segs.length := by omega
  have paired : (r.segs[i], segs[i]) ∈ r.pairs segs := by
    rw [pairs, fixed, single, if_neg Bool.false_ne_true, take_length]
    apply mem_iff_getElem.mpr
    refine ⟨i, ?_, getElem_zip⟩
    rw [length_zip]
    omega
  have same := admitted.2 _ paired
  rw [rowValue] at same
  rw [getElem?_eq_getElem inPath]
  exact congrArg some (of_decide_eq_true same).symm

/-! ## Ties -/

variable {routes : List Route}

/-- The table lists no operation twice: two rows of one method differ in a
segment or in how they take the last one. -/
def Distinct (routes : List Route) : Prop :=
  routes.Pairwise fun a b =>
    a.method = b.method → a.segs = b.segs → a.restParam ≠ b.restParam

theorem Distinct.eq (distinct : Distinct routes) {a b : Route}
    (aMember : a ∈ routes) (bMember : b ∈ routes) (method : a.method = b.method)
    (segs : a.segs = b.segs) (rest : a.restParam = b.restParam) : a = b := by
  by_contra different
  have symmetric : Std.Symm fun x y : Route =>
      x.method = y.method → x.segs = y.segs → x.restParam ≠ y.restParam :=
    ⟨fun x y apart method segs rest => apart method.symm segs.symm rest.symm⟩
  exact List.Pairwise.forall distinct aMember bMember different method segs rest

/-- Two rows without `rest_param` that match one path and have the same kinds
have the same segments. -/
theorem segs_eq_of_rank {a b : Route} {method : CStr}
    {segs : List (List UInt8)} (aAdmits : a.admits method segs = true)
    (bAdmits : b.admits method segs = true) (aSingle : a.restParam = false)
    (bSingle : b.restParam = false) (same : a.rank = b.rank) :
    a.segs = b.segs := by
  have kinds := rank_eq_iff.mp same
  have aLength := (Route.length_of_admits aAdmits).2 aSingle
  have bLength := (Route.length_of_admits bAdmits).2 bSingle
  apply ext_getElem?
  intro i
  have kind := kinds i
  rw [literalAt, literalAt, getD_eq_getElem?_getD, getD_eq_getElem?_getD] at kind
  cases inA : a.segs[i]? with
  | none =>
    rw [List.getElem?_eq_none_iff] at inA
    rw [eq_comm, List.getElem?_eq_none_iff]
    omega
  | some ofA =>
    obtain ⟨within, _⟩ := List.getElem?_eq_some_iff.mp inA
    have inB := getElem?_eq_getElem (l := b.segs) (i := i) (by omega)
    rw [inB]
    rw [inA, inB] at kind
    cases ofA with
    | none =>
      rw [Option.getD_some, Option.getD_some, Option.isSome_none, eq_comm,
        Option.isSome_eq_false_iff, Option.isNone_iff_eq_none] at kind
      rw [kind]
    | some literal =>
      rw [Option.getD_some, Option.getD_some, Option.isSome_some, eq_comm,
        Option.isSome_iff_exists] at kind
      obtain ⟨other, isOther⟩ := kind
      rw [isOther] at inB ⊢
      have fromA := Route.literal_of_admits aAdmits aSingle inA
      have fromB := Route.literal_of_admits bAdmits bSingle inB
      rw [fromA] at fromB
      rw [CStr.ext (Option.some.inj fromB)]

/-- The shorter of two matching rows takes the rest of the path, and both have the
same kind of segment at every position. -/
def Tied (a b : Route) : Prop :=
  a ≠ b ∧ a.restParam = true ∧ a.segs.length ≤ b.segs.length ∧
    ∀ i, literalAt a.segs i = literalAt b.segs i

theorem tied_of_rank {routes : List Route} (distinct : Distinct routes)
    {a b : Route} (aMember : a ∈ routes) (bMember : b ∈ routes)
    {method : CStr} {segs : List (List UInt8)}
    (aAdmits : a.admits method segs = true)
    (bAdmits : b.admits method segs = true) (different : a ≠ b)
    (same : a.rank = b.rank) : Tied a b ∨ Tied b a := by
  have kinds := rank_eq_iff.mp same
  have kindsBack := rank_eq_iff.mp same.symm
  obtain ⟨aFits, aExact⟩ := Route.length_of_admits aAdmits
  obtain ⟨bFits, bExact⟩ := Route.length_of_admits bAdmits
  cases aRest : a.restParam with
  | true =>
    rcases Nat.le_total a.segs.length b.segs.length with shorter | longer
    · exact Or.inl ⟨different, aRest, shorter, kinds⟩
    · cases bRest : b.restParam with
      | true => exact Or.inr ⟨different.symm, bRest, longer, kindsBack⟩
      | false =>
        have bLength := bExact bRest
        exact Or.inl ⟨different, aRest, by omega, kinds⟩
  | false =>
    have aLength := aExact aRest
    cases bRest : b.restParam with
    | true => exact Or.inr ⟨different.symm, bRest, by omega, kindsBack⟩
    | false =>
      have segsEq := segs_eq_of_rank aAdmits bAdmits aRest bRest same
      have methodEq := (Route.method_of_admits aAdmits).trans (Route.method_of_admits bAdmits).symm
      exact absurd (distinct.eq aMember bMember methodEq segsEq (aRest.trans bRest.symm)) different

/-! ## The chosen row -/

/-- The row that `api_route_match` settles on before it extracts the
parameters. -/
def chosenRow (routes : List Route) (method : CStr) (segs : List (List UInt8)) : Option Route :=
  bestOf routeBeats (routes.filter fun r => r.admits method segs)

theorem matchedRow_eq {routes : List Route} {method path : CStr}
    {segs : List (List UInt8)}
    (split : splitSegments (withoutQuery path) = some segs) :
    matchedRow routes method path = (chosenRow routes method segs).bind fun r =>
        (routeParams r segs).map fun params => (r, params) := by
  have rows : (routes.zipIdx.filter fun row => row.1.admits method segs).map
      Prod.fst = routes.filter fun r => r.admits method segs := by
    have mapped := filter_map (f := @Prod.fst Route Nat)
      (p := fun r => r.admits method segs) (l := routes.zipIdx)
    rw [zipIdx_map_fst] at mapped
    exact mapped.symm
  rw [chosenRow, ← rows, bestOf_map, matchedRow, apiRouteMatch, split]
  dsimp only
  cases chosen : bestOf (fun a b : Route × Nat => routeBeats a.1 b.1)
      (routes.zipIdx.filter fun row => row.1.admits method segs) with
  | none => rfl
  | some row =>
    have mem := (mem_filter.mp (mem_of_bestOf chosen)).1
    have atIndex := mem_zipIdx_iff_getElem?.mp mem
    cases extracted : routeParams row.1 segs with
    | none => simp [extracted]
    | some params => simp [extracted, atIndex]

theorem matchedRow_none {path : CStr} (split : splitSegments (withoutQuery path) = none) :
    matchedRow routes method path = none := by
  rw [matchedRow, apiRouteMatch, split]
  rfl

theorem chosenRow_spec {row : Route} (chosen : chosenRow routes method segs = some row) :
    row ∈ routes ∧ row.admits method segs = true ∧
      ∀ other ∈ routes, other.admits method segs = true → other.rank ≤ row.rank := by
  have mem := mem_filter.mp (mem_of_bestOf chosen)
  refine ⟨mem.1, mem.2, ?_⟩
  intro other inTable admitted
  exact key_le_of_bestOf routeBeats_iff chosen other (mem_filter.mpr ⟨inTable, admitted⟩)

/-! ## Independence of the order of the table -/

structure Independent (routes : List Route) (method path : CStr) : Prop where
  sameRow : ∀ other : List Route, other.Perm routes →
    matchedRow other method path = matchedRow routes method path
  leads : ∀ row params, matchedRow routes method path = some (row, params) →
    ∃ segs, splitSegments (withoutQuery path) = some segs ∧
      row ∈ routes ∧ row.admits method segs = true ∧
      ∀ other ∈ routes, other.admits method segs = true → ∀ i,
        (∀ j < i, literalAt row.segs j = literalAt other.segs j) →
        literalAt row.segs i ≠ literalAt other.segs i →
        literalAt row.segs i = true
  parameters : ∀ row params, matchedRow routes method path = some (row, params) →
    ∀ param ∈ params.decoded, param ≠ [] ∧ (47 : UInt8) ∉ param ∧ (0 : UInt8) ∉ param

def Contested (routes : List Route) (method : CStr) (segs : List (List UInt8)) : Prop :=
  ∃ a ∈ routes, ∃ b ∈ routes, a.admits method segs = true ∧ b.admits method segs = true ∧ Tied a b ∧
    (∀ other ∈ routes, other.admits method segs = true → routeBeats other a = false) ∧
    ¬(a.Refuses segs ∧ b.Refuses segs)

theorem matchedRow_leads {routes : List Route} {method path : CStr}
    {row : Route}
    (found : matchedRow routes method path = some (row, params)) :
    ∃ segs, splitSegments (withoutQuery path) = some segs ∧
      chosenRow routes method segs = some row ∧
      routeParams row segs = some params := by
  cases split : splitSegments (withoutQuery path) with
  | none =>
    rw [matchedRow_none split] at found
    cases found
  | some segs =>
    rw [matchedRow_eq split] at found
    obtain ⟨chosen, isChosen, extracted⟩ := Option.bind_eq_some_iff.mp found
    obtain ⟨values, isValues, same⟩ := Option.map_eq_some_iff.mp extracted
    cases same
    exact ⟨segs, rfl, isChosen, isValues⟩

theorem matched_parameters {path : CStr} {row : Route}
    (found : matchedRow routes method path = some (row, params)) :
    ∀ param ∈ params.decoded, param ≠ [] ∧ (47 : UInt8) ∉ param ∧ (0 : UInt8) ∉ param := by
  obtain ⟨segs, split, _, extracted⟩ := matchedRow_leads found
  intro param mem
  obtain ⟨seg, inParams, decoded⟩ := decodeParams_mem (routeParams_decoded extracted) mem
  have segment := splitSegments_segment (withoutQuery_nulFree path) split seg
    (Route.paramSegs_subset inParams)
  exact ⟨decodePathParam_nonempty segment.nonempty decoded,
    decodePathParam_safe segment.slashFree segment.nulFree decoded⟩

theorem matched_leads {path : CStr} {row : Route}
    (found : matchedRow routes method path = some (row, params)) :
    ∃ segs, splitSegments (withoutQuery path) = some segs ∧
      row ∈ routes ∧ row.admits method segs = true ∧
      ∀ other ∈ routes, other.admits method segs = true → ∀ i,
        (∀ j < i, literalAt row.segs j = literalAt other.segs j) →
        literalAt row.segs i ≠ literalAt other.segs i →
        literalAt row.segs i = true := by
  obtain ⟨segs, split, chosen, _⟩ := matchedRow_leads found
  obtain ⟨mem, admitted, highest⟩ := chosenRow_spec chosen
  refine ⟨segs, split, mem, admitted, ?_⟩
  intro other inTable otherAdmitted i before differ
  by_contra parameter
  rw [Bool.not_eq_true] at parameter
  have literal : literalAt other.segs i = true := by
    rw [parameter] at differ
    exact Bool.eq_true_of_not_eq_false differ.symm
  have beaten : row.rank < other.rank :=
    (routeBeats_iff other row).mp ((kindsBeat_iff _ _).mpr
      ⟨i, fun j inFront => (before j inFront).symm, literal, parameter⟩)
  exact absurd (highest other inTable otherAdmitted) (not_le_of_gt beaten)

theorem matchedRow_perm {routes : List Route} (distinct : Distinct routes)
    {method path : CStr} {segs : List (List UInt8)}
    (split : splitSegments (withoutQuery path) = some segs)
    (uncontested : ¬Contested routes method segs) {other : List Route}
    (reordered : other.Perm routes) :
    matchedRow other method path = matchedRow routes method path := by
  have permuted := reordered.filter fun r : Route => r.admits method segs
  rw [matchedRow_eq split, matchedRow_eq split]
  cases ours : chosenRow routes method segs with
  | none =>
    have empty := bestOf_eq_none.mp ours
    rw [empty] at permuted
    rw [chosenRow, permuted.eq_nil, bestOf_nil]
  | some row =>
    obtain ⟨inTable, admitted, highest⟩ := chosenRow_spec ours
    cases theirs : chosenRow other method segs with
    | none =>
      have empty := bestOf_eq_none.mp theirs
      rw [empty] at permuted
      rw [chosenRow, permuted.symm.eq_nil, bestOf_nil] at ours
      cases ours
    | some row' =>
      obtain ⟨inOther, admitted', highest'⟩ := chosenRow_spec theirs
      have inTable' := reordered.mem_iff.mp inOther
      have same : row.rank = row'.rank :=
        le_antisymm (highest' row (reordered.mem_iff.mpr inTable) admitted)
          (highest row' inTable' admitted')
      by_cases equal : row = row'
      · rw [equal]
      · have unbeaten : ∀ x : Route, x.rank = row.rank →
            ∀ y ∈ routes, y.admits method segs = true → routeBeats y x = false := by
          intro x ranked y inRoutes yAdmitted
          rw [not_routeBeats_iff, ranked]
          exact highest y inRoutes yAdmitted
        -- the rows tie, so the request refuses both of them
        have refused : row.Refuses segs ∧ row'.Refuses segs := by
          by_contra accepted
          apply uncontested
          rcases tied_of_rank distinct inTable inTable' admitted admitted'
            equal same with tied | tied
          · exact ⟨row, inTable, row', inTable', admitted, admitted',
              tied, unbeaten row rfl, accepted⟩
          · exact ⟨row', inTable', row, inTable, admitted', admitted, tied, unbeaten row' same.symm,
              fun both => accepted both.symm⟩
        rw [← routeParams_eq_none, ← routeParams_eq_none] at refused
        simp [refused.1, refused.2]

theorem contested_orders {routes : List Route} {method path : CStr}
    {segs : List (List UInt8)}
    (split : splitSegments (withoutQuery path) = some segs)
    (contested : Contested routes method segs) :
    ∃ first second : List Route, first.Perm routes ∧ second.Perm routes ∧
      matchedRow first method path ≠ matchedRow second method path := by
  obtain ⟨a, aMember, b, bMember, aAdmits, bAdmits, tied, unbeaten, accepted⟩ := contested
  have same : a.rank = b.rank := rank_eq_iff.mpr tied.2.2.2
  have highest : ∀ c ∈ routes, c.admits method segs = true → c.rank ≤ a.rank := by
    intro c mem admitted
    rw [← not_routeBeats_iff]
    exact unbeaten c mem admitted
  obtain ⟨first, firstPerm, firstBest⟩ :=
    @exists_perm_bestOf _ _ _ _ _ routeBeats_iff routes
      (fun r => r.admits method segs) a aMember aAdmits highest
  obtain ⟨second, secondPerm, secondBest⟩ :=
    @exists_perm_bestOf _ _ _ _ _ routeBeats_iff routes
      (fun r => r.admits method segs) b bMember bAdmits (same ▸ highest)
  refine ⟨first, second, firstPerm, secondPerm, ?_⟩
  rw [matchedRow_eq split, matchedRow_eq split, chosenRow, chosenRow,
    firstBest, secondBest, Option.bind_some, Option.bind_some]
  intro equal
  apply accepted
  rw [← routeParams_eq_none, ← routeParams_eq_none]
  cases ofA : routeParams a segs with
  | none =>
    rw [ofA] at equal
    exact ⟨rfl, Option.map_eq_none_iff.mp equal.symm⟩
  | some params =>
    rw [ofA] at equal
    obtain ⟨_, _, pair⟩ := Option.map_eq_some_iff.mp equal.symm
    exact absurd (Prod.mk.inj pair).1.symm tied.1

/-- Routing is independent of the order of a table that lists no operation
twice exactly for the requests that no two rows compete for. -/
theorem independent_iff (routes : List Route) (distinct : Distinct routes) (method path : CStr) :
    Independent routes method path ↔ ∀ segs, splitSegments (withoutQuery path) = some segs →
        ¬Contested routes method segs := by
  constructor
  · intro independent segs split contested
    obtain ⟨first, second, firstPerm, secondPerm, differ⟩ := contested_orders split contested
    exact differ ((independent.sameRow first firstPerm).trans
      (independent.sameRow second secondPerm).symm)
  · intro uncontested
    refine ⟨?_, fun row params => matched_leads, fun row params => matched_parameters⟩
    intro other reordered
    cases split : splitSegments (withoutQuery path) with
    | none => rw [matchedRow_none split, matchedRow_none split]
    | some segs =>
      exact matchedRow_perm distinct split (uncontested segs split) reordered

/-! ## Two rows that tie -/

/-- A row for `GET /v1/kmod/{name}` that takes the rest of the path. -/
def kmodRow : Route where
  method := "GET"
  segs := [some "v1", some "kmod", none]
  opId := "getKmod"
  restParam := true
  segsFit := by decide
  finalParam := by decide +kernel

/-- A row for `GET /v1/kmod/{name}/{option}`. -/
def kmodOptionRow : Route where
  method := "GET"
  segs := [some "v1", some "kmod", none, none]
  opId := "getKmodOption"
  restParam := false
  segsFit := by decide
  finalParam := by decide

def kmodOptionsRow : Route where
  method := "GET"
  segs := [some "v1", some "kmod", none, some "options"]
  opId := "getKmodOptions"
  restParam := false
  segsFit := by decide
  finalParam := by decide

/-- A literal decides for the path it names. -/
theorem options_independent : Independent [kmodRow, kmodOptionsRow] "GET"
      "/v1/kmod/loop/options" := by
  have distinct : Distinct [kmodRow, kmodOptionsRow] := by
    unfold Distinct
    decide +kernel
  apply (independent_iff _ distinct _ _).mpr
  rintro segs split ⟨a, mem, _, _, _, _, tied, unbeaten, _⟩
  have isKmod : a = kmodRow := by
    rw [mem_cons, mem_singleton] at mem
    rcases mem with isRest | isOptions
    · exact isRest
    · rw [isOptions] at tied
      cases tied.2.1
  have admitted : ∀ found, splitSegments (withoutQuery "/v1/kmod/loop/options") = some found →
      kmodOptionsRow.admits "GET" found = true := by
    decide +kernel
  have stays := unbeaten kmodOptionsRow (by simp) (admitted segs split)
  rw [isKmod] at stays
  cases stays

theorem rows_tie : ¬∀ routes : List Route,
      (routes.Pairwise fun a b => a.method = b.method → a.segs ≠ b.segs) →
        ∀ method path, Independent routes method path := by
  intro claimed
  have independent := claimed [kmodRow, kmodOptionRow] (by decide +kernel)
    "GET" "/v1/kmod/loop/max_loop"
  have same := independent.sameRow [kmodOptionRow, kmodRow] (List.Perm.swap _ _ _)
  revert same
  decide +kernel

end Cix.Http
