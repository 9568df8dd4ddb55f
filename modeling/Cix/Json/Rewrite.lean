import Cix.Json.Roundtrip

/-!
# Writing a parsed tree back

`jw_value` of `daemon/src/json.c`, which writes a tree that `json_parse` has
read.  The stack of `struct json_writer` has `JW_MAX_DEPTH` levels and nothing
checks it, so the result here is `none` as soon as a container would be pushed
past its end.
-/

namespace Cix.Lib.Double

/-- `v == w`, for which a zero has no sign. -/
def Equal (v w : Double) : Prop :=
  match v, w with
  | .finite negative magnitude, .finite negative' magnitude' =>
    signedUnits negative magnitude = signedUnits negative' magnitude'
  | .infinite negative, .infinite negative' => negative = negative'
  | _, _ => False

/-- The number is an integer of magnitude at most `2 ^ 53`. -/
def IsWhole (v : Double) : Prop :=
  ∃ n : Whole, v.eqInt n.value = true

theorem equal_ofWhole {v : Double} {n : Whole}
    (equal : v.eqInt n.value = true) : Equal (ofWhole n) v := by
  cases v with
  | finite negative magnitude =>
    have units : signedUnits negative magnitude = n.value * unitsPerOne := by
      rw [eqInt] at equal
      exact of_decide_eq_true equal
    rw [ofWhole, Equal, signedUnits_ofWhole, units]
  | infinite negative => cases equal

end Cix.Lib.Double

namespace Cix.Json

open Cix.Lib

/-- The conversion `%.2f`. -/
def fixedText : Double → List UInt8
  | .finite negative magnitude =>
    let hundredths := Double.divHalfEven (magnitude.units * 100) unitsPerOne
    (if negative then [45] else []) ++ natText (hundredths / 100) ++
      [46, UInt8.ofNat (48 + hundredths / 10 % 10), UInt8.ofNat (48 + hundredths % 10)]
  | .infinite negative => ascii (if negative then "-inf" else "inf")

/-- `jw_num`, through a buffer of 32 bytes. -/
def jwNum (v : Double) (w : Writer) : Writer :=
  jwRaw ((fixedText v).take 31) (jwValuePrefix w)

def jwMaxDepth : Nat := 16

/-- The store to `w->stack[w->depth]` is inside the array. -/
def Writer.HasRoom (w : Writer) : Prop := w.stack.length < jwMaxDepth

instance (w : Writer) : Decidable w.HasRoom := Nat.decLt _ _

mutual

def jwValue : Value → Writer → Option Writer
  | .null, w => some (jwNull w)
  | .bool b, w => some (jwBool b w)
  | .number n, w =>
    some (if n.eqInt n.toLongLong then jwInt n.toLongLong w
      else jwNum n w)
  | .string s, w => some (jwStr s w)
  | .array items, w =>
    if w.HasRoom then (jwItems items (jwArrOpen w)).map jwArrClose
    else none
  | .object members, w =>
    if w.HasRoom then (jwMembers members (jwObjOpen w)).map jwObjClose
    else none

def jwItems : List Value → Writer → Option Writer
  | [], w => some w
  | item :: rest, w => (jwValue item w).bind (jwItems rest)

def jwMembers : List (CStr × Value) → Writer → Option Writer
  | [], w => some w
  | (key, item) :: rest, w => (jwValue item (jwKey key w)).bind (jwMembers rest)

end

namespace Value

mutual

def depth : Value → Nat
  | .array items => itemsDepth items + 1
  | .object members => membersDepth members + 1
  | _ => 0

def itemsDepth : List Value → Nat
  | [] => 0
  | item :: rest => max item.depth (itemsDepth rest)

def membersDepth : List (CStr × Value) → Nat
  | [] => 0
  | (_, item) :: rest => max item.depth (membersDepth rest)

end

mutual

def WholeNumbers : Value → Prop
  | .number n => n.IsWhole
  | .array items => WholeItems items
  | .object members => WholeMembers members
  | _ => True

def WholeItems : List Value → Prop
  | [] => True
  | item :: rest => item.WholeNumbers ∧ WholeItems rest

def WholeMembers : List (CStr × Value) → Prop
  | [] => True
  | (_, item) :: rest => item.WholeNumbers ∧ WholeMembers rest

end

mutual

def Same : Value → Value → Prop
  | .null, .null => True
  | .bool b, .bool b' => b = b'
  | .number n, .number n' => Double.Equal n n'
  | .string s, .string s' => s = s'
  | .array items, .array items' => SameItems items items'
  | .object members, .object members' => SameMembers members members'
  | _, _ => False

def SameItems : List Value → List Value → Prop
  | [], [] => True
  | item :: rest, item' :: rest' => Same item item' ∧ SameItems rest rest'
  | _, _ => False

def SameMembers : List (CStr × Value) → List (CStr × Value) → Prop
  | [], [] => True
  | (key, item) :: rest, (key', item') :: rest' =>
    key = key' ∧ Same item item' ∧ SameMembers rest rest'
  | _, _ => False

end

mutual

/-- The document that `jw_value` writes for a tree of whole numbers. -/
def toDoc : Value → Doc
  | .null => .null
  | .bool b => .bool b
  | .number n => .int (Double.Whole.ofInt n.toLongLong)
  | .string s => .str s
  | .array items => .arr (toDocs items)
  | .object members => .obj (toMembers members)

def toDocs : List Value → List Doc
  | [] => []
  | item :: rest => item.toDoc :: toDocs rest

def toMembers : List (CStr × Value) → List (CStr × Doc)
  | [] => []
  | (key, item) :: rest => (key, item.toDoc) :: toMembers rest

end

mutual

theorem same_toDoc : ∀ v : Value, v.WholeNumbers → Same v.toDoc.value v
  | .null, _ => by simp [toDoc, Doc.value, Same]
  | .bool b, _ => by simp [toDoc, Doc.value, Same]
  | .number n, whole => by
    rw [WholeNumbers] at whole
    obtain ⟨m, equal⟩ := whole
    have value := Double.toLongLong_of_eqInt equal
    have read : Double.Whole.ofInt n.toLongLong = m := by
      rw [value, Double.Whole.ofInt, dif_pos m.bounded]
    rw [toDoc, Doc.value, Same, read]
    exact Double.equal_ofWhole equal
  | .string s, _ => by simp [toDoc, Doc.value, Same]
  | .array items, whole => by
    rw [WholeNumbers] at whole
    rw [toDoc, Doc.value, Same]
    exact same_toDocs items whole
  | .object members, whole => by
    rw [WholeNumbers] at whole
    rw [toDoc, Doc.value, Same]
    exact same_toMembers members whole

theorem same_toDocs : ∀ items : List Value, WholeItems items →
    SameItems (Doc.itemValues (toDocs items)) items
  | [], _ => by simp [toDocs, Doc.itemValues, SameItems]
  | item :: rest, whole => by
    rw [WholeItems] at whole
    rw [toDocs, Doc.itemValues, SameItems]
    exact ⟨same_toDoc item whole.1, same_toDocs rest whole.2⟩

theorem same_toMembers : ∀ members : List (CStr × Value), WholeMembers members →
    SameMembers (Doc.memberValues (toMembers members)) members
  | [], _ => by simp [toMembers, Doc.memberValues, SameMembers]
  | (key, item) :: rest, whole => by
    rw [WholeMembers] at whole
    rw [toMembers, Doc.memberValues, SameMembers]
    exact ⟨rfl, same_toDoc item whole.1, same_toMembers rest whole.2⟩

end

end Value

theorem stack_jwValuePrefix (w : Writer) : (jwValuePrefix w).stack.length = w.stack.length := by
  obtain ⟨buf, stack⟩ := w
  cases stack with
  | nil => rfl
  | cons frame rest =>
    obtain ⟨container, hasItem⟩ := frame
    cases container <;> rfl

theorem stack_jwKey (key : CStr) (w : Writer) : (jwKey key w).stack.length = w.stack.length := by
  obtain ⟨buf, stack⟩ := w
  cases stack with
  | nil => rfl
  | cons frame rest => rfl

theorem jwRaw_jwKey (key : CStr) (d : Doc) (buf : List UInt8)
    (hasItem : Bool) (stack : List Frame) :
    jwRaw d.text (jwValuePrefix (jwKey key ⟨buf, ⟨.obj, hasItem⟩ :: stack⟩)) =
      ⟨buf ++ separated hasItem [Doc.memberText (key, d)], ⟨.obj, true⟩ :: stack⟩ := by
  cases hasItem <;>
    simp [jwKey, jwValuePrefix, jwRaw, separated, Doc.memberText]

mutual

theorem jwValue_of_fits : ∀ (v : Value) (w : Writer), v.WholeNumbers →
    w.stack.length + v.depth ≤ jwMaxDepth →
    jwValue v w = some (jwRaw v.toDoc.text (jwValuePrefix w))
  | .null, w, _, _ => by rw [jwValue, jwNull, Value.toDoc, Doc.text]
  | .bool b, w, _, _ => by rw [jwValue, jwBool, Value.toDoc, Doc.text]
  | .number n, w, whole, _ => by
    rw [Value.WholeNumbers] at whole
    obtain ⟨m, equal⟩ := whole
    have value := Double.toLongLong_of_eqInt equal
    have bounded : n.toLongLong.natAbs ≤ 2 ^ 53 := by
      rw [value]
      exact m.bounded
    rw [jwValue, if_pos (by rw [value]; exact equal), Value.toDoc]
    exact congrArg some (emits_int bounded w)
  | .string s, w, _, _ => by rw [jwValue, jwStr, Value.toDoc, Doc.text]
  | .array items, w, whole, fits => by
    rw [Value.WholeNumbers] at whole
    rw [Value.depth] at fits
    have room : w.HasRoom := by
      unfold Writer.HasRoom
      omega
    rw [jwValue, if_pos room, jwArrOpen]
    simp only [jwRaw]
    rw [jwItems_of_fits items _ false _ whole (by
      rw [stack_jwValuePrefix]
      omega)]
    simp [jwArrClose, jwRaw, Value.toDoc, Doc.text]
  | .object members, w, whole, fits => by
    rw [Value.WholeNumbers] at whole
    rw [Value.depth] at fits
    have room : w.HasRoom := by
      unfold Writer.HasRoom
      omega
    rw [jwValue, if_pos room, jwObjOpen]
    simp only [jwRaw]
    rw [jwMembers_of_fits members _ false _ whole (by
      rw [stack_jwValuePrefix]
      omega)]
    simp [jwObjClose, jwRaw, Value.toDoc, Doc.text]

theorem jwItems_of_fits : ∀ (items : List Value) (buf : List UInt8)
    (hasItem : Bool) (stack : List Frame), Value.WholeItems items →
    stack.length + 1 + Value.itemsDepth items ≤ jwMaxDepth →
    jwItems items ⟨buf, ⟨.arr, hasItem⟩ :: stack⟩ =
      some ⟨buf ++ separated hasItem (Doc.itemTexts (Value.toDocs items)),
        ⟨.arr, hasItem || !items.isEmpty⟩ :: stack⟩
  | [], buf, hasItem, stack, _, _ => by
    simp [jwItems, Value.toDocs, Doc.itemTexts, separated]
  | item :: rest, buf, hasItem, stack, whole, fits => by
    rw [Value.WholeItems] at whole
    rw [Value.itemsDepth] at fits
    have first := jwValue_of_fits item ⟨buf, ⟨.arr, hasItem⟩ :: stack⟩ whole.1 (by
        rw [List.length_cons]
        omega)
    have written : jwRaw item.toDoc.text (jwValuePrefix ⟨buf, ⟨.arr, hasItem⟩ :: stack⟩) =
        ⟨buf ++ separated hasItem [item.toDoc.text], ⟨.arr, true⟩ :: stack⟩ := by
      cases hasItem <;> simp [jwValuePrefix, jwRaw, separated]
    have others := jwItems_of_fits rest
      (buf ++ separated hasItem [item.toDoc.text]) true stack whole.2
      (by omega)
    rw [jwItems, first, written, Option.bind_some, others]
    simp [Value.toDocs, Doc.itemTexts, separated]

theorem jwMembers_of_fits : ∀ (members : List (CStr × Value))
    (buf : List UInt8) (hasItem : Bool) (stack : List Frame),
    Value.WholeMembers members →
    stack.length + 1 + Value.membersDepth members ≤ jwMaxDepth →
    jwMembers members ⟨buf, ⟨.obj, hasItem⟩ :: stack⟩ = some ⟨buf ++ separated hasItem
          (Doc.memberTexts (Value.toMembers members)),
        ⟨.obj, hasItem || !members.isEmpty⟩ :: stack⟩
  | [], buf, hasItem, stack, _, _ => by
    simp [jwMembers, Value.toMembers, Doc.memberTexts, separated]
  | (key, item) :: rest, buf, hasItem, stack, whole, fits => by
    rw [Value.WholeMembers] at whole
    rw [Value.membersDepth] at fits
    have first := jwValue_of_fits item (jwKey key ⟨buf, ⟨.obj, hasItem⟩ :: stack⟩) whole.1 (by
        rw [stack_jwKey, List.length_cons]
        omega)
    have others := jwMembers_of_fits rest
      (buf ++ separated hasItem [Doc.memberText (key, item.toDoc)]) true
      stack whole.2 (by omega)
    rw [jwMembers, first, jwRaw_jwKey, Option.bind_some, others]
    simp [Value.toMembers, Doc.memberTexts, Doc.memberText, separated]

end

mutual

theorem jwValue_of_deep : ∀ (v : Value) (w : Writer), v.WholeNumbers → w.stack.length ≤ jwMaxDepth →
    jwMaxDepth < w.stack.length + v.depth → jwValue v w = none
  | .null, w, _, inside, deep => by
    simp only [Value.depth] at deep
    omega
  | .bool b, w, _, inside, deep => by
    simp only [Value.depth] at deep
    omega
  | .number n, w, _, inside, deep => by
    simp only [Value.depth] at deep
    omega
  | .string s, w, _, inside, deep => by
    simp only [Value.depth] at deep
    omega
  | .array items, w, whole, inside, deep => by
    rw [Value.WholeNumbers] at whole
    rw [Value.depth] at deep
    rw [jwValue]
    by_cases room : w.HasRoom
    · have level : w.stack.length < jwMaxDepth := room
      rw [if_pos room, jwArrOpen]
      simp only [jwRaw]
      rw [jwItems_of_deep items _ false _ whole (by rw [stack_jwValuePrefix]; omega)
        (by rw [stack_jwValuePrefix]; omega), Option.map_none]
    · rw [if_neg room]
  | .object members, w, whole, inside, deep => by
    rw [Value.WholeNumbers] at whole
    rw [Value.depth] at deep
    rw [jwValue]
    by_cases room : w.HasRoom
    · have level : w.stack.length < jwMaxDepth := room
      rw [if_pos room, jwObjOpen]
      simp only [jwRaw]
      rw [jwMembers_of_deep members _ false _ whole (by rw [stack_jwValuePrefix]; omega)
        (by rw [stack_jwValuePrefix]; omega), Option.map_none]
    · rw [if_neg room]

theorem jwItems_of_deep : ∀ (items : List Value) (buf : List UInt8)
    (hasItem : Bool) (stack : List Frame), Value.WholeItems items →
    stack.length + 1 ≤ jwMaxDepth →
    jwMaxDepth < stack.length + 1 + Value.itemsDepth items →
    jwItems items ⟨buf, ⟨.arr, hasItem⟩ :: stack⟩ = none
  | [], _, _, stack, _, inside, deep => by
    rw [Value.itemsDepth] at deep
    omega
  | item :: rest, buf, hasItem, stack, whole, inside, deep => by
    rw [Value.WholeItems] at whole
    rw [Value.itemsDepth] at deep
    rw [jwItems]
    by_cases fits : stack.length + 1 + item.depth ≤ jwMaxDepth
    · have first := jwValue_of_fits item ⟨buf, ⟨.arr, hasItem⟩ :: stack⟩ whole.1 (by
          rw [List.length_cons]
          omega)
      rw [first, Option.bind_some, jwValuePrefix]
      exact jwItems_of_deep rest _ true stack whole.2 inside (by omega)
    · rw [jwValue_of_deep item _ whole.1 (by rw [List.length_cons]; omega)
        (by rw [List.length_cons]; omega), Option.bind_none]

theorem jwMembers_of_deep : ∀ (members : List (CStr × Value))
    (buf : List UInt8) (hasItem : Bool) (stack : List Frame),
    Value.WholeMembers members → stack.length + 1 ≤ jwMaxDepth →
    jwMaxDepth < stack.length + 1 + Value.membersDepth members →
    jwMembers members ⟨buf, ⟨.obj, hasItem⟩ :: stack⟩ = none
  | [], _, _, stack, _, inside, deep => by
    rw [Value.membersDepth] at deep
    omega
  | (key, item) :: rest, buf, hasItem, stack, whole, inside, deep => by
    rw [Value.WholeMembers] at whole
    rw [Value.membersDepth] at deep
    rw [jwMembers]
    by_cases fits : stack.length + 1 + item.depth ≤ jwMaxDepth
    · have first := jwValue_of_fits item (jwKey key ⟨buf, ⟨.obj, hasItem⟩ :: stack⟩) whole.1 (by
          rw [stack_jwKey, List.length_cons]
          omega)
      rw [first, Option.bind_some, jwRaw_jwKey]
      exact jwMembers_of_deep rest _ true stack whole.2 inside (by omega)
    · rw [jwValue_of_deep item _ whole.1 (by rw [stack_jwKey, List.length_cons]; omega)
        (by rw [stack_jwKey, List.length_cons]; omega), Option.bind_none]

end

def SurvivesRewrite (v : Value) : Prop :=
  ∃ w, jwValue v jwInit = some w ∧ ∃ again, jsonParse w.buf = some again ∧ again.Same v

/-- A parsed tree of whole numbers survives a rewrite exactly when its
containers nest no deeper than the stack of the writer. -/
theorem survivesRewrite_iff_depth (text : List UInt8) (v : Value) :
    jsonParse text = some v → v.WholeNumbers → (SurvivesRewrite v ↔ v.depth ≤ jwMaxDepth) := by
  intro _ whole
  have start : jwInit.stack.length = 0 := rfl
  constructor
  · intro survives
    obtain ⟨w, written, _⟩ := survives
    by_contra deep
    have past := jwValue_of_deep v jwInit whole (by omega) (by omega)
    rw [past] at written
    cases written
  · intro shallow
    have written := jwValue_of_fits v jwInit whole (by omega)
    refine ⟨_, written, v.toDoc.value, ?_, Value.same_toDoc v whole⟩
    have buf : (jwRaw v.toDoc.text (jwValuePrefix jwInit)).buf =
        v.toDoc.text := by
      simp [jwInit, jwValuePrefix, jwRaw]
    rw [buf]
    exact jsonParse_text v.toDoc

def nested : Nat → Value → Value
  | 0, v => v
  | levels + 1, v => .array [nested levels v]

def seventeenDeep : List UInt8 :=
  List.replicate 17 91 ++ List.replicate 17 93

def sixteenDeep : Doc :=
  (List.range 16).foldl (fun inner _ => .arr [inner]) (.int ⟨7, by decide⟩)

theorem survivesRewrite_iff_depth_sixteen : jsonParse sixteenDeep.text = some sixteenDeep.value ∧
      sixteenDeep.value.depth = jwMaxDepth ∧
      SurvivesRewrite sixteenDeep.value := by
  have parsed := jsonParse_text sixteenDeep
  have full : sixteenDeep.value.depth = jwMaxDepth := by rfl
  have seven : (Double.ofWhole ⟨7, by decide⟩).IsWhole := by
    refine ⟨⟨7, by decide⟩, ?_⟩
    rw [Double.eqInt_ofWhole, decide_eq_true_iff]
  have whole : sixteenDeep.value.WholeNumbers := by
    simpa [sixteenDeep, Doc.value, Doc.itemValues, Value.WholeNumbers,
      Value.WholeItems, List.range, List.range.loop] using seven
  have survives := survivesRewrite_iff_depth _ _ parsed whole
  exact ⟨parsed, full, survives.mpr (Nat.le_of_eq full)⟩

/-- The seventeenth container is stored behind the stack. -/
theorem seventeenDeep_not_survivesRewrite :
    ∃ v, jsonParse seventeenDeep = some v ∧ v.WholeNumbers ∧ ¬ SurvivesRewrite v := by
  have parsed : jsonParse seventeenDeep = some (nested 16 (.array [])) := by rfl
  refine ⟨_, parsed, ?_, ?_⟩
  · simp [nested, Value.WholeNumbers, Value.WholeItems]
  · intro survives
    obtain ⟨w, written, _⟩ := survives
    have past : jwValue (nested 16 (.array [])) jwInit = none := by rfl
    rw [past] at written
    cases written

end Cix.Json
