import Cix.Container.Definitions

/-!
# What the state file keeps of a definition

The file that `save_state` writes, read by `load_state`, gives the definitions
in their order with every saved field as it was; the body is cut at its first
zero byte, and the fields that are not saved are as in a cleared record.
-/

namespace Cix.Container

open Cix.Lib Cix.Json Option
open List hiding asString

def ContainerDef.Timely (d : ContainerDef) : Prop :=
  d.rollDeadline.toInt.natAbs ≤ 2 ^ 53

def ContainerDef.reloaded (d : ContainerDef) : ContainerDef :=
  { d with
    body := cstrAt d.body
    consecutiveFailures := 0
    rollFailures := 0
    rollSkipped := emptyStr pos_72
    restartRefused := emptyStr pos_192 }

def jitterDoc : Option Int32 → Doc
  | some seconds => intDoc seconds.toInt
  | none => .null

def defMembers (d : ContainerDef) : List (CStr × Doc) :=
  [("name", .str d.name.text.str), ("depends_on", .arr (d.dependsOn.map fun dep => .str dep.str)),
    ("restart_policy", .str d.restartPolicy.text),
    ("restart_delay_seconds", intDoc d.restartDelaySeconds.toInt),
    ("stopped", .bool d.stopped),
    ("follow_rolling", .bool d.followRolling),
    ("follow_rolling_jitter_seconds", jitterDoc d.followRollingJitter),
    ("awaiting_image", .str d.awaitingImage.str),
    ("roll_from", .str d.rollFrom.str),
    ("roll_to", .str d.rollTo.str),
    ("roll_deadline", intDoc d.rollDeadline.toInt),
    ("body", .str (CStr.ofBytes d.body))]

def defDoc (d : ContainerDef) : Doc :=
  .obj (defMembers d)

theorem emits_jitter (jitter : Option Int32) : Emits (fun w => match jitter with
      | some seconds => jwInt seconds.toInt w
      | none => jwNull w) (jitterDoc jitter) := by
  cases jitter with
  | none => exact emits_null
  | some seconds => exact emits_int32 seconds

theorem emits_writeDef {d : ContainerDef} (timely : d.Timely) : Emits (writeDef d) (defDoc d) := by
  have str := fun (name : String) (s : CStr) =>
    (emits_str s).member (CStr.ofString name)
  have flag := fun (name : String) (b : Bool) =>
    (emits_bool b).member (CStr.ofString name)
  have depends := (emits_arr fun dep (_ : dep ∈ d.dependsOn) =>
    emits_str dep.str).member "depends_on"
  have delay := (emits_int32 d.restartDelaySeconds).member "restart_delay_seconds"
  have jitter := (emits_jitter d.followRollingJitter).member "follow_rolling_jitter_seconds"
  have deadline := (emits_int timely).member "roll_deadline"
  have policy := (((str "name" d.name.text.str).comp depends).comp
    (str "restart_policy" d.restartPolicy.text)).comp delay
  have rolling := ((policy.comp (flag "stopped" d.stopped)).comp
    (flag "follow_rolling" d.followRolling)).comp jitter
  have roll := (((rolling.comp (str "awaiting_image" d.awaitingImage.str)).comp
      (str "roll_from" d.rollFrom.str)).comp (str "roll_to" d.rollTo.str)).comp deadline
  have emitted := FillsObj.emits (roll.comp (str "body" (CStr.ofBytes d.body)))
  simp only [cons_append, nil_append] at emitted
  exact emitted

variable {defs : List ContainerDef}

theorem stateText_eq (timely : ∀ d ∈ defs, d.Timely) :
    stateText defs = (Doc.arr (defs.map defDoc)).text := by
  have emits := emits_arr fun d (mem : d ∈ defs) =>
    emits_writeDef (timely d mem)
  exact emits.buf_jwInit

theorem defMembers_distinct (d : ContainerDef) : ((defMembers d).map Prod.fst).Nodup := by
  simp only [defMembers, map_cons, map_nil]
  decide +kernel

theorem ofText_text (policy : RestartPolicy) : RestartPolicy.ofText policy.text = some policy := by
  cases policy <;> decide

theorem readNames_docs (names : List (BoundedStr 64)) :
    readNames ((names.map fun name => Doc.str name.str).map Doc.value) =
      some names := by
  induction names with
  | nil => rfl
  | cons name rest ih =>
    rw [map_cons, map_cons, readNames]
    simp only [Doc.value, asString]
    rw [ih, map_some, BoundedStr.store_str]

section Read

variable (d : ContainerDef)

theorem member_defDoc {name : String} {doc : Doc} (mem : (CStr.ofString name, doc) ∈ defMembers d) :
    objectGet (some (defDoc d).value) name = some doc.value :=
  objectGet_member (defMembers_distinct d) mem

theorem readString_defDoc {name : String} {s : CStr}
    (mem : (CStr.ofString name, Doc.str s) ∈ defMembers d) :
    asString (objectGet (some (defDoc d).value) name) = some s := by
  rw [member_defDoc d mem, Doc.value, asString]

theorem isTrue_defDoc {name : String} {b : Bool}
    (mem : (CStr.ofString name, Doc.bool b) ∈ defMembers d) :
    isTrue (objectGet (some (defDoc d).value) name) = b := by
  rw [member_defDoc d mem, Doc.value, isTrue]

theorem readDepends_defDoc : readDepends (objectGet (some (defDoc d).value) "depends_on") =
      some d.dependsOn := by
  have mem : objectGet (some (defDoc d).value) "depends_on" =
      some (Doc.arr (d.dependsOn.map fun dep => .str dep.str)).value :=
    member_defDoc d (by simp [defMembers])
  have few : ((d.dependsOn.map fun dep => Doc.str dep.str).map Doc.value).length ≤ 16 := by
    simpa using d.dependsCount
  rw [mem, Doc.value, Doc.itemValues_eq_map, readDepends, take_of_length_le few]
  exact readNames_docs d.dependsOn

theorem readPolicy_defDoc : readPolicy (objectGet (some (defDoc d).value) "restart_policy") =
      some d.restartPolicy := by
  have mem : objectGet (some (defDoc d).value) "restart_policy" =
      some (Doc.str d.restartPolicy.text).value :=
    member_defDoc d (by simp [defMembers])
  rw [mem, Doc.value, readPolicy, asString, bind_some, ofText_text]

theorem readDelay_defDoc : readDelay (objectGet (some (defDoc d).value) "restart_delay_seconds") =
      d.restartDelaySeconds := by
  have mem : objectGet (some (defDoc d).value) "restart_delay_seconds" =
      some (intDoc d.restartDelaySeconds.toInt).value :=
    member_defDoc d (by simp [defMembers])
  rw [mem, readDelay, toInt_intDoc]

theorem readJitter_defDoc : readJitter (objectGet (some (defDoc d).value)
      "follow_rolling_jitter_seconds") = d.followRollingJitter := by
  have mem : objectGet (some (defDoc d).value) "follow_rolling_jitter_seconds" =
        some (jitterDoc d.followRollingJitter).value :=
    member_defDoc d (by simp [defMembers])
  rw [mem]
  cases d.followRollingJitter with
  | none =>
    rw [jitterDoc, Doc.value, readJitter]
    simp
  | some seconds =>
    have converted := toInt_intDoc seconds
    rw [intDoc, Doc.value, asNumber] at converted
    rw [jitterDoc, intDoc, Doc.value, readJitter, converted]

theorem readRoll_defDoc (timely : d.Timely) :
    readRoll (defDoc d).value = (d.rollFrom, d.rollTo, d.rollDeadline) := by
  have source : asString (objectGet (some (defDoc d).value) "roll_from") =
      some d.rollFrom.str := readString_defDoc d (by simp [defMembers])
  have target : asString (objectGet (some (defDoc d).value) "roll_to") =
      some d.rollTo.str := readString_defDoc d (by simp [defMembers])
  have deadline : objectGet (some (defDoc d).value) "roll_deadline" =
      some (intDoc d.rollDeadline.toInt).value :=
    member_defDoc d (by simp [defMembers])
  rw [readRoll, source, target, deadline]
  simp only [d.rollFrom.fits, d.rollTo.fits, and_self, dif_pos, toInt64_intDoc timely]

theorem parsePersistedEntry_defDoc (timely : d.Timely) :
    parsePersistedEntry (defDoc d).value = some d.reloaded := by
  have name : (asString (objectGet (some (defDoc d).value) "name")).bind
      RegistryName.ofText = some d.name := by
    have text : asString (objectGet (some (defDoc d).value) "name") =
        some d.name.text.str := readString_defDoc d (by simp [defMembers])
    rw [text, bind_some, RegistryName.ofText, dif_pos ⟨d.name.nonempty, d.name.text.fits⟩]
  have body : asString (objectGet (some (defDoc d).value) "body") = some (CStr.ofBytes d.body) :=
    readString_defDoc d (by simp [defMembers])
  have awaiting : readAwaiting (objectGet (some (defDoc d).value)
      "awaiting_image") = some d.awaitingImage := by
    have text : asString (objectGet (some (defDoc d).value)
        "awaiting_image") = some d.awaitingImage.str :=
      readString_defDoc d (by simp [defMembers])
    rw [readAwaiting, text]
    simp only [d.awaitingImage.fits, dif_pos]
  have stopped : isTrue (objectGet (some (defDoc d).value) "stopped") =
      d.stopped := isTrue_defDoc d (by simp [defMembers])
  have follow : isTrue (objectGet (some (defDoc d).value) "follow_rolling") = d.followRolling :=
    isTrue_defDoc d (by simp [defMembers])
  have depends := readDepends_defDoc d
  have policy := readPolicy_defDoc d
  unfold parsePersistedEntry
  rw [name, body, awaiting]
  simp only
  split
  next absent =>
    rw [depends] at absent
    cases absent
  next names read =>
    rw [depends] at read
    cases read
    rw [policy]
    simp only [readDelay_defDoc d, readJitter_defDoc d, stopped, follow, readRoll_defDoc d timely]
    rfl

end Read

theorem parseEntries_docs (timely : ∀ d ∈ defs, d.Timely) :
    parseEntries ((defs.map defDoc).map Doc.value) = some (defs.map ContainerDef.reloaded) := by
  induction defs with
  | nil => rfl
  | cons d rest ih =>
    have first := parsePersistedEntry_defDoc d (timely d mem_cons_self)
    have others := ih fun e mem =>
      timely e (mem_cons_of_mem d mem)
    rw [map_cons, map_cons, parseEntries, first]
    simp only
    rw [others]
    rfl

theorem loadState_stateText
    (timely : ∀ d ∈ defs, d.Timely) (few : defs.length ≤ containerdefMax) :
    loadState (some (stateText defs)) = some (defs.map ContainerDef.reloaded) := by
  have count : ¬ ((defs.map defDoc).map Doc.value).length >
      containerdefMax := by
    simpa using few
  rw [loadState, stateText_eq timely, jsonParse_text, asArray_arr]
  simp only [if_neg count]
  exact parseEntries_docs timely

end Cix.Container
