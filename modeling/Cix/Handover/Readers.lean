import Cix.Handover.Record
import Cix.Json.Roundtrip

/-!
# Readers that note what is missing

A reader gives a value whether or not it finds its key, and notes the first key
that it does not find.  Two rules carry the proofs about the long readers: on a
document that has the keys a reader is a value and nothing else, and a reader
that leaves nothing noted has found every key it asked for.
-/

namespace Cix.Handover

open Cix.Lib Cix.Json
open List hiding asString

section Readers

variable {α β : Type}

def Reads (act : Reading α) (value : α) : Prop :=
  ∀ missing, act.run missing = (value, missing)

def Insists (act : Reading α) (condition : Prop) : Prop :=
  ∀ missing, (act.run missing).2 = none → missing = none ∧ condition

theorem Reads.pure (value : α) : Reads (Pure.pure value) value :=
  fun _ => rfl

theorem Reads.bind {act : Reading α} {f : α → Reading β} {a : α} {b : β}
    (first : Reads act a) (later : Reads (f a) b) :
    Reads (act >>= f) b := by
  intro missing
  rw [StateT.run_bind, first missing]
  exact later missing

theorem Reads.mapM {items : List β} {doc : β → Doc}
    {read : Value → Reading β}
    (each : ∀ b ∈ items, Reads (read (doc b).value) b) :
    Reads (((items.map doc).map Doc.value).mapM read) items := by
  induction items with
  | nil => exact Reads.pure []
  | cons first rest ih =>
    rw [map_cons, map_cons, mapM_cons]
    apply (each first mem_cons_self).bind
    have others := ih fun b mem =>
      each b (mem_cons_of_mem _ mem)
    exact others.bind (Reads.pure _)

theorem Insists.pure (value : α) : Insists (Pure.pure value) True :=
  fun _ isNone => ⟨isNone, trivial⟩

theorem Insists.bind {act : Reading α} {f : α → Reading β} {first : Prop}
    {later : α → Prop} (insists : Insists act first)
    (then_ : ∀ a, Insists (f a) (later a)) :
    Insists (act >>= f) (first ∧ later (act.run none).1) := by
  intro missing isNone
  rw [StateT.run_bind] at isNone
  obtain ⟨noneBetween, holds⟩ := then_ _ _ isNone
  obtain ⟨isNone', holdsFirst⟩ := insists missing noneBetween
  subst isNone'
  exact ⟨rfl, holdsFirst, holds⟩

theorem Insists.imp {act : Reading α} {first second : Prop}
    (insists : Insists act first) (implies : first → second) :
    Insists act second :=
  fun missing isNone => (insists missing isNone).imp_right implies

theorem Insists.mapM {items : List α} {read : α → Reading β}
    {condition : α → Prop}
    (each : ∀ a, Insists (read a) (condition a)) :
    Insists (items.mapM read) (∀ a ∈ items, condition a) := by
  induction items with
  | nil =>
    intro missing isNone
    refine ⟨isNone, ?_⟩
    intro a mem
    cases mem
  | cons first rest ih =>
    rw [mapM_cons]
    refine ((each first).bind fun b => ih.bind fun bs =>
      Insists.pure (b :: bs)).imp ?_
    intro conditions a mem
    obtain ⟨holds, others, -⟩ := conditions
    rcases mem_cons.mp mem with isFirst | later
    · rw [isFirst]
      exact holds
    · exact others a later

end Readers

variable {o : Option Value} {name : String}

theorem reads_need {v : Value} (present : objectGet o name = some v) :
    Reads (need o name) (some v) := by
  intro missing
  simp only [need, present]
  rfl

theorem Reads.map {α β : Type} {act : Reading α} {a : α} {f : α → β} {b : β}
    (first : Reads act a) (isValue : f a = b) :
    Reads (act >>= fun x => Pure.pure (f x)) b := by
  refine first.bind ?_
  rw [isValue]
  exact Reads.pure b

theorem reads_str {n : Nat} {positive : 0 < n} {s : BoundedStr n}
    (present : objectGet o name = some (Doc.str s.str).value) :
    Reads (getStr n positive o name) s := by
  apply (reads_need present).map
  simp only [fieldOf, Doc.value, asString, Option.getD_some]
  exact BoundedStr.store_str positive s

theorem reads_int {v : Int} (bounded : v.natAbs ≤ 2 ^ 53)
    (present : objectGet o name = some (intDoc v).value) :
    Reads (getInt o name) v := by
  refine (reads_need present).bind ?_
  have converted := toLongLong_intDoc bounded
  simp only [intDoc, Doc.value] at converted ⊢
  rw [converted]
  exact Reads.pure v

theorem reads_int32 {v : Int32} (present : objectGet o name = some (intDoc v.toInt).value) :
    Reads (getInt32 o name) v :=
  (reads_int (int32_bounded v) present).map (Int32.ofInt_toInt v)

theorem reads_int64 {v : Int64} (bounded : v.toInt.natAbs ≤ 2 ^ 53)
    (present : objectGet o name = some (intDoc v.toInt).value) :
    Reads (getInt64 o name) v :=
  (reads_int bounded present).map (Int64.ofInt_toInt v)

theorem uint32_bounded (v : UInt32) : ((v.toNat : Int)).natAbs ≤ 2 ^ 53 := by
  have upper := v.toNat_lt
  omega

theorem ofInt_toNat (v : UInt32) : UInt32.ofInt v.toNat = v := by
  have upper := v.toNat_lt
  have small : ((v.toNat : Int) % 2 ^ 32).toNat = v.toNat := by omega
  rw [UInt32.ofInt, small, UInt32.ofNat_toNat]

theorem reads_uint32 {v : UInt32} (present : objectGet o name = some (intDoc v.toNat).value) :
    Reads (getUInt32 o name) v :=
  (reads_int (uint32_bounded v) present).map (ofInt_toNat v)

theorem reads_flag {b : Bool} (present : objectGet o name = some (Doc.bool b).value) :
    Reads (getFlag o name) b := by
  have asInt : Reads (getInt o name) (if b then 1 else 0) :=
    (reads_need present).bind (Reads.pure _)
  have asInt32 : Reads (getInt32 o name) (if b then 1 else 0) := by
    apply asInt.map
    cases b <;> rfl
  apply asInt32.map
  cases b <;> decide

theorem run_getArr {items : List Value} {max : Nat} (found : objectGet o name = some (.array items))
    (missing : Option String) :
    (getArr o name max).run missing =
      if items.length > max then ([], missing.or (some name))
      else (items, missing) := by
  rw [getArr, StateT.run_bind, reads_need found missing]
  change StateT.run (if items.length > max then
    (do note name; Pure.pure []) else Pure.pure items) missing = _
  split <;> rfl

theorem reads_arr {items : List Doc} {max : Nat}
    (present : objectGet o name = some (Doc.arr items).value)
    (fits : items.length ≤ max) :
    Reads (getArr o name max) (items.map Doc.value) := by
  have values : (Doc.arr items).value = .array (items.map Doc.value) := by
    rw [Doc.value, Doc.itemValues_eq_map]
  rw [values] at present
  intro missing
  rw [run_getArr present, if_neg]
  rw [length_map]
  omega

def Present (o : Option Value) (name : String) : Prop :=
  (objectGet o name).isSome = true

theorem insists_note {condition : Prop} : Insists (note name) condition := by
  intro missing isNone
  cases missing with
  | none => cases isNone
  | some noted => cases isNone

theorem insists_need : Insists (need o name) (Present o name) := by
  intro missing isNone
  unfold Present
  cases found : objectGet o name with
  | some v =>
    simp only [need, found] at isNone
    exact ⟨isNone, rfl⟩
  | none =>
    simp only [need, found] at isNone
    cases missing <;> cases isNone

theorem insists_int : Insists (getInt o name) (Present o name) := by
  refine Insists.imp (@Insists.bind _ _ _ _ _ (fun _ => True) insists_need ?_) And.left
  intro v
  cases v with
  | none => exact Insists.pure _
  | some v => cases v <;> exact Insists.pure _

theorem Insists.map {α β : Type} {act : Reading α} {condition : Prop}
    {f : α → β} (insists : Insists act condition) :
    Insists (act >>= fun x => Pure.pure (f x)) condition :=
  (insists.bind fun x => Insists.pure (f x)).imp And.left

theorem insists_int32 : Insists (getInt32 o name) (Present o name) :=
  insists_int.map

theorem insists_int64 : Insists (getInt64 o name) (Present o name) :=
  insists_int.map

theorem insists_uint32 : Insists (getUInt32 o name) (Present o name) :=
  insists_int.map

theorem insists_flag : Insists (getFlag o name) (Present o name) :=
  insists_int32.map

theorem insists_str {n : Nat} {positive : 0 < n} :
    Insists (getStr n positive o name) (Present o name) :=
  insists_need.map

def itemsOf (o : Option Value) (name : String) : List Value :=
  match objectGet o name with
  | some (.array items) => items
  | _ => []

theorem insists_arr {max : Nat} : Insists (getArr o name max) (Present o name ∧
      ((getArr o name max).run none).1 = itemsOf o name) := by
  intro missing isNone
  unfold Present itemsOf
  cases found : objectGet o name with
  | none =>
    simp only [getArr, need, found] at isNone
    cases missing <;> cases isNone
  | some v =>
    cases v with
    | array items =>
      rw [run_getArr found] at isNone ⊢
      by_cases long : items.length > max
      · rw [if_pos long] at isNone
        cases missing <;> cases isNone
      · rw [if_neg long] at isNone ⊢
        exact ⟨isNone, rfl, rfl⟩
    | _ =>
      simp only [getArr, need, found] at isNone
      cases missing <;> cases isNone

end Cix.Handover
