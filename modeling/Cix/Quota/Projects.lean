import Cix.Json.Roundtrip
import Cix.Lib.Machine
import Cix.Lib.Slots

/-!
# Project quota ids

`daemon/src/quotamap.c`: the table of the names that have a project id, the
counter behind it and the file that holds both.
-/

namespace Cix.Quota

open Cix.Lib Cix.Json Option
open List hiding asString

def quotamapFirstId : UInt32 := 1000

def quotamapMax : Nat := 1024

/-- `REGISTRY_NAME_MAX`, and `VOLUME_NAME_MAX` of the names that are asked
for. -/
abbrev EntryName := BoundedStr 64

def EntryName.store (name : CStr) : EntryName :=
  BoundedStr.store 64 pos_64 name

/-- `struct quotamap_entry`, in use. -/
structure Entry where
  name : EntryName
  projectId : UInt32
  deriving DecidableEq

/-- `g_entries` and `g_next_id`. -/
structure QuotaMap where
  entries : Slots Entry quotamapMax
  nextId : UInt32

structure State where
  map : QuotaMap
  file : Option (List UInt8)

def writeEntry (e : Entry) (w : Writer) : Writer :=
  let w := jwObjOpen w
  let w := jwStr e.name.str (jwKey "name" w)
  let w := jwInt e.projectId.toNat (jwKey "project_id" w)
  jwObjClose w

/-- The text that `save_state` writes. -/
def mapText (map : QuotaMap) : List UInt8 :=
  let w := jwObjOpen jwInit
  let w := jwInt map.nextId.toNat (jwKey "next_id" w)
  let w := jwArrOpen (jwKey "entries" w)
  let w := map.entries.entries.foldl (fun w e => writeEntry e w) w
  (jwObjClose (jwArrClose w)).buf

/-- `(uint32_t)json_as_number`, whose machine conversion goes over 64 bits. -/
def numberId (v : Value) : UInt32 :=
  UInt32.ofInt (asNumber (some v)).toLongLong

/-- One item of `entries`; `none` is an invalid one. -/
def loadEntry (item : Value) : Option Entry :=
  match asString (objectGet (some item) "name"),
      objectGet (some item) "project_id" with
  | some name, some id => some ⟨EntryName.store name, numberId id⟩
  | _, _ => none

/-- The loop of `load_state`: the entries before the first invalid item, and
whether there is none. -/
def loadEntries : List Value → Bool × List Entry
  | [] => (true, [])
  | item :: rest =>
    match loadEntry item with
    | none => (false, [])
    | some e => ((loadEntries rest).1, e :: (loadEntries rest).2)

def loadNextId (root : Value) : UInt32 :=
  match objectGet (some root) "next_id" with
  | none => quotamapFirstId
  | some v => if numberId v < quotamapFirstId then quotamapFirstId else numberId v

/-- `load_state` over a cleared table, on a file that can be read. -/
def loadState (file : Option (List UInt8)) : Bool × QuotaMap :=
  match file with
  | none => (true, ⟨Slots.empty _, quotamapFirstId⟩)
  | some text =>
    match jsonParse text with
    | some (.object members) =>
      let root := Value.object members
      match objectGet (some root) "entries" with
      | some (.array items) =>
        if quotamapMax < items.length then
          (false, ⟨Slots.empty _, loadNextId root⟩)
        else
          ((loadEntries items).1, ⟨Slots.ofEntries _ (loadEntries items).2, loadNextId root⟩)
      | _ => (true, ⟨Slots.empty _, loadNextId root⟩)
    | _ => (false, ⟨Slots.empty _, quotamapFirstId⟩)

/-- `quotamap_init`; a file that does not load leaves what was read of it. -/
def quotamapInit (s : State) : Bool × State :=
  ((loadState s.file).1, { s with map := (loadState s.file).2 })

/-- `save_state`: the write replaces the whole file or nothing. -/
def State.save (s : State) : State :=
  { s with file := some (mapText s.map) }

/-- The id, or `none` where it answers -1. `written` is whether the write of the file succeeds. -/
def quotamapGetOrAssign (written : Bool) (name : CStr) (s : State) : Option UInt32 × State :=
  match s.map.entries.find fun e => e.name.str = name with
  | some (_, e) => (some e.projectId, s)
  | none =>
    match s.map.entries.firstFree with
    | none => (none, s)
    | some slot =>
      let entry : Entry := ⟨EntryName.store name, s.map.nextId⟩
      let assigned : State :=
        { s with
          map := ⟨s.map.entries.put slot (some entry), s.map.nextId + 1⟩ }
      if written then (some entry.projectId, assigned.save)
      else
        (none, { assigned with
          map := ⟨assigned.map.entries.put slot none, assigned.map.nextId - 1⟩ })

inductive Input where
  | getOrAssign (name : EntryName) (written : Bool)
  | restart

def step (s : State) : Input → State
  | .getOrAssign name written => (quotamapGetOrAssign written name.str s).2
  | .restart => (quotamapInit s).2

def returned (s : State) : Input → Option (EntryName × UInt32)
  | .getOrAssign name written =>
    (quotamapGetOrAssign written name.str s).1.map fun id => (name, id)
  | .restart => none

def returnedIn (s : State) : List Input → List (EntryName × UInt32)
  | [] => []
  | input :: rest => (returned s input).toList ++ returnedIn (step s input) rest

def State.fresh : State := ⟨⟨Slots.empty _, quotamapFirstId⟩, none⟩

/-! ## The numbering behind the table

Names are numbered in the order in which they first come; nothing is ever
taken out. -/

def idAt (position : Nat) : UInt32 :=
  UInt32.ofNat (1000 + position)

def idOf (names : List EntryName) (name : EntryName) : UInt32 :=
  idAt (names.idxOf name)

def entriesOf (names : List EntryName) : List Entry :=
  names.mapIdx fun position name => ⟨name, idAt position⟩

def mapOf (names : List EntryName) : QuotaMap :=
  ⟨Slots.ofEntries _ (entriesOf names), idAt names.length⟩

structure Numbers (names : List EntryName) (s : State) : Prop where
  distinct : names.Nodup
  fits : names.length ≤ quotamapMax
  memory : s.map = mapOf names
  saved : s.file = some (mapText (mapOf names)) ∨ (names = [] ∧ s.file = none)

theorem idAt_toNat {position : Nat} (small : position ≤ quotamapMax) :
    (idAt position).toNat = 1000 + position := by
  have bound : quotamapMax = 1024 := rfl
  rw [idAt, UInt32.toNat_ofNat']
  omega

theorem idAt_inj {first second : Nat} (smallFirst : first ≤ quotamapMax)
    (smallSecond : second ≤ quotamapMax) (same : idAt first = idAt second) :
    first = second := by
  have numbers := congrArg UInt32.toNat same
  rw [idAt_toNat smallFirst, idAt_toNat smallSecond] at numbers
  omega

theorem idAt_succ (position : Nat) : idAt (position + 1) = idAt position + 1 := by
  rw [idAt, idAt, ← Nat.add_assoc, UInt32.ofNat_add]
  rfl

@[simp]
theorem length_entriesOf (names : List EntryName) : (entriesOf names).length = names.length := by
  simp [entriesOf]

theorem entriesOf_append (names : List EntryName) (name : EntryName) :
    entriesOf (names ++ [name]) = entriesOf names ++ [⟨name, idAt names.length⟩] := by
  simp [entriesOf, mapIdx_append]

theorem getElem?_entriesOf (names : List EntryName) (position : Nat) :
    (entriesOf names)[position]? = names[position]?.map fun name => ⟨name, idAt position⟩ := by
  simp [entriesOf]

variable {names : List EntryName}

def entryDoc (e : Entry) : Doc :=
  .obj [("name", .str e.name.str), ("project_id", intDoc e.projectId.toNat)]

def mapDoc (map : QuotaMap) : Doc :=
  .obj [("next_id", intDoc map.nextId.toNat), ("entries", .arr (map.entries.entries.map entryDoc))]

theorem id_bounded (id : UInt32) : (id.toNat : Int).natAbs ≤ 2 ^ 53 := by
  have small := id.toNat_lt
  omega

theorem numberId_doc (id : UInt32) : numberId (intDoc id.toNat).value = id := by
  have small := id.toNat_lt
  rw [numberId, toLongLong_intDoc (id_bounded id), UInt32.ofInt]
  have kept : ((id.toNat : Int) % 2 ^ 32).toNat = id.toNat := by omega
  rw [kept, UInt32.ofNat_toNat]

theorem emits_writeEntry (e : Entry) : Emits (writeEntry e) (entryDoc e) := by
  have name := (emits_str e.name.str).member "name"
  have id := (emits_int (id_bounded e.projectId)).member "project_id"
  exact FillsObj.emits (name.comp id)

theorem mapText_eq (map : QuotaMap) : mapText map = (mapDoc map).text := by
  have next := (emits_int (id_bounded map.nextId)).member
    "next_id"
  have entries := (emits_arr fun e (_ : e ∈ map.entries.entries) =>
    emits_writeEntry e).member "entries"
  exact (FillsObj.emits (next.comp entries)).buf_jwInit

theorem loadEntry_doc (e : Entry) : loadEntry (entryDoc e).value = some e := by
  have distinct : ([(CStr.ofString "name", Doc.str e.name.str),
      (CStr.ofString "project_id", intDoc e.projectId.toNat)].map Prod.fst).Nodup := by
    simp only [map_cons, map_nil]
    decide +kernel
  have name : objectGet (some (entryDoc e).value) "name" = _ :=
    objectGet_member distinct mem_cons_self
  have id : objectGet (some (entryDoc e).value) "project_id" = _ :=
    objectGet_member distinct (mem_cons_of_mem _ mem_cons_self)
  rw [loadEntry, name, id]
  simp only [Doc.value, asString]
  rw [numberId_doc, EntryName.store, BoundedStr.store_str]

theorem loadEntries_docs (entries : List Entry) :
    loadEntries ((entries.map entryDoc).map Doc.value) = (true, entries) := by
  induction entries with
  | nil => rfl
  | cons e rest ih => rw [map_cons, map_cons, loadEntries, loadEntry_doc, ih]

theorem loadState_mapText {map : QuotaMap} (started : ¬ map.nextId < quotamapFirstId) :
    loadState (some (mapText map)) =
      (true, ⟨Slots.ofEntries _ map.entries.entries, map.nextId⟩) := by
  have distinct : ([(CStr.ofString "next_id", intDoc map.nextId.toNat), (CStr.ofString "entries",
        Doc.arr (map.entries.entries.map entryDoc))].map Prod.fst).Nodup := by
    simp only [map_cons, map_nil]
    decide +kernel
  have next : objectGet (some (mapDoc map).value) "next_id" = _ :=
    objectGet_member distinct mem_cons_self
  have entries : objectGet (some (mapDoc map).value) "entries" = _ :=
    objectGet_member distinct (mem_cons_of_mem _ mem_cons_self)
  have counter : loadNextId (mapDoc map).value = map.nextId := by
    rw [loadNextId, next]
    simp only [numberId_doc, if_neg started]
  rw [loadState, mapText_eq, jsonParse_text]
  simp only [mapDoc, Doc.value] at entries counter ⊢
  rw [entries, counter]
  simp only [Doc.itemValues_eq_map, loadEntries_docs, length_map]
  rw [if_neg (Nat.not_lt.mpr (Slots.length_entries_le _))]

theorem loadState_numbers {s : State} (numbers : Numbers names s) :
    loadState s.file = (true, mapOf names) := by
  have fits := numbers.fits
  rcases numbers.saved with written | ⟨rfl, nothing⟩
  · have started : ¬ (mapOf names).nextId < quotamapFirstId := by
      rw [UInt32.not_lt, UInt32.le_iff_toNat_le]
      simp only [mapOf]
      rw [idAt_toNat fits]
      exact Nat.le_add_right _ _
    rw [written, loadState_mapText started]
    simp only [mapOf]
    rw [Slots.entries_ofEntries (by simpa using fits)]
  · rw [nothing]
    simp only [loadState, mapOf, entriesOf, mapIdx_nil, Slots.ofEntries_nil]
    rfl

theorem find_entriesOf (distinct : names.Nodup)
    (fits : names.length ≤ quotamapMax) (name : EntryName) :
    (Slots.ofEntries quotamapMax (entriesOf names)).find (fun e => e.name.str = name.str) =
      if name ∈ names then
        some (names.idxOf name, ⟨name, idOf names name⟩)
      else none := by
  have held : ∀ i, (Slots.ofEntries quotamapMax (entriesOf names)).get i =
      names[i]?.map fun n => ⟨n, idAt i⟩ := by
    intro i
    rw [Slots.get_ofEntries (by simpa using fits), getElem?_entriesOf]
  split
  next known =>
    have position := idxOf_lt_length_of_mem known
    apply Slots.find_of_unique
    · rw [held, getElem?_eq_getElem position, getElem_idxOf]
      rfl
    · simp
    · intro j other otherHeld same
      rw [held] at otherHeld
      obtain ⟨n, found, rfl⟩ := map_eq_some_iff.mp otherHeld
      have isName : n = name := BoundedStr.ext (by simpa using same)
      obtain ⟨inside, rfl⟩ := List.getElem?_eq_some_iff.mp found
      rw [← isName, distinct.idxOf_getElem]
  next unknown =>
    cases found : (Slots.ofEntries quotamapMax (entriesOf names)).find
        fun e => e.name.str = name.str with
    | none => rfl
    | some result =>
      obtain ⟨isHeld, same⟩ := Slots.get_of_find found
      rw [held] at isHeld
      obtain ⟨n, position, isEntry⟩ := map_eq_some_iff.mp isHeld
      rw [← isEntry] at same
      have isName : n = name := BoundedStr.ext (by simpa using same)
      rw [isName] at position
      exact absurd (mem_of_getElem? position) unknown

theorem mapOf_append (room : names.length < quotamapMax) (name : EntryName) :
    mapOf (names ++ [name]) = ⟨(mapOf names).entries.put names.length
        (some ⟨name, (mapOf names).nextId⟩), (mapOf names).nextId + 1⟩ := by
  have fits : (entriesOf names).length < quotamapMax := by simpa using room
  have put := Slots.put_ofEntries fits (⟨name, idAt names.length⟩ : Entry)
  rw [length_entriesOf] at put
  simp only [mapOf, length_append, length_singleton, idAt_succ, entriesOf_append]
  rw [put]

theorem numbers_getOrAssign {s : State} (numbers : Numbers names s)
    (name : EntryName) (written : Bool) :
    ∃ later, names <+: later ∧ Numbers later (quotamapGetOrAssign written name.str s).2 ∧
      ∀ id, (quotamapGetOrAssign written name.str s).1 = some id →
        name ∈ later ∧ id = idOf later name := by
  have unchanged : names <+: names := prefix_rfl
  unfold quotamapGetOrAssign
  have searched := find_entriesOf numbers.distinct numbers.fits name
  have entries : s.map.entries = Slots.ofEntries _ (entriesOf names) := by
    rw [numbers.memory, mapOf]
  rw [entries, searched]
  by_cases known : name ∈ names
  · rw [if_pos known]
    refine ⟨names, unchanged, numbers, ?_⟩
    rintro id ⟨⟩
    exact ⟨known, rfl⟩
  · rw [if_neg known]
    by_cases room : names.length < quotamapMax
    · have free : (Slots.ofEntries quotamapMax (entriesOf names)).firstFree =
          some names.length := by
        have fits : (entriesOf names).length < quotamapMax := by simpa using room
        have first := Slots.firstFree_ofEntries fits
        rwa [length_entriesOf] at first
      rw [free]
      have stored : EntryName.store name.str = name := BoundedStr.store_str _ name
      cases written with
      | true =>
        have assigned := mapOf_append room name
        rw [← numbers.memory, entries] at assigned
        refine ⟨names ++ [name], prefix_append names [name], ⟨?_, ?_, ?_, ?_⟩, ?_⟩
        · rw [nodup_append]
          refine ⟨numbers.distinct, nodup_singleton name, ?_⟩
          intro other mem last isLast same
          rw [mem_singleton.mp isLast] at same
          exact known (same ▸ mem)
        · rw [length_append, length_singleton]
          exact room
        · simp only [if_true, State.save, stored]
          rw [assigned]
        · left
          simp only [if_true, State.save, stored]
          rw [assigned]
        · intro id isId
          have position : (names ++ [name]).idxOf name = names.length := by
            rw [idxOf_append_of_notMem known, idxOf_cons_self, Nat.add_zero]
          rw [idOf, position]
          simp only [if_true, some.injEq] at isId
          refine ⟨by simp, ?_⟩
          rw [← isId, numbers.memory, mapOf]
      | false =>
        have undone : (Slots.ofEntries quotamapMax (entriesOf names)).get names.length = none :=
          (Slots.get_firstFree free).2
        refine ⟨names, unchanged, ⟨numbers.distinct, numbers.fits, ?_, ?_⟩, ?_⟩
        · simp only [Bool.false_eq_true, if_false, Slots.put_put,
            Slots.put_none undone, numbers.memory, mapOf]
          congr 1
          exact UInt32.add_sub_cancel _ _
        · exact numbers.saved
        · rintro id ⟨⟩
    · have full : (Slots.ofEntries quotamapMax (entriesOf names)).firstFree =
          none := by
        apply Slots.firstFree_ofEntries_full
        rw [length_entriesOf]
        exact Nat.le_antisymm numbers.fits (Nat.le_of_not_lt room)
      rw [full]
      refine ⟨names, unchanged, numbers, ?_⟩
      rintro id ⟨⟩

theorem isSome_getOrAssign (name : CStr) {s : State} {slot : Nat}
    (room : s.map.entries.firstFree = some slot) :
    (quotamapGetOrAssign true name s).1.isSome = true := by
  unfold quotamapGetOrAssign
  split
  · rfl
  · rw [room]
    rfl

theorem numbers_step {names : List EntryName} {s : State}
    (numbers : Numbers names s) (input : Input) :
    ∃ later, names <+: later ∧ Numbers later (step s input) ∧
      ∀ answer, returned s input = some answer →
        answer.1 ∈ later ∧ answer.2 = idOf later answer.1 := by
  cases input with
  | getOrAssign name written =>
    obtain ⟨later, longer, kept, answers⟩ := numbers_getOrAssign numbers name written
    refine ⟨later, longer, kept, ?_⟩
    intro answer isAnswer
    obtain ⟨id, isId, rfl⟩ := map_eq_some_iff.mp isAnswer
    exact answers id isId
  | restart =>
    refine ⟨names, prefix_rfl, ?_, ?_⟩
    · refine ⟨numbers.distinct, numbers.fits, ?_, numbers.saved⟩
      simp only [step, quotamapInit]
      rw [loadState_numbers numbers]
    · rintro answer ⟨⟩

theorem idOf_of_initial {later : List EntryName} (longer : names <+: later)
    {name : EntryName} (known : name ∈ names) :
    idOf later name = idOf names name := by
  obtain ⟨more, rfl⟩ := longer
  rw [idOf, idOf, idxOf_append_of_mem known]

theorem numbers_returnedIn {names : List EntryName} {s : State}
    (numbers : Numbers names s) (inputs : List Input) :
    ∃ later, names <+: later ∧ Numbers later (run step s inputs) ∧ ∀ answer ∈ returnedIn s inputs,
        answer.1 ∈ later ∧ answer.2 = idOf later answer.1 := by
  induction inputs generalizing names s with
  | nil => exact ⟨names, prefix_rfl, numbers, fun _ nothing => by cases nothing⟩
  | cons input rest ih =>
    obtain ⟨middle, first, kept, answers⟩ := numbers_step numbers input
    obtain ⟨later, second, last, others⟩ := ih kept
    refine ⟨later, first.trans second, last, ?_⟩
    intro answer mem
    rcases mem_append.mp mem with now | afterwards
    · obtain ⟨known, isId⟩ := answers answer (mem_toList.mp now)
      rw [idOf_of_initial second known]
      exact ⟨second.subset known, isId⟩
    · exact others answer afterwards

theorem numbers_fresh : Numbers [] State.fresh where
  distinct := nodup_nil
  fits := Nat.zero_le _
  memory := by
    simp only [State.fresh, mapOf, entriesOf, mapIdx_nil, Slots.ofEntries_nil]
    rfl
  saved := Or.inr ⟨rfl, rfl⟩

/-- Over every sequence of calls, failed writes and restarts two returned ids
are the same exactly if they are for the same name, and none is below the
reserved floor. -/
theorem quota_ids_unique (inputs : List Input) : (∀ a ∈ returnedIn State.fresh inputs,
      ∀ b ∈ returnedIn State.fresh inputs, a.2 = b.2 ↔ a.1 = b.1) ∧
    ∀ a ∈ returnedIn State.fresh inputs, quotamapFirstId ≤ a.2 := by
  obtain ⟨later, _, numbers, answers⟩ := numbers_returnedIn numbers_fresh inputs
  have position : ∀ name ∈ later, later.idxOf name < quotamapMax :=
    fun name known => Nat.lt_of_lt_of_le (idxOf_lt_length_of_mem known) numbers.fits
  constructor
  · intro a first b second
    obtain ⟨knownA, idA⟩ := answers a first
    obtain ⟨knownB, idB⟩ := answers b second
    constructor
    · intro same
      rw [idA, idB] at same
      have samePosition := idAt_inj (Nat.le_of_lt (position _ knownA))
        (Nat.le_of_lt (position _ knownB)) same
      exact (idxOf_inj knownA).mp samePosition
    · intro same
      rw [idA, idB, same]
  · intro a mem
    obtain ⟨known, isId⟩ := answers a mem
    rw [isId, UInt32.le_iff_toNat_le, idOf, idAt_toNat (Nat.le_of_lt (position _ known))]
    exact Nat.le_add_right _ _

end Cix.Quota
