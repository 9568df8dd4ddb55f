import Cix.Json.Roundtrip
import Cix.Pkg.Entries

/-!
# The installed-state file

`save_state` writes the entries that are installed at that moment, and
`load_state` reads them back at the start of the daemon.
-/

namespace Cix.Pkg

open Cix.Lib Cix.Json
open List hiding asString

/-- `jw_key` with a literal. -/
def key (name : String) : Writer → Writer :=
  jwKey (CStr.ofString name)

/-- The body of the loop of `save_state`. -/
def writePersistedEntry (e : Entry) (w : Writer) : Writer :=
  let w := jwObjOpen w
  let w := jwStr e.key.name.str (key "name" w)
  let w := jwStr e.key.image.str (key "image" w)
  let w := jwStr e.version.str (key "version" w)
  let w := jwStr e.depends.str (key "depends" w)
  let w := jwArrOpen (key "files" w)
  let w := e.files.foldl (fun w rel => jwStr rel w) w
  let w := jwArrClose w
  jwObjClose w

def Table.installed (t : Table) : List Entry :=
  t.entries.filter fun e => decide (e.state = .installed)

/-- The bytes that `save_state` writes. -/
def saveStateText (t : Table) : List UInt8 :=
  (jwArrClose (t.installed.foldl (fun w e => writePersistedEntry e w) (jwArrOpen jwInit))).buf

def parseFiles : List Value → Option (List CStr)
  | [] => some []
  | item :: rest =>
    match asString (some item), parseFiles rest with
    | some rel, some files => some (rel :: files)
    | _, _ => none

def parsePersistedEntry (item : Value) : Option Entry :=
  let text := fun name => asString (objectGet (some item) name)
  match (text "name").bind Name.ofCStr, text "version",
      asArray (objectGet (some item) "files"),
      normalizeImage (text "image") with
  | some name, some version, some items, some image =>
    (parseFiles items).map fun files =>
      { Entry.cleared ⟨name, image⟩ with
        state := .installed
        version := BoundedStr.store 64 pos_64 version
        depends := BoundedStr.store 256 pos_256 ((text "depends").getD CStr.empty)
        files := files }
  | _, _, _, _ => none

/-- The loop of `load_state`, which stops at an invalid entry and at a
package it has loaded already. -/
def loadEntries : List Entry → List Value → Option (List Entry)
  | loaded, [] => some loaded
  | loaded, item :: rest =>
    match parsePersistedEntry item with
    | none => none
    | some e =>
      if loaded.any fun o => decide (o.key = e.key) then none
      else loadEntries (loaded ++ [e]) rest

def loadState : Option (List UInt8) → Option Table
  | none => some (Slots.empty 1024)
  | some text =>
    match asArray (jsonParse text) with
    | none => none
    | some items =>
      if items.length > 1024 then none
      else (loadEntries [] items).map (Slots.ofEntries 1024)

def Entry.persisted (e : Entry) : Entry :=
  { Entry.cleared e.key with
    state := .installed
    version := e.version
    depends := e.depends
    files := e.files }

def entryMembers (e : Entry) : List (CStr × Doc) :=
  [("name", .str e.key.name.str), ("image", .str e.key.image.str), ("version", .str e.version.str),
    ("depends", .str e.depends.str),
    ("files", .arr (e.files.map Doc.str))]

def entryDoc (e : Entry) : Doc :=
  .obj (entryMembers e)

theorem entryMembers_distinct (e : Entry) : ((entryMembers e).map Prod.fst).Nodup := by
  simp only [entryMembers, map_cons, map_nil]
  decide

theorem emits_writePersistedEntry (e : Entry) : Emits (writePersistedEntry e) (entryDoc e) := by
  have str := fun (name : String) (s : CStr) =>
    (emits_str s).member (CStr.ofString name)
  have files := (emits_arr fun rel (_ : rel ∈ e.files) =>
    emits_str rel).member "files"
  have identity := (str "name" e.key.name.str).comp (str "image" e.key.image.str)
  have release := (identity.comp (str "version" e.version.str)).comp (str "depends" e.depends.str)
  exact FillsObj.emits (release.comp files)

theorem parseFiles_written (files : List CStr) :
    parseFiles ((files.map Doc.str).map Doc.value) = some files := by
  induction files with
  | nil => rfl
  | cons rel rest ih =>
    have first : asString (some (Doc.str rel).value) = some rel := by rw [Doc.value, asString]
    simp only [map_cons, parseFiles, first, ih]

theorem normalizeImage_name (image : Name) : normalizeImage (some image.str) = some image := by
  rw [normalizeImage, if_neg image.length_ne_zero, Name.ofCStr_str]

theorem parsePersistedEntry_doc (e : Entry) :
    parsePersistedEntry (entryDoc e).value = some e.persisted := by
  have distinct := entryMembers_distinct e
  have str : ∀ {name : String} {s : CStr}, (CStr.ofString name, Doc.str s) ∈ entryMembers e →
        asString (objectGet (some (entryDoc e).value) name) = some s := by
    intro name s mem
    rw [entryDoc, objectGet_member distinct mem, Doc.value, asString]
  have name : asString (objectGet (some (entryDoc e).value) "name") =
      some e.key.name.str := str (by simp [entryMembers])
  have image : asString (objectGet (some (entryDoc e).value) "image") =
      some e.key.image.str := str (by simp [entryMembers])
  have version : asString (objectGet (some (entryDoc e).value) "version") =
      some e.version.str := str (by simp [entryMembers])
  have depends : asString (objectGet (some (entryDoc e).value) "depends") =
      some e.depends.str := str (by simp [entryMembers])
  have files : objectGet (some (entryDoc e).value) "files" =
      some (Doc.arr (e.files.map Doc.str)).value :=
    objectGet_member distinct (by simp [entryMembers])
  simp only [parsePersistedEntry, name, image, version, depends, files,
    asArray_arr, Option.bind_some, Name.ofCStr_str, normalizeImage_name,
    parseFiles_written, Option.map_some, Option.getD_some,
    BoundedStr.store_str, Entry.persisted]

theorem loadEntries_written {loaded rest : List Entry}
    (distinct : ((loaded ++ rest).map Entry.key).Nodup) :
    loadEntries loaded ((rest.map entryDoc).map Doc.value) =
      some (loaded ++ rest.map Entry.persisted) := by
  induction rest generalizing loaded with
  | nil => simp [loadEntries]
  | cons e rest ih =>
    have later : ((loaded ++ [e.persisted] ++ rest).map Entry.key).Nodup := by
      simpa [Entry.persisted, Entry.cleared] using distinct
    have fresh : (loaded.any fun o =>
        decide (o.key = e.persisted.key)) = false := by
      rw [map_append, map_cons, nodup_append] at distinct
      apply any_eq_false.mpr
      intro o mem
      have apart := distinct.2.2 o.key (mem_map_of_mem mem) e.key mem_cons_self
      rw [Bool.not_eq_true, decide_eq_false_iff_not]
      exact apart
    rw [map_cons, map_cons, loadEntries, parsePersistedEntry_doc]
    simp only [fresh, Bool.false_eq_true, if_false]
    rw [ih later]
    simp

variable {t : Table}

theorem Table.Distinct.keys (distinct : t.Distinct) :
    (t.entries.map Entry.key).Nodup := by
  have apart : t.entries.Pairwise fun a b => a.key ≠ b.key := by
    rw [Slots.entries, pairwise_filterMap]
    apply pairwise_iff_getElem.mpr
    intro i j inside alsoInside ordered a aHere b bHere same
    have first : t.get i = some a := by
      simpa [Slots.get, getElem?_eq_getElem inside] using aHere
    have second : t.get j = some b := by
      simpa [Slots.get, getElem?_eq_getElem alsoInside] using bHere
    have equal := distinct i j a b first second same
    omega
  exact pairwise_map.mpr apart

theorem loadState_saveStateText (distinct : t.Distinct) :
    loadState (some (saveStateText t)) =
      some (Slots.ofEntries 1024 (t.installed.map Entry.persisted)) := by
  have written : saveStateText t = (Doc.arr (t.installed.map entryDoc)).text :=
    (emits_arr fun e (_ : e ∈ t.installed) =>
      emits_writePersistedEntry e).buf_jwInit
  have few : t.installed.length ≤ 1024 := le_trans (length_filter_le _ _) t.length_entries_le
  have keys : (t.installed.map Entry.key).Nodup := by
    have sub : (t.installed.map Entry.key).Sublist (t.entries.map Entry.key) :=
      List.Sublist.map _ filter_sublist
    exact distinct.keys.sublist sub
  rw [loadState, written, jsonParse_text, asArray_arr]
  simp only [length_map, Nat.not_lt.mpr few, if_false]
  rw [loadEntries_written (by simpa using keys)]
  rfl

theorem get_loadState {loaded : Table} (distinct : t.Distinct)
    (load : loadState (some (saveStateText t)) = some loaded) {e : Entry} :
    (∃ i, loaded.get i = some e) ↔ ∃ i o, t.get i = some o ∧ o.state = .installed ∧
        e = o.persisted := by
  rw [loadState_saveStateText distinct] at load
  cases load
  have few : (t.installed.map Entry.persisted).length ≤ 1024 := by
    rw [length_map]
    exact le_trans (length_filter_le _ _) t.length_entries_le
  rw [← Slots.mem_entries_iff_get, Slots.entries_ofEntries few]
  simp only [mem_map, Table.installed, mem_filter, Slots.mem_entries_iff_get, decide_eq_true_eq]
  constructor
  · rintro ⟨o, ⟨⟨i, held⟩, state⟩, rfl⟩
    exact ⟨i, o, held, state, rfl⟩
  · rintro ⟨i, o, held, state, rfl⟩
    exact ⟨o, ⟨⟨i, held⟩, state⟩, rfl⟩

/-- What `load_state` may put into the table, whatever the file holds. -/
structure Loadable (entries : List Entry) : Prop where
  keys : (entries.map Entry.key).Nodup
  installed : ∀ e ∈ entries, e.state = .installed
  containers : ∀ e ∈ entries, e.buildContainer = none

theorem parsePersistedEntry_installed {item : Value} {e : Entry}
    (parsed : parsePersistedEntry item = some e) :
    e.state = .installed ∧ e.buildContainer = none := by
  simp only [parsePersistedEntry] at parsed
  split at parsed
  · obtain ⟨files, _, rfl⟩ := Option.map_eq_some_iff.mp parsed
    exact ⟨rfl, rfl⟩
  · cases parsed

theorem loadable_loadEntries {items : List Value} {loaded entries : List Entry}
    (before : Loadable loaded)
    (load : loadEntries loaded items = some entries) : Loadable entries := by
  induction items generalizing loaded with
  | nil =>
    rw [loadEntries] at load
    cases load
    exact before
  | cons item rest ih =>
    rw [loadEntries] at load
    split at load
    · cases load
    · rename_i e parsed
      split_ifs at load with twice
      refine ih ⟨?_, ?_, ?_⟩ load
      · rw [map_append, nodup_append]
        refine ⟨before.keys, by simp, ?_⟩
        intro key mem other here same
        obtain ⟨o, oMember, rfl⟩ := mem_map.mp mem
        have isKey : other = e.key := by simpa using here
        apply twice
        apply any_eq_true.mpr
        exact ⟨o, oMember, decide_eq_true (same.trans isKey)⟩
      · intro o mem
        rcases mem_append.mp mem with old | new
        · exact before.installed o old
        · rw [mem_singleton.mp new]
          exact (parsePersistedEntry_installed parsed).1
      · intro o mem
        rcases mem_append.mp mem with old | new
        · exact before.containers o old
        · rw [mem_singleton.mp new]
          exact (parsePersistedEntry_installed parsed).2

theorem loadable_loadState {file : Option (List UInt8)}
    (load : loadState file = some t) :
    ∃ entries, Loadable entries ∧ ∀ i e, t.get i = some e → entries[i]? = some e := by
  have none : Loadable [] := ⟨by simp, by simp, by simp⟩
  cases file with
  | none =>
    rw [loadState] at load
    cases load
    exact ⟨[], none, fun i e held => by simp at held⟩
  | some text =>
    rw [loadState] at load
    split at load
    · cases load
    · split_ifs at load
      obtain ⟨entries, loaded, rfl⟩ := Option.map_eq_some_iff.mp load
      refine ⟨entries, loadable_loadEntries none loaded, ?_⟩
      intro i e held
      exact Slots.getElem?_of_get_ofEntries held

theorem distinct_loadState {file : Option (List UInt8)}
    (load : loadState file = some t) : t.Distinct := by
  obtain ⟨entries, loadable, inEntries⟩ := loadable_loadState load
  intro i j a b first second same
  obtain ⟨iInside, iHere⟩ := List.getElem?_eq_some_iff.mp (inEntries i a first)
  obtain ⟨jInside, jHere⟩ := List.getElem?_eq_some_iff.mp (inEntries j b second)
  have inside : i < (entries.map Entry.key).length := by simpa using iInside
  have alsoInside : j < (entries.map Entry.key).length := by simpa using jInside
  have equal : (entries.map Entry.key)[i] = (entries.map Entry.key)[j] := by
    simp only [getElem_map, iHere, jHere, same]
  exact loadable.keys.getElem_inj_iff.mp equal

theorem installed_loadState {file : Option (List UInt8)}
    (load : loadState file = some t) {i : Nat} {e : Entry}
    (held : t.get i = some e) :
    e.state = .installed ∧ e.buildContainer = none := by
  obtain ⟨entries, loadable, inEntries⟩ := loadable_loadState load
  have mem := mem_of_getElem? (inEntries i e held)
  exact ⟨loadable.installed e mem, loadable.containers e mem⟩

end Cix.Pkg
