import Cix.Container.Definitions
import Cix.Ldap.Persistence

/-!
# Subordinate id ranges

The allocator of `daemon/src/subid.c` beside the user records.  Each of the two
looks into the table of the other before it commits: a new range steps over
the uids that users have, and a user gets no uid inside a range.  The two
tables are saved to different files, and a key is the name of a container.
-/

namespace Cix.Subid

open Cix.Lib Cix.Json Cix.Ldap List

def subidFloor : Int := 100000

def rangeLen : Int := 65536

def llongMax : Int := 2 ^ 63 - 1

structure Entry where
  key : BoundedStr 128
  base : Int
  deriving DecidableEq

structure State where
  directory : Directory
  table : List Entry
  file : Option (List UInt8)

def find (key : CStr) (table : List Entry) : Option Entry :=
  table.find? fun e => e.key.str = key

/-- One object of `persist_table`. -/
def writeEntry (e : Entry) (w : Writer) : Writer :=
  let w := jwObjOpen w
  let w := jwStr e.key.str (key "key" w)
  let w := jwInt e.base (key "base" w)
  jwObjClose w

def tableText (table : List Entry) : List UInt8 :=
  (jwArrClose (table.foldl (fun w e => writeEntry e w) (jwArrOpen jwInit))).buf

/-- The body of the loop of `subid_init`; an entry without a key or a number is
skipped. -/
def loadEntry (item : Value) : Option Entry :=
  match readString item "key", objectGet (some item) "base" with
  | some key, some (.number base) =>
    some ⟨BoundedStr.store 128 pos_128 key, base.toLongLong⟩
  | _, _ => none

def subidInit (s : State) : State :=
  match s.file with
  | none => { s with table := [] }
  | some text =>
    match asArray (jsonParse text) with
    | none => { s with table := [] }
    | some items => { s with table := (items.filterMap loadEntry).take 512 }

def ldapUserUidnumberInRange (lo hi : Int) (d : Directory) : Bool :=
  d.users.entries.any fun u =>
    decide (lo ≤ u.uidnumber.toInt) && decide (u.uidnumber.toInt ≤ hi)

def subidOverlapsUidnumber (uidnumber : Int) (table : List Entry) : Bool :=
  table.any fun e =>
    decide (e.base ≤ uidnumber) && decide (uidnumber < e.base + rangeLen)

def nextBase (table : List Entry) : Int :=
  table.foldl (fun next e =>
    if e.base + rangeLen > next then e.base + rangeLen else next) subidFloor

theorem lt_of_uidnumberInRange {lo hi : Int} {d : Directory}
    (used : ldapUserUidnumberInRange lo hi d = true) : lo < 2 ^ 31 := by
  obtain ⟨u, _, inside⟩ := any_eq_true.mp used
  have upper := u.uidnumber.toInt_lt
  simp only [Bool.and_eq_true, decide_eq_true_eq] at inside
  omega

/-- The loop of `subid_lookup_or_assign` that steps past ranges with the uid
of a user in them. -/
def freeBase (d : Directory) (next : Int) : Option Int :=
  if used : ldapUserUidnumberInRange next (next + rangeLen - 1) d = true then
    if next + rangeLen > llongMax - rangeLen then none
    else freeBase d (next + rangeLen)
  else some next
termination_by (2 ^ 31 - next).toNat
decreasing_by
  have less := lt_of_uidnumberInRange used
  rw [rangeLen]
  omega

/-- `subid_lookup_or_assign`, with the answer of `persist_atomic_write`. -/
def subidLookupOrAssign (written : Bool) (key : CStr) (s : State) : State × Option Int :=
  match find key s.table with
  | some e => (s, some e.base)
  | none =>
    if s.table.length ≥ 512 then (s, none)
    else
      match freeBase s.directory (nextBase s.table) with
      | none => (s, none)
      | some base =>
        if written then
          let table := s.table ++
            [⟨BoundedStr.store 128 pos_128 key, base⟩]
          ({ s with table := table, file := some (tableText table) }, some base)
        else (s, none)

/-- One call.  `overlaps` of a call about users is answered by the table. -/
inductive Op where
  | assign (written : Bool) (name : Container.RegistryName)
  | records (op : Ldap.Op)
  | reload

/-- The call with the answer of `subid_overlaps_uidnumber`. -/
def answered (table : List Entry) : Ldap.Op → Ldap.Op
  | .userCreate written _ name f owner canSearch =>
    .userCreate written (subidOverlapsUidnumber f.uidnumber.toInt table) name f owner canSearch
  | .userUpdate written _ name newName f canSearch =>
    .userUpdate written (subidOverlapsUidnumber f.uidnumber.toInt table) name newName f canSearch
  | .userUpdateOwn written _ name uidnumber primarygroup hash canSearch =>
    .userUpdateOwn written (subidOverlapsUidnumber uidnumber.toInt table)
      name uidnumber primarygroup hash canSearch
  | op => op

def step (s : State) : Op → State
  | .assign written name => (subidLookupOrAssign written name.text.str s).1
  | .records op => { s with directory := Ldap.step s.directory (answered s.table op) }
  | .reload => subidInit s

def firstStart : State :=
  ⟨Ldap.firstStart, [], none⟩

def entryMembers (e : Entry) : List (CStr × Doc) :=
  [("key", .str e.key.str), ("base", intDoc e.base)]

def entryDoc (e : Entry) : Doc :=
  .obj (entryMembers e)

def Entry.Whole (e : Entry) : Prop :=
  e.base.natAbs ≤ 2 ^ 53

theorem emits_writeEntry {e : Entry} (whole : e.Whole) : Emits (writeEntry e) (entryDoc e) := by
  have name := (emits_str e.key.str).member "key"
  have base := (emits_int whole).member "base"
  exact FillsObj.emits (name.comp base)

theorem loadEntry_doc {e : Entry} (whole : e.Whole) : loadEntry (entryDoc e).value = some e := by
  have distinct : ((entryMembers e).map Prod.fst).Nodup := by
    simp only [entryMembers, map_cons, map_nil]
    decide
  have name : readString (entryDoc e).value "key" = some e.key.str :=
    readString_str distinct (by simp [entryMembers])
  have base : objectGet (some (entryDoc e).value) "base" = some (intDoc e.base).value :=
    objectGet_member distinct (by simp [entryMembers])
  have read := toLongLong_intDoc whole
  rw [intDoc, Doc.value] at base read
  rw [loadEntry, name, base]
  simp only [asNumber] at read
  simp only [read, BoundedStr.store_str]

theorem tableText_eq {table : List Entry} (whole : ∀ e ∈ table, e.Whole) :
    tableText table = (Doc.arr (table.map entryDoc)).text := by
  have emits := emits_arr fun e (mem : e ∈ table) =>
    emits_writeEntry (whole e mem)
  exact emits.buf_jwInit

theorem subidInit_saved {s : State} {table : List Entry}
    (saved : s.file = some (tableText table)) (whole : ∀ e ∈ table, e.Whole)
    (fits : table.length ≤ 512) :
    subidInit s = { s with table := table } := by
  have each : ∀ e ∈ table, loadEntry (entryDoc e).value = some (id e) :=
    fun e mem => loadEntry_doc (whole e mem)
  have read := filterMap_written id each
  rw [map_id] at read
  simp only [subidInit, saved]
  rw [tableText_eq whole, jsonParse_text, asArray_arr]
  simp only [read, take_of_length_le fits]

end Cix.Subid
