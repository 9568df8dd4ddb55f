import Cix.Lib.CString
import Cix.Lib.MarkedLines
import Mathlib.Algebra.GroupWithZero.Nat
import Mathlib.Algebra.Ring.Int.Defs

/-!
# Rewriting a section of a server's configuration

`rewrite_section` of `daemon/src/ldap.c` sets the keys of one TOML section in
the operator's part of a configuration: a key that the section has is written
anew in its place, a key that it lacks is added at its end, and a section that
is not there is added at the end of the text.  It works on the text line by
line, into a buffer whose capacity it has computed beforehand.
-/

namespace Cix.Ldap

open Cix.Lib List

def isBlank (c : UInt8) : Bool :=
  c = 32 || c = 9

/-- `struct kv`, as the callers fill it: a bare TOML key, and a value of one
line. -/
structure Kv where
  key : CStr
  value : BoundedStr 128
  named : key.bytes ≠ []
  bare : ∀ c ∈ key.bytes, isBlank c = false ∧ c ≠ 61 ∧ c ≠ 10
  oneLine : 10 ∉ value.str.bytes

structure SectionName where
  text : CStr
  oneLine : 10 ∉ text.bytes

/-- Does `section_bound` take the line for the header of the section? -/
def isHeader (name : SectionName) (line : List UInt8) : Bool :=
  let text := unmarked 10 line
  let nlen := name.text.length
  decide (nlen + 2 ≤ text.length) && text.head? = some 91 &&
    (text.drop 1).take nlen = name.text.bytes && text[1 + nlen]? = some 93 &&
    (text.drop (2 + nlen)).all fun c => isBlank c || c = 13

/-- Does `section_end` take the line for the beginning of a table? -/
def isTable (line : List UInt8) : Bool :=
  line.head? = some 91

/-- Is this the `key = ...` line of the key? -/
def holdsKey (key : CStr) (line : List UInt8) : Bool :=
  let text := (unmarked 10 line).dropWhile isBlank
  decide (key.length < text.length) && text.take key.length = key.bytes &&
    ((text.drop key.length).dropWhile isBlank).head? = some 61

def keyLine (kv : Kv) : List UInt8 :=
  [32, 32] ++ kv.key.bytes ++ [32, 61, 32] ++ kv.value.str.bytes

def headerLine (name : SectionName) : List UInt8 :=
  91 :: name.text.bytes ++ [93]

/-- A text at its section: what precedes the header, the header, the lines of
the section and what follows them. -/
structure Split where
  before : List (List UInt8)
  header : List UInt8
  (body after : List (List UInt8))

/-- `section_bound` and `section_end`. -/
def sectionBound (name : SectionName) : List (List UInt8) → Option Split
  | [] => none
  | line :: rest =>
    if isHeader name line then
      some ⟨[], line, rest.takeWhile fun line => !isTable line,
        rest.dropWhile fun line => !isTable line⟩
    else
      (sectionBound name rest).map fun split =>
        { split with before := line :: split.before }

def sectionKeyLine (key : CStr) (body : List (List UInt8)) : Option (List UInt8) :=
  body.find? (holdsKey key)

/-- A `memcpy` into the buffer, or an `snprintf`, which needs room for the
terminator as well. -/
inductive Write
  | copied (text : List UInt8)
  | printed (text : List UInt8)

def Write.text : Write → List UInt8
  | .copied text => text
  | .printed text => text

def Write.fits (cap n : Nat) : Write → Bool
  | .copied text => n + text.length ≤ cap
  | .printed text => n + text.length < cap

/-- The writes one after the other; `none` when one of them does not fit. -/
def emit (cap : Nat) : List Write → List UInt8 → Option (List UInt8)
  | [], out => some out
  | write :: rest, out =>
    if write.fits cap out.length then emit cap rest (out ++ write.text)
    else none

def bodyWrite (kvs : List Kv) (line : List UInt8) : Write :=
  match kvs.find? fun kv => holdsKey kv.key line with
  | some kv => .printed (keyLine kv ++ [10])
  | none => .copied line

def absentKeys (kvs : List Kv) (body : List (List UInt8)) : List Kv :=
  kvs.filter fun kv => (sectionKeyLine kv.key body).isNone

/-- The writes of `rewrite_section` in their order.  What it decides does not
depend on what it has written. -/
def sectionWrites (name : SectionName) (kvs : List Kv) (text : List UInt8) :
    List Write :=
  let printKey := fun kv => Write.printed (keyLine kv ++ [10])
  match sectionBound name (markedLines 10 text) with
  | none =>
    .copied text :: (if text ≠ [] ∧ text.getLast? ≠ some 10 then [.copied [10]] else []) ++
      .printed (10 :: headerLine name ++ [10]) :: kvs.map printKey
  | some split =>
    .copied (split.before.flatten ++ split.header) ::
      split.body.map (bodyWrite kvs) ++
      (absentKeys kvs split.body).map printKey ++
      [.copied split.after.flatten]

def sectionCapacity (kvs : List Kv) (text : List UInt8) : Nat :=
  text.length + 512 + kvs.length * 160

def rewriteSection (name : SectionName) (kvs : List Kv) (text : List UInt8) : Option (List UInt8) :=
  emit (sectionCapacity kvs text) (sectionWrites name kvs text) []

variable {line : List UInt8}

def isKeyByte (c : UInt8) : Bool :=
  !isBlank c && decide (c ≠ 61)

def keyOf (line : List UInt8) : Option (List UInt8) :=
  let text := (unmarked 10 line).dropWhile isBlank
  let key := text.takeWhile isKeyByte
  if ((text.drop key.length).dropWhile isBlank).head? = some 61 then some key
  else none

theorem Kv.keyByte (kv : Kv) {c : UInt8} (mem : c ∈ kv.key.bytes) : isKeyByte c = true := by
  obtain ⟨notBlank, notEquals, _⟩ := kv.bare c mem
  simp [isKeyByte, notBlank, notEquals]

theorem holdsKey_iff (kv : Kv) (line : List UInt8) :
    holdsKey kv.key line = true ↔ keyOf line = some kv.key.bytes := by
  unfold holdsKey keyOf CStr.length
  dsimp only
  generalize (unmarked 10 line).dropWhile isBlank = text
  constructor
  · intro holds
    simp only [Bool.and_eq_true, decide_eq_true_eq] at holds
    obtain ⟨⟨_, isKey⟩, equals⟩ := holds
    have parts := take_append_drop kv.key.bytes.length text
    rw [isKey] at parts
    generalize text.drop kv.key.bytes.length = rest at parts equals
    have read : text.takeWhile isKeyByte = kv.key.bytes := by
      rw [← parts, takeWhile_append_of_pos fun c => kv.keyByte]
      have stops : rest.takeWhile isKeyByte = [] := by
        cases rest with
        | nil => rfl
        | cons c rest =>
          rw [takeWhile_cons_of_neg]
          by_cases blank : isBlank c = true
          · simp [isKeyByte, blank]
          · rw [dropWhile_cons_of_neg blank, head?_cons, Option.some.injEq] at equals
            simp [isKeyByte, equals]
      rw [stops, append_nil]
    rw [read, ← parts, drop_left, if_pos equals]
  · intro found
    split at found
    next equals =>
      rw [Option.some.inj found] at equals
      have parts := takeWhile_append_dropWhile (p := isKeyByte) (l := text)
      rw [Option.some.inj found] at parts
      generalize text.dropWhile isKeyByte = rest at parts
      rw [← parts, drop_left] at equals
      have more : rest ≠ [] := by
        intro none
        simp [none] at equals
      have longer := length_pos_iff.mpr more
      simp only [← parts, drop_left, take_left, equals,
        length_append, decide_true, Bool.and_true, decide_eq_true_eq]
      omega
    next => exact absurd found (by simp)

theorem newline_notMem_keyLine (kv : Kv) : 10 ∉ keyLine kv := by
  have notKey : 10 ∉ kv.key.bytes := fun mem =>
    (kv.bare 10 mem).2.2 rfl
  simp [keyLine, notKey, kv.oneLine]

theorem unmarked_keyLine (kv : Kv) (rest : List UInt8) :
    unmarked 10 (keyLine kv ++ 10 :: rest) = keyLine kv :=
  unmarked_append (newline_notMem_keyLine kv)

theorem keyOf_congr {other : List UInt8} (same : unmarked 10 line = unmarked 10 other) :
    keyOf line = keyOf other := by
  unfold keyOf
  rw [same]

theorem keyOf_keyLine (kv : Kv) : keyOf (keyLine kv) = some kv.key.bytes := by
  have text : (unmarked 10 (keyLine kv)).dropWhile isBlank =
      kv.key.bytes ++ [32, 61, 32] ++ kv.value.str.bytes := by
    rw [unmarked_plain (newline_notMem_keyLine kv)]
    unfold keyLine
    cases spelled : kv.key.bytes with
    | nil => exact absurd spelled kv.named
    | cons c rest =>
      have notBlank : isBlank c = false := (kv.bare c (spelled ▸ mem_cons_self)).1
      simp [isBlank] at notBlank
      simp [isBlank, notBlank]
  have read : (kv.key.bytes ++ [32, 61, 32] ++
      kv.value.str.bytes).takeWhile isKeyByte = kv.key.bytes := by
    rw [append_assoc, takeWhile_append_of_pos fun c => kv.keyByte]
    simp [isKeyByte, isBlank]
  unfold keyOf
  dsimp only
  rw [text, read, append_assoc, drop_left]
  simp [isBlank]

theorem keyOf_writtenLine (kv : Kv) : keyOf (keyLine kv ++ [10]) = some kv.key.bytes := by
  rw [← keyOf_keyLine kv]
  apply keyOf_congr
  rw [unmarked_keyLine, unmarked_plain (newline_notMem_keyLine kv)]

variable {kvs : List Kv}

def held (kvs : List Kv) (line : List UInt8) : Bool :=
  kvs.any fun kv => holdsKey kv.key line

theorem held_iff : held kvs line = true ↔ ∃ kv ∈ kvs, keyOf line = some kv.key.bytes := by
  simp only [held, any_eq_true, holdsKey_iff]

theorem held_congr {other : List UInt8} (same : keyOf line = keyOf other) :
    held kvs line = held kvs other := by
  rw [Bool.eq_iff_iff, held_iff, held_iff, same]

theorem bodyWrite_of_held {kvs : List Kv} {line : List UInt8} (holds : held kvs line = true) :
    ∃ kv ∈ kvs, keyOf line = some kv.key.bytes ∧
      bodyWrite kvs line = .printed (keyLine kv ++ [10]) := by
  unfold bodyWrite
  cases found : kvs.find? fun kv => holdsKey kv.key line with
  | none =>
    rw [find?_eq_none] at found
    obtain ⟨kv, mem, isKey⟩ := any_eq_true.mp holds
    exact absurd isKey (found kv mem)
  | some kv =>
    have isKey := find?_some found
    exact ⟨kv, mem_of_find?_eq_some found, (holdsKey_iff kv line).mp (by simpa using isKey), rfl⟩

theorem bodyWrite_of_free (free : held kvs line = false) : bodyWrite kvs line = .copied line := by
  unfold bodyWrite
  have none : (kvs.find? fun kv => holdsKey kv.key line) = none := by
    rw [find?_eq_none]
    intro kv mem
    simpa using any_eq_false.mp free kv mem
  rw [none]

theorem mem_absentKeys {body : List (List UInt8)} {kv : Kv} : kv ∈ absentKeys kvs body ↔
      kv ∈ kvs ∧ ∀ line ∈ body, keyOf line ≠ some kv.key.bytes := by
  simp only [absentKeys, mem_filter, sectionKeyLine,
    Option.isNone_iff_eq_none, find?_eq_none, holdsKey_iff, ne_eq]

namespace Split

def lines (split : Split) : List (List UInt8) :=
  split.before ++ split.header :: (split.body ++ split.after)

def map (f : List UInt8 → List UInt8) (split : Split) : Split where
  before := split.before.map f
  header := f split.header
  body := split.body.map f
  after := split.after.map f

end Split

structure IsSection (name : SectionName) (split : Split)
    (list : List (List UInt8)) : Prop where
  lines : list = split.lines
  header : isHeader name split.header = true
  first : ∀ line ∈ split.before, isHeader name line = false
  inside : ∀ line ∈ split.body, isTable line = false
  ends : ∀ line, split.after.head? = some line → isTable line = true

theorem takeWhile_dropWhile_append {p : List UInt8 → Bool}
    {body after : List (List UInt8)} (inside : ∀ line ∈ body, p line = true)
    (ends : ∀ line, after.head? = some line → p line = false) :
    (body ++ after).takeWhile p = body ∧ (body ++ after).dropWhile p = after := by
  have stops : after.takeWhile p = [] ∧ after.dropWhile p = after := by
    cases after with
    | nil => exact ⟨rfl, rfl⟩
    | cons line rest =>
      have stop := ends line rfl
      simp [stop]
  rw [takeWhile_append_of_pos inside, dropWhile_append_of_pos inside, stops.1, stops.2, append_nil]
  exact ⟨rfl, rfl⟩

theorem sectionBound_eq_some_iff {name : SectionName} {split : Split}
    {list : List (List UInt8)} :
    sectionBound name list = some split ↔ IsSection name split list := by
  constructor
  · intro found
    induction list generalizing split with
    | nil => cases found
    | cons line rest ih =>
      unfold sectionBound at found
      split at found
      next isHdr =>
        rw [← Option.some.inj found]
        refine ⟨?_, isHdr, fun line mem => absurd mem (by simp), ?_, ?_⟩
        · simp [Split.lines, takeWhile_append_dropWhile]
        · intro other mem
          simpa using mem_takeWhile_imp mem
        · intro other first
          have nonempty : (rest.dropWhile fun line => !isTable line) ≠ [] := by
            intro none
            simp [none] at first
          have stop := head_dropWhile_not (fun line => !isTable line) nonempty
          rw [head?_eq_some_head nonempty, Option.some.injEq] at first
          rw [first] at stop
          simpa using stop
      next notHdr =>
        rw [Option.map_eq_some_iff] at found
        obtain ⟨inner, innerFound, rfl⟩ := found
        have later := ih innerFound
        refine ⟨?_, later.header, ?_, later.inside, later.ends⟩
        · rw [later.lines]
          rfl
        · intro other mem
          rcases mem_cons.mp mem with here | inRest
          · rw [here]
            simpa using notHdr
          · exact later.first other inRest
  · rintro ⟨rfl, header, first, inside, ends⟩
    obtain ⟨before, hdr, body, after⟩ := split
    dsimp only [Split.lines] at header first inside ends ⊢
    induction before with
    | nil =>
      obtain ⟨taken, dropped⟩ := takeWhile_dropWhile_append (p := fun line => !isTable line)
        (fun line mem => by simp [inside line mem])
        (fun line head => by simp [ends line head])
      rw [nil_append, sectionBound, if_pos header, taken, dropped]
    | cons line rest ih =>
      have notHdr := first line mem_cons_self
      rw [cons_append, sectionBound, if_neg (by simp [notHdr]), ih fun other mem =>
          first other (mem_cons_of_mem _ mem)]
      rfl

theorem sectionBound_eq_none_iff {name : SectionName}
    {list : List (List UInt8)} :
    sectionBound name list = none ↔
      ∀ line ∈ list, isHeader name line = false := by
  induction list with
  | nil => simp [sectionBound]
  | cons line rest ih =>
    unfold sectionBound
    split
    next isHdr => simp [isHdr]
    next notHdr => simp [notHdr, ih]

def newLine (kvs : List Kv) (line : List UInt8) : List UInt8 :=
  (bodyWrite kvs line).text

def growth (kvs : List Kv) (list : List (List UInt8)) : Int :=
  (list.map fun line =>
    ((newLine kvs line).length : Int) - (line.length : Int)).sum

def added (kvs : List Kv) : Nat :=
  (kvs.map fun kv => (keyLine kv).length + 1).sum

def room (kvs : List Kv) : Int :=
  512 + 160 * (kvs.length : Int)

def RoomFor (name : SectionName) (kvs : List Kv) (text : List UInt8) : Prop :=
  match sectionBound name (markedLines 10 text) with
  | none =>
    ((if text ≠ [] ∧ text.getLast? ≠ some 10 then 1 else 0 : Nat) : Int) +
      (name.text.length + 4 + added kvs : Nat) < room kvs
  | some split =>
    (∀ front line back, split.body = front ++ line :: back →
      held kvs line = true → growth kvs (front ++ [line]) <
        room kvs + (back.flatten.length + split.after.flatten.length : Nat)) ∧
    (absentKeys kvs split.body ≠ [] →
      growth kvs split.body + (added (absentKeys kvs split.body) : Nat) <
        room kvs + (split.after.flatten.length : Nat)) ∧
    growth kvs split.body + (added (absentKeys kvs split.body) : Nat) ≤ room kvs

/-- The writes fit one after the other from the offset `n` on. -/
def Fit (cap : Nat) : Nat → List Write → Prop
  | _, [] => True
  | n, write :: rest => write.fits cap n = true ∧ Fit cap (n + write.text.length) rest

def written (writes : List Write) : List UInt8 :=
  (writes.map Write.text).flatten

variable {cap : Nat}

theorem emit_eq_some_iff {writes : List Write}
    {out result : List UInt8} :
    emit cap writes out = some result ↔
      Fit cap out.length writes ∧ result = out ++ written writes := by
  induction writes generalizing out with
  | nil => simp [emit, Fit, written, eq_comm]
  | cons write rest ih =>
    unfold emit Fit
    split
    next fits =>
      rw [ih, length_append]
      simp [fits, written, append_assoc]
    next tooLong => simp [tooLong]

theorem fit_append {n : Nat} {first second : List Write} : Fit cap n (first ++ second) ↔
      Fit cap n first ∧ Fit cap (n + (written first).length) second := by
  induction first generalizing n with
  | nil => simp [Fit, written]
  | cons write rest ih =>
    rw [cons_append, Fit, Fit, ih, and_assoc]
    simp [written, Nat.add_assoc]

theorem growth_cons (kvs : List Kv) (line : List UInt8) (rest : List (List UInt8)) :
    growth kvs (line :: rest) =
      ((newLine kvs line).length - line.length : Int) + growth kvs rest := by
  simp [growth]

theorem length_written_body (kvs : List Kv) (body : List (List UInt8)) :
    ((written (body.map (bodyWrite kvs))).length : Int) =
      body.flatten.length + growth kvs body := by
  induction body with
  | nil => rfl
  | cons line rest ih =>
    rw [growth_cons]
    simp only [written, map_cons, flatten_cons, length_append, newLine] at ih ⊢
    omega

theorem length_written_keys (kvs : List Kv) :
    (written (kvs.map fun kv => Write.printed (keyLine kv ++ [10]))).length =
      added kvs := by
  induction kvs with
  | nil => rfl
  | cons kv rest ih =>
    simp only [written, added, map_cons, flatten_cons, length_append, sum_cons] at ih ⊢
    rw [ih]
    simp [Write.text]

theorem fit_keys {n : Nat} (kvs : List Kv) :
    Fit cap n (kvs.map fun kv => Write.printed (keyLine kv ++ [10])) ↔
      (kvs ≠ [] → n + added kvs < cap) := by
  induction kvs generalizing n with
  | nil => simp [Fit]
  | cons kv rest ih =>
    rw [map_cons, Fit, ih]
    simp only [Write.fits, Write.text, length_append,
      length_singleton, decide_eq_true_eq, added, map_cons,
      sum_cons, ne_eq, cons_ne_nil, not_false_eq_true,
      forall_const]
    cases rest with
    | nil => simp
    | cons next more =>
      simp only [cons_ne_nil, not_false_eq_true, forall_const]
      omega

theorem fit_body {kvs : List Kv} {body : List (List UInt8)}
    {n : Nat} (whole : n + (written (body.map (bodyWrite kvs))).length ≤ cap) :
    Fit cap n (body.map (bodyWrite kvs)) ↔ ∀ front line back, body = front ++ line :: back →
        held kvs line = true → n + (written ((front ++ [line]).map (bodyWrite kvs))).length <
            cap := by
  induction body generalizing n with
  | nil => simp [Fit]
  | cons line rest ih =>
    have parts : ∀ list, (written ((line :: list).map
        (bodyWrite kvs))).length = (newLine kvs line).length +
          (written (list.map (bodyWrite kvs))).length := by
      intro list
      simp [written, newLine]
    rw [parts] at whole
    rw [map_cons, Fit, ih (by
      change n + (newLine kvs line).length + _ ≤ cap
      omega)]
    constructor
    · rintro ⟨fits, later⟩ front other back split holds
      rcases cons_eq_append_iff.mp split with ⟨rfl, here⟩ | ⟨front, rfl, inRest⟩
      · obtain ⟨rfl, rfl⟩ := List.cons.inj here
        obtain ⟨kv, _, _, printed⟩ := bodyWrite_of_held holds
        rw [printed, Write.fits, decide_eq_true_eq] at fits
        simpa [written, printed, Write.text] using fits
      · have fits := later front other back inRest holds
        rw [cons_append, parts]
        change n + (newLine kvs line).length + _ < cap at fits
        omega
    · intro all
      constructor
      · cases holds : held kvs line with
        | true =>
          have fits := all [] line rest rfl holds
          obtain ⟨kv, _, _, printed⟩ := bodyWrite_of_held holds
          rw [printed, Write.fits, decide_eq_true_eq]
          simpa [written, printed, Write.text] using fits
        | false =>
          have copied := bodyWrite_of_free holds
          rw [copied, Write.fits, decide_eq_true_eq]
          rw [newLine, copied, Write.text] at whole
          omega
      · intro front other back split holds
        have fits := all (line :: front) other back (by rw [split, cons_append]) holds
        rw [cons_append, parts] at fits
        change n + (newLine kvs line).length + _ < cap
        omega

theorem length_headerLine (name : SectionName) :
    (headerLine name).length = name.text.length + 2 := by
  simp [headerLine, CStr.length]

theorem fit_created {n : Nat} (name : SectionName) (kvs : List Kv) :
    Fit cap n (.printed (10 :: headerLine name ++ [10]) ::
        kvs.map fun kv => .printed (keyLine kv ++ [10])) ↔
      n + (name.text.length + 4 + added kvs) < cap := by
  rw [Fit, fit_keys, Write.fits, decide_eq_true_eq, Write.text]
  simp only [cons_append, length_cons, length_append, length_headerLine, length_nil]
  cases kvs with
  | nil => simp [added, Nat.add_assoc]
  | cons kv rest =>
    simp only [ne_eq, cons_ne_nil, not_false_eq_true, forall_const]
    omega

theorem fit_found {split : Split} {text : List UInt8}
    (capacity : cap = sectionCapacity kvs text)
    (total : text.length = (split.before.flatten ++ split.header).length +
      split.body.flatten.length + split.after.flatten.length) :
    Fit cap 0 (.copied (split.before.flatten ++ split.header) ::
        split.body.map (bodyWrite kvs) ++
        (absentKeys kvs split.body).map (fun kv => .printed (keyLine kv ++ [10])) ++
        [.copied split.after.flatten]) ↔
      (∀ front line back, split.body = front ++ line :: back →
        held kvs line = true → growth kvs (front ++ [line]) <
          room kvs + (back.flatten.length + split.after.flatten.length : Nat)) ∧
      (absentKeys kvs split.body ≠ [] →
        growth kvs split.body + (added (absentKeys kvs split.body) : Nat) <
          room kvs + (split.after.flatten.length : Nat)) ∧
      growth kvs split.body + (added (absentKeys kvs split.body) : Nat) ≤
        room kvs := by
  have grown := length_written_body kvs split.body
  have keys := length_written_keys (absentKeys kvs split.body)
  unfold sectionCapacity at capacity
  unfold room
  rw [append_assoc, cons_append, Fit, fit_append, fit_append,
    fit_keys, Fit, Fit, Write.fits, Write.fits, Write.text, keys]
  generalize absentKeys kvs split.body = absent at keys ⊢
  generalize (split.before.flatten ++ split.header).length = head at total ⊢
  simp only [decide_eq_true_eq, Nat.zero_add, and_true]
  constructor
  · rintro ⟨_, body, last, whole⟩
    have fits := (fit_body (by omega)).mp body
    refine ⟨fun front line back parts holds => ?_, fun more => ?_, by omega⟩
    · have limit := fits front line back parts holds
      have part := length_written_body kvs (front ++ [line])
      rw [parts] at total
      simp only [flatten_append, flatten_cons, flatten_nil, append_nil, length_append] at total part
      omega
    · have limit := last more
      omega
  · rintro ⟨body, last, whole⟩
    refine ⟨by omega, ?_, fun more => ?_, by omega⟩
    · rw [fit_body (by omega)]
      intro front line back parts holds
      have limit := body front line back parts holds
      have part := length_written_body kvs (front ++ [line])
      rw [parts] at total
      simp only [flatten_append, flatten_cons, flatten_nil, append_nil, length_append] at total part
      omega
    · have limit := last more
      omega

/-- `rewrite_section` stays within its buffer, and cuts no line short, exactly
when there is room for the lines that it writes. -/
theorem fit_iff_roomFor (name : SectionName) (kvs : List Kv) (text : List UInt8) :
    Fit (sectionCapacity kvs text) 0 (sectionWrites name kvs text) ↔
      RoomFor name kvs text := by
  have lines := flatten_markedLines 10 text
  unfold sectionWrites RoomFor
  cases found : sectionBound name (markedLines 10 text) with
  | none =>
    dsimp only
    rw [fit_append, fit_created]
    unfold sectionCapacity room
    split
    · simp [Fit, Write.fits, Write.text, written]
      omega
    · simp [Fit, Write.fits, Write.text, written]
      omega
  | some split =>
    apply fit_found rfl
    rw [← lines, (sectionBound_eq_some_iff.mp found).lines]
    simp only [Split.lines, flatten_append, flatten_cons, length_append]
    omega

end Cix.Ldap
