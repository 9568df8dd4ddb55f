import Cix.Json.Roundtrip
import Cix.Lib.Lines

/-!
# The default that the operator sets

`write_loader_conf` and `esp_loader_set` of `daemon/src/esp.c`, which write the
default pattern into `loader.conf`, and `read_default_pattern` of
`image/src/cix-boot.c`, which reads it there at the next boot.  The file may
hold any lines of the operator's own.
-/

namespace Cix.Boot

open Cix.Lib List

/-! ## Lines of a boot file -/

def newline : UInt8 := 10

def isBlank (c : UInt8) : Bool :=
  c = 32 || c = 9

def ascii (text : String) : List UInt8 :=
  (CStr.ofString text).bytes

/-- A line of `cix-boot`: what precedes the first blank. -/
def keyOf (line : List UInt8) : List UInt8 :=
  line.takeWhile fun c => !isBlank c

def valueOf (line : List UInt8) : List UInt8 :=
  let value := (line.dropWhile fun c => !isBlank c).dropWhile isBlank
  if value.getLast? = some 13 then value.dropLast else value

/-! ## The reader -/

def entryTextMax : Nat := 4096

def nameMaxChars : Nat := 128

def isDefaultKey (line : List UInt8) : Bool :=
  decide (keyOf line = ascii "default")

/-- `read_default_pattern`, for the content of `loader.conf` if there is
any. -/
def readDefaultPattern (conf : Option (List UInt8)) : CStr :=
  match conf with
  | none => CStr.empty
  | some text =>
    match (lines newline (text.take entryTextMax)).find? isDefaultKey with
    | none => CStr.empty
    | some line => CStr.ofBytes ((valueOf line).take (nameMaxChars - 1))

/-! ## The writer -/

def espDefaultMax : Nat := 128

def timeoutLine (seconds : Nat) : List UInt8 :=
  ascii "timeout " ++ Json.natText seconds

def defaultLine (pattern : CStr) : List UInt8 :=
  ascii "default " ++ pattern.bytes

def isDirective (word : String) (line : List UInt8) : Bool :=
  decide (7 ≤ line.length) && decide (line.take 7 = ascii word) &&
    (decide (line.length = 7) || (line.drop 7).head?.any isBlank)

/-- `snprintf` or `memcpy` at the end of what is assembled, which needs room
for a terminating zero. -/
def emit (cap : Nat) (out chunk : List UInt8) : Option (List UInt8) :=
  if out.length + chunk.length < cap then some (out ++ chunk) else none

/-- What the loop of `write_loader_conf` makes of one line. -/
def rewriteLine (newDefault : Option CStr) (newTimeout : Option Nat)
    (line : List UInt8) : List UInt8 :=
  match isDirective "default" line, newDefault,
      isDirective "timeout" line, newTimeout with
  | true, some pattern, _, _ => defaultLine pattern
  | _, _, true, some seconds => timeoutLine seconds
  | _, _, _, _ => line

/-- The lines that `write_loader_conf` adds at the end. -/
def addedLines (newDefault : Option CStr) (newTimeout : Option Nat)
    (old : List (List UInt8)) : List (List UInt8) :=
  (if old.any (isDirective "default") then []
    else newDefault.toList.map defaultLine) ++
  (if old.any (isDirective "timeout") then []
    else newTimeout.toList.map timeoutLine)

/-- The text that `write_loader_conf` assembles, line by line, when there is
room for it. -/
def assemble (cap : Nat) (newLines : List (List UInt8)) : Option (List UInt8) :=
  newLines.foldlM (fun out line => emit cap out (line ++ [newline])) []

/-- `write_loader_conf` up to the write itself: the new content, if there was room
for it. -/
def writeLoaderConf (conf : Option (List UInt8)) (newDefault : Option CStr)
    (newTimeout : Option Nat) : Option (List UInt8) :=
  let text := conf.getD []
  let old := lines newline (cstrAt text)
  assemble (text.length + 2 * espDefaultMax + 256)
    (old.map (rewriteLine newDefault newTimeout) ++ addedLines newDefault newTimeout old)

inductive EspError where
  | noEsp
  | readOnly
  | invalid
  | wouldOrphan
  | persistFailed
  deriving DecidableEq, Repr

/-- What `access` says of the loader directory. -/
inductive LoaderDir where
  | missing
  | readOnly
  | writable
  deriving DecidableEq, Repr

/-- What `esp_loader_set` finds; `matches` says whether a pattern matches a name. -/
structure LoaderHost where
  dir : LoaderDir
  entries : List CStr
  patternMatches : CStr → CStr → Bool
  written : Bool

/-- The content of `loader.conf` afterwards. -/
def espLoaderSet (host : LoaderHost) (conf : Option (List UInt8))
    (pattern : Option CStr) (timeout : Option Int) :
    Except EspError (List UInt8) := do
  match host.dir with
  | .missing => throw .noEsp
  | .readOnly => throw .readOnly
  | .writable => pure ()
  if pattern.any fun d =>
      d.length = 0 || d.length ≥ espDefaultMax || d.bytes.contains newline then
    throw .invalid
  if timeout.any fun t => t < 0 || t > 3600 then
    throw .invalid
  if pattern.any fun d =>
      !host.entries.isEmpty && !host.entries.any (host.patternMatches d) then
    throw .wouldOrphan
  match writeLoaderConf conf pattern (timeout.map Int.toNat) with
  | none => throw .persistFailed
  | some text => if host.written then return text else throw .persistFailed

/-! ## Keys and directives -/

theorem head_after_key {line : List UInt8} {c : UInt8}
    (head : (line.dropWhile fun c => !isBlank c).head? = some c) :
    isBlank c = true := by
  induction line with
  | nil => cases head
  | cons first rest ih =>
    rw [dropWhile_cons] at head
    split at head
    · exact ih head
    next blank =>
      cases head
      simpa using blank

theorem keyOf_append {word rest : List UInt8} (plain : ∀ c ∈ word, isBlank c = false)
    (ends : ∀ c, rest.head? = some c → isBlank c = true) :
    keyOf (word ++ rest) = word := by
  rw [keyOf, takeWhile_append_of_pos (by simpa using plain)]
  cases rest with
  | nil => simp
  | cons c rest =>
    have blank := ends c rfl
    simp [blank]

theorem isDirective_iff {word : String} (seven : (ascii word).length = 7)
    (plain : ∀ c ∈ ascii word, isBlank c = false) (line : List UInt8) :
    isDirective word line = true ↔ keyOf line = ascii word := by
  constructor
  · intro directive
    simp only [isDirective, Bool.and_eq_true, Bool.or_eq_true, decide_eq_true_eq] at directive
    obtain ⟨⟨_, isWord⟩, ends⟩ := directive
    have split := take_append_drop 7 line
    rw [isWord] at split
    rw [← split]
    apply keyOf_append plain
    intro c head
    rcases ends with short | blank
    · rw [drop_of_length_le (by omega)] at head
      cases head
    · rw [head] at blank
      exact blank
  · intro isKey
    have split := @takeWhile_append_dropWhile _ (fun c => !isBlank c) line
    change keyOf line ++ _ = line at split
    rw [isKey] at split
    have ends := @head_after_key line
    revert split ends
    generalize (line.dropWhile fun c => !isBlank c) = rest
    intro split ends
    subst split
    simp only [isDirective, Bool.and_eq_true, Bool.or_eq_true,
      decide_eq_true_eq, length_append, seven]
    refine ⟨⟨by omega, ?_⟩, ?_⟩
    · rw [take_append_of_le_length (by omega), take_of_length_le (by omega)]
    · rw [drop_append, seven, drop_of_length_le (by omega)]
      cases rest with
      | nil =>
        left
        rfl
      | cons c rest =>
        right
        exact ends rfl

theorem isDirective_default (line : List UInt8) :
    isDirective "default" line = isDefaultKey line := by
  have both := @isDirective_iff "default" (by decide +kernel) (by decide +kernel) line
  rw [isDefaultKey, Bool.eq_iff_iff, both, decide_eq_true_eq]

/-! ## Values -/

theorem length_dropLast_le {α : Type*} (list : List α) : list.dropLast.length ≤ list.length := by
  rw [length_dropLast]
  omega

def withoutReturn (value : List UInt8) : List UInt8 :=
  if value.getLast? = some 13 then value.dropLast else value

theorem length_withoutReturn (value : List UInt8) :
    (withoutReturn value).length ≤ value.length := by
  rw [withoutReturn]
  split
  · exact length_dropLast_le value
  · exact le_refl _

theorem length_valueOf (line : List UInt8) : valueOf line = [] ∨
      (valueOf line).length + (keyOf line).length + 1 ≤ line.length := by
  have split := @takeWhile_append_dropWhile _ (fun c => !isBlank c) line
  change keyOf line ++ _ = line at split
  have total := congrArg List.length split
  rw [length_append] at total
  have ends := @head_after_key line
  have value : valueOf line = withoutReturn
      ((line.dropWhile fun c => !isBlank c).dropWhile isBlank) := rfl
  revert total ends value
  generalize (line.dropWhile fun c => !isBlank c) = rest
  intro total ends value
  cases rest with
  | nil =>
    left
    rw [value]
    rfl
  | cons c rest =>
    right
    have blank := ends rfl
    rw [dropWhile_cons_of_pos blank] at value
    have short := length_withoutReturn (rest.dropWhile isBlank)
    have dropped := (dropWhile_suffix isBlank (l := rest)).length_le
    rw [length_cons] at total
    rw [value]
    omega

theorem defaultLine_eq (pattern : CStr) :
    defaultLine pattern = ascii "default" ++ 32 :: pattern.bytes := by
  have word : ascii "default " = ascii "default" ++ [32] := by decide +kernel
  rw [defaultLine, word, append_assoc]
  rfl

theorem keyOf_defaultLine (pattern : CStr) : keyOf (defaultLine pattern) = ascii "default" := by
  rw [defaultLine_eq]
  apply keyOf_append (by decide +kernel)
  intro c head
  cases head
  rfl

theorem valueOf_defaultLine (pattern : CStr) : valueOf (defaultLine pattern) =
      withoutReturn (pattern.bytes.dropWhile isBlank) := by
  have plain : ∀ c ∈ ascii "default", (!isBlank c) = true := by
    have all : (ascii "default").all (fun c => !isBlank c) = true := by decide +kernel
    exact all_eq_true.mp all
  have rest : ((defaultLine pattern).dropWhile fun c => !isBlank c) = 32 :: pattern.bytes := by
    rw [defaultLine_eq, dropWhile_append_of_pos plain]
    rfl
  change withoutReturn (((defaultLine pattern).dropWhile fun c => !isBlank c).dropWhile isBlank) = _
  rw [rest]
  rfl

theorem length_defaultLine (pattern : CStr) :
    (defaultLine pattern).length = 8 + pattern.length := by
  rw [defaultLine_eq, length_append, length_cons]
  change 7 + (pattern.length + 1) = _
  omega

def Plain (pattern : CStr) : Prop :=
  pattern.bytes.head?.any isBlank = false ∧ pattern.bytes.getLast? ≠ some 13

instance (pattern : CStr) : Decidable (Plain pattern) :=
  inferInstanceAs (Decidable (_ ∧ _))

theorem withoutReturn_eq_self_iff (value : List UInt8) :
    withoutReturn value = value ↔ value.getLast? ≠ some 13 := by
  rw [withoutReturn]
  split
  next ends =>
    constructor
    · intro same
      have lengths := congrArg List.length same
      rw [length_dropLast] at lengths
      cases value with
      | nil => cases ends
      | cons c rest =>
        rw [length_cons] at lengths
        omega
    · intro plain
      exact absurd ends plain
  next plain => exact ⟨fun _ => plain, fun _ => rfl⟩

theorem valueOf_defaultLine_iff (pattern : CStr) :
    valueOf (defaultLine pattern) = pattern.bytes ↔ Plain pattern := by
  rw [valueOf_defaultLine, Plain]
  cases bytes : pattern.bytes with
  | nil => simp [withoutReturn]
  | cons c rest =>
    by_cases blank : isBlank c = true
    · have first := length_withoutReturn (rest.dropWhile isBlank)
      have dropped := (dropWhile_suffix isBlank (l := rest)).length_le
      rw [dropWhile_cons_of_pos blank]
      constructor
      · intro same
        have lengths := congrArg List.length same
        rw [length_cons] at lengths
        omega
      · intro plain
        simp [blank] at plain
    · rw [dropWhile_cons_of_neg blank, withoutReturn_eq_self_iff]
      simp [blank]

/-! ## What is written -/

variable {text : List UInt8}

theorem emit_eq_some {cap : Nat} {out chunk next : List UInt8}
    (emitted : emit cap out chunk = some next) : next = out ++ chunk := by
  rw [emit] at emitted
  split at emitted
  · exact (Option.some.inj emitted).symm
  · cases emitted

theorem assemble_eq_some {cap : Nat} {newLines : List (List UInt8)}
    (assembled : assemble cap newLines = some text) :
    text = unlines newline newLines := by
  have general : ∀ (list : List (List UInt8)) (out : List UInt8),
      list.foldlM (fun out line => emit cap out (line ++ [newline])) out =
        some text → text = out ++ unlines newline list := by
    intro list
    induction list with
    | nil =>
      intro out done
      rw [foldlM_nil] at done
      rw [unlines_nil, append_nil]
      exact (Option.some.inj done).symm
    | cons line rest ih =>
      intro out more
      rw [foldlM_cons] at more
      obtain ⟨next, emitted, later⟩ := Option.bind_eq_some_iff.mp more
      rw [ih next later, emit_eq_some emitted,
        unlines_cons]
      simp
  exact general newLines [] assembled

def oldLines (conf : Option (List UInt8)) : List (List UInt8) :=
  lines newline (cstrAt (conf.getD []))

def linesBefore (conf : Option (List UInt8)) (newTimeout : Option Nat) : List (List UInt8) :=
  ((oldLines conf).takeWhile fun line => !isDefaultKey line).map (rewriteLine none newTimeout)

theorem rewriteLine_of_other {line : List UInt8} (newDefault : Option CStr)
    (newTimeout : Option Nat) (other : isDefaultKey line = false) :
    rewriteLine newDefault newTimeout line =
      rewriteLine none newTimeout line := by
  unfold rewriteLine
  rw [isDirective_default, other]
  cases newDefault <;> cases isDirective "timeout" line <;>
    cases newTimeout <;> rfl

theorem rewriteLine_default {line : List UInt8} (pattern : CStr)
    (newTimeout : Option Nat) (isDefault : isDefaultKey line = true) :
    rewriteLine (some pattern) newTimeout line = defaultLine pattern := by
  unfold rewriteLine
  rw [isDirective_default, isDefault]

theorem timeoutLine_eq (seconds : Nat) :
    timeoutLine seconds = ascii "timeout" ++ 32 :: Json.natText seconds := by
  have word : ascii "timeout " = ascii "timeout" ++ [32] := by decide +kernel
  rw [timeoutLine, word, append_assoc]
  rfl

theorem isDefaultKey_timeoutLine (seconds : Nat) : isDefaultKey (timeoutLine seconds) = false := by
  have key : keyOf (timeoutLine seconds) = ascii "timeout" := by
    rw [timeoutLine_eq]
    apply keyOf_append (by decide +kernel)
    intro c head
    cases head
    rfl
  rw [isDefaultKey, key]
  decide

theorem isDefaultKey_rewriteLine {line : List UInt8}
    (newTimeout : Option Nat) (other : isDefaultKey line = false) :
    isDefaultKey (rewriteLine none newTimeout line) = false := by
  unfold rewriteLine
  cases isDirective "timeout" line with
  | false => simpa using other
  | true =>
    cases newTimeout with
    | none => simpa using other
    | some seconds => simpa using isDefaultKey_timeoutLine seconds

theorem newLines_eq (old : List (List UInt8)) (pattern : CStr) (newTimeout : Option Nat) :
    ∃ after, old.map (rewriteLine (some pattern) newTimeout) ++
        addedLines (some pattern) newTimeout old =
      (old.takeWhile fun line => !isDefaultKey line).map
          (rewriteLine none newTimeout) ++ defaultLine pattern :: after := by
  have kept : ∀ list : List (List UInt8), (∀ line ∈ list, isDefaultKey line = false) →
        list.map (rewriteLine (some pattern) newTimeout) =
          list.map (rewriteLine none newTimeout) := by
    intro list others
    apply map_congr_left
    intro line mem
    exact rewriteLine_of_other _ _ (others line mem)
  have others : ∀ line ∈ old.takeWhile fun line => !isDefaultKey line,
      isDefaultKey line = false := by
    intro line mem
    simpa using mem_takeWhile_imp mem
  have split := @takeWhile_append_dropWhile _ (fun line => !isDefaultKey line) old
  cases rest : old.dropWhile fun line => !isDefaultKey line with
  | nil =>
    -- no line of the old file is a default, so the pattern is added
    rw [rest, append_nil] at split
    rw [split] at others ⊢
    have absent : old.any (isDirective "default") = false := by
      rw [any_eq_false]
      intro line mem
      rw [isDirective_default, others line mem]
      exact Bool.false_ne_true
    rw [kept old others, addedLines, absent]
    exact ⟨_, rfl⟩
  | cons line rest' =>
    have isDefault : isDefaultKey line = true := by
      have head := head?_dropWhile_not (fun line => !isDefaultKey line) old
      rw [rest] at head
      simpa using head
    rw [rest] at split
    have mapped : old.map (rewriteLine (some pattern) newTimeout) =
        (old.takeWhile fun line => !isDefaultKey line).map (rewriteLine none newTimeout) ++
          defaultLine pattern :: rest'.map (rewriteLine (some pattern) newTimeout) := by
      conv_lhs => rw [← split]
      rw [map_append, map_cons, kept _ others, rewriteLine_default pattern newTimeout isDefault]
    rw [mapped, append_assoc]
    exact ⟨_, rfl⟩

/-! ## What is read back -/

variable {pattern : CStr} {conf : Option (List UInt8)}

theorem newline_notMem_timeoutLine (seconds : Nat) : newline ∉ timeoutLine seconds := by
  rw [timeoutLine_eq, mem_append, mem_cons]
  rintro (inWord | isSpace | inNumber)
  · revert inWord
    decide
  · cases isSpace
  · have digit := Json.isDigit_of_mem_natText inNumber
    revert digit
    decide

theorem newline_notMem_defaultLine (plain : newline ∉ pattern.bytes) :
    newline ∉ defaultLine pattern := by
  rw [defaultLine_eq, mem_append, mem_cons]
  rintro (inWord | isSpace | inPattern)
  · revert inWord
    decide
  · cases isSpace
  · exact plain inPattern

variable {newTimeout : Option Nat}

theorem linesBefore_spec {conf : Option (List UInt8)} {line : List UInt8}
    (mem : line ∈ linesBefore conf newTimeout) :
    newline ∉ line ∧ isDefaultKey line = false := by
  obtain ⟨old, oldMember, rewritten⟩ := mem_map.mp mem
  have other : isDefaultKey old = false := by simpa using mem_takeWhile_imp oldMember
  have oldPlain : newline ∉ old := plain_of_mem_lines ((List.takeWhile_prefix _).subset oldMember)
  rw [← rewritten]
  refine ⟨?_, isDefaultKey_rewriteLine newTimeout other⟩
  unfold rewriteLine
  cases isDirective "timeout" old with
  | false => simpa using oldPlain
  | true =>
    cases newTimeout with
    | none => simpa using oldPlain
    | some seconds => simpa using newline_notMem_timeoutLine seconds

theorem keyOf_take (line : List UInt8) (n : Nat) : keyOf (line.take n) = (keyOf line).take n := by
  unfold keyOf
  induction line generalizing n with
  | nil => simp
  | cons c rest ih =>
    cases n with
    | zero => simp
    | succ n =>
      rw [take_succ_cons, takeWhile_cons, takeWhile_cons]
      split
      · rw [ih, take_succ_cons]
      · rw [take_nil]

theorem valueOf_take_of_other {line : List UInt8} {n : Nat} (other : isDefaultKey line = false)
    (isDefault : isDefaultKey (line.take n) = true) :
    valueOf (line.take n) = [] := by
  rcases length_valueOf (line.take n) with empty | room
  · exact empty
  rw [isDefaultKey, decide_eq_true_eq] at isDefault
  rw [isDefaultKey, decide_eq_false_iff_not] at other
  have seven : (keyOf (line.take n)).length = 7 := by
    rw [isDefault]
    rfl
  rw [keyOf_take] at isDefault
  have long : n < (keyOf line).length := by
    by_contra short
    rw [take_of_length_le (by omega)] at isDefault
    exact other isDefault
  rw [keyOf_take, length_take, Nat.min_eq_left (by omega)] at seven
  rw [keyOf_take, length_take, length_take] at room
  omega

theorem valueOf_take_defaultLine {n : Nat}
    (isDefault : isDefaultKey ((defaultLine pattern).take n) = true)
    (nonempty : pattern.length ≠ 0) (cut : n < (defaultLine pattern).length) :
    (valueOf ((defaultLine pattern).take n)).length < pattern.length := by
  rcases length_valueOf ((defaultLine pattern).take n) with empty | room
  · rw [empty, length_nil]
    omega
  rw [isDefaultKey, decide_eq_true_eq] at isDefault
  rw [isDefault, length_take] at room
  rw [length_defaultLine] at cut room
  have seven : (ascii "default").length = 7 := rfl
  omega

theorem length_ofBytes_le (bytes : List UInt8) : (CStr.ofBytes bytes).length ≤ bytes.length :=
  (List.takeWhile_prefix _).length_le

theorem length_valueOf_defaultLine (pattern : CStr) :
    (valueOf (defaultLine pattern)).length ≤ pattern.length := by
  rcases length_valueOf (defaultLine pattern) with empty | room
  · rw [empty]
    exact Nat.zero_le _
  · rw [keyOf_defaultLine, length_defaultLine] at room
    have seven : (ascii "default").length = 7 := rfl
    omega

theorem bytes_valueOf_defaultLine (pattern : CStr) :
    (CStr.ofBytes (valueOf (defaultLine pattern))).bytes = valueOf (defaultLine pattern) := by
  apply takeWhile_eq_self_iff.mpr
  intro c mem
  have inPattern : c ∈ pattern.bytes := by
    rw [valueOf_defaultLine, withoutReturn] at mem
    split at mem
    · exact (dropWhile_suffix _).subset (mem_of_mem_dropLast mem)
    · exact (dropWhile_suffix _).subset mem
  simpa using CStr.ne_zero_of_mem inPattern

theorem read_defaultLine_iff (short : pattern.length < nameMaxChars) :
    CStr.ofBytes ((valueOf (defaultLine pattern)).take (nameMaxChars - 1)) =
      pattern ↔ Plain pattern := by
  have fits := length_valueOf_defaultLine pattern
  rw [take_of_length_le (by omega), ← valueOf_defaultLine_iff]
  have bytes := bytes_valueOf_defaultLine pattern
  constructor
  · intro same
    rw [← bytes, same]
  · intro same
    exact CStr.ext (bytes.trans same)

theorem espLoaderSet_spec {host : LoaderHost} {conf : Option (List UInt8)}
    {pattern : Option CStr} {timeout : Option Int} {text : List UInt8}
    (accepted : espLoaderSet host conf pattern timeout = .ok text) :
    (∀ d ∈ pattern, d.length ≠ 0 ∧ d.length < espDefaultMax ∧ newline ∉ d.bytes) ∧
      (∀ t ∈ timeout, 0 ≤ t ∧ t ≤ 3600) ∧
      writeLoaderConf conf pattern (timeout.map Int.toNat) = some text := by
  unfold espLoaderSet at accepted
  cases dir : host.dir with
  | missing =>
    rw [dir] at accepted
    cases accepted
  | readOnly =>
    rw [dir] at accepted
    cases accepted
  | writable =>
    rw [dir] at accepted
    by_cases invalid : (pattern.any fun d =>
        d.length = 0 || d.length ≥ espDefaultMax || d.bytes.contains newline) = true
    · rw [if_pos invalid] at accepted
      cases accepted
    rw [if_neg invalid] at accepted
    by_cases late : (timeout.any fun t => t < 0 || t > 3600) = true
    · rw [if_pos late] at accepted
      cases accepted
    rw [if_neg late] at accepted
    by_cases orphan : (pattern.any fun d =>
        !host.entries.isEmpty && !host.entries.any (host.patternMatches d)) = true
    · rw [if_pos orphan] at accepted
      cases accepted
    rw [if_neg orphan] at accepted
    refine ⟨?_, ?_, ?_⟩
    · rintro d rfl
      simp only [Option.any_some, Bool.or_eq_true, decide_eq_true_eq,
        contains_iff_mem, not_or, not_le] at invalid
      obtain ⟨⟨nonempty, short⟩, plain⟩ := invalid
      exact ⟨nonempty, short, plain⟩
    · rintro t rfl
      simp only [Option.any_some, Bool.or_eq_true, decide_eq_true_eq, not_or, not_lt] at late
      exact late
    · cases written : writeLoaderConf conf pattern (timeout.map Int.toNat) with
      | none =>
        simp only [written] at accepted
        cases accepted
      | some new =>
        cases done : host.written <;>
          simp only [written, done] at accepted <;> cases accepted
        rfl

theorem espLoaderSet_eq_ok {host : LoaderHost} {timeout : Option Int}
    (accepted : espLoaderSet host conf (some pattern) timeout = .ok text) :
    pattern.length ≠ 0 ∧ pattern.length < espDefaultMax ∧ newline ∉ pattern.bytes ∧
      writeLoaderConf conf (some pattern) (timeout.map Int.toNat) =
        some text := by
  obtain ⟨valid, _, written⟩ := espLoaderSet_spec accepted
  obtain ⟨nonempty, short, plain⟩ := valid pattern rfl
  exact ⟨nonempty, short, plain, written⟩

theorem writeLoaderConf_eq_some
    (written : writeLoaderConf conf (some pattern) newTimeout = some text) :
    ∃ after, text = unlines newline
      (linesBefore conf newTimeout ++ defaultLine pattern :: after) := by
  obtain ⟨after, newLines⟩ := newLines_eq (oldLines conf) pattern newTimeout
  refine ⟨after, ?_⟩
  rw [linesBefore, ← newLines]
  exact assemble_eq_some written

theorem readDefaultPattern_written
    (nonempty : pattern.length ≠ 0) (plain : newline ∉ pattern.bytes)
    (written : writeLoaderConf conf (some pattern) newTimeout = some text) :
    ((unlines newline (linesBefore conf newTimeout)).length +
          (defaultLine pattern).length ≤ entryTextMax ∧
        readDefaultPattern (some text) = CStr.ofBytes
          ((valueOf (defaultLine pattern)).take (nameMaxChars - 1))) ∨
      (entryTextMax < (unlines newline (linesBefore conf newTimeout)).length +
          (defaultLine pattern).length ∧
        (readDefaultPattern (some text)).length < pattern.length) := by
  obtain ⟨after, isText⟩ := writeLoaderConf_eq_some written
  have plainLines : ∀ line ∈ linesBefore conf newTimeout ++
      [defaultLine pattern], newline ∉ line := by
    intro line mem
    rcases mem_append.mp mem with before | isDefault
    · exact (linesBefore_spec before).1
    · rw [mem_singleton.mp isDefault]
      exact newline_notMem_defaultLine plain
  have isDefault : isDefaultKey (defaultLine pattern) = true := by
    rw [isDefaultKey, keyOf_defaultLine, decide_eq_true_eq]
  have present : defaultLine pattern ≠ [] := by
    intro empty
    have size := length_defaultLine pattern
    rw [empty, length_nil] at size
    omega
  have search := @find_lines_take _ _ newline isDefaultKey _ after _ plainLines
    (fun line mem => (linesBefore_spec mem).2) isDefault present
    entryTextMax
  rw [← isText] at search
  rcases search with ⟨whole, found⟩ | ⟨cut, founds⟩
  · left
    refine ⟨whole, ?_⟩
    rw [readDefaultPattern, found]
  · right
    refine ⟨cut, ?_⟩
    rw [readDefaultPattern]
    cases found : (lines newline (text.take entryTextMax)).find? isDefaultKey with
    | none => exact Nat.pos_of_ne_zero nonempty
    | some line =>
      have lineDefault := find?_some found
      obtain ⟨other, mem, n, below, isCut⟩ := founds line found
      have value : (valueOf line).length < pattern.length := by
        rw [isCut] at lineDefault ⊢
        rcases mem_append.mp mem with before | last
        · rw [valueOf_take_of_other (linesBefore_spec before).2 lineDefault]
          exact Nat.pos_of_ne_zero nonempty
        · rw [mem_singleton.mp last] at below lineDefault ⊢
          exact valueOf_take_defaultLine lineDefault nonempty below
      have bytes := length_ofBytes_le ((valueOf line).take (nameMaxChars - 1))
      rw [length_take] at bytes
      exact lt_of_le_of_lt bytes (by omega)

/-- `cix-boot` reads back the default that `esp_loader_set` wrote exactly if
the line of the default lies within what it reads of the file and the pattern
neither begins with a blank nor ends with a carriage return. -/
theorem readDefaultPattern_espLoaderSet_iff {host : LoaderHost}
    {conf : Option (List UInt8)} {pattern : CStr} {timeout : Option Int}
    {text : List UInt8}
    (accepted : espLoaderSet host conf (some pattern) timeout = .ok text) :
    readDefaultPattern (some text) = pattern ↔
      (unlines newline (linesBefore conf (timeout.map Int.toNat))).length +
          (defaultLine pattern).length ≤ entryTextMax ∧
        Plain pattern := by
  obtain ⟨nonempty, short, plain, written⟩ := espLoaderSet_eq_ok accepted
  rcases readDefaultPattern_written nonempty plain written with
    ⟨whole, found⟩ | ⟨cut, shorter⟩
  · rw [found]
    exact (read_defaultLine_iff short).trans (and_iff_right whole).symm
  · refine iff_of_false ?_ fun condition => absurd condition.1 (by omega)
    intro same
    rw [same] at shorter
    exact lt_irrefl _ shorter

def writableHost : LoaderHost where
  dir := .writable
  entries := ["cix-a.conf"]
  patternMatches _ _ := true
  written := true

theorem espLoaderSet_writableHost (nonempty : pattern.length ≠ 0)
    (short : pattern.length < espDefaultMax) (plain : newline ∉ pattern.bytes)
    (written : writeLoaderConf conf (some pattern) none = some text) :
    espLoaderSet writableHost conf (some pattern) none = .ok text := by
  have valid : ((some pattern).any fun d =>
      d.length = 0 || d.length ≥ espDefaultMax || d.bytes.contains newline) =
        false := by
    simp [nonempty, plain, short]
  unfold espLoaderSet
  rw [valid]
  simp only [Option.map_none, written]
  rfl

theorem default_behind_timeout : ∃ text, espLoaderSet writableHost
        (some (ascii "timeout 3" ++ [newline] ++ ascii "default old"))
        (some "cix-*") (some 5) = .ok text ∧
      readDefaultPattern (some text) = "cix-*" := by
  refine ⟨_, rfl, ?_⟩
  exact (@readDefaultPattern_espLoaderSet_iff writableHost
    (some (ascii "timeout 3" ++ [newline] ++ ascii "default old"))
    _ (some 5) _ rfl).mpr (by decide +kernel)

theorem isDirective_comment {word : String} (rest : List UInt8)
    (other : (ascii word).head? ≠ some 35) :
    isDirective word (35 :: rest) = false := by
  rw [Bool.eq_false_iff]
  intro directive
  simp only [isDirective, Bool.and_eq_true, decide_eq_true_eq] at directive
  rw [← directive.1.2] at other
  exact other rfl

theorem writeLoaderConf_comment {rest : List UInt8} {pattern : CStr}
    (nulFree : 0 ∉ (35 : UInt8) :: rest) (plain : newline ∉ 35 :: rest)
    (short : pattern.length < espDefaultMax) :
    linesBefore (some (35 :: rest)) none = [35 :: rest] ∧
      writeLoaderConf (some (35 :: rest)) (some pattern) none =
        some (unlines newline [35 :: rest, defaultLine pattern]) := by
  have noDefault := @isDirective_comment "default" rest (by decide +kernel)
  have noTimeout := @isDirective_comment "timeout" rest (by decide +kernel)
  have nonempty : (35 : UInt8) :: rest ≠ [] := cons_ne_nil _ _
  revert nonempty nulFree plain noDefault noTimeout
  generalize (35 : UInt8) :: rest = line
  intro nulFree plain noDefault noTimeout nonempty
  have whole : cstrAt line = line := by
    apply takeWhile_eq_self_iff.mpr
    intro c mem
    have nonzero : c ≠ 0 := fun isZero => nulFree (isZero ▸ mem)
    simpa using nonzero
  have one : lines newline line = [line] := lines_plain plain nonempty
  have size := length_defaultLine pattern
  have fits : line.length + 1 + ((defaultLine pattern).length + 1) <
      line.length + 2 * espDefaultMax + 256 := by
    unfold espDefaultMax at *
    omega
  have fitsFirst : line.length + 1 < line.length + 2 * espDefaultMax + 256 := by omega
  have other := noDefault
  rw [isDirective_default] at other
  constructor
  · simp [linesBefore, oldLines, whole, one, rewriteLine, other, noTimeout]
  · simp [writeLoaderConf, whole, one, rewriteLine, addedLines, noDefault,
      noTimeout, assemble, emit, fits, fitsFirst]

/-- A comment of 4096 bytes in front of the default hides it from
`cix-boot`. -/
theorem default_behind_comment : ∃ text,
    espLoaderSet writableHost (some (35 :: List.replicate 4095 32)) (some "cix-*") none = .ok text ∧
      readDefaultPattern (some text) ≠ "cix-*" := by
  have comment : ∀ c ∈ (35 : UInt8) :: List.replicate 4095 32, c = 35 ∨ c = 32 := by
    intro c mem
    rcases mem_cons.mp mem with isFirst | inRest
    · exact Or.inl isFirst
    · exact Or.inr (mem_replicate.mp inRest).2
  obtain ⟨before, written⟩ := @writeLoaderConf_comment (List.replicate 4095 32) "cix-*"
    (fun mem => by simpa using comment 0 mem)
    (fun mem => by simpa [newline] using comment newline mem)
    (by decide +kernel)
  refine ⟨unlines newline [35 :: List.replicate 4095 32, defaultLine "cix-*"], ?_, ?_⟩
  · exact espLoaderSet_writableHost (by decide +kernel) (by decide +kernel)
      (by decide +kernel) written
  · have read := readDefaultPattern_written (by decide +kernel) (by decide +kernel) written
    rw [before] at read
    have long : (unlines newline [(35 : UInt8) :: List.replicate 4095 32]).length = 4097 := by
      rw [unlines_cons, length_append, length_cons, length_replicate]
      rfl
    rcases read with ⟨whole, _⟩ | ⟨_, shorter⟩
    · rw [long] at whole
      unfold entryTextMax at whole
      omega
    · intro same
      rw [same] at shorter
      exact lt_irrefl _ shorter

end Cix.Boot
