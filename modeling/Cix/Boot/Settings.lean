import Cix.Boot.Dangling

/-!
# What a setting changes

`esp_loader_set` rewrites the lines of `loader.conf` that it takes for the
default or the timeout, and `esp_loader_get` reads the first line that it takes
for one.  The two do not agree on a line that begins with blanks: the writer
leaves it, and the reader follows it.
-/

namespace Cix.Boot

open Cix.Lib List

def timeoutWord : CStr := "timeout"

def atoi (text : List UInt8) : Int :=
  wrapInt (((strtol text).map Prod.fst).getD 0)

def timeoutOf (value : List UInt8) : Int :=
  let text := CStr.ofBytes (value.take (32 - 1))
  if text.bytes = [] then -1 else atoi text.bytes

/-- The timeout of `esp_loader_get`. -/
def loaderTimeout (conf : Option (List UInt8)) : Int :=
  match conf with
  | none => -1
  | some text =>
    let value := parseDirective text timeoutWord 32
    if value.bytes = [] then -1 else atoi value.bytes

def isSetting (word : String) (line : List UInt8) : Bool :=
  isDirective word line || (directiveValue (CStr.ofString word) line).isSome

def isOther (line : List UInt8) : Bool :=
  !(isSetting "default" line || isSetting "timeout" line)

def otherLines (conf : Option (List UInt8)) : List (List UInt8) :=
  (lines newline (conf.getD [])).filter isOther

def leftInPlace (word : String) (conf : Option (List UInt8)) : Option (List UInt8) :=
  match (oldLines conf).find? (isSetting word) with
  | none => none
  | some line =>
    if isDirective word line then none
    else directiveValue (CStr.ofString word) line

section Setting

variable {word : String} {old : List (List UInt8)} {value : List UInt8}

def settingAfter (word : String) (value line : List UInt8) : Option (List UInt8) :=
  if isDirective word line then some value
  else directiveValue (CStr.ofString word) line

theorem findSome_settingAfter (conf : Option (List UInt8)) :
    ((oldLines conf).findSome? (settingAfter word value)).getD value =
      (leftInPlace word conf).getD value := by
  unfold leftInPlace
  induction oldLines conf with
  | nil => rfl
  | cons line rest ih =>
    rw [findSome?_cons, find?_cons]
    cases isWord : isDirective word line with
    | true =>
      have after : settingAfter word value line = some value := by
        rw [settingAfter, if_pos isWord]
      have setting : isSetting word line = true := by rw [isSetting, isWord, Bool.true_or]
      rw [after, setting]
      simp [isWord]
    | false =>
      have after : settingAfter word value line = directiveValue (CStr.ofString word) line := by
        rw [settingAfter, isWord]
        rfl
      have setting : isSetting word line = (directiveValue (CStr.ofString word) line).isSome := by
        rw [isSetting, isWord, Bool.false_or]
      rw [after, setting]
      cases isRead : directiveValue (CStr.ofString word) line with
      | some other => simp [isWord, isRead]
      | none => exact ih

end Setting

theorem readBack_eq (conf : Option (List UInt8)) (pattern : CStr) :
    readBack conf pattern = CStr.ofBytes
      (((leftInPlace "default" conf).getD (patternValue pattern)).take (espDefaultMax - 1)) := by
  rw [readBack, ← findSome_settingAfter]
  rfl

theorem dropWhile_of_none {α : Type*} {p : α → Bool} {list : List α}
    (none : ∀ a ∈ list, p a = false) : list.dropWhile p = list := by
  cases list with
  | nil => rfl
  | cons a rest =>
    rw [dropWhile_cons, none a mem_cons_self]
    rfl

theorem directiveValue_timeout_timeoutLine (seconds : Nat) :
    directiveValue timeoutWord (timeoutLine seconds) = some (Json.natText seconds) := by
  rw [timeoutLine_eq]
  have head : (ascii "timeout" ++ 32 :: Json.natText seconds).dropWhile
      isBlank = ascii "timeout" ++ 32 :: Json.natText seconds := rfl
  have word : timeoutWord.bytes = ascii "timeout" := rfl
  have size : timeoutWord.length = (ascii "timeout").length := rfl
  have digits : ∀ c ∈ Json.natText seconds, (isBlank c || decide (c = 13)) = false := by
    intro c mem
    have isDigit := Json.isDigit_of_mem_natText mem
    have different : ∀ d : UInt8, Json.isDigit d = false → c ≠ d := by
      rintro d notDigit rfl
      rw [isDigit] at notDigit
      cases notDigit
    simp [isBlank, different 32 rfl, different 9 rfl, different 13 rfl]
  simp only [directiveValue, head]
  rw [word, size, drop_left, if_pos]
  · have first : (32 :: Json.natText seconds).dropWhile isBlank =
        Json.natText seconds := by
      change (Json.natText seconds).dropWhile isBlank = _
      apply dropWhile_of_none
      intro c mem
      exact (Bool.or_eq_false_iff.mp (digits c mem)).1
    have last : trimEnd (Json.natText seconds) = Json.natText seconds := by
      rw [trimEnd, dropWhile_of_none, reverse_reverse]
      intro c mem
      exact digits c (mem_reverse.mp mem)
    rw [first, last]
  · exact ⟨by simp [List.isPrefixOf_iff_prefix], rfl⟩

theorem directiveValue_timeout_defaultLine (pattern : CStr) :
    directiveValue timeoutWord (defaultLine pattern) = none := by
  rw [defaultLine_eq]
  rfl

theorem directiveValue_default {line : List UInt8} (isDefault : isDirective "default" line = true) :
    directiveValue timeoutWord line = none := by
  simp only [isDirective, Bool.and_eq_true, decide_eq_true_eq] at isDefault
  obtain ⟨⟨_, isWord⟩, _⟩ := isDefault
  have split := take_append_drop 7 line
  rw [isWord] at split
  rw [← split]
  rfl

theorem directiveValue_timeout_rewriteLine (pattern : Option CStr)
    (seconds : Nat) (line : List UInt8) :
    directiveValue timeoutWord (rewriteLine pattern (some seconds) line) =
      settingAfter "timeout" (Json.natText seconds) line := by
  unfold settingAfter rewriteLine
  cases isTimeout : isDirective "timeout" line with
  | true =>
    have notDefault : isDirective "default" line = false := by
      rw [← Bool.not_eq_true]
      intro isDefault
      simp only [isDirective, Bool.and_eq_true, decide_eq_true_eq] at isTimeout isDefault
      have same := isTimeout.1.2.symm.trans isDefault.1.2
      revert same
      decide
    rw [notDefault]
    cases pattern <;> exact directiveValue_timeout_timeoutLine seconds
  | false =>
    cases isDefault : isDirective "default" line with
    | false => cases pattern <;> rfl
    | true =>
      cases pattern with
      | none => rfl
      | some pattern =>
        have none : directiveValue "timeout" line =
            none := directiveValue_default isDefault
        rw [none]
        exact directiveValue_timeout_defaultLine pattern

theorem timeout_newLines (old : List (List UInt8)) (pattern : Option CStr) (seconds : Nat) :
    (old.map (rewriteLine pattern (some seconds)) ++
        addedLines pattern (some seconds) old).findSome?
        (directiveValue timeoutWord) =
      some ((old.findSome? (settingAfter "timeout" (Json.natText seconds))).getD
          (Json.natText seconds)) := by
  have mapped : (old.map (rewriteLine pattern (some seconds))).findSome?
      (directiveValue timeoutWord) =
        old.findSome? (settingAfter "timeout" (Json.natText seconds)) := by
    rw [findSome?_map]
    congr 1
    funext line
    exact directiveValue_timeout_rewriteLine pattern seconds line
  have defaults : ((if old.any (isDirective "default") then []
      else pattern.toList.map defaultLine).findSome? (directiveValue timeoutWord)) = none := by
    rw [findSome?_eq_none_iff]
    intro line mem
    split at mem
    · cases mem
    · obtain ⟨d, _, rfl⟩ := mem_map.mp mem
      exact directiveValue_timeout_defaultLine d
  rw [findSome?_append, mapped, addedLines, findSome?_append, defaults, Option.none_or]
  cases found : old.findSome? (settingAfter "timeout" (Json.natText seconds)) with
  | some value => rfl
  | none =>
    -- the old file has no timeout that was written anew
    have absent : old.any (isDirective "timeout") = false := by
      rw [any_eq_false]
      intro line mem isTimeout
      have nothing := findSome?_eq_none_iff.mp found line mem
      rw [settingAfter, if_pos isTimeout] at nothing
      cases nothing
    rw [absent]
    simp [directiveValue_timeout_timeoutLine]

variable {conf : Option (List UInt8)}

theorem loaderTimeout_written
    {pattern : Option CStr} {seconds : Nat} {text : List UInt8}
    (plain : ∀ d ∈ pattern, newline ∉ d.bytes)
    (written : writeLoaderConf conf pattern (some seconds) = some text) :
    loaderTimeout (some text) = timeoutOf
      ((leftInPlace "timeout" conf).getD (Json.natText seconds)) := by
  rw [← findSome_settingAfter, loaderTimeout, parseDirective,
    lines_written plain written, timeout_newLines]
  rfl

theorem strtol_digits {digits : List UInt8} (nonempty : digits ≠ [])
    (all : ∀ c ∈ digits, isDigitByte c = true) :
    strtol digits = some (min (2 ^ 63 - 1) (Json.digitsValue digits : Int), []) := by
  obtain ⟨first, rest, split⟩ := exists_cons_of_ne_nil nonempty
  have firstDigit := all first (split ▸ mem_cons_self)
  have different : ∀ d : UInt8, isDigitByte d = false → first ≠ d := by
    rintro d notDigit rfl
    rw [firstDigit] at notDigit
    cases notDigit
  have notSpace : (first = 32 || (9 ≤ first && first ≤ 13)) = false := by
    rw [isDigitByte, Bool.and_eq_true, decide_eq_true_eq, decide_eq_true_eq] at firstDigit
    have notLow : ¬ first ≤ 13 := by
      rw [UInt8.le_iff_toNat_le]
      change ¬ first.toNat ≤ 13
      omega
    simp [different 32 (by decide), notLow]
  have skipped : digits.dropWhile (fun c => c = 32 || (9 ≤ c && c ≤ 13)) = digits := by
    rw [split, dropWhile_cons, notSpace]
    rfl
  have kept : digits.takeWhile isDigitByte = digits := takeWhile_eq_self_iff.mpr all
  have nothing : digits.dropWhile isDigitByte = [] := dropWhile_eq_nil_iff.mpr all
  have notEmpty : digits.isEmpty = false := by
    rw [split]
    rfl
  unfold strtol
  simp only [skipped]
  split
  next => exact absurd (List.cons.inj split).1.symm (different 45 (by decide))
  next => exact absurd (List.cons.inj split).1.symm (different 43 (by decide))
  next =>
    simp only [kept, nothing, notEmpty]
    rfl

theorem timeoutOf_natText {seconds : Nat} (small : seconds ≤ 3600) :
    timeoutOf (Json.natText seconds) = seconds := by
  have isDigit : ∀ c ∈ Json.natText seconds, isDigitByte c = true := by
    intro c mem
    have digit := Json.isDigit_of_mem_natText mem
    rw [Json.isDigit, Bool.and_eq_true, decide_eq_true_eq, decide_eq_true_eq,
      UInt8.le_iff_toNat_le, UInt8.le_iff_toNat_le] at digit
    rw [isDigitByte, Bool.and_eq_true, decide_eq_true_eq, decide_eq_true_eq]
    exact digit
  have short : (Json.natText seconds).length ≤ 31 := by
    have most := Json.natText_length (n := seconds) (by omega)
    omega
  have whole : (CStr.ofBytes ((Json.natText seconds).take (32 - 1))).bytes =
      Json.natText seconds := by
    rw [take_of_length_le short]
    apply takeWhile_eq_self_iff.mpr
    intro c mem
    have digit := isDigit c mem
    have nonzero : c ≠ 0 := by
      rintro rfl
      cases digit
    simpa using nonzero
  unfold timeoutOf
  dsimp only
  rw [whole, if_neg (Json.natText_ne_nil seconds), atoi,
    strtol_digits (Json.natText_ne_nil seconds) isDigit,
    Json.digitsValue_natText]
  change wrapInt (min (2 ^ 63 - 1) (seconds : Int)) = seconds
  have below : min (2 ^ 63 - 1) (seconds : Int) = seconds := by omega
  rw [below]
  exact wrapInt_of_small (by omega) (by omega)

theorem isSetting_defaultLine (pattern : CStr) :
    isSetting "default" (defaultLine pattern) = true := by
  have read := directiveValue_defaultLine pattern
  unfold isSetting
  change (_ || (directiveValue defaultWord _).isSome) = true
  rw [read, Option.isSome_some, Bool.or_true]

theorem isSetting_timeoutLine (seconds : Nat) :
    isSetting "timeout" (timeoutLine seconds) = true := by
  have read := directiveValue_timeout_timeoutLine seconds
  unfold isSetting
  change (_ || (directiveValue timeoutWord _).isSome) = true
  rw [read, Option.isSome_some, Bool.or_true]

theorem isOther_defaultLine (pattern : CStr) : isOther (defaultLine pattern) = false := by
  rw [isOther, isSetting_defaultLine]
  rfl

theorem isOther_timeoutLine (seconds : Nat) : isOther (timeoutLine seconds) = false := by
  rw [isOther, isSetting_timeoutLine, Bool.or_true]
  rfl

theorem rewriteLine_kept_or (pattern : Option CStr) (timeout : Option Nat) (line : List UInt8) :
    rewriteLine pattern timeout line = line ∨ isOther line = false ∧
        isOther (rewriteLine pattern timeout line) = false := by
  have timeouts : rewriteLine none timeout line = line ∨ isOther line = false ∧
        isOther (rewriteLine none timeout line) = false := by
    unfold rewriteLine
    cases isTimeout : isDirective "timeout" line with
    | false => simp
    | true =>
      cases timeout with
      | none => simp
      | some seconds =>
        have other : isOther line = false := by
          rw [isOther, isSetting, isSetting, isTimeout]
          simp
        simp [other, isOther_timeoutLine]
  cases isDefault : isDefaultKey line with
  | false =>
    rw [rewriteLine_of_other pattern timeout isDefault]
    exact timeouts
  | true =>
    cases pattern with
    | none => exact timeouts
    | some d =>
      right
      rw [rewriteLine_default d timeout isDefault]
      refine ⟨?_, isOther_defaultLine d⟩
      rw [isOther, isSetting, isDirective_default, isDefault]
      rfl

theorem filter_rewriteLine (pattern : Option CStr) (timeout : Option Nat)
    (old : List (List UInt8)) :
    (old.map (rewriteLine pattern timeout)).filter isOther =
      old.filter isOther := by
  induction old with
  | nil => rfl
  | cons line rest ih =>
    rw [map_cons, filter_cons, filter_cons, ih]
    rcases rewriteLine_kept_or pattern timeout line with kept | ⟨was, is⟩
    · rw [kept]
    · rw [was, is]
      rfl

theorem filter_addedLines (pattern : Option CStr) (timeout : Option Nat) (old : List (List UInt8)) :
    (addedLines pattern timeout old).filter isOther = [] := by
  rw [filter_eq_nil_iff]
  intro line mem
  rw [addedLines] at mem
  rcases mem_append.mp mem with isDefault | isTimeout
  · split at isDefault
    · cases isDefault
    · obtain ⟨d, _, rfl⟩ := mem_map.mp isDefault
      rw [isOther_defaultLine]
      exact Bool.false_ne_true
  · split at isTimeout
    · cases isTimeout
    · obtain ⟨seconds, _, rfl⟩ := mem_map.mp isTimeout
      rw [isOther_timeoutLine]
      exact Bool.false_ne_true

theorem otherLines_written
    {pattern : Option CStr} {timeout : Option Nat} {text : List UInt8}
    (plain : ∀ d ∈ pattern, newline ∉ d.bytes)
    (written : writeLoaderConf conf pattern timeout = some text) :
    otherLines (some text) = otherLines (conf.map cstrAt) := by
  have upTo : (conf.map cstrAt).getD [] = cstrAt (conf.getD []) := by cases conf <;> rfl
  change (lines newline text).filter isOther =
    (lines newline ((conf.map cstrAt).getD [])).filter isOther
  rw [(written_spec plain written).2, filter_append,
    filter_rewriteLine, filter_addedLines, append_nil, upTo]
  rfl

/-- No setting that the writer leaves stands first, and the pattern has no
blanks around it; or the setting that is left says the same. -/
def DefaultTaken (conf : Option (List UInt8)) (pattern : CStr) : Prop :=
  match leftInPlace "default" conf with
  | none => patternValue pattern = pattern.bytes
  | some value => CStr.ofBytes (value.take (espDefaultMax - 1)) = pattern

def TimeoutTaken (conf : Option (List UInt8)) (seconds : Int) : Prop :=
  match leftInPlace "timeout" conf with
  | none => True
  | some value => timeoutOf value = seconds

theorem patternValue_sublist (pattern : CStr) : (patternValue pattern).Sublist pattern.bytes := by
  have trimmed := (dropWhile_sublist (fun c => isBlank c || c = 13)
    (l := (pattern.bytes.dropWhile isBlank).reverse)).reverse
  rw [reverse_reverse] at trimmed
  exact trimmed.trans (dropWhile_sublist isBlank)

theorem readBack_eq_iff {pattern : CStr}
    (short : pattern.length < espDefaultMax) :
    readBack conf pattern = pattern ↔ DefaultTaken conf pattern := by
  rw [readBack_eq, DefaultTaken]
  cases leftInPlace "default" conf with
  | some value => rfl
  | none =>
    change CStr.ofBytes ((patternValue pattern).take _) = pattern ↔
      patternValue pattern = pattern.bytes
    have part := patternValue_sublist pattern
    have fits : (patternValue pattern).length ≤ espDefaultMax - 1 := by
      have length := part.length_le
      rw [CStr.length] at short
      omega
    have whole : (CStr.ofBytes (patternValue pattern)).bytes =
        patternValue pattern := by
      apply takeWhile_eq_self_iff.mpr
      intro c mem
      simpa using CStr.ne_zero_of_mem (part.subset mem)
    rw [take_of_length_le fits]
    constructor
    · intro same
      rw [← whole, same]
    · intro same
      rw [same, CStr.ofBytes_bytes]

/-- After a setting the daemon reads back what was set, and the other lines are
there unchanged, exactly when no blank line-beginning hides a setting from the
writer, the pattern has no blanks around it, and no line stands behind a zero
byte. -/
theorem setting_takes_effect {host : LoaderHost} {conf : Option (List UInt8)}
    {pattern : Option CStr} {timeout : Option Int} {text : List UInt8}
    (accepted : espLoaderSet host conf pattern timeout = .ok text) :
    ((∀ d ∈ pattern, loaderDefault (some text) = d) ↔ ∀ d ∈ pattern, DefaultTaken conf d) ∧
      ((∀ t ∈ timeout, loaderTimeout (some text) = t) ↔ ∀ t ∈ timeout, TimeoutTaken conf t) ∧
      (otherLines (some text) = otherLines conf ↔
        otherLines (conf.map cstrAt) = otherLines conf) := by
  obtain ⟨valid, bounded, written⟩ := espLoaderSet_spec accepted
  have plain : ∀ d ∈ pattern, newline ∉ d.bytes := fun d isPattern => (valid d isPattern).2.2
  refine ⟨?_, ?_, by rw [otherLines_written plain written]⟩
  · apply forall₂_congr
    rintro d rfl
    rw [loaderDefault_written plain written, Option.elim_some]
    exact readBack_eq_iff (valid d rfl).2.1
  · apply forall₂_congr
    rintro t rfl
    obtain ⟨low, high⟩ := bounded t rfl
    rw [loaderTimeout_written plain written, TimeoutTaken]
    cases leftInPlace "timeout" conf with
    | some value => rfl
    | none =>
      have same := @timeoutOf_natText t.toNat (by omega)
      rw [Option.getD_none, same, Int.toNat_of_nonneg low]
      exact iff_true_intro rfl

/-- A new default takes effect in a file with a comment and a timeout. -/
theorem default_taken_behind_comment : ∃ text, espLoaderSet writableHost
        (some (ascii "# by hand" ++ [newline] ++ ascii "timeout 3"))
        (some "cix-*") none = .ok text ∧
      loaderDefault (some text) = "cix-*" := by
  refine ⟨_, rfl, ?_⟩
  have taken := (@setting_takes_effect writableHost
    (some (ascii "# by hand" ++ [newline] ++ ascii "timeout 3"))
    (some "cix-*") none _ rfl).1
  apply taken.mpr _ _ rfl
  rintro d ⟨⟩
  have nothing : leftInPlace "default" (some
      (ascii "# by hand" ++ [newline] ++ ascii "timeout 3")) = none := by
    decide +kernel
  rw [DefaultTaken, nothing]
  decide +kernel

/-- A default with blanks before the word goes on being read after another has
been set. -/
theorem default_hidden_by_blanks : ∃ text,
    espLoaderSet writableHost (some (ascii "  default cix-a")) (some "cix-b") none = .ok text ∧
      loaderDefault (some text) = "cix-a" ∧
      ¬ DefaultTaken (some (ascii "  default cix-a")) "cix-b" := by
  refine ⟨_, rfl, by decide +kernel, ?_⟩
  have left : leftInPlace "default" (some (ascii "  default cix-a")) = some (ascii "cix-a") := by
    decide +kernel
  rw [DefaultTaken, left]
  decide +kernel

end Cix.Boot
