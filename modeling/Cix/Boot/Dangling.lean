import Cix.Boot.Operations
import Cix.Boot.RankOrder
import Cix.Lib.Machine

/-!
# A default that matches a bootable entry

Of the calls only `esp_loader_set` looks at the pattern, and it does not ask
whether what the pattern matches can boot.  The default in force goes on
matching an entry that can boot exactly as long as every call leaves one such
entry alone.
-/

namespace Cix.Boot

open Cix.Lib List

def Bootable (libc : Libc) (pattern : CStr) (f : BootFile) : Prop :=
  f.isEntry = true ∧ espPatternMatches libc pattern f.name = true ∧ (entryId f.name).2 ≠ 0

instance (libc : Libc) (pattern : CStr) (f : BootFile) : Decidable (Bootable libc pattern f) :=
  inferInstanceAs (Decidable (_ ∧ _ ∧ _))

def Esp.Stands (libc : Libc) (s : Esp) : Prop :=
  ∃ f ∈ s.files, Bootable libc (loaderDefault s.conf) f

instance (libc : Libc) (s : Esp) : Decidable (s.Stands libc) :=
  inferInstanceAs (Decidable (∃ _ ∈ _, _))

variable {conf : Option (List UInt8)} {pattern : Option CStr}

def defaultWord : CStr := "default"

def patternValue (pattern : CStr) : List UInt8 :=
  trimEnd (pattern.bytes.dropWhile isBlank)

def valueAfter (pattern : Option CStr) (line : List UInt8) : Option (List UInt8) :=
  match pattern with
  | some pattern =>
    if isDirective "default" line then some (patternValue pattern)
    else directiveValue defaultWord line
  | none => directiveValue defaultWord line

/-- The default that the file says once the pattern has been set: a line with
blanks before the word stays, and counts if it comes first. -/
def readBack (conf : Option (List UInt8)) (pattern : CStr) : CStr :=
  let value := ((oldLines conf).findSome? (valueAfter (some pattern))).getD
    (patternValue pattern)
  CStr.ofBytes (value.take (espDefaultMax - 1))

theorem directiveValue_defaultLine (pattern : CStr) :
    directiveValue defaultWord (defaultLine pattern) = some (patternValue pattern) := by
  rw [defaultLine_eq]
  have head : (ascii "default" ++ 32 :: pattern.bytes).dropWhile isBlank =
      ascii "default" ++ 32 :: pattern.bytes := rfl
  simp only [directiveValue, head]
  have word : defaultWord.bytes = ascii "default" := rfl
  have size : defaultWord.length = (ascii "default").length := rfl
  rw [word, size, drop_left, if_pos]
  · rfl
  · exact ⟨by simp [List.isPrefixOf_iff_prefix], rfl⟩

theorem directiveValue_timeoutLine (seconds : Nat) :
    directiveValue defaultWord (timeoutLine seconds) = none := by
  rw [timeoutLine_eq]
  rfl

theorem directiveValue_timeout {line : List UInt8} (isTimeout : isDirective "timeout" line = true) :
    directiveValue defaultWord line = none := by
  simp only [isDirective, Bool.and_eq_true, decide_eq_true_eq] at isTimeout
  obtain ⟨⟨_, isWord⟩, _⟩ := isTimeout
  have split := take_append_drop 7 line
  rw [isWord] at split
  rw [← split]
  rfl

theorem directiveValue_rewriteLine (pattern : Option CStr)
    (timeout : Option Nat) (line : List UInt8) :
    directiveValue defaultWord (rewriteLine pattern timeout line) =
      valueAfter pattern line := by
  have kept : directiveValue defaultWord (rewriteLine none timeout line) =
      directiveValue defaultWord line := by
    unfold rewriteLine
    cases isTimeout : isDirective "timeout" line with
    | false => simp
    | true =>
      cases timeout with
      | none => simp
      | some seconds =>
        simp [directiveValue_timeoutLine, directiveValue_timeout isTimeout]
  cases pattern with
  | none => exact kept
  | some pattern =>
    rw [valueAfter]
    cases isDefault : isDirective "default" line with
    | false =>
      rw [isDirective_default] at isDefault
      rw [rewriteLine_of_other _ _ isDefault, kept]
      rfl
    | true =>
      rw [isDirective_default] at isDefault
      rw [rewriteLine_default _ _ isDefault, directiveValue_defaultLine]
      rfl

theorem findSome_newLines (old : List (List UInt8)) (pattern : Option CStr) (timeout : Option Nat) :
    (old.map (rewriteLine pattern timeout) ++ addedLines pattern timeout old).findSome?
        (directiveValue defaultWord) =
      ((old.findSome? (valueAfter pattern)).or (pattern.map patternValue)) := by
  have mapped : (old.map (rewriteLine pattern timeout)).findSome?
      (directiveValue defaultWord) = old.findSome? (valueAfter pattern) := by
    rw [findSome?_map]
    congr 1
    funext line
    exact directiveValue_rewriteLine pattern timeout line
  have timeouts : ∀ list : List (List UInt8),
      (∀ line ∈ list, ∃ seconds, line = timeoutLine seconds) →
        list.findSome? (directiveValue defaultWord) = none := by
    intro list all
    rw [findSome?_eq_none_iff]
    intro line mem
    obtain ⟨seconds, isLine⟩ := all line mem
    rw [isLine, directiveValue_timeoutLine]
  have lastLines : ∀ line ∈ (if old.any (isDirective "timeout") then []
      else timeout.toList.map timeoutLine), ∃ seconds, line = timeoutLine seconds := by
    intro line mem
    split at mem
    · cases mem
    · obtain ⟨seconds, _, isLine⟩ := mem_map.mp mem
      exact ⟨seconds, isLine.symm⟩
  rw [findSome?_append, mapped, addedLines, findSome?_append, timeouts _ lastLines, Option.or_none]
  cases pattern with
  | none => simp
  | some pattern =>
    cases present : old.any (isDirective "default") with
    | false => simp [directiveValue_defaultLine]
    | true =>
      -- a default of the old file has been written anew
      obtain ⟨line, mem, isDefault⟩ := any_eq_true.mp present
      cases found : old.findSome? (valueAfter (some pattern)) with
      | some value => simp
      | none =>
        have nothing := findSome?_eq_none_iff.mp found line mem
        rw [valueAfter, if_pos isDefault] at nothing
        cases nothing

theorem notMem_rewriteLine {pattern : Option CStr} {timeout : Option Nat}
    {line : List UInt8} {c : UInt8}
    (noWord : c ∉ ascii "default" ++ ascii "timeout" ++ [32])
    (noDigit : Json.isDigit c = false) (notLine : c ∉ line)
    (notPattern : ∀ d ∈ pattern, c ∉ d.bytes) :
    c ∉ rewriteLine pattern timeout line ∧ (∀ d ∈ pattern, c ∉ defaultLine d) ∧
      (∀ seconds, c ∉ timeoutLine seconds) := by
  simp only [mem_append, mem_singleton, not_or] at noWord
  obtain ⟨⟨noDefault, noTimeout⟩, noSpace⟩ := noWord
  have notDefault : ∀ d ∈ pattern, c ∉ defaultLine d := by
    intro d isPattern
    rw [defaultLine_eq, mem_append, mem_cons]
    rintro (inWord | isSpace | inPattern)
    · exact noDefault inWord
    · exact noSpace isSpace
    · exact notPattern d isPattern inPattern
  have notTimeout : ∀ seconds, c ∉ timeoutLine seconds := by
    intro seconds
    rw [timeoutLine_eq, mem_append, mem_cons]
    rintro (inWord | isSpace | inNumber)
    · exact noTimeout inWord
    · exact noSpace isSpace
    · rw [Json.isDigit_of_mem_natText inNumber] at noDigit
      cases noDigit
  refine ⟨?_, notDefault, notTimeout⟩
  unfold rewriteLine
  split
  · exact notDefault _ rfl
  · exact notTimeout _
  · exact notLine

variable {timeout : Option Nat}

theorem written_spec {text : List UInt8}
    (plain : ∀ d ∈ pattern, newline ∉ d.bytes)
    (written : writeLoaderConf conf pattern timeout = some text) :
    cstrAt text = text ∧ lines newline text = (oldLines conf).map (rewriteLine pattern timeout) ++
        addedLines pattern timeout (oldLines conf) := by
  have isText := assemble_eq_some written
  change text = unlines newline ((oldLines conf).map _ ++
    addedLines pattern timeout (oldLines conf)) at isText
  have through : ∀ c : UInt8, c ∉ ascii "default" ++ ascii "timeout" ++ [32] →
      Json.isDigit c = false → (∀ line ∈ oldLines conf, c ∉ line) →
      (∀ d ∈ pattern, c ∉ d.bytes) →
      ∀ line ∈ (oldLines conf).map (rewriteLine pattern timeout) ++
        addedLines pattern timeout (oldLines conf), c ∉ line := by
    intro c noWord noDigit notOld notPattern line mem
    have added := @notMem_rewriteLine pattern timeout [] c noWord noDigit not_mem_nil notPattern
    rcases mem_append.mp mem with rewritten | isAdded
    · obtain ⟨old, inOld, isLine⟩ := mem_map.mp rewritten
      rw [← isLine]
      exact (notMem_rewriteLine noWord noDigit (notOld old inOld) notPattern).1
    · rw [addedLines] at isAdded
      rcases mem_append.mp isAdded with isDefault | isTimeout
      · split at isDefault
        · cases isDefault
        · obtain ⟨d, isPattern, isLine⟩ := mem_map.mp isDefault
          rw [← isLine]
          exact added.2.1 d (Option.mem_toList.mp isPattern)
      · split at isTimeout
        · cases isTimeout
        · obtain ⟨seconds, _, isLine⟩ := mem_map.mp isTimeout
          rw [← isLine]
          exact added.2.2 seconds
  have noNul : (0 : UInt8) ∉ text := by
    have free := through 0 (by decide) (by decide) (fun line inOld nul => by
        have inText := mem_of_mem_lines inOld nul
        have nonzero := mem_takeWhile_imp inText
        simp at nonzero)
      (fun d _ => d.nulFree)
    rw [isText, unlines, mem_flatMap]
    rintro ⟨line, mem, inLine⟩
    rcases mem_append.mp inLine with inside | isMark
    · exact free line mem inside
    · revert isMark
      decide
  have whole : cstrAt text = text := by
    apply takeWhile_eq_self_iff.mpr
    intro c mem
    have nonzero : c ≠ 0 := fun isZero => noNul (isZero ▸ mem)
    simpa using nonzero
  refine ⟨whole, ?_⟩
  rw [isText]
  exact lines_unlines (through newline (by decide) (by decide)
    (fun line inOld => plain_of_mem_lines inOld) plain)

theorem lines_written {text : List UInt8}
    (plain : ∀ d ∈ pattern, newline ∉ d.bytes)
    (written : writeLoaderConf conf pattern timeout = some text) :
    lines newline (cstrAt text) = (oldLines conf).map (rewriteLine pattern timeout) ++
        addedLines pattern timeout (oldLines conf) := by
  obtain ⟨whole, newLines⟩ := written_spec plain written
  rw [whole, newLines]

theorem loaderDefault_written {conf : Option (List UInt8)}
    {pattern : Option CStr} {text : List UInt8}
    (plain : ∀ d ∈ pattern, newline ∉ d.bytes)
    (written : writeLoaderConf conf pattern timeout = some text) :
    loaderDefault (some text) = pattern.elim (loaderDefault conf) (readBack conf) := by
  rw [loaderDefault, parseDirective, lines_written plain written]
  have word : CStr.ofString "default" = defaultWord := rfl
  rw [word, findSome_newLines]
  cases pattern with
  | some pattern =>
    rw [Option.elim_some, readBack]
    cases (oldLines conf).findSome? (valueAfter (some pattern)) <;> rfl
  | none =>
    rw [Option.elim_none, Option.map_none, Option.or_none]
    cases conf with
    | none => rfl
    | some old => rfl

theorem espLoaderSet_written {host : LoaderHost} {timeout : Option Int}
    {text : List UInt8}
    (accepted : espLoaderSet host conf pattern timeout = .ok text) :
    (∀ d ∈ pattern, newline ∉ d.bytes) ∧
      writeLoaderConf conf pattern (timeout.map Int.toNat) = some text := by
  obtain ⟨valid, _, written⟩ := espLoaderSet_spec accepted
  exact ⟨fun d isPattern => (valid d isPattern).2.2, written⟩

def Esp.accepts (libc : Libc) (runningSlot : CStr) (s : Esp) : EspEvent → Bool
  | .loaderSet pattern timeout =>
    (espLoaderSet (s.host libc) s.conf pattern timeout).isOk
  | .delete name => (espEntryDelete runningSlot s name).isOk
  | .hold slot => (espEntryHold s slot).isSome
  | .unhold source target => (espEntryUnhold s source target).isSome
  | .reorder files => files.isPerm s.files

def Esp.Spares (libc : Libc) (runningSlot : CStr) (s : Esp) (event : EspEvent) : Prop :=
  s.accepts libc runningSlot event = true →
    match event with
    | .loaderSet (some pattern) _ =>
      ∃ f ∈ s.files, Bootable libc (readBack s.conf pattern) f
    | .loaderSet none _ => True
    | .delete name =>
      ∃ f ∈ s.files, f.name ≠ name ∧ Bootable libc (loaderDefault s.conf) f
    | .hold slot =>
      ∃ f ∈ s.files, espConfirmRank f.name slot = 0 ∧ Bootable libc (loaderDefault s.conf) f
    | .unhold source target =>
      source.length = 0 ∨ target.length = 0 ∨ (∃ f ∈ s.files, f.name ≠ source ∧ f.name ≠ target ∧
          Bootable libc (loaderDefault s.conf) f) ∨
        (∃ f ∈ s.files, f.name = target ∧
          Bootable libc (loaderDefault s.conf) { f with name := source })
    | .reorder _ => True

theorem accepts_of_ok {ε α : Type} {result : Except ε α} {value : α}
    (isOk : result = .ok value) : result.isOk = true := by
  rw [isOk]
  rfl

section Renaming

variable {files after : List BootFile} {source target : CStr} {f : BootFile}

theorem mem_renameFile_of_other (renamed : renameFile files source target = some after)
    (mem : f ∈ files) (notSource : f.name ≠ source)
    (notTarget : f.name ≠ target) : f ∈ after := by
  unfold renameFile at renamed
  split at renamed
  · split at renamed
    · cases renamed
      exact mem
    · cases renamed
      rw [mem_map]
      refine ⟨f, ?_, if_neg notSource⟩
      simpa [mem] using notTarget
  · cases renamed

theorem mem_renameFile (renamed : renameFile files source target = some after)
    (mem : f ∈ files) (isSource : f.name = source) :
    { f with name := target } ∈ after := by
  unfold renameFile at renamed
  split at renamed
  · split at renamed
    next same =>
      cases renamed
      rw [← same, ← isSource]
      exact mem
    next different =>
      cases renamed
      rw [mem_map]
      refine ⟨f, ?_, if_pos isSource⟩
      rw [mem_filter, decide_eq_true_eq, isSource]
      exact ⟨mem, different⟩
  · cases renamed

end Renaming

theorem espConfirmRank_ne_zero {name : CStr} {slot : Slot}
    (isPrefix : (slotPrefix slot ++ [43]).isPrefixOf name.bytes = true) :
    espConfirmRank name slot ≠ 0 := by
  obtain ⟨rest, isName⟩ := isPrefixOf_iff_prefix.mp isPrefix
  have short : (slotPrefix slot).isPrefixOf name.bytes = true := by
    rw [List.isPrefixOf_iff_prefix, ← isName, append_assoc]
    exact prefix_append _ _
  have plus : (name.bytes.drop 5).head? = some 43 := by
    rw [← isName]
    cases slot <;> rfl
  rw [espConfirmRank, if_pos short, if_pos plus]
  decide

theorem prefix_heldName (slot : Slot) (tries : Int) : (slotPrefix slot ++ [43]).isPrefixOf
      ((heldName slot tries).truncate heldNameMax).bytes = true := by
  cases slot <;> rfl

theorem espEntryHold_eq_some {s after : Esp} {slot : Slot}
    {source target : CStr}
    (held : espEntryHold s slot = some (source, target, after)) :
    espConfirmRank source slot ≠ 0 ∧ espConfirmRank target slot ≠ 0 ∧
      ∃ files, renameFile s.files source target = some files ∧
        after = { s with files := files } := by
  unfold espEntryHold at held
  split at held
  next f found =>
    dsimp only at held
    split at held
    next isPrefix =>
      split at held
      · cases held
      next left done counter =>
        split at held
        · cases held
        · obtain ⟨files, renamed, isResult⟩ := Option.map_eq_some_iff.mp held
          cases isResult
          exact ⟨espConfirmRank_ne_zero isPrefix,
            espConfirmRank_ne_zero (prefix_heldName slot _), files,
            renamed, rfl⟩
    · cases held
  · cases held

theorem espEntryDelete_eq_ok {runningSlot name : CStr} {s after : Esp}
    (deleted : espEntryDelete runningSlot s name = .ok after) :
    after = { s with files := s.files.filter fun f => f.name ≠ name } := by
  unfold espEntryDelete at deleted
  by_cases invalid : (decide (name.length = 0) || name.bytes.contains 47 ||
      (strstr [46, 46] name.bytes).isSome) = true
  · rw [if_pos invalid] at deleted
    cases deleted
  rw [if_neg invalid] at deleted
  dsimp only at deleted
  split at deleted
  · cases deleted
  · split at deleted
    · cases deleted
    split at deleted
    · cases deleted
    split at deleted
    · cases deleted
      rfl
    · cases deleted

variable {libc : Libc} {runningSlot : CStr}

theorem stands_step {s : Esp} {event : EspEvent} (stands : s.Stands libc)
    (spares : s.Spares libc runningSlot event) :
    (s.step libc runningSlot event).Stands libc := by
  cases event with
  | loaderSet pattern timeout =>
    rw [Esp.step]
    split
    next text set =>
      obtain ⟨plain, written⟩ := espLoaderSet_written set
      have default := loaderDefault_written plain written
      have chosen := spares (accepts_of_ok set)
      unfold Esp.Stands
      dsimp only
      rw [default]
      cases pattern with
      | none => exact stands
      | some pattern => exact chosen
    · exact stands
  | delete name =>
    rw [Esp.step]
    split
    next after deleted =>
      obtain ⟨f, mem, other, bootable⟩ := spares (accepts_of_ok deleted)
      rw [espEntryDelete_eq_ok deleted]
      exact ⟨f, by simp [mem, other], bootable⟩
    · exact stands
  | hold slot =>
    rw [Esp.step]
    split
    next source target after held =>
      have accepted : s.accepts libc runningSlot (.hold slot) = true := by
        rw [Esp.accepts, held]
        rfl
      obtain ⟨f, mem, noRank, bootable⟩ := spares accepted
      obtain ⟨sourceRank, targetRank, files, renamed, isAfter⟩ := espEntryHold_eq_some held
      rw [isAfter]
      refine ⟨f, mem_renameFile_of_other renamed mem ?_ ?_, bootable⟩
      · rintro rfl
        exact sourceRank noRank
      · rintro rfl
        exact targetRank noRank
    · exact stands
  | unhold source target =>
    rw [Esp.step]
    cases released : espEntryUnhold s source target with
    | none => exact stands
    | some after =>
      rw [Option.getD_some]
      have accepted : s.accepts libc runningSlot (.unhold source target) = true := by
        rw [Esp.accepts, released]
        rfl
      have spared := spares accepted
      unfold espEntryUnhold at released
      split at released
      · cases released
        exact stands
      next named =>
        split at released
        · cases released
        obtain ⟨files, renamed, isAfter⟩ := Option.map_eq_some_iff.mp released
        rw [← isAfter]
        rcases spared with noSource | noTarget | ⟨f, mem, notSource, notTarget, bootable⟩ |
          ⟨f, mem, isTarget, bootable⟩
        · exact absurd (Or.inl noSource) named
        · exact absurd (Or.inr noTarget) named
        · exact ⟨f, mem_renameFile_of_other renamed mem notTarget notSource, bootable⟩
        · exact ⟨_, mem_renameFile renamed mem isTarget, bootable⟩
  | reorder files =>
    rw [Esp.step]
    split
    next same =>
      obtain ⟨f, mem, bootable⟩ := stands
      have perm := isPerm_iff.mp same
      exact ⟨f, perm.mem_iff.mpr mem, bootable⟩
    · exact stands

/-- The default goes on matching an entry that can boot, through every run
whose calls spare one. -/
theorem default_stands {s : Esp} {events : List EspEvent} (stands : s.Stands libc)
    (guarded : Guarded (Esp.step libc runningSlot)
      (fun s event => s.Spares libc runningSlot event) s events) :
    Throughout (Esp.step libc runningSlot) (fun s => s.Stands libc) s
      events :=
  Guarded.throughout (fun s => Esp.Stands libc s)
    (fun _ _ stands spares => stands_step stands spares) stands guarded

def slotBootFile (slot : Slot) (name : String) : BootFile where
  name := CStr.ofString name
  text := some (ascii "options --slot=" ++ [slot.letter])

def updatedEsp (pattern : String) : Esp where
  conf := some (ascii "default " ++ ascii pattern)
  files := [slotBootFile .a "cix-a.conf", slotBootFile .b "cix-b+3.conf"]

def takenAway : List EspEvent :=
  [.delete "cix-b+3.conf", .hold .b]

theorem default_stands_updated : Throughout (Esp.step exampleLibc "a")
      (fun s => s.Stands exampleLibc) (updatedEsp "cix-*")
      [.delete "cix-b+3.conf"] :=
  default_stands (by decide +kernel)
    (Guarded.cons (fun _ => ⟨slotBootFile .a "cix-a.conf", by decide +kernel⟩)
      (guarded_nil _ _))

/-- A default of the second slot alone, which runs: it is deleted, or held,
and nothing asks for the pattern. -/
theorem default_left_dangling : (updatedEsp "cix-b*").Stands exampleLibc ∧ ∀ event ∈ takenAway,
        (updatedEsp "cix-b*").accepts exampleLibc "a" event = true ∧
          ¬ ((updatedEsp "cix-b*").step exampleLibc "a" event).Stands exampleLibc := by
  refine ⟨by decide +kernel, ?_⟩
  unfold takenAway
  simp only [forall_mem_cons]
  refine ⟨by decide +kernel, by decide +kernel, ?_⟩
  intro event mem
  cases mem

end Cix.Boot
