import Cix.Ldap.BaseDn

/-!
# Setting the listeners

What the rewriting of a section leaves alone: the first `baseDN` line, the
tables of users and groups, and a section of another name that has been
rewritten before.
-/

namespace Cix.Ldap

open Cix.Lib List Option

theorem isTable_of_isHeader {name : SectionName} {line : List UInt8}
    (header : isHeader name line = true) : isTable line = true := by
  unfold isHeader at header
  simp only [Bool.and_eq_true, decide_eq_true_eq] at header
  obtain ⟨⟨⟨⟨_, first⟩, _⟩, _⟩, _⟩ := header
  rw [← isTable_unmarked, isTable, first]
  rfl

theorem not_base_of_isTable {line : List UInt8} (table : isTable line = true) :
    isBaseLine line = false := by
  unfold isTable at table
  cases line with
  | nil => rfl
  | cons c rest =>
    rw [head?_cons, decide_eq_true_eq, some.injEq] at table
    subst table
    rfl

/-- None of the keys is a `baseDN`. -/
def NoBase (kvs : List Kv) : Prop :=
  ∀ kv ∈ kvs, ¬ [98, 97, 115, 101, 68, 78] <+: kv.key.bytes

theorem not_base_of_held {kvs : List Kv} {line : List UInt8}
    (noBase : NoBase kvs) (holds : held kvs line = true) :
    isBaseLine line = false := by
  obtain ⟨kv, mem, isKey⟩ := held_iff.mp holds
  rw [Bool.eq_false_iff]
  intro isBase
  apply noBase kv mem
  rw [← isBaseLine_unmarked] at isBase
  unfold isBaseLine at isBase
  unfold keyOf at isKey
  rw [decide_eq_true_eq] at isBase
  have parts := take_append_drop 6 ((unmarked 10 line).dropWhile isBlank)
  rw [isBase] at parts
  dsimp only at isKey
  rw [← parts] at isKey
  split at isKey
  next =>
    rw [← some.inj isKey]
    exact ⟨_, rfl⟩
  next => cases isKey

section Kept

variable {name : SectionName} {kvs : List Kv} {old new : List (List UInt8)}

theorem find?_others (noBase : NoBase kvs) (body : List (List UInt8)) :
    (others kvs body).find? isBaseLine = body.find? isBaseLine := by
  unfold others
  rw [find?_filter]
  congr 1
  funext line
  cases holds : held kvs line with
  | true => simp [not_base_of_held noBase holds]
  | false => simp

theorem find?_rewritten (noBase : NoBase kvs) (rewritten : Rewritten name kvs old new) :
    new.find? isBaseLine = old.find? isBaseLine := by
  cases rewritten with
  | @found before after body body' header was is sets kept =>
    have notBase := not_base_of_isTable (isTable_of_isHeader was.header)
    have inside : body'.find? isBaseLine = body.find? isBaseLine := by
      rw [← find?_others noBase, kept, find?_others noBase]
    rw [was.lines, is.lines, Split.lines, Split.lines, find?_append,
      find?_append, find?_cons_of_neg (by simpa using notBase),
      find?_cons_of_neg (by simpa using notBase), find?_append,
      find?_append, inside]
  | @created body absent is sets bare =>
    have notBase := not_base_of_isTable (isTable_of_isHeader is.header)
    have inside : body.find? isBaseLine = none := by
      rw [← find?_others noBase, bare]
      rfl
    rw [is.lines, Split.lines, append_nil, append_assoc, find?_append, singleton_append,
      find?_cons_of_neg (by decide),
      find?_cons_of_neg (by simpa using notBase), inside,
      or_none]

theorem mem_tail_rewritten {piece line : List UInt8}
    (table : piece.head? = some 91) (other : ¬ piece <+: headerLine name)
    (nonempty : old ≠ []) (rewritten : Rewritten name kvs old new)
    (mem : line ∈ new.tail) (begins : piece <+: line) :
    line ∈ old.tail := by
  have isTableLine : isTable line = true := by
    obtain ⟨more, rfl⟩ := begins
    cases piece with
    | nil => cases table
    | cons c piece =>
      rw [head?_cons, some.injEq] at table
      subst table
      rfl
  cases rewritten with
  | @found before after body body' header was is sets kept =>
    have parts : ∀ inside : List (List UInt8), (Split.mk before header inside after).lines.tail =
          (before ++ [header]).tail ++ (inside ++ after) := by
      intro inside
      rw [← tail_append_of_ne_nil (by simp)]
      simp [Split.lines]
    rw [is.lines, parts] at mem
    rw [was.lines, parts]
    rcases mem_append.mp mem with inFront | inBack
    · exact mem_append_left _ inFront
    · rcases mem_append.mp inBack with inBody | inAfter
      · rw [is.inside line inBody] at isTableLine
        cases isTableLine
      · exact mem_append_right _ (mem_append_right _ inAfter)
  | @created body absent is sets bare =>
    rw [is.lines, Split.lines, append_nil, append_assoc, tail_append_of_ne_nil nonempty] at mem
    rcases mem_append.mp mem with inOld | inNew
    · exact inOld
    · rw [singleton_append] at inNew
      rcases mem_cons.mp inNew with isEmpty | inSection
      · rw [isEmpty] at isTableLine
        cases isTableLine
      · rcases mem_cons.mp inSection with isHdr | inBody
        · have isHeaderLine : line = headerLine name := isHdr
          exact absurd (isHeaderLine ▸ begins) other
        · rw [is.inside line inBody] at isTableLine
          cases isTableLine

theorem Unmanaged.rewritten {text result : List UInt8}
    (unmanaged : Unmanaged text) (nonempty : text ≠ [])
    (notUsers : ¬ usersMarker.tail <+: headerLine name)
    (notGroups : ¬ groupsMarker.tail <+: headerLine name)
    (rewritten : Rewritten name kvs (lines 10 text) (lines 10 result)) :
    Unmanaged result := by
  have some : lines 10 text ≠ [] := by
    intro none
    rw [← map_unmarked_markedLines, map_eq_nil_iff] at none
    have joined := flatten_markedLines 10 text
    rw [none] at joined
    exact nonempty joined.symm
  constructor
  · intro inside
    obtain ⟨line, mem, begins⟩ := (infix_mark_iff (by decide) (by decide) result).mp inside
    exact unmanaged.1 ((infix_mark_iff (by decide) (by decide) text).mpr
      ⟨line, mem_tail_rewritten rfl notUsers some rewritten mem begins, begins⟩)
  · intro inside
    obtain ⟨line, mem, begins⟩ := (infix_mark_iff (by decide) (by decide) result).mp inside
    exact unmanaged.2 ((infix_mark_iff (by decide) (by decide) text).mpr
      ⟨line, mem_tail_rewritten rfl notGroups some rewritten mem begins, begins⟩)

end Kept

def Apart (name other : SectionName) : Prop :=
  ∀ line, isHeader name line = true → isHeader other line = false

theorem split_table {front back before rest : List (List UInt8)}
    {table : List UInt8} (plain : ∀ line ∈ front, isTable line = false)
    (isTableLine : isTable table = true)
    (same : front ++ back = before ++ table :: rest) :
    ∃ more, before = front ++ more ∧ back = more ++ table :: rest := by
  rcases append_eq_append_iff.mp same with ⟨more, isBefore, isBack⟩ | ⟨more, isFront, isTail⟩
  · exact ⟨more, isBefore, isBack⟩
  · cases more with
    | nil =>
      refine ⟨[], ?_, ?_⟩
      · rw [isFront, append_nil, append_nil]
      · exact isTail.symm
    | cons line more =>
      have inFront : table ∈ front := by
        rw [isFront, (List.cons.inj isTail).1]
        simp
      rw [plain table inFront] at isTableLine
      cases isTableLine

section Other

variable {name other : SectionName} {kvs kvs' : List Kv}
  {list : List (List UInt8)}

theorem newLine_terminated {line : List UInt8} (same : newLine kvs line = line) :
    newLine kvs (terminated 10 line) = terminated 10 line := by
  have isKey : keyOf (terminated 10 line) = keyOf line := keyOf_congr (unmarked_terminated line)
  cases holds : held kvs line with
  | true =>
    obtain ⟨kv, _, _, printed⟩ := newLine_of_held holds
    rw [same] at printed
    rw [printed, terminated_append (newline_notMem_keyLine kv), ← printed, same]
  | false =>
    rw [← held_congr isKey] at holds
    exact newLine_of_free holds

theorem not_header_of_plain {line : List UInt8}
    (plain : isTable line = false) : isHeader name line = false := by
  rw [Bool.eq_false_iff]
  intro header
  rw [isTable_of_isHeader header] at plain
  cases plain

theorem isHeader_terminated (line : List UInt8) :
    isHeader name (terminated 10 line) = isHeader name line := by
  rw [← isHeader_unmarked, unmarked_terminated, isHeader_unmarked]

theorem isTable_terminated (line : List UInt8) : isTable (terminated 10 line) = isTable line := by
  rw [← isTable_unmarked, unmarked_terminated, isTable_unmarked]

theorem absentKeys_terminated {body : List (List UInt8)} (more : List (List UInt8))
    (complete : absentKeys kvs body = []) :
    absentKeys kvs (body.map (terminated 10) ++ more) = [] := by
  rw [eq_nil_iff_forall_not_mem] at complete ⊢
  intro kv absent
  obtain ⟨mem, none⟩ := mem_absentKeys.mp absent
  refine complete kv (mem_absentKeys.mpr ⟨mem, fun line inBody isKey => ?_⟩)
  apply none (terminated 10 line)
  · exact mem_append_left _ (mem_map_of_mem inBody)
  · rw [keyOf_congr (unmarked_terminated line), isKey]

theorem settled_created (settled : Settled name kvs list) :
    Settled name kvs (createdSplit other kvs' list).lines := by
  obtain ⟨⟨before, header, body, after⟩, isSection, complete, same⟩ := settled
  have isHdr : isHeader name (terminated 10 header) = true := by
    rw [isHeader_terminated]
    exact isSection.header
  have first : ∀ line ∈ before.map (terminated 10), isHeader name line = false := by
    intro line mem
    obtain ⟨old, inBefore, rfl⟩ := mem_map.mp mem
    rw [isHeader_terminated]
    exact isSection.first old inBefore
  have inside : ∀ line ∈ body.map (terminated 10), isTable line = false := by
    intro line mem
    obtain ⟨old, inBody, rfl⟩ := mem_map.mp mem
    rw [isTable_terminated]
    exact isSection.inside old inBody
  have lines : ∀ line ∈ body.map (terminated 10), newLine kvs line = line := by
    intro line mem
    obtain ⟨old, inBody, rfl⟩ := mem_map.mp mem
    exact newLine_terminated (same old inBody)
  -- The blank line before the new section belongs to the last section there is.
  cases after with
  | nil =>
    refine ⟨⟨before.map (terminated 10), terminated 10 header, body.map (terminated 10) ++ [[10]],
      (headerLine other ++ [10]) :: newBody kvs' []⟩, ⟨?_, isHdr, first, ?_,
        ?_⟩, absentKeys_terminated _ complete, ?_⟩
    · rw [isSection.lines]
      simp [createdSplit, Split.lines]
    · intro line mem
      rcases mem_append.mp mem with inBody | isBlankLine
      · exact inside line inBody
      · rw [mem_singleton.mp isBlankLine]
        rfl
    · intro line isFirst
      rw [head?_cons, some.injEq] at isFirst
      rw [← isFirst]
      rfl
    · intro line mem
      rcases mem_append.mp mem with inBody | isBlankLine
      · exact lines line inBody
      · rw [mem_singleton.mp isBlankLine]
        apply newLine_of_free
        rw [Bool.eq_false_iff]
        intro holds
        obtain ⟨kv, _, isKey⟩ := held_iff.mp holds
        cases isKey
  | cons table rest =>
    refine ⟨⟨before.map (terminated 10), terminated 10 header,
      body.map (terminated 10), (table :: rest).map (terminated 10) ++ [10] ::
        (headerLine other ++ [10]) :: newBody kvs' []⟩, ⟨?_, isHdr, first, inside, ?_⟩, ?_, lines⟩
    · rw [isSection.lines]
      simp [createdSplit, Split.lines]
    · intro line isFirst
      rw [map_cons, cons_append, head?_cons, some.injEq] at isFirst
      rw [← isFirst, isTable_terminated]
      exact isSection.ends table rfl
    · have absent := absentKeys_terminated [] complete
      rwa [append_nil] at absent

theorem Settled.rewritten (settled : Settled name kvs list)
    (apart : Apart name other) (kvs' : List Kv) :
    Settled name kvs (rewrittenLines other kvs' list) := by
  unfold rewrittenLines
  cases found : sectionBound other list with
  | none => exact settled_created settled
  | some second =>
    obtain ⟨split, isSection, complete, same⟩ := settled
    have isOther := sectionBound_eq_some_iff.mp found
    have table := isTable_of_isHeader isSection.header
    have otherTable := isTable_of_isHeader isOther.header
    have different : split.header ≠ second.header := by
      intro equal
      have header := apart split.header isSection.header
      rw [equal, isOther.header] at header
      cases header
    have both := isSection.lines.symm.trans isOther.lines
    unfold Split.lines at both
    rcases append_eq_append_iff.mp both with ⟨more, isBefore, rest⟩ | ⟨more, isBefore, rest⟩
    · -- The other section comes behind this one.
      cases more with
      | nil => exact absurd (List.cons.inj rest).1 different
      | cons line more =>
        obtain ⟨rfl, behind⟩ := List.cons.inj rest
        obtain ⟨between, rfl, isAfter⟩ := split_table isSection.inside otherTable behind
        refine ⟨⟨split.before, split.header, split.body, between ++
          second.header :: (newBody kvs' second.body ++ second.after)⟩,
          ⟨?_, isSection.header, isSection.first, isSection.inside, ?_⟩,
          complete, same⟩
        · simp [newSplit, Split.lines, isBefore]
        · intro line isFirst
          apply isSection.ends
          rw [isAfter]
          cases between with
          | nil => exact isFirst
          | cons head between => exact isFirst
    · -- The other section comes before this one.
      cases more with
      | nil => exact absurd (List.cons.inj rest).1.symm different
      | cons line more =>
        obtain ⟨rfl, behind⟩ := List.cons.inj rest
        obtain ⟨between, rfl, isAfter⟩ := split_table isOther.inside table behind
        have old : ∀ line, line ∈ second.before ∨ line = second.header ∨
            line ∈ between → isHeader name line = false := by
          intro line mem
          apply isSection.first
          rw [isBefore]
          rcases mem with inBefore | rfl | inBetween
          · exact mem_append_left _ inBefore
          · exact mem_append_right _ mem_cons_self
          · exact mem_append_right _ (mem_cons_of_mem _ (mem_append_right _ inBetween))
        refine ⟨⟨second.before ++ second.header ::
          (newBody kvs' second.body ++ between), split.header, split.body,
          split.after⟩, ⟨?_, isSection.header, ?_, isSection.inside,
            isSection.ends⟩, complete, same⟩
        · simp [newSplit, Split.lines, isAfter]
        · intro line mem
          rcases mem_append.mp mem with inBefore | inRest
          · exact old line (Or.inl inBefore)
          · rcases mem_cons.mp inRest with isHdr | inSection
            · exact old line (Or.inr (Or.inl isHdr))
            · rcases mem_append.mp inSection with inNew | inBetween
              · exact not_header_of_plain (isTable_newBody isOther.inside inNew)
              · exact old line (Or.inr (Or.inr inBetween))

end Other

end Cix.Ldap
