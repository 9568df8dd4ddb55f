import Cix.Ldap.Sections

/-!
# What the rewriting of a section leaves

The rewritten text, read as lines, has the section with each of the keys on a
line of its own, and every other line as it was.  A second rewriting changes
nothing.
-/

namespace Cix.Ldap

open Cix.Lib List

def others (kvs : List Kv) (body : List (List UInt8)) : List (List UInt8) :=
  body.filter fun line => !held kvs line

structure Sets (kvs : List Kv) (body : List (List UInt8)) : Prop where
  present : ∀ kv ∈ kvs, keyLine kv ∈ body
  only : ∀ kv ∈ kvs, ∀ line ∈ body, holdsKey kv.key line = true → line = keyLine kv

/-- The lines `new` are the lines `old` with the keys of one section set: the
section that was there, or a new one after a blank line at the end. -/
inductive Rewritten (name : SectionName) (kvs : List Kv)
    (old new : List (List UInt8)) : Prop
  | found {before after body body' : List (List UInt8)} {header : List UInt8}
      (was : IsSection name ⟨before, header, body, after⟩ old)
      (is : IsSection name ⟨before, header, body', after⟩ new)
      (sets : Sets kvs body') (kept : others kvs body' = others kvs body)
  | created {body : List (List UInt8)}
      (absent : ∀ line ∈ old, isHeader name line = false)
      (is : IsSection name ⟨old ++ [[]], headerLine name, body, []⟩ new)
      (sets : Sets kvs body) (bare : others kvs body = [])

def ExactRewrite (name : SectionName) (kvs : List Kv) (text : List UInt8) :
    Prop :=
  ∃ result, rewriteSection name kvs text = some result ∧
    Rewritten name kvs (lines 10 text) (lines 10 result) ∧
    rewriteSection name kvs result = some result

def Consistent (kvs : List Kv) : Prop :=
  ∀ kv ∈ kvs, ∀ kv' ∈ kvs, kv.key = kv'.key → kv.value = kv'.value

/-- The text does not end, without a newline, in a line of the section that holds
none of its keys while it lacks one. -/
def Clean (name : SectionName) (kvs : List Kv) (text : List UInt8) : Prop :=
  ∀ split, sectionBound name (markedLines 10 text) = some split →
    absentKeys kvs split.body ≠ [] → split.after = [] → text.getLast? = some 10 ∨
        ∃ last, split.body.getLast? = some last ∧ held kvs last = true

/-! ## With and without the newline -/

theorem unmarked_unmarked (line : List UInt8) : unmarked 10 (unmarked 10 line) = unmarked 10 line :=
  unmarked_plain (mark_notMem_unmarked 10 line)

theorem keyOf_unmarked (line : List UInt8) : keyOf (unmarked 10 line) = keyOf line :=
  keyOf_congr (unmarked_unmarked line)

theorem held_unmarked (kvs : List Kv) (line : List UInt8) :
    held kvs (unmarked 10 line) = held kvs line :=
  held_congr (keyOf_unmarked line)

theorem isHeader_unmarked (name : SectionName) (line : List UInt8) :
    isHeader name (unmarked 10 line) = isHeader name line := by
  unfold isHeader
  rw [unmarked_unmarked]

theorem isTable_unmarked (line : List UInt8) : isTable (unmarked 10 line) = isTable line := by
  unfold isTable unmarked
  cases line with
  | nil => rfl
  | cons c rest =>
    by_cases newline : c = 10
    · simp [newline]
    · simp [newline]

theorem IsSection.unmarked {name : SectionName} {split : Split}
    {list : List (List UInt8)} (isSection : IsSection name split list) :
    IsSection name (split.map (unmarked 10)) (list.map (unmarked 10)) where
  lines := by
    rw [isSection.lines]
    simp [Split.lines, Split.map]
  header := by
    rw [← isSection.header]
    exact isHeader_unmarked name split.header
  first := by
    intro line mem
    obtain ⟨marked, inBefore, rfl⟩ := mem_map.mp mem
    rw [isHeader_unmarked]
    exact isSection.first marked inBefore
  inside := by
    intro line mem
    obtain ⟨marked, inBody, rfl⟩ := mem_map.mp mem
    rw [isTable_unmarked]
    exact isSection.inside marked inBody
  ends := by
    intro line first
    simp only [Split.map, head?_map, Option.map_eq_some_iff] at first
    obtain ⟨marked, isFirst, rfl⟩ := first
    rw [isTable_unmarked]
    exact isSection.ends marked isFirst

/-! ## The rewritten section -/

def newBody (kvs : List Kv) (body : List (List UInt8)) : List (List UInt8) :=
  body.map (newLine kvs) ++ (absentKeys kvs body).map fun kv => keyLine kv ++ [10]

section NewBody

variable {kvs : List Kv} {body : List (List UInt8)} {line : List UInt8}

theorem newLine_of_held (holds : held kvs line = true) :
    ∃ kv ∈ kvs, keyOf line = some kv.key.bytes ∧ newLine kvs line = keyLine kv ++ [10] := by
  obtain ⟨kv, mem, isKey, printed⟩ := bodyWrite_of_held holds
  exact ⟨kv, mem, isKey, by rw [newLine, printed, Write.text]⟩

theorem newLine_of_free (free : held kvs line = false) : newLine kvs line = line := by
  rw [newLine, bodyWrite_of_free free, Write.text]

theorem keyOf_newLine (kvs : List Kv) (line : List UInt8) :
    keyOf (newLine kvs line) = keyOf line := by
  cases holds : held kvs line with
  | true =>
    obtain ⟨kv, _, isKey, printed⟩ := newLine_of_held holds
    rw [printed, keyOf_writtenLine, isKey]
  | false => rw [newLine_of_free holds]

theorem eq_keyLine_of_key {kv kv' : Kv} (consistent : Consistent kvs)
    (mem : kv ∈ kvs) (mem' : kv' ∈ kvs)
    (same : kv.key.bytes = kv'.key.bytes) : keyLine kv = keyLine kv' := by
  have value := consistent kv mem kv' mem' (CStr.ext same)
  rw [keyLine, keyLine, same, value]

theorem eq_keyLine_of_mem_newBody {kv : Kv} (consistent : Consistent kvs)
    (mem : kv ∈ kvs) (inBody : line ∈ newBody kvs body)
    (isKey : keyOf line = some kv.key.bytes) :
    line = keyLine kv ++ [10] := by
  rcases mem_append.mp inBody with rewritten | addedLine
  · obtain ⟨old, _, rfl⟩ := mem_map.mp rewritten
    rw [keyOf_newLine] at isKey
    have holds : held kvs old = true := held_iff.mpr ⟨kv, mem, isKey⟩
    obtain ⟨kv', mem', isKey', printed⟩ := newLine_of_held holds
    rw [isKey, Option.some.injEq] at isKey'
    rw [printed, eq_keyLine_of_key consistent mem' mem isKey'.symm]
  · obtain ⟨kv', absent, rfl⟩ := mem_map.mp addedLine
    rw [keyOf_writtenLine, Option.some.injEq] at isKey
    rw [eq_keyLine_of_key consistent (mem_absentKeys.mp absent).1 mem isKey]

theorem keyLine_mem_newBody {kv : Kv} (consistent : Consistent kvs)
    (mem : kv ∈ kvs) : keyLine kv ++ [10] ∈ newBody kvs body := by
  by_cases absent : kv ∈ absentKeys kvs body
  · exact mem_append_right _ (mem_map.mpr ⟨kv, absent, rfl⟩)
  · rw [mem_absentKeys] at absent
    obtain ⟨old, inBody, isKey⟩ : ∃ old ∈ body, keyOf old = some kv.key.bytes := by
      by_contra none
      exact absent ⟨mem, fun old inBody isKey =>
        none ⟨old, inBody, isKey⟩⟩
    have inNew : newLine kvs old ∈ newBody kvs body :=
      mem_append_left _ (mem_map.mpr ⟨old, inBody, rfl⟩)
    rw [← eq_keyLine_of_mem_newBody consistent mem inNew (by rw [keyOf_newLine, isKey])]
    exact inNew

theorem sets_newBody (body : List (List UInt8)) (consistent : Consistent kvs) :
    Sets kvs ((newBody kvs body).map (unmarked 10)) where
  present := by
    intro kv mem
    refine mem_map.mpr ⟨_, keyLine_mem_newBody consistent mem, ?_⟩
    exact unmarked_keyLine kv []
  only := by
    intro kv mem line inBody holds
    obtain ⟨marked, inNew, rfl⟩ := mem_map.mp inBody
    rw [holdsKey_iff, keyOf_unmarked] at holds
    rw [eq_keyLine_of_mem_newBody consistent mem inNew holds]
    exact unmarked_keyLine kv []

theorem held_keyLine {kv : Kv} (mem : kv ∈ kvs) : held kvs (keyLine kv ++ [10]) = true :=
  held_iff.mpr ⟨kv, mem, keyOf_writtenLine kv⟩

theorem others_append (front back : List (List UInt8)) :
    others kvs (front ++ back) = others kvs front ++ others kvs back := by
  simp [others]

theorem others_keys {keys : List Kv} (given : ∀ kv ∈ keys, kv ∈ kvs) :
    others kvs ((keys.map fun kv => keyLine kv ++ [10]).map (unmarked 10)) = [] := by
  rw [others, filter_eq_nil_iff]
  intro line mem
  obtain ⟨marked, inLines, rfl⟩ := mem_map.mp mem
  obtain ⟨kv, isKey, rfl⟩ := mem_map.mp inLines
  rw [held_unmarked, held_keyLine (given kv isKey)]
  exact Bool.false_ne_true

theorem others_newLines (body : List (List UInt8)) :
    others kvs ((body.map (newLine kvs)).map (unmarked 10)) =
      others kvs (body.map (unmarked 10)) := by
  induction body with
  | nil => rfl
  | cons line rest ih =>
    unfold others at ih ⊢
    simp only [map_cons, filter_cons, held_unmarked, ih, held_congr (keyOf_newLine kvs line)]
    cases holds : held kvs line with
    | true => rfl
    | false => rw [newLine_of_free holds]

theorem others_newBody (kvs : List Kv) (body : List (List UInt8)) :
    others kvs ((newBody kvs body).map (unmarked 10)) = others kvs (body.map (unmarked 10)) := by
  rw [newBody, map_append, others_append, others_newLines,
    others_keys fun kv absent => (mem_absentKeys.mp absent).1, append_nil]

theorem absentKeys_newBody (consistent : Consistent kvs) :
    absentKeys kvs (newBody kvs body) = [] := by
  rw [eq_nil_iff_forall_not_mem]
  intro kv absent
  obtain ⟨mem, none⟩ := mem_absentKeys.mp absent
  exact none _ (keyLine_mem_newBody consistent mem) (keyOf_writtenLine kv)

theorem newLine_newBody (consistent : Consistent kvs)
    (inBody : line ∈ newBody kvs body) : newLine kvs line = line := by
  cases holds : held kvs line with
  | true =>
    obtain ⟨kv, mem, isKey, printed⟩ := newLine_of_held holds
    rw [printed]
    exact (eq_keyLine_of_mem_newBody consistent mem inBody isKey).symm
  | false => exact newLine_of_free holds

theorem isTable_newBody (inside : ∀ line ∈ body, isTable line = false)
    (inBody : line ∈ newBody kvs body) : isTable line = false := by
  rcases mem_append.mp inBody with rewritten | addedLine
  · obtain ⟨old, inOld, rfl⟩ := mem_map.mp rewritten
    cases holds : held kvs old with
    | true =>
      obtain ⟨kv, _, _, printed⟩ := newLine_of_held holds
      rw [printed]
      rfl
    | false =>
      rw [newLine_of_free holds]
      exact inside old inOld
  · obtain ⟨kv, _, rfl⟩ := mem_map.mp addedLine
    rfl

end NewBody

/-! ## The rewritten text -/

def newSplit (kvs : List Kv) (split : Split) : Split :=
  { split with body := newBody kvs split.body }

def createdSplit (name : SectionName) (kvs : List Kv) (list : List (List UInt8)) : Split :=
  ⟨list.map (terminated 10) ++ [[10]], headerLine name ++ [10], newBody kvs [], []⟩

def rewrittenLines (name : SectionName) (kvs : List Kv)
    (list : List (List UInt8)) : List (List UInt8) :=
  match sectionBound name list with
  | none => (createdSplit name kvs list).lines
  | some split => (newSplit kvs split).lines

def Settled (name : SectionName) (kvs : List Kv) (list : List (List UInt8)) : Prop :=
  ∃ split, IsSection name split list ∧ absentKeys kvs split.body = [] ∧
    ∀ line ∈ split.body, newLine kvs line = line

section Text

variable {name : SectionName} {kvs : List Kv} {text result : List UInt8}
  {split : Split}

theorem rewriteSection_eq_some_iff : rewriteSection name kvs text = some result ↔
      RoomFor name kvs text ∧ result = written (sectionWrites name kvs text) := by
  unfold rewriteSection
  rw [emit_eq_some_iff, length_nil, fit_iff_roomFor, nil_append]

theorem written_append (first second : List Write) :
    written (first ++ second) = written first ++ written second := by
  simp [written]

theorem written_cons (write : Write) (rest : List Write) :
    written (write :: rest) = write.text ++ written rest := rfl

theorem written_body (body : List (List UInt8)) : written (body.map (bodyWrite kvs)) =
      (body.map (newLine kvs)).flatten := by
  rw [written, map_map]
  rfl

theorem written_keys (keys : List Kv) :
    written (keys.map fun kv => Write.printed (keyLine kv ++ [10])) =
      (keys.map fun kv => keyLine kv ++ [10]).flatten := by
  rw [written, map_map]
  rfl

theorem written_found (found : sectionBound name (markedLines 10 text) = some split) :
    written (sectionWrites name kvs text) = (newSplit kvs split).lines.flatten := by
  unfold sectionWrites
  rw [found]
  dsimp only
  rw [written_append, written_append, written_cons, written_body, written_keys]
  simp [written, Write.text, newSplit, newBody, Split.lines, append_assoc]

theorem rewriteSection_of_settled (settled : Settled name kvs (markedLines 10 text)) :
    rewriteSection name kvs text = some text := by
  obtain ⟨split, isSection, complete, same⟩ := settled
  have found := sectionBound_eq_some_iff.mpr isSection
  have still : ∀ list, (∀ line ∈ list, line ∈ split.body) → growth kvs list = 0 := by
    intro list inBody
    induction list with
    | nil => rfl
    | cons line rest ih =>
      rw [growth_cons, same line (inBody line mem_cons_self), ih fun other mem =>
          inBody other (mem_cons_of_mem _ mem)]
      omega
  rw [rewriteSection_eq_some_iff]
  constructor
  · unfold RoomFor room
    rw [found]
    dsimp only
    rw [complete, still split.body fun line mem => mem]
    refine ⟨fun front line back parts _ => ?_, fun none => absurd rfl none, ?_⟩
    · rw [still (front ++ [line])]
      · omega
      · intro other mem
        rw [parts]
        rcases mem_append.mp mem with inFront | isLine
        · exact mem_append_left _ inFront
        · exact mem_append_right _ (mem_cons.mpr (Or.inl (mem_singleton.mp isLine)))
    · simp [added]
      omega
  · have lines := flatten_markedLines 10 text
    have sameBody : newBody kvs split.body = split.body := by
      rw [newBody, complete, map_nil, append_nil, map_congr_left same, map_id']
    rw [written_found found, newSplit, sameBody]
    rw [isSection.lines] at lines
    exact lines.symm

/-! ### Its lines -/

theorem closed_keys (keys : List Kv) : Closed 10 (keys.map fun kv => keyLine kv ++ [10]) := by
  intro piece mem
  obtain ⟨kv, _, rfl⟩ := mem_map.mp mem
  exact ⟨keyLine kv, newline_notMem_keyLine kv, rfl⟩

theorem newLine_closed (kvs : List Kv) (line : List UInt8) (plain : 10 ∉ line) :
    ∃ other, 10 ∉ other ∧ newLine kvs (line ++ [10]) = other ++ [10] := by
  cases holds : held kvs (line ++ [10]) with
  | true =>
    obtain ⟨kv, _, _, printed⟩ := newLine_of_held holds
    exact ⟨keyLine kv, newline_notMem_keyLine kv, printed⟩
  | false => exact ⟨line, plain, newLine_of_free holds⟩

theorem marked_map_newLine {body : List (List UInt8)}
    (marked : Marked 10 body) : Marked 10 (body.map (newLine kvs)) := by
  rcases marked.closed_or_open with closed | ⟨front, last, rfl, closed, plain, nonempty⟩
  · exact (closed.map (newLine_closed kvs)).marked
  · rw [map_append]
    apply (closed.map (newLine_closed kvs)).marked_append
    rw [map_singleton]
    cases holds : held kvs last with
    | true =>
      obtain ⟨kv, _, _, printed⟩ := newLine_of_held holds
      rw [printed]
      exact .cons (newline_notMem_keyLine kv) .nil
    | false =>
      rw [newLine_of_free holds]
      exact .last plain nonempty

theorem closed_newBody {body : List (List UInt8)} (closed : Closed 10 (body.map (newLine kvs))) :
    Closed 10 (newBody kvs body) :=
  closed.append (closed_keys _)

theorem marked_newBody {front body after : List (List UInt8)}
    (marked : Marked 10 (front ++ body ++ after))
    (clean : absentKeys kvs body ≠ [] → after = [] → Closed 10 (front ++ body) ∨
        ∃ last, body.getLast? = some last ∧ held kvs last = true) :
    Marked 10 (front ++ newBody kvs body ++ after) := by
  have closedCase : Closed 10 (front ++ body) → Marked 10 (front ++ newBody kvs body ++ after) := by
    intro closed
    have inside := closed.right.map (newLine_closed kvs)
    exact (closed.left.append (closed_newBody inside)).marked_append marked.back
  by_cases more : after = []
  · subst more
    rw [append_nil] at marked ⊢
    by_cases complete : absentKeys kvs body = []
    · rw [newBody, complete, map_nil, append_nil]
      cases body with
      | nil => exact marked
      | cons line rest =>
        have closed := marked.closed_front (cons_ne_nil line rest)
        exact closed.marked_append (marked_map_newLine marked.back)
    · rcases clean complete rfl with closed | ⟨last, isLast, holds⟩
      · simpa only [append_nil] using closedCase closed
      · obtain ⟨init, rfl⟩ := getLast?_eq_some_iff.mp isLast
        rw [← append_assoc] at marked
        have closed := marked.closed_front (cons_ne_nil last [])
        have inside : Closed 10 ((init ++ [last]).map (newLine kvs)) := by
          rw [map_append]
          apply (closed.right.map (newLine_closed kvs)).append
          obtain ⟨kv, _, _, printed⟩ := newLine_of_held holds
          intro piece mem
          rw [map_singleton, mem_singleton, printed] at mem
          exact ⟨keyLine kv, newline_notMem_keyLine kv, mem⟩
        exact (closed.left.append (closed_newBody inside)).marked
  · exact closedCase (marked.closed_front more)

theorem Split.lines_eq (split : Split) :
    split.lines = split.before ++ [split.header] ++ split.body ++
      split.after := by
  simp [Split.lines, append_assoc]

theorem marked_newSplit (found : sectionBound name (markedLines 10 text) = some split)
    (clean : Clean name kvs text) :
    Marked 10 (newSplit kvs split).lines := by
  have isSection := sectionBound_eq_some_iff.mp found
  have marked := markedLines_marked 10 text
  have whole := flatten_markedLines 10 text
  rw [isSection.lines] at marked whole
  rw [Split.lines_eq] at marked ⊢
  apply marked_newBody marked
  intro lacks isEnd
  refine (clean split found lacks isEnd).imp (fun ended => ?_) id
  rw [isEnd, append_nil] at marked
  apply marked.closed_of_getLast?
  rw [← ended, ← whole, Split.lines_eq, isEnd, append_nil]

theorem isSection_newSplit (kvs : List Kv) {list : List (List UInt8)}
    (isSection : IsSection name split list) :
    IsSection name (newSplit kvs split) (newSplit kvs split).lines where
  lines := rfl
  header := isSection.header
  first := isSection.first
  inside := fun _ => isTable_newBody isSection.inside
  ends := isSection.ends

theorem isHeader_headerLine (name : SectionName) (rest : List UInt8) :
    isHeader name (headerLine name ++ 10 :: rest) = true := by
  have plain : 10 ∉ headerLine name := by simp [headerLine, name.oneLine]
  have bracket : (91 :: (name.text.bytes ++ [(93 : UInt8)]))[
      1 + name.text.bytes.length]? = some 93 := by
    rw [Nat.add_comm, getElem?_cons_succ]
    simp
  have ended : (91 :: (name.text.bytes ++ [(93 : UInt8)])).drop
      (2 + name.text.bytes.length) = [] := by
    apply drop_of_length_le
    simp
    omega
  unfold isHeader
  rw [unmarked_append plain]
  simp [headerLine, CStr.length, bracket, ended]

theorem newline_notMem_headerLine (name : SectionName) : 10 ∉ headerLine name := by
  simp [headerLine, name.oneLine]

theorem absentKeys_nil (kvs : List Kv) : absentKeys kvs [] = kvs := by
  simp [absentKeys, sectionKeyLine]

section Created

variable {list : List (List UInt8)}

theorem closed_createdSplit : Closed 10 (createdSplit name kvs list).lines := by
  have frame : Closed 10 (list.map (terminated 10) ++ [[10]] ++ [headerLine name ++ [10]]) := by
    apply ((closed_terminated list).append _).append
    · intro piece mem
      exact ⟨_, newline_notMem_headerLine name, mem_singleton.mp mem⟩
    · intro piece mem
      exact ⟨[], not_mem_nil, mem_singleton.mp mem⟩
  rw [Split.lines_eq]
  dsimp only [createdSplit]
  rw [append_nil]
  exact frame.append (closed_newBody fun piece mem =>
    absurd mem not_mem_nil)

theorem isSection_createdSplit (kvs : List Kv)
    (absent : ∀ line ∈ list, isHeader name line = false) :
    IsSection name (createdSplit name kvs list) (createdSplit name kvs list).lines where
  lines := rfl
  header := isHeader_headerLine name []
  first := by
    intro line mem
    rcases mem_append.mp mem with inOld | isBlank
    · obtain ⟨old, inList, rfl⟩ := mem_map.mp inOld
      rw [← isHeader_unmarked, unmarked_terminated, isHeader_unmarked]
      exact absent old inList
    · rw [mem_singleton.mp isBlank]
      rfl
  inside := fun _ => isTable_newBody (forall_mem_nil fun line => isTable line = false)
  ends := fun line first => by cases first

theorem written_created (none : sectionBound name (markedLines 10 text) = none) :
    written (sectionWrites name kvs text) =
      (createdSplit name kvs (markedLines 10 text)).lines.flatten := by
  have missing : written (if text ≠ [] ∧ text.getLast? ≠ some 10 then
      [Write.copied [10]] else []) = missingMark 10 text := by
    unfold missingMark
    split
    · rfl
    · rfl
  have marked := markedLines_marked 10 text
  have whole := marked.flatten_terminated
  rw [flatten_markedLines] at whole
  unfold sectionWrites
  rw [none]
  dsimp only
  rw [written_append, written_cons, written_cons, missing, written_keys,
    Split.lines_eq, createdSplit, newBody, absentKeys_nil]
  simp [Write.text, append_assoc, whole]

end Created

theorem markedLines_rewriteSection (rewrites : rewriteSection name kvs text = some result)
    (clean : Clean name kvs text) :
    markedLines 10 result = rewrittenLines name kvs (markedLines 10 text) := by
  rw [(rewriteSection_eq_some_iff.mp rewrites).2]
  unfold rewrittenLines
  cases found : sectionBound name (markedLines 10 text) with
  | none =>
    rw [written_created found]
    exact markedLines_flatten closed_createdSplit.marked
  | some split =>
    rw [written_found found]
    exact markedLines_flatten (marked_newSplit found clean)

theorem rewritten_rewrittenLines (consistent : Consistent kvs) (list : List (List UInt8)) :
    Rewritten name kvs (list.map (unmarked 10))
      ((rewrittenLines name kvs list).map (unmarked 10)) := by
  unfold rewrittenLines
  cases found : sectionBound name list with
  | none =>
    have absent := sectionBound_eq_none_iff.mp found
    have is := (isSection_createdSplit kvs absent).unmarked
    have sets := sets_newBody [] consistent
    have bare := others_newBody kvs []
    refine .created ?_ ?_ sets bare
    · intro line mem
      obtain ⟨marked, inMarked, rfl⟩ := mem_map.mp mem
      rw [isHeader_unmarked]
      exact absent marked inMarked
    · have empty : unmarked 10 [(10 : UInt8)] = [] := rfl
      have same : unmarked 10 ∘ terminated (10 : UInt8) = unmarked 10 :=
        funext unmarked_terminated
      simpa only [createdSplit, Split.map, map_append, map_map, same, map_cons, map_nil, empty,
        unmarked_append (newline_notMem_headerLine name)] using is
  | some split =>
    have isSection := sectionBound_eq_some_iff.mp found
    exact .found isSection.unmarked (isSection_newSplit kvs isSection).unmarked
      (sets_newBody _ consistent) (others_newBody kvs _)

theorem settled_rewrittenLines (name : SectionName)
    (consistent : Consistent kvs) (list : List (List UInt8)) :
    Settled name kvs (rewrittenLines name kvs list) := by
  unfold rewrittenLines
  cases found : sectionBound name list with
  | none =>
    exact ⟨_, isSection_createdSplit kvs (sectionBound_eq_none_iff.mp found),
      absentKeys_newBody consistent, fun line => newLine_newBody consistent⟩
  | some split =>
    exact ⟨_, isSection_newSplit kvs (sectionBound_eq_some_iff.mp found),
      absentKeys_newBody consistent, fun line => newLine_newBody consistent⟩

theorem rewritten_of_rewriteSection (rewrites : rewriteSection name kvs text = some result)
    (consistent : Consistent kvs) (clean : Clean name kvs text) :
    Rewritten name kvs (lines 10 text) (lines 10 result) := by
  rw [← map_unmarked_markedLines, ← map_unmarked_markedLines,
    markedLines_rewriteSection rewrites clean]
  exact rewritten_rewrittenLines consistent _

/-! ### Where it fails -/

theorem consistent_of_sets {body : List (List UInt8)} (sets : Sets kvs body) : Consistent kvs := by
  intro kv mem kv' mem' same
  have holds : holdsKey kv'.key (keyLine kv) = true := by rw [holdsKey_iff, keyOf_keyLine, same]
  have equal := sets.only kv' mem' _ (sets.present kv mem) holds
  unfold keyLine at equal
  rw [same] at equal
  exact BoundedStr.ext (CStr.ext (append_cancel_left equal))

theorem IsSection.unique {list : List (List UInt8)} {other : Split}
    (first : IsSection name split list) (second : IsSection name other list) :
    split = other := by
  rw [← sectionBound_eq_some_iff] at first second
  exact Option.some.inj (first.symm.trans second)

theorem rewritten_of_isSection {old new : List (List UInt8)}
    (rewritten : Rewritten name kvs old new)
    (isSection : IsSection name split old) :
    ∃ body', IsSection name { split with body := body' } new ∧ Sets kvs body' ∧
      others kvs body' = others kvs split.body := by
  cases rewritten with
  | found was is sets kept =>
    rw [isSection.unique was]
    exact ⟨_, is, sets, kept⟩
  | created absent is sets bare =>
    have header := isSection.header
    have mem : split.header ∈ old := by
      rw [isSection.lines, Split.lines]
      exact mem_append_right _ mem_cons_self
    rw [absent _ mem] at header
    cases header

theorem clean_of_rewritten (rewrites : rewriteSection name kvs text = some result)
    (rewritten : Rewritten name kvs (lines 10 text) (lines 10 result)) :
    Clean name kvs text := by
  intro split found lacks isEnd
  have isSection := sectionBound_eq_some_iff.mp found
  have marked := markedLines_marked 10 text
  have whole := flatten_markedLines 10 text
  rw [isSection.lines, Split.lines_eq, isEnd, append_nil] at marked whole
  by_contra neither
  obtain ⟨unended, free⟩ := not_or.mp neither
  obtain ⟨kv, more, keys⟩ := exists_cons_of_ne_nil lacks
  have was := isSection.unmarked
  rw [map_unmarked_markedLines] at was
  obtain ⟨body', is, _, kept⟩ := rewritten_of_isSection rewritten was
  have plainKey := newline_notMem_keyLine kv
  have newLines : result = (split.before ++ [split.header] ++
      (split.body.map (newLine kvs) ++ (keyLine kv ++ [10]) ::
        more.map fun kv => keyLine kv ++ [10])).flatten := by
    rw [(rewriteSection_eq_some_iff.mp rewrites).2, written_found found,
      Split.lines_eq, newSplit, newBody, keys, isEnd, append_nil]
    rfl
  cases closed : split.body.getLast? with
  | none =>
    rw [getLast?_eq_none_iff] at closed
    rw [closed, append_nil] at marked whole
    have plain := marked.plain_last (by rw [whole]; exact unended)
    have read := lines_joined (marked.closed_front (by simp)) plain plainKey (closed_keys more)
    rw [closed, map_nil, nil_append, append_assoc, singleton_append] at newLines
    rw [newLines, read] at is
    have shape := is.lines
    simp only [Split.lines, Split.map, unmarked_plain plain] at shape
    have same := (List.cons.inj (append_cancel_left shape)).1
    simp [keyLine] at same
  | some last =>
    obtain ⟨init, isLast⟩ := getLast?_eq_some_iff.mp closed
    rw [isLast, ← append_assoc] at marked whole
    have plain := marked.plain_last (by rw [whole]; exact unended)
    have closedFront := marked.closed_front (by simp)
    have closedLines : Closed 10 (split.before ++ [split.header] ++ init.map (newLine kvs)) :=
      closedFront.left.append (closedFront.right.map (newLine_closed kvs))
    have isFree : held kvs last = false :=
      Bool.eq_false_iff.mpr fun holds => free ⟨last, closed, holds⟩
    have read := lines_joined closedLines plain plainKey (closed_keys more)
    rw [isLast, map_append, map_singleton, newLine_of_free isFree] at newLines
    have shape := is.lines
    rw [newLines] at shape
    simp only [append_assoc, cons_append, nil_append,
      map_append, map_cons, Split.lines, Split.map, isEnd,
      map_nil, append_nil] at read shape
    rw [read] at shape
    have inside := (List.cons.inj (append_cancel_left shape)).2
    have moreKeys : others kvs ((more.map fun kv =>
        keyLine kv ++ [10]).map (unmarked 10)) = [] := others_keys
      fun other mem => (mem_absentKeys.mp (by
        rw [keys]
        exact mem_cons_of_mem kv mem)).1
    rw [← inside, Split.map, isLast, map_append, others_append,
      others_append, others_newLines, ← singleton_append, others_append,
      moreKeys, append_nil, map_singleton,
      unmarked_plain plain] at kept
    have same := append_cancel_left kept
    have stays : others kvs [last] = [last] := by simp [others, isFree]
    have mem : last ++ keyLine kv = last := by
      have inOthers : last ∈ others kvs [last ++ keyLine kv] := by
        rw [same, stays]
        exact mem_singleton_self last
      exact (mem_singleton.mp (mem_filter.mp inOthers).1).symm
    simp [keyLine] at mem

theorem consistent_of_rewritten {old new : List (List UInt8)}
    (rewritten : Rewritten name kvs old new) : Consistent kvs := by
  cases rewritten with
  | found _ _ sets _ => exact consistent_of_sets sets
  | created _ _ sets _ => exact consistent_of_sets sets

end Text

/-- Rewriting a section is exact where the lines written have room, pairs with
the same key agree, and the text does not end, without a newline, in a section
that lacks a key, behind a line that holds none; and only there. -/
theorem exactRewrite_iff (name : SectionName) (kvs : List Kv) (text : List UInt8) :
    ExactRewrite name kvs text ↔ RoomFor name kvs text ∧ Consistent kvs ∧ Clean name kvs text := by
  constructor
  · rintro ⟨result, rewrites, rewritten, _⟩
    exact ⟨(rewriteSection_eq_some_iff.mp rewrites).1,
      consistent_of_rewritten rewritten, clean_of_rewritten rewrites rewritten⟩
  · rintro ⟨roomFor, consistent, clean⟩
    have rewrites := rewriteSection_eq_some_iff.mpr ⟨roomFor, rfl⟩
    refine ⟨_, rewrites, rewritten_of_rewriteSection rewrites consistent clean, ?_⟩
    apply rewriteSection_of_settled
    rw [markedLines_rewriteSection rewrites clean]
    exact settled_rewrittenLines name consistent _

def ldapSection : SectionName where
  text := ⟨[108, 100, 97, 112], by decide⟩
  oneLine := by decide

def enabledTrue : Kv where
  key := ⟨[101, 110, 97, 98, 108, 101, 100], by decide⟩
  value := ⟨⟨[116, 114, 117, 101], by decide⟩, by decide⟩
  named := by decide
  bare := by decide +kernel
  oneLine := by decide

/-- `[ldap]`, and below it `a = 1` without a newline. -/
def endsWithoutNewline : List UInt8 :=
  [91, 108, 100, 97, 112, 93, 10, 97, 32, 61, 32, 49]

/-- The first key that the section lacks is written onto its last line. -/
theorem key_written_behind_line : rewriteSection ldapSection [enabledTrue] endsWithoutNewline =
        some (endsWithoutNewline ++ keyLine enabledTrue ++ [10]) ∧
      ¬ExactRewrite ldapSection [enabledTrue] endsWithoutNewline := by
  constructor
  · decide +kernel
  · rintro ⟨result, rewrites, rewritten, _⟩
    have clean := clean_of_rewritten rewrites rewritten
    have lacks : absentKeys [enabledTrue] [[97, 32, 61, 32, 49]] ≠ [] :=
      ne_nil_of_mem (a := enabledTrue) (mem_absentKeys.mpr ⟨mem_singleton_self _, by decide⟩)
    obtain ended | ⟨last, isLast, holds⟩ := clean
      ⟨[], [91, 108, 100, 97, 112, 93, 10], [[97, 32, 61, 32, 49]], []⟩
      rfl lacks rfl
    · exact absurd ended (by decide)
    · obtain rfl := Option.some.inj isLast
      exact absurd holds (by decide)

end Cix.Ldap
