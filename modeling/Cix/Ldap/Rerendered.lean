import Cix.Ldap.Listeners

/-!
# Writing the configuration file again

What is written is the operator's part of the file, with its base DN and its
listeners set, and the rendering of the current users and groups; the next time
it is cut where that rendering begins, and written as it is.
-/

namespace Cix.Ldap

open Cix.Lib List Option

def IsValue (value : List UInt8) : Prop :=
  34 ∉ value ∧ 10 ∉ value

/-- The text `new` is `text` with its base DN set: a text that gives no value,
or none that is ever closed, stays as it is. -/
inductive BasednSet (c : Configuration) (text new : List UInt8) : Prop
  | kept (none : c.baseDn.str.length = 0 ∨
      ∀ head value, ValueAt text head value → 34 ∉ value)
      (same : new = text)
  | set {head old tail : List UInt8} (given : c.baseDn.str.length ≠ 0)
      (valueAt : ValueAt text head (old ++ 34 :: tail)) (was : IsValue old)
      (is : IsValue c.baseDn.str.bytes)
      (result : new = head ++ c.baseDn.str.bytes ++ 34 :: tail)

/-- The text `new` is `text` with its two listener sections set. -/
inductive ListenersSet (c : Configuration) (text new : List UInt8) : Prop
  | unmanaged (none : c.listenersManaged = false ∨ text = [])
      (same : new = text)
  | managed {stage : List UInt8} (managed : c.listenersManaged = true)
      (first : rewriteSection ldapSection (plainPairs c) text = some stage)
      (plain : Rewritten ldapSection (plainPairs c) (lines 10 text) (lines 10 stage))
      (tls : Rewritten ldapsSection (tlsPairs c (lacksSection ldapsSection stage)) (lines 10 stage)
        (lines 10 new))

/-- The file is the operator's part, with what is managed in it set, and the current
users and groups; written again it is the same. -/
def ExactFile (c : Configuration) (d : Directory) (current : Option (List UInt8)) : Prop :=
  ∃ based front, BasednSet c (operatorPart (current.getD [])) based ∧
    ListenersSet c based front ∧ Unmanaged front ∧
    ldapWriteConfigFile c d current = .ok (front ++ rendering d) ∧
    ldapWriteConfigFile c d (some (front ++ rendering d)) = .ok (front ++ rendering d)

/-- The rendering fits, the base DN can stand in its place, and both sections can be
rewritten. -/
structure Writable (c : Configuration) (d : Directory)
    (current : Option (List UInt8)) : Prop where
  short : (rendering d).length < 1048576
  base : c.baseDn.str.length ≠ 0 → ∀ head old tail,
    ValueAt (operatorPart (current.getD [])) head (old ++ 34 :: tail) →
      34 ∉ old → 10 ∉ old ∧ IsValue c.baseDn.str.bytes
  listeners : c.listenersManaged = true →
    basednStage c (operatorPart (current.getD [])) ≠ [] → RoomFor ldapSection (plainPairs c)
          (basednStage c (operatorPart (current.getD []))) ∧
        Clean ldapSection (plainPairs c) (basednStage c (operatorPart (current.getD []))) ∧
        ∀ stage, rewriteSection ldapSection (plainPairs c)
            (basednStage c (operatorPart (current.getD []))) = some stage →
          RoomFor ldapsSection (tlsPairs c (lacksSection ldapsSection stage)) stage ∧
            Clean ldapsSection (tlsPairs c (lacksSection ldapsSection stage)) stage

/-- The operator's part opens a value on its `baseDN` line that no quote ever
closes, and listeners are written into it. -/
def NeverClosed (c : Configuration) (current : Option (List UInt8)) : Prop :=
  c.baseDn.str.length ≠ 0 ∧ c.listenersManaged = true ∧
    ∃ head value, ValueAt (operatorPart (current.getD [])) head value ∧ 34 ∉ value

/-! ## The pairs -/

theorem consistent_of_distinct {kvs : List Kv}
    (distinct : (kvs.map fun kv => kv.key.bytes).Nodup) : Consistent kvs := by
  intro kv mem kv' mem' same
  rw [inj_on_of_nodup_map distinct mem mem' (congrArg CStr.bytes same)]

theorem keys_plainPairs (c : Configuration) : ((plainPairs c).map fun kv => kv.key.bytes) =
      [[101, 110, 97, 98, 108, 101, 100], [108, 105, 115, 116, 101, 110]] :=
  rfl

theorem keys_tlsPairs (c : Configuration) (created : Bool) :
    ((tlsPairs c created).map fun kv => kv.key.bytes) =
      [[101, 110, 97, 98, 108, 101, 100], [108, 105, 115, 116, 101, 110]] ++
        if created then [[99, 101, 114, 116], [107, 101, 121]] else [] := by
  cases created
  · rfl
  · rfl

theorem consistent_plainPairs (c : Configuration) : Consistent (plainPairs c) :=
  consistent_of_distinct (by
    rw [keys_plainPairs]
    decide)

theorem consistent_tlsPairs (c : Configuration) (created : Bool) :
    Consistent (tlsPairs c created) :=
  consistent_of_distinct (by
    rw [keys_tlsPairs]
    revert created
    decide)

theorem noBase_of_keys {kvs : List Kv} (noBase : ∀ key ∈ kvs.map fun kv => kv.key.bytes,
      ¬ [98, 97, 115, 101, 68, 78] <+: key) : NoBase kvs :=
  fun kv mem => noBase _ (mem_map.mpr ⟨kv, mem, rfl⟩)

theorem noBase_plainPairs (c : Configuration) : NoBase (plainPairs c) :=
  noBase_of_keys (by
    rw [keys_plainPairs]
    decide)

theorem noBase_tlsPairs (c : Configuration) (created : Bool) : NoBase (tlsPairs c created) :=
  noBase_of_keys (by
    rw [keys_tlsPairs]
    revert created
    decide)

theorem settled_tlsPairs {c : Configuration} {created : Bool}
    {list : List (List UInt8)}
    (settled : Settled ldapsSection (tlsPairs c created) list) :
    Settled ldapsSection (tlsPairs c false) list := by
  obtain ⟨split, isSection, complete, same⟩ := settled
  have among : ∀ kv ∈ tlsPairs c false, kv ∈ tlsPairs c created :=
    fun kv mem => mem_append_left _ (by simpa [tlsPairs] using mem)
  refine ⟨split, isSection, ?_, fun line inBody => ?_⟩
  · rw [eq_nil_iff_forall_not_mem] at complete ⊢
    intro kv absent
    obtain ⟨mem, none⟩ := mem_absentKeys.mp absent
    exact complete kv (mem_absentKeys.mpr ⟨among kv mem, none⟩)
  · cases holds : held (tlsPairs c false) line with
    | false => exact newLine_of_free holds
    | true =>
      obtain ⟨kv, mem, isKey, printed⟩ := newLine_of_held holds
      have holdsAll : held (tlsPairs c created) line = true :=
        held_iff.mpr ⟨kv, among kv mem, isKey⟩
      obtain ⟨kv', mem', isKey', printed'⟩ := newLine_of_held holdsAll
      rw [isKey, some.injEq] at isKey'
      rw [printed, eq_keyLine_of_key (consistent_tlsPairs c created)
        (among kv mem) mem' isKey', ← printed', same line inBody]

theorem apart_sections : Apart ldapSection ldapsSection := by
  intro line header
  rw [Bool.eq_false_iff]
  intro other
  unfold isHeader at header other
  simp only [Bool.and_eq_true, decide_eq_true_eq] at header other
  have closes := header.1.2
  have name := congrArg (fun text : List UInt8 => text[4]?) other.1.1.2
  simp [ldapSection, ldapsSection, CStr.length] at closes name
  rw [closes] at name
  exact absurd name (by decide)

/-! ## The listeners are set once -/

section Stages

variable {c : Configuration} {text result : List UInt8}

theorem rewriteListeners_cases (managed : c.listenersManaged = true) (nonempty : text ≠ [])
    (rewrites : rewriteListeners c text = some result) :
    ∃ stage, rewriteSection ldapSection (plainPairs c) text = some stage ∧
      rewriteSection ldapsSection
        (tlsPairs c (lacksSection ldapsSection stage)) stage = some result := by
  unfold rewriteListeners at rewrites
  rw [if_neg (by simp [managed, nonempty])] at rewrites
  exact bind_eq_some_iff.mp rewrites

theorem rewriteListeners_again {stage : List UInt8}
    (first : rewriteSection ldapSection (plainPairs c) text = some stage)
    (clean : Clean ldapSection (plainPairs c) text)
    (second : rewriteSection ldapsSection
      (tlsPairs c (lacksSection ldapsSection stage)) stage = some result)
    (tlsClean : Clean ldapsSection (tlsPairs c (lacksSection ldapsSection stage)) stage) :
    rewriteListeners c result = some result := by
  have plain := settled_rewrittenLines ldapSection (consistent_plainPairs c) (markedLines 10 text)
  rw [← markedLines_rewriteSection first clean] at plain
  have plainStill := plain.rewritten apart_sections (tlsPairs c (lacksSection ldapsSection stage))
  have tls := settled_rewrittenLines ldapsSection
    (consistent_tlsPairs c (lacksSection ldapsSection stage))
    (markedLines 10 stage)
  rw [← markedLines_rewriteSection second tlsClean] at plainStill tls
  have present : lacksSection ldapsSection result = false := by
    obtain ⟨split, isSection, _⟩ := tls
    rw [lacksSection, sectionBound_eq_some_iff.mpr isSection]
    rfl
  unfold rewriteListeners
  split
  · rfl
  · rw [rewriteSection_of_settled plainStill, bind_some, present,
      rewriteSection_of_settled (settled_tlsPairs tls)]

end Stages

/-! ## The base DN is set once -/

/-- The first `baseDN` line, if it opens a value, has the base DN there. -/
def BaseIs (basedn : CStr) (list : List (List UInt8)) : Prop :=
  ∀ line, list.find? isBaseLine = some line → ∀ value, openedValue line = some value →
      34 ∉ basedn.bytes ∧ ∃ rest, value = basedn.bytes ++ 34 :: rest

section Base

variable {basedn : CStr} {text : List UInt8}

theorem dropWhile_quote {value : List UInt8} (unquoted : 34 ∉ value) (rest : List UInt8) :
    (value ++ 34 :: rest).dropWhile (fun c => decide (c ≠ 34)) = 34 :: rest := by
  rw [dropWhile_append_of_pos]
  · simp
  · intro c mem
    exact decide_eq_true fun isQuote => unquoted (isQuote ▸ mem)

theorem append_quote_inj {value value' rest rest' : List UInt8}
    (unquoted : 34 ∉ value) (unquoted' : 34 ∉ value')
    (same : value ++ 34 :: rest = value' ++ 34 :: rest') :
    value = value' ∧ rest = rest' := by
  have tails := congrArg (fun text : List UInt8 => text.dropWhile fun c => decide (c ≠ 34)) same
  rw [dropWhile_quote unquoted, dropWhile_quote unquoted', List.cons.injEq] at tails
  rw [tails.2] at same
  exact ⟨append_cancel_right same, tails.2⟩

theorem rewriteBasedn_value {head old tail : List UInt8}
    (valueAt : ValueAt text head (old ++ 34 :: tail)) (unquoted : 34 ∉ old) :
    rewriteBasedn basedn text = some (head ++ basedn.bytes ++ 34 :: tail) := by
  rw [rewriteBasedn_of_valueAt valueAt, if_pos (by simp), dropWhile_quote unquoted]

theorem rewriteBasedn_of_baseIs (baseIs : BaseIs basedn (lines 10 text)) :
    (rewriteBasedn basedn text).getD text = text := by
  by_cases opens : ∃ head value, ValueAt text head value
  · obtain ⟨head, value, valueAt⟩ := opens
    obtain ⟨line, first, opened⟩ := valueAt.line
    obtain ⟨unquoted, rest, isValue⟩ := baseIs line first _ opened
    obtain ⟨more, whole, _⟩ := exists_atEnd 10 value
    rw [isValue, append_assoc, cons_append] at whole
    rw [whole] at valueAt
    rw [rewriteBasedn_value valueAt unquoted, getD_some]
    obtain ⟨_, _, _, joined, _⟩ := valueAt
    rw [joined, append_assoc]
  · rw [rewriteBasedn_of_none fun head value valueAt =>
      opens ⟨head, value, valueAt⟩]
    rfl

theorem baseIs_of_none (none : ∀ head value, ¬ValueAt text head value) :
    BaseIs basedn (lines 10 text) := by
  intro line first value opened
  obtain ⟨head, read, valueAt, _⟩ := valueAt_of_line first opened
  exact absurd valueAt (none head read)

theorem baseIs_of_valueAt {head tail : List UInt8} (is : IsValue basedn.bytes)
    (valueAt : ValueAt text head (basedn.bytes ++ 34 :: tail)) :
    BaseIs basedn (lines 10 text) := by
  intro line first value opened
  obtain ⟨head', read, valueAt', isValue⟩ := valueAt_of_line first opened
  obtain ⟨_, rfl⟩ := valueAt'.unique valueAt
  refine ⟨is.1, unmarked 10 tail, ?_⟩
  rw [← isValue]
  unfold unmarked
  rw [takeWhile_append_of_pos]
  · rfl
  · intro c mem
    exact decide_eq_true fun isMark => is.2 (isMark ▸ mem)

theorem ValueAt.replace {head value : List UInt8}
    (valueAt : ValueAt text head value) (other : List UInt8) :
    ValueAt (head ++ other) head other := by
  obtain ⟨before, opening, isHead, _, isOpening, ended, none⟩ := valueAt
  exact ⟨before, opening, isHead, rfl, isOpening, ended, none⟩

end Base

/-! ## The two stages -/

section File

variable {c : Configuration} {d : Directory} {text based front : List UInt8}

theorem basednStage_given (given : c.baseDn.str.length ≠ 0) :
    basednStage c text = (rewriteBasedn c.baseDn.str text).getD text := by
  unfold basednStage
  cases text with
  | nil => rfl
  | cons byte rest => rw [if_pos ⟨cons_ne_nil _ _, given⟩]

theorem basednStage_unset (unset : c.baseDn.str.length = 0) : basednStage c text = text := by
  unfold basednStage
  rw [if_neg fun both => both.2 unset]

theorem rewriteBasedn_of_open {basedn : CStr}
    (none : ∀ head value, ValueAt text head value → 34 ∉ value) :
    rewriteBasedn basedn text = Option.none := by
  by_cases opens : ∃ head value, ValueAt text head value
  · obtain ⟨head, value, valueAt⟩ := opens
    rw [rewriteBasedn_of_valueAt valueAt, if_neg (none head value valueAt)]
  · exact rewriteBasedn_of_none fun head value valueAt =>
      opens ⟨head, value, valueAt⟩

theorem basednSet_iff : BasednSet c text based ↔ based = basednStage c text ∧
      (c.baseDn.str.length ≠ 0 → ∀ head old tail, ValueAt text head (old ++ 34 :: tail) → 34 ∉ old →
          10 ∉ old ∧ IsValue c.baseDn.str.bytes) := by
  constructor
  · intro basednSet
    cases basednSet with
    | kept none same =>
      by_cases unset : c.baseDn.str.length = 0
      · exact ⟨by rw [same, basednStage_unset unset],
          fun given => absurd unset given⟩
      · have never := none.resolve_left unset
        refine ⟨?_, fun _ head old tail valueAt _ => ?_⟩
        · rw [basednStage_given unset, rewriteBasedn_of_open never, same]
          rfl
        · exact absurd (never head _ valueAt) (by simp)
    | set given valueAt was is result =>
      refine ⟨?_, fun _ head old tail valueAt' unquoted => ?_⟩
      · rw [basednStage_given given, rewriteBasedn_value valueAt was.1, result]
        rfl
      · obtain ⟨_, same⟩ := valueAt'.unique valueAt
        obtain ⟨rfl, _⟩ := append_quote_inj unquoted was.1 same
        exact ⟨was.2, is⟩
  · rintro ⟨rfl, valued⟩
    by_cases unset : c.baseDn.str.length = 0
    · exact .kept (Or.inl unset) (basednStage_unset unset)
    by_cases closed : ∃ head value, ValueAt text head value ∧ 34 ∈ value
    · obtain ⟨head, value, valueAt, quoted⟩ := closed
      obtain ⟨old, tail, rfl, unquoted⟩ := eq_append_cons_of_mem quoted
      obtain ⟨oneLine, is⟩ := valued unset head old tail valueAt unquoted
      refine .set unset valueAt ⟨unquoted, oneLine⟩ is ?_
      rw [basednStage_given unset, rewriteBasedn_value valueAt unquoted]
      rfl
    · have never : ∀ head value, ValueAt text head value → 34 ∉ value :=
        fun head value valueAt quoted => closed ⟨head, value, valueAt, quoted⟩
      refine .kept (Or.inr never) ?_
      rw [basednStage_given unset, rewriteBasedn_of_open never]
      rfl

theorem BasednSet.unmanaged (basednSet : BasednSet c text based)
    (unmanaged : Unmanaged text) : Unmanaged based := by
  cases basednSet with
  | kept _ same => rwa [same]
  | @set head old tail _ valueAt was is result =>
    obtain ⟨before, opening, rfl, rfl, isOpening, _⟩ := valueAt
    obtain ⟨start, rfl⟩ := isOpening.ends
    have moved : ∀ piece : List UInt8, 34 ∉ 10 :: piece → 10 :: piece <:+: based →
          10 :: piece <:+: (before ++ (start ++ [34])) ++ (old ++ 34 :: tail) := by
      intro piece foreign inside
      have shape : based = (before ++ start) ++ 34 :: (c.baseDn.str.bytes ++ 34 :: tail) := by
        rw [result]
        simp [append_assoc]
      rw [shape] at inside
      rcases infix_of_separator foreign inside with inHead | inRest
      · refine inHead.trans (List.IsPrefix.isInfix ?_)
        exact ⟨34 :: (old ++ 34 :: tail), by simp [append_assoc]⟩
      · rcases infix_of_separator foreign inRest with inValue | inTail
        · exact absurd (inValue.subset mem_cons_self) is.2
        · refine inTail.trans (List.IsSuffix.isInfix ?_)
          exact ⟨before ++ (start ++ [34]) ++ (old ++ [34]), by
            simp [append_assoc]⟩
    exact ⟨fun inside => unmanaged.1 (moved _ (by decide) inside),
      fun inside => unmanaged.2 (moved _ (by decide) inside)⟩

theorem BasednSet.baseIs (basednSet : BasednSet c text based) (given : c.baseDn.str.length ≠ 0)
    (closed : ∀ head value, ValueAt text head value → 34 ∈ value) :
    BaseIs c.baseDn.str (lines 10 based) := by
  cases basednSet with
  | kept none same =>
    rw [same]
    apply baseIs_of_none
    intro head value valueAt
    exact none.resolve_left given head value valueAt (closed head value valueAt)
  | @set head old tail _ valueAt was is result =>
    have moved := valueAt.replace (c.baseDn.str.bytes ++ 34 :: tail)
    rw [← append_assoc, ← result] at moved
    exact baseIs_of_valueAt is moved

theorem BasednSet.again (basednSet : BasednSet c text based) : basednStage c based = based := by
  have isStage := (basednSet_iff.mp basednSet).1
  by_cases unset : c.baseDn.str.length = 0
  · exact basednStage_unset unset
  cases basednSet with
  | kept _ same =>
    rw [same] at isStage ⊢
    exact isStage.symm
  | @set head old tail _ valueAt was is result =>
    have moved := valueAt.replace (c.baseDn.str.bytes ++ 34 :: tail)
    rw [← append_assoc, ← result] at moved
    rw [basednStage_given unset, rewriteBasedn_of_baseIs (baseIs_of_valueAt is moved)]

end File

/-! ## The whole file -/

section Whole

variable {c : Configuration} {d : Directory} {current : Option (List UInt8)}

theorem ldapWriteConfigFile_eq_ok {result : List UInt8} :
    ldapWriteConfigFile c d current = .ok result ↔ (rendering d).length < 1048576 ∧
        ∃ front, rewriteListeners c (basednStage c (operatorPart (current.getD []))) = some front ∧
            result = front ++ rendering d := by
  unfold ldapWriteConfigFile
  rw [renderUsersGroupsToml_eq]
  split
  next tooLong =>
    split at tooLong
    next => cases tooLong
    next long => simp [long]
  next rendered isRendered =>
    split at isRendered
    next short =>
      obtain rfl := some.inj isRendered
      cases rewriteListeners c (basednStage c (operatorPart (current.getD []))) with
      | none => simp
      | some front => simp [short, eq_comm]
    next => cases isRendered

theorem rewriteListeners_set {based : List UInt8}
    (managed : c.listenersManaged = true) (nonempty : based ≠ [])
    (unmanaged : Unmanaged based)
    (roomFor : RoomFor ldapSection (plainPairs c) based)
    (clean : Clean ldapSection (plainPairs c) based)
    (tls : ∀ stage, rewriteSection ldapSection (plainPairs c) based = some stage →
        RoomFor ldapsSection (tlsPairs c (lacksSection ldapsSection stage)) stage ∧
          Clean ldapsSection (tlsPairs c (lacksSection ldapsSection stage)) stage) :
    ∃ front, rewriteListeners c based = some front ∧ ListenersSet c based front ∧ Unmanaged front ∧
      rewriteListeners c front = some front ∧
      (lines 10 front).find? isBaseLine = (lines 10 based).find? isBaseLine := by
  obtain ⟨stage, first⟩ : ∃ stage, rewriteSection ldapSection (plainPairs c) based = some stage :=
    ⟨_, rewriteSection_eq_some_iff.mpr ⟨roomFor, rfl⟩⟩
  obtain ⟨tlsRoom, tlsClean⟩ := tls stage first
  obtain ⟨front, second⟩ : ∃ front, rewriteSection ldapsSection
      (tlsPairs c (lacksSection ldapsSection stage)) stage = some front :=
    ⟨_, rewriteSection_eq_some_iff.mpr ⟨tlsRoom, rfl⟩⟩
  have plainSet := rewritten_of_rewriteSection first (consistent_plainPairs c) clean
  have tlsSet := rewritten_of_rewriteSection second (consistent_tlsPairs c _) tlsClean
  have someStage : stage ≠ [] := by
    rintro rfl
    cases plainSet with
    | found _ is _ _ => exact absurd is.lines (by simp [lines, linesFrom, Split.lines])
    | created _ is _ _ =>
      exact absurd is.lines (by simp [lines, linesFrom, Split.lines])
  have stageUnmanaged := unmanaged.rewritten nonempty (by decide +kernel)
    (by decide +kernel) plainSet
  refine ⟨front, ?_, .managed managed first plainSet tlsSet, ?_,
    rewriteListeners_again first clean second tlsClean, ?_⟩
  · unfold rewriteListeners
    rw [if_neg (by simp [managed, nonempty]), first, bind_some, second]
  · exact stageUnmanaged.rewritten someStage (by decide +kernel) (by decide +kernel) tlsSet
  · rw [find?_rewritten (noBase_tlsPairs c _) tlsSet,
      find?_rewritten (noBase_plainPairs c) plainSet]

theorem writable_of_exactFile (exact : ExactFile c d current) :
    Writable c d current := by
  obtain ⟨based, front, basednSet, listenersSet, _, writes, _⟩ := exact
  obtain ⟨short, front', listeners, same⟩ := ldapWriteConfigFile_eq_ok.mp writes
  obtain rfl := append_cancel_right same
  obtain ⟨rfl, valued⟩ := basednSet_iff.mp basednSet
  refine ⟨short, valued, fun managed nonempty => ?_⟩
  cases listenersSet with
  | unmanaged none _ =>
    rcases none with unmanaged | empty
    · rw [managed] at unmanaged
      cases unmanaged
    · exact absurd empty nonempty
  | managed _ first plain tls =>
    obtain ⟨stage, first', second⟩ := rewriteListeners_cases managed nonempty listeners
    obtain rfl := some.inj (first.symm.trans first')
    refine ⟨(rewriteSection_eq_some_iff.mp first).1,
      clean_of_rewritten first plain, fun stage isStage => ?_⟩
    obtain rfl := some.inj (first.symm.trans isStage)
    exact ⟨(rewriteSection_eq_some_iff.mp second).1, clean_of_rewritten second tls⟩

theorem exactFile_of_front {front : List UInt8} (short : (rendering d).length < 1048576)
    (basednSet : BasednSet c (operatorPart (current.getD []))
      (basednStage c (operatorPart (current.getD []))))
    (listenersSet : ListenersSet c (basednStage c (operatorPart (current.getD []))) front)
    (unmanaged : Unmanaged front)
    (rewrites : rewriteListeners c (basednStage c (operatorPart (current.getD []))) = some front)
    (sameBase : basednStage c front = front)
    (sameListeners : rewriteListeners c front = some front) :
    ExactFile c d current := by
  refine ⟨_, front, basednSet, listenersSet, unmanaged, ?_, ?_⟩
  · exact ldapWriteConfigFile_eq_ok.mpr ⟨short, front, rewrites, rfl⟩
  · have cut := operatorPart_append unmanaged (rendering_begins d)
    refine ldapWriteConfigFile_eq_ok.mpr ⟨short, front, ?_, rfl⟩
    rw [getD_some, cut, sameBase, sameListeners]

theorem exactFile_of_writable (writable : Writable c d current)
    (closed : ¬NeverClosed c current) : ExactFile c d current := by
  have basednSet := basednSet_iff.mpr ⟨rfl, writable.base⟩
  have unmanaged := basednSet.unmanaged (unmanaged_operatorPart _)
  by_cases work : c.listenersManaged = true ∧ basednStage c (operatorPart (current.getD [])) ≠ []
  · obtain ⟨managed, nonempty⟩ := work
    obtain ⟨roomFor, clean, tls⟩ := writable.listeners managed nonempty
    obtain ⟨front, rewrites, listenersSet, frontUnmanaged, again, first⟩ :=
      rewriteListeners_set managed nonempty unmanaged roomFor clean tls
    refine exactFile_of_front writable.short basednSet listenersSet frontUnmanaged rewrites ?_ again
    by_cases unset : c.baseDn.str.length = 0
    · exact basednStage_unset unset
    · have ended : ∀ head value, ValueAt (operatorPart (current.getD [])) head value →
            34 ∈ value := by
        intro head value valueAt
        by_contra never
        exact closed ⟨unset, managed, head, value, valueAt, never⟩
      have baseIs := basednSet.baseIs unset ended
      unfold BaseIs at baseIs
      rw [← first] at baseIs
      rw [basednStage_given unset, rewriteBasedn_of_baseIs baseIs]
  · have idle : c.listenersManaged = false ∨
        basednStage c (operatorPart (current.getD [])) = [] := by
      rcases Bool.eq_false_or_eq_true c.listenersManaged with managed | off
      · exact Or.inr (by_contra fun nonempty => work ⟨managed, nonempty⟩)
      · exact Or.inl off
    have same : rewriteListeners c (basednStage c (operatorPart (current.getD []))) =
          some (basednStage c (operatorPart (current.getD []))) :=
      if_pos idle
    exact exactFile_of_front writable.short basednSet (.unmanaged idle rfl)
      unmanaged same basednSet.again same

/-- The file is written exactly where it is writable; the one case that stays
open is an operator's part whose base DN is never closed. -/
theorem exactFile_iff (c : Configuration) (d : Directory) (current : Option (List UInt8)) :
    (ExactFile c d current → Writable c d current) ∧
      (Writable c d current ∧ ¬NeverClosed c current → ExactFile c d current) :=
  ⟨writable_of_exactFile, fun ⟨writable, closed⟩ =>
    exactFile_of_writable writable closed⟩

end Whole

def emptyDirectory : Directory where
  users := Slots.empty 256
  groups := Slots.empty 64
  usersFile := none
  groupsFile := none

/-- The base DN `a"b`. -/
def quotedBase : Configuration where
  baseDn := ⟨⟨[97, 34, 98], by decide⟩, by decide⟩
  listenersManaged := false
  serverPlaintext := false
  serverPlaintextPort := 3893
  serverTls := false
  serverTlsPort := 3894

/-- `baseDN = "` and the value up to the end. -/
def baseFile (value : List UInt8) : List UInt8 :=
  [98, 97, 115, 101, 68, 78, 32, 61, 32, 34] ++ value

/-- A base DN with a quote in it is not written as one value: each time the
file is written, what is behind the quote is left and written once more. -/
theorem quoted_base_grows : ldapWriteConfigFile quotedBase emptyDirectory
        (some (baseFile [120, 34])) = .ok (baseFile [97, 34, 98, 34]) ∧
      ldapWriteConfigFile quotedBase emptyDirectory (some (baseFile [97, 34, 98, 34])) =
          .ok (baseFile [97, 34, 98, 34, 98, 34]) ∧
      ¬ExactFile quotedBase emptyDirectory (some (baseFile [120, 34])) := by
  have nothing : rendering emptyDirectory = [] := by
    simp [rendering, pieces, emptyDirectory, Slots.entries_empty]
  refine ⟨?_, ?_, fun exact => ?_⟩
  · refine ldapWriteConfigFile_eq_ok.mpr ⟨by rw [nothing]; decide,
      baseFile [97, 34, 98, 34], by decide +kernel, ?_⟩
    rw [nothing, append_nil]
  · refine ldapWriteConfigFile_eq_ok.mpr ⟨by rw [nothing]; decide,
      baseFile [97, 34, 98, 34, 98, 34], by decide +kernel, ?_⟩
    rw [nothing, append_nil]
  · have valueAt : ValueAt (operatorPart (baseFile [120, 34]))
        (baseFile []) ([120] ++ 34 :: []) := by
      refine ⟨[], baseFile [], rfl, by decide +kernel,
        ⟨[], [32], [32], by decide +kernel, rfl⟩, Or.inl rfl, ?_⟩
      exact fun line mem => absurd mem not_mem_nil
    have oneValue := (writable_of_exactFile exact).base (by decide) _ _ _ valueAt (by decide)
    exact oneValue.2.1 (by decide)

end Cix.Ldap
