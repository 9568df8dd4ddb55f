import Cix.Log.Heads

/-!
# Summaries are exact

A summary is written in two places: by a read that comes to the first byte of
a segment, and by the rotation that closes a segment this process has written
from its first byte to its last.  Both count every line of the segment that
`json_parse` accepts.
-/

namespace Cix.Log

open Cix.Lib Cix.Json Option
open List hiding asString

structure Summarises (bytes : List UInt8) (s : Summary) : Prop where
  dated : s.Dated
  covers : ∀ line ∈ lines 10 bytes, ∀ f, parseLine line = some f → Covers s f

theorem digitsValue_lt (digits : List UInt8) (allDigits : ∀ c ∈ digits, isDigit c = true) :
    digitsValue digits < 10 ^ digits.length := by
  induction digits using List.reverseRecOn with
  | nil => decide
  | append_singleton digits c ih =>
    have isDigitC := allDigits c (mem_append_right _ (mem_singleton_self c))
    have small : c.toNat - 48 < 10 := by
      simp only [isDigit, Bool.and_eq_true, decide_eq_true_eq] at isDigitC
      have upper : c.toNat ≤ 57 := isDigitC.2
      omega
    have before := ih fun d mem =>
      allDigits d (mem_append_left _ mem)
    have value : digitsValue (digits ++ [c]) = digitsValue digits * 10 + (c.toNat - 48) := by
      simp [digitsValue]
    rw [value, length_append, length_singleton, Nat.pow_succ]
    omega

theorem inRange_of_lineHead {line : List UInt8} {h : Head}
    (read : lineHead line = some h) : 0 < h.ts → InRange h.ts.toNat := by
  intro positive
  obtain ⟨input, minus, body, _, _, short, _, names⟩ := eq_of_lineHead read
  obtain ⟨stamp, _⟩ := eq_of_headNames names
  have value := digitsValue_lt (body.takeWhile isDigit) fun c mem => mem_takeWhile_imp mem
  have bound : 10 ^ (body.takeWhile isDigit).length ≤ 10 ^ 18 :=
    Nat.pow_le_pow_right (by decide) (by omega)
  apply inRange_of_le
  cases negative : minus.isSome with
  | true =>
    rw [negative, if_pos rfl] at stamp
    omega
  | false =>
    rw [negative, if_neg Bool.false_ne_true] at stamp
    omega

theorem ts_of_parseLine {line : List UInt8} {f : Fields} (parsed : parseLine line = some f) :
    ∃ v : Double, f.ts = v.toLongLong := by
  rw [parseLine, map_eq_some_iff] at parsed
  obtain ⟨root, _, fields⟩ := parsed
  exact ⟨_, by rw [← fields]; rfl⟩

theorem denotes_map_bytes (field : Option CStr) : Denotes (field.map CStr.bytes) field := by
  intro name present
  exact ⟨name.bytes, by rw [present]; rfl, CStr.ofBytes_bytes name⟩

theorem denotes_span {field : Option CStr} {span : List UInt8}
    (isSpan : field = some (CStr.ofBytes span)) :
    Denotes (some span) field := by
  intro name present
  rw [isSpan] at present
  exact ⟨span, rfl, some.inj present⟩

@[simp]
theorem building_take (s : Scan) (found : Option TailEntry) :
    (s.take found).building = s.building := by
  cases found <;> rfl

theorem building_visitLine (filters : Filters) (re : Option (CStr → Bool))
    (prefilter : Bool) {s : Scan} {sum : Summary} (line : List UInt8)
    (building : s.building = some sum) (dated : sum.Dated) :
    ∃ next, (visitLine filters re prefilter s line).building = some next ∧
      next.Dated ∧ (∀ f, Covers sum f → Covers next f) ∧
      ∀ f, parseLine line = some f → Covers next f := by
  unfold visitLine
  split
  next empty =>
    refine ⟨sum, building, dated, fun _ covers => covers, ?_⟩
    intro f parsed
    rw [empty] at parsed
    cases parsed
  split
  next h isHead =>
    have read : lineHead line = some h := by
      cases prefilter with
      | true => exact isHead
      | false => cases isHead
    have counted : (s.count h.ts (some h.source) (some h.level)
        (some h.container)).building = some (sumAdd h.ts (some h.source) (some h.level)
            (some h.container) sum) := by
      rw [Scan.count, building]
      rfl
    refine ⟨sumAdd h.ts (some h.source) (some h.level) (some h.container)
      sum, ?_, dated.sumAdd (inRange_of_lineHead read) _ _ _,
      fun f covers => covers.sumAdd _ _ _ _, ?_⟩
    · split
      · rw [building_take]
        exact counted
      · exact counted
    · intro f parsed
      obtain ⟨ts, source, level, container⟩ := fields_of_lineHead read parsed
      apply covers_sumAdd dated.1 _ (denotes_span source)
        (denotes_span level) (denotes_span container)
      intro positive
      rw [ts] at positive ⊢
      exact ⟨positive_of_readBack positive, rfl⟩
  next =>
    split
    next unparsed =>
      refine ⟨sum, building, dated, fun _ covers => covers, ?_⟩
      intro f parsed
      rw [unparsed] at parsed
      cases parsed
    next f isParsed =>
      obtain ⟨v, isDouble⟩ := ts_of_parseLine isParsed
      have stamp : 0 < f.ts → InRange f.ts.toNat ∧ readBack f.ts = f.ts := by
        rw [isDouble]
        exact readBack_toLongLong
      refine ⟨sumAdd f.ts (f.source.map CStr.bytes)
        (f.level.map CStr.bytes) (f.container.map CStr.bytes) sum, ?_,
        dated.sumAdd (fun positive => (stamp positive).1) _ _ _,
        fun other covers => covers.sumAdd _ _ _ _, ?_⟩
      · rw [building_take, Scan.count, building]
        rfl
      · intro other parsed
        rw [isParsed] at parsed
        cases parsed
        apply covers_sumAdd dated.1 _ (denotes_map_bytes _)
          (denotes_map_bytes _) (denotes_map_bytes _)
        intro positive
        exact ⟨positive, (stamp positive).2.symm⟩

variable {re : Option (CStr → Bool)}

theorem building_walk {filters : Filters}
    {prefilter : Bool} {stop : Scan → Bool} (pieces : List (List UInt8))
    {s final : Scan} {sum : Summary} (building : s.building = some sum)
    (dated : sum.Dated)
    (reached : walk stop (visitLine filters re prefilter) pieces s = (true, final)) :
    ∃ made, final.building = some made ∧ made.Dated ∧ (∀ f, Covers sum f → Covers made f) ∧
      ∀ line ∈ pieces, ∀ f, parseLine line = some f → Covers made f := by
  induction pieces generalizing s sum with
  | nil =>
    rw [walk] at reached
    split at reached
    · cases reached
    · cases reached
      refine ⟨sum, building, dated, fun _ covers => covers, ?_⟩
      intro line mem
      cases mem
  | cons first rest ih =>
    rw [walk] at reached
    split at reached
    · cases reached
    · obtain ⟨next, isNext, nextDated, kept, added⟩ :=
        building_visitLine filters re prefilter first building dated
      obtain ⟨made, isMade, madeDated, keptLater, later⟩ := ih isNext nextDated reached
      refine ⟨made, isMade, madeDated, fun f covers => keptLater f (kept f covers), ?_⟩
      intro line mem f parsed
      cases mem with
      | head => exact keptLater f (added f parsed)
      | tail _ inRest => exact later line inRest f parsed

def ShortLines (bytes : List UInt8) : Prop :=
  ∀ line ∈ lines 10 bytes, line.length < tailLineMax

theorem scanSegment_eq_walk {filters : Filters}
    {prefilter : Bool} {bytes : List UInt8} (short : ShortLines bytes)
    (s : Scan) :
    scanSegment filters re prefilter bytes s =
      walk (fun s => decide (s.room = 0)) (visitLine filters re prefilter)
        ((placedLines 10 bytes).map
          (readBackwards tailBlock tailLineMax bytes.length)).reverse s :=
  backWalk_eq_walk (by decide) short s

/-- The summary counts every line that a read of the file comes to. -/
structure CountsRead (bytes : List UInt8) (s : Summary) : Prop where
  dated : s.Dated
  covers : ∀ line ∈ placedLines 10 bytes,
    givenUp tailBlock tailLineMax bytes.length line = false →
      ∀ f, parseLine line.2 = some f → Covers s f

theorem Summarises.countsRead {bytes : List UInt8} {s : Summary}
    (summarises : Summarises bytes s) : CountsRead bytes s := by
  refine ⟨summarises.dated, ?_⟩
  intro line mem _ f parsed
  apply summarises.covers line.2 _ f parsed
  rw [← map_placed 0 (lines 10 bytes)]
  exact mem_map_of_mem mem

theorem countsRead_of_read {filters : Filters}
    {prefilter : Bool} {bytes : List UInt8} (short : ShortLines bytes)
    {s final : Scan} {made : Summary}
    (building : s.building = some (sumReset true))
    (reached : scanSegment filters re prefilter bytes s = (true, final))
    (isMade : final.building = some made) : CountsRead bytes made := by
  rw [scanSegment_eq_walk short] at reached
  obtain ⟨sum, isSum, dated, _, covers⟩ :=
    building_walk _ building (dated_sumReset true) reached
  have same : sum = made := by
    rw [isMade] at isSum
    exact (some.inj isSum).symm
  rw [← same]
  refine ⟨dated, ?_⟩
  intro line mem kept f parsed
  have whole : readBackwards tailBlock tailLineMax bytes.length line = line.2 := by
    rw [readBackwards, kept]
    rfl
  apply covers line.2 _ f parsed
  rw [mem_reverse, ← whole]
  exact mem_map_of_mem mem

def entryMembers (e : Entry) : List (CStr × Doc) :=
  [("ts", .int (Double.Whole.ofInt e.ts)), ("source", .str e.source.str),
    ("level", .str e.level.str),
    ("container", .str e.container.str),
    ("msg", .str e.msg)]

def Entry.Timely (e : Entry) : Prop :=
  e.ts.natAbs ≤ 2 ^ 53

theorem entryText_eq {e : Entry} (timely : e.Timely) :
    entryText e = (Doc.obj (entryMembers e)).text := by
  have ts := (emits_int timely).member "ts"
  have source := (emits_str e.source.str).member "source"
  have level := (emits_str e.level.str).member "level"
  have container := (emits_str e.container.str).member "container"
  have msg := (emits_str e.msg).member "msg"
  have emitted := FillsObj.emits ((((ts.comp source).comp level).comp container).comp msg)
  simp only [cons_append, nil_append] at emitted
  exact emitted.buf_jwInit

def Entry.fields (e : Entry) : Fields where
  ts := e.ts
  source := some e.source.str
  level := some e.level.str
  container := some e.container.str
  msg := some e.msg

theorem parseLine_entryText {e : Entry} (timely : e.Timely) :
    parseLine (entryText e) = some e.fields := by
  have distinct : ((entryMembers e).map Prod.fst).Nodup := by
    simp only [entryMembers, map_cons, map_nil]
    decide
  have ts : objectGet (some (Doc.obj (entryMembers e)).value) "ts" =
      some (Doc.int (Double.Whole.ofInt e.ts)).value :=
    objectGet_member distinct (by simp [entryMembers])
  have source : objectGet (some (Doc.obj (entryMembers e)).value) "source" =
      some (Doc.str e.source.str).value :=
    objectGet_member distinct (by simp [entryMembers])
  have level : objectGet (some (Doc.obj (entryMembers e)).value) "level" =
      some (Doc.str e.level.str).value :=
    objectGet_member distinct (by simp [entryMembers])
  have container : objectGet (some (Doc.obj (entryMembers e)).value) "container" =
        some (Doc.str e.container.str).value :=
    objectGet_member distinct (by simp [entryMembers])
  have msg : objectGet (some (Doc.obj (entryMembers e)).value) "msg" = some (Doc.str e.msg).value :=
    objectGet_member distinct (by simp [entryMembers])
  have stamp : (Double.ofWhole (Double.Whole.ofInt e.ts)).toLongLong =
      e.ts := by
    rw [Double.toLongLong_ofWhole]
    exact Double.Whole.ofInt_value timely
  rw [parseLine, entryText_eq timely, jsonParse_text, map_some,
    fieldsOf, ts, source, level, container, msg]
  simp only [Doc.value, asNumber, asString, stamp]
  rfl

theorem readBack_of_small {n : Int} (small : n.natAbs ≤ 2 ^ 53) : readBack n = n := by
  have decimal := Double.ofDecimal_natAbs ⟨n, small⟩
  rw [readBack_def, decimal]
  exact Double.toLongLong_ofWhole ⟨n, small⟩

theorem newline_notMem_escapedString (s : CStr) : 10 ∉ escapedString s := by
  have bytes : ∀ c : UInt8, 10 ∉ escapeByte c := by
    intro c
    unfold escapeByte
    split_ifs with _ _ newline _ _ _ _ control
    any_goals decide
    · have high : ∀ n, n < 16 → hexDigit n ≠ 10 := by decide
      have code := c.toNat_lt
      simp only [mem_cons, not_mem_nil, or_false, not_or]
      refine ⟨by decide, by decide, by decide, by decide, ?_, ?_⟩
      · exact Ne.symm (high _ (by omega))
      · exact Ne.symm (high _ (by omega))
    · simpa using Ne.symm newline
  have content : 10 ∉ escapeContent s.bytes := by
    intro mem
    obtain ⟨c, _, inside⟩ := mem_flatMap.mp mem
    exact bytes c inside
  simp [escapedString, content]

theorem newline_notMem_entryText {e : Entry} (timely : e.Timely) : 10 ∉ entryText e := by
  rw [entryText_eq timely]
  simp [Doc.text, entryMembers, Doc.memberTexts, separated, newline_notMem_escapedString,
    @not_mem_intText 10 _ (by decide) (by decide)]

/-- The segment that is written to: its file, and what the process keeps about
it (`g_current_size` and `g_cur_sum`). -/
structure OpenSegment where
  bytes : List UInt8
  size : Nat
  sum : Summary

def OpenSegment.opened (old : List UInt8) : OpenSegment :=
  ⟨old, 0, sumReset true⟩

def OpenSegment.resumed (old : List UInt8) : OpenSegment :=
  ⟨old, old.length, sumReset (decide (old.length = 0))⟩

/-- What reaches the file: an entry of this process, part of one, or lines of a
child that has the segment open. -/
inductive Append where
  | entry (e : Entry) (timely : e.Timely)
  | torn (bytes : List UInt8)
  | foreign (bytes : List UInt8)

def OpenSegment.step (o : OpenSegment) : Append → OpenSegment
  | .entry e _ =>
    { bytes := o.bytes ++ entryLine e
      size := o.size + (entryLine e).length
      sum := sumAdd e.ts (some e.source.str.bytes) (some e.level.str.bytes)
        (some e.container.str.bytes) o.sum }
  | .torn bytes =>
    { o with
      bytes := o.bytes ++ bytes
      sum := { o.sum with complete := false } }
  | .foreign bytes => { o with bytes := o.bytes ++ bytes }

/-- A complete summary counts all of a file that is as long as the process thinks,
and no file is shorter. -/
structure OpenSegment.Kept (o : OpenSegment) : Prop where
  dated : o.sum.Dated
  longer : o.sum.complete = true → o.size ≤ o.bytes.length
  counted : o.sum.complete = true → o.bytes.length = o.size →
    (o.bytes = [] ∨ ∃ front, o.bytes = front ++ [10]) ∧ Summarises o.bytes o.sum

theorem summarises_nil (complete : Bool) : Summarises [] (sumReset complete) := by
  refine ⟨dated_sumReset complete, ?_⟩
  intro line mem
  cases mem

theorem OpenSegment.kept_opened (old : List UInt8) : (opened old).Kept := by
  refine ⟨dated_sumReset true, fun _ => Nat.zero_le _, ?_⟩
  intro _ same
  have empty : old = [] := length_eq_zero_iff.mp same
  rw [empty]
  exact ⟨Or.inl rfl, summarises_nil true⟩

theorem OpenSegment.kept_resumed (old : List UInt8) : (resumed old).Kept := by
  refine ⟨dated_sumReset _, fun _ => Nat.le_refl _, ?_⟩
  intro complete _
  have empty : old = [] := length_eq_zero_iff.mp (of_decide_eq_true complete)
  rw [empty]
  exact ⟨Or.inl rfl, summarises_nil true⟩

theorem summarises_entry {bytes : List UInt8} {sum : Summary} {e : Entry} (timely : e.Timely)
    (begins : bytes = [] ∨ ∃ front, bytes = front ++ [10])
    (summarises : Summarises bytes sum) :
    Summarises (bytes ++ entryLine e)
      (sumAdd e.ts (some e.source.str.bytes) (some e.level.str.bytes)
        (some e.container.str.bytes) sum) := by
  have whole : readBack e.ts = e.ts := readBack_of_small timely
  have stamp : 0 < e.ts → InRange e.ts.toNat := by
    intro _
    apply inRange_of_le
    have small : e.ts.natAbs ≤ 2 ^ 53 := timely
    omega
  refine ⟨summarises.dated.sumAdd stamp _ _ _, ?_⟩
  intro line mem f parsed
  rw [entryLine, lines_append_line begins (newline_notMem_entryText timely) (Or.inl rfl)] at mem
  rcases mem_append.mp mem with before | last
  · exact (summarises.covers line before f parsed).sumAdd _ _ _ _
  · rw [mem_singleton.mp last, parseLine_entryText timely] at parsed
    cases parsed
    apply covers_sumAdd summarises.dated.1
    · intro positive
      exact ⟨positive, whole.symm⟩
    · exact denotes_map_bytes (some e.source.str)
    · exact denotes_map_bytes (some e.level.str)
    · exact denotes_map_bytes (some e.container.str)

theorem OpenSegment.Kept.step {o : OpenSegment} (kept : o.Kept)
    (append : Append) : (o.step append).Kept := by
  cases append with
  | entry e timely =>
    have stamp : 0 < e.ts → InRange e.ts.toNat := by
      intro _
      apply inRange_of_le
      have small : e.ts.natAbs ≤ 2 ^ 53 := timely
      omega
    have sizes : (o.bytes ++ entryLine e).length =
        o.bytes.length + (entryLine e).length := length_append
    refine ⟨kept.dated.sumAdd stamp _ _ _, ?_, ?_⟩
    · intro complete
      have before := kept.longer complete
      show o.size + (entryLine e).length ≤ (o.bytes ++ entryLine e).length
      omega
    · intro complete same
      have before : o.bytes.length = o.size := by
        have both : (o.bytes ++ entryLine e).length = o.size + (entryLine e).length := same
        omega
      obtain ⟨begins, summarises⟩ := kept.counted complete before
      refine ⟨Or.inr ⟨o.bytes ++ entryText e, ?_⟩, summarises_entry timely begins summarises⟩
      exact (append_assoc o.bytes (entryText e) [10]).symm
  | torn bytes =>
    refine ⟨kept.dated, ?_, ?_⟩
    · intro complete
      cases complete
    · intro complete
      cases complete
  | foreign bytes =>
    have sizes : (o.bytes ++ bytes).length = o.bytes.length + bytes.length := length_append
    refine ⟨kept.dated, ?_, ?_⟩
    · intro complete
      have before := kept.longer complete
      show o.size ≤ (o.bytes ++ bytes).length
      omega
    · intro complete same
      have before := kept.longer complete
      have both : (o.bytes ++ bytes).length = o.size := same
      have none : bytes = [] := length_eq_zero_iff.mp (by omega)
      have unchanged : o.step (.foreign bytes) = o := by rw [none, OpenSegment.step, append_nil]
      rw [unchanged]
      exact kept.counted complete (by omega)

theorem summarises_of_rotation {start : OpenSegment} (kept : start.Kept) (appends : List Append)
    (complete : (run OpenSegment.step start appends).sum.complete = true)
    (same : (run OpenSegment.step start appends).bytes.length =
      (run OpenSegment.step start appends).size) :
    Summarises (run OpenSegment.step start appends).bytes
      (run OpenSegment.step start appends).sum := by
  have final := run_invariant_of_step OpenSegment.Kept
    (fun o append kept => kept.step append) kept appends
  exact (final.counted complete same).2

end Cix.Log
