import Cix.Log.Segments

/-!
# No accepted entry is lost

A segment is unlinked when it is evicted, and when a new segment takes its
number.  The second happens only when the counter has gone back: a rotation
whose `save_state` fails keeps the number it took, the next write resumes the
segment of that number, and a restart then reads the older counter.  In every
run whose restarts find the counter past every segment on disk, each line that
was appended stays in the segment it was appended to, until that segment is
evicted.
-/

namespace Cix.Log

open Cix.Lib Cix.Json
open List hiding asString

def Kept (s : Store) : Prop :=
  ∀ line ∈ s.owed, ∃ segment ∈ s.segments, segment.seq = line.1 ∧ line.2 <:+: segment.bytes

def savedSeq (s : Store) : Nat :=
  match s.stateFile with
  | none => 1
  | some text =>
    match objectGet (jsonParse text) "next_seq" with
    | some found => (asNumber (some found)).truncate.toNat
    | none => 1

def newestSegment (s : Store) : Nat :=
  s.numbers.foldr max 0

def CounterAhead (s : Store) : Event → Prop
  | .restart => newestSegment s < savedSeq s
  | _ => True

structure Numbered (s : Store) : Prop where
  positive : 0 < s.nextSeq
  below : ∀ seq ∈ s.numbers, seq < s.nextSeq
  distinct : s.numbers.Nodup
  newest : ∀ seq, s.current = some seq → seq + 1 = s.nextSeq ∧ seq ∈ s.numbers

structure Sound (s : Store) : Prop where
  numbered : Numbered s
  kept : Kept s

variable {s : Store}

theorem le_newestSegment {s : Store} {seq : Nat} (there : seq ∈ s.numbers) :
    seq ≤ newestSegment s := by
  unfold newestSegment
  generalize s.numbers = numbers at there ⊢
  induction numbers with
  | nil => cases there
  | cons first rest ih =>
    cases there with
    | head => exact Nat.le_max_left _ _
    | tail _ later => exact Nat.le_trans (ih later) (Nat.le_max_right _ _)

theorem loadMembers_nextSeq (root : Value) (s : Store) : (loadMembers root s).nextSeq =
      match objectGet (some root) "next_seq" with
      | some found => (asNumber (some found)).truncate.toNat
      | none => s.nextSeq := by
  unfold loadMembers
  cases objectGet (some root) "next_seq" with
  | some found => rfl
  | none =>
    cases objectGet (some root) "max_bytes" <;>
      cases asString (objectGet (some root) "min_level") <;> rfl

theorem loadMembers_frame (root : Value) (s : Store) :
    (loadMembers root s).segments = s.segments ∧ (loadMembers root s).current = s.current ∧
      (loadMembers root s).owed = s.owed := by
  unfold loadMembers
  cases objectGet (some root) "max_bytes" <;>
    cases asString (objectGet (some root) "min_level") <;>
    cases objectGet (some root) "next_seq" <;> exact ⟨rfl, rfl, rfl⟩

theorem restart_nextSeq (s : Store) : (restart s).nextSeq = savedSeq s := by
  unfold restart loadState savedSeq
  cases file : s.stateFile with
  | none => simp [Store.freshMemory, file]
  | some text =>
    cases parsed : jsonParse text with
    | none => simp [Store.freshMemory, file, parsed, objectGet]
    | some root =>
      have fresh : s.freshMemory.stateFile = some text := file
      simp only [fresh, parsed, Option.map_some, loadMembers_nextSeq]
      rfl

theorem restart_frame (s : Store) : (restart s).segments = s.segments ∧ (restart s).current = none ∧
      (restart s).owed = s.owed := by
  unfold restart loadState
  cases file : s.freshMemory.stateFile with
  | none => exact ⟨rfl, rfl, rfl⟩
  | some text =>
    cases parsed : jsonParse text with
    | none =>
      simp only [parsed, Option.map_none]
      exact ⟨rfl, rfl, rfl⟩
    | some root =>
      simp only [parsed, Option.map_some]
      exact loadMembers_frame root s.freshMemory

theorem Sound.restart (sound : Sound s) (ahead : newestSegment s < savedSeq s) :
    Sound (Log.restart s) := by
  obtain ⟨segments, current, owed⟩ := restart_frame s
  have numbers : (Log.restart s).numbers = s.numbers := by
    rw [Store.numbers, segments, Store.numbers]
  constructor
  · constructor
    · rw [restart_nextSeq]
      omega
    · intro seq there
      rw [numbers] at there
      rw [restart_nextSeq]
      have bound := le_newestSegment there
      omega
    · rw [numbers]
      exact sound.numbered.distinct
    · intro seq opened
      rw [current] at opened
      cases opened
  · intro line owing
    rw [owed] at owing
    rw [segments]
    exact sound.kept line owing

variable {seq : Nat}

theorem mem_numbers : seq ∈ s.numbers ↔ ∃ segment ∈ s.segments, segment.seq = seq := by
  simp [Store.numbers]

theorem numbers_touch (seq : Nat) (s : Store) : (touch seq s).numbers =
      if seq ∈ s.numbers then s.numbers else s.numbers ++ [seq] := by
  unfold touch
  split
  · rfl
  · simp [Store.numbers]

theorem mem_numbers_touch {other : Nat} :
    other ∈ (touch seq s).numbers ↔ other = seq ∨ other ∈ s.numbers := by
  rw [numbers_touch]
  split
  next there =>
    constructor
    · exact Or.inr
    · intro either
      rcases either with same | already
      · rwa [same]
      · exact already
  next missing =>
    rw [mem_append, mem_singleton]
    exact Or.comm

theorem nodup_touch (distinct : s.numbers.Nodup) : (touch seq s).numbers.Nodup := by
  rw [numbers_touch]
  split
  next there => exact distinct
  next missing => exact nodup_append_comm.mp (nodup_cons.mpr ⟨missing, distinct⟩)

theorem mem_segments_touch {segment : Segment} (there : segment ∈ s.segments) :
    segment ∈ (touch seq s).segments := by
  unfold touch
  split
  · exact there
  · exact mem_append_left _ there

theorem touch_frame (seq : Nat) (s : Store) :
    (touch seq s).nextSeq = s.nextSeq ∧ (touch seq s).owed = s.owed := by
  unfold touch
  split <;> exact ⟨rfl, rfl⟩

theorem Kept.touch {seq : Nat} {s : Store} (kept : Kept s) : Kept (touch seq s) := by
  intro line owing
  rw [(touch_frame seq s).2] at owing
  obtain ⟨segment, there, same, inside⟩ := kept line owing
  exact ⟨segment, mem_segments_touch there, same, inside⟩

theorem unlink_missing {stuck : List Nat} (missing : seq ∉ s.numbers) :
    unlink stuck [seq] s = s := by
  have all : s.segments.filter (fun segment =>
      !decide (segment.seq ∈ [seq]) || decide (segment.seq ∈ stuck)) =
        s.segments := by
    rw [filter_eq_self]
    intro segment there
    have other : segment.seq ≠ seq := by
      intro same
      exact missing (mem_numbers.mpr ⟨segment, there, same⟩)
    simp [other]
  rw [unlink, all]

theorem sublist_numbers_unlink (stuck victims : List Nat) (s : Store) :
    (unlink stuck victims s).numbers.Sublist s.numbers :=
  filter_sublist.map Segment.seq

variable {replies : Replies}

theorem segmentSeqList_perm (order : List Nat) (cap : Nat) (s : Store) :
    (segmentSeqList order cap s).Perm ((readdir order s.numbers).take cap) :=
  perm_insertionSort _ _

theorem segmentSeqList_sorted (order : List Nat) (cap : Nat) (s : Store) :
    (segmentSeqList order cap s).Pairwise (· ≤ ·) :=
  pairwise_insertionSort _ _

theorem mem_numbers_of_segmentSeqList {order : List Nat} {cap : Nat}
    (listed : seq ∈ segmentSeqList order cap s) : seq ∈ s.numbers := by
  have taken := (segmentSeqList_perm order cap s).mem_iff.mp listed
  exact (readdir_perm order s.numbers).mem_iff.mp (mem_of_mem_take taken)

theorem nodup_segmentSeqList {order : List Nat} {cap : Nat}
    (distinct : s.numbers.Nodup) : (segmentSeqList order cap s).Nodup := by
  have listed := (readdir_perm order s.numbers).nodup_iff.mpr distinct
  exact (segmentSeqList_perm order cap s).nodup_iff.mpr (listed.sublist (take_sublist cap _))

theorem newest_not_evicted {order : List Nat} {newest : Nat}
    (distinct : s.numbers.Nodup) (greatest : ∀ seq ∈ s.numbers, seq ≤ newest) :
    newest ∉ evictedSegments order s := by
  intro evicted
  have sorted := segmentSeqList_sorted order (segmentCount + 4) s
  have separate : (segmentSeqList order (segmentCount + 4) s).Nodup :=
    nodup_segmentSeqList distinct
  have listed := fun (seq : Nat) (mem : seq ∈ segmentSeqList order (segmentCount + 4) s) =>
    greatest seq (mem_numbers_of_segmentSeqList mem)
  simp only [evictedSegments] at evicted
  generalize segmentSeqList order (segmentCount + 4) s = seqs at *
  have more : segmentCount < seqs.length := by
    by_contra few
    have none : seqs.length - segmentCount = 0 := by omega
    simp [none] at evicted
  rw [← take_append_drop (seqs.length - segmentCount) seqs] at sorted separate
  have nonempty : seqs.drop (seqs.length - segmentCount) ≠ [] := by
    rw [Ne, drop_eq_nil_iff]
    have kept : 0 < segmentCount := by decide
    omega
  obtain ⟨later, isLater⟩ := exists_mem_of_ne_nil _ nonempty
  have newer : newest ≤ later := (pairwise_append.mp sorted).2.2 newest evicted later isLater
  have older : later ≤ newest := listed later (mem_of_mem_drop isLater)
  have same : newest = later := Nat.le_antisymm newer older
  have apart := (nodup_append.mp separate).2.2 newest evicted later isLater
  exact apart same

theorem Kept.evictOldSegments {replies : Replies} {s : Store} (kept : Kept s) :
    Kept (evictOldSegments replies s) := by
  intro line owing
  have both := mem_filter.mp owing
  obtain ⟨segment, there, same, inside⟩ := kept line both.1
  refine ⟨segment, ?_, same, inside⟩
  refine mem_filter.mpr ⟨there, ?_⟩
  rw [same]
  exact both.2

theorem mem_numbers_evictOldSegments (there : seq ∈ s.numbers)
    (spared : seq ∉ evictedSegments replies.order s) :
    seq ∈ (evictOldSegments replies s).numbers := by
  obtain ⟨segment, found, same⟩ := mem_numbers.mp there
  refine mem_numbers.mpr ⟨segment, ?_, same⟩
  refine mem_filter.mpr ⟨found, ?_⟩
  rw [same]
  simp [spared]

theorem Sound.evictOldSegments {replies : Replies} {s : Store}
    (sound : Sound s) {newest : Nat} (opened : s.current = some newest) :
    Sound (evictOldSegments replies s) := by
  have smaller : (Log.evictOldSegments replies s).numbers.Sublist s.numbers :=
    sublist_numbers_unlink replies.stuck _ s
  obtain ⟨last, there⟩ := sound.numbered.newest newest opened
  constructor
  · constructor
    · exact sound.numbered.positive
    · intro seq listed
      exact sound.numbered.below seq (smaller.subset listed)
    · exact sound.numbered.distinct.sublist smaller
    · intro seq isCurrent
      have same : newest = seq := by
        have both : s.current = some seq := isCurrent
        rw [opened] at both
        exact Option.some.inj both
      rw [← same]
      refine ⟨last, mem_numbers_evictOldSegments there ?_⟩
      apply newest_not_evicted sound.numbered.distinct
      intro other listed
      have bound := sound.numbered.below other listed
      omega
  · exact sound.kept.evictOldSegments

theorem Sound.opened (sound : Sound s) {size : Nat} (last : seq + 1 = s.nextSeq) :
    Sound { touch seq s with current := some seq, currentSize := size } := by
  have frame := touch_frame seq s
  constructor
  · constructor
    · show 0 < (touch seq s).nextSeq
      rw [frame.1]
      exact sound.numbered.positive
    · intro other listed
      show other < (touch seq s).nextSeq
      rw [frame.1]
      rcases mem_numbers_touch.mp listed with same | already
      · omega
      · exact sound.numbered.below other already
    · exact nodup_touch sound.numbered.distinct
    · intro other isCurrent
      cases isCurrent
      refine ⟨?_, mem_numbers_touch.mpr (Or.inl rfl)⟩
      show seq + 1 = (touch seq s).nextSeq
      rw [frame.1]
      exact last
  · exact sound.kept.touch

theorem Sound.counted {s : Store} (sound : Sound s) (closed : s.current = none) (saves : Bool) :
    Sound (saveState saves { s with nextSeq := s.nextSeq + 1 }) := by
  have counted : Sound { s with nextSeq := s.nextSeq + 1 } := by
    constructor
    · constructor
      · exact Nat.succ_pos _
      · intro seq listed
        exact Nat.lt_succ_of_lt (sound.numbered.below seq listed)
      · exact sound.numbered.distinct
      · intro seq isCurrent
        have both : s.current = some seq := isCurrent
        rw [closed] at both
        cases both
    · exact sound.kept
  unfold saveState
  split
  · exact ⟨⟨counted.numbered.positive, counted.numbered.below,
      counted.numbered.distinct, counted.numbered.newest⟩, counted.kept⟩
  · exact counted

theorem Sound.newSegment (sound : Sound s) (closed : s.current = none) :
    Sound (Log.newSegment replies s).2 := by
  have counted := sound.counted closed replies.saves
  unfold Log.newSegment
  by_cases saved : replies.saves = true
  · have missing : s.nextSeq ∉
        (saveState replies.saves { s with nextSeq := s.nextSeq + 1 }).numbers := by
      intro there
      rw [saveState, if_pos saved] at there
      exact Nat.lt_irrefl _ (sound.numbered.below s.nextSeq there)
    simp only [saved, if_true] at missing counted ⊢
    rw [unlink_missing missing]
    split
    · have opened : Sound { touch s.nextSeq _ with
          current := some s.nextSeq, currentSize := 0 } := counted.opened rfl
      exact opened.evictOldSegments rfl
    · exact counted
  · simp only [saved, if_false, Bool.false_eq_true] at counted ⊢
    exact counted

theorem Sound.resumeSegment (sound : Sound s) : Sound (Log.resumeSegment replies s).2 := by
  unfold Log.resumeSegment
  split
  · apply sound.opened
    have positive := sound.numbered.positive
    omega
  · exact sound

theorem Sound.closed (sound : Sound s) : Sound { s with current := none } := by
  constructor
  · exact ⟨sound.numbered.positive, sound.numbered.below,
      sound.numbered.distinct, fun seq impossible => by cases impossible⟩
  · exact sound.kept

theorem Sound.ensureCurrentSegmentOpen (sound : Sound s) :
    Sound (Log.ensureCurrentSegmentOpen replies s).2 := by
  unfold Log.ensureCurrentSegmentOpen
  split
  next closed =>
    split
    · exact sound.newSegment closed
    · exact sound.resumeSegment
  next =>
    split
    · exact sound.closed.newSegment rfl
    · exact sound

theorem numbers_append (seq : Nat) (bytes : List UInt8) (s : Store) :
    (append seq bytes s).numbers = s.numbers := by
  simp only [append, Store.numbers, map_map]
  apply map_congr_left
  intro segment _
  simp only [Function.comp_apply]
  split <;> rfl

theorem mem_segments_append (seq : Nat) (bytes : List UInt8) {segment : Segment}
    (there : segment ∈ s.segments) :
    ∃ grown ∈ (append seq bytes s).segments, grown.seq = segment.seq ∧ grown.bytes =
        segment.bytes ++ (if segment.seq = seq then bytes else []) := by
  refine ⟨_, mem_map_of_mem there, ?_, ?_⟩
  · split <;> rfl
  · split
    · rfl
    · exact (append_nil _).symm

theorem Kept.append {seq : Nat} {bytes : List UInt8} {s : Store}
    (kept : Kept s) : Kept (append seq bytes s) := by
  intro line owing
  obtain ⟨segment, there, same, inside⟩ := kept line owing
  obtain ⟨grown, found, number, content⟩ := mem_segments_append seq bytes there
  refine ⟨grown, found, number.trans same, ?_⟩
  rw [content]
  exact inside.trans (prefix_append _ _).isInfix

theorem Sound.appendLine {line : List UInt8} (sound : Sound s) (opened : s.current = some seq) :
    Sound (Log.appendLine replies seq line s) := by
  have numbered : ∀ bytes, Numbered (Log.append seq bytes s) := by
    intro bytes
    have numbers := numbers_append seq bytes s
    constructor
    · exact sound.numbered.positive
    · rw [numbers]
      exact sound.numbered.below
    · rw [numbers]
      exact sound.numbered.distinct
    · rw [numbers]
      exact sound.numbered.newest
  unfold Log.appendLine
  split
  · constructor
    · have all := numbered (replies.torn ++ line)
      exact ⟨all.positive, all.below, all.distinct, all.newest⟩
    · intro owing mem
      rcases mem_append.mp mem with before | now
      · exact sound.kept.append owing before
      · rw [mem_singleton] at now
        obtain ⟨segment, there, same⟩ := mem_numbers.mp (sound.numbered.newest seq opened).2
        obtain ⟨grown, found, number, content⟩ :=
          mem_segments_append seq (replies.torn ++ line) there
        rw [if_pos same] at content
        rw [now]
        refine ⟨grown, found, number.trans same, ?_⟩
        rw [content, ← append_assoc]
        exact (suffix_append _ _).isInfix
  · exact ⟨numbered replies.torn, sound.kept.append⟩

theorem Sound.writeEntry {request : Request} {now : Int} (sound : Sound s) :
    Sound (Log.writeEntry replies request now s) := by
  have opened : Sound (Log.ensureCurrentSegmentOpen replies s).2 :=
    sound.ensureCurrentSegmentOpen
  simp only [Log.writeEntry]
  generalize Log.ensureCurrentSegmentOpen replies s = outcome at opened ⊢
  split
  next => exact sound
  next =>
    split
    next => exact sound
    next =>
      split
      next seq _ isCurrent => exact opened.appendLine isCurrent
      next => exact opened

theorem Sound.settings (sound : Sound s) (saves : Bool) (maxBytes : Int)
    (minLevel : BoundedStr 16) :
    Sound (saveState saves
      { s with maxBytes := maxBytes, minLevel := minLevel }) := by
  unfold saveState
  split <;> exact ⟨⟨sound.numbered.positive, sound.numbered.below,
    sound.numbered.distinct, sound.numbered.newest⟩, sound.kept⟩

theorem sound_step (s : Store) (event : Event) (sound : Sound s)
    (ahead : CounterAhead s event) : Sound (step s event) := by
  cases event with
  | write replies request now => exact sound.writeEntry
  | maxBytes saves bytes =>
    show Sound (setMaxBytes saves bytes s)
    unfold setMaxBytes
    split
    · exact sound
    · split
      · exact sound.settings saves bytes s.minLevel
      · exact sound
  | minLevel saves level =>
    show Sound (setMinLevel saves level s)
    unfold setMinLevel
    split
    · exact sound
    · split
      · exact sound.settings saves s.maxBytes _
      · exact sound
  | restart => exact sound.restart ahead

theorem sound_blank : Sound Store.blank := by
  constructor
  · exact ⟨Nat.one_pos, by simp [Store.blank, Store.numbers],
      by simp [Store.blank, Store.numbers], by simp [Store.blank]⟩
  · intro line owing
    cases owing

def calm : Replies where
  saves := true
  opens := true
  stuck := []
  order := []
  flushes := true
  torn := []

def cixdMessage (msg : String) : Request where
  source := none
  level := none
  container := none
  msg := CStr.ofString msg

def savedRun : List Event :=
  [.restart, .write calm (cixdMessage "up") 1, .restart, .write calm (cixdMessage "again") 2]

def recountedRun : List Event :=
  [.restart, .write { calm with saves := false } (cixdMessage "dropped") 1,
    .write calm (cixdMessage "accepted") 2, .restart,
    .write calm (cixdMessage "up") 3]

end Cix.Log
