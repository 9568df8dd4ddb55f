import Cix.Log.Summarised

/-!
# The search is exact

The read that goes backwards, skips segments by their summaries and lines by
their heads returns what the scan of every line returns, unless one of the
lines that the scan returns is lost to it: its segment is one too many, it is
given up as damage, or its head misleads.  A head is tested on the bytes of the
line, where a string goes on behind a zero byte, and on the digits of the time
stamp, which a double may not hold.
-/

namespace Cix.Log

open Cix.Lib Cix.Json List Option

variable {filters : Filters}

variable {re : Option (CStr → Bool)}

theorem pass_of_matchLine {line : List UInt8}
    {entry : TailEntry} (found : matchLine filters re line = some entry) :
    ∃ f, parseLine line = some f ∧ filters.pass f = true := by
  rw [matchLine, bind_eq_some_iff] at found
  obtain ⟨f, parsed, isMatch⟩ := found
  unfold matchFields at isMatch
  split at isMatch
  next passes =>
    rw [Bool.and_eq_true] at passes
    exact ⟨f, parsed, passes.1⟩
  next => cases isMatch

def Scan.ring (s : Scan) : Nat × List TailEntry :=
  (s.room, s.held)

/-- A line of the store. -/
structure StoredLine where
  seg : SegmentFile
  start : Nat
  bytes : List UInt8

def SegmentFile.stored (seg : SegmentFile) : List StoredLine :=
  (placedLines 10 seg.bytes).map fun line => ⟨seg, line.1, line.2⟩

/-- `back_next_line` gives the line up as damage. -/
def StoredLine.lost (l : StoredLine) : Bool :=
  givenUp tailBlock tailLineMax l.seg.bytes.length (l.start, l.bytes)

/-- What a read that comes to the line finds in it. -/
def StoredLine.found (filters : Filters) (re : Option (CStr → Bool)) (l : StoredLine) :
    Option TailEntry :=
  if l.lost then none
  else
    match if filters.prefilter then lineHead l.bytes else none with
    | some h => if headPasses filters h then matchLine filters re l.bytes else none
    | none => matchLine filters re l.bytes

theorem seg_of_stored {seg : SegmentFile} {l : StoredLine} (mem : l ∈ seg.stored) :
    l.seg = seg := by
  rw [SegmentFile.stored, List.mem_map] at mem
  obtain ⟨line, _, rfl⟩ := mem
  rfl

theorem StoredLine.match_of_found {l : StoredLine} {entry : TailEntry}
    (found : l.found filters re = some entry) : matchLine filters re l.bytes = some entry := by
  unfold StoredLine.found at found
  split at found
  · cases found
  · split at found
    · split at found
      · exact found
      · cases found
    · exact found

theorem ring_visitLine (l : StoredLine) (s : Scan) :
    (visitLine filters re filters.prefilter s (readBackwards tailBlock tailLineMax
      l.seg.bytes.length (l.start, l.bytes))).ring = (s.take (l.found filters re)).ring := by
  rw [readBackwards, StoredLine.found, StoredLine.lost]
  split
  next lost => rw [visitLine, if_pos rfl]; rfl
  next whole =>
    dsimp only
    unfold visitLine
    by_cases empty : l.bytes = []
    · rw [if_pos empty, empty]
      have unread : (if filters.prefilter then lineHead [] else none) = none := by
        split <;> rfl
      rw [unread]
      rfl
    rw [if_neg empty]
    cases isHead : (if filters.prefilter then lineHead l.bytes else none) with
    | some h =>
      dsimp only
      by_cases passes : headPasses filters h = true
      · rw [if_pos passes, if_pos passes]
        cases matchLine filters re l.bytes <;> rfl
      · rw [if_neg passes, if_neg passes]
        rfl
    | none =>
      dsimp only
      rw [matchLine]
      cases parsed : parseLine l.bytes with
      | none => rfl
      | some f =>
        dsimp only
        rw [bind_some]
        cases matchFields filters re f <;> rfl

/-- The last `room` items of a list. -/
def lastOf {α : Type} (room : Nat) (items : List α) : List α :=
  items.drop (items.length - room)

theorem lastOf_append {α : Type} (room : Nat) (first second : List α) :
    lastOf room (first ++ second) = lastOf (room - second.length) first ++ lastOf room second := by
  unfold lastOf
  rw [drop_append, length_append]
  have inSecond : first.length + second.length - room - first.length =
      second.length - room := by omega
  rw [inSecond]
  by_cases fits : second.length ≤ room
  · have inFirst : first.length + second.length - room =
        first.length - (room - second.length) := by omega
    rw [inFirst]
  · have noneOfFirst : ∀ n, first.length ≤ n → first.drop n = [] :=
      fun n beyond => drop_eq_nil_of_le beyond
    rw [noneOfFirst _ (by omega), noneOfFirst _ (by omega)]

def fill (found : List TailEntry) (ring : Nat × List TailEntry) : Nat × List TailEntry :=
  (ring.1 - found.length, lastOf ring.1 found ++ ring.2)

theorem fill_nil (ring : Nat × List TailEntry) : fill [] ring = ring := by
  simp [fill, lastOf]

theorem fill_append (first second : List TailEntry) (ring : Nat × List TailEntry) :
    fill (first ++ second) ring = fill first (fill second ring) := by
  unfold fill
  rw [lastOf_append, length_append, append_assoc]
  congr 1
  omega

theorem fill_full (found held : List TailEntry) : fill found (0, held) = (0, held) := by
  simp [fill, lastOf]

theorem ring_take (s : Scan) (found : Option TailEntry) (room : s.room ≠ 0) :
    (s.take found).ring = fill found.toList s.ring := by
  cases found with
  | none => exact (fill_nil s.ring).symm
  | some entry =>
    obtain ⟨more, size⟩ := Nat.exists_eq_succ_of_ne_zero room
    simp [Scan.take, Scan.ring, fill, lastOf, size]

theorem ring_walk (items : List StoredLine) (s : Scan) :
    (walk (fun s => decide (s.room = 0)) (visitLine filters re filters.prefilter)
      (items.map fun l => readBackwards tailBlock tailLineMax l.seg.bytes.length
        (l.start, l.bytes)).reverse s).2.ring =
      fill (items.filterMap (StoredLine.found filters re)) s.ring := by
  induction items using List.reverseRecOn generalizing s with
  | nil =>
    rw [map_nil, reverse_nil, walk, filterMap_nil, fill_nil]
    split <;> rfl
  | append_singleton earlier l ih =>
    rw [map_append, map_singleton, reverse_append, reverse_singleton, singleton_append,
      walk_cons, filterMap_append, fill_append]
    split
    next full =>
      have empty : s.ring = (0, s.held) := by rw [Scan.ring, of_decide_eq_true full]
      rw [empty, fill_full, fill_full, ← empty]
    next notFull =>
      have room : s.room ≠ 0 := by simpa using notFull
      rw [ih, ring_visitLine, ring_take s _ room]
      congr 2

theorem ring_scanSegment {seg : SegmentFile} (short : ShortLines seg.bytes) (s : Scan) :
    (scanSegment filters re filters.prefilter seg.bytes s).2.ring =
      fill (seg.stored.filterMap (StoredLine.found filters re)) s.ring := by
  rw [scanSegment_eq_walk short, ← ring_walk, SegmentFile.stored, List.map_map]
  rfl

inductive Written (seg : SegmentFile) : SummaryFile → Prop where
  | read {filters : Filters} {re : Option (CStr → Bool)} {prefilter : Bool}
      {s final : Scan} {made : Summary}
      (building : s.building = some (sumReset true))
      (reached : scanSegment filters re prefilter seg.bytes s = (true, final))
      (isMade : final.building = some made) :
      Written seg (summaryWrite seg.seq seg.stat made)
  | rotated {start closed : OpenSegment} (old : List UInt8)
      (begins : start = .opened old ∨ start = .resumed old)
      (appends : List Append)
      (isClosed : run OpenSegment.step start appends = closed)
      (complete : closed.sum.complete = true)
      (same : closed.bytes.length = closed.size)
      (whole : closed.bytes = seg.bytes) :
      Written seg (summaryWrite seg.seq seg.stat closed.sum)

theorem Written.countsRead {seg : SegmentFile} {file : SummaryFile}
    (written : Written seg file) (short : ShortLines seg.bytes) :
    ∃ s, file = summaryWrite seg.seq seg.stat s ∧ CountsRead seg.bytes s := by
  cases written with
  | read building reached isMade =>
    exact ⟨_, rfl, countsRead_of_read short building reached isMade⟩
  | rotated old begins appends isClosed complete same whole =>
    refine ⟨_, rfl, Summarises.countsRead ?_⟩
    rw [← whole]
    subst isClosed
    apply summarises_of_rotation _ appends complete same
    rcases begins with opened | resumed
    · rw [opened]
      exact OpenSegment.kept_opened old
    · rw [resumed]
      exact OpenSegment.kept_resumed old

/-- The files of a store: their names are different, and a summary that
`summary_load` takes was written for its segment. -/
structure Archive extends LogDir where
  distinct : (segments.map SegmentFile.seq).Nodup
  written : ∀ seg ∈ segments, ∀ file, seg.summary = some file →
    (summaryLoad file seg.seq seg.stat).isSome = true → Written seg file

theorem none_of_excluded {seg : SegmentFile} {file : SummaryFile}
    {loaded : Summary} {filters : Filters} (re : Option (CStr → Bool))
    (written : Written seg file) (short : ShortLines seg.bytes)
    (load : summaryLoad file seg.seq seg.stat = some loaded)
    (excluded : sumExcludes loaded filters = true) :
    seg.stored.filterMap (StoredLine.found filters re) = [] := by
  obtain ⟨s, isFile, counts⟩ := written.countsRead short
  rw [filterMap_eq_nil_iff]
  intro l mem
  rw [SegmentFile.stored, List.mem_map] at mem
  obtain ⟨line, isLine, rfl⟩ := mem
  cases found : StoredLine.found filters re ⟨seg, line.1, line.2⟩ with
  | none => rfl
  | some entry =>
    obtain ⟨f, parsed, passes⟩ := pass_of_matchLine (StoredLine.match_of_found found)
    have kept : givenUp tailBlock tailLineMax seg.bytes.length line = false := by
      by_contra lost
      rw [Bool.not_eq_false] at lost
      rw [StoredLine.found, StoredLine.lost, if_pos lost] at found
      cases found
    rw [isFile] at load
    have clash := (counts.covers line isLine kept f parsed).not_excludes counts.dated load passes
    rw [excluded] at clash
    cases clash

def Reading.ring (t : Reading) : Nat × List TailEntry :=
  (t.room, t.held)

section Read

variable {archive : Archive} (short : ∀ seg ∈ archive.segments, ShortLines seg.bytes)
include short

theorem ring_readSegment (re : Option (CStr → Bool)) (consulted : Bool) {seg : SegmentFile}
    (there : seg ∈ archive.segments) (t : Reading) :
    (readSegment filters re consulted seg t).ring =
      fill (seg.stored.filterMap (StoredLine.found filters re)) t.ring := by
  unfold readSegment
  dsimp only
  split
  next excluded =>
    cases load : loadedSummary consulted seg with
    | none =>
      rw [load] at excluded
      cases excluded
    | some loaded =>
      rw [load] at excluded
      unfold loadedSummary at load
      split at load
      · obtain ⟨file, isFile, isLoaded⟩ := bind_eq_some_iff.mp load
        have written := archive.written seg there file isFile (by rw [isLoaded]; rfl)
        rw [none_of_excluded re written (short seg there) isLoaded excluded, fill_nil]
      · cases load
  next => exact ring_scanSegment (short seg there) _

def foundIn (dir : LogDir) (filters : Filters) (re : Option (CStr → Bool))
    (seqs : List Nat) : List TailEntry :=
  seqs.flatMap fun seq =>
    match dir.find seq with
    | none => []
    | some seg => seg.stored.filterMap (StoredLine.found filters re)

theorem ring_readSegments (re : Option (CStr → Bool)) (seqs : List Nat) (newest : Bool)
    (t : Reading) :
    (readSegments archive.toLogDir filters re newest seqs t).ring =
      fill (foundIn archive.toLogDir filters re seqs.reverse) t.ring := by
  induction seqs generalizing newest t with
  | nil =>
    rw [readSegments]
    exact (fill_nil t.ring).symm
  | cons seq rest ih =>
    rw [readSegments, foundIn, reverse_cons, flatMap_append, fill_append, ← foundIn]
    split
    next full =>
      have empty : t.ring = (0, t.held) := by rw [Reading.ring, full]
      rw [empty, fill_full, fill_full, ← empty]
    next =>
      rw [flatMap_singleton]
      cases found : archive.find seq with
      | none =>
        dsimp only
        rw [ih, fill_nil]
      | some seg =>
        have there : seg ∈ archive.segments := mem_of_find?_eq_some found
        dsimp only
        rw [ih, ring_readSegment short re _ there]

end Read

theorem find?_seq {segments : List SegmentFile}
    (distinct : (segments.map SegmentFile.seq).Nodup) {seg : SegmentFile}
    (there : seg ∈ segments) :
    segments.find? (fun other => other.seq = seg.seq) = some seg := by
  induction segments with
  | nil => cases there
  | cons first rest ih =>
    rw [map_cons, nodup_cons] at distinct
    cases there with
    | head => rw [find?_cons_of_pos (by simp)]
    | tail _ later =>
      have other : first.seq ≠ seg.seq := by
        intro same
        apply distinct.1
        rw [same]
        exact mem_map_of_mem later
      rw [find?_cons_of_neg (by simpa using other)]
      exact ih distinct.2 later

def LogDir.sorted (dir : LogDir) : List SegmentFile :=
  dir.segments.insertionSort fun a b => a.seq ≤ b.seq

instance : Std.Total fun a b : SegmentFile => a.seq ≤ b.seq :=
  ⟨fun a b => Nat.le_total a.seq b.seq⟩

instance : IsTrans SegmentFile fun a b => a.seq ≤ b.seq :=
  ⟨fun _ _ _ first second => Nat.le_trans first second⟩

theorem sorted_perm (dir : LogDir) : dir.sorted.Perm dir.segments :=
  perm_insertionSort _ _

/-- The segments that are listed, in their order. -/
theorem listed_eq {archive : Archive} (order : List Nat) :
    archive.listed order = (archive.sorted.filter fun seg =>
      decide (seg.seq ∈ archive.listed order)).map SegmentFile.seq := by
  have directory := readdir_perm order archive.numbers
  have ofTake : (archive.listed order).Perm
      ((readdir order archive.numbers).take (segmentCount + 4)) :=
    perm_insertionSort _ _
  have distinct : (archive.listed order).Nodup := by
    rw [ofTake.nodup_iff]
    exact (directory.nodup_iff.mpr archive.distinct).sublist (take_sublist _ _)
  have sortedDistinct : (archive.sorted.map SegmentFile.seq).Nodup :=
    ((sorted_perm archive.toLogDir).map SegmentFile.seq).nodup_iff.mpr archive.distinct
  have increasing : (archive.sorted.map SegmentFile.seq).Pairwise (· ≤ ·) := by
    rw [pairwise_map]
    exact pairwise_insertionSort _ _
  have parts : ((archive.sorted.filter fun seg =>
      decide (seg.seq ∈ archive.listed order)).map SegmentFile.seq).Sublist
        (archive.sorted.map SegmentFile.seq) :=
    filter_sublist.map SegmentFile.seq
  have permutation : (archive.listed order).Perm ((archive.sorted.filter fun seg =>
      decide (seg.seq ∈ archive.listed order)).map SegmentFile.seq) := by
    rw [perm_ext_iff_of_nodup distinct (sortedDistinct.sublist parts)]
    intro seq
    constructor
    · intro isListed
      have there : seq ∈ archive.numbers :=
        directory.mem_iff.mp (mem_of_mem_take (ofTake.mem_iff.mp isListed))
      obtain ⟨seg, inDir, rfl⟩ := mem_map.mp there
      refine mem_map_of_mem (mem_filter.mpr ⟨?_, decide_eq_true isListed⟩)
      exact (sorted_perm archive.toLogDir).mem_iff.mpr inDir
    · intro mem
      obtain ⟨seg, kept, rfl⟩ := mem_map.mp mem
      exact of_decide_eq_true (mem_filter.mp kept).2
  exact List.Perm.eq_of_pairwise (fun a b _ _ first second => Nat.le_antisymm first second)
    (pairwise_insertionSort _ _) (increasing.sublist parts) permutation

def LogDir.stored (dir : LogDir) : List StoredLine :=
  dir.sorted.flatMap SegmentFile.stored

theorem matching_eq (dir : LogDir) (filters : Filters) (re : Option (CStr → Bool)) :
    matching dir filters re =
      dir.stored.filterMap fun l => matchLine filters re l.bytes := by
  rw [LogDir.stored, filterMap_flatMap, matching, LogDir.sorted]
  apply flatMap_congr
  intro seg _
  rw [SegmentFile.stored, SegmentFile.lines, ← map_placed 0 (Lib.lines 10 seg.bytes),
    filterMap_map, filterMap_map]
  rfl

/-- What the read finds in a line of the store. -/
def LogDir.seen (dir : LogDir) (order : List Nat) (filters : Filters)
    (re : Option (CStr → Bool)) (l : StoredLine) : Option TailEntry :=
  if l.seg.seq ∈ dir.listed order then l.found filters re else none

theorem foundIn_listed (archive : Archive) (order : List Nat) (filters : Filters)
    (re : Option (CStr → Bool)) :
    foundIn archive.toLogDir filters re (archive.listed order) =
      archive.stored.filterMap (archive.seen order filters re) := by
  have each : ∀ seg ∈ archive.sorted, (match archive.find seg.seq with
      | none => []
      | some seg => seg.stored.filterMap (StoredLine.found filters re)) =
        seg.stored.filterMap (StoredLine.found filters re) := by
    intro seg mem
    have there := (sorted_perm archive.toLogDir).mem_iff.mp mem
    have found : archive.toLogDir.find seg.seq = some seg := find?_seq archive.distinct there
    simp only [found]
  have parts : ∀ segs ⊆ archive.sorted, (((segs.filter fun seg =>
      decide (seg.seq ∈ archive.listed order)).map SegmentFile.seq).flatMap fun seq =>
        match archive.find seq with
        | none => []
        | some seg => seg.stored.filterMap (StoredLine.found filters re)) =
      segs.flatMap fun seg => seg.stored.filterMap (archive.seen order filters re) := by
    intro segs inside
    induction segs with
    | nil => rfl
    | cons seg rest ih =>
      have later := ih (fun _ mem => inside (mem_cons_of_mem _ mem))
      have here := each seg (inside mem_cons_self)
      by_cases isListed : seg.seq ∈ archive.listed order
      · have same : seg.stored.filterMap (archive.seen order filters re) =
            seg.stored.filterMap (StoredLine.found filters re) := by
          apply filterMap_congr
          intro l mem
          rw [LogDir.seen, seg_of_stored mem, if_pos isListed]
        rw [filter_cons, if_pos (by simpa using isListed), map_cons, flatMap_cons, flatMap_cons,
          here, later, same]
      · have none : seg.stored.filterMap (archive.seen order filters re) = [] := by
          rw [filterMap_eq_nil_iff]
          intro l mem
          rw [LogDir.seen, seg_of_stored mem, if_neg isListed]
        rw [filter_cons, if_neg (by simpa using isListed), flatMap_cons, later, none, nil_append]
  rw [listed_eq, foundIn, LogDir.stored, filterMap_flatMap]
  exact parts _ (fun _ mem => mem)

variable {α β : Type}

/-- Two searches of which one finds less agree on the last results when the
first finds all that the other returns. -/
theorem lastOf_filterMap {less all : α → Option β} (items : List α) (room : Nat)
    (sub : ∀ x y, less x = some y → all x = some y)
    (kept : ∀ x ∈ lastOf room (items.filter fun x => (all x).isSome), less x = all x) :
    lastOf room (items.filterMap less) = lastOf room (items.filterMap all) := by
  induction items using List.reverseRecOn generalizing room with
  | nil => rfl
  | append_singleton earlier x ih =>
    rw [filter_append, lastOf_append] at kept
    rw [filterMap_append, filterMap_append, lastOf_append, lastOf_append]
    cases found : all x with
    | none =>
      have missing : less x = none := by
        cases also : less x with
        | none => rfl
        | some y => rw [sub x y also] at found; cases found
      simp only [filterMap_cons, filterMap_nil, found, missing, length_nil, Nat.sub_zero]
      simp only [filter_cons, found, isSome_none, Bool.false_eq_true, if_false, filter_nil,
        length_nil, Nat.sub_zero] at kept
      rw [ih room fun x mem => kept x (mem_append_left _ mem)]
    | some y =>
      simp only [filter_cons, found, isSome_some, if_true, filter_nil, length_singleton] at kept
      cases room with
      | zero => simp [lastOf]
      | succ room =>
        have same : less x = all x := kept x (mem_append_right _ (by simp [lastOf]))
        rw [found] at same
        simp only [filterMap_cons, filterMap_nil, found, same, length_singleton]
        rw [ih (room + 1 - 1) fun x mem => kept x (mem_append_left _ mem)]

/-- The read comes to the line and takes it. -/
structure StoredLine.Reached (dir : LogDir) (order : List Nat) (filters : Filters)
    (l : StoredLine) : Prop where
  listed : l.seg.seq ∈ dir.listed order
  whole : l.lost = false
  passes : ∀ h, lineHead l.bytes = some h → headPasses filters h = true

/-- None of the lines that the scan returns is lost to the read. -/
def Searchable (regcomp : CStr → Option (CStr → Bool)) (dir : LogDir) (order : List Nat)
    (query : Query) : Prop :=
  ∀ re, compiled regcomp query = some re →
    ∀ l ∈ lastOf (effLimit query.limit) (dir.stored.filter fun l =>
      (matchLine query.filters re l.bytes).isSome), l.Reached dir order query.filters

/-- The search returns exactly what the scan of every line returns, followed by
the entry about lost entries if there is one. -/
theorem logstoreTailEx_eq_forwardScan (regcomp : CStr → Option (CStr → Bool)) (archive : Archive)
    (order : List Nat) (query : Query) (failure : Option TailEntry)
    (short : ∀ seg ∈ archive.segments, ShortLines seg.bytes)
    (searchable : Searchable regcomp archive.toLogDir order query) :
    logstoreTailEx regcomp archive.toLogDir order query failure =
      forwardScan regcomp archive.toLogDir query ++ failure.toList := by
  unfold logstoreTailEx forwardScan
  cases isCompiled : compiled regcomp query with
  | none => rfl
  | some re =>
    have ring := @ring_readSegments query.filters archive short re
      (archive.toLogDir.listed order).reverse true ⟨effLimit query.limit, [], []⟩
    rw [reverse_reverse, foundIn_listed] at ring
    have held := congrArg Prod.snd ring
    simp only [Reading.ring, fill, append_nil] at held
    dsimp only
    rw [held, matching_eq]
    congr 1
    apply lastOf_filterMap
    · intro l entry seen
      unfold LogDir.seen at seen
      split at seen
      · exact StoredLine.match_of_found seen
      · cases seen
    · intro l mem
      obtain ⟨listed, whole, passes⟩ := searchable re isCompiled l mem
      rw [LogDir.seen, if_pos listed, StoredLine.found, whole, if_neg Bool.false_ne_true]
      split
      next h isHead =>
        have read : lineHead l.bytes = some h := by
          split at isHead
          · exact isHead
          · cases isHead
        rw [if_pos (passes h read)]
      next => rfl

def oneSegment (bytes : List UInt8) : Archive where
  segments := [⟨1, 0, 0, bytes, none⟩]
  current := none
  distinct := by simp
  written := by
    intro seg there file isFile
    rw [mem_singleton] at there
    rw [there] at isFile
    cases isFile

def fromSource (name : String) (limit : Int) : Query where
  filters := ⟨some (CStr.ofString name), none, none, 0⟩
  msgRegex := none
  limit := limit

def ciEntry (msg : String) : Entry where
  ts := 1
  source := BoundedStr.store 16 pos_16 "ci"
  level := BoundedStr.store 16 pos_16 "info"
  container := BoundedStr.store 64 pos_64 CStr.empty
  msg := CStr.ofString msg

def nulLine : List UInt8 :=
  ascii "\x7b\"ts\":1,\"source\":\"ci" ++ 0 ::
    ascii "xd\",\"level\":\"info\",\"container\":\"\",\"msg\":\"x\"\x7d\n"

/-- The head of the line in the first segment misleads; a search for one entry
does not come to it. -/
def twoSegments : Archive where
  segments := [⟨1, 0, 0, nulLine, none⟩,
    ⟨2, 0, 0, entryLine (ciEntry "up") ++ entryLine (ciEntry "again"), none⟩]
  current := none
  distinct := by simp
  written := by
    intro seg there file isFile
    rw [mem_cons, mem_singleton] at there
    rcases there with rfl | rfl <;> cases isFile

theorem searchable_twoSegments :
    Searchable (fun _ => none) twoSegments.toLogDir [] (fromSource "ci" 1) := by
  intro re isCompiled l mem
  cases isCompiled
  have all : (lastOf (effLimit 1) (twoSegments.stored.filter fun l =>
      (matchLine (fromSource "ci" 1).filters none l.bytes).isSome)).all (fun l =>
        decide (l.seg.seq ∈ twoSegments.listed []) && !l.lost &&
          (lineHead l.bytes).all (headPasses (fromSource "ci" 1).filters)) = true := by
    decide +kernel
  have here := all_eq_true.mp all l mem
  simp only [Bool.and_eq_true, decide_eq_true_eq, Bool.not_eq_true'] at here
  refine ⟨here.1.1, here.1.2, ?_⟩
  intro h read
  rw [read] at here
  exact here.2

theorem logstoreTailEx_eq_forwardScan_twoSegments :
    (forwardScan (fun _ => none) twoSegments.toLogDir (fromSource "ci" 1)).length = 1 ∧
      logstoreTailEx (fun _ => none) twoSegments.toLogDir [] (fromSource "ci" 1) none =
        forwardScan (fun _ => none) twoSegments.toLogDir (fromSource "ci" 1) ++ [] := by
  refine ⟨by decide +kernel, logstoreTailEx_eq_forwardScan (fun _ => none) twoSegments
    [] (fromSource "ci" 1) none ?_ searchable_twoSegments⟩
  intro seg there
  unfold ShortLines
  revert seg
  decide +kernel

theorem nulLine_not_exact : (∀ seg ∈ (oneSegment nulLine).segments, ∀ line ∈ seg.lines,
      line.length < tailLineMax) ∧
    logstoreTailEx (fun _ => none) (oneSegment nulLine).toLogDir [] (fromSource "ci" 1) none ≠
      forwardScan (fun _ => none) (oneSegment nulLine).toLogDir (fromSource "ci" 1) := by
  constructor
  · intro seg there
    rw [mem_singleton.mp there]
    decide +kernel
  · decide +kernel

end Cix.Log
