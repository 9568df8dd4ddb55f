import Cix.Json.Rewrite
import Cix.Log.Segments

/-!
# The summary of a segment

`struct seg_summary` of `daemon/src/logstore.c`: the largest time stamp of a
segment and the names of its sources, levels and containers, each set up to a
number of slots.  A summary covers a line when no filter that the line passes
is one that `sum_excludes` turns away, and it does so still after it was
written to its file and read back, where every number goes through a double.
-/

namespace Cix.Log

open Cix.Lib Cix.Json List

/-- What `json_as_number` and the conversion to `int64_t` make of the digits of
an integer. -/
def readBack (n : Int) : Int :=
  (Double.ofDecimal (decide (n < 0)) n.natAbs 0).toLongLong

theorem readBack_def (n : Int) : readBack n =
    (Double.ofDecimal (decide (n < 0)) n.natAbs 0).toLongLong :=
  rfl

/-- The number, and the double next to it, are in the range of `int64_t`. -/
def InRange (n : Nat) : Prop :=
  n < 2 ^ 63 ∧ Double.roundUnits n 1 < 2 ^ 63 * unitsPerOne

theorem longLong_lt_infinite : 2 ^ 63 * unitsPerOne < infiniteUnits := by
  rw [unitsPerOne, infiniteUnits, ← Nat.pow_add]
  exact Nat.pow_lt_pow_right (by omega) (by omega)

theorem readBack_natCast (n : Nat) : readBack n = (Double.ofRatio false n 1).toLongLong := by
  have sign : decide ((n : Int) < 0) = false := by simp
  have decimal : Double.ofDecimal false n 0 = Double.ofRatio false n 1 := by
    change Double.ofRatio false (n * 10 ^ 0) 1 = _
    rw [Nat.pow_zero, Nat.mul_one]
  rw [readBack, sign, Int.natAbs_natCast, decimal]

attribute [irreducible] readBack

theorem truncate_ofRatio {n : Nat} (finite : Double.roundUnits n 1 < infiniteUnits) :
    (Double.ofRatio false n 1).truncate = ((Double.roundUnits n 1 / unitsPerOne : Nat) : Int) := by
  rw [Double.ofRatio, dif_pos finite]
  exact (Int.ofNat_tdiv _ _).symm

theorem readBack_of_inRange {n : Nat} (inRange : InRange n) :
    readBack n = ((Double.roundUnits n 1 / unitsPerOne : Nat) : Int) := by
  have finite : Double.roundUnits n 1 < infiniteUnits :=
    Nat.lt_trans inRange.2 longLong_lt_infinite
  have value := truncate_ofRatio finite
  have bound : Double.roundUnits n 1 / unitsPerOne < 2 ^ 63 :=
    (Nat.div_lt_iff_lt_mul unitsPerOne_pos).mpr inRange.2
  rw [readBack_natCast]
  rw [Double.ofRatio, dif_pos finite] at value ⊢
  rw [Double.toLongLong, value, if_pos]
  generalize Double.roundUnits n 1 / unitsPerOne = whole at bound ⊢
  omega

theorem readBack_mono {first second : Nat} (ordered : first ≤ second)
    (inRange : InRange second) : readBack first ≤ readBack second := by
  have bounded : second * unitsPerOne < infiniteUnits := by
    apply Nat.lt_trans _ longLong_lt_infinite
    exact Nat.mul_lt_mul_of_pos_right inRange.1 unitsPerOne_pos
  have rounded := Double.roundUnits_mono ordered bounded
  have firstInRange : InRange first :=
    ⟨Nat.lt_of_le_of_lt ordered inRange.1, Nat.lt_of_le_of_lt rounded inRange.2⟩
  rw [readBack_of_inRange firstInRange, readBack_of_inRange inRange]
  exact Int.ofNat_le.mpr (Nat.div_le_div_right rounded)

theorem readBack_ne_zero {n : Nat} (positive : 0 < n) : readBack n ≠ 0 := by
  have one : unitsPerOne ≤ Double.roundUnits n 1 := by
    have representable : RepresentableUnits unitsPerOne := by
      have unit := Double.natUnits_representable (n := 1) (by decide)
      rwa [Nat.one_mul] at unit
    apply Double.le_roundUnits representable
    exact Nat.le_mul_of_pos_left _ positive
  rw [readBack_natCast]
  by_cases finite : Double.roundUnits n 1 < infiniteUnits
  · have value := truncate_ofRatio finite
    have whole : 0 < Double.roundUnits n 1 / unitsPerOne := Nat.div_pos one unitsPerOne_pos
    rw [Double.ofRatio, dif_pos finite] at value ⊢
    rw [Double.toLongLong, value]
    generalize Double.roundUnits n 1 / unitsPerOne = integer at whole
    split <;> omega
  · rw [Double.ofRatio, dif_neg finite]
    decide

theorem inRange_of_le {n : Nat} (small : n ≤ 2 ^ 62) : InRange n := by
  refine ⟨by omega, ?_⟩
  have power : RepresentableUnits (2 ^ 62 * unitsPerOne) := by
    rw [unitsPerOne, ← Nat.pow_add]
    exact Double.powerUnits_representable (by omega)
  have above : n * unitsPerOne ≤ 2 ^ 62 * unitsPerOne := Nat.mul_le_mul_right _ small
  have rounded := Double.roundUnits_le power above
  have less : 2 ^ 62 * unitsPerOne < 2 ^ 63 * unitsPerOne :=
    Nat.mul_lt_mul_of_pos_right (by decide) unitsPerOne_pos
  exact Nat.lt_of_le_of_lt rounded less

theorem representable_div (magnitude : Magnitude) :
    RepresentableUnits (magnitude.units / unitsPerOne * unitsPerOne) := by
  obtain ⟨finite, significand, exponent, small, value⟩ := magnitude.representable
  by_cases whole : unitExponent ≤ exponent
  · obtain ⟨extra, sum⟩ := Nat.exists_eq_add_of_le whole
    have multiple : magnitude.units = significand * 2 ^ extra * unitsPerOne := by
      rw [value, sum, Nat.pow_add, unitsPerOne]
      ring
    have divides : magnitude.units / unitsPerOne * unitsPerOne =
        magnitude.units := by
      rw [multiple, Nat.mul_div_cancel _ unitsPerOne_pos]
    rw [divides]
    exact magnitude.representable
  · apply Double.natUnits_representable
    have less : magnitude.units ≤ significand * unitsPerOne := by
      rw [value, unitsPerOne]
      apply Nat.mul_le_mul_left
      exact Nat.pow_le_pow_right (by omega) (by omega)
    have quotient : magnitude.units / unitsPerOne ≤ significand :=
      Nat.div_le_of_le_mul (by rwa [Nat.mul_comm])
    omega

theorem truncate_negative (magnitude : Magnitude) :
    (Double.finite true magnitude).truncate ≤ 0 := by
  have value : (Double.finite true magnitude).truncate =
      -((magnitude.units / unitsPerOne : Nat) : Int) := by
    change (-(magnitude.units : Int)).tdiv unitsPerOne = _
    rw [Int.neg_tdiv]
    rfl
  rw [value]
  generalize magnitude.units / unitsPerOne = whole
  omega

theorem nat_of_toLongLong {v : Double} (positive : 0 < v.toLongLong) :
    ∃ n : Nat, v.toLongLong = n ∧ n < 2 ^ 63 ∧ RepresentableUnits (n * unitsPerOne) := by
  cases v with
  | infinite negative => simp [Double.toLongLong] at positive
  | finite negative magnitude =>
    rw [Double.toLongLong] at positive ⊢
    split at positive
    next inRange =>
      rw [if_pos inRange]
      cases negative with
      | true =>
        have negative := truncate_negative magnitude
        omega
      | false =>
        refine ⟨magnitude.units / unitsPerOne, rfl, ?_, representable_div magnitude⟩
        have bound := inRange.2
        change ((magnitude.units / unitsPerOne : Nat) : Int) < _ at bound
        exact_mod_cast bound
    next => omega

theorem readBack_toLongLong {v : Double} (positive : 0 < v.toLongLong) :
    InRange v.toLongLong.toNat ∧ readBack v.toLongLong = v.toLongLong := by
  obtain ⟨n, value, bound, representable⟩ := nat_of_toLongLong positive
  have exact := Double.roundUnits_of_representable representable
  have inRange : InRange n := by
    refine ⟨bound, ?_⟩
    rw [exact]
    exact Nat.mul_lt_mul_of_pos_right bound unitsPerOne_pos
  rw [value, Int.toNat_natCast]
  refine ⟨inRange, ?_⟩
  rw [readBack_of_inRange inRange, exact, Nat.mul_div_cancel _ unitsPerOne_pos]

theorem positive_of_readBack {n : Int} (positive : 0 < readBack n) : 0 < n := by
  by_contra notPositive
  rw [readBack_def] at positive
  by_cases negative : n < 0
  · rw [decide_eq_true negative] at positive
    change 0 < (Double.ofRatio true (n.natAbs * 10 ^ 0) 1).toLongLong at positive
    rw [Double.ofRatio] at positive
    split at positive
    next finite =>
      have below := truncate_negative ⟨_, finite, Double.roundUnits_significand _ _⟩
      rw [Double.toLongLong] at positive
      split at positive <;> omega
    next => simp [Double.toLongLong] at positive
  · have zero : n = 0 := by omega
    rw [zero] at positive
    revert positive
    decide +kernel

/-- A set of slots of a fixed size; over when a name was too long or one too
many, and the set is not known. -/
structure NameSet where
  cells : List (List UInt8)
  isOver : Bool

def cellHolds (name cell : List UInt8) : Bool :=
  decide (cell.take name.length = name) &&
    decide (cell[name.length]? = some 0)

def sumSetAdd (max slot : Nat) (name : List UInt8) (set : NameSet) : NameSet :=
  if set.isOver then set
  else if slot ≤ name.length then { set with isOver := true }
  else if set.cells.any (cellHolds name) then set
  else if max ≤ set.cells.length then { set with isOver := true }
  else
    { set with cells := set.cells ++
        [name ++ List.replicate (slot - name.length) 0] }

def sumSetMayHold (name : CStr) (set : NameSet) : Bool :=
  set.isOver || set.cells.any fun cell => decide (cstrAt cell = name.bytes)

theorem cstrAt_append_cons_zero (name rest : List UInt8) :
    cstrAt (name ++ 0 :: rest) = cstrAt name := by
  induction name with
  | nil => rfl
  | cons c name ih =>
    unfold cstrAt at *
    rw [cons_append, takeWhile_cons, takeWhile_cons, ih]

theorem cstrAt_of_cellHolds {name cell : List UInt8}
    (holds : cellHolds name cell = true) : cstrAt cell = cstrAt name := by
  simp only [cellHolds, Bool.and_eq_true, decide_eq_true_eq] at holds
  obtain ⟨front, ended⟩ := holds
  obtain ⟨inside, zero⟩ := List.getElem?_eq_some_iff.mp ended
  have split : cell = name ++ 0 :: cell.drop (name.length + 1) := by
    have cut := take_append_drop name.length cell
    rw [front, drop_eq_getElem_cons inside, zero] at cut
    exact cut.symm
  rw [split, cstrAt_append_cons_zero]

theorem sumSetMayHold_of_cell {set : NameSet} {name : CStr}
    {cell : List UInt8} (mem : cell ∈ set.cells)
    (denotes : cstrAt cell = name.bytes) : sumSetMayHold name set = true := by
  have found : (set.cells.any fun cell =>
      decide (cstrAt cell = name.bytes)) = true :=
    any_eq_true.mpr ⟨cell, mem, decide_eq_true denotes⟩
  rw [sumSetMayHold, found, Bool.or_true]

theorem sumSetMayHold_add (max slot : Nat) (name : List UInt8) (set : NameSet) :
    sumSetMayHold (CStr.ofBytes name) (sumSetAdd max slot name set) = true := by
  unfold sumSetAdd
  split
  next unknown => rw [sumSetMayHold, unknown, Bool.true_or]
  split
  · rfl
  next fits =>
    split
    next present =>
      obtain ⟨cell, mem, holds⟩ := any_eq_true.mp present
      exact sumSetMayHold_of_cell mem (cstrAt_of_cellHolds holds)
    split
    · rfl
    · apply sumSetMayHold_of_cell (mem_append_right _ (mem_singleton_self _))
      obtain ⟨more, size⟩ := Nat.exists_eq_succ_of_ne_zero (n := slot - name.length) (by omega)
      rw [size, replicate_succ, cstrAt_append_cons_zero]
      rfl

theorem sumSetMayHold_mono {set : NameSet} {held : CStr} (max slot : Nat)
    (name : List UInt8) (holds : sumSetMayHold held set = true) :
    sumSetMayHold held (sumSetAdd max slot name set) = true := by
  unfold sumSetAdd
  split
  · exact holds
  next known =>
    split
    · rfl
    split
    · exact holds
    split
    · rfl
    · rw [sumSetMayHold, Bool.or_eq_true] at holds
      rcases holds with unknown | present
      · exact absurd unknown known
      · obtain ⟨cell, mem, denotes⟩ := any_eq_true.mp present
        exact sumSetMayHold_of_cell (mem_append_left _ mem) (of_decide_eq_true denotes)

/-- `SUM_SOURCES_MAX`, `SUM_LEVELS_MAX` and `SUM_CONTAINERS_MAX`. -/
def sumSourcesMax : Nat := 32

def sumLevelsMax : Nat := 16

def sumContainersMax : Nat := 256

structure Summary where
  complete : Bool
  (entries maxTs : Int)
  (sources levels containers : NameSet)

def sumReset (complete : Bool) : Summary where
  complete := complete
  entries := 0
  maxTs := 0
  sources := ⟨[], false⟩
  levels := ⟨[], false⟩
  containers := ⟨[], false⟩

def addField (max slot : Nat) (field : Option (List UInt8)) (set : NameSet) : NameSet :=
  match field with
  | some name => sumSetAdd max slot name set
  | none => set

def sumAdd (ts : Int) (source level container : Option (List UInt8)) (s : Summary) : Summary :=
  { s with
    maxTs := if s.entries = 0 ∨ ts > s.maxTs then ts else s.maxTs
    entries := s.entries + 1
    sources := addField sumSourcesMax 16 source s.sources
    levels := addField sumLevelsMax 16 level s.levels
    containers := addField sumContainersMax 64 container s.containers }

structure Filters where
  (source level container : Option CStr)
  since : Int

def setExcludes (filter : Option CStr) (set : NameSet) : Bool :=
  match filter with
  | some name => !sumSetMayHold name set
  | none => false

def sumExcludes (s : Summary) (filters : Filters) : Bool :=
  decide (s.entries = 0) || (decide (filters.since > 0) && decide (s.maxTs < filters.since)) ||
    setExcludes filters.source s.sources ||
    setExcludes filters.level s.levels ||
    setExcludes filters.container s.containers

/-- `struct stat` of a segment, as far as it is compared. -/
structure Stat where
  (dev ino size : Nat)
  deriving DecidableEq

/-- What `summary_write` puts into the file; a set that is not known is left
out. -/
structure SummaryFile where
  (seq dev ino bytes : Nat)
  (entries maxTs : Int)
  (sources levels containers : Option (List CStr))

def sumWriteSet (set : NameSet) : Option (List CStr) :=
  if set.isOver then none else some (set.cells.map CStr.ofBytes)

def summaryWrite (seq : Nat) (st : Stat) (s : Summary) : SummaryFile where
  seq := seq
  dev := st.dev
  ino := st.ino
  bytes := st.size
  entries := s.entries
  maxTs := s.maxTs
  sources := sumWriteSet s.sources
  levels := sumWriteSet s.levels
  containers := sumWriteSet s.containers

def sumLoadSet (max slot : Nat) : Option (List CStr) → NameSet
  | none => ⟨[], true⟩
  | some names =>
    names.foldl (fun set name => sumSetAdd max slot name.bytes set) ⟨[], false⟩

/-- The summary, if it was made from the file that `fstat` describes. -/
def summaryLoad (file : SummaryFile) (seq : Nat) (st : Stat) :
    Option Summary :=
  if readBack file.seq = seq ∧ readBack file.bytes = st.size ∧
      file.dev = st.dev ∧ file.ino = st.ino then
    some
      { complete := true
        entries := readBack file.entries
        maxTs := readBack file.maxTs
        sources := sumLoadSet sumSourcesMax 16 file.sources
        levels := sumLoadSet sumLevelsMax 16 file.levels
        containers := sumLoadSet sumContainersMax 64 file.containers }
  else none

structure Fields where
  ts : Int
  (source level container msg : Option CStr)

def fieldPasses (filter field : Option CStr) : Bool :=
  match filter with
  | none => true
  | some name => decide (field = some name)

def Filters.pass (filters : Filters) (f : Fields) : Bool :=
  fieldPasses filters.source f.source && fieldPasses filters.level f.level &&
    fieldPasses filters.container f.container &&
    (decide (filters.since ≤ 0) || decide (filters.since ≤ f.ts))

def SetCovers (field : Option CStr) (set : NameSet) : Prop :=
  ∀ name, field = some name → sumSetMayHold name set = true

structure Covers (s : Summary) (f : Fields) : Prop where
  counted : 0 < s.entries
  dated : ∃ ts ≤ s.maxTs, 0 < f.ts → 0 < ts ∧ f.ts = readBack ts
  source : SetCovers f.source s.sources
  level : SetCovers f.level s.levels
  container : SetCovers f.container s.containers

theorem SetCovers.addField {field : Option CStr} {set : NameSet}
    (covers : SetCovers field set) (max slot : Nat)
    (added : Option (List UInt8)) :
    SetCovers field (addField max slot added set) := by
  intro name present
  cases added with
  | none => exact covers name present
  | some other => exact sumSetMayHold_mono max slot other (covers name present)

def Denotes (added : Option (List UInt8)) (field : Option CStr) : Prop :=
  ∀ name, field = some name → ∃ raw, added = some raw ∧ CStr.ofBytes raw = name

theorem Denotes.covers {field : Option CStr} {added : Option (List UInt8)}
    (denotes : Denotes added field) (max slot : Nat) (set : NameSet) :
    SetCovers field (addField max slot added set) := by
  intro name present
  obtain ⟨raw, isAdded, same⟩ := denotes name present
  rw [isAdded, ← same]
  exact sumSetMayHold_add max slot raw set

variable {s : Summary}

theorem Covers.sumAdd {f : Fields} (covers : Covers s f)
    (ts : Int) (source level container : Option (List UInt8)) :
    Covers (sumAdd ts source level container s) f := by
  constructor
  · have counted := covers.counted
    show 0 < s.entries + 1
    omega
  · obtain ⟨dated, before, same⟩ := covers.dated
    refine ⟨dated, ?_, same⟩
    show dated ≤ if s.entries = 0 ∨ ts > s.maxTs then ts else s.maxTs
    have counted := covers.counted
    split <;> omega
  · exact covers.source.addField _ _ _
  · exact covers.level.addField _ _ _
  · exact covers.container.addField _ _ _

theorem covers_sumAdd {f : Fields} {ts : Int}
    {source level container : Option (List UInt8)} (counted : 0 ≤ s.entries)
    (dated : 0 < f.ts → 0 < ts ∧ f.ts = readBack ts)
    (isSource : Denotes source f.source) (isLevel : Denotes level f.level)
    (isContainer : Denotes container f.container) :
    Covers (sumAdd ts source level container s) f := by
  constructor
  · show 0 < s.entries + 1
    omega
  · refine ⟨ts, ?_, dated⟩
    show ts ≤ if s.entries = 0 ∨ ts > s.maxTs then ts else s.maxTs
    split <;> omega
  · exact isSource.covers _ _ _
  · exact isLevel.covers _ _ _
  · exact isContainer.covers _ _ _

def Summary.Dated (s : Summary) : Prop :=
  0 ≤ s.entries ∧ (0 < s.maxTs → InRange s.maxTs.toNat)

theorem dated_sumReset (complete : Bool) : (sumReset complete).Dated := by
  refine ⟨Int.le_refl 0, ?_⟩
  intro positive
  exact absurd positive (Int.lt_irrefl 0)

theorem Summary.Dated.sumAdd (dated : s.Dated) {ts : Int}
    (inRange : 0 < ts → InRange ts.toNat)
    (source level container : Option (List UInt8)) :
    (sumAdd ts source level container s).Dated := by
  refine ⟨?_, ?_⟩
  · have counted := dated.1
    show 0 ≤ s.entries + 1
    omega
  · show 0 < (if s.entries = 0 ∨ ts > s.maxTs then ts else s.maxTs) → InRange
      (if s.entries = 0 ∨ ts > s.maxTs then ts else s.maxTs).toNat
    split
    · exact inRange
    · exact dated.2

theorem sumSetMayHold_foldl {max slot : Nat} {name : CStr} {names : List CStr}
    {set : NameSet} (held : name ∈ names ∨ sumSetMayHold name set = true) :
    sumSetMayHold name (names.foldl
      (fun set name => sumSetAdd max slot name.bytes set) set) = true := by
  induction names generalizing set with
  | nil =>
    rcases held with impossible | already
    · cases impossible
    · exact already
  | cons first rest ih =>
    apply ih
    rcases held with mem | already
    · cases mem with
      | head =>
        right
        have added := sumSetMayHold_add max slot name.bytes set
        rwa [CStr.ofBytes_bytes] at added
      | tail _ later => exact Or.inl later
    · exact Or.inr (sumSetMayHold_mono max slot first.bytes already)

theorem sumSetMayHold_load {max slot : Nat} {name : CStr} {set : NameSet}
    (holds : sumSetMayHold name set = true) :
    sumSetMayHold name (sumLoadSet max slot (sumWriteSet set)) = true := by
  unfold sumWriteSet
  split
  · rfl
  next known =>
    apply sumSetMayHold_foldl
    left
    rw [sumSetMayHold, Bool.or_eq_true] at holds
    rcases holds with unknown | present
    · exact absurd unknown known
    · obtain ⟨cell, mem, denotes⟩ := any_eq_true.mp present
      refine mem_map.mpr ⟨cell, mem, ?_⟩
      exact CStr.ext (of_decide_eq_true denotes)

theorem not_setExcludes {max slot : Nat} {filter field : Option CStr}
    {set : NameSet} (covers : SetCovers field set)
    (passes : fieldPasses filter field = true) :
    setExcludes filter (sumLoadSet max slot (sumWriteSet set)) = false := by
  cases filter with
  | none => rfl
  | some name =>
    have present : field = some name := of_decide_eq_true passes
    rw [setExcludes, sumSetMayHold_load (covers name present)]
    rfl

theorem sumExcludes_eq_false {filters : Filters} (counted : s.entries ≠ 0)
    (recent : ¬ (filters.since > 0 ∧ s.maxTs < filters.since))
    (source : setExcludes filters.source s.sources = false)
    (level : setExcludes filters.level s.levels = false)
    (container : setExcludes filters.container s.containers = false) :
    sumExcludes s filters = false := by
  have dated : (decide (filters.since > 0) &&
      decide (s.maxTs < filters.since)) = false := by
    rw [← Bool.not_eq_true, Bool.and_eq_true, decide_eq_true_eq, decide_eq_true_eq]
    exact recent
  rw [sumExcludes, decide_eq_false counted, dated, source, level, container]
  rfl

theorem eq_of_summaryLoad {file : SummaryFile} {seq : Nat} {st : Stat}
    {loaded : Summary} (load : summaryLoad file seq st = some loaded) :
    loaded.entries = readBack file.entries ∧ loaded.maxTs = readBack file.maxTs ∧
      loaded.sources = sumLoadSet sumSourcesMax 16 file.sources ∧
      loaded.levels = sumLoadSet sumLevelsMax 16 file.levels ∧
      loaded.containers = sumLoadSet sumContainersMax 64 file.containers := by
  unfold summaryLoad at load
  split at load
  · cases load
    exact ⟨rfl, rfl, rfl, rfl, rfl⟩
  · cases load

theorem Covers.ts_le {f : Fields} (covers : Covers s f)
    (dated : s.Dated) (positive : 0 < f.ts) : f.ts ≤ readBack s.maxTs := by
  obtain ⟨ts, before, same⟩ := covers.dated
  obtain ⟨tsPositive, value⟩ := same positive
  obtain ⟨n, isNat⟩ := Int.eq_ofNat_of_zero_le (Int.le_of_lt tsPositive)
  obtain ⟨m, isMax⟩ := Int.eq_ofNat_of_zero_le (Int.le_trans (Int.le_of_lt tsPositive) before)
  have inRange := dated.2 (Int.lt_of_lt_of_le tsPositive before)
  rw [isMax, Int.toNat_natCast] at inRange
  have ordered : n ≤ m := by omega
  rw [value, isNat, isMax]
  exact readBack_mono ordered inRange

theorem Covers.not_excludes {loaded : Summary} {f : Fields} {seq seq' : Nat}
    {st st' : Stat} {filters : Filters} (covers : Covers s f)
    (dated : s.Dated)
    (load : summaryLoad (summaryWrite seq st s) seq' st' = some loaded)
    (passes : filters.pass f = true) :
    sumExcludes loaded filters = false := by
  obtain ⟨entries, maxTs, sources, levels, containers⟩ := eq_of_summaryLoad load
  simp only [summaryWrite] at entries maxTs sources levels containers
  simp only [Filters.pass, Bool.and_eq_true, Bool.or_eq_true, decide_eq_true_eq] at passes
  obtain ⟨⟨⟨source, level⟩, container⟩, since⟩ := passes
  apply sumExcludes_eq_false
  · obtain ⟨n, value⟩ := Int.eq_ofNat_of_zero_le dated.1
    have positive := covers.counted
    rw [entries, value]
    rw [value] at positive
    exact readBack_ne_zero (by exact_mod_cast positive)
  · rintro ⟨positive, old⟩
    have stamp : filters.since ≤ f.ts := by omega
    have recent := covers.ts_le dated (by omega)
    rw [maxTs] at old
    omega
  · rw [sources]
    exact not_setExcludes covers.source source
  · rw [levels]
    exact not_setExcludes covers.level level
  · rw [containers]
    exact not_setExcludes covers.container container

end Cix.Log
