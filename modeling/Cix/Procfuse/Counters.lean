import Cix.Procfuse.Stat

/-!
# Counters that do not go back

The columns of the processors add up to the aggregate in every read.  From one
read of a cgroup to the next the aggregate does not go back as long as the
cgroup's floor is still in the cache; the columns of the processors do exactly
if the lines other than the first gain no more than the whole.
-/

namespace Cix.Procfuse

open Cix.Lib List

theorem sum_share {total ncpu : Nat} (positive : 0 < ncpu) :
    ((List.range ncpu).map (share total ncpu)).sum = total := by
  obtain ⟨rest, rfl⟩ : ∃ rest, ncpu = rest + 1 := ⟨ncpu - 1, by omega⟩
  have later : ∀ i, share total (rest + 1) (i + 1) = total / (rest + 1) := by
    intro i
    simp [share]
  rw [range_succ_eq_map, map_cons, map_map, sum_cons]
  have same : share total (rest + 1) ∘ Nat.succ = fun _ => total / (rest + 1) := by
    funext i
    exact later i
  have parts := Nat.div_add_mod total (rest + 1)
  rw [Nat.add_mul, Nat.one_mul] at parts
  rw [same, map_const', length_range, sum_replicate_nat, share, if_pos rfl]
  omega

def Splits (ncpu ncpu' total total' : Nat) : Prop :=
  total + (ncpu' - 1) * (total' / ncpu') ≤ total' + (ncpu - 1) * (total / ncpu) ∧
    (1 < ncpu → 1 < ncpu' → total / ncpu ≤ total' / ncpu')

instance (ncpu ncpu' total total' : Nat) : Decidable (Splits ncpu ncpu' total total') :=
  inferInstanceAs (Decidable (_ ∧ (_ → _ → _)))

theorem first_share {total ncpu : Nat} (positive : 0 < ncpu) :
    share total ncpu 0 + (ncpu - 1) * (total / ncpu) = total := by
  have parts := Nat.div_add_mod total ncpu
  have lines : (ncpu - 1) * (total / ncpu) + total / ncpu = ncpu * (total / ncpu) := by
    rw [Nat.sub_mul, Nat.one_mul]
    exact Nat.sub_add_cancel (Nat.le_mul_of_pos_left _ positive)
  rw [share, if_pos rfl]
  omega

theorem shares_grow_iff {ncpu ncpu' total total' : Nat}
    (positive : 0 < ncpu) (positive' : 0 < ncpu') :
    (∀ i, i < ncpu → i < ncpu' → share total ncpu i ≤ share total' ncpu' i) ↔
        Splits ncpu ncpu' total total' := by
  have first := @first_share total _ positive
  have first' := @first_share total' _ positive'
  constructor
  · intro grow
    have zeroth := grow 0 positive positive'
    refine ⟨by omega, ?_⟩
    intro several several'
    have next := grow 1 several several'
    simpa [share] using next
  · rintro ⟨gain, even⟩ i inside inside'
    cases i with
    | zero => omega
    | succ i =>
      have evenly := even (by omega) (by omega)
      simpa [share] using evenly

def CpuLine.AtMost (first second : CpuLine) : Prop :=
  first.user ≤ second.user ∧ first.system ≤ second.system ∧
    first.idle ≤ second.idle

def StatLines.AtMost (first second : StatLines) : Prop :=
  first.aggregate.AtMost second.aggregate ∧
    ∀ (i : Nat) (line line' : CpuLine), first.cpus[i]? = some line →
      second.cpus[i]? = some line' → line.AtMost line'

def StatLines.SumsUp (s : StatLines) : Prop :=
  (s.cpus.map CpuLine.user).sum = s.aggregate.user ∧
    (s.cpus.map CpuLine.system).sum = s.aggregate.system ∧
    (s.cpus.map CpuLine.idle).sum = s.aggregate.idle

theorem cpuLines_sumsUp {t : CpuTimes} (positive : 0 < t.ncpu) : (cpuLines t).SumsUp := by
  simp only [StatLines.SumsUp, cpuLines, map_map]
  exact ⟨sum_share positive, sum_share positive, sum_share positive⟩

theorem cpus_getElem? (t : CpuTimes) (i : Nat) : (cpuLines t).cpus[i]? =
      if i < t.ncpu then
        some ⟨share t.user t.ncpu i, share t.system t.ncpu i, share t.idle t.ncpu i⟩
      else none := by
  simp only [cpuLines, getElem?_map]
  by_cases inside : i < t.ncpu
  · rw [getElem?_range inside, if_pos inside]
    rfl
  · rw [getElem?_eq_none (by simpa using inside), if_neg inside]
    rfl

theorem cpuLines_atMost_iff {t t' : CpuTimes} (positive : 0 < t.ncpu) (positive' : 0 < t'.ncpu) :
    (cpuLines t).AtMost (cpuLines t') ↔
      (t.user ≤ t'.user ∧ t.system ≤ t'.system ∧ t.idle ≤ t'.idle) ∧
        Splits t.ncpu t'.ncpu t.user t'.user ∧
        Splits t.ncpu t'.ncpu t.system t'.system ∧
        Splits t.ncpu t'.ncpu t.idle t'.idle := by
  rw [← shares_grow_iff positive positive', ← shares_grow_iff positive positive',
    ← shares_grow_iff positive positive']
  unfold StatLines.AtMost
  constructor
  · rintro ⟨whole, lines⟩
    have line : ∀ i, i < t.ncpu → i < t'.ncpu → share t.user t.ncpu i ≤ share t'.user t'.ncpu i ∧
          share t.system t.ncpu i ≤ share t'.system t'.ncpu i ∧
          share t.idle t.ncpu i ≤ share t'.idle t'.ncpu i := by
      intro i inside inside'
      exact lines i _ _ (by rw [cpus_getElem?, if_pos inside])
        (by rw [cpus_getElem?, if_pos inside'])
    exact ⟨whole, fun i inside inside' => (line i inside inside').1,
      fun i inside inside' => (line i inside inside').2.1,
      fun i inside inside' => (line i inside inside').2.2⟩
  · rintro ⟨whole, user, system, idle⟩
    refine ⟨whole, ?_⟩
    intro i line line' isLine isLine'
    rw [cpus_getElem?] at isLine isLine'
    split at isLine
    next inside =>
      split at isLine'
      next inside' =>
        cases isLine
        cases isLine'
        exact ⟨user i inside inside', system i inside inside', idle i inside inside'⟩
      next => cases isLine'
    next => cases isLine

section Runs

variable {α : Type} [DecidableEq α] {ticks : Nat}

def visitsOf (ticks : Nat) (reads : List (Sample α)) :
    List (CStr × (Option (IdleFloor α) → IdleFloor α)) :=
  reads.filterMap fun s => s.cg.map fun cg =>
    (cg, raiseFloor s.oldestStarttimeTicks s.allowance (rawIdle ticks s))

def cgroups (reads : List (Sample α)) : Finset CStr :=
  (reads.filterMap Sample.cg).toFinset

theorem renderStat_cache (cache : IdleCache α) (s : Sample α) :
    (renderStat ticks cache s).2 = cache.visits idleCacheMax (visitsOf ticks [s]) := by
  unfold renderStat cgroupCpuTimes idleMonotonic visitsOf
  cases isCg : s.cg with
  | none => simp [isCg, Recent.visits]
  | some cg => simp [isCg, Recent.visits]

theorem foldl_renderStat (cache : IdleCache α) (reads : List (Sample α)) :
    reads.foldl (fun cache s => (renderStat ticks cache s).2) cache =
      cache.visits idleCacheMax (visitsOf ticks reads) := by
  induction reads generalizing cache with
  | nil => rfl
  | cons s rest ih =>
    rw [foldl_cons, ih, renderStat_cache]
    have both : visitsOf ticks (s :: rest) = visitsOf ticks [s] ++ visitsOf ticks rest := by
      unfold visitsOf
      rw [← filterMap_append]
      rfl
    rw [both]
    unfold Recent.visits
    rw [List.foldl_append]

theorem valid_visits {κ ν : Type} [DecidableEq κ] {size : Nat}
    {r : Recent κ ν} (valid : r.Valid size)
    (list : List (κ × (Option ν → ν))) :
    (r.visits size list).Valid size := by
  induction list generalizing r with
  | nil => exact valid
  | cons v rest ih => exact ih (Recent.visit_valid valid v.1 v.2)

/-- A read of a cgroup, and the next one of the same occupant under the same
limit, whose accounting has not gone back. -/
structure Continues (first second : Sample α) : Prop where
  starttime : first.oldestStarttimeTicks = second.oldestStarttimeTicks
  allowance : first.allowance = second.allowance
  user : first.userUsec ≤ second.userUsec
  system : first.systemUsec ≤ second.systemUsec

theorem usecTicks_mono {usec usec' : Int} (grows : usec ≤ usec') :
    usecTicks ticks usec ≤ usecTicks ticks usec' :=
  Nat.div_le_div_right (Nat.mul_le_mul_right _ (Int.toNat_le_toNat grows))

theorem served_idle (before : List (Sample α)) {s : Sample α} {cg : CStr} (isCg : s.cg = some cg) :
    (served ticks before s).aggregate.idle =
      (raiseFloor s.oldestStarttimeTicks s.allowance (rawIdle ticks s)
        ((cacheAfter ticks before).lookup cg)).idle := by
  simp only [served, renderStat, cgroupCpuTimes, idleMonotonic, isCg]
  rfl

theorem lookup_after (before between : List (Sample α)) {s : Sample α}
    {cg : CStr} (isCg : s.cg = some cg)
    (others : ∀ other ∈ between, other.cg ≠ some cg) :
    (cacheAfter ticks (before ++ s :: between)).lookup cg =
      if (cgroups between).card < idleCacheMax then
        some (raiseFloor s.oldestStarttimeTicks s.allowance (rawIdle ticks s)
          ((cacheAfter ticks before).lookup cg))
      else none := by
  have valid : (cacheAfter ticks before).Valid idleCacheMax := by
    unfold cacheAfter
    rw [foldl_renderStat]
    exact valid_visits (Recent.valid_start _) _
  have foreign : ∀ v ∈ visitsOf ticks between, v.1 ≠ cg := by
    intro v mem
    unfold visitsOf at mem
    obtain ⟨other, isOther, isVisit⟩ := mem_filterMap.mp mem
    obtain ⟨otherCg, isOtherCg, rfl⟩ := Option.map_eq_some_iff.mp isVisit
    rintro rfl
    exact others other isOther isOtherCg
  have keys : ((visitsOf ticks between).map Prod.fst).toFinset =
      cgroups between := by
    unfold visitsOf cgroups
    rw [map_filterMap]
    congr 2
    funext other
    cases other.cg with
    | none => rfl
    | some otherCg => rfl
  have run : cacheAfter ticks (before ++ s :: between) =
      ((cacheAfter ticks before).visit idleCacheMax cg
        (raiseFloor s.oldestStarttimeTicks s.allowance
          (rawIdle ticks s))).2.visits idleCacheMax (visitsOf ticks between) := by
    rw [cacheAfter, List.foldl_append, foldl_cons, renderStat_cache, foldl_renderStat]
    simp only [visitsOf, filterMap_cons, isCg, filterMap_nil]
    rfl
  rw [run, Recent.lookup_visits (by decide) valid cg _ _ foreign, keys]
  rfl

def nextIdle (ticks floor : Nat) (between : List (Sample α)) (s : Sample α) : Nat :=
  if (cgroups between).card < idleCacheMax then max floor (rawIdle ticks s)
  else rawIdle ticks s

theorem served_next (before between : List (Sample α))
    {first second : Sample α} {cg : CStr} (isCg : first.cg = some cg)
    (sameCg : second.cg = some cg)
    (others : ∀ other ∈ between, other.cg ≠ some cg)
    (continues : Continues first second) :
    (served ticks (before ++ first :: between) second).aggregate.idle =
      nextIdle ticks (served ticks before first).aggregate.idle between
        second := by
  rw [served_idle _ sameCg, lookup_after before between isCg others,
    served_idle before isCg, nextIdle]
  by_cases kept : (cgroups between).card < idleCacheMax
  · rw [if_pos kept, if_pos kept]
    have basis : ∀ floor : Option (IdleFloor α),
        (raiseFloor first.oldestStarttimeTicks first.allowance
            (rawIdle ticks first) floor).starttimeTicks =
          second.oldestStarttimeTicks ∧
        (raiseFloor first.oldestStarttimeTicks first.allowance
            (rawIdle ticks first) floor).allowance = second.allowance := by
      intro floor
      rw [← continues.starttime, ← continues.allowance]
      unfold raiseFloor
      cases floor with
      | none => exact ⟨rfl, rfl⟩
      | some slot =>
        simp only
        split
        · exact ⟨rfl, rfl⟩
        next same =>
          rw [not_or, not_not, not_not] at same
          split
          · exact same
          · exact same
    obtain ⟨start, allowance⟩ := basis ((cacheAfter ticks before).lookup cg)
    rw [raiseFloor, if_neg (by rw [start, allowance]; simp)]
    split
    next higher => exact (Nat.max_eq_right (Nat.le_of_lt higher)).symm
    next lower => exact (Nat.max_eq_left (Nat.not_lt.mp lower)).symm
  · rw [if_neg kept, if_neg kept]
    rfl

/-- In every read the processors add up to the aggregate.  From a read of a
cgroup to its next one no counter goes back exactly if the new idle column is
not below the old one, which is so as long as the cgroup is in the cache, and
each column splits over the processors without taking from a line. -/
theorem counters_monotone_iff (before between : List (Sample α))
    (first second : Sample α) (cg : CStr) (isCg : first.cg = some cg)
    (sameCg : second.cg = some cg)
    (others : ∀ other ∈ between, other.cg ≠ some cg)
    (continues : Continues first second) :
    let old := served ticks before first
    let new := served ticks (before ++ first :: between) second
    let idle := nextIdle ticks old.aggregate.idle between second
    old.SumsUp ∧ new.SumsUp ∧ (old.AtMost new ↔ ((cgroups between).card < idleCacheMax ∨
          old.aggregate.idle ≤ rawIdle ticks second) ∧
        Splits first.ncpu second.ncpu (usecTicks ticks first.userUsec)
          (usecTicks ticks second.userUsec) ∧
        Splits first.ncpu second.ncpu (usecTicks ticks first.systemUsec)
          (usecTicks ticks second.systemUsec) ∧
        Splits first.ncpu second.ncpu old.aggregate.idle idle) := by
  intro old new idle
  have isIdle : new.aggregate.idle = idle :=
    served_next before between isCg sameCg others continues
  refine ⟨cpuLines_sumsUp first.ncpuPositive, cpuLines_sumsUp second.ncpuPositive, ?_⟩
  have floor : old.aggregate.idle ≤ idle ↔ ((cgroups between).card < idleCacheMax ∨
        old.aggregate.idle ≤ rawIdle ticks second) := by
    unfold idle nextIdle
    by_cases kept : (cgroups between).card < idleCacheMax
    · rw [if_pos kept]
      exact iff_of_true (Nat.le_max_left _ _) (Or.inl kept)
    · rw [if_neg kept]
      exact ⟨Or.inr, fun either => either.resolve_left kept⟩
  have lines := @cpuLines_atMost_iff
    ⟨usecTicks ticks first.userUsec, usecTicks ticks first.systemUsec,
      old.aggregate.idle, first.ncpu⟩
    ⟨usecTicks ticks second.userUsec, usecTicks ticks second.systemUsec,
      new.aggregate.idle, second.ncpu⟩ first.ncpuPositive second.ncpuPositive
  rw [isIdle] at lines
  have isOld : old = cpuLines ⟨usecTicks ticks first.userUsec,
      usecTicks ticks first.systemUsec, old.aggregate.idle, first.ncpu⟩ :=
    rfl
  have isNew : new = cpuLines ⟨usecTicks ticks second.userUsec,
      usecTicks ticks second.systemUsec, idle, second.ncpu⟩ := by
    rw [← isIdle]
    rfl
  rw [← floor]
  rw [← isOld, ← isNew] at lines
  rw [lines]
  have user := @usecTicks_mono ticks _ _ continues.user
  have system := @usecTicks_mono ticks _ _ continues.system
  constructor
  · rintro ⟨⟨_, _, grows⟩, splits⟩
    exact ⟨grows, splits⟩
  · rintro ⟨grows, splits⟩
    exact ⟨⟨user, system, grows⟩, splits⟩

end Runs

def busy (ncpu : Nat) (positive : 0 < ncpu) (used : Nat) : Sample Nat where
  cg := some (CStr.ofString "/sys/fs/cgroup/web")
  oldestStarttimeTicks := 700
  allowance := 1
  userUsec := 10000 * used
  systemUsec := 0
  ncpu := ncpu
  capacity := used
  ncpuPositive := positive

theorem busy_pair_monotone : (served 100 [] (busy 2 (by decide) 2)).AtMost
      (served 100 [busy 2 (by decide) 2] (busy 2 (by decide) 3)) := by
  obtain ⟨_, _, monotone⟩ := @counters_monotone_iff Nat _ 100 [] []
    (busy 2 (by decide) 2) (busy 2 (by decide) 3) _ rfl rfl
    (fun other mem => by cases mem)
    ⟨rfl, rfl, by decide, by decide⟩
  exact monotone.mpr ⟨Or.inl (by decide), by decide +kernel, by decide +kernel,
      by decide +kernel⟩

/-- On three processors the first line goes from 2 back to 1 when the column
goes from 2 to 3. -/
theorem first_processor_goes_back : Continues (busy 3 (by decide) 2) (busy 3 (by decide) 3) ∧
      (served 100 [] (busy 3 (by decide) 2)).cpus.head?.map CpuLine.user = some 2 ∧
      (served 100 [busy 3 (by decide) 2]
        (busy 3 (by decide) 3)).cpus.head?.map CpuLine.user = some 1 ∧
      ¬ (served 100 [] (busy 3 (by decide) 2)).AtMost
        (served 100 [busy 3 (by decide) 2] (busy 3 (by decide) 3)) := by
  refine ⟨⟨rfl, rfl, by decide, by decide⟩, by decide +kernel,
    by decide +kernel, ?_⟩
  rintro ⟨_, lines⟩
  have first := lines 0 ⟨2, 0, 0⟩ ⟨1, 0, 0⟩ (by decide +kernel) (by decide +kernel)
  exact absurd first.1 (by decide)

end Cix.Procfuse
