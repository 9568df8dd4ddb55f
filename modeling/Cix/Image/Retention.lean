import Mathlib.Data.List.Sort
import Cix.Lib.StringOrder

/-!
# Which versions of an image are kept

`image_retain_plan` and `image_retain_commit` of `daemon/src/image.c`.  A
recorded version is as old as its record says, and its place in the history
tells those of one second apart; another one is as old as its directory.  The
directories are those that hold a `rootfs`; no time is before the epoch.
-/

namespace Cix.Image

open Cix.Lib List

def imageMaxVersionHistory : Nat := 256

structure VersionEntry where
  version : CStr
  createdAt : Nat
  deriving DecidableEq

/-- What `load_state` reads of the versions of an image. -/
structure ImageState where
  currentVersion : CStr
  versions : List VersionEntry
  short : versions.length ≤ imageMaxVersionHistory

structure VersionDir where
  name : CStr
  /-- `version_dir_birth_ns`. -/
  birth : Nat

structure RetainWork where
  v : VersionEntry
  key : Nat
  deriving DecidableEq

/-- The search of the history, from its `j`-th entry on. -/
def recordedFrom (name : CStr) : Nat → List VersionEntry → Option RetainWork
  | _, [] => none
  | j, v :: rest =>
    if v.version = name then some ⟨v, v.createdAt * 1000000000 + j⟩
    else recordedFrom name (j + 1) rest

def workOf (versions : List VersionEntry) (dir : VersionDir) : RetainWork :=
  (recordedFrom dir.name 0 versions).getD ⟨⟨dir.name, dir.birth / 1000000000⟩, dir.birth⟩

def retainWorkCmp : RetainWork → RetainWork → Ordering :=
  compareLex (compareOn RetainWork.key) (onKey strcmp fun w => w.v.version)

def WorkLe (a b : RetainWork) : Prop := (retainWorkCmp a b).isLE = true

instance : DecidableRel WorkLe :=
  fun a b => inferInstanceAs (Decidable ((retainWorkCmp a b).isLE = true))

def sortedWork (versions : List VersionEntry) (dirs : List VersionDir) : List RetainWork :=
  (dirs.map (workOf versions)).insertionSort WorkLe

/-- The loop over the versions, the newest first: each with whether it is dropped. -/
def markDrops (needed : CStr → Bool) (keep : Nat) :
    List VersionEntry → (unreferencedKept : Nat) → List (VersionEntry × Bool)
  | [], _ => []
  | v :: rest, kept =>
    if needed v.version then (v, false) :: markDrops needed keep rest kept
    else if kept < keep then (v, false) :: markDrops needed keep rest (kept + 1)
    else (v, true) :: markDrops needed keep rest kept

def needs (st : ImageState) (referenced : CStr → Bool) (version : CStr) : Bool :=
  version = st.currentVersion || referenced version

/-- `image_retain_plan`: the entries, the oldest first. -/
def imageRetainPlan (st : ImageState) (dirs : List VersionDir) (referenced : CStr → Bool)
    (keep : Nat) : List (VersionEntry × Bool) :=
  (markDrops (needs st referenced) keep ((sortedWork st.versions dirs).map RetainWork.v).reverse
    0).reverse

/-- `image_retain_commit`; `there` says which directories are still there. -/
def imageRetainCommit (st : ImageState) (plan : List (VersionEntry × Bool))
    (there : CStr → Bool) : ImageState :=
  let survivors := (plan.filter fun e => !e.2 || there e.1.version).map Prod.fst
  { st with
    versions := survivors.drop (survivors.length - imageMaxVersionHistory)
    short := by
      rw [length_drop]
      omega }

/-! ## The order -/

/-- What the history has of a version, and its place there. -/
def recorded (versions : List VersionEntry) (name : CStr) : Option (VersionEntry × Nat) :=
  versions.zipIdx.find? fun e => e.1.version = name

def entryOf (versions : List VersionEntry) (dir : VersionDir) : VersionEntry :=
  ((recorded versions dir.name).map Prod.fst).getD ⟨dir.name, dir.birth / 1000000000⟩

/-- The age as a time in nanoseconds: that of the record, with the place in the
history behind the second, or that of the directory. -/
def bornAt (versions : List VersionEntry) (dir : VersionDir) : Nat :=
  ((recorded versions dir.name).map fun e => e.1.createdAt * 1000000000 + e.2).getD dir.birth

/-- One directory is the older one, or as old and the first by its name. -/
def Older (versions : List VersionEntry) (a b : VersionDir) : Prop :=
  bornAt versions a < bornAt versions b ∨
    bornAt versions a = bornAt versions b ∧ strcmp a.name b.name = .lt

instance : Std.TransCmp retainWorkCmp :=
  inferInstanceAs (Std.TransCmp (compareLex _ _))

instance : IsTrans RetainWork WorkLe := ⟨fun _ _ _ => Std.TransCmp.isLE_trans⟩

instance : Std.Total WorkLe := ⟨fun a b => by
  rw [WorkLe, WorkLe, @Std.OrientedCmp.eq_swap _ retainWorkCmp _ b a]
  cases retainWorkCmp a b <;> simp⟩

variable {versions : List VersionEntry} {dirs : List VersionDir} {w : RetainWork}

/-- There is one order of works of different versions. -/
theorem insertionSort_eq_of_perm {works sorted : List RetainWork}
    (distinct : (works.map fun w => w.v.version).Nodup) (perm : works.Perm sorted)
    (ordered : sorted.Pairwise WorkLe) : works.insertionSort WorkLe = sorted := by
  refine Perm.eq_of_pairwise ?_ (pairwise_insertionSort _ _) ordered
    ((perm_insertionSort _ _).trans perm)
  intro a b memA memB ab ba
  have same := Std.OrientedCmp.isLE_antisymm ab ba
  rw [retainWorkCmp, compareLex_eq_eq] at same
  exact inj_on_of_nodup_map distinct ((mem_insertionSort _).mp memA) (perm.mem_iff.mpr memB)
    (strcmp_eq_iff.mp same.2)

theorem recordedFrom_spec {name : CStr} {j : Nat} (found : recordedFrom name j versions = some w) :
    w.v.version = name ∧ w.v ∈ versions ∧ w.v.createdAt * 1000000000 + j ≤ w.key ∧
      w.key < w.v.createdAt * 1000000000 + j + versions.length := by
  induction versions generalizing j with
  | nil => cases found
  | cons v rest ih =>
    rw [recordedFrom] at found
    split at found
    next isHere =>
      cases found
      exact ⟨isHere, mem_cons_self, Nat.le_refl _, by simp⟩
    next =>
      obtain ⟨same, mem, lower, upper⟩ := ih found
      refine ⟨same, mem_cons_of_mem _ mem, by omega, ?_⟩
      rw [length_cons]
      omega

theorem recordedFrom_eq (name : CStr) (j : Nat) : recordedFrom name j versions =
    ((versions.zipIdx j).find? fun e => e.1.version = name).map fun e =>
      ⟨e.1, e.1.createdAt * 1000000000 + e.2⟩ := by
  induction versions generalizing j with
  | nil => rfl
  | cons v rest ih =>
    rw [recordedFrom, zipIdx_cons, find?_cons]
    split
    next isHere => simp [isHere]
    next other => simp [other, ih]

theorem workOf_eq (versions : List VersionEntry) (dir : VersionDir) :
    workOf versions dir = ⟨entryOf versions dir, bornAt versions dir⟩ := by
  rw [workOf, recordedFrom_eq, entryOf, bornAt, recorded]
  cases versions.zipIdx.find? fun e => e.1.version = dir.name <;> rfl

theorem workOf_spec (short : versions.length ≤ imageMaxVersionHistory) (dir : VersionDir) :
    (workOf versions dir).v.version = dir.name ∧
      (workOf versions dir).v.createdAt = (workOf versions dir).key / 1000000000 := by
  have bound : imageMaxVersionHistory = 256 := rfl
  rw [workOf]
  cases found : recordedFrom dir.name 0 versions with
  | none => exact ⟨rfl, rfl⟩
  | some w =>
    obtain ⟨same, -, lower, upper⟩ := recordedFrom_spec found
    refine ⟨same, ?_⟩
    rw [Option.getD_some]
    omega

theorem versions_works (short : versions.length ≤ imageMaxVersionHistory)
    (dirs : List VersionDir) :
    ((dirs.map (workOf versions)).map fun w => w.v.version) = dirs.map VersionDir.name := by
  rw [map_map]
  exact map_congr_left fun dir _ => (workOf_spec short dir).1

/-- The works of a history that is in order and without repetitions are in the
same order. -/
theorem works_of_history (j : Nat) (distinct : (versions.map VersionEntry.version).Nodup)
    (ordered : versions.Pairwise fun a b => a.createdAt ≤ b.createdAt) :
    ∃ works : List RetainWork, works.map RetainWork.v = versions ∧ works.Pairwise WorkLe ∧
      (∀ w ∈ works, w.v.createdAt * 1000000000 + j ≤ w.key) ∧
      ∀ w ∈ works, recordedFrom w.v.version j versions = some w := by
  induction versions generalizing j with
  | nil => exact ⟨[], rfl, Pairwise.nil, by simp, by simp⟩
  | cons v rest ih =>
    rw [map_cons, nodup_cons] at distinct
    rw [pairwise_cons] at ordered
    obtain ⟨works, isRest, sorted, later, found⟩ := ih (j + 1) distinct.2 ordered.2
    have memRest : ∀ w ∈ works, w.v ∈ rest := fun w mem => isRest ▸ mem_map_of_mem mem
    refine ⟨⟨v, v.createdAt * 1000000000 + j⟩ :: works, by rw [map_cons, isRest],
      pairwise_cons.mpr ⟨?_, sorted⟩, ?_, ?_⟩
    · intro w mem
      have after := later w mem
      have older := ordered.1 w.v (memRest w mem)
      have less : v.createdAt * 1000000000 + j < w.key := by omega
      rw [WorkLe, retainWorkCmp, compareLex, compareOn, Nat.compare_eq_lt.mpr less]
      rfl
    · intro w mem
      rcases mem_cons.mp mem with rfl | inRest
      · exact Nat.le_refl _
      · have := later w inRest
        omega
    · intro w mem
      rcases mem_cons.mp mem with rfl | inRest
      · exact if_pos rfl
      · rw [recordedFrom, if_neg, found w inRest]
        intro same
        exact distinct.1 (same ▸ mem_map_of_mem (memRest w inRest))

theorem createdAt_sortedWork (short : versions.length ≤ imageMaxVersionHistory)
    (dirs : List VersionDir) : ((sortedWork versions dirs).map RetainWork.v).Pairwise
      fun a b => a.createdAt ≤ b.createdAt := by
  rw [pairwise_map]
  refine (pairwise_insertionSort WorkLe _).imp_of_mem fun {a b} memA memB ordered => ?_
  obtain ⟨dirA, -, rfl⟩ := mem_map.mp ((mem_insertionSort _).mp memA)
  obtain ⟨dirB, -, rfl⟩ := mem_map.mp ((mem_insertionSort _).mp memB)
  rw [(workOf_spec short dirA).2, (workOf_spec short dirB).2]
  refine Nat.div_le_div_right (Nat.le_of_not_lt fun less => ?_)
  rw [WorkLe, retainWorkCmp, compareLex, compareOn, Nat.compare_eq_gt.mpr less] at ordered
  cases ordered

/-- The directories of a history have its works, whatever their births are. -/
theorem perm_works {left : List VersionDir} {works : List RetainWork}
    (names : (left.map VersionDir.name).Perm (versions.map VersionEntry.version))
    (isHistory : works.map RetainWork.v = versions)
    (found : ∀ w ∈ works, recordedFrom w.v.version 0 versions = some w) :
    (left.map (workOf versions)).Perm works := by
  have versionsEq : versions.map VersionEntry.version = works.map fun w => w.v.version := by
    rw [← isHistory, map_map]
    rfl
  rw [versionsEq] at names
  have first : left.map (workOf versions) =
      (left.map VersionDir.name).map fun name => workOf versions ⟨name, 0⟩ := by
    rw [map_map]
    refine map_congr_left fun dir mem => ?_
    obtain ⟨w, inWorks, isName⟩ := mem_map.mp (names.mem_iff.mp (mem_map_of_mem mem))
    rw [Function.comp, workOf, workOf, ← isName, found w inWorks]
    rfl
  have second : (works.map fun w => w.v.version).map (fun name => workOf versions ⟨name, 0⟩) =
      works := by
    rw [map_map]
    refine (map_congr_left fun w mem => ?_).trans (map_id works)
    rw [Function.comp, workOf, found w mem]
    rfl
  rw [first]
  exact second ▸ names.map _

theorem older_of_workLe (short : versions.length ≤ imageMaxVersionHistory) {a b : VersionDir}
    (apart : a.name ≠ b.name) (le : WorkLe (workOf versions a) (workOf versions b)) :
    Older versions a b := by
  have names := (workOf_spec short a).1
  have names' := (workOf_spec short b).1
  rw [WorkLe, retainWorkCmp, compareLex, compareOn, onKey, names, names', workOf_eq,
    workOf_eq] at le
  rcases Nat.lt_trichotomy (bornAt versions a) (bornAt versions b) with less | same | more
  · exact .inl less
  · refine .inr ⟨same, ?_⟩
    rw [same, Nat.compare_eq_eq.mpr rfl] at le
    cases byName : strcmp a.name b.name with
    | lt => rfl
    | eq => exact absurd (strcmp_eq_iff.mp byName) apart
    | gt =>
      rw [byName] at le
      cases le
  · rw [Nat.compare_eq_gt.mpr more] at le
    cases le

/-- The works in their order are those of the directories, the oldest first. -/
theorem sortedWork_eq (short : versions.length ≤ imageMaxVersionHistory)
    (distinct : (dirs.map VersionDir.name).Nodup) :
    ∃ order : List VersionDir, order.Perm dirs ∧ order.Pairwise (Older versions) ∧
      sortedWork versions dirs = order.map (workOf versions) := by
  let r := fun a b => WorkLe (workOf versions a) (workOf versions b)
  have sorted : (dirs.insertionSort r).map (workOf versions) = sortedWork versions dirs :=
    map_insertionSort r WorkLe _ _ fun _ _ _ _ => Iff.rfl
  have perm := perm_insertionSort r dirs
  refine ⟨dirs.insertionSort r, perm, ?_, sorted.symm⟩
  have ordered := pairwise_insertionSort WorkLe (dirs.map (workOf versions))
  have apart := (perm.map VersionDir.name).nodup_iff.mpr distinct
  rw [← sortedWork, ← sorted, pairwise_map] at ordered
  rw [Nodup, pairwise_map] at apart
  exact (apart.and ordered).imp fun both => older_of_workLe short both.1 both.2

/-! ## The plan -/

variable {needed : CStr → Bool} {keep : Nat}

/-- Of the versions that nothing needs, the first `keep` stay. -/
theorem flags_markDrops (entries : List VersionEntry) (kept : Nat) :
    (markDrops needed keep entries kept).map Prod.fst = entries ∧
      (∀ v, (v, true) ∈ markDrops needed keep entries kept → needed v.version = false) ∧
      ((markDrops needed keep entries kept).filter fun e => !needed e.1.version).map Prod.snd =
        List.replicate (min (keep - kept) (entries.countP fun v => !needed v.version)) false ++
          List.replicate (entries.countP (fun v => !needed v.version) - (keep - kept)) true := by
  induction entries generalizing kept with
  | nil => simp [markDrops]
  | cons v rest ih =>
    rw [markDrops]
    cases isNeeded : needed v.version with
    | true =>
      obtain ⟨same, stay, flags⟩ := ih kept
      simp [isNeeded, same, flags]
      exact stay
    | false =>
      rw [if_neg Bool.false_ne_true]
      split
      next room =>
        obtain ⟨same, stay, flags⟩ := ih (kept + 1)
        obtain ⟨left, isLeft⟩ : ∃ left, keep - kept = left + 1 := ⟨keep - kept - 1, by omega⟩
        have less : keep - (kept + 1) = left := by omega
        rw [less] at flags
        simp [isNeeded, same, flags, isLeft, Nat.add_min_add_right, replicate_succ]
        exact stay
      next full =>
        obtain ⟨same, stay, flags⟩ := ih kept
        have none : keep - kept = 0 := by omega
        rw [none] at flags
        simp [isNeeded, same, flags, none, replicate_succ]
        exact stay

/-- What a marking leaves is marked as a whole to stay. -/
theorem markDrops_kept (entries : List VersionEntry) (kept : Nat) :
    let left := ((markDrops needed keep entries kept).filter fun e => !e.2).map Prod.fst
    markDrops needed keep left kept = left.map fun v => (v, false) := by
  induction entries generalizing kept with
  | nil => rfl
  | cons v rest ih =>
    dsimp only at ih ⊢
    rw [markDrops]
    split
    next isNeeded => simp [markDrops, isNeeded, ih]
    next =>
      split
      next room => simp [markDrops, *]
      next => simp [ih]

/-- A plan is the same in whatever order the directory lists the versions.  It
lists the directories, the oldest first, drops none that is current or
referenced, and of the others exactly those that are older than the newest
`keep`. -/
theorem retain_plan_exact (st : ImageState) (dirs : List VersionDir) (referenced : CStr → Bool)
    (keep : Nat) (distinct : (dirs.map VersionDir.name).Nodup) :
    (∀ listed, listed.Perm dirs →
      imageRetainPlan st listed referenced keep = imageRetainPlan st dirs referenced keep) ∧
    (∃ order : List VersionDir, order.Perm dirs ∧ order.Pairwise (Older st.versions) ∧
      (imageRetainPlan st dirs referenced keep).map Prod.fst =
        order.map (entryOf st.versions)) ∧
    (∀ v, (v, true) ∈ imageRetainPlan st dirs referenced keep →
      v.version ≠ st.currentVersion ∧ referenced v.version = false) ∧
    let unneeded := (dirs.map VersionDir.name).countP fun name => !needs st referenced name
    ((imageRetainPlan st dirs referenced keep).filter fun e =>
        !needs st referenced e.1.version).map Prod.snd =
      List.replicate (unneeded - keep) true ++ List.replicate (min keep unneeded) false := by
  have spec := @flags_markDrops (needs st referenced) keep
    ((sortedWork st.versions dirs).map RetainWork.v).reverse 0
  refine ⟨fun listed perm => ?_, ?_, ?_, ?_⟩
  · rw [imageRetainPlan, imageRetainPlan, sortedWork, insertionSort_eq_of_perm _
      ((perm.map _).trans (perm_insertionSort _ _).symm) (pairwise_insertionSort _ _)]
    · rfl
    · rw [versions_works st.short]
      exact (perm.map _).nodup_iff.mpr distinct
  · obtain ⟨order, perm, oldestFirst, works⟩ := sortedWork_eq st.short distinct
    refine ⟨order, perm, oldestFirst, ?_⟩
    rw [imageRetainPlan, map_reverse, spec.1, reverse_reverse, works, map_map]
    exact map_congr_left fun dir _ => by rw [Function.comp, workOf_eq]
  · intro v mem
    simpa [needs] using spec.2.1 v (mem_reverse.mp mem)
  · dsimp only
    rw [imageRetainPlan, filter_reverse, map_reverse, spec.2.2, reverse_append, reverse_replicate,
      reverse_replicate, ← versions_works st.short, countP_map, countP_reverse, countP_map,
      sortedWork, (perm_insertionSort _ _).countP_eq]
    rfl

/-- A history that has only the oldest of three versions. -/
def oldRecord : ImageState where
  currentVersion := "a"
  versions := [⟨"a", 5⟩]
  short := by decide

def threeVersions : List VersionDir := [⟨"b", 7000000000⟩, ⟨"a", 1⟩, ⟨"c", 9000000000⟩]

theorem threeVersions_reversed :
    imageRetainPlan oldRecord threeVersions.reverse (fun _ => false) 1 =
    [(⟨"a", 5⟩, false), (⟨"b", 7⟩, true), (⟨"c", 9⟩, false)] :=
  ((retain_plan_exact oldRecord threeVersions _ 1 (by decide)).1 _ (reverse_perm _)).trans
    (by decide +kernel)

/-- When every version that a plan drops is gone, the next plan drops nothing
and finds the history and the directories in agreement. -/
theorem retention_settles (st : ImageState) (dirs left : List VersionDir)
    (referenced : CStr → Bool) (keep : Nat) (distinct : (dirs.map VersionDir.name).Nodup)
    (gone : (left.map VersionDir.name).Perm (((imageRetainPlan st dirs referenced keep).filter
      fun e => !e.2).map fun e => e.1.version))
    (few : left.length ≤ imageMaxVersionHistory) :
    let st' := imageRetainCommit st (imageRetainPlan st dirs referenced keep) fun _ => false
    imageRetainPlan st' left referenced keep = st'.versions.map (fun v => (v, false)) ∧
      st'.versions.length = left.length := by
  intro st'
  have spec := (@flags_markDrops (needs st referenced) keep
    ((sortedWork st.versions dirs).map RetainWork.v).reverse 0).1
  have kept := @markDrops_kept (needs st referenced) keep
    ((sortedWork st.versions dirs).map RetainWork.v).reverse 0
  dsimp only at kept
  simp only [imageRetainPlan, filter_reverse, map_reverse] at gone
  have survivors : st'.versions = (((markDrops (needs st referenced) keep
      ((sortedWork st.versions dirs).map RetainWork.v).reverse 0).filter
        fun e => !e.2).map Prod.fst).reverse := by
    have size := gone.length_eq
    simp only [length_map, length_reverse] at size
    simp [st', imageRetainCommit, imageRetainPlan, filter_reverse, ← size,
      Nat.sub_eq_zero_of_le few]
  have among : st'.versions.Sublist ((sortedWork st.versions dirs).map RetainWork.v) := by
    rw [survivors, ← reverse_sublist, reverse_reverse]
    conv => rhs; rw [← spec]
    exact filter_sublist.map Prod.fst
  have names : (left.map VersionDir.name).Perm (st'.versions.map VersionEntry.version) := by
    simpa [survivors, Function.comp_def] using gone
  have apart : (st'.versions.map VersionEntry.version).Nodup := by
    refine (?_ : Nodup _).sublist (among.map VersionEntry.version)
    rw [map_map]
    refine ((perm_insertionSort _ _).map _).nodup_iff.mpr ?_
    rwa [← versions_works st.short] at distinct
  obtain ⟨works, isHistory, sorted, -, found⟩ := works_of_history 0 apart
    ((createdAt_sortedWork st.short dirs).sublist among)
  have listed : (left.map (workOf st'.versions)).Perm works := perm_works names isHistory found
  have isSorted : sortedWork st'.versions left = works := by
    refine insertionSort_eq_of_perm ?_ listed sorted
    rw [versions_works st'.short]
    exact names.nodup_iff.mpr apart
  have size := names.length_eq
  rw [length_map, length_map] at size
  refine ⟨?_, size.symm⟩
  have same : needs st' referenced = needs st referenced := by
    funext version
    simp only [needs, st', imageRetainCommit]
  rw [imageRetainPlan, isSorted, isHistory, same, survivors, reverse_reverse, kept, map_reverse]

theorem threeVersions_settle : imageRetainPlan (imageRetainCommit oldRecord
    (imageRetainPlan oldRecord threeVersions (fun _ => false) 1) fun _ => false)
      [⟨"c", 9000000000⟩, ⟨"a", 1⟩] (fun _ => false) 1 = [(⟨"a", 5⟩, false), (⟨"c", 9⟩, false)] :=
  (retention_settles oldRecord threeVersions [⟨"c", 9000000000⟩, ⟨"a", 1⟩] _ 1 (by decide)
    (by decide +kernel) (by decide)).1.trans (by decide +kernel)

end Cix.Image
