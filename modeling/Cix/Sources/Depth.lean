import Cix.Json.Parser
import Cix.Json.Writer
import Cix.Lib.Ranking
import Mathlib.Data.Prod.Lex

/-!
# The depth in a channel

`daemon/src/srcdepth.c`: a depth `n-<lines>.<releases>` stands for the newest
release of a release line so many lines back, or for one so many releases
back from it.  The candidates come in any order, and some are no versions.
-/

namespace Cix.Sources

open Cix.Lib Cix.Json List

/-- `struct srcdepth_version`, of a text that parses. -/
structure Version where
  (major minor patch : Nat)
  deriving DecidableEq

def Version.line (v : Version) : Nat ×ₗ Nat :=
  toLex (v.major, v.minor)

def Version.key (v : Version) : (Nat ×ₗ Nat) ×ₗ Nat :=
  toLex (v.line, v.patch)

theorem Version.key_injective : Function.Injective Version.key := by
  rintro ⟨_, _, _⟩ ⟨_, _, _⟩ same
  cases same
  rfl

instance : LinearOrder Version :=
  LinearOrder.lift' Version.key Version.key_injective

theorem Version.line_le {v w : Version} (le : v ≤ w) : v.line ≤ w.line :=
  Prod.Lex.monotone_fst _ _ le

/-- The loop of `read_uint`. -/
def readUintFrom (v : Nat) : List UInt8 → Option (Nat × List UInt8)
  | [] => some (v, [])
  | c :: rest =>
    if isDigit c then
      let v := v * 10 + (c.toNat - 48)
      if v > 100000 then none else readUintFrom v rest
    else some (v, c :: rest)

def readUint : List UInt8 → Option (Nat × List UInt8)
  | [] => none
  | c :: rest => if isDigit c then readUintFrom 0 (c :: rest) else none

def unprefixed (text : List UInt8) : List UInt8 :=
  match text.dropWhile fun c => c = 32 ∨ c = 9 with
  | 118 :: rest => rest
  | 86 :: rest => rest
  | rest => rest

def component : List UInt8 → Option (Nat × List UInt8)
  | 46 :: rest => readUint rest
  | rest => some (0, rest)

/-- Nothing may follow but the suffix of a recipe, as in `-24`. -/
def recipeSuffix : List UInt8 → Bool
  | [] => true
  | 45 :: rest => (readUint rest).any fun after => after.2 = []
  | _ => false

def srcdepthVersionParse (s : CStr) : Option Version := do
  let (major, rest) ← readUint (unprefixed s.bytes)
  let (minor, rest) ← component rest
  let (patch, rest) ← component rest
  if recipeSuffix rest then some ⟨major, minor, patch⟩ else none

/-- The result as `<0`, `0` or `>0`. -/
def srcdepthVersionCmp (a b : Version) : Ordering :=
  if a.major ≠ b.major then if a.major < b.major then .lt else .gt
  else if a.minor ≠ b.minor then if a.minor < b.minor then .lt else .gt
  else if a.patch ≠ b.patch then if a.patch < b.patch then .lt else .gt
  else .eq

theorem srcdepthVersionCmp_lt {a b : Version} : srcdepthVersionCmp a b = .lt ↔ a < b := by
  have order : a < b ↔ a.key < b.key := Iff.rfl
  rw [order, Version.key, Version.key, Prod.Lex.toLex_lt_toLex, Version.line, Version.line,
    Prod.Lex.toLex_lt_toLex, toLex_inj, Prod.mk.injEq]
  unfold srcdepthVersionCmp
  split_ifs <;> simp only [false_iff, true_iff] <;> omega

theorem srcdepthVersionCmp_eq {a b : Version} : srcdepthVersionCmp a b = .eq ↔ a = b := by
  obtain ⟨_, _, _⟩ := a
  obtain ⟨_, _, _⟩ := b
  unfold srcdepthVersionCmp
  rw [Version.mk.injEq]
  dsimp only
  split_ifs <;> simp only [false_iff, true_iff] <;> omega

/-- `enum srcdepth_error`, as far as `srcdepth_resolve` returns it. -/
inductive SrcdepthError where
  | ok
  | noCandidates
  | noSuchLine
  | noSuchRelease
  deriving DecidableEq

def srcdepthMaxCandidates : Nat := 512

/-- An element of the arrays `v` and `raw`. -/
structure Kept where
  version : Version
  raw : CStr

def keep (kept : List Kept) : List CStr → List Kept
  | [] => kept
  | candidate :: rest =>
    if kept.length < srcdepthMaxCandidates then
      match srcdepthVersionParse candidate with
      | none => keep kept rest
      | some p =>
        if kept.any fun k => srcdepthVersionCmp k.version p = .eq then keep kept rest
        else keep (kept ++ [⟨p, candidate⟩]) rest
    else kept

def sortDown (kept : List Kept) : List Kept :=
  bubbleDown (fun a b => srcdepthVersionCmp a.version b.version = .lt) (kept.length - 1) kept

def atIndex {α : Type} (xs : List α) (i : Int) : Option α :=
  if i < 0 then none else xs[i.toNat]?

def noSuchLineText (lines : Int) (seen : Nat) : List UInt8 :=
  ascii "depth asks to go back " ++ intText lines ++
    ascii " release line(s), but the channel publishes only " ++ natText seen ++
    ascii " line(s)"

def noSuchReleaseText (releases : Int) (line : Nat ×ₗ Nat) (count : Nat) : List UInt8 :=
  ascii "depth asks for release " ++ intText releases ++ ascii " back within line " ++
    natText (ofLex line).1 ++ ascii "." ++ natText (ofLex line).2 ++
    ascii ", which publishes only " ++ natText count ++ ascii " release(s)"

/-- What `srcdepth_resolve` returns, and the texts that it writes. -/
structure Resolution where
  status : SrcdepthError
  (out err : CStr)

def srcdepthResolve (candidates : List CStr) (lines releases : Int) (outSize errSize : Nat) :
    Resolution :=
  let fail (status : SrcdepthError) (text : List UInt8) : Resolution :=
    ⟨status, CStr.empty, (CStr.ofBytes text).truncate errSize⟩
  if candidates = [] then fail .noCandidates []
  else
    let kept := keep [] candidates
    if kept = [] then
      fail .noCandidates (ascii "no candidate release parsed as a version")
    else
      let v := sortDown kept
      let groups := groupsOf (fun k => k.version.line) v
      match atIndex groups lines with
      | none => fail .noSuchLine (noSuchLineText lines groups.length)
      | some line =>
        if releases < 0 ∨ line.count ≤ releases.toNat then
          fail .noSuchRelease (noSuchReleaseText releases line.label line.count)
        else
          let raw := (v[line.start + releases.toNat]?).elim CStr.empty Kept.raw
          ⟨.ok, raw.truncate outSize, CStr.empty⟩

def versionsOf (candidates : List CStr) : Finset Version :=
  (candidates.filterMap srcdepthVersionParse).toFinset

def linesOf (versions : Finset Version) : List (Nat ×ₗ Nat) :=
  (versions.image Version.line).sort (· ≥ ·)

def releasesOf (versions : Finset Version) (line : Nat ×ₗ Nat) : List Version :=
  (versions.filter fun v => v.line = line).sort (· ≥ ·)

def versionAt (versions : Finset Version) (lines releases : Int) :
    Except SrcdepthError Version :=
  if versions = ∅ then .error .noCandidates
  else
    match atIndex (linesOf versions) lines with
    | none => .error .noSuchLine
    | some line =>
      match atIndex (releasesOf versions line) releases with
      | none => .error .noSuchRelease
      | some v => .ok v

def Resolution.Answers (result : Resolution) (candidates : List CStr)
    (asked : Except SrcdepthError Version) : Prop :=
  match asked with
  | .error status => result.status = status
  | .ok v =>
    result.status = .ok ∧ result.out ∈ candidates ∧ srcdepthVersionParse result.out = some v

variable {candidates : List CStr} {before after kept : List Kept}

theorem versionsOf_congr {order : List CStr} (same : order.Perm candidates) :
    versionsOf order = versionsOf candidates := by
  ext v
  simp only [versionsOf, mem_toFinset, mem_filterMap, same.mem_iff]

structure Keeps (before : List Kept) (candidates : List CStr) (after : List Kept) :
    Prop where
  grows : ∀ k ∈ before, k ∈ after
  distinct : (before.map Kept.version).Nodup → (after.map Kept.version).Nodup
  parsed : ∀ k ∈ after, k ∈ before ∨
    k.raw ∈ candidates ∧ srcdepthVersionParse k.raw = some k.version
  small : before.length ≤ srcdepthMaxCandidates → after.length ≤ srcdepthMaxCandidates
  complete : after.length < srcdepthMaxCandidates → ∀ candidate ∈ candidates, ∀ v,
    srcdepthVersionParse candidate = some v → ∃ k ∈ after, k.version = v

theorem Keeps.skip {candidate : CStr} (keeps : Keeps before candidates after)
    (known : ∀ v, srcdepthVersionParse candidate = some v → ∃ k ∈ before, k.version = v) :
    Keeps before (candidate :: candidates) after where
  grows := keeps.grows
  distinct := keeps.distinct
  parsed k mem :=
    (keeps.parsed k mem).imp_right (And.imp_left (mem_cons_of_mem _))
  small := keeps.small
  complete room other mem v parses := by
    rcases mem_cons.mp mem with rfl | inRest
    · obtain ⟨k, isKept, isVersion⟩ := known v parses
      exact ⟨k, keeps.grows k isKept, isVersion⟩
    · exact keeps.complete room other inRest v parses

theorem keep_spec (before : List Kept) (candidates : List CStr) :
    Keeps before candidates (keep before candidates) := by
  induction candidates generalizing before with
  | nil => exact ⟨fun _ h => h, id, fun _ h => .inl h, id, by simp⟩
  | cons candidate rest ih =>
    rw [keep]
    split
    next room =>
      split
      next unparsed =>
        exact (ih before).skip fun v parses => by cases unparsed.symm.trans parses
      next p parses =>
        have same : ∀ k : Kept,
            decide (srcdepthVersionCmp k.version p = .eq) = true ↔ k.version = p := by
          intro k
          rw [decide_eq_true_eq, srcdepthVersionCmp_eq]
        split
        next known =>
          obtain ⟨k, isKept, equal⟩ := any_eq_true.mp known
          refine (ih before).skip fun v isVersion => ⟨k, isKept, ?_⟩
          rw [(same k).mp equal]
          exact Option.some.inj (parses.symm.trans isVersion)
        next unknown =>
          have fresh : ∀ k ∈ before, k.version ≠ p := fun k isKept equal =>
            unknown (any_eq_true.mpr ⟨k, isKept, (same k).mpr equal⟩)
          have next := ih (before ++ [⟨p, candidate⟩])
          have isKept := next.grows ⟨p, candidate⟩ (by simp)
          refine ⟨fun k mem => next.grows k (mem_append_left _ mem), ?_, ?_, ?_, ?_⟩
          · intro distinct
            apply next.distinct
            rw [map_append]
            refine List.Nodup.append distinct (nodup_singleton _) ?_
            intro v inBefore isNew
            obtain ⟨k, mem, rfl⟩ := mem_map.mp inBefore
            exact fresh k mem (by simpa using isNew)
          · intro k mem
            rcases next.parsed k mem with inBefore | ⟨inRest, isVersion⟩
            · rcases mem_append.mp inBefore with old | new
              · exact .inl old
              · cases mem_singleton.mp new
                exact .inr ⟨mem_cons_self, parses⟩
            · exact .inr ⟨mem_cons_of_mem _ inRest, isVersion⟩
          · intro _
            apply next.small
            rw [length_append]
            exact room
          · intro stillRoom other mem v isVersion
            rcases mem_cons.mp mem with rfl | inRest
            · exact ⟨_, isKept, Option.some.inj (parses.symm.trans isVersion)⟩
            · exact next.complete stillRoom other inRest v isVersion
    next full =>
      have noRoom := Nat.le_of_not_lt full
      exact ⟨fun _ h => h, id, fun _ h => .inl h, id,
        fun room => absurd room (Nat.not_lt.mpr noRoom)⟩

def keptVersions (kept : List Kept) : Finset Version :=
  (kept.map Kept.version).toFinset

theorem keptVersions_subset (candidates : List CStr) :
    keptVersions (keep [] candidates) ⊆ versionsOf candidates := by
  intro v mem
  obtain ⟨k, isKept, rfl⟩ := mem_map.mp (mem_toFinset.mp mem)
  rcases (keep_spec [] candidates).parsed k isKept with before | ⟨isCandidate, parses⟩
  · cases before
  · exact mem_toFinset.mpr (mem_filterMap.mpr ⟨k.raw, isCandidate, parses⟩)

theorem nodup_keep (candidates : List CStr) : ((keep [] candidates).map Kept.version).Nodup :=
  (keep_spec [] candidates).distinct nodup_nil

theorem card_keptVersions (candidates : List CStr) :
    (keptVersions (keep [] candidates)).card = (keep [] candidates).length := by
  rw [keptVersions, toFinset_card_of_nodup (nodup_keep candidates), length_map]

theorem keptVersions_eq_iff (candidates : List CStr) :
    keptVersions (keep [] candidates) = versionsOf candidates ↔
      (versionsOf candidates).card ≤ srcdepthMaxCandidates := by
  have keeps := keep_spec [] candidates
  have small := keeps.small (Nat.zero_le _)
  constructor
  · intro all
    rwa [← all, card_keptVersions]
  · intro few
    rcases Nat.lt_or_eq_of_le small with room | full
    · refine (keptVersions_subset candidates).antisymm fun v mem => ?_
      obtain ⟨candidate, isCandidate, parses⟩ := mem_filterMap.mp (mem_toFinset.mp mem)
      obtain ⟨k, isKept, rfl⟩ := keeps.complete room candidate isCandidate v parses
      exact mem_toFinset.mpr (mem_map_of_mem isKept)
    · apply Finset.eq_of_subset_of_card_le (keptVersions_subset candidates)
      rw [card_keptVersions, full]
      exact few

theorem sortDown_spec (kept : List Kept) :
    (sortDown kept).Perm kept ∧ (sortDown kept).Pairwise fun a b => b.version ≤ a.version :=
  bubbleDown_sorts (fun a b => by rw [decide_eq_true_eq, srcdepthVersionCmp_lt]) kept

theorem sortDown_lines (kept : List Kept) :
    (sortDown kept).Pairwise fun a b => b.version.line ≤ a.version.line :=
  (sortDown_spec kept).2.imp Version.line_le

theorem groups_labels (kept : List Kept) :
    (groupsOf (fun k => k.version.line) (sortDown kept)).map Group.label =
      linesOf (keptVersions kept) := by
  rw [(groupsOf_spec (sortDown_lines kept)).2, linesOf]
  congr 1
  ext line
  simp only [keptVersions, mem_toFinset, mem_map, Finset.mem_image, (sortDown_spec kept).1.mem_iff]
  constructor
  · rintro ⟨k, isKept, rfl⟩
    exact ⟨k.version, ⟨k, isKept, rfl⟩, rfl⟩
  · rintro ⟨_, ⟨k, isKept, rfl⟩, rfl⟩
    exact ⟨k, isKept, rfl⟩

theorem releases_of_line (distinct : (kept.map Kept.version).Nodup) (line : Nat ×ₗ Nat) :
    releasesOf (keptVersions kept) line =
      ((sortDown kept).filter fun k => k.version.line = line).map Kept.version := by
  obtain ⟨perm, sorted⟩ := sortDown_spec kept
  have nodup : (((sortDown kept).filter fun k => k.version.line = line).map Kept.version).Nodup :=
    ((perm.map Kept.version).nodup_iff.mpr distinct).sublist (filter_sublist.map _)
  have same : (keptVersions kept).filter (fun v => v.line = line) =
      (((sortDown kept).filter fun k => k.version.line = line).map Kept.version).toFinset := by
    ext v
    simp only [keptVersions, Finset.mem_filter, mem_toFinset, mem_map,
      mem_filter, decide_eq_true_eq, perm.mem_iff]
    constructor
    · rintro ⟨⟨k, isKept, rfl⟩, inLine⟩
      exact ⟨k, ⟨isKept, inLine⟩, rfl⟩
    · rintro ⟨k, ⟨isKept, inLine⟩, rfl⟩
      exact ⟨⟨k, isKept, rfl⟩, inLine⟩
  rw [releasesOf, same]
  exact (toFinset_sort (r := (· ≥ ·)) nodup).mpr
    ((sorted.sublist filter_sublist).map _ fun _ _ le => le)

theorem atIndex_map {α β : Type} (f : α → β) (xs : List α) (i : Int) :
    atIndex (xs.map f) i = (atIndex xs i).map f := by
  unfold atIndex
  split
  · rfl
  · exact getElem?_map ..

theorem srcdepthResolve_kept (candidates : List CStr) (lines releases : Int)
    (outSize errSize : Nat) :
    match versionAt (keptVersions (keep [] candidates)) lines releases with
    | .error status =>
      (srcdepthResolve candidates lines releases outSize errSize).status = status
    | .ok v => ∃ k ∈ keep [] candidates, k.version = v ∧
      srcdepthResolve candidates lines releases outSize errSize =
        ⟨.ok, k.raw.truncate outSize, CStr.empty⟩ := by
  unfold srcdepthResolve versionAt
  by_cases isEmpty : candidates = []
  · subst isEmpty
    rfl
  rw [if_neg isEmpty]
  dsimp only
  by_cases blank : keep [] candidates = []
  · rw [if_pos blank, blank]
    rfl
  have filled : keptVersions (keep [] candidates) ≠ ∅ := by
    intro unfilled
    exact blank (map_eq_nil_iff.mp ((toFinset_eq_empty_iff _).mp unfilled))
  rw [if_neg blank, if_neg filled, ← groups_labels, atIndex_map]
  generalize grouped : groupsOf (fun k => k.version.line) (sortDown (keep [] candidates)) = groups
  cases found : atIndex groups lines with
  | none => rfl
  | some g =>
    have isGroup : g ∈ groups := by
      unfold atIndex at found
      split at found
      · cases found
      · exact mem_of_getElem? found
    have of := (groupsOf_spec (sortDown_lines (keep [] candidates))).1 g (grouped ▸ isGroup)
    have size : g.count = ((sortDown (keep [] candidates)).filter
        fun k => k.version.line = g.label).length := by
      rw [of.count, countP_eq_length_filter]
    dsimp only [Option.map_some]
    rw [releases_of_line (nodup_keep candidates), atIndex_map, atIndex]
    by_cases outside : releases < 0 ∨ g.count ≤ releases.toNat
    · rw [if_pos outside]
      rcases outside with negative | tooFew
      · rw [if_pos negative]
        rfl
      · have missing := getElem?_eq_none (size ▸ tooFew)
        rw [missing, ite_self]
        rfl
    · obtain ⟨forward, inside⟩ := not_or.mp outside
      rw [if_neg outside, if_neg forward, of.pick (sortDown_lines _) (Nat.lt_of_not_le inside),
        getElem?_eq_getElem (size ▸ Nat.lt_of_not_le inside)]
      refine ⟨_, ?_, rfl, rfl⟩
      exact (sortDown_spec _).1.mem_iff.mp (mem_filter.mp (getElem_mem _)).1

theorem exists_index {α : Type} {xs : List α} {a : α} (mem : a ∈ xs) :
    ∃ i : Int, atIndex xs i = some a := by
  obtain ⟨i, isAt⟩ := getElem?_of_mem mem
  exact ⟨i, by rw [atIndex, if_neg (by omega), Int.toNat_natCast, isAt]⟩

theorem exists_depth {versions : Finset Version} {v : Version} (mem : v ∈ versions) :
    ∃ lines releases, versionAt versions lines releases = .ok v := by
  obtain ⟨lines, isLine⟩ := @exists_index _ (linesOf versions) v.line
    ((Finset.mem_sort _).mpr (Finset.mem_image_of_mem _ mem))
  obtain ⟨releases, isRelease⟩ := @exists_index _ (releasesOf versions v.line) v
    ((Finset.mem_sort _).mpr (Finset.mem_filter.mpr ⟨mem, rfl⟩))
  refine ⟨lines, releases, ?_⟩
  rw [versionAt, if_neg (Finset.ne_empty_of_mem mem), isLine]
  dsimp only
  rw [isRelease]

theorem versionAt_ne_ok (versions : Finset Version) (lines releases : Int) :
    versionAt versions lines releases ≠ .error .ok := by
  unfold versionAt
  split
  · exact fun h => by cases h
  split
  · exact fun h => by cases h
  split <;> exact fun h => by cases h

theorem kept_candidate {k : Kept} {outSize : Nat} (isKept : k ∈ keep [] candidates)
    (room : ∀ candidate ∈ candidates, candidate.length < outSize) :
    k.raw.truncate outSize ∈ candidates ∧
      srcdepthVersionParse (k.raw.truncate outSize) = some k.version := by
  rcases (keep_spec [] candidates).parsed k isKept with before | ⟨isCandidate, parses⟩
  · cases before
  · rw [CStr.truncate_of_fits (room k.raw isCandidate)]
    exact ⟨isCandidate, parses⟩

def ResolvesAll (candidates : List CStr) (outSize errSize : Nat) : Prop :=
  ∀ order, order.Perm candidates → ∀ lines releases,
    (srcdepthResolve order lines releases outSize errSize).Answers candidates
      (versionAt (versionsOf candidates) lines releases)

theorem few_of_resolvesAll {outSize errSize : Nat}
    (room : ∀ candidate ∈ candidates, candidate.length < outSize)
    (resolves : ResolvesAll candidates outSize errSize) :
    (versionsOf candidates).card ≤ srcdepthMaxCandidates := by
  apply (keptVersions_eq_iff candidates).mp
  refine (keptVersions_subset candidates).antisymm fun v mem => ?_
  obtain ⟨lines, releases, isAt⟩ := exists_depth mem
  have answer := resolves candidates (.refl _) lines releases
  rw [isAt] at answer
  have kept := srcdepthResolve_kept candidates lines releases outSize errSize
  split at kept
  next status failed =>
    rw [← kept, answer.1] at failed
    exact absurd failed (versionAt_ne_ok _ _ _)
  next =>
    obtain ⟨k, isKept, -, isResult⟩ := kept
    have parses := answer.2.2
    rw [isResult, (kept_candidate isKept room).2] at parses
    rw [← Option.some.inj parses]
    exact mem_toFinset.mpr (mem_map_of_mem isKept)

/-- The depths of a channel are resolved by the set of its versions if and only
if the arrays hold all of them. -/
theorem resolves_iff {outSize errSize : Nat}
    (room : ∀ candidate ∈ candidates, candidate.length < outSize) :
    ResolvesAll candidates outSize errSize ↔
      (versionsOf candidates).card ≤ srcdepthMaxCandidates := by
  refine ⟨few_of_resolvesAll room, fun few order same lines releases => ?_⟩
  have sameVersions := versionsOf_congr same
  have all := (keptVersions_eq_iff order).mpr (by rwa [sameVersions])
  have kept := srcdepthResolve_kept order lines releases outSize errSize
  rw [all, sameVersions] at kept
  unfold Resolution.Answers
  split at kept
  · exact kept
  · obtain ⟨k, isKept, rfl, isResult⟩ := kept
    have fits := kept_candidate isKept fun candidate mem =>
      room candidate (same.mem_iff.mp mem)
    rw [isResult]
    exact ⟨rfl, same.mem_iff.mp fits.1, fits.2⟩

/-- `7.2.3` and two spellings of `7.1`, in the arrays of `srcresolve_one`. -/
theorem resolves_three : ResolvesAll (["7.2.3", "v7.1", "7.1.0-24"].map CStr.ofString) 64 256 ↔
      (versionsOf (["7.2.3", "v7.1", "7.1.0-24"].map CStr.ofString)).card ≤
        srcdepthMaxCandidates :=
  resolves_iff (by decide)

/-- The texts `1.000` to `1.512`. -/
@[irreducible]
def manyReleases : List CStr :=
  (List.range 513).map fun i =>
    CStr.ofBytes [49, 46, .ofNat (48 + i / 100), .ofNat (48 + i / 10 % 10), .ofNat (48 + i % 10)]

theorem many_releases_fit : ∀ candidate ∈ manyReleases, candidate.length < 64 := by
  decide +kernel

theorem card_manyReleases : (versionsOf manyReleases).card = 513 := by
  have versions : manyReleases.filterMap srcdepthVersionParse =
      (List.range 513).map fun i => ⟨1, i, 0⟩ := by
    decide +kernel
  have distinct : ((List.range 513).map fun i => (⟨1, i, 0⟩ : Version)).Nodup :=
    nodup_range.map fun i j same => by cases same; rfl
  rw [versionsOf, versions, toFinset_card_of_nodup distinct, length_map, length_range]

theorem many_releases_unresolved : ¬ ResolvesAll manyReleases 64 256 := by
  intro resolves
  have few := few_of_resolvesAll many_releases_fit resolves
  rw [card_manyReleases] at few
  exact absurd few (by decide)

end Cix.Sources
