import Mathlib.Data.List.Dedup
import Cix.Backup.Spared

/-!
# What the retention removes

The listing is sorted, the newest stamp first.  A stamp that is removed comes
after as many others as are to be kept, and these have newer stamps and are
still there afterwards.
-/

namespace Cix.Backup

open Cix.Lib Cix.Storage Cix.Volume List

section Trim

variable {d : Daemon} {store : Path} {fs : Storage.Host}

def Superseded (store : Path) (fs : Storage.Host) (volume stamp : CStr) (n : Nat) : Prop :=
  ∃ newer : List CStr, newer.Nodup ∧ newer.length = n ∧
    ∀ other ∈ newer, strcmp stamp other = .lt ∧ fs.IsDir (store ++ [volume, other])

theorem newestFirst_total (a b : CStr) : (newestFirst a b || newestFirst b a) = true := by
  rw [newestFirst, newestFirst, @Std.OrientedCmp.eq_swap _ strcmp _ b a]
  cases strcmp a b <;> rfl

theorem newestFirst_trans (a b c : CStr) (first : newestFirst a b = true)
    (second : newestFirst b c = true) : newestFirst a c = true :=
  Std.TransCmp.isLE_trans second first

/-- The listing has every stamp once, newer ones before older ones, and all of
them are there. -/
structure Listed (store : Path) (fs : Storage.Host) (volume : CStr)
    (stamps : List CStr) : Prop where
  nodup : stamps.Nodup
  sorted : stamps.Pairwise fun a b => strcmp b a = .lt
  isDir : ∀ stamp ∈ stamps, fs.IsDir (store ++ [volume, stamp])

theorem listed_nil (volume : CStr) : Listed store fs volume [] where
  nodup := nodup_nil
  sorted := List.Pairwise.nil
  isDir _ mem := by cases mem

theorem Slot.isDir {volume stamp : CStr} (slot : Slot store fs volume stamp)
    (present : fs (store ++ [volume, stamp]) ≠ none) :
    fs.IsDir (store ++ [volume, stamp]) := by
  have fits := slot.fits
  cases holds : fs (store ++ [volume, stamp]) with
  | none => exact absurd holds present
  | some entry =>
    rw [holds] at fits
    cases entry with
    | dir attr => exact Or.inr ⟨attr, holds⟩
    | file attr content => exact fits.elim
    | link attr target => exact fits.elim
    | node attr kind => exact fits.elim

theorem listed (sound : Sound d store fs) (volume : CStr) (order : List CStr) :
    Listed store fs volume (volumebackupList store fs volume order) := by
  have free : Free fs (store ++ [volume]) := by
    intro initial isPrefix
    apply sound.above
    rcases prefix_concat_iff.mp isPrefix with rfl | shorter
    · exact Or.inr ⟨volume, rfl⟩
    · exact Or.inl shorter
  rw [volumebackupList]
  rcases resolve_free free with nowhere | found
  · rw [nowhere]
    exact listed_nil volume
  · rw [found]
    dsimp only
    split
    next =>
      set stamps := ((order.dedup.filter fun name =>
        (fs (store ++ [volume] ++ [name])).isSome).filter fun name =>
          name.bytes.head? ≠ some 46).take maxSnapshots with isStamps
      have present : ∀ stamp ∈ stamps, fs (store ++ [volume, stamp]) ≠ none := by
        intro stamp mem
        have inFirst := mem_of_mem_filter (mem_of_mem_take mem)
        have isSome := (mem_filter.mp inFirst).2
        rw [append_assoc] at isSome
        exact Option.isSome_iff_ne_none.mp isSome
      have same : stamps.map (CStr.truncate stampMax) = stamps := by
        refine (map_congr_left ?_).trans (map_id stamps)
        intro stamp mem
        exact CStr.truncate_of_fits ((sound.slots volume stamp).short (present stamp mem))
      have nodup : stamps.Nodup :=
        ((((order.nodup_dedup).filter _).filter _).sublist (take_sublist _ _))
      rw [same]
      have perm := mergeSort_perm stamps newestFirst
      have nodup' := perm.nodup_iff.mpr nodup
      refine ⟨nodup', ?_, ?_⟩
      · have sorted := pairwise_mergeSort newestFirst_trans newestFirst_total stamps
        refine (sorted.and nodup').imp ?_
        rintro a b ⟨newer, different⟩
        rw [newestFirst] at newer
        cases compared : strcmp b a with
        | lt => rfl
        | eq => exact absurd (strcmp_eq_iff.mp compared).symm different
        | gt =>
          rw [compared] at newer
          cases newer
      · intro stamp mem
        exact (sound.slots volume stamp).isDir (present stamp (perm.mem_iff.mp mem))
    next => exact listed_nil volume

theorem Listed.superseded {volume : CStr} {stamps : List CStr} {n : Nat}
    (isListed : Listed store fs volume stamps) {stamp : CStr}
    (mem : stamp ∈ stamps.drop n) :
    (stamps.take n).length = n ∧ (stamps.take n).Nodup ∧
      ∀ other ∈ stamps.take n, strcmp stamp other = .lt ∧
        fs.IsDir (store ++ [volume, other]) ∧ other ∉ stamps.drop n := by
  have parts := take_append_drop n stamps
  have nodup := isListed.nodup
  rw [← parts, nodup_append] at nodup
  have sorted := isListed.sorted
  rw [← parts, pairwise_append] at sorted
  have long : n < stamps.length := by
    have positive := length_pos_of_mem mem
    rw [length_drop] at positive
    omega
  refine ⟨?_, nodup.1, ?_⟩
  · rw [length_take]
    omega
  · intro other inTake
    refine ⟨sorted.2.2 other inTake stamp mem, isListed.isDir other (mem_of_mem_take inTake), ?_⟩
    intro inDrop
    exact nodup.2.2 other inTake other inDrop rfl

theorem foldl_removal (sound : Sound d store fs) (volume : CStr)
    (left : CStr → List Path) (stamps : List CStr) :
    Spares d store { place | place.1 = volume ∧ place.2 ∈ stamps } fs
      (stamps.foldl (fun fs stamp => persistRemoveTree fs
        ((store ++ [volume, stamp]).map Comp.name) (left stamp)) fs) ∧
    Sound d store (stamps.foldl (fun fs stamp => persistRemoveTree fs
        ((store ++ [volume, stamp]).map Comp.name) (left stamp)) fs) := by
  induction stamps generalizing fs with
  | nil => exact ⟨Spares.refl _ _ _ _, sound⟩
  | cons stamp stamps ih =>
    obtain ⟨first, sound₁⟩ := removal_spares sound volume stamp (left stamp) rfl
    obtain ⟨rest, sound₂⟩ := ih sound₁
    rw [foldl_cons]
    refine ⟨(first.mono ?_).trans (rest.mono ?_), sound₂⟩
    · rintro place rfl
      exact ⟨rfl, mem_cons_self⟩
    · rintro place ⟨sameVolume, mem⟩
      exact ⟨sameVolume, mem_cons_of_mem _ mem⟩

theorem trim_spares (sound : Sound d store fs) (volume : CStr)
    (retain : Int32) (order : List CStr) (left : CStr → List Path)
    {fs' : Storage.Host}
    (isTrimmed : trimToRetention store fs volume retain order left = fs') :
    Sound d store fs' ∧ ∃ removed : List CStr,
      Spares d store { place | place.1 = volume ∧ place.2 ∈ removed } fs fs' ∧
      ∀ stamp ∈ removed, Superseded store fs' volume stamp (reportedRetain retain).toInt.toNat := by
  have isListed := listed sound volume order
  rw [trimToRetention] at isTrimmed
  obtain ⟨spares, sound'⟩ := foldl_removal sound volume left
    ((volumebackupList store fs volume order).drop (reportedRetain retain).toInt.toNat)
  rw [isTrimmed] at spares sound'
  refine ⟨sound', _, spares, ?_⟩
  intro stamp mem
  obtain ⟨size, nodup, newer⟩ := isListed.superseded mem
  refine ⟨_, nodup, size, ?_⟩
  intro other inTake
  obtain ⟨older, isDir, notRemoved⟩ := newer other inTake
  refine ⟨older, ?_⟩
  have same := spares.others volume other (fun inside => notRemoved inside.2) []
  rcases isDir with empty | ⟨attr, isDir⟩
  · exact Or.inl empty
  · exact Or.inr ⟨attr, same.trans isDir⟩

end Trim

end Cix.Backup
