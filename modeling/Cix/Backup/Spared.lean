import Cix.Backup.Store

/-!
# What a request leaves alone in the store

A store in order has only directories down to the snapshots.  A removal or a
copy at the place of one snapshot then changes no other one, and the store
stays in order.
-/

namespace Cix.Backup

open Cix.Lib Cix.Storage Cix.Volume List

variable {path place : Path}

def Above (store path : Path) : Prop :=
  path <+: store ∨ ∃ volume, path = store ++ [volume]

structure Slot (store : Path) (fs : Storage.Host) (volume stamp : CStr) :
    Prop where
  fits : DirFits (fs (store ++ [volume, stamp]))
  rooted : fs (store ++ [volume, stamp]) = none → ∀ rel, fs (store ++ volume :: stamp :: rel) = none
  short : fs (store ++ [volume, stamp]) ≠ none → stamp.length < stampMax

structure Sound (d : Daemon) (store : Path) (fs : Storage.Host) : Prop where
  above : ∀ path, Above store path → DirFits (fs path)
  groups : ∀ path, Above store path → d.KeepsGroup (dirAttr fs path)
  slots : ∀ volume stamp, Slot store fs volume stamp

structure Spares (d : Daemon) (store : Path) (places : Set (CStr × CStr))
    (fs fs' : Storage.Host) : Prop where
  above : ∀ path, Above store path → fs' path = fs path ∨
    (fs path = none ∧ ∃ attr, fs' path = some (.dir attr) ∧ d.KeepsGroup attr)
  others : ∀ volume stamp, (volume, stamp) ∉ places → ∀ rel,
    fs' (store ++ volume :: stamp :: rel) = fs (store ++ volume :: stamp :: rel)

structure Present (store : Path) (fs : Storage.Host) (volume stamp : CStr)
    (content : Forest) : Prop where
  real : fs.Real (store ++ [volume, stamp])
  holds : ∀ name rel, fs (store ++ volume :: stamp :: name :: rel) = content.lookup (name :: rel)

section Frames

variable {d : Daemon} {store : Path} {fs fs' fs'' : Storage.Host}
  {places : Set (CStr × CStr)}

theorem Spares.refl (d : Daemon) (store : Path) (places : Set (CStr × CStr))
    (fs : Storage.Host) : Spares d store places fs fs where
  above _ _ := Or.inl rfl
  others _ _ _ _ := rfl

theorem Spares.trans (first : Spares d store places fs fs')
    (second : Spares d store places fs' fs'') :
    Spares d store places fs fs'' where
  above path isAbove := by
    rcases second.above path isAbove with same | ⟨missing, made⟩
    · rw [same]
      exact first.above path isAbove
    · rcases first.above path isAbove with same | ⟨-, attr, isDir, -⟩
      · exact Or.inr ⟨same ▸ missing, made⟩
      · rw [missing] at isDir
        cases isDir
  others volume stamp other rel := by
    rw [second.others volume stamp other, first.others volume stamp other]

theorem Spares.mono {larger : Set (CStr × CStr)}
    (spares : Spares d store places fs fs') (subset : places ⊆ larger) :
    Spares d store larger fs fs' where
  above := spares.above
  others volume stamp other :=
    spares.others volume stamp fun inside => other (subset inside)

theorem Sound.spares (sound : Sound d store fs) (spares : Spares d store places fs fs')
    (slots : ∀ volume stamp, (volume, stamp) ∈ places →
      Slot store fs' volume stamp) : Sound d store fs' where
  above path isAbove := by
    rcases spares.above path isAbove with same | ⟨-, attr, isDir, -⟩
    · rw [same]
      exact sound.above path isAbove
    · rw [isDir]
      trivial
  groups path isAbove := by
    rcases spares.above path isAbove with same | ⟨-, attr, isDir, keeps⟩
    · rw [dirAttr_congr same]
      exact sound.groups path isAbove
    · rw [dirAttr, isDir]
      exact keeps
  slots volume stamp := by
    by_cases inside : (volume, stamp) ∈ places
    · exact slots volume stamp inside
    · have same := spares.others volume stamp inside
      have slot := sound.slots volume stamp
      constructor
      · rw [same []]
        exact slot.fits
      · intro missing rel
        rw [same []] at missing
        rw [same rel]
        exact slot.rooted missing rel
      · intro present
        rw [same []] at present
        exact slot.short present

variable {volume stamp : CStr}

theorem prefix_snapshot {initial : Path}
    (isPrefix : initial <+: store ++ [volume, stamp]) :
    Above store initial ∨ initial = store ++ [volume, stamp] := by
  have moved : store ++ [volume, stamp] = (store ++ [volume]) ++ [stamp] := by simp
  rw [moved] at isPrefix ⊢
  rcases prefix_concat_iff.mp isPrefix with same | shorter
  · exact Or.inr same
  · rcases prefix_concat_iff.mp shorter with same | above
    · exact Or.inl (Or.inr ⟨volume, same⟩)
    · exact Or.inl (Or.inl above)

theorem Present.spares {content : Forest}
    (present : Present store fs volume stamp content)
    (spares : Spares d store places fs fs')
    (outside : (volume, stamp) ∉ places) :
    Present store fs' volume stamp content := by
  have same := spares.others volume stamp outside
  constructor
  · intro initial isPrefix
    rcases prefix_snapshot isPrefix with isAbove | rfl
    · rcases spares.above initial isAbove with unchanged | ⟨-, attr, isDir, -⟩
      · rcases present.real initial isPrefix with empty | ⟨attr, isDir⟩
        · exact Or.inl empty
        · exact Or.inr ⟨attr, unchanged.trans isDir⟩
      · exact Or.inr ⟨attr, isDir⟩
    · rcases present.real _ isPrefix with empty | ⟨attr, isDir⟩
      · exact Or.inl empty
      · exact Or.inr ⟨attr, (same []).trans isDir⟩
  · intro name rel
    rw [same (name :: rel)]
    exact present.holds name rel

theorem Present.exists (content : Forest)
    (present : Present store fs volume stamp content) :
    fs (store ++ [volume, stamp]) ≠ none := by
  rcases present.real _ (prefix_refl _) with empty | ⟨attr, isDir⟩
  · simp at empty
  · rw [isDir]
    exact Option.some_ne_none _

theorem Sound.free (sound : Sound d store fs) (volume stamp : CStr) :
    Free fs (store ++ [volume, stamp]) := by
  intro initial isPrefix
  rcases prefix_snapshot isPrefix with isAbove | rfl
  · exact sound.above initial isAbove
  · exact (sound.slots volume stamp).fits

theorem snapshot_not_above (isAbove : Above store path) :
    ¬ store ++ [volume, stamp] <+: path := by
  intro isPrefix
  have size := isPrefix.length_le
  rw [length_append] at size
  rcases isAbove with shorter | ⟨other, rfl⟩
  · have size' := shorter.length_le
    simp at size
    omega
  · simp at size

theorem same_snapshot {volume' stamp' : CStr} {rel : Path}
    (isPrefix : store ++ [volume, stamp] <+: store ++ volume' :: stamp' :: rel) :
    (volume', stamp') = (volume, stamp) := by
  rw [prefix_append_right_inj, cons_prefix_cons, cons_prefix_cons] at isPrefix
  rw [isPrefix.1, isPrefix.2.1]

theorem removeBelow_spares (sound : Sound d store fs) (volume stamp : CStr) (left : List Path) :
    Spares d store {(volume, stamp)} fs (removeBelow fs (store ++ [volume, stamp]) left) ∧
    Slot store (removeBelow fs (store ++ [volume, stamp]) left)
      volume stamp := by
  have slot := sound.slots volume stamp
  constructor
  · constructor
    · intro path isAbove
      left
      exact if_neg fun removed => snapshot_not_above isAbove removed.1
    · intro volume' stamp' other rel
      exact if_neg fun removed => other (same_snapshot removed.1)
  · by_cases stays : ∃ kept ∈ left, store ++ [volume, stamp] <+: kept
    · have here : removeBelow fs (store ++ [volume, stamp]) left
          (store ++ [volume, stamp]) = fs (store ++ [volume, stamp]) :=
        if_neg fun removed => removed.2 stays
      constructor
      · rw [here]
        exact slot.fits
      · intro missing rel
        rw [here] at missing
        rw [removeBelow]
        split
        next => rfl
        next => exact slot.rooted missing rel
      · intro present
        rw [here] at present
        exact slot.short present
    · have gone : ∀ rel, removeBelow fs (store ++ [volume, stamp]) left
          (store ++ volume :: stamp :: rel) = none := by
        intro rel
        have begins : store ++ [volume, stamp] <+: store ++ volume :: stamp :: rel := ⟨rel, by simp⟩
        refine if_pos ⟨begins, ?_⟩
        rintro ⟨kept, mem, isPrefix⟩
        exact stays ⟨kept, mem, begins.trans isPrefix⟩
      constructor
      · rw [gone []]
        trivial
      · intro _ rel
        exact gone rel
      · intro present
        exact absurd (gone []) present

theorem removal_spares (sound : Sound d store fs) (volume stamp : CStr)
    (left : List Path) {fs' : Storage.Host}
    (isRemoved : persistRemoveTree fs ((store ++ [volume, stamp]).map Comp.name) left = fs') :
    Spares d store {(volume, stamp)} fs fs' ∧ Sound d store fs' := by
  have moved : store ++ [volume, stamp] = (store ++ [volume]) ++ [stamp] := by simp
  have free := sound.free volume stamp
  rw [moved] at free isRemoved
  rcases persistRemoveTree_free left free with nothing | removed
  · rw [nothing] at isRemoved
    rw [← isRemoved]
    exact ⟨Spares.refl _ _ _ _, sound⟩
  · rw [removed, ← moved] at isRemoved
    rw [← isRemoved]
    obtain ⟨spares, slot⟩ := removeBelow_spares sound volume stamp left
    refine ⟨spares, sound.spares spares ?_⟩
    rintro volume' stamp' same
    rw [Set.mem_singleton_iff, Prod.mk.injEq] at same
    rw [same.1, same.2]
    exact slot

structure Fills (d : Daemon) (target : Path) (fs fs' : Storage.Host) :
    Prop where
  apart : ∀ path, ¬ path <+: target → ¬ target <+: path → fs' path = fs path
  above : ∀ path, path <+: target → fs' path = fs path ∨
    (fs path = none ∧ ∃ attr, fs' path = some (.dir attr))
  groups : ∀ path, path <+: target → d.Grouped fs path → d.Grouped fs' path
  /-- Nothing is put below the directory before it is made. -/
  below : target ≠ [] → fs' target = none → ∀ name rel,
    fs' (target ++ name :: rel) = fs (target ++ name :: rel)

theorem makes_fills {target initial : Path} {c c' : Copying}
    (makes : Makes initial c c') (isPrefix : initial <+: target)
    (groups : ∀ other, d.Grouped c.fs other → d.Grouped c'.fs other) :
    Fills d target c.fs c'.fs where
  apart path notAbove _ := by
    rcases makes.made path with same | ⟨isAbove, -⟩
    · exact same
    · exact absurd (isAbove.trans isPrefix) notAbove
  above path _ := by
    rcases makes.made path with same | ⟨-, isDir⟩
    · exact Or.inl same
    · by_cases missing : c.fs path = none
      · exact Or.inr ⟨missing, isDir⟩
      · exact Or.inl (makes.kept path missing)
  groups path _ := groups path
  below _ _ name rel := by
    rcases makes.made (target ++ name :: rel) with same | ⟨isAbove, -⟩
    · exact same
    · have size := (isAbove.trans isPrefix).length_le
      simp at size

theorem Fills.touches {target : Path} {c c' : Copying} {forest : Forest}
    (fills : Fills d target fs c.fs) (real : c.fs.Real target)
    (touches : Touches (forest.places target) c c') :
    Fills d target fs c'.fs where
  apart path notAbove notBelow := by
    rw [touches.other path, fills.apart path notAbove notBelow]
    rintro ⟨rel, entry, rfl, -⟩
    exact notBelow (prefix_append _ _)
  above path isPrefix := by
    rw [touches.other path fun mem =>
      Forest.not_prefix_of_mem_places mem isPrefix]
    exact fills.above path isPrefix
  groups path isPrefix grouped initial begins := by
    rw [dirAttr_congr (touches.other initial fun mem =>
      Forest.not_prefix_of_mem_places mem (begins.trans isPrefix))]
    exact fills.groups path isPrefix grouped initial begins
  below nonempty missing := by
    rw [touches.other target fun mem =>
      Forest.not_prefix_of_mem_places mem (prefix_refl _)] at missing
    rcases real target (prefix_refl _) with empty | ⟨attr, isDir⟩
    · exact absurd empty nonempty
    · rw [isDir] at missing
      cases missing

theorem kinds_makes {c c' : Copying} {target : Path} {forest : Forest}
    (makes : Makes target c c') (kinds : forest.Kinds c.fs target) :
    forest.Kinds c'.fs target := by
  refine kinds.congr fun name _ rel => ?_
  rcases makes.made (target ++ name :: rel) with same | ⟨isPrefix, -⟩
  · exact same
  · have size := isPrefix.length_le
    simp at size

theorem copyInto_fills {target : Path} {source : Tree} {fault : Fault}
    {ok : Bool} (free : Free fs target)
    (kinds : source.forest.Kinds fs target)
    (isCopy : copyInto d fs target source fault = (fs', ok)) :
    Fills d target fs fs' ∧ (ok = true → ∃ c₁ c₂ : Copying,
      c₂.fs = fs' ∧ c₁.fs.Real target ∧ Makes target ⟨fs, []⟩ c₁ ∧
      (∀ other, d.Grouped fs other → d.Grouped c₁.fs other) ∧
      Touches (source.forest.places target) c₁ c₂ ∧
      (source.forest.Owners d c₁.fs target (dirAttr c₁.fs target) →
        source.forest.Copied c₂.fs target)) := by
  have isMade : ∀ {initial : Path}, initial <+: target →
      ∃ c₁, mkdirP d ⟨fs, []⟩ initial = (c₁, true) ∧
        Makes initial ⟨fs, []⟩ c₁ ∧ c₁.fs.Real initial ∧
        ∀ other, d.Grouped fs other → d.Grouped c₁.fs other :=
    fun isPrefix => mkdirP_makes (free.of_prefix isPrefix)
  cases fault with
  | mkdir made =>
    have isPrefix := take_prefix made target
    obtain ⟨c₁, isDirs, makes, -, groups⟩ := isMade isPrefix
    rw [copyInto, isDirs, Prod.mk.injEq] at isCopy
    obtain ⟨rfl, rfl⟩ := isCopy
    exact ⟨makes_fills makes isPrefix groups, fun isTrue => by cases isTrue⟩
  | copy steps =>
    obtain ⟨c₁, isDirs, makes, real, groups⟩ := isMade (prefix_refl target)
    obtain ⟨c₂, isSteps, touches, -⟩ := @copiesTo d target source.forest c₁ []
      target steps (append_nil _) source.distinct real
      (kinds_makes makes kinds)
    rw [copyInto, isDirs] at isCopy
    dsimp only at isCopy
    rw [if_pos rfl, isSteps, Prod.mk.injEq] at isCopy
    obtain ⟨rfl, rfl⟩ := isCopy
    exact ⟨(makes_fills makes (prefix_refl _) groups).touches real touches,
      fun isTrue => by cases isTrue⟩
  | none =>
    obtain ⟨c₁, isDirs, makes, real, groups⟩ := isMade (prefix_refl target)
    obtain ⟨c₂, isSteps, touches, copied⟩ := @copiesTo d target
      source.forest c₁ [] target _ (append_nil _) source.distinct real
      (kinds_makes makes kinds)
    rw [take_of_length_le (le_refl _)] at isSteps
    rw [copyInto, isDirs] at isCopy
    dsimp only at isCopy
    rw [if_pos rfl, isSteps, Prod.mk.injEq] at isCopy
    obtain ⟨rfl, rfl⟩ := isCopy
    refine ⟨(makes_fills makes (prefix_refl _) groups).touches real touches,
      fun _ => ⟨c₁, c₂, rfl, real, makes, groups, touches, ?_⟩⟩
    exact copied (le_refl _)

theorem Sound.grouped (sound : Sound d store fs) (isAbove : Above store path) :
    d.Grouped fs path := by
  intro initial isPrefix
  apply sound.groups
  rcases isAbove with shorter | ⟨volume, rfl⟩
  · exact Or.inl (isPrefix.trans shorter)
  · rcases prefix_concat_iff.mp isPrefix with rfl | shorter
    · exact Or.inr ⟨volume, rfl⟩
    · exact Or.inl shorter

theorem Fills.made {target : Path} (fills : Fills d target fs fs')
    (sound : Sound d store fs) (isAbove : Above store path)
    (isPrefix : path <+: target) : fs' path = fs path ∨
      (fs path = none ∧ ∃ attr, fs' path = some (.dir attr) ∧ d.KeepsGroup attr) := by
  rcases fills.above path isPrefix with same | ⟨missing, attr, isDir⟩
  · exact Or.inl same
  · have keeps := fills.groups path isPrefix (sound.grouped isAbove) path (prefix_refl _)
    rw [dirAttr, isDir] at keeps
    exact Or.inr ⟨missing, attr, isDir, keeps⟩

theorem above_prefix_snapshot (isAbove : Above store path) :
    path <+: store ++ [volume, stamp] ∨ ¬ path <+: store ++ [volume, stamp] ∧
        ¬ store ++ [volume, stamp] <+: path := by
  by_cases isPrefix : path <+: store ++ [volume, stamp]
  · exact Or.inl isPrefix
  · exact Or.inr ⟨isPrefix, snapshot_not_above isAbove⟩

theorem snapshot_prefix_eq {volume' stamp' : CStr} {rel : Path}
    (isPrefix : store ++ volume' :: stamp' :: rel <+:
      store ++ [volume, stamp]) : (volume', stamp') = (volume, stamp) := by
  rw [prefix_append_right_inj, cons_prefix_cons, cons_prefix_cons] at isPrefix
  rw [isPrefix.1, isPrefix.2.1]

theorem Fills.spares (fills : Fills d (store ++ [volume, stamp]) fs fs')
    (sound : Sound d store fs) :
    Spares d store {(volume, stamp)} fs fs' where
  above path isAbove := by
    rcases above_prefix_snapshot isAbove with isPrefix | ⟨notAbove, notBelow⟩
    · exact fills.made sound isAbove isPrefix
    · exact Or.inl (fills.apart path notAbove notBelow)
  others volume' stamp' other rel :=
    fills.apart _ (fun isPrefix => other (snapshot_prefix_eq isPrefix))
      (fun isPrefix => other (same_snapshot isPrefix))

theorem copy_snapshot {source : Tree} {fault : Fault}
    {ok : Bool} (sound : Sound d store fs)
    (fresh : fs (store ++ [volume, stamp]) = none)
    (short : stamp.length < stampMax)
    (isCopy : copyInto d fs (store ++ [volume, stamp]) source fault = (fs', ok)) :
    Spares d store {(volume, stamp)} fs fs' ∧ Slot store fs' volume stamp ∧
      (ok = true → Present store fs' volume stamp source.forest) := by
  have empty : ∀ name rel, fs (store ++ [volume, stamp] ++ name :: rel) = none := by
    intro name rel
    rw [append_assoc]
    exact (sound.slots volume stamp).rooted fresh (name :: rel)
  obtain ⟨fills, succeeded⟩ := copyInto_fills (sound.free volume stamp)
    (kinds_of_empty _ empty) isCopy
  have spares := fills.spares sound
  refine ⟨spares, ?_, ?_⟩
  · constructor
    · rcases fills.above _ (prefix_refl _) with same | ⟨-, attr, isDir⟩
      · rw [same, fresh]
        trivial
      · rw [isDir]
        trivial
    · intro missing rel
      cases rel with
      | nil => exact missing
      | cons name rel =>
        have same := fills.below (by simp) missing name rel
        rw [empty, append_assoc] at same
        exact same
    · exact fun _ => short
  · intro isOk
    obtain ⟨c₁, c₂, rfl, real, makes, groups, touches, copied⟩ := succeeded isOk
    have empty₁ : ∀ name rel, c₁.fs (store ++ [volume, stamp] ++ name :: rel) = none := by
      intro name rel
      rcases makes.made (store ++ [volume, stamp] ++ name :: rel) with
        same | ⟨isPrefix, -⟩
      · rw [same]
        exact empty name rel
      · have size := isPrefix.length_le
        simp at size
    have grouped : d.Grouped fs (store ++ [volume, stamp]) := by
      intro initial isPrefix
      rcases prefix_snapshot isPrefix with isAbove | rfl
      · exact sound.groups initial isAbove
      · rw [dirAttr, fresh]
        exact keepsGroup_default d
    have all := copied (owners_of_empty _ (groups _ grouped _ (prefix_refl _)) empty₁)
    constructor
    · exact touches.real real fun initial isPrefix mem =>
        Forest.not_prefix_of_mem_places mem isPrefix
    · intro name rel
      have moved : store ++ volume :: stamp :: name :: rel =
          store ++ [volume, stamp] ++ name :: rel := by simp
      rw [moved]
      cases found : source.forest.lookup (name :: rel) with
      | none =>
        rw [touches.other, empty₁]
        rintro ⟨rel', entry, same, found'⟩
        rw [← append_cancel_left same, found] at found'
        cases found'
      | some entry => exact all (name :: rel) entry found

theorem apart_of_below (apart : ¬ place <+: store ∧ ¬ store <+: place)
    (below : store <+: path) : ¬ path <+: place ∧ ¬ place <+: path := by
  constructor
  · exact fun isPrefix => apart.2 (below.trans isPrefix)
  · intro isPrefix
    rcases prefix_or_prefix_of_prefix isPrefix below with first | second
    · exact apart.1 first
    · exact apart.2 second

theorem ne_nil_of_apart (apart : ¬ place <+: store ∧ ¬ store <+: place) : place ≠ [] := by
  rintro rfl
  exact apart.1 nil_prefix

theorem sound_of_same (sound : Sound d store fs)
    (same : ∀ path, path <+: store ∨ store <+: path → fs' path = fs path) :
    Spares d store ∅ fs fs' ∧ Sound d store fs' := by
  have spares : Spares d store ∅ fs fs' := by
    constructor
    · rintro path (shorter | ⟨volume, rfl⟩)
      · exact Or.inl (same path (Or.inl shorter))
      · exact Or.inl (same _ (Or.inr (prefix_append _ _)))
    · intro volume stamp _ rel
      exact same _ (Or.inr (prefix_append _ _))
  exact ⟨spares, sound.spares spares fun _ _ mem => mem.elim⟩

theorem removal_apart (sound : Sound d store fs) (left : List Path)
    (apart : ¬ place <+: store ∧ ¬ store <+: place) (free : Free fs place) :
    Spares d store ∅ fs (persistRemoveTree fs (place.map Comp.name) left) ∧
      Sound d store (persistRemoveTree fs (place.map Comp.name) left) := by
  apply sound_of_same sound
  intro path comparable
  rcases removal_other left (ne_nil_of_apart apart) free path with
    same | ⟨-, isPrefix⟩
  · exact same
  · rcases comparable with shorter | below
    · exact absurd (isPrefix.trans shorter) apart.1
    · exact absurd isPrefix (apart_of_below apart below).2

theorem Fills.apart_spares (fills : Fills d place fs fs')
    (sound : Sound d store fs) (apart : ¬ place <+: store ∧ ¬ store <+: place) :
    Spares d store ∅ fs fs' ∧ Sound d store fs' := by
  have below : ∀ path, store <+: path → fs' path = fs path := by
    intro path isBelow
    obtain ⟨notAbove, notBelow⟩ := apart_of_below apart isBelow
    exact fills.apart path notAbove notBelow
  have spares : Spares d store ∅ fs fs' := by
    constructor
    · rintro path (shorter | ⟨volume, rfl⟩)
      · by_cases isPrefix : path <+: place
        · exact fills.made sound (Or.inl shorter) isPrefix
        · left
          exact fills.apart path isPrefix fun isBelow => apart.1 (isBelow.trans shorter)
      · exact Or.inl (below _ (prefix_append _ _))
    · intro volume stamp _ rel
      exact below _ (prefix_append _ _)
  exact ⟨spares, sound.spares spares fun _ _ mem => mem.elim⟩

end Frames

end Cix.Backup
