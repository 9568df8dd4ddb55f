import Cix.Backup.Trimmed
import Cix.Lib.Machine

/-!
# How long a snapshot stays

A snapshot that was taken stays as it is until it is deleted or superseded,
deletes and restores keep to their snapshot and volume, and nothing stays
paused, if a take never meets a directory of its own stamp, `.` and `..` are
not given as names, and a thaw never fails.
-/

namespace Cix.Backup

open Cix.Lib Cix.Storage Cix.Volume List

/-! ## Names in a request -/

variable {stamp : CStr}

structure Plain (text : CStr) : Prop where
  nonempty : text.length ≠ 0
  noSlash : 47 ∉ text.bytes
  notHere : text ≠ "."
  notUp : text ≠ ".."

theorem comps_plain {text : CStr} (plain : Plain text) : comps text = [.name text] := by
  have single : text.bytes.splitOn 47 = [text.bytes] := by
    apply splitOnP_eq_singleton
    intro byte mem
    rw [beq_eq_false_iff_ne]
    rintro rfl
    exact plain.noSlash mem
  have nonempty : text.bytes ≠ [] := fun empty =>
    plain.nonempty (congrArg List.length empty)
  rw [comps, single, filter_cons_of_pos (by simpa using nonempty),
    filter_nil, map_singleton, CStr.ofBytes_bytes, component,
    if_neg plain.notHere, if_neg plain.notUp]

theorem plain_of_valid {name : CStr} (valid : volumeNameIsValid name = true) :
    Plain name := by
  simp only [volumeNameIsValid, Bool.and_eq_true, decide_eq_true_eq, all_eq_true] at valid
  obtain ⟨⟨⟨⟨nonempty, -⟩, notDot⟩, -⟩, bytes⟩ := valid
  refine ⟨nonempty, ?_, ?_, ?_⟩
  · intro mem
    exact absurd (bytes 47 mem) (by decide)
  · rintro rfl
    exact notDot (by decide)
  · rintro rfl
    exact notDot (by decide)

variable {volume : CStr}

theorem snapshotPath_plain {store : Path}
    (plainVolume : Plain volume) (plainStamp : Plain stamp) :
    snapshotPath store volume stamp = (store ++ [volume, stamp]).map Comp.name := by
  rw [snapshotPath, comps_plain plainVolume, comps_plain plainStamp, map_append]
  rfl

theorem plain_of_accepted (accepted : stampRefused stamp ≠ true)
    (notHere : stamp ≠ ".") (notUp : stamp ≠ "..") :
    Plain stamp := by
  rw [stampRefused, ne_eq, Bool.or_eq_true, decide_eq_true_eq,
    decide_eq_true_eq, not_or] at accepted
  exact ⟨accepted.1, accepted.2, notHere, notUp⟩

/-! ## Pausing -/

def Resumed : List Container → List Container → Prop :=
  List.Forall₂ fun before after =>
    after.name = before.name ∧ (after.paused = true → before.paused = true)

theorem resumed_refl (containers : List Container) :
    Resumed containers containers :=
  List.forall₂_same.mpr fun _ _ => ⟨rfl, fun paused => paused⟩

def Frozen (volume : CStr) : List Container → List Container → Prop :=
  List.Forall₂ fun before after =>
    after.name = before.name ∧ (after.paused = true → before.paused = true ∨
        after.running = true ∧ after.mounts volume = true)

theorem setPausedLoop_frozen (accepts : CStr → Bool → Bool) (volume : CStr)
    (containers : List Container) :
    Frozen volume containers (setPausedLoop accepts volume true containers).1 := by
  induction containers with
  | nil => exact List.Forall₂.nil
  | cons e rest ih =>
    rw [setPausedLoop]
    split
    next => exact List.Forall₂.cons ⟨rfl, fun paused => Or.inl paused⟩ ih
    next acted =>
      simp only [Bool.or_eq_true, Bool.not_eq_true', not_or, Bool.not_eq_false] at acted
      split
      next => exact List.Forall₂.cons ⟨rfl, fun _ => Or.inr ⟨acted.1.2, acted.1.1⟩⟩ ih
      next =>
        refine List.Forall₂.cons ⟨rfl, fun paused => Or.inl paused⟩ ?_
        exact List.forall₂_same.mpr fun _ _ =>
          ⟨rfl, fun paused => Or.inl paused⟩

theorem undoPaused_resumed {accepts : CStr → Bool → Bool}
    (thaws : ∀ name, accepts name false = true)
    {before containers : List Container}
    (frozen : Frozen volume before containers) :
    Resumed before (undoPaused accepts volume containers) := by
  induction frozen with
  | nil => exact List.Forall₂.nil
  | @cons old e olds rest first _ ih =>
    refine List.Forall₂.cons ?_ ih
    dsimp only
    split
    next => exact ⟨first.1, fun paused => by cases paused⟩
    next notThawed =>
      refine ⟨first.1, fun paused => ?_⟩
      rcases first.2 paused with was | ⟨running, mounts⟩
      · exact was
      · rw [running, paused, mounts, thaws] at notThawed
        exact absurd rfl notThawed

theorem setPausedLoop_resumed {accepts : CStr → Bool → Bool}
    (thaws : ∀ name, accepts name false = true)
    {before containers : List Container}
    (frozen : Frozen volume before containers) :
    Resumed before (setPausedLoop accepts volume false containers).1 := by
  induction frozen with
  | nil => exact List.Forall₂.nil
  | @cons old e olds rest first _ ih =>
    rw [setPausedLoop]
    split
    next skipped =>
      refine List.Forall₂.cons ⟨first.1, fun paused => ?_⟩ ih
      rcases first.2 paused with was | ⟨running, mounts⟩
      · exact was
      · rw [running, mounts] at skipped
        cases skipped
    next =>
      rw [if_pos (thaws _)]
      exact List.Forall₂.cons ⟨first.1, fun paused => by cases paused⟩
        ih

theorem freeze_cases {accepts : CStr → Bool → Bool} {volume : CStr}
    (thaws : ∀ name, accepts name false = true) (containers : List Container) :
    (setContainersPaused accepts volume true containers).2 = true ∧ Resumed containers
        (setContainersPaused accepts volume true containers).1 ∨
    (setContainersPaused accepts volume true containers).2 = false ∧
      Frozen volume containers (setContainersPaused accepts volume true containers).1 := by
  have frozen := setPausedLoop_frozen accepts volume containers
  rw [setContainersPaused]
  dsimp only
  split
  next => exact Or.inl ⟨rfl, undoPaused_resumed thaws frozen⟩
  next => exact Or.inr ⟨rfl, frozen⟩

theorem thaw_resumed {accepts : CStr → Bool → Bool}
    (thaws : ∀ name, accepts name false = true)
    {before containers : List Container}
    (frozen : Frozen volume before containers) :
    Resumed before (setContainersPaused accepts volume false containers).1 := by
  rw [setContainersPaused]
  dsimp only
  rw [Bool.and_false, if_neg Bool.false_ne_true]
  exact setPausedLoop_resumed thaws frozen

/-! ## The requests -/

section Requests

variable {d : Daemon} {store : Path}

def retained (v : Target) : Nat := (reportedRetain v.retain).toInt.toNat

theorem length_truncate_lt {n : Nat} (positive : 0 < n) (text : CStr) :
    (text.truncate n).length < n := by
  have size : (text.truncate n).length ≤ n - 1 := length_take_le _ _
  omega

theorem stampNow_short (time : Int64) : (stampNow time).length < stampMax :=
  length_truncate_lt (by decide) _

theorem takeQuiet_spares {s : State} {v : Target}
    {input : TakeInput store} {fs : Storage.Host} {error : BackupError}
    (sound : Sound d store s.fs)
    (fresh : s.fs (store ++ [volume, stampNow input.now]) = none)
    (isTaken : takeQuiet d s volume v input = (fs, error)) :
    Sound d store fs ∧ ∃ removed : List CStr, Spares d store { place | place.1 = volume ∧
        (place.2 = stampNow input.now ∨ place.2 ∈ removed) } s.fs fs ∧
      (∀ stamp ∈ removed, Superseded store fs volume stamp (retained v)) ∧
      (error = .ok → Superseded store fs volume (stampNow input.now) (retained v) ∨
        Present store fs volume (stampNow input.now) input.source.forest) := by
  have unchanged : ∀ {error : BackupError}, error ≠ .ok →
      Sound d store s.fs ∧ ∃ removed : List CStr, Spares d store { place | place.1 = volume ∧
          (place.2 = stampNow input.now ∨ place.2 ∈ removed) } s.fs s.fs ∧
        (∀ stamp ∈ removed, Superseded store s.fs volume stamp (retained v)) ∧
        (error = .ok → Superseded store s.fs volume (stampNow input.now) (retained v) ∨
          Present store s.fs volume (stampNow input.now) input.source.forest) :=
    fun failed => ⟨sound, [], Spares.refl _ _ _ _, fun _ mem => (not_mem_nil mem).elim,
      fun isOk => absurd isOk failed⟩
  rw [takeQuiet] at isTaken
  cases isDisk : input.disk with
  | absent =>
    rw [isDisk] at isTaken
    cases isTaken
    exact unchanged (by decide)
  | notMounted =>
    rw [isDisk] at isTaken
    cases isTaken
    exact unchanged (by decide)
  | ready =>
    rw [isDisk] at isTaken
    dsimp only at isTaken
    rcases copyResult : copyInto d s.fs
      (store ++ [volume, stampNow input.now]) input.source input.fault with
      ⟨fs₁, copied⟩
    obtain ⟨spares, slot, isPresent⟩ := copy_snapshot sound fresh (stampNow_short _) copyResult
    have sound₁ : Sound d store fs₁ := by
      refine sound.spares spares ?_
      rintro volume' stamp' same
      cases same
      exact slot
    rw [copyResult] at isTaken
    dsimp only at isTaken
    cases copied with
    | true =>
      rw [if_pos rfl, Prod.mk.injEq] at isTaken
      obtain ⟨isTrimmed, rfl⟩ := isTaken
      obtain ⟨sound₂, removed, trimmed, superseded⟩ :=
        trim_spares sound₁ volume v.retain input.order input.left isTrimmed
      refine ⟨sound₂, removed, (spares.mono ?_).trans (trimmed.mono ?_), superseded, fun _ => ?_⟩
      · rintro place rfl
        exact ⟨rfl, Or.inl rfl⟩
      · rintro place ⟨sameVolume, mem⟩
        exact ⟨sameVolume, Or.inr mem⟩
      · by_cases isRemoved : stampNow input.now ∈ removed
        · exact Or.inl (superseded _ isRemoved)
        · right
          exact (isPresent rfl).spares trimmed fun inside => isRemoved inside.2
    | false =>
      rw [if_neg Bool.false_ne_true, Prod.mk.injEq] at isTaken
      obtain ⟨isRemoved, rfl⟩ := isTaken
      obtain ⟨removed, sound₂⟩ := removal_spares sound₁ volume
        (stampNow input.now) (input.left (stampNow input.now)) isRemoved
      refine ⟨sound₂, [], (spares.trans removed).mono ?_, fun _ mem => (not_mem_nil mem).elim,
        fun isOk => by cases isOk⟩
      rintro place rfl
      exact ⟨rfl, Or.inl rfl⟩

theorem take_fs (s : State) (volume : CStr) (input : TakeInput store) :
    ((volumebackupTake d s volume input).state.fs = s.fs ∧
      (volumebackupTake d s volume input).error ≠ .ok) ∨
    ∃ v, input.volumes.find volume = some v ∧ takeQuiet d s volume v input =
        ((volumebackupTake d s volume input).state.fs,
          (volumebackupTake d s volume input).error) := by
  rw [volumebackupTake]
  cases input.volumes.find volume with
  | none => exact Or.inl ⟨rfl, BackupError.noConfusion⟩
  | some v =>
    dsimp only
    split
    next => exact Or.inl ⟨rfl, BackupError.noConfusion⟩
    next =>
      split
      next =>
        split
        next => exact Or.inl ⟨rfl, BackupError.noConfusion⟩
        next => exact Or.inr ⟨v, rfl, rfl⟩
      next => exact Or.inr ⟨v, rfl, rfl⟩

theorem take_resumed (s : State) (volume : CStr) (input : TakeInput store)
    (thaws : ∀ name, input.accepts name false = true) :
    Resumed s.containers (volumebackupTake d s volume input).state.containers := by
  rw [volumebackupTake]
  cases input.volumes.find volume with
  | none => exact resumed_refl _
  | some v =>
    dsimp only
    split
    next => exact resumed_refl _
    next =>
      split
      next =>
        rcases @freeze_cases _ volume thaws s.containers with
          ⟨hasFailed, resumed⟩ | ⟨notFailed, frozen⟩
        · rw [if_pos hasFailed]
          exact resumed
        · rw [if_neg (by rw [notFailed]; exact Bool.false_ne_true)]
          exact thaw_resumed thaws frozen
      next => exact resumed_refl _

theorem statDir_free {fs : Storage.Host} {path place : Path} (free : Free fs path)
    (found : statDir fs (path.map Comp.name) = some place) : place = path := by
  rw [statDir] at found
  rcases resolve_free free with nowhere | isPath
  · rw [nowhere] at found
    cases found
  · rw [isPath] at found
    dsimp only at found
    split at found
    next => exact (Option.some.inj found).symm
    next => cases found

theorem restore_confined {s : State} {stamp : CStr}
    {input : RestoreInput store} (sound : Sound d store s.fs)
    (notHere : stamp ≠ ".") (notUp : stamp ≠ "..")
    (fits : ∀ v, input.volumes.find volume = some v → Free s.fs v.place ∧
      input.source.forest.Kinds (persistRemoveTree s.fs (v.place.map Comp.name) input.left) v.place)
    {done : Done}
    (isDone : volumebackupRestore d s volume stamp input = done) :
    Spares d store ∅ s.fs done.state.fs ∧ Sound d store done.state.fs ∧
      (∀ place ∈ done.reads, place = store ++ [volume, stamp]) ∧
      ∀ path, s.fs path ≠ none → (∀ v, input.volumes.find volume = some v → ¬ v.place <+: path) →
        done.state.fs path = s.fs path := by
  have unchanged : ∀ {error : BackupError}, (⟨s, error, []⟩ : Done) = done →
      Spares d store ∅ s.fs done.state.fs ∧ Sound d store done.state.fs ∧
        (∀ place ∈ done.reads, place = store ++ [volume, stamp]) ∧
        ∀ path, s.fs path ≠ none → (∀ v, input.volumes.find volume = some v → ¬ v.place <+: path) →
          done.state.fs path = s.fs path := by
    rintro error rfl
    exact ⟨Spares.refl _ _ _ _, sound, fun _ mem => (not_mem_nil mem).elim, fun _ _ _ => rfl⟩
  rw [volumebackupRestore] at isDone
  cases isVolume : input.volumes.find volume with
  | none =>
    rw [isVolume] at isDone
    rw [← isVolume]
    exact unchanged isDone
  | some v =>
    rw [isVolume] at isDone
    rw [← isVolume]
    dsimp only at isDone
    split at isDone
    next => exact unchanged isDone
    next accepted =>
      split at isDone
      next => exact unchanged isDone
      next =>
        cases isDisk : input.disk with
        | notMounted =>
          rw [isDisk] at isDone
          exact unchanged isDone
        | absent =>
          rw [isDisk] at isDone
          exact unchanged isDone
        | ready =>
          rw [isDisk, snapshotPath_plain (plain_of_valid (input.volumes.valid volume v isVolume))
            (plain_of_accepted accepted notHere notUp)] at isDone
          dsimp only at isDone
          cases found : statDir s.fs ((store ++ [volume, stamp]).map Comp.name) with
          | none =>
            rw [found] at isDone
            exact unchanged isDone
          | some place =>
            have isPlace := statDir_free (sound.free volume stamp) found
            rw [found] at isDone
            obtain ⟨free, kinds⟩ := fits v isVolume
            have apart := input.volumes.apart volume v isVolume
            have nonempty := ne_nil_of_apart apart
            obtain ⟨spares₁, sound₁⟩ := removal_apart sound input.left apart free
            rcases copyResult : copyInto d (persistRemoveTree s.fs
              (v.place.map Comp.name) input.left) v.place input.source
              input.fault with ⟨fs₂, copied⟩
            rw [copyResult] at isDone
            obtain ⟨fills, -⟩ := copyInto_fills (free.removal input.left nonempty) kinds copyResult
            obtain ⟨spares₂, sound₂⟩ := fills.apart_spares sound₁ apart
            rw [← isDone]
            refine ⟨spares₁.trans spares₂, sound₂, ?_, ?_⟩
            · intro place' mem
              rw [mem_singleton.mp mem]
              exact isPlace
            · intro path present outside
              have notBelow := outside v isVolume
              rcases removal_other input.left nonempty free path with
                same | ⟨-, isBelow⟩
              · by_cases isAbove : path <+: v.place
                · rcases fills.above path isAbove with kept | ⟨gone, -⟩
                  · exact kept.trans same
                  · exact absurd (same.symm.trans gone) present
                · exact (fills.apart path isAbove notBelow).trans same
              · exact absurd isBelow notBelow

theorem delete_confined {s : State} {disk : StoreDisk}
    {left : List Path} (sound : Sound d store s.fs) (plainVolume : Plain volume)
    (notHere : stamp ≠ ".") (notUp : stamp ≠ "..")
    {done : Done}
    (isDone : volumebackupDeleteSnapshot store s volume stamp disk left = done) :
    Spares d store {(volume, stamp)} s.fs done.state.fs ∧
      Sound d store done.state.fs ∧ done.reads = [] ∧
      ∀ path, ¬ store ++ [volume, stamp] <+: path → done.state.fs path = s.fs path := by
  have unchanged : ∀ {error : BackupError}, (⟨s, error, []⟩ : Done) = done →
      Spares d store {(volume, stamp)} s.fs done.state.fs ∧
        Sound d store done.state.fs ∧ done.reads = [] ∧
        ∀ path, ¬ store ++ [volume, stamp] <+: path → done.state.fs path = s.fs path := by
    rintro error rfl
    exact ⟨Spares.refl _ _ _ _, sound, rfl, fun _ _ => rfl⟩
  unfold volumebackupDeleteSnapshot at isDone
  split at isDone
  next => exact unchanged isDone
  next accepted =>
    cases disk with
    | notMounted => exact unchanged isDone
    | absent => exact unchanged isDone
    | ready =>
      rw [snapshotPath_plain plainVolume (plain_of_accepted accepted notHere notUp)] at isDone
      dsimp only at isDone
      cases found : statDir s.fs ((store ++ [volume, stamp]).map Comp.name) with
      | none =>
        rw [found] at isDone
        exact unchanged isDone
      | some place =>
        rw [found] at isDone
        rw [← isDone]
        obtain ⟨spares, sound'⟩ := removal_spares sound volume stamp left rfl
        refine ⟨spares, sound', rfl, ?_⟩
        intro path outside
        rcases removal_other left (by simp) (sound.free volume stamp) path with same | ⟨-, isBelow⟩
        · exact same
        · exact absurd isBelow outside

end Requests

/-! ## Whole runs -/

section Runs

variable (d : Daemon) {store : Path}

/-- A take has a stamp of its own and can thaw; a delete and a restore are not given
`.` or `..`, and nothing is in the way of a restore. -/
def Guard (s : State) : Op store → Prop
  | .take volume input =>
    s.fs (store ++ [volume, stampNow input.now]) = none ∧ ∀ name, input.accepts name false = true
  | .restore volume stamp input =>
    stamp ≠ "." ∧ stamp ≠ ".." ∧ ∀ v, input.volumes.find volume = some v → Free s.fs v.place ∧
        input.source.forest.Kinds (persistRemoveTree s.fs
          (v.place.map Comp.name) input.left) v.place
  | .delete volume stamp _ _ => Plain volume ∧ stamp ≠ "." ∧ stamp ≠ ".."
  | .others _ _ => True

/-- The time of a snapshot ends: it is deleted under its own stamp, or a take
finds as many newer ones as are kept. -/
def Ends (volume stamp : CStr) (s : State) : Op store → Prop
  | .delete volume' stamp' _ _ => volume' = volume ∧ stamp' = stamp
  | .take volume' input => volume' = volume ∧
      ∃ v, input.volumes.find volume = some v ∧
        Superseded store (step d s (.take volume' input)).fs volume stamp (retained v)
  | _ => False

/-- A delete stays in the snapshot's directory; a restore reads that one only, and
removes nothing outside the volume's own. -/
def Confined (s : State) : Op store → Prop
  | .restore volume stamp input =>
    (∀ place ∈ (perform d s (.restore volume stamp input)).reads,
      place = store ++ [volume, stamp]) ∧
    ∀ path, s.fs path ≠ none → (∀ v, input.volumes.find volume = some v → ¬ v.place <+: path) →
      (step d s (.restore volume stamp input)).fs path = s.fs path
  | .delete volume stamp disk left =>
    (perform d s (.delete volume stamp disk left : Op store)).reads = [] ∧
    ∀ path, ¬ store ++ [volume, stamp] <+: path →
      (step d s (.delete volume stamp disk left : Op store)).fs path = s.fs path
  | _ => True

def Quiet (s : State) : Op store → Prop
  | .take volume input =>
    Resumed s.containers (step d s (.take volume input)).containers
  | _ => True

variable {d}

variable {s : State}

theorem step_spares {op : Op store} (sound : Sound d store s.fs) (guard : Guard s op) :
    Sound d store (step d s op).fs ∧ ∃ places, Spares d store places s.fs (step d s op).fs ∧
      ∀ volume stamp, (volume, stamp) ∈ places →
        s.fs (store ++ [volume, stamp]) ≠ none → Ends d volume stamp s op := by
  cases op with
  | take volume input =>
    rcases take_fs (d := d) s volume input with ⟨same, -⟩ | ⟨v, isVolume, isTaken⟩
    · have isStep : (step d s (.take volume input)).fs = s.fs := same
      rw [isStep]
      exact ⟨sound, ∅, Spares.refl _ _ _ _, fun _ _ mem => mem.elim⟩
    · obtain ⟨sound', removed, spares, superseded, -⟩ := takeQuiet_spares sound guard.1 isTaken
      refine ⟨sound', _, spares, ?_⟩
      rintro volume' stamp' ⟨rfl, isOwn | isRemoved⟩ present
      · have isStamp : stamp' = stampNow input.now := isOwn
        rw [isStamp] at present
        exact absurd guard.1 present
      · exact ⟨rfl, v, isVolume, superseded stamp' isRemoved⟩
  | restore volume stamp input =>
    obtain ⟨spares, sound', -⟩ := restore_confined sound guard.1 guard.2.1 guard.2.2 rfl
    exact ⟨sound', ∅, spares, fun _ _ mem => mem.elim⟩
  | delete volume stamp disk left =>
    obtain ⟨spares, sound', -⟩ := delete_confined sound guard.1 guard.2.1 guard.2.2 rfl
    refine ⟨sound', _, spares, ?_⟩
    rintro volume' stamp' same -
    cases same
    exact ⟨rfl, rfl⟩
  | others fs containers =>
    obtain ⟨spares, sound'⟩ := @sound_of_same d store s.fs
      (step d s (.others fs containers)).fs sound
      (fun path comparable => if_pos comparable)
    exact ⟨sound', ∅, spares, fun _ _ mem => mem.elim⟩

theorem step_present {op : Op store} (sound : Sound d store s.fs)
    (guard : Guard s op) {content : Forest}
    (present : Present store s.fs volume stamp content)
    (goesOn : ¬ Ends d volume stamp s op) :
    Present store (step d s op).fs volume stamp content := by
  obtain ⟨-, places, spares, ends⟩ := step_spares sound guard
  exact present.spares spares fun inside =>
    goesOn (ends volume stamp inside (Present.exists content present))

theorem take_present {input : TakeInput store}
    (sound : Sound d store s.fs) (guard : Guard s (.take volume input))
    (isOk : (perform d s (.take volume input)).error = .ok)
    (goesOn : ¬ Ends d volume (stampNow input.now) s (.take volume input)) :
    Present store (step d s (.take volume input)).fs volume
      (stampNow input.now) input.source.forest := by
  rcases take_fs (d := d) s volume input with ⟨-, failed⟩ | ⟨v, isVolume, isTaken⟩
  · exact absurd isOk failed
  · obtain ⟨-, removed, -, -, isPresent⟩ := takeQuiet_spares sound guard.1 isTaken
    rcases isPresent isOk with superseded | present
    · exact absurd ⟨rfl, v, isVolume, superseded⟩ goesOn
    · exact present

theorem run_sound {ops : List (Op store)}
    (sound : Sound d store s.fs) (guarded : Guarded (step d) Guard s ops) :
    Sound d store (run (step d) s ops).fs :=
  run_invariant (fun s => Sound d store s.fs)
    (fun _ _ sound guard => (step_spares sound guard).1) sound guarded

theorem run_present {ops : List (Op store)}
    (sound : Sound d store s.fs) (guarded : Guarded (step d) Guard s ops)
    {stamp : CStr} {content : Forest}
    (present : Present store s.fs volume stamp content)
    (goesOn : Guarded (step d) (fun s op => ¬ Ends d volume stamp s op) s ops) :
    Present store (run (step d) s ops).fs volume stamp content := by
  induction ops using List.reverseRecOn with
  | nil => exact present
  | append_singleton ops op ih =>
    rw [run_snoc]
    exact step_present (run_sound sound guarded.initial) (guarded ops op [] rfl)
      (ih guarded.initial goesOn.initial)
      (goesOn ops op [] rfl)

theorem step_confined {op : Op store} (sound : Sound d store s.fs)
    (guard : Guard s op) : Confined d s op ∧ Quiet d s op := by
  cases op with
  | take volume input => exact ⟨trivial, take_resumed s volume input guard.2⟩
  | restore volume stamp input =>
    obtain ⟨-, -, reads, removes⟩ := restore_confined sound guard.1 guard.2.1 guard.2.2 rfl
    exact ⟨⟨reads, removes⟩, trivial⟩
  | delete volume stamp disk left =>
    obtain ⟨-, -, reads, removes⟩ := delete_confined sound guard.1 guard.2.1 guard.2.2 rfl
    exact ⟨⟨reads, removes⟩, trivial⟩
  | others fs containers => exact ⟨trivial, trivial⟩

variable (d) in
/-- Snapshots of successful takes stay with their content; deletes and restores are
confined, and takes leave nothing paused. -/
def SnapshotsStay (s : State) (ops : List (Op store)) : Prop :=
  (∀ before volume input later rest, ops = before ++ .take volume input :: (later ++ rest) →
    (perform d (run (step d) s before) (.take volume input)).error = .ok →
    Guarded (step d) (fun s op => ¬ Ends d volume (stampNow input.now) s op)
      (run (step d) s before) (.take volume input :: later) →
    Present store (run (step d) s (before ++ .take volume input :: later)).fs
      volume (stampNow input.now) input.source.forest) ∧
  ∀ before op after, ops = before ++ op :: after → Confined d (run (step d) s before) op ∧
      Quiet d (run (step d) s before) op

theorem snapshots_stay (d : Daemon) (store : Path) (s : State)
    (ops : List (Op store)) (sound : Sound d store s.fs)
    (guarded : Guarded (step d) Guard s ops) : SnapshotsStay d s ops := by
  constructor
  · rintro before volume input later rest rfl isOk goesOn
    have soundBefore := run_sound sound guarded.initial
    have guard := guarded before _ _ rfl
    have taken := take_present soundBefore guard isOk (goesOn [] _ later rfl)
    have guardedLater : Guarded (step d) Guard
        (step d (run (step d) s before) (.take volume input)) later := by
      have split : before ++ .take volume input :: (later ++ rest) =
          (before ++ [.take volume input]) ++ (later ++ rest) := by simp
      rw [split] at guarded
      have after := guarded.later.initial
      rw [run_snoc] at after
      exact after
    have goesOnLater : Guarded (step d) (fun s op => ¬ Ends d volume (stampNow input.now) s op)
        (run (step d) (run (step d) s before) [.take volume input]) later :=
      Guarded.later goesOn
    rw [run_append, run_cons]
    exact run_present (step_spares soundBefore guard).1 guardedLater taken goesOnLater
  · rintro before op after rfl
    exact step_confined (run_sound sound guarded.initial) (guarded before op after rfl)

/-! ## A stamp that is no stamp -/

theorem comps_here : comps "." = [.here] := by
  decide +kernel

theorem delete_here {content : Forest}
    (plain : Plain volume) (present : Present store s.fs volume stamp content) :
    (volumebackupDeleteSnapshot store s volume "." .ready []).error = .ok ∧
    (volumebackupDeleteSnapshot store s volume "." .ready
      []).state.fs (store ++ [volume, stamp]) = none := by
  have begins : store ++ [volume] <+: store ++ [volume, stamp] := ⟨[stamp], by simp⟩
  have real := present.real.of_prefix begins
  have isPath : snapshotPath store volume "." = (store ++ [volume]).map Comp.name ++ [.here] := by
    rw [snapshotPath, comps_plain plain, comps_here]
    simp
  have found : s.fs.resolve ((store ++ [volume]).map Comp.name ++ [.here]) =
      some (store ++ [volume]) := by
    obtain ⟨follow, isWalk⟩ := Files.walk_eq s.fs Files.maxLinks
    have walked := @Files.walkWith_real _ _ _ _ s.fs follow [] (store ++ [volume]) [.here] real
    rw [Files.resolve, isWalk, walked]
    rfl
  have isDir := real _ (prefix_refl _)
  have isThere : ¬ (store ++ [volume] ≠ [] ∧ s.fs (store ++ [volume]) = none) := by
    rintro ⟨nonempty, missing⟩
    rcases isDir with empty | ⟨attr, holds⟩
    · exact nonempty empty
    · rw [holds] at missing
      cases missing
  have accepted : ¬ stampRefused "." = true := by decide +kernel
  unfold volumebackupDeleteSnapshot
  rw [if_neg accepted]
  dsimp only
  rw [isPath, statDir, found]
  dsimp only
  rw [if_pos ((Files.isDir_iff _ _).mpr isDir)]
  refine ⟨rfl, ?_⟩
  dsimp only
  rw [persistRemoveTree, found]
  dsimp only
  rw [if_neg isThere, getLast?_concat]
  dsimp only
  rw [removeBelow, if_pos]
  refine ⟨begins, ?_⟩
  rintro ⟨kept, mem, isPrefix⟩
  rw [mem_singleton.mp mem] at isPrefix
  have size := isPrefix.length_le
  simp at size

theorem length_volumebackupList_le (fs : Storage.Host) (volume : CStr) (order : List CStr) :
    (volumebackupList store fs volume order).length ≤ order.length := by
  rw [volumebackupList]
  split
  next => exact Nat.zero_le _
  next dir _ =>
    split
    next =>
      rw [length_mergeSort, length_map]
      exact (length_take_le' _ _).trans <| (length_filter_le _ _).trans <|
          (length_filter_le _ _).trans (order.dedup_sublist.length_le)
    next => exact Nat.zero_le _

theorem trim_few (fs : Storage.Host) (volume : CStr) {v : Target}
    {order : List CStr} (few : order.length ≤ retained v)
    (left : CStr → List Path) :
    trimToRetention store fs volume v.retain order left = fs := by
  rw [trimToRetention, drop_of_length_le, foldl_nil]
  exact (length_volumebackupList_le fs volume order).trans few

theorem takeQuiet_few {v : Target}
    {input : TakeInput store} {fs : Storage.Host}
    (few : input.order.length ≤ retained v)
    (isTaken : takeQuiet d s volume v input = (fs, .ok)) :
    copyInto d s.fs (store ++ [volume, stampNow input.now]) input.source
      input.fault = (fs, true) := by
  rw [takeQuiet] at isTaken
  cases isDisk : input.disk with
  | absent =>
    rw [isDisk] at isTaken
    cases isTaken
  | notMounted =>
    rw [isDisk] at isTaken
    cases isTaken
  | ready =>
    rw [isDisk] at isTaken
    dsimp only at isTaken
    rcases copyResult : copyInto d s.fs
      (store ++ [volume, stampNow input.now]) input.source input.fault with
      ⟨fs₁, copied⟩
    rw [copyResult] at isTaken
    cases copied with
    | true =>
      dsimp only at isTaken
      rw [if_pos rfl, trim_few _ _ few] at isTaken
      rw [(Prod.mk.inj isTaken).1]
    | false => cases isTaken

theorem first_goesOn {s : State} {volume : CStr} {input : TakeInput store}
    {v : Target} (sound : Sound d store s.fs)
    (isVolume : input.volumes.find volume = some v)
    (isFirst : ∀ stamp, s.fs (store ++ [volume, stamp]) = none)
    (few : input.order.length ≤ retained v) (positive : 0 < retained v)
    (isOk : (perform d s (.take volume input)).error = .ok) :
    ¬ Ends d volume (stampNow input.now) s (.take volume input) := by
  rintro ⟨-, v', isVolume', newer, nodup, size, isNewer⟩
  rw [isVolume, Option.some.injEq] at isVolume'
  subst isVolume'
  obtain ⟨other, mem⟩ : ∃ other, other ∈ newer := exists_mem_of_length_pos (size ▸ positive)
  obtain ⟨older, isDir⟩ := isNewer other mem
  rcases take_fs (d := d) s volume input with ⟨-, failed⟩ | ⟨v', isVolume', isTaken⟩
  · exact failed isOk
  · rw [isVolume, Option.some.injEq] at isVolume'
    subst isVolume'
    have isOk' : (volumebackupTake d s volume input).error = .ok := isOk
    rw [isOk'] at isTaken
    obtain ⟨spares, -, -⟩ := copy_snapshot sound (isFirst (stampNow input.now)) (stampNow_short _)
      (takeQuiet_few few isTaken)
    have different : (volume, other) ∉ ({(volume, stampNow input.now)} : Set (CStr × CStr)) := by
      intro same
      rw [(Prod.mk.inj same).2, strcmp_eq_iff.mpr rfl] at older
      cases older
    have missing := (spares.others volume other different []).trans (isFirst other)
    rcases isDir with empty | ⟨attr, holds⟩
    · simp at empty
    · exact absurd (holds.symm.trans missing) (Option.some_ne_none _)

end Runs

/-! ## The same in small -/

section Example

def exampleTarget : Target :=
  { place := ["h"], retain := 7, whileRunning := .allow }

def exampleVolumes : Registry ["b"] where
  find name := if name = "v" then some exampleTarget else none
  valid name v found := by
    split at found
    next isName =>
      rw [isName]
      decide +kernel
    next => cases found
  apart name v found := by
    split at found
    next =>
      cases found
      constructor <;> decide +kernel
    next => cases found

def exampleDaemon : Daemon :=
  { uid := 0, gid := 0, umask := 18, opens := fun _ => false }

def exampleState : State := { fs := fun _ => none, containers := [] }

def exampleTake : TakeInput ["b"] where
  volumes := exampleVolumes
  isRunning := false
  accepts _ _ := true
  disk := .ready
  now := 0
  source :=
    { forest := .leaf "f"
        (.file { uid := 0, gid := 0, mode := 420 } [104, 105]) .nil
      distinct := ⟨not_mem_nil, trivial⟩ }
  fault := .none
  left _ := []
  order := [stampNow 0]

theorem example_sound : Sound exampleDaemon ["b"] exampleState.fs where
  above _ _ := trivial
  groups _ _ := keepsGroup_default exampleDaemon
  slots _ _ := ⟨trivial, fun _ _ => rfl, fun present => absurd rfl present⟩

theorem example_find : exampleTake.volumes.find "v" = some exampleTarget := by
  unfold exampleTake exampleVolumes
  dsimp only
  rw [if_pos rfl]

theorem example_ok : (perform exampleDaemon exampleState (.take "v" exampleTake)).error = .ok := by
  decide +kernel

theorem example_goesOn : ¬ Ends exampleDaemon "v" (stampNow exampleTake.now) exampleState
    (.take "v" exampleTake) :=
  @first_goesOn exampleDaemon _ exampleState "v" exampleTake
    exampleTarget example_sound example_find (fun _ => rfl) (by decide)
    (by decide) example_ok

theorem example_guard : Guard exampleState (.take "v" exampleTake) :=
  ⟨rfl, fun _ => rfl⟩

def lostRun : List (Op ["b"]) :=
  [.take "v" exampleTake, .delete "v" "." .ready []]

/-- The snapshot is lost, although it was not deleted under its own stamp. -/
theorem snapshot_lost : ¬ SnapshotsStay exampleDaemon exampleState lostRun := by
  rintro ⟨stays, -⟩
  have plain : Plain "v" := plain_of_valid (by decide +kernel)
  have taken := take_present example_sound example_guard example_ok example_goesOn
  have goesOn : Guarded (step exampleDaemon) (fun s op => ¬ Ends exampleDaemon "v"
        (stampNow exampleTake.now) s op) exampleState lostRun := by
    refine Guarded.cons example_goesOn (Guarded.cons ?_ (guarded_nil _ _))
    rintro ⟨-, isStamp⟩
    exact absurd isStamp (by decide +kernel)
  have present := stays [] "v" exampleTake [.delete "v" "." .ready []] [] rfl example_ok goesOn
  exact Present.exists _ present (delete_here plain taken).2

def exampleRestore : RestoreInput ["b"] where
  volumes := exampleVolumes
  isRunning := false
  disk := .ready
  source := exampleTake.source
  fault := .none
  left := []

theorem example_restores :
    Guard (step exampleDaemon exampleState (.take "v" exampleTake))
      (.restore "v" (stampNow 0) exampleRestore) := by
  have above : ∀ rel ∈ ([[], ["h"]] : List Path),
      ((step exampleDaemon exampleState (.take "v" exampleTake)).fs rel).isNone := by
    decide +kernel
  refine ⟨by decide +kernel, by decide +kernel, fun v found => ?_⟩
  obtain rfl := Option.some.inj (found.symm.trans example_find)
  have fits : ∀ item (e : Option FileEntry), e.isNone = true → LeafFits item e := by
    rintro item (_ | _) isNone
    · trivial
    · cases isNone
  refine ⟨fun initial isPrefix => ?_, fits _ _ (by decide +kernel), trivial⟩
  have nothing := above initial (by
    rcases prefix_cons_iff.mp isPrefix with rfl | ⟨rest, rfl, none⟩
    · exact mem_cons_self
    · simp [prefix_nil.mp none])
  rw [Option.isNone_iff_eq_none.mp nothing]
  trivial

/-- A restore, and the delete with the snapshot's own stamp. -/
theorem snapshots_stay_example : SnapshotsStay exampleDaemon exampleState
    [.take "v" exampleTake, .restore "v" (stampNow 0) exampleRestore,
      .delete "v" (stampNow 0) .ready []] := by
  apply snapshots_stay exampleDaemon ["b"] exampleState _ example_sound
  refine Guarded.cons example_guard (Guarded.cons example_restores
    (Guarded.cons ?_ (guarded_nil _ _)))
  exact ⟨plain_of_valid (by decide +kernel), by decide +kernel, by decide +kernel⟩

end Example

end Cix.Backup
