import Cix.Lib.CString
import Cix.Lib.Machine
import Mathlib.Algebra.GroupWithZero.Nat

/-!
# The artifact cache

`cache_scan`, `cache_evict_lru_until_fits`, `pkg_cache_save_from_file` and
`pkg_cache_touch` of `daemon/src/pkg.c`.  The files are the regular ones whose
names do not begin with a dot.  What a scan lists, in which order it leaves files
of one time, and what cannot be unlinked comes with each call.
-/

namespace Cix.Pkg.ArtifactCache

open Cix.Lib List

def pkgCacheScanMax : Nat := 4096

structure CacheFile where
  filename : CStr
  (mtime size : Nat)
  deriving DecidableEq

def total (files : List CacheFile) : Nat := (files.map CacheFile.size).sum

/-- The loop: the files that are unlinked, where `left` bytes are taken for left. -/
def evictFrom (maxBytes incoming : Nat) (stuck : CStr → Bool) :
    List CacheFile → (left : Nat) → List CacheFile
  | [], _ => []
  | f :: rest, left =>
    if left + incoming > maxBytes then
      if stuck f.filename then evictFrom maxBytes incoming stuck rest left
      else f :: evictFrom maxBytes incoming stuck rest (left - f.size)
    else []

def cacheEvictLruUntilFits (maxBytes incoming : Nat) (stuck : CStr → Bool)
    (scan : List CacheFile) : List CacheFile :=
  evictFrom maxBytes incoming stuck scan (total scan)

inductive Call where
  /-- The name is that of `final_path`, if the format is one that is cached;
  `arrived` is what the rename or else the copy leaves there. -/
  | save (filename : Option CStr) (mtime size : Nat) (arrived : Option Nat)
      (scan : List CacheFile) (stuck : CStr → Bool)
  | touch (filename : CStr) (now : Nat)

def pkgCacheSaveFromFile (maxBytes : Nat) (filename : Option CStr) (mtime size : Nat)
    (arrived : Option Nat) (scan : List CacheFile) (stuck : CStr → Bool)
    (files : List CacheFile) : List CacheFile :=
  if size > maxBytes then files
  else
    match filename with
    | none => files
    | some name =>
      let gone := cacheEvictLruUntilFits maxBytes size stuck scan
      (arrived.map fun bytes => ⟨name, mtime, bytes⟩).toList ++
        files.filter fun f => f ∉ gone ∧ f.filename ≠ name

def pkgCacheTouch (filename : CStr) (now : Nat) (files : List CacheFile) : List CacheFile :=
  files.map fun f => if f.filename = filename then { f with mtime := now } else f

def answer (maxBytes : Nat) (files : List CacheFile) : Call → List CacheFile
  | .save filename mtime size arrived scan stuck =>
    pkgCacheSaveFromFile maxBytes filename mtime size arrived scan stuck files
  | .touch filename now => pkgCacheTouch filename now files

/-- A save whose scan takes in all files, in the order of their times, and that
can unlink each of them; no more arrives than the file has. -/
def Fair (files : List CacheFile) : Call → Prop
  | .save _ _ size arrived scan stuck => (∀ bytes ∈ arrived, bytes ≤ size) ∧ files.length ≤ pkgCacheScanMax ∧ scan.Perm files ∧
      scan.Pairwise (fun a b => a.mtime ≤ b.mtime) ∧ ∀ f ∈ files, stuck f.filename = false
  | .touch _ _ => True

variable {maxBytes incoming : Nat} {stuck : CStr → Bool}

/-- The oldest files go, one after the other, as long as the new one does not
fit; what cannot be unlinked stays. -/
theorem evictFrom_spec (scan : List CacheFile) (left : Nat) (enough : total scan ≤ left) :
    let gone := evictFrom maxBytes incoming stuck scan left
    gone <+ scan ∧ (∀ f ∈ gone, stuck f.filename = false) ∧
      (left - total gone + incoming ≤ maxBytes ∨
        ∀ f ∈ scan, stuck f.filename = false → f ∈ gone) ∧
      (∀ front last, gone = front ++ [last] → maxBytes < left - total front + incoming) ∧
      (scan.Pairwise (fun a b => a.mtime ≤ b.mtime) → ∀ g ∈ gone, ∀ f ∈ scan,
        stuck f.filename = false → f ∉ gone → g.mtime ≤ f.mtime) := by
  induction scan generalizing left with
  | nil => simp [evictFrom]
  | cons f rest ih =>
    dsimp only at ih ⊢
    have size : total (f :: rest) = f.size + total rest := rfl
    rw [evictFrom]
    split_ifs with full isStuck
    · obtain ⟨among, free, enoughGone, minimal, oldest⟩ := ih left (by omega)
      refine ⟨among.cons f, free, enoughGone.imp_right ?_, minimal, ?_⟩
      · intro all g mem isFree
        rcases mem_cons.mp mem with rfl | inRest
        · exact absurd isFree (by simp [isStuck])
        · exact all g inRest isFree
      · intro ordered g isGone h mem isFree stays
        rcases mem_cons.mp mem with rfl | inRest
        · exact absurd isFree (by simp [isStuck])
        · exact oldest (pairwise_cons.mp ordered).2 g isGone h inRest isFree stays
    · obtain ⟨among, free, enoughGone, minimal, oldest⟩ := ih (left - f.size) (by omega)
      have shift : ∀ files, left - f.size - total files = left - total (f :: files) := by
        intro files
        have : total (f :: files) = f.size + total files := rfl
        omega
      refine ⟨among.cons_cons f, ?_, ?_, ?_, ?_⟩
      · exact forall_mem_cons.mpr ⟨by simpa using isStuck, free⟩
      · rw [← shift]
        refine enoughGone.imp_right fun all g mem isFree => ?_
        rcases mem_cons.mp mem with rfl | inRest
        · exact mem_cons_self
        · exact mem_cons_of_mem _ (all g inRest isFree)
      · intro front last same
        cases front with
        | nil => simpa [total] using full
        | cons first front =>
          obtain ⟨rfl, isRest⟩ := List.cons.inj same
          rw [← shift]
          exact minimal front last isRest
      · intro ordered g isGone h mem isFree stays
        obtain ⟨notHead, notRest⟩ := not_or.mp (mem_cons.not.mp stays)
        have inRest := (mem_cons.mp mem).resolve_left notHead
        rcases mem_cons.mp isGone with rfl | isGone
        · exact (pairwise_cons.mp ordered).1 h inRest
        · exact oldest (pairwise_cons.mp ordered).2 g isGone h inRest isFree notRest
    · simp [total]
      exact Or.inl (by simpa [total] using full)

theorem total_touch (filename : CStr) (now : Nat) (files : List CacheFile) :
    total (pkgCacheTouch filename now files) = total files := by
  rw [total, total, pkgCacheTouch, map_map]
  congr 1
  refine map_congr_left fun f _ => ?_
  rw [Function.comp]
  split <;> rfl

theorem total_perm {first second : List CacheFile} (perm : first.Perm second) :
    total first = total second :=
  (perm.map _).sum_nat

theorem total_filter_le (keep : CacheFile → Bool) (files : List CacheFile) :
    total (files.filter keep) ≤ total files := by
  obtain ⟨rest, split⟩ := (@filter_sublist _ keep files).exists_perm_append
  rw [total_perm split]
  simp [total]

variable {files : List CacheFile}

theorem total_save (filename : Option CStr) (mtime : Nat) {size : Nat} {arrived : Option Nat}
    {scan : List CacheFile} (fair : Fair files (.save filename mtime size arrived scan stuck))
    (small : total files ≤ maxBytes) :
    total (pkgCacheSaveFromFile maxBytes filename mtime size arrived scan stuck files) ≤
      maxBytes := by
  obtain ⟨part, -, perm, -, free⟩ := fair
  unfold pkgCacheSaveFromFile
  split_ifs with long
  · exact small
  cases filename with
  | none => exact small
  | some name =>
    obtain ⟨among, -, enough, -⟩ := @evictFrom_spec maxBytes size stuck scan _ (Nat.le_refl _)
    obtain ⟨rest, split⟩ := among.exists_perm_append
    dsimp only [cacheEvictLruUntilFits]
    generalize evictFrom maxBytes size stuck scan (total scan) = gone at *
    suffices room : size + total (files.filter fun f => f ∉ gone ∧ f.filename ≠ name) ≤
        maxBytes by
      cases arrived with
      | none => exact (Nat.le_add_left _ _).trans room
      | some bytes => exact (Nat.add_le_add_right (part bytes rfl) _).trans room
    rcases enough with fits | all
    · have whole := total_perm split
      have left : total (files.filter fun f => f ∉ gone ∧ f.filename ≠ name) ≤ total rest := by
        rw [← total_perm ((split.symm.trans perm).filter _), filter_append,
          filter_eq_nil_iff.mpr fun f mem => by simp [mem], nil_append]
        exact total_filter_le _ _
      have parts : total (gone ++ rest) = total gone + total rest := by simp [total]
      omega
    · rw [filter_eq_nil_iff.mpr]
      · simpa [total] using long
      · intro f mem
        simp [all f (perm.mem_iff.mpr mem) (free f mem)]

def oldAndNew : List CacheFile := [⟨"a", 1, 6⟩, ⟨"b", 2, 4⟩]

end Cix.Pkg.ArtifactCache
