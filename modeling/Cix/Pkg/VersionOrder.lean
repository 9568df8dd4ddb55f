import Cix.Lib.OrderFree
import Cix.Pkg.Versions
import Mathlib.Algebra.Group.Int.Defs

/-!
# The newest version

Both comparisons of versions, `pkg_version_compare` and `pkg_version_cmp`,
order texts by their tokens.  The numbers of the tokens are held in a `long`,
and texts with the same tokens are not always the same, so that the version
which `find_recipe_path` finds can depend on the order of the directory.
-/

namespace Cix.Pkg

open Cix.Lib List Option

/-- The loop of `pkg_version_compare`; the byte at the end of a text is zero. -/
def versionCompareFrom : Nat → List UInt8 → List UInt8 → Ordering
  | 0, _, _ => .eq
  | rounds + 1, as, bs =>
    if as = [] ∧ bs = [] then .eq
    else if isDigit (as.headD 0) && isDigit (bs.headD 0) then
      let first := digitRun 0 as
      let second := digitRun 0 bs
      if first.1 ≠ second.1 then
        if first.1 < second.1 then .lt else .gt
      else versionCompareFrom rounds first.2 second.2
    else if as.headD 0 ≠ bs.headD 0 then
      if as.headD 0 < bs.headD 0 then .lt else .gt
    else versionCompareFrom rounds as.tail bs.tail

def pkgVersionCompare (a b : CStr) : Ordering :=
  versionCompareFrom (a.length + 1) a.bytes b.bytes

variable {as bs : List UInt8}

theorem digitRun_suffix (n : Int) (text : List UInt8) : (digitRun n text).2 <:+ text := by
  induction text generalizing n with
  | nil => exact suffix_refl _
  | cons c rest ih =>
    rw [digitRun]
    split
    · exact (ih _).trans (suffix_cons c rest)
    · exact suffix_refl _

theorem versionCompareFrom_eq {rounds : Nat} (enough : as.length ≤ rounds)
    (plainA : 0 ∉ as) (plainB : 0 ∉ bs) :
    versionCompareFrom (rounds + 1) as bs = versionCmpFrom rounds as bs := by
  induction rounds generalizing as bs with
  | zero =>
    cases length_eq_zero_iff.mp (Nat.le_zero.mp enough)
    cases bs with
    | nil => rfl
    | cons b bs =>
      have nonzero : (0 : UInt8) ≠ b := fun isZero => plainB (isZero ▸ mem_cons_self)
      have positive : (0 : UInt8) < b := UInt8.pos_iff_ne_zero.mpr nonzero.symm
      simp [versionCompareFrom, versionCmpFrom, isDigit, nonzero, positive]
  | succ rounds ih =>
    rw [versionCompareFrom]
    cases as with
    | nil =>
      cases bs with
      | nil => rfl
      | cons b bs =>
        have nonzero : (0 : UInt8) ≠ b := fun isZero => plainB (isZero ▸ mem_cons_self)
        have positive : (0 : UInt8) < b := UInt8.pos_iff_ne_zero.mpr nonzero.symm
        simp [versionCmpFrom, isDigit, nonzero, positive]
    | cons a as =>
      cases bs with
      | nil =>
        have nonzero : a ≠ 0 := fun isZero => plainA (isZero ▸ mem_cons_self)
        simp [versionCmpFrom, isDigit, nonzero]
      | cons b bs =>
        have shorter : as.length ≤ rounds := by simpa using enough
        rw [if_neg (by simp), versionCmpFrom]
        have tails := ih shorter (fun isIn : 0 ∈ as => plainA (mem_cons_of_mem _ isIn))
          (fun isIn : 0 ∈ bs => plainB (mem_cons_of_mem _ isIn))
        by_cases digits : (isDigit a && isDigit b) = true
        · have heads : (isDigit ((a :: as).headD 0) && isDigit ((b :: bs).headD 0)) = true :=
            digits
          rw [if_pos heads, if_pos digits]
          rw [Bool.and_eq_true] at digits
          have runs := ih (le_trans (length_digitRun_lt digits.1) shorter)
            (fun isIn => plainA ((digitRun_suffix 0 _).mem isIn))
            (fun isIn : 0 ∈ (digitRun 0 (b :: bs)).2 => plainB ((digitRun_suffix 0 _).mem isIn))
          dsimp only
          rw [runs]
        · have heads : ¬ (isDigit ((a :: as).headD 0) && isDigit ((b :: bs).headD 0)) = true :=
            digits
          rw [if_neg heads, if_neg digits, tail_cons, tail_cons, tails]
          rfl

theorem pkgVersionCompare_eq (a b : CStr) : pkgVersionCompare a b = pkgVersionCmp a b :=
  versionCompareFrom_eq (le_refl _) a.nulFree b.nulFree

def tokens (a : CStr) : List Token :=
  tokensFrom none a.bytes

theorem pkgVersionCompare_lt {a b : CStr} : pkgVersionCompare a b = .lt ↔ tokens a < tokens b := by
  rw [pkgVersionCompare_eq, pkgVersionCmp_lt, tokens, tokens]

theorem pkgVersionCompare_gt {a b : CStr} : pkgVersionCompare a b = .gt ↔ tokens b < tokens a := by
  rw [pkgVersionCompare_eq, pkgVersionCmp_gt, tokens, tokens]

theorem pkgVersionCompare_swap (a b : CStr) :
    pkgVersionCompare b a = (pkgVersionCompare a b).swap := by
  rcases lt_trichotomy (tokens a) (tokens b) with less | same | more
  · rw [pkgVersionCompare_lt.mpr less, pkgVersionCompare_gt.mpr less]
    rfl
  · have equal : ∀ {x y}, tokens x = tokens y → pkgVersionCompare x y = .eq := by
      intro x y same
      cases verdict : pkgVersionCompare x y with
      | lt => exact absurd (pkgVersionCompare_lt.mp verdict) (same ▸ lt_irrefl _)
      | gt => exact absurd (pkgVersionCompare_gt.mp verdict) (same ▸ lt_irrefl _)
      | eq => rfl
    rw [equal same, equal same.symm]
    rfl
  · rw [pkgVersionCompare_lt.mpr more, pkgVersionCompare_gt.mpr more]
    rfl

theorem pkgVersionCompare_le {a b : CStr} : pkgVersionCompare a b ≠ .gt ↔ tokens a ≤ tokens b := by
  rw [Ne, pkgVersionCompare_gt, not_lt]

def exactTokensFrom : Option Int → List UInt8 → List Token
  | none, [] => []
  | some n, [] => [numberToken n]
  | none, c :: rest =>
    if isDigit c then exactTokensFrom (some (c.toNat - 48 : Int)) rest
    else byteToken c :: exactTokensFrom none rest
  | some n, c :: rest =>
    if isDigit c then exactTokensFrom (some (n * 10 + (c.toNat - 48 : Int))) rest
    else numberToken n :: byteToken c :: exactTokensFrom none rest

def exactTokens (a : CStr) : List Token :=
  exactTokensFrom none a.bytes

/-- Every run of digits is the number of a `long`. -/
def Short (list : List Token) : Prop :=
  ∀ n, numberToken n ∈ list → n < 2 ^ 63

theorem addDigit_lt (n : Int) (c : UInt8) : addDigit n c < 2 ^ 63 := by
  have bound := Int.bmod_lt (x := n * 10 + (c.toNat - 48 : Int)) (m := 2 ^ 64) (by decide)
  simpa [addDigit] using bound

theorem short_tokensFrom (pending : Option Int) (text : List UInt8)
    (held : ∀ n, pending = some n → n < 2 ^ 63) : Short (tokensFrom pending text) := by
  induction text generalizing pending with
  | nil =>
    intro n mem
    cases pending with
    | none => cases mem
    | some m =>
      rw [tokensFrom, mem_singleton, numberToken_inj] at mem
      exact mem ▸ held m rfl
  | cons c rest ih =>
    have later := ih none fun n none => by cases none
    have more : ∀ m, Short (tokensFrom (some (addDigit m c)) rest) := fun m =>
      ih _ fun n isSum => some.inj isSum ▸ addDigit_lt m c
    have byte : Short (byteToken c :: tokensFrom none rest) := by
      intro n mem
      rcases mem_cons.mp mem with isByte | inRest
      · exact absurd isByte.symm byteToken_ne_numberToken
      · exact later n inRest
    cases pending with
    | none =>
      rw [tokensFrom]
      split
      · exact more 0
      · exact byte
    | some m =>
      rw [tokensFrom]
      split
      · exact more m
      · intro n mem
        rcases mem_cons.mp mem with isNumber | inRest
        · exact numberToken_inj.mp isNumber ▸ held m rfl
        · exact byte n inRest

theorem le_of_pending {n : Int} (nonneg : 0 ≤ n) (text : List UInt8) :
    ∃ m, n ≤ m ∧ numberToken m ∈ exactTokensFrom (some n) text := by
  induction text generalizing n with
  | nil => exact ⟨n, le_refl n, mem_singleton_self _⟩
  | cons c rest ih =>
    rw [exactTokensFrom]
    split
    next digit =>
      have inside := isDigit_iff.mp digit
      obtain ⟨m, le, mem⟩ := ih (n := n * 10 + (c.toNat - 48 : Int)) (by omega)
      exact ⟨m, by omega, mem⟩
    · exact ⟨n, le_refl n, mem_cons_self⟩

theorem addDigit_exact {n : Int} (nonneg : 0 ≤ n) {c : UInt8} (digit : isDigit c = true)
    (small : n * 10 + (c.toNat - 48 : Int) < 2 ^ 63) :
    addDigit n c = n * 10 + (c.toNat - 48 : Int) := by
  have inside := isDigit_iff.mp digit
  exact Int.bmod_eq_of_le (by omega) (by omega)

theorem tokensFrom_exact (pending : Option Int) (text : List UInt8)
    (nonneg : ∀ n, pending = some n → 0 ≤ n)
    (short : Short (exactTokensFrom pending text)) :
    tokensFrom pending text = exactTokensFrom pending text := by
  induction text generalizing pending with
  | nil => cases pending <;> rfl
  | cons c rest ih =>
    have step : ∀ n, 0 ≤ n → isDigit c = true →
        Short (exactTokensFrom (some (n * 10 + (c.toNat - 48 : Int))) rest) →
        tokensFrom (some (addDigit n c)) rest =
          exactTokensFrom (some (n * 10 + (c.toNat - 48 : Int))) rest := by
      intro n start digit short
      have inside := isDigit_iff.mp digit
      have positive : 0 ≤ n * 10 + (c.toNat - 48 : Int) := by omega
      obtain ⟨m, le, mem⟩ := le_of_pending positive rest
      rw [addDigit_exact start digit (le.trans_lt (short m mem))]
      exact ih _ (fun k isSum => some.inj isSum ▸ positive) short
    cases pending with
    | none =>
      rw [tokensFrom, exactTokensFrom] at *
      split
      next digit =>
        rw [if_pos digit] at short
        simpa using step 0 (le_refl 0) digit (by simpa using short)
      next byte =>
        rw [if_neg byte] at short
        rw [ih none (fun n none => by cases none)
          fun n mem => short n (mem_cons_of_mem _ mem)]
    | some n =>
      rw [tokensFrom, exactTokensFrom] at *
      split
      next digit =>
        rw [if_pos digit] at short
        exact step n (nonneg n rfl) digit short
      next byte =>
        rw [if_neg byte] at short
        rw [ih none (fun n none => by cases none) fun n mem =>
          short n (mem_cons_of_mem _ (mem_cons_of_mem _ mem))]

theorem tokens_exact_iff (a : CStr) : tokens a = exactTokens a ↔ Short (exactTokens a) := by
  constructor
  · intro same
    rw [← same]
    exact short_tokensFrom none _ fun n none => by cases none
  · exact tokensFrom_exact none _ fun n none => by cases none

/-- `enum pkg_policy_kind`. -/
inductive PkgPolicyKind where
  | highest
  | newest
  | pinned
  deriving DecidableEq

/-- An entry of the directory of a package: its name, and when the recipe file
in it was published, if there is one. -/
structure VersionDir where
  version : BoundedStr 64
  created : Option Int

structure Candidate where
  version : BoundedStr 64
  created : Int

def VersionDir.candidate (d : VersionDir) : Option Candidate :=
  if d.version.str.bytes.head? = some 46 then none
  else d.created.map fun created => ⟨d.version, created⟩

/-- The condition under which `find_recipe_path` replaces the best one. -/
def wins (policy : PkgPolicyKind) (a best : Candidate) : Bool :=
  let later := decide (pkgVersionCompare a.version.str best.version.str = .gt)
  if policy = .newest then
    decide (a.created > best.created) || decide (a.created = best.created) && later
  else later

/-- The version that `find_recipe_path` finds in the directory of a package, or
of the recipe that has it as an output; `pinned` is empty without a pin. -/
def findRecipePath (policy : PkgPolicyKind) (pinned version : CStr)
    (dirs : Option (List VersionDir)) : Option CStr :=
  let inDir (version : CStr) : Option CStr :=
    if (dirs.getD []).any fun d => d.version.str = version ∧ d.created.isSome then
      some version
    else none
  if version ≠ CStr.empty then inDir version
  else if policy = .pinned ∧ pinned ≠ CStr.empty then inDir pinned
  else
    match dirs with
    | none => none
    | some dirs => (bestOf (wins policy) (dirs.filterMap VersionDir.candidate)).map
        fun best => best.version.str

def rank (policy : PkgPolicyKind) (a : Candidate) : Int ×ₗ List Token :=
  toLex (if policy = .newest then a.created else 0, tokens a.version.str)

theorem wins_iff (policy : PkgPolicyKind) (a b : Candidate) :
    wins policy a b = true ↔ rank policy b < rank policy a := by
  rw [rank, rank, Prod.Lex.toLex_lt_toLex]
  unfold wins
  by_cases newest : policy = .newest
  · simp only [newest, if_true, Bool.or_eq_true, Bool.and_eq_true, decide_eq_true_eq,
      pkgVersionCompare_gt, gt_iff_lt]
    rw [eq_comm]
  · simp [newest, pkgVersionCompare_gt]

def Top (policy : PkgPolicyKind) (dirs : List VersionDir) (a : Candidate) : Prop :=
  a ∈ dirs.filterMap VersionDir.candidate ∧
    ∀ b ∈ dirs.filterMap VersionDir.candidate, wins policy b a = false

theorem top_iff {policy : PkgPolicyKind} {dirs : List VersionDir} {a : Candidate} :
    Top policy dirs a ↔ a ∈ dirs.filterMap VersionDir.candidate ∧
      ∀ b ∈ dirs.filterMap VersionDir.candidate, rank policy b ≤ rank policy a := by
  unfold Top
  simp only [← Bool.not_eq_true, wins_iff, not_lt]

def Stable (policy : PkgPolicyKind) (pinned : CStr) (dirs : List VersionDir) : Prop :=
  ∀ order : List VersionDir, order.Perm dirs →
    findRecipePath policy pinned CStr.empty (some order) =
      findRecipePath policy pinned CStr.empty (some dirs)

variable {policy : PkgPolicyKind} {pinned : CStr} {dirs : List VersionDir}

theorem stable_of_pinned (isPinned : policy = .pinned ∧ pinned ≠ CStr.empty) :
    Stable policy pinned dirs := by
  intro order perm
  have same : ∀ (p : VersionDir → Bool), order.any p = dirs.any p := fun _ => perm.any_eq
  unfold findRecipePath
  rw [if_neg (not_not.mpr rfl), if_pos isPinned, if_neg (not_not.mpr rfl), if_pos isPinned]
  simp only [getD_some, same]

theorem stable_of_unpinned_iff (unpinned : ¬ (policy = .pinned ∧ pinned ≠ CStr.empty)) :
    Stable policy pinned dirs ↔
      ∀ a b, Top policy dirs a → Top policy dirs b → a.version.str = b.version.str := by
  have found : ∀ order, findRecipePath policy pinned CStr.empty (some order) =
      (bestOf (wins policy) (order.filterMap VersionDir.candidate)).map
        fun best => best.version.str := by
    intro order
    rw [findRecipePath, if_neg (not_not.mpr rfl), if_neg unpinned]
  have isTop : ∀ (order : List VersionDir) (best : Candidate), order.Perm dirs →
      bestOf (wins policy) (order.filterMap VersionDir.candidate) = some best →
      Top policy dirs best := by
    intro order best perm isBest
    have same := perm.filterMap VersionDir.candidate
    have highest := key_le_of_bestOf (wins_iff policy) isBest
    exact top_iff.mpr ⟨same.mem_iff.mp (mem_of_bestOf isBest), fun b mem =>
      highest b (same.mem_iff.mpr mem)⟩
  constructor
  · intro stable a b topA topB
    have first : ∀ a, Top policy dirs a → findRecipePath policy pinned CStr.empty (some dirs) =
        some a.version.str := by
      intro a top
      obtain ⟨mem, highest⟩ := top_iff.mp top
      obtain ⟨list, perm, isBest⟩ := @exists_perm_bestOf _ _ _ _ _ (wins_iff policy) _
        (fun _ => true) _ mem rfl fun b isIn _ => highest b isIn
      obtain ⟨order, isOrder, isList⟩ := exists_perm_filterMap VersionDir.candidate perm
      rw [filter_true] at isBest
      rw [← stable order isOrder, found, isList, isBest]
      rfl
    exact some.inj ((first a topA).symm.trans (first b topB))
  · intro unique order perm
    have same := perm.filterMap VersionDir.candidate
    rw [found, found]
    cases here : bestOf (wins policy) (order.filterMap VersionDir.candidate) with
    | none =>
      rw [bestOf_eq_none] at here
      rw [here] at same
      rw [same.nil_eq.symm]
      rfl
    | some best =>
      cases there : bestOf (wins policy) (dirs.filterMap VersionDir.candidate) with
      | none =>
        rw [bestOf_eq_none] at there
        have mem := same.mem_iff.mp (mem_of_bestOf here)
        rw [there] at mem
        cases mem
      | some other =>
        exact congrArg some (unique best other (isTop order best perm here)
          (isTop dirs other (.refl _) there))

/-- Both comparisons are one order of the tokens; the tokens hold the numbers as
they are written if and only if each fits a `long`; and the version found does
not depend on the directory's order if and only if there is a pin, or no two
versions are preferred alike. -/
theorem version_order_iff (a b c : CStr) : pkgVersionCmp a b = pkgVersionCompare a b ∧
    pkgVersionCompare b a = (pkgVersionCompare a b).swap ∧
    (pkgVersionCompare a b ≠ .gt → pkgVersionCompare b c ≠ .gt → pkgVersionCompare a c ≠ .gt) ∧
    (pkgVersionCompare a b = .lt ↔ tokens a < tokens b) ∧
    (tokens a = exactTokens a ↔ Short (exactTokens a)) ∧
    ∀ policy pinned dirs, Stable policy pinned dirs ↔ policy = .pinned ∧ pinned ≠ CStr.empty ∨
        ∀ a b, Top policy dirs a → Top policy dirs b → a.version.str = b.version.str := by
  refine ⟨(pkgVersionCompare_eq a b).symm, pkgVersionCompare_swap a b, ?_,
    pkgVersionCompare_lt, tokens_exact_iff a, ?_⟩
  · intro first second
    rw [pkgVersionCompare_le] at first second ⊢
    exact first.trans second
  · intro policy pinned dirs
    by_cases isPinned : policy = .pinned ∧ pinned ≠ CStr.empty
    · exact ⟨fun _ => Or.inl isPinned, fun _ => stable_of_pinned isPinned⟩
    · rw [stable_of_unpinned_iff isPinned, or_iff_right isPinned]

/-- `1.1` and `1.01`, both published at the same time. -/
def twoSpellings : List VersionDir :=
  [⟨BoundedStr.store 64 pos_64 "1.1", some 0⟩,
    ⟨BoundedStr.store 64 pos_64 "1.01", some 0⟩]

theorem listing_order_decides : ¬ Stable .highest CStr.empty twoSpellings := by
  intro stable
  have other := stable twoSpellings.reverse (reverse_perm _)
  exact absurd other (by decide)

end Cix.Pkg
