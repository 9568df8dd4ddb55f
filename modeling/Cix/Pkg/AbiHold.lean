import Cix.Pkg.OneJob

/-!
# The ABI hold

A package may declare the ABI it offers, and a build records the ABIs it was
made against.  Before a chain is accepted, `abi_hold_verdict` looks at each
package of its queue, as a provider and as a consumer, beside the packages
that the image is to hold.
-/

namespace Cix.Pkg

open Cix.Lib List

/-- What `entry_abi` answers: no ABI, one, or one of `PKG_ABI_MAX` bytes or
more. -/
inductive Abi
  | undeclared
  | offers (text : BoundedStr 128)
  | tooLong
  deriving DecidableEq

inductive ImagePkgMode
  | pinned
  | rolling
  deriving DecidableEq

structure ImageManifestEntry where
  package : CStr
  mode : ImagePkgMode
  version : CStr
  deriving DecidableEq

/-- What the hold reads: `entry_abi`, `entry_record`, `recipe_latest_version`, and
the manifest, which is empty when it cannot be read. -/
structure AbiStore where
  abi : CStr → CStr → Abi
  record : CStr → CStr → CStr
  latest : CStr → Option CStr
  manifest : Name → List ImageManifestEntry

inductive Hold
  | tooLong
  | consumer (consumer version built : CStr)
  | provider (provider version built offers : CStr)
  deriving DecidableEq

def recordWords (record : CStr) : List (List UInt8) :=
  (record.bytes.splitOnP fun c => c = 32).filter fun word => !word.isEmpty

/-- What a word says of a provider, in `record_abi_of`. -/
def wordAbiOf (provider : CStr) (word : List UInt8) : Option CStr :=
  if word.length > provider.length + 1 ∧ (provider.bytes ++ [61]).isPrefixOf word then
    some (CStr.ofBytes (word.drop (provider.length + 1)))
  else none

/-- `record_abi_of`, before its result is cut to `PKG_ABI_MAX`. -/
def recordAbiOf (record provider : CStr) : Option CStr :=
  (recordWords record).findSome? (wordAbiOf provider)

def installedVersion (t : Table) (image : Name) (name : CStr) :
    Option CStr :=
  match t.find fun e =>
      decide (e.key.name.str = name) && decide (e.key.image = image) with
  | none => none
  | some (_, e) => if e.state = .installed then some e.version.str else none

namespace AbiStore

variable (a : AbiStore) (t : Table) (image : Name)

def imageTargetVersion (package : CStr) : Option CStr :=
  match (a.manifest image).find? fun m => decide (m.package = package) with
  | some m =>
    match m.mode with
    | .pinned => some m.version
    | .rolling => a.latest package
  | none => installedVersion t image package

def judgedRecord (consumer target : CStr) : CStr × CStr :=
  let record := a.record consumer target
  if record.length = 0 then
    match installedVersion t image consumer with
    | some version =>
      if version ≠ target then (version, a.record consumer version)
      else (target, record)
    | none => (target, record)
  else (target, record)

/-- The packages that the loop of the provider's side goes through: those
that are installed in the image, and those of its manifest. -/
def imagePackages : List CStr :=
  ((t.entries.filter fun e => decide (e.state = .installed) &&
    decide (e.key.image = image)).map fun e => e.key.name.str) ++
      (a.manifest image).map ImageManifestEntry.package

def heldBy (name offers consumer : CStr) : Option Hold :=
  if consumer = name then none
  else
    match a.imageTargetVersion t image consumer with
    | none => none
    | some target =>
      let judged := a.judgedRecord t image consumer target
      match recordAbiOf judged.2 name with
      | none => none
      | some built =>
        if built.truncate 128 ≠ offers then
          some (.consumer consumer judged.1 (built.truncate 128))
        else none

def heldFor (name : CStr) (word : List UInt8) : Option Hold :=
  let provider := CStr.ofBytes (word.takeWhile fun c => c ≠ 61)
  let built := CStr.ofBytes (word.dropWhile fun c => c ≠ 61).tail
  if 61 ∉ word ∨ provider.length ≥ 64 ∨ built.length ≥ 128 then none
  else if provider = name then none
  else
    match a.imageTargetVersion t image provider with
    | none => none
    | some target =>
      match a.abi provider target with
      | .offers text =>
        if text.str ≠ built then
          some (.provider provider target built text.str)
        else none
      | _ => none

def abiHoldVerdict (name version : CStr) : Option Hold :=
  match a.abi name version with
  | .tooLong => some .tooLong
  | .undeclared =>
    (recordWords (a.record name version)).findSome? (a.heldFor t image name)
  | .offers text =>
    ((a.imagePackages t image).findSome? (a.heldBy t image name text.str)).or
        ((recordWords (a.record name version)).findSome? (a.heldFor t image name))

end AbiStore

/-- The version that `pkg_install_start` asks the hold about. -/
def askedVersion (w : World) (r : InstallRequest) (key : Key) (name : Name) :
    Option CStr :=
  if name = key.name then
    (w.recipe key.name r.version).map fun recipe => recipe.version.str
  else none

def chainVersion (w : World) (r : InstallRequest) (key : Key) (name : Name) :
    Option CStr :=
  (w.recipe name (askedVersion w r key name)).map fun recipe =>
    recipe.version.str

namespace AbiStore

/-- `abi_hold_check` of a package of the queue. -/
def abiHoldCheck (a : AbiStore) (w : World) (r : InstallRequest) (key : Key)
    (t : Table) (name : Name) : Bool :=
  match chainVersion w r key name with
  | none => false
  | some version => (a.abiHoldVerdict t key.image name.str version).isSome

def judging (a : AbiStore) (w : World) (r : InstallRequest) (s : State) :
    World :=
  { w with
    abiHold :=
      match State.requestKey r.name r.image with
      | none => fun _ => false
      | some key => a.abiHoldCheck w r key (s.installAdmit w r).1.table }

/-- `pkg_install_start` with the hold of the store. -/
def pkgInstallStart (a : AbiStore) (w : World) (r : InstallRequest)
    (s : State) : State × PkgError :=
  s.pkgInstallStart (a.judging w r s) r

end AbiStore

/-- The package at the version agrees with every other package at the version the
image is to hold it. -/
structure AbiStore.Fits (a : AbiStore) (t : Table) (image name : Name)
    (version : CStr) : Prop where
  provides : ∀ text, a.abi name.str version = .offers text →
    ∀ (consumer : Name) target, consumer ≠ name →
      a.imageTargetVersion t image consumer.str = some target →
        ∀ built, recordAbiOf (a.judgedRecord t image consumer.str target).2
            name.str = some built → built.truncate 128 = text.str
  consumes : ∀ (provider : Name) target text, provider ≠ name →
    a.imageTargetVersion t image provider.str = some target →
      a.abi provider.str target = .offers text →
        ∀ built, recordAbiOf (a.record name.str version) provider.str =
          some built → built.length < 128 → built = text.str

section Verdict

variable {a : AbiStore} {t : Table} {image name : Name} {version : CStr}

theorem word_of_recordAbiOf {record provider built : CStr}
    (named : recordAbiOf record provider = some built) :
    ∃ rest, provider.bytes ++ 61 :: rest ∈ recordWords record ∧ built = CStr.ofBytes rest := by
  obtain ⟨word, mem, isNamed⟩ := exists_of_findSome?_eq_some named
  rw [wordAbiOf] at isNamed
  split_ifs at isNamed with starts
  obtain ⟨_, isPrefix⟩ := starts
  obtain ⟨rest, rfl⟩ := isPrefixOf_iff_prefix.mp isPrefix
  refine ⟨rest, by simpa using mem, ?_⟩
  rw [← Option.some.inj isNamed, drop_left']
  rw [length_append]
  rfl

theorem mem_imagePackages {package target : CStr}
    (isTarget : a.imageTargetVersion t image package = some target) :
    package ∈ a.imagePackages t image := by
  rw [AbiStore.imageTargetVersion] at isTarget
  rw [AbiStore.imagePackages, mem_append]
  split at isTarget
  · rename_i m found
    right
    have test := find?_some found
    have same : m.package = package := of_decide_eq_true test
    exact mem_map.mpr ⟨m, mem_of_find?_eq_some found, same⟩
  · left
    rw [installedVersion] at isTarget
    split at isTarget
    · cases isTarget
    · rename_i index e found
      split_ifs at isTarget with installed
      obtain ⟨held, test⟩ := Slots.get_of_find found
      rw [Bool.and_eq_true, decide_eq_true_eq, decide_eq_true_eq] at test
      refine mem_map.mpr ⟨e, mem_filter.mpr ⟨?_, ?_⟩, test.1⟩
      · exact Slots.mem_entries_iff_get.mpr ⟨index, held⟩
      · simp [installed, test.2]

theorem heldFor_word {provider : Name} {rest : List UInt8} {target : CStr}
    {text : BoundedStr 128} (other : provider ≠ name)
    (fits : (CStr.ofBytes rest).length < 128)
    (isTarget : a.imageTargetVersion t image provider.str = some target)
    (offers : a.abi provider.str target = .offers text)
    (free : a.heldFor t image name.str (provider.str.bytes ++ 61 :: rest) =
      none) : CStr.ofBytes rest = text.str := by
  have outside : ∀ c ∈ provider.str.bytes,
      decide (c ≠ (61 : UInt8)) = true := by
    intro c mem
    simp only [ne_eq, decide_eq_true_eq]
    rintro rfl
    exact provider.not_mem (by decide) mem
  have before : (provider.str.bytes ++ 61 :: rest).takeWhile
      (fun c => decide (c ≠ 61)) = provider.str.bytes := by
    rw [takeWhile_append_of_pos outside]
    simp
  have after : ((provider.str.bytes ++ 61 :: rest).dropWhile
      (fun c => decide (c ≠ 61))).tail = rest := by
    rw [dropWhile_append_of_pos outside]
    simp
  have short := provider.length_lt
  have different : provider.str ≠ name.str := fun same => other (Name.ext same)
  have whole : ¬ (61 ∉ provider.str.bytes ++ 61 :: rest ∨
      provider.str.length ≥ 64 ∨ (CStr.ofBytes rest).length ≥ 128) := by
    rintro (missing | long | long)
    · exact missing (by simp)
    · omega
    · omega
  rw [AbiStore.heldFor] at free
  simp only [before, after, CStr.ofBytes_bytes, if_neg whole,
    if_neg different, isTarget, offers] at free
  split_ifs at free with same
  exact (not_not.mp same).symm

theorem fits_of_verdict (free : a.abiHoldVerdict t image name.str version = none) :
    a.Fits t image name version where
  provides := by
    intro text offers consumer target other isTarget built isBuilt
    rw [AbiStore.abiHoldVerdict, offers] at free
    obtain ⟨noConsumer, _⟩ := Option.or_eq_none_iff.mp free
    have spared := findSome?_eq_none_iff.mp noConsumer consumer.str (mem_imagePackages isTarget)
    have different : consumer.str ≠ name.str := fun same => other (Name.ext same)
    rw [AbiStore.heldBy, if_neg different, isTarget] at spared
    simp only [isBuilt] at spared
    split_ifs at spared with same
    exact not_not.mp same
  consumes := by
    intro provider target text other isTarget offers built isBuilt fits
    obtain ⟨rest, mem, rfl⟩ := word_of_recordAbiOf isBuilt
    have noProvider : (recordWords (a.record name.str version)).findSome?
        (a.heldFor t image name.str) = none := by
      rw [AbiStore.abiHoldVerdict] at free
      split at free
      · cases free
      · exact free
      · exact (Option.or_eq_none_iff.mp free).2
    exact heldFor_word other fits isTarget offers (findSome?_eq_none_iff.mp noProvider _ mem)

end Verdict

section Accepted

variable {w : World} {r : InstallRequest} {key : Key} {i : ChainIdx}
  {s s' : State}

theorem queue_of_installPlan {t : Table} {c : Chain}
    (planned : (State.installPlan w r key t c).2 = .ok) :
    (State.installPlan w r key t c).1.image = key.image ∧
      ∀ name ∈ (State.installPlan w r key t c).1.depQueue, w.abiHold name = false := by
  rw [State.installPlan] at planned ⊢
  split at planned
  · cases planned
  · rename_i recipe isRecipe
    simp only at planned ⊢
    split_ifs at planned ⊢ with same
    split at planned
    · cases planned
    · rename_i queue isQueue
      split_ifs at planned ⊢ with held
      constructor
      · rfl
      · intro name mem
        rw [Bool.not_eq_true, any_eq_false] at held
        exact Bool.eq_false_of_not_eq_true (held name mem)

theorem startFetchFor_queue {name : Name} (started : (s.startFetchFor w name i).2 = .ok) :
    ((s.startFetchFor w name i).1.chains i).depQueue = (s.chains i).depQueue ∧
      ((s.startFetchFor w name i).1.chains i).image = (s.chains i).image := by
  rw [State.startFetchFor] at started ⊢
  cases recipe : w.recipe name (s.chains i).effectiveVersion with
  | none => simp [recipe] at started
  | some found =>
    simp only [recipe] at started ⊢
    cases place : State.fetchEntry ⟨name, (s.chains i).image⟩ s.table with
    | none => simp [place] at started
    | some slot =>
      simp only [place] at started ⊢
      split_ifs at started ⊢
      rw [State.spawn_chains, State.setChain_self]
      exact ⟨rfl, rfl⟩

theorem queue_of_installInto (started : (s.installInto w r key i).2 = .ok) :
    (((s.installInto w r key i).1).chains i).image = key.image ∧
      ∀ name ∈ (((s.installInto w r key i).1).chains i).depQueue, w.abiHold name = false := by
  rw [State.installInto] at started ⊢
  simp only at started ⊢
  split at started
  · rename_i first rest planned isQueue
    obtain ⟨image, free⟩ := queue_of_installPlan planned
    split at started
    · rename_i s₁ fetched
      have isFetched : ((s.setChain i (State.installPlan w r key s.table
          (s.chains i)).1).startFetchFor w first i).2 = .ok := by
        rw [fetched]
      obtain ⟨queue, sameImage⟩ := startFetchFor_queue isFetched
      rw [fetched, State.setChain_self] at queue sameImage
      simp only
      rw [queue, sameImage]
      exact ⟨image, free⟩
    · rename_i s₁ err refused fetched
      exact absurd started refused
  · cases started
  · rename_i filled emptied
    cases isQueue : (State.installPlan w r key s.table (s.chains i)).1.depQueue
    with
    | nil => exact absurd isQueue (emptied started)
    | cons first rest => exact absurd isQueue (filled first rest started)

theorem installAdmit_ne_ok (s : State) : (s.installAdmit w r).2 ≠ .error .ok := by
  rw [State.installAdmit]
  split
  · simp
  · split
    · simp
    · split
      · simp
      · split <;> simp

theorem requestKey_installAdmit (admitted : s.installAdmit w r = (s', .ok (key, i))) :
    State.requestKey r.name r.image = some key := by
  rw [State.installAdmit] at admitted
  split at admitted
  · cases admitted
  · rename_i found isKey
    split at admitted
    · cases admitted
    · split at admitted
      · cases admitted
      · split at admitted
        · cases admitted
        · simp only [Prod.mk.injEq, Except.ok.injEq] at admitted
          obtain ⟨_, rfl, _⟩ := admitted
          exact isKey

/-- An install that is accepted puts only packages into its image that fit
the packages that the image is to hold. -/
theorem abi_hold_sound (a : AbiStore) (accepted : (a.pkgInstallStart w r s).2 = .ok) :
    ∃ key i, (s.installAdmit w r).2 = .ok (key, i) ∧
      ((a.pkgInstallStart w r s).1.chains i).image = key.image ∧
      ∀ name ∈ ((a.pkgInstallStart w r s).1.chains i).depQueue,
        ∀ version, chainVersion w r key name = some version →
          a.Fits (s.installAdmit w r).1.table key.image name version := by
  have same : s.installAdmit (a.judging w r s) r = s.installAdmit w r := rfl
  rw [AbiStore.pkgInstallStart, State.pkgInstallStart, same] at accepted ⊢
  split at accepted
  · rename_i s₁ err admitted
    have refused : (s.installAdmit w r).2 = .error .ok := by
      rw [admitted]
      exact congrArg Except.error accepted
    exact absurd refused (installAdmit_ne_ok s)
  · rename_i s₁ key i admitted
    obtain ⟨image, free⟩ := queue_of_installInto accepted
    refine ⟨key, i, by rw [admitted], image, ?_⟩
    intro name mem version isVersion
    have passed := free name mem
    have isKey := requestKey_installAdmit admitted
    simp only [AbiStore.judging, isKey] at passed
    rw [AbiStore.abiHoldCheck, isVersion] at passed
    exact fits_of_verdict (Option.not_isSome_iff_eq_none.mp (Bool.not_eq_true _ ▸ passed))

end Accepted

/-- A store in which `p` offers the ABI of its first component, and `c` was
built against it.  The image rolls `c`. -/
def rollingConsumer : AbiStore where
  abi := fun name version =>
    if name = "p" then
      if version = "2-1" then
        .offers ⟨"2", by decide⟩
      else .offers ⟨"1", by decide⟩
    else .undeclared
  record := fun name version =>
    if name = "c" then
      if version = "2-1" then "p=2"
      else "p=1"
    else CStr.empty
  latest := fun _ => some "2-1"
  manifest := fun _ => [⟨"c", .rolling, CStr.empty⟩]

def bothInstalled : State :=
  run State.step State.initial (installEvents (World.flat "1-1" named_1_1) 0 "p" "lib/p" false ++
      installEvents (World.flat "1-1" named_1_1) 0 "c" "bin/c" false)

/-- The upgrade of `p` fits the version that `c` rolls to. -/
theorem abi_hold_sound_upgrade : ∃ i, (bothInstalled.installAdmit (World.flat "2-1" (by decide))
        (.latest "p" true)).2 = .ok (⟨Name.ofLiteral "p" (by decide), defaultImage⟩, i) ∧
      rollingConsumer.Fits (bothInstalled.installAdmit
        (World.flat "2-1" (by decide)) (.latest "p" true)).1.table
        defaultImage (Name.ofLiteral "p" (by decide)) "2-1" := by
  obtain ⟨key, i, admitted, _, fits⟩ := abi_hold_sound
    (w := World.flat "2-1" (by decide)) (r := .latest "p" true)
    (s := bothInstalled) rollingConsumer (by decide +kernel)
  have first : (bothInstalled.installAdmit (World.flat "2-1" (by decide)) (.latest "p" true)).2 =
        .ok (⟨Name.ofLiteral "p" (by decide), defaultImage⟩, ⟨0, by decide⟩) := by
    decide +kernel
  have same := admitted.symm.trans first
  simp only [Except.ok.injEq, Prod.mk.injEq] at same
  obtain ⟨rfl, rfl⟩ := same
  refine ⟨_, admitted, ?_⟩
  exact fits _ (by decide +kernel) _ (by decide +kernel)

def versionAfter (w : World) (r : InstallRequest) (key : Key)
    (queue : List Name) (t : Table) (name : Name) : Option CStr :=
  if name ∈ queue then chainVersion w r key name
  else installedVersion t key.image name.str

/-- The upgrade of `p` is accepted although the `c` that is installed was
built against the ABI that `p` then no longer offers: the hold judges the
version of `c` that the image rolls to. -/
theorem upgrade_beside_old_consumer : ¬ ∀ (a : AbiStore) (w : World) (r : InstallRequest)
        (events : List Event) (s : State),
      s = run State.step State.initial events →
      (a.pkgInstallStart w r s).2 = .ok →
      ∀ key i, (s.installAdmit w r).2 = .ok (key, i) →
        ∀ (consumer provider : Name) (builtAt offeredAt built : CStr) (text : BoundedStr 128),
          versionAfter w r key ((a.pkgInstallStart w r s).1.chains i).depQueue s.table consumer =
              some builtAt →
          versionAfter w r key ((a.pkgInstallStart w r s).1.chains i).depQueue s.table provider =
              some offeredAt →
          recordAbiOf (a.record consumer.str builtAt) provider.str = some built →
          a.abi provider.str offeredAt = .offers text → built.truncate 128 = text.str := by
  intro claim
  have clash := claim rollingConsumer (World.flat "2-1" (by decide))
    (.latest "p" true) _ bothInstalled rfl (by decide +kernel)
    ⟨Name.ofLiteral "p" (by decide), defaultImage⟩ ⟨0, by decide⟩ (by decide +kernel)
    (Name.ofLiteral "c" (by decide)) (Name.ofLiteral "p" (by decide))
    "1-1" "2-1" "1"
    ⟨"2", by decide⟩ (by decide +kernel) (by decide +kernel)
    (by decide +kernel) (by decide +kernel)
  revert clash
  decide +kernel

end Cix.Pkg
