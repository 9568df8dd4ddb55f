import Cix.Kmod.Scan

/-!
# What is loaded past the blacklist

The verdict looks at the name and at the first dependencies that modules.dep
lists for it.  What `modprobe` inserts beyond these is not looked at: the
dependencies behind the 64th, those of a dependency, and, behind a name that
`modprobe` takes for an option, the module that the first option word names.
-/

namespace Cix.Kmod

open Cix.Lib List Option

/-- The load comes as far as `modprobe`. -/
structure Admitted (host : Host) (ran : List (List CStr)) (name : CStr)
    (origin : Origin) (options : Option CStr) : Prop where
  allowed : verdictOf host name origin = .allow
  modular : host.builtin name = false
  absent : host.loaded ran name = false
  valid : kmodNameIsValid name = true
  fits : ∀ text, effectiveOptions host name options = some text → text.length < optionsMax

def withDependencies (file : Option (List UInt8)) (mod : CStr) : List CStr :=
  dependencies file mod ++ (dependencies file mod).flatMap (dependencies file)

def unexamined (host : Host) (name : CStr) (options : Option CStr) :
    List CStr :=
  if isOption name then
    match (optionWords (effectiveOptions host name options)).dropWhile
      isOption with
    | [] => []
    | mod :: _ => mod :: withDependencies host.modulesDep mod
  else
    ((dependencies host.modulesDep name).filter (·.length < nameMax)).drop depsMax ++
        (dependencies host.modulesDep name).flatMap (dependencies host.modulesDep)

theorem length_of_namesEqual {a b : CStr} (equal : namesEqual a b = true) :
    a.length = b.length := by
  have folded := congrArg List.length (of_decide_eq_true equal)
  simpa [CStr.length] using folded

theorem short_of_blacklists {p : Policy} {name : CStr}
    (listed : p.blacklists name = true) : name.length < nameMax := by
  obtain ⟨entry, _, equal⟩ := any_eq_true.mp listed
  rw [← length_of_namesEqual equal]
  exact entry.fits

theorem dependencyPaths_limit {name : CStr} (short : name.length < nameMax) (text : List UInt8) :
    dependencyPaths moduleNameOfPath text name =
      dependencyPaths moduleName text name := by
  have sameLine : ∀ path : List UInt8, ∀ paths : List (List UInt8),
      ((moduleNameOfPath path).bind fun mod =>
        if namesEqual mod name then some paths else none) =
      ((moduleName path).bind fun mod =>
        if namesEqual mod name then some paths else none) := by
    intro path paths
    unfold moduleNameOfPath
    cases moduleName path with
    | none => rfl
    | some mod =>
      by_cases fits : mod.length < nameMax
      · simp [Option.filter, fits]
      · have different : namesEqual mod name = false := by
          by_contra equal
          rw [length_of_namesEqual (by simpa using equal)] at fits
          exact fits short
        simp [Option.filter, fits, different]
  unfold dependencyPaths
  simp only [sameLine]

theorem kmodDependencies_eq {file : Option (List UInt8)} {name : CStr}
    (valid : kmodNameIsValid name = true) :
    (kmodDependencies file name).getD [] =
      ((dependencies file name).filter (·.length < nameMax)).take depsMax := by
  have short : name.length < nameMax := by
    simp only [kmodNameIsValid, Bool.and_eq_true, decide_eq_true_eq] at valid
    exact valid.1.2
  unfold kmodDependencies dependencies
  rw [if_pos valid]
  cases file with
  | none => rfl
  | some text =>
    simp only [map_some, getD_some, dependencyPaths_limit short]
    congr 1
    rw [filter_filterMap]
    rfl

theorem allow_iff {p : Policy} {name : CStr} {deps : List CStr}
    {origin : Origin} (allowed : p.verdict name deps origin = .allow) :
    p.blacklists name = false ∧ ∀ dep ∈ deps, p.blacklists dep = false := by
  unfold Policy.verdict at allowed
  cases named : p.blacklists name with
  | true => simp [named] at allowed
  | false =>
    refine ⟨rfl, ?_⟩
    cases listed : deps.any p.blacklists with
    | true => simp [named, listed] at allowed
    | false =>
      intro dep mem
      exact Bool.eq_false_iff.mpr (any_eq_false.mp listed dep mem)

theorem Admitted.examined {host : Host} {ran : List (List CStr)}
    {name : CStr} {origin : Origin} {options : Option CStr}
    (admitted : Admitted host ran name origin options) :
    host.policy.blacklists name = false ∧ ∀ dep ∈ ((dependencies host.modulesDep name).filter
        (·.length < nameMax)).take depsMax, host.policy.blacklists dep = false := by
  have allowed := admitted.allowed
  unfold verdictOf at allowed
  rw [kmodDependencies_eq admitted.valid] at allowed
  exact allow_iff allowed

theorem kmodscanLoad_command (host : Host) (ran : List (List CStr))
    (name : CStr) (origin : Origin) (options : Option CStr)
    (command : List CStr) :
    (kmodscanLoad host ran name origin options).2 = some command ↔
      Admitted host ran name origin options ∧
        command = commandLine name (effectiveOptions host name options) := by
  constructor
  · intro runs
    unfold kmodscanLoad at runs
    split at runs
    · cases runs
    next allowed =>
    split at runs
    · cases runs
    next modular =>
    split at runs
    · cases runs
    next absent =>
    cases loads : kmodLoad name (effectiveOptions host name options) with
    | none =>
      rw [loads] at runs
      cases runs
    | some line =>
      rw [loads] at runs
      cases runs
      unfold kmodLoad at loads
      split at loads
      · cases loads
      next valid =>
      split at loads
      · cases loads
      next fits =>
      cases loads
      refine ⟨⟨?_, ?_, ?_, ?_, ?_⟩, rfl⟩
      · simpa [refused] using allowed
      · simpa using modular
      · simpa using absent
      · simpa using valid
      · intro text given
        rw [given] at fits
        simpa using fits
  · rintro ⟨admitted, rfl⟩
    have fits : (effectiveOptions host name options).any
        (fun text => decide (optionsMax ≤ text.length)) = false := by
      cases given : effectiveOptions host name options with
      | none => rfl
      | some text => simpa using admitted.fits text given
    simp [kmodscanLoad, refused, kmodLoad, admitted.allowed, admitted.modular,
      admitted.absent, admitted.valid, fits]

theorem safe_iff {p : Policy} {file : Option (List UInt8)}
    {command : List CStr} : Safe p file command ↔
      match operands command with
      | [] => True
      | mod :: _ => p.blacklists mod = false ∧
          ∀ x ∈ withDependencies file mod, p.blacklists x = false := by
  unfold Safe inserted withDependencies
  cases operands command with
  | nil => simp
  | cons mod rest =>
    simp only [mem_cons, forall_eq_or_imp, mem_append, mem_flatMap]
    constructor
    · rintro ⟨⟨first, below⟩, deeper⟩
      refine ⟨first, ?_⟩
      rintro x (direct | ⟨dep, mem, second⟩)
      · exact below x direct
      · exact (deeper dep mem).2 x second
    · rintro ⟨first, all⟩
      refine ⟨⟨first, fun dep mem => all dep (Or.inl mem)⟩, ?_⟩
      intro dep mem
      exact ⟨all dep (Or.inl mem), fun x second => all x (Or.inr ⟨dep, mem, second⟩)⟩

theorem safe_commandLine_iff {host : Host} {ran : List (List CStr)}
    {name : CStr} {origin : Origin} {options : Option CStr}
    (admitted : Admitted host ran name origin options) :
    Safe host.policy host.modulesDep (commandLine name (effectiveOptions host name options)) ↔
      ∀ x ∈ unexamined host name options, host.policy.blacklists x = false := by
  obtain ⟨named, first⟩ := admitted.examined
  rw [safe_iff]
  unfold unexamined operands commandLine
  cases dash : isOption name with
  | true =>
    simp only [tail_cons, dropWhile_cons, dash, if_true]
    cases List.dropWhile isOption (optionWords (effectiveOptions host name options)) with
    | nil => simp
    | cons mod rest => simp only [mem_cons, forall_eq_or_imp]
  | false =>
    simp only [tail_cons, dropWhile_cons, dash, if_false, Bool.false_eq_true, named, true_and]
    constructor
    · intro all x mem
      apply all x
      rcases mem_append.mp mem with behind | second
      · exact mem_append_left _ (mem_of_mem_filter (mem_of_mem_drop behind))
      · exact mem_append_right _ second
    · intro all x mem
      rcases mem_append.mp mem with direct | second
      · by_cases short : x.length < nameMax
        · have fits : x ∈ (dependencies host.modulesDep name).filter (·.length < nameMax) :=
            mem_filter.mpr ⟨direct, decide_eq_true short⟩
          rw [← take_append_drop depsMax ((dependencies host.modulesDep name).filter
              (·.length < nameMax))] at fits
          rcases mem_append.mp fits with early | behind
          · exact first x early
          · exact all x (mem_append_left _ behind)
        · exact Bool.eq_false_iff.mpr fun listed =>
            short (short_of_blacklists listed)
      · exact all x (mem_append_right _ second)

def Loads (host : Host) (command : List CStr) : Prop :=
  ∃ ran name origin options, (kmodscanLoad host ran name origin options).2 = some command

def OnlyLoads (host : Host) (r : Scan) : Prop :=
  ∀ command ∈ r.commands, Loads host command

theorem onlyLoads_empty (host : Host) : OnlyLoads host Scan.empty := by
  intro command mem
  cases mem

variable {r : Scan}

theorem OnlyLoads.load {host : Host} (only : OnlyLoads host r)
    (idx : Nat) (device : CStr) (origin : Origin) (options : Option CStr)
    (name : CStr) :
    OnlyLoads host (r.load host idx device origin options name) := by
  intro command mem
  rcases mem_append.mp mem with before | new
  · exact only command before
  · exact ⟨r.commands, name, origin, options, mem_toList.mp new⟩

theorem OnlyLoads.loads {host : Host} (only : OnlyLoads host r)
    (idx : Nat) (device : CStr) (origin : Origin) (options : Option CStr)
    (names : List CStr) :
    OnlyLoads host (names.foldl (Scan.load host idx device origin options) r) := by
  induction names generalizing r with
  | nil => exact only
  | cons name rest ih => exact ih (only.load idx device origin options name)

theorem OnlyLoads.aliasAdd {host : Host} {next : Scan} {idx : Option Nat}
    {modalias : CStr} (only : OnlyLoads host r)
    (added : r.aliasAdd modalias = (idx, next)) : OnlyLoads host next := by
  unfold Scan.aliasAdd at added
  split at added
  · cases added
    exact only
  · cases added
    exact only

theorem OnlyLoads.resolveAlias {host : Host}
    (only : OnlyLoads host r) (origin : Origin) (modalias device : CStr) :
    OnlyLoads host (resolveAlias host origin modalias device r) := by
  unfold Kmod.resolveAlias
  split
  · exact only
  split
  next full added => exact only.aliasAdd added
  next idx next added =>
  have after := only.aliasAdd added
  split
  · exact after
  · exact after
  next mods more _ _ =>
    have marked : OnlyLoads host (next.setMore idx more) := after
    exact marked.loads idx device origin none mods

theorem OnlyLoads.runSweep {host : Host} (only : OnlyLoads host r)
    (trigger : Trigger) (devices : List (CStr × CStr)) :
    OnlyLoads host (runSweep host trigger devices r) := by
  unfold Kmod.runSweep
  split
  · induction devices generalizing r with
    | nil => exact only
    | cons device rest ih =>
      rw [foldl_cons]
      apply ih
      split
      · exact only
      · exact only.resolveAlias trigger.origin device.1 device.2
  · exact only

theorem OnlyLoads.runLoad {host : Host} (only : OnlyLoads host r)
    (name : CStr) (options : Option CStr) :
    OnlyLoads host (runLoad host name options r) := by
  unfold Kmod.runLoad
  split
  next full added => exact only.aliasAdd added
  next idx next added =>
  have after := only.aliasAdd added
  split
  · exact after
  dsimp only
  have marked : OnlyLoads host (next.setMore idx (loadCandidates host name).2) := after
  split
  · exact marked
  · exact marked.loads idx CStr.empty .request options _

theorem onlyLoads_run (host : Host) (job : Job) : OnlyLoads host (kmodscanRun host job) := by
  have start := onlyLoads_empty host
  cases job with
  | sweep trigger devices => exact start.runSweep trigger devices
  | bootSweep devices =>
    rw [kmodscanRun]
    split
    · exact start.runSweep .start devices
    · exact start
  | «modalias» modalias device =>
    rw [kmodscanRun]
    split
    · exact start.resolveAlias .hotplug modalias device
    · exact start
  | load name options => exact start.runLoad name options
  | unload name succeeds =>
    rw [kmodscanRun, runUnload]
    split
    next full added => exact start.aliasAdd added
    next idx next added =>
      have after := start.aliasAdd added
      exact after
  | start origin names => exact start.loads 0 CStr.empty origin none names

/-- A load runs no command line past the blacklist exactly if it is not
admitted or nothing that its verdict has not looked at is blacklisted; and
the jobs run no command lines but those of loads. -/
theorem loads_respect_blacklist (host : Host) : (∀ ran name origin options, (∀ command,
        (kmodscanLoad host ran name origin options).2 = some command →
          Safe host.policy host.modulesDep command) ↔
      (Admitted host ran name origin options → ∀ x ∈ unexamined host name options,
          host.policy.blacklists x = false)) ∧
    ∀ job, ∀ command ∈ (kmodscanRun host job).commands,
      Loads host command := by
  refine ⟨?_, onlyLoads_run host⟩
  intro ran name origin options
  constructor
  · intro safe admitted
    apply (safe_commandLine_iff admitted).mp
    apply safe
    exact (kmodscanLoad_command ..).mpr ⟨admitted, rfl⟩
  · intro nothing command runs
    obtain ⟨admitted, rfl⟩ := (kmodscanLoad_command ..).mp runs
    exact (safe_commandLine_iff admitted).mpr (nothing admitted)

def blacklistedHost : Host where
  policy :=
    { autoload := .both
      blacklist := [BoundedStr.store 64 pos_64 "usbnet"]
      allowlist := [] }
  modulesDep := some (CStr.ofString "kernel/usbnet.ko:\n").bytes
  builtin _ := false
  configOptions _ := none
  loaded _ _ := false
  succeeds _ _ := true
  present := true
  claims _ := []

/-- A request for `-q` with the options `usbnet x=`, which a member with the
key `usbnet x` and an empty value makes, inserts `usbnet`. -/
theorem option_names_blacklisted :
    let job := Job.load "-q"
      (some "usbnet x=")
    ∃ command ∈ (kmodscanRun blacklistedHost job).commands,
      CStr.ofString "usbnet" ∈ inserted blacklistedHost.modulesDep command ∧
        ¬ Safe blacklistedHost.policy blacklistedHost.modulesDep command := by
  decide +kernel

end Cix.Kmod
