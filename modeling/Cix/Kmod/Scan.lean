import Cix.Kmod.Modules

/-!
# Loads and sweeps

`daemon/src/kmodscan.c`: one load with its verdict, the modules that claim an
alias, and the jobs that ask for loads.  The command lines that `kmod_load`
runs are recorded next to the report.
-/

namespace Cix.Kmod

open Cix.Lib

/-- The machine that the daemon asks; its answers may depend on the commands that
were run before. -/
structure Host where
  policy : Policy
  modulesDep : Option (List UInt8)
  /-- `kmod_is_builtin`. -/
  builtin : CStr → Bool
  /-- `kmodconfig_get_options`. -/
  configOptions : CStr → Option CStr
  /-- `kmod_is_loaded`. -/
  loaded : List (List CStr) → CStr → Bool
  /-- Whether the command exits with zero. -/
  succeeds : List (List CStr) → List CStr → Bool
  /-- Whether `modprobe` is there at all. -/
  present : Bool
  /-- What `modprobe -R` prints for an alias. -/
  claims : CStr → List UInt8

inductive Outcome where
  | loaded
  | alreadyLoaded
  | builtin
  | unclaimed
  | refused
  | failed
  | unloaded
  deriving DecidableEq, Repr

/-- The verdict of `refused`: without a readable file it is about the name
alone. -/
def verdictOf (host : Host) (name : CStr) (origin : Origin) : Verdict :=
  host.policy.verdict name ((kmodDependencies host.modulesDep name).getD []) origin

def refused (host : Host) (name : CStr) (origin : Origin) : Bool :=
  verdictOf host name origin ≠ .allow

def effectiveOptions (host : Host) (name : CStr) (options : Option CStr) :
    Option CStr :=
  match options with
  | some text => some text
  | none => host.configOptions name

/-- `kmodscan_load`, after the command lines of `ran`: the outcome, and the
command line that it runs. -/
def kmodscanLoad (host : Host) (ran : List (List CStr)) (name : CStr)
    (origin : Origin) (options : Option CStr) :
    Outcome × Option (List CStr) :=
  if refused host name origin then (.refused, none)
  else if host.builtin name then (.builtin, none)
  else if host.loaded ran name then (.alreadyLoaded, none)
  else
    match kmodLoad name (effectiveOptions host name options) with
    | none => (.failed, none)
    | some command =>
      (if host.succeeds ran command then .loaded else .failed, some command)

def aliasesMax : Nat := 4096

def modulesPerAlias : Nat := 64

structure Entry where
  modalias : Nat
  (device name : CStr)
  outcome : Outcome
  deriving DecidableEq

/-- `struct kmodscan_report` and the command lines that were run for it. -/
structure Scan where
  /-- An alias, and whether more modules claim it than were decided. -/
  aliases : List (CStr × Bool)
  truncated : Bool
  entries : List Entry
  commands : List (List CStr)

def Scan.empty : Scan := ⟨[], false, [], []⟩

def Scan.aliasAdd (r : Scan) (modalias : CStr) : Option Nat × Scan :=
  if r.aliases.length = aliasesMax then (none, { r with truncated := true })
  else (some r.aliases.length,
    { r with aliases := r.aliases ++ [(modalias, false)] })

def Scan.aliasSeen (r : Scan) (modalias : CStr) : Bool :=
  r.aliases.any fun entry => entry.1 = modalias

/-- `r->alias_more[idx] = more`. -/
def Scan.setMore (r : Scan) (idx : Nat) (more : Bool) : Scan :=
  { r with aliases := r.aliases.modify idx fun entry => (entry.1, more) }

/-- `entry_add` with its outcome. -/
def Scan.entryAdd (r : Scan) (idx : Nat) (device name : CStr) (outcome : Outcome) : Scan :=
  { r with entries := r.entries ++ [⟨idx, device, name, outcome⟩] }

def Scan.load (host : Host) (idx : Nat) (device : CStr) (origin : Origin)
    (options : Option CStr) (r : Scan) (name : CStr) : Scan :=
  let result := kmodscanLoad host r.commands name origin options
  let entered := r.entryAdd idx device name result.1
  { entered with commands := entered.commands ++ result.2.toList }

/-- The loop of `kmod_resolve_alias`: valid names, each once, until one more
than fits is found. -/
def collectClaims : List (List UInt8) → List CStr → List CStr × Bool
  | [], found => (found, false)
  | piece :: rest, found =>
    let name := CStr.ofBytes piece
    if !kmodNameIsValid name then collectClaims rest found
    else if found.any fun other => namesEqual other name then
      collectClaims rest found
    else if found.length = modulesPerAlias then (found, true)
    else collectClaims rest (found ++ [name])

/-- `kmod_resolve_alias`; `none` without an alias or without modprobe. -/
def kmodResolveAlias (host : Host) (modalias : CStr) : Option (List CStr × Bool) :=
  if modalias.length = 0 ∨ ¬ host.present then none
  else some (collectClaims (pieces (· == 10) (cstrAt ((host.claims modalias).take 8191))) [])

def resolveAlias (host : Host) (origin : Origin) (modalias device : CStr) (r : Scan) : Scan :=
  if r.aliasSeen modalias then r
  else
    match r.aliasAdd modalias with
    | (none, full) => full
    | (some idx, added) =>
      match kmodResolveAlias host modalias with
      | none => added.entryAdd idx device CStr.empty .unclaimed
      | some ([], _) => added.entryAdd idx device CStr.empty .unclaimed
      | some (mods, more) =>
        mods.foldl (Scan.load host idx device origin none) (added.setMore idx more)

inductive Trigger where
  | start
  | request
  | overflow
  deriving DecidableEq, Repr

def Trigger.origin : Trigger → Origin
  | .overflow => .hotplug
  | _ => .coldplug

/-- `run_sweep` over the aliases and directories of the devices, in the order
of the walk. -/
def runSweep (host : Host) (trigger : Trigger) (devices : List (CStr × CStr)) (r : Scan) : Scan :=
  if host.present then
    devices.foldl (fun current device =>
      if device.1.length = 0 then current
      else resolveAlias host trigger.origin device.1 device.2 current) r
  else r

/-- The modules that `run_load` decides: the name itself when nothing resolves
it. -/
def loadCandidates (host : Host) (name : CStr) : List CStr × Bool :=
  match kmodResolveAlias host name with
  | none => ([name], false)
  | some ([], more) => ([name], more)
  | some (mods, more) => (mods, more)

def runLoad (host : Host) (name : CStr) (options : Option CStr) (r : Scan) :
    Scan :=
  match r.aliasAdd name with
  | (none, full) => full
  | (some idx, added) =>
    if refused host name .request then
      added.entryAdd idx CStr.empty name .refused
    else
      let candidates := loadCandidates host name
      let marked := added.setMore idx candidates.2
      match candidates.1.find? fun mod => refused host mod .request with
      | some mod => marked.entryAdd idx CStr.empty mod .refused
      | none =>
        candidates.1.foldl (Scan.load host idx CStr.empty .request options) marked

/-- `run_unload`, whose command line is none of `kmod_load`. -/
def runUnload (name : CStr) (succeeds : Bool) (r : Scan) : Scan :=
  match r.aliasAdd name with
  | (none, full) => full
  | (some idx, added) =>
    added.entryAdd idx CStr.empty name (if succeeds then .unloaded else .failed)

/-- `struct kmodscan_job`, and the loads that the daemon makes itself when it
starts. -/
inductive Job where
  | sweep (trigger : Trigger) (devices : List (CStr × CStr))
  | bootSweep (devices : List (CStr × CStr))
  | modalias (modalias device : CStr)
  | load (name : CStr) (options : Option CStr)
  | unload (name : CStr) (succeeds : Bool)
  /-- `load_configured_modules` and `load_boot_modules`. -/
  | start (origin : Origin) (names : List CStr)

/-- `kmodscan_run`, `kmodscan_boot_sweep` and the loads at the start. -/
def kmodscanRun (host : Host) : Job → Scan
  | .sweep trigger devices => runSweep host trigger devices Scan.empty
  | .bootSweep devices =>
    if host.policy.autoloadCovers .coldplug then
      runSweep host .start devices Scan.empty
    else Scan.empty
  | .modalias modalias device =>
    if host.policy.autoloadCovers .hotplug then
      resolveAlias host .hotplug modalias device Scan.empty
    else Scan.empty
  | .load name options => runLoad host name options Scan.empty
  | .unload name succeeds => runUnload name succeeds Scan.empty
  | .start origin names =>
    names.foldl (Scan.load host 0 CStr.empty origin none) Scan.empty

end Cix.Kmod
