import Cix.Pkg.Images
import Cix.Pkg.Store

/-!
# Package jobs

A job runs in one of the ten chain slots.  It installs the packages of its
queue one after the other, each through a fetch, a build and the production
of a new version of the image, or it removes one package.  The daemon itself
never waits: a helper child does the work of each stage, and its exit is the
event that takes the job to the next one.
-/

namespace Cix.Pkg

open Cix.Lib

/-- `enum pkg_error`, as far as the modelled functions return it. -/
inductive PkgError
  | ok
  | invalidName
  | notFound
  | invalidRecipe
  | duplicate
  | busy
  | full
  | spawnFailed
  | persistFailed
  | notBuilding
  | depUnresolvable
  | abiHold
  deriving DecidableEq, Repr

/-- What a chain's `producer` and `produce_waiting` say. -/
inductive Producer
  | none
  | waiting
  | producing
  deriving DecidableEq

/-- `struct pkg_chain`.  A chain is free when it has no name. -/
structure Chain where
  name : Option Name
  image : Name
  targetVersion : BoundedStr 64
  depQueue : List Name
  depQueuePos : Nat
  depQueueIsUpgrade : Bool
  fetchResolvedVersion : BoundedStr 64
  (fetchResolvedDepends fetchResolvedReplaces : BoundedStr 256)
  /-- The files of the tree that the chain's build has staged. -/
  staged : List CStr
  producer : Producer
  produceE : Option Nat
  producePrevVersion : BoundedStr 64
  producePrevDepends : BoundedStr 256
  isDelete : Bool

def maxDepChain : Nat := 32

def Chain.unused : Chain where
  name := none
  image := defaultImage
  targetVersion := blank 64 pos_64
  depQueue := []
  depQueuePos := 0
  depQueueIsUpgrade := false
  fetchResolvedVersion := blank 64 pos_64
  fetchResolvedDepends := blank 256 pos_256
  fetchResolvedReplaces := blank 256 pos_256
  staged := []
  producer := .none
  produceE := none
  producePrevVersion := blank 64 pos_64
  producePrevDepends := blank 256 pos_256
  isDelete := false

def Chain.target (c : Chain) : Option Key :=
  c.name.map fun name => ⟨name, c.image⟩

def Chain.jobIsFinal (c : Chain) : Bool :=
  decide (c.depQueuePos + 1 ≥ c.depQueue.length)

/-- The `is_upgrade` and `is_final_upgrade` of the completion functions. -/
def Chain.isUpgrade (c : Chain) : Bool :=
  c.jobIsFinal && c.depQueueIsUpgrade

def Chain.effectiveVersion (c : Chain) : Option CStr :=
  if c.depQueuePos + 1 = c.depQueue.length ∧ c.targetVersion.str.length ≠ 0 then
    some c.targetVersion.str
  else none

/-- `chain_release`. -/
def Chain.released (c : Chain) : Chain :=
  { c with
    name := none
    depQueue := []
    producer := .none
    produceE := none
    isDelete := false }

/-- `chain_handout`. -/
def Chain.handedOut (c : Chain) : Chain :=
  { c with
    fetchResolvedVersion := blank 64 pos_64
    fetchResolvedDepends := blank 256 pos_256
    fetchResolvedReplaces := blank 256 pos_256 }

inductive Child
  | fetch
  | prepare
  | build
  | waiter
  | producer (work : Production)

/-- A version of an image that was recorded as the current one: what the job
put into the image, or what it took out. -/
inductive Recording
  | installed (package : Key) (version : BoundedStr 64) (files : List CStr)
      (replaces : CStr)
  | removed (package : Key)
  deriving DecidableEq

/-- The daemon's memory, its children and its files.  `recorded` is the
history of the recorded versions, latest first; no function reads it. -/
structure State where
  alive : Bool
  table : Table
  chains : ChainIdx → Chain
  children : List (ChainIdx × Child)
  images : Name → Image
  file : Option (List UInt8)
  recorded : List Recording

/-- A recipe, as far as the modelled functions read it.  Its version is the
text `VERSION-RELEASE`, which is never empty. -/
structure Recipe where
  version : BoundedStr 64
  versionNamed : version.str.length ≠ 0
  (depends replaces : BoundedStr 256)

/-- What the world answers during one event. `hit` is the choice of `bsearch`;
`survives` is false when the daemon is killed between the recording of a version and
the next write of the state file. -/
structure World where
  recipe : Name → Option CStr → Option Recipe
  abiHold : Name → Bool
  maxJobs : Nat
  (spawns linkRefused : Bool)
  hit : CStr → Nat
  (commits survives listWhole saves : Bool)

inductive BuildOutcome
  | failed
  | staged (files : List CStr)
  deriving DecidableEq

inductive PrepAnswer
  | exitFailed
  | refused
  | another
  | container
  | containerFailed
  | cached (outcome : BuildOutcome)
  deriving DecidableEq

/-- The arguments of `pkg_install_start`. -/
structure InstallRequest where
  name : CStr
  (image version : Option CStr)
  upgrade : Bool

namespace State

def setChain (i : ChainIdx) (c : Chain) (s : State) : State :=
  { s with chains := Function.update s.chains i c }

def setTable (t : Table) (s : State) : State :=
  { s with table := t }

def release (i : ChainIdx) (s : State) : State :=
  s.setChain i (s.chains i).released

/-- `pkg_fail` and `pkg_fail_cancelled`. -/
def fail (slot : Nat) (keepInstalled : Bool) (s : State) : State :=
  s.setTable (pkgFail slot keepInstalled s.table)

def spawn (i : ChainIdx) (child : Child) (s : State) : State :=
  { s with children := s.children ++ [(i, child)] }

/-- The `k`-th child has exited. -/
def withoutChild (k : Nat) (s : State) : State :=
  { s with children := s.children.eraseIdx k }

def targetEntry (i : ChainIdx) (s : State) : Option (Nat × Entry) :=
  match (s.chains i).target with
  | none => none
  | some key => pkgFind key s.table

/-- `g_build_container_live_fn`: the registry knows the build container. -/
def buildLive (i : ChainIdx) (s : State) : Bool :=
  s.children.any fun child =>
    match child with
    | (j, .build) => decide (j = i)
    | _ => false

def buildJobCanStillReport (e : Entry) (s : State) : Bool :=
  match e.state, e.buildContainer with
  | .building, some i => s.buildLive i
  | _, _ => true

/-- The body of the loop of `chain_reap_stale`. -/
def reapOne (i : ChainIdx) (s : State) : State :=
  if (s.chains i).name.isNone || (s.chains i).producer ≠ .none then s
  else
    match s.targetEntry i with
    | none => s.release i
    | some (slot, e) =>
      if e.state.inFlight then
        if s.buildJobCanStillReport e then s
        else (s.fail slot e.named).release i
      else s.release i

def chainReapStale (s : State) : State :=
  (List.finRange maxConcurrentJobs).foldl (fun s i => s.reapOne i) s

def chainReleaseIfJobOver (i : ChainIdx) (e : Option (Nat × Entry)) (s : State) : State :=
  match e with
  | some (_, e) => if e.state.inFlight then s else s.release i
  | none => s.release i

/-- `chain_alloc`, and `chain_alloc_delete` with the slots in the other
order. -/
def chainAllocFrom (order : List ChainIdx) (s : State) : State × Option ChainIdx :=
  let s := s.chainReapStale
  match order.find? fun i => (s.chains i).name.isNone with
  | none => (s, none)
  | some i => (s.setChain i (s.chains i).handedOut, some i)

def chainAlloc (w : World) (s : State) : State × Option ChainIdx :=
  s.chainAllocFrom ((List.finRange maxConcurrentJobs).filter fun i =>
    decide (i.val < w.maxJobs))

def chainAllocDelete (s : State) : State × Option ChainIdx :=
  s.chainAllocFrom (List.finRange maxConcurrentJobs).reverse

/-- `pkg_job_in_flight_for` of a package. -/
def pkgJobInFlightFor (key : Key) (s : State) : State × Bool :=
  let s := s.chainReapStale
  (s, (List.finRange maxConcurrentJobs).any fun i =>
    decide ((s.chains i).target = some key))

def entryBeingProduced (slot : Nat) (s : State) : Bool :=
  (List.finRange maxConcurrentJobs).any fun i =>
    decide ((s.chains i).producer ≠ .none) &&
      decide ((s.chains i).produceE = some slot)

/-- `save_state`; a write that fails leaves the file as it was. -/
def save (w : World) (s : State) : State :=
  if w.saves then { s with file := some (saveStateText s.table) } else s

def stopped (s : State) : State :=
  { s with alive := false, children := [] }

/-! ## Starting a fetch -/

/-- The slot `start_fetch_for` uses, its entry, and its `is_upgrade`. An entry that
is not installed is cleared. -/
def fetchEntry (key : Key) (t : Table) : Option (Nat × Entry × Bool) :=
  match pkgFind key t with
  | some (slot, e) =>
    if e.state = .installed then some (slot, e, true)
    else some (slot, Entry.cleared key, false)
  | none => t.firstFree.map fun slot => (slot, Entry.cleared key, false)

def startFetchFor (w : World) (name : Name) (i : ChainIdx) (s : State) : State × PkgError :=
  let c := s.chains i
  match w.recipe name c.effectiveVersion with
  | none => (s, .invalidRecipe)
  | some recipe =>
    match fetchEntry ⟨name, c.image⟩ s.table with
    | none => (s, .full)
    | some (slot, e, isUpgrade) =>
      let s := s.setTable (s.table.put slot
        (some { e with state := .fetching, runOpen := true }))
      let resolved := { c with
        fetchResolvedVersion := recipe.version
        fetchResolvedDepends := recipe.depends
        fetchResolvedReplaces := recipe.replaces }
      if w.spawns then
        ((s.setChain i { resolved with name := some name }).spawn i .fetch, .ok)
      else ((s.setChain i resolved).fail slot isUpgrade, .spawnFailed)

/-! ## Producing a version -/

def imageProducerWait (i : ChainIdx) (s : State) : Bool :=
  (List.finRange maxConcurrentJobs).any fun j =>
    decide (j ≠ i) && decide ((s.chains j).producer = .producing) &&
      decide ((s.chains j).image = (s.chains i).image)

def startProducer (i : ChainIdx) (slot : Nat) (mutation : Mutation) (s : State) : State :=
  let c := s.chains i
  if s.imageProducerWait i then
    (s.setChain i { c with producer := .waiting }).spawn i .waiter
  else
    (s.setChain i { c with producer := .producing }).spawn i
      (.producer ⟨slot, c.image, mutation, s.table, none⟩)

/-- `install_produce_failed`, and the refusal of a gate in
`install_produce_begin`. -/
def installProduceFailed (i : ChainIdx) (slot : Nat) (isUpgrade : Bool) (s : State) : State :=
  let c := s.chains i
  let s := s.fail slot isUpgrade
  (s.setTable (s.table.modify slot (installKeepPrevVersion isUpgrade
    c.producePrevVersion c.producePrevDepends))).release i

/-- `install_produce_begin` with `install_produce_start`. -/
def installProduceBegin (w : World) (i : ChainIdx) (slot : Nat)
    (isUpgrade : Bool) (s : State) : State :=
  let c := s.chains i
  if s.imageProducerWait i then
    if w.spawns then s.startProducer i slot (.install isUpgrade c.staged)
    else s.installProduceFailed i slot isUpgrade
  else if w.linkRefused || pathOwnerGate w.hit s.table slot c.image c.staged
      c.fetchResolvedReplaces.str then
    s.installProduceFailed i slot isUpgrade
  else if w.spawns then
    s.startProducer i slot (.install isUpgrade c.staged)
  else s.installProduceFailed i slot isUpgrade

/-- The end of `install_finish`: the next package of the queue, or the end of
the job. -/
def installNext (w : World) (i : ChainIdx) (s : State) : State :=
  let c := s.chains i
  if c.jobIsFinal then s.release i
  else
    let s := s.setChain i { c with depQueuePos := c.depQueuePos + 1 }
    match c.depQueue[c.depQueuePos + 1]? with
    | none => s.release i
    | some next =>
      match s.startFetchFor w next i with
      | (s, .ok) => s
      | (s, _) => s.release i

def installFinish (w : World) (i : ChainIdx) (slot : Nat) (s : State) :
    State :=
  ((s.setTable (s.table.modify slot fun e =>
    { e with runOpen := false })).save w).installNext w i

/-- `produce_files_apply` and `install_after_produce`, once the version has
been recorded. -/
def installAfterProduce (w : World) (i : ChainIdx) (slot : Nat)
    (files : List CStr) (s : State) : State :=
  let c := s.chains i
  if w.listWhole then
    let s := s.setTable (s.table.modify slot fun e => { e with files := files })
    if files.any fun rel => !(s.images c.image).currentPaths.contains rel then
      (s.fail slot false).release i
    else
      (s.setTable (transferReplacedPaths c.image slot files
        c.fetchResolvedReplaces.str s.table)).installFinish w i slot
  else
    let s := s.setTable (s.table.modify slot fun e => { e with files := [] })
    (s.fail slot false).release i

def commit (image : Name) (version : CStr) (what : Recording) (s : State) :
    State :=
  { s with
    images := Function.update s.images image ((s.images image).record version)
    recorded := what :: s.recorded }

/-- The part of `pkg_produce_completed` for an install whose producer left a
report. -/
def installProduced (w : World) (i : ChainIdx) (slot : Nat) (e : Entry)
    (built : Built) (s : State) : State :=
  let c := s.chains i
  let s := s.setTable (s.table.modify slot fun e =>
    { e with state := .installed })
  if w.commits then
    let s := s.commit c.image built.version
      (.installed e.key e.version built.files c.fetchResolvedReplaces.str)
    if w.survives then s.installAfterProduce w i slot built.files
    else s.stopped
  else s.installProduceFailed i slot c.isUpgrade

def deleteProduceStart (w : World) (i : ChainIdx) (slot : Nat) (s : State) : State × Bool :=
  if w.spawns then (s.startProducer i slot .delete, true) else (s, false)

/-- The part of `delete_produce_completed` for a producer that left a
report. -/
def deleteProduced (w : World) (i : ChainIdx) (slot : Nat) (e : Entry)
    (built : Built) (s : State) : State :=
  if w.commits then
    let s := (s.setTable (s.table.put slot none)).commit (s.chains i).image
      built.version (.removed e.key)
    if w.survives then (s.save w).release i else s.stopped
  else s.release i

/-- `pkg_produce_completed`, `delete_produce_completed`. -/
def pkgProduceCompleted (w : World) (i : ChainIdx) (report : Option Built) (s : State) : State :=
  let c := s.chains i
  let waited := decide (c.producer = .waiting)
  let s := s.setChain i { c with producer := .none }
  match c.name, c.produceE.bind fun slot =>
      (s.table.get slot).map fun e => (slot, e) with
  | some _, some (slot, e) =>
    if c.isDelete then
      if waited then
        match s.deleteProduceStart w i slot with
        | (s, true) => s
        | (s, false) => s.release i
      else
        match report with
        | none => s.release i
        | some built => s.deleteProduced w i slot e built
    else if waited then s.installProduceBegin w i slot c.isUpgrade
    else
      match report with
      | none => s.installProduceFailed i slot c.isUpgrade
      | some built => s.installProduced w i slot e built
  | some _, none => if c.isDelete then s.release i else s
  | none, _ => s

/-! ## The end of a build -/

def findByBuildContainer (i : ChainIdx) (t : Table) : Option (Nat × Entry) :=
  t.find fun e => decide (e.buildContainer = some i)

/-- The harvest in `pkg_build_completed`: the entry takes the version that
its fetch resolved. -/
def harvested (c : Chain) (e : Entry) : Entry :=
  if c.fetchResolvedVersion.str.length ≠ 0 then
    { e with
      version := c.fetchResolvedVersion
      depends := c.fetchResolvedDepends }
  else e

/-- The part of `pkg_build_completed` for a build that staged files. -/
def buildStaged (w : World) (i : ChainIdx) (slot : Nat) (e : Entry)
    (files : List CStr) (s : State) : State :=
  let c := s.chains i
  let s := (s.setTable (s.table.modify slot (harvested c))).setChain i
    { c with
      staged := files
      produceE := some slot
      producePrevVersion := e.version
      producePrevDepends := e.depends }
  if files.isEmpty then s.installProduceFailed i slot c.isUpgrade
  else s.installProduceBegin w i slot c.isUpgrade

def pkgBuildCompleted (w : World) (i : ChainIdx) (outcome : BuildOutcome) (s : State) : State :=
  let c := s.chains i
  if c.producer ≠ .none then s
  else
    match findByBuildContainer i s.table with
    | none =>
      match s.targetEntry i with
      | none => s.release i
      | some (_, e) => if e.buildContainer = some i then s.release i else s
    | some (slot, e) =>
      if e.cancelRequested then
        ((s.setTable (s.table.modify slot fun e =>
          { e with cancelRequested := false })).fail slot c.isUpgrade).release i
      else
        match outcome with
        | .failed => (s.fail slot c.isUpgrade).release i
        | .staged files => s.buildStaged w i slot e files

/-! ## The end of a fetch and of the preparation of a build -/

/-- `pkg_prepare_build_and_start`, and what `pkg_step_dispatch` does with its
result. -/
def prepareBuildAndStart (w : World) (i : ChainIdx) (slot : Nat)
    (answer : PrepAnswer) (s : State) : State :=
  let upgrade := (s.chains i).isUpgrade
  let building := s.setTable (s.table.modify slot fun e =>
    { e with state := .building })
  match answer with
  | .exitFailed => (s.fail slot upgrade).release i
  | .refused => (s.fail slot upgrade).release i
  | .another => s.spawn i .prepare
  | .container => building.spawn i .build
  | .containerFailed => (building.fail slot upgrade).release i
  | .cached outcome => building.pkgBuildCompleted w i outcome

def takeBuildContainer (i : ChainIdx) (slot : Nat) (t : Table) : Table :=
  t.adjust fun j e =>
    if j = slot then { e with buildContainer := some i }
    else if e.buildContainer = some i then { e with buildContainer := none }
    else e

def pkgFetchCompleted (w : World) (i : ChainIdx) (answer : PrepAnswer) (s : State) : State :=
  match s.targetEntry i with
  | none => s.chainReleaseIfJobOver i none
  | some (slot, e) =>
    let upgrade := (s.chains i).isUpgrade
    let uncancelled := s.setTable (s.table.modify slot fun e =>
      { e with cancelRequested := false })
    if e.state ≠ .fetching then s.chainReleaseIfJobOver i (some (slot, e))
    else
      match answer with
      | .exitFailed => (uncancelled.fail slot upgrade).release i
      | .refused => (s.fail slot upgrade).release i
      | answer =>
        if e.cancelRequested then
          (uncancelled.fail slot upgrade).release i
        else
          (s.setTable (takeBuildContainer i slot s.table)).prepareBuildAndStart w i slot answer

/-- `pkg_buildenv_completed` and `pkg_unpack_completed`. -/
def pkgPrepareCompleted (w : World) (i : ChainIdx) (answer : PrepAnswer) (s : State) : State :=
  match s.targetEntry i with
  | none => s.chainReleaseIfJobOver i none
  | some (slot, e) =>
    if e.state ≠ .fetching then s.chainReleaseIfJobOver i (some (slot, e))
    else s.prepareBuildAndStart w i slot answer

/-! ## Requests -/

/-- The words of a dependency list, as `strtok_r` with a space and a tab
finds them. -/
def dependsWords (depends : CStr) : List CStr :=
  ((depends.bytes.splitOnP fun c => c = 32 || c = 9).filter fun word =>
    !word.isEmpty).map CStr.ofBytes

/-- `resolve_chain`.  Each level adds a name to `visiting`, so that the limit
on its length bounds the recursion. -/
def resolveChain (w : World) (t : Table) (image : Name) :
    (fuel : Nat) → (name : CStr) → (version : Option CStr) →
      (force : Bool) → (visiting queue : List Name) → Option (List Name)
  | 0, _, _, _, _, _ => none
  | fuel + 1, text, version, force, visiting, queue =>
    match Name.ofCStr text with
    | none => none
    | some name =>
      let installed := (pkgFind ⟨name, image⟩ t).any fun found =>
        decide (found.2.state = .installed)
      if !force && installed then some queue
      else if name ∈ queue then some queue
      else if name ∈ visiting then none
      else
        match w.recipe name version with
        | none => none
        | some recipe =>
          if visiting.length ≥ maxDepChain then none
          else
            let resolved := (dependsWords recipe.depends.str).foldl
              (fun queue word => queue.bind fun queue =>
                resolveChain w t image fuel word none false (visiting ++ [name]) queue) (some queue)
            match resolved with
            | none => none
            | some queue =>
              if queue.length ≥ maxDepChain then none
              else some (queue ++ [name])

def requestKey (name : CStr) (image : Option CStr) : Option Key :=
  match Name.ofCStr name, normalizeImage image with
  | some name, some image => some ⟨name, image⟩
  | _, _ => none

/-- The checks of `pkg_install_start` on a free chain, and the chain they leave. -/
def installPlan (w : World) (r : InstallRequest) (key : Key) (t : Table)
    (c : Chain) : Chain × PkgError :=
  match w.recipe key.name r.version with
  | none => (c, .invalidRecipe)
  | some recipe =>
    let c := { c with
      image := key.image
      targetVersion := BoundedStr.store 64 pos_64 (r.version.getD CStr.empty) }
    let entry := pkgFind key t
    let isInstalled := entry.any fun found =>
      decide (found.2.state = .installed)
    let sameVersion := entry.any fun found =>
      decide (found.2.version = recipe.version)
    if isInstalled && (!r.upgrade || sameVersion) then (c, .duplicate)
    else
      let c := { c with depQueue := [] }
      match resolveChain w t key.image (maxDepChain + 2) key.name.str
          r.version true [] [] with
      | none => (c, .depUnresolvable)
      | some queue =>
        if queue.any w.abiHold then (c, .abiHold)
        else
          ({ c with
            depQueue := queue
            depQueuePos := 0
            depQueueIsUpgrade := isInstalled }, .ok)

/-- `pkg_install_start` from the point where it has a free chain. -/
def installInto (w : World) (r : InstallRequest) (key : Key) (i : ChainIdx)
    (s : State) : State × PkgError :=
  let plan := installPlan w r key s.table (s.chains i)
  let s := s.setChain i plan.1
  match plan.2, plan.1.depQueue with
  | .ok, first :: _ =>
    match s.startFetchFor w first i with
    | (s, .ok) => (s, .ok)
    | (s, err) => (s.setChain i { s.chains i with depQueue := [] }, err)
  | .ok, [] => (s, .depUnresolvable)
  | err, _ => (s, err)

/-- The beginning of `pkg_install_start`. `pkg_any_job_busy` allocates a slot once,
only to see whether there is one. -/
def installAdmit (w : World) (r : InstallRequest) (s : State) :
    State × Except PkgError (Key × ChainIdx) :=
  match requestKey r.name r.image with
  | none => (s, .error .invalidName)
  | some key =>
    match s.pkgJobInFlightFor key with
    | (s, true) => (s, .error .busy)
    | (s, false) =>
      match s.chainAlloc w with
      | (s, none) => (s, .error .busy)
      | (s, some _) =>
        match s.chainAlloc w with
        | (s, none) => (s, .error .busy)
        | (s, some i) => (s, .ok (key, i))

def pkgInstallStart (w : World) (r : InstallRequest) (s : State) : State × PkgError :=
  match s.installAdmit w r with
  | (s, .error err) => (s, err)
  | (s, .ok (key, i)) => s.installInto w r key i

/-- `delete_start` from the point where it has a free chain. -/
def deleteInto (w : World) (key : Key) (slot : Nat) (i : ChainIdx) (s : State) : State × PkgError :=
  let s := s.setChain i { s.chains i with
    name := some key.name
    image := key.image
    depQueue := []
    produceE := some slot
    isDelete := true }
  match s.deleteProduceStart w i slot with
  | (s, true) => (s, .ok)
  | (s, false) => (s.release i, .spawnFailed)

def deleteStart (w : World) (key : Key) (s : State) : State × PkgError :=
  match pkgFind key s.table with
  | none => (s, .notFound)
  | some (slot, e) =>
    if e.state.inFlight then (s, .notFound)
    else
      match s.pkgJobInFlightFor key with
      | (s, true) => (s, .busy)
      | (s, false) =>
        if e.state = .failed then
          ((s.setTable (s.table.put slot none)).save w,
            if w.saves then .ok else .persistFailed)
        else
          match s.chainAllocDelete with
          | (s, none) => (s, .busy)
          | (s, some i) => s.deleteInto w key slot i

/-- `pkg_cancel`, and what `handle_pkg_cancel` does with the container it names. -/
def pkgCancel (w : World) (key : Key) (s : State) : State × PkgError :=
  match pkgFind key s.table with
  | none => (s, .notFound)
  | some (slot, e) =>
    if !e.state.inFlight || s.entryBeingProduced slot then
      (s, .notBuilding)
    else
      let s := s.setTable (s.table.modify slot fun e =>
        { e with cancelRequested := true })
      match e.buildContainer with
      | none => (s, .ok)
      | some i =>
        if s.buildLive i then (s, .ok)
        else (s.pkgBuildCompleted w i .failed, .ok)

end State

/-! ## Events -/

inductive Event
  | install (w : World) (r : InstallRequest)
  | uninstall (w : World) (name : CStr) (image : Option CStr)
  | cancel (w : World) (name : CStr) (image : Option CStr)
  /-- Any request that only asks which jobs are running. -/
  | reap
  /-- The `k`-th child, a fetch, a composition or an unpacking, exits. -/
  | prepExits (k : Nat) (w : World) (answer : PrepAnswer)
  | buildExits (k : Nat) (w : World) (outcome : BuildOutcome)
  /-- A build container disappears without a report. -/
  | buildLost (k : Nat)
  /-- The `k`-th child, a producer, builds its version and places it. -/
  | places (k : Nat)
  /-- A waiter or a producer exits; `ok` is false when it was killed. -/
  | produceExits (k : Nat) (w : World) (ok : Bool)
  /-- The daemon dies, or stops in order. -/
  | stop (orderly : Bool)
  | restart

namespace State

def place (k : Nat) (i : ChainIdx) (p : Production) (s : State) : State :=
  let (img, built) := imageVersionBuild p (s.images p.image)
  { s with
    images := Function.update s.images p.image img
    children := s.children.set k (i, .producer { p with built := some built }) }

def handle (s : State) : Event → State
  | .install w r => (s.pkgInstallStart w r).1
  | .uninstall w name image =>
    match requestKey name image with
    | none => s
    | some key => (s.deleteStart w key).1
  | .cancel w name image =>
    match requestKey name image with
    | none => s
    | some key => (s.pkgCancel w key).1
  | .reap => s.chainReapStale
  | .prepExits k w answer =>
    match s.children[k]? with
    | some (i, .fetch) => (s.withoutChild k).pkgFetchCompleted w i answer
    | some (i, .prepare) => (s.withoutChild k).pkgPrepareCompleted w i answer
    | _ => s
  | .buildExits k w outcome =>
    match s.children[k]? with
    | some (i, .build) => (s.withoutChild k).pkgBuildCompleted w i outcome
    | _ => s
  | .buildLost k =>
    match s.children[k]? with
    | some (_, .build) => s.withoutChild k
    | _ => s
  | .places k =>
    match s.children[k]? with
    | some (i, .producer p) => if p.built.isNone then s.place k i p else s
    | _ => s
  | .produceExits k w ok =>
    match s.children[k]? with
    | some (i, .waiter) => (s.withoutChild k).pkgProduceCompleted w i none
    | some (i, .producer p) =>
      (s.withoutChild k).pkgProduceCompleted w i (if ok then p.built else none)
    | _ => s
  | .stop orderly =>
    (if orderly then s.setTable (pkgRunsCloseOpenAtShutdown s.table)
    else s).stopped
  | .restart => s

/-- The start of the daemon, with the table that `load_state` fills. -/
def booted (t : Table) (s : State) : State :=
  { s with
    alive := true
    table := t
    chains := fun _ => Chain.unused
    children := [] }

def step (s : State) (event : Event) : State :=
  if s.alive then s.handle event
  else
    match event, loadState s.file with
    | .restart, some t => s.booted t
    | _, _ => s

def initial : State where
  alive := true
  table := Slots.empty 1024
  chains := fun _ => Chain.unused
  children := []
  images := fun _ => Image.created
  file := none
  recorded := []

end State

end Cix.Pkg
