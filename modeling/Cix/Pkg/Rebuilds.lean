import Cix.Pkg.AbiHold

/-!
# The rebuild queue

Images that are behind their manifests wait in `g_rebuild_queue`.
`pkg_try_start_queued_rebuild` walks the queue by position and starts the
first install it can.  The name of the image it works on is a pointer into
the queue, and a start that fails takes an image out of the queue and moves
the later ones down, under that pointer.
-/

namespace Cix.Pkg

open Cix.Lib List

/-- `g_rebuild_queue`: the queued images, and what the slots past the count
still hold. -/
structure RebuildQueue where
  (images stale : List Name)
  nodup : images.Nodup

namespace RebuildQueue

/-- What a pointer to slot `qi` reads. -/
def slot (q : RebuildQueue) (qi : Nat) : Name :=
  (q.images ++ q.stale).getD qi defaultImage

/-- The shift of `rebuild_queue_remove_at`.  The last slot keeps its text. -/
def removeAt (q : RebuildQueue) (qi : Nat) : RebuildQueue where
  images := q.images.eraseIdx qi
  stale :=
    if qi < q.images.length then q.images.getLast?.toList ++ q.stale
    else q.stale
  nodup := q.nodup.sublist (eraseIdx_sublist _ _)

end RebuildQueue

/-- The drain looks at an image of the queue, finds that its manifest cannot be
read, or starts an install, with the image it looked at and the one it names. -/
inductive DrainAct
  | looks (image : Name)
  | unreadable (image : Name)
  | starts (lookedAt image : Name) (m : ImageManifestEntry)
      (answer : PkgError)
  deriving DecidableEq

/-- The jobs, the queue, the roll gate, and the `stray_refused` of each slot. `acts`
is what the pass has done so far. -/
structure Rebuilds where
  jobs : State
  queue : RebuildQueue
  gateRoll : Bool
  approvals : List Name
  strayRefused : Nat → Bool
  acts : List DrainAct

structure DrainWorld where
  answers : List DrainAct → World
  latest : CStr → Option CStr
  manifest : Name → Option (List ImageManifestEntry)
  converges : Name → Bool

inductive Attempt
  | satisfied
  | started
  | deferred
  | refused
  deriving DecidableEq

/-- What an answer of `pkg_install_start` is to the drain. -/
def Attempt.ofAnswer : PkgError → Attempt
  | .ok => .started
  | .busy => .deferred
  | _ => .refused

/-- `started`, `deferred` and `refused` of the drain. -/
structure Tally where
  (started deferred : Bool)
  refused : Nat

def Tally.add (tally : Tally) : Attempt → Tally
  | .satisfied => tally
  | .started => { tally with started := true }
  | .deferred => { tally with deferred := true }
  | .refused => { tally with refused := tally.refused + 1 }

/-- How the drain goes on after an image: at the next position, at the same
position again, or not at all. -/
inductive Visit
  | next
  | again
  | fetch
  | uninstall
  deriving DecidableEq

/-- What `pkg_try_start_queued_rebuild` returns.  It is 0 for `busy` and
`nothing`. -/
inductive Drained
  | busy
  | nothing
  | fetch
  | uninstall
  deriving DecidableEq

namespace State

/-- The image whose package `reapOne` records as failed. -/
def reapFails (i : ChainIdx) (s : State) : Option Name :=
  if (s.chains i).name.isNone || (s.chains i).producer ≠ .none then none
  else
    match s.targetEntry i with
    | none => none
    | some (_, e) =>
      if e.state.inFlight && !s.buildJobCanStillReport e then
        some e.key.image
      else none

/-- The images whose packages the loop of `chain_reap_stale` records as
failed. -/
def reapedIn : List ChainIdx → State → List Name
  | [], _ => []
  | i :: rest, s => (s.reapFails i).toList ++ reapedIn rest (s.reapOne i)

def reaped (s : State) : List Name :=
  reapedIn (List.finRange maxConcurrentJobs) s

/-- `image_has_job_in_flight`, after it has reaped. -/
def imageHasJobInFlight (image : Name) (s : State) : Bool :=
  (List.finRange maxConcurrentJobs).any fun i =>
    (s.chains i).name.isSome && decide ((s.chains i).image = image)

/-- `package_job_in_flight`, after it has reaped. -/
def packageJobInFlight (package : CStr) (s : State) : Bool :=
  (List.finRange maxConcurrentJobs).any fun i =>
    (s.chains i).name.any fun name => decide (name.str = package)

/-- `pkg_find` of a package of a manifest. -/
def findPackage (package : CStr) (image : Name) (s : State) : Option (Nat × Entry) :=
  (Name.ofCStr package).bind fun name => pkgFind ⟨name, image⟩ s.table

/-- The `satisfied` of the drain. -/
def satisfies (w : DrainWorld) (m : ImageManifestEntry) (image : Name) (s : State) : Bool :=
  (s.findPackage m.package image).any fun found =>
    decide (found.2.state = .installed) &&
      match m.mode with
      | .pinned => decide (found.2.version.str = m.version)
      | .rolling => decide (w.latest m.package = some found.2.version.str)

def namedSlots (entries : List ImageManifestEntry) (image : Name) (s : State) : List Nat :=
  (List.range 1024).filter fun slot => (s.table.get slot).any fun e =>
    decide (e.key.image = image) && entries.any fun m => decide (m.package = e.key.name.str)

def keepDepends (image : Name) (s : State) (keep : List Nat) : List Nat :=
  (List.range 1024).filter fun slot => decide (slot ∈ keep) ||
    (s.table.get slot).any fun e => decide (e.key.image = image) &&
      keep.any fun kept => (s.table.get kept).any fun k =>
        decide (e.key.name.str ∈ dependsWords k.depends.str)

def keepSlots (entries : List ImageManifestEntry) (image : Name) (s : State) : List Nat :=
  (s.keepDepends image)^[1024] (s.namedSlots entries image)

end State

namespace Rebuilds

variable (r : Rebuilds)

def note (act : DrainAct) : Rebuilds :=
  { r with acts := r.acts ++ [act] }

/-- `gate_holds` of the roll gate. -/
def gateHolds (image : Name) : Bool :=
  r.gateRoll && !decide (image ∈ r.approvals)

/-- `approval_forget` and `approval_consume` of the roll gate. -/
def approvalDrop (image : Name) : Rebuilds :=
  { r with approvals := r.approvals.erase image }

def rebuildQueueRemoveAt (qi : Nat) : Rebuilds :=
  match r.queue.images[qi]? with
  | none => r
  | some image => { r.approvalDrop image with queue := r.queue.removeAt qi }

def rebuildQueueRemove (image : Name) : Rebuilds :=
  match r.queue.images.findIdx? fun queued => decide (queued = image) with
  | none => r
  | some qi => r.rebuildQueueRemoveAt qi

/-- The body of the loop of `chain_reap_stale`, with the `pkg_fail` that
drops an image from the queue. -/
def reapOne (i : ChainIdx) : Rebuilds :=
  let reaped := { r with jobs := r.jobs.reapOne i }
  match r.jobs.reapFails i with
  | none => reaped
  | some image => reaped.rebuildQueueRemove image

def chainReapStale : Rebuilds :=
  (List.finRange maxConcurrentJobs).foldl (fun r i => r.reapOne i) r

def pkgAnyJobBusy (w : World) : Rebuilds × Bool :=
  let allocated := r.jobs.chainAlloc w
  ({ r.chainReapStale with jobs := allocated.1 }, allocated.2.isNone)

/-- `pkg_install_start`.  A fetch that cannot be started is recorded by
`pkg_fail`, which drops the image from the queue. -/
def pkgInstallStart (w : World) (request : InstallRequest) : Rebuilds × PkgError :=
  match State.requestKey request.name request.image with
  | none => (r, .invalidName)
  | some key =>
    let started := r.jobs.pkgInstallStart w request
    let reaped := { r.chainReapStale with jobs := started.1 }
    (if started.2 = .spawnFailed then reaped.rebuildQueueRemove key.image
    else reaped, started.2)

/-- `delete_start` of an entry that is installed or failed. -/
def deleteStart (w : World) (key : Key) : Rebuilds × PkgError :=
  let started := r.jobs.deleteStart w key
  ({ r.chainReapStale with jobs := started.1 }, started.2)

/-- The loop of `converge_uninstall_strays` that starts an uninstall. -/
def uninstallStrays (w : World) (image : Name) (keep : List Nat) :
    List Nat → Rebuilds → Rebuilds × Bool
  | [], r => (r, false)
  | slot :: rest, r =>
    match r.jobs.table.get slot with
    | none => uninstallStrays w image keep rest r
    | some e =>
      if slot ∈ keep ∨ r.strayRefused slot = true ∨
          e.key.image ≠ image ∨ e.state.inFlight = true then
        uninstallStrays w image keep rest r
      else
        match r.deleteStart w e.key with
        | (r, .ok) =>
          if e.state = .installed then (r, true)
          else
            uninstallStrays w image keep rest
              { r with strayRefused :=
                Function.update r.strayRefused slot false }
        | (r, _) =>
          uninstallStrays w image keep rest
            { r with strayRefused :=
              Function.update r.strayRefused slot true }

def convergeUninstallStrays (w : DrainWorld) (image : Name)
    (entries : List ImageManifestEntry) : Rebuilds × Bool :=
  if entries.isEmpty || !w.converges image then (r, false)
  else
    uninstallStrays (w.answers r.acts) image (r.jobs.keepSlots entries image) (List.range 1024) r

def forgetRefusals (image : Name) : Rebuilds :=
  { r with strayRefused := fun slot =>
      r.strayRefused slot && !(r.jobs.table.get slot).any fun e =>
        decide (e.key.image = image) }

def tryEntry (w : DrainWorld) (qi : Nat) (lookedAt : Name)
    (m : ImageManifestEntry) : Rebuilds × Attempt :=
  let found := r.jobs.findPackage m.package (r.queue.slot qi)
  if r.jobs.satisfies w m (r.queue.slot qi) then (r, .satisfied)
  else
    let r := r.chainReapStale
    if r.jobs.packageJobInFlight m.package then (r, .deferred)
    else
      let image := r.queue.slot qi
      let started := r.pkgInstallStart (w.answers r.acts)
        { name := m.package
          image := some image.str
          version :=
            match m.mode with
            | .pinned => some m.version
            | .rolling => none
          upgrade := found.isSome }
      (started.1.note (.starts lookedAt image m started.2), Attempt.ofAnswer started.2)

def tryEntries (w : DrainWorld) (qi : Nat) (lookedAt : Name) :
    List ImageManifestEntry → Tally → Rebuilds → Rebuilds × Tally
  | [], tally, r => (r, tally)
  | m :: rest, tally, r =>
    let tried := r.tryEntry w qi lookedAt m
    if tried.2 = .started then (tried.1, tally.add tried.2)
    else tryEntries w qi lookedAt rest (tally.add tried.2) tried.1

def caughtUp (qi : Nat) : Rebuilds :=
  let image := r.queue.slot qi
  ((r.approvalDrop image).forgetRefusals image).rebuildQueueRemoveAt qi

def converge (w : DrainWorld) (qi : Nat) (lookedAt : Name)
    (entries : List ImageManifestEntry) : Rebuilds × Visit :=
  match tryEntries w qi lookedAt entries ⟨false, false, 0⟩ r with
  | (r, tally) =>
    if tally.started then (r, .fetch)
    else if tally.deferred then (r, .next)
    else if tally.refused = 0 then
      match r.convergeUninstallStrays w (r.queue.slot qi) entries with
      | (r, true) => (r, .uninstall)
      | (r, false) => (r.caughtUp qi, .again)
    else (r.caughtUp qi, .again)

/-- The body of the loop of `pkg_try_start_queued_rebuild`. -/
def visit (w : DrainWorld) (qi : Nat) : Rebuilds × Visit :=
  let r := r.note (.looks (r.queue.slot qi))
  if r.gateHolds (r.queue.slot qi) then (r, .next)
  else
    let r := r.chainReapStale
    let image := r.queue.slot qi
    if r.jobs.imageHasJobInFlight image then (r, .next)
    else
      match w.manifest image with
      | none => ((r.note (.unreadable image)).rebuildQueueRemoveAt qi, .again)
      | some entries => r.converge w qi image entries

/-- The loop of `pkg_try_start_queued_rebuild`.  Each turn leaves fewer
images from its position on. -/
def drainFrom (w : DrainWorld) : (fuel : Nat) → (qi : Nat) → Rebuilds → Rebuilds × Drained
  | 0, _, r => (r, .nothing)
  | fuel + 1, qi, r =>
    if qi < r.queue.images.length then
      match r.visit w qi with
      | (r, .next) => drainFrom w fuel (qi + 1) r
      | (r, .again) => drainFrom w fuel qi r
      | (r, .fetch) => (r, .fetch)
      | (r, .uninstall) => (r, .uninstall)
    else (r, .nothing)

def pkgTryStartQueuedRebuild (w : DrainWorld) : Rebuilds × Drained :=
  match { r with acts := [] }.pkgAnyJobBusy (w.answers []) with
  | (r, true) => (r, .busy)
  | (r, false) => drainFrom w r.queue.images.length 0 r

end Rebuilds

end Cix.Pkg
