import Cix.Pkg.Turns

/-!
# Where a fetch is started

`start_fetch_for` is called in two places: for the first package of the queue
of an accepted request, and for the next package of a queue once a version
with the package before it has been recorded.  `fetchStart` says in which
state an event makes that call, for which chain and for which package.
-/

namespace Cix.Pkg

open Cix.Lib Option

namespace State

/-- The state in which `install_finish` has written the state file: the
version is recorded and the package has its list. -/
def settled (w : World) (i : ChainIdx) (slot : Nat) (e : Entry)
    (built : Built) (s : State) : State :=
  let c := s.chains i
  let s := (s.setTable (s.table.modify slot fun e =>
    { e with state := .installed })).commit c.image built.version
      (.installed e.key e.version built.files c.fetchResolvedReplaces.str)
  let s := s.setTable (s.table.modify slot fun e =>
    { e with files := built.files })
  let s := s.setTable (transferReplacedPaths c.image slot built.files
    c.fetchResolvedReplaces.str s.table)
  (s.setTable (s.table.modify slot fun e =>
    { e with runOpen := false })).save w

section Settled

variable (w : World) (i : ChainIdx) (slot : Nat) (e : Entry) (built : Built)
  (s : State)

def listed (t : Table) : Table :=
  (transferReplacedPaths (s.chains i).image slot built.files
    (s.chains i).fetchResolvedReplaces.str (t.modify slot fun e =>
      { e with files := built.files })).modify slot fun e =>
        { e with runOpen := false }

theorem settled_table : (s.settled w i slot e built).table =
    listed i slot built s (s.table.modify slot fun e =>
      { e with state := .installed }) := by
  rw [settled, save_table]
  rfl

@[simp]
theorem settled_chains : (s.settled w i slot e built).chains = s.chains := by
  rw [settled, save_chains]
  rfl

@[simp]
theorem settled_children : (s.settled w i slot e built).children = s.children := by
  rw [settled, save_children]
  rfl

theorem settled_images : (s.settled w i slot e built).images =
    Function.update s.images (s.chains i).image
      ((s.images (s.chains i).image).record built.version) := by
  rw [settled, save_images]
  rfl

theorem settled_file : (s.settled w i slot e built).file =
    if w.saves then some (saveStateText (s.settled w i slot e built).table)
    else s.file := by
  rw [settled_table, settled, save_file]
  rfl

end Settled

def settles (w : World) (i : ChainIdx) (built : Built) (s : State) : Bool :=
  w.commits && w.survives && w.listWhole && !built.files.any fun rel =>
      !((s.images (s.chains i).image).paths built.version).contains rel

theorem installProduced_of_settles {w : World} {i : ChainIdx} {slot : Nat}
    {e : Entry} {built : Built} {s : State}
    (settles : s.settles w i built = true) :
    s.installProduced w i slot e built = (s.settled w i slot e built).installNext w i := by
  simp only [State.settles, Bool.and_eq_true, Bool.not_eq_true'] at settles
  obtain ⟨⟨⟨commits, survives⟩, listWhole⟩, found⟩ := settles
  simp only [installProduced, installAfterProduce, commits, survives,
    listWhole, if_true, setTable_chains, commit_chains, setTable_images,
    currentPaths_commit, found, Bool.false_eq_true, if_false]
  rfl

/-- The call at the end of `install_finish`. -/
def nextStart (i : ChainIdx) (s : State) : Option (State × Name) :=
  let c := s.chains i
  if c.jobIsFinal then none
  else
    c.depQueue[c.depQueuePos + 1]?.map fun next =>
      (s.setChain i { c with depQueuePos := c.depQueuePos + 1 }, next)

/-- The call that `pkg_produce_completed` makes. -/
def produceStart (w : World) (i : ChainIdx) (report : Option Built)
    (s : State) : Option (State × Name) :=
  let c := s.chains i
  let s := s.setChain i { c with producer := .none }
  if c.name.isSome && !c.isDelete && decide (c.producer ≠ .waiting) then
    (c.produceE.bind fun slot => (s.table.get slot).map fun e =>
      (slot, e)).bind fun found =>
        report.bind fun built =>
          if s.settles w i built then
            (s.settled w i found.1 found.2 built).nextStart i
          else none
  else none

/-- The call that `pkg_install_start` makes. -/
def installStart (w : World) (r : InstallRequest) (s : State) : Option (State × ChainIdx × Name) :=
  match s.installAdmit w r with
  | (_, .error _) => none
  | (s, .ok (key, i)) =>
    match installPlan w r key s.table (s.chains i) with
    | (c, .ok) => c.depQueue.head?.map fun first => (s.setChain i c, i, first)
    | _ => none

/-- The call of `start_fetch_for` that an event makes. -/
def fetchStart (s : State) : Event → Option (State × World × ChainIdx × Name)
  | .install w r => (s.installStart w r).map fun call => (call.1, w, call.2)
  | .produceExits k w true =>
    match s.children[k]? with
    | some (i, .producer p) =>
      ((s.withoutChild k).produceStart w i p.built).map fun call =>
        (call.1, w, i, call.2)
    | _ => none
  | _ => none

section Calls

variable {s s₀ : State} {w : World} {i : ChainIdx} {name : Name}

theorem installNext_eq (w : World) (i : ChainIdx) (s : State) : s.installNext w i =
      match s.nextStart i with
      | none => if (s.chains i).jobIsFinal then s.release i
          else (s.setChain i { s.chains i with
            depQueuePos := (s.chains i).depQueuePos + 1 }).release i
      | some (s₀, next) =>
        match s₀.startFetchFor w next i with
        | (s, .ok) => s
        | (s, _) => s.release i := by
  rw [installNext, nextStart]
  by_cases final : (s.chains i).jobIsFinal = true
  · simp [final]
  · simp only [final]
    cases (s.chains i).depQueue[(s.chains i).depQueuePos + 1]? with
    | none => simp
    | some next =>
      simp only [map_some]
      rfl

/-- `pkg_produce_completed` of a busy chain `c` whose entry is there, from
the point where the chain has no producer any more. -/
def produceOutcome (w : World) (i : ChainIdx) (slot : Nat) (e : Entry)
    (c : Chain) (report : Option Built) (s : State) : State :=
  if c.isDelete = true then
    if c.producer = .waiting then
      match s.deleteProduceStart w i slot with
      | (s, true) => s
      | (s, false) => s.release i
    else
      match report with
      | none => s.release i
      | some built => s.deleteProduced w i slot e built
  else if c.producer = .waiting then s.installProduceBegin w i slot c.isUpgrade
  else
    match report with
    | none => s.installProduceFailed i slot c.isUpgrade
    | some built => s.installProduced w i slot e built

theorem pkgProduceCompleted_eq {word : Name} {slot : Nat} {e : Entry}
    {report : Option Built} (busy : (s.chains i).name = some word)
    (entry : ((s.chains i).produceE.bind fun slot =>
      (s.table.get slot).map fun e => (slot, e)) = some (slot, e)) :
    s.pkgProduceCompleted w i report = produceOutcome w i slot e (s.chains i) report
        (s.setChain i { s.chains i with producer := .none }) := by
  rw [pkgProduceCompleted]
  simp only [setChain_table]
  rw [busy, entry]
  simp only [produceOutcome, decide_eq_true_eq] <;> rfl

theorem pkgProduceCompleted_of_report {word : Name} {slot : Nat} {e : Entry}
    {built : Built} (busy : (s.chains i).name = some word)
    (entry : ((s.chains i).produceE.bind fun slot =>
      (s.table.get slot).map fun e => (slot, e)) = some (slot, e))
    (install : (s.chains i).isDelete = false)
    (notWaited : (s.chains i).producer ≠ .waiting) :
    s.pkgProduceCompleted w i (some built) =
      (s.setChain i { s.chains i with producer := .none }).installProduced
        w i slot e built := by
  rw [pkgProduceCompleted_eq busy entry, produceOutcome,
    if_neg (by simp [install]), if_neg notWaited]

theorem handle_fetchStart {event : Event} (call : s.fetchStart event = some (s₀, w, i, name))
    (started : (s₀.startFetchFor w name i).2 = .ok) :
    s.handle event = (s₀.startFetchFor w name i).1 := by
  have pair : s₀.startFetchFor w name i =
      ((s₀.startFetchFor w name i).1, .ok) := Prod.ext rfl started
  cases event with
  | install world r =>
    rw [fetchStart, installStart] at call
    rw [handle, pkgInstallStart]
    cases admitted : s.installAdmit world r with
    | mk s₁ answer =>
    cases answer with
    | error e => simp [admitted] at call
    | ok target =>
      obtain ⟨key, chain⟩ := target
      simp only [admitted] at call ⊢
      split at call
      · rename_i c plan
        cases queue : c.depQueue with
        | nil => simp [queue] at call
        | cons first rest =>
          simp only [queue, List.head?_cons, map_some,
            some.injEq, Prod.mk.injEq] at call
          obtain ⟨rfl, rfl, rfl, rfl⟩ := call
          simp only [installInto, plan, queue]
          rw [pair]
      · simp at call
  | produceExits k world ok =>
    cases ok with
    | false => simp [fetchStart] at call
    | true =>
      rw [fetchStart] at call
      rw [handle]
      split at call
      · rename_i chain p there
        simp only [there, if_true]
        obtain ⟨⟨s₁, next⟩, produced, same⟩ := map_eq_some_iff.mp call
        simp only [Prod.mk.injEq] at same
        obtain ⟨rfl, rfl, rfl, rfl⟩ := same
        rw [produceStart] at produced
        split_ifs at produced with runs
        simp only [Bool.and_eq_true, Bool.not_eq_true',
          decide_eq_true_eq, isSome_iff_exists] at runs
        obtain ⟨⟨⟨word, busy⟩, install⟩, notWaited⟩ := runs
        obtain ⟨⟨slot, e⟩, entry, produced⟩ := bind_eq_some_iff.mp produced
        obtain ⟨built, report, produced⟩ := bind_eq_some_iff.mp produced
        split_ifs at produced with settles
        rw [report, pkgProduceCompleted_of_report busy entry install
          notWaited, installProduced_of_settles settles, installNext_eq,
          produced]
        simp only
        rw [pair]
      · simp at call
  | _ => simp [fetchStart] at call

end Calls

end State

theorem named_1_1 :
    (BoundedStr.store 64 pos_64 (CStr.ofString "1-1")).str.length ≠ 0 := by decide

def Recipe.ofTexts (version depends replaces : String)
    (named : (BoundedStr.store 64 pos_64 (CStr.ofString version)).str.length ≠ 0) :
    Recipe where
  version := BoundedStr.store 64 pos_64 (CStr.ofString version)
  versionNamed := named
  depends := BoundedStr.store 256 pos_256 (CStr.ofString depends)
  replaces := BoundedStr.store 256 pos_256 (CStr.ofString replaces)

def World.steady (recipe : Name → Option CStr → Option Recipe) : World where
  recipe := recipe
  abiHold := fun _ => false
  maxJobs := maxConcurrentJobs
  spawns := true
  linkRefused := false
  hit := fun _ => 0
  commits := true
  survives := true
  listWhole := true
  saves := true

def InstallRequest.latest (name : String) (upgrade : Bool) : InstallRequest where
  name := CStr.ofString name
  image := none
  version := none
  upgrade := upgrade

def World.flat (version : String) (named : (BoundedStr.store 64 pos_64
      (CStr.ofString version)).str.length ≠ 0) : World :=
  World.steady fun _ _ => some (Recipe.ofTexts version "" "" named)

/-- The install of a package of one file, from the request to the recorded
version, by the `k`-th child of the daemon. -/
def installEvents (w : World) (k : Nat) (name path : String) (upgrade : Bool) : List Event :=
  [.install w (.latest name upgrade), .prepExits k w .container,
    .buildExits k w (.staged [CStr.ofString path]), .places k,
    .produceExits k w true]

end Cix.Pkg
