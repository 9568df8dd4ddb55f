import Cix.Init.Supervisor

/-!
# The daemon's view of a container's services

`registry_set_services` and `registry_apply_init_report` of
`daemon/src/registry.c`: the record that the daemon keeps of each service and
how one report of cix-init moves it.
-/

namespace Cix.Init

open Cix.Lib

/-- `REGISTRY_SVC_*`. -/
inductive RegistryState where
  | pending
  | starting
  | running
  | exited
  | restartWait
  | stopped
  | failed
  deriving DecidableEq, Repr

/-- `struct registry_service`, less the fields that no report touches. -/
structure RegistryService where
  decl : ServiceRecord
  state : RegistryState
  (pid restarts : Int)
  hasExit : Bool
  (exitKind exitValue failReason failDetail : Int)

/-- The part of `struct registry_entry` that concerns services. -/
structure Registry where
  services : Nat → RegistryService
  serviceCount : Nat
  (initUp ready : Bool)

def registrySetServices (table : Table) : Registry where
  services := fun i =>
    { decl := table.record i
      state := .pending
      pid := 0
      restarts := 0
      hasExit := false
      exitKind := 0
      exitValue := 0
      failReason := 0
      failDetail := 0 }
  serviceCount := table.records.length
  initUp := false
  ready := false

def serviceCountsReady (s : RegistryService) : Bool :=
  if s.state = .stopped then true
  else if s.decl.type = typeOneshot then
    s.state = .exited && s.hasExit && s.exitKind = exitKindExited && s.exitValue = 0
  else if s.state = .exited ∧ s.decl.onExit = onExitStop then true
  else s.state = .running

def deriveReady (e : Registry) : Bool :=
  e.initUp && e.serviceCount ≠ 0 &&
    (List.range e.serviceCount).all fun i => serviceCountsReady (e.services i)

/-- The `switch` of `registry_apply_init_report`. -/
def RegistryService.apply (r : Report) (s : RegistryService) :
    RegistryService :=
  match r.event with
  | .starting => { s with state := .starting, pid := 0, failReason := 0 }
  | .started => { s with state := .starting, pid := r.a }
  | .ready => { s with state := .running }
  | .exited =>
    { s with
      pid := 0
      hasExit := true
      exitKind := r.a
      exitValue := r.b
      state := .exited }
  | .restartIn => { s with state := .restartWait, restarts := r.b }
  | .stopped => { s with state := .stopped, pid := 0 }
  | .failed =>
    if r.a ≠ failProbe then
      { s with failReason := r.a, failDetail := r.b, state := .failed }
    else { s with failReason := r.a, failDetail := r.b }
  | .up => s
  | .shutdown => s

/-- `registry_apply_init_report`; the source's result is `(applied).ready ≠ e.ready`. -/
def registryApplyInitReport (e : Registry) (r : Report) : Registry :=
  if r.service = -1 then
    let e := if r.event = .up then { e with initUp := true } else e
    { e with ready := deriveReady e }
  else if r.service < 0 ∨ r.service ≥ e.serviceCount then e
  else
    let idx := r.service.toNat
    let e := { e with services := fun i =>
      if i = idx then (e.services i).apply r else e.services i }
    { e with ready := deriveReady e }

def deliver (e : Registry) (reports : List Report) : Registry :=
  run registryApplyInitReport e reports

@[simp]
theorem registryApplyInitReport_serviceCount (e : Registry) (r : Report) :
    (registryApplyInitReport e r).serviceCount = e.serviceCount := by
  unfold registryApplyInitReport
  split
  · split <;> rfl
  · split <;> rfl

@[simp]
theorem deliver_serviceCount (e : Registry) (reports : List Report) :
    (deliver e reports).serviceCount = e.serviceCount :=
  run_invariant_of_step (fun current : Registry =>
      current.serviceCount = e.serviceCount)
    (fun current r holds => by
      rw [registryApplyInitReport_serviceCount, holds]) rfl reports

/-- The reports of a stream that concern service `idx`, applied in order. -/
def applyFor (idx : Nat) (reports : List Report) (s : RegistryService) :
    RegistryService :=
  reports.foldl (fun current (r : Report) =>
      if r.service = (idx : Int) then current.apply r else current) s

theorem registryApplyInitReport_services
    (e : Registry) (r : Report) {idx : Nat} (inTable : idx < e.serviceCount) :
    (registryApplyInitReport e r).services idx = applyFor idx [r] (e.services idx) := by
  unfold registryApplyInitReport
  simp only [applyFor, List.foldl_cons, List.foldl_nil]
  by_cases own : r.service = -1
  · have notIdx : ¬ r.service = (idx : Int) := by omega
    simp only [own, if_true]
    rw [own] at notIdx
    rw [if_neg notIdx]
    split <;> rfl
  · rw [if_neg own]
    by_cases outside : r.service < 0 ∨ r.service ≥ e.serviceCount
    · rw [if_pos outside, if_neg (by omega)]
    · rw [if_neg outside]
      by_cases same : r.service = (idx : Int)
      · simp [same]
      · have different : ¬ idx = r.service.toNat := by omega
        simp [same, different]

theorem deliver_services (e : Registry) (reports : List Report) {idx : Nat}
    (inTable : idx < e.serviceCount) :
    (deliver e reports).services idx = applyFor idx reports (e.services idx) := by
  induction reports using List.reverseRecOn with
  | nil => rfl
  | append_singleton reports r ih =>
    have delivered : idx < (deliver e reports).serviceCount := by simpa using inTable
    rw [deliver, run_snoc]
    change (registryApplyInitReport (deliver e reports) r).services idx = _
    rw [registryApplyInitReport_services _ _ delivered, ih]
    simp [applyFor]

@[simp]
theorem applyFor_nil (idx : Nat) (s : RegistryService) : applyFor idx [] s = s := rfl

theorem applyFor_append (idx : Nat) (first second : List Report) (s : RegistryService) :
    applyFor idx (first ++ second) s = applyFor idx second (applyFor idx first s) := by
  simp [applyFor]

theorem applyFor_of_other
    {idx : Nat} {reports : List Report} (s : RegistryService)
    (other : ∀ r ∈ reports, r.service ≠ (idx : Int)) :
    applyFor idx reports s = s := by
  induction reports with
  | nil => rfl
  | cons r reports ih =>
    have head : r.service ≠ (idx : Int) := other r (List.Mem.head _)
    have tail : applyFor idx reports s = s :=
      ih fun r' mem =>
        other r' (List.Mem.tail r mem)
    simpa [applyFor, head] using tail

end Cix.Init
