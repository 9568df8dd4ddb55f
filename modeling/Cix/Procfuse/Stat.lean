import Cix.Lib.CString
import Cix.Lib.Recency
import Mathlib.Algebra.GroupWithZero.Nat

/-!
# The CPU times of a container

`daemon/src/procfuse.c`: the lines of `/proc/stat` that are served to the
processes of a cgroup.  The idle column is what the container could have used
and did not; the last value that was served is remembered and not lowered.  An
allowance is only compared, so any type will do for it.
-/

namespace Cix.Procfuse

open Cix.Lib

def idleCacheMax : Nat := 128

/-- `struct idle_cache_entry` without the path and the time of its last
use. -/
structure IdleFloor (α : Type) where
  starttimeTicks : Int
  allowance : α
  idle : Nat
  deriving DecidableEq

/-- `g_idle_cache` and `g_idle_clock`. -/
abbrev IdleCache (α : Type) := Recent CStr (IdleFloor α)

/-- What is read of a cgroup: its accounting, the processors it may run on,
and the ticks that it could have used until now. -/
structure Sample (α : Type) where
  /-- There is none for a process outside all containers. -/
  cg : Option CStr
  oldestStarttimeTicks : Int
  allowance : α
  (userUsec systemUsec : Int)
  ncpu : Nat
  capacity : Int
  ncpuPositive : 0 < ncpu

/-- `struct cpu_times`, in ticks. -/
structure CpuTimes where
  (user system idle ncpu : Nat)
  deriving DecidableEq

section Reading

variable {α : Type} [DecidableEq α]

def raiseFloor (starttimeTicks : Int) (allowance : α) (idle : Nat)
    (floor : Option (IdleFloor α)) : IdleFloor α :=
  match floor with
  | none => ⟨starttimeTicks, allowance, idle⟩
  | some slot =>
    if slot.starttimeTicks ≠ starttimeTicks ∨ slot.allowance ≠ allowance then
      ⟨starttimeTicks, allowance, idle⟩
    else if idle > slot.idle then { slot with idle := idle }
    else slot

def idleMonotonic (cache : IdleCache α) (cg : Option CStr)
    (starttimeTicks : Int) (allowance : α) (idle : Nat) :
    Nat × IdleCache α :=
  match cg with
  | none => (idle, cache)
  | some cg =>
    let (slot, cache) := cache.visit idleCacheMax cg
      (raiseFloor starttimeTicks allowance idle)
    (slot.idle, cache)

def usecTicks (ticks : Nat) (usec : Int) : Nat :=
  usec.toNat * ticks / 1000000

omit [DecidableEq α] in
def rawIdle (ticks : Nat) (s : Sample α) : Nat :=
  (s.capacity - usecTicks ticks s.userUsec - usecTicks ticks s.systemUsec).toNat

def cgroupCpuTimes (ticks : Nat) (cache : IdleCache α) (s : Sample α) : CpuTimes × IdleCache α :=
  let (idle, cache) := idleMonotonic cache s.cg s.oldestStarttimeTicks
    s.allowance (rawIdle ticks s)
  ({ user := usecTicks ticks s.userUsec
     system := usecTicks ticks s.systemUsec
     idle := idle
     ncpu := s.ncpu }, cache)

end Reading

structure CpuLine where
  (user system idle : Nat)
  deriving DecidableEq

structure StatLines where
  /-- The line "cpu". -/
  aggregate : CpuLine
  /-- The lines "cpu0", "cpu1" and so on. -/
  cpus : List CpuLine
  deriving DecidableEq

def share (total ncpu i : Nat) : Nat :=
  total / ncpu + if i = 0 then total % ncpu else 0

/-- The CPU lines of `render_stat`. -/
def cpuLines (t : CpuTimes) : StatLines where
  aggregate := ⟨t.user, t.system, t.idle⟩
  cpus := (List.range t.ncpu).map fun i =>
    ⟨share t.user t.ncpu i, share t.system t.ncpu i, share t.idle t.ncpu i⟩

section Serving

variable {α : Type} [DecidableEq α]

/-- `render_stat`, as far as the cgroup decides it. -/
def renderStat (ticks : Nat) (cache : IdleCache α) (s : Sample α) : StatLines × IdleCache α :=
  let (t, cache) := cgroupCpuTimes ticks cache s
  (cpuLines t, cache)

def cacheAfter (ticks : Nat) (reads : List (Sample α)) : IdleCache α :=
  reads.foldl (fun cache s => (renderStat ticks cache s).2) Recent.start

def served (ticks : Nat) (before : List (Sample α)) (s : Sample α) :
    StatLines :=
  (renderStat ticks (cacheAfter ticks before) s).1

end Serving

end Cix.Procfuse
