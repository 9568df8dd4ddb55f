import Cix.Lib.CString

/-!
# The wire between cixd and cix-init

The records of `include/cixinit.h`: the service table that the daemon sends
to pid 1 of a container, the commands that follow it, and the reports that
come back.  The fields that the wire carries as plain integers stay integers,
because `validate_service` is what decides which of their values are legal.
Fields that no modelled function reads (`reserved`, the output descriptors)
are left out.
-/

namespace Cix.Init

open Cix.Lib

def magic : Int := 0x31584943
def maxServices : Nat := 16
def maxAddrs : Nat := 64
def nameMax : Nat := 32
def argvMax : Nat := 1024
def argcMax : Nat := 32
def pathMax : Nat := 256

def typeOneshot : Int := 1
def typeDaemon : Int := 2

def readyNone : Int := 0
def readyTcp : Int := 1
def readySocket : Int := 2
def readyCommand : Int := 3

def onExitRestart : Int := 1
def onExitStop : Int := 2
def onExitFailContainer : Int := 3

def opStart : Int := 1
def opStop : Int := 2
def opRestart : Int := 3
def opShutdown : Int := 4

def exitKindExited : Int := 1
def exitKindKilled : Int := 2
def exitKindDumped : Int := 3

def failProbe : Int := 1
def failOneshot : Int := 2
def failSpawn : Int := 3
def failDependency : Int := 4

structure ServiceRecord where
  name : Buffer nameMax
  argv : Buffer argvMax
  type : Int
  afterMask : Nat
  (readyKind readyPort readyTimeoutSeconds : Int)
  readyPath : Buffer pathMax
  (onExit restartDelaySeconds stopSignal stopTimeoutSeconds uid gid : Int)
  deriving DecidableEq, Repr

structure Command where
  (magic op service : Int)
  deriving DecidableEq, Repr

inductive Event where
  | up
  | starting
  | started
  | ready
  | exited
  | restartIn
  | stopped
  | failed
  | shutdown
  deriving DecidableEq, Repr

structure Report where
  service : Int
  event : Event
  (a b : Int)
  deriving DecidableEq, Repr

def strOk (bytes : List UInt8) : Bool :=
  match bytes.findIdx? (· = 0) with
  | some i => decide (0 < i)
  | none => false

/-- The scan of `argv_count`. `inside` says that a byte has been read since `start`,
so that a zero byte ends an argument and not the list. -/
def argvCountFrom : List UInt8 → (argc : Nat) → (inside : Bool) → Option Nat
  | [], _, _ => none
  | byte :: rest, argc, inside =>
    if byte = 0 then
      if inside then
        if argc + 1 > argcMax then none
        else argvCountFrom rest (argc + 1) false
      else some argc
    else argvCountFrom rest argc true

/-- The number of arguments of a NUL-separated list that ends in an empty string,
`none` for the source's `-1`. -/
def argvCount (bytes : List UInt8) : Option Nat :=
  argvCountFrom bytes 0 false

/-- `argv_unpack` with room for `slots` arguments before the final null
pointer. -/
def argvUnpack : (slots : Nat) → List UInt8 → List (List UInt8)
  | 0, _ => []
  | _ + 1, [] => []
  | slots + 1, byte :: rest =>
    if byte = 0 then []
    else
      cstrAt (byte :: rest) :: argvUnpack slots (afterNul (byte :: rest))

/-- At least one argument, in the sense of the tests of `validate_service`. -/
def hasArgv (bytes : List UInt8) : Bool :=
  match argvCount bytes with
  | some argc => decide (1 ≤ argc)
  | none => false

def validateService (idx : Nat) (d : ServiceRecord) : Except String Unit :=
  if !strOk d.name.bytes then
    .error "service record with an empty or unterminated name"
  else if !hasArgv d.argv.bytes then
    .error "service record with no argv, or an argv that is not double-NUL terminated"
  else if d.type ≠ typeOneshot ∧ d.type ≠ typeDaemon then
    .error "service record with an unknown type"
  else if d.afterMask >>> idx ≠ 0 then
    .error "service record depending on itself or on a later service -- the daemon must order the table"
  else if d.readyKind < readyNone ∨ d.readyKind > readyCommand then
    .error "service record with an unknown ready kind"
  else if d.readyKind = readySocket ∧ !strOk d.readyPath.bytes then
    .error "socket probe with no path"
  else if d.readyKind = readyCommand ∧ !hasArgv d.readyPath.bytes then
    .error "command probe with no argv"
  else if d.onExit < onExitRestart ∨ d.onExit > onExitFailContainer then
    .error "service record with an unknown on_exit"
  else if d.stopSignal < 1 ∨ d.stopSignal > 64 then
    .error "service record with an invalid stop signal"
  else
    .ok ()

/-- The facts `validate_service` establishes about an accepted record. -/
structure Valid (idx : Nat) (d : ServiceRecord) : Prop where
  name : strOk d.name.bytes = true
  argv : hasArgv d.argv.bytes = true
  type : d.type = typeOneshot ∨ d.type = typeDaemon
  mask : d.afterMask >>> idx = 0
  readyKind : readyNone ≤ d.readyKind ∧ d.readyKind ≤ readyCommand
  socket : d.readyKind = readySocket → strOk d.readyPath.bytes = true
  command : d.readyKind = readyCommand → hasArgv d.readyPath.bytes = true
  onExit : onExitRestart ≤ d.onExit ∧ d.onExit ≤ onExitFailContainer
  stopSignal : 1 ≤ d.stopSignal ∧ d.stopSignal ≤ 64

theorem validateService_ok_iff (idx : Nat) (d : ServiceRecord) :
    validateService idx d = .ok () ↔ Valid idx d := by
  constructor
  · intro accepted
    unfold validateService at accepted
    split_ifs at accepted with h1 h2 h3 h4 h5 h6 h7 h8 h9
    exact {
      name := by simpa using h1
      argv := by simpa using h2
      type := by
        by_cases oneshot : d.type = typeOneshot
        · exact Or.inl oneshot
        · exact Or.inr (not_not.mp fun other => h3 ⟨oneshot, other⟩)
      mask := not_not.mp h4
      readyKind := by omega
      socket := fun kind => by simpa [kind] using h6
      command := fun kind => by simpa [kind] using h7
      onExit := by omega
      stopSignal := by omega }
  · intro valid
    unfold validateService
    rw [if_neg (by simp [valid.name]), if_neg (by simp [valid.argv]),
      if_neg (fun ⟨other, another⟩ => valid.type.elim other another),
      if_neg (by simp [valid.mask]),
      if_neg (by have := valid.readyKind; omega),
      if_neg (fun ⟨kind, bad⟩ => by simp [valid.socket kind] at bad),
      if_neg (fun ⟨kind, bad⟩ => by simp [valid.command kind] at bad),
      if_neg (by have := valid.onExit; omega),
      if_neg (by have := valid.stopSignal; omega)]

theorem Valid.lt_of_testBit
    {idx dep : Nat} {d : ServiceRecord}
    (valid : Valid idx d) (bit : d.afterMask.testBit dep = true) :
    dep < idx := by
  by_contra notLess
  have shifted : (d.afterMask >>> idx).testBit (dep - idx) = true := by
    rw [Nat.testBit_shiftRight]
    have equal : idx + (dep - idx) = dep := by omega
    rw [equal]
    exact bit
  rw [valid.mask] at shifted
  simp at shifted

end Cix.Init
