import Cix.Init.Wire
import Cix.Json.Value

/-!
# Argument vectors on the wire

`pack_argv` and `pack_cstr_argv` of `daemon/src/cixinit_table.c` pack a list
of arguments into a `char` array; `argv_count` and `argv_unpack` of cix-init
read it.  A zero byte ends an argument and an empty argument ends the list,
so what comes back is the list up to its first empty argument.
-/

namespace Cix.Init

open Cix.Lib Cix.Json Option
open List hiding asString

/-- The refusals of `parse_one` and of the functions it calls; `message` gives
the text of each. -/
inductive ServiceError where
  | notAnObject
  | badName
  | badType (service : CStr)
  | argvShape (service : CStr) (what : String)
  | argvStrings (service : CStr) (what : String)
  | argvProgram (service : CStr) (what : String)
  | argvLong (service : CStr) (what : String) (bytes : Nat)
  | badAfter (service : CStr)
  | afterItself (service : CStr)
  | readyShape (service : CStr)
  | readyKinds (service : CStr)
  | readySocket (service : CStr)
  | badOnExit (service : CStr)
  | oneshotRestarts (service : CStr)
  | badStopSignal (service : CStr)
  | notANumber (service : CStr) (key : String)
  | outOfRange (service : CStr) (key : String) (lo hi : Int)
  deriving DecidableEq

/-- `service '%s': ` and what follows it. -/
def aboutService (service : CStr) (text : List UInt8) : List UInt8 :=
  ascii "service '" ++ service.bytes ++ ascii "': " ++ text

def ServiceError.message : ServiceError → List UInt8
  | .notAnObject => ascii "each service must be an object"
  | .badName => ascii
      "each service needs a name of 1 to 31 characters from letters, digits, - and _"
  | .badType service => aboutService service
      (ascii "type must be \"daemon\" or \"oneshot\"")
  | .argvShape service what => aboutService service
      (ascii what ++ ascii " must be an array of 1 to 32 strings")
  | .argvStrings service what => aboutService service
      (ascii what ++ ascii " must be an array of strings")
  | .argvProgram service what => aboutService service
      (ascii what ++ ascii "[0] must name a program")
  | .argvLong service what bytes => aboutService service
      (ascii what ++ ascii " is longer than " ++ ascii (toString bytes) ++ ascii " bytes packed")
  | .badAfter service => aboutService service
      (ascii "after must be an array of service names")
  | .afterItself service =>
    ascii "service '" ++ service.bytes ++ ascii "' cannot be after itself"
  | .readyShape service => aboutService service
      (ascii "ready must be an object")
  | .readyKinds service => aboutService service
      (ascii "ready needs exactly one of tcp_port, socket or command")
  | .readySocket service => aboutService service
      (ascii "ready.socket must be an absolute path under 256 bytes")
  | .badOnExit service => aboutService service
      (ascii "on_exit must be \"restart\", \"stop\" or \"fail-container\"")
  | .oneshotRestarts service => aboutService service
      (ascii "a oneshot runs to completion and cannot restart")
  | .badStopSignal service => aboutService service
      (ascii "stop_signal must be one of SIGTERM, SIGINT, SIGHUP, SIGQUIT, SIGUSR1, SIGUSR2, SIGKILL")
  | .notANumber service key => aboutService service
      (ascii key ++ ascii " must be a number")
  | .outOfRange service key lo hi => aboutService service
      (ascii key ++ ascii " must be " ++ ascii (toString lo) ++ ascii "-" ++ ascii (toString hi))

/-- The loop of `pack_argv`; `packed` is what it has written so far. -/
def packItems (size : Nat) (what : String) (svc : CStr) :
    (first : Bool) → (packed : List UInt8) → List Value → Except ServiceError (List UInt8)
  | _, packed, [] => .ok packed
  | first, packed, item :: rest =>
    match asString (some item) with
    | none => .error (.argvStrings svc what)
    | some s =>
      if first ∧ s.length = 0 then .error (.argvProgram svc what)
      else if packed.length + (s.length + 1) + 1 > size then
        .error (.argvLong svc what (size - 1))
      else packItems size what svc false (packed ++ (s.bytes ++ [0])) rest

def packArgv (jarr : Option Value) (size : Nat) (what : String)
    (svc : CStr) : Except ServiceError (Buffer size) :=
  match asArray jarr with
  | none => .error (.argvShape svc what)
  | some items =>
    if items.length < 1 ∨ items.length > argcMax then
      .error (.argvShape svc what)
    else
      match packItems size what svc true [] items with
      | .error e => .error e
      | .ok packed => .ok (Buffer.ofPrefix size packed)

/-- The loop of `pack_cstr_argv`, after `i` arguments. -/
def packCstrItems (size : Nat) : (i : Nat) → (packed : List UInt8) → List CStr → Option (List UInt8)
  | _, packed, [] => some packed
  | i, packed, s :: rest =>
    if i ≥ argcMax ∨ packed.length + (s.length + 1) + 1 > size then none
    else packCstrItems size (i + 1) (packed ++ (s.bytes ++ [0])) rest

def packCstrArgv (size : Nat) (argv : List CStr) : Option (Buffer size) :=
  match packCstrItems size 0 [] argv with
  | none => none
  | some packed => if 0 < argv.length then some (Buffer.ofPrefix size packed) else none

def packedBytes (args : List CStr) : List UInt8 :=
  args.flatMap fun s => s.bytes ++ [0]

@[simp]
theorem packedBytes_nil : packedBytes [] = [] := rfl

@[simp]
theorem packedBytes_cons (s : CStr) (rest : List CStr) :
    packedBytes (s :: rest) = s.bytes ++ 0 :: packedBytes rest := by
  simp [packedBytes]

def stringsOf (items : List Value) : List CStr :=
  items.filterMap fun item => asString (some item)

theorem packItems_ok {size : Nat} {what : String} {svc : CStr}
    {first : Bool} {packed result : List UInt8} {items : List Value}
    (room : packed.length < size)
    (accepted : packItems size what svc first packed items = .ok result) :
    result = packed ++ packedBytes (stringsOf items) ∧
      result.length < size ∧ (stringsOf items).length = items.length ∧
      (first = true → ∀ s ∈ (stringsOf items).head?, s.length ≠ 0) := by
  induction items generalizing first packed with
  | nil =>
    obtain rfl : packed = result := by simpa [packItems] using accepted
    simp [stringsOf, room]
  | cons item rest ih =>
    unfold packItems at accepted
    split at accepted
    next => exact absurd accepted (by simp)
    next s isString =>
      split at accepted
      next => exact absurd accepted (by simp)
      next named =>
        split at accepted
        next => exact absurd accepted (by simp)
        next fits =>
          have roomNext : (packed ++ (s.bytes ++ [0])).length < size := by
            simp only [CStr.length] at fits
            simp only [length_append, length_singleton]
            omega
          obtain ⟨written, bounded, count, _⟩ := ih roomNext accepted
          have strings : stringsOf (item :: rest) = s :: stringsOf rest := by
            simp [stringsOf, isString]
          refine ⟨?_, bounded, ?_, ?_⟩
          · rw [written, strings]
            simp
          · rw [strings, length_cons, length_cons, count]
          · intro isFirst other mem
            rw [strings, head?_cons, mem_some_iff] at mem
            rw [← mem]
            exact fun empty => named ⟨isFirst, empty⟩

theorem packCstrItems_some {size i : Nat} {packed result : List UInt8}
    {argv : List CStr} (room : packed.length < size)
    (inLimit : i ≤ argcMax)
    (accepted : packCstrItems size i packed argv = some result) :
    result = packed ++ packedBytes argv ∧ result.length < size ∧ i + argv.length ≤ argcMax := by
  induction argv generalizing i packed with
  | nil =>
    obtain rfl : packed = result := by simpa [packCstrItems] using accepted
    simp [room, inLimit]
  | cons s rest ih =>
    unfold packCstrItems at accepted
    split at accepted
    next => exact absurd accepted (by simp)
    next fits =>
      have roomNext : (packed ++ (s.bytes ++ [0])).length < size := by
        simp only [CStr.length] at fits
        simp only [length_append, length_singleton]
        omega
      obtain ⟨written, bounded, count⟩ := ih roomNext (by omega) accepted
      refine ⟨?_, bounded, ?_⟩
      · rw [written]
        simp
      · rw [length_cons]
        omega

theorem ofPrefix_packed {size : Nat} {packed : List UInt8} (room : packed.length < size) :
    ∃ rest, (Buffer.ofPrefix size packed).bytes = packed ++ 0 :: rest := by
  refine ⟨List.replicate (size - packed.length - 1) 0, ?_⟩
  rw [Buffer.ofPrefix_bytes (Nat.le_of_lt room)]
  have positive : size - packed.length = size - packed.length - 1 + 1 := by omega
  rw [positive, replicate_succ, Nat.add_sub_cancel]

def beforeEmpty (args : List CStr) : List CStr :=
  args.takeWhile fun s => decide (s.length ≠ 0)

theorem beforeEmpty_eq_self_iff (args : List CStr) :
    beforeEmpty args = args ↔ ∀ s ∈ args, s.length ≠ 0 := by
  rw [beforeEmpty, takeWhile_eq_self_iff]
  simp

theorem argvCountFrom_bytes {bytes : List UInt8} (nulFree : 0 ∉ bytes)
    (rest : List UInt8) (argc : Nat) (inside : Bool)
    (nonempty : inside = true ∨ bytes ≠ []) (limit : argc < argcMax) :
    argvCountFrom (bytes ++ 0 :: rest) argc inside = argvCountFrom rest (argc + 1) false := by
  induction bytes generalizing inside with
  | nil =>
    have isInside : inside = true := by simpa using nonempty
    have inLimit : ¬ argcMax < argc + 1 := by omega
    simp [argvCountFrom, isInside, inLimit]
  | cons byte bytes ih =>
    have nonzero : byte ≠ 0 := fun zero =>
      nulFree (by rw [zero]; exact mem_cons_self)
    have tail := ih (fun mem => nulFree (mem_cons_of_mem _ mem)) true (Or.inl rfl)
    simpa [argvCountFrom, nonzero] using tail

theorem argvCountFrom_packed (args : List CStr) (rest : List UInt8)
    (argc : Nat) (limit : argc + args.length ≤ argcMax) :
    argvCountFrom (packedBytes args ++ 0 :: rest) argc false =
      some (argc + (beforeEmpty args).length) := by
  induction args generalizing argc with
  | nil => simp [argvCountFrom, beforeEmpty]
  | cons s args ih =>
    rw [length_cons] at limit
    rw [packedBytes_cons, append_assoc, cons_append]
    by_cases empty : s.length = 0
    · have bytes : s.bytes = [] := length_eq_zero_iff.mp empty
      simp [argvCountFrom, bytes, beforeEmpty, empty]
    · have nonempty : s.bytes ≠ [] := fun none =>
        empty (length_eq_zero_iff.mpr none)
      rw [argvCountFrom_bytes s.nulFree _ argc false (Or.inr nonempty)
          (by omega), ih (argc + 1) (by omega)]
      simp only [beforeEmpty, ne_eq, empty, not_false_eq_true,
        decide_true, takeWhile_cons_of_pos, length_cons]
      congr 1
      omega

theorem argvUnpack_packed (args : List CStr) (rest : List UInt8)
    (slots : Nat) (room : args.length ≤ slots) :
    argvUnpack slots (packedBytes args ++ 0 :: rest) = (beforeEmpty args).map CStr.bytes := by
  induction args generalizing slots with
  | nil => cases slots <;> simp [argvUnpack, beforeEmpty]
  | cons s args ih =>
    obtain ⟨slots, rfl⟩ : ∃ fewer, slots = fewer + 1 :=
      ⟨slots - 1, by rw [length_cons] at room; omega⟩
    rw [length_cons] at room
    rw [packedBytes_cons, append_assoc, cons_append]
    have content := cstrAt_append_zero s (packedBytes args ++ 0 :: rest)
    have following := afterNul_append_zero s (packedBytes args ++ 0 :: rest)
    by_cases empty : s.length = 0
    · have bytes : s.bytes = [] := length_eq_zero_iff.mp empty
      simp [argvUnpack, bytes, beforeEmpty, empty]
    · obtain ⟨byte, tail, bytes⟩ : ∃ byte tail, s.bytes = byte :: tail :=
        exists_cons_of_ne_nil (fun none => empty (length_eq_zero_iff.mpr none))
      have nonzero : byte ≠ 0 :=
        CStr.ne_zero_of_mem (s := s) (by rw [bytes]; exact
          mem_cons_self)
      rw [bytes, cons_append] at content following ⊢
      rw [argvUnpack, if_neg nonzero, content, following, ih slots (by omega)]
      simp [beforeEmpty, empty, bytes]

/-- cix-init reads `args` back from the array: the same count and the same
arguments in the same order. -/
def ReadsBack (bytes : List UInt8) (args : List CStr) : Prop :=
  argvCount bytes = some args.length ∧ argvUnpack argcMax bytes = args.map CStr.bytes

theorem readsBack_iff {size : Nat} {args : List CStr} (room : (packedBytes args).length < size)
    (limit : args.length ≤ argcMax) :
    ReadsBack (Buffer.ofPrefix size (packedBytes args)).bytes args ↔ ∀ s ∈ args, s.length ≠ 0 := by
  obtain ⟨rest, bytes⟩ := ofPrefix_packed room
  rw [ReadsBack, bytes, argvCount, argvCountFrom_packed args rest 0 (by omega),
    argvUnpack_packed args rest argcMax limit, Nat.zero_add,
    ← beforeEmpty_eq_self_iff]
  constructor
  · rintro ⟨count, _⟩
    exact (List.takeWhile_prefix _).eq_of_length (some.inj count)
  · intro equal
    rw [equal]
    exact ⟨rfl, rfl⟩

theorem packArgv_ok {jarr : Option Value} {size : Nat} {what : String}
    {svc : CStr} {buffer : Buffer size}
    (accepted : packArgv jarr size what svc = .ok buffer) :
    ∃ items, jarr = some (.array items) ∧ (stringsOf items).length = items.length ∧
      1 ≤ items.length ∧ items.length ≤ argcMax ∧
      (packedBytes (stringsOf items)).length < size ∧
      buffer = Buffer.ofPrefix size (packedBytes (stringsOf items)) ∧
      ∀ s ∈ (stringsOf items).head?, s.length ≠ 0 := by
  unfold packArgv at accepted
  split at accepted
  next => exact absurd accepted (by simp)
  next items isArray =>
    have shape : jarr = some (.array items) := by
      unfold asArray at isArray
      split at isArray
      · rw [some.inj isArray]
      · exact absurd isArray (by simp)
    split at accepted
    next => exact absurd accepted (by simp)
    next bounded =>
      split at accepted
      next => exact absurd accepted (by simp)
      next packed packedEq =>
        have room : 0 < size := by
          by_contra zero
          obtain ⟨item, rest, rfl⟩ := exists_cons_of_length_pos (l := items) (by omega)
          unfold packItems at packedEq
          split at packedEq
          next => exact absurd packedEq (by simp)
          next =>
            split at packedEq
            next => exact absurd packedEq (by simp)
            next =>
              rw [if_pos (by omega)] at packedEq
              exact absurd packedEq (by simp)
        obtain ⟨written, short, count, program⟩ := packItems_ok (by simpa using room) packedEq
        rw [nil_append] at written
        rw [written] at short accepted
        exact ⟨items, shape, count, by omega, by omega, short,
          (Except.ok.inj accepted).symm, program rfl⟩

/-- What `pack_argv` accepts, and what `pack_cstr_argv` accepts, comes back
from the array exactly when it has no empty argument. -/
theorem packed_argv_reads_back_iff (size : Nat) : (∀ items what svc (buffer : Buffer size),
      packArgv (some (.array items)) size what svc = .ok buffer →
      (stringsOf items).length = items.length ∧ (ReadsBack buffer.bytes (stringsOf items) ↔
          ∀ s ∈ stringsOf items, s.length ≠ 0)) ∧
    ∀ argv (buffer : Buffer size), packCstrArgv size argv = some buffer →
      (ReadsBack buffer.bytes argv ↔ ∀ s ∈ argv, s.length ≠ 0) := by
  constructor
  · intro items what svc buffer accepted
    obtain ⟨same, equal, count, _, limit, room, written, _⟩ := packArgv_ok accepted
    obtain rfl : items = same := by simpa using equal
    rw [written]
    exact ⟨count, readsBack_iff room (by omega)⟩
  · intro argv buffer accepted
    unfold packCstrArgv at accepted
    split at accepted
    next => exact absurd accepted (by simp)
    next packed packedEq =>
      split at accepted
      next nonempty =>
        have room : 0 < size := by
          by_contra zero
          obtain ⟨s, rest, rfl⟩ := exists_cons_of_length_pos nonempty
          unfold packCstrItems at packedEq
          rw [if_pos (by omega)] at packedEq
          exact absurd packedEq (by simp)
        obtain ⟨written, short, limit⟩ :=
          packCstrItems_some (by simpa using room) (by decide) packedEq
        rw [nil_append] at written
        rw [written] at short accepted
        rw [← some.inj accepted]
        exact readsBack_iff short (by omega)
      next => exact absurd accepted (by simp)

/-- `["a", "", "b"]` is packed into the 1024 bytes of a record, and cix-init
reads one argument. -/
theorem empty_argument_cuts_argv : ∃ buffer : Buffer argvMax, packArgv (some (.array [.string "a",
          .string CStr.empty, .string "b"])) argvMax "cmd"
          "service" = .ok buffer ∧
        argvCount buffer.bytes = some 1 ∧
        argvUnpack argcMax buffer.bytes = [[97]] ∧
        ¬ ReadsBack buffer.bytes ["a", CStr.empty, "b"] := by
  refine ⟨Buffer.ofPrefix argvMax [97, 0, 0, 98, 0], by rfl,
    by decide +kernel, by decide +kernel, ?_⟩
  rintro ⟨count, _⟩
  exact absurd count (by decide +kernel)

/-- A list without an empty argument that fills its array to the last byte
comes back whole. -/
theorem full_buffer_reads_back : ∃ buffer : Buffer 6, packCstrArgv 6 ["ab", "c"] = some buffer ∧
        ReadsBack buffer.bytes ["ab", "c"] := by
  refine ⟨Buffer.ofPrefix 6 [97, 98, 0, 99, 0], by rfl, ?_⟩
  apply ((packed_argv_reads_back_iff 6).2 ["ab", "c"] _ (by rfl)).mpr
  decide

end Cix.Init
