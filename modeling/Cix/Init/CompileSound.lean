import Cix.Init.Compile

/-!
# Compiled tables are sound

What `cixinit_table_from_json` returns is a table that cix-init accepts: each
record passes `validate_service`, every service stands after those it names,
and the masks are the declared relation under the new indices.  A document is
refused for a cycle only when the declared relation has one.
-/

namespace Cix.Init

open Cix.Lib Cix.Json
open List hiding asString

/-! ## What a document declares -/

def declaredName (item : Value) : Option CStr :=
  asString (objectGet (some item) "name")

def declaredAfter (item : Value) : List CStr :=
  stringsOf ((asArray (objectGet (some item) "after")).getD [])

def DeclaresAfter (items : List Value) (a b : Nat) : Prop :=
  ∃ item other name, items[a]? = some item ∧ items[b]? = some other ∧
    declaredName other = some name ∧ name ∈ declaredAfter item

/-! ## The fields of one record -/

variable {name : CStr} {declared : Option CStr}

theorem bind_eq_ok {ε α β : Type} {x : Except ε α} {f : α → Except ε β}
    {result : β} :
    (x >>= f) = .ok result ↔ ∃ a, x = .ok a ∧ f a = .ok result := by
  cases x with
  | error e => simp [bind, Except.bind]
  | ok a => simp [bind, Except.bind]

theorem strOk_ofCStr {n : Nat} {s : CStr} (fits : s.length < n)
    (nonempty : s.length ≠ 0) : strOk (Buffer.ofCStr n s).bytes = true := by
  rw [Buffer.ofCStr_bytes fits]
  have found : (s.bytes ++ 0 :: List.replicate (n - s.length - 1)
      (0 : UInt8)).findIdx? (· = 0) = some s.length := by
    rw [findIdx?_append]
    have none : s.bytes.findIdx? (· = 0) = none := by
      rw [findIdx?_eq_none_iff]
      intro byte mem
      simpa using CStr.ne_zero_of_mem mem
    rw [none]
    simp [findIdx?_cons, CStr.length]
  unfold strOk
  rw [found]
  simp
  omega

theorem hasArgv_of_packArgv {jarr : Option Value} {size : Nat}
    {what : String} {svc : CStr} {buffer : Buffer size}
    (accepted : packArgv jarr size what svc = .ok buffer) :
    hasArgv buffer.bytes = true := by
  obtain ⟨items, _, count, some, limit, room, written, program⟩ := packArgv_ok accepted
  obtain ⟨rest, bytes⟩ := ofPrefix_packed room
  obtain ⟨first, others, strings⟩ := exists_cons_of_length_pos (l := stringsOf items) (by omega)
  have named : first.length ≠ 0 := program first (by simp [strings])
  unfold hasArgv
  rw [written, bytes, argvCount, argvCountFrom_packed _ rest 0 (by omega), strings]
  simp [beforeEmpty, named]

theorem parseType_ok {type : Int} (accepted : parseType name declared = .ok type) :
    type = typeOneshot ∨ type = typeDaemon := by
  unfold parseType at accepted
  split at accepted
  · exact Or.inr (Except.ok.inj accepted).symm
  · split_ifs at accepted
    · exact Or.inr (Except.ok.inj accepted).symm
    · exact Or.inl (Except.ok.inj accepted).symm

theorem parseAfterItems_ok {name : CStr} {items : List Value}
    {deps : List CStr} (accepted : parseAfterItems name items = .ok deps) :
    deps = stringsOf items := by
  induction items generalizing deps with
  | nil => exact (Except.ok.inj accepted).symm
  | cons item rest ih =>
    unfold parseAfterItems at accepted
    split at accepted
    next => exact absurd accepted (by simp)
    next dep isString =>
      split_ifs at accepted
      split at accepted
      next => exact absurd accepted (by simp)
      next later laterEq =>
        rw [← Except.ok.inj accepted, ih laterEq]
        simp [stringsOf, isString]

theorem parseAfter_ok {item : Value} {deps : List CStr}
    (accepted : parseAfter name (objectGet (some item) "after") =
      .ok deps) : deps = declaredAfter item := by
  unfold parseAfter at accepted
  unfold declaredAfter
  split at accepted
  next absent =>
    rw [absent, ← Except.ok.inj accepted]
    rfl
  next j present =>
    rw [present]
    split at accepted
    next => exact absurd accepted (by simp)
    next items isArray =>
      split_ifs at accepted
      rw [isArray, parseAfterItems_ok accepted]
      rfl

/-- What the checks of `parse_one` leave of a readiness probe. -/
structure ReadinessOk (kind : Int) (path : Buffer pathMax) : Prop where
  known : readyNone ≤ kind ∧ kind ≤ readyCommand
  socket : kind = readySocket → strOk path.bytes = true
  command : kind = readyCommand → hasArgv path.bytes = true

theorem parseReadySocket_ok {jsock : Option Value} {path : Buffer pathMax}
    (accepted : parseReadySocket name jsock = .ok path) :
    strOk path.bytes = true := by
  unfold parseReadySocket at accepted
  split at accepted
  next => exact absurd accepted (by simp)
  next s _ =>
    split at accepted
    next => exact absurd accepted (by simp)
    next absolute =>
      push Not at absolute
      rw [← Except.ok.inj accepted]
      apply strOk_ofCStr absolute.2
      intro empty
      have none : s.bytes = [] := length_eq_zero_iff.mp empty
      rw [none] at absolute
      exact absurd absolute.1 (by simp)

theorem parseReadyKind_ok {jready : Value} {kind port : Int}
    {path : Buffer pathMax}
    (accepted : parseReadyKind name jready = .ok (kind, port, path)) :
    ReadinessOk kind path := by
  unfold parseReadyKind at accepted
  dsimp only at accepted
  split at accepted
  next => exact absurd accepted (by simp)
  next =>
    split at accepted
    next =>
      split at accepted
      next => exact absurd accepted (by simp)
      next =>
        simp only [Except.ok.injEq, Prod.mk.injEq] at accepted
        obtain ⟨rfl, _, rfl⟩ := accepted
        exact ⟨by decide, fun other => absurd other (by decide),
          fun other => absurd other (by decide)⟩
    next =>
      split at accepted
      next =>
        split at accepted
        next => exact absurd accepted (by simp)
        next socketPath pathEq =>
          simp only [Except.ok.injEq, Prod.mk.injEq] at accepted
          obtain ⟨rfl, _, rfl⟩ := accepted
          exact ⟨by decide, fun _ => parseReadySocket_ok pathEq,
            fun other => absurd other (by decide)⟩
      next =>
        split at accepted
        next => exact absurd accepted (by simp)
        next commandPath pathEq =>
          simp only [Except.ok.injEq, Prod.mk.injEq] at accepted
          obtain ⟨rfl, _, rfl⟩ := accepted
          exact ⟨by decide, fun other => absurd other (by decide),
            fun _ => hasArgv_of_packArgv pathEq⟩

theorem parseReady_ok {jready : Option Value} {ready : Readiness}
    (accepted : parseReady name jready = .ok ready) :
    ReadinessOk ready.kind ready.path := by
  unfold parseReady at accepted
  split at accepted
  next =>
    rw [← Except.ok.inj accepted]
    exact ⟨by decide, fun other => absurd other (by decide),
      fun other => absurd other (by decide)⟩
  next =>
    split at accepted
    next => exact absurd accepted (by simp)
    next kindEq =>
      split at accepted
      next => exact absurd accepted (by simp)
      next =>
        rw [← Except.ok.inj accepted]
        exact parseReadyKind_ok kindEq
  next => exact absurd accepted (by simp)

theorem parseOnExit_ok {type policy : Int}
    (accepted : parseOnExit name type declared = .ok policy) :
    onExitRestart ≤ policy ∧ policy ≤ onExitFailContainer := by
  have known : ∀ {policy : Int}, parseOnExitName name type declared = .ok policy →
        onExitRestart ≤ policy ∧ policy ≤ onExitFailContainer := by
    intro policy named
    unfold parseOnExitName at named
    split at named
    · rw [← Except.ok.inj named]
      split <;> decide
    · split_ifs at named <;> rw [← Except.ok.inj named] <;> decide
  unfold parseOnExit at accepted
  split at accepted
  next => exact absurd accepted (by simp)
  next named =>
    split_ifs at accepted
    rw [← Except.ok.inj accepted]
    exact known named

theorem parseStopSignal_ok {signal : Int} (accepted : parseStopSignal name declared = .ok signal) :
    1 ≤ signal ∧ signal ≤ 64 := by
  have listed : ∀ entry ∈ signals, 1 ≤ entry.2 ∧ entry.2 ≤ 64 := by decide
  unfold parseStopSignal at accepted
  split at accepted
  next =>
    rw [← Except.ok.inj accepted]
    decide
  next s =>
    dsimp only at accepted
    split at accepted
    next => exact absurd accepted (by simp)
    next nonnegative =>
      rw [← Except.ok.inj accepted]
      unfold cixinitSignalFromName at nonnegative ⊢
      dsimp only at nonnegative ⊢
      split at nonnegative
      next entry found =>
        apply listed
        split at found
        · exact mem_of_find?_eq_some found
        · exact mem_of_find?_eq_some found
      next => exact absurd (by decide) nonnegative

/-! ## One service -/

structure WellParsed (item : Value) (p : Parsed) : Prop where
  name : declaredName item = some p.name
  after : p.after = declaredAfter item
  valid : ∀ idx mask, mask >>> idx = 0 → Valid idx { p.record with afterMask := mask }

theorem nameOk_some (ok : nameOk (some name) = true) : name.length ≠ 0 ∧ name.length < nameMax := by
  simp only [nameOk, Bool.and_eq_true, decide_eq_true_eq] at ok
  exact ok.1

theorem parseNamed_ok {item : Value} {p : Parsed} (named : nameOk (some name) = true)
    (declared : declaredName item = some name)
    (accepted : parseNamed (some item) name = .ok p) : WellParsed item p := by
  obtain ⟨nonempty, fits⟩ := nameOk_some named
  unfold parseNamed at accepted
  simp only [bind_eq_ok] at accepted
  obtain ⟨type, typeEq, argv, argvEq, after, afterEq, ready, readyEq,
    onExit, onExitEq, _, _, stopSignal, stopEq, _, _, _, _, _, _, rest⟩ :=
    accepted
  rw [← Except.ok.inj rest]
  have readiness := parseReady_ok readyEq
  refine ⟨?_, parseAfter_ok afterEq, ?_⟩
  · rw [declared]
    exact congrArg some (Buffer.cstr_ofCStr fits).symm
  · intro idx mask shifted
    exact {
      name := strOk_ofCStr fits nonempty
      argv := hasArgv_of_packArgv argvEq
      type := parseType_ok typeEq
      mask := shifted
      readyKind := readiness.known
      socket := readiness.socket
      command := readiness.command
      onExit := parseOnExit_ok onExitEq
      stopSignal := parseStopSignal_ok stopEq }

theorem parseOne_ok {item : Value} {p : Parsed}
    (accepted : parseOne item = .ok p) : WellParsed item p := by
  unfold parseOne at accepted
  split at accepted
  next members =>
    split at accepted
    next => exact absurd accepted (by simp)
    next name declared =>
      split at accepted
      next named => exact parseNamed_ok named declared accepted
      next => exact absurd accepted (by simp)
  next => exact absurd accepted (by simp)

/-! ## The services of a document -/

theorem forall₂_getElem? {α β : Type} {relation : α → β → Prop}
    {left : List α} {right : List β}
    (related : List.Forall₂ relation left right) {i : Nat} {b : β}
    (found : right[i]? = some b) :
    ∃ a, left[i]? = some a ∧ relation a b := by
  induction related generalizing i with
  | nil => exact absurd found (by simp)
  | @cons a head left right first _ ih =>
    cases i with
    | zero =>
      obtain rfl : head = b := by simpa using found
      exact ⟨a, by simp, first⟩
    | succ i =>
      rw [getElem?_cons_succ] at found
      obtain ⟨a', foundLeft, holds⟩ := ih found
      exact ⟨a', by rw [getElem?_cons_succ]; exact foundLeft, holds⟩

theorem parseServices_ok {done parsed : List Parsed} {items : List Value}
    (nodup : (done.map Parsed.name).Nodup)
    (accepted : parseServices done items = .ok parsed) :
    ∃ new, parsed = done ++ new ∧ List.Forall₂ (fun item p => parseOne item = .ok p) items new ∧
      (parsed.map Parsed.name).Nodup := by
  induction items generalizing done with
  | nil =>
    obtain rfl : done = parsed := Except.ok.inj accepted
    exact ⟨[], by simp, List.Forall₂.nil, nodup⟩
  | cons item rest ih =>
    unfold parseServices at accepted
    split at accepted
    next => exact absurd accepted (by simp)
    next p parsedEq =>
      split at accepted
      next => exact absurd accepted (by simp)
      next fresh =>
        have nodupNext : ((done ++ [p]).map Parsed.name).Nodup := by
          rw [map_append, nodup_append]
          refine ⟨nodup, by simp, ?_⟩
          intro name mem other last
          obtain ⟨q, known, rfl⟩ := mem_map.mp mem
          obtain rfl : other = p.name := by simpa using last
          intro same
          exact fresh (any_eq_true.mpr ⟨q, known, by simpa using same⟩)
        obtain ⟨new, whole, related, unique⟩ := ih nodupNext accepted
        exact ⟨p :: new, by simp [whole],
          List.Forall₂.cons parsedEq related, unique⟩

theorem parseServices_ne_cycle {done : List Parsed} {items : List Value}
    {name : CStr} :
    parseServices done items ≠ .error (.cycle name) := by
  induction items generalizing done with
  | nil => simp [parseServices]
  | cons item rest ih =>
    unfold parseServices
    split
    · simp
    · split
      · simp
      · exact ih

/-! ## Names resolved to indices -/

theorem findDeclared_snoc (parsed : List Parsed) (p : Parsed) (name : CStr) :
    findDeclared (parsed ++ [p]) name =
      if p.name = name then some parsed.length
      else findDeclared parsed name := by
  simp [findDeclared, zipIdx_append]

theorem findDeclared_some {parsed : List Parsed} {name : CStr} {k : Nat}
    (found : findDeclared parsed name = some k) :
    ∃ p, parsed[k]? = some p ∧ p.name = name := by
  induction parsed using List.reverseRecOn with
  | nil => exact absurd found (by simp [findDeclared])
  | append_singleton parsed last ih =>
    rw [findDeclared_snoc] at found
    split at found
    next same =>
      obtain rfl : parsed.length = k := Option.some.inj found
      exact ⟨last, by simp, same⟩
    next =>
      obtain ⟨p, present, named⟩ := ih found
      have inList : k < parsed.length := by
        by_contra outside
        rw [getElem?_eq_none (by omega)] at present
        exact absurd present (by simp)
      exact ⟨p, by rw [getElem?_append_left inList]; exact present,
        named⟩

theorem findDeclared_isSome {parsed : List Parsed} {p : Parsed}
    (mem : p ∈ parsed) : (findDeclared parsed p.name).isSome = true := by
  induction parsed using List.reverseRecOn with
  | nil => exact absurd mem (by simp)
  | append_singleton parsed last ih =>
    rw [findDeclared_snoc]
    split
    next => rfl
    next different =>
      rcases mem_append.mp mem with earlier | isLast
      · exact ih earlier
      · rw [mem_singleton.mp isLast] at different
        exact absurd rfl different

theorem findDeclared_eq_some_iff {parsed : List Parsed}
    (unique : (parsed.map Parsed.name).Nodup) (name : CStr) (k : Nat) :
    findDeclared parsed name = some k ↔ ∃ p, parsed[k]? = some p ∧ p.name = name := by
  constructor
  · exact findDeclared_some
  · rintro ⟨p, present, rfl⟩
    have declared := findDeclared_isSome (mem_of_getElem? present)
    obtain ⟨other, found⟩ := Option.isSome_iff_exists.mp declared
    obtain ⟨q, presentOther, named⟩ := findDeclared_some found
    have inList : k < (parsed.map Parsed.name).length := by
      rw [length_map]
      by_contra outside
      rw [getElem?_eq_none (by omega)] at present
      exact absurd present (by simp)
    have same : k = other := by
      apply (getElem?_inj inList unique).mp
      simp [present, presentOther, named]
    rw [found, same]

theorem resolveAfter_ok {parsed : List Parsed} {service : CStr}
    {after : List CStr} {start mask : Nat}
    (accepted : resolveAfter parsed service after start = .ok mask)
    (k : Nat) :
    mask.testBit k = true ↔ start.testBit k = true ∨
      ∃ dep ∈ after, findDeclared parsed dep = some k := by
  induction after generalizing start with
  | nil =>
    obtain rfl : start = mask := Except.ok.inj accepted
    simp
  | cons dep rest ih =>
    unfold resolveAfter at accepted
    split at accepted
    next => exact absurd accepted (by simp)
    next found foundEq =>
      rw [ih accepted, Nat.testBit_or, Bool.or_eq_true,
        Nat.one_shiftLeft, Nat.testBit_two_pow, decide_eq_true_iff,
        exists_mem_cons_iff, foundEq, Option.some.injEq, or_assoc]

theorem resolveAfter_declared {parsed : List Parsed} {service : CStr}
    {after : List CStr} {start mask : Nat}
    (accepted : resolveAfter parsed service after start = .ok mask) :
    ∀ dep ∈ after, ∃ k, findDeclared parsed dep = some k := by
  induction after generalizing start with
  | nil => simp
  | cons first rest ih =>
    unfold resolveAfter at accepted
    split at accepted
    next => exact absurd accepted (by simp)
    next found foundEq =>
      intro dep mem
      rcases mem_cons.mp mem with rfl | later
      · exact ⟨found, foundEq⟩
      · exact ih accepted dep later

theorem resolveAfter_ne_cycle {parsed : List Parsed} {service name : CStr}
    {after : List CStr} {start : Nat} :
    resolveAfter parsed service after start ≠ .error (.cycle name) := by
  induction after generalizing start with
  | nil => simp [resolveAfter]
  | cons dep rest ih =>
    unfold resolveAfter
    split
    · simp
    · exact ih

theorem resolveAll_ok {parsed rest : List Parsed} {masks : List Nat}
    (accepted : resolveAll parsed rest = .ok masks) :
    List.Forall₂ (fun p mask => ∀ k, mask.testBit k = true ↔
      ∃ dep ∈ p.after, findDeclared parsed dep = some k) rest masks := by
  induction rest generalizing masks with
  | nil =>
    obtain rfl : [] = masks := Except.ok.inj accepted
    exact List.Forall₂.nil
  | cons p rest ih =>
    unfold resolveAll at accepted
    split at accepted
    next => exact absurd accepted (by simp)
    next mask maskEq =>
      split at accepted
      next => exact absurd accepted (by simp)
      next later laterEq =>
        rw [← Except.ok.inj accepted]
        refine List.Forall₂.cons (fun k => ?_) (ih laterEq)
        rw [resolveAfter_ok maskEq]
        simp

theorem resolveAll_declared {parsed rest : List Parsed}
    {masks : List Nat} (accepted : resolveAll parsed rest = .ok masks) :
    ∀ p ∈ rest, ∀ dep ∈ p.after, ∃ k, findDeclared parsed dep = some k := by
  induction rest generalizing masks with
  | nil => simp
  | cons first rest ih =>
    unfold resolveAll at accepted
    split at accepted
    next => exact absurd accepted (by simp)
    next mask maskEq =>
      split at accepted
      next => exact absurd accepted (by simp)
      next later laterEq =>
        intro p mem
        rcases mem_cons.mp mem with rfl | inRest
        · exact resolveAfter_declared maskEq
        · exact ih laterEq p inRest

theorem resolveAll_ne_cycle {parsed rest : List Parsed} {name : CStr} :
    resolveAll parsed rest ≠ .error (.cycle name) := by
  induction rest with
  | nil => simp [resolveAll]
  | cons p rest ih =>
    unfold resolveAll
    split
    next e failed =>
      intro same
      rw [Except.error.inj same] at failed
      exact resolveAfter_ne_cycle failed
    next =>
      split
      next e failed =>
        intro same
        rw [Except.error.inj same] at failed
        exact ih failed
      next => simp

/-! ## Masks -/

theorem foldl_setBit_testBit (chosen : Nat → Bool) (target : Nat → Nat) (n j : Nat) :
    ((List.range n).foldl (fun mask k =>
        if chosen k then mask ||| 1 <<< target k else mask) 0).testBit j = true ↔
      ∃ k < n, chosen k = true ∧ target k = j := by
  induction n with
  | zero => simp
  | succ n ih =>
    rw [range_succ, List.foldl_append, foldl_cons, foldl_nil]
    constructor
    · intro bit
      split at bit
      next isChosen =>
        rw [Nat.testBit_or, Bool.or_eq_true, Nat.one_shiftLeft,
          Nat.testBit_two_pow, decide_eq_true_iff] at bit
        rcases bit with before | here
        · obtain ⟨k, smaller, holds⟩ := ih.mp before
          exact ⟨k, Nat.lt_succ_of_lt smaller, holds⟩
        · exact ⟨n, Nat.lt_succ_self n, isChosen, here⟩
      next =>
        obtain ⟨k, smaller, holds⟩ := ih.mp bit
        exact ⟨k, Nat.lt_succ_of_lt smaller, holds⟩
    · rintro ⟨k, smaller, isChosen, here⟩
      by_cases last : k = n
      · rw [last] at isChosen here
        rw [if_pos isChosen, Nat.testBit_or, Bool.or_eq_true,
          Nat.one_shiftLeft, Nat.testBit_two_pow, decide_eq_true_iff]
        exact Or.inr here
      · have before := ih.mpr ⟨k, by omega, isChosen, here⟩
        split
        · rw [Nat.testBit_or, before, Bool.true_or]
        · exact before

theorem placedMask_testBit (n : Nat) (order : List Nat) (k : Nat) :
    (placedMask n order).testBit k = true ↔ k < n ∧ k ∈ order := by
  rw [placedMask, foldl_setBit_testBit (fun k => order.contains k) (fun k => k)]
  constructor
  · rintro ⟨i, inRange, mem, rfl⟩
    exact ⟨inRange, by simpa using mem⟩
  · rintro ⟨inRange, mem⟩
    exact ⟨k, inRange, by simpa using mem, rfl⟩

theorem tableMask_testBit (n : Nat) (deps order : List Nat) (body j : Nat) :
    (tableMask n deps order body).testBit j = true ↔
      ∃ k < n, (deps.getD body 0).testBit k = true ∧ order.idxOf k = j := by
  rw [tableMask]
  exact foldl_setBit_testBit (fun k => (deps.getD body 0).testBit k) (fun k => order.idxOf k) n j

theorem depsPlaced_iff {n : Nat} {deps : List Nat} (small : n ≤ 32)
    (inRange : ∀ i k, (deps.getD i 0).testBit k = true → k < n)
    (order : List Nat) (i : Nat) :
    depsPlaced n deps order i = true ↔ ∀ k, (deps.getD i 0).testBit k = true → k ∈ order := by
  have complement : ∀ k, ((placedMask n order) ^^^ 0xffffffff).testBit k =
      ((placedMask n order).testBit k ^^ decide (k < 32)) := by
    intro k
    rw [Nat.testBit_xor, show (0xffffffff : Nat) = 2 ^ 32 - 1 from rfl, Nat.testBit_two_pow_sub_one]
  rw [depsPlaced, decide_eq_true_iff]
  constructor
  · intro none k bit
    have clear : ((deps.getD i 0) &&& (placedMask n order ^^^ 0xffffffff)).testBit k = false := by
      rw [none, Nat.zero_testBit]
    rw [Nat.testBit_and, bit, complement, Bool.true_and] at clear
    have bound := inRange i k bit
    have placed : (placedMask n order).testBit k = true := by
      simpa [show k < 32 by omega] using clear
    exact ((placedMask_testBit n order k).mp placed).2
  · intro placed
    apply Nat.eq_of_testBit_eq
    intro k
    rw [Nat.testBit_and, complement, Nat.zero_testBit]
    cases bit : (deps.getD i 0).testBit k with
    | false => rfl
    | true =>
      have bound := inRange i k bit
      have mem := (placedMask_testBit n order k).mpr ⟨bound, placed k bit⟩
      simp [mem, show k < 32 by omega]

/-! ## The relation behind the masks -/

/-- The parsed services, with the masks that `after` resolves to. -/
structure Resolved (parsed : List Parsed) (deps : List Nat) : Prop where
  small : parsed.length ≤ maxServices
  unique : (parsed.map Parsed.name).Nodup
  masks : resolveAll parsed parsed = .ok deps

namespace Resolved

variable {parsed : List Parsed} {deps : List Nat}

theorem testBit_iff (resolved : Resolved parsed deps) (i k : Nat) :
    (deps.getD i 0).testBit k = true ↔ ∃ p q, parsed[i]? = some p ∧ parsed[k]? = some q ∧
        q.name ∈ p.after := by
  have related := resolveAll_ok resolved.masks
  rw [getD_eq_getElem?_getD]
  cases found : deps[i]? with
  | none =>
    have outside : parsed.length ≤ i := by
      rw [related.length_eq]
      exact List.getElem?_eq_none_iff.mp found
    constructor
    · intro bit
      exact absurd bit (by simp)
    · rintro ⟨p, q, present, _⟩
      rw [getElem?_eq_none outside] at present
      exact absurd present (by simp)
  | some mask =>
    obtain ⟨p, present, bits⟩ := forall₂_getElem? related found
    rw [Option.getD_some, bits k]
    constructor
    · rintro ⟨dep, mem, declared⟩
      obtain ⟨q, presentOther, named⟩ := findDeclared_some declared
      exact ⟨p, q, present, presentOther, by rw [named]; exact mem⟩
    · rintro ⟨p', q, presentSame, presentOther, mem⟩
      obtain rfl : p = p' := by
        rw [present] at presentSame
        exact Option.some.inj presentSame
      exact ⟨q.name, mem, (findDeclared_eq_some_iff resolved.unique
        q.name k).mpr ⟨q, presentOther, rfl⟩⟩

theorem lt_of_testBit (resolved : Resolved parsed deps) {i k : Nat}
    (bit : (deps.getD i 0).testBit k = true) : k < parsed.length := by
  obtain ⟨_, q, _, present, _⟩ := (resolved.testBit_iff i k).mp bit
  by_contra outside
  rw [getElem?_eq_none (by omega)] at present
  exact absurd present (by simp)

theorem depsPlaced_iff (resolved : Resolved parsed deps) (order : List Nat) (i : Nat) :
    depsPlaced parsed.length deps order i = true ↔
      ∀ k, (deps.getD i 0).testBit k = true → k ∈ order := by
  apply Init.depsPlaced_iff
  · have := resolved.small
    unfold maxServices at this
    omega
  · intro i k bit
    exact resolved.lt_of_testBit bit

end Resolved

/-! ## The placed table -/

variable {items : List Value}

/-- What the table says about the service at index `i`, which the document
declares as its service number `body`. -/
structure SoundAt (items : List Value) (t : CompiledTable) (i body : Nat)
    (item : Value) (record : ServiceRecord) : Prop where
  declared : items[body]? = some item
  placed : t.services[i]? = some record
  parsed : ∃ p, parseOne item = .ok p ∧ record = { p.record with afterMask := record.afterMask }
  name : declaredName item = some record.name.cstr
  after : ∀ dep ∈ declaredAfter item, ∃ j < i, ∃ other,
    t.services[j]? = some other ∧ other.name.cstr = dep
  mask : ∀ j, record.afterMask.testBit j = true ↔ ∃ other, t.services[j]? = some other ∧
      other.name.cstr ∈ declaredAfter item
  valid : validateService i record = .ok ()

structure SoundTable (items : List Value) (t : CompiledTable) : Prop where
  order : t.order.Perm (List.range items.length)
  count : t.services.length = items.length
  nonempty : 1 ≤ items.length
  bounded : items.length ≤ maxServices
  sound : ∀ i body, t.order[i]? = some body → ∃ item record, SoundAt items t i body item record

theorem placeRecords_getElem? {parsed : List Parsed} {deps order : List Nat}
    {i body : Nat} {p : Parsed} (placed : order[i]? = some body)
    (present : parsed[body]? = some p) :
    (placeRecords parsed deps order)[i]? = some { p.record with
        afterMask := tableMask parsed.length deps order body } := by
  simp [placeRecords, placed, present]

theorem mem_take_iff_idxOf_lt {order : List Nat} (nodup : order.Nodup)
    {k i : Nat} (mem : k ∈ order) :
    k ∈ order.take i ↔ order.idxOf k < i := by
  constructor
  · intro early
    obtain ⟨j, inTake, equal⟩ := getElem_of_mem early
    rw [length_take] at inTake
    have found : order[j]? = order[order.idxOf k]? := by
      rw [getElem?_idxOf mem, ← equal, getElem_take, getElem?_eq_getElem]
    have same := (getElem?_inj (by omega) nodup).mp found
    omega
  · intro early
    have inList : order.idxOf k < order.length := idxOf_lt_length_iff.mpr mem
    rw [mem_take_iff_getElem]
    exact ⟨order.idxOf k, by omega, getElem_idxOf inList⟩

theorem lt_length_of_getElem? {α : Type} {list : List α} {i : Nat} {a : α}
    (found : list[i]? = some a) : i < list.length := by
  by_contra outside
  rw [getElem?_eq_none (by omega)] at found
  exact absurd found (by simp)

section Placement

variable {parsed : List Parsed} {deps order : List Nat} {i body : Nat}
  {p : Parsed}

theorem deps_before (resolved : Resolved parsed deps)
    (well : PlacedWell parsed.length (depsPlaced parsed.length deps) order)
    (placed : order[i]? = some body) {k : Nat}
    (bit : (deps.getD body 0).testBit k = true) : k ∈ order.take i := by
  have inOrder := lt_length_of_getElem? placed
  have split : order = order.take i ++ body :: order.drop (i + 1) := by
    have atIndex : order[i] = body := by
      rw [getElem?_eq_getElem inOrder] at placed
      exact Option.some.inj placed
    rw [← atIndex, getElem_cons_drop, take_append_drop]
  exact (resolved.depsPlaced_iff _ body).mp (well.atPlace _ _ _ split) k bit

theorem tableMask_testBit_iff (resolved : Resolved parsed deps)
    (well : PlacedWell parsed.length (depsPlaced parsed.length deps) order)
    (placed : order[i]? = some body) (present : parsed[body]? = some p)
    (j : Nat) :
    (tableMask parsed.length deps order body).testBit j = true ↔
      ∃ k q, order[j]? = some k ∧ parsed[k]? = some q ∧ q.name ∈ p.after := by
  rw [tableMask_testBit]
  constructor
  · rintro ⟨k, _, bit, index⟩
    obtain ⟨p', q, presentSame, presentOther, mem⟩ := (resolved.testBit_iff body k).mp bit
    obtain rfl : p = p' := by
      rw [present] at presentSame
      exact Option.some.inj presentSame
    refine ⟨k, q, ?_, presentOther, mem⟩
    rw [← index]
    exact getElem?_idxOf (mem_of_mem_take (deps_before resolved well placed bit))
  · rintro ⟨k, q, atJ, presentOther, mem⟩
    have bit := (resolved.testBit_iff body k).mpr ⟨p, q, present, presentOther, mem⟩
    refine ⟨k, resolved.lt_of_testBit bit, bit, ?_⟩
    have inList := mem_of_getElem? atJ
    apply (getElem?_inj (idxOf_lt_length_iff.mpr inList) well.nodup).mp
    rw [getElem?_idxOf inList, atJ]

theorem tableMask_shiftRight (resolved : Resolved parsed deps)
    (well : PlacedWell parsed.length (depsPlaced parsed.length deps) order)
    (placed : order[i]? = some body) :
    tableMask parsed.length deps order body >>> i = 0 := by
  apply Nat.eq_of_testBit_eq
  intro j
  rw [Nat.testBit_shiftRight, Nat.zero_testBit]
  by_contra bit
  rw [Bool.not_eq_false] at bit
  obtain ⟨k, _, dep, index⟩ := (tableMask_testBit _ _ _ _ _).mp bit
  have early := deps_before resolved well placed dep
  have smaller := (mem_take_iff_idxOf_lt well.nodup (mem_of_mem_take early)).mp early
  omega

theorem placeRecords_name (deps : List Nat) {j k : Nat} {q : Parsed}
    (atJ : order[j]? = some k) (present : parsed[k]? = some q) :
    ∃ other, (placeRecords parsed deps order)[j]? = some other ∧ other.name.cstr = q.name := by
  rw [placeRecords_getElem? atJ present]
  exact ⟨_, rfl, rfl⟩

theorem dependency_before (resolved : Resolved parsed deps)
    (well : PlacedWell parsed.length (depsPlaced parsed.length deps) order)
    (placed : order[i]? = some body) (present : parsed[body]? = some p)
    {dep : CStr} (mem : dep ∈ p.after) :
    ∃ j < i, ∃ other, (placeRecords parsed deps order)[j]? = some other ∧
      other.name.cstr = dep := by
  obtain ⟨k, declared⟩ := resolveAll_declared resolved.masks p (mem_of_getElem? present) dep mem
  obtain ⟨q, presentOther, named⟩ := findDeclared_some declared
  have bit := (resolved.testBit_iff body k).mpr
    ⟨p, q, present, presentOther, by rw [named]; exact mem⟩
  have early := deps_before resolved well placed bit
  have inList := mem_of_mem_take early
  obtain ⟨other, found, same⟩ := placeRecords_name deps (getElem?_idxOf inList) presentOther
  exact ⟨order.idxOf k, (mem_take_iff_idxOf_lt well.nodup inList).mp early,
    other, found, same.trans named⟩

theorem mask_iff_declared (resolved : Resolved parsed deps)
    (well : PlacedWell parsed.length (depsPlaced parsed.length deps) order)
    (placed : order[i]? = some body) (present : parsed[body]? = some p)
    (j : Nat) :
    (tableMask parsed.length deps order body).testBit j = true ↔
      ∃ other, (placeRecords parsed deps order)[j]? = some other ∧ other.name.cstr ∈ p.after := by
  rw [tableMask_testBit_iff resolved well placed present]
  constructor
  · rintro ⟨k, q, atJ, presentOther, mem⟩
    obtain ⟨other, found, same⟩ := placeRecords_name deps atJ presentOther
    exact ⟨other, found, by rw [same]; exact mem⟩
  · rintro ⟨other, found, mem⟩
    have inTable : j < order.length := by
      have inRecords := lt_length_of_getElem? found
      rwa [placeRecords, length_map] at inRecords
    have atJ : order[j]? = some order[j] := getElem?_eq_getElem inTable
    have otherRange := well.inRange _ (getElem_mem inTable)
    obtain ⟨q, presentOther⟩ : ∃ q, parsed[order[j]]? = some q :=
      ⟨_, getElem?_eq_getElem otherRange⟩
    obtain ⟨same, foundSame, named⟩ := placeRecords_name deps atJ presentOther
    obtain rfl : other = same := by
      rw [found] at foundSame
      exact Option.some.inj foundSame
    exact ⟨order[j], q, atJ, presentOther, by rw [← named]; exact mem⟩

end Placement

theorem soundAt_of_placed {parsed : List Parsed} {deps order : List Nat}
    {t : CompiledTable}
    (related : List.Forall₂ (fun item p => parseOne item = .ok p)
      items parsed) (resolved : Resolved parsed deps)
    (well : PlacedWell parsed.length (depsPlaced parsed.length deps) order)
    (services : t.services = placeRecords parsed deps order) {i body : Nat}
    (placed : order[i]? = some body) :
    ∃ item record, SoundAt items t i body item record := by
  have inRange : body < parsed.length := well.inRange body (mem_of_getElem? placed)
  obtain ⟨p, present⟩ : ∃ p, parsed[body]? = some p := ⟨_, getElem?_eq_getElem inRange⟩
  obtain ⟨item, declared, accepted⟩ := forall₂_getElem? related present
  have wellParsed := parseOne_ok accepted
  have shifted := tableMask_shiftRight resolved well placed
  refine ⟨item, { p.record with
    afterMask := tableMask parsed.length deps order body }, ?_⟩
  exact {
    declared := declared
    placed := by rw [services, placeRecords_getElem? placed present]
    parsed := ⟨p, accepted, rfl⟩
    name := wellParsed.name
    after := fun dep mem => by
      rw [← wellParsed.after] at mem
      rw [services]
      exact dependency_before resolved well placed present mem
    mask := fun j => by
      rw [services, ← wellParsed.after]
      exact mask_iff_declared resolved well placed present j
    valid := (validateService_ok_iff i _).mpr (wellParsed.valid i _ shifted) }

/-! ## The compiled document -/

theorem resolved_of_parsed {parsed : List Parsed} (bounded : items.length ≤ maxServices)
    (accepted : parseServices [] items = .ok parsed) :
    List.Forall₂ (fun item p => parseOne item = .ok p) items parsed ∧
      ∀ deps, resolveAll parsed parsed = .ok deps →
        Resolved parsed deps := by
  obtain ⟨new, whole, related, unique⟩ := parseServices_ok (by simp) accepted
  rw [nil_append] at whole
  rw [← whole] at related
  exact ⟨related, fun deps masks =>
    ⟨by rw [← related.length_eq]; exact bounded, unique, masks⟩⟩

theorem compileParsed_sound {parsed : List Parsed} {addresses : List Nat}
    {interfaces : List CStr} {t : CompiledTable} (nonempty : 1 ≤ items.length)
    (bounded : items.length ≤ maxServices)
    (accepted : parseServices [] items = .ok parsed)
    (compiled : compileParsed parsed addresses interfaces = .ok t) :
    SoundTable items t := by
  obtain ⟨related, resolvedOf⟩ := resolved_of_parsed bounded accepted
  unfold compileParsed at compiled
  split at compiled
  next => exact absurd compiled (by simp)
  next deps masks =>
    have resolved := resolvedOf deps masks
    split at compiled
    next => exact absurd compiled (by simp)
    next order orderEq =>
      obtain ⟨well, length⟩ := greedy_ok PlacedWell.nil orderEq
      have full : order.length = parsed.length := by simpa using length
      split_ifs at compiled
      rw [← Except.ok.inj compiled]
      exact {
        order := by
          rw [related.length_eq]
          exact well.perm full
        count := by
          rw [related.length_eq, ← full]
          exact length_map ..
        nonempty := nonempty
        bounded := bounded
        sound := fun i body placed =>
          soundAt_of_placed related resolved well rfl placed }

theorem compileParsed_cycle {parsed : List Parsed} {addresses : List Nat}
    {interfaces : List CStr} (bounded : items.length ≤ maxServices)
    (accepted : parseServices [] items = .ok parsed)
    (refused : compileParsed parsed addresses interfaces = .error (.cycle name)) :
    ∃ a, Relation.TransGen (DeclaresAfter items) a a := by
  obtain ⟨related, resolvedOf⟩ := resolved_of_parsed bounded accepted
  unfold compileParsed at refused
  split at refused
  next e failed =>
    rw [Except.error.inj refused] at failed
    exact absurd failed resolveAll_ne_cycle
  next deps masks =>
    have resolved := resolvedOf deps masks
    split at refused
    next order orderEq =>
      obtain ⟨_, length, stuck⟩ := greedy_error PlacedWell.nil orderEq
      obtain ⟨a, closed⟩ := exists_cycle_of_stuck (fun i k => (deps.getD i 0).testBit k = true)
        resolved.depsPlaced_iff (fun i k bit => resolved.lt_of_testBit bit)
        (by simpa using length) stuck
      refine ⟨a, closed.lift (fun i => i) fun i k bit => ?_⟩
      obtain ⟨p, q, present, presentOther, mem⟩ := (resolved.testBit_iff i k).mp bit
      obtain ⟨item, declared, parsedItem⟩ := forall₂_getElem? related present
      obtain ⟨other, declaredOther, parsedOther⟩ := forall₂_getElem? related presentOther
      refine ⟨item, other, q.name, declared, declaredOther, (parseOne_ok parsedOther).name, ?_⟩
      rw [← (parseOne_ok parsedItem).after]
      exact mem
    next => split_ifs at refused <;> exact absurd refused (by simp)

/-- A services document is either refused or compiled to a sound table, and it
is refused for a cycle only when its declared relation has one. -/
theorem cixinitTableFromJson_sound (jservices : Option Value)
    (addresses : List Nat) (interfaces : List CStr) :
    (∀ t, cixinitTableFromJson jservices addresses interfaces = .ok t →
      ∃ items, jservices = some (.array items) ∧ SoundTable items t) ∧
    ∀ name, cixinitTableFromJson jservices addresses interfaces = .error (.cycle name) →
      ∃ items, jservices = some (.array items) ∧
        ∃ a, Relation.TransGen (DeclaresAfter items) a a := by
  unfold cixinitTableFromJson
  cases shape : asArray jservices with
  | none => simp
  | some items =>
    have isArray : jservices = some (.array items) := by
      unfold asArray at shape
      split at shape
      · rw [Option.some.inj shape]
      · exact absurd shape (by simp)
    dsimp only
    split
    next => simp
    next inLimits =>
      push Not at inLimits
      split
      next e failed =>
        constructor
        · intro t impossible
          exact absurd impossible (by simp)
        · intro name refused
          rw [Except.error.inj refused] at failed
          exact absurd failed parseServices_ne_cycle
      next parsed accepted =>
        constructor
        · intro t compiled
          exact ⟨items, isArray, compileParsed_sound inLimits.1 inLimits.2 accepted compiled⟩
        · intro name refused
          exact ⟨items, isArray, compileParsed_cycle inLimits.2 accepted refused⟩

def reversedDocument : Value :=
  .array [.object [("name", .string "web"), ("cmd", .array [.string "/web"]),
        ("after", .array [.string "db"])],
      .object [("name", .string "db"), ("cmd", .array [.string "/db"])]]

/-- It is accepted, and the table starts with its second service. -/
theorem reversedDocument_sound : ∃ t, cixinitTableFromJson (some reversedDocument) [] [] = .ok t ∧
      t.order = [1, 0] ∧ ∃ items, reversedDocument = .array items ∧
        SoundTable items t := by
  have accepted : ((cixinitTableFromJson (some reversedDocument) []
      []).toOption.map CompiledTable.order) = some [1, 0] := by
    decide +kernel
  cases compiled : cixinitTableFromJson (some reversedDocument) [] [] with
  | error e =>
    rw [compiled] at accepted
    exact absurd accepted (by simp [Except.toOption])
  | ok t =>
    rw [compiled] at accepted
    obtain ⟨items, same, sound⟩ :=
      (cixinitTableFromJson_sound (some reversedDocument) [] []).1 t compiled
    exact ⟨t, rfl, by simpa [Except.toOption] using accepted, items,
      Option.some.inj same, sound⟩

end Cix.Init
