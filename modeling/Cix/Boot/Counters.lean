import Cix.Boot.Entries

/-!
# A counter that is counted down

The name that `decrement_tries` writes, read again by `parse_entry_name`.  It
has two digits for each number and room for 116 characters of the id.
-/

namespace Cix.Boot

open Cix.Lib List

theorem wrapInt_of_small {value : Int} (low : 0 ≤ value)
    (high : value < 2 ^ 31) : wrapInt value = value := by
  rw [wrapInt, Int.bmod_eq_of_le (by omega) (by omega)]

theorem digitValue_digitChar {d : Int} (low : 0 ≤ d) (high : d ≤ 9) :
    digitValue (digitChar d) = some d.toNat := by
  obtain ⟨n, rfl⟩ := Int.eq_ofNat_of_zero_le low
  have small : n ≤ 9 := by omega
  interval_cases n <;> rfl

theorem digitChar_ne {d : Int} (low : 0 ≤ d) (high : d ≤ 9) :
    digitChar d ≠ 43 ∧ digitChar d ≠ 45 := by
  obtain ⟨n, rfl⟩ := Int.eq_ofNat_of_zero_le low
  have small : n ≤ 9 := by omega
  interval_cases n <;> exact ⟨by decide, by decide⟩

def lastDigits (n : Int) : List Int :=
  (if 10 ≤ n then [n / 10 % 10] else []) ++ [n % 10]

theorem digits_of_mem_lastDigits {n d : Int} (mem : d ∈ lastDigits n) : 0 ≤ d ∧ d ≤ 9 := by
  unfold lastDigits at mem
  rw [mem_append, mem_singleton] at mem
  rcases mem with first | last
  · split at first
    · rw [mem_singleton] at first
      omega
    · cases first
  · omega

theorem twoDigits_eq {n : Int} (nonneg : 0 ≤ n) : twoDigits n = (lastDigits n).map digitChar := by
  have quotient : (n.tdiv 10).tmod 10 = n / 10 % 10 := by
    rw [Int.tdiv_eq_ediv_of_nonneg nonneg, Int.tmod_eq_emod_of_nonneg (by omega)]
  have remainder : n.tmod 10 = n % 10 := Int.tmod_eq_emod_of_nonneg nonneg
  rw [twoDigits, lastDigits, quotient, remainder]
  split <;> rfl

def CounterState.current (k : CounterState) : Int :=
  if k.inDone then k.done else k.left

def CounterState.put (k : CounterState) (value : Int) : CounterState :=
  if k.inDone then { k with done := value }
  else { k with left := value, haveLeft := true }

@[simp]
theorem current_put (k : CounterState) (value : Int) : (k.put value).current = value := by
  unfold CounterState.put
  cases inDone : k.inDone <;> simp [CounterState.current]

@[simp]
theorem put_put (k : CounterState) (first second : Int) :
    (k.put first).put second = k.put second := by
  unfold CounterState.put
  cases inDone : k.inDone <;> simp

theorem read_digitChar (k : CounterState) {d : Int} (low : 0 ≤ d) (high : d ≤ 9) :
    k.read (digitChar d) = some (k.put (wrapInt (k.current * 10 + d))) := by
  have plain := (digitChar_ne low high).2
  rw [CounterState.read, if_neg (fun dash => plain dash.1), digitValue_digitChar low high]
  simp only [Int.toNat_of_nonneg low, CounterState.put, CounterState.current]
  cases k.inDone <;> rfl

theorem read_dash {k : CounterState} (haveLeft : k.haveLeft = true) (inLeft : k.inDone = false) :
    k.read 45 = some { k with inDone := true } := by
  rw [CounterState.read, if_pos ⟨rfl, haveLeft, by simp [inLeft]⟩]

theorem read_twoDigits {k : CounterState} {n : Int} (nonneg : 0 ≤ n) (fresh : k.current = 0) :
    (twoDigits n).foldlM CounterState.read k = some (k.put (n % 100)) := by
  rw [twoDigits_eq nonneg]
  unfold lastDigits
  split
  next large =>
    simp only [cons_append, nil_append, map_cons, map_nil, foldlM_cons, foldlM_nil]
    rw [read_digitChar k (by omega) (by omega), fresh]
    simp only [Option.bind_eq_bind, Option.bind_some]
    have first : wrapInt (0 * 10 + n / 10 % 10) = n / 10 % 10 := by
      rw [Int.zero_mul, Int.zero_add]
      exact wrapInt_of_small (by omega) (by omega)
    rw [read_digitChar _ (by omega) (by omega), first, current_put,
      put_put, wrapInt_of_small (by omega) (by omega)]
    simp only [Option.bind_some, Option.pure_def]
    have both : n / 10 % 10 * 10 + n % 10 = n % 100 := by omega
    rw [both]
  next small =>
    simp only [nil_append, map_cons, map_nil, foldlM_cons, foldlM_nil]
    rw [read_digitChar k (by omega) (by omega), fresh, wrapInt_of_small (by omega) (by omega)]
    simp only [Option.bind_eq_bind, Option.bind_some, Option.pure_def]
    have one : 0 * 10 + n % 10 = n % 100 := by omega
    rw [one]

theorem read_left_dash {left : Int} (nonneg : 0 ≤ left) (rest : List UInt16) :
    (twoDigits left ++ 45 :: rest).foldlM CounterState.read CounterState.start =
      rest.foldlM CounterState.read ⟨left % 100, 0, true, true⟩ := by
  rw [foldlM_append, read_twoDigits nonneg rfl]
  simp only [Option.bind_eq_bind, Option.bind_some, foldlM_cons]
  rw [read_dash rfl rfl]
  rfl

theorem parseCounter_twoDigits {left done : Int} (nonneg : 0 ≤ left) (nonnegDone : 0 ≤ done) :
    parseCounter (twoDigits left ++ 45 :: twoDigits done) = some (left % 100, done % 100) := by
  rw [parseCounter, read_left_dash nonneg, read_twoDigits nonnegDone rfl]
  rfl

theorem twoDigits_of_neg {n : Int} (negative : n < 0) : twoDigits n = [48] ∨
      ∃ c, twoDigits n = [c] ∧ digitValue c = none := by
  have remainder : n.tmod 10 = -((-n) % 10) := by
    rw [← Int.neg_neg n, Int.neg_tmod, Int.neg_neg, Int.tmod_eq_emod_of_nonneg (by omega)]
  obtain ⟨r, isDigit⟩ : ∃ r : Nat, (-n) % 10 = r := Int.eq_ofNat_of_zero_le (by omega)
  have small : r ≤ 9 := by omega
  rw [twoDigits, if_neg (by omega), remainder, isDigit]
  interval_cases r
  · exact Or.inl rfl
  all_goals exact Or.inr ⟨_, rfl, by decide⟩

theorem parseCounter_negative {left : Int} (nonneg : 0 ≤ left) {c : UInt16}
    (noDigit : digitValue c = none) :
    parseCounter (twoDigits left ++ [45, c]) = none := by
  have refused : (⟨left % 100, 0, true, true⟩ : CounterState).read c = none := by
    rw [CounterState.read, if_neg (by simp), noDigit]
  rw [parseCounter, read_left_dash nonneg, foldlM_cons, refused]
  rfl

theorem splitPlus_of_notMem {chars : List UInt16} (plain : 43 ∉ chars) :
    splitPlus chars = none := by
  induction chars with
  | nil => rfl
  | cons c rest ih =>
    rw [mem_cons, not_or] at plain
    rw [splitPlus, ih plain.2]
    simp only [if_neg (fun same => plain.1 (Eq.symm same))]

theorem splitPlus_append (front : List UInt16) {counter : List UInt16} (plain : 43 ∉ counter) :
    splitPlus (front ++ 43 :: counter) = some (front, counter) := by
  induction front with
  | nil =>
    rw [nil_append, splitPlus, splitPlus_of_notMem plain]
    rfl
  | cons c front ih => rw [cons_append, splitPlus, ih]

theorem plus_notMem_twoDigits {n : Int} (nonneg : 0 ≤ n) : 43 ∉ twoDigits n := by
  rw [twoDigits_eq nonneg, mem_map]
  rintro ⟨d, mem, isPlus⟩
  obtain ⟨low, high⟩ := digits_of_mem_lastDigits mem
  exact (digitChar_ne low high).1 isPlus

theorem length_twoDigits (n : Int) : 0 < (twoDigits n).length ∧ (twoDigits n).length ≤ 2 := by
  unfold twoDigits
  split <;> simp

theorem parseEntryName_stem {stem : List UInt16} (nonempty : stem ≠ []) :
    parseEntryName (stem ++ ascii16 ".conf") = parseStem stem := by
  have five : (ascii16 ".conf").length = 5 := rfl
  have one := length_pos_of_ne_nil nonempty
  have back : stem.length + 5 - 5 = stem.length := by omega
  rw [parseEntryName, length_append, five, if_neg (by omega), back,
    drop_left, if_neg (not_not_intro rfl), take_left]

@[simp]
theorem toUInt8_widen (c : UInt8) : (widen c).toUInt8 = c := by
  have high : (0xFF00 : UInt16).toUInt8 = 0 := rfl
  unfold widen
  split
  · simp
  · rw [UInt16.toUInt8_add, high]
    simp

def keptId (id : CStr) : CStr :=
  id.truncate (nameMaxChars - 11)

theorem idOf_widen (id : CStr) :
    idOf ((id.bytes.take (nameMaxChars - 12)).map widen) = keptId id := by
  have short : ((id.bytes.take (nameMaxChars - 12)).map widen).length ≤ nameMaxChars - 1 := by
    rw [length_map, length_take]
    unfold nameMaxChars
    omega
  have whole : (((id.bytes.take (nameMaxChars - 12)).map widen).map
      UInt16.toUInt8) = (keptId id).bytes := by
    rw [map_map]
    have same : UInt16.toUInt8 ∘ widen = fun c => c := funext toUInt8_widen
    rw [same, map_id']
    rfl
  rw [idOf, take_of_length_le short, whole, CStr.ofBytes_bytes]

theorem keptId_eq_iff (id : CStr) : keptId id = id ↔ id.length ≤ nameMaxChars - 12 := by
  constructor
  · intro same
    have lengths := congrArg CStr.length same
    rw [keptId, CStr.truncate, CStr.length, length_take] at lengths
    unfold nameMaxChars at *
    omega
  · intro short
    exact CStr.truncate_of_fits (by unfold nameMaxChars at *; omega)

theorem decrementedName_eq (e : EntryName) : decrementedName e =
      ((e.id.bytes.take (nameMaxChars - 12)).map widen ++ 43 :: (twoDigits (e.triesLeft - 1) ++
          45 :: twoDigits (wrapInt (e.triesDone + 1)))) ++ ascii16 ".conf" := by
  simp [decrementedName]

theorem parse_decrementedName (e : EntryName) : parseEntryName (decrementedName e) =
      parseStem ((e.id.bytes.take (nameMaxChars - 12)).map widen ++
        43 :: (twoDigits (e.triesLeft - 1) ++ 45 :: twoDigits (wrapInt (e.triesDone + 1)))) := by
  rw [decrementedName_eq, parseEntryName_stem (by simp)]

theorem parseStem_plus (front : List UInt16) {counter : List UInt16} (plain : 43 ∉ counter) :
    parseStem (front ++ 43 :: counter) = (parseCounter counter).map fun (left, done) =>
        ⟨idOf front, left, done⟩ := by
  rw [parseStem, splitPlus_append front plain]
  cases found : parseCounter counter <;> simp [found]

theorem parse_decremented_of_nonneg {e : EntryName} (positive : 0 < e.triesLeft)
    (nonneg : 0 ≤ wrapInt (e.triesDone + 1)) :
    parseEntryName (decrementedName e) = some ⟨keptId e.id, (e.triesLeft - 1) % 100,
        wrapInt (e.triesDone + 1) % 100⟩ := by
  have nonnegLeft : 0 ≤ e.triesLeft - 1 := by omega
  have plain : 43 ∉ twoDigits (e.triesLeft - 1) ++ 45 :: twoDigits (wrapInt (e.triesDone + 1)) := by
    rw [mem_append, mem_cons]
    rintro (inLeft | isDash | inDone)
    · exact plus_notMem_twoDigits nonnegLeft inLeft
    · cases isDash
    · exact plus_notMem_twoDigits nonneg inDone
  rw [parse_decrementedName, parseStem_plus _ plain,
    parseCounter_twoDigits nonnegLeft nonneg, idOf_widen]
  rfl

theorem parse_decremented_of_neg {e : EntryName} (positive : 0 < e.triesLeft)
    (negative : wrapInt (e.triesDone + 1) < 0) :
    parseEntryName (decrementedName e) = none ∨ parseEntryName (decrementedName e) =
        some ⟨keptId e.id, (e.triesLeft - 1) % 100, 0⟩ := by
  have nonnegLeft : 0 ≤ e.triesLeft - 1 := by omega
  rw [parse_decrementedName]
  rcases twoDigits_of_neg negative with isZero | ⟨c, one, noDigit⟩
  · right
    have zero : twoDigits (wrapInt (e.triesDone + 1)) = twoDigits 0 := isZero
    have plain : 43 ∉ twoDigits (e.triesLeft - 1) ++ 45 :: twoDigits 0 := by
      rw [mem_append, mem_cons]
      rintro (inLeft | isDash | inDone)
      · exact plus_notMem_twoDigits nonnegLeft inLeft
      · cases isDash
      · exact plus_notMem_twoDigits (le_refl 0) inDone
    rw [zero, parseStem_plus _ plain, parseCounter_twoDigits nonnegLeft (le_refl 0), idOf_widen]
    rfl
  · left
    rw [one]
    by_cases isPlus : c = 43
    · -- the character is a `+` itself, and nothing follows it
      have moved : (e.id.bytes.take (nameMaxChars - 12)).map widen ++
          43 :: (twoDigits (e.triesLeft - 1) ++ [45, c]) =
            ((e.id.bytes.take (nameMaxChars - 12)).map widen ++
              43 :: (twoDigits (e.triesLeft - 1) ++ [45])) ++ 43 :: [] := by
        simp [isPlus]
      rw [moved, parseStem_plus _ not_mem_nil]
      rfl
    · have plain : 43 ∉ twoDigits (e.triesLeft - 1) ++ [45, c] := by
        rw [mem_append, mem_cons, mem_singleton]
        rintro (inLeft | isDash | isC)
        · exact plus_notMem_twoDigits nonnegLeft inLeft
        · cases isDash
        · exact isPlus (Eq.symm isC)
      rw [parseStem_plus _ plain, parseCounter_negative nonnegLeft noDigit]
      rfl

def EntryName.afterAttempt (e : EntryName) : EntryName :=
  ⟨e.id, e.triesLeft - 1, e.triesDone + 1⟩

def Countable (e : EntryName) : Prop :=
  e.id.length ≤ nameMaxChars - 12 ∧ e.triesLeft ≤ 100 ∧ -1 ≤ e.triesDone ∧ e.triesDone ≤ 98

instance (e : EntryName) : Decidable (Countable e) :=
  inferInstanceAs (Decidable (_ ∧ _))

theorem parse_decrementedName_iff {e : EntryName} (positive : 0 < e.triesLeft) :
    parseEntryName (decrementedName e) = some e.afterAttempt ↔
      Countable e := by
  constructor
  · intro same
    rcases Int.lt_or_le (wrapInt (e.triesDone + 1)) 0 with negative | nonneg
    · rcases parse_decremented_of_neg positive negative with nothing | zero
      · rw [nothing] at same
        cases same
      · rw [zero] at same
        have fields := EntryName.mk.inj (Option.some.inj same)
        obtain ⟨sameId, sameLeft, sameDone⟩ := fields
        have isSmall : e.triesDone = -1 := by omega
        exact ⟨(keptId_eq_iff _).mp sameId, by omega, by omega, by omega⟩
    · rw [parse_decremented_of_nonneg positive nonneg] at same
      have fields := EntryName.mk.inj (Option.some.inj same)
      obtain ⟨sameId, sameLeft, sameDone⟩ := fields
      exact ⟨(keptId_eq_iff _).mp sameId, by omega, by omega, by omega⟩
  · rintro ⟨short, fewLeft, low, high⟩
    have small : wrapInt (e.triesDone + 1) = e.triesDone + 1 :=
      wrapInt_of_small (by omega) (by omega)
    rw [parse_decremented_of_nonneg positive (by omega), small,
      (keptId_eq_iff _).mpr short, EntryName.afterAttempt,
      Int.emod_eq_of_lt (by omega) (by omega),
      Int.emod_eq_of_lt (by omega) (by omega)]

theorem triesLeft_of_decremented {e after : EntryName} (positive : 0 < e.triesLeft)
    (parsed : parseEntryName (decrementedName e) = some after) :
    0 ≤ after.triesLeft ∧ after.triesLeft ≤ e.triesLeft - 1 := by
  have fewer : after.triesLeft = (e.triesLeft - 1) % 100 := by
    rcases Int.lt_or_le (wrapInt (e.triesDone + 1)) 0 with negative | nonneg
    · rcases parse_decremented_of_neg positive negative with nothing | zero
      · rw [nothing] at parsed
        cases parsed
      · rw [zero] at parsed
        rw [← Option.some.inj parsed]
    · rw [parse_decremented_of_nonneg positive nonneg] at parsed
      rw [← Option.some.inj parsed]
  omega

theorem length_decrementedName (e : EntryName) : (decrementedName e).length < nameMaxChars := by
  have left := length_twoDigits (e.triesLeft - 1)
  have done := length_twoDigits (wrapInt (e.triesDone + 1))
  have five : (ascii16 ".conf").length = 5 := rfl
  rw [decrementedName_eq]
  simp only [length_append, length_cons, length_map, length_take, five]
  unfold nameMaxChars
  omega

end Cix.Boot
