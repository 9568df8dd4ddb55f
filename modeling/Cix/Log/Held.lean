import Cix.Log.Segments

/-!
# The held log

What is written before the store is ready, or in a child that must not write,
is packed into a buffer by `hold_entry` and written by `logstore_replay`.  An
empty source ends the replay, as it stands for the unused rest of the buffer,
and an entry may have one: only a source that is absent is replaced.
-/

namespace Cix.Log

open Cix.Lib Cix.Json List

/-- An entry as `hold_entry` is given it. -/
structure HeldEntry where
  (source level container msg : CStr)
  deriving DecidableEq

def Request.held (request : Request) : HeldEntry :=
  let entry := request.entry 0
  ⟨entry.source.str, entry.level.str, entry.container.str, entry.msg⟩

def HeldEntry.packed (e : HeldEntry) : List UInt8 :=
  e.source.bytes ++ 0 :: (e.level.bytes ++ 0 ::
    (e.container.bytes ++ 0 :: (e.msg.bytes ++ 0 :: [])))

def holdHeaderBytes : Nat := 4

/-- The buffer of `logstore_hold`: the count in its header, and what is written
of the bytes behind that. -/
structure Hold where
  room : Nat
  dropped : UInt32
  written : List UInt8

/-- `logstore_hold`, which clears the buffer. -/
def logstoreHold (size : Nat) : Option Hold :=
  if size ≤ holdHeaderBytes then none else some ⟨size - holdHeaderBytes, 0, []⟩

def holdEntry (h : Hold) (e : HeldEntry) : Hold :=
  if e.packed.length > h.room - h.written.length then { h with dropped := h.dropped + 1 }
  else { h with written := h.written ++ e.packed }

def Hold.len (h : Hold) : Nat := holdHeaderBytes + h.written.length

def Hold.bytes (h : Hold) (len : Nat) : List UInt8 :=
  (h.written ++ List.replicate (h.room - h.written.length) 0).take (len - holdHeaderBytes)

def readPart (bytes : List UInt8) : Option (CStr × List UInt8) :=
  if 0 ∈ bytes then some (CStr.ofBytes bytes, afterNul bytes) else none

def readInnerPart (bytes : List UInt8) : Option (CStr × List UInt8) :=
  (readPart bytes).filter fun read => !read.2.isEmpty

def readEntry (bytes : List UInt8) : Option (HeldEntry × List UInt8) := do
  let (source, bytes) ← readInnerPart bytes
  let (level, bytes) ← readInnerPart bytes
  let (container, bytes) ← readInnerPart bytes
  let (msg, bytes) ← readPart bytes
  return (⟨source, level, container, msg⟩, bytes)

/-- The loop of `logstore_replay`, and whether it did not end at a torn record. -/
def readEntries : (fuel : Nat) → List UInt8 → List HeldEntry × Bool
  | 0, _ => ([], true)
  | fuel + 1, bytes =>
    if bytes.head?.getD 0 = 0 then ([], true)
    else
      match readEntry bytes with
      | none => ([], false)
      | some (e, bytes) =>
        let (entries, whole) := readEntries fuel bytes
        (e :: entries, whole)

inductive Replayed where
  | entry (e : HeldEntry)
  | full (dropped : Nat)
  deriving DecidableEq

def logstoreReplay (h : Hold) (len : Nat) : List Replayed :=
  if len < holdHeaderBytes then []
  else
    let (entries, whole) := readEntries len (h.bytes len)
    entries.map .entry ++
      if whole ∧ h.dropped > 0 then [.full h.dropped.toNat] else []

def holdAll (start : Hold) (entries : List HeldEntry) : Hold :=
  entries.foldl holdEntry start

def fitting : (room : Nat) → List HeldEntry → List HeldEntry
  | _, [] => []
  | room, e :: rest =>
    if e.packed.length ≤ room then e :: fitting (room - e.packed.length) rest
    else fitting room rest

def faithful (kept : List HeldEntry) (lost : Nat) : List Replayed :=
  kept.map .entry ++ if lost = 0 then [] else [.full lost]

theorem length_fitting_le (room : Nat) (entries : List HeldEntry) :
    (fitting room entries).length ≤ entries.length := by
  induction entries generalizing room with
  | nil => exact Nat.le_refl _
  | cons e rest ih =>
    rw [fitting]
    split
    · exact Nat.succ_le_succ (ih _)
    · exact Nat.le_succ_of_le (ih _)

theorem readPart_append (s : CStr) (rest : List UInt8) :
    readPart (s.bytes ++ 0 :: rest) = some (s, rest) := by
  have same : CStr.ofBytes (s.bytes ++ 0 :: rest) = s := CStr.ext (cstrAt_append_zero s rest)
  rw [readPart, if_pos (by simp), same, afterNul_append_zero]

theorem readInnerPart_append (s : CStr) {rest : List UInt8} (more : rest ≠ []) :
    readInnerPart (s.bytes ++ 0 :: rest) = some (s, rest) := by
  rw [readInnerPart, readPart_append, Option.filter_some, if_pos (by simp [more])]

theorem readEntry_packed (e : HeldEntry) (rest : List UInt8) :
    readEntry (e.packed ++ rest) = some (e, rest) := by
  simp [readEntry, HeldEntry.packed, readInnerPart_append, readPart_append]

theorem readEntries_packed {fuel : Nat} {entries : List HeldEntry} (zeros : Nat)
    (enough : (entries.flatMap HeldEntry.packed).length ≤ fuel) :
    readEntries fuel (entries.flatMap HeldEntry.packed ++ List.replicate zeros 0) =
      (entries.takeWhile fun e => e.source ≠ CStr.empty, true) := by
  induction entries generalizing fuel with
  | nil =>
    cases fuel with
    | zero => rfl
    | succ fuel =>
      cases zeros with
      | zero => rfl
      | succ zeros => rfl
  | cons e rest ih =>
    rw [flatMap_cons, length_append] at enough
    have size : 4 ≤ e.packed.length := by
      simp only [HeldEntry.packed, length_append, length_cons]
      omega
    obtain ⟨fuel, rfl⟩ : ∃ n, fuel = n + 1 := ⟨fuel - 1, by omega⟩
    rw [flatMap_cons, append_assoc, readEntries, takeWhile_cons]
    by_cases sourceless : e.source = CStr.empty
    · have first : (e.packed ++ (rest.flatMap HeldEntry.packed ++
          List.replicate zeros 0)).head?.getD 0 = 0 := by
        rw [HeldEntry.packed, sourceless]
        rfl
      rw [if_pos first, if_neg (by simp [sourceless])]
    · have first : (e.packed ++ (rest.flatMap HeldEntry.packed ++
          List.replicate zeros 0)).head?.getD 0 ≠ 0 := by
        rw [HeldEntry.packed]
        cases isBytes : e.source.bytes with
        | nil => exact absurd (CStr.ext isBytes) sourceless
        | cons byte bytes =>
          exact CStr.ne_zero_of_mem (s := e.source) (by rw [isBytes]; exact mem_cons_self)
      rw [if_neg first, readEntry_packed]
      dsimp only
      rw [ih (by omega), if_pos (by simp [sourceless])]

theorem holdAll_spec (start : Hold) (entries : List HeldEntry) :
    let kept := fitting (start.room - start.written.length) entries
    (holdAll start entries).room = start.room ∧
      (holdAll start entries).written = start.written ++ kept.flatMap HeldEntry.packed ∧
      (holdAll start entries).dropped =
        start.dropped + UInt32.ofNat (entries.length - kept.length) := by
  induction entries generalizing start with
  | nil => exact ⟨rfl, (append_nil _).symm, (UInt32.add_zero _).symm⟩
  | cons e rest ih =>
    dsimp only
    obtain ⟨room, written, dropped⟩ := ih (holdEntry start e)
    rw [holdAll, foldl_cons, ← holdAll, room, written, dropped, fitting]
    by_cases fits : e.packed.length ≤ start.room - start.written.length
    · have held : holdEntry start e = { start with written := start.written ++ e.packed } := by
        rw [holdEntry, if_neg (Nat.not_lt.mpr fits)]
      rw [held, if_pos fits]
      dsimp only
      rw [length_append, ← Nat.sub_sub, flatMap_cons, append_assoc,
        length_cons, length_cons, Nat.add_sub_add_right]
      exact ⟨rfl, rfl, rfl⟩
    · have full : holdEntry start e = { start with dropped := start.dropped + 1 } := by
        rw [holdEntry, if_pos (Nat.lt_of_not_le fits)]
      rw [full, if_neg fits]
      dsimp only
      have count := length_fitting_le (start.room - start.written.length) rest
      rw [length_cons, Nat.sub_add_comm count, Nat.add_comm _ 1, UInt32.ofNat_add, UInt32.add_assoc]
      exact ⟨rfl, rfl, rfl⟩

theorem logstoreReplay_holdAll {size : Nat} {start : Hold} (isHold : logstoreHold size = some start)
    (entries : List HeldEntry) (extra : Nat) :
    let hold := holdAll start entries
    let kept := fitting (size - holdHeaderBytes) entries
    logstoreReplay hold (hold.len + extra) =
      faithful (kept.takeWhile fun e => e.source ≠ CStr.empty)
        ((entries.length - kept.length) % 2 ^ 32) := by
  unfold logstoreHold at isHold
  split at isHold
  · cases isHold
  cases isHold
  dsimp only
  obtain ⟨room, written, dropped⟩ := holdAll_spec ⟨size - holdHeaderBytes, 0, []⟩ entries
  dsimp only [length_nil, nil_append] at written dropped room
  rw [Nat.sub_zero] at written dropped
  rw [UInt32.zero_add] at dropped
  generalize holdAll ⟨size - holdHeaderBytes, 0, []⟩ entries = hold at room written dropped
  have bytes : hold.bytes (hold.len + extra) =
      hold.written ++ List.replicate (min extra (hold.room - hold.written.length)) 0 := by
    rw [Hold.bytes, Hold.len, Nat.add_assoc, Nat.add_sub_cancel_left, take_append,
      take_of_length_le (Nat.le_add_right _ _), Nat.add_sub_cancel_left, take_replicate]
  have count : hold.dropped.toNat =
      (entries.length - (fitting (size - holdHeaderBytes) entries).length) % 2 ^ 32 := by
    rw [dropped, UInt32.toNat_ofNat']
  have isLong : ¬ hold.len + extra < holdHeaderBytes := by
    rw [Hold.len]
    omega
  rw [logstoreReplay, if_neg isLong, bytes, written, readEntries_packed _ (by
    rw [← written, Hold.len]
    omega), faithful, ← count]
  have some : hold.dropped > 0 ↔ hold.dropped.toNat ≠ 0 := by
    rw [gt_iff_lt, UInt32.lt_iff_toNat_lt]
    exact Nat.pos_iff_ne_zero
  simp only [some, true_and, ne_eq, ite_not]

theorem length_faithful (kept : List HeldEntry) (lost : Nat) :
    (faithful kept lost).length = kept.length + if lost = 0 then 0 else 1 := by
  rw [faithful, length_append, length_map]
  split <;> rfl

theorem faithful_inj {read kept : List HeldEntry} {counted lost : Nat}
    (same : faithful read counted = faithful kept lost) (fewer : read.length ≤ kept.length)
    (less : counted ≤ lost) : read.length = kept.length ∧ counted = lost := by
  have size := congrArg List.length same
  rw [length_faithful, length_faithful] at size
  have lengths : read.length = kept.length := by split at size <;> split at size <;> omega
  refine ⟨lengths, ?_⟩
  have notes := (append_inj same (by simp [lengths])).2
  split at notes <;> split at notes
  · omega
  · cases notes
  · cases notes
  · exact Replayed.full.inj (head_eq_of_cons_eq notes)

/-- A replay writes what was held, in order and with its fields, and the number
of entries that did not fit, if and only if every entry that fitted has a source
and the number is one of 32 bits.  It may be given any length from that of the
entries on. -/
theorem replay_faithful_iff {size : Nat} {start : Hold} (isHold : logstoreHold size = some start)
    (requests : List Request) (extra : Nat) :
    let entries := requests.map Request.held
    let hold := holdAll start entries
    let kept := fitting (size - holdHeaderBytes) entries
    logstoreReplay hold (hold.len + extra) = faithful kept (entries.length - kept.length) ↔
      (∀ e ∈ kept, e.source ≠ CStr.empty) ∧ entries.length - kept.length < 2 ^ 32 := by
  intro entries hold kept
  rw [logstoreReplay_holdAll isHold entries extra]
  constructor
  · intro same
    have prefixed := takeWhile_prefix (l := kept) fun e => decide (e.source ≠ CStr.empty)
    obtain ⟨lengths, count⟩ := faithful_inj same prefixed.length_le (Nat.mod_le _ _)
    have whole := prefixed.eq_of_length lengths
    refine ⟨?_, ?_⟩
    · intro e mem
      exact of_decide_eq_true (takeWhile_eq_self_iff.mp whole e mem)
    · rw [← count]
      exact Nat.mod_lt _ (by decide)
  · intro ⟨sources, few⟩
    rw [Nat.mod_eq_of_lt few, takeWhile_eq_self_iff.mpr]
    intro e mem
    exact decide_eq_true (sources e mem)

def sourceless : Request := ⟨some CStr.empty, none, none, CStr.empty⟩

def defaulted : Request := ⟨none, none, none, "late"⟩

def ofWeb : Request := ⟨some "ci", some "warn", some "web", "late"⟩

/-- Two entries that fit and a third one that does not. -/
theorem replay_faithful_overflow :
    let hold := holdAll ⟨36, 0, []⟩ [defaulted.held, ofWeb.held, defaulted.held]
    logstoreReplay hold (hold.len + 0) = faithful [defaulted.held, ofWeb.held] 1 :=
  (@replay_faithful_iff 40 _ rfl [defaulted, ofWeb, defaulted] 0).mpr (by decide)

/-- An entry without a source hides the ones behind it. -/
theorem sourceless_hides :
    let entries := [sourceless.held, defaulted.held]
    let hold := holdAll ⟨60, 0, []⟩ entries
    fitting 60 entries = entries ∧ logstoreReplay hold hold.len = [] := by decide

end Cix.Log
