import Cix.Lib.Machine

/-!
# Items that arrive in pieces

A reader keeps the bytes that have arrived, takes the items off their start one
after the other, and waits for more when the rest is no whole item.  Its buffer
has a limit, and a piece that does not fit beside what is waiting ends it.  As
long as every piece fits, what has been read depends only on the bytes, not on
the pieces that they came in.
-/

namespace Cix.Lib

open List

universe u v w

inductive Scan (β : Type v) where
  /-- The start of an item that is not complete. -/
  | more
  /-- The start of no item. -/
  | bad
  | found (item : β) (size : Nat)
  deriving DecidableEq

structure Scanner (α : Type u) (β : Type v) where
  scan : List α → Scan β
  /-- Nothing is read after such an item. -/
  last : β → Bool
  scan_nil : scan [] = .more
  size_found : ∀ {bytes item size}, scan bytes = .found item size → 0 < size ∧ size ≤ bytes.length
  stable : ∀ {bytes}, scan bytes ≠ .more → ∀ later, scan (bytes ++ later) = scan bytes

@[ext]
structure Reader (α : Type u) (β : Type v) where
  items : List β
  pending : Option (List α)
  deriving DecidableEq

namespace Reader

variable {α : Type u} {β : Type v}

def start : Reader α β := ⟨[], some []⟩

def after (items : List β) (r : Reader α β) : Reader α β :=
  { r with items := items ++ r.items }

@[simp]
theorem after_nil (r : Reader α β) : r.after [] = r := rfl

@[simp]
theorem after_after (first second : List β) (r : Reader α β) :
    (r.after second).after first = r.after (first ++ second) := by
  simp [after]

@[simp]
theorem pending_after (items : List β) (r : Reader α β) : (r.after items).pending = r.pending := rfl

@[simp]
theorem items_after (items : List β) (r : Reader α β) :
    (r.after items).items = items ++ r.items := rfl

end Reader

def upTo {β : Type v} (last : β → Bool) : List β → List β
  | [] => []
  | item :: rest => if last item then [item] else item :: upTo last rest

theorem upTo_of_none {β : Type v} {last : β → Bool} {items : List β}
    (goes : items.any last = false) : upTo last items = items := by
  induction items with
  | nil => rfl
  | cons item rest ih =>
    simp only [any_cons, Bool.or_eq_false_iff] at goes
    rw [upTo, goes.1, if_neg Bool.false_ne_true, ih goes.2]

theorem any_upTo {β : Type v} (last : β → Bool) (items : List β) :
    (upTo last items).any last = items.any last := by
  induction items with
  | nil => rfl
  | cons item rest ih =>
    rw [upTo]
    cases ends : last item with
    | true => simp [ends]
    | false =>
      rw [if_neg Bool.false_ne_true]
      simp [ends, ih]

namespace Scanner

variable {α : Type u} {β : Type v} (s : Scanner α β)

def drainUpTo : Nat → List α → Reader α β
  | 0, bytes => ⟨[], some bytes⟩
  | count + 1, bytes =>
    match s.scan bytes with
    | .more => ⟨[], some bytes⟩
    | .bad => ⟨[], none⟩
    | .found item size =>
      if s.last item then ⟨[item], none⟩
      else (drainUpTo count (bytes.drop size)).after [item]

def drain (bytes : List α) : Reader α β :=
  s.drainUpTo (bytes.length + 1) bytes

def read (limit : Nat) (r : Reader α β) (piece : List α) : Reader α β :=
  match r.pending with
  | none => r
  | some buf =>
    if limit < buf.length + piece.length then { r with pending := none }
    else (s.drain (buf ++ piece)).after r.items

def Fits (limit : Nat) (r : Reader α β) (piece : List α) : Prop :=
  ∀ buf ∈ r.pending, buf.length + piece.length ≤ limit

instance (limit : Nat) (r : Reader α β) (piece : List α) : Decidable (Fits limit r piece) :=
  inferInstanceAs (Decidable (∀ _ ∈ _, _))

variable {s}

theorem drainUpTo_more {bytes : List α} (incomplete : s.scan bytes = .more)
    (count : Nat) : s.drainUpTo count bytes = ⟨[], some bytes⟩ := by
  cases count with
  | zero => rfl
  | succ count => rw [drainUpTo, incomplete]

theorem drainUpTo_enough {bytes : List α} {first second : Nat}
    (enough : bytes.length < first) (also : bytes.length < second) :
    s.drainUpTo first bytes = s.drainUpTo second bytes := by
  induction first generalizing bytes second with
  | zero => exact absurd enough (Nat.not_lt_zero _)
  | succ first ih =>
    cases second with
    | zero => exact absurd also (Nat.not_lt_zero _)
    | succ second =>
      rw [drainUpTo, drainUpTo]
      cases isFound : s.scan bytes with
      | more => rfl
      | bad => rfl
      | found item size =>
        obtain ⟨positive, inside⟩ := s.size_found isFound
        have shorter : (bytes.drop size).length < bytes.length := by
          rw [length_drop]
          omega
        have rest := @ih (bytes.drop size) second (by omega) (by omega)
        simp only [rest]

theorem drain_more {bytes : List α} (incomplete : s.scan bytes = .more) :
    s.drain bytes = ⟨[], some bytes⟩ :=
  drainUpTo_more incomplete _

theorem drain_bad {bytes : List α} (refused : s.scan bytes = .bad) :
    s.drain bytes = ⟨[], none⟩ := by
  rw [drain, drainUpTo, refused]

theorem drain_found {bytes : List α} {item : β} {size : Nat}
    (isFound : s.scan bytes = .found item size) :
    s.drain bytes =
      if s.last item then ⟨[item], none⟩
      else (s.drain (bytes.drop size)).after [item] := by
  obtain ⟨positive, inside⟩ := s.size_found isFound
  have shorter : (bytes.drop size).length < bytes.length := by
    rw [length_drop]
    omega
  rw [drain, drainUpTo, isFound]
  simp only
  rw [drainUpTo_enough shorter (Nat.lt_succ_self _)]
  rfl

theorem drain_append (bytes later : List α) : s.drain (bytes ++ later) =
      match (s.drain bytes).pending with
      | none => s.drain bytes
      | some rest => (s.drain (rest ++ later)).after (s.drain bytes).items := by
  induction size : bytes.length using Nat.strongRecOn generalizing bytes with
  | ind length ih =>
    cases isFound : s.scan bytes with
    | more =>
      rw [drain_more isFound]
      rfl
    | bad =>
      have decided : s.scan bytes ≠ .more := by simp [isFound]
      have same := s.stable decided later
      rw [isFound] at same
      rw [drain_bad same, drain_bad isFound]
    | found item size =>
      obtain ⟨positive, inside⟩ := s.size_found isFound
      have decided : s.scan bytes ≠ .more := by simp [isFound]
      have same := s.stable decided later
      rw [isFound] at same
      rw [drain_found same, drain_found isFound, drop_append_of_le_length inside]
      cases ends : s.last item with
      | true => rfl
      | false =>
        rw [if_neg Bool.false_ne_true, if_neg Bool.false_ne_true,
          ih (bytes.drop size).length (by rw [length_drop]; omega) _ rfl]
        rw [Reader.pending_after]
        cases (s.drain (bytes.drop size)).pending with
        | none => rfl
        | some rest => simp

variable {limit : Nat}

theorem read_of_fits {r : Reader α β} {piece : List α} (fits : Fits limit r piece) :
    s.read limit r piece =
      match r.pending with
      | none => r
      | some buf => (s.drain (buf ++ piece)).after r.items := by
  unfold read
  cases waiting : r.pending with
  | none => rfl
  | some buf =>
    have room := fits buf (by rw [waiting]; rfl)
    simp only [if_neg (Nat.not_lt.mpr room)]

theorem run_read {pieces : List (List α)}
    (fits : Guarded (s.read limit) (Fits limit) Reader.start pieces) :
    run (s.read limit) Reader.start pieces = s.drain pieces.flatten := by
  induction pieces using List.reverseRecOn with
  | nil => exact (drain_more s.scan_nil).symm
  | append_singleton before piece ih =>
    have soFar := ih fits.initial
    have room := fits before piece [] rfl
    rw [run_snoc, read_of_fits room, soFar, flatten_append, flatten_singleton, drain_append]

theorem run_ended (r : Reader α β) (ended : r.pending = none)
    (pieces : List (List α)) : run (s.read limit) r pieces = r := by
  induction pieces with
  | nil => rfl
  | cons piece rest ih =>
    have stays : s.read limit r piece = r := by rw [read, ended]
    rw [run_cons, stays, ih]

theorem length_pending_le {bytes rest : List α} (left : (s.drain bytes).pending = some rest) :
    rest.length ≤ bytes.length := by
  induction size : bytes.length using Nat.strongRecOn generalizing bytes with
  | ind length ih =>
    cases isFound : s.scan bytes with
    | more =>
      rw [drain_more isFound] at left
      cases left
      exact Nat.le_of_eq size
    | bad =>
      rw [drain_bad isFound] at left
      cases left
    | found item taken =>
      obtain ⟨positive, inside⟩ := s.size_found isFound
      have shorter : (bytes.drop taken).length < length := by
        rw [length_drop]
        omega
      rw [drain_found isFound] at left
      split at left
      · cases left
      · have shorter' := ih _ shorter left rfl
        omega

theorem fits_of_length {pieces : List (List α)} (short : pieces.flatten.length ≤ limit) :
    Guarded (s.read limit) (Fits limit) Reader.start pieces := by
  induction pieces using List.reverseRecOn with
  | nil => exact guarded_nil _ _
  | append_singleton before piece ih =>
    rw [flatten_append, flatten_singleton, length_append] at short
    have fits := ih (by omega)
    apply fits.snoc
    intro buf waiting
    rw [run_read fits] at waiting
    have inside := length_pending_le waiting
    omega

def leading (limit : Nat) : Nat → List (List α) → List (List α)
  | _, [] => []
  | taken, piece :: rest =>
    if taken + piece.length ≤ limit then
      piece :: leading limit (taken + piece.length) rest
    else []

theorem exists_leading (limit taken : Nat) (pieces : List (List α)) :
    ∃ rest, pieces = leading limit taken pieces ++ rest ∧ (taken ≤ limit →
        taken + (leading limit taken pieces).flatten.length ≤ limit) ∧
      ∀ piece more, rest = piece :: more →
        limit < taken + (leading limit taken pieces).flatten.length +
          piece.length := by
  induction pieces generalizing taken with
  | nil =>
    refine ⟨[], rfl, fun small => small, ?_⟩
    rintro piece more ⟨⟩
  | cons piece rest ih =>
    by_cases room : taken + piece.length ≤ limit
    · obtain ⟨later, equality, inside, overflow⟩ := ih (taken + piece.length)
      rw [leading, if_pos room]
      refine ⟨later, ?_, ?_, ?_⟩
      · rw [cons_append, ← equality]
      · intro _
        have total := inside room
        rw [flatten_cons, length_append]
        omega
      · intro next more isNext
        have beyond := overflow next more isNext
        rw [flatten_cons, length_append]
        omega
    · rw [leading, if_neg room]
      refine ⟨piece :: rest, rfl, fun small => small, ?_⟩
      rintro next more ⟨⟩
      simpa using room

theorem pending_of_items_nil {bytes rest : List α} (nothing : (s.drain bytes).items = [])
    (left : (s.drain bytes).pending = some rest) : rest = bytes := by
  cases isFound : s.scan bytes with
  | more =>
    rw [drain_more isFound] at left
    cases left
    rfl
  | bad =>
    rw [drain_bad isFound] at left
    cases left
  | found item size =>
    rw [drain_found isFound] at nothing
    split at nothing
    · cases nothing
    · simp at nothing

theorem items_run (r : Reader α β) (pieces : List (List α)) :
    r.items <+: (run (s.read limit) r pieces).items := by
  induction pieces generalizing r with
  | nil => exact prefix_refl _
  | cons piece rest ih =>
    refine List.IsPrefix.trans ?_ (ih _)
    unfold read
    split
    · exact prefix_refl _
    · split
      · exact prefix_refl _
      · exact prefix_append _ _

theorem run_eq_leading (pieces : List (List α)) :
    let first := s.drain (leading limit 0 pieces).flatten
    (first.pending = none → run (s.read limit) Reader.start pieces = first) ∧
    (first.items = [] → run (s.read limit) Reader.start pieces =
      if pieces.flatten.length ≤ limit then first else ⟨[], none⟩) ∧
    (first.items ≠ [] → (run (s.read limit) Reader.start pieces).items ≠ []) := by
  obtain ⟨rest, equality, inside, overflow⟩ := exists_leading limit 0 pieces
  have small := inside (Nat.zero_le _)
  rw [Nat.zero_add] at small
  have soFar := run_read (fits_of_length (s := s) small)
  have whole : run (s.read limit) Reader.start pieces =
      run (s.read limit) (s.drain (leading limit 0 pieces).flatten) rest := by
    conv => lhs; rw [equality]
    rw [run_append, soFar]
  refine ⟨?_, ?_, ?_⟩
  · intro ended
    rw [whole, run_ended _ ended]
  · intro nothing
    cases rest with
    | nil =>
      rw [append_nil] at equality
      rw [← equality] at small
      rw [whole, run_nil, if_pos small]
    | cons piece more =>
      have beyond := overflow piece more rfl
      rw [Nat.zero_add] at beyond
      have long : ¬ pieces.flatten.length ≤ limit := by
        rw [equality, flatten_append, flatten_cons, length_append, length_append]
        omega
      rw [whole, if_neg long]
      cases left : (s.drain (leading limit 0 pieces).flatten).pending with
      | none =>
        rw [run_ended _ left]
        exact Reader.ext nothing left
      | some waiting =>
        have isAll := pending_of_items_nil nothing left
        have refused : s.read limit (s.drain (leading limit 0 pieces).flatten) piece =
              ⟨[], none⟩ := by
          rw [read, left]
          simp only [isAll, if_pos beyond, nothing]
        rw [run_cons, refused, run_ended _ rfl]
  · intro something
    rw [whole]
    intro nothing
    have grown := @items_run _ _ s limit (s.drain (leading limit 0 pieces).flatten) rest
    rw [nothing, prefix_nil] at grown
    exact something grown

end Scanner

structure Wire {α : Type u} {β : Type v} (s : Scanner α β) (γ : Type w) where
  encode : γ → List α
  view : γ → β
  scan_encode : ∀ frame later,
    s.scan (encode frame ++ later) = .found (view frame) (encode frame).length

namespace Wire

variable {α : Type u} {β : Type v} {γ : Type w} {s : Scanner α β}
  (wire : Wire s γ)

def stream (frames : List γ) : List α :=
  (frames.map wire.encode).flatten

def within : List γ → Nat → List γ
  | [], _ => []
  | frame :: rest, count =>
    if (wire.encode frame).length ≤ count then
      frame :: within rest (count - (wire.encode frame).length)
    else []

def due (frames : List γ) (count : Nat) : List β :=
  upTo s.last ((wire.within frames count).map wire.view)

def closes (frames : List γ) (count : Nat) : Bool :=
  ((wire.within frames count).map wire.view).any s.last

variable {wire}

@[simp]
theorem stream_nil : wire.stream [] = [] := rfl

@[simp]
theorem stream_cons (frame : γ) (rest : List γ) :
    wire.stream (frame :: rest) = wire.encode frame ++ wire.stream rest := rfl

theorem within_stream (frames : List γ) :
    wire.within frames (wire.stream frames).length = frames := by
  induction frames with
  | nil => rfl
  | cons frame rest ih =>
    rw [stream_cons, length_append, within, if_pos (Nat.le_add_right _ _), Nat.add_sub_cancel_left,
      ih]

theorem drain_start {frames : List γ} {bytes : List α} (starts : bytes <+: wire.stream frames) :
    (s.drain bytes).items = wire.due frames bytes.length ∧ ((s.drain bytes).pending = none ↔
        wire.closes frames bytes.length = true) := by
  induction frames generalizing bytes with
  | nil =>
    rw [stream_nil, prefix_nil] at starts
    subst starts
    rw [Scanner.drain_more s.scan_nil]
    simp [due, closes, within, upTo]
  | cons frame rest ih =>
    rw [stream_cons] at starts
    by_cases whole : (wire.encode frame).length ≤ bytes.length
    · obtain ⟨later, rfl⟩ := prefix_of_prefix_length_le (prefix_append _ _) starts whole
      have restStarts : later <+: wire.stream rest := (prefix_append_right_inj _).mp starts
      obtain ⟨sameItems, sameEnd⟩ := ih restStarts
      have count : (wire.encode frame ++ later).length -
          (wire.encode frame).length = later.length := by
        simp
      rw [Scanner.drain_found (wire.scan_encode frame later), drop_left]
      simp only [due, closes, within, if_pos whole, count, map_cons, any_cons, upTo]
      cases ends : s.last (wire.view frame) with
      | true => simp
      | false =>
        simp only [Bool.false_eq_true, if_false, Bool.false_or,
          Reader.items_after, Reader.pending_after]
        rw [sameItems, sameEnd]
        exact ⟨rfl, Iff.rfl⟩
    · have incomplete : s.scan bytes = .more := by
        by_contra decided
        obtain ⟨more, isMore⟩ := starts
        have same := s.stable decided more
        rw [isMore, wire.scan_encode] at same
        exact whole (s.size_found same.symm).2
      rw [Scanner.drain_more incomplete]
      simp [due, closes, within, if_neg whole, upTo]

def Faithful (wire : Wire s γ) (limit : Nat) (frames : List γ) (pieces : List (List α)) : Prop :=
  ∀ before after, pieces = before ++ after →
    let r := run (s.read limit) Reader.start before
    r.items = wire.due frames before.flatten.length ∧ (r.pending = none ↔
        wire.closes frames before.flatten.length = true)

theorem faithful_iff {limit : Nat} {frames : List γ}
    {pieces : List (List α)}
    (starts : pieces.flatten <+: wire.stream frames) :
    wire.Faithful limit frames pieces ↔
      Guarded (s.read limit) (Scanner.Fits limit) Reader.start pieces := by
  constructor
  · intro faithful before piece after equality buf waiting
    by_contra tooLong
    obtain ⟨itemsBefore, endBefore⟩ := faithful before (piece :: after) equality
    obtain ⟨itemsAfter, endAfter⟩ := faithful (before ++ [piece]) after (by simp [equality])
    have open_ : wire.closes frames before.flatten.length = false := by
      rw [← Bool.not_eq_true, ← endBefore, waiting]
      simp
    have next : s.read limit (run (s.read limit) Reader.start before) piece =
        { run (s.read limit) Reader.start before with pending := none } := by
      simp only [Scanner.read]
      rw [waiting]
      simp only [if_pos (Nat.lt_of_not_le tooLong)]
    rw [run_snoc, next] at itemsAfter endAfter
    have closed := endAfter.mp rfl
    rw [closes, ← any_upTo, ← due, ← itemsAfter, itemsBefore, due, any_upTo,
      ← closes, open_] at closed
    cases closed
  · intro fits before after equality
    have startsBefore : before.flatten <+: wire.stream frames := by
      refine List.IsPrefix.trans ?_ starts
      rw [equality, flatten_append]
      exact prefix_append _ _
    have initial : Guarded (s.read limit) (Scanner.Fits limit) Reader.start
        before := by
      rw [equality] at fits
      exact fits.initial
    simp only [Scanner.run_read initial]
    exact drain_start startsBefore

end Wire

end Cix.Lib
