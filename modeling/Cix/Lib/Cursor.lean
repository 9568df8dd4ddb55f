import Mathlib.Data.List.Basic
import Mathlib.Algebra.Group.Nat.Defs
import Mathlib.Algebra.Group.Int.Defs

/-!
# Cursors

A reader of untrusted bytes holds a position and how many bytes are left, and
computes lengths in types of a fixed width.  The same reader is given over
arithmetic that wraps around and over the integers; it is sound when the two
agree, when it reads inside of its area only, and when what is left ends where
it ended before.
-/

namespace Cix.Lib

abbrev Arithmetic := Nat → Int → Int

def wrapping : Arithmetic := fun width v => v % 2 ^ width

def unbounded : Arithmetic := fun _ v => v

theorem wrapping_of_fits {width : Nat} {v : Int} (nonneg : 0 ≤ v)
    (fits : v < 2 ^ width) : wrapping width v = unbounded width v :=
  Int.emod_eq_of_lt nonneg fits

/-- An area of memory; its length is a `size_t`. -/
structure Area where
  bytes : List UInt8
  addressable : bytes.length < 2 ^ 64

/-- `fault` is an access outside of the area, `unending` a loop that has not ended
within its turns. -/
inductive Outcome (ε α : Type) where
  | fault
  | unending
  | refused (e : ε)
  | ok (a : α)
  deriving DecidableEq

namespace Outcome

variable {ε ε' α β : Type}

def bind (o : Outcome ε α) (next : α → Outcome ε β) : Outcome ε β :=
  match o with
  | fault => fault
  | unending => unending
  | refused e => refused e
  | ok a => next a

def reported (e : ε') (o : Outcome ε α) : Outcome ε' α :=
  match o with
  | fault => fault
  | unending => unending
  | refused _ => refused e
  | ok a => ok a

def Ends (o : Outcome ε α) : Prop :=
  match o with
  | fault | unending => False
  | refused _ | ok _ => True

end Outcome

structure Cursor where
  (pos left : Int)
  deriving DecidableEq

structure Cursor.Within (r : Cursor) (area : Area) : Prop where
  pos_nonneg : 0 ≤ r.pos
  left_nonneg : 0 ≤ r.left
  inside : r.pos + r.left ≤ area.bytes.length

structure Cursor.Continues (r next : Cursor) : Prop where
  forward : r.pos ≤ next.pos
  left_nonneg : 0 ≤ next.left
  same_end : next.pos + next.left = r.pos + r.left

theorem Cursor.Within.continues {area : Area} {r next : Cursor}
    (within : r.Within area) (continues : r.Continues next) :
    next.Within area where
  pos_nonneg := Int.le_trans within.pos_nonneg continues.forward
  left_nonneg := continues.left_nonneg
  inside := continues.same_end ▸ within.inside

variable {ε α β : Type} {area : Area}

def load (area : Area) (i : Int) : Outcome ε Nat :=
  if i < 0 then .fault
  else
    match area.bytes[i.toNat]? with
    | none => .fault
    | some c => .ok c.toNat

def Cursor.advance (a : Arithmetic) (n : Int) (r : Cursor) : Cursor :=
  ⟨r.pos + n, a 64 (r.left - n)⟩

def readU8 (a : Arithmetic) (area : Area) (e : ε) (r : Cursor) : Outcome ε (Nat × Cursor) :=
  if r.left < 1 then .refused e
  else (load area r.pos).bind fun c => .ok (c, r.advance a 1)

/-- The octets have bits of their own, so that `|` adds them. -/
def readU16 (a : Arithmetic) (area : Area) (e : ε) (r : Cursor) : Outcome ε (Int × Cursor) :=
  if r.left < 2 then .refused e
  else
    (load area r.pos).bind fun c =>
      (load area (r.pos + 1)).bind fun d =>
        .ok (a 32 (a 32 (c * 2 ^ 8) + d), r.advance a 2)

def readU32 (a : Arithmetic) (area : Area) (e : ε) (r : Cursor) : Outcome ε (Int × Cursor) :=
  if r.left < 4 then .refused e
  else
    (load area r.pos).bind fun b =>
      (load area (r.pos + 1)).bind fun c =>
        (load area (r.pos + 2)).bind fun d =>
          (load area (r.pos + 3)).bind fun e =>
            .ok (a 64 (a 64 (b * 2 ^ 24) + a 64 (c * 2 ^ 16) + a 64 (d * 2 ^ 8) + e), r.advance a 4)

def skip (a : Arithmetic) (n : Int) (e : ε) (r : Cursor) : Outcome ε (Unit × Cursor) :=
  if r.left < n then .refused e else .ok ((), r.advance a n)

def Leaves (r : Cursor) (o : Outcome ε (α × Cursor)) (holds : α → Cursor → Prop) : Prop :=
  match o with
  | .fault | .unending => False
  | .refused _ => True
  | .ok (v, next) => r.Continues next ∧ holds v next

def Sound (r : Cursor) (read : Arithmetic → Outcome ε (α × Cursor))
    (holds : α → Cursor → Prop) : Prop :=
  read wrapping = read unbounded ∧ Leaves r (read unbounded) holds

variable {r : Cursor} {holds : α → Cursor → Prop}

variable {o : Outcome ε (α × Cursor)}

theorem Leaves.ends (leaves : Leaves r o holds) :
    o.Ends := by
  cases o with
  | fault | unending => exact leaves
  | refused | ok => exact trivial

theorem Leaves.after {r' : Cursor} (continues : r.Continues r') (leaves : Leaves r' o holds) :
    Leaves r o holds := by
  cases o with
  | fault | unending | refused => exact leaves
  | ok found =>
    obtain ⟨continues', held⟩ := leaves
    exact ⟨⟨Int.le_trans continues.forward continues'.forward, continues'.left_nonneg,
      continues'.same_end.trans continues.same_end⟩, held⟩

theorem Leaves.mono (leaves : Leaves r o holds)
    {holds' : α → Cursor → Prop}
    (weaker : ∀ v next, r.Continues next → holds v next → holds' v next) :
    Leaves r o holds' := by
  cases o with
  | fault | unending | refused => exact leaves
  | ok found => exact ⟨leaves.1, weaker _ _ leaves.1 leaves.2⟩

theorem Sound.mono {read : Arithmetic → Outcome ε (α × Cursor)}
    (sound : Sound r read holds) {holds' : α → Cursor → Prop}
    (weaker : ∀ v next, r.Continues next → holds v next → holds' v next) :
    Sound r read holds' :=
  ⟨sound.1, sound.2.mono weaker⟩

theorem Sound.refused (e : ε) : Sound r (fun _ => .refused e) holds :=
  ⟨rfl, trivial⟩

theorem Sound.ok {v : α} (nonneg : 0 ≤ r.left) (held : holds v r) :
    Sound r (fun _ => (.ok (v, r) : Outcome ε (α × Cursor))) holds :=
  ⟨rfl, ⟨Int.le_refl _, nonneg, rfl⟩, held⟩

theorem Sound.bind {read : Arithmetic → Outcome ε (α × Cursor)}
    {next : Arithmetic → α × Cursor → Outcome ε (β × Cursor)}
    {holds' : β → Cursor → Prop} (first : Sound r read holds)
    (later : ∀ v r', holds v r' → r.Continues r' → Sound r' (fun a => next a (v, r')) holds') :
    Sound r (fun a => (read a).bind (next a)) holds' := by
  obtain ⟨same, leaves⟩ := first
  rw [Sound, same]
  cases result : read unbounded with
  | fault | unending =>
    rw [result] at leaves
    exact leaves.elim
  | refused e => exact ⟨rfl, trivial⟩
  | ok found =>
    rw [result] at leaves
    obtain ⟨same', leaves'⟩ := later _ _ leaves.2 leaves.1
    exact ⟨same', leaves'.after leaves.1⟩

theorem load_eq_ok (ε : Type) (area : Area) {i : Int} (nonneg : 0 ≤ i)
    (inside : i < area.bytes.length) :
    ∃ c < 256, (load area i : Outcome ε Nat) = .ok c := by
  have bound : i.toNat < area.bytes.length := by omega
  refine ⟨area.bytes[i.toNat].toNat, UInt8.toNat_lt _, ?_⟩
  rw [load, if_neg (by omega), List.getElem?_eq_getElem bound]

theorem Cursor.Within.advance (within : r.Within area) {n : Int}
    (nonneg : 0 ≤ n) (room : n ≤ r.left) :
    r.advance wrapping n = r.advance unbounded n ∧ r.Continues (r.advance unbounded n) := by
  have addressable := area.addressable
  have inside := within.inside
  have start := within.pos_nonneg
  have fits := @wrapping_of_fits 64 (r.left - n) (by omega) (by omega)
  refine ⟨?_, ?_, ?_, ?_⟩
  · rw [Cursor.advance, fits]
    rfl
  all_goals
    simp only [Cursor.advance, unbounded]
    omega

theorem sound_advance (within : r.Within area) {n : Int} (nonneg : 0 ≤ n)
    (room : n ≤ r.left) {v : Arithmetic → α}
    (same : v wrapping = v unbounded)
    (held : holds (v unbounded) (r.advance unbounded n)) :
    Sound r (fun a => (.ok (v a, r.advance a n) : Outcome ε (α × Cursor)))
      holds := by
  obtain ⟨same', continues⟩ := within.advance nonneg room
  exact ⟨by simp only [same, same'], continues, held⟩

theorem sound_readU8 (within : r.Within area) (e : ε) :
    Sound r (fun a => readU8 a area e r) fun v next =>
      v < 256 ∧ next.pos = r.pos + 1 := by
  by_cases short : r.left < 1
  · simp only [readU8, if_pos short]
    exact Sound.refused e
  · have inside := within.inside
    obtain ⟨c, small, loaded⟩ := load_eq_ok ε area within.pos_nonneg (by omega)
    simp only [readU8, if_neg short, loaded, Outcome.bind]
    exact sound_advance within (by omega) (by omega) rfl ⟨small, rfl⟩

theorem sound_readU16 (within : r.Within area) (e : ε) :
    Sound r (fun a => readU16 a area e r) fun v _ => 0 ≤ v ∧ v < 2 ^ 16 := by
  by_cases short : r.left < 2
  · simp only [readU16, if_pos short]
    exact Sound.refused e
  · have inside := within.inside
    have start := within.pos_nonneg
    obtain ⟨c, small, loaded⟩ := load_eq_ok ε area start (by omega)
    obtain ⟨d, small', loaded'⟩ := load_eq_ok ε area (by omega : 0 ≤ r.pos + 1) (by omega)
    simp only [readU16, if_neg short, loaded, loaded', Outcome.bind]
    refine sound_advance within (by omega) (by omega) ?_ ?_
    all_goals
      simp only [wrapping, unbounded]
      omega

theorem sound_readU32 (within : r.Within area) (e : ε) :
    Sound r (fun a => readU32 a area e r) fun v _ => 0 ≤ v ∧ v < 2 ^ 32 := by
  by_cases short : r.left < 4
  · simp only [readU32, if_pos short]
    exact Sound.refused e
  · have inside := within.inside
    have start := within.pos_nonneg
    obtain ⟨b, smallB, loadedB⟩ := load_eq_ok ε area start (by omega)
    obtain ⟨c, smallC, loadedC⟩ := load_eq_ok ε area (by omega : 0 ≤ r.pos + 1) (by omega)
    obtain ⟨d, smallD, loadedD⟩ := load_eq_ok ε area (by omega : 0 ≤ r.pos + 2) (by omega)
    obtain ⟨f, smallF, loadedF⟩ := load_eq_ok ε area (by omega : 0 ≤ r.pos + 3) (by omega)
    simp only [readU32, if_neg short, loadedB, loadedC, loadedD, loadedF, Outcome.bind]
    refine sound_advance within (by omega) (by omega) ?_ ?_
    all_goals
      simp only [wrapping, unbounded]
      omega

theorem sound_skip (within : r.Within area) {n : Int} (nonneg : 0 ≤ n) (e : ε) :
    Sound r (fun a => skip a n e r) fun _ next => next.pos = r.pos + n := by
  by_cases short : r.left < n
  · simp only [skip, if_pos short]
    exact Sound.refused e
  · simp only [skip, if_neg short]
    exact sound_advance within nonneg (by omega) rfl rfl

end Cix.Lib
