import Mathlib.Data.Nat.Log
import Mathlib.Tactic.Ring

/-!
# Double precision numbers read from decimal text

A finite double is an integer multiple of `2 ^ -1074`, and that integer is a
significand of at most 53 bits times a power of two.  `ofRatio` rounds a
quotient of natural numbers to the nearest double, ties to even, which is what
`strtod` does with a decimal number.  Integers up to `2 ^ 53` are read back
exactly.
-/

namespace Cix.Lib

/-- The smallest positive double is `2 ^ -unitExponent`. -/
def unitExponent : Nat := 1074

def unitsPerOne : Nat := 2 ^ unitExponent

def infiniteUnits : Nat := 2 ^ (1024 + unitExponent)

theorem unitsPerOne_pos : 0 < unitsPerOne := Nat.two_pow_pos _

def RepresentableUnits (units : Nat) : Prop :=
  units < infiniteUnits ∧ ∃ significand exponent, significand < 2 ^ 53 ∧
      units = significand * 2 ^ exponent

structure Magnitude where
  units : Nat
  representable : RepresentableUnits units
  deriving DecidableEq

inductive Double where
  | finite (negative : Bool) (magnitude : Magnitude)
  | infinite (negative : Bool)
  deriving DecidableEq

namespace Double

def divHalfEven (dividend divisor : Nat) : Nat :=
  let quotient := dividend / divisor
  let rest := dividend % divisor
  if 2 * rest < divisor then quotient
  else if divisor < 2 * rest then quotient + 1
  else if quotient % 2 = 0 then quotient
  else quotient + 1

theorem divHalfEven_le (dividend divisor : Nat) :
    divHalfEven dividend divisor ≤ dividend / divisor + 1 := by
  unfold divHalfEven
  dsimp only
  split_ifs <;> omega

theorem divHalfEven_mul_left {divisor : Nat} (positive : 0 < divisor) (quotient : Nat) :
    divHalfEven (quotient * divisor) divisor = quotient := by
  unfold divHalfEven
  dsimp only
  rw [Nat.mul_mod_left, Nat.mul_div_cancel _ positive, if_pos (by omega)]

def lastPlace (units : Nat) : Nat :=
  units.log2 - 52

/-- The nearest multiple of the unit in the last place of
`numerator / denominator`, in units. -/
def roundUnits (numerator denominator : Nat) : Nat :=
  let exact := numerator * unitsPerOne
  let place := lastPlace (exact / denominator)
  divHalfEven exact (denominator * 2 ^ place) * 2 ^ place

theorem div_lastPlace_lt (units : Nat) : units / 2 ^ lastPlace units < 2 ^ 53 := by
  apply (Nat.div_lt_iff_lt_mul (Nat.two_pow_pos _)).mpr
  have bound : units < 2 ^ (units.log2 + 1) := Nat.lt_log2_self
  have wider : units.log2 + 1 ≤ 53 + lastPlace units := by
    unfold lastPlace
    omega
  calc units < 2 ^ (units.log2 + 1) := bound
    _ ≤ 2 ^ (53 + lastPlace units) :=
        Nat.pow_le_pow_right (by omega) wider
    _ = 2 ^ 53 * 2 ^ lastPlace units := Nat.pow_add 2 53 _

theorem roundUnits_significand (numerator denominator : Nat) :
    ∃ significand exponent, significand < 2 ^ 53 ∧
      roundUnits numerator denominator = significand * 2 ^ exponent := by
  unfold roundUnits
  dsimp only
  generalize numerator * unitsPerOne = exact
  generalize placeEq : lastPlace (exact / denominator) = place
  have small : exact / (denominator * 2 ^ place) < 2 ^ 53 := by
    rw [← Nat.div_div_eq_div_mul, ← placeEq]
    exact div_lastPlace_lt _
  have bound := divHalfEven_le exact (denominator * 2 ^ place)
  by_cases carried : divHalfEven exact (denominator * 2 ^ place) = 2 ^ 53
  · refine ⟨2 ^ 52, place + 1, by omega, ?_⟩
    rw [carried, Nat.pow_succ 2 place, Nat.pow_succ 2 52]
    ring
  · exact ⟨_, place, by omega, rfl⟩

theorem le_roundUnits {numerator units : Nat} (representable : RepresentableUnits units)
    (below : units ≤ numerator * unitsPerOne) :
    units ≤ roundUnits numerator 1 := by
  obtain ⟨significand, exponent, small, value⟩ := representable.2
  unfold roundUnits
  dsimp only
  generalize numerator * unitsPerOne = exact at below ⊢
  rw [Nat.div_one, Nat.one_mul]
  generalize placeEq : lastPlace exact = place
  have floor : exact / 2 ^ place * 2 ^ place ≤ divHalfEven exact (2 ^ place) * 2 ^ place := by
    apply Nat.mul_le_mul_right
    unfold divHalfEven
    dsimp only
    split_ifs <;> omega
  refine Nat.le_trans ?_ floor
  by_cases fine : place ≤ exponent
  · -- the magnitude is a multiple of the last place
    obtain ⟨extra, sum⟩ := Nat.exists_eq_add_of_le fine
    have multiple : units = significand * 2 ^ extra * 2 ^ place := by
      rw [value, sum, Nat.pow_add]
      ring
    rw [multiple] at below ⊢
    apply Nat.mul_le_mul_right
    exact (Nat.le_div_iff_mul_le (Nat.two_pow_pos _)).mpr below
  · -- the magnitude is below every significand of that last place
    have coarse : exact.log2 = 52 + place := by
      unfold lastPlace at placeEq
      omega
    have large : 2 ^ 52 ≤ exact / 2 ^ place := by
      apply (Nat.le_div_iff_mul_le (Nat.two_pow_pos _)).mpr
      rw [← Nat.pow_add, ← coarse]
      apply Nat.log2_self_le
      intro zero
      rw [zero, Nat.log2_zero] at coarse
      omega
    calc units ≤ 2 ^ 53 * 2 ^ exponent := by
          rw [value]
          exact Nat.mul_le_mul_right _ (Nat.le_of_lt small)
      _ = 2 ^ (53 + exponent) := (Nat.pow_add 2 53 exponent).symm
      _ ≤ 2 ^ (52 + place) := Nat.pow_le_pow_right (by omega) (by omega)
      _ = 2 ^ 52 * 2 ^ place := Nat.pow_add 2 52 place
      _ ≤ exact / 2 ^ place * 2 ^ place := Nat.mul_le_mul_right _ large

theorem roundUnits_le {numerator units : Nat} (representable : RepresentableUnits units)
    (above : numerator * unitsPerOne ≤ units) :
    roundUnits numerator 1 ≤ units := by
  obtain ⟨significand, exponent, small, value⟩ := representable.2
  unfold roundUnits
  dsimp only
  generalize numerator * unitsPerOne = exact at above ⊢
  rw [Nat.div_one, Nat.one_mul]
  generalize placeEq : lastPlace exact = place
  have positive : 0 < 2 ^ place := Nat.two_pow_pos _
  by_cases fine : place ≤ exponent
  · obtain ⟨extra, sum⟩ := Nat.exists_eq_add_of_le fine
    have multiple : units = significand * 2 ^ extra * 2 ^ place := by
      rw [value, sum, Nat.pow_add]
      ring
    rw [multiple] at above ⊢
    apply Nat.mul_le_mul_right
    generalize significand * 2 ^ extra = whole at above
    rcases Nat.eq_or_lt_of_le above with same | less
    · rw [same, divHalfEven_mul_left positive]
    · have quotient : exact / 2 ^ place < whole := (Nat.div_lt_iff_lt_mul positive).mpr less
      exact Nat.le_trans (divHalfEven_le _ _) quotient
  · exfalso
    have coarse : exact.log2 = 52 + place := by
      unfold lastPlace at placeEq
      omega
    have large : 2 ^ (52 + place) ≤ exact := by
      rw [← coarse]
      apply Nat.log2_self_le
      intro zero
      rw [zero, Nat.log2_zero] at coarse
      omega
    have less : units < 2 ^ (53 + exponent) := by
      rw [value, Nat.pow_add]
      exact Nat.mul_lt_mul_of_pos_right small (Nat.two_pow_pos _)
    have places : 2 ^ (53 + exponent) ≤ 2 ^ (52 + place) :=
      Nat.pow_le_pow_right (by omega) (by omega)
    omega

theorem roundUnits_of_representable {n : Nat}
    (representable : RepresentableUnits (n * unitsPerOne)) :
    roundUnits n 1 = n * unitsPerOne :=
  Nat.le_antisymm (roundUnits_le representable (Nat.le_refl _))
    (le_roundUnits representable (Nat.le_refl _))

theorem divHalfEven_mono {first second : Nat} (divisor : Nat) (ordered : first ≤ second) :
    divHalfEven first divisor ≤ divHalfEven second divisor := by
  have quotients : first / divisor ≤ second / divisor := Nat.div_le_div_right ordered
  rcases Nat.eq_or_lt_of_le quotients with same | less
  · have firstParts := Nat.div_add_mod first divisor
    have secondParts := Nat.div_add_mod second divisor
    rw [same] at firstParts
    unfold divHalfEven
    dsimp only
    rw [same]
    generalize divisor * (second / divisor) = whole at *
    split_ifs <;> omega
  · have up := divHalfEven_le first divisor
    have down : second / divisor ≤ divHalfEven second divisor := by
      unfold divHalfEven
      dsimp only
      split_ifs <;> omega
    omega

theorem powerUnits_representable {exponent : Nat} (bounded : exponent < 1024 + unitExponent) :
    RepresentableUnits (2 ^ exponent) := by
  refine ⟨Nat.pow_lt_pow_right (by omega) bounded, 1, exponent, ?_, ?_⟩
  · exact Nat.one_lt_two_pow (by omega)
  · rw [Nat.one_mul]

theorem roundUnits_mono {first second : Nat} (ordered : first ≤ second)
    (bounded : second * unitsPerOne < infiniteUnits) :
    roundUnits first 1 ≤ roundUnits second 1 := by
  have exactOrder : first * unitsPerOne ≤ second * unitsPerOne := Nat.mul_le_mul_right _ ordered
  have logs : (first * unitsPerOne).log2 ≤ (second * unitsPerOne).log2 := by
    rw [Nat.log2_eq_log_two, Nat.log2_eq_log_two]
    exact Nat.log_mono_right exactOrder
  by_cases same : lastPlace (first * unitsPerOne) = lastPlace (second * unitsPerOne)
  · unfold roundUnits
    dsimp only
    rw [Nat.div_one, Nat.div_one, same]
    exact Nat.mul_le_mul_right _ (divHalfEven_mono _ exactOrder)
  · -- a power of two lies between them
    have apart : (first * unitsPerOne).log2 < (second * unitsPerOne).log2 := by
      unfold lastPlace at same
      omega
    have positive : second * unitsPerOne ≠ 0 := by
      intro zero
      rw [zero, Nat.log2_zero] at apart
      omega
    have power : 2 ^ (second * unitsPerOne).log2 ≤ second * unitsPerOne :=
      Nat.log2_self_le positive
    have representable : RepresentableUnits (2 ^ (second * unitsPerOne).log2) := by
      apply powerUnits_representable
      apply (Nat.pow_lt_pow_iff_right (Nat.one_lt_two)).mp
      exact Nat.lt_of_le_of_lt power bounded
    have above : first * unitsPerOne ≤ 2 ^ (second * unitsPerOne).log2 := by
      apply Nat.le_of_lt
      calc first * unitsPerOne
          < 2 ^ ((first * unitsPerOne).log2 + 1) := Nat.lt_log2_self
        _ ≤ 2 ^ (second * unitsPerOne).log2 :=
            Nat.pow_le_pow_right (by omega) apart
    exact Nat.le_trans (roundUnits_le representable above) (le_roundUnits representable power)

def ofRatio (negative : Bool) (numerator denominator : Nat) : Double :=
  if bounded : roundUnits numerator denominator < infiniteUnits then
    .finite negative ⟨roundUnits numerator denominator, bounded,
      roundUnits_significand numerator denominator⟩
  else .infinite negative

/-- `digits * 10 ^ exponent`, rounded to a double. -/
def ofDecimal (negative : Bool) (digits : Nat) : (exponent : Int) → Double
  | .ofNat exponent => ofRatio negative (digits * 10 ^ exponent) 1
  | .negSucc exponent => ofRatio negative digits (10 ^ (exponent + 1))

theorem natUnits_representable {n : Nat} (bounded : n ≤ 2 ^ 53) :
    RepresentableUnits (n * unitsPerOne) := by
  constructor
  · unfold unitsPerOne infiniteUnits
    calc n * 2 ^ unitExponent
        ≤ 2 ^ 53 * 2 ^ unitExponent := Nat.mul_le_mul_right _ bounded
      _ = 2 ^ (53 + unitExponent) := by rw [Nat.pow_add]
      _ < 2 ^ (1024 + unitExponent) :=
          Nat.pow_lt_pow_right (by omega) (by omega)
  · by_cases top : n = 2 ^ 53
    · refine ⟨2 ^ 52, 1 + unitExponent, by omega, ?_⟩
      rw [top, unitsPerOne, ← Nat.pow_add, ← Nat.pow_add, ← Nat.add_assoc]
    · exact ⟨n, unitExponent, by omega, by rw [unitsPerOne]⟩

structure Whole where
  value : Int
  bounded : value.natAbs ≤ 2 ^ 53
  deriving DecidableEq

def Whole.ofInt (v : Int) : Whole :=
  if bounded : v.natAbs ≤ 2 ^ 53 then ⟨v, bounded⟩ else ⟨0, by decide⟩

theorem Whole.ofInt_value {v : Int} (bounded : v.natAbs ≤ 2 ^ 53) : (Whole.ofInt v).value = v := by
  rw [Whole.ofInt, dif_pos bounded]

def ofWhole (n : Whole) : Double :=
  .finite (decide (n.value < 0)) ⟨n.value.natAbs * unitsPerOne, natUnits_representable n.bounded⟩

theorem log_two_mul_two_pow {n : Nat} (positive : n ≠ 0) (exponent : Nat) :
    Nat.log 2 (n * 2 ^ exponent) = Nat.log 2 n + exponent := by
  induction exponent with
  | zero => simp
  | succ exponent ih =>
    have nonzero : n * 2 ^ exponent ≠ 0 := Nat.mul_ne_zero positive (Nat.two_pow_pos _).ne'
    rw [Nat.pow_succ, ← Nat.mul_assoc, Nat.log_mul_base (by omega) nonzero, ih]
    omega

theorem log2_mul_unitsPerOne {n : Nat} (positive : n ≠ 0) :
    (n * unitsPerOne).log2 = n.log2 + unitExponent := by
  rw [Nat.log2_eq_log_two, Nat.log2_eq_log_two, unitsPerOne]
  exact log_two_mul_two_pow positive _

theorem roundUnits_of_nat {n : Nat} (bounded : n ≤ 2 ^ 53) : roundUnits n 1 = n * unitsPerOne := by
  unfold roundUnits
  dsimp only
  rw [Nat.div_one, Nat.one_mul]
  by_cases zero : n = 0
  · rw [zero, Nat.zero_mul]
    decide
  · have divides : 2 ^ lastPlace (n * unitsPerOne) ∣ n * unitsPerOne := by
      rw [lastPlace, log2_mul_unitsPerOne zero]
      by_cases top : n = 2 ^ 53
      · rw [top, unitsPerOne, ← Nat.pow_add, Nat.log2_two_pow]
        exact Nat.pow_dvd_pow 2 (by omega)
      · have small : n.log2 < 53 := (Nat.log2_lt zero).mpr (by omega)
        apply Dvd.dvd.mul_left
        unfold unitsPerOne
        exact Nat.pow_dvd_pow 2 (by omega)
    generalize lastPlace (n * unitsPerOne) = place at divides ⊢
    obtain ⟨quotient, equality⟩ := divides
    rw [equality, Nat.mul_comm _ quotient, divHalfEven_mul_left (Nat.two_pow_pos _)]

theorem ofDecimal_natAbs (n : Whole) :
    ofDecimal (decide (n.value < 0)) n.value.natAbs 0 = ofWhole n := by
  have exact : roundUnits n.value.natAbs 1 =
      n.value.natAbs * unitsPerOne := roundUnits_of_nat n.bounded
  have finite : roundUnits n.value.natAbs 1 < infiniteUnits := by
    rw [exact]
    exact (natUnits_representable n.bounded).1
  change ofRatio _ (n.value.natAbs * 10 ^ 0) 1 = _
  rw [Nat.pow_zero, Nat.mul_one, ofRatio, dif_pos finite, ofWhole]
  congr 2

def signedUnits (negative : Bool) (magnitude : Magnitude) : Int :=
  if negative then -(magnitude.units : Int) else magnitude.units

/-- `v < bound` for an integer bound. -/
def ltInt (v : Double) (bound : Int) : Bool :=
  match v with
  | .finite negative magnitude => signedUnits negative magnitude < bound * unitsPerOne
  | .infinite negative => negative

/-- `v > bound` for an integer bound. -/
def gtInt (v : Double) (bound : Int) : Bool :=
  match v with
  | .finite negative magnitude => signedUnits negative magnitude > bound * unitsPerOne
  | .infinite negative => !negative

/-- The number without its fraction; an infinity has none and gives 0. -/
def truncate (v : Double) : Int :=
  match v with
  | .finite negative magnitude => (signedUnits negative magnitude).tdiv unitsPerOne
  | .infinite _ => 0

/-- `(long long) v`. Outside the range of the type the machine's conversion gives
the smallest number. -/
def toLongLong (v : Double) : Int :=
  match v with
  | .finite _ _ =>
    if -(2 ^ 63) ≤ v.truncate ∧ v.truncate < 2 ^ 63 then v.truncate
    else -(2 ^ 63)
  | .infinite _ => -(2 ^ 63)

def toInt64 (v : Double) : Int64 :=
  Int64.ofInt v.toLongLong

/-- `(int) v`, with the smallest `int` outside the range. -/
def toInt (v : Double) : Int32 :=
  match v with
  | .finite _ _ =>
    if -(2 ^ 31) ≤ v.truncate ∧ v.truncate < 2 ^ 31 then Int32.ofInt v.truncate
    else Int32.minValue
  | .infinite _ => Int32.minValue

/-- `v == (double) n` for an integer `n`. -/
def eqInt (v : Double) (n : Int) : Bool :=
  match v with
  | .finite negative magnitude => signedUnits negative magnitude = n * unitsPerOne
  | .infinite _ => false

def zero : Double := ofWhole ⟨0, by decide⟩

theorem signedUnits_ofWhole (n : Whole) : signedUnits (decide (n.value < 0))
        ⟨n.value.natAbs * unitsPerOne, natUnits_representable n.bounded⟩ =
      n.value * unitsPerOne := by
  unfold signedUnits
  dsimp only
  generalize unitsPerOne = unit
  rw [Nat.cast_mul]
  by_cases negative : n.value < 0
  · have abs : (n.value.natAbs : Int) = -n.value := by omega
    rw [if_pos (decide_eq_true negative), abs, Int.neg_mul, Int.neg_neg]
  · have abs : (n.value.natAbs : Int) = n.value := by omega
    rw [if_neg (by rw [decide_eq_true_iff]; exact negative), abs]

@[simp]
theorem truncate_ofWhole (n : Whole) : (ofWhole n).truncate = n.value := by
  have positive : (unitsPerOne : Int) ≠ 0 := by
    have := unitsPerOne_pos
    omega
  change (signedUnits _ _).tdiv _ = _
  rw [signedUnits_ofWhole, Int.mul_tdiv_cancel _ positive]

theorem eqInt_ofWhole (n : Whole) (m : Int) : (ofWhole n).eqInt m =
      decide (n.value * unitsPerOne = m * unitsPerOne) := by
  rw [ofWhole, eqInt, signedUnits_ofWhole]

theorem truncate_of_eqInt {v : Double} {n : Int} (equal : v.eqInt n = true) : v.truncate = n := by
  cases v with
  | finite negative magnitude =>
    have units : signedUnits negative magnitude = n * unitsPerOne := by
      rw [eqInt] at equal
      exact of_decide_eq_true equal
    have positive : (unitsPerOne : Int) ≠ 0 := by
      have := unitsPerOne_pos
      omega
    change (signedUnits negative magnitude).tdiv _ = _
    rw [units, Int.mul_tdiv_cancel _ positive]
  | infinite negative => cases equal

theorem toLongLong_of_eqInt {v : Double} {n : Whole}
    (equal : v.eqInt n.value = true) : v.toLongLong = n.value := by
  have value := truncate_of_eqInt equal
  have bounded := n.bounded
  cases v with
  | finite negative magnitude => rw [toLongLong, value, if_pos (by omega)]
  | infinite negative => cases equal

theorem toLongLong_ofWhole (n : Whole) : (ofWhole n).toLongLong = n.value := by
  apply toLongLong_of_eqInt
  rw [eqInt_ofWhole, decide_eq_true_iff]

theorem toInt_ofInt {v : Int} (low : -(2 ^ 31) ≤ v) (high : v < 2 ^ 31) :
    (ofWhole (Whole.ofInt v)).toInt.toInt = v := by
  have value := truncate_ofWhole (Whole.ofInt v)
  rw [Whole.ofInt_value (by omega)] at value
  rw [ofWhole] at value ⊢
  rw [toInt, value, if_pos ⟨low, high⟩]
  exact Int32.toInt_ofInt_of_le low high

theorem zero_eqInt_zero : zero.eqInt 0 = true := by
  rw [zero, eqInt_ofWhole, decide_eq_true_iff]

end Double

end Cix.Lib
