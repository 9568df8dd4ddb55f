import Mathlib.Data.Int.Basic
import Mathlib.Order.Basic
import Mathlib.Tactic.IntervalCases

/-!
# The last occurrence of a time of day

`prev_wallclock` of `daemon/src/scheduler.c`.  Local time is given by its
offset to UTC at every instant, whatever history that offset has, and by
`mktime`, which finds the instant at which the clock shows a reading if there
is one.  A day is a number, and day 0 is a Thursday.
-/

namespace Cix.Scheduler

/-- `localtime_r` and `mktime`. -/
structure Zone where
  /-- The offset to UTC, in seconds. -/
  offset : Int → Int
  /-- The instant at which the clock shows a reading; of those that it never
  shows, and of those that it shows twice, the C library chooses one. -/
  mktime : Int → Int
  mktime_shown : ∀ reading instant, instant + offset instant = reading →
    mktime reading + offset (mktime reading) = reading
  /-- Offsets stay within the 25 hours west and 26 hours east of a time zone file. -/
  offset_bounds : ∀ instant, -90000 < offset instant ∧ offset instant < 93600
  mktime_bounds : ∀ reading, reading - 93600 < mktime reading ∧ mktime reading < reading + 90000

def Zone.reading (zone : Zone) (instant : Int) : Int :=
  instant + zone.offset instant

def Zone.day (zone : Zone) (instant : Int) : Int :=
  zone.reading instant / 86400

/-- `tm_wday`, from Sunday on. -/
def weekdayOf (day : Int) : Int := (day + 4) % 7

/-- What `parse_hhmm` lets through, with the weekday of a weekly job. -/
structure TimeOfDay where
  hour : Fin 24
  minute : Fin 60
  weekday : Option (Fin 7)
  deriving DecidableEq

variable (zone : Zone) (time : TimeOfDay)

/-- `mktime` for the time on a day. -/
def Zone.at (day : Int) : Int :=
  zone.mktime (day * 86400 + (time.hour : Nat) * 3600 + (time.minute : Nat) * 60)

/-- The loop of `prev_wallclock`: day after day back to the weekday. -/
def stepBack (weekday : Fin 7) : (steps : Nat) → Int → Int
  | 0, candidate => candidate
  | steps + 1, candidate =>
    if weekdayOf (zone.day candidate) = (weekday : Nat) then candidate
    else stepBack weekday steps (zone.at time (zone.day candidate - 1))

def prevWallclock (now : Int) : Int :=
  let today := zone.at time (zone.day now)
  let candidate := if today > now then today - 24 * 3600 else today
  match time.weekday with
  | none => candidate
  | some weekday => stepBack zone time weekday 8 candidate

def TimeOfDay.on (day : Int) : Prop :=
  ∀ weekday ∈ time.weekday, weekdayOf day = (weekday : Fin 7).val

instance (day : Int) : Decidable (time.on day) :=
  inferInstanceAs (Decidable (∀ _ ∈ _, _))

def Occurrence (instant : Int) : Prop :=
  ∃ day, time.on day ∧ instant = zone.at time day

/-- The last occurrence that is not after `now`. -/
def LastOccurrence (now instant : Int) : Prop :=
  Occurrence zone time instant ∧ instant ≤ now ∧
    ∀ other, Occurrence zone time other → other ≤ now → other ≤ instant

/-- Around `now`, from ten days before to three days after, the times of successive
days come one after another; if today's is still to come, yesterday's lies 24 hours
before it; and where a weekday is looked for, each time lies on its own day. -/
structure Regular (now : Int) : Prop where
  past : ∀ day, zone.day now - 4 < day → day < zone.day now → zone.at time day ≤ now
  coming : ∀ day, zone.day now < day → day < zone.day now + 4 → now < zone.at time day
  order : ∀ day other, zone.day now - 8 < other → other - 4 < day → day < other →
    other ≤ zone.day now → zone.at time day < zone.at time other
  yesterday : now < zone.at time (zone.day now) → time.on (zone.day now - 1) →
    zone.at time (zone.day now - 1) = zone.at time (zone.day now) - 86400
  own : time.weekday.isSome → ∀ day, zone.day now - 8 < day → day ≤ zone.day now →
    zone.day (zone.at time day) = day
  stepped : time.weekday.isSome → now < zone.at time (zone.day now) →
    zone.day (zone.at time (zone.day now) - 86400) = zone.day now - 1

variable {zone time}

theorem day_bounds (instant : Int) : zone.day instant * 86400 - 93600 < instant ∧
    instant < zone.day instant * 86400 + 176400 := by
  have bounds := zone.offset_bounds instant
  unfold Zone.day Zone.reading
  omega

theorem at_bounds (day : Int) : day * 86400 - 93600 < zone.at time day ∧
    zone.at time day < day * 86400 + 176400 := by
  have bounds := zone.mktime_bounds
    (day * 86400 + (time.hour : Nat) * 3600 + (time.minute : Nat) * 60)
  have hour := time.hour.isLt
  have minute := time.minute.isLt
  unfold Zone.at
  omega

theorem at_lt_at {day other : Int} (far : day + 4 ≤ other) :
    zone.at time day < zone.at time other := by
  have before := @at_bounds zone time day
  have after := @at_bounds zone time other
  omega

section Regular

variable {now : Int} (regular : Regular zone time now)
include regular

theorem Regular.at_le {day : Int} (before : day < zone.day now) : zone.at time day ≤ now := by
  by_cases near : zone.day now - 4 < day
  · exact regular.past day near before
  · have bounds := @at_bounds zone time day
    have today := @day_bounds zone now
    omega

theorem Regular.lt_at {day : Int} (after : zone.day now < day) : now < zone.at time day := by
  by_cases near : day < zone.day now + 4
  · exact regular.coming day after near
  · have bounds := @at_bounds zone time day
    have today := @day_bounds zone now
    omega

theorem Regular.at_lt {day other : Int} (recent : zone.day now - 8 < other) (before : day < other)
    (known : other ≤ zone.day now) : zone.at time day < zone.at time other := by
  by_cases near : other - 4 < day
  · exact regular.order day other recent near before known
  · exact at_lt_at (by omega)

end Regular

theorem Regular.of_days {now : Int} (forward : ∀ first second, first ≤ second →
      zone.day first ≤ zone.day second)
    (own : ∀ day, zone.day (zone.at time day) = day)
    (yesterday : now < zone.at time (zone.day now) → zone.at time (zone.day now - 1) =
        zone.at time (zone.day now) - 86400) :
    Regular zone time now where
  past day _ before := by
    by_contra later
    have notBefore := forward _ _ (le_of_lt (not_le.mp later))
    rw [own] at notBefore
    omega
  coming day after _ := by
    by_contra earlier
    have notAfter := forward _ _ (not_lt.mp earlier)
    rw [own] at notAfter
    omega
  order day other _ _ before _ := by
    by_contra later
    have notBefore := forward _ _ (not_lt.mp later)
    rw [own, own] at notBefore
    omega
  yesterday ahead _ := yesterday ahead
  own _ day _ _ := own day
  stepped _ ahead := by rw [← yesterday ahead, own]

theorem own_of_shown {day instant : Int} (shown : zone.reading instant =
      day * 86400 + (time.hour : Nat) * 3600 + (time.minute : Nat) * 60) :
    zone.day (zone.at time day) = day := by
  have found := zone.mktime_shown _ _ shown
  have hour := time.hour.isLt
  have minute := time.minute.isLt
  rw [Zone.day, Zone.reading, Zone.at, found]
  omega

theorem exists_weekday (weekday : Fin 7) (day : Int) :
    ∃ back : Nat, back ≤ 6 ∧ weekdayOf (day - back) = (weekday : Nat) ∧
      ∀ less : Nat, less < back → weekdayOf (day - less) ≠ (weekday : Nat) := by
  have small := weekday.isLt
  refine ⟨((day + 4 - (weekday : Nat)) % 7).toNat, by omega, ?_, ?_⟩
  · unfold weekdayOf
    omega
  · intro less smaller
    unfold weekdayOf
    omega

theorem stepBack_eq {weekday : Fin 7} {low last : Int}
    (own : ∀ day, low < day → day ≤ last → zone.day (zone.at time day) = day)
    (back steps : Nat) (enough : back < steps) {candidate : Int}
    (isDay : zone.day candidate ≤ last) (recent : low < zone.day candidate - back)
    (isWeekday : weekdayOf (zone.day candidate - back) = (weekday : Nat))
    (others : ∀ less : Nat, less < back → weekdayOf (zone.day candidate - less) ≠ (weekday : Nat))
    (isCandidate : back = 0 → candidate = zone.at time (zone.day candidate)) :
    stepBack zone time weekday steps candidate = zone.at time (zone.day candidate - back) := by
  induction back generalizing steps candidate with
  | zero =>
    obtain ⟨steps, rfl⟩ := Nat.exists_eq_succ_of_ne_zero (Nat.ne_of_gt enough)
    have here : weekdayOf (zone.day candidate) = (weekday : Nat) := by simpa using isWeekday
    rw [stepBack, if_pos here]
    simpa using isCandidate rfl
  | succ back ih =>
    obtain ⟨steps, rfl⟩ := Nat.exists_eq_succ_of_ne_zero (show steps ≠ 0 by omega)
    have notHere : weekdayOf (zone.day candidate) ≠ (weekday : Nat) := by
      simpa using others 0 (Nat.succ_pos back)
    have before := own (zone.day candidate - 1) (by omega) (by omega)
    rw [stepBack, if_neg notHere]
    have found := @ih steps (by omega) (zone.at time (zone.day candidate - 1))
    rw [before] at found
    have sameDay : zone.day candidate - ((back + 1 : Nat) : Int) =
        zone.day candidate - 1 - back := by omega
    rw [sameDay] at isWeekday ⊢
    apply found (by omega) (by omega) isWeekday _ (fun _ => rfl)
    intro less smaller
    have other := others (less + 1) (by omega)
    have sameLess : zone.day candidate - ((less + 1 : Nat) : Int) =
        zone.day candidate - 1 - less := by omega
    rwa [sameLess] at other

variable (zone time) in
def firstCandidate (now : Int) : Int :=
  if zone.at time (zone.day now) > now then
    zone.at time (zone.day now) - 86400
  else zone.at time (zone.day now)

theorem firstCandidate_spec {now : Int} (regular : Regular zone time now) :
    ∃ first, zone.day now - 1 ≤ first ∧ first ≤ zone.day now ∧
      (time.weekday.isSome → zone.day (firstCandidate zone time now) = first) ∧
      zone.at time first ≤ now ∧
      (time.on first → firstCandidate zone time now = zone.at time first) ∧
      ∀ other, other ≤ zone.day now → zone.at time other ≤ now → other ≤ first := by
  unfold firstCandidate
  by_cases ahead : zone.at time (zone.day now) > now
  · rw [if_pos ahead]
    refine ⟨zone.day now - 1, le_refl _, by omega,
      fun isWeekly => regular.stepped isWeekly ahead, regular.at_le (by omega),
      fun isOn => (regular.yesterday ahead isOn).symm, ?_⟩
    intro other known come
    rcases lt_or_eq_of_le known with before | rfl
    · omega
    · omega
  · rw [if_neg ahead]
    exact ⟨zone.day now, by omega, le_refl _,
      fun isWeekly => regular.own isWeekly _ (by omega) (le_refl _), not_lt.mp ahead,
      fun _ => rfl, fun other known _ => known⟩

theorem prevWallclock_eq {now : Int} (regular : Regular zone time now) :
    ∃ day, time.on day ∧ prevWallclock zone time now = zone.at time day ∧
      zone.day now - 8 < day ∧ day ≤ zone.day now ∧ zone.at time day ≤ now ∧
      ∀ other, time.on other → other ≤ zone.day now → zone.at time other ≤ now → other ≤ day := by
  obtain ⟨first, recent, notLater, isFirst, come, isCandidate, latest⟩ :=
    firstCandidate_spec regular
  cases isWeekday : time.weekday with
  | none =>
    have isOn : time.on first := by
      intro weekday mem
      rw [isWeekday] at mem
      cases mem
    refine ⟨first, isOn, ?_, by omega, notLater, come, fun other _ => latest other⟩
    rw [← isCandidate isOn, prevWallclock, isWeekday]
    rfl
  | some weekday =>
    have isWeekly : time.weekday.isSome := by rw [isWeekday, Option.isSome_some]
    have isFirst := isFirst isWeekly
    obtain ⟨back, small, found, others⟩ := exists_weekday weekday first
    have isOn : time.on (first - back) := by
      intro weekday' mem
      rw [isWeekday] at mem
      cases mem
      exact found
    have search : prevWallclock zone time now = stepBack zone time weekday
        8 (firstCandidate zone time now) := by
      rw [prevWallclock, isWeekday]
      rfl
    rw [← isFirst] at found others
    have reached := stepBack_eq (regular.own isWeekly) back 8 (by omega)
      (by rw [isFirst]; exact notLater) (by rw [isFirst]; omega) found others
      (by
        rintro rfl
        rw [isFirst]
        simp only [Nat.cast_zero, sub_zero] at isOn
        exact isCandidate isOn)
    rw [isFirst] at reached others
    refine ⟨first - back, isOn, search.trans reached, by omega, by omega, ?_, ?_⟩
    · cases back with
      | zero => simpa using come
      | succ back => exact regular.at_le (by omega)
    · intro other otherOn known otherCome
      have notAfter := latest other known otherCome
      by_contra after
      have different := others (first - other).toNat (by omega)
      rw [show first - ((first - other).toNat : Int) = other by omega]
        at different
      exact different (otherOn weekday isWeekday)

theorem prevWallclock_last {now : Int} (regular : Regular zone time now) :
    LastOccurrence zone time now (prevWallclock zone time now) := by
  obtain ⟨day, isOn, isDay, recent, notLater, come, latest⟩ := prevWallclock_eq regular
  rw [isDay]
  refine ⟨⟨day, isOn, rfl⟩, come, ?_⟩
  rintro instant ⟨other, otherOn, rfl⟩ otherCome
  have known : other ≤ zone.day now := by
    by_contra after
    have ahead := regular.lt_at (not_le.mp after)
    omega
  rcases lt_or_eq_of_le (latest other otherOn known otherCome) with
    before | rfl
  · exact le_of_lt (regular.at_lt recent before notLater)
  · exact le_refl _

end Cix.Scheduler
