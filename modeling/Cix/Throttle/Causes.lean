import Cix.Throttle.Bursts

/-!
# No address is refused without a burst

In every run whose calls come in the order of their times, an address that is
refused has made as many failures of the class as the threshold within one
window since its last success, and the block from the last of them is not over.
-/

namespace Cix.Throttle

open Cix.Lib List Option

def FailureClass.exempt : FailureClass → Ip → Bool
  | .tls => isLoopback
  | .auth => authExempt

def FailureClass.fail (config : Config) (now : Nat) : FailureClass → Counter → Counter
  | .tls => Counter.failTls config now
  | .auth => Counter.failAuth config now

/-- The counted failures are the last ones and not older than the window, and a
block belongs to a burst. -/
structure Caused (config : Config) (now : Nat) (times : List Nat) (c : Counter) : Prop where
  started : c.windowStart ≤ now
  counted : c.failCount ≤ times.length
  recent : ∀ time ∈ times.take c.failCount, c.windowStart ≤ time
  blocked : c.blockedUntil ≠ 0 →
    ∃ last, Burst config times last ∧ c.blockedUntil = last + config.blockSeconds

variable {config : Config} {before now last : Nat} {times : List Nat} {c : Counter}

theorem caused_of_zero (started : c.windowStart ≤ now) (unset : c.failCount = 0)
    (free : c.blockedUntil = 0) : Caused config now times c where
  started := started
  counted := by simp [unset]
  recent := by simp [unset]
  blocked := fun isSet => absurd free isSet

theorem Caused.later (caused : Caused config before times c) (ordered : before ≤ now) :
    Caused config now times c :=
  ⟨Nat.le_trans caused.started ordered, caused.counted, caused.recent, caused.blocked⟩

theorem Burst.cons (burst : Burst config times last) (now : Nat) :
    Burst config (now :: times) last := by
  obtain ⟨j, first, isLast, isFirst, close⟩ := burst
  refine ⟨j + 1, first, isLast, ?_, close⟩
  rw [Nat.succ_add, getElem?_cons_succ]
  exact isFirst

theorem Caused.expire (caused : Caused config now times c) :
    Caused config now times (c.expire now) := by
  unfold Counter.expire
  split
  next => exact caused_of_zero caused.started rfl rfl
  next => exact caused

theorem Caused.window (caused : Caused config now times c) :
    Caused config now times (c.window config now) ∧
      now ≤ (c.window config now).windowStart + config.windowSeconds := by
  unfold Counter.window
  split
  next => exact ⟨⟨Nat.le_refl _, Nat.zero_le _, by simp, caused.blocked⟩, Nat.le_add_right _ _⟩
  next young => exact ⟨caused, by omega⟩

theorem Caused.fail (caused : Caused config now times c) (kind : FailureClass) :
    Caused config now (now :: times) (kind.fail config now c) := by
  obtain ⟨windowed, young⟩ := caused.window
  have counted : Caused config now (now :: times) (c.counted config now) := by
    refine ⟨windowed.started, Nat.succ_le_succ windowed.counted, ?_, ?_⟩
    · intro time mem
      rcases mem_cons.mp mem with rfl | earlier
      · exact windowed.started
      · exact windowed.recent time earlier
    · intro isSet
      obtain ⟨last, burst, until_⟩ := windowed.blocked isSet
      exact ⟨last, burst.cons now, until_⟩
  have blocks : config.threshold ≤ (c.counted config now).failCount →
      Caused config now (now :: times)
        { c.counted config now with blockedUntil := now + config.blockSeconds } := by
    intro reached
    refine ⟨counted.started, counted.counted, counted.recent, fun _ => ⟨now, ?_, rfl⟩⟩
    -- the failure that the threshold counts back to is among the counted ones
    have positive := config.thresholdRange.1
    have inside : config.threshold - 1 <
        ((now :: times).take (c.counted config now).failCount).length := by
      rw [length_take]
      have := counted.counted
      omega
    have isRecent := counted.recent _ (getElem_mem inside)
    refine ⟨0, _, rfl, ?_, Nat.le_trans young (Nat.add_le_add_right isRecent _)⟩
    rw [Nat.zero_add, ← getElem?_eq_getElem inside, getElem?_take_of_lt (by omega)]
  cases kind with
  | tls =>
    unfold FailureClass.fail Counter.failTls
    dsimp only
    split
    next reached => exact blocks reached
    next => exact counted
  | auth =>
    unfold FailureClass.fail Counter.failAuth
    dsimp only
    split
    next reached => exact blocks reached.1
    next => exact counted

theorem counter_touched {event : Event} {ip : Ip} {kind : FailureClass}
    (enabled : config.enabled = true) (counts : kind.exempt ip = false) (own : event.ip = ip)
    (e : Entry) : (touched config now event e).counter kind =
      if event = kind.success ip then (e.counter kind).cleared
      else if event = kind.failure ip then kind.fail config now (e.counter kind)
      else if event = kind.check ip then (e.counter kind).expire now
      else e.counter kind := by
  subst own
  cases kind <;> cases event <;>
    simp_all [touched, Entry.counter, FailureClass.exempt, FailureClass.success,
      FailureClass.failure, FailureClass.check, FailureClass.fail, Event.ip, apply_ite]
  simp_all [authExempt]

def Timely (s : Watch) (input : Nat × Event) : Prop :=
  ∀ call ∈ s.past, call.1 ≤ input.1

instance (s : Watch) (input : Nat × Event) : Decidable (Timely s input) :=
  inferInstanceAs (Decidable (∀ _ ∈ _, _))

def EntriesCaused (config : Config) (s : Watch) (ip : Ip) (kind : FailureClass) : Prop :=
  ∀ e ∈ entryOf s.table ip,
    Caused config (latest s.past) (failures kind ip s.past) (e.counter kind)

theorem entriesCaused_step {s : Watch} {input : Nat × Event} {ip : Ip} {kind : FailureClass}
    (enabled : config.enabled = true) (counts : kind.exempt ip = false)
    (caused : EntriesCaused config s ip kind) (timely : Timely s input) :
    EntriesCaused config (step config s input) ip kind := by
  obtain ⟨now, event⟩ := input
  have ordered := latest_le timely
  intro e isEntry
  rw [step, entryOf_serve] at isEntry
  by_cases own : ip = event.ip
  · subst own
    rw [if_pos rfl, Option.mem_def, map_eq_some_iff] at isEntry
    obtain ⟨found, isFound, rfl⟩ := isEntry
    have earlier : Caused config now (failures kind event.ip s.past) (found.counter kind) := by
      cases held : entryOf s.table event.ip with
      | some old =>
        rw [countedIn, held] at isFound
        obtain rfl : old = found := by simpa using isFound
        exact (caused old held).later ordered
      | none =>
        rw [countedIn, held] at isFound
        obtain ⟨-, -, rfl⟩ : creates config event = true ∧ s.table.firstFree.isSome = true ∧
            found = newEntry event.ip now := by
          grind
        cases kind <;> exact caused_of_zero (Nat.le_refl _) rfl rfl
    rw [counter_touched enabled counts rfl, step, failures]
    split_ifs
    · exact caused_of_zero earlier.started rfl rfl
    · exact earlier.fail kind
    · exact earlier.expire
    · exact earlier
  · rw [if_neg own] at isEntry
    rw [step, failures_other own]
    exact (caused e isEntry).later ordered

def AllCaused (config : Config) (s : Watch) : Prop :=
  ∀ ip kind, config.enabled = true → kind.exempt ip = false → EntriesCaused config s ip kind

/-- A refusal comes from an entry whose block is still running. -/
theorem Refused.entry {table : Table} {ip : Ip} {kind : FailureClass}
    (refused : Refused config table ip now kind) :
    config.enabled = true ∧ kind.exempt ip = false ∧
      ∃ e ∈ entryOf table ip, now < (e.counter kind).blockedUntil := by
  cases kind with
  | tls =>
    rw [Refused, shouldBlock] at refused
    split_ifs at refused with off
    · simp only [Bool.or_eq_true, Bool.not_eq_true', not_or, Bool.not_eq_false] at off
      cases found : findEntry table ip with
      | none => simp [found] at refused
      | some result =>
        refine ⟨off.1, by simpa [FailureClass.exempt] using off.2, result.2,
          by rw [entryOf, found]; rfl, Nat.lt_of_sub_pos ?_⟩
        rw [found] at refused
        exact of_decide_eq_true refused
  | auth =>
    rw [Refused, authBlocked] at refused
    split_ifs at refused with off
    · simp at refused
    · simp only [Bool.or_eq_true, Bool.not_eq_true', not_or, Bool.not_eq_false] at off
      cases found : findEntry table ip with
      | none => simp [found] at refused
      | some result =>
        refine ⟨off.1, by simpa [FailureClass.exempt] using off.2, result.2,
          by rw [entryOf, found]; rfl, Nat.lt_of_sub_pos ?_⟩
        simpa [found, Entry.counter, Counter.left] using refused

/-- Whoever is refused has made a burst of failures since the last success, and
is refused for no longer than the block from the last of them. -/
theorem refused_only_after_burst (config : Config) (inputs : List (Nat × Event))
    (timely : Guarded (step config) Timely Watch.start inputs) :
    Throughout (step config) (fun s => ∀ ip now kind, Refused config s.table ip now kind →
      ∃ last, Burst config (failures kind ip s.past) last ∧
        now < last + config.blockSeconds) Watch.start inputs := by
  have start : AllCaused config Watch.start := by
    intro ip kind _ _ e isEntry
    obtain ⟨⟨slot, e⟩, found, rfl⟩ := map_eq_some_iff.mp isEntry
    have held := (findEntry_eq_some found).1
    simp [Watch.start] at held
  have preserved : ∀ s input, AllCaused config s → Timely s input →
      AllCaused config (step config s input) :=
    fun s input holds isTimely ip kind enabled counts =>
      entriesCaused_step enabled counts (holds ip kind enabled counts) isTimely
  refine (Guarded.throughout _ preserved start timely).mono ?_
  intro s holds ip now kind refused
  obtain ⟨enabled, counts, e, isEntry, blocked⟩ := refused.entry
  obtain ⟨last, burst, until_⟩ := (holds ip kind enabled counts e isEntry).blocked (by omega)
  exact ⟨last, burst, until_ ▸ blocked⟩

theorem attacker_made_burst : ∃ last, Burst threeAMinute (failures .tls attacker
    (run (step threeAMinute) Watch.start closeFailures).past) last ∧ 1359 < last + 300 :=
  (refused_only_after_burst threeAMinute closeFailures
    (Guarded.cons (by decide +kernel) (Guarded.cons (by decide +kernel)
      (Guarded.cons (by decide +kernel) (Guarded.cons (by decide +kernel) (guarded_nil _ _)))))).last
    attacker 1359 .tls (by rw [Refused]; decide +kernel)

end Cix.Throttle
