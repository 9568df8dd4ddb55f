import Cix.Throttle.Entries

/-!
# Bursts of failures are refused

In every run in which no count forgets a failure that is still within the
window, and no failure of a blocked address reaches the threshold of the
authentication class, an address with as many failures as the threshold in one
window is refused for the whole block.
-/

namespace Cix.Throttle

open Cix.Lib List Option

/-! ## Runs -/

structure Watch where
  table : Table
  past : List (Nat × Event)

/-- `connthrottle_config_init`. -/
def Watch.start : Watch := ⟨Slots.empty _, []⟩

def step (config : Config) (s : Watch) (input : Nat × Event) : Watch where
  table := serve config input.1 s.table input.2
  past := input :: s.past

inductive FailureClass where
  | tls
  | auth
  deriving DecidableEq

def FailureClass.failure : FailureClass → Ip → Event
  | .tls => .recordFailure
  | .auth => .recordAuthFailure

def FailureClass.success : FailureClass → Ip → Event
  | .tls => .recordSuccess
  | .auth => .recordAuthSuccess

def FailureClass.check : FailureClass → Ip → Event
  | .tls => .shouldBlock
  | .auth => .authBlocked

def Entry.counter (e : Entry) : FailureClass → Counter
  | .tls => e.tls
  | .auth => e.auth

def failures (kind : FailureClass) (ip : Ip) : List (Nat × Event) → List Nat
  | [] => []
  | (now, event) :: before =>
    if event = kind.success ip then []
    else if event = kind.failure ip then now :: failures kind ip before
    else failures kind ip before

def Refused (config : Config) (table : Table) (ip : Ip) (now : Nat) : FailureClass → Prop
  | .tls => (shouldBlock config ip now table).1 = true
  | .auth => 0 < (authBlocked config ip now table).1

def Burst (config : Config) (times : List Nat) (last : Nat) : Prop :=
  ∃ j first, times[j]? = some last ∧ times[j + (config.threshold - 1)]? = some first ∧
      last ≤ first + config.windowSeconds

def BurstsRefused (config : Config) (s : Watch) (ip : Ip) (kind : FailureClass) : Prop :=
  ∀ last, Burst config (failures kind ip s.past) last → ∀ now, (∀ call ∈ s.past, call.1 ≤ now) →
      now < last + config.blockSeconds → Refused config s.table ip now kind

def Event.isTls : Event → Bool
  | .shouldBlock _ => true
  | .recordFailure _ => true
  | .shouldLogFailure _ => true
  | .recordSuccess _ => true
  | _ => false

/-! ## The condition -/

def Lapsed (config : Config) (s : Watch) (ip : Ip) (now : Nat) (kind : FailureClass) : Prop :=
  ∀ time ∈ failures kind ip s.past, time + config.windowSeconds < now

instance (config : Config) (s : Watch) (ip : Ip) (now : Nat)
    (kind : FailureClass) : Decidable (Lapsed config s ip now kind) :=
  inferInstanceAs (Decidable (∀ _ ∈ _, _))

def Restarts (config : Config) (now : Nat) (c : Counter) : Prop :=
  now - c.windowStart > config.windowSeconds

def Expires (now : Nat) (c : Counter) : Prop :=
  c.blockedUntil ≠ 0 ∧ c.blockedUntil ≤ now

/-- A call forgets no failure that is still in the window, and a failed
authentication that reaches the threshold finds no block. -/
def Keeps (config : Config) (s : Watch) (now : Nat) (e : Entry) : Event → Prop
  | .recordFailure ip => Restarts config now e.tls → Lapsed config s ip now .tls
  | .shouldBlock ip => Expires now e.tls → Lapsed config s ip now .tls
  | .recordAuthFailure ip =>
    (Restarts config now e.auth → Lapsed config s ip now .auth) ∧
      (config.threshold ≤ (e.auth.counted config now).failCount → e.auth.blockedUntil = 0)
  | .authBlocked ip => Expires now e.auth → Lapsed config s ip now .auth
  | _ => True

instance (config : Config) (now : Nat) (c : Counter) : Decidable (Restarts config now c) :=
  inferInstanceAs (Decidable (_ > _))

instance (now : Nat) (c : Counter) : Decidable (Expires now c) :=
  inferInstanceAs (Decidable (_ ∧ _))

instance (config : Config) (s : Watch) (now : Nat) (e : Entry)
    (event : Event) : Decidable (Keeps config s now e event) :=
  match event with
  | .shouldBlock _ => inferInstanceAs (Decidable (_ → _))
  | .recordFailure _ => inferInstanceAs (Decidable (_ → _))
  | .shouldLogFailure _ => inferInstanceAs (Decidable True)
  | .recordSuccess _ => inferInstanceAs (Decidable True)
  | .authBlocked _ => inferInstanceAs (Decidable (_ → _))
  | .recordAuthFailure _ => inferInstanceAs (Decidable ((_ → _) ∧ (_ → _)))
  | .recordAuthSuccess _ => inferInstanceAs (Decidable True)

def Safe (config : Config) (s : Watch) (input : Nat × Event) : Prop :=
  (∀ call ∈ s.past, call.1 ≤ input.1) ∧
    ∀ e ∈ entryOf s.table input.2.ip, Keeps config s input.1 e input.2

instance (config : Config) (s : Watch) (input : Nat × Event) : Decidable (Safe config s input) :=
  inferInstanceAs (Decidable ((∀ _ ∈ _, _) ∧ ∀ _ ∈ _, _))

/-! ## One counter -/

def latest : List (Nat × Event) → Nat
  | [] => 0
  | (now, _) :: _ => now

/-- The counted failures are the last ones, what was forgotten is out of the window,
and every burst is over or blocked. -/
structure Counts (config : Config) (now : Nat) (times : List Nat)
    (c : Counter) : Prop where
  past : ∀ time ∈ times, time ≤ now
  counted : c.failCount ≤ times.length
  forgotten : ∀ time ∈ times.drop c.failCount, time + config.windowSeconds < now ∧
      ∀ later ∈ times.take c.failCount, time + config.windowSeconds < later
  blocked : ∀ last, Burst config times last → last + config.blockSeconds ≤ now ∨
      last + config.blockSeconds ≤ c.blockedUntil

section Counters

variable {config : Config} {before now : Nat} {times : List Nat}
  {c : Counter}

theorem not_burst_nil (last : Nat) : ¬ Burst config [] last := by
  rintro ⟨j, first, isLast, _⟩
  simp at isLast

theorem counts_nil (c : Counter) (unset : c.failCount = 0) : Counts config now [] c where
  past := fun _ mem => by cases mem
  counted := by simp [unset]
  forgotten := fun _ mem => by simp at mem
  blocked := fun last burst => absurd burst (not_burst_nil last)

theorem Counts.later (counts : Counts config before times c)
    (ordered : before ≤ now) : Counts config now times c where
  past time mem := Nat.le_trans (counts.past time mem) ordered
  counted := counts.counted
  forgotten time mem :=
    ⟨Nat.lt_of_lt_of_le (counts.forgotten time mem).1 ordered, (counts.forgotten time mem).2⟩
  blocked last burst := by
    rcases counts.blocked last burst with ended | until_
    · exact Or.inl (Nat.le_trans ended ordered)
    · exact Or.inr until_

theorem Counts.forget (counts : Counts config before times c) (ordered : before ≤ now)
    (lapsed : ∀ time ∈ times, time + config.windowSeconds < now)
    {c' : Counter} (reset : c'.failCount = 0)
    (kept : ∀ last, last + config.blockSeconds ≤ c.blockedUntil →
      last + config.blockSeconds ≤ now ∨ last + config.blockSeconds ≤ c'.blockedUntil) :
    Counts config now times c' where
  past time mem := Nat.le_trans (counts.past time mem) ordered
  counted := by simp [reset]
  forgotten time mem := by
    rw [reset, drop_zero] at mem
    refine ⟨lapsed time mem, ?_⟩
    simp [reset]
  blocked last burst := by
    rcases counts.blocked last burst with ended | until_
    · exact Or.inl (Nat.le_trans ended ordered)
    · exact kept last until_

theorem counts_expire (counts : Counts config before times c) (ordered : before ≤ now)
    (kept : Expires now c → ∀ time ∈ times, time + config.windowSeconds < now) :
    Counts config now times (c.expire now) := by
  unfold Counter.expire
  split
  next ended =>
    apply counts.forget ordered (kept ended) rfl
    intro last until_
    exact Or.inl (Nat.le_trans until_ ended.2)
  next => exact counts.later ordered

theorem counts_window (counts : Counts config before times c) (ordered : before ≤ now)
    (kept : Restarts config now c → ∀ time ∈ times, time + config.windowSeconds < now) :
    Counts config now times (c.window config now) := by
  unfold Counter.window
  split
  next restarts =>
    apply counts.forget ordered (kept restarts) rfl
    intro last until_
    exact Or.inr until_
  next => exact counts.later ordered

theorem burst_cons {last : Nat} (burst : Burst config (now :: times) last) :
    (last = now ∧ ∃ first, (now :: times)[config.threshold - 1]? = some first ∧
        now ≤ first + config.windowSeconds) ∨ Burst config times last := by
  obtain ⟨j, first, isLast, isFirst, close⟩ := burst
  cases j with
  | zero =>
    simp only [getElem?_cons_zero, some.injEq] at isLast
    subst isLast
    rw [Nat.zero_add] at isFirst
    exact Or.inl ⟨rfl, first, isFirst, close⟩
  | succ j =>
    rw [getElem?_cons_succ] at isLast
    rw [Nat.succ_add, getElem?_cons_succ] at isFirst
    exact Or.inr ⟨j, first, isLast, isFirst, close⟩

theorem threshold_le_count (counts : Counts config now times c) {first : Nat}
    (isFirst : (now :: times)[config.threshold - 1]? = some first)
    (close : now ≤ first + config.windowSeconds) :
    config.threshold ≤ c.failCount + 1 := by
  by_contra fewer
  have positive := config.thresholdRange.1
  have position : config.threshold - 1 = (config.threshold - 2) + 1 := by omega
  rw [position, getElem?_cons_succ] at isFirst
  have dropped : first ∈ times.drop c.failCount := by
    apply mem_of_getElem? (i := config.threshold - 2 - c.failCount)
    rw [getElem?_drop]
    have same : c.failCount + (config.threshold - 2 - c.failCount) = config.threshold - 2 := by
      omega
    rw [same]
    exact isFirst
  have lapsed := (counts.forgotten first dropped).1
  omega

theorem counts_failure (counts : Counts config now times c) {c' : Counter}
    (count : c'.failCount = c.failCount + 1)
    (until_ : c.blockedUntil ≤ c'.blockedUntil ∨ now + config.blockSeconds ≤ c'.blockedUntil)
    (blocks : config.threshold ≤ c'.failCount → now + config.blockSeconds ≤ c'.blockedUntil) :
    Counts config now (now :: times) c' where
  past time mem := by
    rcases mem_cons.mp mem with rfl | earlier
    · exact Nat.le_refl _
    · exact counts.past time earlier
  counted := by
    rw [count, length_cons]
    exact Nat.succ_le_succ counts.counted
  forgotten time mem := by
    rw [count, drop_succ_cons] at mem
    obtain ⟨lapsed, apart⟩ := counts.forgotten time mem
    refine ⟨lapsed, ?_⟩
    intro later counted
    rw [count, take_succ_cons] at counted
    rcases mem_cons.mp counted with rfl | earlier
    · exact lapsed
    · exact apart later earlier
  blocked last burst := by
    rcases burst_cons burst with ⟨rfl, first, isFirst, close⟩ | earlier
    · apply Or.inr
      apply blocks
      rw [count]
      exact threshold_le_count counts isFirst close
    · rcases counts.blocked last earlier with ended | still
      · exact Or.inl ended
      · apply Or.inr
        rcases until_ with later | renewed
        · exact Nat.le_trans still later
        · obtain ⟨j, first, isLast, _⟩ := earlier
          have before := counts.past last (mem_of_getElem? isLast)
          omega

theorem counts_failTls (counts : Counts config before times c) (ordered : before ≤ now)
    (kept : Restarts config now c → ∀ time ∈ times, time + config.windowSeconds < now) :
    Counts config now (now :: times) (c.failTls config now) := by
  have windowed := counts_window counts ordered kept
  unfold Counter.failTls
  simp only
  split
  next reached =>
    exact counts_failure windowed rfl (Or.inr (Nat.le_refl _)) fun _ => Nat.le_refl _
  next below =>
    exact counts_failure windowed rfl (Or.inl (Nat.le_refl _)) fun reached => absurd reached below

theorem counts_failAuth (counts : Counts config before times c) (ordered : before ≤ now)
    (kept : Restarts config now c → ∀ time ∈ times, time + config.windowSeconds < now)
    (unblocked : config.threshold ≤ (c.counted config now).failCount → c.blockedUntil = 0) :
    Counts config now (now :: times) (c.failAuth config now) := by
  have windowed := counts_window counts ordered kept
  have sameBlock : (c.counted config now).blockedUntil = c.blockedUntil := by
    unfold Counter.counted Counter.window
    split <;> rfl
  unfold Counter.failAuth
  simp only
  split
  next reached =>
    exact counts_failure windowed rfl (Or.inr (Nat.le_refl _)) fun _ => Nat.le_refl _
  next not =>
    refine counts_failure windowed rfl (Or.inl (Nat.le_refl _)) ?_
    intro reached
    exact absurd ⟨reached, sameBlock.trans (unblocked reached)⟩ not

end Counters

/-! ## One call -/

theorem failures_other {event : Event} {ip : Ip} (other : ip ≠ event.ip)
    (kind : FailureClass) (now : Nat) (past : List (Nat × Event)) :
    failures kind ip ((now, event) :: past) = failures kind ip past := by
  have noSuccess : event ≠ kind.success ip := by
    rintro rfl
    cases kind <;> exact other rfl
  have noFailure : event ≠ kind.failure ip := by
    rintro rfl
    cases kind <;> exact other rfl
  rw [failures, if_neg noSuccess, if_neg noFailure]

theorem latest_le {past : List (Nat × Event)} {now : Nat}
    (ordered : ∀ call ∈ past, call.1 ≤ now) : latest past ≤ now := by
  cases past with
  | nil => exact Nat.zero_le _
  | cons call rest => exact ordered call mem_cons_self

section Calls

variable {config : Config} {s : Watch} {now : Nat} {ip : Ip} {e : Entry}

theorem counts_touched {event : Event} (enabled : config.enabled = true)
    (counted : authExempt ip = false) (own : event.ip = ip)
    (ordered : latest s.past ≤ now) (keeps : Keeps config s now e event)
    (counts : ∀ kind, Counts config (latest s.past) (failures kind ip s.past)
      (e.counter kind)) (kind : FailureClass) :
    Counts config now (failures kind ip ((now, event) :: s.past))
      ((touched config now event e).counter kind) := by
  have notLoopback : isLoopback ip = false := by
    simp only [authExempt, Bool.or_eq_false_iff] at counted
    exact counted.2
  have nonempty : ip.str.length ≠ 0 := by
    simp only [authExempt, Bool.or_eq_false_iff, decide_eq_false_iff_not] at counted
    exact counted.1
  have same := (counts kind).later ordered
  cases event with
  | shouldBlock ip' =>
    obtain rfl : ip' = ip := own
    cases kind with
    | tls =>
      simpa [failures, FailureClass.success, FailureClass.failure, touched,
        enabled, notLoopback, Entry.counter] using
        counts_expire (counts .tls) ordered keeps
    | auth =>
      simpa [failures, FailureClass.success, FailureClass.failure, touched,
        enabled, notLoopback, Entry.counter] using same
  | recordFailure ip' =>
    obtain rfl : ip' = ip := own
    cases kind with
    | tls =>
      simpa [failures, FailureClass.success, FailureClass.failure, touched,
        enabled, Entry.counter] using
        counts_failTls (counts .tls) ordered keeps
    | auth =>
      simpa [failures, FailureClass.success, FailureClass.failure, touched,
        enabled, Entry.counter] using same
  | shouldLogFailure ip' =>
    have sameCounter : (touched config now (.shouldLogFailure ip') e).counter
        kind = e.counter kind := by
      unfold touched
      simp only
      split <;> cases kind <;> rfl
    rw [sameCounter]
    cases kind with
    | tls => simpa [failures, FailureClass.success, FailureClass.failure] using same
    | auth => simpa [failures, FailureClass.success, FailureClass.failure] using same
  | recordSuccess ip' =>
    obtain rfl : ip' = ip := own
    cases kind with
    | tls =>
      simpa [failures, FailureClass.success, touched, Entry.counter] using
        @counts_nil config now e.tls.cleared rfl
    | auth =>
      simpa [failures, FailureClass.success, FailureClass.failure, touched,
        Entry.counter] using same
  | authBlocked ip' =>
    obtain rfl : ip' = ip := own
    cases kind with
    | tls =>
      simpa [failures, FailureClass.success, FailureClass.failure, touched,
        enabled, counted, Entry.counter] using same
    | auth =>
      simpa [failures, FailureClass.success, FailureClass.failure, touched,
        enabled, counted, Entry.counter] using
        counts_expire (counts .auth) ordered keeps
  | recordAuthFailure ip' =>
    obtain rfl : ip' = ip := own
    cases kind with
    | tls =>
      simpa [failures, FailureClass.success, FailureClass.failure, touched,
        enabled, counted, Entry.counter] using same
    | auth =>
      simpa [failures, FailureClass.success, FailureClass.failure, touched,
        enabled, counted, Entry.counter] using
        counts_failAuth (counts .auth) ordered keeps.1 keeps.2
  | recordAuthSuccess ip' =>
    obtain rfl : ip' = ip := own
    cases kind with
    | tls =>
      simpa [failures, FailureClass.success, FailureClass.failure, touched,
        nonempty, Entry.counter] using same
    | auth =>
      simpa [failures, FailureClass.success, touched, nonempty,
        Entry.counter] using @counts_nil config now e.auth.cleared rfl

theorem keeps_newEntry (event : Event) : Keeps config s now (newEntry ip now) event := by
  have noRestart : ¬ Restarts config now (Counter.fresh now) := by
    simp [Restarts, Counter.fresh]
  have noExpiry : ¬ Expires now (Counter.fresh now) := by simp [Expires, Counter.fresh]
  cases event with
  | shouldBlock ip' => exact fun expires => absurd expires noExpiry
  | recordFailure ip' => exact fun restarts => absurd restarts noRestart
  | shouldLogFailure ip' => trivial
  | recordSuccess ip' => trivial
  | authBlocked ip' => exact fun expires => absurd expires noExpiry
  | recordAuthFailure ip' =>
    exact ⟨fun restarts => absurd restarts noRestart, fun _ => rfl⟩
  | recordAuthSuccess ip' => trivial

end Calls

/-- The entry of the address counts its failures; an address without an entry
has none, or there is no room for it. -/
def Accounted (config : Config) (ip : Ip) (s : Watch) : Prop :=
  match entryOf s.table ip with
  | some e => ∀ kind, Counts config (latest s.past) (failures kind ip s.past)
      (e.counter kind)
  | none => s.table.firstFree = none ∨ ∀ kind, failures kind ip s.past = []

theorem accounted_step {config : Config} {ip : Ip} {s : Watch}
    {input : Nat × Event} (enabled : config.enabled = true)
    (counted : authExempt ip = false) (accounted : Accounted config ip s)
    (safe : Safe config s input) :
    Accounted config ip (step config s input) := by
  obtain ⟨now, event⟩ := input
  obtain ⟨timely, keeps⟩ := safe
  have ordered := latest_le timely
  have served := entryOf_serve config now s.table event ip
  unfold Accounted at accounted ⊢
  simp only [step]
  by_cases own : ip = event.ip
  · rw [if_pos own] at served
    subst own
    cases found : entryOf s.table event.ip with
    | some e =>
      rw [found] at accounted
      have isSame : (if creates config event then
          countedIn s.table event.ip now else entryOf s.table event.ip) =
            some e := by
        simp [countedIn, found]
      rw [isSame] at served
      rw [served]
      exact counts_touched enabled counted rfl ordered (keeps e found) accounted
    | none =>
      rw [found] at accounted
      cases makes : creates config event with
      | true =>
        rw [makes, if_pos rfl, countedIn, found] at served
        cases room : s.table.firstFree with
        | none =>
          rw [room] at served
          rw [served]
          exact Or.inl (firstFree_serve room event)
        | some slot =>
          rw [room] at served
          have nothing := accounted.resolve_left (by simp [room])
          rw [served]
          apply counts_touched enabled counted rfl ordered (keeps_newEntry event)
          intro kind
          rw [nothing kind]
          exact counts_nil _ (by cases kind <;> rfl)
      | false =>
        rw [makes, if_neg Bool.false_ne_true, found] at served
        rw [served]
        rcases accounted with full | nothing
        · exact Or.inl (firstFree_serve full event)
        · apply Or.inr
          intro kind
          have noFailure : event ≠ kind.failure event.ip := by
            intro isFailure
            rw [isFailure] at makes
            cases kind with
            | tls => simp [creates, FailureClass.failure, enabled] at makes
            | auth => simp [creates, FailureClass.failure, enabled, counted] at makes
          simp only [failures, if_neg noFailure, nothing kind, ite_self]
  · rw [if_neg own] at served
    rw [served]
    simp only [failures_other own]
    cases found : entryOf s.table ip with
    | some e =>
      rw [found] at accounted
      exact fun kind => (accounted kind).later ordered
    | none =>
      rw [found] at accounted
      exact accounted.imp_left fun full => firstFree_serve full event

theorem bursts_refused_of_accounted {config : Config} {ip : Ip} {s : Watch}
    (enabled : config.enabled = true) (counted : authExempt ip = false)
    (accounted : Accounted config ip s) {slot : Nat} {e : Entry}
    (tracked : findEntry s.table ip = some (slot, e)) (kind : FailureClass) :
    BurstsRefused config s ip kind := by
  have notLoopback : isLoopback ip = false := by
    simp only [authExempt, Bool.or_eq_false_iff] at counted
    exact counted.2
  intro last burst now afterwards within
  simp only [Accounted, entryOf, tracked, map_some] at accounted
  have blocked : now < (e.counter kind).blockedUntil := by
    have passed := latest_le afterwards
    rcases (accounted kind).blocked last burst with ended | until_
    · omega
    · omega
  have left : 0 < (e.counter kind).left now := Nat.sub_pos_of_lt blocked
  cases kind with
  | tls =>
    simp only [Refused, shouldBlock, enabled, notLoopback, tracked]
    simpa [Entry.counter] using left
  | auth =>
    simp only [Refused, authBlocked, enabled, counted, tracked]
    simpa [Entry.counter] using left

/-! ## The classes are apart -/

theorem auth_untouched (config : Config) (now : Nat) (table : Table)
    {event : Event} (tls : event.isTls = true) {ip : Ip} {e : Entry}
    (tracked : entryOf table ip = some e) :
    ∃ e', entryOf (serve config now table event) ip = some e' ∧ e'.auth = e.auth := by
  rw [entryOf_serve]
  split
  next own =>
    have isSame : (if creates config event then
        countedIn table event.ip now else entryOf table event.ip) =
          some e := by
      rw [← own]
      simp [countedIn, tracked]
    rw [isSame]
    refine ⟨_, rfl, ?_⟩
    cases event with
    | shouldBlock ip' =>
      unfold touched
      simp only
      split <;> rfl
    | recordFailure ip' =>
      unfold touched
      simp only
      split <;> rfl
    | shouldLogFailure ip' =>
      unfold touched
      simp only
      split <;> rfl
    | recordSuccess ip' => rfl
    | authBlocked ip' => cases tls
    | recordAuthFailure ip' => cases tls
    | recordAuthSuccess ip' => cases tls
  next other => exact ⟨e, tracked, rfl⟩

/-- In every run in which no call forgets a failure that is still in the
window, an address with an entry is refused after each burst until its block
is over, unless a success clears it; and no call of the TLS class changes what
the authentication class has of any address. -/
theorem bursts_blocked (config : Config) (enabled : config.enabled = true)
    (inputs : List (Nat × Event))
    (safe : Guarded (step config) (Safe config) Watch.start inputs) :
    Throughout (step config) (fun s => ∀ ip, authExempt ip = false → (entryOf s.table ip).isSome →
        ∀ kind, BurstsRefused config s ip kind) Watch.start inputs ∧
    ∀ before now event after, inputs = before ++ (now, event) :: after →
      event.isTls = true → ∀ ip e,
        entryOf (run (step config) Watch.start before).table ip = some e →
          ∃ e', entryOf (run (step config) Watch.start
              (before ++ [(now, event)])).table ip = some e' ∧
            e'.auth = e.auth := by
  constructor
  · have start : ∀ ip, authExempt ip = false → Accounted config ip Watch.start := by
      intro ip _
      have missing : entryOf Watch.start.table ip = none := by
        rw [entryOf, map_eq_none_iff]
        cases found : findEntry Watch.start.table ip with
        | none => rfl
        | some result =>
          have held := (findEntry_eq_some found).1
          simp [Watch.start] at held
      rw [Accounted, missing]
      exact Or.inr fun kind => rfl
    have accounted := Guarded.throughout
      (fun s => ∀ ip, authExempt ip = false → Accounted config ip s)
      (fun s input holds safe ip counted =>
        accounted_step enabled counted (holds ip counted) safe) start safe
    refine accounted.mono ?_
    intro s holds ip counted tracked kind
    obtain ⟨e, isEntry⟩ := isSome_iff_exists.mp tracked
    obtain ⟨⟨slot, e⟩, found, rfl⟩ := map_eq_some_iff.mp isEntry
    exact bursts_refused_of_accounted enabled counted (holds ip counted) found kind
  · intro before now event after _ tls ip e tracked
    rw [run_snoc]
    exact auth_untouched config now _ tls tracked

def threeAMinute : Config where
  enabled := true
  threshold := 3
  windowSeconds := 60
  blockSeconds := 300
  logIntervalSeconds := 5
  thresholdRange := by decide
  windowRange := by decide
  blockRange := by decide
  logIntervalRange := by decide

def attacker : Ip := Ip.store (CStr.ofString "10.0.0.9")

def closeFailures : List (Nat × Event) :=
  [(1000, .recordFailure attacker), (1010, .authBlocked attacker),
    (1030, .recordFailure attacker), (1060, .recordFailure attacker)]

theorem close_failures_refused : Refused threeAMinute
      (run (step threeAMinute) Watch.start closeFailures).table attacker 1359
      .tls := by
  have safe : Guarded (step threeAMinute) (Safe threeAMinute) Watch.start
      closeFailures := by
    refine Guarded.cons (by decide +kernel) (Guarded.cons (by decide +kernel)
      (Guarded.cons (by decide +kernel) (Guarded.cons (by decide +kernel) (guarded_nil _ _))))
  have refused := (bursts_blocked threeAMinute rfl closeFailures safe).1.last
  refine refused attacker (by decide +kernel) (by decide +kernel) .tls 1060
    ⟨0, 1000, by decide +kernel, by decide +kernel, by decide⟩ 1359
    (by decide +kernel) (by decide)

def straddlingFailures : List (Nat × Event) :=
  [(1000, .recordFailure attacker), (1050, .recordFailure attacker),
    (1061, .recordFailure attacker), (1062, .recordFailure attacker)]

theorem straddling_burst_not_refused :
    (entryOf (run (step threeAMinute) Watch.start straddlingFailures).table attacker).isSome ∧
    ¬ BurstsRefused threeAMinute (run (step threeAMinute) Watch.start straddlingFailures) attacker
      .tls := by
  refine ⟨by decide +kernel, ?_⟩
  intro refused
  have blocked := refused 1062 ⟨0, 1050, by decide +kernel, by decide +kernel, by decide⟩ 1062
    (by decide +kernel) (by decide)
  have served : (shouldBlock threeAMinute attacker 1062
      (run (step threeAMinute) Watch.start straddlingFailures).table).1 =
        false := by
    decide +kernel
  rw [Refused, served] at blocked
  cases blocked

end Cix.Throttle
