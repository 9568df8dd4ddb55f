import Cix.Throttle.Table

/-!
# What a call does to an entry

Every call changes the entry of its own address, in one way, and no other
entry; some calls make the entry first.
-/

namespace Cix.Throttle

open Cix.Lib

variable {table : Table}

def entryOf (table : Table) (ip : Ip) : Option Entry :=
  (findEntry table ip).map Prod.snd

def Event.ip : Event → Ip
  | .shouldBlock ip => ip
  | .recordFailure ip => ip
  | .shouldLogFailure ip => ip
  | .recordSuccess ip => ip
  | .authBlocked ip => ip
  | .recordAuthFailure ip => ip
  | .recordAuthSuccess ip => ip

def newEntry (ip : Ip) (now : Nat) : Entry :=
  ⟨ip, Counter.fresh now, Counter.fresh now, 0⟩

def touched (config : Config) (now : Nat) (event : Event) (e : Entry) :
    Entry :=
  match event with
  | .shouldBlock ip =>
    if !config.enabled || isLoopback ip then e
    else { e with tls := e.tls.expire now }
  | .recordFailure _ =>
    if !config.enabled then e else { e with tls := e.tls.failTls config now }
  | .shouldLogFailure _ =>
    if config.logIntervalSeconds > 0 ∧ e.lastLogged ≠ 0 ∧
        now - e.lastLogged < config.logIntervalSeconds then e
    else { e with lastLogged := now }
  | .recordSuccess _ => { e with tls := e.tls.cleared }
  | .authBlocked ip =>
    if !config.enabled || authExempt ip then e
    else { e with auth := e.auth.expire now }
  | .recordAuthFailure ip =>
    if !config.enabled || authExempt ip then e
    else { e with auth := e.auth.failAuth config now }
  | .recordAuthSuccess ip =>
    if ip.str.length = 0 then e else { e with auth := e.auth.cleared }

def creates (config : Config) : Event → Bool
  | .recordFailure _ => config.enabled
  | .shouldLogFailure _ => true
  | .recordAuthFailure ip => config.enabled && !authExempt ip
  | _ => false

theorem findEntry_eq_some {ip : Ip} {slot : Nat} {e : Entry}
    (found : findEntry table ip = some (slot, e)) :
    table.get slot = some e ∧ e.ip = ip := by
  obtain ⟨held, isIp⟩ := Slots.get_of_find found
  exact ⟨held, by simpa using isIp⟩

theorem entryOf_put_found {ip : Ip} {slot : Nat} {e changed : Entry}
    (found : findEntry table ip = some (slot, e)) (same : changed.ip = ip)
    (other : Ip) :
    entryOf (table.put slot (some changed)) other =
      if other = ip then some changed else entryOf table other := by
  obtain ⟨held, isIp⟩ := findEntry_eq_some found
  split
  next here =>
    subst here
    rw [entryOf, findEntry, Slots.find_put_found found (by simpa using same)]
    rfl
  next elsewhere =>
    have kept : findEntry (table.put slot (some changed)) other =
        findEntry table other := by
      apply Slots.find_put_of_not
      · intro before isBefore
        rw [held] at isBefore
        cases isBefore
        simpa [isIp] using Ne.symm elsewhere
      · rintro after ⟨⟩
        simpa [same] using Ne.symm elsewhere
    rw [entryOf, kept, entryOf]

theorem entryOf_put_free {ip : Ip} {slot : Nat} {e : Entry}
    (missing : findEntry table ip = none) (free : table.firstFree = some slot)
    (same : e.ip = ip) (other : Ip) :
    entryOf (table.put slot (some e)) other =
      if other = ip then some e else entryOf table other := by
  obtain ⟨inside, isFree⟩ := Slots.get_firstFree free
  split
  next here =>
    subst here
    rw [entryOf, findEntry, Slots.find_put_of_none missing inside (by simpa using same)]
    rfl
  next elsewhere =>
    have kept : findEntry (table.put slot (some e)) other =
        findEntry table other := by
      apply Slots.find_put_of_not
      · intro before isBefore
        rw [isFree] at isBefore
        cases isBefore
      · rintro after ⟨⟩
        simpa [same] using Ne.symm elsewhere
    rw [entryOf, kept, entryOf]

theorem entryOf_edit (table : Table) (ip : Ip) {change : Entry → Entry}
    (keeps : ∀ e, (change e).ip = e.ip) (other : Ip) :
    entryOf (table.edit ip change) other =
      if other = ip then (entryOf table ip).map change
      else entryOf table other := by
  unfold Table.edit
  cases found : findEntry table ip with
  | none =>
    by_cases here : other = ip
    · subst here
      simp [entryOf, found]
    · rw [if_neg here]
  | some result =>
    obtain ⟨slot, e⟩ := result
    obtain ⟨_, isIp⟩ := findEntry_eq_some found
    rw [entryOf_put_found found ((keeps e).trans isIp)]
    simp [entryOf, found]

def countedIn (table : Table) (ip : Ip) (now : Nat) : Option Entry :=
  match entryOf table ip with
  | some e => some e
  | none => if table.firstFree.isSome then some (newEntry ip now) else none

theorem getOrCreateEntry_eq (table : Table) (ip : Ip) (now : Nat) :
    (getOrCreateEntry table ip now).map (fun r => r.2.1) =
      countedIn table ip now := by
  unfold getOrCreateEntry countedIn entryOf
  cases findEntry table ip with
  | some result => rfl
  | none =>
    cases table.firstFree with
    | none => rfl
    | some slot => rfl

theorem entryOf_created {table created : Table} {ip : Ip} {now slot : Nat}
    {e changed : Entry}
    (got : getOrCreateEntry table ip now = some (slot, e, created))
    (same : changed.ip = ip) (other : Ip) :
    entryOf (created.put slot (some changed)) other =
      if other = ip then some changed else entryOf table other := by
  unfold getOrCreateEntry at got
  cases found : findEntry table ip with
  | some result =>
    rw [found] at got
    cases got
    exact entryOf_put_found found same other
  | none =>
    rw [found] at got
    cases free : table.firstFree with
    | none =>
      rw [free] at got
      cases got
    | some place =>
      rw [free] at got
      cases got
      rw [Slots.put_put]
      exact entryOf_put_free found free same other

theorem ip_of_getOrCreate {table created : Table} {ip : Ip} {now slot : Nat}
    {e : Entry}
    (got : getOrCreateEntry table ip now = some (slot, e, created)) :
    e.ip = ip := by
  unfold getOrCreateEntry at got
  cases found : findEntry table ip with
  | some result =>
    rw [found] at got
    cases got
    exact (findEntry_eq_some found).2
  | none =>
    rw [found] at got
    cases free : table.firstFree with
    | none =>
      rw [free] at got
      cases got
    | some place =>
      rw [free] at got
      cases got
      rfl

theorem entryOf_editOrCreate (table : Table) (ip : Ip) (now : Nat)
    {change : Entry → Entry} (keeps : ∀ e, (change e).ip = e.ip)
    (other : Ip) :
    entryOf (table.editOrCreate ip now change) other =
      if other = ip then (countedIn table ip now).map change
      else entryOf table other := by
  unfold Table.editOrCreate
  rw [← getOrCreateEntry_eq]
  cases got : getOrCreateEntry table ip now with
  | none =>
    by_cases here : other = ip
    · subst here
      have nothing := getOrCreateEntry_eq table other now
      rw [got] at nothing
      unfold countedIn at nothing
      cases found : entryOf table other with
      | none => simp
      | some e =>
        rw [found] at nothing
        cases nothing
    · rw [if_neg here]
  | some result =>
    obtain ⟨slot, e, created⟩ := result
    simp only [Option.map_some]
    exact entryOf_created got ((keeps e).trans (ip_of_getOrCreate got)) other

@[simp]
theorem touched_ip (config : Config) (now : Nat) (event : Event)
    (e : Entry) : (touched config now event e).ip = e.ip := by
  unfold touched
  split
  all_goals first | rfl | (split <;> rfl)

theorem edit_same {table : Table} {ip : Ip} {change : Entry → Entry}
    (same : ∀ e, change e = e) : table.edit ip change = table := by
  unfold Table.edit
  cases found : findEntry table ip with
  | none => rfl
  | some result =>
    simp only [same]
    exact Slots.put_get (findEntry_eq_some found).1

theorem get_created {table created : Table} {ip : Ip} {now slot : Nat}
    {e : Entry}
    (got : getOrCreateEntry table ip now = some (slot, e, created)) :
    created.get slot = some e := by
  unfold getOrCreateEntry at got
  cases found : findEntry table ip with
  | some result =>
    rw [found] at got
    cases got
    exact (findEntry_eq_some found).1
  | none =>
    rw [found] at got
    cases free : table.firstFree with
    | none =>
      rw [free] at got
      cases got
    | some place =>
      rw [free] at got
      cases got
      rw [Slots.get_put (Slots.get_firstFree free).1, if_pos rfl]

theorem serve_eq (config : Config) (now : Nat) (table : Table) (event : Event) :
    serve config now table event =
      if creates config event then
        table.editOrCreate event.ip now (touched config now event)
      else table.edit event.ip (touched config now event) := by
  cases event with
  | shouldBlock ip =>
    simp only [serve, shouldBlock, creates, Bool.false_eq_true, if_false]
    by_cases exempt : (!config.enabled || isLoopback ip) = true
    · rw [if_pos exempt, edit_same]
      intro e
      simp only [touched, exempt, if_true]
    · rw [if_neg exempt]
      have change : touched config now (.shouldBlock ip) =
          fun e => { e with tls := e.tls.expire now } := by
        funext e
        simp only [touched, exempt, if_false, Bool.false_eq_true]
      rw [change]
      cases found : findEntry table ip with
      | none => simp [Table.edit, Event.ip, found]
      | some result => rfl
  | recordFailure ip =>
    simp only [serve, recordFailure]
    by_cases enabled : creates config (.recordFailure ip) = true
    · have change : touched config now (.recordFailure ip) =
          fun e => { e with tls := e.tls.failTls config now } := by
        funext e
        simp only [creates] at enabled
        simp [touched, enabled]
      rw [if_pos enabled, if_neg (by simpa [creates] using enabled), change]
      rfl
    · rw [if_neg enabled, if_pos (by simpa [creates] using enabled), edit_same]
      intro e
      simp only [creates] at enabled
      simp [touched, enabled]
  | shouldLogFailure ip =>
    simp only [serve, shouldLogFailure, creates, if_true, Event.ip, Table.editOrCreate]
    cases got : getOrCreateEntry table ip now with
    | none => rfl
    | some result =>
      obtain ⟨slot, e, created⟩ := result
      simp only [touched]
      split
      · exact (Slots.put_get (get_created got)).symm
      · rfl
  | recordSuccess ip => rfl
  | authBlocked ip =>
    simp only [serve, authBlocked, creates, Bool.false_eq_true, if_false]
    by_cases exempt : (!config.enabled || authExempt ip) = true
    · rw [if_pos exempt, edit_same]
      intro e
      simp only [touched, exempt, if_true]
    · rw [if_neg exempt]
      have change : touched config now (.authBlocked ip) =
          fun e => { e with auth := e.auth.expire now } := by
        funext e
        simp only [touched, exempt, if_false, Bool.false_eq_true]
      rw [change]
      cases found : findEntry table ip with
      | none => simp [Table.edit, Event.ip, found]
      | some result => rfl
  | recordAuthFailure ip =>
    have opposite : creates config (.recordAuthFailure ip) =
        !(!config.enabled || authExempt ip) := by
      simp [creates]
    rw [opposite]
    simp only [serve, recordAuthFailure]
    by_cases exempt : (!config.enabled || authExempt ip) = true
    · rw [if_pos exempt, if_neg (by simp [exempt]), edit_same]
      intro e
      simp only [touched, exempt, if_true]
    · rw [if_neg exempt, if_pos (by simpa using exempt)]
      have change : touched config now (.recordAuthFailure ip) =
          fun e => { e with auth := e.auth.failAuth config now } := by
        funext e
        simp only [touched, exempt, if_false, Bool.false_eq_true]
      rw [change]
      unfold Table.editOrCreate
      simp only [Event.ip]
      cases getOrCreateEntry table ip now with
      | none => rfl
      | some result => rfl
  | recordAuthSuccess ip =>
    simp only [serve, recordAuthSuccess, creates, Bool.false_eq_true, if_false, Event.ip]
    by_cases empty : ip.str.length = 0
    · rw [if_pos empty, edit_same]
      intro e
      simp only [touched, empty, if_true]
    · rw [if_neg empty]
      have change : touched config now (.recordAuthSuccess ip) =
          fun e => { e with auth := e.auth.cleared } := by
        funext e
        simp only [touched, empty, if_false]
      rw [change]

theorem entryOf_serve (config : Config) (now : Nat) (table : Table) (event : Event) (other : Ip) :
    entryOf (serve config now table event) other =
      if other = event.ip then
        (if creates config event then countedIn table event.ip now
          else entryOf table event.ip).map (touched config now event)
      else entryOf table other := by
  rw [serve_eq]
  cases creates config event with
  | true =>
    rw [if_pos rfl, if_pos rfl]
    exact entryOf_editOrCreate _ _ _ (touched_ip config now event) other
  | false =>
    rw [if_neg Bool.false_ne_true, if_neg Bool.false_ne_true]
    exact entryOf_edit _ _ (touched_ip config now event) other

theorem firstFree_serve {config : Config} {now : Nat}
    (full : table.firstFree = none) (event : Event) :
    (serve config now table event).firstFree = none := by
  rw [serve_eq]
  split
  · unfold Table.editOrCreate getOrCreateEntry
    cases findEntry table event.ip with
    | some result => exact Slots.firstFree_put_some full _ _
    | none => simp only [full]
  · unfold Table.edit
    cases findEntry table event.ip with
    | none => exact full
    | some result => exact Slots.firstFree_put_some full _ _

end Cix.Throttle
