import Cix.Pkg.Rebuilds

/-!
# The drain follows the queue

A pass of the drain does what it should as long as no start fails at once
while another image is behind the one it works on.  The pass begins with a
reap, after which no chain is left that a later reap of the same pass could
record as failed: until something is started, only starts that fail at once
edit the queue.
-/

namespace Cix.Pkg

open Cix.Lib List Option

/-! ## The table under a start that is refused -/

section Tables

variable {t : Table} {key : Key} {slot : Nat} {e : Entry}

theorem pkgFind_put_of_ne {cell : Option Entry} (before : ∀ e, t.get slot = some e → e.key ≠ key)
    (after : ∀ e, cell = some e → e.key ≠ key) :
    pkgFind key (t.put slot cell) = pkgFind key t := by
  apply Slots.find_put_of_not
  · intro e held
    exact decide_eq_false (before e held)
  · intro e isNew
    exact decide_eq_false (after e isNew)

theorem pkgFind_put_found {i : Nat} {o : Entry}
    (found : pkgFind key t = some (i, o)) (keyed : e.key = key) :
    pkgFind key (t.put i (some e)) = some (i, e) :=
  Slots.find_put_found found (decide_eq_true keyed)

theorem modify_put (inside : slot < 1024) (change : Entry → Entry) :
    Table.modify slot change (t.put slot (some e)) = t.put slot (some (change e)) := by
  rw [Table.modify, Slots.get_put inside, if_pos rfl]
  simp [Slots.put]

theorem inFlight_pkgRecordOutcome (keep : Bool) :
    (pkgRecordOutcome keep e).state.inFlight = false := by
  rw [pkgRecordOutcome]
  simp only
  split_ifs <;> rfl

structure Table.Stays (image : Name) (t t' : Table) : Prop where
  others : ∀ other : Key, other.image ≠ image → pkgFind other t' = pkgFind other t
  flying : ∀ other slot e, pkgFind other t' = some (slot, e) →
    e.state.inFlight = true → pkgFind other t = some (slot, e)
  distinct : t.Distinct → t'.Distinct

theorem Table.Stays.refl (image : Name) (t : Table) : Table.Stays image t t where
  others := fun _ _ => rfl
  flying := fun _ _ _ found _ => found
  distinct := id

theorem Table.Stays.ofSlot {t' : Table}
    (others : ∀ other, other ≠ key → pkgFind other t' = pkgFind other t)
    (landed : ∀ slot e, pkgFind key t' = some (slot, e) → e.state.inFlight = false)
    (distinct : t.Distinct → t'.Distinct) : Table.Stays key.image t t' where
  others := fun other different => others other fun same =>
    different (same ▸ rfl)
  flying := by
    intro other slot e found flying
    by_cases same : other = key
    · rw [landed slot e (same ▸ found)] at flying
      cases flying
    · rw [← others other same]
      exact found
  distinct := distinct

theorem fetchEntry_slot {upgrade : Bool}
    (place : State.fetchEntry key t = some (slot, e, upgrade)) :
    e.key = key ∧ slot < 1024 ∧ ((∃ o, pkgFind key t = some (slot, o)) ∨
        pkgFind key t = none ∧ t.get slot = none) := by
  rw [State.fetchEntry] at place
  split at place
  · rename_i i o found
    obtain ⟨held, keyed⟩ := get_of_pkgFind found
    have inside := Slots.lt_of_get held
    split_ifs at place
    · cases place
      exact ⟨keyed, inside, Or.inl ⟨_, found⟩⟩
    · cases place
      exact ⟨rfl, inside, Or.inl ⟨_, found⟩⟩
  · rename_i missing
    obtain ⟨i, free, same⟩ := map_eq_some_iff.mp place
    cases same
    obtain ⟨inside, isFree⟩ := Slots.get_firstFree free
    exact ⟨rfl, inside, Or.inr ⟨missing, isFree⟩⟩

theorem stays_put_found {o landed : Entry}
    (found : pkgFind key t = some (slot, o)) (keyed : landed.key = key)
    (down : landed.state.inFlight = false) :
    Table.Stays key.image t (t.put slot (some landed)) := by
  obtain ⟨held, oKeyed⟩ := get_of_pkgFind found
  apply Table.Stays.ofSlot
  · intro other different
    apply pkgFind_put_of_ne
    · intro o' held'
      rw [held] at held'
      cases held'
      rw [oKeyed]
      exact different.symm
    · intro o' isNew
      cases isNew
      rw [keyed]
      exact different.symm
  · intro i o' again
    rw [pkgFind_put_found found keyed] at again
    cases again
    exact down
  · intro distinct
    exact distinct.replace held (keyed.trans oKeyed.symm)

theorem stays_put_free {landed : Entry} (missing : pkgFind key t = none)
    (free : t.get slot = none) (keyed : landed.key = key)
    (down : landed.state.inFlight = false) :
    Table.Stays key.image t (t.put slot (some landed)) := by
  apply Table.Stays.ofSlot
  · intro other different
    apply pkgFind_put_of_ne
    · intro o held
      rw [free] at held
      cases held
    · intro o isNew
      cases isNew
      rw [keyed]
      exact different.symm
  · intro i o found
    obtain ⟨held, oKeyed⟩ := get_of_pkgFind found
    rcases Slots.get_of_get_put held with ⟨_, isNew⟩ | ⟨_, old⟩
    · cases isNew
      exact down
    · exact absurd oKeyed (ne_of_pkgFind_none missing old)
  · intro distinct
    exact distinct.put (by rw [keyed]; exact missing)

theorem stays_of_fetchEntry {upgrade : Bool} {landed : Entry}
    (place : State.fetchEntry key t = some (slot, e, upgrade))
    (keyed : landed.key = key) (down : landed.state.inFlight = false) :
    Table.Stays key.image t (t.put slot (some landed)) := by
  obtain ⟨_, _, there⟩ := fetchEntry_slot place
  rcases there with ⟨o, found⟩ | ⟨missing, free⟩
  · exact stays_put_found found keyed down
  · exact stays_put_free missing free keyed down

end Tables

namespace State

/-! ## Chains that a reap leaves alone -/

section Calm

variable {w : World} {i : ChainIdx} {image : Name} {s s' s'' : State}

structure Calm (s : State) : Prop where
  settled : ∀ i, s.reapFails i = none
  distinct : s.table.Distinct

structure Still (image : Name) (s s' : State) : Prop where
  children : s'.children = s.children
  chains : ∀ i, (s'.chains i).name = none ∨ ((s'.chains i).target = (s.chains i).target ∧
      (s'.chains i).name = (s.chains i).name ∧
      (s'.chains i).producer = (s.chains i).producer)
  table : Table.Stays image s.table s'.table

theorem still_refl (image : Name) (s : State) : Still image s s where
  children := rfl
  chains := fun _ => Or.inr ⟨rfl, rfl, rfl⟩
  table := .refl image s.table

theorem Still.trans (first : Still image s s') (second : Still image s' s'') :
    Still image s s'' where
  children := second.children.trans first.children
  chains := by
    intro i
    rcases second.chains i with free | ⟨target, name, producer⟩
    · exact Or.inl free
    · rcases first.chains i with free' | ⟨target', name', producer'⟩
      · exact Or.inl (name.trans free')
      · exact Or.inr ⟨target.trans target', name.trans name', producer.trans producer'⟩
  table :=
    { others := fun other different =>
        (second.table.others other different).trans (first.table.others other different)
      flying := fun other slot e found flying =>
        first.table.flying other slot e (second.table.flying other slot e found flying) flying
      distinct := fun before =>
        second.table.distinct (first.table.distinct before) }

theorem still_of_chains (children : s'.children = s.children) (table : s'.table = s.table)
    (chains : ∀ i, (s'.chains i).name = none ∨ s'.chains i = s.chains i) : Still image s s' where
  children := children
  chains := by
    intro i
    rcases chains i with free | same
    · exact Or.inl free
    · rw [same]
      exact Or.inr ⟨rfl, rfl, rfl⟩
  table := by
    rw [table]
    exact .refl image s.table

theorem still_setChain {c : Chain} (free : c.name = none) : Still image s (s.setChain i c) := by
  apply @still_of_chains _ s (s.setChain i c) rfl rfl
  intro j
  by_cases same : j = i
  · subst same
    rw [setChain_self]
    exact Or.inl free
  · exact Or.inr (setChain_of_ne _ _ _ same)

theorem still_release : Still image s (s.release i) :=
  still_setChain rfl

theorem reapFails_eq_some (fails : s.reapFails i = some image) :
    ∃ wanted slot e, (s.chains i).target = some wanted ∧ (s.chains i).producer = .none ∧
      pkgFind wanted s.table = some (slot, e) ∧
      e.state.inFlight = true ∧ s.buildJobCanStillReport e = false ∧
      image = wanted.image := by
  rw [reapFails] at fails
  split_ifs at fails with skipped
  simp only [Bool.or_eq_true, isNone_iff_eq_none, ne_eq,
    decide_eq_true_eq, not_or, not_not] at skipped
  obtain ⟨_, alone⟩ := skipped
  split at fails
  · cases fails
  · rename_i slot e found
    split_ifs at fails with stale
    rw [Bool.and_eq_true, Bool.not_eq_true'] at stale
    rw [targetEntry] at found
    split at found
    · cases found
    · rename_i wanted isTarget
      obtain ⟨_, keyed⟩ := get_of_pkgFind found
      refine ⟨wanted, slot, e, isTarget, alone, found, stale.1, stale.2, ?_⟩
      rw [← some.inj fails, keyed]

theorem reapFails_of {wanted : Key} {slot : Nat} {e : Entry}
    (target : (s.chains i).target = some wanted)
    (alone : (s.chains i).producer = .none)
    (found : pkgFind wanted s.table = some (slot, e))
    (flying : e.state.inFlight = true)
    (silent : s.buildJobCanStillReport e = false) :
    s.reapFails i = some wanted.image := by
  have named : (s.chains i).name ≠ none := by
    intro free
    rw [Chain.target, free] at target
    cases target
  rw [reapFails, if_neg (by simp [named, alone]), targetEntry, target]
  simp [found, flying, silent, (get_of_pkgFind found).2]

theorem Still.reapFails (still : Still image s s')
    (calm : s.reapFails i = none) : s'.reapFails i = none := by
  cases fails : s'.reapFails i with
  | none => rfl
  | some image =>
    obtain ⟨wanted, slot, e, target, alone, found, flying, silent, _⟩ := reapFails_eq_some fails
    rcases still.chains i with free | ⟨target', _, producer⟩
    · rw [Chain.target, free] at target
      cases target
    · have old := still.table.flying wanted slot e found flying
      have silentBefore : s.buildJobCanStillReport e = false := by
        rw [← silent]
        simp [buildJobCanStillReport, buildLive, still.children]
      have before := reapFails_of (target'.symm.trans target)
        (producer.symm.trans alone) old flying silentBefore
      rw [calm] at before
      cases before

theorem Still.calm (still : Still image s s') (calm : s.Calm) : s'.Calm where
  settled := fun i => still.reapFails (calm.settled i)
  distinct := still.table.distinct calm.distinct

theorem reapOne_of_calm (calm : s.reapFails i = none) :
    s.reapOne i = s ∨ s.reapOne i = s.release i := by
  rw [reapFails] at calm
  rw [reapOne]
  split_ifs at calm ⊢ with skipped
  · exact Or.inl rfl
  · cases found : s.targetEntry i with
    | none => exact Or.inr rfl
    | some target =>
      obtain ⟨slot, e⟩ := target
      simp only [found] at calm
      dsimp only
      by_cases flying : e.state.inFlight = true
      · by_cases reports : s.buildJobCanStillReport e = true
        · exact Or.inl (by rw [if_pos flying, if_pos reports])
        · simp [flying, reports] at calm
      · exact Or.inr (if_neg flying)

theorem still_reapOne (calm : s.Calm) : Still image s (s.reapOne i) := by
  rcases reapOne_of_calm (calm.settled i) with same | released
  · rw [same]
    exact still_refl image s
  · rw [released]
    exact still_release

theorem still_reaps (image : Name) (order : List ChainIdx) (calm : s.Calm) :
    Still image s (order.foldl (fun s i => s.reapOne i) s) := by
  induction order generalizing s with
  | nil => exact still_refl image s
  | cons i rest ih =>
    have first : Still image s (s.reapOne i) := still_reapOne calm
    exact first.trans (ih (first.calm calm))

theorem still_chainReapStale (calm : s.Calm) : Still image s s.chainReapStale :=
  still_reaps image _ calm

theorem table_reaps (order : List ChainIdx) (calm : s.Calm) :
    (order.foldl (fun s i => s.reapOne i) s).table = s.table := by
  induction order generalizing s with
  | nil => rfl
  | cons i rest ih =>
    have first : Still defaultImage s (s.reapOne i) := still_reapOne calm
    rw [foldl_cons, ih (first.calm calm)]
    rcases reapOne_of_calm (calm.settled i) with same | released
    · rw [same]
    · rw [released, release_table]

theorem table_chainReapStale (calm : s.Calm) : s.chainReapStale.table = s.table :=
  table_reaps _ calm

variable {order : List ChainIdx}

theorem still_chainAllocFrom (calm : s.Calm) :
    Still image s (s.chainAllocFrom order).1 := by
  have reaped : Still image s s.chainReapStale := still_chainReapStale calm
  rw [chainAllocFrom]
  split
  · exact reaped
  · rename_i i found
    have test := find?_some found
    have free : (s.chainReapStale.chains i).name = none := isNone_iff_eq_none.mp test
    exact reaped.trans (still_setChain free)

theorem still_chainAlloc (w : World) (calm : s.Calm) : Still image s (s.chainAlloc w).1 :=
  still_chainAllocFrom calm

theorem still_startFetchFor {name : Name} (free : (s.chains i).name = none)
    (refused : (s.startFetchFor w name i).2 ≠ .ok) :
    Still (s.chains i).image s (s.startFetchFor w name i).1 := by
  rw [startFetchFor] at refused ⊢
  cases recipe : w.recipe name (s.chains i).effectiveVersion with
  | none => exact still_refl _ s
  | some resolved =>
    simp only [recipe] at refused ⊢
    cases place : fetchEntry ⟨name, (s.chains i).image⟩ s.table with
    | none => exact still_refl _ s
    | some found =>
      obtain ⟨slot, e, upgrade⟩ := found
      simp only [place] at refused ⊢
      split_ifs at refused ⊢
      · exact absurd rfl refused
      · obtain ⟨keyed, inside, _⟩ := fetchEntry_slot place
        constructor
        · rfl
        · intro j
          by_cases same : j = i
          · subst same
            rw [fail_chains, setChain_self]
            exact Or.inl free
          · rw [fail_chains, setChain_of_ne _ _ _ same]
            exact Or.inr ⟨rfl, rfl, rfl⟩
        · rw [fail_table, setChain_table, setTable_table, pkgFail, modify_put inside]
          exact stays_of_fetchEntry place keyed (inFlight_pkgRecordOutcome upgrade)

theorem still_installInto {r : InstallRequest} {key : Key} (free : (s.chains i).name = none)
    (refused : (s.installInto w r key i).2 ≠ .ok) :
    Still key.image s (s.installInto w r key i).1 := by
  have unnamed : (installPlan w r key s.table (s.chains i)).1.name = none :=
    (name_installPlan w r key s.table (s.chains i)).trans free
  have planned : Still key.image s (s.setChain i (installPlan w r key s.table (s.chains i)).1) :=
    still_setChain unnamed
  rw [installInto] at refused ⊢
  simp only at refused ⊢
  split
  · rename_i first rest isOk isQueue
    obtain ⟨image, _⟩ := queue_of_installPlan isOk
    simp only [isOk, isQueue] at refused
    have noFetch : ((s.setChain i (installPlan w r key s.table
        (s.chains i)).1).startFetchFor w first i).2 ≠ .ok := by
      intro started
      split at refused
      · exact refused rfl
      · rename_i s₁ err failed isErr
        rw [isErr] at started
        exact refused started
    have fetch := still_startFetchFor (by rw [setChain_self]; exact unnamed) noFetch
    rw [setChain_self, image] at fetch
    have still := planned.trans fetch
    split
    · rename_i s₁ started
      rw [started] at still
      exact still
    · rename_i s₁ err failed isErr
      rw [isErr] at still
      apply still.trans
      apply still_setChain
      have name := name_startFetchFor noFetch
      rw [isErr, setChain_self] at name
      exact name.trans unnamed
  · exact planned
  · exact planned

theorem still_installAdmit {r : InstallRequest} (calm : s.Calm) :
    Still image s (s.installAdmit w r).1 := by
  rw [installAdmit]
  split
  · exact still_refl image s
  · rename_i key isKey
    have reaped : Still image s s.chainReapStale := still_chainReapStale calm
    rw [pkgJobInFlightFor]
    split
    · rename_i s₁ answer
      rw [Prod.mk.injEq] at answer
      rw [← answer.1]
      exact reaped
    · rename_i s₁ answer
      rw [Prod.mk.injEq] at answer
      rw [← answer.1]
      have first := reaped.trans (still_chainAlloc w (reaped.calm calm))
      split
      · rename_i s₂ full
        rw [full] at first
        exact first
      · rename_i s₂ j found
        rw [found] at first
        have second := first.trans (still_chainAlloc w (first.calm calm))
        split
        · rename_i s₃ full
          rw [full] at second
          exact second
        · rename_i s₃ k again
          rw [again] at second
          exact second

theorem still_pkgInstallStart {r : InstallRequest} {key : Key}
    (calm : s.Calm) (isKey : requestKey r.name r.image = some key)
    (refused : (s.pkgInstallStart w r).2 ≠ .ok) :
    Still key.image s (s.pkgInstallStart w r).1 := by
  have admits : Still key.image s (s.installAdmit w r).1 := still_installAdmit calm
  rw [pkgInstallStart] at refused ⊢
  split at refused
  · rename_i s₁ err admitted
    rw [admitted] at admits
    exact admits
  · rename_i s₁ key' i admitted
    have same := requestKey_installAdmit admitted
    rw [isKey] at same
    cases same
    have free := name_installAdmit admitted
    rw [admitted] at admits
    exact admits.trans (still_installInto free refused)

theorem stays_clear {t : Table} {key : Key} {slot : Nat} {e : Entry}
    (distinct : t.Distinct) (found : pkgFind key t = some (slot, e)) :
    Table.Stays key.image t (t.put slot none) := by
  obtain ⟨held, keyed⟩ := get_of_pkgFind found
  apply Table.Stays.ofSlot
  · intro other different
    apply pkgFind_put_of_ne
    · intro o oHeld
      rw [held] at oHeld
      cases oHeld
      rw [keyed]
      exact different.symm
    · intro o isNew
      cases isNew
  · intro i o again
    obtain ⟨oHeld, oKeyed⟩ := get_of_pkgFind again
    rcases Slots.get_of_get_put oHeld with ⟨_, isNew⟩ | ⟨other, old⟩
    · cases isNew
    · exact absurd (distinct i slot o e old held (oKeyed.trans keyed.symm)) other
  · intro _
    exact distinct.clear

theorem still_deleteInto {key : Key} {slot : Nat} (free : (s.chains i).name = none)
    (refused : (s.deleteInto w key slot i).2 ≠ .ok) :
    Still image s (s.deleteInto w key slot i).1 := by
  rw [deleteInto, deleteProduceStart] at refused ⊢
  cases spawns : w.spawns with
  | true => simp [spawns] at refused
  | false =>
    simp only [Bool.false_eq_true, if_false]
    refine still_of_chains rfl rfl ?_
    intro j
    by_cases same : j = i
    · subst same
      rw [release_self]
      exact Or.inl rfl
    · right
      rw [release, setChain_of_ne _ _ _ same, setChain_of_ne _ _ _ same]

theorem still_deleteStart {key : Key} (calm : s.Calm) (idle : (s.deleteStart w key).2 = .ok →
      ∀ slot e, pkgFind key s.table = some (slot, e) → e.state = .failed) :
    Still key.image s (s.deleteStart w key).1 := by
  have reaped : Still key.image s s.chainReapStale := still_chainReapStale calm
  have reapedTable := table_chainReapStale calm
  rw [deleteStart] at idle ⊢
  cases found : pkgFind key s.table with
  | none => exact still_refl _ s
  | some pair =>
    obtain ⟨slot, e⟩ := pair
    simp only [found] at idle ⊢
    by_cases flying : e.state.inFlight = true
    · rw [if_pos flying]
      exact still_refl _ s
    rw [if_neg flying] at idle ⊢
    rw [pkgJobInFlightFor] at idle ⊢
    split
    · rename_i s₁ busy
      rw [Prod.mk.injEq] at busy
      rw [← busy.1]
      exact reaped
    · rename_i s₁ free
      simp only [free] at idle
      rw [Prod.mk.injEq] at free
      rw [← free.1] at idle ⊢
      have calm₁ := reaped.calm calm
      by_cases failed : e.state = .failed
      · rw [if_pos failed]
        apply reaped.trans
        constructor
        · rw [save_children, setTable_children]
        · intro j
          rw [save_chains, setTable_chains]
          exact Or.inr ⟨rfl, rfl, rfl⟩
        · rw [save_table, setTable_table]
          exact stays_clear calm₁.distinct (by rw [reapedTable]; exact found)
      · rw [if_neg failed] at idle ⊢
        have refused : ∀ {answer}, answer = PkgError.ok →
            (answer = .ok → ∀ i o, some (slot, e) = some (i, o) → o.state = .failed) → False := by
          intro answer isOk all
          exact failed (all isOk slot e rfl)
        have allocated : Still key.image s
            s.chainReapStale.chainAllocDelete.1 :=
          reaped.trans (still_chainAllocFrom calm₁)
        split
        · rename_i s₂ full
          rw [full] at allocated
          exact allocated
        · rename_i s₂ j given
          simp only [given] at idle
          have freeChain := name_chainAllocFrom given
          rw [given] at allocated
          apply allocated.trans
          exact still_deleteInto freeChain fun isOk => refused isOk idle

theorem still_reap (i : ChainIdx) (s : State) : ∃ image, Still image s (s.reapOne i) := by
  cases fails : s.reapFails i with
  | none =>
    rcases reapOne_of_calm fails with same | released
    · exact ⟨defaultImage, by rw [same]; exact still_refl _ s⟩
    · exact ⟨defaultImage, by rw [released]; exact still_release⟩
  | some image =>
    obtain ⟨wanted, slot, e, target, alone, found, flying, silent, rfl⟩ :=
      reapFails_eq_some fails
    obtain ⟨held, keyed⟩ := get_of_pkgFind found
    have named : (s.chains i).name ≠ none := by
      intro free
      rw [Chain.target, free] at target
      cases target
    have reaped : s.reapOne i = (s.fail slot e.named).release i := by
      rw [reapOne, if_neg (by simp [named, alone]), targetEntry, target]
      simp [found, flying, silent]
    have failed : Still wanted.image s (s.fail slot e.named) := by
      refine ⟨rfl, fun _ => Or.inr ⟨rfl, rfl, rfl⟩, ?_⟩
      rw [fail_table, pkgFail, Table.modify, held]
      exact stays_put_found found keyed (inFlight_pkgRecordOutcome e.named)
    exact ⟨wanted.image, by rw [reaped]; exact failed.trans still_release⟩

theorem reapFails_reapOne (i : ChainIdx) (s : State) : (s.reapOne i).reapFails i = none := by
  cases fails : s.reapFails i with
  | none =>
    obtain ⟨image, still⟩ := still_reap i s
    exact still.reapFails fails
  | some image =>
    obtain ⟨wanted, slot, e, target, alone, found, flying, silent, rfl⟩ :=
      reapFails_eq_some fails
    have named : (s.chains i).name ≠ none := by
      intro free
      rw [Chain.target, free] at target
      cases target
    have freed : ((s.reapOne i).chains i).name = none := by
      rw [reapOne, if_neg (by simp [named, alone]), targetEntry, target]
      simp only [found, flying, silent, if_true, Bool.false_eq_true, if_false, release_self]
      rfl
    simp [reapFails, freed]

theorem reapFails_reaps (calm : i ∈ order ∨ s.reapFails i = none) :
    (order.foldl (fun s i => s.reapOne i) s).reapFails i = none := by
  induction order generalizing s with
  | nil =>
    rcases calm with member | calm
    · cases member
    · exact calm
  | cons j rest ih =>
    apply ih
    obtain ⟨image, still⟩ := still_reap j s
    rcases calm with member | calm
    · rcases mem_cons.mp member with rfl | later
      · exact Or.inr (reapFails_reapOne i s)
      · exact Or.inl later
    · exact Or.inr (still.reapFails calm)

theorem distinct_reaps (distinct : s.table.Distinct) :
    (order.foldl (fun s i => s.reapOne i) s).table.Distinct := by
  induction order generalizing s with
  | nil => exact distinct
  | cons j rest ih =>
    obtain ⟨image, still⟩ := still_reap j s
    exact ih (still.table.distinct distinct)

theorem calm_chainReapStale (distinct : s.table.Distinct) : s.chainReapStale.Calm where
  settled := fun i => reapFails_reaps (Or.inl (mem_finRange i))
  distinct := distinct_reaps distinct

theorem calm_chainAlloc (w : World) (distinct : s.table.Distinct) : (s.chainAlloc w).1.Calm := by
  have calm := calm_chainReapStale distinct
  rw [chainAlloc, chainAllocFrom]
  split
  · exact calm
  · rename_i i found
    have test := find?_some found
    have free : (s.chainReapStale.chains i).name = none := isNone_iff_eq_none.mp test
    have still : Still defaultImage s.chainReapStale (s.chainReapStale.setChain i
          (s.chainReapStale.chains i).handedOut) :=
      still_setChain free
    exact still.calm calm

end Calm

end State

/-! ## The queue -/

namespace RebuildQueue

variable {q : RebuildQueue} {front back : List Name} {image : Name}

theorem slot_of_images (images : q.images = front ++ image :: back) :
    q.slot front.length = image := by
  simp [slot, images]

theorem removeAt_images (images : q.images = front ++ image :: back) :
    (q.removeAt front.length).images = front ++ back := by
  simp [removeAt, images, eraseIdx_append_of_length_le]

theorem slot_removeAt_last (images : q.images = front ++ [image]) :
    (q.removeAt front.length).slot front.length = image := by
  have gone := removeAt_images images
  rw [append_nil] at gone
  rw [slot, gone]
  simp [removeAt, images]

end RebuildQueue

namespace Rebuilds

section Queue

variable {r : Rebuilds} {image : Name}

@[simp]
theorem note_queue (act : DrainAct) : (r.note act).queue = r.queue := rfl

@[simp]
theorem note_jobs (act : DrainAct) : (r.note act).jobs = r.jobs := rfl

@[simp]
theorem note_acts (act : DrainAct) : (r.note act).acts = r.acts ++ [act] :=
  rfl

structure Removed (image : Name) (r r' : Rebuilds) : Prop where
  jobs : r'.jobs = r.jobs
  gateRoll : r'.gateRoll = r.gateRoll
  acts : r'.acts = r.acts
  approvals : ∀ other, other ≠ image → (other ∈ r'.approvals ↔ other ∈ r.approvals)

theorem Removed.refl (image : Name) (r : Rebuilds) : Removed image r r :=
  ⟨rfl, rfl, rfl, fun _ _ => Iff.rfl⟩

theorem removed_approvalDrop : Removed image r (r.approvalDrop image) := by
  refine ⟨rfl, rfl, rfl, ?_⟩
  intro other different
  exact mem_erase_of_ne different

theorem removed_removeAt {qi : Nat} (there : r.queue.images[qi]? = some image) :
    Removed image r (r.rebuildQueueRemoveAt qi) := by
  rw [rebuildQueueRemoveAt, there]
  exact ⟨rfl, rfl, rfl, removed_approvalDrop.approvals⟩

theorem queue_removeAt {qi : Nat} (there : r.queue.images[qi]? = some image) :
    (r.rebuildQueueRemoveAt qi).queue = r.queue.removeAt qi := by
  rw [rebuildQueueRemoveAt, there]

theorem images_removeAt {front back : List Name}
    (images : r.queue.images = front ++ image :: back) :
    (r.rebuildQueueRemoveAt front.length).queue.images = front ++ back := by
  have there : r.queue.images[front.length]? = some image := by simp [images]
  rw [queue_removeAt there]
  exact RebuildQueue.removeAt_images images

theorem rebuildQueueRemove_of_not_mem (missing : image ∉ r.queue.images) :
    r.rebuildQueueRemove image = r := by
  have none : r.queue.images.findIdx? (fun queued =>
      decide (queued = image)) = Option.none := by
    rw [findIdx?_eq_none_iff]
    intro queued member
    exact decide_eq_false fun same => missing (same ▸ member)
  rw [rebuildQueueRemove, none]

theorem rebuildQueueRemove_of_images {front back : List Name}
    (images : r.queue.images = front ++ image :: back) :
    r.rebuildQueueRemove image = r.rebuildQueueRemoveAt front.length := by
  have nodup := r.queue.nodup
  rw [images, nodup_append] at nodup
  have first : r.queue.images.findIdx? (fun queued =>
      decide (queued = image)) = some front.length := by
    rw [images, findIdx?_append]
    have before : front.findIdx? (fun queued =>
        decide (queued = image)) = none := by
      rw [findIdx?_eq_none_iff]
      intro queued member
      exact decide_eq_false (nodup.2.2 queued member image (mem_cons_self ..))
    simp [before, findIdx?_cons]
  rw [rebuildQueueRemove, first]

theorem removed_remove : Removed image r (r.rebuildQueueRemove image) := by
  by_cases member : image ∈ r.queue.images
  · obtain ⟨front, back, images⟩ := append_of_mem member
    rw [rebuildQueueRemove_of_images images]
    exact removed_removeAt (by simp [images])
  · rw [rebuildQueueRemove_of_not_mem member]
    exact .refl image r

theorem sublist_removeAt (qi : Nat) :
    (r.rebuildQueueRemoveAt qi).queue.images.Sublist r.queue.images := by
  cases there : r.queue.images[qi]? with
  | none => rw [rebuildQueueRemoveAt, there]
  | some image =>
    rw [queue_removeAt there]
    exact eraseIdx_sublist _ _

theorem sublist_remove : (r.rebuildQueueRemove image).queue.images.Sublist r.queue.images := by
  rw [rebuildQueueRemove]
  split
  · exact List.Sublist.refl _
  · exact sublist_removeAt _

end Queue

section Reaps

variable {r : Rebuilds}

theorem reaps_of_calm (order : List ChainIdx) (calm : r.jobs.Calm) :
    order.foldl (fun r i => r.reapOne i) r =
      { r with jobs := order.foldl (fun s i => s.reapOne i) r.jobs } := by
  induction order generalizing r with
  | nil => rfl
  | cons i rest ih =>
    have one : r.reapOne i = { r with jobs := r.jobs.reapOne i } := by
      rw [reapOne, calm.settled i]
    have still : State.Still defaultImage r.jobs (r.jobs.reapOne i) := State.still_reapOne calm
    rw [foldl_cons, foldl_cons, one, ih (still.calm calm)]

theorem chainReapStale_of_calm (calm : r.jobs.Calm) :
    r.chainReapStale = { r with jobs := r.jobs.chainReapStale } :=
  reaps_of_calm _ calm

end Reaps

section Attempts

variable {r : Rebuilds}

inductive Tried (w : DrainWorld) (qi : Nat) (lookedAt : Name)
    (m : ImageManifestEntry) (r : Rebuilds) : Rebuilds → Attempt → Prop
  | satisfied
      (holds : r.jobs.satisfies w m (r.queue.slot qi) = true) :
      Tried w qi lookedAt m r r .satisfied
  | waits (s : State)
      (still : State.Still (r.queue.slot qi) r.jobs s) :
      Tried w qi lookedAt m r { r with jobs := s } .deferred
  | answered (s : State) (answer : PkgError)
      (spawned : answer ≠ .spawnFailed)
      (still : answer ≠ .ok → State.Still (r.queue.slot qi) r.jobs s) :
      Tried w qi lookedAt m r ({ r with jobs := s }.note
          (.starts lookedAt (r.queue.slot qi) m answer))
        (Attempt.ofAnswer answer)
  | failed (s : State)
      (still : State.Still (r.queue.slot qi) r.jobs s) :
      Tried w qi lookedAt m r (({ r with jobs := s }.rebuildQueueRemove (r.queue.slot qi)).note
          (.starts lookedAt (r.queue.slot qi) m .spawnFailed))
        .refused

theorem requestKey_image {package : CStr} {image : Name} {key : Key}
    (isKey : State.requestKey package (some image.str) = some key) :
    key.image = image := by
  rw [State.requestKey, normalizeImage, if_neg image.length_ne_zero, Name.ofCStr_str] at isKey
  split at isKey
  · rename_i isImage
    cases isKey
    exact (some.inj isImage).symm
  · cases isKey

theorem pkgInstallStart_cases {w : World} {request : InstallRequest}
    {image : Name} (calm : r.jobs.Calm)
    (named : request.image = some image.str) :
    (∃ s answer, r.pkgInstallStart w request =
        ({ r with jobs := s }, answer) ∧ answer ≠ .spawnFailed ∧
        (answer ≠ .ok → State.Still image r.jobs s)) ∨
      ∃ s, r.pkgInstallStart w request =
        ({ r with jobs := s }.rebuildQueueRemove image, .spawnFailed) ∧
        State.Still image r.jobs s := by
  rw [pkgInstallStart]
  cases isKey : State.requestKey request.name request.image with
  | none =>
    left
    exact ⟨r.jobs, .invalidName, rfl, by decide,
      fun _ => State.still_refl image r.jobs⟩
  | some key =>
    have sameImage : key.image = image := requestKey_image (by rw [← named]; exact isKey)
    have still := fun refused =>
      State.still_pkgInstallStart (w := w) calm isKey refused
    rw [sameImage] at still
    simp only [chainReapStale_of_calm calm, sameImage]
    by_cases failed : (r.jobs.pkgInstallStart w request).2 = .spawnFailed
    · right
      refine ⟨_, ?_, still (by rw [failed]; decide)⟩
      rw [if_pos failed, failed]
    · left
      exact ⟨_, _, by rw [if_neg failed], failed, still⟩

theorem tried_tryEntry (w : DrainWorld) (qi : Nat) (lookedAt : Name)
    (m : ImageManifestEntry) (calm : r.jobs.Calm) :
    Tried w qi lookedAt m r (r.tryEntry w qi lookedAt m).1 (r.tryEntry w qi lookedAt m).2 := by
  have reaped : State.Still (r.queue.slot qi) r.jobs r.jobs.chainReapStale :=
    State.still_chainReapStale calm
  rw [tryEntry]
  simp only [chainReapStale_of_calm calm]
  split_ifs with holds busy
  · exact .satisfied holds
  · exact .waits _ reaped
  · generalize isRequest : InstallRequest.mk m.package
      (some (r.queue.slot qi).str) _
      (r.jobs.findPackage m.package (r.queue.slot qi)).isSome = request
    have named : request.image = some (r.queue.slot qi).str := by rw [← isRequest]
    rcases pkgInstallStart_cases (w := w.answers r.acts)
        (r := { r with jobs := r.jobs.chainReapStale }) (reaped.calm calm)
        named with ⟨s, answer, result, spawned, still⟩ | ⟨s, result, still⟩
    · rw [result]
      exact .answered s answer spawned fun refused => reaped.trans (still refused)
    · rw [result]
      exact .failed s (reaped.trans still)

variable {qi : Nat}

theorem Tried.acts {w : DrainWorld} {lookedAt : Name}
    {m : ImageManifestEntry} {r' : Rebuilds} {attempt : Attempt}
    (tried : Tried w qi lookedAt m r r' attempt) :
    ∃ mine, r'.acts = r.acts ++ mine ∧ ∀ act ∈ mine, ∃ image answer,
        act = .starts lookedAt image m answer := by
  cases tried with
  | satisfied holds => exact ⟨[], by simp, by simp⟩
  | waits s still => exact ⟨[], by simp, by simp⟩
  | answered s answer spawned still =>
    exact ⟨[.starts lookedAt (r.queue.slot qi) m answer], rfl, by simp⟩
  | failed s still =>
    refine ⟨[.starts lookedAt (r.queue.slot qi) m .spawnFailed], ?_, by simp⟩
    rw [note_acts, removed_remove.acts]

theorem Tried.sublist {w : DrainWorld} {lookedAt : Name}
    {m : ImageManifestEntry} {r' : Rebuilds} {attempt : Attempt}
    (tried : Tried w qi lookedAt m r r' attempt) :
    r'.queue.images.Sublist r.queue.images := by
  cases tried with
  | satisfied holds => exact List.Sublist.refl _
  | waits s still => exact List.Sublist.refl _
  | answered s answer spawned still => exact List.Sublist.refl _
  | failed s still => exact sublist_remove (r := { r with jobs := s })

theorem Tried.still {w : DrainWorld} {lookedAt : Name}
    {m : ImageManifestEntry} {r' : Rebuilds} {attempt : Attempt}
    (tried : Tried w qi lookedAt m r r' attempt)
    (unstarted : attempt ≠ .started) :
    State.Still (r.queue.slot qi) r.jobs r'.jobs := by
  cases tried with
  | satisfied holds => exact State.still_refl _ _
  | waits s still => exact still
  | answered s answer spawned still =>
    apply still
    rintro rfl
    exact unstarted rfl
  | failed s still =>
    rw [note_jobs, removed_remove.jobs]
    exact still

/-- Whatever the queue holds, a walk through a manifest looks at no image, and
takes images out of the queue at most. -/
structure Ran (lookedAt : Name) (r r' : Rebuilds) (started : Bool) :
    Prop where
  acts : ∃ mine, r'.acts = r.acts ++ mine ∧
    ∀ act ∈ mine, ∃ image m answer, act = .starts lookedAt image m answer
  images : r'.queue.images.Sublist r.queue.images
  calm : started = false → r'.jobs.Calm

theorem ran_tryEntries (w : DrainWorld) (qi : Nat) (lookedAt : Name)
    (entries : List ImageManifestEntry) (tally : Tally)
    (calm : r.jobs.Calm) :
    Ran lookedAt r (tryEntries w qi lookedAt entries tally r).1
      (tryEntries w qi lookedAt entries tally r).2.started := by
  induction entries generalizing tally r with
  | nil =>
    exact ⟨⟨[], by simp [tryEntries], by simp⟩, List.Sublist.refl _,
      fun _ => calm⟩
  | cons m rest ih =>
    have tried := tried_tryEntry w qi lookedAt m calm
    obtain ⟨mine, acts, starts⟩ := tried.acts
    rw [tryEntries]
    split_ifs with started
    · refine ⟨⟨mine, acts, ?_⟩, tried.sublist, ?_⟩
      · intro act member
        obtain ⟨image, answer, same⟩ := starts act member
        exact ⟨image, m, answer, same⟩
      · rw [started]
        intro isStarted
        cases isStarted
    · obtain ⟨⟨later, laterActs, laterStarts⟩, images, calmAfter⟩ :=
        ih (tally.add (r.tryEntry w qi lookedAt m).2) ((tried.still started).calm calm)
      refine ⟨⟨mine ++ later, ?_, ?_⟩, images.trans tried.sublist, calmAfter⟩
      · rw [laterActs, acts, append_assoc]
      · intro act member
        rcases mem_append.mp member with first | second
        · obtain ⟨image, answer, same⟩ := starts act first
          exact ⟨image, m, answer, same⟩
        · exact laterStarts act second

/-- The pointer reads the image that the drain looked at, there or as the last image
that was taken out. -/
structure InPlace (front : List Name) (image : Name) (back : List Name)
    (r : Rebuilds) : Prop where
  slot : r.queue.slot front.length = image
  images : r.queue.images = front ++ image :: back ∨ back = [] ∧ r.queue.images = front
  fresh : image ∉ front

theorem inPlace_of_images {front back : List Name} {image : Name}
    (images : r.queue.images = front ++ image :: back) :
    InPlace front image back r where
  slot := RebuildQueue.slot_of_images images
  images := Or.inl images
  fresh := by
    have nodup := r.queue.nodup
    rw [images, nodup_append] at nodup
    intro member
    exact nodup.2.2 image member image (mem_cons_self ..) rfl

theorem InPlace.remove {front : List Name} {image : Name} (place : InPlace front image [] r) :
    InPlace front image [] (r.rebuildQueueRemove image) := by
  rcases place.images with images | ⟨_, images⟩
  · have there : r.queue.images[front.length]? = some image := by simp [images]
    rw [rebuildQueueRemove_of_images images]
    refine ⟨?_, Or.inr ⟨rfl, ?_⟩, place.fresh⟩
    · rw [queue_removeAt there]
      exact RebuildQueue.slot_removeAt_last images
    · rw [images_removeAt images, append_nil]
  · have missing : image ∉ r.queue.images := by
      rw [images]
      exact place.fresh
    rw [rebuildQueueRemove_of_not_mem missing]
    exact place

def Refusal (answer : PkgError) : Prop :=
  answer ≠ .ok ∧ answer ≠ .busy

/-- A walk through the manifest of the image it looked at, under the pointer
that names that image. -/
structure Walked (w : DrainWorld) (front : List Name) (image : Name)
    (back : List Name) (entries : List ImageManifestEntry) (tally : Tally)
    (r r' : Rebuilds) (tally' : Tally) (mine : List DrainAct) : Prop where
  place : InPlace front image back r'
  acts : r'.acts = r.acts ++ mine
  own : ∀ act ∈ mine, ∃ m ∈ entries, ∃ answer, act = .starts image image m answer ∧
      (answer = .spawnFailed → back = [])
  kept : r'.queue.images = r.queue.images ∨ ∃ m, .starts image image m .spawnFailed ∈ mine
  gateRoll : r'.gateRoll = r.gateRoll
  approvals : ∀ other, other ≠ image → (other ∈ r'.approvals ↔ other ∈ r.approvals)
  still : tally'.started = false → State.Still image r.jobs r'.jobs
  refused : tally'.refused ≠ 0 → tally.refused ≠ 0 ∨
    ∃ m answer, .starts image image m answer ∈ mine ∧ Refusal answer
  satisfied : tally'.started = false → tally'.deferred = false →
    tally'.refused = 0 → r' = r ∧ tally.deferred = false ∧ tally.refused = 0 ∧
      ∀ m ∈ entries, r.jobs.satisfies w m image = true

/-- A walk during which the image was taken out with another behind it: the
pointer names that other image from then on. -/
structure Slipped (front : List Name) (image other : Name)
    (rest : List Name) (r r' : Rebuilds) (tally' : Tally)
    (mine : List DrainAct) : Prop where
  acts : r'.acts = r.acts ++ mine
  failed : ∃ m, .starts image image m .spawnFailed ∈ mine
  strays : (∃ into m answer, .starts image into m answer ∈ mine ∧ into ≠ image) ∨
    r'.queue.images = front ++ other :: rest ∧ tally'.started = false ∧ tally'.refused ≠ 0

section Walks

variable {w : DrainWorld} {front back rest : List Name}
  {image other : Name} {entries later : List ImageManifestEntry}
  {m : ImageManifestEntry} {tally tally₁ tally₂ : Tally}
  {r₁ r₂ : Rebuilds} {mine mine₁ mine₂ : List DrainAct} {attempt : Attempt}

theorem Walked.trans (first : Walked w front image back entries tally r r₁ tally₁ mine₁)
    (unstarted : tally₁.started = false)
    (second : Walked w front image back later tally₁ r₁ r₂ tally₂ mine₂) :
    Walked w front image back (entries ++ later) tally r r₂ tally₂ (mine₁ ++ mine₂) where
  place := second.place
  acts := by
    rw [second.acts, first.acts, append_assoc]
  own := by
    intro act member
    rcases mem_append.mp member with early | late
    · obtain ⟨m, among, answer, same, last⟩ := first.own act early
      exact ⟨m, mem_append_left _ among, answer, same, last⟩
    · obtain ⟨m, among, answer, same, last⟩ := second.own act late
      exact ⟨m, mem_append_right _ among, answer, same, last⟩
  kept := by
    rcases second.kept with same | ⟨m, late⟩
    · rcases first.kept with same' | ⟨m, early⟩
      · exact Or.inl (same.trans same')
      · exact Or.inr ⟨m, mem_append_left _ early⟩
    · exact Or.inr ⟨m, mem_append_right _ late⟩
  gateRoll := second.gateRoll.trans first.gateRoll
  approvals := fun other different =>
    (second.approvals other different).trans (first.approvals other different)
  still := fun stopped =>
    (first.still unstarted).trans (second.still stopped)
  refused := by
    intro some
    rcases second.refused some with before | ⟨m, answer, late, refusal⟩
    · rcases first.refused before with start | ⟨m, answer, early, refusal⟩
      · exact Or.inl start
      · exact Or.inr ⟨m, answer, mem_append_left _ early, refusal⟩
    · exact Or.inr ⟨m, answer, mem_append_right _ late, refusal⟩
  satisfied := by
    intro stopped undeferred unrefused
    obtain ⟨same₂, undeferred₁, unrefused₁, holds₂⟩ :=
      second.satisfied stopped undeferred unrefused
    obtain ⟨same₁, start, begin', holds₁⟩ := first.satisfied unstarted undeferred₁ unrefused₁
    refine ⟨same₂.trans same₁, start, begin', ?_⟩
    intro m member
    rcases mem_append.mp member with early | late
    · exact holds₁ m early
    · rw [← same₁]
      exact holds₂ m late

theorem Walked.stop (walked : Walked w front image back entries tally r r₁ tally₁ mine)
    (started : tally₁.started = true) (sub : entries ⊆ later) :
    Walked w front image back later tally r r₁ tally₁ mine :=
  { walked with
    own := fun act member => by
      obtain ⟨m, among, answer, same, last⟩ := walked.own act member
      exact ⟨m, sub among, answer, same, last⟩
    satisfied := fun stopped => by
      rw [started] at stopped
      cases stopped }

theorem Slipped.after (first : Walked w front image back entries tally r r₁ tally₁ mine₁)
    (second : Slipped front image other rest r₁ r₂ tally₂ mine₂) :
    Slipped front image other rest r r₂ tally₂ (mine₁ ++ mine₂) where
  acts := by
    rw [second.acts, first.acts, append_assoc]
  failed := by
    obtain ⟨m, late⟩ := second.failed
    exact ⟨m, mem_append_right _ late⟩
  strays := by
    rcases second.strays with ⟨into, m, answer, late, other⟩ | quiet
    · exact Or.inl ⟨into, m, answer, mem_append_right _ late, other⟩
    · exact Or.inr quiet

theorem Tried.walked (tried : Tried w front.length image m r r₁ attempt)
    (place : InPlace front image back r) :
    (∃ mine, Walked w front image back [m] tally r r₁ (tally.add attempt) mine) ∨
      back ≠ [] ∧ attempt = .refused ∧ ∃ s, State.Still image r.jobs s ∧
          r₁ = ({ r with jobs := s }.rebuildQueueRemove image).note
            (.starts image image m .spawnFailed) := by
  cases tried with
  | satisfied holds =>
    left
    rw [place.slot] at holds
    refine ⟨[], place, by simp, by simp, Or.inl rfl, rfl,
      fun _ _ => Iff.rfl, fun _ => State.still_refl _ _, Or.inl, ?_⟩
    intro _ undeferred unrefused
    exact ⟨rfl, undeferred, unrefused, by simpa using holds⟩
  | waits s still =>
    left
    rw [place.slot] at still
    refine ⟨[], ⟨place.slot, place.images, place.fresh⟩, by simp, by simp,
      Or.inl rfl, rfl, fun _ _ => Iff.rfl, fun _ => still, Or.inl, ?_⟩
    intro _ undeferred
    cases undeferred
  | answered s answer spawned still =>
    left
    rw [place.slot] at still
    refine ⟨[.starts image image m answer],
      ⟨place.slot, place.images, place.fresh⟩, by simp [place.slot], ?_,
      Or.inl rfl, rfl, fun _ _ => Iff.rfl, ?_, ?_, ?_⟩
    · intro act member
      rw [mem_singleton.mp member]
      exact ⟨m, mem_singleton_self m, answer, rfl, fun failed => absurd failed spawned⟩
    · intro stopped
      apply still
      rintro rfl
      cases stopped
    · intro some
      by_cases refusal : Refusal answer
      · exact Or.inr ⟨m, answer, mem_singleton_self _, refusal⟩
      · left
        rw [Refusal, not_and_or, not_not, not_not] at refusal
        rcases refusal with rfl | rfl
        · exact some
        · exact some
    · intro stopped undeferred unrefused
      cases answer <;>
        simp [Attempt.ofAnswer, Tally.add] at stopped undeferred unrefused
  | failed s still =>
    rw [place.slot] at still ⊢
    by_cases last : back = []
    swap
    · exact Or.inr ⟨last, rfl, s, still, rfl⟩
    left
    subst last
    have removed : Removed image { r with jobs := s }
        ({ r with jobs := s }.rebuildQueueRemove image) := removed_remove
    have placed : InPlace front image [] { r with jobs := s } :=
      ⟨place.slot, place.images, place.fresh⟩
    have placed' := placed.remove
    refine ⟨[.starts image image m .spawnFailed],
      ⟨placed'.slot, placed'.images, placed'.fresh⟩, ?_, ?_,
      Or.inr ⟨m, mem_singleton_self _⟩, removed.gateRoll,
      removed.approvals, ?_, ?_, ?_⟩
    · rw [note_acts, removed.acts]
    · intro act member
      rw [mem_singleton.mp member]
      exact ⟨m, mem_singleton_self m, .spawnFailed, rfl, fun _ => rfl⟩
    · intro _
      rw [note_jobs, removed.jobs]
      exact still
    · intro _
      exact Or.inr ⟨m, .spawnFailed, mem_singleton_self _, by
        decide, by decide⟩
    · intro _ _ unrefused
      simp [Tally.add] at unrefused

theorem strays_tryEntries (w : DrainWorld) (entries : List ImageManifestEntry) (calm : r.jobs.Calm)
    (images : r.queue.images = front ++ other :: rest)
    (different : other ≠ image) (unstarted : tally.started = false)
    (refused : tally.refused ≠ 0) :
    ∃ mine, (tryEntries w front.length image entries tally r).1.acts = r.acts ++ mine ∧
      ((∃ into m answer, .starts image into m answer ∈ mine ∧ into ≠ image) ∨
        (tryEntries w front.length image entries tally r).1.queue.images = front ++ other :: rest ∧
          (tryEntries w front.length image entries tally r).2.started = false ∧
          (tryEntries w front.length image entries tally r).2.refused ≠ 0) := by
  induction entries generalizing tally r with
  | nil => exact ⟨[], by simp [tryEntries], Or.inr ⟨images, unstarted, refused⟩⟩
  | cons m later ih =>
    have slot := RebuildQueue.slot_of_images images
    have tried := tried_tryEntry w front.length image m calm
    have ran := ran_tryEntries w front.length image (m :: later) tally calm
    rw [tryEntries] at ran ⊢
    generalize r.tryEntry w front.length image m = result at *
    obtain ⟨r₁, attempt⟩ := result
    simp only at tried ran ⊢
    have astray : ∀ answer, r₁.acts = r.acts ++ [.starts image other m answer] →
        ∃ mine, (if attempt = .started then (r₁, tally.add attempt)
          else tryEntries w front.length image later (tally.add attempt)
            r₁).1.acts = r.acts ++ mine ∧
          ∃ into m answer, .starts image into m answer ∈ mine ∧ into ≠ image := by
      intro answer acts
      split_ifs with started
      · exact ⟨_, acts, other, m, answer, mem_singleton_self _, different⟩
      · obtain ⟨⟨more, laterActs, _⟩, _, _⟩ := ran_tryEntries w
          front.length image later (tally.add attempt)
          ((tried.still started).calm calm)
        refine ⟨.starts image other m answer :: more, ?_, other, m, answer,
          mem_cons_self .., different⟩
        rw [laterActs, acts, append_assoc]
        rfl
    cases tried with
    | satisfied holds => exact ih calm images unstarted refused
    | waits s still => exact ih (still.calm calm) images unstarted refused
    | answered s answer spawned still =>
      obtain ⟨mine, acts, strays⟩ := astray answer (by rw [note_acts, slot])
      exact ⟨mine, acts, Or.inl strays⟩
    | failed s still =>
      obtain ⟨mine, acts, strays⟩ := astray .spawnFailed
        (by rw [note_acts, slot, removed_remove.acts])
      exact ⟨mine, acts, Or.inl strays⟩

theorem walked_or_slipped (w : DrainWorld) (entries : List ImageManifestEntry) (calm : r.jobs.Calm)
    (place : InPlace front image back r)
    (unstarted : tally.started = false) :
    (∃ mine, Walked w front image back entries tally r
        (tryEntries w front.length image entries tally r).1
        (tryEntries w front.length image entries tally r).2 mine) ∨
      ∃ other rest mine, back = other :: rest ∧ Slipped front image other rest r
          (tryEntries w front.length image entries tally r).1
          (tryEntries w front.length image entries tally r).2 mine := by
  induction entries generalizing tally r with
  | nil =>
    left
    refine ⟨[], place, by simp [tryEntries], by simp, Or.inl rfl, rfl,
      fun _ _ => Iff.rfl, fun _ => State.still_refl _ _, Or.inl, ?_⟩
    intro _ undeferred unrefused
    exact ⟨rfl, undeferred, unrefused, by simp⟩
  | cons m later ih =>
    have tried := tried_tryEntry w front.length image m calm
    rw [tryEntries]
    generalize r.tryEntry w front.length image m = result at *
    obtain ⟨r₁, attempt⟩ := result
    simp only at tried ⊢
    rcases tried.walked place with
      ⟨mine, walked⟩ | ⟨behind, rfl, s, still, same⟩
    · split_ifs with started
      · left
        refine ⟨mine, walked.stop ?_ (subset_append_left [m] later)⟩
        rw [started]
        rfl
      · have stillUnstarted : (tally.add attempt).started = false := by
          cases attempt with
          | started => exact absurd rfl started
          | satisfied => exact unstarted
          | deferred => exact unstarted
          | refused => exact unstarted
        rcases ih ((walked.still stillUnstarted).calm calm) walked.place stillUnstarted with
          ⟨mine', walked'⟩ | ⟨other, rest, mine', isBack, slipped⟩
        · left
          exact ⟨mine ++ mine', walked.trans stillUnstarted walked'⟩
        · right
          exact ⟨other, rest, mine ++ mine', isBack, slipped.after walked⟩
    · right
      obtain ⟨other, rest, rfl⟩ := exists_cons_of_ne_nil behind
      have images : r.queue.images = front ++ image :: other :: rest := by
        rcases place.images with images | ⟨isNil, _⟩
        · exact images
        · cases isNil
      have different : other ≠ image := by
        have nodup := r.queue.nodup
        rw [images] at nodup
        have tail := (nodup_append.mp nodup).2.1
        rintro rfl
        exact (nodup_cons.mp tail).1 (mem_cons_self ..)
      have images' : r₁.queue.images = front ++ other :: rest := by
        rw [same, note_queue, rebuildQueueRemove_of_images (r := { r with jobs := s }) images]
        exact images_removeAt images
      have calm' : r₁.jobs.Calm := by
        rw [same, note_jobs, removed_remove.jobs]
        exact still.calm calm
      have first : r₁.acts = r.acts ++ [.starts image image m .spawnFailed] := by
        rw [same, note_acts, removed_remove.acts]
      rw [if_neg (by decide)]
      have refused : (tally.add .refused).refused ≠ 0 := Nat.succ_ne_zero _
      have stillUnstarted : (tally.add .refused).started = false := unstarted
      obtain ⟨more, acts, strays⟩ := strays_tryEntries w later calm'
        images' different stillUnstarted refused
      refine ⟨other, rest, .starts image image m .spawnFailed :: more,
        rfl, ?_, ⟨m, mem_cons_self ..⟩, ?_⟩
      · rw [acts, first, append_assoc]
        rfl
      · rcases strays with ⟨into, m', answer, member, astray⟩ | quiet
        · exact Or.inl ⟨into, m', answer, mem_cons_of_mem _ member, astray⟩
        · exact Or.inr quiet

/-- The search for strays leaves the queue alone, and without an uninstall
it changes at most packages of its image. -/
structure Swept (image : Name) (r r' : Rebuilds) (uninstalls : Bool) :
    Prop where
  queue : r'.queue = r.queue
  gateRoll : r'.gateRoll = r.gateRoll
  approvals : r'.approvals = r.approvals
  acts : r'.acts = r.acts
  still : uninstalls = false → State.Still image r.jobs r'.jobs

theorem Swept.refl (image : Name) (r : Rebuilds) (uninstalls : Bool) :
    Swept image r r uninstalls :=
  ⟨rfl, rfl, rfl, rfl, fun _ => State.still_refl _ _⟩

theorem deleteStart_of_calm {w : World} {key : Key} (calm : r.jobs.Calm) :
    r.deleteStart w key = ({ r with jobs := (r.jobs.deleteStart w key).1 },
      (r.jobs.deleteStart w key).2) := by
  rw [deleteStart, chainReapStale_of_calm calm]

theorem swept_deleteStart {w : World} {key : Key} {slot : Nat} {e : Entry}
    (calm : r.jobs.Calm) (held : r.jobs.table.get slot = some e)
    (keyed : e.key = key)
    (idle : (r.deleteStart w key).2 = .ok → e.state = .failed) :
    Swept key.image r (r.deleteStart w key).1 false := by
  rw [deleteStart_of_calm calm] at idle ⊢
  refine ⟨rfl, rfl, rfl, rfl, fun _ => State.still_deleteStart calm ?_⟩
  intro isOk slot' e' found
  obtain ⟨held', keyed'⟩ := get_of_pkgFind found
  have here := calm.distinct slot' slot e' e held' held (keyed'.trans keyed.symm)
  subst here
  rw [held] at held'
  cases held'
  exact idle isOk

theorem Swept.trans {uninstalls : Bool} (first : Swept image r r₁ false)
    (second : Swept image r₁ r₂ uninstalls) : Swept image r r₂ uninstalls :=
  ⟨second.queue.trans first.queue, second.gateRoll.trans first.gateRoll,
    second.approvals.trans first.approvals, second.acts.trans first.acts,
    fun none => (first.still rfl).trans (second.still none)⟩

theorem swept_uninstallStrays (w : World) (image : Name) (keep slots : List Nat)
    (calm : r.jobs.Calm) :
    Swept image r (uninstallStrays w image keep slots r).1
      (uninstallStrays w image keep slots r).2 := by
  induction slots generalizing r with
  | nil => exact .refl image r false
  | cons slot rest ih =>
    rw [uninstallStrays]
    cases held : r.jobs.table.get slot with
    | none => exact ih calm
    | some e =>
      simp only
      by_cases skipped : slot ∈ keep ∨ r.strayRefused slot = true ∨
          e.key.image ≠ image ∨ e.state.inFlight = true
      · rw [if_pos skipped]
        exact ih calm
      rw [if_neg skipped]
      simp only [not_or, not_not] at skipped
      obtain ⟨_, _, isImage, grounded⟩ := skipped
      have marked : ∀ (r₁ : Rebuilds) flags, Swept image r r₁ false →
          Swept image r { r₁ with strayRefused := flags } false :=
        fun r₁ flags swept => ⟨swept.queue, swept.gateRoll,
          swept.approvals, swept.acts, swept.still⟩
      have idle : e.state ≠ .installed → Swept image r (r.deleteStart w e.key).1 false := by
        intro notInstalled
        rw [← isImage]
        refine swept_deleteStart calm held rfl fun _ => ?_
        cases state : e.state with
        | installed => exact absurd state notInstalled
        | failed => rfl
        | fetching => simp [state, EntryState.inFlight] at grounded
        | building => simp [state, EntryState.inFlight] at grounded
      split
      · rename_i r₁ given
        rw [given] at idle
        split_ifs with installed
        · rw [deleteStart_of_calm calm, Prod.mk.injEq] at given
          rw [← given.1]
          refine ⟨rfl, rfl, rfl, rfl, ?_⟩
          intro unstarted
          cases unstarted
        · have swept := marked r₁ (Function.update r₁.strayRefused slot false) (idle installed)
          exact swept.trans (ih ((swept.still rfl).calm calm))
      · rename_i r₁ answer refused given
        have swept : Swept image r r₁ false := by
          rw [← isImage]
          have start := swept_deleteStart (w := w) calm held rfl
            fun isOk => absurd isOk (by rw [given]; exact refused)
          rw [given] at start
          exact start
        have swept' := marked r₁ (Function.update r₁.strayRefused slot true) swept
        exact swept'.trans (ih ((swept'.still rfl).calm calm))

theorem swept_convergeUninstallStrays (w : DrainWorld) (image : Name)
    (entries : List ImageManifestEntry) (calm : r.jobs.Calm) :
    Swept image r (r.convergeUninstallStrays w image entries).1
      (r.convergeUninstallStrays w image entries).2 := by
  rw [convergeUninstallStrays]
  split_ifs
  · exact .refl image r false
  · exact swept_uninstallStrays _ image _ _ calm

/-! ## One image -/

theorem caughtUp_jobs (qi : Nat) : (r.caughtUp qi).jobs = r.jobs := by
  rw [caughtUp, rebuildQueueRemoveAt]
  split <;> rfl

theorem caughtUp_acts (qi : Nat) : (r.caughtUp qi).acts = r.acts := by
  rw [caughtUp, rebuildQueueRemoveAt]
  split <;> rfl

theorem caughtUp_gateRoll (qi : Nat) : (r.caughtUp qi).gateRoll = r.gateRoll := by
  rw [caughtUp, rebuildQueueRemoveAt]
  split <;> rfl

theorem caughtUp_sublist (qi : Nat) : (r.caughtUp qi).queue.images.Sublist r.queue.images := by
  rw [caughtUp]
  exact sublist_removeAt (r := (r.approvalDrop _).forgetRefusals _) qi

theorem caughtUp_images (images : r.queue.images = front ++ image :: back) :
    (r.caughtUp front.length).queue.images = front ++ back := by
  rw [caughtUp]
  exact images_removeAt images

theorem InPlace.caughtUp (place : InPlace front image back r) :
    (r.caughtUp front.length).queue.images = front ++ back ∧ ∀ other, other ≠ image →
        (other ∈ (r.caughtUp front.length).approvals ↔ other ∈ r.approvals) := by
  rcases place.images with images | ⟨rfl, images⟩
  · refine ⟨caughtUp_images images, ?_⟩
    have there : r.queue.images[front.length]? = some image := by simp [images]
    intro other different
    rw [Rebuilds.caughtUp, (removed_removeAt
      (r := (r.approvalDrop _).forgetRefusals _) there).approvals other different, place.slot]
    exact mem_erase_of_ne different
  · have gone : r.queue.images[front.length]? = none := by simp [images]
    rw [Rebuilds.caughtUp, rebuildQueueRemoveAt]
    simp only [forgetRefusals, approvalDrop, gone, place.slot]
    refine ⟨by simp [images], ?_⟩
    intro other different
    exact mem_erase_of_ne different

structure Turned (lookedAt : Name) (r r' : Rebuilds) (mine : List DrainAct)
    (visit : Visit) : Prop where
  acts : r'.acts = r.acts ++ mine
  own : ∀ act ∈ mine, act = .unreadable lookedAt ∨
    ∃ image m answer, act = .starts lookedAt image m answer
  images : r'.queue.images.Sublist r.queue.images
  calm : visit = .next ∨ visit = .again → r'.jobs.Calm

theorem turned_converge (w : DrainWorld) (qi : Nat) (lookedAt : Name)
    (entries : List ImageManifestEntry) (calm : r.jobs.Calm) :
    ∃ mine, Turned lookedAt r (r.converge w qi lookedAt entries).1 mine
      (r.converge w qi lookedAt entries).2 := by
  obtain ⟨⟨mine, acts, starts⟩, images, calmAfter⟩ :=
    ran_tryEntries w qi lookedAt entries ⟨false, false, 0⟩ calm
  rw [converge]
  generalize tryEntries w qi lookedAt entries ⟨false, false, 0⟩ r = result at *
  obtain ⟨r₁, tally⟩ := result
  simp only at acts images calmAfter ⊢
  have own : ∀ act ∈ mine, act = .unreadable lookedAt ∨
      ∃ image m answer, act = .starts lookedAt image m answer :=
    fun act member => Or.inr (starts act member)
  refine ⟨mine, ?_⟩
  split_ifs with started deferred unrefused
  · exact ⟨acts, own, images, by simp⟩
  · rw [Bool.not_eq_true] at started
    exact ⟨acts, own, images, fun _ => calmAfter started⟩
  · rw [Bool.not_eq_true] at started
    have calm₁ := calmAfter started
    have swept := swept_convergeUninstallStrays w (r₁.queue.slot qi) entries calm₁
    split
    · rename_i r₂ uninstalls
      rw [uninstalls] at swept
      refine ⟨swept.acts.trans acts, own, ?_, by simp⟩
      rw [swept.queue]
      exact images
    · rename_i r₂ finished
      rw [finished] at swept
      refine ⟨?_, own, ?_, fun _ => ?_⟩
      · rw [caughtUp_acts, swept.acts, acts]
      · refine (caughtUp_sublist qi).trans ?_
        rw [swept.queue]
        exact images
      · rw [caughtUp_jobs]
        exact (swept.still rfl).calm calm₁
  · rw [Bool.not_eq_true] at started
    refine ⟨?_, own, (caughtUp_sublist qi).trans images, fun _ => ?_⟩
    · rw [caughtUp_acts, acts]
    · rw [caughtUp_jobs]
      exact calmAfter started

theorem turned_visit (w : DrainWorld) (qi : Nat) (calm : r.jobs.Calm) :
    ∃ mine, Turned (r.queue.slot qi) (r.note (.looks (r.queue.slot qi)))
      (r.visit w qi).1 mine (r.visit w qi).2 := by
  have reaped : State.Still defaultImage r.jobs r.jobs.chainReapStale :=
    State.still_chainReapStale calm
  have calm₁ := reaped.calm calm
  rw [visit]
  simp only [chainReapStale_of_calm (r := r.note (.looks
    (r.queue.slot qi))) calm, note_queue, note_jobs]
  split_ifs with held busy
  · exact ⟨[], by simp, by simp, List.Sublist.refl _, fun _ => calm⟩
  · exact ⟨[], by simp, by simp, List.Sublist.refl _, fun _ => calm₁⟩
  · split
    · rename_i unreadable
      refine ⟨[.unreadable (r.queue.slot qi)], ?_, ?_, ?_, ?_⟩
      · rw [rebuildQueueRemoveAt]
        split <;> rfl
      · simp
      · exact sublist_removeAt (r := { r.note (.looks (r.queue.slot qi)) with
          jobs := r.jobs.chainReapStale }.note (.unreadable (r.queue.slot qi))) qi
      · intro _
        rw [rebuildQueueRemoveAt]
        split <;> exact calm₁
    · rename_i entries isManifest
      obtain ⟨mine, acts, own, images, calmAfter⟩ := turned_converge w qi
        (r.queue.slot qi) entries (r := { r.note (.looks (r.queue.slot qi))
          with jobs := r.jobs.chainReapStale }) calm₁
      exact ⟨mine, acts, own, images, calmAfter⟩

def Converged (w : DrainWorld) (image : Name) (s : State) : Prop :=
  ∃ entries, w.manifest image = some entries ∧ ∀ m ∈ entries, s.satisfies w m image = true

theorem Converged.of_table {s s' : State} (converged : Converged w image s)
    (same : s'.table = s.table) : Converged w image s' := by
  obtain ⟨entries, manifest, holds⟩ := converged
  refine ⟨entries, manifest, fun m member => ?_⟩
  rw [← holds m member, State.satisfies, State.satisfies,
    State.findPackage, State.findPackage, same]

structure Kept (w : DrainWorld) (front : List Name) (image : Name)
    (back : List Name) (r r' : Rebuilds) (mine : List DrainAct)
    (visit : Visit) : Prop where
  acts : r'.acts = r.acts ++ mine
  own : ∀ act ∈ mine, ∃ entries m answer, w.manifest image = some entries ∧ m ∈ entries ∧
      act = .starts image image m answer ∧
      (answer = .spawnFailed → back = [])
  images : r'.queue.images = front ++ image :: back ∧ visit ≠ .again ∨
    r'.queue.images = front ++ back ∧ (visit = .again ∨ back = []) ∧ (Converged w image r.jobs ∨
        ∃ m answer, .starts image image m answer ∈ mine ∧ Refusal answer)
  gateRoll : r'.gateRoll = r.gateRoll
  approvals : ∀ other, other ≠ image → (other ∈ r'.approvals ↔ other ∈ r.approvals)
  still : visit = .next ∨ visit = .again →
    State.Still image r.jobs r'.jobs

structure Slips (front : List Name) (image other : Name) (rest : List Name)
    (r r' : Rebuilds) (mine : List DrainAct) (visit : Visit) : Prop where
  acts : r'.acts = r.acts ++ mine
  failed : ∃ m, .starts image image m .spawnFailed ∈ mine
  strays : (∃ into m answer, .starts image into m answer ∈ mine ∧ into ≠ image) ∨
    visit = .next ∧ r'.queue.images = front ++ other :: rest ∨
    visit = .again ∧ r'.queue.images = front ++ rest

theorem Walked.kept_images (walked : Walked w front image back entries tally r r₁ tally₁ mine)
    (start : r.queue.images = front ++ image :: back) {visit : Visit}
    (unfinished : visit ≠ .again) :
    r₁.queue.images = front ++ image :: back ∧ visit ≠ .again ∨
      r₁.queue.images = front ++ back ∧ (visit = .again ∨ back = []) ∧
        (Converged w image r.jobs ∨ ∃ m answer, .starts image image m answer ∈ mine ∧
            Refusal answer) := by
  rcases walked.place.images with images | ⟨isNil, images⟩
  · exact Or.inl ⟨images, unfinished⟩
  · right
    refine ⟨by rw [images, isNil, append_nil], Or.inr isNil, Or.inr ?_⟩
    rcases walked.kept with same | ⟨m, member⟩
    · rw [images, start] at same
      simp at same
    · exact ⟨m, .spawnFailed, member, by decide, by decide⟩

theorem kept_or_slips_converge (w : DrainWorld)
    (entries : List ImageManifestEntry) (calm : r.jobs.Calm)
    (images : r.queue.images = front ++ image :: back)
    (manifest : w.manifest image = some entries) :
    (∃ mine, Kept w front image back r (r.converge w front.length image entries).1 mine
        (r.converge w front.length image entries).2) ∨
      ∃ other rest mine, back = other :: rest ∧ Slips front image other rest r
          (r.converge w front.length image entries).1 mine
          (r.converge w front.length image entries).2 := by
  rw [converge]
  have unstarted : (⟨false, false, 0⟩ : Tally).started = false := rfl
  rcases walked_or_slipped w entries calm (inPlace_of_images images) unstarted with
    ⟨mine, walked⟩ | ⟨other, rest, mine, isBack, slipped⟩
  · left
    refine ⟨mine, ?_⟩
    generalize tryEntries w front.length image entries ⟨false, false, 0⟩ r = result at *
    obtain ⟨r₁, tally⟩ := result
    simp only at walked ⊢
    have own : ∀ act ∈ mine, ∃ entries m answer,
        w.manifest image = some entries ∧ m ∈ entries ∧ act = .starts image image m answer ∧
          (answer = .spawnFailed → back = []) := by
      intro act member
      obtain ⟨m, among, answer, same, last⟩ := walked.own act member
      exact ⟨entries, m, answer, manifest, among, same, last⟩
    split_ifs with started deferred unrefused
    · exact ⟨walked.acts, own, walked.kept_images images (by simp),
        walked.gateRoll, walked.approvals, by simp⟩
    · rw [Bool.not_eq_true] at started
      exact ⟨walked.acts, own, walked.kept_images images (by simp),
        walked.gateRoll, walked.approvals, fun _ => walked.still started⟩
    · rw [Bool.not_eq_true] at started deferred
      obtain ⟨rfl, _, _, holds⟩ := walked.satisfied started deferred unrefused
      have converged : Converged w image r₁.jobs := ⟨entries, manifest, holds⟩
      have slot := RebuildQueue.slot_of_images images
      have swept := swept_convergeUninstallStrays w (r₁.queue.slot front.length) entries calm
      rw [slot] at swept ⊢
      split
      · rename_i r₂ uninstalls
        rw [uninstalls] at swept
        refine ⟨swept.acts.trans walked.acts, own, Or.inl ⟨?_, by simp⟩,
          swept.gateRoll, ?_, by simp⟩
        · rw [swept.queue]
          exact images
        · intro other _
          rw [swept.approvals]
      · rename_i r₂ finished
        rw [finished] at swept
        have images₂ : r₂.queue.images = front ++ image :: back := by
          rw [swept.queue]
          exact images
        obtain ⟨gone, approvals⟩ := (inPlace_of_images images₂).caughtUp
        refine ⟨?_, own, Or.inr ⟨gone, Or.inl rfl, Or.inl converged⟩, ?_, ?_, fun _ => ?_⟩
        · rw [caughtUp_acts, swept.acts]
          exact walked.acts
        · rw [caughtUp_gateRoll, swept.gateRoll]
        · intro other different
          rw [approvals other different, swept.approvals]
        · rw [caughtUp_jobs]
          exact swept.still rfl
    · rw [Bool.not_eq_true] at started
      obtain ⟨gone, approvals⟩ := walked.place.caughtUp
      refine ⟨?_, own, Or.inr ⟨gone, Or.inl rfl, Or.inr ?_⟩, ?_, ?_, fun _ => ?_⟩
      · rw [caughtUp_acts, walked.acts]
      · rcases walked.refused unrefused with start | refusal
        · exact absurd rfl start
        · exact refusal
      · rw [caughtUp_gateRoll, walked.gateRoll]
      · intro other different
        rw [approvals other different, walked.approvals other different]
      · rw [caughtUp_jobs]
        exact walked.still started
  · right
    refine ⟨other, rest, mine, isBack, ?_⟩
    have calmAfter := (ran_tryEntries w front.length image entries ⟨false, false, 0⟩ calm).calm
    generalize tryEntries w front.length image entries ⟨false, false, 0⟩ r = result at *
    obtain ⟨r₁, tally⟩ := result
    simp only at slipped calmAfter ⊢
    rcases slipped.strays with astray | ⟨images₁, started, refused⟩
    · have acts : ∀ (r' : Rebuilds) (visit : Visit), r'.acts = r₁.acts →
          Slips front image other rest r r' mine visit := fun r' visit same =>
        ⟨same.trans slipped.acts, slipped.failed, Or.inl astray⟩
      split_ifs with started deferred unrefused
      · exact acts _ _ rfl
      · exact acts _ _ rfl
      · rw [Bool.not_eq_true] at started
        have swept := swept_convergeUninstallStrays w
          (r₁.queue.slot front.length) entries (calmAfter started)
        split
        · rename_i r₂ uninstalls
          rw [uninstalls] at swept
          exact acts _ _ swept.acts
        · rename_i r₂ finished
          rw [finished] at swept
          exact acts _ _ ((caughtUp_acts _).trans swept.acts)
      · exact acts _ _ (caughtUp_acts _)
    · rw [if_neg (by simp [started])]
      split_ifs
      · exact ⟨slipped.acts, slipped.failed, Or.inr (Or.inl ⟨rfl, images₁⟩)⟩
      · refine ⟨?_, slipped.failed, Or.inr (Or.inr ⟨rfl, caughtUp_images images₁⟩)⟩
        rw [caughtUp_acts, slipped.acts]

structure Unread (w : DrainWorld) (front : List Name) (image : Name)
    (back : List Name) (r r' : Rebuilds) (visit : Visit) : Prop where
  manifest : w.manifest image = none
  acts : r'.acts = r.acts ++ [.unreadable image]
  images : r'.queue.images = front ++ back
  again : visit = .again

theorem visit_cases (w : DrainWorld) (calm : r.jobs.Calm)
    (images : r.queue.images = front ++ image :: back) :
    (∃ mine, Kept w front image back (r.note (.looks image))
        (r.visit w front.length).1 mine (r.visit w front.length).2 ∧
        (mine ≠ [] → r.gateRoll = true → image ∈ r.approvals)) ∨
      Unread w front image back (r.note (.looks image))
        (r.visit w front.length).1 (r.visit w front.length).2 ∨
      ∃ other rest mine, back = other :: rest ∧ Slips front image other rest (r.note (.looks image))
          (r.visit w front.length).1 mine (r.visit w front.length).2 := by
  have reaped : State.Still image r.jobs r.jobs.chainReapStale :=
    State.still_chainReapStale calm
  have calm₁ := reaped.calm calm
  have slot := RebuildQueue.slot_of_images images
  rw [visit]
  simp only [note_queue, slot, chainReapStale_of_calm (r := r.note (.looks image)) calm]
  have quiet : ∀ s, State.Still image r.jobs s → Kept w front image back (r.note (.looks image))
        { r.note (.looks image) with jobs := s } [] .next :=
    fun s still => ⟨by simp, by simp, Or.inl ⟨images, by simp⟩, rfl,
      fun _ _ => Iff.rfl, fun _ => still⟩
  split_ifs with held busy
  · left
    exact ⟨[], quiet r.jobs (State.still_refl image r.jobs), by simp⟩
  · left
    exact ⟨[], quiet _ reaped, by simp⟩
  · have granted : r.gateRoll = true → image ∈ r.approvals := by
      intro on
      rw [gateHolds, Bool.and_eq_true, not_and] at held
      have among := held on
      rw [Bool.not_eq_true, Bool.not_eq_false', decide_eq_true_eq] at among
      exact among
    split
    · rename_i unreadable
      right
      left
      refine ⟨unreadable, ?_, ?_, rfl⟩
      · rw [rebuildQueueRemoveAt]
        split <;> rfl
      · exact images_removeAt images
    · rename_i entries manifest
      rcases kept_or_slips_converge w entries (r := { r.note (.looks image) with
            jobs := r.jobs.chainReapStale }) calm₁ images manifest with
        ⟨mine, kept⟩ | ⟨other, rest, mine, isBack, slips⟩
      · left
        refine ⟨mine, ⟨kept.acts, kept.own, ?_, kept.gateRoll,
          kept.approvals, fun goesOn => reaped.trans (kept.still goesOn)⟩,
          fun _ => granted⟩
        rcases kept.images with same | ⟨gone, turn, converged | refusal⟩
        · exact Or.inl same
        · exact Or.inr ⟨gone, turn, Or.inl (converged.of_table
            (State.table_chainReapStale calm).symm)⟩
        · exact Or.inr ⟨gone, turn, Or.inr refusal⟩
      · right
        right
        exact ⟨other, rest, mine, isBack, slips.acts, slips.failed, slips.strays⟩

/-! ## A pass -/

def looksOf (acts : List DrainAct) : List Name :=
  acts.filterMap fun
    | .looks image => some image
    | _ => none

theorem looksOf_turn (first : Name) (mine more : List DrainAct)
    (own : ∀ act ∈ mine, act = .unreadable image ∨
      ∃ into m answer, act = .starts image into m answer) :
    looksOf (.looks first :: (mine ++ more)) = first :: looksOf more := by
  have none : looksOf mine = [] := by
    apply filterMap_eq_nil_iff.mpr
    intro act member
    rcases own act member with rfl | ⟨into, m, answer, rfl⟩ <;> rfl
  rw [looksOf, filterMap_cons]
  simp only [filterMap_append]
  rw [← looksOf, ← looksOf, none, nil_append]

def Behind (queue : List Name) (image : Name) : Prop :=
  ∃ front other rest, queue = front ++ image :: other :: rest

theorem Behind.cons (behind : Behind back image) (other : Name) : Behind (other :: back) image := by
  obtain ⟨front, next, rest, same⟩ := behind
  exact ⟨other :: front, next, rest, by rw [same, cons_append]⟩

theorem drainFrom_end {fuel : Nat} (done : r.queue.images.length ≤ qi) :
    drainFrom w fuel qi r = (r, .nothing) := by
  cases fuel with
  | zero => rfl
  | succ fuel => rw [drainFrom, if_neg (by omega)]

theorem drainFrom_succ (w : DrainWorld) {fuel : Nat} (inside : qi < r.queue.images.length) :
    drainFrom w (fuel + 1) qi r =
      match r.visit w qi with
      | (r, .next) => drainFrom w fuel (qi + 1) r
      | (r, .again) => drainFrom w fuel qi r
      | (r, .fetch) => (r, .fetch)
      | (r, .uninstall) => (r, .uninstall) := by
  exact if_pos inside

theorem ran_drainFrom (w : DrainWorld) (fuel qi : Nat) (calm : r.jobs.Calm) :
    ∃ more, (drainFrom w fuel qi r).1.acts = r.acts ++ more ∧
      (∀ lookedAt into m answer, .starts lookedAt into m answer ∈ more →
        lookedAt ∈ r.queue.images.drop qi) ∧
      (drainFrom w fuel qi r).1.queue.images.Sublist r.queue.images := by
  induction fuel generalizing qi r with
  | zero => exact ⟨[], by simp [drainFrom], by simp, List.Sublist.refl _⟩
  | succ fuel ih =>
    by_cases inside : qi < r.queue.images.length
    swap
    · rw [drainFrom_end (by omega)]
      exact ⟨[], by simp, by simp, List.Sublist.refl _⟩
    have here : r.queue.slot qi ∈ r.queue.images.drop qi := by
      have slot : r.queue.slot qi = r.queue.images[qi] := by
        simp [RebuildQueue.slot, getElem?_append_left inside, getElem?_eq_getElem inside]
      rw [slot, drop_eq_getElem_cons inside]
      exact mem_cons_self ..
    obtain ⟨mine, turned⟩ := turned_visit w qi calm
    rw [drainFrom_succ w inside]
    generalize r.visit w qi = result at *
    obtain ⟨r₁, visit⟩ := result
    simp only at turned
    have own : ∀ lookedAt into m answer, .starts lookedAt into m answer ∈
          .looks (r.queue.slot qi) :: mine →
        lookedAt ∈ r.queue.images.drop qi := by
      intro lookedAt into m answer member
      rcases mem_cons.mp member with wrong | member
      · cases wrong
      · rcases turned.own _ member with wrong | ⟨_, _, _, same⟩
        · cases wrong
        · cases same
          exact here
    have acts : r₁.acts = r.acts ++ .looks (r.queue.slot qi) :: mine := by
      rw [turned.acts, note_acts, append_assoc]
      rfl
    have goesOn : ∀ qi', qi ≤ qi' → r₁.jobs.Calm →
        ∃ more, (drainFrom w fuel qi' r₁).1.acts = r.acts ++ more ∧
          (∀ lookedAt into m answer, .starts lookedAt into m answer ∈ more →
              lookedAt ∈ r.queue.images.drop qi) ∧
          (drainFrom w fuel qi' r₁).1.queue.images.Sublist
            r.queue.images := by
      intro qi' further calm₁
      obtain ⟨more, laterActs, laterOwn, sublist⟩ := ih qi' calm₁
      refine ⟨.looks (r.queue.slot qi) :: mine ++ more, ?_, ?_, sublist.trans turned.images⟩
      · rw [laterActs, acts, append_assoc]
      · intro lookedAt into m answer member
        rcases mem_append.mp member with early | late
        · exact own lookedAt into m answer early
        · have among := laterOwn lookedAt into m answer late
          have deeper := ((turned.images.drop qi').subset among)
          rw [note_queue] at deeper
          have split : qi' = qi + (qi' - qi) := by omega
          rw [split, ← drop_drop] at deeper
          exact mem_of_mem_drop deeper
    cases visit with
    | next => exact goesOn (qi + 1) (by omega) (turned.calm (Or.inl rfl))
    | again => exact goesOn qi (by omega) (turned.calm (Or.inr rfl))
    | fetch => exact ⟨_, acts, own, turned.images⟩
    | uninstall => exact ⟨_, acts, own, turned.images⟩

/-- The rest of a pass, from a position with `back` still before it, acts on
the images it looks at. -/
structure Sound (w : DrainWorld) (front back : List Name) (r r' : Rebuilds)
    (more : List DrainAct) (result : Drained) : Prop where
  own : ∀ lookedAt image m answer, .starts lookedAt image m answer ∈ more →
      image = lookedAt ∧ lookedAt ∈ back ∧
      (∃ entries, w.manifest image = some entries ∧ m ∈ entries) ∧
      (r.gateRoll = true → image ∈ r.approvals) ∧
      (answer = .spawnFailed → ¬ Behind back lookedAt)
  order : looksOf more <+: back
  whole : result = .nothing → looksOf more = back
  readable : ∀ image, .unreadable image ∉ more
  stays : ∀ image ∈ front, image ∈ r'.queue.images
  leaves : ∀ image ∈ back, image ∉ r'.queue.images → Converged w image r.jobs ∨
      ∃ m answer, .starts image image m answer ∈ more ∧ Refusal answer

structure Unsound (w : DrainWorld) (back : List Name) (r' : Rebuilds)
    (more : List DrainAct) (result : Drained) : Prop where
  fault : (∃ lookedAt image m answer, .starts lookedAt image m answer ∈ more ∧ image ≠ lookedAt) ∨
    ¬ looksOf more <+: back ∨
    result = .nothing ∧ looksOf more ≠ back ∨
    ∃ image ∈ back, image ∉ r'.queue.images ∧ w.manifest image = none ∧
      ∀ into m answer, .starts image into m answer ∉ more
  cause : (∃ image, .unreadable image ∈ more) ∨
    ∃ lookedAt image m, .starts lookedAt image m .spawnFailed ∈ more ∧ Behind back lookedAt

section Passes

variable {front' : List Name} {visit : Visit} {result : Drained}
  {more : List DrainAct} {r' : Rebuilds}

theorem Converged.of_still {s s' : State} {name : Name}
    (converged : Converged w name s') (still : State.Still image s s')
    (different : name ≠ image) : Converged w name s := by
  obtain ⟨entries, manifest, holds⟩ := converged
  refine ⟨entries, manifest, fun m member => ?_⟩
  rw [← holds m member, State.satisfies, State.satisfies]
  have same : s.findPackage m.package name = s'.findPackage m.package name := by
    rw [State.findPackage, State.findPackage]
    cases Name.ofCStr m.package with
    | none => rfl
    | some package => exact (still.table.others ⟨package, name⟩ different).symm
  rw [same]

theorem Kept.turn_own (kept : Kept w front image back r r₁ mine visit) :
    ∀ act ∈ mine, act = .unreadable image ∨ ∃ into m answer, act = .starts image into m answer := by
  intro act member
  obtain ⟨_, m, answer, _, _, same, _⟩ := kept.own act member
  exact Or.inr ⟨image, m, answer, same⟩

theorem Sound.after (kept : Kept w front image back (r.note (.looks image)) r₁ mine visit)
    (granted : mine ≠ [] → r.gateRoll = true → image ∈ r.approvals)
    (goesOn : visit = .next ∨ visit = .again)
    (fresh : image ∉ back)
    (fronts : front ⊆ front')
    (imageStays : r₁.queue.images = front ++ image :: back → image ∈ front')
    (sound : Sound w front' back r₁ r' more result) :
    Sound w front (image :: back) r r' (.looks image :: (mine ++ more)) result where
  own := by
    intro lookedAt into m answer member
    rcases mem_cons.mp member with wrong | member
    · cases wrong
    rcases mem_append.mp member with early | late
    · obtain ⟨entries, m', answer', manifest, among, same, last⟩ := kept.own _ early
      cases same
      refine ⟨rfl, mem_cons_self .., ⟨entries, manifest, among⟩, granted (ne_nil_of_mem early), ?_⟩
      rintro failed ⟨before, other, rest, same⟩
      rw [last failed] at same
      have length := congrArg List.length same
      simp at length
      omega
    · obtain ⟨same, among, named, grant, last⟩ := sound.own lookedAt into m answer late
      have different : into ≠ image := by
        rw [same]
        rintro rfl
        exact fresh among
      refine ⟨same, mem_cons_of_mem _ among, named, ?_, ?_⟩
      · intro on
        rw [kept.gateRoll] at grant
        exact (kept.approvals into different).mp (grant on)
      · rintro failed ⟨before, other, rest, split⟩
        cases before with
        | nil =>
          rw [nil_append, List.cons.injEq] at split
          exact different (same.trans split.1.symm)
        | cons first before =>
          rw [cons_append, List.cons.injEq] at split
          exact last failed ⟨before, other, rest, split.2⟩
  order := by
    rw [looksOf_turn image mine more kept.turn_own]
    exact cons_prefix_cons.mpr ⟨rfl, sound.order⟩
  whole := by
    intro nothing
    rw [looksOf_turn image mine more kept.turn_own, sound.whole nothing]
  readable := by
    intro name member
    rcases mem_cons.mp member with wrong | member
    · cases wrong
    rcases mem_append.mp member with early | late
    · obtain ⟨_, _, _, _, _, same, _⟩ := kept.own _ early
      cases same
    · exact sound.readable name late
  stays := fun name member => sound.stays name (fronts member)
  leaves := by
    intro name member gone
    rcases mem_cons.mp member with rfl | among
    · rcases kept.images with ⟨images, _⟩ | ⟨_, _, reason⟩
      · exact absurd (sound.stays name (imageStays images)) gone
      · rcases reason with converged | ⟨m, answer, mem, refusal⟩
        · exact Or.inl converged
        · exact Or.inr ⟨m, answer, mem_cons_of_mem _ (mem_append_left _ mem), refusal⟩
    · have different : name ≠ image := by
        rintro rfl
        exact fresh among
      rcases sound.leaves name among gone with
        converged | ⟨m, answer, mem, refusal⟩
      · exact Or.inl (converged.of_still (kept.still goesOn) different)
      · exact Or.inr ⟨m, answer, mem_cons_of_mem _ (mem_append_right _ mem), refusal⟩

theorem Unsound.after (kept : Kept w front image back (r.note (.looks image)) r₁ mine visit)
    (fresh : image ∉ back)
    (unsound : Unsound w back r' more result) :
    Unsound w (image :: back) r' (.looks image :: (mine ++ more)) result where
  fault := by
    have later : ∀ {act}, act ∈ more → act ∈ DrainAct.looks image :: (mine ++ more) := fun member =>
      mem_cons_of_mem _ (mem_append_right _ member)
    rw [looksOf_turn image mine more kept.turn_own]
    rcases unsound.fault with ⟨lookedAt, into, m, answer, mem, astray⟩ |
      disorder | ⟨nothing, missed⟩ | ⟨name, among, gone, manifest, none⟩
    · exact Or.inl ⟨lookedAt, into, m, answer, later mem, astray⟩
    · right
      left
      intro before
      exact disorder (cons_prefix_cons.mp before).2
    · right
      right
      left
      exact ⟨nothing, fun same => missed (List.cons.inj same).2⟩
    · right
      right
      right
      refine ⟨name, mem_cons_of_mem _ among, gone, manifest, ?_⟩
      intro into m answer member
      rcases mem_cons.mp member with wrong | member
      · cases wrong
      rcases mem_append.mp member with early | late
      · obtain ⟨_, _, _, _, _, same, _⟩ := kept.own _ early
        cases same
        exact fresh among
      · exact none into m answer late
  cause := by
    rcases unsound.cause with ⟨name, mem⟩ | ⟨lookedAt, into, m, mem, behind⟩
    · exact Or.inl ⟨name, mem_cons_of_mem _ (mem_append_right _ mem)⟩
    · exact Or.inr ⟨lookedAt, into, m, mem_cons_of_mem _
        (mem_append_right _ mem), behind.cons image⟩

theorem Kept.sound (kept : Kept w front image back (r.note (.looks image)) r₁ mine visit)
    (granted : mine ≠ [] → r.gateRoll = true → image ∈ r.approvals)
    (stops : visit ≠ .again) (stopped : result ≠ .nothing) :
    Sound w front (image :: back) r r₁ (.looks image :: mine) result where
  own := by
    intro lookedAt into m answer member
    rcases mem_cons.mp member with wrong | member
    · cases wrong
    obtain ⟨entries, m', answer', manifest, among, same, last⟩ := kept.own _ member
    cases same
    refine ⟨rfl, mem_cons_self .., ⟨entries, manifest, among⟩, granted (ne_nil_of_mem member), ?_⟩
    rintro failed ⟨before, other, rest, same⟩
    rw [last failed] at same
    have length := congrArg List.length same
    simp at length
    omega
  order := by
    have looks := looksOf_turn image mine [] kept.turn_own
    rw [append_nil] at looks
    rw [looks]
    exact ⟨back, rfl⟩
  whole := fun nothing => absurd nothing stopped
  readable := by
    intro name member
    rcases mem_cons.mp member with wrong | member
    · cases wrong
    obtain ⟨_, _, _, _, _, same, _⟩ := kept.own _ member
    cases same
  stays := by
    intro name member
    rcases kept.images with ⟨images, _⟩ | ⟨images, _⟩
    · rw [images]
      exact mem_append_left _ member
    · rw [images]
      exact mem_append_left _ member
  leaves := by
    intro name member gone
    rcases kept.images with ⟨images, _⟩ | ⟨images, turn, reason⟩
    · rw [images] at gone
      exact absurd (mem_append_right _ member) gone
    · rcases mem_cons.mp member with rfl | among
      · rcases reason with converged | ⟨m, answer, mem, refusal⟩
        · exact Or.inl converged
        · exact Or.inr ⟨m, answer, mem_cons_of_mem _ mem, refusal⟩
      · rw [images] at gone
        exact absurd (mem_append_right _ among) gone

theorem unsound_of_unread {w : DrainWorld}
    (unread : Unread w front image back (r.note (.looks image)) r₁ visit)
    (nodup : (front ++ image :: back).Nodup)
    (sublist : r'.queue.images.Sublist r₁.queue.images)
    (own : ∀ lookedAt into m answer, .starts lookedAt into m answer ∈ more → lookedAt ∈ back) :
    Unsound w (image :: back) r' (.looks image :: (.unreadable image :: more)) result where
  fault := by
    have apart := nodup_append.mp nodup
    right
    right
    right
    refine ⟨image, mem_cons_self .., ?_, unread.manifest, ?_⟩
    · intro member
      have among := sublist.subset member
      rw [unread.images] at among
      rcases mem_append.mp among with before | behind
      · exact apart.2.2 image before image (mem_cons_self ..) rfl
      · exact (nodup_cons.mp apart.2.1).1 behind
    · intro into m answer member
      rcases mem_cons.mp member with wrong | member
      · cases wrong
      rcases mem_cons.mp member with wrong | member
      · cases wrong
      exact (nodup_cons.mp apart.2.1).1 (own image into m answer member)
  cause := Or.inl ⟨image, by simp⟩

theorem unsound_of_slips (turn : ∀ act ∈ mine, act = .unreadable image ∨
      ∃ into m answer, act = .starts image into m answer)
    (failed : ∃ m, .starts image image m .spawnFailed ∈ mine)
    (fault : (∃ into m answer, .starts image into m answer ∈ mine ∧ into ≠ image) ∨ other ∉ rest ∧
      (rest = [] ∧ looksOf more = [] ∧ result = .nothing ∨
        ∃ next later, looksOf more = next :: later ∧ next ∈ rest)) :
    Unsound w (image :: other :: rest) r' (.looks image :: (mine ++ more)) result where
  fault := by
    rw [looksOf_turn image mine more turn]
    rcases fault with ⟨into, m, answer, mem, astray⟩ |
      ⟨fresh, ⟨isNil, none, nothing⟩ | ⟨next, later, looks, among⟩⟩
    · exact Or.inl ⟨image, into, m, answer, mem_cons_of_mem _ (mem_append_left _ mem), astray⟩
    · right
      right
      left
      rw [none, isNil]
      exact ⟨nothing, by simp⟩
    · right
      left
      rw [looks]
      intro before
      have second := (cons_prefix_cons.mp before).2
      have same := (cons_prefix_cons.mp second).1
      exact fresh (same ▸ among)
  cause := by
    obtain ⟨m, mem⟩ := failed
    exact Or.inr ⟨image, image, m, mem_cons_of_mem _ (mem_append_left _ mem), [], other, rest, rfl⟩

theorem looksOf_drainFrom {fuel : Nat} (calm : r.jobs.Calm)
    (images : r.queue.images = front ++ back) (enough : back.length ≤ fuel) :
    ∃ more, (drainFrom w fuel front.length r).1.acts = r.acts ++ more ∧
      (back = [] ∧ looksOf more = [] ∧ (drainFrom w fuel front.length r).2 = .nothing ∨
        ∃ next later, looksOf more = next :: later ∧ next ∈ back) := by
  cases back with
  | nil =>
    rw [append_nil] at images
    rw [drainFrom_end (by rw [images])]
    exact ⟨[], by simp, Or.inl ⟨rfl, rfl, rfl⟩⟩
  | cons image back =>
    obtain ⟨fuel, rfl⟩ : ∃ k, fuel = k + 1 :=
      ⟨fuel - 1, by simp only [length_cons] at enough; omega⟩
    have inside : front.length < r.queue.images.length := by simp [images]
    obtain ⟨mine, turned⟩ := turned_visit w front.length calm
    rw [RebuildQueue.slot_of_images images] at turned
    rw [drainFrom_succ w inside]
    generalize r.visit w front.length = result at *
    obtain ⟨r₁, visit⟩ := result
    simp only at turned
    have acts : r₁.acts = r.acts ++ .looks image :: mine := by
      rw [turned.acts, note_acts, append_assoc]
      rfl
    have looks : ∀ (r' : Rebuilds) (drained : Drained) more, r'.acts = r₁.acts ++ more →
        ∃ more, r'.acts = r.acts ++ more ∧
          (image :: back = [] ∧ looksOf more = [] ∧ drained = .nothing ∨
            ∃ next later, looksOf more = next :: later ∧
              next ∈ image :: back) := by
      intro r' drained more laterActs
      refine ⟨.looks image :: (mine ++ more), ?_, Or.inr ⟨image,
        looksOf more, looksOf_turn image mine more turned.own,
        mem_cons_self ..⟩⟩
      rw [laterActs, acts, append_assoc, cons_append]
    cases visit with
    | next =>
      obtain ⟨more, laterActs, _⟩ := ran_drainFrom w fuel
        (front.length + 1) (turned.calm (Or.inl rfl))
      exact looks _ _ more laterActs
    | again =>
      obtain ⟨more, laterActs, _⟩ := ran_drainFrom w fuel front.length (turned.calm (Or.inr rfl))
      exact looks _ _ more laterActs
    | fetch => exact looks r₁ .fetch [] (by simp)
    | uninstall => exact looks r₁ .uninstall [] (by simp)

theorem sound_end (images : r.queue.images = front) : Sound w front [] r r [] .nothing where
  own := by simp
  order := by simp [looksOf]
  whole := fun _ => rfl
  readable := by simp
  stays := fun name member => by rw [images]; exact member
  leaves := by simp

theorem sound_or_unsound (w : DrainWorld) {fuel : Nat} (calm : r.jobs.Calm)
    (images : r.queue.images = front ++ back) (enough : back.length ≤ fuel) :
    ∃ more, (drainFrom w fuel front.length r).1.acts = r.acts ++ more ∧
      (Sound w front back r (drainFrom w fuel front.length r).1 more
          (drainFrom w fuel front.length r).2 ∨
        Unsound w back (drainFrom w fuel front.length r).1 more
          (drainFrom w fuel front.length r).2) := by
  induction back generalizing front fuel r with
  | nil =>
    rw [append_nil] at images
    rw [drainFrom_end (by rw [images])]
    exact ⟨[], by simp, Or.inl (sound_end images)⟩
  | cons image back ih =>
    obtain ⟨fuel, rfl⟩ : ∃ k, fuel = k + 1 :=
      ⟨fuel - 1, by simp only [length_cons] at enough; omega⟩
    have enough' : back.length ≤ fuel := by
      simp only [length_cons] at enough
      omega
    have inside : front.length < r.queue.images.length := by simp [images]
    have nodup := r.queue.nodup
    rw [images] at nodup
    have fresh : image ∉ back := (nodup_cons.mp (nodup_append.mp nodup).2.1).1
    obtain ⟨mine', turned⟩ := turned_visit w front.length calm
    rw [RebuildQueue.slot_of_images images] at turned
    have cases := visit_cases w calm images
    rw [drainFrom_succ w inside]
    generalize r.visit w front.length = result at *
    obtain ⟨r₁, visit⟩ := result
    simp only at turned cases
    have acts : ∀ {mine}, r₁.acts = (r.note (.looks image)).acts ++ mine →
        r₁.acts = r.acts ++ .looks image :: mine := by
      intro mine same
      rw [same, note_acts, append_assoc]
      rfl
    rcases cases with ⟨mine, kept, granted⟩ | unread | ⟨other, rest, mine, rfl, slips⟩
    · -- the turn stays with its image
      have goesOn : visit = .next ∨ visit = .again → ∀ front',
          front ⊆ front' →
          (r₁.queue.images = front ++ image :: back → image ∈ front') →
          ∀ more r' drained, r'.acts = r₁.acts ++ more →
          Sound w front' back r₁ r' more drained ∨ Unsound w back r' more drained →
          ∃ more, r'.acts = r.acts ++ more ∧ (Sound w front (image :: back) r r' more drained ∨
              Unsound w (image :: back) r' more drained) := by
        intro onwards front' fronts imageStays more r' drained laterActs how
        refine ⟨.looks image :: (mine ++ more), ?_, ?_⟩
        · rw [laterActs, acts kept.acts, append_assoc, cons_append]
        · rcases how with sound | unsound
          · exact Or.inl (sound.after kept granted onwards fresh fronts imageStays)
          · exact Or.inr (unsound.after kept fresh)
      cases visit with
      | next =>
        have calm₁ := turned.calm (Or.inl rfl)
        rcases kept.images with ⟨images₁, _⟩ | ⟨images₁, turn, _⟩
        · have images₁' : r₁.queue.images = (front ++ [image]) ++ back := by simp [images₁]
          obtain ⟨more, laterActs, how⟩ := ih calm₁ images₁' enough'
          rw [length_append] at laterActs how
          exact goesOn (Or.inl rfl) (front ++ [image])
            (subset_append_left _ _) (fun _ => by simp) more _ _
            laterActs how
        · obtain rfl : back = [] := by
            rcases turn with wrong | isNil
            · cases wrong
            · exact isNil
          rw [append_nil] at images₁
          simp only
          rw [drainFrom_end (by rw [images₁]; omega)]
          exact goesOn (Or.inl rfl) front (List.Subset.refl _)
            (fun wrong => by rw [images₁] at wrong; simp at wrong) []
            r₁ .nothing (by simp) (Or.inl (sound_end images₁))
      | again =>
        have calm₁ := turned.calm (Or.inr rfl)
        rcases kept.images with ⟨_, wrong⟩ | ⟨images₁, _, _⟩
        · exact absurd rfl wrong
        · obtain ⟨more, laterActs, how⟩ := ih calm₁ images₁ enough'
          exact goesOn (Or.inr rfl) front (List.Subset.refl _)
            (fun same => by rw [images₁] at same; simp at same) more _ _
            laterActs how
      | fetch =>
        exact ⟨_, acts kept.acts, Or.inl (kept.sound granted (by simp) (by simp))⟩
      | uninstall =>
        exact ⟨_, acts kept.acts, Or.inl (kept.sound granted (by simp) (by simp))⟩
    · -- the manifest cannot be read
      obtain rfl := unread.again
      obtain ⟨more, laterActs, own, sublist⟩ := ran_drainFrom w fuel
        front.length (turned.calm (Or.inr rfl))
      rw [unread.images, drop_left] at own
      refine ⟨.looks image :: .unreadable image :: more, ?_, Or.inr
        (unsound_of_unread unread nodup sublist own)⟩
      rw [laterActs, acts unread.acts, append_assoc]
      rfl
    · -- the pointer slips to the image behind
      have freshRest : other ∉ rest := by
        have tail := (nodup_append.mp nodup).2.1
        exact (nodup_cons.mp (nodup_cons.mp tail).2).1
      have isMine : mine' = mine := by
        have same := turned.acts.symm.trans slips.acts
        exact append_cancel_left same
      rw [isMine] at turned
      have goesOn : ∀ more r' drained, r'.acts = r₁.acts ++ more →
          ((∃ into m answer, .starts image into m answer ∈ mine ∧ into ≠ image) ∨ other ∉ rest ∧
            (rest = [] ∧ looksOf more = [] ∧ drained = .nothing ∨
              ∃ next later, looksOf more = next :: later ∧
                next ∈ rest)) →
          ∃ more, r'.acts = r.acts ++ more ∧
            (Sound w front (image :: other :: rest) r r' more drained ∨
              Unsound w (image :: other :: rest) r' more drained) := by
        intro more r' drained laterActs fault
        refine ⟨.looks image :: (mine ++ more), ?_, Or.inr
          (unsound_of_slips turned.own slips.failed fault)⟩
        rw [laterActs, acts slips.acts, append_assoc, cons_append]
      have enoughRest : rest.length ≤ fuel := by
        simp only [length_cons] at enough'
        omega
      rcases slips.strays with astray | ⟨rfl, images₁⟩ | ⟨rfl, images₁⟩
      · cases visit with
        | next =>
          obtain ⟨more, laterActs, _⟩ := ran_drainFrom w fuel
            (front.length + 1) (turned.calm (Or.inl rfl))
          exact goesOn more _ _ laterActs (Or.inl astray)
        | again =>
          obtain ⟨more, laterActs, _⟩ := ran_drainFrom w fuel
            front.length (turned.calm (Or.inr rfl))
          exact goesOn more _ _ laterActs (Or.inl astray)
        | fetch => exact goesOn [] r₁ .fetch (by simp) (Or.inl astray)
        | uninstall => exact goesOn [] r₁ .uninstall (by simp) (Or.inl astray)
      · have images₁' : r₁.queue.images = (front ++ [other]) ++ rest := by simp [images₁]
        obtain ⟨more, laterActs, looks⟩ := looksOf_drainFrom (w := w)
          (turned.calm (Or.inl rfl)) images₁' enoughRest
        rw [length_append] at laterActs looks
        exact goesOn more _ _ laterActs (Or.inr ⟨freshRest, looks⟩)
      · obtain ⟨more, laterActs, looks⟩ := looksOf_drainFrom (w := w)
          (turned.calm (Or.inr rfl)) images₁ enoughRest
        exact goesOn more _ _ laterActs (Or.inr ⟨freshRest, looks⟩)

end Passes

end Walks

end Attempts

/-! ## What a pass keeps -/

section Whole

variable {r : Rebuilds} {image other : Name}

theorem approvals_remove : (r.rebuildQueueRemove image).approvals ⊆ r.approvals := by
  rw [rebuildQueueRemove]
  split
  · exact List.Subset.refl _
  · rw [rebuildQueueRemoveAt]
    split
    · exact List.Subset.refl _
    · exact erase_subset

theorem mem_remove : image ∈ (r.rebuildQueueRemove other).queue.images ↔
    image ∈ r.queue.images ∧ image ≠ other := by
  by_cases queued : other ∈ r.queue.images
  · obtain ⟨front, back, images⟩ := append_of_mem queued
    have nodup := r.queue.nodup
    rw [images] at nodup
    have apart := nodup_append.mp nodup
    rw [rebuildQueueRemove_of_images images, images_removeAt images, images]
    simp only [mem_append, mem_cons]
    constructor
    · rintro (before | behind)
      · exact ⟨Or.inl before, apart.2.2 image before other (mem_cons_self ..)⟩
      · refine ⟨Or.inr (Or.inr behind), ?_⟩
        rintro rfl
        exact (nodup_cons.mp apart.2.1).1 behind
    · rintro ⟨before | here | behind, different⟩
      · exact Or.inl before
      · exact absurd here different
      · exact Or.inr behind
  · rw [rebuildQueueRemove_of_not_mem queued]
    constructor
    · intro member
      refine ⟨member, ?_⟩
      rintro rfl
      exact queued member
    · exact And.left

theorem queue_reaps (order : List ChainIdx) (r : Rebuilds) : (∀ image, image ∈
        (order.foldl (fun r i => r.reapOne i) r).queue.images ↔
      image ∈ r.queue.images ∧ image ∉ State.reapedIn order r.jobs) ∧
    (order.foldl (fun r i => r.reapOne i) r).gateRoll = r.gateRoll ∧
    (order.foldl (fun r i => r.reapOne i) r).acts = r.acts ∧
    (order.foldl (fun r i => r.reapOne i) r).approvals ⊆ r.approvals := by
  induction order generalizing r with
  | nil =>
    exact ⟨fun _ => by simp [State.reapedIn], rfl, rfl,
      List.Subset.refl _⟩
  | cons i rest ih =>
    obtain ⟨queue, gateRoll, acts, approvals⟩ := ih (r.reapOne i)
    rw [foldl_cons, State.reapedIn]
    cases fails : r.jobs.reapFails i with
    | none =>
      have one : r.reapOne i = { r with jobs := r.jobs.reapOne i } := by rw [reapOne, fails]
      rw [one] at queue gateRoll acts approvals ⊢
      exact ⟨queue, gateRoll, acts, approvals⟩
    | some dropped =>
      have one : r.reapOne i = { r with
          jobs := r.jobs.reapOne i }.rebuildQueueRemove dropped := by
        rw [reapOne, fails]
      have removed : Removed dropped { r with jobs := r.jobs.reapOne i }
          ({ r with jobs := r.jobs.reapOne i }.rebuildQueueRemove dropped) := removed_remove
      rw [one] at queue gateRoll acts approvals ⊢
      refine ⟨?_, gateRoll.trans removed.gateRoll, acts.trans removed.acts,
        List.Subset.trans approvals (approvals_remove (r :=
          { r with jobs := r.jobs.reapOne i }))⟩
      intro image
      rw [queue image, mem_remove, removed.jobs]
      simp only [toList_some, mem_append, mem_singleton, not_or, and_assoc]

theorem reapOne_acts (i : ChainIdx) (acts : List DrainAct) (r : Rebuilds) :
    { r with acts := acts }.reapOne i =
      { r.reapOne i with acts := acts } := by
  rw [reapOne, reapOne]
  cases r.jobs.reapFails i with
  | none => rfl
  | some dropped =>
    simp only [rebuildQueueRemove]
    split
    · rfl
    · simp only [rebuildQueueRemoveAt]
      split <;> rfl

theorem reaps_acts (order : List ChainIdx) (acts : List DrainAct) (r : Rebuilds) :
    order.foldl (fun r i => r.reapOne i) { r with acts := acts } =
      { order.foldl (fun r i => r.reapOne i) r with acts := acts } := by
  induction order generalizing r with
  | nil => rfl
  | cons i rest ih => rw [foldl_cons, foldl_cons, reapOne_acts, ih]

/-- Each install of a pass is of an entry of its image's manifest. An image leaves
the queue only when its manifest is satisfied or one of its installs has failed. The
images are looked at in order. With the roll gate on, only images with an approval
are rolled. -/
structure Faithful (w : DrainWorld) (r : Rebuilds) : Prop where
  own : ∀ lookedAt image m answer, .starts lookedAt image m answer ∈
      (r.pkgTryStartQueuedRebuild w).1.acts →
    image = lookedAt ∧ ∃ entries, w.manifest image = some entries ∧ m ∈ entries
  leaves : ∀ image ∈ r.queue.images, image ∉ (r.pkgTryStartQueuedRebuild w).1.queue.images →
      Converged w image r.jobs.chainReapStale ∨
      (∃ m answer, .starts image image m answer ∈
        (r.pkgTryStartQueuedRebuild w).1.acts ∧ Refusal answer) ∨
      image ∈ r.jobs.reaped
  order : looksOf (r.pkgTryStartQueuedRebuild w).1.acts <+: r.chainReapStale.queue.images
  whole : (r.pkgTryStartQueuedRebuild w).2 = .nothing →
    looksOf (r.pkgTryStartQueuedRebuild w).1.acts = r.chainReapStale.queue.images
  granted : ∀ lookedAt image m answer, .starts lookedAt image m answer ∈
      (r.pkgTryStartQueuedRebuild w).1.acts →
    r.gateRoll = true → image ∈ r.approvals

/-- Every manifest that the pass reads can be read, and no start fails at once
while another image is behind in the queue. -/
def Undisturbed (w : DrainWorld) (r : Rebuilds) : Prop :=
  (∀ image, .unreadable image ∉ (r.pkgTryStartQueuedRebuild w).1.acts) ∧
    ∀ lookedAt image m, .starts lookedAt image m .spawnFailed ∈
        (r.pkgTryStartQueuedRebuild w).1.acts →
      ¬ Behind r.chainReapStale.queue.images lookedAt

/-- A pass after `pkg_any_job_busy`. -/
def begun (w : DrainWorld) (r : Rebuilds) : Rebuilds :=
  { r.chainReapStale with
    jobs := (r.jobs.chainAlloc (w.answers [])).1
    acts := [] }

theorem pkgTryStartQueuedRebuild_eq (w : DrainWorld) (r : Rebuilds) : r.pkgTryStartQueuedRebuild w =
      if (r.jobs.chainAlloc (w.answers [])).2.isNone then
        (r.begun w, .busy)
      else drainFrom w r.chainReapStale.queue.images.length 0 (r.begun w) := by
  have reset : { r with acts := [] }.chainReapStale =
      { r.chainReapStale with acts := [] } := reaps_acts _ [] r
  rw [pkgTryStartQueuedRebuild, pkgAnyJobBusy, reset]
  simp only
  cases (r.jobs.chainAlloc (w.answers [])).2.isNone <;> rfl

theorem begun_table (w : DrainWorld) (r : Rebuilds) :
    (r.begun w).jobs.table = r.jobs.chainReapStale.table := by
  rw [begun, State.chainAlloc, State.chainAllocFrom]
  simp only
  split <;> rfl

theorem mem_chainReapStale (r : Rebuilds) (image : Name) : image ∈ r.chainReapStale.queue.images ↔
      image ∈ r.queue.images ∧ image ∉ r.jobs.reaped :=
  (queue_reaps (List.finRange maxConcurrentJobs) r).1 image

theorem Sound.faithful {w : DrainWorld} {result : Rebuilds × Drained}
    (pass : r.pkgTryStartQueuedRebuild w = result)
    (sound : Sound w [] r.chainReapStale.queue.images (r.begun w) result.1
      result.1.acts result.2) : Faithful w r ∧ Undisturbed w r := by
  obtain ⟨_, gateRoll, _, approvals⟩ := queue_reaps (List.finRange maxConcurrentJobs) r
  refine ⟨⟨?_, ?_, ?_, ?_, ?_⟩, ?_, ?_⟩ <;> rw [pass]
  · intro lookedAt image m answer member
    obtain ⟨same, _, named, _⟩ := sound.own lookedAt image m answer member
    exact ⟨same, named⟩
  · intro image queued gone
    by_cases reaped : image ∈ r.jobs.reaped
    · exact Or.inr (Or.inr reaped)
    · rcases sound.leaves image ((mem_chainReapStale r image).mpr
          ⟨queued, reaped⟩) gone with converged | refusal
      · exact Or.inl (converged.of_table (begun_table w r).symm)
      · exact Or.inr (Or.inl refusal)
  · exact sound.order
  · exact sound.whole
  · intro lookedAt image m answer member on
    obtain ⟨_, _, _, granted, _⟩ := sound.own lookedAt image m answer member
    exact approvals (granted (gateRoll.trans on))
  · exact sound.readable
  · intro lookedAt image m member
    obtain ⟨_, _, _, _, last⟩ := sound.own lookedAt image m _ member
    exact last rfl

theorem Unsound.not_faithful {w : DrainWorld} {result : Rebuilds × Drained}
    (pass : r.pkgTryStartQueuedRebuild w = result)
    (unsound : Unsound w r.chainReapStale.queue.images result.1
      result.1.acts result.2) : ¬ Faithful w r ∧ ¬ Undisturbed w r := by
  constructor
  · intro faithful
    obtain ⟨own, leaves, order, whole, _⟩ := faithful
    rw [pass] at own leaves order whole
    rcases unsound.fault with ⟨lookedAt, image, m, answer, member, astray⟩ |
      disorder | ⟨nothing, missed⟩ | ⟨image, among, gone, manifest, none⟩
    · exact astray (own lookedAt image m answer member).1
    · exact disorder order
    · exact missed (whole nothing)
    · obtain ⟨queued, unreaped⟩ := (mem_chainReapStale r image).mp among
      rcases leaves image queued gone with
        ⟨entries, isManifest, _⟩ | ⟨m, answer, member, _⟩ | reaped
      · rw [manifest] at isManifest
        cases isManifest
      · exact none image m answer member
      · exact unreaped reaped
  · rintro ⟨readable, spawned⟩
    rw [pass] at readable spawned
    rcases unsound.cause with ⟨image, member⟩ | ⟨lookedAt, image, m, member, behind⟩
    · exact readable image member
    · exact spawned lookedAt image m member behind

/-- A pass of the drain does what it should exactly when every manifest that
it reads can be read and no start fails at once while another image is
behind. -/
theorem rebuild_drain_faithful_iff (w : DrainWorld) (r : Rebuilds)
    (distinct : r.jobs.table.Distinct) :
    Faithful w r ↔ Undisturbed w r := by
  have pass := pkgTryStartQueuedRebuild_eq w r
  split_ifs at pass with full
  · have idle : Sound w [] r.chainReapStale.queue.images (r.begun w)
        (r.begun w) (r.begun w).acts .busy := by
      refine ⟨by simp [begun], ?_, by simp, by simp [begun], by simp, ?_⟩
      · simp [begun, looksOf]
      · intro image among gone
        exact absurd among gone
    obtain ⟨faithful, undisturbed⟩ := idle.faithful pass
    exact iff_of_true faithful undisturbed
  · have calm : (r.begun w).jobs.Calm := State.calm_chainAlloc (w.answers []) distinct
    have images : (r.begun w).queue.images = [] ++ r.chainReapStale.queue.images := rfl
    obtain ⟨more, acts, how⟩ := sound_or_unsound w calm images le_rfl
    obtain rfl : more = (drainFrom w r.chainReapStale.queue.images.length 0
        (r.begun w)).1.acts := by
      rw [length_nil] at acts
      rw [acts]
      rfl
    rcases how with sound | unsound
    · obtain ⟨faithful, undisturbed⟩ := sound.faithful pass
      exact iff_of_true faithful undisturbed
    · obtain ⟨unfaithful, disturbed⟩ := unsound.not_faithful pass
      exact iff_of_false unfaithful disturbed

def twoQueued : Rebuilds where
  jobs := State.initial
  queue :=
    { images := [Name.ofLiteral "first" (by decide),
        Name.ofLiteral "second" (by decide)]
      stale := []
      nodup := by decide }
  gateRoll := true
  approvals := [Name.ofLiteral "first" (by decide)]
  strayRefused := fun _ => false
  acts := []

/-- The first image is to hold `a` and `b`, the second `c`. -/
def threePackages (spawns : List DrainAct → Bool) : DrainWorld where
  answers := fun acts =>
    { World.flat "1-1" named_1_1 with spawns := spawns acts }
  latest := fun _ => some "1-1"
  manifest := fun image =>
    if image.str = "first" then
      some [⟨"a", .rolling, CStr.empty⟩, ⟨"b", .rolling, CStr.empty⟩]
    else some [⟨"c", .rolling, CStr.empty⟩]
  converges := fun _ => false

theorem rebuild_drain_faithful_steady : twoQueued.jobs.table.Distinct ∧
      Faithful (threePackages fun _ => true) twoQueued := by
  refine ⟨Table.distinct_empty, (rebuild_drain_faithful_iff _ _ Table.distinct_empty).mpr ?_⟩
  have acts : (twoQueued.pkgTryStartQueuedRebuild (threePackages fun _ => true)).1.acts =
        [.looks (Name.ofLiteral "first" (by decide)), .starts (Name.ofLiteral "first" (by decide))
            (Name.ofLiteral "first" (by decide))
            ⟨"a", .rolling, CStr.empty⟩ .ok] := by
    decide +kernel
  rw [Undisturbed, acts]
  simp

/-- The first fork fails, and the next one works.  The install of `b` then
goes into the second image, whose manifest does not name it and whose roll
was not approved. -/
theorem failed_start_slips_to_next_image :
    ¬ Faithful (threePackages fun acts => decide (acts.length ≠ 1))
      twoQueued := by
  intro faithful
  have same := (faithful.own (Name.ofLiteral "first" (by decide))
    (Name.ofLiteral "second" (by decide))
    ⟨"b", .rolling, CStr.empty⟩ .ok (by decide +kernel)).1
  revert same
  decide

end Whole

end Rebuilds

end Cix.Pkg
