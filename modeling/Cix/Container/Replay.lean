import Cix.Container.Persistence
import Cix.Container.Pins

/-!
# Every replay reads what was pinned

A definition lives through restarts, changes of other definitions and of its
own other fields, and patches of its version.  As long as the text of the pin
is where the parser finds the member, every replay reads the version of the
last successful patch and the isolation mode of the creation.
-/

namespace Cix.Container

open Cix.Lib Cix.Json
open List hiding asString

/-! ## Changes of the store -/

/-- A call that changes the store and whose object is none of the spared names, or a
restart that comes up. -/
inductive Change (spared : RegistryName → Prop) : Store → Store → Prop
  | restart {s s' : Store} {ldap userns : Bool}
      (up : containerdefInit ldap userns s.file = some s') :
      Change spared s s'
  | add (s : Store) (name : RegistryName) (body : List UInt8)
      (policy : Policy) (written : Bool) (other : ¬ spared name) :
      Change spared s (containerdefAdd name body policy written s).1
  | remove (s : Store) (name : RegistryName) (written : Bool)
      (other : ¬ spared name) :
      Change spared s (containerdefRemove name written s)
  | setBody (s : Store) (name : RegistryName) (body : List UInt8)
      (written : Bool) (other : ¬ spared name) :
      Change spared s (containerdefSetBody name body written s)
  | patch (s : Store) (name : RegistryName) (version : CStr)
      (written : Bool) (other : ¬ spared name) :
      Change spared s (containerdefPatchImageVersion name version written s).1
  | setStopped (s : Store) (name : RegistryName) (stopped written : Bool) :
      Change spared s (containerdefSetStopped name stopped written s)
  | setAwaitingImage (s : Store) (name : RegistryName)
      (image : BoundedStr 64) (written : Bool) :
      Change spared s (containerdefSetAwaitingImage name image written s)
  | promotePending (s : Store) (name : RegistryName) (policy : Policy)
      (written : Bool) :
      Change spared s (containerdefPromotePending name policy written s)
  | setRoll (s : Store) (name : RegistryName) (source target : BoundedStr 72)
      (written : Bool) :
      Change spared s (containerdefSetRoll name source target written s)
  | setRollDeadline (s : Store) (name : RegistryName) (deadline : Int64)
      (written : Bool) (timely : deadline.toInt.natAbs ≤ 2 ^ 53) :
      Change spared s (containerdefSetRollDeadline name deadline written s)
  | clearRoll (s : Store) (name : RegistryName) (written : Bool) :
      Change spared s (containerdefClearRoll name written s)

/-- A list that `load_state` reads back. -/
structure Sound (defs : List ContainerDef) : Prop where
  timely : ∀ d ∈ defs, d.Timely
  few : defs.length ≤ containerdefMax

/-! ## Looking up a definition -/

variable {defs : List ContainerDef}

theorem find_updateDef {n name : RegistryName}
    {change : ContainerDef → ContainerDef}
    (named : ∀ d, d.name = n → (change d).name = n)
    (defs : List ContainerDef) :
    containerdefFind name (updateDef n change defs) =
      if n = name then (containerdefFind name defs).map change
      else containerdefFind name defs := by
  unfold containerdefFind
  induction defs with
  | nil => simp [updateDef]
  | cons d rest ih =>
    by_cases here : d.name = n
    · rw [updateDef, if_pos here]
      by_cases same : n = name
      · simp [here, same, named d here ▸ same]
      · simp [named d here, here, same]
    · rw [updateDef, if_neg here]
      by_cases same : n = name
      · subst same
        simp only [if_true] at ih ⊢
        simp [here, ih]
      · simp only [if_neg same] at ih ⊢
        by_cases found : d.name = name
        · simp [found]
        · simp [found, ih]

theorem mem_updateDef {n : RegistryName}
    {change : ContainerDef → ContainerDef} {defs : List ContainerDef}
    {d : ContainerDef} (mem : d ∈ updateDef n change defs) :
    d ∈ defs ∨ ∃ e ∈ defs, d = change e := by
  induction defs with
  | nil => cases mem
  | cons e rest ih =>
    rw [updateDef] at mem
    split at mem
    · rcases mem_cons.mp mem with rfl | later
      · exact Or.inr ⟨e, mem_cons_self, rfl⟩
      · exact Or.inl (mem_cons_of_mem e later)
    · rcases mem_cons.mp mem with rfl | later
      · exact Or.inl mem_cons_self
      · rcases ih later with old | ⟨source, inside, rfl⟩
        · exact Or.inl (mem_cons_of_mem e old)
        · exact Or.inr ⟨source, mem_cons_of_mem e inside, rfl⟩

theorem length_updateDef (n : RegistryName)
    (change : ContainerDef → ContainerDef) (defs : List ContainerDef) :
    (updateDef n change defs).length = defs.length := by
  induction defs with
  | nil => rfl
  | cons d rest ih =>
    rw [updateDef]
    split
    · rfl
    · rw [length_cons, ih, length_cons]

theorem Sound.updateDef {n : RegistryName}
    {change : ContainerDef → ContainerDef} {defs : List ContainerDef}
    (sound : Sound defs) (timely : ∀ d ∈ defs, (change d).Timely) :
    Sound (updateDef n change defs) := by
  constructor
  · intro d mem
    rcases mem_updateDef mem with old | ⟨source, inside, rfl⟩
    · exact sound.timely d old
    · exact timely source inside
  · rw [length_updateDef]
    exact sound.few

theorem find_eraseP {n name : RegistryName} (other : n ≠ name)
    {defs : List ContainerDef} {d : ContainerDef}
    (found : containerdefFind name defs = some d) :
    containerdefFind name (defs.eraseP fun e => e.name = n) = some d := by
  unfold containerdefFind at found ⊢
  induction defs with
  | nil => cases found
  | cons e rest ih =>
    by_cases removed : e.name = n
    · have elsewhere : ¬ e.name = name := fun same =>
        other (removed.symm.trans same)
      simpa [eraseP_cons, removed, elsewhere, other] using found
    · by_cases here : e.name = name
      · simpa [eraseP_cons, removed, here, Ne.symm other] using found
      · have deeper : rest.find? (fun d => decide (d.name = name)) =
            some d := by
          simpa [here] using found
        simpa [eraseP_cons, removed, here] using ih deeper

theorem find_reloaded (name : RegistryName) (defs : List ContainerDef) :
    containerdefFind name (defs.map ContainerDef.reloaded) =
      (containerdefFind name defs).map ContainerDef.reloaded := by
  unfold containerdefFind
  rw [find?_map]
  rfl

theorem Sound.reloaded (sound : Sound defs) : Sound (defs.map ContainerDef.reloaded) := by
  constructor
  · intro d mem
    obtain ⟨source, inside, rfl⟩ := mem_map.mp mem
    exact sound.timely source inside
  · rw [length_map]
    exact sound.few

/-! ## Migrations -/

theorem migrateDef_fields
    {change : List (CStr × Value) → Option (List (CStr × Value))}
    {d d' : ContainerDef} {changed : Bool}
    (migrated : migrateDef change d = some (d', changed)) :
    d'.name = d.name ∧ d'.rollDeadline = d.rollDeadline := by
  unfold migrateDef at migrated
  split at migrated
  · split at migrated
    · cases migrated
      exact ⟨rfl, rfl⟩
    · rw [Option.map_eq_some_iff] at migrated
      obtain ⟨body, _, isPair⟩ := migrated
      cases isPair
      exact ⟨rfl, rfl⟩
  · cases migrated
    exact ⟨rfl, rfl⟩

theorem migrateDefs_cons
    {change : List (CStr × Value) → Option (List (CStr × Value))}
    {d : ContainerDef} {rest : List ContainerDef} {any : Bool}
    (migrated : migrateDefs change (d :: rest) = some (defs, any)) :
    ∃ d' defs' changed later, migrateDef change d = some (d', changed) ∧
      migrateDefs change rest = some (defs', later) ∧
      defs = d' :: defs' ∧ any = (changed || later) := by
  rw [migrateDefs] at migrated
  split at migrated
  next d' changed defs' later first others =>
    cases migrated
    exact ⟨d', defs', changed, later, first, others, rfl, rfl⟩
  next => cases migrated

theorem Sound.migrateDefs
    {change : List (CStr × Value) → Option (List (CStr × Value))}
    {defs' : List ContainerDef} {any : Bool} (sound : Sound defs)
    (migrated : migrateDefs change defs = some (defs', any)) : Sound defs' := by
  have fields : defs'.length = defs.length ∧
      ∀ d ∈ defs', ∃ source ∈ defs, d.rollDeadline = source.rollDeadline := by
    induction defs generalizing defs' any with
    | nil =>
      cases migrated
      simp
    | cons d rest ih =>
      obtain ⟨d', later, changed, more, first, others, rfl, rfl⟩ := migrateDefs_cons migrated
      have smaller : Sound rest :=
        ⟨fun e mem => sound.timely e (mem_cons_of_mem d mem), Nat.le_of_succ_le sound.few⟩
      obtain ⟨sizes, sources⟩ := ih smaller others
      refine ⟨by rw [length_cons, length_cons, sizes], ?_⟩
      intro e mem
      rcases mem_cons.mp mem with rfl | inside
      · exact ⟨d, mem_cons_self, (migrateDef_fields first).2⟩
      · obtain ⟨source, isSource, same⟩ := sources e inside
        exact ⟨source, mem_cons_of_mem d isSource, same⟩
  constructor
  · intro d mem
    obtain ⟨source, inside, same⟩ := fields.2 d mem
    have timely := sound.timely source inside
    rw [ContainerDef.Timely] at timely ⊢
    rw [same]
    exact timely
  · rw [fields.1]
    exact sound.few

theorem find_migrateDefs
    {change : List (CStr × Value) → Option (List (CStr × Value))}
    {name : RegistryName} {d : ContainerDef}
    {defs defs' : List ContainerDef} {any : Bool}
    (found : containerdefFind name defs = some d)
    (untouched : migrateDef change d = some (d, false))
    (migrated : migrateDefs change defs = some (defs', any)) :
    containerdefFind name defs' = some d := by
  unfold containerdefFind at found ⊢
  induction defs generalizing defs' any with
  | nil => cases found
  | cons e rest ih =>
    obtain ⟨e', later, changed, more, first, others, rfl, rfl⟩ := migrateDefs_cons migrated
    have named := (migrateDef_fields first).1
    by_cases here : e.name = name
    · have isD : e = d := by simpa [here] using found
      subst isD
      rw [untouched] at first
      cases first
      simp [here]
    · have deeper : rest.find? (fun d => decide (d.name = name)) =
          some d := by
        simpa [here] using found
      have kept := ih deeper others
      simpa [named, here] using kept

/-! ## What a change keeps -/

variable {n : RegistryName}

structure Keeps (kind : List UInt8 → Prop) (name : RegistryName)
    (s : Store) : Prop where
  sound : Sound s.defs
  memory : ∃ d, containerdefFind name s.defs = some d ∧ kind d.body
  disk : ∃ saved, s.file = some (stateText saved) ∧ Sound saved ∧
    ∃ d, containerdefFind name saved = some d ∧ kind d.body

def Settled (kind : List UInt8 → Prop) : Prop :=
  ∀ body, kind body → 0 ∉ body ∧ ∃ members, jsonParse body = some (.object members) ∧
    renameLdapLogin members = none ∧ pinUsernsAbsent members = none

section Kept

variable {kind : List UInt8 → Prop} {name : RegistryName} {s : Store}

theorem Keeps.saved (keeps : Keeps kind name s) {defs : List ContainerDef} (sound : Sound defs)
    (memory : ∃ d, containerdefFind name defs = some d ∧ kind d.body)
    (written : Bool) :
    Keeps kind name (Store.save { s with defs := defs } written) := by
  cases written with
  | true => exact ⟨sound, memory, defs, rfl, sound, memory⟩
  | false => exact ⟨sound, memory, keeps.disk⟩

theorem Keeps.update (keeps : Keeps kind name s)
    {change : ContainerDef → ContainerDef}
    (named : ∀ d, (change d).name = d.name)
    (timely : ∀ d, d.Timely → (change d).Timely)
    (apart : n = name → ∀ d, (change d).body = d.body) (written : Bool) :
    Keeps kind name (s.update n change written) := by
  unfold Store.update
  split
  · exact keeps
  · apply keeps.saved
    · exact keeps.sound.updateDef fun d mem =>
        timely d (keeps.sound.timely d mem)
    · obtain ⟨d, found, holds⟩ := keeps.memory
      rw [find_updateDef fun d isN => (named d).trans isN, found]
      by_cases same : n = name
      · refine ⟨change d, by rw [if_pos same]; rfl, ?_⟩
        rw [apart same d]
        exact holds
      · exact ⟨d, by rw [if_neg same], holds⟩

theorem Keeps.setBody (keeps : Keeps kind name s) (other : n ≠ name)
    (body : List UInt8) (written : Bool) :
    Keeps kind name (containerdefSetBody n body written s) := by
  apply keeps.update
  · exact fun _ => rfl
  · exact fun _ timely => timely
  · exact fun same => absurd same other

theorem timely_zero : (0 : Int64).toInt.natAbs ≤ 2 ^ 53 := by
  decide

theorem timely_filled {n : RegistryName} {body : List UInt8}
    {policy : Policy} {defs : List ContainerDef} (sound : Sound defs) :
    (ContainerDef.filled n body policy (containerdefFind n defs)).Timely := by
  cases found : containerdefFind n defs with
  | none => exact timely_zero
  | some d => exact sound.timely d (mem_of_find?_eq_some found)

theorem sound_append (sound : Sound defs) {d : ContainerDef} (timely : d.Timely)
    (room : defs.length < containerdefMax) : Sound (defs ++ [d]) := by
  constructor
  · intro e mem
    rcases mem_append.mp mem with old | new
    · exact sound.timely e old
    · rw [mem_singleton.mp new]
      exact timely
  · rw [length_append]
    exact room

theorem Keeps.add (keeps : Keeps kind name s) {n : RegistryName}
    (other : n ≠ name) (body : List UInt8) (policy : Policy)
    (written : Bool) :
    Keeps kind name (containerdefAdd n body policy written s).1 := by
  have timely : (ContainerDef.filled n body policy
      (containerdefFind n s.defs)).Timely := timely_filled keeps.sound
  obtain ⟨d, found, holds⟩ := keeps.memory
  unfold containerdefAdd
  cases looked : containerdefFind n s.defs with
  | some old =>
    rw [looked] at timely
    apply keeps.saved
    · exact keeps.sound.updateDef fun _ _ => timely
    · refine ⟨d, ?_, holds⟩
      have named : ∀ e : ContainerDef, e.name = n →
          (ContainerDef.filled n body policy (some old)).name = n :=
        fun _ _ => rfl
      rw [find_updateDef named, if_neg other, found]
  | none =>
    rw [looked] at timely
    simp only
    split
    next room =>
      apply keeps.saved
      · exact sound_append keeps.sound timely room
      · refine ⟨d, ?_, holds⟩
        unfold containerdefFind at found ⊢
        rw [find?_append, found]
        rfl
    next => exact keeps

theorem Keeps.remove (keeps : Keeps kind name s) (other : n ≠ name)
    (written : Bool) : Keeps kind name (containerdefRemove n written s) := by
  unfold containerdefRemove
  split
  · exact keeps
  · apply keeps.saved
    · refine ⟨?_, ?_⟩
      · intro d mem
        exact keeps.sound.timely d (mem_of_mem_eraseP mem)
      · exact le_trans (List.length_eraseP_le) keeps.sound.few
    · obtain ⟨d, found, holds⟩ := keeps.memory
      exact ⟨d, find_eraseP other found, holds⟩

theorem Keeps.migrate (keeps : Keeps kind name s) {s' : Store}
    {change : List (CStr × Value) → Option (List (CStr × Value))}
    (untouched : ∀ body, kind body → ∃ members,
      jsonParse body = some (.object members) ∧ change members = none)
    {written : Bool} (migrated : migrate change written s = some s') :
    Keeps kind name s' := by
  unfold Container.migrate at migrated
  split at migrated
  · cases migrated
  next defs any isMigrated =>
    have sound := keeps.sound.migrateDefs isMigrated
    have memory : ∃ d, containerdefFind name defs = some d ∧ kind d.body := by
      obtain ⟨d, found, holds⟩ := keeps.memory
      obtain ⟨members, parsed, nothing⟩ := untouched d.body holds
      have same : migrateDef change d = some (d, false) := by
        rw [migrateDef, parsed]
        simp only [nothing]
      exact ⟨d, find_migrateDefs found same isMigrated, holds⟩
    split at migrated
    · split at migrated
      · cases migrated
        exact keeps.saved sound memory true
      · cases migrated
    · cases migrated
      exact ⟨sound, memory, keeps.disk⟩

theorem Keeps.restart (settled : Settled kind) (keeps : Keeps kind name s)
    {ldap userns : Bool} {s' : Store}
    (up : containerdefInit ldap userns s.file = some s') :
    Keeps kind name s' := by
  obtain ⟨saved, isFile, sound, d, found, holds⟩ := keeps.disk
  have loaded : loadState s.file = some (saved.map ContainerDef.reloaded) := by
    rw [isFile]
    exact loadState_stateText sound.timely sound.few
  have fresh : Keeps kind name ⟨saved.map ContainerDef.reloaded, s.file⟩ := by
    refine ⟨sound.reloaded, ?_, keeps.disk⟩
    refine ⟨d.reloaded, by rw [find_reloaded, found]; rfl, ?_⟩
    rw [ContainerDef.reloaded, cstrAt_of_nulFree (settled d.body holds).1]
    exact holds
  rw [containerdefInit, loaded] at up
  simp only [Option.bind_eq_some_iff] at up
  obtain ⟨middle, first, second⟩ := up
  have renamed := fresh.migrate (fun body holds => by
    obtain ⟨_, members, parsed, nothing, _⟩ := settled body holds
    exact ⟨members, parsed, nothing⟩) first
  exact renamed.migrate (fun body holds => by
    obtain ⟨_, members, parsed, _, nothing⟩ := settled body holds
    exact ⟨members, parsed, nothing⟩) second

theorem Keeps.change (settled : Settled kind) (keeps : Keeps kind name s)
    {s' : Store} (change : Change (· = name) s s') : Keeps kind name s' := by
  cases change with
  | restart up => exact keeps.restart settled up
  | add n body policy written other => exact keeps.add other body policy written
  | remove n written other => exact keeps.remove other written
  | setBody n body written other => exact keeps.setBody other body written
  | patch n version written other =>
    unfold containerdefPatchImageVersion
    split
    · exact keeps
    · split
      · exact keeps
      · exact keeps.setBody other _ written
  | setStopped n stopped written =>
    apply keeps.update
    · exact fun _ => rfl
    · exact fun _ timely => timely
    · exact fun _ _ => rfl
  | setAwaitingImage n image written =>
    apply keeps.update
    · exact fun _ => rfl
    · exact fun _ timely => timely
    · exact fun _ _ => rfl
  | promotePending n policy written =>
    apply keeps.update
    · exact fun _ => rfl
    · exact fun _ timely => timely
    · exact fun _ _ => rfl
  | setRoll n source target written =>
    apply keeps.update
    · exact fun _ => rfl
    · exact fun _ _ => timely_zero
    · exact fun _ _ => rfl
  | setRollDeadline n deadline written timely =>
    unfold containerdefSetRollDeadline
    split
    · exact keeps
    · split
      · exact keeps
      · apply keeps.update
        · exact fun _ => rfl
        · exact fun _ _ => timely
        · exact fun _ _ => rfl
  | clearRoll n written =>
    unfold containerdefClearRoll
    split
    · exact keeps
    · split
      · exact keeps
      · apply keeps.update
        · exact fun _ => rfl
        · exact fun _ _ => timely_zero
        · exact fun _ _ => rfl

end Kept

/-! ## Stores that can be reached -/

structure Stored (s : Store) : Prop where
  sound : Sound s.defs
  file : ∀ text, s.file = some text → ∃ saved, text = stateText saved ∧ Sound saved

section Stored

variable {s : Store}

theorem Stored.saved (stored : Stored s) {defs : List ContainerDef}
    (sound : Sound defs) (written : Bool) :
    Stored (Store.save { s with defs := defs } written) := by
  cases written with
  | true =>
    refine ⟨sound, ?_⟩
    intro text isText
    cases isText
    exact ⟨defs, rfl, sound⟩
  | false => exact ⟨sound, stored.file⟩

theorem Stored.update (stored : Stored s) {change : ContainerDef → ContainerDef}
    (timely : ∀ d, d.Timely → (change d).Timely) (written : Bool) :
    Stored (s.update n change written) := by
  unfold Store.update
  split
  · exact stored
  · apply stored.saved
    exact stored.sound.updateDef fun d mem =>
      timely d (stored.sound.timely d mem)

theorem Stored.add (stored : Stored s) (n : RegistryName)
    (body : List UInt8) (policy : Policy) (written : Bool) :
    Stored (containerdefAdd n body policy written s).1 := by
  have timely : (ContainerDef.filled n body policy
      (containerdefFind n s.defs)).Timely := timely_filled stored.sound
  unfold containerdefAdd
  cases looked : containerdefFind n s.defs with
  | some old =>
    rw [looked] at timely
    exact stored.saved (stored.sound.updateDef fun _ _ => timely) written
  | none =>
    rw [looked] at timely
    simp only
    split
    next room => exact stored.saved (sound_append stored.sound timely room) written
    next => exact stored

theorem Stored.remove (stored : Stored s) (n : RegistryName)
    (written : Bool) : Stored (containerdefRemove n written s) := by
  unfold containerdefRemove
  split
  · exact stored
  · apply stored.saved
    refine ⟨?_, ?_⟩
    · intro d mem
      exact stored.sound.timely d (mem_of_mem_eraseP mem)
    · exact le_trans (List.length_eraseP_le) stored.sound.few

theorem Stored.migrate (stored : Stored s) {s' : Store}
    {change : List (CStr × Value) → Option (List (CStr × Value))}
    {written : Bool} (migrated : migrate change written s = some s') :
    Stored s' := by
  unfold Container.migrate at migrated
  split at migrated
  · cases migrated
  next defs any isMigrated =>
    have sound := stored.sound.migrateDefs isMigrated
    split at migrated
    · split at migrated
      · cases migrated
        exact stored.saved sound true
      · cases migrated
    · cases migrated
      exact ⟨sound, stored.file⟩

theorem Stored.restart (stored : Stored s) {ldap userns : Bool} {s' : Store}
    (up : containerdefInit ldap userns s.file = some s') : Stored s' := by
  have loaded : ∃ defs, loadState s.file = some defs ∧ Sound defs := by
    cases isFile : s.file with
    | none => exact ⟨[], rfl, by simp, Nat.zero_le _⟩
    | some text =>
      obtain ⟨saved, rfl, sound⟩ := stored.file text isFile
      exact ⟨_, loadState_stateText sound.timely sound.few, sound.reloaded⟩
  obtain ⟨defs, isLoaded, sound⟩ := loaded
  rw [containerdefInit, isLoaded] at up
  simp only [Option.bind_eq_some_iff] at up
  obtain ⟨middle, first, second⟩ := up
  have fresh : Stored ⟨defs, s.file⟩ := ⟨sound, stored.file⟩
  exact (fresh.migrate first).migrate second

theorem Stored.change (stored : Stored s) {spared : RegistryName → Prop}
    {s' : Store} (change : Change spared s s') : Stored s' := by
  cases change with
  | restart up => exact stored.restart up
  | add n body policy written other => exact stored.add n body policy written
  | remove n written other => exact stored.remove n written
  | setBody n body written other =>
    apply stored.update
    exact fun _ timely => timely
  | patch n version written other =>
    unfold containerdefPatchImageVersion
    split
    · exact stored
    · split
      · exact stored
      · apply stored.update
        exact fun _ timely => timely
  | setStopped n stopped written =>
    apply stored.update
    exact fun _ timely => timely
  | setAwaitingImage n image written =>
    apply stored.update
    exact fun _ timely => timely
  | promotePending n policy written =>
    apply stored.update
    exact fun _ timely => timely
  | setRoll n source target written =>
    apply stored.update
    exact fun _ _ => timely_zero
  | setRollDeadline n deadline written timely =>
    unfold containerdefSetRollDeadline
    split
    · exact stored
    · split
      · exact stored
      · apply stored.update
        exact fun _ _ => timely
  | clearRoll n written =>
    unfold containerdefClearRoll
    split
    · exact stored
    · split
      · exact stored
      · apply stored.update
        exact fun _ _ => timely_zero

end Stored

inductive Reachable : Store → Prop
  | fresh : Reachable ⟨[], none⟩
  | changed {s s' : Store} (before : Reachable s)
      (change : Change (fun _ => False) s s') : Reachable s'

theorem Reachable.stored {s : Store} (reachable : Reachable s) : Stored s := by
  induction reachable with
  | fresh =>
    refine ⟨⟨by simp, Nat.zero_le _⟩, ?_⟩
    intro text isText
    cases isText
  | changed _ change ih => exact ih.change change

/-! ## The life of a definition -/

inductive Waits (name : RegistryName) (rendered : CStr) : Store → Prop
  | marked {s : Store} (image : BoundedStr 64) (before : Reachable s)
      (added : (containerdefAdd name rendered.bytes pendingPolicy true s).2 = true) :
      Waits name rendered (deploymentMarkPending name image rendered s)
  | changed {s s' : Store} (before : Waits name rendered s)
      (change : Change (· = name) s s') : Waits name rendered s'

inductive Way where
  | direct
  | deployment
  deriving DecidableEq, Repr

/-- The store after a creation, patches of the version and changes that have another
object, with the last version. -/
inductive Lives (body : List UInt8) (entry : Incarnation) :
    Way → RegistryName → ImageVersion → Store → Prop
  | created {host : Host} {s s' : Store} (before : Reachable s)
      (creates : createContainerPersisted host body true s = some (entry, s', true)) :
      Lives body entry .direct entry.name entry.imageVersion s'
  | deployed {host : Host} {name : RegistryName} {rendered : CStr}
      {s s' : Store} {promoted patched : Bool} (isBody : body = rendered.bytes)
      (before : Waits name rendered s)
      (creates : applyPendingDeployment host name promoted patched s = some (entry, s')) :
      Lives body entry .deployment name entry.imageVersion s'
  | patched {way : Way} {name : RegistryName} {version next : ImageVersion}
      {s s' : Store} (before : Lives body entry way name version s)
      (patch : containerdefPatchImageVersion name next.str true s =
        (s', true)) :
      Lives body entry way name next s'
  | changed {way : Way} {name : RegistryName} {version : ImageVersion}
      {s s' : Store} (before : Lives body entry way name version s)
      (change : Change (· = name) s s') :
      Lives body entry way name version s'

def persistedMembers (way : Way) (members : List (CStr × Value))
    (entry : Incarnation) : List (CStr × Value) :=
  match way with
  | .direct => members ++ (versionKey, .string entry.imageVersion.str) ::
      usernsMember (findMember usernsKey members).isSome entry.userns
  | .deployment => members

def SpellsPins (way : Way) (body : List UInt8) (members : List (CStr × Value)) : Prop :=
  0 ∉ body ∧ match way with
    | .direct => LeavesPin body members ∨ BringsPin body
    | .deployment => BringsPin body ∧ (∃ m ∈ members, m.1 = usernsKey) ∧
        ∀ m ∈ members, m.1 ≠ "ldap_login"

def ReadsPins (all : List (CStr × Value)) (entry : Incarnation)
    (version : ImageVersion) (body : List UInt8) : Prop :=
  (∃ value : CStr, value.truncate 65 = version.str ∧ jsonParse body =
      some (.object (setMember versionKey (.string value) all))) ∧
  (∀ host image, resolveImageVersion host image
    (asString (objectGet (jsonParse body) "image_version")) = some version) ∧
  ∀ host, definitionUserns host (objectGet (jsonParse body) "userns") = entry.userns

def Replays (all : List (CStr × Value)) (entry : Incarnation)
    (name : RegistryName) (version : ImageVersion) (s : Store) : Prop :=
  (∃ d, containerdefFind name s.defs = some d ∧ ReadsPins all entry version d.body) ∧
  ∃ defs d, loadState s.file = some defs ∧ containerdefFind name defs = some d ∧
    ReadsPins all entry version d.body

/-! ## Members that a restart leaves alone -/

variable {members all : List (CStr × Value)}

structure Stays (all : List (CStr × Value)) : Prop where
  named : ∀ m ∈ all, m.1 ≠ "ldap_login"
  pinned : ∃ m ∈ all, m.1 = usernsKey

theorem keys_setMember (key : CStr) (value : Value) (members : List (CStr × Value)) :
    (setMember key value members).map Prod.fst = members.map Prod.fst := by
  induction members with
  | nil => rfl
  | cons m rest ih =>
    rw [setMember]
    split
    next here => rw [map_cons, map_cons, here]
    next => rw [map_cons, map_cons, ih]

theorem Stays.unchanged (stays : Stays all) (keys : members.map Prod.fst = all.map Prod.fst) :
    renameLdapLogin members = none ∧ pinUsernsAbsent members = none := by
  have same : ∀ key : CStr, (members.any fun m => m.1 = key) = true ↔ ∃ m ∈ all, m.1 = key := by
    intro key
    have inKeys : (members.any fun m => m.1 = key) = true ↔ key ∈ members.map Prod.fst := by
      simp only [any_eq_true, decide_eq_true_eq, mem_map]
    rw [inKeys, keys, mem_map]
  constructor
  · rw [renameLdapLogin, if_neg]
    rw [same]
    rintro ⟨m, mem, isLogin⟩
    exact stays.named m mem isLogin
  · rw [pinUsernsAbsent, if_pos]
    exact (same _).mpr stays.pinned

theorem Stays.settled (stays : Stays all) (version : ImageVersion) :
    Settled (Pinned all version) := by
  intro body pinned
  obtain ⟨nulFree, _, _, _, _, value, _, _, _, parsed⟩ := pinned
  exact ⟨nulFree, _, parsed, stays.unchanged (keys_setMember _ _ all)⟩

theorem Stays.settledBody (stays : Stays all) {body : List UInt8}
    (nulFree : 0 ∉ body) (parsed : jsonParse body = some (.object all)) :
    Settled (· = body) := by
  rintro other rfl
  exact ⟨nulFree, all, parsed, stays.unchanged rfl⟩

def FixesUserns (all : List (CStr × Value)) (userns : Bool) : Prop :=
  ∃ value, findMember usernsKey all = some value ∧ isTrue (some value) = userns

theorem definitionUserns_of_found {value : Value}
    (found : findMember usernsKey members = some value) {host : Host}
    {userns : Bool}
    (read : userns = definitionUserns host (findMember usernsKey members)) :
    isTrue (some value) = userns := by
  rw [read, found, definitionUserns]

theorem findMember_of_key {key : CStr} {members : List (CStr × Value)}
    (present : ∃ m ∈ members, m.1 = key) :
    ∃ value, findMember key members = some value := by
  induction members with
  | nil =>
    obtain ⟨m, mem, _⟩ := present
    cases mem
  | cons m rest ih =>
    rw [findMember]
    split
    · exact ⟨m.2, rfl⟩
    next other =>
      apply ih
      obtain ⟨n, mem, isKey⟩ := present
      rcases mem_cons.mp mem with rfl | later
      · exact absurd isKey other
      · exact ⟨n, later, isKey⟩

theorem key_of_findMember {key : CStr} {members : List (CStr × Value)}
    {value : Value} (found : findMember key members = some value) :
    ∃ m ∈ members, m.1 = key := by
  induction members with
  | nil => cases found
  | cons m rest ih =>
    rw [findMember] at found
    split at found
    next here => exact ⟨m, mem_cons_self, here⟩
    next =>
      obtain ⟨n, mem, isKey⟩ := ih found
      exact ⟨n, mem_cons_of_mem m mem, isKey⟩

/-! ## Creations -/

theorem createContainerFromBody_read {host : Host} {body : List UInt8}
    {entry : Incarnation} (parsed : jsonParse body = some (.object members))
    (creates : createContainerFromBody host body = some entry) :
    members ≠ [] ∧
    resolveImageVersion host entry.image (asString
      (objectGet (jsonParse body) "image_version")) = some entry.imageVersion ∧
    entry.userns = definitionUserns host (findMember usernsKey members) := by
  rw [createContainerFromBody, parsed] at creates
  simp only at creates
  split at creates
  next name image isName isImage =>
    split at creates
    · cases creates
    next version resolved =>
      split at creates
      · cases creates
        rw [parsed]
        refine ⟨?_, resolved, rfl⟩
        rintro rfl
        cases isImage
      · cases creates
  next => cases creates

theorem Keeps.added {kind : List UInt8 → Prop} {s s' : Store}
    {n : RegistryName} {body : List UInt8} {policy : Policy}
    (stored : Stored s) (holds : kind body)
    (added : containerdefAdd n body policy true s = (s', true)) :
    Keeps kind n s' := by
  have timely : (ContainerDef.filled n body policy
      (containerdefFind n s.defs)).Timely := timely_filled stored.sound
  have fresh : ∀ defs, Sound defs →
      containerdefFind n defs = some (ContainerDef.filled n body policy
        (containerdefFind n s.defs)) →
      Keeps kind n (Store.save { s with defs := defs } true) := by
    intro defs sound found
    exact ⟨sound, ⟨_, found, holds⟩, defs, rfl, sound, _, found, holds⟩
  unfold containerdefAdd at added
  cases looked : containerdefFind n s.defs with
  | some old =>
    rw [looked] at added timely fresh
    cases added
    apply fresh
    · exact stored.sound.updateDef fun _ _ => timely
    · have named : ∀ e : ContainerDef, e.name = n →
          (ContainerDef.filled n body policy (some old)).name = n :=
        fun _ _ => rfl
      rw [find_updateDef named, if_pos rfl, looked]
      rfl
  | none =>
    rw [looked] at added timely fresh
    simp only at added
    split at added
    next room =>
      cases added
      apply fresh
      · exact sound_append stored.sound timely room
      · unfold containerdefFind at looked ⊢
        rw [find?_append, looked]
        simp [ContainerDef.filled]
    next => cases added

theorem Keeps.ownBody {kind other : List UInt8 → Prop}
    {name : RegistryName} {s : Store} (keeps : Keeps kind name s)
    {body : List UInt8} (holds : other body) (written : Bool)
    (durable : written = false → ∀ b, kind b → other b) :
    Keeps other name (containerdefSetBody name body written s) := by
  obtain ⟨d, found, _⟩ := keeps.memory
  have sound : Sound (updateDef name (fun d => { d with body := body }) s.defs) :=
    keeps.sound.updateDef fun e mem => keeps.sound.timely e mem
  have memory : ∃ d, containerdefFind name (updateDef name
      (fun d => { d with body := body }) s.defs) = some d ∧ other d.body := by
    have named : ∀ e : ContainerDef, e.name = name →
        ({ e with body := body } : ContainerDef).name = name :=
      fun _ isName => isName
    rw [find_updateDef named, if_pos rfl, found]
    exact ⟨_, rfl, holds⟩
  unfold containerdefSetBody Store.update
  rw [found]
  cases written with
  | true => exact ⟨sound, memory, _, rfl, sound, memory⟩
  | false =>
    refine ⟨sound, memory, ?_⟩
    obtain ⟨saved, isFile, soundSaved, e, foundSaved, holdsSaved⟩ := keeps.disk
    exact ⟨saved, isFile, soundSaved, e, foundSaved, durable rfl e.body holdsSaved⟩

theorem Keeps.mono {kind other : List UInt8 → Prop} {name : RegistryName}
    {s : Store} (keeps : Keeps kind name s) (more : ∀ b, kind b → other b) :
    Keeps other name s := by
  obtain ⟨sound, ⟨d, found, holds⟩, saved, isFile, soundSaved, e, foundSaved, holdsSaved⟩ := keeps
  exact ⟨sound, ⟨d, found, more _ holds⟩, saved, isFile, soundSaved, e,
    foundSaved, more _ holdsSaved⟩

/-! ## Runs -/

theorem Waits.keeps {name : RegistryName} {rendered : CStr} {s : Store}
    (settled : Settled (· = rendered.bytes))
    (waits : Waits name rendered s) : Keeps (· = rendered.bytes) name s := by
  induction waits with
  | @marked s image before added =>
    have fresh : Keeps (· = rendered.bytes) name
        (containerdefAdd name rendered.bytes pendingPolicy true s).1 :=
      Keeps.added before.stored rfl (Prod.ext rfl added)
    exact fresh.change settled (.setAwaitingImage _ name image true)
  | changed _ change ih => exact ih.change settled change

theorem Keeps.patched {all : List (CStr × Value)} {name : RegistryName}
    {version next : ImageVersion} {s : Store} {written : Bool}
    (keeps : Keeps (Pinned all version) name s)
    (durable : written = true ∨ version = next) :
    Keeps (Pinned all next) name
      (containerdefPatchImageVersion name next.str written s).1 := by
  obtain ⟨d, found, pinned⟩ := keeps.memory
  obtain ⟨body, patches, repinned⟩ := pinned.patch next
  rw [containerdefPatchImageVersion, found]
  simp only [patches]
  apply keeps.ownBody repinned
  intro unwritten b pinnedBefore
  rcases durable with isWritten | same
  · rw [isWritten] at unwritten
    cases unwritten
  · rw [← same]
    exact pinnedBefore

theorem stays_direct {entry : Incarnation}
    (known : containerBodyUnknownKey (some (.object members)) = none) :
    Stays (persistedMembers .direct members entry) := by
  have others : ∀ m ∈ members, m.1 ≠ "ldap_login" := by
    intro m mem isLogin
    rw [containerBodyUnknownKey, find?_eq_none] at known
    have isKnown := known m.1 (mem_map_of_mem mem)
    rw [isLogin] at isKnown
    exact isKnown (by decide)
  constructor
  · intro m mem
    simp only [persistedMembers, mem_append, mem_cons] at mem
    rcases mem with old | rfl | new
    · exact others m old
    · exact (by decide : versionKey ≠ "ldap_login")
    · rw [usernsMember] at new
      split at new
      · cases new
      · rw [mem_singleton.mp new]
        exact (by decide : usernsKey ≠ "ldap_login")
  · simp only [persistedMembers]
    cases found : findMember usernsKey members with
    | some value =>
      obtain ⟨m, mem, isKey⟩ := key_of_findMember found
      exact ⟨m, mem_append_left _ mem, isKey⟩
    | none =>
      refine ⟨(usernsKey, .bool entry.userns), ?_, rfl⟩
      simp [usernsMember]

theorem findMember_append (key : CStr) (members later : List (CStr × Value)) :
    findMember key (members ++ later) = (findMember key members).or (findMember key later) := by
  induction members with
  | nil => rfl
  | cons m rest ih =>
    rw [cons_append, findMember, findMember]
    split
    · rfl
    · exact ih

theorem fixesUserns_direct {members : List (CStr × Value)}
    {entry : Incarnation} {host : Host}
    (read : entry.userns = definitionUserns host (findMember usernsKey members)) :
    FixesUserns (persistedMembers .direct members entry) entry.userns := by
  unfold FixesUserns
  simp only [persistedMembers, findMember_append]
  cases found : findMember usernsKey members with
  | some value => exact ⟨value, rfl, definitionUserns_of_found found read⟩
  | none =>
    have other : versionKey ≠ usernsKey := by decide
    refine ⟨.bool entry.userns, ?_, rfl⟩
    simp [usernsMember, findMember, other]

theorem Lives.keeps {body : List UInt8} {members : List (CStr × Value)}
    {entry : Incarnation} {way : Way} {name : RegistryName}
    {version : ImageVersion} {s : Store}
    (parsed : jsonParse body = some (.object members))
    (spelled : SpellsPins way body members)
    (lives : Lives body entry way name version s) :
    Stays (persistedMembers way members entry) ∧
    FixesUserns (persistedMembers way members entry) entry.userns ∧
    Keeps (Pinned (persistedMembers way members entry) version) name s := by
  induction lives with
  | @created host s s' before creates =>
    unfold createContainerPersisted at creates
    rw [parsed] at creates
    simp only at creates
    split at creates
    · cases creates
    next known =>
      split at creates
      · cases creates
      next made isMade =>
        simp only [Option.some.injEq, Prod.mk.injEq] at creates
        obtain ⟨rfl, added⟩ := creates
        obtain ⟨nonempty, resolved, userns⟩ := createContainerFromBody_read parsed isMade
        refine ⟨stays_direct known, fixesUserns_direct userns, ?_⟩
        refine Keeps.added before.stored ?_ added
        exact splicePins_pinned _ made.userns spelled.1 parsed nonempty resolved spelled.2
  | @deployed host name rendered s s' promoted patched isBody before
      creates =>
      obtain ⟨nulFree, brings, pinned, named⟩ := spelled
      have stays : Stays members := ⟨named, pinned⟩
      subst isBody
      have waiting := before.keeps (stays.settledBody nulFree parsed)
      obtain ⟨d, found, isText⟩ := waiting.memory
      unfold applyPendingDeployment at creates
      rw [found] at creates
      simp only [isText] at creates
      split at creates
      · cases creates
      next made isMade =>
        simp only [Option.some.injEq, Prod.mk.injEq] at creates
        obtain ⟨rfl, rfl⟩ := creates
        obtain ⟨_, resolved, userns⟩ := createContainerFromBody_read parsed isMade
        have pins : Pinned members made.imageVersion rendered.bytes :=
          brings.pinned nulFree parsed resolved
        have kept : Keeps (Pinned members made.imageVersion) name s :=
          waiting.mono fun b isBody => isBody ▸ pins
        have promotedKeeps := kept.change (stays.settled _)
          (.promotePending s name made.policy promoted)
        obtain ⟨value, foundUserns⟩ := findMember_of_key pinned
        exact ⟨stays, ⟨value, foundUserns, definitionUserns_of_found foundUserns userns⟩,
          promotedKeeps.patched (Or.inr rfl)⟩
  | @patched way name version next s s' _ patch ih =>
    obtain ⟨stays, userns, kept⟩ := ih spelled
    refine ⟨stays, userns, ?_⟩
    have done : Keeps (Pinned (persistedMembers way members entry) next)
        name (containerdefPatchImageVersion name next.str true s).1 :=
      kept.patched (Or.inl rfl)
    rw [patch] at done
    exact done
  | changed _ change ih =>
    obtain ⟨stays, userns, kept⟩ := ih spelled
    exact ⟨stays, userns, kept.change (stays.settled _) change⟩

theorem Pinned.readsPins {entry : Incarnation} {version : ImageVersion}
    {body : List UInt8} (pinned : Pinned all version body)
    (userns : FixesUserns all entry.userns) :
    ReadsPins all entry version body := by
  refine ⟨?_, pinned.version, ?_⟩
  · obtain ⟨_, _, _, _, _, value, _, fits, _, parsed⟩ := pinned
    exact ⟨value, fits, parsed⟩
  · intro host
    obtain ⟨value, found, isMode⟩ := userns
    have other : "userns" ≠ versionKey := by decide
    have read : objectGet (jsonParse body) "userns" = some value := by
      rw [pinned.member other]
      exact found
    rw [read, definitionUserns, isMode]

/-- A definition replays the container that was created, at the version of the
last patch, if its request spells the pins where both look for them. -/
theorem definition_replays {body : List UInt8}
    {members : List (CStr × Value)} {entry : Incarnation} {way : Way}
    {name : RegistryName} {version : ImageVersion} {s : Store}
    (parsed : jsonParse body = some (.object members))
    (spelled : SpellsPins way body members)
    (lives : Lives body entry way name version s) :
    Replays (persistedMembers way members entry) entry name version s := by
  obtain ⟨stays, userns, sound, memory, disk⟩ := lives.keeps parsed spelled
  constructor
  · obtain ⟨d, found, pinned⟩ := memory
    exact ⟨d, found, pinned.readsPins userns⟩
  · obtain ⟨saved, isFile, soundSaved, d, found, pinned⟩ := disk
    refine ⟨saved.map ContainerDef.reloaded, d.reloaded, ?_, ?_, ?_⟩
    · rw [isFile]
      exact loadState_stateText soundSaved.timely soundSaved.few
    · rw [find_reloaded, found]
      rfl
    · rw [ContainerDef.reloaded, cstrAt_of_nulFree pinned.1]
      exact pinned.readsPins userns

/-! ## A request without pins -/

def firstVersion : ImageVersion :=
  ⟨"v1", by decide, by decide, by decide +kernel⟩

def secondVersion : ImageVersion :=
  ⟨"v2", by decide, by decide, by decide +kernel⟩

def hostAt (version : ImageVersion) : Host where
  usernsDefault := true
  imageCurrentVersion := fun _ => some version
  rootfsExists := fun _ _ => true
  admits := fun _ => true
  policy := fun _ => pendingPolicy

def webDoc : Doc :=
  .obj [("name", .str "web"), ("image", .str "base")]

def webBody : List UInt8 := webDoc.text

def webMembers : List (CStr × Value) :=
  [("name", .string "web"), ("image", .string "base")]

def webName : RegistryName :=
  ⟨⟨"web", by decide⟩, by decide⟩

theorem webBody_parse : jsonParse webBody = some (.object webMembers) := by
  rw [webBody, jsonParse_text]
  simp [webDoc, webMembers, Doc.value, Doc.memberValues]

/-- Created directly, the container is replayed as it was created. -/
theorem definition_replays_web : ∃ entry s, Lives webBody entry .direct entry.name firstVersion s ∧
      Replays (persistedMembers .direct webMembers entry) entry entry.name
        firstVersion s := by
  have made : ((createContainerPersisted (hostAt firstVersion) webBody true
      ⟨[], none⟩).map fun r => (r.1.imageVersion, r.2.2)) = some (firstVersion, true) := by
    decide +kernel
  obtain ⟨⟨entry, s, written⟩, creates, isPair⟩ := Option.map_eq_some_iff.mp made
  simp only [Prod.mk.injEq] at isPair
  obtain ⟨isVersion, rfl⟩ := isPair
  have lives : Lives webBody entry .direct entry.name entry.imageVersion s :=
    .created .fresh creates
  rw [isVersion] at lives
  have spelled : SpellsPins .direct webBody webMembers :=
    ⟨by decide, Or.inl ⟨by decide +kernel, by decide⟩⟩
  exact ⟨entry, s, lives, definition_replays webBody_parse spelled lives⟩

/-- Created after a wait, it is replayed at whatever version is current. -/
theorem waitedDeployment_not_replays :
    ∃ entry s, Lives webBody entry .deployment webName firstVersion s ∧
      ¬ Replays (persistedMembers .deployment webMembers entry) entry webName
        firstVersion s := by
  have waits : Waits webName ⟨webBody, by decide⟩
      (deploymentMarkPending webName (emptyStr (by decide)) ⟨webBody, by decide⟩ ⟨[], none⟩) :=
    .marked _ .fresh (by decide +kernel)
  have made : ((applyPendingDeployment (hostAt firstVersion) webName true true
      (deploymentMarkPending webName (emptyStr (by decide))
        ⟨webBody, by decide⟩ ⟨[], none⟩)).map fun r => (r.1.imageVersion,
          (containerdefFind webName r.2.defs).map ContainerDef.body)) =
            some (firstVersion, some webBody) := by
    decide +kernel
  obtain ⟨⟨entry, s⟩, creates, isPair⟩ := Option.map_eq_some_iff.mp made
  simp only [Prod.mk.injEq] at isPair
  obtain ⟨isVersion, isBody⟩ := isPair
  have lives : Lives webBody entry .deployment webName entry.imageVersion s :=
    .deployed rfl waits creates
  rw [isVersion] at lives
  refine ⟨entry, s, lives, ?_⟩
  rintro ⟨⟨d, found, _, reads, _⟩, _⟩
  rw [found, Option.map_some, Option.some.injEq] at isBody
  have current := reads (hostAt secondVersion) CStr.empty
  rw [isBody] at current
  exact absurd current (by decide +kernel)

end Cix.Container
