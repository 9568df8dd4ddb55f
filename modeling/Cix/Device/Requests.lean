import Cix.Device.Exclusive

/-!
# What a granted request changes

A request that is granted adds one claim and takes away at most reservations
of its own container.
-/

namespace Cix.Device

open Cix.Lib List

def grantOf (r : Request) : Claim := deviceGrant r.container (r.id, r.shared)

structure Adds (r : Request) (change : Entry → Entry) : Prop where
  name : ∀ e, (change e).name = e.name
  running : ∀ e, (change e).running = e.running
  pending : ∀ e, (change e).pending = e.pending
  grants : ∀ e, e.name = r.container → ∀ c, c ∈ (change e).grants ↔ c ∈ e.grants ∨ c = grantOf r

theorem adds_device (r : Request) : Adds r fun e =>
      { e with devices := e.devices ++ [(r.id, r.shared)] } where
  name _ := rfl
  running _ := rfl
  pending _ := rfl
  grants e same c := by
    simp only [Entry.grants, grantOf, ← same, map_append, mem_append, map_singleton, mem_singleton]
    tauto

theorem adds_interface {container id : CStr} {held : HeldInterface} (same : held.id = id) :
    Adds ⟨container, id, false⟩ fun e =>
      { e with interfaces := e.interfaces ++ [held] } where
  name _ := rfl
  running _ := rfl
  pending _ := rfl
  grants e named c := by
    have claim : interfaceGrant e.name held = grantOf ⟨container, id, false⟩ := by
      rw [interfaceGrant, same, named]
      rfl
    simp only [Entry.grants, map_append, mem_append, map_singleton, mem_singleton, claim]
    tauto

variable {s : State} {name : CStr} {change : Entry → Entry} {e : Entry}

theorem runs_of_mem (mem : e ∈ s.entries) (running : e.running = true) : s.runs e.name = true :=
  any_eq_true.mpr ⟨e, mem, by simp [running]⟩

@[simp]
theorem definitions_hold : (s.hold name change).definitions = s.definitions := by
  unfold State.hold
  split <;> rfl

theorem hold_cases (mem : e ∈ (s.hold name change).entries) (running : e.running = true) :
    (e ∈ s.entries ∧ e.name ≠ name) ∨ ∃ old, (old ∈ s.entries ∧ old.running = true ∨
        old = Entry.started name) ∧ old.name = name ∧ e = change old := by
  unfold State.hold at mem
  split at mem
  · obtain ⟨old, inList, rfl⟩ := mem_map.mp mem
    by_cases here : (old.running && decide (old.name = name)) = true
    · rw [if_pos here]
      simp only [Bool.and_eq_true, decide_eq_true_eq] at here
      exact Or.inr ⟨old, Or.inl ⟨inList, here.1⟩, here.2, rfl⟩
    · rw [if_neg here] at running ⊢
      refine Or.inl ⟨inList, ?_⟩
      simpa [running] using here
  · rcases mem_append.mp mem with other | new
    · obtain ⟨inList, different⟩ := mem_filter.mp other
      exact Or.inl ⟨inList, of_decide_eq_true different⟩
    · exact Or.inr ⟨Entry.started name, Or.inr rfl, rfl, mem_singleton.mp new⟩

theorem hold_keeps (mem : e ∈ s.entries) (different : e.name ≠ name) :
    e ∈ (s.hold name change).entries := by
  unfold State.hold
  split
  · exact mem_map.mpr ⟨e, mem, by simp [different]⟩
  · exact mem_append_left _ (mem_filter.mpr ⟨mem, decide_eq_true different⟩)

theorem hold_changes (mem : e ∈ s.entries) (running : e.running = true)
    (same : e.name = name) : change e ∈ (s.hold name change).entries := by
  have runs := runs_of_mem mem running
  rw [same] at runs
  unfold State.hold
  rw [if_pos runs]
  exact mem_map.mpr ⟨e, mem, by simp [running, same]⟩

theorem exists_held (s : State) (name : CStr) (change : Entry → Entry) :
    ∃ e, e.name = name ∧ e.running = true ∧
      change e ∈ (s.hold name change).entries := by
  cases runs : s.runs name with
  | true =>
    obtain ⟨e, mem, here⟩ := any_eq_true.mp runs
    simp only [Bool.and_eq_true, decide_eq_true_eq] at here
    exact ⟨e, here.2, here.1, hold_changes mem here.1 here.2⟩
  | false =>
    refine ⟨Entry.started name, rfl, rfl, ?_⟩
    simp [State.hold, runs]

variable {host : Host} {r : Request} {c : Claim}

theorem mem_entryClaims (running : e.running = true) :
    c ∈ entryClaims host e ↔ c ∈ e.grants ∨ c ∈ e.pending.flatMap fun ref =>
        claimReference host e.name ref false := by
  rw [entryClaims, if_pos running, mem_append]

theorem runs_hold (adds : Adds r change) {n : CStr} :
    (s.hold r.container change).runs n = true ↔ s.runs n = true ∨ n = r.container := by
  constructor
  · intro runs
    obtain ⟨e, mem, here⟩ := any_eq_true.mp runs
    simp only [Bool.and_eq_true, decide_eq_true_eq] at here
    rcases hold_cases mem here.1 with ⟨old, _⟩ | ⟨old, _, named, rfl⟩
    · exact Or.inl (here.2 ▸ runs_of_mem old here.1)
    · right
      rw [← here.2, adds.name, named]
  · rintro (runs | rfl)
    · obtain ⟨e, mem, here⟩ := any_eq_true.mp runs
      simp only [Bool.and_eq_true, decide_eq_true_eq] at here
      by_cases same : e.name = r.container
      · have kept := runs_of_mem (@hold_changes s _ change e mem here.1 same)
          (by rw [adds.running, here.1])
        rwa [adds.name, here.2] at kept
      · have kept := runs_of_mem (@hold_keeps s _ change e mem same) here.1
        rwa [here.2] at kept
    · obtain ⟨e, named, running, mem⟩ := exists_held s r.container change
      have kept := runs_of_mem mem (by rw [adds.running, running])
      rwa [adds.name, named] at kept

def State.held (s : State) : List Claim :=
  s.entries.flatMap fun e => if e.running then e.grants else []

theorem mem_held : c ∈ s.held ↔ ∃ e ∈ s.entries, e.running = true ∧ c ∈ e.grants := by
  simp only [State.held, mem_flatMap]
  constructor
  · rintro ⟨e, mem, inGrants⟩
    cases running : e.running with
    | true => exact ⟨e, mem, running, by simpa [running] using inGrants⟩
    | false => simp [running] at inGrants
  · rintro ⟨e, mem, running, inGrants⟩
    exact ⟨e, mem, by simpa [running] using inGrants⟩

theorem held_hold (adds : Adds r change) (holds : c ∈ (s.hold r.container change).held) :
    c ∈ s.held ∨ c = grantOf r := by
  obtain ⟨e, mem, running, inGrants⟩ := mem_held.mp holds
  rcases hold_cases mem running with ⟨old, _⟩ | ⟨old, from_, named, rfl⟩
  · exact Or.inl (mem_held.mpr ⟨e, old, running, inGrants⟩)
  · rcases (adds.grants old named c).mp inGrants with before | new
    · rcases from_ with ⟨inList, ran⟩ | rfl
      · exact Or.inl (mem_held.mpr ⟨old, inList, ran, before⟩)
      · cases before
    · exact Or.inr new

theorem held_claims (holds : c ∈ s.held) : c ∈ claimsOf host s := by
  obtain ⟨e, mem, running, inGrants⟩ := mem_held.mp holds
  apply mem_append_left
  exact mem_flatMap.mpr ⟨e, mem, (mem_entryClaims running).mpr (Or.inl inGrants)⟩

theorem kind_of_held (holds : c ∈ s.held) : c.kind = .grant := by
  obtain ⟨e, _, _, inGrants⟩ := mem_held.mp holds
  rcases mem_append.mp inGrants with device | interface
  · obtain ⟨_, _, rfl⟩ := mem_map.mp device
    rfl
  · obtain ⟨_, _, rfl⟩ := mem_map.mp interface
    rfl

theorem mem_pending {change : Entry → Entry} (adds : Adds r change)
    (waiting : c ∈ (change e).pending.flatMap fun ref =>
      claimReference host (change e).name ref false) :
    c ∈ e.pending.flatMap fun ref => claimReference host e.name ref false := by
  rwa [adds.pending, adds.name] at waiting

theorem claims_hold (adds : Adds r change)
    (claims : c ∈ claimsOf host (s.hold r.container change)) :
    c ∈ claimsOf host s ∨ c = grantOf r := by
  rcases mem_append.mp claims with live | stopped
  · obtain ⟨e, mem, inEntry⟩ := mem_flatMap.mp live
    cases running : e.running with
    | false =>
      rw [entryClaims, running] at inEntry
      cases inEntry
    | true =>
      rcases (mem_entryClaims running).mp inEntry with grant | waiting
      · rcases held_hold adds (mem_held.mpr ⟨e, mem, running, grant⟩)
          with before | new
        · exact Or.inl (held_claims before)
        · exact Or.inr new
      · left
        apply mem_append_left
        rcases hold_cases mem running with
          ⟨old, _⟩ | ⟨old, from_, named, rfl⟩
        · exact mem_flatMap.mpr ⟨e, old, inEntry⟩
        · have before := mem_pending adds waiting
          rcases from_ with ⟨inList, ran⟩ | rfl
          · exact mem_flatMap.mpr ⟨old, inList, (mem_entryClaims ran).mpr (Or.inr before)⟩
          · cases before
  · left
    obtain ⟨defn, mem, inDefn⟩ := mem_flatMap.mp stopped
    obtain ⟨defined, notRunning⟩ := mem_filter.mp mem
    rw [definitions_hold] at defined
    apply mem_append_right
    refine mem_flatMap.mpr ⟨defn, mem_filter.mpr ⟨defined, ?_⟩, inDefn⟩
    cases before : s.runs defn.name with
    | false => rfl
    | true =>
      rw [(runs_hold adds).mpr (Or.inl before)] at notRunning
      cases notRunning

theorem of_mem_claimReference {container ref : CStr} {binding : Bool}
    (mem : c ∈ claimReference host container ref binding) :
    c.container = container ∧ c.kind = .reservation := by
  obtain ⟨_, _, rfl⟩ := mem_map.mp mem
  exact ⟨rfl, rfl⟩

theorem of_mem_claimDefinition {defn : Definition} (mem : c ∈ claimDefinition host defn) :
    c.container = defn.name ∧ c.kind = .reservation := by
  rcases mem_append.mp mem with device | interface
  · obtain ⟨_, _, inRef⟩ := mem_flatMap.mp device
    exact of_mem_claimReference inRef
  · obtain ⟨_, _, named⟩ := mem_filterMap.mp interface
    obtain ⟨_, _, rfl⟩ := Option.map_eq_some_iff.mp named
    exact ⟨rfl, rfl⟩

theorem claims_kept (adds : Adds r change) (claims : c ∈ claimsOf host s) :
    c ∈ claimsOf host (s.hold r.container change) ∨
      (c.container = r.container ∧ c.kind = .reservation) := by
  rcases mem_append.mp claims with live | stopped
  · left
    apply mem_append_left
    obtain ⟨e, mem, inEntry⟩ := mem_flatMap.mp live
    cases running : e.running with
    | false =>
      rw [entryClaims, running] at inEntry
      cases inEntry
    | true =>
      by_cases same : e.name = r.container
      · refine mem_flatMap.mpr ⟨change e, hold_changes mem running same, ?_⟩
        rw [mem_entryClaims (by rw [adds.running, running])]
        rcases (mem_entryClaims running).mp inEntry with grant | waiting
        · exact Or.inl ((adds.grants e same c).mpr (Or.inl grant))
        · right
          rwa [adds.pending, adds.name]
      · exact mem_flatMap.mpr ⟨e, hold_keeps mem same, inEntry⟩
  · obtain ⟨defn, mem, inDefn⟩ := mem_flatMap.mp stopped
    obtain ⟨defined, notRunning⟩ := mem_filter.mp mem
    obtain ⟨named, kind⟩ := of_mem_claimDefinition inDefn
    by_cases same : defn.name = r.container
    · exact Or.inr ⟨named.trans same, kind⟩
    · left
      apply mem_append_right
      refine mem_flatMap.mpr ⟨defn, mem_filter.mpr ⟨definitions_hold.symm ▸ defined, ?_⟩, inDefn⟩
      cases after : (s.hold r.container change).runs defn.name with
      | false => rfl
      | true =>
        rcases (runs_hold adds).mp after with before | here
        · rw [before] at notRunning
          cases notRunning
        · exact absurd here same

theorem grantOf_claims (adds : Adds r change) :
    grantOf r ∈ claimsOf host (s.hold r.container change) := by
  obtain ⟨e, named, running, mem⟩ := exists_held s r.container change
  apply held_claims
  refine mem_held.mpr ⟨change e, mem, by rw [adds.running, running], ?_⟩
  exact (adds.grants e named _).mpr (Or.inr rfl)

end Cix.Device
