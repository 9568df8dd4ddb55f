import Cix.Device.Requests

/-!
# Runs of grants and releases

In every run whose requests find all claims in the table, related records are
held by two containers only where sharing is allowed, and requests that are
made in either order are granted in either order.
-/

namespace Cix.Device

open Cix.Lib List Option

def AlwaysShared (recs : List Device) (id : CStr) : Prop :=
  ∃ d, record recs id = some d ∧ d.alwaysShared = true

def Exclusive (recs : List Device) (s : State) : Prop :=
  ∀ c ∈ s.held, ∀ c' ∈ s.held, c.container ≠ c'.container → Related (up recs) c.id c'.id →
      (c.shared = true ∧ c'.shared = true) ∨ AlwaysShared recs c.id ∨ AlwaysShared recs c'.id

def HostSpared (host : Host) (s : State) : Prop :=
  ∀ operation r, asked host operation = some r →
    (serve host s operation).1 = 0 → ¬ Blocked host.recs r.id

def FreeGranted (host : Host) (s : State) : Prop :=
  ∀ idx d, host.recs[idx]? = some d →
    (deviceStateOf host.recs idx d (snapshotClaims host s)).state = .free →
      ∀ wantShared requester, (deviceGrantVerdict host.recs idx d (snapshotClaims host s)
          wantShared requester).1 = 0

def BothGranted (host : Host) (s : State) (first second : Operation) :
    Prop :=
  (serve host s first).1 = 0 ∧ (serve host (step host s first) second).1 = 0

/-- Two requests for which it does not matter which comes first: there is room for
all claims, related records are shared together or not at all unless both share, and
no container reserves what the other one asks for. -/
structure Orderly (host : Host) (s : State) (first second : Operation)
    (r r' : Request) : Prop where
  asksFirst : asked host first = some r
  asksSecond : asked host second = some r'
  different : r.container ≠ r'.container
  room : (claimsOf host s).length ≤ claimsMax
  roomFirst : (claimsOf host (step host s first)).length ≤ claimsMax
  roomSecond : (claimsOf host (step host s second)).length ≤ claimsMax
  agree : Related (up host.recs) r.id r'.id → (r.shared = true ∧ r'.shared = true) ∨
      (AlwaysShared host.recs r.id ↔ AlwaysShared host.recs r'.id)
  unreserved : ∀ c ∈ claimsOf host s, c.kind = .reservation → c.binding = true →
      (c.container = r.container → ¬ Related (up host.recs) c.id r'.id) ∧
        (c.container = r'.container → ¬ Related (up host.recs) c.id r.id)

def Fits (host : Host) (s : State) (operation : Operation) : Prop :=
  (asked host operation).isSome → (claimsOf host s).length ≤ claimsMax

variable {recs : List Device}

theorem netId_ne_nil (name : CStr) : (netId name).length ≠ 0 := by
  have first : (netId name).bytes.head? = some 110 := by
    have bytes : (CStr.ofString "net:").bytes = [110, 101, 116, 58] := by decide
    unfold netId CStr.ofBytes cstrAt
    rw [bytes]
    rfl
  intro empty
  rw [CStr.length, length_eq_zero_iff] at empty
  rw [empty] at first
  cases first

theorem interfaceGrantId_ne_nil {name id : CStr}
    (found : interfaceGrantId recs name = some id) : id.length ≠ 0 := by
  obtain ⟨d, isRecord, rfl⟩ := map_eq_some_iff.mp found
  split
  next radio =>
    intro empty
    rw [CStr.length, length_eq_zero_iff] at empty
    rw [empty] at radio
    revert radio
    decide
  next plain =>
    rw [(record_eq_some isRecord).2]
    exact netId_ne_nil name

variable {operation : Operation}

theorem serve_code {host : Host} {r : Request}
    (asks : asked host operation = some r) (s : State) :
    (serve host s operation).1 = devicegrantCheck host s r := by
  cases operation with
  | request given =>
    cases asks
    rfl
  | requestInterface container ref =>
    obtain ⟨d, found, rfl⟩ := map_eq_some_iff.mp asks
    obtain ⟨name, isName, found⟩ := bind_eq_some_iff.mp found
    obtain ⟨id, isId, isRecord⟩ := bind_eq_some_iff.mp found
    have same := (record_eq_some isRecord).2
    rw [← same] at isId isRecord
    by_cases passed : devicegrantCheck host s ⟨container, d.id, false⟩ = 0
    · simp [serve, devicegrantCheckInterface, isName, isId, isRecord, passed]
    · simp [serve, devicegrantCheckInterface, isName, isId, isRecord, passed]
  | release container id => cases asks
  | releaseInterface container name => cases asks
  | stop container => cases asks
  | await container refs => cases asks
  | define definitions => cases asks

theorem step_granted {host : Host} {s : State}
    {r : Request} (asks : asked host operation = some r)
    (passed : devicegrantCheck host s r = 0) :
    ∃ change, Adds r change ∧ step host s operation = s.hold r.container change := by
  cases operation with
  | request given =>
    cases asks
    refine ⟨_, adds_device r, ?_⟩
    simp [step, serve, passed, State.granted]
  | requestInterface container ref =>
    obtain ⟨d, found, rfl⟩ := map_eq_some_iff.mp asks
    obtain ⟨name, isName, found⟩ := bind_eq_some_iff.mp found
    obtain ⟨id, isId, isRecord⟩ := bind_eq_some_iff.mp found
    have same := (record_eq_some isRecord).2
    have nonempty := interfaceGrantId_ne_nil isId
    rw [← same] at isId isRecord nonempty
    refine ⟨_, @adds_interface container _ ⟨name, d.id⟩ (if_neg nonempty), ?_⟩
    simp [step, serve, devicegrantCheckInterface, isName, isId, isRecord, passed]
  | release container id => cases asks
  | releaseInterface container name => cases asks
  | stop container => cases asks
  | await container refs => cases asks
  | define definitions => cases asks

theorem record_of_grantable {id : CStr} {d : Device}
    (grantable : Grantable recs id d) : record recs id = some d := by
  obtain ⟨idx, position, found, _⟩ := grantable
  exact record_of_index position found

theorem alwaysShared_iff {id : CStr} {d : Device} (isRecord : record recs id = some d) :
    AlwaysShared recs id ↔ d.alwaysShared = true := by
  unfold AlwaysShared
  rw [isRecord]
  simp

theorem claimRefuses_grant {recs : List Device} (shallow : Shallow recs)
    {d : Device} {r : Request} {c : Claim}
    (isRecord : record recs r.id = some d)
    (different : c.container ≠ r.container) (kind : c.kind = .grant) :
    claimRefuses recs d r.shared r.container c = none ↔ (Related (up recs) c.id r.id →
        AlwaysShared recs r.id ∨ (r.shared = true ∧ c.shared = true)) := by
  rw [← idsRelated_iff shallow, alwaysShared_iff isRecord]
  unfold claimRefuses
  rw [(record_eq_some isRecord).2, if_neg different]
  cases idsRelated recs c.id r.id with
  | false => simp
  | true =>
    cases always : d.alwaysShared with
    | false => simp [kind]
    | true => simp [kind]

variable {s : State} {host : Host} {r : Request}

theorem exclusive_of_subset {next : State} (exclusive : Exclusive recs s)
    (fewer : ∀ c ∈ next.held, c ∈ s.held) : Exclusive recs next :=
  fun c holds c' holds' => exclusive c (fewer c holds) c' (fewer c' holds')

theorem exclusive_hold {change : Entry → Entry} (shallow : Shallow host.recs)
    (exclusive : Exclusive host.recs s) (adds : Adds r change)
    (fits : (claimsOf host s).length ≤ claimsMax)
    (passed : devicegrantCheck host s r = 0) :
    Exclusive host.recs (s.hold r.container change) := by
  obtain ⟨d, grantable, unopposed⟩ := check_eq_zero_iff.mp passed
  rw [snapshotClaims_eq fits] at unopposed
  have isRecord := record_of_grantable grantable
  -- What another container holds lets the new grant pass.
  have against : ∀ c ∈ s.held, c.container ≠ r.container →
      Related (up host.recs) c.id r.id → AlwaysShared host.recs r.id ∨
          (r.shared = true ∧ c.shared = true) := by
    intro c holds different
    exact (claimRefuses_grant shallow isRecord different
      (kind_of_held holds)).mp (unopposed c (held_claims holds))
  intro c holds c' holds' different related
  rcases held_hold adds holds with before | rfl
  · rcases held_hold adds holds' with before' | rfl
    · exact exclusive c before c' before' different related
    · rcases against c before different related with always | both
      · exact Or.inr (Or.inr always)
      · exact Or.inl ⟨both.2, both.1⟩
  · rcases held_hold adds holds' with before' | rfl
    · rcases against c' before' different.symm (related_comm.mp related)
        with always | both
      · exact Or.inr (Or.inl always)
      · exact Or.inl both
    · exact absurd rfl different

theorem held_mapped {f : Entry → Entry} (ran : ∀ e, (f e).running = true → e.running = true)
    (fewer : ∀ e, ∀ c ∈ (f e).grants, c ∈ e.grants) :
    ∀ c ∈ ({ s with entries := s.entries.map f } : State).held, c ∈ s.held := by
  intro c holds
  obtain ⟨e, mem, running, inGrants⟩ := mem_held.mp holds
  obtain ⟨old, inList, rfl⟩ := mem_map.mp mem
  exact mem_held.mpr ⟨old, inList, ran old running, fewer old c inGrants⟩

theorem held_step {host : Host} {s : State}
    (refused : ∀ r, asked host operation = some r → devicegrantCheck host s r ≠ 0) :
    ∀ c ∈ (step host s operation).held, c ∈ s.held := by
  cases operation with
  | request r =>
    have := refused r rfl
    intro c holds
    simpa [step, serve, this] using holds
  | requestInterface container ref =>
    have unchanged : step host s (.requestInterface container ref) = s := by
      cases isName : host.hostName ref with
      | none => simp [step, serve, devicegrantCheckInterface, isName]
      | some name =>
        cases isId : interfaceGrantId host.recs name with
        | none => simp [step, serve, devicegrantCheckInterface, isName, isId]
        | some id =>
          cases isRecord : record host.recs id with
          | none =>
            simp [step, serve, devicegrantCheckInterface, isName, isId, isRecord]
          | some d =>
            have asks : asked host (.requestInterface container ref) =
                some ⟨container, d.id, false⟩ := by
              simp [asked, isName, isId, isRecord]
            have same := (record_eq_some isRecord).2
            have notGranted := refused _ asks
            rw [same] at notGranted
            simp [step, serve, devicegrantCheckInterface, isName, isId, isRecord, notGranted]
    rw [unchanged]
    exact fun _ holds => holds
  | release container id =>
    apply held_mapped
    · intro e running
      split at running
      · exact running
      · exact running
    · intro e c inGrants
      split at inGrants
      · simp only [Entry.grants, mem_append, List.mem_map, mem_filter] at inGrants ⊢
        rcases inGrants with ⟨device, kept, rfl⟩ | interface
        · exact Or.inl ⟨device, kept.1, rfl⟩
        · exact Or.inr interface
      · exact inGrants
  | releaseInterface container name =>
    apply held_mapped
    · intro e running
      split at running
      · exact running
      · exact running
    · intro e c inGrants
      split at inGrants
      · simp only [Entry.grants, mem_append, List.mem_map, mem_filter] at inGrants ⊢
        rcases inGrants with device | ⟨held, kept, rfl⟩
        · exact Or.inl device
        · exact Or.inr ⟨held, kept.1, rfl⟩
      · exact inGrants
  | stop container =>
    apply held_mapped
    · intro e running
      split at running
      · cases running
      · exact running
    · intro e c inGrants
      split at inGrants
      · exact inGrants
      · exact inGrants
  | await container refs =>
    apply held_mapped
    · intro e running
      split at running
      · exact running
      · exact running
    · intro e c inGrants
      split at inGrants
      · exact inGrants
      · exact inGrants
  | define definitions => exact fun _ holds => holds

theorem exclusive_step (shallow : Shallow host.recs)
    (exclusive : Exclusive host.recs s) (fits : Fits host s operation) :
    Exclusive host.recs (step host s operation) := by
  by_cases grants : ∃ r, asked host operation = some r ∧ devicegrantCheck host s r = 0
  · obtain ⟨r, asks, passed⟩ := grants
    obtain ⟨change, adds, same⟩ := step_granted asks passed
    rw [same]
    exact exclusive_hold shallow exclusive adds (fits (by simp [asks])) passed
  · push Not at grants
    exact exclusive_of_subset exclusive (held_step grants)

variable {second first : Operation}

variable {r' : Request}

theorem unopposed_hold (shallow : Shallow host.recs)
    (orderly : Orderly host s first second r r') {change : Entry → Entry}
    (adds : Adds r change) {d : Device}
    (isRecord : record host.recs r'.id = some d) :
    Unopposed host.recs d r' (claimsOf host (s.hold r.container change)) ↔
      Unopposed host.recs d r' (claimsOf host s) ∧
        claimRefuses host.recs d r'.shared r'.container (grantOf r) = none := by
  constructor
  · intro unopposed
    refine ⟨?_, unopposed _ (grantOf_claims adds)⟩
    intro c claims
    rcases claims_kept adds claims with kept | ⟨own, reservation⟩
    · exact unopposed c kept
    · -- A reservation of the first container is not about the second record.
      unfold claimRefuses
      rw [(record_eq_some isRecord).2]
      cases binding : c.binding with
      | false => simp [reservation]
      | true =>
        have unrelated := (orderly.unreserved c claims reservation binding).1 own
        rw [← idsRelated_iff shallow, Bool.not_eq_true] at unrelated
        simp [unrelated]
  · rintro ⟨before, new⟩ c claims
    rcases claims_hold adds claims with old | rfl
    · exact before c old
    · exact new

theorem bothGranted_iff (shallow : Shallow host.recs)
    (orderly : Orderly host s first second r r') :
    BothGranted host s first second ↔
      devicegrantCheck host s r = 0 ∧ devicegrantCheck host s r' = 0 ∧
        (Related (up host.recs) r.id r'.id → AlwaysShared host.recs r'.id ∨
            (r'.shared = true ∧ r.shared = true)) := by
  unfold BothGranted
  rw [serve_code orderly.asksFirst, serve_code orderly.asksSecond]
  apply and_congr_right
  intro passed
  obtain ⟨change, adds, same⟩ := step_granted orderly.asksFirst passed
  have room := orderly.roomFirst
  rw [same] at room
  rw [same, check_eq_zero_iff, check_eq_zero_iff, snapshotClaims_eq room,
    snapshotClaims_eq orderly.room]
  have grant : ∀ d, record host.recs r'.id = some d →
      (claimRefuses host.recs d r'.shared r'.container (grantOf r) = none ↔
        (Related (up host.recs) r.id r'.id → AlwaysShared host.recs r'.id ∨
            (r'.shared = true ∧ r.shared = true))) :=
    fun d isRecord =>
      claimRefuses_grant shallow isRecord orderly.different rfl
  constructor
  · rintro ⟨d, grantable, unopposed⟩
    have isRecord := record_of_grantable grantable
    obtain ⟨before, new⟩ := (unopposed_hold shallow orderly adds isRecord).mp unopposed
    exact ⟨⟨d, grantable, before⟩, (grant d isRecord).mp new⟩
  · rintro ⟨⟨d, grantable, before⟩, new⟩
    have isRecord := record_of_grantable grantable
    exact ⟨d, grantable, (unopposed_hold shallow orderly adds isRecord).mpr
      ⟨before, (grant d isRecord).mpr new⟩⟩

theorem Orderly.symm (orderly : Orderly host s first second r r') :
    Orderly host s second first r' r where
  asksFirst := orderly.asksSecond
  asksSecond := orderly.asksFirst
  different := orderly.different.symm
  room := orderly.room
  roomFirst := orderly.roomSecond
  roomSecond := orderly.roomFirst
  agree related := by
    rcases orderly.agree (related_comm.mp related) with both | same
    · exact Or.inl both.symm
    · exact Or.inr same.symm
  unreserved c claims kind binding :=
    (orderly.unreserved c claims kind binding).symm

theorem bothGranted_comm (shallow : Shallow host.recs)
    (orderly : Orderly host s first second r r') :
    BothGranted host s first second ↔ BothGranted host s second first := by
  rw [bothGranted_iff shallow orderly, bothGranted_iff shallow orderly.symm]
  have exempt : (Related (up host.recs) r.id r'.id →
      AlwaysShared host.recs r'.id ∨ (r'.shared = true ∧ r.shared = true)) ↔
      (Related (up host.recs) r'.id r.id → AlwaysShared host.recs r.id ∨
          (r.shared = true ∧ r'.shared = true)) := by
    rw [@related_comm _ _ r'.id r.id]
    apply imp_congr_right
    intro related
    rcases orderly.agree related with both | same
    · simp [both]
    · rw [same, and_comm]
  rw [exempt]
  tauto

/-- In every run of which each request finds all claims in the table, the
grants are exclusive, the host's devices are spared, what is reported as free
is granted, and orderly requests are granted in either order. -/
theorem grants_exclusive (host : Host) (shallow : Shallow host.recs) (operations : List Operation)
    (fits : Guarded (step host) (Fits host) State.fresh operations) :
    Throughout (step host) (fun s => Exclusive host.recs s ∧
      HostSpared host s ∧ FreeGranted host s ∧
        ∀ first second r r', Orderly host s first second r r' → (BothGranted host s first second ↔
            BothGranted host s second first)) State.fresh operations := by
  have start : Exclusive host.recs State.fresh := by
    intro c holds
    cases holds
  have throughout := fits.throughout (Exclusive host.recs)
    (fun s operation exclusive fit => exclusive_step shallow exclusive fit)
    start
  refine throughout.mono ?_
  intro s exclusive
  refine ⟨exclusive, ?_, ?_, ?_⟩
  · intro operation r asks granted
    rw [serve_code asks] at granted
    obtain ⟨d, grantable, _⟩ := check_eq_zero_iff.mp granted
    exact not_blocked shallow grantable
  · intro idx d _ free wantShared requester
    exact free_is_granted free wantShared requester
  · intro first second r r' orderly
    exact bothGranted_comm shallow orderly

def plainDevice (id parent : String) (alwaysShared : Bool) : Device where
  id := CStr.ofString id
  bus := "usb"
  parent := CStr.ofString parent
  driver := CStr.empty
  hasNode := true
  isPartition := false
  osLayout := false
  management := false
  storageRole := false
  mounted := false
  bridgePort := false
  requiresDriver := false
  alwaysShared := alwaysShared

def hubHost (alwaysShared : Bool) : Host where
  recs := [plainDevice "usb:1" "" alwaysShared, plainDevice "usb:1-1" "usb:1" false]
  resolve _ := []
  hostName _ := none

def askHub : Operation :=
  .request ⟨"a", "usb:1", false⟩

def askBehind : Operation :=
  .request ⟨"b", "usb:1-1", false⟩

/-- The grants of a hub and of the device behind it exclude each other. -/
theorem hub_exclusive : Exclusive (hubHost false).recs
      (run (step (hubHost false)) State.fresh [askHub, askBehind]) := by
  have shallow : Shallow (hubHost false).recs := by
    unfold Shallow
    decide +kernel
  have fits : Guarded (step (hubHost false)) (Fits (hubHost false))
      State.fresh [askHub, askBehind] :=
    Guarded.cons (fun _ => by decide +kernel)
      (Guarded.cons (fun _ => by decide +kernel) (guarded_nil _ _))
  exact (grants_exclusive (hubHost false) shallow _ fits).last.1

/-- Where the hub is always shared, it can be granted after the device behind
it, but not before. -/
theorem hub_order_matters : BothGranted (hubHost true) State.fresh askBehind askHub ∧
      ¬ BothGranted (hubHost true) State.fresh askHub askBehind := by
  unfold BothGranted
  decide +kernel

end Cix.Device
