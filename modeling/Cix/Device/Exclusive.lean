import Cix.Device.Claims
import Cix.Lib.Machine

/-!
# Device grants are exclusive

As long as no chain of parents is longer than the walks go and no claim is
left out of the table, two containers hold related records only where sharing
is allowed.
-/

namespace Cix.Device

open Cix.Lib List

variable {recs : List Device}

def up (recs : List Device) (id : CStr) : Option CStr :=
  (record recs id).bind fun d =>
    if d.parent.length = 0 then none else some d.parent

def Shallow (recs : List Device) : Prop :=
  ∀ d ∈ recs, (ancestors (up recs) (depthMax + 1) d.id).length ≤ depthMax

theorem record_eq_some {id : CStr} {d : Device}
    (found : record recs id = some d) : d ∈ recs ∧ d.id = id := by
  have satisfied := find?_some found
  exact ⟨mem_of_find?_eq_some found, of_decide_eq_true satisfied⟩

theorem Shallow.ended {recs : List Device} (shallow : Shallow recs) (id : CStr) :
    (ancestors (up recs) (depthMax + 1) id).length ≤ depthMax := by
  cases found : record recs id with
  | none =>
    rw [ancestors_succ, up, found]
    exact Nat.zero_le _
  | some d =>
    obtain ⟨mem, same⟩ := record_eq_some found
    exact same ▸ shallow d mem

theorem isAncestorFrom_eq (recs : List Device) (above : CStr) (depth : Nat)
    (id : CStr) : isAncestorFrom recs above depth id = true ↔
      above ∈ ancestors (up recs) depth id := by
  induction depth generalizing id with
  | zero => simp [isAncestorFrom, ancestors]
  | succ depth ih =>
    rw [isAncestorFrom, ancestors_succ, up]
    cases record recs id with
    | none => simp
    | some d =>
      by_cases root : d.parent.length = 0
      · simp [root]
      · simp only [Option.bind_some, if_neg root, mem_cons]
        by_cases same : d.parent = above
        · simp [same]
        · simp [same, ih, Ne.symm same]

theorem isAncestor_iff (shallow : Shallow recs) (above id : CStr) :
    isAncestor recs above id = true ↔ Above (up recs) above id := by
  rw [isAncestor, isAncestorFrom_eq, above_iff (shallow.ended id)]

theorem idsRelated_iff (shallow : Shallow recs) (a b : CStr) :
    idsRelated recs a b = true ↔ Related (up recs) a b := by
  simp only [idsRelated, Bool.or_eq_true, decide_eq_true_eq,
    isAncestor_iff shallow, Related, or_assoc]

def Blocked (recs : List Device) (id : CStr) : Prop :=
  (∃ d, record recs id = some d ∧ ownHostReason d ≠ none) ∨
  (∃ below ∈ recs, Above (up recs) id below.id ∧ ownHostReason below ≠ none) ∨
  (∃ above d, Above (up recs) above id ∧ record recs above = some d ∧ spreadingHostReason d ≠ none)

def Grantable (recs : List Device) (id : CStr) (d : Device) : Prop :=
  ∃ idx, recordIndex recs id = some idx ∧ recs[idx]? = some d ∧
    hostBeforeClaims recs d = none ∧ hostAfterClaims recs idx d = none

theorem record_of_index {id : CStr} {idx : Nat} {d : Device}
    (position : recordIndex recs id = some idx) (found : recs[idx]? = some d) :
    record recs id = some d := by
  obtain ⟨within, here, before⟩ := findIdx?_eq_some_iff_getElem.mp position
  obtain ⟨_, rfl⟩ := List.getElem?_eq_some_iff.mp found
  exact find?_eq_some_iff_getElem.mpr ⟨here, idx, within, rfl, fun j earlier => by
      simpa using before j earlier⟩

theorem spreading_of_ancestors {recs : List Device} {depth : Nat}
    {d : Device} (isRecord : record recs d.id = some d)
    (silent : ancestorHostReasonFrom recs depth d = none) :
    ∀ above ∈ ancestors (up recs) depth d.id, ∀ x,
      record recs above = some x → spreadingHostReason x = none := by
  induction depth generalizing d with
  | zero =>
    intro above mem
    cases mem
  | succ depth ih =>
    intro above mem x found
    rw [ancestors_succ, up, isRecord] at mem
    rw [ancestorHostReasonFrom] at silent
    by_cases root : d.parent.length = 0
    · simp [root] at mem
    · simp only [Option.bind_some, if_neg root, mem_cons] at mem
      rw [if_neg root] at silent
      cases parent : record recs d.parent with
      | none =>
        rcases mem with rfl | higher
        · rw [parent] at found
          cases found
        · cases depth with
          | zero => cases higher
          | succ depth =>
            rw [ancestors_succ, up, parent] at higher
            cases higher
      | some p =>
        rw [parent] at silent
        have same := (record_eq_some parent).2
        cases spreads : spreadingHostReason p with
        | some reason => simp [spreads] at silent
        | none =>
          rcases mem with rfl | higher
          · rw [parent] at found
            cases found
            exact spreads
          · simp only [spreads] at silent
            rw [← same] at higher parent
            exact ih parent silent above higher x found

theorem not_blocked (shallow : Shallow recs) {id : CStr} {d : Device}
    (grantable : Grantable recs id d) : ¬ Blocked recs id := by
  obtain ⟨idx, position, found, before, after⟩ := grantable
  have isRecord := record_of_index position found
  have same := (record_eq_some isRecord).2
  have noHost : (ownHostReason d).or (ancestorHostReason recs d) = none := by
    unfold hostBeforeClaims at before
    cases reason : (ownHostReason d).or (ancestorHostReason recs d) with
    | none => rfl
    | some reason' => simp [reason] at before
  obtain ⟨own, fromAbove⟩ := Option.or_eq_none_iff.mp noHost
  have noneBelow : descendantHostReason recs idx d = none := by
    unfold hostAfterClaims at after
    split at after
    · cases after
    · simpa using after
  rintro (⟨x, isX, fact⟩ | ⟨below, mem, isBelow, fact⟩ | ⟨above, x, isAbove, isX, fact⟩)
  · rw [isRecord] at isX
    cases isX
    exact fact own
  · obtain ⟨i, atPosition⟩ := getElem?_of_mem mem
    have inList : (below, i) ∈ recs.zipIdx := mem_zipIdx_iff_getElem?.mpr atPosition
    have passed := findSome?_eq_none_iff.mp noneBelow _ inList
    rw [← same] at isBelow
    by_cases here : i = idx
    · rw [here, found] at atPosition
      cases atPosition
      exact fact own
    · have isDescendant := (isAncestor_iff shallow _ _).mpr isBelow
      simp only [here, isDescendant, false_or, not_true_eq_false, if_false] at passed
      exact fact passed
  · rw [← same] at isRecord isAbove
    have within := (above_iff (shallow.ended d.id)).mp isAbove
    exact fact (spreading_of_ancestors isRecord fromAbove above within x isX)

theorem foldl_addClaim {claims table : List Claim}
    (room : table.length + claims.length ≤ claimsMax) :
    claims.foldl addClaim table = table ++ claims := by
  induction claims generalizing table with
  | nil => simp
  | cons c rest ih =>
    rw [length_cons] at room
    have free : ¬ claimsMax ≤ table.length := by omega
    have added : addClaim table c = table ++ [c] := by rw [addClaim, if_neg free]
    rw [foldl_cons, added, ih]
    · simp
    · simp only [length_append, length_singleton]
      omega

theorem snapshotClaims_eq {host : Host} {s : State} (fit : (claimsOf host s).length ≤ claimsMax) :
    snapshotClaims host s = claimsOf host s := by
  have room : ([] : List Claim).length + (claimsOf host s).length ≤
      claimsMax := by simpa using fit
  rw [snapshotClaims, foldl_addClaim room, nil_append]

def Unopposed (recs : List Device) (d : Device) (r : Request) (claims : List Claim) : Prop :=
  ∀ c ∈ claims, claimRefuses recs d r.shared r.container c = none

theorem verdict_eq_zero_iff {recs : List Device} {idx : Nat} {d : Device}
    {claims : List Claim} {wantShared : Bool} {requester : CStr} :
    (deviceGrantVerdict recs idx d claims wantShared requester).1 = 0 ↔
      hostBeforeClaims recs d = none ∧ hostAfterClaims recs idx d = none ∧
        ∀ c ∈ claims, claimRefuses recs d wantShared requester c = none := by
  unfold deviceGrantVerdict
  cases device : (hostBeforeClaims recs d).or (hostAfterClaims recs idx d) with
  | some verdict =>
    constructor
    · intro refused
      cases refused
    · rintro ⟨before, after, _⟩
      rw [before, after] at device
      cases device
  | none =>
    obtain ⟨before, after⟩ := Option.or_eq_none_iff.mp device
    cases opposed : claims.zipIdx.findSome? fun p : Claim × Nat =>
        (claimRefuses recs d wantShared requester p.1).map fun state =>
          (state, p.2) with
    | some refusal =>
      obtain ⟨p, mem, refuses⟩ := exists_of_findSome?_eq_some opposed
      constructor
      · intro refused
        cases refused
      · rintro ⟨_, _, unopposed⟩
        have inClaims := mem_of_getElem? (mem_zipIdx_iff_getElem?.mp mem)
        rw [unopposed p.1 inClaims] at refuses
        cases refuses
    | none =>
      simp only [true_iff]
      refine ⟨before, after, ?_⟩
      intro c mem
      obtain ⟨i, atPosition⟩ := getElem?_of_mem mem
      have inList : (c, i) ∈ claims.zipIdx := mem_zipIdx_iff_getElem?.mpr atPosition
      simpa using findSome?_eq_none_iff.mp opposed _ inList

theorem check_eq_zero_iff {host : Host} {s : State} {r : Request} :
    devicegrantCheck host s r = 0 ↔ ∃ d, Grantable host.recs r.id d ∧
        Unopposed host.recs d r (snapshotClaims host s) := by
  unfold devicegrantCheck
  constructor
  · intro granted
    cases position : (recordIndex host.recs r.id).bind fun idx =>
        (host.recs[idx]?).map fun d => (idx, d) with
    | none =>
      rw [position] at granted
      cases granted
    | some found =>
      rw [position] at granted
      obtain ⟨before, after, unopposed⟩ := verdict_eq_zero_iff.mp granted
      obtain ⟨idx, isIndex, inList⟩ := Option.bind_eq_some_iff.mp position
      obtain ⟨d, atPosition, rfl⟩ := Option.map_eq_some_iff.mp inList
      exact ⟨d, ⟨idx, isIndex, atPosition, before, after⟩, unopposed⟩
  · rintro ⟨d, ⟨idx, isIndex, atPosition, before, after⟩, unopposed⟩
    simp only [isIndex, Option.bind_some, atPosition, Option.map_some]
    exact verdict_eq_zero_iff.mpr ⟨before, after, unopposed⟩

theorem state_of_before {d : Device} {v : Verdict}
    (verdict : hostBeforeClaims recs d = some v) : v.state ≠ .free := by
  unfold hostBeforeClaims at verdict
  split at verdict
  · cases verdict
    exact nofun
  split at verdict
  · cases verdict
  · cases verdict
    exact nofun

theorem state_of_after {idx : Nat} {d : Device} {v : Verdict}
    (verdict : hostAfterClaims recs idx d = some v) : v.state ≠ .free := by
  unfold hostAfterClaims at verdict
  split at verdict
  · cases verdict
    exact nofun
  · obtain ⟨reason, _, rfl⟩ := Option.map_eq_some_iff.mp verdict
    exact nofun

theorem free_is_granted {recs : List Device} {idx : Nat} {d : Device}
    {claims : List Claim}
    (free : (deviceStateOf recs idx d claims).state = .free)
    (wantShared : Bool) (requester : CStr) :
    (deviceGrantVerdict recs idx d claims wantShared requester).1 = 0 := by
  unfold deviceStateOf at free
  cases before : hostBeforeClaims recs d with
  | some v =>
    rw [before] at free
    exact absurd free (state_of_before before)
  | none =>
    rw [before] at free
    cases held : claims.findIdx? fun c =>
        c.kind = .grant && idsRelated recs c.id d.id with
    | some i => simp [held] at free
    | none =>
      cases reserved : claims.findIdx? fun c =>
          c.kind = .reservation && c.binding && idsRelated recs c.id d.id with
      | some i => simp [held, reserved] at free
      | none =>
        simp only [held, reserved] at free
        cases after : hostAfterClaims recs idx d with
        | some v =>
          rw [after] at free
          exact absurd free (state_of_after after)
        | none =>
          refine verdict_eq_zero_iff.mpr ⟨before, after, ?_⟩
          intro c mem
          have noGrant := findIdx?_eq_none_iff.mp held c mem
          have noReserve := findIdx?_eq_none_iff.mp reserved c mem
          unfold claimRefuses
          cases related : idsRelated recs c.id d.id with
          | false => simp
          | true =>
            cases kind : c.kind with
            | grant => simp [kind, related] at noGrant
            | reservation =>
              simp only [kind, related, Bool.and_true, decide_true, Bool.true_and] at noReserve
              simp [noReserve]

end Cix.Device
