import Cix.Net.Networks

/-!
# The DNS records

`daemon/src/dns.c`: the table of records, its file, and the calls that change
them.  A record may belong to a container and goes when the container does.
Whether a write of the file succeeds is an input of each call.
-/

namespace Cix.Dns

open Cix.Lib Cix.Json Option

def dnsNameMax : Nat := 254

def dnsMaxRecords : Nat := 256

def isNameByte (c : UInt8) : Bool :=
  (65 ≤ c && c ≤ 90) || (97 ≤ c && c ≤ 122) || (48 ≤ c && c ≤ 57) || c = 45

/-- The loop of `dns_name_is_valid`, with `label_len`. -/
def labelsValid : List UInt8 → (labelLen : Nat) → Bool
  | [], labelLen => labelLen ≠ 0
  | c :: rest, labelLen =>
    if c = 46 then labelLen ≠ 0 && labelsValid rest 0
    else isNameByte c && labelLen + 1 ≤ 63 && labelsValid rest (labelLen + 1)

def dnsNameIsValid (name : CStr) : Bool :=
  name.bytes ≠ [] && name.length < dnsNameMax && labelsValid name.bytes 0

/-- `struct dns_record`, in use: it has a name. -/
structure DnsRecord where
  name : BoundedStr 254
  named : name.str.bytes ≠ []
  ip : Net.Address
  ownerContainer : BoundedStr 64
  deriving DecidableEq

structure State where
  records : Slots DnsRecord dnsMaxRecords
  file : Option (List UInt8)

inductive DnsError where
  | ok
  | invalidName
  | invalidIp
  | duplicate
  | full
  | notFound
  | persistFailed
  deriving DecidableEq

def key (name : String) : Writer → Writer :=
  jwKey (CStr.ofString name)

def dnsWriteJsonOne (rec : DnsRecord) (w : Writer) : Writer :=
  let w := jwObjOpen w
  let w := jwStr rec.name.str (key "name" w)
  let w := jwStr (Net.inetNtop rec.ip) (key "ip" w)
  let w := key "owner" w
  let w := if rec.ownerContainer.str.bytes ≠ [] then
      jwStr rec.ownerContainer.str w
    else jwNull w
  jwObjClose w

def dnsWriteJsonList (records : List DnsRecord) : List UInt8 :=
  (jwArrClose (records.foldl (fun w rec => dnsWriteJsonOne rec w) (jwArrOpen jwInit))).buf

def saveState (written : Bool) (s : State) : State :=
  if written then { s with file := some (dnsWriteJsonList s.records.entries) }
  else s

def dnsRecordFind (s : State) (name : CStr) : Option (Nat × DnsRecord) :=
  s.records.find fun rec => rec.name.str = name

theorem named_of_valid {name : CStr} (valid : dnsNameIsValid name = true) :
    (BoundedStr.store 254 (by decide) name).str.bytes ≠ [] := by
  unfold dnsNameIsValid at valid
  rw [Bool.and_eq_true, Bool.and_eq_true, decide_eq_true_eq, decide_eq_true_eq] at valid
  change (name.truncate 254).bytes ≠ []
  rw [CStr.truncate_of_fits (n := 254) valid.1.2]
  exact valid.1.1

def dnsRecordCreate (name : CStr) (ip : Net.Address)
    (ownerContainer : Option CStr) (written : Bool) (s : State) :
    State × DnsError :=
  if valid : dnsNameIsValid name = true then
    if (dnsRecordFind s name).isSome then (s, .duplicate)
    else
      match s.records.firstFree with
      | none => (s, .full)
      | some slot =>
        let e : DnsRecord :=
          { name := BoundedStr.store 254 (by decide) name
            named := named_of_valid valid
            ip := ip
            ownerContainer :=
              BoundedStr.store 64 pos_64 (ownerContainer.getD CStr.empty) }
        let filled := { s with records := s.records.put slot (some e) }
        if written then (saveState true filled, .ok)
        else
          ({ filled with records := filled.records.put slot none }, .persistFailed)
  else (s, .invalidName)

def dnsRecordDelete (name : CStr) (written : Bool) (s : State) : State × DnsError :=
  match dnsRecordFind s name with
  | none => (s, .notFound)
  | some (slot, _) =>
    let cleared := { s with records := s.records.put slot none }
    if written then (saveState true cleared, .ok)
    else (cleared, .persistFailed)

def dnsRecordUpdate (name : CStr) (ip : Net.Address) (written : Bool)
    (s : State) : State × DnsError :=
  match dnsRecordFind s name with
  | none => (s, .notFound)
  | some (slot, e) =>
    let changed := { s with
      records := s.records.put slot (some { e with ip := ip }) }
    if written then (saveState true changed, .ok)
    else
      ({ changed with
        records := changed.records.put slot (some { e with ip := e.ip }) },
        .persistFailed)

def dnsRecordForgetOwner (containerName : CStr) (written : Bool) (s : State) : State :=
  match s.records.find fun rec => rec.ownerContainer.str = containerName with
  | none => s
  | some (slot, _) => saveState written { s with records := s.records.put slot none }

inductive Call where
  | create (name : CStr) (ip : Net.Address) (ownerContainer : Option CStr)
      (written : Bool)
  | update (name : CStr) (ip : Net.Address) (written : Bool)
  | delete (name : CStr) (written : Bool)

def answer (s : State) : Call → State × DnsError
  | .create name ip ownerContainer written =>
    dnsRecordCreate name ip ownerContainer written s
  | .update name ip written => dnsRecordUpdate name ip written s
  | .delete name written => dnsRecordDelete name written s

def LosesRecord (s : State) : Call → Prop
  | .delete name written => written = false ∧ dnsRecordFind s name ≠ none
  | _ => False

def KeepsOnError (s : State) (call : Call) : Prop :=
  (answer s call).2 ≠ .ok → (answer s call).1 = s

theorem create_keeps (name : CStr) (ip : Net.Address)
    (ownerContainer : Option CStr) (written : Bool) (s : State) :
    KeepsOnError s (.create name ip ownerContainer written) := by
  intro refused
  change (dnsRecordCreate name ip ownerContainer written s).2 ≠ .ok at refused
  change (dnsRecordCreate name ip ownerContainer written s).1 = s
  unfold dnsRecordCreate at refused ⊢
  split
  next valid =>
    rw [dif_pos valid] at refused
    split
    next => rfl
    next untaken =>
      rw [if_neg untaken] at refused
      split
      next => rfl
      next slot free =>
        cases written with
        | true =>
          rw [free] at refused
          exact absurd rfl refused
        | false =>
          change { s with records :=
            (s.records.put slot (some _)).put slot none } = s
          rw [Slots.put_put, Slots.put_none (Slots.get_firstFree free).2]
  next => rfl

theorem update_keeps (name : CStr) (ip : Net.Address) (written : Bool)
    (s : State) : KeepsOnError s (.update name ip written) := by
  intro refused
  change (dnsRecordUpdate name ip written s).2 ≠ .ok at refused
  change (dnsRecordUpdate name ip written s).1 = s
  unfold dnsRecordUpdate at refused ⊢
  split
  next => rfl
  next slot e found =>
    cases written with
    | true =>
      rw [found] at refused
      exact absurd rfl refused
    | false =>
      change { s with records :=
        (s.records.put slot (some _)).put slot (some e) } = s
      rw [Slots.put_put, Slots.put_get (Slots.get_of_find found).1]

theorem delete_keeps_iff (name : CStr) (written : Bool) (s : State) :
    KeepsOnError s (.delete name written) ↔ ¬ LosesRecord s (.delete name written) := by
  change ((dnsRecordDelete name written s).2 ≠ .ok → (dnsRecordDelete name written s).1 = s) ↔
      ¬ (written = false ∧ dnsRecordFind s name ≠ none)
  unfold dnsRecordDelete
  cases found : dnsRecordFind s name with
  | none => simp
  | some entry =>
    obtain ⟨slot, e⟩ := entry
    have held := (Slots.get_of_find found).1
    cases written with
    | true => simp
    | false =>
      have changed : ({ s with records := s.records.put slot none } : State) ≠ s := by
        intro same
        have cell := congrArg (fun s : State => s.records.get slot) same
        dsimp only at cell
        rw [Slots.get_put (Slots.lt_of_get held), if_pos rfl, held] at cell
        cases cell
      simp [changed]

def Forgets (containerName : CStr) (before after : State) : Prop :=
  ∀ i, after.records.get i = (before.records.get i).filter fun rec =>
      decide (rec.ownerContainer.str ≠ containerName)

def OwnsAtMostOne (s : State) (containerName : CStr) : Prop :=
  ∀ i j first second, s.records.get i = some first → s.records.get j = some second →
      first.ownerContainer.str = containerName → second.ownerContainer.str = containerName → i = j

theorem records_saveState (written : Bool) (s : State) :
    (saveState written s).records = s.records := by
  cases written <;> rfl

theorem forgets_iff (containerName : CStr) (written : Bool) (s : State) :
    Forgets containerName s (dnsRecordForgetOwner containerName written s) ↔
      OwnsAtMostOne s containerName := by
  unfold dnsRecordForgetOwner
  split
  next none =>
    have notOwned : ∀ i rec, s.records.get i = some rec →
        rec.ownerContainer.str ≠ containerName := by
      intro i rec held
      simpa using Slots.find_eq_none none held
    apply iff_of_true
    · intro i
      cases held : s.records.get i with
      | none => rfl
      | some rec => simp [filter_some, notOwned i rec held]
    · intro i j first second heldFirst _ owned _
      exact absurd owned (notOwned i first heldFirst)
  next slot e found =>
    obtain ⟨held, owned⟩ := Slots.get_of_find found
    rw [decide_eq_true_eq] at owned
    have inside := Slots.lt_of_get held
    have after : ∀ i, (saveState written { s with
        records := s.records.put slot none }).records.get i =
          if i = slot then none else s.records.get i := by
      intro i
      rw [records_saveState]
      exact Slots.get_put inside i
    constructor
    · intro forgets
      have onlySlot : ∀ i rec, s.records.get i = some rec →
          rec.ownerContainer.str = containerName → i = slot := by
        intro i rec heldRec ownedRec
        by_contra other
        have left := forgets i
        rw [after, if_neg other, heldRec] at left
        simp [filter_some, ownedRec] at left
      intro i j first second heldFirst heldSecond ownedFirst ownedSecond
      rw [onlySlot i first heldFirst ownedFirst, onlySlot j second heldSecond ownedSecond]
    · intro atMostOne i
      rw [after]
      by_cases isSlot : i = slot
      · rw [if_pos isSlot, isSlot, held]
        simp [filter_some, owned]
      · rw [if_neg isSlot]
        cases heldRec : s.records.get i with
        | none => rfl
        | some rec =>
          have notOwned : rec.ownerContainer.str ≠ containerName := by
            intro ownedRec
            exact isSlot (atMostOne i slot rec e heldRec held ownedRec owned)
          simp [filter_some, notOwned]

/-- A call that is refused leaves everything as it was, unless it deletes a
record and cannot save that; and a container leaves no record behind exactly
when it has at most one. -/
theorem dns_call_spec (s : State) (call : Call) (containerName : CStr) (written : Bool) :
    (KeepsOnError s call ↔ ¬ LosesRecord s call) ∧ (Forgets containerName s
          (dnsRecordForgetOwner containerName written s) ↔
        OwnsAtMostOne s containerName) := by
  refine ⟨?_, forgets_iff containerName written s⟩
  cases call with
  | create name ip ownerContainer written =>
    exact iff_of_true (create_keeps name ip ownerContainer written s) id
  | update name ip written => exact iff_of_true (update_keeps name ip written s) id
  | delete name written => exact delete_keeps_iff name written s

/-- A record of the container `web`. -/
def webRecord (name : String) (named :
    (BoundedStr.store 254 (by decide) (CStr.ofString name)).str.bytes ≠ []) :
    DnsRecord where
  name := BoundedStr.store 254 (by decide) (CStr.ofString name)
  named := named
  ip := 0x0a000001#32
  ownerContainer := BoundedStr.store 64 pos_64 "web"

def twoRecords : State where
  records := Slots.ofEntries dnsMaxRecords [webRecord "web.home.arpa" (by decide +kernel),
      webRecord "www.home.arpa" (by decide +kernel)]
  file := none

/-- A deletion that cannot be saved takes the record away, and a container's
second record stays behind. -/
theorem refused_delete_and_second_record : ¬ KeepsOnError twoRecords
        (.delete "web.home.arpa" false) ∧
      ¬ Forgets "web" twoRecords (dnsRecordForgetOwner "web" true twoRecords) := by
  constructor
  · rw [delete_keeps_iff, not_not]
    exact ⟨rfl, by decide +kernel⟩
  · rw [forgets_iff]
    intro atMostOne
    have same := atMostOne 0 1 (webRecord "web.home.arpa" (by decide +kernel))
      (webRecord "www.home.arpa" (by decide +kernel)) (by decide +kernel)
      (by decide +kernel) (by decide +kernel) (by decide +kernel)
    cases same

end Cix.Dns
