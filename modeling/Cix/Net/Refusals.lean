import Cix.Net.Networks

/-!
# What a refused request leaves of the table of networks

A network that cannot be saved is taken back, and so is an interface.  A
window that cannot be saved stays: `network_set_alloc_window` answers that the
change is in memory and did not reach the disk.  `network_delete` and
`network_detach_interface` have changed the kernel by the time they save.
-/

namespace Cix.Net

open Cix.Lib

inductive Call where
  | create (request : CreateRequest) (kernel : CreateReplies)
      (written : Bool)
  | delete (name : CStr) (inUse opened linkDeleted written : Bool)
  | attach (name ifname : CStr) (vlanId : Int32)
      (deviceFree applied written : Bool)
  | detach (name ifname : CStr) (released written : Bool)
  | setAllocWindow (name : CStr) (allocStart allocEnd : Option CStr)
      (written : Bool)

def answer (s : State) : Call → State × NetworkError
  | .create request kernel written => networkCreate request kernel written s
  | .delete name inUse opened linkDeleted written =>
    networkDelete name inUse opened linkDeleted written s
  | .attach name ifname vlanId deviceFree applied written =>
    networkAttachInterface name ifname vlanId deviceFree applied written s
  | .detach name ifname released written =>
    networkDetachInterface name ifname released written s
  | .setAllocWindow name allocStart allocEnd written =>
    networkSetAllocWindow name allocStart allocEnd written s

def acceptedWindow (allocStart allocEnd : Option CStr) (net : NetworkDef) : Option (Int × Int) :=
  match updatedBound allocStart net.allocStartHost net.base net.prefixLen,
      updatedBound allocEnd net.allocEndHost net.base net.prefixLen with
  | some first, some last =>
    if first ≠ 0 ∧ last ≠ 0 ∧ last < first then none
    else some (first, last)
  | _, _ => none

def writeFails (s : State) : Call → Bool
  | .create _ _ _ => false
  | .attach _ _ _ _ _ _ => false
  | .delete name inUse opened linkDeleted written =>
    !written && opened && linkDeleted && !inUse &&
      (s.networkFind name).any fun found => !s.netIsManagement found.2
  | .detach name ifname released written =>
    !written && released && (s.networkFind name).any fun found =>
        !s.netIsManagement found.2 && found.2.interfaces.any fun ifc => ifc.ifname.str = ifname
  | .setAllocWindow name allocStart allocEnd written =>
    !written && (s.networkFind name).any fun found =>
      (acceptedWindow allocStart allocEnd found.2).isSome

def TableKept (s : State) (result : State × NetworkError) : Prop :=
  result.2 ≠ .ok → result.1.nets = s.nets

theorem tableKept_same (s : State) (error : NetworkError) : TableKept s (s, error) :=
  fun _ => rfl

theorem tableKept_ok (s s' : State) : TableKept s (s', .ok) :=
  fun refused => absurd rfl refused

theorem tableKept_create (request : CreateRequest) (kernel : CreateReplies)
    (written : Bool) (s : State) :
    TableKept s (networkCreate request kernel written s) := by
  unfold networkCreate
  dsimp only
  repeat' split
  all_goals first
    | exact tableKept_same s _
    | exact tableKept_ok s _
    | next free _ _ _ _ _ _ =>
      rw [created_taken_back free]
      exact tableKept_same s _

theorem tableKept_attach (name ifname : CStr) (vlanId : Int32)
    (deviceFree applied written : Bool) (s : State) :
    TableKept s (networkAttachInterface name ifname vlanId deviceFree applied written s) := by
  rcases networkAttachInterface_cases name ifname vlanId deviceFree applied written s with
    ⟨error, same⟩ | ⟨slot, net, attached, _, grown⟩
  · rw [same]
    exact tableKept_same s error
  · rw [grown]
    exact tableKept_ok s _

theorem tableKept_delete {name : CStr} {inUse opened linkDeleted written : Bool} {s : State}
    (saved : writeFails s (.delete name inUse opened linkDeleted written) = false) :
    TableKept s (networkDelete name inUse opened linkDeleted written s) := by
  unfold networkDelete
  split
  · exact tableKept_same s _
  next slot net found =>
    split
    · exact tableKept_same s _
    next other =>
      split
      · exact tableKept_same s _
      next unused =>
        split
        · exact tableKept_same s _
        next done =>
          have isWritten : written = true := by
            cases written with
            | true => rfl
            | false =>
              simp [writeFails, found, other, unused] at saved done
              exact absurd (saved done.1) (by simp [done.2])
          subst isWritten
          exact tableKept_ok s _

theorem tableKept_detach {name ifname : CStr} {released written : Bool}
    {s : State}
    (saved : writeFails s (.detach name ifname released written) = false) :
    TableKept s (networkDetachInterface name ifname released written s) := by
  unfold networkDetachInterface
  split
  · exact tableKept_same s _
  next slot net found =>
    split
    · exact tableKept_same s _
    next other =>
      split
      · exact tableKept_same s _
      next index atIndex =>
        split
        · exact tableKept_same s _
        next done =>
          have attached : (net.interfaces.any fun ifc =>
              ifc.ifname.str = ifname) = true := by
            rw [← List.findIdx?_isSome, atIndex]
            rfl
          have isWritten : written = true := by
            cases written with
            | true => rfl
            | false =>
              simp [writeFails, found, other, attached] at saved
              exact absurd saved (by simpa using done)
          subst isWritten
          exact tableKept_ok s _

theorem networkSetAllocWindow_found {name : CStr} {s : State} {slot : Nat}
    {net : NetworkDef} (found : s.networkFind name = some (slot, net))
    (allocStart allocEnd : Option CStr) (written : Bool) :
    networkSetAllocWindow name allocStart allocEnd written s =
      match acceptedWindow allocStart allocEnd net with
      | none => (s, .invalidAddress)
      | some window =>
        (saveState written
          { s with
            nets := s.nets.put slot (some
              { net with
                allocStartHost := window.1
                allocEndHost := window.2 }) },
          if written then .ok else .createFailed) := by
  simp only [networkSetAllocWindow, found, acceptedWindow]
  cases updatedBound allocStart net.allocStartHost net.base net.prefixLen with
  | none => rfl
  | some first =>
    cases updatedBound allocEnd net.allocEndHost net.base net.prefixLen with
    | none => rfl
    | some last =>
      dsimp only
      split
      · rfl
      · rfl

theorem tableKept_setAllocWindow {name : CStr}
    {allocStart allocEnd : Option CStr} {written : Bool} {s : State}
    (saved : writeFails s (.setAllocWindow name allocStart allocEnd written) = false) :
    TableKept s (networkSetAllocWindow name allocStart allocEnd written s) := by
  cases found : s.networkFind name with
  | none =>
    simp only [networkSetAllocWindow, found]
    exact tableKept_same s _
  | some result =>
    obtain ⟨slot, net⟩ := result
    rw [networkSetAllocWindow_found found]
    cases isWindow : acceptedWindow allocStart allocEnd net with
    | none => exact tableKept_same s _
    | some window =>
      cases written with
      | true => exact tableKept_ok s _
      | false => simp [writeFails, found, isWindow] at saved

/-- A request that is refused leaves the table as it was, unless the write of
the file fails in a call that keeps its change; of a window that could not be
saved the table has the new bounds, and differs in nothing else. -/
theorem refused_network_call (s : State) (c : Call) (refused : (answer s c).2 ≠ .ok) :
    (writeFails s c = false → (answer s c).1.nets = s.nets) ∧ ∀ name allocStart allocEnd written,
        c = .setAllocWindow name allocStart allocEnd written →
        writeFails s c = true → ∃ slot net window, s.networkFind name = some (slot, net) ∧
            acceptedWindow allocStart allocEnd net = some window ∧
            (answer s c).1.nets = s.nets.put slot (some
              { net with
                allocStartHost := window.1
                allocEndHost := window.2 }) := by
  refine ⟨?_, ?_⟩
  · intro saved
    cases c with
    | create request kernel written =>
      exact tableKept_create request kernel written s refused
    | delete name inUse opened linkDeleted written =>
      exact tableKept_delete saved refused
    | attach name ifname vlanId deviceFree applied written =>
      exact tableKept_attach name ifname vlanId deviceFree applied written s refused
    | detach name ifname released written => exact tableKept_detach saved refused
    | setAllocWindow name allocStart allocEnd written =>
      exact tableKept_setAllocWindow saved refused
  · intro name allocStart allocEnd written isCall fails
    subst isCall
    cases found : s.networkFind name with
    | none => simp [writeFails, found] at fails
    | some result =>
      obtain ⟨slot, net⟩ := result
      cases isWindow : acceptedWindow allocStart allocEnd net with
      | none => simp [writeFails, found, isWindow] at fails
      | some window =>
        have unwritten : written = false := by simpa [writeFails, found, isWindow] using fails
        subst unwritten
        refine ⟨slot, net, window, rfl, isWindow, ?_⟩
        simp only [answer]
        rw [networkSetAllocWindow_found found, isWindow]
        rfl

def oneNetwork : State :=
  { State.fresh with
    nets := (Slots.empty networkMax).put 0 (some
      { name := BoundedStr.store 16 pos_16 "lan"
        base := 0xC0A80F00
        prefixLen := 24
        hasAddress := false
        address := 0
        interfaces := []
        allocStartHost := 0
        allocEndHost := 0 })
    up := true }

def windowFrom (written : Bool) : Call :=
  .setAllocWindow "lan" (some "192.168.15.100") none written

/-- A network that the kernel has made and that is not saved. -/
def unsavedCreate : Call :=
  .create ⟨"dmz", "10.1.0.0", 16, none, none, none⟩ ⟨true, true, true, true⟩ false

theorem refused_network_call_outside : (answer oneNetwork unsavedCreate).2 = .createFailed ∧
    (answer oneNetwork unsavedCreate).1.nets = oneNetwork.nets :=
  ⟨by decide +kernel,
    (refused_network_call oneNetwork unsavedCreate (by decide +kernel)).1 (by decide +kernel)⟩

/-- A window whose write fails is an error and is in the table. -/
theorem unsaved_window_stays : ¬ ∀ (s : State) (c : Call), (answer s c).2 ≠ .ok →
      (answer s c).1.nets = s.nets := by
  intro always
  have refused : (answer oneNetwork (windowFrom false)).2 =
      .createFailed := by
    decide +kernel
  have same := always oneNetwork (windowFrom false) (by rw [refused]; decide)
  have after : ((answer oneNetwork (windowFrom false)).1.nets.get 0).map
      NetworkDef.allocStartHost = some 100 := by
    decide +kernel
  have before : (oneNetwork.nets.get 0).map NetworkDef.allocStartHost =
      some 0 := by
    decide +kernel
  rw [same, before] at after
  cases after

end Cix.Net
