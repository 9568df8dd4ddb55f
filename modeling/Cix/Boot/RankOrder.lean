import Cix.Boot.Reported

/-!
# The rank of a boot entry

`selection_rank_less` of `daemon/src/esp.c` looks at the sort keys of two
entries only if both have one.  Of such a pair, and of one without, it compares
by an order of its own.
-/

namespace Cix.Boot

open Cix.Lib Option

def descending {α : Type*} (cmp : α → α → Ordering) (a b : α) : Ordering :=
  cmp b a

instance {α : Type*} (cmp : α → α → Ordering) [Std.TransCmp cmp] : Std.TransCmp (descending cmp) :=
  inferInstanceAs (Std.TransCmp fun a b => cmp b a)

def falseFirst (a b : Bool) : Ordering :=
  if a = b then .eq else if b then .lt else .gt

instance : Std.TransCmp falseFirst where
  eq_swap := by
    intro a b
    cases a <;> cases b <;> rfl
  isLE_trans := by
    intro a b c
    cases a <;> cases b <;> cases c <;> simp [falseFirst]

def idOrder (libc : Libc) : EspEntry → EspEntry → Ordering :=
  compareLex (descending (onKey libc.strverscmp fun e => (entryId e.name).1))
    (descending (onKey strcmp EspEntry.name))

def keyOrder (libc : Libc) : EspEntry → EspEntry → Ordering :=
  compareLex (onKey strcmp EspEntry.sortKey) (descending (onKey libc.strverscmp EspEntry.version))

def rankOrder (libc : Libc) (withKeys : Bool) : EspEntry → EspEntry → Ordering :=
  compareLex (onKey falseFirst fun e => decide ((entryId e.name).2 = 0))
    (if withKeys then compareLex (keyOrder libc) (idOrder libc)
      else idOrder libc)

instance (libc : Libc) [Std.TransCmp libc.strverscmp] : Std.TransCmp (idOrder libc) :=
  inferInstanceAs (Std.TransCmp (compareLex _ _))

instance (libc : Libc) [Std.TransCmp libc.strverscmp] : Std.TransCmp (keyOrder libc) :=
  inferInstanceAs (Std.TransCmp (compareLex _ _))

instance (libc : Libc) (withKeys : Bool) [Std.TransCmp libc.strverscmp] :
    Std.TransCmp (rankOrder libc withKeys) := by
  cases withKeys with
  | false => exact inferInstanceAs (Std.TransCmp (compareLex _ (idOrder libc)))
  | true =>
    exact inferInstanceAs (Std.TransCmp (compareLex _ (compareLex (keyOrder libc) (idOrder libc))))

theorem idOrder_eq_lt {libc : Libc} [Std.TransCmp libc.strverscmp] (a b : EspEntry) :
    idOrder libc a b = .lt ↔ (if libc.strverscmp (entryId a.name).1 (entryId b.name).1 ≠ .eq then
        decide (libc.strverscmp (entryId a.name).1 (entryId b.name).1 = .gt)
      else decide (strcmp a.name b.name = .gt)) = true := by
  unfold idOrder compareLex descending onKey
  rw [@Std.OrientedCmp.eq_swap _ libc.strverscmp _ (entryId b.name).1,
    @Std.OrientedCmp.eq_swap _ strcmp _ b.name]
  cases libc.strverscmp (entryId a.name).1 (entryId b.name).1 <;>
    cases strcmp a.name b.name <;> simp

def EspEntry.hasKey (e : EspEntry) : Bool :=
  decide (e.sortKey.bytes ≠ [])

variable {libc : Libc}

theorem selectionRankLess_iff_pair [Std.TransCmp libc.strverscmp] (a b : EspEntry) :
    selectionRankLess libc a b = true ↔ rankOrder libc (a.hasKey && b.hasKey) a b = .lt := by
  have byId := @idOrder_eq_lt libc _ a b
  have byKey : keyOrder libc a b = (strcmp a.sortKey b.sortKey).then
        (libc.strverscmp a.version b.version).swap := by
    unfold keyOrder compareLex descending onKey
    rw [@Std.OrientedCmp.eq_swap _ libc.strverscmp _ b.version]
  unfold selectionRankLess rankOrder compareLex onKey falseFirst
  dsimp only
  by_cases exhausted : decide ((entryId a.name).2 = 0) =
      decide ((entryId b.name).2 = 0)
  · rw [if_pos exhausted, if_neg (not_not_intro exhausted)]
    by_cases both : a.sortKey.bytes ≠ [] ∧ b.sortKey.bytes ≠ []
    · have keyed : (a.hasKey && b.hasKey) = true := by simp [EspEntry.hasKey, both.1, both.2]
      rw [if_pos both, keyed]
      simp only [if_true, Ordering.then]
      rw [byKey]
      cases strcmp a.sortKey b.sortKey <;>
        cases libc.strverscmp a.version b.version <;> simp [byId]
    · have notKeyed : (a.hasKey && b.hasKey) = false := by
        rw [not_and_or] at both
        simpa [EspEntry.hasKey, or_iff_not_imp_left] using both
      rw [if_neg both, notKeyed, ← byId]
      simp
  · rw [if_neg exhausted, if_pos exhausted]
    by_cases isExhausted : (entryId b.name).2 = 0 <;> simp [isExhausted]

def exampleLibc : Libc where
  fnmatch := globMatch
  strverscmp := strcmp
  dName name := CStr.ofBytes (name.map UInt16.toUInt8)

def slotFile (node : Nat) (name linux version : String) : File where
  node := node
  name := ascii16 name
  isDirectory := false
  content := some (ascii "sort-key cix" ++ [newline] ++ ascii "version " ++
    ascii version ++ [newline] ++ ascii "linux " ++ ascii linux)

def slotEntry (name linux version : String) : EspEntry where
  name := CStr.ofString name
  title := CStr.empty
  linuxImage := CStr.ofString linux
  options := CStr.empty
  sortKey := "cix"
  version := CStr.ofString version
  matchesDefault := true

def twoSlots : List File :=
  [slotFile 0 "cix-a.conf" "/a" "1", slotFile 1 "cix-b+3.conf" "/b" "2"]

end Cix.Boot
