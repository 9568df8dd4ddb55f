import Cix.Lib.CString

/-!
# The order of C strings

`strcmp` compares bytes as unsigned numbers, from the left.  It is a linear
order of the strings.
-/

namespace Cix.Lib

def onKey {α β : Type*} (cmp : β → β → Ordering) (key : α → β) (a b : α) :
    Ordering :=
  cmp (key a) (key b)

instance {α β : Type*} (cmp : β → β → Ordering) (key : α → β)
    [Std.TransCmp cmp] : Std.TransCmp (onKey cmp key) where
  eq_swap := by
    intro a b
    exact @Std.OrientedCmp.eq_swap _ cmp _ (key a) (key b)
  isLE_trans := by
    intro a b c
    exact @Std.TransCmp.isLE_trans _ cmp _ (key a) (key b) (key c)

def byteOrder (a b : UInt8) : Ordering :=
  if a.toNat < b.toNat then .lt
  else if b.toNat < a.toNat then .gt
  else .eq

instance : Std.TransCmp byteOrder where
  eq_swap := by
    intro a b
    unfold byteOrder
    repeat' split
    all_goals first | rfl | omega
  isLE_trans := by
    intro a b c
    unfold byteOrder
    repeat' split
    all_goals simp
    all_goals omega

instance : Std.LawfulEqCmp byteOrder where
  compare_self := by
    intro a
    simp [byteOrder]
  eq_of_compare := by
    intro a b same
    unfold byteOrder at same
    split at same
    · cases same
    split at same
    · cases same
    · exact UInt8.toNat_inj.mp (by omega)

/-- The sign of `strcmp`. -/
def strcmp (a b : CStr) : Ordering :=
  List.compareLex byteOrder a.bytes b.bytes

instance : Std.TransCmp strcmp :=
  inferInstanceAs (Std.TransCmp (onKey (List.compareLex byteOrder) CStr.bytes))

theorem strcmp_eq_iff {a b : CStr} : strcmp a b = .eq ↔ a = b := by
  rw [strcmp, Std.LawfulEqCmp.compare_eq_iff_eq]
  exact ⟨CStr.ext, congrArg CStr.bytes⟩

instance : Std.LawfulEqCmp strcmp where
  compare_self := strcmp_eq_iff.mpr rfl
  eq_of_compare := strcmp_eq_iff.mp

end Cix.Lib
