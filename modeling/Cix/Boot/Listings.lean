import Cix.Boot.RankOrder
import Cix.Lib.OrderFree

/-!
# The entry reported and the order of the directory

`selected_entry` keeps the best entry it has seen while it goes through the
entries as `readdir` lists them.  What it reports is the same for every order
when one candidate comes before each of the others; a comparison that looks at
the sort keys of some pairs alone can put three entries in a circle.
-/

namespace Cix.Boot

open Cix.Lib List

/-- Every entry that can be read, in the order of `readdir`. -/
def readable (libc : Libc) (conf : Option (List UInt8)) (listing : List File) : List EspEntry :=
  (listing.filter fun f => (libc.dName f.name).bytes.head? ≠ some 46).filterMap
    (readEspEntry libc (loaderDefault conf))

def eligible (conf : Option (List UInt8)) (entries : List EspEntry) : List EspEntry :=
  if (loaderDefault conf).bytes = [] then []
  else entries.filter EspEntry.matchesDefault

def OrderFree (libc : Libc) (conf : Option (List UInt8)) (listing : List File) : Prop :=
  ∀ other : List File, other.Perm listing →
    selectedEntry libc conf other = selectedEntry libc conf listing

/-- No entry is selected, or the entries are no more than are read and one
that is selected comes before each of the others. -/
def Decided (libc : Libc) (conf : Option (List UInt8)) (listing : List File) : Prop :=
  eligible conf (readable libc conf listing) = [] ∨
    (readable libc conf listing).length ≤ espMaxEntries ∧
      ∃ winner, BeatsAll (selectionRankLess libc)
        (eligible conf (readable libc conf listing)) winner

section Listings

variable {libc : Libc} {conf : Option (List UInt8)} {listing : List File}

theorem candidates_eq : candidates libc conf listing =
      eligible conf ((readable libc conf listing).take espMaxEntries) :=
  rfl

theorem readable_eq : readable libc conf listing = listing.filterMap fun f =>
      if (libc.dName f.name).bytes.head? ≠ some 46 then
        readEspEntry libc (loaderDefault conf) f
      else none := by
  unfold readable
  rw [filterMap_filter]
  simp

variable {entries : List EspEntry}

theorem eligible_perm {other : List EspEntry} (order : other.Perm entries) :
    (eligible conf other).Perm (eligible conf entries) := by
  unfold eligible
  split
  · exact List.Perm.refl _
  · exact order.filter _

theorem exists_listing (order : entries.Perm (readable libc conf listing)) :
    ∃ other : List File, other.Perm listing ∧ readable libc conf other = entries := by
  rw [readable_eq] at order
  obtain ⟨other, otherOrder, made⟩ := exists_perm_filterMap _ order
  exact ⟨other, otherOrder, readable_eq.trans made⟩

theorem readable_perm {other : List File} (order : other.Perm listing) :
    (readable libc conf other).Perm (readable libc conf listing) :=
  (order.filter _).filterMap _

variable [Std.TransCmp libc.strverscmp]

theorem selectionRankLess_asymm (a b : EspEntry) (before : selectionRankLess libc a b = true) :
    selectionRankLess libc b a = false := by
  rw [selectionRankLess_iff_pair] at before
  rw [← Bool.not_eq_true, selectionRankLess_iff_pair, Bool.and_comm,
    @Std.OrientedCmp.eq_swap _ (rankOrder libc _), before]
  exact Ordering.noConfusion

omit [Std.TransCmp libc.strverscmp] in
theorem idOrder_of_rankOrder {withKeys : Bool} {a b : EspEntry}
    (same : rankOrder libc withKeys a b = .eq) :
    rankOrder libc false a b = .eq ∧ idOrder libc a b = .eq := by
  unfold rankOrder compareLex at same ⊢
  rw [Ordering.then_eq_eq] at same ⊢
  obtain ⟨exhausted, rest⟩ := same
  have byId : idOrder libc a b = .eq := by
    cases withKeys with
    | false => exact rest
    | true => exact (Ordering.then_eq_eq.mp rest).2
  exact ⟨⟨exhausted, byId⟩, byId⟩

theorem name_eq_of_tie {a b : EspEntry} (first : selectionRankLess libc a b = false)
    (second : selectionRankLess libc b a = false) : a.name = b.name := by
  rw [← Bool.not_eq_true, selectionRankLess_iff_pair] at first second
  rw [Bool.and_comm, @Std.OrientedCmp.eq_swap _ (rankOrder libc _)] at second
  have same : rankOrder libc (a.hasKey && b.hasKey) a b = .eq := by
    revert first second
    cases rankOrder libc (a.hasKey && b.hasKey) a b <;> simp
  have byId := (idOrder_of_rankOrder same).2
  unfold idOrder compareLex at byId
  exact (strcmp_eq_iff.mp (Ordering.then_eq_eq.mp byId).2).symm

theorem orderFree_of_decided (decided : Decided libc conf listing) :
    OrderFree libc conf listing := by
  intro other order
  have entries : (readable libc conf other).Perm (readable libc conf listing) :=
    readable_perm order
  have same : (eligible conf (readable libc conf other)).Perm
      (eligible conf (readable libc conf listing)) := eligible_perm entries
  unfold selectedEntry
  rw [candidates_eq, candidates_eq]
  rcases decided with nothing | ⟨few, winner, beats⟩
  · have none : ∀ list : List EspEntry, eligible conf list = [] →
          eligible conf (list.take espMaxEntries) = [] := by
      intro list empty
      unfold eligible at empty ⊢
      split
      · rfl
      next given =>
        rw [if_neg given] at empty
        rw [filter_eq_nil_iff] at empty ⊢
        intro e mem
        exact empty e (mem_of_mem_take mem)
    have noOther : eligible conf (readable libc conf other) = [] := by
      rw [nothing] at same
      exact same.eq_nil
    rw [none _ nothing, none _ noOther]
  · rw [take_of_length_le few, take_of_length_le (entries.length_eq.trans_le few),
      bestOf_of_beatsAll selectionRankLess_asymm beats,
      bestOf_of_beatsAll selectionRankLess_asymm (beats.perm same)]

omit [Std.TransCmp libc.strverscmp] in
theorem exists_reported (free : OrderFree libc conf listing)
    {e : EspEntry} (mem : e ∈ eligible conf (readable libc conf listing)) :
    ∃ winner ∈ eligible conf (readable libc conf listing), ∀ entries : List EspEntry,
        entries.Perm (readable libc conf listing) → (bestOf (selectionRankLess libc)
            (eligible conf (entries.take espMaxEntries))).map EspEntry.name = some winner.name := by
  have constant : ∀ entries : List EspEntry, entries.Perm (readable libc conf listing) →
        (bestOf (selectionRankLess libc)
          (eligible conf (entries.take espMaxEntries))).map EspEntry.name =
            selectedEntry libc conf listing := by
    intro entries order
    obtain ⟨other, otherOrder, made⟩ := exists_listing order
    rw [← free other otherOrder, selectedEntry, candidates_eq, made]
  have given : (loaderDefault conf).bytes ≠ [] := by
    intro empty
    rw [eligible, if_pos empty] at mem
    cases mem
  rw [eligible, if_neg given] at mem ⊢
  obtain ⟨inAll, matching⟩ := mem_filter.mp mem
  -- the entry first of all: something is reported
  obtain ⟨front, back, split⟩ := append_of_mem inAll
  have order : (e :: (front ++ back)).Perm (readable libc conf listing) := by
    rw [split]
    exact perm_middle.symm
  have first := constant _ order
  have nonempty : eligible conf ((e :: (front ++ back)).take espMaxEntries) ≠ [] := by
    rw [eligible, if_neg given, espMaxEntries, take_succ_cons, filter_cons_of_pos matching]
    exact cons_ne_nil _ _
  obtain ⟨winner, inTaken, found⟩ := @exists_bestOf _ (selectionRankLess libc) _ nonempty
  rw [found] at first
  rw [eligible, if_neg given] at inTaken
  obtain ⟨inPrefix, alsoMatching⟩ := mem_filter.mp inTaken
  refine ⟨winner, mem_filter.mpr ⟨order.mem_iff.mp (mem_of_mem_take inPrefix), alsoMatching⟩, ?_⟩
  intro entries entriesOrder
  rw [constant entries entriesOrder, ← first]
  rfl

theorem mem_of_mem_eligible {e : EspEntry} (mem : e ∈ eligible conf entries) : e ∈ entries := by
  unfold eligible at mem
  split at mem
  · cases mem
  · exact (mem_filter.mp mem).1

theorem moveLast {e : EspEntry} (mem : e ∈ entries) : ∃ rest, (rest ++ [e]).Perm entries := by
  obtain ⟨front, back, split⟩ := append_of_mem mem
  refine ⟨front ++ back, ?_⟩
  rw [split, append_assoc]
  exact (perm_append_comm.append_left front)

theorem decided_of_orderFree (distinct : ((readable libc conf listing).map EspEntry.name).Nodup)
    (free : OrderFree libc conf listing) : Decided libc conf listing := by
  by_cases nothing : eligible conf (readable libc conf listing) = []
  · exact Or.inl nothing
  obtain ⟨some, isSome⟩ := exists_mem_of_ne_nil _ nothing
  obtain ⟨winner, winnerMember, reported⟩ := exists_reported free isSome
  have sameName : ∀ e ∈ readable libc conf listing, e.name = winner.name →
      e = winner := fun e mem same =>
    inj_on_of_nodup_map distinct mem (mem_of_mem_eligible winnerMember) same
  have few : (readable libc conf listing).length ≤ espMaxEntries := by
    by_contra many
    -- the winner behind more entries than are read
    obtain ⟨rest, order⟩ := moveLast (mem_of_mem_eligible winnerMember)
    have found := reported _ order
    have enough : espMaxEntries ≤ rest.length := by
      have length := order.length_eq
      rw [length_append, length_singleton] at length
      omega
    rw [take_append_of_le_length enough] at found
    obtain ⟨best, isBest, name⟩ := Option.map_eq_some_iff.mp found
    have inRest : best ∈ rest := mem_of_mem_take (mem_of_mem_eligible (mem_of_bestOf isBest))
    have isWinner := sameName best (order.mem_iff.mp (mem_append_left _ inRest)) name
    have nodup := (order.nodup_iff).mpr distinct.of_map
    rw [nodup_append] at nodup
    exact nodup.2.2 best inRest winner (mem_singleton.mpr rfl) isWinner
  refine Or.inr ⟨few, winner, winnerMember, ?_⟩
  intro e mem
  by_contra notBeaten
  rw [not_or, Bool.not_eq_true] at notBeaten
  obtain ⟨different, notBetter⟩ := notBeaten
  have inAll := mem_of_mem_eligible mem
  have beaten : selectionRankLess libc e winner = true := by
    rw [← Bool.not_eq_false]
    intro tie
    exact different (sameName e inAll (name_eq_of_tie tie notBetter))
  -- the entry that the winner does not come before, last of all
  obtain ⟨rest, order⟩ := moveLast inAll
  have found := reported _ order
  rw [take_of_length_le (order.length_eq.trans_le few)] at found
  obtain ⟨best, isBest, name⟩ := Option.map_eq_some_iff.mp found
  have isWinner := sameName best
    (order.mem_iff.mp (mem_of_mem_eligible (mem_of_bestOf isBest))) name
  have split : eligible conf (rest ++ [e]) = eligible conf rest ++ [e] := by
    unfold eligible at mem ⊢
    split at mem
    · cases mem
    next given =>
      rw [if_neg given, if_neg given, filter_append, filter_cons_of_pos (mem_filter.mp mem).2]
      rfl
  rw [split] at isBest
  exact ne_of_bestOf_snoc beaten different isBest isWinner

end Listings

/-- What is reported does not depend on the order of the directory when the
entries are no more than are read and one candidate comes before each of the
others, and only then where no two names are cut to the same.  The comparison
is consistent on the candidates exactly when no entry without a sort key stands
between two with one that their keys order the other way round; and entries
neither of which comes first have one id. -/
theorem selected_order_free (libc : Libc) [Std.TransCmp libc.strverscmp]
    (conf : Option (List UInt8)) (listing : List File) :
    (Decided libc conf listing → OrderFree libc conf listing) ∧
      (((readable libc conf listing).map EspEntry.name).Nodup →
        OrderFree libc conf listing → Decided libc conf listing) ∧
      (Consistent (selectionRankLess libc) (eligible conf (readable libc conf listing)) ↔
        ¬ Wedged EspEntry.hasKey (rankOrder libc true) (rankOrder libc false)
          (eligible conf (readable libc conf listing))) ∧
      ∀ a b, selectionRankLess libc a b = false → selectionRankLess libc b a = false →
          entryId a.name = entryId b.name := by
  refine ⟨orderFree_of_decided, decided_of_orderFree, ?_, ?_⟩
  · apply consistent_mixed_iff
    · intro a b
      rw [selectionRankLess_iff_pair, mixed]
      cases a.hasKey && b.hasKey with
      | false => rfl
      | true => rfl
    · intro a b same
      exact (idOrder_of_rankOrder same).1
  · intro a b first second
    rw [name_eq_of_tie first second]

/-- The two slots are reported in one way. -/
theorem twoSlots_order_free : OrderFree exampleLibc (some (ascii "default cix-*")) twoSlots := by
  have ordered : Std.TransCmp exampleLibc.strverscmp := inferInstanceAs (Std.TransCmp strcmp)
  have decided : Decided exampleLibc (some (ascii "default cix-*"))
      twoSlots := by
    refine Or.inr ⟨by decide +kernel,
      slotEntry "cix-b+3.conf" "/b" "2", ?_, ?_⟩ <;> decide +kernel
  exact (selected_order_free exampleLibc _ _).1 decided

def keyedFile (node : Nat) (name : String) (key : Option String) : File where
  node := node
  name := ascii16 name
  isDirectory := false
  content := some (match key with
    | none => ascii "linux /image"
    | some key => ascii "sort-key " ++ ascii key)

def circle : List File :=
  [keyedFile 0 "cix-a.conf" (some "1"), keyedFile 1 "cix-b.conf" none,
    keyedFile 2 "cix-c.conf" (some "2")]

/-- What is reported depends on which of them the directory lists last. -/
theorem circle_not_order_free : ¬ OrderFree exampleLibc (some (ascii "default cix-*")) circle := by
  intro free
  have order : (circle.rotate 1).Perm circle := rotate_perm circle 1
  have same := free _ order
  revert same
  decide +kernel

end Cix.Boot
