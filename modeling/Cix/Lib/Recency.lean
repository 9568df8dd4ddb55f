import Mathlib.Data.Finset.Card
import Mathlib.Data.List.Nodup

/-!
# Tables that drop what was used longest ago

A table of a fixed size in which each entry has the number of the visit that
used it last.  A visit looks its key up; a key that is not there gets a free
place, or the place of the entry that was used longest ago.  An entry survives
exactly as long as fewer other keys than there are places have been visited
since.
-/

namespace Cix.Lib

open List

universe u v

structure Place (κ : Type u) (ν : Type v) where
  key : κ
  value : ν
  used : Nat
  deriving DecidableEq

structure Recent (κ : Type u) (ν : Type v) where
  places : List (Place κ ν)
  clock : Nat
  deriving DecidableEq

namespace Recent

variable {κ : Type u} {ν : Type v}

def start : Recent κ ν := ⟨[], 0⟩

def oldest : List (Place κ ν) → Nat
  | [] => 0
  | e :: rest =>
    match rest[oldest rest]? with
    | none => 0
    | some other => if other.used < e.used then oldest rest + 1 else 0

variable [DecidableEq κ]

def lookup (r : Recent κ ν) (key : κ) : Option ν :=
  (r.places.find? fun e => e.key = key).map Place.value

def visit (size : Nat) (r : Recent κ ν) (key : κ) (update : Option ν → ν) : ν × Recent κ ν :=
  let value := update (r.lookup key)
  let e : Place κ ν := ⟨key, value, r.clock + 1⟩
  (value,
    { clock := r.clock + 1
      places :=
        match r.places.findIdx? fun e => e.key = key with
        | some i => r.places.set i e
        | none =>
          if r.places.length < size then r.places ++ [e]
          else r.places.set (oldest r.places) e })

structure Valid (size : Nat) (r : Recent κ ν) : Prop where
  keys : (r.places.map Place.key).Nodup
  visits : (r.places.map Place.used).Nodup
  past : ∀ e ∈ r.places, e.used ≤ r.clock
  room : r.places.length ≤ size

omit [DecidableEq κ] in
theorem valid_start (size : Nat) : (start : Recent κ ν).Valid size where
  keys := nodup_nil
  visits := nodup_nil
  past := fun _ mem => by cases mem
  room := Nat.zero_le _

omit [DecidableEq κ] in
theorem oldest_spec {places : List (Place κ ν)} (some_ : places ≠ []) :
    ∃ e, places[oldest places]? = some e ∧ ∀ other ∈ places, e.used ≤ other.used := by
  induction places with
  | nil => exact absurd rfl some_
  | cons e rest ih =>
    cases rest with
    | nil =>
      refine ⟨e, rfl, ?_⟩
      intro other mem
      rw [mem_singleton.mp mem]
    | cons next more =>
      obtain ⟨least, isLeast, below⟩ := ih (by simp)
      rw [oldest, isLeast]
      simp only
      split
      next smaller =>
        refine ⟨least, by rw [getElem?_cons_succ, isLeast], ?_⟩
        intro other mem
        rcases mem_cons.mp mem with rfl | later
        · exact Nat.le_of_lt smaller
        · exact below other later
      next larger =>
        refine ⟨e, rfl, ?_⟩
        intro other mem
        rcases mem_cons.mp mem with rfl | later
        · exact Nat.le_refl _
        · exact Nat.le_trans (Nat.not_lt.mp larger) (below other later)

theorem mem_set_of_distinct {α β : Type*} {f : α → β} {l : List α}
    (distinct : (l.map f).Nodup) {i : Nat} {old : α}
    (isOld : l[i]? = some old) (x y : α) :
    x ∈ l.set i y ↔ x = y ∨ (x ∈ l ∧ f x ≠ f old) := by
  have inside : i < l.length := (List.getElem?_eq_some_iff.mp isOld).1
  constructor
  · intro mem
    obtain ⟨j, isX⟩ := mem_iff_getElem?.mp mem
    rw [getElem?_set] at isX
    split at isX
    next here =>
      cases isX
      exact Or.inl rfl
    next elsewhere =>
      refine Or.inr ⟨mem_iff_getElem?.mpr ⟨j, isX⟩, ?_⟩
      intro same
      have isFx : (l.map f)[j]? = some (f x) := by
        rw [getElem?_map, isX]
        rfl
      have isFold : (l.map f)[i]? = some (f old) := by
        rw [getElem?_map, isOld]
        rfl
      rw [same, ← isFold] at isFx
      have jInside : j < (l.map f).length := by
        rw [length_map]
        exact (List.getElem?_eq_some_iff.mp isX).1
      exact elsewhere ((getElem?_inj jInside distinct).mp isFx).symm
  · rintro (rfl | ⟨mem, different⟩)
    · exact mem_iff_getElem?.mpr ⟨i, by
        rw [getElem?_set_self inside]⟩
    · obtain ⟨j, isX⟩ := mem_iff_getElem?.mp mem
      refine mem_iff_getElem?.mpr ⟨j, ?_⟩
      have elsewhere : i ≠ j := by
        rintro rfl
        rw [isOld] at isX
        cases isX
        exact different rfl
      rw [getElem?_set_ne elsewhere]
      exact isX

section Visits

variable {size : Nat} {r : Recent κ ν} {key : κ} {update : Option ν → ν}

def visited (r : Recent κ ν) (key : κ) (update : Option ν → ν) : Place κ ν :=
  ⟨key, update (r.lookup key), r.clock + 1⟩

theorem mem_visit_of_hit (valid : r.Valid size)
    (hit : ∃ e ∈ r.places, e.key = key) (e : Place κ ν) :
    e ∈ (r.visit size key update).2.places ↔
      e = r.visited key update ∨ (e ∈ r.places ∧ e.key ≠ key) := by
  obtain ⟨old, isOld, isKey⟩ := hit
  cases found : r.places.findIdx? fun e => e.key = key with
  | none =>
    rw [findIdx?_eq_none_iff] at found
    exact absurd isKey (by simpa using found old isOld)
  | some i =>
    obtain ⟨inside, test, _⟩ := findIdx?_eq_some_iff_getElem.mp found
    have isPlace : r.places[i]? = some r.places[i] := getElem?_eq_getElem inside
    have sameKey : (r.places[i]).key = key := by simpa using test
    simp only [visit, found]
    rw [mem_set_of_distinct valid.keys isPlace, sameKey]
    rfl

theorem mem_visit_of_room (miss : ∀ e ∈ r.places, e.key ≠ key)
    (free : r.places.length < size) (e : Place κ ν) :
    e ∈ (r.visit size key update).2.places ↔ e = r.visited key update ∨ e ∈ r.places := by
  have found : (r.places.findIdx? fun e => e.key = key) = none := by
    rw [findIdx?_eq_none_iff]
    simpa using miss
  simp only [visit, found, if_pos free, mem_append, mem_singleton]
  exact Or.comm

theorem mem_visit_of_full (valid : r.Valid size) (positive : 0 < size)
    (miss : ∀ e ∈ r.places, e.key ≠ key)
    (full : ¬ r.places.length < size) :
    ∃ least ∈ r.places, (∀ other ∈ r.places, least.used ≤ other.used) ∧
      ∀ e, e ∈ (r.visit size key update).2.places ↔
        e = r.visited key update ∨ (e ∈ r.places ∧ e.key ≠ least.key) := by
  have occupied : r.places ≠ [] := by
    intro empty
    rw [empty] at full
    exact full positive
  obtain ⟨least, isLeast, below⟩ := oldest_spec occupied
  refine ⟨least, mem_iff_getElem?.mpr ⟨_, isLeast⟩, below, ?_⟩
  intro e
  have found : (r.places.findIdx? fun e => e.key = key) = none := by
    rw [findIdx?_eq_none_iff]
    simpa using miss
  simp only [visit, found, if_neg full]
  rw [mem_set_of_distinct valid.keys isLeast]
  rfl

theorem visited_mem (valid : r.Valid size) (positive : 0 < size) :
    r.visited key update ∈ (r.visit size key update).2.places := by
  by_cases hit : ∃ e ∈ r.places, e.key = key
  · exact (mem_visit_of_hit valid hit _).mpr (Or.inl rfl)
  · have miss : ∀ e ∈ r.places, e.key ≠ key := by simpa using hit
    by_cases free : r.places.length < size
    · exact (mem_visit_of_room miss free _).mpr (Or.inl rfl)
    · obtain ⟨_, _, _, mem⟩ :=
        @mem_visit_of_full _ _ _ size r key update valid positive miss free
      exact (mem _).mpr (Or.inl rfl)

end Visits

theorem visit_valid {size : Nat} {r : Recent κ ν} (valid : r.Valid size)
    (key : κ) (update : Option ν → ν) :
    (r.visit size key update).2.Valid size := by
  have later : r.clock + 1 ∉ r.places.map Place.used := by
    intro mem
    obtain ⟨e, isPlace, isUsed⟩ := mem_map.mp mem
    have past := valid.past e isPlace
    omega
  cases found : r.places.findIdx? fun e => e.key = key with
  | some i =>
    obtain ⟨inside, test, _⟩ := findIdx?_eq_some_iff_getElem.mp found
    have sameKey : (r.places[i]).key = key := by simpa using test
    refine ⟨?_, ?_, ?_, ?_⟩
    · simp only [visit, found, map_set]
      have insideKeys : i < (r.places.map Place.key).length := by simpa using inside
      have isKey : (r.places.map Place.key)[i] = key := by
        rw [getElem_map]
        exact sameKey
      conv => arg 1; arg 3; rw [← isKey]
      rw [set_getElem_self]
      exact valid.keys
    · simp only [visit, found, map_set]
      exact valid.visits.set later
    · simp only [visit, found]
      intro e mem
      rcases mem_or_eq_of_mem_set mem with old | rfl
      · exact Nat.le_succ_of_le (valid.past e old)
      · exact Nat.le_refl _
    · simp only [visit, found, length_set]
      exact valid.room
  | none =>
    have miss : key ∉ r.places.map Place.key := by
      intro mem
      obtain ⟨e, isPlace, isKey⟩ := mem_map.mp mem
      rw [findIdx?_eq_none_iff] at found
      exact absurd isKey (by simpa using found e isPlace)
    by_cases free : r.places.length < size
    · refine ⟨?_, ?_, ?_, ?_⟩
      · simp only [visit, found, if_pos free, map_append, map_cons, map_nil]
        exact concat_eq_append ▸ valid.keys.concat miss
      · simp only [visit, found, if_pos free, map_append, map_cons, map_nil]
        exact concat_eq_append ▸ valid.visits.concat later
      · simp only [visit, found, if_pos free]
        intro e mem
        rcases mem_append.mp mem with old | new
        · exact Nat.le_succ_of_le (valid.past e old)
        · rw [mem_singleton.mp new]
      · simp only [visit, found, if_pos free, length_append, length_singleton]
        exact free
    · refine ⟨?_, ?_, ?_, ?_⟩
      · simp only [visit, found, if_neg free, map_set]
        exact valid.keys.set miss
      · simp only [visit, found, if_neg free, map_set]
        exact valid.visits.set later
      · simp only [visit, found, if_neg free]
        intro e mem
        rcases mem_or_eq_of_mem_set mem with old | rfl
        · exact Nat.le_succ_of_le (valid.past e old)
        · exact Nat.le_refl _
      · simp only [visit, found, if_neg free, length_set]
        exact valid.room

theorem lookup_of_mem {size : Nat} {r : Recent κ ν} (valid : r.Valid size)
    {e : Place κ ν} (mem : e ∈ r.places) :
    r.lookup e.key = some e.value := by
  unfold lookup
  cases found : r.places.find? fun other => other.key = e.key with
  | none =>
    rw [find?_eq_none] at found
    exact absurd (decide_eq_true rfl) (found e mem)
  | some other =>
    have isKey : other.key = e.key := by simpa using find?_some found
    have same : other = e :=
      inj_on_of_nodup_map valid.keys (mem_of_find?_eq_some found) mem isKey
    rw [same]
    rfl

theorem lookup_of_missing {r : Recent κ ν} {key : κ}
    (miss : ∀ e ∈ r.places, e.key ≠ key) : r.lookup key = none := by
  unfold lookup
  rw [Option.map_eq_none_iff, find?_eq_none]
  simpa using miss

def visits (size : Nat) (r : Recent κ ν) (list : List (κ × (Option ν → ν))) : Recent κ ν :=
  list.foldl (fun r v => (r.visit size v.1 v.2).2) r

/-- The entry that visit `since` has left under `key`, after visits of other keys,
which are in the places used after it. -/
def Tracks (size : Nat) (key : κ) (value : ν) (since : Nat)
    (others : Finset κ) (r : Recent κ ν) : Prop :=
  (∃ e ∈ r.places, e.key = key ∧ e.value = value ∧ e.used = since ∧ ∀ k, k ∈ others ↔
      ∃ other ∈ r.places, other.key = k ∧ since < other.used) ∨
    ((∀ e ∈ r.places, e.key ≠ key) ∧ size ≤ others.card)

section Tracking

variable {size : Nat} {r : Recent κ ν} {key : κ} {value : ν} {since : Nat}
  {others : Finset κ}

omit [DecidableEq κ] in
theorem Valid.same_key (valid : r.Valid size) {e other : Place κ ν}
    (first : e ∈ r.places) (second : other ∈ r.places)
    (same : e.key = other.key) : e = other :=
  inj_on_of_nodup_map valid.keys first second same

omit [DecidableEq κ] in
theorem Valid.same_visit (valid : r.Valid size) {e other : Place κ ν}
    (first : e ∈ r.places) (second : other ∈ r.places)
    (same : e.used = other.used) : e = other :=
  inj_on_of_nodup_map valid.visits first second same

theorem card_keys (valid : r.Valid size) :
    (r.places.map Place.key).toFinset.card = r.places.length := by
  rw [toFinset_card_of_nodup valid.keys, length_map]

theorem tracks_visit (valid : r.Valid size) (positive : 0 < size)
    (foreign : key ∉ others) (tracks : Tracks size key value since others r)
    {k : κ} (different : k ≠ key) (update : Option ν → ν) :
    Tracks size key value since (insert k others) (r.visit size k update).2 := by
  have grown : others.card ≤ (insert k others).card :=
    Finset.card_le_card (Finset.subset_insert _ _)
  have newKey : (r.visited k update).key = k := rfl
  by_cases hit : ∃ e ∈ r.places, e.key = k
  · have mem := @mem_visit_of_hit _ _ _ size r k update valid hit
    rcases tracks with ⟨e, isPlace, isKey, isValue, isUsed, newer⟩ | ⟨missing, enough⟩
    · refine Or.inl ⟨e, (mem e).mpr (Or.inr ⟨isPlace, ?_⟩), isKey, isValue, isUsed, ?_⟩
      · rw [isKey]
        exact Ne.symm different
      · intro k'
        rw [Finset.mem_insert, newer]
        constructor
        · rintro (rfl | ⟨other, isOther, rfl, after⟩)
          · refine ⟨_, (mem _).mpr (Or.inl rfl), rfl, ?_⟩
            have past := valid.past e isPlace
            simp only [visited]
            omega
          · by_cases again : other.key = k
            · refine ⟨_, (mem _).mpr (Or.inl rfl), again.symm, ?_⟩
              have past := valid.past other isOther
              simp only [visited]
              omega
            · exact ⟨other, (mem _).mpr (Or.inr ⟨isOther, again⟩), rfl, after⟩
        · rintro ⟨other, isOther, rfl, after⟩
          rcases (mem other).mp isOther with rfl | ⟨old, _⟩
          · exact Or.inl rfl
          · exact Or.inr ⟨other, old, rfl, after⟩
    · refine Or.inr ⟨?_, Nat.le_trans enough grown⟩
      intro e isPlace
      rcases (mem e).mp isPlace with rfl | ⟨old, _⟩
      · exact different
      · exact missing e old
  · have miss : ∀ e ∈ r.places, e.key ≠ k := by simpa using hit
    by_cases free : r.places.length < size
    · have mem := @mem_visit_of_room _ _ _ size r k update miss free
      rcases tracks with ⟨e, isPlace, isKey, isValue, isUsed, newer⟩ | ⟨missing, enough⟩
      · refine Or.inl ⟨e, (mem e).mpr (Or.inr isPlace), isKey, isValue, isUsed, ?_⟩
        intro k'
        rw [Finset.mem_insert, newer]
        constructor
        · rintro (rfl | ⟨other, isOther, rfl, after⟩)
          · refine ⟨_, (mem _).mpr (Or.inl rfl), rfl, ?_⟩
            have past := valid.past e isPlace
            simp only [visited]
            omega
          · exact ⟨other, (mem _).mpr (Or.inr isOther), rfl, after⟩
        · rintro ⟨other, isOther, rfl, after⟩
          rcases (mem other).mp isOther with rfl | old
          · exact Or.inl rfl
          · exact Or.inr ⟨other, old, rfl, after⟩
      · refine Or.inr ⟨?_, Nat.le_trans enough grown⟩
        intro e isPlace
        rcases (mem e).mp isPlace with rfl | old
        · exact different
        · exact missing e old
    · obtain ⟨least, isLeast, below, mem⟩ :=
        @mem_visit_of_full _ _ _ size r k update valid positive miss free
      rcases tracks with ⟨e, isPlace, isKey, isValue, isUsed, newer⟩ | ⟨missing, enough⟩
      · by_cases evicted : least.key = key
        · -- All other places were used after this one, so their keys are
          -- exactly those that have been visited since.
          have isEntry : least = e := valid.same_key isLeast isPlace (evicted.trans isKey.symm)
          have covered : (r.places.map Place.key).toFinset ⊆
              insert key others := by
            intro k' isKey'
            obtain ⟨other, isOther, rfl⟩ := mem_map.mp (mem_toFinset.mp isKey')
            rw [Finset.mem_insert]
            by_cases own : other.key = key
            · exact Or.inl own
            · refine Or.inr ((newer _).mpr ⟨other, isOther, rfl, ?_⟩)
              have atLeast := below other isOther
              rw [isEntry, isUsed] at atLeast
              apply Nat.lt_of_le_of_ne atLeast
              intro same
              have isSame := valid.same_visit isPlace isOther (isUsed.trans same)
              exact own (isSame ▸ isKey)
          have fresh : k ∉ others := by
            intro known
            obtain ⟨other, isOther, isK, _⟩ := (newer k).mp known
            exact miss other isOther isK
          have counted := Finset.card_le_card covered
          rw [card_keys valid, Finset.card_insert_of_notMem foreign] at counted
          refine Or.inr ⟨?_, ?_⟩
          · intro other isOther
            rcases (mem other).mp isOther with rfl | ⟨_, apart⟩
            · exact different
            · rw [← evicted]
              exact apart
          · rw [Finset.card_insert_of_notMem fresh]
            omega
        · refine Or.inl ⟨e, (mem e).mpr (Or.inr ⟨isPlace, ?_⟩), isKey, isValue, isUsed, ?_⟩
          · rw [isKey]
            exact Ne.symm evicted
          · intro k'
            rw [Finset.mem_insert, newer]
            constructor
            · rintro (rfl | ⟨other, isOther, rfl, after⟩)
              · refine ⟨_, (mem _).mpr (Or.inl rfl), rfl, ?_⟩
                have past := valid.past e isPlace
                simp only [visited]
                omega
              · refine ⟨other, (mem _).mpr (Or.inr ⟨isOther, ?_⟩), rfl, after⟩
                intro same
                have isSame := valid.same_key isOther isLeast same
                have atMost := below e isPlace
                rw [← isSame, isUsed] at atMost
                omega
            · rintro ⟨other, isOther, rfl, after⟩
              rcases (mem other).mp isOther with rfl | ⟨old, _⟩
              · exact Or.inl rfl
              · exact Or.inr ⟨other, old, rfl, after⟩
      · refine Or.inr ⟨?_, Nat.le_trans enough grown⟩
        intro e isPlace
        rcases (mem e).mp isPlace with rfl | ⟨old, _⟩
        · exact different
        · exact missing e old

theorem lookup_of_tracks (valid : r.Valid size) (foreign : key ∉ others)
    (tracks : Tracks size key value since others r) :
    r.lookup key = if others.card < size then some value else none := by
  rcases tracks with ⟨e, isPlace, isKey, isValue, _, newer⟩ | ⟨missing, enough⟩
  · have inside : insert key others ⊆ (r.places.map Place.key).toFinset := by
      intro k known
      rw [mem_toFinset, mem_map]
      rcases Finset.mem_insert.mp known with rfl | other
      · exact ⟨e, isPlace, isKey⟩
      · obtain ⟨place, isOther, isK, _⟩ := (newer k).mp other
        exact ⟨place, isOther, isK⟩
    have counted := Finset.card_le_card inside
    rw [card_keys valid, Finset.card_insert_of_notMem foreign] at counted
    have room := valid.room
    rw [if_pos (by omega), ← isKey, lookup_of_mem valid isPlace, isValue]
  · rw [if_neg (Nat.not_lt.mpr enough), lookup_of_missing missing]

end Tracking

theorem lookup_visits {size : Nat} (positive : 0 < size) {r : Recent κ ν}
    (valid : r.Valid size) (key : κ) (update : Option ν → ν)
    (list : List (κ × (Option ν → ν))) (foreign : ∀ v ∈ list, v.1 ≠ key) :
    ((r.visit size key update).2.visits size list).lookup key =
      if (list.map Prod.fst).toFinset.card < size then
        some (r.visit size key update).1
      else none := by
  have tracked : ((r.visit size key update).2.visits size list).Valid size ∧
      Tracks size key (r.visit size key update).1 (r.clock + 1) (list.map Prod.fst).toFinset
        ((r.visit size key update).2.visits size list) := by
    induction list using List.reverseRecOn with
    | nil =>
      have next := visit_valid valid key update
      refine ⟨next, Or.inl ⟨r.visited key update,
        visited_mem valid positive, rfl, rfl, rfl, ?_⟩⟩
      intro k
      refine iff_of_false (by simp) ?_
      rintro ⟨other, isOther, _, after⟩
      exact absurd (next.past other isOther) (Nat.not_le.mpr after)
    | append_singleton list v ih =>
      obtain ⟨soFar, tracks⟩ := ih fun v mem => foreign v (mem_append_left _ mem)
      have apart : v.1 ≠ key := foreign v (by simp)
      have unseen : key ∉ (list.map Prod.fst).toFinset := by
        intro seen
        obtain ⟨w, isVisit, isKey⟩ := mem_map.mp (mem_toFinset.mp seen)
        exact foreign w (mem_append_left _ isVisit) isKey
      have grown : ((list ++ [v]).map Prod.fst).toFinset =
          insert v.1 (list.map Prod.fst).toFinset := by
        ext k
        simp
      rw [grown]
      unfold visits
      rw [List.foldl_append]
      exact ⟨visit_valid soFar v.1 v.2, tracks_visit soFar positive unseen tracks apart v.2⟩
  have unseen : key ∉ (list.map Prod.fst).toFinset := by
    intro seen
    obtain ⟨w, isVisit, isKey⟩ := mem_map.mp (mem_toFinset.mp seen)
    exact foreign w isVisit isKey
  exact lookup_of_tracks tracked.1 unseen tracked.2

end Recent

end Cix.Lib
