import Cix.Lib.Machine
import Cix.Sources.Offers

/-!
# Who owns an item

The table of offers tells the owner of every item as the list, the choices and
the offers files do, as long as no operation leaves the list or the files
changed without loading the table again.
-/

namespace Cix.Sources

open Cix.Lib Cix.Json List Option

def offering (s : State) (item : CStr) : List Source :=
  s.sources.filter fun source =>
    decide (item ∈ offeredItems (s.files source.name.str))

def owner (s : State) (item : CStr) (outSize : Nat) : Owner × CStr :=
  match chosen s item with
  | some source => (.one, source.truncate outSize)
  | none =>
    match offering s item with
    | [] => (.none, CStr.empty)
    | [source] => (.one, source.name.str.truncate outSize)
    | several => (.conflict, namesOf several outSize)

structure Told (s : State) : Prop where
  few : s.sources.length ≤ sourcesMax
  bits : ∀ item i, (maskOf s.offers item).testBit i = true ↔
    ∃ source, s.sources[i]? = some source ∧ item ∈ offeredItems (s.files source.name.str)

def ItemFits (s : State) (item : CStr) : Prop :=
  item.length < itemMax ∨ offering s (item.truncate itemMax) = []

def Answered (s : State) : Prop :=
  ∀ item outSize, ItemFits s item → ownerOf s item outSize = owner s item outSize

variable {s : State}

theorem short_of_mem_offeredItems {item : CStr}
    {content : Option (List UInt8)} (offered : item ∈ offeredItems content) :
    item.length < itemMax := by
  cases content with
  | none => cases offered
  | some text =>
    obtain ⟨line, mem, rfl⟩ := mem_map.mp offered
    have short : line.length < itemMax := by
      have := (mem_filter.mp mem).2
      simp only [Bool.and_eq_true, decide_eq_true_eq] at this
      exact this.2
    exact Nat.lt_of_le_of_lt (takeWhile_sublist _).length_le short

theorem testBit_shifted {i j : Nat} (small : i < sourcesMax) :
    ((1 <<< i) % 2 ^ 32).testBit j = true ↔ i = j := by
  have fits : 2 ^ i < 2 ^ 32 := Nat.pow_lt_pow_right (by decide) small
  rw [Nat.one_shiftLeft, Nat.mod_eq_of_lt fits, Nat.testBit_two_pow, decide_eq_true_eq]

theorem hasBit_gathered {sources : List Source}
    {files : CStr → Option (List UInt8)} (few : sources.length ≤ sourcesMax)
    (item : CStr) (i : Nat) :
    HasBit (gathered sources files) item i ↔ ∃ source, sources[i]? = some source ∧
        item ∈ offeredItems (files source.name.str) := by
  have small : ∀ {j source}, sources[j]? = some source → j < sourcesMax := by
    intro j source found
    have := (List.getElem?_eq_some_iff.mp found).1
    omega
  constructor
  · rintro ⟨entry, mem, rfl, set⟩
    obtain ⟨⟨source, j⟩, inList, inItems⟩ := mem_flatMap.mp mem
    have found := mem_zipIdx_iff_getElem?.mp inList
    obtain ⟨offered, inOffered, rfl⟩ := mem_map.mp inItems
    have same := (testBit_shifted (small found)).mp set
    exact ⟨source, same ▸ found, inOffered⟩
  · rintro ⟨source, found, offered⟩
    refine ⟨(item, (1 <<< i) % 2 ^ 32), ?_, rfl, (testBit_shifted (small found)).mpr rfl⟩
    apply mem_flatMap.mpr
    exact ⟨(source, i), mem_zipIdx_iff_getElem?.mpr found, mem_map_of_mem offered⟩

theorem told_offersLoad (few : s.sources.length ≤ sourcesMax) : Told (offersLoad s) := by
  refine ⟨few, ?_⟩
  intro item i
  exact (testBit_maskOf_mergeRuns _ item i).trans (hasBit_gathered few item i)

theorem offering_eq_nil_of_long {item : CStr} (long : itemMax ≤ item.length) :
    offering s item = [] := by
  apply filter_eq_nil_iff.mpr
  intro source _ offered
  have := short_of_mem_offeredItems (of_decide_eq_true offered)
  omega

theorem selected_maskOf (told : Told s) (item : CStr) :
    selected (maskOf s.offers item) s.sources = offering s item := by
  apply selected_eq_filter
  intro i source found
  rw [Bool.eq_iff_iff, told.bits, decide_eq_true_eq]
  constructor
  · rintro ⟨other, foundOther, offered⟩
    rw [found] at foundOther
    cases foundOther
    exact offered
  · intro offered
    exact ⟨source, found, offered⟩

theorem popcount_maskOf (told : Told s) (item : CStr) :
    popcount (maskOf s.offers item) = (offering s item).length := by
  rw [← selected_maskOf told]
  symm
  apply length_selected
  intro i set
  obtain ⟨source, found, _⟩ := (told.bits item i).mp set
  exact (List.getElem?_eq_some_iff.mp found).1

theorem offering_truncate {item : CStr} (fits : ItemFits s item) :
    offering s (item.truncate itemMax) = offering s item := by
  by_cases short : item.length < itemMax
  · rw [CStr.truncate_of_fits short]
  · rw [fits.resolve_left short, offering_eq_nil_of_long (by omega)]

theorem answered_of_told {s : State} (told : Told s) : Answered s := by
  intro item outSize fits
  have selects := selected_maskOf told (item.truncate itemMax)
  have counts := popcount_maskOf told (item.truncate itemMax)
  rw [offering_truncate fits] at selects counts
  unfold ownerOf owner
  dsimp only
  rw [selects]
  cases chosen s item with
  | some source => rfl
  | none =>
    match offered : offering s item with
    | [] =>
      rw [offered, length_nil, popcount_eq_zero_iff] at counts
      simp [counts]
    | [source] =>
      rw [offered, length_singleton] at counts
      have nonzero : maskOf s.offers (item.truncate itemMax) ≠ 0 := by
        rw [Ne, ← popcount_eq_zero_iff, counts]
        decide
      simp [nonzero, counts]
    | first :: second :: rest =>
      rw [offered] at counts
      have many : 2 ≤ popcount (maskOf s.offers (item.truncate itemMax)) := by
        rw [counts]
        simp
      have nonzero : maskOf s.offers (item.truncate itemMax) ≠ 0 := by
        rw [Ne, ← popcount_eq_zero_iff]
        omega
      have notOne : popcount (maskOf s.offers (item.truncate itemMax)) ≠ 1 := by omega
      simp [nonzero, notOne]

theorem Told.of_same {s next : State} (told : Told s)
    (table : next.offers = s.offers) (files : next.files = s.files)
    (names : next.sources.map (·.name) = s.sources.map (·.name)) :
    Told next := by
  have lengths := congrArg List.length names
  simp only [length_map] at lengths
  refine ⟨lengths ▸ told.few, ?_⟩
  intro item i
  have atPosition : (next.sources[i]?).map (·.name) =
      (s.sources[i]?).map (·.name) := by
    rw [← getElem?_map, names, getElem?_map]
  rw [table, told.bits, files]
  cases old : s.sources[i]? with
  | none =>
    rw [old] at atPosition
    simp [map_eq_none_iff.mp atPosition]
  | some source =>
    rw [old, map_some] at atPosition
    obtain ⟨after, found, name⟩ := map_eq_some_iff.mp atPosition
    simp [found, name]

theorem Told.append (told : Told s) {source : Source} (room : s.sources.length < sourcesMax)
    (offersNothing : offeredItems (s.files source.name.str) = []) :
    Told { s with sources := s.sources ++ [source] } := by
  refine ⟨by simpa using Nat.succ_le_of_lt room, ?_⟩
  intro item i
  change (maskOf s.offers item).testBit i = true ↔ _
  rw [told.bits]
  constructor
  · rintro ⟨old, found, offered⟩
    exact ⟨old, getElem?_append_left (List.getElem?_eq_some_iff.mp found).1 ▸ found, offered⟩
  · rintro ⟨old, found, offered⟩
    by_cases before : i < s.sources.length
    · rw [getElem?_append_left before] at found
      exact ⟨old, found, offered⟩
    · rw [getElem?_append_right (by omega)] at found
      have last := mem_of_getElem? found
      rw [mem_singleton.mp last] at offered
      change item ∈ offeredItems (s.files source.name.str) at offered
      rw [offersNothing] at offered
      cases offered

theorem Told.of_offered {next : State} (told : Told s)
    (table : next.offers = s.offers) (list : next.sources = s.sources)
    (same : ∀ name item, item ∈ offeredItems (next.files name) ↔
      item ∈ offeredItems (s.files name)) : Told next := by
  refine ⟨list ▸ told.few, ?_⟩
  intro item i
  rw [table, list, told.bits]
  simp only [same]

theorem Told.save {s : State} (told : Told s) (written : Bool) : Told (s.save written) := by
  cases written with
  | false => exact told
  | true => exact told.of_same rfl rfl rfl

theorem pkgsourceAdd_cases (given : Source) (written : Bool) (s : State) :
    ((pkgsourceAdd given written s).1 ≠ .ok ∧ (pkgsourceAdd given written s).2 = s) ∨
    (written = true ∧ validate given.normalised = .ok ∧ find s.sources given.name.str = none ∧
      s.sources.length < sourcesMax ∧
      pkgsourceAdd given written s = (.ok, { s with
          sources := s.sources ++ [given.normalised] }.save true)) := by
  unfold pkgsourceAdd
  by_cases valid : validate given.normalised = .ok
  · cases known : find s.sources given.normalised.name.str with
    | some other =>
      left
      simp [valid, known]
    | none =>
      by_cases room : s.sources.length < sourcesMax
      · cases written with
        | false =>
          left
          simp [valid, known, Nat.not_le_of_lt room]
        | true =>
          right
          refine ⟨rfl, valid, known, room, ?_⟩
          simp [valid, known, Nat.not_le_of_lt room]
      · left
        simp [valid, known, Nat.le_of_not_lt room]
  · left
    simp [valid]

theorem pkgsourceUpdate_cases (name : CStr) (u : Update) (written : Bool) (s : State) :
    ((pkgsourceUpdate name u written s).1 ≠ .ok ∧ (pkgsourceUpdate name u written s).2 = s) ∨
    (∃ i, ∃ before : Source, s.sources[i]? = some before ∧
      pkgsourceUpdate name u written s = (.ok, { s with
          sources := s.sources.set i (before.updated u) }.save true)) := by
  unfold pkgsourceUpdate
  cases position : (indexOf s.sources name).bind fun i =>
      (s.sources[i]?).map fun source => (i, source) with
  | none =>
    left
    simp
  | some found =>
    obtain ⟨i, _, inList⟩ := bind_eq_some_iff.mp position
    obtain ⟨before, atPosition, rfl⟩ := map_eq_some_iff.mp inList
    by_cases valid : validate (before.updated u) = .ok
    · cases written with
      | false =>
        left
        have undone : s.sources.set i before = s.sources := by
          obtain ⟨within, rfl⟩ := List.getElem?_eq_some_iff.mp atPosition
          exact set_getElem_self within
        simp [valid, undone]
      | true =>
        right
        exact ⟨i, before, atPosition, by simp [valid]⟩
    · left
      simp [valid]

theorem told_update (told : Told s) (name : CStr) (u : Update) (written : Bool) :
    Told (pkgsourceUpdate name u written s).2 := by
  rcases pkgsourceUpdate_cases name u written s with
    ⟨_, same⟩ | ⟨i, before, found, result⟩
  · rw [same]
    exact told
  · rw [result]
    change Told (State.save true
      { s with sources := s.sources.set i (before.updated u) })
    apply Told.save
    refine Told.of_same told rfl rfl ?_
    -- The copy has the name of the record it replaces.
    change (s.sources.set i (before.updated u)).map (·.name) = _
    rw [map_set]
    obtain ⟨within, rfl⟩ := List.getElem?_eq_some_iff.mp found
    have position : i < (s.sources.map (·.name)).length := by rwa [length_map]
    have here : (s.sources.map (·.name))[i] = s.sources[i].name := getElem_map _
    change (s.sources.map (·.name)).set i s.sources[i].name = _
    rw [← here, set_getElem_self position]

theorem told_remove {s : State} (told : Told s) (name : CStr) (written unlinked : Bool)
    (safe : written = true ∨ indexOf s.sources name = none) :
    Told (pkgsourceRemove name written unlinked s).2 := by
  unfold pkgsourceRemove
  cases known : indexOf s.sources name with
  | none => exact told
  | some i =>
    have saves : written = true := by
      rcases safe with saves | unknown
      · exact saves
      · rw [known] at unknown
        cases unknown
    have few : (s.sources.eraseIdx i).length ≤ sourcesMax :=
      (length_eraseIdx_le _ _).trans told.few
    rw [saves]
    cases unlinked with
    | false => exact told_offersLoad few
    | true => exact told_offersLoad few

theorem told_choose (told : Told s) (item : CStr) (source : Option CStr)
    (written : Bool) : Told (pkgsourceChoose item source written s).2 := by
  unfold pkgsourceChoose
  split
  · exact told
  split
  · apply Told.save
    exact told.of_same rfl rfl rfl
  split
  · exact told
  · apply Told.save
    exact told.of_same rfl rfl rfl

theorem offersWrite_sources (source : CStr) (items : List CStr) (written : Bool) (s : State) :
    (offersWrite source items written s).2.sources = s.sources := by
  unfold offersWrite
  split
  · rfl
  split <;> rfl

theorem offersWrite_failed {source : CStr} {items : List CStr} {written : Bool}
    (failed : (offersWrite source items written s).1 = false) :
    (offersWrite source items written s).2 = s := by
  unfold offersWrite at failed ⊢
  split
  · rfl
  split
  next unknown wrote =>
    rw [if_neg unknown, if_pos wrote] at failed
    cases failed
  · rfl

theorem told_offersWrite (told : Told s) (source : CStr) (items : List CStr) (written : Bool)
    (same : written = true → (indexOf s.sources source).isSome →
      ∀ item, item ∈ offeredItems (some (offersText items)) ↔
        item ∈ offeredItems (s.files source)) :
    Told (offersWrite source items written s).2 := by
  unfold offersWrite
  split
  · exact told
  next known =>
  split
  next saves =>
    have isSource : (indexOf s.sources source).isSome := by
      cases position : indexOf s.sources source with
      | none => simp [position] at known
      | some i => rfl
    refine Told.of_offered told rfl rfl ?_
    intro name item
    by_cases this : name = source
    · rw [this]
      simpa [State.withOffersFile] using same saves isSource item
    · simp [State.withOffersFile, Function.update_of_ne this]
  · exact told

theorem told_offersAdd (told : Told s) (source item : CStr) (written : Bool) :
    Told (offersAdd source item written s).2 := by
  unfold offersAdd
  split
  · exact told
  dsimp only
  split
  · exact told
  split
  · exact told_offersLoad told.few
  · exact told

theorem offersAdd_failed {source item : CStr} {written : Bool} {s : State}
    (failed : (offersAdd source item written s).1 = false) :
    (offersAdd source item written s).2 = s := by
  unfold offersAdd at failed ⊢
  split
  · rfl
  next accepted =>
  rw [if_neg accepted] at failed
  dsimp only at failed ⊢
  split
  · rfl
  next absent =>
  rw [if_neg absent] at failed
  cases written with
  | false => rfl
  | true => cases failed

theorem length_loadSource (sources : List Source) (o : Value) (few : sources.length ≤ sourcesMax) :
    (loadSource sources o).length ≤ sourcesMax := by
  unfold loadSource
  dsimp only
  split
  next accepted =>
    rw [length_append]
    exact accepted.1
  · exact few

theorem length_load (text : List UInt8) : (load text).1.length ≤ sourcesMax := by
  have all : ∀ (entries : List Value) (sources : List Source), sources.length ≤ sourcesMax →
        (entries.foldl loadSource sources).length ≤ sourcesMax := by
    intro entries
    induction entries with
    | nil => exact fun _ few => few
    | cons o rest ih =>
      intro sources few
      exact ih _ (length_loadSource sources o few)
  exact all _ [] (Nat.zero_le _)

theorem told_empty (few : s.sources.length ≤ sourcesMax) (table : s.offers = [])
    (none : ∀ source ∈ s.sources, offeredItems (s.files source.name.str) = []) : Told s := by
  refine ⟨few, ?_⟩
  intro item i
  constructor
  · intro set
    simp [table, maskOf] at set
  · rintro ⟨source, found, offered⟩
    rw [none source (mem_of_getElem? found)] at offered
    cases offered

theorem told_init {s : State} (written : Bool) (safe : written = true ∨ s.file.isSome ∨
      offeredItems (s.files defaultSource.name.str) = []) :
    Told (pkgsourceInit written s).2 := by
  unfold pkgsourceInit
  cases file : s.file with
  | some text => exact told_offersLoad (length_load text)
  | none =>
    have one : [defaultSource].length ≤ sourcesMax := by decide
    cases written with
    | true => exact told_offersLoad one
    | false =>
      apply told_empty one rfl
      intro source mem
      rw [mem_singleton.mp mem]
      simpa [file] using safe

theorem choiceAdd_same {choices : List Choice} {item source : CStr} {i : Nat}
    {c : Choice} (position : choiceIndex choices item = some i)
    (found : choices[i]? = some c) (same : c.source.str = source) :
    choiceAdd item source choices = choices := by
  have stored : BoundedStr.store 64 (by decide) source = c.source := by
    rw [← same, BoundedStr.store_str]
  unfold choiceAdd
  rw [position]
  apply ext_getElem?
  intro j
  rw [getElem?_modify]
  by_cases here : i = j
  · rw [← here, found]
    simp [stored]
  · simp [here]

def Fair (s : State) : Operation → Prop
  | .add given written =>
    written = true → validate given.normalised = .ok →
      find s.sources given.name.str = none → offeredItems (s.files given.name.str) = []
  | .update .. => True
  | .remove name written _ => written = true ∨ indexOf s.sources name = none
  | .choose item source written =>
    written = true ∨ itemIsValid item = false ∨
      match source.filter (·.length ≠ 0) with
      | none => choiceIndex s.choices item = none
      | some source =>
        find s.sources source = none ∨ ∃ i c, choiceIndex s.choices item = some i ∧
            s.choices[i]? = some c ∧ c.source.str = source
  | .offersWrite source items written =>
    written = true → (indexOf s.sources source).isSome →
      ∀ item, item ∈ offeredItems (some (offersText items)) ↔ item ∈ offeredItems (s.files source)
  | .offersAdd .. => True
  | .offersLoad => True
  | .offersSync _ => True
  | .restart written =>
    written = true ∨ s.file.isSome ∨ offeredItems (s.files defaultSource.name.str) = []

def FailureKept (s : State) (operation : Operation) : Prop :=
  (∀ written, operation ≠ .restart written) → (serve s operation).1 = false →
      (step s operation).sources = s.sources ∧ (step s operation).choices = s.choices ∧
          ∀ item outSize, ownerOf (step s operation) item outSize = ownerOf s item outSize

theorem told_step {s : State} {operation : Operation} (told : Told s)
    (fair : Fair s operation) : Told (step s operation) := by
  cases operation with
  | add given written =>
    change Told (pkgsourceAdd given written s).2
    rcases pkgsourceAdd_cases given written s with
      ⟨_, same⟩ | ⟨saves, valid, unknown, room, result⟩
    · rw [same]
      exact told
    · have offersNothing : offeredItems (s.files given.normalised.name.str) = [] :=
        fair saves valid unknown
      rw [result]
      exact (told.append room offersNothing).save true
  | update name u written => exact told_update told name u written
  | remove name written unlinked => exact told_remove told name written unlinked fair
  | choose item source written => exact told_choose told item source written
  | offersWrite source items written =>
    exact told_offersWrite told source items written fair
  | offersAdd source item written => exact told_offersAdd told source item written
  | offersLoad => exact told_offersLoad told.few
  | offersSync writes =>
    apply told_offersLoad
    apply List.foldlRecOn (motive := fun current : State =>
      current.sources.length ≤ sourcesMax) writes _ told.few
    intro current few write _
    rw [offersWrite_sources]
    exact few
  | restart written => exact told_init written fair

theorem choose_failed {s : State} {item : CStr} {source : Option CStr}
    {written : Bool} (fair : Fair s (.choose item source written))
    (failed : (pkgsourceChoose item source written s).1 ≠ .ok) :
    (pkgsourceChoose item source written s).2 = s := by
  unfold pkgsourceChoose at failed ⊢
  cases valid : itemIsValid item with
  | false => rfl
  | true =>
    simp only [Fair, valid, Bool.true_eq_false, false_or] at fair
    rw [valid] at failed
    cases named : source.filter (·.length ≠ 0) with
    | none =>
      rw [named] at failed fair
      cases written with
      | true => exact absurd rfl failed
      | false =>
        have unchosen : choiceIndex s.choices item = none := by simpa using fair
        simp [State.save, clearChoice, unchosen]
    | some wanted =>
      rw [named] at failed fair
      cases known : find s.sources wanted with
      | none => simp [known]
      | some found =>
        simp only [known, isNone_some] at failed
        cases written with
        | true => exact absurd rfl failed
        | false =>
          have chosenSo : ∃ i c, choiceIndex s.choices item = some i ∧
                s.choices[i]? = some c ∧ c.source.str = wanted := by
            simpa [known] using fair
          obtain ⟨i, c, position, atPosition, same⟩ := chosenSo
          simp [known, State.save, choiceAdd_same position atPosition same]

theorem state_of_failed {s : State} {operation : Operation} (fair : Fair s operation)
    (noRestart : ∀ written, operation ≠ .restart written)
    (failed : (serve s operation).1 = false) : step s operation = s := by
  cases operation with
  | add given written =>
    rcases pkgsourceAdd_cases given written s with
      ⟨_, same⟩ | ⟨_, _, _, _, result⟩
    · exact same
    · rw [serve, result] at failed
      cases failed
  | update name u written =>
    rcases pkgsourceUpdate_cases name u written s with
      ⟨_, same⟩ | ⟨_, _, _, result⟩
    · exact same
    · rw [serve, result] at failed
      cases failed
  | remove name written unlinked =>
    change (pkgsourceRemove name written unlinked s).2 = s
    cases known : indexOf s.sources name with
    | none => simp [pkgsourceRemove, known]
    | some i =>
      have saves : written = true := by simpa [Fair, known] using fair
      simp [serve, answered, pkgsourceRemove, known, saves] at failed
  | choose item source written =>
    apply choose_failed fair
    simpa [serve, answered] using failed
  | offersWrite source items written => exact offersWrite_failed failed
  | offersAdd source item written => exact offersAdd_failed failed
  | offersLoad => cases failed
  | offersSync writes => cases failed
  | restart written => exact absurd rfl (noRestart written)

def mirror : Source where
  name := BoundedStr.store 64 pos_64 "mirror"
  url := BoundedStr.store 512 pos_512 "https://forge.example/acme/recipes"
  kind := BoundedStr.store 16 pos_16 "gitea"
  ref := BoundedStr.store 128 pos_128 defaultRef
  token := BoundedStr.store 256 pos_256 CStr.empty
  write := false
  trustKeys := true
  catalogueKey := BoundedStr.store 256 pos_256 CStr.empty

/-- The item `package:vim`. -/
def vim : CStr := "package:vim"

def twoSources : List Operation :=
  [.restart true, .add mirror true, .offersAdd defaultSource.name.str vim true]

theorem guarded_twoSources : Guarded step Fair (State.fresh (fun _ => none) none) twoSources := by
  refine Guarded.cons (Or.inl rfl) (Guarded.cons ?_ (Guarded.cons trivial (guarded_nil _ _)))
  exact fun _ _ _ => by decide +kernel

end Cix.Sources
