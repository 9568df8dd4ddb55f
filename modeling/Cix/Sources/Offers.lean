import Cix.Sources.Sources

/-!
# Offers, owners and the operations on the sources

`daemon/src/pkgsource.c`, from `pkgsource_init` on.  Whether a file can be
written or removed comes with each operation.
-/

namespace Cix.Sources

open Cix.Lib Cix.Json

/-- The items of an offers file: its nonempty lines that a `char[160]`
holds. -/
def offeredItems : Option (List UInt8) → List CStr
  | none => []
  | some text =>
    ((lines 10 (cstrAt text)).filter fun line =>
      line ≠ [] && decide (line.length < itemMax)).map CStr.ofBytes

/-- What `offer_append` collects before the table is sorted. -/
def gathered (sources : List Source) (files : CStr → Option (List UInt8)) : List (CStr × Nat) :=
  sources.zipIdx.flatMap fun (s, i) =>
    (offeredItems (files s.name.str)).map fun item =>
      (item, (1 <<< i) % 2 ^ 32)

def offersLoad (s : State) : State :=
  { s with
    offers := mergeRuns strcmp (sortByKey strcmp (gathered s.sources s.files)) }

/-- The text that `pkgsource_offers_write` writes. -/
def offersText (items : List CStr) : List UInt8 :=
  items.flatMap fun item => item.bytes ++ [10]

def State.withOffersFile (name : CStr) (content : Option (List UInt8)) (s : State) : State :=
  { s with files := Function.update s.files name content }

/-- `pkgsource_offers_write`; it answers whether the file is written. -/
def offersWrite (source : CStr) (items : List CStr) (written : Bool) (s : State) : Bool × State :=
  if (indexOf s.sources source).isNone then (false, s)
  else if written then
    (true, s.withOffersFile source (some (offersText items)))
  else (false, s)

def offersAdd (source item : CStr) (written : Bool) (s : State) : Bool × State :=
  if (indexOf s.sources source).isNone ∨ item.length = 0 ∨ itemMax ≤ item.length then (false, s)
  else
    let text := cstrAt ((s.files source).getD [])
    if item.bytes ∈ lines 10 text then (true, s)
    else if written then
      (true, offersLoad (s.withOffersFile source (some (text ++ item.bytes ++ [10]))))
    else (false, s)

inductive Owner where
  | none
  | one
  | conflict
  deriving DecidableEq, Repr

/-- The text of `names_of` in a buffer of `outSize` bytes. -/
def namesOf (sources : List Source) (outSize : Nat) : CStr :=
  (CStr.ofBytes (sources.foldl (fun text s =>
    if text = [] then s.name.str.bytes
    else text ++ (CStr.ofString ", ").bytes ++ s.name.str.bytes) [])).truncate outSize

def chosen (s : State) (item : CStr) : Option CStr :=
  match (choiceIndex s.choices item).bind fun c => s.choices[c]? with
  | some c =>
    if (indexOf s.sources c.source.str).isSome then some c.source.str
    else none
  | none => none

/-- `pkgsource_owner_of`; the name of the item is cut for the search in the table. -/
def ownerOf (s : State) (item : CStr) (outSize : Nat) : Owner × CStr :=
  let mask := maskOf s.offers (item.truncate itemMax)
  match chosen s item with
  | some source => (.one, source.truncate outSize)
  | none =>
    if mask = 0 then (.none, CStr.empty)
    else if popcount mask = 1 then
      (.one, ((selected mask s.sources).getLast?.map fun source =>
        source.name.str.truncate outSize).getD CStr.empty)
    else (.conflict, namesOf (selected mask s.sources) outSize)

/-- The copy of the request that `pkgsource_add` checks and stores. -/
def Source.normalised (given : Source) : Source :=
  { given with
    catalogueKey := catalogueKeyNormalise given.catalogueKey
    ref := if given.ref.str.length = 0 then
        BoundedStr.store 128 pos_128 defaultRef
      else given.ref }

def pkgsourceAdd (given : Source) (written : Bool) (s : State) : PkgsourceError × State :=
  let copy := given.normalised
  if validate copy ≠ .ok then (validate copy, s)
  else if (find s.sources copy.name.str).isSome then (.exists, s)
  else if sourcesMax ≤ s.sources.length then (.full, s)
  else
    let added := { s with sources := s.sources ++ [copy] }
    if written then (.ok, added.save written)
    else (.persist, { added with sources := added.sources.dropLast })

/-- What a request of `pkgsource_update` sets; what it does not name stays. -/
structure Update where
  (url kind ref token : Option CStr)
  (write trustKeys : Option Bool)

def setField (n : Nat) (positive : 0 < n) (given : Option CStr)
    (before : BoundedStr n) : BoundedStr n :=
  match given with
  | some text => BoundedStr.store n positive text
  | none => before

/-- The copy of the record that `pkgsource_update` changes. -/
def Source.updated (u : Update) (s : Source) : Source :=
  { s with
    url := setField 512 pos_512 u.url s.url
    kind := setField 16 pos_16 u.kind s.kind
    ref := setField 128 pos_128 (u.ref.filter (·.length ≠ 0)) s.ref
    token := setField 256 pos_256 u.token s.token
    write := u.write.getD s.write
    trustKeys := u.trustKeys.getD s.trustKeys }

def pkgsourceUpdate (name : CStr) (u : Update) (written : Bool) (s : State) :
    PkgsourceError × State :=
  match (indexOf s.sources name).bind fun i =>
      (s.sources[i]?).map fun source => (i, source) with
  | none => (.notFound, s)
  | some (i, before) =>
    let copy := before.updated u
    if validate copy ≠ .ok then (validate copy, s)
    else
      let changed := { s with sources := s.sources.set i copy }
      if written then (.ok, changed.save written)
      else (.persist, { changed with sources := changed.sources.set i before })

def swapRemove (j : Nat) (choices : List Choice) : List Choice :=
  match choices.getLast? with
  | some last => (choices.set j last).dropLast
  | none => choices

/-- The loop of `pkgsource_remove` over the choices, from position `j` on. -/
def dropChoices (source : CStr) : (fuel : Nat) → Nat → List Choice → List Choice
  | 0, _, choices => choices
  | fuel + 1, j, choices =>
    match choices[j]? with
    | none => choices
    | some c =>
      if c.source.str = source then
        dropChoices source fuel j (swapRemove j choices)
      else dropChoices source fuel (j + 1) choices

/-- `pkgsource_remove`; `unlinked` says whether the offers file goes. -/
def pkgsourceRemove (name : CStr) (written unlinked : Bool) (s : State) : PkgsourceError × State :=
  match indexOf s.sources name with
  | none => (.notFound, s)
  | some i =>
    let removed : State :=
      { s with
        choices := dropChoices name s.choices.length 0 s.choices
        sources := s.sources.eraseIdx i }
    if written then
      let saved := removed.save written
      (.ok, offersLoad (if unlinked then saved.withOffersFile name none else saved))
    else (.persist, removed)

def itemKinds : List CStr :=
  ["package:", "image:", "deployment:"]

/-- An item that `pkgsource_choose` accepts. -/
def itemIsValid (item : CStr) : Bool :=
  decide (item.length < itemMax) && itemKinds.any fun kind => kind.bytes.isPrefixOf item.bytes

def clearChoice (item : CStr) (choices : List Choice) : List Choice :=
  match choiceIndex choices item with
  | some c => swapRemove c choices
  | none => choices

/-- `pkgsource_choose`; no source or an empty one clears the choice. -/
def pkgsourceChoose (item : CStr) (source : Option CStr) (written : Bool)
    (s : State) : PkgsourceError × State :=
  if !itemIsValid item then (.invalid, s)
  else
    match source.filter (·.length ≠ 0) with
    | none =>
      (if written then .ok else .persist,
        { s with choices := clearChoice item s.choices }.save written)
    | some source =>
      if (find s.sources source).isNone then (.notFound, s)
      else
        (if written then .ok else .persist,
          { s with
            choices := choiceAdd item source s.choices }.save written)

def defaultSource : Source where
  name := BoundedStr.store 64 pos_64 "cix-public"
  url := BoundedStr.store 512 pos_512 "https://github.com/The-Cix-Project/cix-recipes"
  kind := BoundedStr.store 16 pos_16 "github"
  ref := BoundedStr.store 128 pos_128 defaultRef
  token := BoundedStr.store 256 pos_256 CStr.empty
  write := false
  trustKeys := true
  catalogueKey := BoundedStr.store 256 pos_256 CStr.empty

/-- `pkgsource_init` of a daemon that starts, without a file of the single
repository from before.  The table of a new process is empty. -/
def pkgsourceInit (written : Bool) (s : State) : Bool × State :=
  match s.file with
  | some text =>
    (true, offersLoad
      { s with
        sources := (load text).1
        choices := (load text).2
        offers := [] })
  | none =>
    let made : State := { s with sources := [defaultSource], choices := [], offers := [] }
    if written then (true, offersLoad (made.save written))
    else (false, made)

inductive Operation where
  | add (given : Source) (written : Bool)
  | update (name : CStr) (u : Update) (written : Bool)
  | remove (name : CStr) (written unlinked : Bool)
  | choose (item : CStr) (source : Option CStr) (written : Bool)
  | offersWrite (source : CStr) (items : List CStr) (written : Bool)
  | offersAdd (source item : CStr) (written : Bool)
  | offersLoad
  /-- The writes of a sync or of a seeded catalogue and the load behind
  them. -/
  | offersSync (writes : List (CStr × List CStr × Bool))
  | restart (written : Bool)

def answered (result : PkgsourceError × State) : Bool × State :=
  (result.1 = .ok, result.2)

def serve (s : State) : Operation → Bool × State
  | .add given written => answered (pkgsourceAdd given written s)
  | .update name u written => answered (pkgsourceUpdate name u written s)
  | .remove name written unlinked => answered (pkgsourceRemove name written unlinked s)
  | .choose item source written => answered (pkgsourceChoose item source written s)
  | .offersWrite source items written => Sources.offersWrite source items written s
  | .offersAdd source item written => Sources.offersAdd source item written s
  | .offersLoad => (true, Sources.offersLoad s)
  | .offersSync writes =>
    (true, Sources.offersLoad (writes.foldl (fun current write =>
      (Sources.offersWrite write.1 write.2.1 write.2.2 current).2) s))
  | .restart written => pkgsourceInit written s

def step (s : State) (operation : Operation) : State :=
  (serve s operation).2

end Cix.Sources
