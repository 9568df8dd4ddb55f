import Mathlib.Data.List.Sort
import Cix.Lib.Lines
import Cix.Lib.StringOrder

/-!
# The catalogue index

`catalogue_build` writes a line for each file it covers, `catalogue_parse`
reads the lines back, and `catalogue_vouches` looks a path up by a binary
search.  Files whose names begin with a dot are not covered.  A name with a
newline takes two lines, and of two lines for one path the search finds either.
-/

namespace Cix.Catalogue

open Cix.Lib List

structure Entry where
  (path sha : CStr)
  deriving DecidableEq

/-- What `entry_cmp` allows of two neighbours. -/
def EntryLe (a b : Entry) : Prop := (strcmp a.path b.path).isLE = true

/-- `qsort` and `bsearch` with `entry_cmp`. -/
structure Libc where
  qsort : List Entry → List Entry
  qsort_perm : ∀ list, (qsort list).Perm list
  qsort_sorted : ∀ list, (qsort list).Pairwise EntryLe
  bsearch : CStr → List Entry → Option Entry
  bsearch_some : ∀ key list hit, bsearch key list = some hit → hit ∈ list ∧ hit.path = key
  bsearch_none : ∀ key list, list.Pairwise EntryLe → bsearch key list = none →
    ∀ e ∈ list, e.path ≠ key

def pathMax : Nat := 4096

def isHexDigit (c : UInt8) : Bool :=
  (48 ≤ c && c ≤ 57) || (65 ≤ c && c ≤ 70) || (97 ≤ c && c ≤ 102)

/-- What a `catalogue_hash_fn` gives. -/
structure Digest where
  str : CStr
  size : str.length = 64
  hex : str.bytes.all isHexDigit = true

/-- The names in a directory, none of one that cannot be opened, and which paths
are regular files. -/
structure Tree where
  readdir : CStr → List CStr
  regular : CStr → Bool

/-- The format `%s/%s`. -/
def join (dir name : CStr) : CStr where
  bytes := dir.bytes ++ 47 :: name.bytes
  nulFree := by simp [dir.nulFree, name.nulFree]

def covered : List CStr :=
  ["recipes/package", "recipes/image", "recipes/deployment", "recipes/keys",
    "docs/keys"].map CStr.ofString

/-- The lines of `CATALOGUE_HEADER`. -/
def header : List (List UInt8) :=
  ["# cix catalogue index v1 (ADR-0324)",
    "# excludes recipes/INDEX and recipes/INDEX.minisig"].map fun line => (CStr.ofString line).bytes

def entryFor (tree : Tree) (hash : CStr → Digest) (root dir name : CStr) : Option Entry :=
  let full := join ((join root dir).truncate pathMax) name
  if name.bytes.head? = some 46 then none
  else if full.length ≥ pathMax || !tree.regular full then none
  else some ⟨(join dir name).truncate pathMax, (hash full).str⟩

def entries (tree : Tree) (hash : CStr → Digest) (root : CStr) : List Entry :=
  covered.flatMap fun dir =>
    (tree.readdir ((join root dir).truncate pathMax)).filterMap (entryFor tree hash root dir)

def entryLine (e : Entry) : List UInt8 := e.sha.bytes ++ 32 :: 32 :: e.path.bytes

def catalogueBuild (libc : Libc) (tree : Tree) (hash : CStr → Digest) (root : CStr) :
    List UInt8 :=
  unlines 10 (header ++ (libc.qsort (entries tree hash root)).map entryLine)

def parseLine (text : List UInt8) : Option Entry :=
  if text.length > 66 ∧ text.head? ≠ some 35 ∧ text[64]? = some 32 ∧ text[65]? = some 32 ∧
      text.length - 66 < pathMax then
    some ⟨CStr.ofBytes (text.drop 66), CStr.ofBytes (text.take 64)⟩
  else none

def parseLines (text : List UInt8) : List Entry :=
  (lines 10 text).filterMap parseLine

def catalogueParse (libc : Libc) (text : List UInt8) : List Entry :=
  libc.qsort (parseLines text)

def catalogueVouches (libc : Libc) (c : List Entry) (path sha : CStr) : Bool :=
  if c.length = 0 ∨ path.length ≥ pathMax then false
  else (libc.bsearch path c).any fun hit => decide (hit.sha = sha)

def Functional (list : List Entry) : Prop :=
  ∀ a ∈ list, ∀ b ∈ list, a.path = b.path → a.sha = b.sha

theorem vouches_parse (libc : Libc) {text : List UInt8} (functional : Functional (parseLines text))
    (path sha : CStr) : catalogueVouches libc (catalogueParse libc text) path sha = true ↔
      path.length < pathMax ∧ (⟨path, sha⟩ : Entry) ∈ parseLines text := by
  have perm := libc.qsort_perm (parseLines text)
  unfold catalogueVouches catalogueParse
  constructor
  · intro vouches
    split at vouches
    · cases vouches
    next checked =>
      rw [not_or, Nat.not_le] at checked
      refine ⟨checked.2, ?_⟩
      cases found : libc.bsearch path (libc.qsort (parseLines text)) with
      | none =>
        rw [found] at vouches
        cases vouches
      | some hit =>
        rw [found, Option.any_some] at vouches
        obtain ⟨mem, keyed⟩ := libc.bsearch_some _ _ _ found
        have isHit : hit = ⟨path, sha⟩ := by rw [← keyed, ← of_decide_eq_true vouches]
        exact isHit ▸ perm.mem_iff.mp mem
  · intro ⟨short, mem⟩
    have held := perm.mem_iff.mpr mem
    rw [if_neg]
    · cases found : libc.bsearch path (libc.qsort (parseLines text)) with
      | none =>
        exact absurd rfl (libc.bsearch_none _ _ (libc.qsort_sorted _) found _ held)
      | some hit =>
        obtain ⟨inList, keyed⟩ := libc.bsearch_some _ _ _ found
        have same := functional hit (perm.mem_iff.mp inList) _ mem keyed
        exact decide_eq_true same
    · rw [not_or, Nat.not_le]
      exact ⟨fun none => ne_nil_of_mem held (length_eq_zero_iff.mp none), short⟩

theorem parseLine_entryLine {e : Entry} (size : e.sha.length = 64)
    (hex : e.sha.bytes.all isHexDigit = true) (named : e.path.length ≠ 0)
    (short : e.path.length < pathMax) : parseLine (entryLine e) = some e := by
  have first : (entryLine e).head? ≠ some 35 := by
    unfold entryLine
    cases isSha : e.sha.bytes with
    | nil =>
      rw [CStr.length, isSha] at size
      cases size
    | cons c rest =>
      rw [isSha, all_cons, Bool.and_eq_true] at hex
      intro isComment
      rw [cons_append, head?_cons] at isComment
      rw [Option.some.inj isComment] at hex
      exact absurd hex.1 (by decide)
  rw [CStr.length] at size named short
  have long : (entryLine e).length = 66 + e.path.bytes.length := by
    simp [entryLine, size]
    omega
  have spaces : (entryLine e)[64]? = some 32 ∧ (entryLine e)[65]? = some 32 := by
    simp [entryLine, size, getElem?_append_right]
  have path : (entryLine e).drop 66 = e.path.bytes := by simp [entryLine, size, drop_append]
  have sha : (entryLine e).take 64 = e.sha.bytes := by rw [entryLine, ← size, take_left]
  rw [parseLine, if_pos ⟨by omega, first, spaces.1, spaces.2, by omega⟩, path, sha,
    CStr.ofBytes_bytes, CStr.ofBytes_bytes]

theorem length_join (dir name : CStr) : (join dir name).length = dir.length + 1 + name.length := by
  simp only [CStr.length, join, length_append, length_cons]
  omega

theorem join_assoc (root dir name : CStr) :
    join (join root dir) name = join root (join dir name) := by
  apply CStr.ext
  simp [join]

theorem mem_entries {tree : Tree} {hash : CStr → Digest} {root : CStr} {e : Entry} :
    e ∈ entries tree hash root ↔
      ∃ dir ∈ covered, ∃ name ∈ tree.readdir (join root dir), name.bytes.head? ≠ some 46 ∧
        tree.regular (join root e.path) = true ∧ (join root e.path).length < pathMax ∧
        e.path = join dir name ∧ e.sha = (hash (join root e.path)).str := by
  unfold entries
  rw [mem_flatMap]
  refine exists_congr fun dir => and_congr_right fun _ => ?_
  rw [mem_filterMap]
  by_cases fits : (join root dir).length < pathMax
  · rw [CStr.truncate_of_fits fits]
    refine exists_congr fun name => and_congr_right fun _ => ?_
    unfold entryFor
    rw [CStr.truncate_of_fits fits, join_assoc]
    dsimp only
    constructor
    · intro isEntry
      split_ifs at isEntry with hidden skipped
      cases isEntry
      rw [Bool.or_eq_true, decide_eq_true_eq, not_or, Nat.not_le, Bool.not_eq_true',
        Bool.not_eq_false] at skipped
      have short : (join dir name).length < pathMax := by
        have long := length_join root (join dir name)
        omega
      rw [CStr.truncate_of_fits short]
      exact ⟨hidden, skipped.2, skipped.1, rfl, rfl⟩
    · intro ⟨visible, regular, short, path, sha⟩
      rw [path] at regular short
      have pathShort : (join dir name).length < pathMax := by
        have long := length_join root (join dir name)
        omega
      rw [if_neg visible, if_neg (by simp [regular, short]), CStr.truncate_of_fits pathShort,
        ← path, ← sha]
  · -- in a directory with too long a path there is no file either
    refine iff_of_false ?_ ?_
    · intro ⟨name, _, isEntry⟩
      unfold entryFor at isEntry
      have cut : ((join root dir).truncate pathMax).length = pathMax - 1 := by
        rw [CStr.length, CStr.truncate, length_take, Nat.min_eq_left]
        rw [CStr.length] at fits
        omega
      have long : (join ((join root dir).truncate pathMax) name).length ≥ pathMax := by
        rw [length_join, cut, pathMax]
        omega
      simp [long] at isEntry
    · intro ⟨name, _, _, _, short, path, _⟩
      rw [path, ← join_assoc, length_join] at short
      omega

theorem parseLines_catalogueBuild (libc : Libc) {tree : Tree} {hash : CStr → Digest} {root : CStr}
    (plain : ∀ e ∈ entries tree hash root, 10 ∉ e.path.bytes) :
    (parseLines (catalogueBuild libc tree hash root)).Perm (entries tree hash root) := by
  have perm := libc.qsort_perm (entries tree hash root)
  have isEntry : ∀ e ∈ libc.qsort (entries tree hash root),
      e.sha.length = 64 ∧ e.sha.bytes.all isHexDigit = true ∧ e.path.length ≠ 0 ∧
        e.path.length < pathMax ∧ 10 ∉ e.path.bytes := by
    intro e sorted
    have mem := perm.mem_iff.mp sorted
    obtain ⟨dir, _, name, _, _, _, short, path, sha⟩ := mem_entries.mp mem
    rw [length_join] at short
    refine ⟨sha ▸ (hash _).size, sha ▸ (hash _).hex, ?_, by omega, plain e mem⟩
    rw [path, length_join]
    omega
  have isLine : ∀ line ∈ header ++ (libc.qsort (entries tree hash root)).map entryLine,
      10 ∉ line := by
    intro line mem
    rcases mem_append.mp mem with isHeader | isEntryLine
    · have plainHeader : ∀ line ∈ header, 10 ∉ line := by decide +kernel
      exact plainHeader line isHeader
    · obtain ⟨e, inList, rfl⟩ := mem_map.mp isEntryLine
      obtain ⟨_, hex, _, _, noNewline⟩ := isEntry e inList
      intro inLine
      rcases mem_append.mp inLine with inSha | behind
      · exact absurd (all_eq_true.mp hex 10 inSha) (by decide)
      · exact noNewline (by simpa using behind)
  have comments : header.filterMap parseLine = [] := by decide +kernel
  rw [parseLines, catalogueBuild, lines_unlines isLine, filterMap_append, comments,
    nil_append, filterMap_map]
  have read : (libc.qsort (entries tree hash root)).filterMap (parseLine ∘ entryLine) =
      libc.qsort (entries tree hash root) := by
    rw [filterMap_congr, filterMap_some]
    intro e mem
    obtain ⟨size, hex, named, short, _⟩ := isEntry e mem
    exact parseLine_entryLine size hex named short
  rw [read]
  exact perm

theorem functional_entries {tree : Tree} {hash : CStr → Digest} {root : CStr} :
    Functional (entries tree hash root) := by
  intro a inList b inList' same
  obtain ⟨_, _, _, _, _, _, _, _, sha⟩ := mem_entries.mp inList
  obtain ⟨_, _, _, _, _, _, _, _, sha'⟩ := mem_entries.mp inList'
  rw [sha, sha', same]

/-- An index vouches for the files that it was built from: those in the covered
directories whose names do not begin with a dot and whose paths the system can
open.  Where two lines for one path say the same, the sort and the search do
not matter. -/
theorem catalogue_vouches_iff (libc other : Libc) :
    (∀ (tree : Tree) (hash : CStr → Digest) (root path sha : CStr),
      (∀ dir ∈ covered, ∀ name ∈ tree.readdir (join root dir),
        tree.regular (join root (join dir name)) = true → 10 ∉ name.bytes) →
      (catalogueVouches libc (catalogueParse libc (catalogueBuild libc tree hash root)) path sha =
          true ↔
        ∃ dir ∈ covered, ∃ name ∈ tree.readdir (join root dir), name.bytes.head? ≠ some 46 ∧
          tree.regular (join root path) = true ∧ (join root path).length < pathMax ∧
          path = join dir name ∧ sha = (hash (join root path)).str)) ∧
    ∀ text path sha, Functional (parseLines text) →
      catalogueVouches libc (catalogueParse libc text) path sha =
        catalogueVouches other (catalogueParse other text) path sha := by
  constructor
  · intro tree hash root path sha plain
    have perm := @parseLines_catalogueBuild libc tree hash root (by
      intro e mem
      obtain ⟨dir, isCovered, name, isName, _, regular, _, path, _⟩ := mem_entries.mp mem
      rw [path] at regular ⊢
      have plainDirs : ∀ dir ∈ covered, 10 ∉ dir.bytes := by decide +kernel
      simp [join, plainDirs dir isCovered, plain dir isCovered name isName regular])
    rw [vouches_parse libc, perm.mem_iff, mem_entries]
    · constructor
      · exact And.right
      · intro held
        obtain ⟨_, _, _, _, _, _, short, _⟩ := id held
        rw [length_join] at short
        exact ⟨by omega, held⟩
    · intro a inList b inList'
      exact functional_entries a (perm.mem_iff.mp inList) b (perm.mem_iff.mp inList')
  · intro text path sha functional
    rw [Bool.eq_iff_iff, vouches_parse libc functional, vouches_parse other functional]

instance : DecidableRel EntryLe := fun _ _ => inferInstanceAs (Decidable (_ = true))

instance : Std.Total EntryLe where
  total a b := by
    unfold EntryLe
    rw [@Std.OrientedCmp.eq_swap _ strcmp _ b.path]
    cases strcmp a.path b.path <;> simp

instance : IsTrans Entry EntryLe where
  trans _ _ _ := Std.TransCmp.isLE_trans

def plainLibc : Libc where
  qsort := List.insertionSort EntryLe
  qsort_perm := perm_insertionSort EntryLe
  qsort_sorted := pairwise_insertionSort EntryLe
  bsearch key list := list.find? fun e => decide (e.path = key)
  bsearch_some := by
    intro key list hit found
    have keyed := find?_some found
    exact ⟨mem_of_find?_eq_some found, of_decide_eq_true keyed⟩
  bsearch_none := by
    intro key list _ missing e mem
    exact of_decide_eq_false (by simpa using find?_eq_none.mp missing e mem)

def zeroDigest : Digest where
  str := ⟨List.replicate 64 48, by decide⟩
  size := rfl
  hex := by decide

/-- Finds the last of several equal entries. -/
def lastLibc : Libc where
  qsort := plainLibc.qsort
  qsort_perm := plainLibc.qsort_perm
  qsort_sorted := plainLibc.qsort_sorted
  bsearch key list := plainLibc.bsearch key list.reverse
  bsearch_some := by
    intro key list hit found
    obtain ⟨mem, keyed⟩ := plainLibc.bsearch_some _ _ _ found
    exact ⟨mem_reverse.mp mem, keyed⟩
  bsearch_none := by
    intro key list _ missing e mem
    exact of_decide_eq_false (by simpa using find?_eq_none.mp missing e (mem_reverse.mpr mem))

def packages (names : List String) : Tree where
  readdir dir := if dir = "/r/recipes/package" then names.map CStr.ofString else []
  regular _ := true

theorem catalogue_vouches_recipe :
    let text := catalogueBuild plainLibc (packages ["b.cbs", "a.cbs"]) (fun _ => zeroDigest) "/r"
    let vouches := fun libc text path =>
      catalogueVouches libc (catalogueParse libc text) path zeroDigest.str
    vouches plainLibc text "recipes/package/a.cbs" = true ∧
      vouches plainLibc text "recipes/package/c.cbs" = false ∧
      vouches plainLibc (text ++ text) "recipes/package/a.cbs" =
        vouches lastLibc (text ++ text) "recipes/package/a.cbs" := by
  intro text vouches
  have plain : ∀ dir ∈ covered, ∀ name ∈ (packages ["b.cbs", "a.cbs"]).readdir (join "/r" dir),
      10 ∉ name.bytes := by decide +kernel
  have told := fun path => (catalogue_vouches_iff plainLibc lastLibc).1
    (packages ["b.cbs", "a.cbs"]) (fun _ => zeroDigest) "/r" path zeroDigest.str
    fun dir isDir name isName _ => plain dir isDir name isName
  refine ⟨(told _).mpr ?_, Bool.eq_false_iff.mpr fun held => ?_, ?_⟩
  · exact ⟨"recipes/package", by decide +kernel, "a.cbs",
      by decide +kernel, by decide +kernel, rfl, by decide +kernel, by decide +kernel, rfl⟩
  · obtain ⟨dir, isDir, name, isName, _, _, _, path, _⟩ := (told _).mp held
    have other : ∀ dir ∈ covered,
        ∀ name ∈ (packages ["b.cbs", "a.cbs"]).readdir (join "/r" dir),
        "recipes/package/c.cbs" ≠ join dir name := by decide +kernel
    exact other dir isDir name isName path
  · apply (catalogue_vouches_iff plainLibc lastLibc).2
    unfold Functional
    decide +kernel

/-- A file whose name begins with a dot is not vouched for. -/
theorem hidden_not_vouched :
    CStr.ofString ".a" ∈ (packages [".a"]).readdir (CStr.ofString "/r/recipes/package") ∧
      (packages [".a"]).regular "/r/recipes/package/.a" = true ∧
      catalogueVouches plainLibc (catalogueParse plainLibc
        (catalogueBuild plainLibc (packages [".a"]) (fun _ => zeroDigest) "/r"))
        "recipes/package/.a" zeroDigest.str = false := by decide +kernel

end Cix.Catalogue
