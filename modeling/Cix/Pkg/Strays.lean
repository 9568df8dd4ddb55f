import Cix.Pkg.Rebuilds

/-!
# The strays of an image

`converge_uninstall_strays` keeps the packages that the manifest names and,
pass by pass, those that a kept package depends on.  The passes end, and what
they keep is what is needed: the rest is uninstalled, and nothing else.
-/

namespace Cix.Pkg

open Cix.Lib List

variable {entries : List ImageManifestEntry} {image : Name} {t : Table}

inductive Needed (entries : List ImageManifestEntry) (image : Name) (t : Table) :
    Nat → Prop
  | named {slot : Nat} {e : Entry} {m : ImageManifestEntry} (held : t.get slot = some e)
      (inImage : e.key.image = image) (mem : m ∈ entries)
      (isNamed : m.package = e.key.name.str) : Needed entries image t slot
  | depends {kept slot : Nat} {k e : Entry} (needed : Needed entries image t kept)
      (isKept : t.get kept = some k) (held : t.get slot = some e)
      (inImage : e.key.image = image)
      (word : e.key.name.str ∈ State.dependsWords k.depends.str) :
      Needed entries image t slot

theorem Needed.of_key {slot other : Nat} {e e' : Entry} (needed : Needed entries image t slot)
    (held : t.get slot = some e) (held' : t.get other = some e') (same : e'.key = e.key) :
    Needed entries image t other := by
  cases needed with
  | named there inImage mem isNamed =>
    cases held.symm.trans there
    exact .named held' (same ▸ inImage) mem (same ▸ isNamed)
  | depends needed isKept there inImage word =>
    cases held.symm.trans there
    exact .depends needed isKept held' (same ▸ inImage) (same ▸ word)

def keepToken (image : Name) (t : Table) (keep : List Nat) (tok : CStr) : List Nat :=
  keep ++ (List.range 1024).filter fun j => decide (j ∉ keep) &&
    (t.get j).any fun e => decide (e.key.name.str = tok) && decide (e.key.image = image)

def keepFrom (image : Name) (t : Table) (keep : List Nat) (i : Nat) : List Nat :=
  if i ∈ keep then
    match t.get i with
    | none => keep
    | some e => (State.dependsWords e.depends.str).foldl (keepToken image t) keep
  else keep

def keepPass (image : Name) (t : Table) (keep : List Nat) : List Nat :=
  (List.range 1024).foldl (keepFrom image t) keep

def keepLoop (image : Name) (t : Table) : (rounds : Nat) → List Nat → Option (List Nat)
  | 0, _ => none
  | rounds + 1, keep =>
    let next := keepPass image t keep
    if next.length ≠ keep.length then keepLoop image t rounds next else some next

def Closed (image : Name) (t : Table) (keep : List Nat) : Prop :=
  ∀ kept ∈ keep, ∀ k, t.get kept = some k → ∀ slot e, t.get slot = some e →
    e.key.image = image → e.key.name.str ∈ State.dependsWords k.depends.str → slot ∈ keep

structure Keeps (entries : List ImageManifestEntry) (image : Name) (t : Table)
    (keep : List Nat) : Prop where
  nodup : keep.Nodup
  inside : ∀ slot ∈ keep, slot < 1024
  needed : ∀ slot ∈ keep, Needed entries image t slot

theorem Keeps.length_le {keep : List Nat} (keeps : Keeps entries image t keep) :
    keep.length ≤ 1024 := by
  have within : keep ⊆ List.range 1024 := fun slot mem =>
    mem_range.mpr (keeps.inside slot mem)
  simpa using (keeps.nodup.subperm within).length_le

theorem Keeps.token {keep : List Nat} (keeps : Keeps entries image t keep) {i : Nat}
    {k : Entry} {tok : CStr} (isKept : i ∈ keep) (held : t.get i = some k)
    (word : tok ∈ State.dependsWords k.depends.str) :
    Keeps entries image t (keepToken image t keep tok) where
  nodup := by
    refine List.Nodup.append keeps.nodup (nodup_range.filter _) ?_
    intro j old new
    have test := (mem_filter.mp new).2
    simp only [Bool.and_eq_true, decide_eq_true_eq] at test
    exact test.1 old
  inside slot mem := by
    rcases mem_append.mp mem with old | new
    · exact keeps.inside slot old
    · exact mem_range.mp (mem_filter.mp new).1
  needed slot mem := by
    rcases mem_append.mp mem with old | new
    · exact keeps.needed slot old
    · have test := (mem_filter.mp new).2
      simp only [Bool.and_eq_true, Option.any_eq_true, decide_eq_true_eq] at test
      obtain ⟨_, e, there, isTok, inImage⟩ := test
      exact .depends (keeps.needed i isKept) held there inImage (isTok ▸ word)

theorem subset_keepToken (keep : List Nat) (tok : CStr) : keep ⊆ keepToken image t keep tok :=
  subset_append_left _ _

theorem subset_foldl {α : Type} {f : List Nat → α → List Nat}
    (inflates : ∀ keep a, keep ⊆ f keep a) (list : List α) (keep : List Nat) :
    keep ⊆ list.foldl f keep := by
  induction list generalizing keep with
  | nil => exact fun _ mem => mem
  | cons a rest ih => exact fun _ mem => ih _ (inflates keep a mem)

theorem mem_foldl_of_step {α : Type} {f : List Nat → α → List Nat}
    (inflates : ∀ keep a, keep ⊆ f keep a) {list : List α} {a : α} (mem : a ∈ list)
    {keep : List Nat} {j : Nat} (adds : ∀ now, keep ⊆ now → j ∈ f now a) :
    j ∈ list.foldl f keep := by
  induction list generalizing keep with
  | nil => cases mem
  | cons b rest ih =>
    rcases mem_cons.mp mem with rfl | inRest
    · exact subset_foldl inflates rest _ (adds keep fun _ h => h)
    · exact ih inRest fun now above => adds now fun _ h => above (inflates keep b h)

theorem subset_keepFrom (keep : List Nat) (i : Nat) : keep ⊆ keepFrom image t keep i := by
  unfold keepFrom
  split
  · split
    · exact fun _ mem => mem
    · exact subset_foldl subset_keepToken _ keep
  · exact fun _ mem => mem

theorem Keeps.from {keep : List Nat} (keeps : Keeps entries image t keep) (i : Nat) :
    Keeps entries image t (keepFrom image t keep i) := by
  unfold keepFrom
  split
  next isKept =>
    split
    · exact keeps
    next k held =>
      have words : ∀ list : List CStr, (∀ tok ∈ list, tok ∈ State.dependsWords k.depends.str) →
          ∀ keep, i ∈ keep → Keeps entries image t keep →
          Keeps entries image t (list.foldl (keepToken image t) keep) := by
        intro list
        induction list with
        | nil => exact fun _ _ _ keeps => keeps
        | cons tok rest ih =>
          intro all keep isKept keeps
          exact ih (fun other mem => all other (mem_cons_of_mem _ mem)) _
            (subset_keepToken keep tok isKept)
            (keeps.token isKept held (all tok mem_cons_self))
      exact words _ (fun _ mem => mem) keep isKept keeps
  · exact keeps

theorem Keeps.pass {keep : List Nat} (keeps : Keeps entries image t keep) :
    Keeps entries image t (keepPass image t keep) := by
  unfold keepPass
  generalize List.range 1024 = list
  induction list generalizing keep with
  | nil => exact keeps
  | cons i rest ih => exact ih (keeps.from i)

theorem subset_keepPass (keep : List Nat) : keep ⊆ keepPass image t keep :=
  subset_foldl subset_keepFrom _ keep

theorem mem_keepPass {keep : List Nat} {kept slot : Nat} {k e : Entry} (isKept : kept ∈ keep)
    (heldK : t.get kept = some k) (held : t.get slot = some e)
    (inImage : e.key.image = image)
    (word : e.key.name.str ∈ State.dependsWords k.depends.str) :
    slot ∈ keepPass image t keep := by
  have inRange := mem_range.mpr (Slots.lt_of_get heldK)
  unfold keepPass
  refine mem_foldl_of_step subset_keepFrom inRange fun now above => ?_
  rw [keepFrom, if_pos (above isKept), heldK]
  apply mem_foldl_of_step subset_keepToken word
  intro now _
  by_cases already : slot ∈ now
  · exact subset_keepToken now _ already
  · refine mem_append_right _ (mem_filter.mpr ⟨mem_range.mpr (Slots.lt_of_get held), ?_⟩)
    simp [already, held, inImage]

variable {s : State}

theorem mem_of_closed {keep : List Nat} (named : s.namedSlots entries image ⊆ keep)
    (closed : Closed image s.table keep) {slot : Nat}
    (needed : Needed entries image s.table slot) : slot ∈ keep := by
  induction needed with
  | named held inImage mem isNamed =>
    refine named (mem_filter.mpr ⟨mem_range.mpr (Slots.lt_of_get held), ?_⟩)
    simp only [held, Option.any_some, Bool.and_eq_true, decide_eq_true_eq, any_eq_true]
    exact ⟨inImage, _, mem, isNamed⟩
  | depends _ isKept held inImage word ih =>
    exact closed _ ih _ isKept _ _ held inImage word

theorem keeps_namedSlots (entries : List ImageManifestEntry) (image : Name) (s : State) :
    Keeps entries image s.table (s.namedSlots entries image) where
  nodup := nodup_range.filter _
  inside slot mem := mem_range.mp (mem_filter.mp mem).1
  needed slot mem := by
    have test := (mem_filter.mp mem).2
    simp only [Option.any_eq_true, Bool.and_eq_true, decide_eq_true_eq, any_eq_true] at test
    obtain ⟨e, held, inImage, m, isEntry, isNamed⟩ := test
    exact .named held inImage isEntry isNamed

theorem closed_of_length {keep next : List Nat} (nodup : keep.Nodup) (above : keep ⊆ next)
    (same : next.length ≤ keep.length)
    (adds : ∀ {kept slot k e}, kept ∈ keep → t.get kept = some k → t.get slot = some e →
      e.key.image = image → e.key.name.str ∈ State.dependsWords k.depends.str →
      slot ∈ next) : (∀ slot, slot ∈ next ↔ slot ∈ keep) ∧ Closed image t keep := by
  have perm := (nodup.subperm above).perm_of_length_le same
  exact ⟨fun slot => perm.symm.mem_iff, fun kept isKept k heldK slot e held inImage word =>
    perm.mem_iff.mpr (adds isKept heldK held inImage word)⟩

theorem keepLoop_spec {rounds : Nat} {keep : List Nat} (keeps : Keeps entries image s.table keep)
    (named : s.namedSlots entries image ⊆ keep) (enough : 1024 < keep.length + rounds) :
    ∃ kept, keepLoop image s.table rounds keep = some kept ∧
      ∀ slot, slot ∈ kept ↔ Needed entries image s.table slot := by
  induction rounds generalizing keep with
  | zero =>
    have few := keeps.length_le
    omega
  | succ rounds ih =>
    have above : keep ⊆ keepPass image s.table keep := subset_keepPass keep
    have grows := (keeps.nodup.subperm above).length_le
    rw [keepLoop]
    by_cases changed : (keepPass image s.table keep).length ≠ keep.length
    · rw [if_pos changed]
      exact ih keeps.pass (fun _ mem => above (named mem)) (by omega)
    · rw [if_neg changed]
      obtain ⟨same, closed⟩ := closed_of_length keeps.nodup above (by omega)
        fun isKept heldK held inImage word => mem_keepPass isKept heldK held inImage word
      refine ⟨_, rfl, fun slot => ?_⟩
      rw [same]
      exact ⟨keeps.needed slot, mem_of_closed named closed⟩

theorem subset_keepDepends (keep : List Nat) (inside : ∀ slot ∈ keep, slot < 1024) :
    keep ⊆ s.keepDepends image keep := by
  intro slot mem
  refine mem_filter.mpr ⟨mem_range.mpr (inside slot mem), ?_⟩
  simp [mem]

theorem Keeps.depends {keep : List Nat} (keeps : Keeps entries image s.table keep) :
    Keeps entries image s.table (s.keepDepends image keep) where
  nodup := nodup_range.filter _
  inside slot mem := mem_range.mp (mem_filter.mp mem).1
  needed slot mem := by
    have test := (mem_filter.mp mem).2
    simp only [Bool.or_eq_true, decide_eq_true_eq, Option.any_eq_true, Bool.and_eq_true,
      any_eq_true] at test
    rcases test with old | ⟨e, held, inImage, kept, isKept, k, heldK, word⟩
    · exact keeps.needed slot old
    · exact .depends (keeps.needed kept isKept) heldK held inImage word

theorem mem_keepDepends {keep : List Nat} {kept slot : Nat} {k e : Entry}
    (isKept : kept ∈ keep) (heldK : s.table.get kept = some k)
    (held : s.table.get slot = some e) (inImage : e.key.image = image)
    (word : e.key.name.str ∈ State.dependsWords k.depends.str) :
    slot ∈ s.keepDepends image keep := by
  refine mem_filter.mpr ⟨mem_range.mpr (Slots.lt_of_get held), ?_⟩
  simp only [held, Option.any_some, inImage, Bool.or_eq_true, Bool.and_eq_true,
    decide_eq_true_eq, any_eq_true, Option.any_eq_true]
  exact Or.inr ⟨trivial, kept, isKept, k, heldK, word⟩

theorem keepDepends_iterate (n : Nat) (entries : List ImageManifestEntry) (image : Name)
    (s : State) :
    Keeps entries image s.table ((s.keepDepends image)^[n] (s.namedSlots entries image)) ∧
      s.namedSlots entries image ⊆ (s.keepDepends image)^[n] (s.namedSlots entries image) ∧
      (Closed image s.table ((s.keepDepends image)^[n] (s.namedSlots entries image)) ∨
        n ≤ ((s.keepDepends image)^[n] (s.namedSlots entries image)).length) := by
  induction n with
  | zero => exact ⟨keeps_namedSlots entries image s, fun _ h => h, Or.inr (Nat.zero_le _)⟩
  | succ n ih =>
    rw [Function.iterate_succ_apply']
    obtain ⟨keeps, named, grown⟩ := ih
    generalize (s.keepDepends image)^[n] (s.namedSlots entries image) = keep at *
    have above : keep ⊆ s.keepDepends image keep := subset_keepDepends keep keeps.inside
    have longer := (keeps.nodup.subperm above).length_le
    refine ⟨keeps.depends, fun _ mem => above (named mem), ?_⟩
    by_cases changed : keep.length < (s.keepDepends image keep).length
    · rcases grown with closed | size
      · refine Or.inl fun kept isKept k heldK slot e held inImage word => ?_
        have needed : ∀ slot ∈ s.keepDepends image keep, slot ∈ keep := fun slot mem =>
          mem_of_closed named closed (keeps.depends.needed slot mem)
        exact above (closed kept (needed kept isKept) k heldK slot e held inImage word)
      · exact Or.inr (by omega)
    · obtain ⟨same, closed⟩ := closed_of_length keeps.nodup above (by omega)
        fun isKept heldK held inImage word =>
          mem_keepDepends isKept heldK held inImage word
      refine Or.inl fun kept isKept k heldK slot e held inImage word => ?_
      exact (same slot).mpr (closed kept ((same kept).mp isKept) k heldK slot e held inImage word)

theorem mem_keepSlots (slot : Nat) :
    slot ∈ s.keepSlots entries image ↔ Needed entries image s.table slot := by
  obtain ⟨keeps, named, grown⟩ := keepDepends_iterate 1024 entries image s
  refine ⟨keeps.needed slot, fun needed => ?_⟩
  rcases grown with closed | size
  · exact mem_of_closed named closed needed
  · -- every slot is kept
    have whole := (keeps.nodup.subperm fun slot mem =>
      mem_range.mpr (keeps.inside slot mem)).perm_of_length_le (by rwa [length_range])
    have inside : slot < 1024 := by
      cases needed with
      | named held => exact Slots.lt_of_get held
      | depends _ _ held => exact Slots.lt_of_get held
    exact whole.mem_iff.mpr (mem_range.mpr inside)

def SameKeys (t t' : Table) : Prop :=
  ∀ slot e', t'.get slot = some e' → ∃ e, t.get slot = some e ∧ e'.key = e.key

theorem SameKeys.refl (t : Table) : SameKeys t t := fun _ e held => ⟨e, held, rfl⟩

theorem SameKeys.trans {t₁ t₂ t₃ : Table} (first : SameKeys t₁ t₂) (second : SameKeys t₂ t₃) :
    SameKeys t₁ t₃ := by
  intro slot e held
  obtain ⟨e₂, held₂, same₂⟩ := second slot e held
  obtain ⟨e₁, held₁, same₁⟩ := first slot e₂ held₂
  exact ⟨e₁, held₁, same₂.trans same₁⟩

theorem sameKeys_pkgFail (slot : Nat) (keepInstalled : Bool) (t : Table) :
    SameKeys t (pkgFail slot keepInstalled t) := by
  intro i e' held
  rw [pkgFail, get_modify] at held
  split at held
  next same =>
    obtain ⟨e, isHeld, rfl⟩ := Option.map_eq_some_iff.mp held
    exact ⟨e, same ▸ isHeld, rfl⟩
  · exact ⟨e', held, rfl⟩

theorem sameKeys_reapOne (i : ChainIdx) (s : State) : SameKeys s.table (s.reapOne i).table := by
  unfold State.reapOne
  split
  · exact .refl _
  split
  · exact .refl _
  split
  · split
    · exact .refl _
    · exact sameKeys_pkgFail _ _ _
  · exact .refl _

theorem sameKeys_chainReapStale (s : State) : SameKeys s.table s.chainReapStale.table := by
  unfold State.chainReapStale
  generalize List.finRange maxConcurrentJobs = order
  induction order generalizing s with
  | nil => exact .refl _
  | cons i rest ih => exact (sameKeys_reapOne i s).trans (ih _)

theorem sameKeys_chainAllocDelete (s : State) : SameKeys s.table s.chainAllocDelete.1.table := by
  unfold State.chainAllocDelete State.chainAllocFrom
  dsimp only
  split
  · exact sameKeys_chainReapStale s
  · exact sameKeys_chainReapStale s

theorem table_startProducer (i : ChainIdx) (slot : Nat) (mutation : Mutation) (s : State) :
    (s.startProducer i slot mutation).table = s.table := by
  unfold State.startProducer
  dsimp only
  split <;> rfl

theorem sameKeys_deleteInto (w : World) (key : Key) (slot : Nat) (i : ChainIdx) (s : State) :
    SameKeys s.table (s.deleteInto w key slot i).1.table := by
  have same : (s.deleteInto w key slot i).1.table = s.table := by
    unfold State.deleteInto State.deleteProduceStart
    dsimp only
    by_cases spawns : w.spawns = true
    · rw [if_pos spawns]
      exact table_startProducer i slot .delete _
    · rw [if_neg spawns]
      rfl
  rw [same]
  exact .refl _

theorem sameKeys_put_none (slot : Nat) (t : Table) : SameKeys t (t.put slot none) := by
  intro i e held
  rcases Slots.get_of_get_put held with ⟨_, impossible⟩ | ⟨_, there⟩
  · cases impossible
  · exact ⟨e, there, rfl⟩

theorem sameKeys_deleteStart (w : World) (key : Key) (s : State) :
    SameKeys s.table (s.deleteStart w key).1.table := by
  unfold State.deleteStart
  split
  · exact .refl _
  split
  · exact .refl _
  split
  next reaped asked =>
    have isReaped : s.chainReapStale = reaped := congrArg Prod.fst asked
    exact isReaped ▸ sameKeys_chainReapStale s
  next found _ reaped asked =>
    have isReaped : s.chainReapStale = reaped := congrArg Prod.fst asked
    have reap : SameKeys s.table reaped.table := isReaped ▸ sameKeys_chainReapStale s
    split
    · have saved : ∀ s : State, (s.save w).table = s.table := by
        intro s
        unfold State.save
        split <;> rfl
      dsimp only
      rw [saved]
      exact reap.trans (sameKeys_put_none _ _)
    have alloc := sameKeys_chainAllocDelete reaped
    split
    next allocated none =>
      rw [none] at alloc
      exact reap.trans alloc
    next allocated i some =>
      rw [some] at alloc
      exact (reap.trans alloc).trans (sameKeys_deleteInto w key _ i allocated)

/-- The packages that the loop hands to `delete_start`. -/
def strayDeletes (w : World) (image : Name) (keep : List Nat) : List Nat → Rebuilds → List Key
  | [], _ => []
  | slot :: rest, r =>
    match r.jobs.table.get slot with
    | none => strayDeletes w image keep rest r
    | some e =>
      if slot ∈ keep ∨ r.strayRefused slot = true ∨
          e.key.image ≠ image ∨ e.state.inFlight = true then
        strayDeletes w image keep rest r
      else
        e.key ::
          match r.deleteStart w e.key with
          | (r, .ok) =>
            if e.state = .installed then []
            else strayDeletes w image keep rest
              { r with strayRefused := Function.update r.strayRefused slot false }
          | (r, _) => strayDeletes w image keep rest
              { r with strayRefused := Function.update r.strayRefused slot true }

theorem strayDeletes_spared {w : World} {keep : List Nat}
    (byKey : ∀ slot other e e', t.get slot = some e → t.get other = some e' →
      e'.key = e.key → slot ∈ keep → other ∈ keep)
    (slots : List Nat) (r : Rebuilds) (same : SameKeys t r.jobs.table) :
    ∀ key ∈ strayDeletes w image keep slots r, key.image = image ∧
      ∀ slot e, t.get slot = some e → e.key = key → slot ∉ keep := by
  induction slots generalizing r with
  | nil => exact fun _ mem => by cases mem
  | cons slot rest ih =>
    rw [strayDeletes]
    cases held : r.jobs.table.get slot with
    | none => exact ih r same
    | some e =>
      dsimp only
      split
      · exact ih r same
      next stray =>
        simp only [not_or, not_not] at stray
        have later := same.trans (sameKeys_deleteStart w e.key r.jobs)
        intro key mem
        rcases mem_cons.mp mem with rfl | inRest
        · refine ⟨stray.2.2.1, fun other e' held' sameKey isKept => stray.1 ?_⟩
          obtain ⟨e₀, held₀, isKey⟩ := same slot e held
          exact byKey other slot e' e₀ held' held₀ (isKey.symm.trans sameKey.symm) isKept
        · split at inRest
          next next started =>
            have jobs : next.jobs = (r.jobs.deleteStart w e.key).1 :=
              (congrArg (fun given => given.1.jobs) started).symm
            split at inRest
            · cases inRest
            · exact ih _ (jobs ▸ later) key inRest
          next next answer _ started =>
            have jobs : next.jobs = (r.jobs.deleteStart w e.key).1 :=
              (congrArg (fun given => given.1.jobs) started).symm
            exact ih _ (jobs ▸ later) key inRest

/-- The packages that a run of `converge_uninstall_strays` hands to
`delete_start`. -/
def convergeDeletes (w : DrainWorld) (image : Name) (entries : List ImageManifestEntry)
    (r : Rebuilds) : List Key :=
  if entries.isEmpty || !w.converges image then []
  else
    strayDeletes (w.answers r.acts) image (r.jobs.keepSlots entries image) (List.range 1024) r

theorem jobs_uninstallStrays (w : World) (image : Name) (keep slots : List Nat) (r : Rebuilds) :
    (Rebuilds.uninstallStrays w image keep slots r).1.jobs =
      (strayDeletes w image keep slots r).foldl (fun jobs key => (jobs.deleteStart w key).1)
        r.jobs := by
  induction slots generalizing r with
  | nil => rfl
  | cons slot rest ih =>
    rw [Rebuilds.uninstallStrays, strayDeletes]
    cases r.jobs.table.get slot with
    | none => exact ih r
    | some e =>
      dsimp only
      by_cases passed : slot ∈ keep ∨ r.strayRefused slot = true ∨
          e.key.image ≠ image ∨ e.state.inFlight = true
      · rw [if_pos passed, if_pos passed]
        exact ih r
      rw [if_neg passed, if_neg passed, foldl_cons]
      have jobs : (r.deleteStart w e.key).1.jobs = (r.jobs.deleteStart w e.key).1 := rfl
      rw [← jobs]
      rcases r.deleteStart w e.key with ⟨next, answer⟩
      cases answer with
      | ok =>
        by_cases installed : e.state = .installed
        · simp only [if_pos installed, foldl_nil]
        · simp only [if_neg installed]
          exact ih _
      | _ => exact ih _

/-- What `converge_uninstall_strays` does to the jobs is `delete_start` of these
packages, one after the other. -/
theorem jobs_convergeUninstallStrays (w : DrainWorld) (image : Name)
    (entries : List ImageManifestEntry) (r : Rebuilds) :
    (r.convergeUninstallStrays w image entries).1.jobs =
      (convergeDeletes w image entries r).foldl
        (fun jobs key => (jobs.deleteStart (w.answers r.acts) key).1) r.jobs := by
  unfold Rebuilds.convergeUninstallStrays convergeDeletes
  split
  · rfl
  · exact jobs_uninstallStrays _ image _ _ r

/-- The passes end within so many rounds; what they keep, here and in the drain,
are the packages that are needed; and no needed package is uninstalled. -/
theorem strays_exact (w : DrainWorld) (image : Name) (entries : List ImageManifestEntry)
    (r : Rebuilds) :
    (∃ kept, keepLoop image r.jobs.table 1025 (r.jobs.namedSlots entries image) = some kept ∧
      ∀ slot, slot ∈ kept ↔ Needed entries image r.jobs.table slot) ∧
    (∀ slot, slot ∈ r.jobs.keepSlots entries image ↔ Needed entries image r.jobs.table slot) ∧
    ∀ key ∈ convergeDeletes w image entries r, key.image = image ∧
      ∀ slot e, r.jobs.table.get slot = some e → e.key = key →
        ¬ Needed entries image r.jobs.table slot := by
  refine ⟨keepLoop_spec (keeps_namedSlots entries image r.jobs) (fun _ h => h) (by omega),
    mem_keepSlots, ?_⟩
  intro key mem
  unfold convergeDeletes at mem
  split at mem
  · cases mem
  · have spared := @strayDeletes_spared image r.jobs.table _ (r.jobs.keepSlots entries image)
      (fun slot other e e' held held' same isKept =>
        (mem_keepSlots other).mpr (((mem_keepSlots slot).mp isKept).of_key held held' same))
      _ r (.refl _) key mem
    exact ⟨spared.1, fun slot e held same needed =>
      spared.2 slot e held same ((mem_keepSlots slot).mpr needed)⟩

end Cix.Pkg
