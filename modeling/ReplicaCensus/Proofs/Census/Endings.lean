import Mathlib
import ReplicaCensus.Proofs.Census.Sharing
/-!
# How the run of a store can end

Whatever a source answers or signals, and whenever the run is cancelled, the run of a store ends in
one of few ways, and each says what became of the two output files. Nothing else in the tree
changes. A run over several stores is a trail of such endings.
-/

namespace ReplicaCensus

/-- Whether a signal has left the cleaning up of a store alone. -/
def Signal.isClean : Signal → Bool
  | cancelled clean => clean
  | interrupted clean => clean

namespace Census

/-! ## 1. One store -/

/-- A store with a key file and without samples, whose keys were read and whose temporary file was
opened. -/
structure Begun (c : Census) (store : String) (tree : FileTree) (keys : List KeyLine)
    (opened : FileTree) (dir : List String) (name : String) : Prop where
  hasKeys : tree.has (c.keysPath store) = true
  opens : c.openFiles store tree = .ok (keys, opened)
  files : c.Opened store tree opened dir name

/-- The verdict on a store and the tree it leaves, case by case. -/
inductive Ends (c : Census) (schema : Schema) (tree : FileTree) :
    Except Signal Outcome → FileTree → Prop where
  | skipped (hs : tree.has (c.samplesPath schema.name) = true) :
    Ends c schema tree (.ok ⟨schema.name, .skipped, 0, none⟩) tree
  | noKeys {error : Option String} (hs : tree.has (c.samplesPath schema.name) = false)
    (hk : tree.has (c.keysPath schema.name) = false) :
    Ends c schema tree (.ok ⟨schema.name, .failed, 0, error⟩) tree
  | unopened {f : Failure} (hs : tree.has (c.samplesPath schema.name) = false)
    (hk : tree.has (c.keysPath schema.name) = true)
    (hopen : c.openFiles schema.name tree = .error f) :
    Ends c schema tree (.ok (c.failedOutcome schema.name 0 f)) (c.discard schema.name tree)
  | sampled {keys : List KeyLine} {opened : FileTree} {dir : List String} {name : String}
    {blocks : List String} (h : c.Begun schema.name tree keys opened dir name)
    (hblocks : keys.map (Schedule.ask (c.setting schema)) = blocks.map .ok) :
    Ends c schema tree (.ok ⟨schema.name, .sampled, blocks.length, none⟩)
      (leftBy tree dir name (blocks, none))
  | failed {keys : List KeyLine} {opened : FileTree} {dir : List String} {name : String}
    {count : Nat} {f : Failure} (h : c.Begun schema.name tree keys opened dir name) :
    Ends c schema tree (.ok (c.failedOutcome schema.name count f))
      (tree.erase (dir ++ [name ++ ".tmp"]))
  | stopped {keys : List KeyLine} {opened : FileTree} {dir : List String} {name : String}
    {signal : Signal} (h : c.Begun schema.name tree keys opened dir name)
    (hsignal : signal.isClean = true) :
    Ends c schema tree (.error signal) (tree.erase (dir ++ [name ++ ".tmp"]))
  -- a signal that hits the cleaning up leaves the temporary file with what was written
  | broken {keys : List KeyLine} {opened : FileTree} {dir : List String} {name : String}
    {signal : Signal} {blocks : List String} (h : c.Begun schema.name tree keys opened dir name)
    (hsignal : signal.isClean = false)
    (hblocks : blocks.map .ok <+: keys.map (Schedule.ask (c.setting schema))) :
    Ends c schema tree (.error signal)
      (opened.insert (dir ++ [name ++ ".tmp"]) (.file (contentOf blocks)))

section

variable {c : Census} {schema : Schema} {tree opened : FileTree} {keys : List KeyLine}
  {dir : List String} {name : String} {st : Schedule.State}

/-- The temporary file is there already, so it can be written. -/
theorem Begun.abandon (h : c.Begun schema.name tree keys opened dir name) (blocks : List String) :
    c.abandon schema.name blocks opened =
      opened.insert (dir ++ [name ++ ".tmp"]) (.file (contentOf blocks)) := by
  have hfile : opened.get? (dir ++ [name ++ ".tmp"]) ≠ some .dir := by
    rw [h.files.get?_opened]
    exact fun he => by cases he
  rw [Census.abandon, h.files.output_opened.unfinished.write hfile]

/-- Whatever ends a run before its time, the temporary file is taken away, unless a cancellation
comes before that. -/
theorem ends_aborted (h : c.Begun schema.name tree keys opened dir name) (cancelAt : Option Rat)
    (hblocks : st.blocks.map .ok <+: keys.map (Schedule.ask (c.setting schema)))
    {verdict : Except Signal Outcome}
    (hclean : c.Ends schema tree verdict (tree.erase (dir ++ [name ++ ".tmp"]))) :
    c.Ends schema tree (c.aborted schema verdict opened st cancelAt).verdict
      (c.aborted schema verdict opened st cancelAt).tree := by
  rcases c.aborted_cases schema verdict opened st cancelAt with heq | ⟨-, heq⟩
  · rw [heq]
    dsimp only
    rw [h.files.discard]
    exact hclean
  · rw [heq]
    dsimp only
    rw [h.abandon]
    exact .broken h rfl hblocks

theorem ends_conclude (h : c.Begun schema.name tree keys opened dir name) (cancelAt : Option Rat)
    (ending : Schedule.Ending)
    (hblocks : st.blocks.map .ok <+: keys.map (Schedule.ask (c.setting schema)))
    (hall : ending = .complete → keys.map (Schedule.ask (c.setting schema)) = st.blocks.map .ok) :
    c.Ends schema tree (c.conclude schema opened st cancelAt ending).verdict
      (c.conclude schema opened st cancelAt ending).tree := by
  cases ending with
  | complete =>
    obtain ⟨hverdict, htree⟩ :=
      conclude_complete c schema st cancelAt (h.files.publish st.blocks)
    rw [hverdict, htree]
    exact .sampled h (hall rfl)
  | failed f =>
    cases f with
    | cancelled => exact ends_aborted h cancelAt hblocks (.stopped h rfl)
    | raised kind text => exact ends_aborted h cancelAt hblocks (.failed h)
    | timeout kind text => exact ends_aborted h cancelAt hblocks (.failed h)
    | interrupted => exact ends_aborted h cancelAt hblocks (.failed h)
  | cancelled => exact ends_aborted h cancelAt hblocks (.stopped h rfl)
  | interrupted =>
    have hverdict := fun clean =>
      (c.aborted_none schema (.error (.interrupted clean)) opened st).1
    by_cases hlimit : c.limit.isSome = true
    · rw [conclude, if_pos hlimit]
      dsimp only
      rw [hverdict, h.abandon]
      exact .broken h rfl hblocks
    · rw [conclude, if_neg hlimit]
      exact ends_aborted h none hblocks (.stopped h rfl)

end

/-- Every run of a store ends in one of these ways. -/
theorem ends_sampleStore (c : Census) (schema : Schema) (now : Rat) (cancelAt : Option Rat)
    (tree : FileTree) :
    c.Ends schema tree (c.sampleStore schema now cancelAt tree).verdict
      (c.sampleStore schema now cancelAt tree).tree := by
  unfold sampleStore sampleWith
  dsimp only
  cases hs : tree.has (c.samplesPath schema.name) with
  | true => exact .skipped hs
  | false =>
    cases hk : tree.has (c.keysPath schema.name) with
    | false => exact .noKeys hs hk
    | true =>
      cases hopen : c.openFiles schema.name tree with
      | error f => exact .unopened hs hk hopen
      | ok found =>
        obtain ⟨keys, opened⟩ := found
        obtain ⟨dir, name, hfiles⟩ := exists_opened hs (write_of_openFiles hopen)
        have hruns := Schedule.runsOut_runOut (c.setting schema) cancelAt
          (.initial now c.slots keys)
        have hblocks := hruns.blocks
        rw [Schedule.fates_initial] at hblocks
        refine ends_conclude ⟨hk, hopen, hfiles⟩ _ _ hblocks fun hcomplete => ?_
        -- a run that is complete has a block for each of its keys
        rw [hcomplete] at hruns
        obtain ⟨-, -, -, hfates⟩ := hruns.complete (slots_pos_initial c.slots_pos now keys)
        rwa [Schedule.fates_initial] at hfates

theorem Ends.store_eq {c : Census} {schema : Schema} {tree newTree : FileTree} {outcome : Outcome}
    (h : c.Ends schema tree (.ok outcome) newTree) : outcome.store = schema.name := by
  cases h <;> rfl

/-! ## 2. The output files of a store -/

/-- What stands in the places of a store's samples and of its temporary file. -/
structure Files where
  samples : Option FileEntry
  unfinished : Option FileEntry

def files (c : Census) (tree : FileTree) (store : String) : Files :=
  ⟨tree.lookup (c.samplesPath store), tree.lookup (c.partialPath store)⟩

/-- The places of a store's samples and of its temporary file. -/
def outputs (c : Census) (tree : FileTree) (store : String) : Set (List String) :=
  {place | tree.target? (c.samplesPath store) = some place ∨
    tree.target? (c.partialPath store) = some place}

variable {c : Census} {store other : String} {t u : FileTree}

theorem files_samples (t : FileTree) (store : String) :
    t.has (c.samplesPath store) = (c.files t store).samples.isSome :=
  FileTree.has_eq_isSome t _

theorem files_unfinished (t : FileTree) (store : String) :
    t.has (c.partialPath store) = (c.files t store).unfinished.isSome :=
  FileTree.has_eq_isSome t _

theorem outputs_congr (hs : FileTree.SameDirs t u) : c.outputs u store = c.outputs t store := by
  obtain ⟨name, hsamples, hpartial⟩ := exists_endsIn c store
  unfold outputs
  rw [hsamples.target?_congr hs, hpartial.target?_congr hs]

theorem Output.files_eq {dir : List String} {name : String} (h : c.Output store t dir name) :
    c.files t store = ⟨t.get? (dir ++ [name]), t.get? (dir ++ [name ++ ".tmp"])⟩ := by
  rw [files, h.samples.lookup_eq, h.unfinished.lookup_eq]

theorem Output.samples_mem {dir : List String} {name : String} (h : c.Output store t dir name) :
    dir ++ [name] ∈ c.outputs t store := .inl h.samples.target?_eq

theorem Output.unfinished_mem {dir : List String} {name : String}
    (h : c.Output store t dir name) : dir ++ [name ++ ".tmp"] ∈ c.outputs t store :=
  .inr h.unfinished.target?_eq

/-- What taking the temporary file away changes: nothing if there is none, or a directory. -/
theorem discard_cases (c : Census) (store : String) (t : FileTree) :
    c.discard store t = t ∧ (∀ old, t.lookup (c.partialPath store) ≠ some (.file old)) ∨
      ∃ dir name old, c.Output store t dir name ∧
        t.get? (dir ++ [name ++ ".tmp"]) = some (.file old) ∧
        c.discard store t = t.erase (dir ++ [name ++ ".tmp"]) := by
  cases ht : t.target? (c.partialPath store) with
  | none =>
    left
    unfold FileTree.target? at ht
    unfold discard FileTree.remove FileTree.lookup
    split at ht
    · cases ht
    · cases ht
    · next hl =>
      rw [hl]
      exact ⟨rfl, fun old he => by cases he⟩
  | some place =>
    obtain ⟨dir, name, ho⟩ := exists_output_of_target ht
    cases hget : t.get? (dir ++ [name ++ ".tmp"]) with
    | none =>
      left
      rw [ho.unfinished.lookup_eq, hget, discard, FileTree.remove, ho.unfinished.locate,
        FileTree.spot, hget]
      exact ⟨rfl, fun old he => by cases he⟩
    | some entry =>
      cases entry with
      | dir =>
        left
        rw [ho.unfinished.lookup_eq, hget, discard, FileTree.remove, ho.unfinished.locate,
          FileTree.spot, hget]
        exact ⟨rfl, fun old he => by cases he⟩
      | file old => exact .inr ⟨dir, name, old, ho, hget, ho.discard hget⟩

/-- A directory in the place of the temporary file stays, and nothing else does. -/
theorem files_discard (hs : t.has (c.samplesPath store) = false) :
    c.files (c.discard store t) store =
      ⟨none, if t.hasDir (c.partialPath store) then some .dir else none⟩ := by
  have hnone : t.lookup (c.samplesPath store) = none := by
    rw [FileTree.has_eq_isSome, Option.isSome_eq_false_iff, Option.isNone_iff_eq_none] at hs
    exact hs
  rcases discard_cases c store t with ⟨hsame, hfile⟩ | ⟨dir, name, old, ho, hold, herase⟩
  · rw [hsame, files, hnone]
    refine congrArg (Files.mk none) ?_
    split
    · next hdir => exact FileTree.hasDir_iff.1 hdir
    · next hdir =>
      cases hp : t.lookup (c.partialPath store) with
      | none => rfl
      | some entry =>
        cases entry with
        | dir => exact absurd (FileTree.hasDir_iff.2 hp) hdir
        | file old => exact absurd hp (hfile old)
  · have hd : t.get? (dir ++ [name ++ ".tmp"]) ≠ some .dir := by
      rw [hold]
      exact fun he => by cases he
    have hdir : ¬t.hasDir (c.partialPath store) = true := by
      rw [FileTree.hasDir_iff, ho.unfinished.lookup_eq]
      exact hd
    rw [ho.samples.lookup_eq] at hnone
    rw [herase, (ho.congr (FileTree.sameDirs_erase hd)).files_eq, OrderedMap.get?_erase,
      if_neg (Output.places_ne dir name), hnone, OrderedMap.get?_erase, if_pos rfl, if_neg hdir]

/-- The files that a store has when its keys come to this. -/
def Files.left : List String × Option Failure → Files
  | (_, some _) => ⟨none, none⟩
  | (blocks, none) => ⟨some (.file (contentOf blocks)), none⟩

theorem Opened.files_leftBy {opened : FileTree} {dir : List String} {name : String}
    (h : c.Opened store t opened dir name) (asked : List String × Option Failure) :
    c.files (leftBy t dir name asked) store = .left asked := by
  rw [(h.output.congr (h.sameDirs_leftBy asked)).files_eq]
  obtain ⟨blocks, failure⟩ := asked
  cases failure with
  | some f =>
    rw [leftBy, OrderedMap.get?_erase, if_neg (Output.places_ne dir name), h.noSamples,
      OrderedMap.get?_erase, if_pos rfl]
    rfl
  | none =>
    rw [leftBy, OrderedMap.get?_insert, if_pos rfl, OrderedMap.get?_insert,
      if_neg (Output.places_ne dir name).symm, OrderedMap.get?_erase, if_pos rfl]
    rfl

theorem Opened.differsAt_leftBy {opened : FileTree} {dir : List String} {name : String}
    (h : c.Opened store t opened dir name) (asked : List String × Option Failure) :
    FileTree.DiffersAt t (leftBy t dir name asked) (c.outputs t store) := by
  have herase := FileTree.DiffersAt.erase h.output.unfinished_mem h.noDir
  obtain ⟨blocks, failure⟩ := asked
  cases failure with
  | some f => exact herase
  | none =>
    refine herase.trans (.insert h.output.samples_mem ?_ _)
    rw [OrderedMap.get?_erase, if_neg (Output.places_ne dir name), h.noSamples]
    exact fun he => by cases he

/-- The run of a store changes its two output files at most. -/
theorem Ends.differsAt {schema : Schema} {verdict : Except Signal Outcome}
    (h : c.Ends schema t verdict u) : FileTree.DiffersAt t u (c.outputs t schema.name) := by
  cases h with
  | skipped => exact .refl t _
  | noKeys => exact .refl t _
  | unopened hs hk hopen =>
    rcases discard_cases c schema.name t with ⟨hsame, -⟩ | ⟨dir, name, old, ho, hold, herase⟩
    · rw [hsame]
      exact .refl t _
    · rw [herase]
      refine .erase ho.unfinished_mem ?_
      rw [hold]
      exact fun he => by cases he
  | sampled h _ => exact h.files.differsAt_leftBy _
  | failed h => exact h.files.differsAt_leftBy ([], some .cancelled)
  | stopped h _ => exact h.files.differsAt_leftBy ([], some .cancelled)
  | broken h _ _ =>
    -- the temporary file that was opened gets its content
    have hopened : FileTree.DiffersAt t _ (c.outputs t schema.name) :=
      .insert h.files.output.unfinished_mem h.files.noDir []
    rw [← h.files.opened_eq] at hopened
    refine hopened.trans (.insert h.files.output.unfinished_mem ?_ _)
    rw [h.files.get?_opened]
    exact fun he => by cases he

/-- Only a store with keys and without samples has anything changed. -/
theorem Ends.eq_or_begins {schema : Schema} {verdict : Except Signal Outcome}
    (h : c.Ends schema t verdict u) :
    u = t ∨ t.has (c.keysPath schema.name) = true ∧ t.has (c.samplesPath schema.name) = false := by
  have hbegun : ∀ {keys opened dir name}, c.Begun schema.name t keys opened dir name →
      t.has (c.keysPath schema.name) = true ∧ t.has (c.samplesPath schema.name) = false := by
    intro keys opened dir name h
    refine ⟨h.hasKeys, ?_⟩
    rw [h.files.output.samples.has, h.files.noSamples]
    rfl
  cases h with
  | skipped => exact .inl rfl
  | noKeys => exact .inl rfl
  | unopened hs hk _ => exact .inr ⟨hk, hs⟩
  | sampled h _ => exact .inr (hbegun h)
  | failed h => exact .inr (hbegun h)
  | stopped h _ => exact .inr (hbegun h)
  | broken h _ _ => exact .inr (hbegun h)

/-! ## 3. Stores beside each other -/

/-- The samples of two stores have different places. -/
def Apart (c : Census) (t : FileTree) (store other : String) : Prop :=
  ∀ place, t.target? (c.samplesPath store) = some place →
    t.target? (c.samplesPath other) ≠ some place

theorem Apart.symm (h : c.Apart t store other) : c.Apart t other store :=
  fun place hplace hother => h place hother hplace

theorem Apart.congr (h : c.Apart t store other) (hs : FileTree.SameDirs t u) :
    c.Apart u store other := by
  obtain ⟨name, hstore, -⟩ := exists_endsIn c store
  obtain ⟨name', hother, -⟩ := exists_endsIn c other
  intro place
  rw [hstore.target?_congr hs, hother.target?_congr hs]
  exact h place

/-- A key file is no output file of any store. -/
theorem lookup_keysPath_of_differsAt (h : FileTree.DiffersAt t u (c.outputs t other)) :
    u.lookup (c.keysPath store) = t.lookup (c.keysPath store) := by
  obtain ⟨name, hkeys⟩ := exists_endsIn_keysPath c store
  obtain ⟨base, hsamples, hpartial⟩ := exists_endsIn c other
  refine hkeys.lookup_congr h.sameDirs fun place hplace => h.same place ?_
  obtain ⟨dir, -, rfl⟩ := hkeys.leads hplace
  -- the names have different suffixes
  rintro (hmem | hmem)
  · obtain ⟨dir', -, heq⟩ := hsamples.leads hmem
    exact keys_ne_samples (last_eq heq)
  · obtain ⟨dir', -, heq⟩ := hpartial.leads hmem
    exact keys_ne_partial (last_eq heq)

/-- A store's samples are in the place of another's samples or in none of its places. -/
theorem not_mem_outputs_of_samples (h : c.Apart t store other) {place : List String}
    (hplace : t.target? (c.samplesPath store) = some place) : place ∉ c.outputs t other := by
  obtain ⟨name, hsamples, -⟩ := exists_endsIn c store
  obtain ⟨base, -, hpartial⟩ := exists_endsIn c other
  rintro (hmem | hmem)
  · exact h place hplace hmem
  · obtain ⟨dir, -, rfl⟩ := hsamples.leads hplace
    obtain ⟨dir', -, heq⟩ := hpartial.leads hmem
    exact samples_ne_partial (last_eq heq)

theorem not_mem_outputs_of_partial (h : c.Apart t store other) {place : List String}
    (hplace : t.target? (c.partialPath store) = some place) : place ∉ c.outputs t other := by
  obtain ⟨dir, name, ho⟩ := exists_output_of_target hplace
  obtain rfl : dir ++ [name ++ ".tmp"] = place :=
    Option.some.inj (ho.unfinished.target?_eq.symm.trans hplace)
  rintro (hmem | hmem)
  · obtain ⟨base, hsamples, -⟩ := exists_endsIn c other
    obtain ⟨dir', -, heq⟩ := hsamples.leads hmem
    exact samples_ne_partial (last_eq heq).symm
  · -- with the temporary files in one place the samples would be, too
    obtain ⟨dir', name', ho'⟩ := exists_output_of_target hmem
    have heq := ho'.unfinished.target?_eq.symm.trans hmem
    obtain ⟨rfl, hlast⟩ := List.append_inj' (Option.some.inj heq) rfl
    obtain rfl := append_suffix_inj (List.cons.inj hlast).1
    exact h _ ho.samples.target?_eq ho'.samples.target?_eq

theorem files_of_differsAt (h : c.Apart t store other)
    (hd : FileTree.DiffersAt t u (c.outputs t other)) : c.files u store = c.files t store := by
  obtain ⟨name, hsamples, hpartial⟩ := exists_endsIn c store
  rw [files, files, hsamples.lookup_congr hd.sameDirs, hpartial.lookup_congr hd.sameDirs]
  · exact fun place hplace => hd.same place (not_mem_outputs_of_partial h hplace)
  · exact fun place hplace => hd.same place (not_mem_outputs_of_samples h hplace)

/-- Samples that are there stay there, whatever store is sampled. -/
theorem Ends.has_samples {schema : Schema} {verdict : Except Signal Outcome}
    (h : c.Ends schema t verdict u) (hs : t.has (c.samplesPath store) = true) :
    u.has (c.samplesPath store) = true := by
  rcases h.eq_or_begins with rfl | ⟨-, hno⟩
  · exact hs
  -- a store whose samples had the same place would have been skipped
  have hapart : c.Apart t store schema.name := by
    intro place hplace hother
    obtain ⟨name, hstore, -⟩ := exists_endsIn c store
    obtain ⟨name', hschema, -⟩ := exists_endsIn c schema.name
    obtain ⟨dir, hdir, rfl⟩ := hstore.leads hplace
    obtain ⟨dir', hdir', heq⟩ := hschema.leads hother
    rw [hdir.has, heq, ← hdir'.has, hno] at hs
    cases hs
  have hfiles := congrArg Files.samples (files_of_differsAt hapart h.differsAt)
  rw [FileTree.has_eq_isSome] at hs ⊢
  exact (congrArg Option.isSome hfiles).trans hs

/-- Whether a verdict says that a store has its samples. -/
def succeeded : Except Signal Outcome → Bool
  | .ok outcome => outcome.ok
  | .error _ => false

/-- A store has samples in the end exactly if its verdict says so. -/
theorem Ends.has_samples_eq {schema : Schema} {verdict : Except Signal Outcome}
    (h : c.Ends schema t verdict u) : u.has (c.samplesPath schema.name) = succeeded verdict := by
  have hsame := h.differsAt.sameDirs
  cases h with
  | skipped hs => exact hs
  | noKeys hs _ => exact hs
  | unopened hs _ _ =>
    rw [files_samples, files_discard hs]
    rfl
  | sampled h _ =>
    rw [files_samples, h.files.files_leftBy]
    rfl
  | failed h => exact h.files.noSamples_of_failure [] .cancelled
  | stopped h _ => exact h.files.noSamples_of_failure [] .cancelled
  | broken h _ _ =>
    -- only the temporary file was written
    rw [(h.files.output.samples.congr hsame).has, OrderedMap.get?_insert,
      if_neg (Output.places_ne _ _), h.files.opened_eq, OrderedMap.get?_insert,
      if_neg (Output.places_ne _ _), h.files.noSamples]
    rfl

/-! ## 4. A run over several stores -/

/-- The stores that were tried one after the other, each with its verdict, from one tree to
another. -/
inductive Trail (c : Census) :
    FileTree → List (Schema × Except Signal Outcome) → FileTree → Prop where
  | nil (tree : FileTree) : Trail c tree [] tree
  | cons {tree next last : FileTree} {schema : Schema} {verdict : Except Signal Outcome}
    {rest : List (Schema × Except Signal Outcome)} (hfirst : c.Ends schema tree verdict next)
    (hrest : Trail c next rest last) : Trail c tree ((schema, verdict) :: rest) last

/-- What a run made of its stores: of some there is a report, one may have been running when a
signal stopped the run, and the others were never tried. -/
structure Account where
  reported : List (Schema × Outcome)
  stopped : Option (Schema × Signal)
  untried : List Schema

/-- Everything in a trail is what it was but for the output files of its stores. -/
theorem Trail.differsAt {tried : List (Schema × Except Signal Outcome)} (h : c.Trail t tried u) :
    FileTree.DiffersAt t u {place | ∃ e ∈ tried, place ∈ c.outputs t e.1.name} := by
  induction h with
  | nil => exact .refl _ _
  | @cons tree next last schema verdict rest hfirst hrest ih =>
    refine (hfirst.differsAt.mono fun place hplace => ?_).trans (ih.mono ?_)
    · exact ⟨_, List.mem_cons_self, hplace⟩
    · rintro place ⟨e, he, hplace⟩
      rw [outputs_congr hfirst.differsAt.sameDirs] at hplace
      exact ⟨e, List.mem_cons_of_mem _ he, hplace⟩

/-- The files of a store stay the same while others are tried. -/
theorem Trail.files_eq {tried : List (Schema × Except Signal Outcome)} (h : c.Trail t tried u)
    (hapart : ∀ e ∈ tried, c.Apart t store e.1.name) : c.files u store = c.files t store := by
  induction h with
  | nil => rfl
  | cons hfirst hrest ih =>
    obtain ⟨hnow, hlater⟩ := List.forall_mem_cons.1 hapart
    rw [ih fun e he => (hlater e he).congr hfirst.differsAt.sameDirs]
    exact files_of_differsAt hnow hfirst.differsAt

theorem Trail.store_eq {tried : List (Schema × Except Signal Outcome)} (h : c.Trail t tried u)
    {schema : Schema} {outcome : Outcome} (he : (schema, .ok outcome) ∈ tried) :
    outcome.store = schema.name := by
  induction h with
  | nil => exact absurd he List.not_mem_nil
  | cons hfirst hrest ih =>
    rcases List.mem_cons.1 he with heq | hlater
    · cases heq
      exact hfirst.store_eq
    · exact ih hlater

/-- Along a trail of stores beside each other, each has samples in the end exactly if its verdict
says so. -/
theorem Trail.has_samples_eq {tried : List (Schema × Except Signal Outcome)}
    (h : c.Trail t tried u) (hapart : tried.Pairwise fun a b => c.Apart t a.1.name b.1.name) :
    ∀ e ∈ tried, u.has (c.samplesPath e.1.name) = succeeded e.2 := by
  induction h with
  | nil => exact fun e he => absurd he List.not_mem_nil
  | @cons tree next last schema verdict rest hfirst hrest ih =>
    obtain ⟨hfirstApart, hrestApart⟩ := List.pairwise_cons.1 hapart
    have hsame := hfirst.differsAt.sameDirs
    rw [List.forall_mem_cons]
    constructor
    -- the stores that come later leave the first one's files alone
    · rw [files_samples, hrest.files_eq fun e he => (hfirstApart e he).congr hsame,
        ← files_samples]
      exact hfirst.has_samples_eq
    · exact ih (hrestApart.imp fun hab => hab.congr hsame)

namespace Account

def tried (a : Account) : List (Schema × Except Signal Outcome) :=
  a.reported.map (fun e => (e.1, .ok e.2)) ++ a.stopped.toList.map fun e => (e.1, .error e.2)

/-- The account of a run over these stores, from one state of the run to another. -/
structure Of (a : Account) (c : Census) (schemas : List Schema) (before after : Run) : Prop where
  stores : schemas = a.tried.map Prod.fst ++ a.untried
  trail : c.Trail before.tree a.tried after.tree
  report : after.report = (a.reported.map Prod.snd).foldl Report.add before.report
  stopped : after.stopped = a.stopped.map Prod.snd

def cons (schema : Schema) (outcome : Outcome) (a : Account) : Account :=
  { a with reported := (schema, outcome) :: a.reported }

theorem Of.mem_schemas {a : Account} {schemas : List Schema} {before after : Run}
    (h : a.Of c schemas before after) {e : Schema × Except Signal Outcome} (he : e ∈ a.tried) :
    e.1 ∈ schemas := by
  rw [h.stores]
  exact List.mem_append_left _ (List.mem_map_of_mem he)

end Account

/-- Every run has an account of its stores. None is left out but after a signal, or with `failFast`
after a store that failed. -/
theorem exists_account (c : Census) (failFast : Bool) (cancelAt : Option Rat)
    (schemas : List Schema) (run : Run) (hrun : run.stopped = none) :
    ∃ a : Account, a.Of c schemas run (c.sampleEach failFast cancelAt schemas run) ∧
      (a.stopped = none → (failFast = true → ∀ e ∈ a.reported, e.2.ok = true) →
        a.untried = []) := by
  induction schemas generalizing cancelAt run with
  | nil => exact ⟨⟨[], none, []⟩, ⟨rfl, .nil _, rfl, hrun⟩, fun _ _ => rfl⟩
  | cons schema rest ih =>
    have hends := ends_sampleStore c schema run.now cancelAt run.tree
    unfold sampleEach
    dsimp only
    cases hverdict : (c.sampleStore schema run.now cancelAt run.tree).verdict with
    | error signal =>
      rw [hverdict] at hends
      exact ⟨⟨[], some (schema, signal), rest⟩, ⟨rfl, .cons hends (.nil _), rfl, rfl⟩,
        fun h => by cases h⟩
    | ok outcome =>
      rw [hverdict] at hends
      dsimp only
      split
      · next hlast =>
        -- the first store that failed is the last that was tried
        refine ⟨⟨[(schema, outcome)], none, rest⟩, ⟨rfl, .cons hends (.nil _), rfl, hrun⟩, ?_⟩
        intro _ hok
        rw [Bool.and_eq_true, Bool.not_eq_true'] at hlast
        have hsucceeded := hok hlast.1 _ (List.mem_singleton_self _)
        rw [hlast.2] at hsucceeded
        cases hsucceeded
      · obtain ⟨a, ha, hall⟩ := ih (c.sampleStore schema run.now cancelAt run.tree).cancelAt
          { run.after (c.sampleStore schema run.now cancelAt run.tree) with
            report := (run.after (c.sampleStore schema run.now cancelAt run.tree)).report.add
              outcome } hrun
        exact ⟨a.cons schema outcome, ⟨congrArg (schema :: ·) ha.stores, .cons hends ha.trail,
          ha.report, ha.stopped⟩, fun hstopped hok =>
            hall hstopped fun hfast => (List.forall_mem_cons.1 (hok hfast)).2⟩

theorem outcomes_foldl_add (outcomes : List Outcome) (report : Report) :
    (outcomes.foldl Report.add report).outcomes =
      (outcomes.map fun o => (o.store, o)).foldl (fun m p => m.insert p.1 p.2) report.outcomes := by
  induction outcomes generalizing report with
  | nil => rfl
  | cons o rest ih => exact ih (report.add o)

/-- Without signals, no store ends a run before the others had their turn. -/
theorem sampleEach_cons (hs : c.source.Ordinary) (schema : Schema) (rest : List Schema)
    (run : Run) :
    ∃ next : Run, c.sampleEach false none (schema :: rest) run = c.sampleEach false none rest next ∧
      next.tree = (c.sampleStore schema run.now none run.tree).tree ∧
      next.stopped = run.stopped := by
  obtain ⟨outcome, hverdict⟩ := exists_outcome hs schema run.now run.tree
  refine ⟨{ run.after (c.sampleStore schema run.now none run.tree) with
    report := (run.after (c.sampleStore schema run.now none run.tree)).report.add outcome },
    ?_, rfl, rfl⟩
  conv_lhs => unfold sampleEach
  dsimp only
  rw [hverdict, cancelAt_sampleStore_none]
  rfl

end Census

end ReplicaCensus
