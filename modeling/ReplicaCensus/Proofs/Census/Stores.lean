import Mathlib
import ReplicaCensus.Proofs.Census.Endings
import ReplicaCensus.Proofs.Cluster.Json
/-!
# Stores beside each other

The files of a store are named after it, so sampling one store leaves the files of the others alone.
What a store needs for being sampled is still there when its turn comes, and its samples stay.
-/

namespace ReplicaCensus.Census

/-! ## 1. Names of files -/

/-- The name of a store with a suffix that has no slash. -/
theorem noSlash_append {store suffix : String} (h : Schema.isValidName store = true)
    (hs : '/' ∉ suffix.toList) : '/' ∉ (store ++ suffix).toList := by
  rw [String.toList_append, List.mem_append, not_or]
  exact ⟨(Schema.noSlash_of_isValidName h).1, hs⟩

theorem endsIn_samplesPath (c : Census) {store : String} (h : Schema.isValidName store = true) :
    FileTree.EndsIn (c.samplesPath store) (store ++ ".kvs") :=
  ⟨FileTree.exists_names_join (noSlash_append h (by decide)) c.outDir,
    FileTree.isPlain_append (by decide)⟩

variable {c : Census} {store other : String} {tree u : FileTree}

/-- Stores of different names have different samples. -/
theorem apart_of_ne (hstore : Schema.isValidName store = true)
    (hother : Schema.isValidName other = true) (hne : store ≠ other) :
    c.Apart tree store other := by
  intro place hplace hsame
  obtain ⟨dir, -, rfl⟩ := (endsIn_samplesPath c hstore).leads hplace
  obtain ⟨dir', -, heq⟩ := (endsIn_samplesPath c hother).leads hsame
  exact hne (append_suffix_inj (last_eq heq))

/-! ## 2. A store that waits for its turn -/

/-- A store can be sampled: its key file can be read, its temporary file can be opened, and there
are no samples of it. -/
structure Ready (c : Census) (store : String) (tree : FileTree) (content : Bytes) : Prop where
  read : tree.read (c.keysPath store) = .ok content
  opens : ∃ opened, tree.write (c.partialPath store) [] = .ok opened
  noSamples : tree.has (c.samplesPath store) = false

/-- What becomes of another store leaves a store ready. -/
theorem Ready.keeps {content : Bytes} (h : Ready c store tree content)
    (hapart : c.Apart tree store other)
    (hd : FileTree.DiffersAt tree u (c.outputs tree other)) : Ready c store u content := by
  obtain ⟨opened, hopened⟩ := h.opens
  obtain ⟨dir, name, ho⟩ := exists_output hopened
  refine ⟨?_, ⟨_, (ho.congr hd.sameDirs).unfinished.write ?_ []⟩, ?_⟩
  · rw [FileTree.read_eq_ok_iff, lookup_keysPath_of_differsAt hd, ← FileTree.read_eq_ok_iff, h.read]
  · exact fun hdir => ho.unfinished.ne_dir_of_write hopened ((hd.sameDirs _).2 hdir)
  · rw [files_samples, files_of_differsAt hapart hd, ← files_samples, h.noSamples]

/-- The samples of a store stay what they are. -/
theorem read_samples_of_differsAt {content : Bytes}
    (h : tree.read (c.samplesPath store) = .ok content) (hapart : c.Apart tree store other)
    (hd : FileTree.DiffersAt tree u (c.outputs tree other)) :
    u.read (c.samplesPath store) = .ok content := by
  rw [FileTree.read_eq_ok_iff] at h ⊢
  rw [← h]
  exact congrArg Files.samples (files_of_differsAt hapart hd)

/-! ## 3. All stores -/

variable {schemas : List Schema}

theorem stopped_sampleEach (hs : c.source.Ordinary) (schemas : List Schema) (run : Run) :
    (c.sampleEach false none schemas run).stopped = run.stopped := by
  induction schemas generalizing run with
  | nil => rfl
  | cons schema rest ih =>
    obtain ⟨next, hnext, -, hstopped⟩ := sampleEach_cons hs schema rest run
    rw [hnext, ih, hstopped]

theorem read_samples_sampleEach (hs : c.source.Ordinary)
    (h : ∀ s ∈ schemas, Schema.isValidName s.name = true)
    (hvalid : Schema.isValidName store = true) (hnew : store ∉ schemas.map Schema.name) {run : Run}
    {content : Bytes} (hread : run.tree.read (c.samplesPath store) = .ok content) :
    (c.sampleEach false none schemas run).tree.read (c.samplesPath store) = .ok content := by
  induction schemas generalizing run with
  | nil => exact hread
  | cons schema rest ih =>
    obtain ⟨hschema, hrest⟩ := List.forall_mem_cons.1 h
    rw [List.map_cons, List.mem_cons, not_or] at hnew
    obtain ⟨next, hnext, htree, -⟩ := sampleEach_cons hs schema rest run
    rw [hnext]
    -- the store in front has another name, so its run passes the samples by
    apply ih hrest hnew.2
    rw [htree]
    exact read_samples_of_differsAt hread (apart_of_ne hvalid hschema hnew.1)
      (ends_sampleStore c schema run.now none run.tree).differsAt

/-- A store whose turn has come gets its samples. -/
theorem read_samples_sampleStore (hs : c.source.Ordinary) {schema : Schema} {content : Bytes}
    (h : Ready c schema.name tree content)
    (hfault : (KeyFile.read (c.keysPath schema.name) content).fault = none) {blocks : List String}
    (hasked : Schedule.askInOrder (c.setting schema)
      (KeyFile.read (c.keysPath schema.name) content).keys = (blocks, none))
    (now : Rat) :
    (c.sampleStore schema now none tree).tree.read (c.samplesPath schema.name) =
      .ok (contentOf blocks) := by
  obtain ⟨opened, hopened⟩ := h.opens
  obtain ⟨dir, name, ho⟩ := exists_opened h.noSamples hopened
  have hkeys : tree.has (c.keysPath schema.name) = true := by
    have hread := h.read
    unfold FileTree.read at hread
    unfold FileTree.has
    split at hread
    · next hplace => rw [hplace]
    all_goals cases hread
  have hopen := openFiles_eq h.read hfault hopened
  rw [(sampleStore_of_opened hs hkeys hopen ho now).2, hasked]
  exact ho.read_samples blocks

/-- Every store that is ready at the beginning has its samples at the end. -/
theorem read_samples_of_ready (hs : c.source.Ordinary) (hsound : Schema.AreSound schemas)
    {schema : Schema} (hmem : schema ∈ schemas) {run : Run} {content : Bytes}
    (h : Ready c schema.name run.tree content)
    (hfault : (KeyFile.read (c.keysPath schema.name) content).fault = none) {blocks : List String}
    (hasked : Schedule.askInOrder (c.setting schema)
      (KeyFile.read (c.keysPath schema.name) content).keys = (blocks, none)) :
    (c.sampleEach false none schemas run).tree.read (c.samplesPath schema.name) =
      .ok (contentOf blocks) := by
  obtain ⟨heach, hnodup⟩ := hsound
  have hname := (heach schema hmem).name
  -- by induction on the stores: before its turn the store stays ready, after it the samples stay
  induction schemas generalizing run with
  | nil => exact absurd hmem List.not_mem_nil
  | cons first rest ih =>
    obtain ⟨hfirst, hrest⟩ := List.forall_mem_cons.1 heach
    rw [List.map_cons, List.nodup_cons] at hnodup
    obtain ⟨next, hnext, htree, -⟩ := sampleEach_cons hs first rest run
    rw [hnext]
    rcases List.mem_cons.1 hmem with rfl | hlater
    · apply read_samples_sampleEach hs (fun s hs => (hrest s hs).name) hname hnodup.1
      rw [htree]
      exact read_samples_sampleStore hs h hfault hasked run.now
    · have hne : schema.name ≠ first.name :=
        fun he => hnodup.1 (he ▸ List.mem_map_of_mem hlater)
      apply ih hlater _ hrest hnodup.2
      rw [htree]
      exact h.keeps (apart_of_ne hname hfirst.name hne)
        (ends_sampleStore c first run.now none run.tree).differsAt

end ReplicaCensus.Census
