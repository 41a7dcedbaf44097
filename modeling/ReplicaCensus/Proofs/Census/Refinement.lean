import Mathlib
import ReplicaCensus.Proofs.Census.Cancelling
import ReplicaCensus.Proofs.Census.Output
/-!
# Sampling a store beside sampling it one key at a time

A run with slots, delays and a time limit leaves the same outcome and the same tree as the plain
loop over the keys. The schedule is taken care of by the fates of the tasks; what is left here is
the files.
-/

namespace ReplicaCensus.Census

/-! ## 1. After the key file was read -/

/-- A run that ends before its time cleans up, unless a cancellation comes meanwhile. -/
theorem aborted_cases (c : Census) (schema : Schema) (verdict : Except Signal Outcome)
    (tree : FileTree) (st : Schedule.State) (cancelAt : Option Rat) :
    let last := (st.abort (c.setting schema) cancelAt).1
    c.aborted schema verdict tree st cancelAt =
        ⟨verdict, c.discard schema.name tree, callsBefore st.now st.calls, st.now, last.now,
          st.peak, last.free, last.openUntil, cancelAt⟩ ∨
      (st.abort (c.setting schema) cancelAt).2 = true ∧
        c.aborted schema verdict tree st cancelAt =
          ⟨.error (.cancelled false), c.abandon schema.name st.blocks tree,
            callsBefore st.now st.calls, st.now, last.now, st.peak, last.free, last.openUntil,
            none⟩ := by
  dsimp only
  unfold aborted
  dsimp only
  split
  · next last hlast =>
    rw [hlast]
    exact .inl rfl
  · next last hlast =>
    rw [hlast]
    exact .inr ⟨rfl, rfl⟩

theorem aborted_none (c : Census) (schema : Schema) (verdict : Except Signal Outcome)
    (tree : FileTree) (st : Schedule.State) :
    (c.aborted schema verdict tree st none).verdict = verdict ∧
      (c.aborted schema verdict tree st none).tree = c.discard schema.name tree ∧
      (c.aborted schema verdict tree st none).cancelAt = none := by
  rcases c.aborted_cases schema verdict tree st none with h | ⟨hhit, -⟩
  · rw [h]
    exact ⟨rfl, rfl, rfl⟩
  · rw [Schedule.abort_none] at hhit
    cases hhit

/-- A store that is cleaned up comes to no other report than the one it had. -/
theorem ok_of_aborted {c : Census} {schema : Schema} {verdict : Except Signal Outcome}
    {tree : FileTree} {st : Schedule.State} {cancelAt : Option Rat} {outcome : Outcome}
    (h : (c.aborted schema verdict tree st cancelAt).verdict = .ok outcome) :
    verdict = .ok outcome := by
  rcases c.aborted_cases schema verdict tree st cancelAt with hcase | ⟨-, hcase⟩
  · rwa [hcase] at h
  · rw [hcase] at h
    cases h

/-- What all stores have in common that were cleaned up: only the verdict and the tree tell what has
ended them. -/
structure StoreRun.Cleaned (r : StoreRun) (c : Census) (schema : Schema) (st : Schedule.State)
    (cancelAt : Option Rat) : Prop where
  calls : r.calls = callsBefore st.now st.calls
  halted : r.halted = st.now
  ended : r.ended = (st.abort (c.setting schema) cancelAt).1.now
  peak : r.peak = st.peak
  free : r.free = (st.abort (c.setting schema) cancelAt).1.free
  openUntil : r.openUntil = (st.abort (c.setting schema) cancelAt).1.openUntil

theorem cleaned_aborted (c : Census) (schema : Schema) (verdict : Except Signal Outcome)
    (tree : FileTree) (st : Schedule.State) (cancelAt : Option Rat) :
    (c.aborted schema verdict tree st cancelAt).Cleaned c schema st cancelAt := by
  rcases c.aborted_cases schema verdict tree st cancelAt with h | ⟨-, h⟩
  · rw [h]
    exact ⟨rfl, rfl, rfl, rfl, rfl, rfl⟩
  · rw [h]
    exact ⟨rfl, rfl, rfl, rfl, rfl, rfl⟩

/-- The samples of a store are published, or it is cleaned up. An interruption leaves no other
cancellation to come. -/
theorem conclude_cases (c : Census) (schema : Schema) (tree : FileTree) (st : Schedule.State)
    (cancelAt : Option Rat) (ending : Schedule.Ending) :
    (ending = .complete ∧ ∃ published,
        c.conclude schema tree st cancelAt ending =
          ⟨.ok ⟨schema.name, .sampled, st.blocks.length, none⟩, published, st.calls, st.now,
            st.now, st.peak, st.free, st.openUntil, cancelAt⟩) ∨
      ∃ left, (ending ≠ .interrupted → left = cancelAt) ∧ (ending = .interrupted → left = none) ∧
        (c.conclude schema tree st cancelAt ending).Cleaned c schema st left := by
  have hcut := fun verdict => c.cleaned_aborted schema verdict tree st
  cases ending with
  | complete =>
    unfold conclude
    dsimp only
    split
    · exact .inl ⟨rfl, _, rfl⟩
    · exact .inr ⟨cancelAt, fun _ => rfl, Schedule.Ending.noConfusion, hcut _ _⟩
  | failed f =>
    refine .inr ⟨cancelAt, fun _ => rfl, Schedule.Ending.noConfusion, ?_⟩
    cases f <;> exact hcut _ _
  | cancelled => exact .inr ⟨cancelAt, fun _ => rfl, Schedule.Ending.noConfusion, hcut _ _⟩
  | interrupted =>
    refine .inr ⟨none, fun h => absurd rfl h, fun _ => rfl, ?_⟩
    unfold conclude
    dsimp only
    split
    · -- the tree that is left is another
      have hclean := hcut (.error (.interrupted false)) none
      exact ⟨hclean.calls, hclean.halted, hclean.ended, hclean.peak, hclean.free,
        hclean.openUntil⟩
    · exact hcut _ _

/-- A run that comes to a report is complete, or has failed with a key. -/
theorem of_conclude_ok {c : Census} {schema : Schema} {tree : FileTree} {st : Schedule.State}
    {cancelAt : Option Rat} {ending : Schedule.Ending} {outcome : Outcome}
    (h : (c.conclude schema tree st cancelAt ending).verdict = .ok outcome) :
    (ending = .complete ∧
        (outcome = ⟨schema.name, .sampled, st.blocks.length, none⟩ ∧
            (c.conclude schema tree st cancelAt ending).calls = st.calls ∨
          ∃ f, c.publish schema.name st.blocks tree = .error f ∧
            outcome = c.failedOutcome schema.name st.blocks.length f)) ∨
      ∃ f, f ≠ .cancelled ∧ ending = .failed f ∧
        outcome = c.failedOutcome schema.name st.blocks.length f := by
  unfold conclude at h ⊢
  split at h
  · split at h
    · cases h
      exact .inl ⟨rfl, .inl ⟨rfl, rfl⟩⟩
    · next f hpublish =>
      cases ok_of_aborted h
      exact .inl ⟨rfl, .inr ⟨f, hpublish, rfl⟩⟩
  · cases ok_of_aborted h
  · next f hne =>
    cases ok_of_aborted h
    exact .inr ⟨f, hne, rfl, rfl⟩
  · cases ok_of_aborted h
  · split at h
    · have hclean := @ok_of_aborted c schema (.error (.interrupted false)) tree st none outcome h
      cases hclean
    · cases ok_of_aborted h

theorem conclude_failed (c : Census) (schema : Schema) (tree : FileTree) (st : Schedule.State)
    {f : Failure} (h : f.isOrdinary = true) :
    (c.conclude schema tree st none (.failed f)).verdict =
        .ok (c.failedOutcome schema.name st.blocks.length f) ∧
      (c.conclude schema tree st none (.failed f)).tree = c.discard schema.name tree := by
  have hnone := c.aborted_none schema (.ok (c.failedOutcome schema.name st.blocks.length f)) tree st
  cases f with
  | raised kind text => exact ⟨hnone.1, hnone.2.1⟩
  | timeout kind text => exact ⟨hnone.1, hnone.2.1⟩
  | cancelled => cases h
  | interrupted => cases h

theorem conclude_complete (c : Census) (schema : Schema) {tree published : FileTree}
    (st : Schedule.State) (cancelAt : Option Rat)
    (h : c.publish schema.name st.blocks tree = .ok published) :
    (c.conclude schema tree st cancelAt .complete).verdict =
        .ok ⟨schema.name, .sampled, st.blocks.length, none⟩ ∧
      (c.conclude schema tree st cancelAt .complete).tree = published := by
  rw [conclude, h]
  exact ⟨rfl, rfl⟩

theorem sampleStore_of_open {c : Census} {schema : Schema} {tree opened : FileTree}
    {keys : List KeyLine} (hnew : tree.has (c.samplesPath schema.name) = false)
    (hkeys : tree.has (c.keysPath schema.name) = true)
    (hopen : c.openFiles schema.name tree = .ok (keys, opened)) (now : Rat) :
    c.sampleStore schema now none tree =
      c.conclude schema opened
        (Schedule.run (c.setting schema) none (.initial now c.slots keys)).1 none
        (Schedule.run (c.setting schema) none (.initial now c.slots keys)).2 := by
  have hslots : 0 < (Schedule.State.initial now c.slots keys).slots := by
    rw [Schedule.slots_initial]
    exact c.slots_pos
  rw [sampleStore, sampleWith, hnew, hkeys, hopen]
  dsimp only
  rw [Schedule.runOut_none (c.setting schema) hslots]
  rfl

theorem openFiles_eq {c : Census} {store : String} {tree opened : FileTree} {content : Bytes}
    (hread : tree.read (c.keysPath store) = .ok content)
    (hfault : (KeyFile.read (c.keysPath store) content).fault = none)
    (hwrite : tree.write (c.partialPath store) [] = .ok opened) :
    c.openFiles store tree =
      .ok ((KeyFile.read (c.keysPath store) content).keys, opened) := by
  rw [openFiles, hread]
  dsimp only
  rw [hfault]
  dsimp only
  rw [hwrite]

/-- What it takes to open the files of a store. -/
theorem openFiles_cases {c : Census} {store : String} {tree opened : FileTree} {keys : List KeyLine}
    (h : c.openFiles store tree = .ok (keys, opened)) :
    ∃ content, tree.read (c.keysPath store) = .ok content ∧
      (KeyFile.read (c.keysPath store) content).fault = none ∧
      (KeyFile.read (c.keysPath store) content).keys = keys ∧
      tree.write (c.partialPath store) [] = .ok opened := by
  unfold openFiles at h
  split at h
  · cases h
  next content hread =>
  dsimp only at h
  split at h
  · cases h
  next hfault =>
  split at h
  · cases h
  next u hwrite =>
  cases h
  exact ⟨content, hread, hfault, rfl, hwrite⟩

theorem write_of_openFiles {c : Census} {store : String} {tree opened : FileTree}
    {keys : List KeyLine} (h : c.openFiles store tree = .ok (keys, opened)) :
    tree.write (c.partialPath store) [] = .ok opened := by
  obtain ⟨content, -, -, -, hwrite⟩ := openFiles_cases h
  exact hwrite

/-- What a store's run leaves in the tree, given what its keys come to. -/
def leftBy (tree : FileTree) (dir : List String) (name : String) :
    List String × Option Failure → FileTree
  | (_, some _) => tree.erase (dir ++ [name ++ ".tmp"])
  | (blocks, none) =>
    (tree.erase (dir ++ [name ++ ".tmp"])).insert (dir ++ [name]) (.file (contentOf blocks))

/-- The outcome of a store, given what its keys come to. -/
def outcomeOf (c : Census) (store : String) : List String × Option Failure → Outcome
  | (blocks, some f) => c.failedOutcome store blocks.length f
  | (blocks, none) => ⟨store, .sampled, blocks.length, none⟩

/-- A store without samples whose keys were read and whose temporary file could be opened. -/
structure Opened (c : Census) (store : String) (tree opened : FileTree) (dir : List String)
    (name : String) : Prop where
  output : c.Output store tree dir name
  noSamples : tree.get? (dir ++ [name]) = none
  noDir : tree.get? (dir ++ [name ++ ".tmp"]) ≠ some .dir
  opened_eq : opened = tree.insert (dir ++ [name ++ ".tmp"]) (.file [])

theorem exists_opened {c : Census} {store : String} {tree opened : FileTree}
    (hnew : tree.has (c.samplesPath store) = false)
    (hwrite : tree.write (c.partialPath store) [] = .ok opened) :
    ∃ dir name, c.Opened store tree opened dir name := by
  obtain ⟨dir, name, ho⟩ := exists_output hwrite
  -- nothing stands in the place of the samples, not even a directory
  have hno : tree.get? (dir ++ [name]) = none := by
    rw [ho.samples.has] at hnew
    exact Option.isNone_iff_eq_none.1 (by rw [← Option.not_isSome, hnew]; rfl)
  have hdir := ho.unfinished.ne_dir_of_write hwrite
  rw [ho.unfinished.write hdir] at hwrite
  exact ⟨dir, name, ho, hno, hdir, (Except.ok.inj hwrite).symm⟩

namespace Opened

variable {c : Census} {store : String} {tree opened : FileTree} {dir : List String} {name : String}

theorem output_opened (h : c.Opened store tree opened dir name) :
    c.Output store opened dir name := by
  rw [h.opened_eq]
  exact h.output.congr (FileTree.sameDirs_insert h.noDir [])

theorem get?_opened (h : c.Opened store tree opened dir name) :
    opened.get? (dir ++ [name ++ ".tmp"]) = some (.file []) := by
  rw [h.opened_eq, OrderedMap.get?_insert, if_pos rfl]

theorem discard (h : c.Opened store tree opened dir name) :
    c.discard store opened = tree.erase (dir ++ [name ++ ".tmp"]) := by
  rw [h.output_opened.discard h.get?_opened, h.opened_eq, OrderedMap.erase_insert]

theorem publish (h : c.Opened store tree opened dir name) (blocks : List String) :
    c.publish store blocks opened = .ok (leftBy tree dir name (blocks, none)) := by
  -- the temporary file stands beside the samples, not in their place
  have hfree : opened.get? (dir ++ [name]) ≠ some .dir := by
    rw [h.opened_eq, OrderedMap.get?_insert, if_neg (Output.places_ne dir name), h.noSamples]
    exact fun he => by cases he
  rw [h.output_opened.publish h.get?_opened hfree, h.opened_eq, OrderedMap.erase_insert]
  rfl

theorem write_samples (h : c.Opened store tree opened dir name) (blocks : List String) :
    (c.discard store opened).write (c.samplesPath store) (contentOf blocks) =
      .ok (leftBy tree dir name (blocks, none)) := by
  have herased := h.output.congr (FileTree.sameDirs_erase h.noDir)
  rw [h.discard]
  refine herased.samples.write ?_ _
  rw [OrderedMap.get?_erase, if_neg (Output.places_ne dir name), h.noSamples]
  exact fun he => by cases he

theorem sameDirs_leftBy (h : c.Opened store tree opened dir name)
    (asked : List String × Option Failure) :
    FileTree.SameDirs tree (leftBy tree dir name asked) := by
  have herase := FileTree.sameDirs_erase h.noDir
  obtain ⟨blocks, failure⟩ := asked
  cases failure with
  | some f => exact herase
  | none =>
    refine herase.trans (FileTree.sameDirs_insert ?_ _)
    rw [OrderedMap.get?_erase, if_neg (Output.places_ne dir name), h.noSamples]
    exact fun he => by cases he

theorem noPartial (h : c.Opened store tree opened dir name)
    (asked : List String × Option Failure) :
    (leftBy tree dir name asked).has (c.partialPath store) = false := by
  rw [(h.output.congr (h.sameDirs_leftBy asked)).unfinished.has]
  obtain ⟨blocks, failure⟩ := asked
  cases failure with
  | some f => rw [leftBy, OrderedMap.get?_erase, if_pos rfl]; rfl
  | none =>
    rw [leftBy, OrderedMap.get?_insert, if_neg (Output.places_ne dir name).symm,
      OrderedMap.get?_erase, if_pos rfl]
    rfl

theorem read_samples (h : c.Opened store tree opened dir name) (blocks : List String) :
    (leftBy tree dir name (blocks, none)).read (c.samplesPath store) = .ok (contentOf blocks) := by
  rw [(h.output.congr (h.sameDirs_leftBy _)).samples.read_eq_ok, leftBy, OrderedMap.get?_insert,
    if_pos rfl]

theorem noSamples_of_failure (h : c.Opened store tree opened dir name) (blocks : List String)
    (f : Failure) :
    (leftBy tree dir name (blocks, some f)).has (c.samplesPath store) = false := by
  rw [(h.output.congr (h.sameDirs_leftBy _)).samples.has, leftBy, OrderedMap.get?_erase,
    if_neg (Output.places_ne dir name), h.noSamples]
  rfl

end Opened

/-- The run of a store whose files are open: its keys decide what becomes of it, not its slots. -/
theorem sampleStore_of_opened {c : Census} {schema : Schema} {tree opened : FileTree}
    {keys : List KeyLine} {dir : List String} {name : String} (hs : c.source.Ordinary)
    (hkeys : tree.has (c.keysPath schema.name) = true)
    (hopen : c.openFiles schema.name tree = .ok (keys, opened))
    (h : c.Opened schema.name tree opened dir name) (now : Rat) :
    (c.sampleStore schema now none tree).verdict =
        .ok (c.outcomeOf schema.name (Schedule.askInOrder (c.setting schema) keys)) ∧
      (c.sampleStore schema now none tree).tree =
        leftBy tree dir name (Schedule.askInOrder (c.setting schema) keys) := by
  have hnew : tree.has (c.samplesPath schema.name) = false := by
    rw [h.output.samples.has, h.noSamples]
    rfl
  rw [sampleStore_of_open hnew hkeys hopen]
  have hrun := @Schedule.run_eq_askInOrder (c.setting schema) hs now _ c.slots_pos keys
  obtain ⟨hblocks, hending⟩ := hrun
  -- from here on only the blocks and the ending of the run matter
  generalize Schedule.run (c.setting schema) none (.initial now c.slots keys) = result
    at hblocks hending
  cases hasked : Schedule.askInOrder (c.setting schema) keys with
  | mk blocks failure =>
    rw [hasked] at hblocks hending
    dsimp only at hblocks hending
    rw [hending]
    cases failure with
    | none =>
      have hc := conclude_complete c schema result.1 none (h.publish result.1.blocks)
      rw [hblocks] at hc
      exact hc
    | some f =>
      -- the failure comes from the source or from the limit, so it stops no run
      have hf : f.isOrdinary = true := Schedule.isOrdinary_askInOrder hs (by rw [hasked])
      have hc := conclude_failed c schema opened result.1 hf
      rw [hblocks, h.discard] at hc
      exact hc

/-- A source without signals stops no run. -/
theorem exists_outcome {c : Census} (hs : c.source.Ordinary) (schema : Schema) (now : Rat)
    (tree : FileTree) :
    ∃ outcome, (c.sampleStore schema now none tree).verdict = .ok outcome := by
  cases hnew : tree.has (c.samplesPath schema.name) with
  | true => rw [sampleStore, sampleWith, hnew]; exact ⟨_, rfl⟩
  | false =>
    cases hkeys : tree.has (c.keysPath schema.name) with
    | false => rw [sampleStore, sampleWith, hnew, hkeys]; exact ⟨_, rfl⟩
    | true =>
      cases hopen : c.openFiles schema.name tree with
      | error f => rw [sampleStore, sampleWith, hnew, hkeys, hopen]; exact ⟨_, rfl⟩
      | ok found =>
        -- from here on the source alone decides, and it gives no signal
        obtain ⟨dir, name, ho⟩ := exists_opened hnew (write_of_openFiles hopen)
        exact ⟨_, (sampleStore_of_opened hs hkeys hopen ho now).1⟩

theorem sampleInOrder_of_opened {c : Census} {schema : Schema} {tree opened : FileTree}
    {content : Bytes} {dir : List String} {name : String}
    (hread : tree.read (c.keysPath schema.name) = .ok content)
    (hfault : (KeyFile.read (c.keysPath schema.name) content).fault = none)
    (hwrite : tree.write (c.partialPath schema.name) [] = .ok opened)
    (h : c.Opened schema.name tree opened dir name) {asked : List String × Option Failure}
    (hasked : Schedule.askInOrder (c.setting schema)
      (KeyFile.read (c.keysPath schema.name) content).keys = asked) :
    c.sampleInOrder schema tree = (c.outcomeOf schema.name asked, leftBy tree dir name asked) := by
  rw [sampleInOrder, hread]
  dsimp only
  rw [hfault]
  dsimp only
  rw [hwrite]
  dsimp only
  rw [hasked]
  obtain ⟨blocks, failure⟩ := asked
  cases failure with
  | some f =>
    dsimp only
    rw [h.discard]
    rfl
  | none =>
    have hwritten := h.write_samples blocks
    unfold contentOf at hwritten
    dsimp only
    rw [hwritten]
    rfl

/-! ## 2. The whole store -/

/-- Sampling a store with slots, delays and a limit comes to what sampling it one key at a time
comes to. If every key has its block, the samples are the blocks in file order; if one has none,
there are no samples; and no temporary file is left. -/
theorem sampleStore_eq_sampleInOrder (c : Census) (schema : Schema) (now : Rat) (tree : FileTree)
    (hs : c.source.Ordinary) (hkeys : tree.has (c.keysPath schema.name) = true)
    (hnew : tree.has (c.samplesPath schema.name) = false) :
    (c.sampleStore schema now none tree).verdict = .ok (c.sampleInOrder schema tree).1 ∧
      (c.sampleStore schema now none tree).tree = (c.sampleInOrder schema tree).2 ∧
      ∀ content opened, tree.read (c.keysPath schema.name) = .ok content →
        (KeyFile.read (c.keysPath schema.name) content).fault = none →
        tree.write (c.partialPath schema.name) [] = .ok opened →
        (c.sampleInOrder schema tree).2.has (c.partialPath schema.name) = false ∧
          match Schedule.askInOrder (c.setting schema)
            (KeyFile.read (c.keysPath schema.name) content).keys with
          | (blocks, none) =>
            (c.sampleInOrder schema tree).1 = ⟨schema.name, .sampled, blocks.length, none⟩ ∧
              (c.sampleInOrder schema tree).2.read (c.samplesPath schema.name) =
                .ok (Utf8.encode (String.join blocks).toList)
          | (blocks, some f) =>
            (c.sampleInOrder schema tree).1 =
                ⟨schema.name, .failed, blocks.length, some (f.describe c.limit)⟩ ∧
              (c.sampleInOrder schema tree).2.has (c.samplesPath schema.name) = false := by
  rw [← and_assoc]
  constructor
  · cases hread : tree.read (c.keysPath schema.name) with
    -- neither way gets beyond a key file that cannot be read, is faulty, or has no room beside it
    | error e =>
      rw [sampleStore, sampleWith, sampleInOrder, hnew, hkeys, openFiles, hread]
      exact ⟨rfl, rfl⟩
    | ok content =>
      cases hfault : (KeyFile.read (c.keysPath schema.name) content).fault with
      | some fault =>
        rw [sampleStore, sampleWith, sampleInOrder, hnew, hkeys, openFiles, hread]
        dsimp only
        rw [hfault]
        exact ⟨rfl, rfl⟩
      | none =>
        cases hwrite : tree.write (c.partialPath schema.name) [] with
        | error e =>
          rw [sampleStore, sampleWith, sampleInOrder, hnew, hkeys, openFiles, hread]
          dsimp only
          rw [hfault]
          dsimp only
          rw [hwrite]
          exact ⟨rfl, rfl⟩
        | ok opened =>
          -- both open the temporary file at the same place, and there the ways part
          obtain ⟨dir, name, ho⟩ := exists_opened hnew hwrite
          have hopen := openFiles_eq hread hfault hwrite
          rw [sampleInOrder_of_opened hread hfault hwrite ho rfl]
          exact sampleStore_of_opened hs hkeys hopen ho now
  · intro content opened hread hfault hwrite
    obtain ⟨dir, name, ho⟩ := exists_opened hnew hwrite
    cases hasked : Schedule.askInOrder (c.setting schema)
        (KeyFile.read (c.keysPath schema.name) content).keys with
    | mk blocks failure =>
      -- what the tree holds then can be told from the blocks and the failure alone
      rw [sampleInOrder_of_opened hread hfault hwrite ho hasked]
      refine ⟨ho.noPartial _, ?_⟩
      cases failure with
      | none => exact ⟨rfl, ho.read_samples blocks⟩
      | some f => exact ⟨rfl, ho.noSamples_of_failure blocks f⟩

/-! The slow first key and the failing second one are open at the same time. -/

/-- The node 0 is slow for the key `61` and refuses the key `62`. -/
def unevenSource : Source where
  replicas _ _ := .ok [0, 1]
  fetch q :=
    if q.key = [0x62] ∧ q.node = 0 then
      .prompt 1 (.error (.raised "ConnectError" "connection refused"))
    else .prompt (if q.key = [0x61] then 3 else 1) (.ok ["version(0:1) ts:7"])

def uneven : Census := ⟨unevenSource, "in", "out", 2, some (.whole 10), by decide⟩

def unevenSchema : Schema := ⟨"s", 2, Schema.allRouting⟩

def unevenTree : FileTree :=
  OrderedMap.ofList [(["in"], .dir), (["out"], .dir),
    (["in", "s.keys"], .file (Utf8.encode "61\n62\n63\n".toList))]

theorem unevenSource_ordinary : unevenSource.Ordinary := by
  constructor
  · intro schema key f h
    cases h
  · intro q f h
    unfold unevenSource at h
    dsimp only at h
    split at h
    · cases h
      rfl
    · cases h

theorem sampleStore_eq_sampleInOrder_uneven :
    uneven.source.Ordinary ∧ unevenTree.has (uneven.keysPath unevenSchema.name) = true ∧
      unevenTree.has (uneven.samplesPath unevenSchema.name) = false ∧
      (uneven.sampleStore unevenSchema 0 none unevenTree).verdict =
        .ok ⟨"s", .failed, 1, some "ConnectError: connection refused"⟩ ∧
      (uneven.sampleStore unevenSchema 0 none unevenTree).tree = unevenTree := by
  have hkeys : unevenTree.has (uneven.keysPath unevenSchema.name) = true := by decide +kernel
  have hnew : unevenTree.has (uneven.samplesPath unevenSchema.name) = false := by decide +kernel
  have h := sampleStore_eq_sampleInOrder uneven unevenSchema 0 unevenTree unevenSource_ordinary
    hkeys hnew
  have hresult : uneven.sampleInOrder unevenSchema unevenTree =
      (⟨"s", .failed, 1, some "ConnectError: connection refused"⟩, unevenTree) := by decide +kernel
  rw [hresult] at h
  exact ⟨unevenSource_ordinary, hkeys, hnew, h.1, h.2.1⟩

end ReplicaCensus.Census
