import Mathlib
import ReplicaCensus.Proofs.Census.AllOrNothing
import ReplicaCensus.Proofs.Census.Resumption
/-!
# Stores are sampled independently of each other

In a run over several stores each of them comes to what it would come to by itself, on the tree the
run began with and at whatever time. A run that stops at the first failure is one over fewer stores.
-/

namespace ReplicaCensus

theorem FileTree.read_congr {t u : FileTree} {path : String} (hhas : t.has path = true)
    (h : u.lookup path = t.lookup path) : u.read path = t.read path := by
  rw [has_eq_isSome] at hhas
  obtain ⟨entry, hentry⟩ := Option.isSome_iff_exists.1 hhas
  cases entry with
  | dir => rw [read_of_lookup_dir hentry, read_of_lookup_dir (h.trans hentry)]
  | file content => rw [read_eq_ok_iff.2 hentry, read_eq_ok_iff.2 (h.trans hentry)]

namespace Census

variable {c : Census} {store other : String} {t u v : FileTree}

/-! ## 1. What the run of a store depends on -/

/-- Between two trees nothing happened to a store: its key file and its output are what they were,
and its files can be opened or not, for the same reason. -/
structure Undisturbed (c : Census) (store : String) (t u : FileTree) : Prop where
  keyFile : u.lookup (c.keysPath store) = t.lookup (c.keysPath store)
  files : c.files u store = c.files t store
  sameDirs : FileTree.SameDirs t u
  opens : t.has (c.keysPath store) = true →
    (c.openFiles store u).map Prod.fst = (c.openFiles store t).map Prod.fst

namespace Undisturbed

theorem refl (c : Census) (store : String) (t : FileTree) : Undisturbed c store t t :=
  ⟨rfl, rfl, .refl t, fun _ => rfl⟩

theorem hasKeys (h : Undisturbed c store t u) :
    u.has (c.keysPath store) = t.has (c.keysPath store) := by
  rw [FileTree.has_eq_isSome, FileTree.has_eq_isSome, h.keyFile]

theorem hasSamples (h : Undisturbed c store t u) :
    u.has (c.samplesPath store) = t.has (c.samplesPath store) := by
  rw [files_samples, files_samples, h.files]

theorem trans (h : Undisturbed c store t u) (h' : Undisturbed c store u v) :
    Undisturbed c store t v := by
  refine ⟨h'.keyFile.trans h.keyFile, h'.files.trans h.files, h.sameDirs.trans h'.sameDirs, ?_⟩
  intro hk
  rw [h'.opens (h.hasKeys.trans hk), h.opens hk]

end Undisturbed

/-- Reading the key file and opening the temporary file, as one verdict. -/
theorem map_fst_openFiles_congr (hread : u.read (c.keysPath store) = t.read (c.keysPath store))
    (hwrite : (u.write (c.partialPath store) []).map (fun _ => ()) =
      (t.write (c.partialPath store) []).map fun _ => ()) :
    (c.openFiles store u).map Prod.fst = (c.openFiles store t).map Prod.fst := by
  unfold openFiles
  rw [hread]
  cases t.read (c.keysPath store) with
  | error e => rfl
  | ok content =>
    dsimp only
    cases (KeyFile.read (c.keysPath store) content).fault with
    | some fault => rfl
    | none =>
      cases ht : t.write (c.partialPath store) [] with
      | error e =>
        cases hu : u.write (c.partialPath store) [] with
        | error e' =>
          rw [ht, hu] at hwrite
          cases hwrite
          rfl
        | ok u' => rw [ht, hu] at hwrite; cases hwrite
      | ok t' =>
        cases hu : u.write (c.partialPath store) [] with
        | error e => rw [ht, hu] at hwrite; cases hwrite
        | ok u' => rfl

/-- Where one store can have its output, another's temporary file has a place beside it, or can be
nowhere. -/
theorem Output.beside {dir : List String} {name : String} (h : c.Output other t dir name)
    (hother : Schema.isValidName other = true) (hstore : Schema.isValidName store = true) :
    t.Leads (c.partialPath store) dir (store ++ ".kvs" ++ ".tmp") ∨
      ∃ e, ∀ u, FileTree.SameDirs t u → u.locate (c.partialPath store) = .error e := by
  obtain ⟨before, hbefore⟩ := FileTree.exists_names_before c.outDir
  have hnames : ∀ s, Schema.isValidName s = true →
      FileTree.names (c.partialPath s) = before ++ [s ++ ".kvs" ++ ".tmp"] := by
    intro s hs
    apply FileTree.names_append _ (by decide)
    exact hbefore _ (noSlash_append hs (by decide))
  exact h.unfinished.beside (hnames other hother) (hnames store hstore)
    (FileTree.isPlain_append (by decide))

/-- An ending that changed anything had a place for its output. -/
theorem Ends.eq_or_output {schema : Schema} {verdict : Except Signal Outcome}
    (h : c.Ends schema t verdict u) : u = t ∨ ∃ dir name, c.Output schema.name t dir name := by
  cases h with
  | skipped => exact .inl rfl
  | noKeys => exact .inl rfl
  | unopened hs hk _ =>
    rcases discard_cases c schema.name t with ⟨hsame, -⟩ | ⟨dir, name, old, ho, -⟩
    · exact .inl hsame
    · exact .inr ⟨dir, name, ho⟩
  | sampled h _ => exact .inr ⟨_, _, h.files.output⟩
  | failed h => exact .inr ⟨_, _, h.files.output⟩
  | stopped h _ => exact .inr ⟨_, _, h.files.output⟩
  | broken h => exact .inr ⟨_, _, h.files.output⟩

/-- However the run of one store ends, it leaves the others undisturbed. -/
theorem Ends.undisturbed {schema : Schema} {verdict : Except Signal Outcome}
    (h : c.Ends schema t verdict u) (hschema : Schema.isValidName schema.name = true)
    (hstore : Schema.isValidName store = true) (hne : store ≠ schema.name) :
    Undisturbed c store t u := by
  rcases h.eq_or_output with rfl | ⟨dir, name, ho⟩
  · exact .refl c store u
  have hdiffers := h.differsAt
  have hkeys : u.lookup (c.keysPath store) = t.lookup (c.keysPath store) :=
    lookup_keysPath_of_differsAt hdiffers
  have hfiles := files_of_differsAt (apart_of_ne hstore hschema hne) hdiffers
  refine ⟨hkeys, hfiles, hdiffers.sameDirs, fun hk => ?_⟩
  apply map_fst_openFiles_congr (FileTree.read_congr hk hkeys)
  rcases ho.beside hschema hstore with hleads | ⟨e, hnowhere⟩
  · -- the temporary file can be opened unless a directory stands in its place, then as before
    have hplace : u.get? (dir ++ [store ++ ".kvs" ++ ".tmp"]) =
        t.get? (dir ++ [store ++ ".kvs" ++ ".tmp"]) := by
      rw [← hleads.lookup_eq, ← (hleads.congr hdiffers.sameDirs).lookup_eq]
      exact congrArg Files.unfinished hfiles
    rw [FileTree.write, FileTree.write, hleads.locate, (hleads.congr hdiffers.sameDirs).locate,
      FileTree.spot, FileTree.spot, hplace]
    cases t.get? (dir ++ [store ++ ".kvs" ++ ".tmp"]) with
    | none => rfl
    | some entry => cases entry <;> rfl
  · rw [FileTree.write, FileTree.write, hnowhere t (.refl t), hnowhere u hdiffers.sameDirs]

/-- The verdict on a store is a matter of its own files, and not of the time. -/
theorem verdict_of_undisturbed (hs : c.source.Ordinary) {schema : Schema}
    (h : Undisturbed c schema.name t u) (now later : Rat) :
    (c.sampleStore schema later none u).verdict = (c.sampleStore schema now none t).verdict := by
  have hsamples := h.hasSamples
  have hkeys := h.hasKeys
  cases hnew : t.has (c.samplesPath schema.name) with
  | true =>
    rw [hnew] at hsamples
    rw [sampleStore, sampleWith, sampleStore, sampleWith, hnew, hsamples]
    rfl
  | false =>
    rw [hnew] at hsamples
    cases hk : t.has (c.keysPath schema.name) with
    | false =>
      rw [hk] at hkeys
      rw [sampleStore, sampleWith, sampleStore, sampleWith, hnew, hsamples, hk, hkeys]
      rfl
    | true =>
      have hopens := h.opens hk
      rw [hk] at hkeys
      cases hopen : c.openFiles schema.name t with
      | error f =>
        rw [hopen] at hopens
        cases hopen' : c.openFiles schema.name u with
        | ok found => rw [hopen'] at hopens; cases hopens
        | error f' =>
          rw [hopen'] at hopens
          cases hopens
          rw [sampleStore, sampleWith, sampleStore, sampleWith, hnew, hsamples, hk, hkeys, hopen,
            hopen']
          rfl
      | ok found =>
        obtain ⟨keys, opened⟩ := found
        rw [hopen] at hopens
        cases hopen' : c.openFiles schema.name u with
        | error f => rw [hopen'] at hopens; cases hopens
        | ok found' =>
          obtain ⟨keys', opened'⟩ := found'
          rw [hopen'] at hopens
          cases hopens
          -- with one list of keys both come to what these keys come to one at a time
          obtain ⟨dir, name, ho⟩ := exists_opened hnew (write_of_openFiles hopen)
          obtain ⟨dir', name', ho'⟩ := exists_opened hsamples (write_of_openFiles hopen')
          rw [(sampleStore_of_opened hs hk hopen ho now).1,
            (sampleStore_of_opened hs hkeys hopen' ho' later).1]

/-- So are the files that it leaves. -/
theorem files_of_undisturbed (hs : c.source.Ordinary) {schema : Schema}
    (h : Undisturbed c schema.name t u) (now later : Rat) :
    c.files (c.sampleStore schema later none u).tree schema.name =
      c.files (c.sampleStore schema now none t).tree schema.name := by
  rw [files_sampleStore hs, files_sampleStore hs]
  exact finished_of_files_eq h.sameDirs h.keyFile h.files

/-! ## 2. A run to the end -/

/-- `o` is what a store comes to by itself on the tree `t`, at any time. -/
def ComesTo (c : Census) (t : FileTree) (schema : Schema) (o : Outcome) : Prop :=
  ∀ now, (c.sampleStore schema now none t).verdict = .ok o

theorem exists_comesTo (hs : c.source.Ordinary) (t : FileTree) (schema : Schema) :
    ∃ o, c.ComesTo t schema o := by
  obtain ⟨o, ho⟩ := exists_outcome hs schema 0 t
  exact ⟨o, fun now => (verdict_of_undisturbed hs (.refl c _ t) 0 now).trans ho⟩

theorem ComesTo.store_eq {schema : Schema} {o : Outcome} (h : c.ComesTo t schema o) :
    o.store = schema.name := by
  have hends := ends_sampleStore c schema 0 none t
  rw [h 0] at hends
  exact hends.store_eq

/-- A store has samples in the end unless it failed. -/
theorem ComesTo.has_samples {schema : Schema} {o : Outcome} (h : c.ComesTo t schema o)
    (now : Rat) : (c.sampleStore schema now none t).tree.has (c.samplesPath schema.name) = o.ok := by
  have hends := ends_sampleStore c schema now none t
  rw [h now] at hends
  exact hends.has_samples_eq

variable {schemas : List Schema}

/-- What is needed of a run that has stores before it: they are undisturbed since `t`. -/
def Awaits (c : Census) (t : FileTree) (schemas : List Schema) (run : Run) : Prop :=
  ∀ s ∈ schemas, Undisturbed c s.name t run.tree

/-- The first store of a run comes to what it comes to by itself, and the others go on waiting. -/
theorem sampleEach_step (hs : c.source.Ordinary) {schema : Schema} {rest : List Schema}
    (hvalid : ∀ s ∈ schema :: rest, Schema.isValidName s.name = true)
    (hnodup : ((schema :: rest).map Schema.name).Nodup) {run : Run}
    (h : c.Awaits t (schema :: rest) run) {o : Outcome} (ho : c.ComesTo t schema o) :
    ∃ next : Run, (∀ failFast more, c.sampleEach failFast none (schema :: more) run =
        if failFast && !o.ok then next else c.sampleEach failFast none more next) ∧
      next.report = run.report.add o ∧ next.stopped = run.stopped ∧
      next.tree = (c.sampleStore schema run.now none run.tree).tree ∧ c.Awaits t rest next := by
  obtain ⟨hfirst, hrest⟩ := List.forall_mem_cons.1 h
  obtain ⟨hname, hnames⟩ := List.forall_mem_cons.1 hvalid
  rw [List.map_cons, List.nodup_cons] at hnodup
  have hverdict := (verdict_of_undisturbed hs hfirst 0 run.now).trans (ho 0)
  have hends := ends_sampleStore c schema run.now none run.tree
  refine ⟨{ run.after (c.sampleStore schema run.now none run.tree) with
    report := run.report.add o }, fun failFast more => ?_, rfl, rfl, rfl, fun s hmem => ?_⟩
  · rw [sampleEach]
    dsimp only
    rw [hverdict, cancelAt_sampleStore_none]
    rfl
  · have hne : s.name ≠ schema.name := fun he => hnodup.1 (he ▸ List.mem_map_of_mem hmem)
    exact (hrest s hmem).trans (hends.undisturbed hname (hnames s hmem) hne)

/-- A run leaves a store undisturbed that is none of its own. -/
theorem undisturbed_sampleEach (hvalid : ∀ s ∈ schemas, Schema.isValidName s.name = true)
    (hstore : Schema.isValidName store = true) (hnew : store ∉ schemas.map Schema.name)
    (run : Run) (hrun : run.stopped = none) (failFast : Bool) (cancelAt : Option Rat) :
    Undisturbed c store run.tree (c.sampleEach failFast cancelAt schemas run).tree := by
  obtain ⟨a, ha, -⟩ := exists_account c failFast cancelAt schemas run hrun
  have hmem : ∀ e ∈ a.tried, e.1 ∈ schemas := fun e he => ha.mem_schemas he
  -- by induction on the stores that were tried, each of which has another name
  have htrail : ∀ {before after : FileTree} {tried : List (Schema × Except Signal Outcome)},
      c.Trail before tried after → (∀ e ∈ tried, e.1 ∈ schemas) →
      Undisturbed c store before after := by
    intro before after tried htrail
    induction htrail with
    | nil tree => exact fun _ => .refl c store tree
    | cons hfirst _ ih =>
      intro htried
      obtain ⟨hfirst', hrest'⟩ := List.forall_mem_cons.1 htried
      have hne : store ≠ _ := fun he => hnew (he ▸ List.mem_map_of_mem hfirst')
      exact (hfirst.undisturbed (hvalid _ hfirst') hstore hne).trans (ih hrest')
  exact htrail ha.trail hmem

/-- A run over stores with different names makes of each what it comes to by itself. -/
theorem sampleEach_alone (hs : c.source.Ordinary)
    (hvalid : ∀ s ∈ schemas, Schema.isValidName s.name = true)
    (hnodup : (schemas.map Schema.name).Nodup) (run : Run) (hrun : run.stopped = none)
    (h : c.Awaits t schemas run) {outcomes : List Outcome}
    (ho : List.Forall₂ (c.ComesTo t) schemas outcomes) :
    (c.sampleEach false none schemas run).report = outcomes.foldl Report.add run.report ∧
      ∀ s ∈ schemas, ∀ now, c.files (c.sampleEach false none schemas run).tree s.name =
        c.files (c.sampleStore s now none t).tree s.name := by
  induction ho generalizing run with
  | nil => exact ⟨rfl, fun s hmem => absurd hmem List.not_mem_nil⟩
  | @cons schema o rest more hfirst hmore ih =>
    obtain ⟨next, hnext, hreport, hstopped, htree, hawaits⟩ :=
      sampleEach_step hs hvalid hnodup h hfirst
    have hnext' := hnext false rest
    rw [Bool.false_and, if_neg Bool.false_ne_true] at hnext'
    rw [hrun] at hstopped
    obtain ⟨hname, hnames⟩ := List.forall_mem_cons.1 hvalid
    rw [List.map_cons, List.nodup_cons] at hnodup
    obtain ⟨hreports, hfiles⟩ := ih hnames hnodup.2 next hstopped hawaits
    rw [hnext']
    constructor
    · rw [hreports, hreport]
      rfl
    · intro s hmem now
      rcases List.mem_cons.1 hmem with rfl | hlater
      · -- what the store's own run left is not touched by the runs after it
        rw [(undisturbed_sampleEach hnames hname hnodup.1 next hstopped false none).files, htree]
        exact files_of_undisturbed hs (h s hmem) now run.now
      · exact hfiles s hlater now

/-! ## 3. A run that stops at the first failure -/

/-- Entries of a report up to and including the first that fails. -/
def throughFailure (entries : List (String × Outcome)) : List (String × Outcome) :=
  entries.takeWhile (fun e => e.2.ok) ++ (entries.find? fun e => !e.2.ok).toList

theorem throughFailure_of_ok {e : String × Outcome} {rest : List (String × Outcome)}
    (h : e.2.ok = true) : throughFailure (e :: rest) = e :: throughFailure rest := by
  simp [throughFailure, h]

theorem throughFailure_of_failed {e : String × Outcome} {rest : List (String × Outcome)}
    (h : e.2.ok = false) : throughFailure (e :: rest) = [e] := by
  simp [throughFailure, h]

/-- The entries of a report on these stores. -/
def entriesOf (schemas : List Schema) (outcomes : List Outcome) : List (String × Outcome) :=
  (schemas.map Schema.name).zip outcomes

/-- Stopping at the first failure is having no more stores than up to there. -/
theorem sampleEach_failFast (hs : c.source.Ordinary)
    (hvalid : ∀ s ∈ schemas, Schema.isValidName s.name = true)
    (hnodup : (schemas.map Schema.name).Nodup) (run : Run) (h : c.Awaits t schemas run)
    {outcomes : List Outcome} (ho : List.Forall₂ (c.ComesTo t) schemas outcomes) :
    ∃ n, c.sampleEach true none schemas run = c.sampleEach false none (schemas.take n) run ∧
      throughFailure (entriesOf schemas outcomes) =
        entriesOf (schemas.take n) (outcomes.take n) := by
  induction ho generalizing run with
  | nil => exact ⟨0, rfl, rfl⟩
  | @cons schema o rest more hfirst hmore ih =>
    have hnd := hnodup
    rw [List.map_cons, List.nodup_cons] at hnd
    obtain ⟨next, hnext, -, -, -, hawaits⟩ := sampleEach_step hs hvalid hnodup h hfirst
    cases hok : o.ok with
    | false =>
      -- the first store is the last, and behind it there would be none
      refine ⟨1, ?_, throughFailure_of_failed hok⟩
      rw [hnext true rest, hok, List.take_succ_cons, List.take_zero, hnext false []]
      rfl
    | true =>
      obtain ⟨n, hrun, hentries⟩ := ih (List.forall_mem_cons.1 hvalid).2 hnd.2 next hawaits
      refine ⟨n + 1, ?_, ?_⟩
      · rw [hnext true rest, hok, List.take_succ_cons, hnext false (rest.take n)]
        exact hrun
      · rw [entriesOf, List.map_cons, List.zip_cons_cons, throughFailure_of_ok hok]
        exact congrArg (_ :: ·) hentries

/-! ## 4. The whole run -/

theorem map_fst_entriesOf {outcomes : List Outcome}
    (ho : List.Forall₂ (c.ComesTo t) schemas outcomes) :
    (entriesOf schemas outcomes).map Prod.fst = schemas.map Schema.name := by
  apply List.map_fst_zip
  rw [List.length_map, ho.length_eq]

theorem of_mem_entriesOf {outcomes : List Outcome}
    (ho : List.Forall₂ (c.ComesTo t) schemas outcomes) {e : String × Outcome}
    (he : e ∈ entriesOf schemas outcomes) :
    ∃ s ∈ schemas, s.name = e.1 ∧ c.ComesTo t s e.2 := by
  induction ho with
  | nil => exact absurd he List.not_mem_nil
  | @cons schema o rest more hfirst hmore ih =>
    rcases List.mem_cons.1 he with rfl | hlater
    · exact ⟨schema, List.mem_cons_self, rfl, hfirst⟩
    · obtain ⟨s, hmem, hs⟩ := ih hlater
      exact ⟨s, List.mem_cons_of_mem _ hmem, hs⟩

/-- The report of a run on stores with different names. -/
theorem entries_foldl_add {outcomes : List Outcome} (hnodup : (schemas.map Schema.name).Nodup)
    (ho : List.Forall₂ (c.ComesTo t) schemas outcomes) :
    (outcomes.foldl Report.add Report.empty).outcomes.entries = entriesOf schemas outcomes := by
  have hpairs : outcomes.map (fun o => (o.store, o)) = entriesOf schemas outcomes := by
    clear hnodup
    induction ho with
    | nil => rfl
    | cons hfirst hmore ih =>
      rw [List.map_cons, ih, hfirst.store_eq]
      rfl
  have hnames := map_fst_entriesOf ho
  rw [← hnames] at hnodup
  rw [outcomes_foldl_add, hpairs]
  exact OrderedMap.entries_foldl_insert hnodup

/-- With or without stopping at a failure, a run is one to the end over the first of its stores, and
reports on these. -/
theorem exists_take (hs : c.source.Ordinary)
    (hvalid : ∀ s ∈ schemas, Schema.isValidName s.name = true)
    (hnodup : (schemas.map Schema.name).Nodup) {outcomes : List Outcome}
    (ho : List.Forall₂ (c.ComesTo t) schemas outcomes) (failFast : Bool) :
    ∃ n, c.sampleStores schemas failFast none t =
        c.sampleEach false none (schemas.take n) (.initial c.slots t) ∧
      entriesOf (schemas.take n) (outcomes.take n) =
        if failFast then throughFailure (entriesOf schemas outcomes)
        else entriesOf schemas outcomes := by
  rw [sampleStores_eq_sampleEach]
  cases failFast with
  | false =>
    refine ⟨schemas.length, ?_, ?_⟩
    · rw [List.take_length]
    · rw [List.take_length, ho.length_eq, List.take_length]
      rfl
  | true =>
    obtain ⟨n, hrun, hentries⟩ :=
      sampleEach_failFast hs hvalid hnodup (.initial c.slots t) (fun s _ => .refl c s.name t) ho
    exact ⟨n, hrun, hentries.symm⟩

/-- The stores that failed are those without samples. -/
theorem failed_eq_filter {run : Run} {outcomes : List Outcome}
    (ho : List.Forall₂ (c.ComesTo t) schemas outcomes)
    (hentries : run.report.outcomes.entries = entriesOf schemas outcomes)
    (hfiles : ∀ s ∈ schemas, ∀ now, c.files run.tree s.name =
      c.files (c.sampleStore s now none t).tree s.name) :
    run.report.failed =
      run.report.outcomes.keys.filter fun store => !run.tree.has (c.samplesPath store) := by
  rw [Report.failed, OrderedMap.keys, List.filter_map]
  refine congrArg (List.map Prod.fst) (List.filter_congr fun e he => ?_)
  rw [hentries] at he
  obtain ⟨s, hmem, hname, hcomes⟩ := of_mem_entriesOf ho he
  rw [Function.comp_apply, ← hname, files_samples, hfiles s hmem 0, ← files_samples,
    hcomes.has_samples 0]

/-- In a run over stores with different names each comes to what it comes to by itself, whenever it
is sampled: the same outcome, and the same files. A run that stops at the first failure reports as
far as there, and leaves the stores behind it alone. The stores that failed are those of the report
that have no samples in the end. -/
theorem sampleStores_eq_alone (c : Census) (hs : c.source.Ordinary) {schemas : List Schema}
    (hvalid : ∀ s ∈ schemas, Schema.isValidName s.name = true)
    (hnodup : (schemas.map Schema.name).Nodup) (tree : FileTree) (failFast : Bool) :
    let full := c.sampleStores schemas false none tree
    let run := c.sampleStores schemas failFast none tree
    full.stopped = none ∧ run.stopped = none ∧
      full.report.outcomes.keys = schemas.map Schema.name ∧
      run.report.outcomes.entries =
        (if failFast then throughFailure full.report.outcomes.entries
          else full.report.outcomes.entries) ∧
      (∀ s ∈ schemas, ∀ o, run.report.outcomes.get? s.name = some o → ∀ now,
        (c.sampleStore s now none tree).verdict = .ok o ∧
          c.files run.tree s.name = c.files (c.sampleStore s now none tree).tree s.name) ∧
      (∀ s ∈ schemas, run.report.outcomes.get? s.name = none →
        c.files run.tree s.name = c.files tree s.name ∧
          run.tree.lookup (c.keysPath s.name) = tree.lookup (c.keysPath s.name)) ∧
      run.report.failed =
        run.report.outcomes.keys.filter fun store => !run.tree.has (c.samplesPath store) := by
  obtain ⟨outcomes, ho⟩ : ∃ outcomes, List.Forall₂ (c.ComesTo tree) schemas outcomes :=
    exists_forall₂ fun s _ => exists_comesTo hs tree s
  -- the whole list first, then as many stores as the run gets to
  have hawaits : ∀ some, c.Awaits tree some (.initial c.slots tree) := fun _ s _ => .refl c s.name tree
  have hfull := (sampleEach_alone hs hvalid hnodup (.initial c.slots tree) rfl (hawaits _) ho).1
  have hentries : (c.sampleStores schemas false none tree).report.outcomes.entries =
      entriesOf schemas outcomes := by
    rw [sampleStores_eq_sampleEach, hfull]
    exact entries_foldl_add hnodup ho
  obtain ⟨n, hrun, htake⟩ := exists_take hs hvalid hnodup ho failFast
  have htakes : ∀ s ∈ schemas.take n, s ∈ schemas := fun s hmem => List.mem_of_mem_take hmem
  have hnodup' : ((schemas.take n).map Schema.name).Nodup :=
    hnodup.sublist ((List.take_sublist n schemas).map _)
  have ho' : List.Forall₂ (c.ComesTo tree) (schemas.take n) (outcomes.take n) :=
    List.forall₂_take n ho
  have hvalid' := fun s hmem => hvalid s (htakes s hmem)
  obtain ⟨hreport, hfiles⟩ :=
    sampleEach_alone hs hvalid' hnodup' (.initial c.slots tree) rfl (hawaits _) ho'
  rw [← hrun] at hreport hfiles
  have hentries' : (c.sampleStores schemas failFast none tree).report.outcomes.entries =
      entriesOf (schemas.take n) (outcomes.take n) := by
    rw [hreport]
    exact entries_foldl_add hnodup' ho'
  refine ⟨?_, ?_, ?_, ?_, ?_, ?_, failed_eq_filter ho' hentries' hfiles⟩
  · rw [sampleStores_eq_sampleEach]
    exact stopped_sampleEach hs schemas _
  · rw [hrun]
    exact stopped_sampleEach hs _ _
  · rw [OrderedMap.keys, hentries, map_fst_entriesOf ho]
  · rw [hentries', hentries, htake]
  · intro s hmem o hget now
    rw [OrderedMap.get?_eq_some, hentries'] at hget
    obtain ⟨s', hmem', hname, hcomes⟩ := of_mem_entriesOf ho' hget
    -- a name stands for one store only
    obtain rfl := List.inj_on_of_nodup_map hnodup (htakes s' hmem') hmem hname
    exact ⟨hcomes now, hfiles s' hmem' now⟩
  · intro s hmem hget
    rw [OrderedMap.get?_eq_none, OrderedMap.keys, hentries', map_fst_entriesOf ho'] at hget
    have h := undisturbed_sampleEach (c := c) hvalid' (hvalid s hmem) hget
      (.initial c.slots tree) rfl
      false none
    rw [← hrun] at h
    exact ⟨h.files, h.keyFile⟩

/-- The first store fails. Without stopping there the second comes to its samples. -/
theorem sampleStores_eq_alone_stale :
    uneven.source.Ordinary ∧ (∀ s ∈ staleSchemas, Schema.isValidName s.name = true) ∧
      (staleSchemas.map Schema.name).Nodup ∧
      (uneven.sampleStores staleSchemas true none staleTree).report.outcomes.keys = ["s"] ∧
      (uneven.sampleStores staleSchemas false none staleTree).report.outcomes.entries =
        [("s", ⟨"s", .failed, 1, some "ConnectError: connection refused"⟩),
          ("t", ⟨"t", .sampled, 1, none⟩)] ∧
      (uneven.sampleStore ⟨"t", 1, Schema.consistentRouting⟩ 5 none staleTree).verdict =
        .ok ⟨"t", .sampled, 1, none⟩ ∧
      (uneven.sampleStores staleSchemas false none staleTree).report.failed = ["s"] := by
  have hvalid : ∀ s ∈ staleSchemas, Schema.isValidName s.name = true := by decide +kernel
  have hnodup : (staleSchemas.map Schema.name).Nodup := by decide +kernel
  have hentries : (uneven.sampleStores staleSchemas false none staleTree).report.outcomes.entries =
      [("s", ⟨"s", .failed, 1, some "ConnectError: connection refused"⟩),
        ("t", ⟨"t", .sampled, 1, none⟩)] := by decide +kernel
  have hstopping := sampleStores_eq_alone uneven unevenSource_ordinary hvalid hnodup staleTree true
  have hfull := sampleStores_eq_alone uneven unevenSource_ordinary hvalid hnodup staleTree false
  refine ⟨unevenSource_ordinary, hvalid, hnodup, ?_, hentries, ?_, ?_⟩
  · rw [OrderedMap.keys, hstopping.2.2.2.1, hentries]
    rfl
  · exact (hfull.2.2.2.2.1 ⟨"t", 1, Schema.consistentRouting⟩ (by decide) _
      (OrderedMap.get?_eq_some.2 (hentries ▸ by decide)) 5).1
  · rw [Report.failed, hentries]
    rfl

end Census

end ReplicaCensus
