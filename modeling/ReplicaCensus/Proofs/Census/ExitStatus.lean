import Mathlib
import ReplicaCensus.Proofs.Census.AllOrNothing
import ReplicaCensus.Proofs.Census.Faithful
import ReplicaCensus.Proofs.Census.Interruption
import ReplicaCensus.Proofs.File.Directories
/-!
# The exit status tells the truth about the output directory

A session that comes to an exit status was interrupted exactly if it is 130. Otherwise the status is
0 exactly if the cluster could be learned and every one of its stores has samples in the end, those
included that were never tried.
-/

namespace ReplicaCensus

/-! ## 1. What a run says of its stores -/

theorem Report.ok_iff (r : Report) : r.ok = true ↔ ∀ e ∈ r.outcomes.entries, e.2.ok = true := by
  rw [Report.ok, List.isEmpty_iff, Report.failed, List.map_eq_nil_iff, List.filter_eq_nil_iff]
  simp only [Bool.not_eq_true', Bool.not_eq_false]

namespace Census

variable {c : Census} {schemas : List Schema} {failFast : Bool} {cancelAt : Option Rat}
  {tree : FileTree}

/-- The verdicts of a run over stores with different names are right at its end. -/
theorem Account.Of.has_samples_eq {a : Account} {before after : Run}
    (h : a.Of c schemas before after) (hs : Schema.AreSound schemas) :
    ∀ e ∈ a.tried, after.tree.has (c.samplesPath e.1.name) = succeeded e.2 :=
  h.trail.has_samples_eq (h.apart (fun s hmem => (hs.each s hmem).name) hs.nodup before.tree)

/-- A run that no signal stopped reports success exactly if all stores have their samples, whether
or not they were tried. -/
theorem ok_report_iff (hs : Schema.AreSound schemas)
    (h : (c.sampleStores schemas failFast cancelAt tree).stopped = none) :
    (c.sampleStores schemas failFast cancelAt tree).report.ok = true ↔
      ∀ s ∈ schemas,
        (c.sampleStores schemas failFast cancelAt tree).tree.has (c.samplesPath s.name) = true := by
  rw [sampleStores_eq_sampleEach] at h ⊢
  obtain ⟨a, ha, hall⟩ := exists_account c failFast cancelAt schemas (.initial c.slots tree) rfl
  have hnone : a.stopped = none := by
    rw [ha.stopped, Option.map_eq_none_iff] at h
    exact h
  have htried : a.tried = a.reported.map fun e => (e.1, .ok e.2) := by
    rw [Account.tried, hnone]
    exact List.append_nil _
  have hsamples := ha.has_samples_eq hs
  rw [htried, List.forall_mem_map] at hsamples
  rw [Report.ok_iff, ha.entries_report hs.nodup rfl, List.forall_mem_map]
  constructor
  · intro hok s hmem
    -- with no failure among them, no store is left untried
    rw [ha.stores, htried, hall hnone fun _ => hok, List.append_nil, List.map_map] at hmem
    obtain ⟨e, he, rfl⟩ := List.mem_map.1 hmem
    exact (hsamples e he).trans (hok e he)
  · intro hhas e he
    rw [← hhas e.1 (ha.mem_schemas (htried ▸ List.mem_map_of_mem he))]
    exact (hsamples e he).symm

/-- A run that a signal stopped was sampling a store behind those in its report, and this store has
no samples. -/
theorem noSamples_of_stopped (hs : Schema.AreSound schemas)
    (h : (c.sampleStores schemas failFast cancelAt tree).stopped ≠ none) :
    ∃ done current untried, schemas = done ++ current :: untried ∧
      (c.sampleStores schemas failFast cancelAt tree).report.outcomes.keys =
        done.map Schema.name ∧
      (c.sampleStores schemas failFast cancelAt tree).tree.has (c.samplesPath current.name) =
        false := by
  rw [sampleStores_eq_sampleEach] at h ⊢
  obtain ⟨a, ha, -⟩ := exists_account c failFast cancelAt schemas (.initial c.slots tree) rfl
  cases hstopped : a.stopped with
  | none =>
    rw [ha.stopped, hstopped] at h
    exact absurd rfl h
  | some stop =>
    obtain ⟨current, signal⟩ := stop
    have htried : a.tried =
        a.reported.map (fun e => (e.1, .ok e.2)) ++ [(current, .error signal)] := by
      rw [Account.tried, hstopped]
      rfl
    refine ⟨a.reported.map Prod.fst, current, a.untried, ?_, ?_, ?_⟩
    · rw [ha.stores, htried, List.map_append, List.map_map, List.append_assoc]
      rfl
    · rw [OrderedMap.keys, ha.entries_report hs.nodup rfl, List.map_map, List.map_map]
      rfl
    · refine ha.has_samples_eq hs (current, .error signal) ?_
      rw [htried]
      exact List.mem_append_right _ List.mem_cons_self

end Census

namespace Session

variable {o : CensusOptions} {transport : Transport} {interruptAt : Option Rat}
  {tree begun : FileTree} {session : Session}

/-! ## 2. Before the first store -/

theorem madeAlong_makeDirectories (h : makeDirectories o tree = .ok begun) :
    ∃ made, FileTree.MadeAlong o.inDir tree made ∧ FileTree.MadeAlong o.outDir made begun := by
  have hin := FileTree.madeAlong_makeDirs tree o.inDir
  unfold makeDirectories at h
  split at h
  · cases h
  · next made hmake =>
    have hout := FileTree.madeAlong_makeDirs made o.outDir
    rw [hmake] at hin
    split at h
    · cases h
    · next hmake' =>
      cases h
      rw [hmake'] at hout
      exact ⟨made, hin, hout⟩

theorem le_cancelTime (now time : Rat) : time ≤ Schedule.cancelTime now (some time) := by
  unfold Schedule.cancelTime
  dsimp only
  split
  · exact Rat.le_refl
  · next h => exact Rat.le_of_lt (Rat.not_le.1 h)

/-- Either the user interrupts the waiting for the first reply, or it comes before that time or takes
no time, and the others are waited for. -/
theorem waitFor_cases (transport : Transport) (interruptAt : Option Rat) (now : Rat) (url : String)
    (rest : List String) :
    (waitFor transport interruptAt now (url :: rest)).interrupted = true ∧
        (∃ time, interruptAt = some time ∧
          time ≤ (waitFor transport interruptAt now (url :: rest)).ended) ∨
      ∃ due, (due = now ∨ ∀ time, interruptAt = some time → due < time) ∧
        (waitFor transport interruptAt now (url :: rest)).interrupted =
          (waitFor transport interruptAt due rest).interrupted ∧
        (waitFor transport interruptAt now (url :: rest)).ended =
          (waitFor transport interruptAt due rest).ended := by
  rw [waitFor]
  dsimp only
  have hdue : now ≤ if (transport url).delay < 0 then now else now + (transport url).delay := by
    split
    · exact Rat.le_refl
    · next h => exact le_add_of_nonneg_right (Rat.not_lt.1 h)
  generalize (if (transport url).delay < 0 then now else now + (transport url).delay) = due at hdue
  split
  · next hcut =>
    left
    rw [Bool.and_eq_true] at hcut
    cases interruptAt with
    | none => cases hcut.2
    | some time => exact ⟨rfl, time, rfl, le_cancelTime now time⟩
  · next hcut =>
    refine .inr ⟨due, ?_, rfl, rfl⟩
    rcases hdue.eq_or_lt with hnow | hlater
    · exact .inl hnow.symm
    · right
      rintro time rfl
      rw [decide_eq_true hlater, Bool.true_and, Schedule.comesFirst, decide_eq_true_eq] at hcut
      exact Rat.not_le.1 hcut

/-- Replies are waited for no longer than until the user interrupts. -/
theorem interrupted_waitFor {now : Rat} {urls : List String}
    (h : (waitFor transport interruptAt now urls).interrupted = true) :
    ∃ time, interruptAt = some time ∧ time ≤ (waitFor transport interruptAt now urls).ended := by
  induction urls generalizing now with
  | nil => cases h
  | cons url rest ih =>
    rcases waitFor_cases transport interruptAt now url rest with ⟨-, htime⟩ |
      ⟨due, -, hinterrupted, hended⟩
    · exact htime
    · rw [hended]
      rw [hinterrupted] at h
      exact ih h

/-- Replies that are all waited for are there before the user interrupts, or took no time. -/
theorem ended_waitFor {now time : Rat} {urls : List String}
    (h : (waitFor transport (some time) now urls).interrupted = false) :
    (waitFor transport (some time) now urls).ended = now ∨
      (waitFor transport (some time) now urls).ended < time := by
  induction urls generalizing now with
  | nil => exact .inl rfl
  | cons url rest ih =>
    rcases waitFor_cases transport (some time) now url rest with ⟨hcut, -⟩ |
      ⟨due, hdue, hinterrupted, hended⟩
    · rw [hcut] at h
      cases h
    · rw [hended]
      rw [hinterrupted] at h
      rcases ih h with hlast | hlast
      · rw [hlast]
        exact hdue.imp_right fun hlt => hlt time rfl
      · exact .inr hlast

/-- The stores of a session are those that the bootstrap node served. -/
theorem areSound_of_learn {url : String} {known : Known}
    (h : (learn url transport).1 = .ok known) : Schema.AreSound known.schemas := by
  unfold learn at h
  dsimp only at h
  split at h
  · cases h
  · next topology schemas hbootstrap =>
    split at h
    · cases h
    · split at h
      · cases h
      · cases h
        exact Client.areSound_of_bootstrap hbootstrap

/-- A session that is interrupted while it learns the cluster is interrupted by a reply. -/
theorem exists_reply_of_learn {url : String}
    (h : (learn url transport).1 = .error .interrupted) :
    ∃ url, (transport url).result = .error .interrupted := by
  unfold learn at h
  dsimp only at h
  split at h
  · next e hbootstrap =>
    rw [Except.error.injEq] at h
    unfold refusalOf at h
    split at h
    · exact Client.result_of_bootstrap hbootstrap
    · cases h
    · split at h <;> cases h
  · split at h
    · cases h
    · split at h <;> cases h

/-- An interruption of a fetch is one that a reply brought. -/
theorem exists_reply_of_fetch {known : Known} {q : Query}
    (h : ((sourceOf known transport).fetch q).answer = .error .interrupted) :
    ∃ url, (transport url).result = .error .interrupted := by
  unfold sourceOf at h
  dsimp only [Fetch.prompt] at h
  split at h
  · cases h
  · next e hstamps =>
    cases e with
    | transport f =>
      cases h
      exact Client.result_of_getStamps hstamps
    | _ => cases h

theorem replicas_sourceOf_ne (known : Known) (schema : Schema) (key : Bytes) :
    (sourceOf known transport).replicas schema key ≠ .error .interrupted := by
  unfold sourceOf
  dsimp only
  split <;> exact fun h => by cases h

/-- A request that is cancelled ends at once. -/
theorem prompt_sourceOf (known : Known) (transport : Transport) :
    (sourceOf known transport).Prompt := ⟨fun _ _ => le_rfl, fun _ _ => rfl⟩

/-! ## 3. The courses of a session -/

/-- The waiting for the replies to the first requests. -/
def firstWait (o : CensusOptions) (transport : Transport) (interruptAt : Option Rat) : Wait :=
  waitFor transport interruptAt 0 (learn o.url transport).2

/-- The run in which a session samples the stores that it has learned of. -/
structure Samples (o : CensusOptions) (transport : Transport) (interruptAt : Option Rat)
    (begun : FileTree) (known : Known) (census : Census) (run : Census.Run) : Prop where
  waited : (firstWait o transport interruptAt).interrupted = false
  learned : (learn o.url transport).1 = .ok known
  made : Census.make (sourceOf known transport) o.inDir o.outDir o.parallelism o.limit = .ok census
  sampled : run = census.sampleStores known.schemas o.failFast
    (interruptAt.map fun time => time - (firstWait o transport interruptAt).ended) begun

/-- A session is interrupted by its user while it waits for the replies to its first requests, by
one of these replies, or by a signal in the midst of a store. -/
inductive IsInterrupted (o : CensusOptions) (transport : Transport) (interruptAt : Option Rat)
    (begun : FileTree) : Prop where
  | waiting (h : (firstWait o transport interruptAt).interrupted = true)
  | learning (h : (learn o.url transport).1 = .error .interrupted)
  | sampling {known : Known} {census : Census} {run : Census.Run}
    (h : Samples o transport interruptAt begun known census run) (hstopped : run.stopped ≠ none)

/-- The cluster could be learned, and all its stores have samples. -/
def IsComplete (o : CensusOptions) (transport : Transport) (tree : FileTree) : Prop :=
  ∃ known, (learn o.url transport).1 = .ok known ∧ ∀ schema ∈ known.schemas,
    tree.has (FileTree.join o.outDir (schema.name ++ ".kvs")) = true

/-- The courses that a session can take to an exit status. -/
inductive Course (o : CensusOptions) (transport : Transport) (interruptAt : Option Rat)
    (begun : FileTree) (session : Session) : Prop where
  | cut (hcut : (firstWait o transport interruptAt).interrupted = true)
    (hstatus : session.exitStatus = interruptedStatus) (htree : session.tree = begun)
    (hended : session.ended = (firstWait o transport interruptAt).ended)
  | broken (hwaited : (firstWait o transport interruptAt).interrupted = false)
    (hlearn : (learn o.url transport).1 = .error .interrupted)
    (hstatus : session.exitStatus = interruptedStatus) (htree : session.tree = begun)
  | refused {kind text : String}
    (hwaited : (firstWait o transport interruptAt).interrupted = false)
    (hlearn : (learn o.url transport).1 = .error (.reported kind text))
    (hstatus : session.exitStatus = 1) (htree : session.tree = begun)
    (hended : session.ended = (firstWait o transport interruptAt).ended)
  | stopped {known : Known} {census : Census} {run : Census.Run} {signal : Signal}
    (hsamples : Samples o transport interruptAt begun known census run)
    (hstopped : run.stopped = some signal)
    (hsignal : ∀ clean, signal = .cancelled clean →
      Schedule.comesFirst interruptAt session.ended = true)
    (hstatus : session.exitStatus = interruptedStatus) (htree : session.tree = run.tree)
  | sampled {known : Known} {census : Census} {run : Census.Run}
    (hsamples : Samples o transport interruptAt begun known census run)
    (hstopped : run.stopped = none)
    (hstatus : session.exitStatus = if run.report.ok then 0 else 1) (htree : session.tree = run.tree)
    (hended : session.ended = (firstWait o transport interruptAt).ended + run.now)

theorem course_of_sample {known : Known} {asked : List String}
    (hwaited : (firstWait o transport interruptAt).interrupted = false)
    (hlearn : (learn o.url transport).1 = .ok known)
    (h : sample o known transport interruptAt begun asked
      (firstWait o transport interruptAt).ended = .ok session) :
    Course o transport interruptAt begun session := by
  unfold sample at h
  split at h
  · cases h
  · next census hmake =>
    have hsamples : Samples o transport interruptAt begun known census _ :=
      ⟨hwaited, hlearn, hmake, rfl⟩
    dsimp only at h
    generalize census.sampleStores known.schemas o.failFast
      (interruptAt.map fun time => time - (firstWait o transport interruptAt).ended) begun = run
      at h hsamples
    unfold ofRun at h
    split at h
    · next hstopped =>
      split at h
      · next hcomes =>
        cases h
        exact .stopped hsamples hstopped (fun _ _ => hcomes) rfl rfl
      · cases h
    · next clean hstopped =>
      cases h
      exact .stopped hsamples hstopped (fun _ hc => by cases hc) rfl rfl
    · next hstopped =>
      cases h
      exact .sampled hsamples hstopped rfl rfl rfl

/-- Every session with an exit status made its directories and took one of these courses. -/
theorem exists_course (h : runUntil interruptAt o transport tree = .ok session) :
    ∃ begun, makeDirectories o tree = .ok begun ∧
      Course o transport interruptAt begun session := by
  unfold runUntil at h
  split at h
  · cases h
  · next begun hdirs =>
    refine ⟨begun, hdirs, ?_⟩
    generalize hlearned : learn o.url transport = learned at h
    have hwait : firstWait o transport interruptAt = waitFor transport interruptAt 0 learned.2 := by
      rw [firstWait, hlearned]
    dsimp only at h
    rw [← hwait] at h
    split at h
    · next hcut =>
      cases h
      exact .cut hcut rfl rfl rfl
    · next hwaited =>
      rw [Bool.not_eq_true] at hwaited
      cases hknown : learned.1 with
      | ok known =>
        rw [hknown] at h
        exact course_of_sample hwaited (by rw [hlearned, hknown]) h
      | error refusal =>
        rw [hknown] at h
        have hlearn : (learn o.url transport).1 = .error refusal := by rw [hlearned, hknown]
        cases refusal with
        | reported kind text =>
          cases h
          exact .refused hwaited hlearn rfl rfl rfl
        | interrupted =>
          cases h
          exact .broken hwaited hlearn rfl rfl
        | fault f => cases h

namespace Samples

variable {known known' : Known} {census census' : Census} {run run' : Census.Run}

theorem unique (h : Samples o transport interruptAt begun known census run)
    (h' : Samples o transport interruptAt begun known' census' run') : run' = run := by
  obtain rfl : known = known' := Except.ok.inj (h.learned.symm.trans h'.learned)
  obtain rfl : census = census' := Except.ok.inj (h.made.symm.trans h'.made)
  rw [h.sampled, h'.sampled]

theorem areSound (h : Samples o transport interruptAt begun known census run) :
    Schema.AreSound known.schemas := areSound_of_learn h.learned

theorem source_eq (h : Samples o transport interruptAt begun known census run) :
    census.source = sourceOf known transport := by
  have hmade := h.made
  unfold Census.make at hmade
  split at hmade <;> cases hmade
  rfl

theorem prompt (h : Samples o transport interruptAt begun known census run) :
    census.source.Prompt := by
  rw [h.source_eq]
  exact prompt_sourceOf known transport

theorem samplesPath_eq (h : Samples o transport interruptAt begun known census run)
    (store : String) : census.samplesPath store = FileTree.join o.outDir (store ++ ".kvs") := by
  have hmade := h.made
  unfold Census.make at hmade
  split at hmade <;> cases hmade
  rfl

theorem isComplete_iff (h : Samples o transport interruptAt begun known census run)
    (hstopped : run.stopped = none) :
    run.report.ok = true ↔ IsComplete o transport run.tree := by
  have hok : run.report.ok = true ↔
      ∀ s ∈ known.schemas, run.tree.has (census.samplesPath s.name) = true := by
    rw [h.sampled] at hstopped ⊢
    exact Census.ok_report_iff h.areSound hstopped
  simp only [h.samplesPath_eq] at hok
  rw [hok]
  constructor
  · exact fun hall => ⟨known, h.learned, hall⟩
  · rintro ⟨known', hlearned, hall⟩
    obtain rfl : known = known' := Except.ok.inj (h.learned.symm.trans hlearned)
    exact hall

theorem not_isInterrupted (h : Samples o transport interruptAt begun known census run)
    (hstopped : run.stopped = none) : ¬IsInterrupted o transport interruptAt begun := by
  rintro (hcut | hbroken | ⟨hsamples, hother⟩)
  · rw [h.waited] at hcut
    cases hcut
  · rw [h.learned] at hbroken
    cases hbroken
  · rw [h.unique hsamples] at hother
    exact hother hstopped

/-- A run that was interrupted, and not cancelled, was interrupted by a reply. -/
theorem exists_reply (h : Samples o transport interruptAt begun known census run) {clean : Bool}
    (hstopped : run.stopped = some (.interrupted clean)) :
    ∃ url, (transport url).result = .error .interrupted := by
  rw [h.sampled, Census.sampleStores_eq_sampleEach] at hstopped
  obtain ⟨q, hfetch⟩ := Census.interrupted_of_stopped h.prompt
    (fun schema key => by rw [h.source_eq]; exact replicas_sourceOf_ne known schema key) rfl
    hstopped
  rw [h.source_eq] at hfetch
  exact exists_reply_of_fetch hfetch

end Samples

/-! ## 4. The exit status -/

/-- What an exit status says of a session: of its course, of the files it leaves, and of the time at
which its user interrupts it. -/
structure TellsTruth (o : CensusOptions) (transport : Transport) (interruptAt : Option Rat)
    (begun : FileTree) (session : Session) : Prop where
  interrupted : session.exitStatus = 130 ↔ IsInterrupted o transport interruptAt begun
  complete : session.exitStatus = 0 ↔
    ¬IsInterrupted o transport interruptAt begun ∧ IsComplete o transport session.tree
  incomplete : session.exitStatus = 1 ↔
    ¬IsInterrupted o transport interruptAt begun ∧ ¬IsComplete o transport session.tree
  /-- The store that is being sampled when a signal comes: the first that the report lacks. -/
  noSamples : ∀ known census run, Samples o transport interruptAt begun known census run →
    run.stopped ≠ none → ∃ done current untried, known.schemas = done ++ current :: untried ∧
      run.report.outcomes.keys = done.map Schema.name ∧
      session.tree.has (FileTree.join o.outDir (current.name ++ ".kvs")) = false
  unchanged : (∀ known, (learn o.url transport).1 ≠ .ok known) ∨
    (firstWait o transport interruptAt).interrupted = true → session.tree = begun
  /-- An interruption has a cause, and one by the user is heeded in a session that takes time. -/
  caused : session.exitStatus = 130 →
    (∃ time, interruptAt = some time ∧ time ≤ session.ended) ∨
      ∃ url, (transport url).result = .error .interrupted
  heeded : ∀ time, interruptAt = some time → session.ended ≠ 0 → time ≤ session.ended →
    session.exitStatus = 130

theorem not_isInterrupted_of_refused {kind text : String}
    (hwaited : (firstWait o transport interruptAt).interrupted = false)
    (hlearn : (learn o.url transport).1 = .error (.reported kind text)) :
    ¬IsInterrupted o transport interruptAt begun := by
  rintro (hcut | hbroken | ⟨hsamples, -⟩)
  · rw [hwaited] at hcut
    cases hcut
  · rw [hlearn] at hbroken
    cases hbroken
  · have hlearned := hsamples.learned
    rw [hlearn] at hlearned
    cases hlearned

namespace Course

/-- Each course has its exit status. -/
theorem status (h : Course o transport interruptAt begun session) :
    (session.exitStatus = 130 ∧ IsInterrupted o transport interruptAt begun) ∨
      (session.exitStatus = 0 ∧ ¬IsInterrupted o transport interruptAt begun ∧
        IsComplete o transport session.tree) ∨
      session.exitStatus = 1 ∧ ¬IsInterrupted o transport interruptAt begun ∧
        ¬IsComplete o transport session.tree := by
  cases h with
  | cut hcut hstatus => exact .inl ⟨hstatus, .waiting hcut⟩
  | broken _ hlearn hstatus => exact .inl ⟨hstatus, .learning hlearn⟩
  | refused hwaited hlearn hstatus =>
    refine .inr (.inr ⟨hstatus, not_isInterrupted_of_refused hwaited hlearn, ?_⟩)
    rintro ⟨known, hlearned, -⟩
    rw [hlearn] at hlearned
    cases hlearned
  | stopped hsamples hstopped _ hstatus =>
    exact .inl ⟨hstatus, .sampling hsamples (by rw [hstopped]; exact Option.some_ne_none _)⟩
  | sampled hsamples hstopped hstatus htree =>
    have hcomplete := hsamples.isComplete_iff hstopped
    have hnot := hsamples.not_isInterrupted hstopped
    rw [htree]
    split at hstatus
    · next hok => exact .inr (.inl ⟨hstatus, hnot, hcomplete.1 hok⟩)
    · next hok => exact .inr (.inr ⟨hstatus, hnot, fun hc => hok (hcomplete.2 hc)⟩)

/-- The tree that a session leaves is that of its run, if it samples its stores. -/
theorem tree_eq (h : Course o transport interruptAt begun session) {known : Known}
    {census : Census} {run : Census.Run}
    (hsamples : Samples o transport interruptAt begun known census run) :
    session.tree = run.tree := by
  cases h with
  | cut hcut =>
    rw [hsamples.waited] at hcut
    cases hcut
  | broken _ hlearn =>
    rw [hsamples.learned] at hlearn
    cases hlearn
  | refused _ hlearn =>
    rw [hsamples.learned] at hlearn
    cases hlearn
  | stopped hother _ _ _ htree => rw [htree, hsamples.unique hother]
  | sampled hother _ _ htree => rw [htree, hsamples.unique hother]

/-- A session that does not sample its stores leaves the tree as it was. -/
theorem tree_eq_begun (h : Course o transport interruptAt begun session)
    (hno : ∀ known census run, ¬Samples o transport interruptAt begun known census run) :
    session.tree = begun := by
  cases h with
  | cut _ _ htree => exact htree
  | broken _ _ _ htree => exact htree
  | refused _ _ _ htree => exact htree
  | stopped hsamples => exact absurd hsamples (hno _ _ _)
  | sampled hsamples => exact absurd hsamples (hno _ _ _)

/-- The store in which a run was stopped is left without samples. -/
theorem noSamples (h : Course o transport interruptAt begun session) {known : Known}
    {census : Census} {run : Census.Run}
    (hsamples : Samples o transport interruptAt begun known census run)
    (hstopped : run.stopped ≠ none) :
    ∃ done current untried, known.schemas = done ++ current :: untried ∧
      run.report.outcomes.keys = done.map Schema.name ∧
      session.tree.has (FileTree.join o.outDir (current.name ++ ".kvs")) = false := by
  rw [hsamples.sampled] at hstopped
  obtain ⟨done, current, untried, hschemas, hkeys, hno⟩ :=
    Census.noSamples_of_stopped hsamples.areSound hstopped
  rw [← hsamples.sampled] at hkeys hno
  rw [hsamples.samplesPath_eq, ← h.tree_eq hsamples] at hno
  exact ⟨done, current, untried, hschemas, hkeys, hno⟩

/-- A session is interrupted by a user whose time had come, or by a reply. -/
theorem caused (h : Course o transport interruptAt begun session)
    (hstatus : session.exitStatus = 130) :
    (∃ time, interruptAt = some time ∧ time ≤ session.ended) ∨
      ∃ url, (transport url).result = .error .interrupted := by
  cases h with
  | cut hcut _ _ hended =>
    rw [hended]
    exact .inl (interrupted_waitFor hcut)
  | broken _ hlearn => exact .inr (exists_reply_of_learn hlearn)
  | refused _ _ hother =>
    rw [hother] at hstatus
    cases hstatus
  | @stopped known census run signal hsamples hstopped hsignal =>
    cases signal with
    | cancelled clean =>
      have hcomes := hsignal clean rfl
      cases interruptAt with
      | none => cases hcomes
      | some time => exact .inl ⟨time, rfl, of_decide_eq_true hcomes⟩
    | interrupted clean => exact .inr (hsamples.exists_reply hstopped)
  | sampled _ _ hother =>
    rw [hother] at hstatus
    split at hstatus <;> cases hstatus

/-- A session that its user's interruption does not cut off is over before, or takes no time. -/
theorem heeded {time : Rat} (h : Course o transport (some time) begun session)
    (hended : session.ended ≠ 0) (hle : time ≤ session.ended) : session.exitStatus = 130 := by
  have hwait : (firstWait o transport (some time)).interrupted = false →
      (firstWait o transport (some time)).ended = 0 ∨
        (firstWait o transport (some time)).ended < time := ended_waitFor
  by_contra hstatus
  have hover : session.ended = 0 ∨ session.ended < time := by
    cases h with
    | cut _ hother => exact absurd hother hstatus
    | broken _ _ hother => exact absurd hother hstatus
    | refused hwaited _ _ _ heq =>
      rw [heq]
      exact hwait hwaited
    | stopped _ _ _ hother => exact absurd hother hstatus
    | @sampled known census run hsamples hstopped _ _ heq =>
      have hnow : run.now = 0 ∨ run.now < time - (firstWait o transport (some time)).ended := by
        rw [hsamples.sampled, Census.sampleStores_eq_sampleEach] at hstopped ⊢
        exact Census.now_sampleEach hsamples.prompt _ _ _ hstopped
      rw [heq]
      rcases hnow with hzero | hlt
      · rw [hzero, add_zero]
        exact hwait hsamples.waited
      · exact .inr (lt_sub_iff_add_lt'.1 hlt)
  rcases hover with hzero | hlt
  · exact hended hzero
  · exact absurd hle (Rat.not_le.2 hlt)

end Course

/-- The exit status of a session tells the truth, whatever the cluster answers and whenever the user
interrupts it. Before its first store a session has made nothing but its two directories and those
on their way. -/
theorem exitStatus_tellsTruth (h : runUntil interruptAt o transport tree = .ok session) :
    ∃ made begun, FileTree.MadeAlong o.inDir tree made ∧ FileTree.MadeAlong o.outDir made begun ∧
      makeDirectories o tree = .ok begun ∧ TellsTruth o transport interruptAt begun session := by
  obtain ⟨begun, hdirs, hcourse⟩ := exists_course h
  obtain ⟨made, hin, hout⟩ := madeAlong_makeDirectories hdirs
  refine ⟨made, begun, hin, hout, hdirs, ?_⟩
  constructor
  case noSamples => exact fun known census run hsamples => hcourse.noSamples hsamples
  case unchanged =>
    intro hno
    refine hcourse.tree_eq_begun fun known census run hsamples => ?_
    rcases hno with hno | hcut
    · exact hno known hsamples.learned
    · rw [hsamples.waited] at hcut
      cases hcut
  case caused => exact hcourse.caused
  case heeded =>
    rintro time rfl
    exact hcourse.heeded
  all_goals
    rcases hcourse.status with ⟨hstatus, hi⟩ | ⟨hstatus, hi, hc⟩ | ⟨hstatus, hi, hc⟩
    · simp [hstatus, hi]
    · simp [hstatus, hi, hc]
    · simp [hstatus, hi, hc]

/-! A node that takes three seconds to say that it is not available, and a user who waits for it, or
does not. And the two nodes of `pair`, which are asked for the key of a store, or for no key because
there is no key file. -/

def lateTransport : Transport := fun _ => ⟨3, .ok ⟨503, []⟩⟩

theorem exists_of_status {result : Except SessionFault Session} {status : Nat}
    (h : result.toOption.map Session.exitStatus = some status) :
    ∃ session, result = .ok session ∧ session.exitStatus = status := by
  cases result with
  | error fault => cases h
  | ok session => exact ⟨session, rfl, Option.some.inj h⟩

def keylessTree : FileTree := OrderedMap.ofList [(["in"], .dir), (["out"], .dir)]

theorem result_transport_ne (c : RunningCluster) (now : Int) (url : String) :
    (c.transport now url).result ≠ .error .interrupted := by
  unfold RunningCluster.transport
  split <;> exact fun h => by cases h

/-- Without an interruption the status tells whether all stores have their samples. -/
theorem status_of_tellsTruth {c : RunningCluster}
    (h : TellsTruth o (c.transport 0) none begun session) :
    (IsComplete o (c.transport 0) session.tree → session.exitStatus = 0) ∧
      (¬IsComplete o (c.transport 0) session.tree → session.exitStatus = 1) := by
  have hnot : ¬IsInterrupted o (c.transport 0) none begun := by
    rw [← h.interrupted]
    intro hstatus
    rcases h.caused hstatus with ⟨time, htime, -⟩ | ⟨url, hurl⟩
    · cases htime
    · exact result_transport_ne c 0 url hurl
  exact ⟨fun hc => h.complete.2 ⟨hnot, hc⟩, fun hc => h.incomplete.2 ⟨hnot, hc⟩⟩

section

variable {c : RunningCluster} {transport : Transport} {r : Resolver} {k : Known} {census : Census}

theorem samplesPath_pair (h : Attached pair c transport pairOptions r k census) :
    census.samplesPath "s" = "out/s.kvs" := by
  rw [Census.samplesPath, h.outDir]
  decide +kernel

theorem keysPath_pair (h : Attached pair c transport pairOptions r k census) :
    census.keysPath "s" = "in/s.keys" := by
  rw [Census.keysPath, h.inDir]
  decide +kernel

/-- The two nodes have one store, and a tree is complete if it has its samples. -/
theorem isComplete_pair (h : Attached pair c transport pairOptions r k census) {tree : FileTree} :
    IsComplete pairOptions transport tree ↔ tree.has "out/s.kvs" = true := by
  have hpath : FileTree.join pairOptions.outDir (pairSchema.name ++ ".kvs") = "out/s.kvs" := by
    decide +kernel
  constructor
  · rintro ⟨k', hlearned, hall⟩
    obtain rfl : k = k' := Except.ok.inj (h.learned.symm.trans hlearned)
    have hsome := hall pairSchema (h.schemas ▸ List.mem_cons_self)
    rwa [hpath] at hsome
  · intro hhas
    refine ⟨k, h.learned, fun schema hschema => ?_⟩
    rw [h.schemas] at hschema
    obtain rfl := List.mem_singleton.1 hschema
    rw [hpath]
    exact hhas

/-- The store has its key file and no samples, and its temporary file can be opened. -/
theorem has_sampleStores_pair (h : Attached pair c transport pairOptions r k census) :
    (census.sampleStores k.schemas false none pairTree).tree.has "out/s.kvs" = true := by
  have hcontent : pairTree.read (census.keysPath "s") = .ok (Utf8.encode "62\n".toList) := by
    rw [keysPath_pair h]
    decide +kernel
  have hfault : (KeyFile.read (census.keysPath "s")
      (Utf8.encode "62\n".toList)).fault = none := by
    rw [keysPath_pair h]
    decide +kernel
  have hnew : pairTree.has (census.samplesPath "s") = false := by
    rw [samplesPath_pair h]
    decide +kernel
  have hopened : pairTree.write (census.partialPath "s") [] =
      .ok (pairTree.insert ["out", "s.kvs.tmp"] (.file [])) := by
    rw [Census.partialPath, samplesPath_pair h]
    decide +kernel
  have hschema : pairSchema ∈ pair.schemas := List.mem_cons_self
  obtain ⟨blocks, -, hread⟩ := h.read_samples hschema hcontent hfault hnew hopened
  rw [show pairSchema.name = "s" from rfl, samplesPath_pair h] at hread
  rw [FileTree.has_eq_isSome, FileTree.read_eq_ok_iff.1 hread]
  rfl

theorem has_sampleStores_keyless (h : Attached pair c transport pairOptions r k census) :
    (census.sampleStores k.schemas false none keylessTree).tree.has "out/s.kvs" = false := by
  have hno : keylessTree.has (census.samplesPath pairSchema.name) = false := by
    rw [show pairSchema.name = "s" from rfl, samplesPath_pair h]
    decide +kernel
  have hno' : keylessTree.has (census.keysPath pairSchema.name) = false := by
    rw [show pairSchema.name = "s" from rfl, keysPath_pair h]
    decide +kernel
  have hsame : (census.sampleStores k.schemas false none keylessTree).tree = keylessTree := by
    rw [h.schemas, Census.sampleStores]
    show (census.sampleFrom false none [pairSchema] _).tree = _
    simp [Census.sampleFrom, Census.sampleWith, Census.Run.initial, Census.Run.after, hno, hno',
      Census.StoreRun.idle]
  rw [hsame]
  decide +kernel

end

theorem exitStatus_tellsTruth_late :
    (∃ session begun, runUntil (some 2) pairOptions lateTransport pairTree = .ok session ∧
        session.exitStatus = 130 ∧
        TellsTruth pairOptions lateTransport (some 2) begun session) ∧
      (∃ session begun, runUntil none pairOptions lateTransport pairTree = .ok session ∧
        session.exitStatus = 1 ∧ TellsTruth pairOptions lateTransport none begun session) ∧
      ∃ transport,
        (∃ session begun, runUntil none pairOptions transport pairTree = .ok session ∧
          session.exitStatus = 0 ∧ session.tree.has "out/s.kvs" = true ∧
          TellsTruth pairOptions transport none begun session) ∧
        ∃ session begun, runUntil none pairOptions transport keylessTree = .ok session ∧
          session.exitStatus = 1 ∧ session.tree.has "out/s.kvs" = false ∧
          TellsTruth pairOptions transport none begun session := by
  refine ⟨?_, ?_, ?_⟩
  · have hend : (runUntil (some 2) pairOptions lateTransport pairTree).toOption.map
        Session.exitStatus = some 130 := by decide +kernel
    obtain ⟨session, hrun, hstatus⟩ := exists_of_status hend
    obtain ⟨-, begun, -, -, -, htells⟩ := exitStatus_tellsTruth hrun
    exact ⟨session, begun, hrun, hstatus, htells⟩
  · have hend : (runUntil none pairOptions lateTransport pairTree).toOption.map
        Session.exitStatus = some 1 := by decide +kernel
    obtain ⟨session, hrun, hstatus⟩ := exists_of_status hend
    obtain ⟨-, begun, -, -, -, htells⟩ := exitStatus_tellsTruth hrun
    exact ⟨session, begun, hrun, hstatus, htells⟩
  obtain ⟨fresh, -, hreached, hdelivers⟩ := exists_pair
  obtain ⟨r, k, census, hattached⟩ := exists_attached hreached hdelivers (m := ⟨0, "a", 1⟩)
    List.mem_cons_self (o := pairOptions) (by decide +kernel) (by decide) rfl
  refine ⟨(fresh.seedAll pairPuts).transport 0, ?_, ?_⟩
  · have hdirs : makeDirectories pairOptions pairTree = .ok pairTree := by decide +kernel
    obtain ⟨session, hrun, htree⟩ := hattached.run rfl hdirs
    obtain ⟨-, begun, -, -, -, htells⟩ := exitStatus_tellsTruth hrun
    have hhas : session.tree.has "out/s.kvs" = true := by
      rw [htree]
      exact has_sampleStores_pair hattached
    have hcomplete := (isComplete_pair hattached).2 hhas
    exact ⟨session, begun, hrun, (status_of_tellsTruth htells).1 hcomplete, hhas, htells⟩
  · have hdirs : makeDirectories pairOptions keylessTree = .ok keylessTree := by decide +kernel
    obtain ⟨session, hrun, htree⟩ := hattached.run rfl hdirs
    obtain ⟨-, begun, -, -, -, htells⟩ := exitStatus_tellsTruth hrun
    have hhas : session.tree.has "out/s.kvs" = false := by
      rw [htree]
      exact has_sampleStores_keyless hattached
    have hincomplete := mt (isComplete_pair hattached).1 (Bool.eq_false_iff.1 hhas)
    exact ⟨session, begun, hrun, (status_of_tellsTruth htells).2 hincomplete, hhas, htells⟩

end Session

end ReplicaCensus
