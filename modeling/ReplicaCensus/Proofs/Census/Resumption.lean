import Mathlib
import ReplicaCensus.Proofs.Census.Blocks
import ReplicaCensus.Proofs.Census.Clock
/-!
# A run that was cut off can be resumed

What a census makes of a store depends on the key file and on the directories, and on samples that
are there already; what an earlier run left of the store unfinished makes no difference. So a run
after one that was cut off, with nodes that answer now what they answered then, leaves what it would
have left by itself.
-/

namespace ReplicaCensus

/-! ## 1. The calls of a store -/

namespace Schedule

/-- All fetches begun are fetches for the store of the setting. -/
def CallsStore (s : Setting) (calls : List Call) : Prop :=
  ∀ call ∈ calls, call.store = s.schema.name

theorem CallsStore.append {s : Setting} {calls more : List Call} (h : CallsStore s calls)
    (h' : CallsStore s more) : CallsStore s (calls ++ more) :=
  List.forall_mem_append.2 ⟨h, h'⟩

theorem callsStore_nil (s : Setting) : CallsStore s [] := fun _ h => absurd h List.not_mem_nil

theorem callsStore_single (s : Setting) (call : Call) (h : call.store = s.schema.name) :
    CallsStore s [call] := by
  intro other hother
  rw [List.mem_singleton.1 hother]
  exact h

theorem callsStore_start (s : Setting) (now : Rat) (key : KeyLine) :
    CallsStore s (start s now key).2 := by
  rcases start_cases s now key with ⟨result, h⟩ | ⟨r, h⟩
  · rw [h]
    exact callsStore_nil s
  · rw [h]
    exact callsStore_single s _ rfl

theorem callsStore_proceed (s : Setting) (key : KeyLine) (r : Reading) :
    CallsStore s (proceed s key r).2 := by
  rcases proceed_cases s key r with ⟨result, h⟩ | ⟨r', h, -⟩ | ⟨r', h, -⟩
  · rw [h]
    exact callsStore_nil s
  · rw [h]
    exact callsStore_nil s
  · rw [h]
    exact callsStore_single s _ rfl

theorem callsStore_grant (s : Setting) (now : Rat) (free : Nat) (tasks : List Task) :
    CallsStore s (grant s now free tasks).2.2 := by
  fun_induction grant s now free tasks with
  | case1 => exact callsStore_nil s
  | case2 => exact callsStore_nil s
  | case3 free t rest hphase phase calls hstart t' rest' left more hgrant ih =>
    have hcalls := callsStore_start s now t.key
    rw [hstart] at hcalls
    rw [hgrant] at ih
    exact hcalls.append ih
  | case4 free t rest rest' left calls hgrant _ ih =>
    rw [hgrant] at ih
    exact ih

theorem callsStore_fire (s : Setting) (now : Rat) (tasks : List Task) :
    CallsStore s (fire s now tasks).2.2 := by
  fun_induction fire s now tasks with
  | case1 => exact callsStore_nil s
  | case2 t rest r hphase hnext phase calls hproceed t' =>
    have hcalls := callsStore_proceed s t.key r
    rw [hproceed] at hcalls
    exact hcalls
  | case3 t rest r hphase hnext rest' returned calls hfire ih =>
    rw [hfire] at ih
    exact ih
  | case4 t rest rest' returned calls hfire _ ih =>
    rw [hfire] at ih
    exact ih

theorem callsStore_step (s : Setting) (cancelAt : Option Rat) {st : State}
    (h : CallsStore s st.calls) : CallsStore s (step s cancelAt st).1.calls := by
  have hfill : CallsStore s (st.fill s).calls := h.append (callsStore_grant s _ _ _)
  -- writing blocks begins no fetch
  have hwrite : ∀ {st' : State} {failure : Option Failure},
      (st.fill s).write = (st', failure) → CallsStore s st'.calls := by
    intro st' failure hw
    have hcalls : (st.fill s).write.1.calls = (st.fill s).calls := rfl
    rw [hw] at hcalls
    exact hcalls ▸ hfill
  have hsteps := steps_step s cancelAt st
  generalize step s cancelAt st = result at hsteps
  obtain ⟨st', ending⟩ := result
  cases hsteps with
  | interrupted => exact h
  | complete _ _ hw => exact hwrite hw
  | failed _ _ hw => exact hwrite hw
  | happens => exact hfill.append (callsStore_fire s _ _)
  | cancelled _ _ _ hw _ =>
    have hcalls := hwrite hw
    exact hcalls
  | passes _ _ _ hw _ => exact (hwrite hw).append (callsStore_fire s _ _)

theorem callsStore_run (s : Setting) (cancelAt : Option Rat) {st : State}
    (h : CallsStore s st.calls) : CallsStore s (run s cancelAt st).1.calls := by
  fun_induction run s cancelAt st with
  | case1 st st' ending hstep =>
    have hcalls := callsStore_step s cancelAt h
    rw [hstep] at hcalls
    exact hcalls
  | case2 st st' hstep ih =>
    have hcalls := callsStore_step s cancelAt h
    rw [hstep] at hcalls
    exact ih hcalls

theorem callsStore_runOut (s : Setting) (cancelAt : Option Rat) {st : State}
    (h : CallsStore s st.calls) : CallsStore s (runOut s cancelAt st).1.calls := by
  have hrun := callsStore_run s cancelAt h
  unfold runOut
  split
  · next mid hmid =>
    rw [hmid, ← calls_cancelFront s mid] at hrun
    split
    · next last ending hlast =>
      rw [hlast] at hrun
      exact hrun
    · next next hnext =>
      rw [hnext] at hrun
      exact callsStore_run s none hrun
  · next hmid =>
    rw [hmid] at hrun
    exact hrun

end Schedule

namespace Census

/-- A store asks for its own keys only. -/
theorem store_of_mem_calls {c : Census} {schema : Schema} {now : Rat} {cancelAt : Option Rat}
    {t : FileTree} {call : Call} (h : call ∈ (c.sampleStore schema now cancelAt t).calls) :
    call.store = schema.name := by
  have hmem := mem_storeFetches h
  unfold storeFetches at hmem
  split at hmem
  · next keys hkeys =>
    have hempty : Schedule.CallsStore (c.setting schema)
        (Schedule.State.initial now c.slots keys).calls := Schedule.callsStore_nil _
    exact Schedule.callsStore_runOut (c.setting schema) cancelAt hempty call hmem
  · exact absurd hmem List.not_mem_nil

variable {c d : Census} {schema : Schema} {store : String} {t u : FileTree}

/-- Where there are samples, no fetch is made for the store. -/
theorem calls_sampleEach (failFast : Bool) (cancelAt : Option Rat) (schemas : List Schema)
    (run : Run) (hs : run.tree.has (c.samplesPath store) = true) {call : Call}
    (h : call ∈ (c.sampleEach failFast cancelAt schemas run).calls) :
    call ∈ run.calls ∨ call.store ≠ store := by
  induction schemas generalizing cancelAt run with
  | nil => exact .inl h
  | cons schema rest ih =>
    have hkept := (ends_sampleStore c schema run.now cancelAt run.tree).has_samples hs
    have hcalls : ∀ call ∈ (c.sampleStore schema run.now cancelAt run.tree).calls,
        call.store ≠ store := by
      intro call hcall hstore
      rw [store_of_mem_calls hcall] at hstore
      -- the store itself is skipped
      rw [sampleStore, sampleWith, hstore, hs] at hcall
      exact absurd hcall List.not_mem_nil
    have hafter : ∀ {call}, call ∈ (run.after
        (c.sampleStore schema run.now cancelAt run.tree)).calls →
        call ∈ run.calls ∨ call.store ≠ store :=
      fun hcall => (List.mem_append.1 hcall).imp id (hcalls _)
    unfold sampleEach at h
    dsimp only at h
    split at h
    · exact hafter h
    · split at h
      · exact hafter h
      · exact (ih _ _ (by exact hkept) h).elim hafter .inr

/-! ## 2. What a census makes of a store -/

/-- The files of a store after a run to its end: samples that are there stay, a store without keys
is left as it is, and otherwise the keys decide. -/
def finished (d : Census) (schema : Schema) (t : FileTree) : Files :=
  if t.has (d.samplesPath schema.name) || !t.has (d.keysPath schema.name) then
    d.files t schema.name
  else
    match d.openFiles schema.name t with
    | .error _ => ⟨none, if t.hasDir (d.partialPath schema.name) then some .dir else none⟩
    | .ok (keys, _) => .left (Schedule.askInOrder (d.setting schema) keys)

theorem finished_of_error {f : Failure} (hs : t.has (d.samplesPath schema.name) = false)
    (hk : t.has (d.keysPath schema.name) = true)
    (hopen : d.openFiles schema.name t = .error f) :
    d.finished schema t =
      ⟨none, if t.hasDir (d.partialPath schema.name) then some .dir else none⟩ := by
  rw [finished, hs, hk, hopen]
  rfl

theorem finished_of_open {keys : List KeyLine} {opened : FileTree}
    (hs : t.has (d.samplesPath schema.name) = false)
    (hk : t.has (d.keysPath schema.name) = true)
    (hopen : d.openFiles schema.name t = .ok (keys, opened)) :
    d.finished schema t = .left (Schedule.askInOrder (d.setting schema) keys) := by
  rw [finished, hs, hk, hopen]
  rfl

theorem finished_of_samples (hs : t.has (d.samplesPath schema.name) = true) :
    d.finished schema t = d.files t schema.name := by
  rw [finished, hs]
  rfl

theorem finished_of_noKeys (hk : t.has (d.keysPath schema.name) = false) :
    d.finished schema t = d.files t schema.name := by
  rw [finished, hk, Bool.not_false, Bool.or_true]
  rfl

/-- To be opened, the files of a store need their directories and the key file. -/
theorem exists_openFiles (hdirs : FileTree.SameDirs t u)
    (hkeys : u.lookup (d.keysPath store) = t.lookup (d.keysPath store)) {keys : List KeyLine}
    {opened : FileTree} (h : d.openFiles store t = .ok (keys, opened)) :
    ∃ opened', d.openFiles store u = .ok (keys, opened') := by
  obtain ⟨content, hread, hfault, rfl, hwrite⟩ := openFiles_cases h
  obtain ⟨dir, name, ho⟩ := exists_output hwrite
  have hfree : u.get? (dir ++ [name ++ ".tmp"]) ≠ some .dir :=
    fun hd => ho.unfinished.ne_dir_of_write hwrite ((hdirs _).2 hd)
  rw [FileTree.read_eq_ok_iff, ← hkeys, ← FileTree.read_eq_ok_iff] at hread
  exact ⟨_, openFiles_eq hread hfault ((ho.congr hdirs).unfinished.write hfree [])⟩

/-- What a census makes of a store without samples does not depend on the rest of its files. -/
theorem finished_congr (hdirs : FileTree.SameDirs t u)
    (hkeys : u.lookup (d.keysPath schema.name) = t.lookup (d.keysPath schema.name))
    (ht : t.has (d.samplesPath schema.name) = false)
    (hu : u.has (d.samplesPath schema.name) = false)
    (hk : t.has (d.keysPath schema.name) = true) : d.finished schema u = d.finished schema t := by
  have hk' : u.has (d.keysPath schema.name) = true := by
    rw [FileTree.has_eq_isSome, hkeys, ← FileTree.has_eq_isSome, hk]
  cases hopen : d.openFiles schema.name t with
  | ok found =>
    obtain ⟨keys, opened⟩ := found
    obtain ⟨opened', hopen'⟩ := exists_openFiles hdirs hkeys hopen
    rw [finished_of_open ht hk hopen, finished_of_open hu hk' hopen']
  | error f =>
    cases hopen' : d.openFiles schema.name u with
    | ok found =>
      -- what can be opened now could be opened before
      obtain ⟨keys, opened'⟩ := found
      obtain ⟨opened, hopen''⟩ := exists_openFiles (fun path => (hdirs path).symm) hkeys.symm hopen'
      rw [hopen''] at hopen
      cases hopen
    | error f' =>
      obtain ⟨name, -, hpartial⟩ := exists_endsIn d schema.name
      rw [finished_of_error ht hk hopen, finished_of_error hu hk' hopen',
        hpartial.hasDir_congr hdirs]

theorem finished_of_files_eq (hdirs : FileTree.SameDirs t u)
    (hkeys : u.lookup (d.keysPath schema.name) = t.lookup (d.keysPath schema.name))
    (hfiles : d.files u schema.name = d.files t schema.name) :
    d.finished schema u = d.finished schema t := by
  have hsamples : u.has (d.samplesPath schema.name) = t.has (d.samplesPath schema.name) := by
    rw [FileTree.has_eq_isSome, FileTree.has_eq_isSome]
    exact congrArg (fun f => f.samples.isSome) hfiles
  cases ht : t.has (d.samplesPath schema.name) with
  | true => rw [finished_of_samples ht, finished_of_samples (hsamples.trans ht), hfiles]
  | false =>
    cases hk : t.has (d.keysPath schema.name) with
    | true => exact finished_congr hdirs hkeys ht (hsamples.trans ht) hk
    | false =>
      have hk' : u.has (d.keysPath schema.name) = false := by
        rw [FileTree.has_eq_isSome, hkeys, ← FileTree.has_eq_isSome, hk]
      rw [finished_of_noKeys hk, finished_of_noKeys hk', hfiles]

/-- A run that no signal stops finishes its store. -/
theorem files_sampleStore (hs : d.source.Ordinary) (schema : Schema) (now : Rat) (t : FileTree) :
    d.files (d.sampleStore schema now none t).tree schema.name = d.finished schema t := by
  cases hnew : t.has (d.samplesPath schema.name) with
  | true =>
    rw [finished_of_samples hnew, sampleStore, sampleWith, hnew]
    rfl
  | false =>
    cases hkeys : t.has (d.keysPath schema.name) with
    | false =>
      rw [finished_of_noKeys hkeys, sampleStore, sampleWith, hnew, hkeys]
      rfl
    | true =>
      cases hopen : d.openFiles schema.name t with
      | error f =>
        rw [finished_of_error hnew hkeys hopen, sampleStore, sampleWith, hnew, hkeys, hopen]
        exact files_discard hnew
      | ok found =>
        obtain ⟨keys, opened⟩ := found
        obtain ⟨dir, name, ho⟩ := exists_opened hnew (write_of_openFiles hopen)
        rw [finished_of_open hnew hkeys hopen, (sampleStore_of_opened hs hkeys hopen ho now).2,
          ho.files_leftBy]

/-! ## 3. Two censuses -/

/-- `d` takes up where `c` left off: it works on the same directories without a limit, no fetch of
it fails, and what `c` was told it is told, too. -/
structure Resumes (c d : Census) : Prop where
  inDir : d.inDir = c.inDir
  outDir : d.outDir = c.outDir
  limit : d.limit = none
  replicas : ∀ schema key nodes, c.source.replicas schema key = .ok nodes →
    d.source.replicas schema key = .ok nodes
  fetch : ∀ q versions, (c.source.fetch q).answer = .ok versions →
    (d.source.fetch q).answer = .ok versions
  answers : ∀ q, ∃ versions, (d.source.fetch q).answer = .ok versions
  routing : ∀ schema key f, d.source.replicas schema key = .error f → f.isOrdinary = true

namespace Resumes

theorem ordinary (h : Resumes c d) : d.source.Ordinary := by
  refine ⟨h.routing, fun q f hf => ?_⟩
  obtain ⟨versions, hversions⟩ := h.answers q
  rw [hversions] at hf
  cases hf

theorem self (h : Resumes c d) : Resumes d d :=
  ⟨rfl, rfl, h.limit, fun _ _ _ => id, fun _ _ => id, h.answers, h.routing⟩

theorem keysPath (h : Resumes c d) (store : String) : d.keysPath store = c.keysPath store := by
  rw [Census.keysPath, Census.keysPath, h.inDir]

theorem samplesPath (h : Resumes c d) (store : String) :
    d.samplesPath store = c.samplesPath store := by
  rw [Census.samplesPath, Census.samplesPath, h.outDir]

theorem partialPath (h : Resumes c d) (store : String) :
    d.partialPath store = c.partialPath store := by
  rw [Census.partialPath, Census.partialPath, h.samplesPath]

theorem files (h : Resumes c d) (t : FileTree) (store : String) :
    d.files t store = c.files t store := by
  rw [Census.files, Census.files, h.samplesPath, h.partialPath]

theorem openFiles (h : Resumes c d) (store : String) (t : FileTree) :
    d.openFiles store t = c.openFiles store t := by
  rw [Census.openFiles, Census.openFiles, h.keysPath, h.partialPath]

theorem outputs (h : Resumes c d) : d.outputs = c.outputs := by
  funext t store
  rw [Census.outputs, Census.outputs, h.samplesPath, h.partialPath]

/-- The blocks of the earlier census are the blocks of the later one. -/
theorem askInOrder (h : Resumes c d) {keys : List KeyLine} {blocks : List String}
    (hblocks : keys.map (Schedule.ask (c.setting schema)) = blocks.map .ok) :
    Schedule.askInOrder (d.setting schema) keys = (blocks, none) := by
  have hasked : List.Forall₂ (fun key text => Schedule.ask (d.setting schema) key = .ok text)
      keys blocks := by
    refine (Schedule.forall₂_answered hblocks).imp ?_
    rintro key text ⟨nodes, answers, hnodes, hanswers, rfl⟩
    exact Schedule.ask_of_ok h.limit (h.replicas _ _ _ hnodes)
      (hanswers.imp fun _ _ _ hv => h.fetch _ _ hv)
  exact Schedule.askInOrder_of_ok _ (map_eq_map_iff.2 hasked)

end Resumes

/-- However the earlier census ended with a store, the later one makes the same of it. -/
theorem Ends.finished_eq (hr : Resumes c d) {verdict : Except Signal Outcome}
    (h : c.Ends schema t verdict u) : d.finished schema u = d.finished schema t := by
  have hdiffers := h.differsAt
  have hkeys : u.lookup (d.keysPath schema.name) = t.lookup (d.keysPath schema.name) := by
    rw [hr.keysPath]
    exact lookup_keysPath_of_differsAt hdiffers
  -- an ending without samples leaves the directories and the key file, which is all that counts
  have hunsampled : t.has (c.samplesPath schema.name) = false →
      t.has (c.keysPath schema.name) = true → u.has (c.samplesPath schema.name) = false →
      d.finished schema u = d.finished schema t := by
    intro ht hk hu
    rw [← hr.samplesPath] at ht hu
    rw [← hr.keysPath] at hk
    exact finished_congr hdiffers.sameDirs hkeys ht hu hk
  have hbegun : ∀ {keys opened dir name}, c.Begun schema.name t keys opened dir name →
      t.has (c.samplesPath schema.name) = false := by
    intro keys opened dir name hb
    rw [hb.files.output.samples.has, hb.files.noSamples]
    rfl
  cases h with
  | skipped => rfl
  | noKeys => rfl
  | unopened hs hk _ =>
    refine hunsampled hs hk ?_
    rw [FileTree.has_eq_isSome]
    exact congrArg (fun f => f.samples.isSome) (files_discard hs)
  | @sampled keys opened dir name blocks hb hblocks =>
    have hfiles := hb.files.files_leftBy (blocks, none)
    have hsamples : (leftBy t dir name (blocks, none)).has (d.samplesPath schema.name) = true := by
      rw [hr.samplesPath, FileTree.has_eq_isSome]
      exact congrArg (fun f => f.samples.isSome) hfiles
    rw [finished_of_samples hsamples, hr.files, hfiles,
      finished_of_open (by rw [hr.samplesPath, hbegun hb]) (by rw [hr.keysPath, hb.hasKeys])
        (by rw [hr.openFiles, hb.opens]), hr.askInOrder hblocks]
  | failed hb =>
    exact hunsampled (hbegun hb) hb.hasKeys (hb.files.noSamples_of_failure [] .cancelled)
  | stopped hb _ =>
    exact hunsampled (hbegun hb) hb.hasKeys (hb.files.noSamples_of_failure [] .cancelled)
  | broken hb =>
    refine hunsampled (hbegun hb) hb.hasKeys ?_
    rw [((hb.files.output).congr hdiffers.sameDirs).samples.has, OrderedMap.get?_insert,
      if_neg (Output.places_ne _ _), hb.files.opened_eq, OrderedMap.get?_insert,
      if_neg (Output.places_ne _ _), hb.files.noSamples]
    rfl

/-- Nor does it matter what became of the other stores. -/
theorem Ends.finished_other (hr : Resumes c d) {other : Schema} {verdict : Except Signal Outcome}
    (h : c.Ends other t verdict u) (hapart : other ≠ schema → c.Apart t schema.name other.name) :
    d.finished schema u = d.finished schema t := by
  by_cases hother : other = schema
  · rw [← hother]
    exact h.finished_eq hr
  · refine finished_of_files_eq h.differsAt.sameDirs ?_ ?_
    · rw [hr.keysPath]
      exact lookup_keysPath_of_differsAt h.differsAt
    · rw [hr.files, hr.files]
      exact files_of_differsAt (hapart hother) h.differsAt

theorem Trail.finished_eq (hr : Resumes c d) {tried : List (Schema × Except Signal Outcome)}
    (h : c.Trail t tried u)
    (hapart : ∀ e ∈ tried, e.1 ≠ schema → c.Apart t schema.name e.1.name) :
    d.finished schema u = d.finished schema t := by
  induction h with
  | nil => rfl
  | cons hfirst hrest ih =>
    obtain ⟨hnow, hlater⟩ := List.forall_mem_cons.1 hapart
    rw [ih fun e he hne => (hlater e he hne).congr hfirst.differsAt.sameDirs]
    exact hfirst.finished_other hr hnow

/-! ## 4. Two runs -/

/-- Different stores of a list have different samples. -/
def AllApart (c : Census) (t : FileTree) (schemas : List Schema) : Prop :=
  ∀ s ∈ schemas, ∀ s' ∈ schemas, s ≠ s' → c.Apart t s.name s'.name

theorem AllApart.congr {schemas : List Schema} (h : c.AllApart t schemas)
    (hs : FileTree.SameDirs t u) : c.AllApart u schemas :=
  fun s hmem s' hmem' hne => (h s hmem s' hmem' hne).congr hs

theorem Resumes.allApart {schemas : List Schema} (h : Resumes c d) (ha : c.AllApart t schemas) :
    d.AllApart t schemas := by
  intro s hs s' hs' hne place
  rw [h.samplesPath, h.samplesPath]
  exact ha s hs s' hs' hne place

theorem differsAt_sampleStores (c : Census) (schemas : List Schema) (failFast : Bool)
    (cancelAt : Option Rat) (t : FileTree) :
    FileTree.DiffersAt t (c.sampleStores schemas failFast cancelAt t).tree
      {place | ∃ s ∈ schemas, place ∈ c.outputs t s.name} := by
  rw [sampleStores_eq_sampleEach]
  obtain ⟨a, ha, -⟩ := exists_account c failFast cancelAt schemas (.initial c.slots t) rfl
  refine ha.trail.differsAt.mono ?_
  rintro place ⟨e, he, hplace⟩
  exact ⟨e.1, ha.mem_schemas he, hplace⟩

/-- A run that was cut off anywhere has not changed what becomes of a store in the end. -/
theorem finished_sampleStores (hr : Resumes c d) {schemas : List Schema}
    (hapart : c.AllApart t schemas) (hmem : schema ∈ schemas) (failFast : Bool)
    (cancelAt : Option Rat) :
    d.finished schema (c.sampleStores schemas failFast cancelAt t).tree = d.finished schema t := by
  rw [sampleStores_eq_sampleEach]
  obtain ⟨a, ha, -⟩ := exists_account c failFast cancelAt schemas (.initial c.slots t) rfl
  exact ha.trail.finished_eq hr
    fun e he hne => hapart schema hmem e.1 (ha.mem_schemas he) hne.symm

/-- A run without signals finishes each of its stores. -/
theorem files_sampleEach (hr : Resumes c d) {schemas : List Schema} (run : Run)
    (hrun : run.stopped = none) (hapart : d.AllApart run.tree schemas)
    (hmem : schema ∈ schemas) :
    d.files (d.sampleEach false none schemas run).tree schema.name =
      d.finished schema run.tree := by
  -- by induction on the stores; of a store that comes twice the later run counts
  induction schemas generalizing run with
  | nil => exact absurd hmem List.not_mem_nil
  | cons first rest ih =>
    obtain ⟨next, hnext, htree, hstopped⟩ := sampleEach_cons hr.ordinary first rest run
    rw [hrun] at hstopped
    have hends := ends_sampleStore d first run.now none run.tree
    rw [← htree] at hends
    have hdirs := hends.differsAt.sameDirs
    rw [hnext]
    by_cases hlater : schema ∈ rest
    · have hrest : d.AllApart next.tree rest := AllApart.congr (fun s hs s' hs' =>
        hapart s (List.mem_cons_of_mem _ hs) s' (List.mem_cons_of_mem _ hs')) hdirs
      rw [ih next hstopped hrest hlater]
      exact hends.finished_other hr.self fun hne => hapart schema hmem first
        List.mem_cons_self (Ne.symm hne)
    · obtain rfl : schema = first := (List.mem_cons.1 hmem).resolve_right hlater
      obtain ⟨a, ha, -⟩ := exists_account d false none rest next hstopped
      rw [ha.trail.files_eq, htree, files_sampleStore hr.ordinary]
      intro e he
      have he' := ha.mem_schemas he
      exact (hapart schema hmem e.1 (List.mem_cons_of_mem _ he')
        fun heq => hlater (heq ▸ he')).congr hdirs

theorem files_sampleStores (hr : Resumes c d) {schemas : List Schema}
    (hapart : d.AllApart t schemas) (hmem : schema ∈ schemas) :
    d.files (d.sampleStores schemas false none t).tree schema.name = d.finished schema t :=
  (sampleStores_eq_sampleEach d schemas false none t).symm ▸
    files_sampleEach hr (.initial d.slots t) rfl hapart hmem

/-- Trees with the same files of a store agree in the places of these files. -/
theorem get?_eq_of_files {v : FileTree} (hu : FileTree.SameDirs t u) (hv : FileTree.SameDirs t v)
    (hfiles : c.files u store = c.files v store) {place : List String}
    (hplace : place ∈ c.outputs t store) : u.get? place = v.get? place := by
  obtain ⟨name, hsamples, hpartial⟩ := exists_endsIn c store
  rcases hplace with hplace | hplace
  · obtain ⟨dir, hdir, rfl⟩ := hsamples.leads hplace
    rw [← (hdir.congr hu).lookup_eq, ← (hdir.congr hv).lookup_eq]
    exact congrArg Files.samples hfiles
  · obtain ⟨dir, hdir, rfl⟩ := hpartial.leads hplace
    rw [← (hdir.congr hu).lookup_eq, ← (hdir.congr hv).lookup_eq]
    exact congrArg Files.unfinished hfiles

/-- Trees that came of one tree by runs over the same stores agree if they do on these stores. -/
theorem get?_eq_of_differsAt {v : FileTree} {schemas : List Schema}
    (hu : FileTree.DiffersAt t u {place | ∃ s ∈ schemas, place ∈ c.outputs t s.name})
    (hv : FileTree.DiffersAt t v {place | ∃ s ∈ schemas, place ∈ c.outputs t s.name})
    (hfiles : ∀ s ∈ schemas, c.files u s.name = c.files v s.name) (path : List String) :
    u.get? path = v.get? path := by
  by_cases hpath : ∃ s ∈ schemas, path ∈ c.outputs t s.name
  · obtain ⟨s, hs, hout⟩ := hpath
    exact get?_eq_of_files hu.sameDirs hv.sameDirs (hfiles s hs) hout
  · rw [hu.same path hpath, hv.same path hpath]

theorem Trail.has_samples {tried : List (Schema × Except Signal Outcome)} (h : c.Trail t tried u)
    (hs : t.has (c.samplesPath store) = true) : u.has (c.samplesPath store) = true := by
  induction h with
  | nil => exact hs
  | cons hfirst _ ih => exact ih (hfirst.has_samples hs)

/-- A store that was reported without a failure has samples from then on. -/
theorem Trail.has_samples_of_mem {tried : List (Schema × Except Signal Outcome)}
    (h : c.Trail t tried u) {outcome : Outcome} (he : (schema, .ok outcome) ∈ tried)
    (hok : outcome.status ≠ .failed) : u.has (c.samplesPath schema.name) = true := by
  induction h with
  | nil => exact absurd he List.not_mem_nil
  | cons hfirst hrest ih =>
    rcases List.mem_cons.1 he with heq | hlater
    · cases heq
      refine hrest.has_samples ?_
      rw [hfirst.has_samples_eq]
      exact decide_eq_true hok
    · exact ih hlater

theorem has_samples_of_reported {failFast : Bool} {cancelAt : Option Rat} {schemas : List Schema}
    {outcome : Outcome}
    (h : (c.sampleStores schemas failFast cancelAt t).report.outcomes.get? store = some outcome)
    (hok : outcome.status ≠ .failed) :
    (c.sampleStores schemas failFast cancelAt t).tree.has (c.samplesPath store) = true := by
  rw [sampleStores_eq_sampleEach] at h ⊢
  obtain ⟨a, ha, -⟩ := exists_account c failFast cancelAt schemas (.initial c.slots t) rfl
  rw [ha.report, outcomes_foldl_add] at h
  rcases OrderedMap.mem_of_get?_foldl_insert h with h | h
  · cases h
  · rw [List.map_map] at h
    obtain ⟨⟨schema, outcome'⟩, he, heq⟩ := List.mem_map.1 h
    obtain ⟨hstore, rfl⟩ := Prod.mk.inj heq
    have htried : (schema, .ok outcome') ∈ a.tried :=
      List.mem_append_left _ (List.mem_map.2 ⟨_, he, rfl⟩)
    rw [← hstore, ha.trail.store_eq htried]
    exact ha.trail.has_samples_of_mem htried hok

/-- A run that was cut off can be resumed. Take any run, however it ended, and after it one that no
failing fetch, no limit and no signal cuts off: it leaves what it would have left by itself, and
asks nothing more about the stores that have their samples from before. -/
theorem sampleStores_resume (hr : Resumes c d) (schemas : List Schema) (failFast : Bool)
    (cancelAt : Option Rat) (tree : FileTree) (hapart : c.AllApart tree schemas) :
    (∀ path, (d.sampleStores schemas false none
        (c.sampleStores schemas failFast cancelAt tree).tree).tree.get? path =
      (d.sampleStores schemas false none tree).tree.get? path) ∧
      ∀ store outcome, (c.sampleStores schemas failFast cancelAt tree).report.outcomes.get? store =
          some outcome → outcome.status ≠ .failed →
        ∀ call ∈ (d.sampleStores schemas false none
          (c.sampleStores schemas failFast cancelAt tree).tree).calls, call.store ≠ store := by
  constructor
  · -- both ways change the files of the stores at most, and finish each of them
    have hcut := differsAt_sampleStores c schemas failFast cancelAt tree
    have hresumed := differsAt_sampleStores d schemas false none
      (c.sampleStores schemas failFast cancelAt tree).tree
    have halone := differsAt_sampleStores d schemas false none tree
    simp only [hr.outputs, outputs_congr hcut.sameDirs] at hresumed halone
    refine get?_eq_of_differsAt (hcut.trans hresumed) halone fun s hs => ?_
    rw [← hr.files, ← hr.files, files_sampleStores hr (hr.allApart hapart) hs,
      files_sampleStores hr ((hr.allApart hapart).congr hcut.sameDirs) hs]
    exact finished_sampleStores hr hapart hs failFast cancelAt
  · intro store outcome hreported hok call hcall
    have hsamples := has_samples_of_reported hreported hok
    rw [← hr.samplesPath] at hsamples
    rw [sampleStores_eq_sampleEach] at hcall
    rcases calls_sampleEach false none schemas (.initial _ _) hsamples hcall with h | h
    · exact absurd h List.not_mem_nil
    · exact h

/-! A run cut off after one second, with one key refused and the second store still to come. -/

/-- The nodes of `unevenSource`, all of them answering. -/
def evenSource : Source where
  replicas _ _ := .ok [0, 1]
  fetch _ := .prompt 0 (.ok ["version(0:1) ts:7"])

def even : Census := ⟨evenSource, "in", "out", 1, none, by decide⟩

theorem resumes_uneven_even : Resumes uneven even := by
  refine ⟨rfl, rfl, rfl, fun _ _ _ => id, ?_, fun _ => ⟨_, rfl⟩, fun _ _ _ h => by cases h⟩
  intro q versions h
  change (unevenSource.fetch q).answer = .ok versions at h
  unfold unevenSource at h
  dsimp only at h
  split at h
  · cases h
  · exact h

theorem sampleStores_resume_uneven :
    Resumes uneven even ∧
      uneven.AllApart unevenTree [unevenSchema, ⟨"t", 1, Schema.consistentRouting⟩] ∧
      (uneven.sampleStores [unevenSchema, ⟨"t", 1, Schema.consistentRouting⟩] false (some 1)
        unevenTree).stopped = some (.cancelled true) ∧
      ∀ path, (even.sampleStores [unevenSchema, ⟨"t", 1, Schema.consistentRouting⟩] false none
          (uneven.sampleStores [unevenSchema, ⟨"t", 1, Schema.consistentRouting⟩] false (some 1)
            unevenTree).tree).tree.get? path =
        (even.sampleStores [unevenSchema, ⟨"t", 1, Schema.consistentRouting⟩] false none
          unevenTree).tree.get? path := by
  have hne : unevenTree.target? (uneven.samplesPath "s") ≠
      unevenTree.target? (uneven.samplesPath "t") := by decide +kernel
  have hapart : uneven.AllApart unevenTree
      [unevenSchema, ⟨"t", 1, Schema.consistentRouting⟩] := by
    intro s hs s' hs' hdiff place hplace hplace'
    have hsame := hplace.trans hplace'.symm
    simp only [List.mem_cons, List.not_mem_nil, or_false] at hs hs'
    rcases hs with rfl | rfl <;> rcases hs' with rfl | rfl
    · exact hdiff rfl
    · exact hne hsame
    · exact hne hsame.symm
    · exact hdiff rfl
  exact ⟨resumes_uneven_even, hapart, by decide +kernel,
    (sampleStores_resume resumes_uneven_even _ false (some 1) unevenTree hapart).1⟩

/-! Two different stores with one name share their samples, so that the second of them gets between
the first and its resumption. -/

/-- Stores of all nodes are on the nodes 0 and 1, others on the node 0. The node 1 answers if it is
`up`. -/
def pairSource (up : Bool) : Source where
  replicas schema _ := .ok (if schema.strategy = Schema.allRouting then [0, 1] else [0])
  fetch q :=
    if up = false ∧ q.node = 1 then .prompt 0 (.error (.raised "ConnectError" "connection refused"))
    else .prompt 0 (.ok [])

def pairCensus (up : Bool) : Census := ⟨pairSource up, "in", "out", 4, none, by decide⟩

def sharedSchemas : List Schema :=
  [⟨"x", 2, Schema.allRouting⟩, ⟨"x", 1, Schema.consistentRouting⟩]

def sharedTree : FileTree :=
  OrderedMap.ofList [(["in"], .dir), (["out"], .dir),
    (["in", "x.keys"], .file (Utf8.encode "61\n".toList))]

theorem resumes_pairCensus : Resumes (pairCensus false) (pairCensus true) := by
  refine ⟨rfl, rfl, rfl, fun _ _ _ => id, ?_, fun _ => ⟨[], rfl⟩, fun _ _ _ h => by cases h⟩
  intro q versions h
  change ((pairSource false).fetch q).answer = .ok versions at h
  unfold pairSource at h
  dsimp only at h
  split at h
  · cases h
  · exact h

theorem sampleStores_resume_shared :
    Resumes (pairCensus false) (pairCensus true) ∧
      ((pairCensus true).sampleStores sharedSchemas false none
        ((pairCensus false).sampleStores sharedSchemas false none sharedTree).tree).tree.get?
          ["out", "x.kvs"] = some (.file (Utf8.encode "0 : 61\t\n".toList)) ∧
      ((pairCensus true).sampleStores sharedSchemas false none sharedTree).tree.get?
        ["out", "x.kvs"] = some (.file (Utf8.encode "0 : 61\t\n1 : 61\t\n".toList)) :=
  ⟨resumes_pairCensus, by decide +kernel, by decide +kernel⟩

end Census

end ReplicaCensus
