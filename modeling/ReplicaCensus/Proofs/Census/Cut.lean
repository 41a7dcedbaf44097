import Mathlib
import ReplicaCensus.Proofs.Census.AllOrNothing
import ReplicaCensus.Proofs.Census.Interruption
import ReplicaCensus.Proofs.Census.Slots
/-!
# A cancellation cuts a run

Where fetches end at once when they are cancelled, a run that is cancelled between two moments at
which something happens is the run that is not cancelled, up to there: the stores that ended before
are what they are, one store is broken off, and no other store is tried. Where fetches take their
time to end, the cancellation may come while a store is cleaned up, whose temporary file stays then.
-/

namespace ReplicaCensus

open Census (callsBefore callsBefore_append callsBefore_of_early callsBefore_of_late)

namespace Schedule

/-! ## 1. The keys of a store -/

theorem step_of_steps {s : Setting} {cancelAt : Option Rat} {st st' : State}
    {ending : Option Ending} (h : Steps s cancelAt st st' ending) :
    step s cancelAt st = (st', ending) := by
  unfold step
  cases h with
  | interrupted hi => rw [if_pos hi]
  | complete hi hn hw => simp only [hi, hn, hw, Bool.false_eq_true, if_false]
  | failed hi hn hw =>
    cases hnext : nextTime (st.fill s).tasks with
    | none => simp only [hi, hnext, hw, Bool.false_eq_true, if_false]
    | some time => simp only [hi, hnext, hn time hnext, hw, Bool.false_eq_true, if_false]
  | happens hi hn hle => simp only [hi, hn, hle, Bool.false_eq_true, if_false, if_true]
  | cancelled hi hn hlt hw hc =>
    simp only [hi, hn, hlt, hw, hc, Bool.false_eq_true, if_false, if_true]
  | passes hi hn hlt hw hc => simp only [hi, hn, hlt, hw, hc, Bool.false_eq_true, if_false]

/-- The times at which something happens in a run that is not cancelled, the first of them being
its beginning and the last its end. -/
def moments (s : Setting) (st : State) : List Rat :=
  st.now ::
    match _h : step s none st with
    | (_, some _) => []
    | (st', none) => moments s st'
termination_by work s st.tasks
decreasing_by exact work_step_lt s none _h

theorem now_mem_moments (s : Setting) (st : State) : st.now ∈ moments s st := by
  rw [moments]
  exact List.mem_cons_self

/-- A run that was cancelled at some time, beside the same run that was not. -/
structure CutOff (time : Rat) (full cut : State) : Prop where
  lt : time < full.now
  now_eq : cut.now = time
  calls : cut.calls = callsBefore time full.calls

/-- An event that comes before a time comes also if the run is cancelled then; before one that comes
later the run is cut off. -/
theorem step_cut {s : Setting} {time : Rat} {st st' : State} {ending : Option Ending}
    (h : Timely st) (hnow : st.now < time) (hne : ending = none → st'.now ≠ time)
    (hstep : step s none st = (st', ending)) :
    (st'.now < time ∧ step s (some time) st = (st', ending)) ∨
      (time < st'.now ∧ ending = none ∧
        ∃ cut, step s (some time) st = (cut, some .cancelled) ∧ cut.now = time ∧
          (∀ call ∈ cut.calls, call.time < time) ∧
          ∃ more, st'.calls = cut.calls ++ more ∧ ∀ call ∈ more, time ≤ call.time) := by
  have hfill := goesOn_fill s h
  cases steps_of_step hstep with
  | interrupted hi => exact .inl ⟨hnow, step_of_steps (.interrupted hi)⟩
  | complete hi hn hw =>
    have hsame := (goesOn_of_write hfill.timely hw).2.1
    exact .inl ⟨hsame ▸ hnow, step_of_steps (.complete hi hn hw)⟩
  | failed hi hn hw =>
    have hsame := (goesOn_of_write hfill.timely hw).2.1
    exact .inl ⟨hsame ▸ hnow, step_of_steps (.failed hi hn hw)⟩
  | happens hi hn hle => exact .inl ⟨hnow, step_of_steps (.happens hi hn hle)⟩
  | cancelled _ _ _ _ hc => cases hc
  | @passes mid next hi hn hlt hw hc =>
    obtain ⟨hmid, hsame, hlater⟩ := goesOn_of_write hfill.timely hw
    -- the time passes from before the cancellation to before it, or to behind it
    rcases lt_or_gt_of_ne (hne rfl) with hbefore | hbehind
    · refine .inl ⟨hbefore, step_of_steps (.passes hi hn hlt hw ?_)⟩
      exact decide_eq_false (not_le.2 hbefore)
    · have hmidnow : mid.now < time := hsame ▸ hnow
      have hcut : cancelTime mid.now (some time) = time := if_pos hmidnow.le
      have hfirst : comesFirst (some time) next = true := decide_eq_true hbehind.le
      refine .inr ⟨hbehind, rfl, _, step_of_steps (.cancelled hi hn hlt hw hfirst), hcut, ?_, ?_⟩
      · exact fun call hcall => (hmid.timely.calls_le call hcall).trans_lt hmidnow
      · refine ⟨_, rfl, fun call hcall => ?_⟩
        rw [(later_fire (hlater next hn)).2 call hcall]
        exact hbehind.le

/-- A run that is cancelled at a time at which nothing else happens is the run that is not, or the
part of it that comes before. -/
theorem run_cut {s : Setting} {time : Rat} {st : State} (h : Timely st) (hnow : st.now < time)
    (hfree : time ∉ moments s st) :
    ((run s none st).1.now < time ∧ run s (some time) st = run s none st) ∨
      ((run s (some time) st).2 = .cancelled ∧
        CutOff time (run s none st).1 (run s (some time) st).1) := by
  fun_induction run s none st with
  | case1 st st' ending hstep =>
    rcases step_cut h hnow (fun hnone => by cases hnone) hstep with ⟨hlt, hcut⟩ | ⟨-, hnone, -⟩
    · left
      rw [run, hcut]
      exact ⟨hlt, rfl⟩
    · cases hnone
  | case2 st st' hstep ih =>
    rw [moments, hstep, List.mem_cons, not_or] at hfree
    have hnext := goesOn_step h hstep
    have hne : st'.now ≠ time := fun heq => hfree.2 (heq ▸ now_mem_moments s st')
    rcases step_cut h hnow (fun _ => hne) hstep with
      ⟨hlt, hcut⟩ | ⟨hlt, -, cut, hcut, hcutnow, hbefore, hmore⟩
    · have hrun : run s (some time) st = run s (some time) st' := by
        rw [run, hcut]
      rw [hrun]
      exact ih hnext.timely hlt hfree.2
    · right
      have hrun : run s (some time) st = (cut, .cancelled) := by
        rw [run, hcut]
      have hrest : GoesOn st' (run s none st').1 := goesOn_run hnext.timely
      obtain ⟨more, hcalls, hlate⟩ := hmore
      obtain ⟨rest, hrestcalls, hrestlate⟩ := hrest.calls
      rw [hrun]
      refine ⟨rfl, hlt.trans_le hrest.now_le, hcutnow, ?_⟩
      rw [hrestcalls, hcalls, callsBefore_append, callsBefore_append, callsBefore_of_early hbefore,
        callsBefore_of_late hlate,
        callsBefore_of_late fun call hcall => hlt.le.trans (hrestlate call hcall),
        List.append_nil, List.append_nil]

end Schedule

namespace Census

/-! ## 2. One store -/

/-- The times at which something happens in the run of a store, from its beginning to its end. Of
its cleaning up only the end counts. -/
def storeMoments (c : Census) (schema : Schema) (now : Rat) (tree : FileTree) : List Rat :=
  match c.keys? schema tree with
  | some keys =>
    Schedule.moments (c.setting schema) (.initial now c.slots keys) ++
      [(c.sampleStore schema now none tree).ended]
  | none => [now]

/-- The run of a store, but for the cancellation that is still to come. -/
def StoreRun.plain (r : StoreRun) : StoreRun := { r with cancelAt := none }

theorem Run.after_plain (run : Run) (r : StoreRun) : run.after r.plain = run.after r := rfl

theorem StoreRun.verdict_plain (r : StoreRun) : r.plain.verdict = r.verdict := rfl

theorem StoreRun.calls_plain (r : StoreRun) : r.plain.calls = r.calls := rfl

/-- The run of a store that was cancelled, beside the run of the store that was not. -/
structure CutStore (c : Census) (time : Rat) (schema : Schema) (now : Rat) (tree : FileTree) :
    Prop where
  lt : time < (c.sampleStore schema now none tree).ended
  verdict : (c.sampleStore schema now (some time) tree).verdict = .error (.cancelled true)
  ended : (c.sampleStore schema now (some time) tree).ended = time
  calls : (c.sampleStore schema now (some time) tree).calls =
    callsBefore time (c.sampleStore schema now none tree).calls
  fetches : c.storeFetches schema now (some time) tree =
    callsBefore time (c.storeFetches schema now none tree)

variable {c : Census} {time : Rat}

theorem now_mem_storeMoments (c : Census) (schema : Schema) (now : Rat) (tree : FileTree) :
    now ∈ c.storeMoments schema now tree := by
  unfold storeMoments
  split
  · exact List.mem_append_left _ (Schedule.now_mem_moments _ _)
  · exact List.mem_cons_self

/-- A run that has ended is concluded in the same way, whatever cancellation is still to come. -/
theorem plain_conclude (hs : c.source.Prompt) (schema : Schema) (opened : FileTree)
    (st : Schedule.State) (ending : Schedule.Ending) (cancelAt cancelAt' : Option Rat) :
    (c.conclude schema opened st cancelAt ending).plain =
      (c.conclude schema opened st cancelAt' ending).plain := by
  have hcut : ∀ verdict opened, (c.aborted schema verdict opened st cancelAt).plain =
      (c.aborted schema verdict opened st cancelAt').plain := by
    intro verdict opened
    rw [aborted_of_prompt hs, aborted_of_prompt hs]
    rfl
  unfold conclude
  split
  · split
    · rfl
    · exact hcut _ _
  · exact hcut _ _
  · exact hcut _ _
  · exact hcut _ _
  · rfl

/-- A store is done with its keys when it ends. -/
theorem halted_sampleStore (hs : c.source.Prompt) (schema : Schema) (now : Rat)
    (cancelAt : Option Rat) (tree : FileTree) :
    (c.sampleStore schema now cancelAt tree).halted =
      (c.sampleStore schema now cancelAt tree).ended := by
  rcases c.sampleStore_cases schema now cancelAt tree with ⟨outcome, u, hidle⟩ |
    ⟨keys, opened, st, ending, pending, -, hrun, hconclude⟩
  · rw [hidle]
    rfl
  · have htimely := timely_runOut c schema now cancelAt keys
    rw [hrun] at htimely
    rw [hconclude, (halted_conclude htimely schema opened pending ending).1, ended_conclude hs]

/-- A store whose keys are cut off is cut off itself. -/
theorem cutStore_of_keys (hs : c.source.Prompt) {schema : Schema} {now : Rat} {tree : FileTree}
    {keys : List KeyLine} (hkeys : c.keys? schema tree = some keys)
    (hcancelled : (Schedule.run (c.setting schema) (some time) (.initial now c.slots keys)).2 =
      .cancelled)
    (hcut : Schedule.CutOff time
      (Schedule.run (c.setting schema) none (.initial now c.slots keys)).1
      (Schedule.run (c.setting schema) (some time) (.initial now c.slots keys)).1) :
    CutStore c time schema now tree := by
  obtain ⟨opened, hopened⟩ := sampleStore_of_keys hkeys
  have hs' : (c.setting schema).source.Prompt := hs
  have hwhole := Schedule.runOut_none (c.setting schema) (slots_pos_initial c.slots_pos now keys)
  have hruns := Schedule.runsOut_runOut (c.setting schema) (some time) (.initial now c.slots keys)
  -- the task in front is done at once, and the store with it
  obtain ⟨last, hlast, hnow, hcalls⟩ : ∃ last : Schedule.State,
      (∃ pending, Schedule.runOut (c.setting schema) (some time) (.initial now c.slots keys) =
        (last, .failed .cancelled, pending)) ∧
      last.now = time ∧ last.calls = callsBefore time
        (Schedule.run (c.setting schema) none (.initial now c.slots keys)).1.calls := by
    rcases hruns.of_prompt hs' with ⟨hrun, hne, -⟩ | ⟨mid, hmid, hlast, hending, -⟩
    · rw [hrun] at hcancelled
      exact absurd hcancelled hne
    · rw [hmid] at hcut
      refine ⟨_, ⟨_, Prod.ext hlast (Prod.ext hending rfl)⟩, ?_, ?_⟩
      · rw [Schedule.now_cancelFront, hcut.now_eq]
      · rw [Schedule.calls_cancelFront, hcut.calls]
  obtain ⟨pending, hout⟩ := hlast
  have hend := hopened now (some time)
  dsimp only at hend
  rw [hout] at hend
  dsimp only at hend
  rw [conclude, aborted_of_prompt hs, hnow] at hend
  have hlt : time < (c.sampleStore schema now none tree).ended := by
    rw [hopened, hwhole]
    dsimp only
    rw [ended_conclude hs]
    exact hcut.lt
  have hfetches : c.storeFetches schema now (some time) tree =
      callsBefore time (c.storeFetches schema now none tree) := by
    rw [storeFetches_of_keys hkeys, storeFetches_of_keys hkeys, hout, hwhole]
    exact hcalls
  refine ⟨hlt, by rw [hend], by rw [hend], ?_, hfetches⟩
  -- all that was begun counts, for nothing was begun at the cancellation itself
  have hall : (c.sampleStore schema now (some time) tree).calls =
      callsBefore time (c.storeFetches schema now none tree) := by
    rw [hend, hcalls, callsBefore_callsBefore le_rfl, storeFetches_of_keys hkeys, hwhole]
  rw [hall]
  rcases calls_sampleStore c schema now none tree with hevery | hbefore
  · rw [hevery]
  · rw [hbefore, halted_sampleStore hs, callsBefore_callsBefore hlt.le]

theorem sampleStore_cut (hs : c.source.Prompt) {schema : Schema} {now : Rat} {tree : FileTree}
    (hnow : now < time) (hfree : time ∉ c.storeMoments schema now tree) :
    ((c.sampleStore schema now none tree).ended < time ∧
        (c.sampleStore schema now (some time) tree).plain =
          (c.sampleStore schema now none tree).plain ∧
        c.storeFetches schema now (some time) tree = c.storeFetches schema now none tree) ∨
      CutStore c time schema now tree := by
  cases hkeys : c.keys? schema tree with
  | none =>
    obtain ⟨outcome, left, -, hidle⟩ := sampleStore_of_idle hkeys
    rw [hidle, hidle, storeFetches_of_idle hkeys, storeFetches_of_idle hkeys]
    exact .inl ⟨hnow, rfl, rfl⟩
  | some keys =>
    rw [storeMoments, hkeys, List.mem_append, not_or] at hfree
    rcases Schedule.run_cut (Schedule.timely_initial now c.slots keys) hnow hfree.1 with
      ⟨hlt, hsame⟩ | ⟨hcancelled, hcut⟩
    · left
      obtain ⟨opened, hopened⟩ := sampleStore_of_keys hkeys
      have hpos := slots_pos_initial c.slots_pos now keys
      have hs' : (c.setting schema).source.Prompt := hs
      have hwhole := Schedule.runOut_none (c.setting schema) hpos
      have hruns := Schedule.runsOut_runOut (c.setting schema) (some time)
        (.initial now c.slots keys)
      rcases hruns.of_prompt hs' with ⟨hrun, -, -⟩ | ⟨mid, hmid, -⟩
      · rw [hsame] at hrun
        obtain ⟨hst, hending⟩ := Prod.mk.inj hrun
        rw [storeFetches_of_keys hkeys, storeFetches_of_keys hkeys, hopened, hopened, hwhole]
        dsimp only
        rw [ended_conclude hs, ← hst, ← hending]
        exact ⟨hlt, plain_conclude hs _ _ _ _ _ _, rfl⟩
      · rw [hsame] at hmid
        exact absurd (congrArg Prod.snd hmid) (Schedule.run_none_ne_cancelled hpos)
    · exact .inr (cutStore_of_keys hs hkeys hcancelled hcut)

/-- A store that is cancelled leaves what it found, without its temporary file. -/
theorem CutStore.tree_eq {schema : Schema} {now : Rat} {tree : FileTree}
    (h : CutStore c time schema now tree) :
    (∃ place, tree.target? (c.partialPath schema.name) = some place ∧
        (c.sampleStore schema now (some time) tree).tree = tree.erase place) ∧
      (c.sampleStore schema now (some time) tree).tree.has (c.partialPath schema.name) = false := by
  have hends := ends_sampleStore c schema now (some time) tree
  rw [h.verdict] at hends
  generalize (c.sampleStore schema now (some time) tree).tree = left at hends
  cases hends with
  | @stopped keys opened dir name _ hbegun _ =>
    refine ⟨⟨_, hbegun.files.output.unfinished.target?_eq, rfl⟩, ?_⟩
    exact hbegun.files.noPartial ([], some .cancelled)
  | broken _ hdirty _ => cases hdirty

/-! ## 3. The stores of a run -/

/-- A store whose turn has come, the run up to there, and the cancellation that is still to come. -/
structure Turn where
  schema : Schema
  run : Run
  cancelAt : Option Rat

namespace Turn

def result (c : Census) (t : Turn) : StoreRun :=
  c.sampleStore t.schema t.run.now t.cancelAt t.run.tree

def fetches (c : Census) (t : Turn) : List Call :=
  c.storeFetches t.schema t.run.now t.cancelAt t.run.tree

/-- The run behind a store that came to an outcome. -/
def next (c : Census) (t : Turn) (outcome : Outcome) : Run :=
  { t.run.after (t.result c) with report := t.run.report.add outcome }

/-- The same turn, with another cancellation to come. -/
def facing (t : Turn) (cancelAt : Option Rat) : Turn := { t with cancelAt := cancelAt }

theorem now_next (c : Census) (t : Turn) (outcome : Outcome) :
    (t.next c outcome).now = (t.result c).ended := rfl

theorem between (c : Census) (t : Turn) :
    t.run.now ≤ (t.result c).ended ∧
      ∀ call ∈ t.fetches c, t.run.now ≤ call.time ∧ call.time ≤ (t.result c).ended := by
  obtain ⟨hbegan, hended, hcalls⟩ :=
    storeFetches_between c t.schema t.run.now t.cancelAt t.run.tree
  exact ⟨hbegan.trans hended, fun call hcall =>
    ⟨(hcalls call hcall).1, (hcalls call hcall).2.trans hended⟩⟩

end Turn

/-- The stores that are tried in a run, in their order. -/
def turns (c : Census) (failFast : Bool) (cancelAt : Option Rat) : List Schema → Run → List Turn
  | [], _ => []
  | schema :: rest, run =>
    let turn : Turn := ⟨schema, run, cancelAt⟩
    turn ::
      match (turn.result c).verdict with
      | .error _ => []
      | .ok outcome =>
        if failFast && !outcome.ok then []
        else turns c failFast (turn.result c).cancelAt rest (turn.next c outcome)

/-- The times at which something happens in a run that is not cancelled. -/
def moments (c : Census) (schemas : List Schema) (failFast : Bool) (tree : FileTree) : List Rat :=
  (c.turns failFast none schemas (.initial c.slots tree)).flatMap fun t =>
    c.storeMoments t.schema t.run.now t.run.tree

/-- The stores that are tried in a run that is not cancelled, and when their runs end. -/
def endings (c : Census) (schemas : List Schema) (failFast : Bool) (tree : FileTree) :
    List (Schema × Rat) :=
  (c.turns failFast none schemas (.initial c.slots tree)).map fun t =>
    (t.schema, (t.result c).ended)

/-- All fetches that are begun in a run, also those of the last moment of a store. -/
def fetches (c : Census) (schemas : List Schema) (failFast : Bool) (cancelAt : Option Rat)
    (tree : FileTree) : List Call :=
  (c.turns failFast cancelAt schemas (.initial c.slots tree)).flatMap (Turn.fetches c)

section

variable {failFast : Bool} {cancelAt : Option Rat} {schema : Schema} {run : Run}

/-- A signal is the end of a run. -/
theorem sampleEach_of_signal {signal : Signal}
    (h : (Turn.result c ⟨schema, run, cancelAt⟩).verdict = .error signal) (rest : List Schema) :
    c.sampleEach failFast cancelAt (schema :: rest) run =
        { run.after (Turn.result c ⟨schema, run, cancelAt⟩) with stopped := some signal } ∧
      c.turns failFast cancelAt (schema :: rest) run = [⟨schema, run, cancelAt⟩] := by
  rw [sampleEach, turns]
  dsimp only [Turn.result] at h ⊢
  rw [h]
  exact ⟨rfl, rfl⟩

/-- So may be a store that failed. -/
theorem sampleEach_of_last {outcome : Outcome}
    (h : (Turn.result c ⟨schema, run, cancelAt⟩).verdict = .ok outcome)
    (hlast : (failFast && !outcome.ok) = true) (rest : List Schema) :
    c.sampleEach failFast cancelAt (schema :: rest) run =
        Turn.next c ⟨schema, run, cancelAt⟩ outcome ∧
      c.turns failFast cancelAt (schema :: rest) run = [⟨schema, run, cancelAt⟩] := by
  rw [sampleEach, turns]
  dsimp only [Turn.result] at h ⊢
  rw [h]
  dsimp only
  rw [if_pos hlast, if_pos hlast]
  exact ⟨rfl, rfl⟩

/-- Behind any other store the run goes on. -/
theorem sampleEach_of_more {outcome : Outcome}
    (h : (Turn.result c ⟨schema, run, cancelAt⟩).verdict = .ok outcome)
    (hmore : (failFast && !outcome.ok) = false) (rest : List Schema) :
    let pending := (Turn.result c ⟨schema, run, cancelAt⟩).cancelAt
    c.sampleEach failFast cancelAt (schema :: rest) run =
        c.sampleEach failFast pending rest (Turn.next c ⟨schema, run, cancelAt⟩ outcome) ∧
      c.turns failFast cancelAt (schema :: rest) run =
        ⟨schema, run, cancelAt⟩ ::
          c.turns failFast pending rest (Turn.next c ⟨schema, run, cancelAt⟩ outcome) := by
  rw [sampleEach, turns]
  dsimp only [Turn.result] at h ⊢
  rw [h]
  dsimp only
  rw [if_neg (Bool.eq_false_iff.1 hmore), if_neg (Bool.eq_false_iff.1 hmore)]
  exact ⟨rfl, rfl⟩

theorem calls_sampleEach_eq (c : Census) (failFast : Bool) (cancelAt : Option Rat)
    (schemas : List Schema) (run : Run) :
    (c.sampleEach failFast cancelAt schemas run).calls =
      run.calls ++ (c.turns failFast cancelAt schemas run).flatMap fun t => (t.result c).calls := by
  induction schemas generalizing cancelAt run with
  | nil => exact (List.append_nil _).symm
  | cons schema rest ih =>
    cases hverdict : (Turn.result c ⟨schema, run, cancelAt⟩).verdict with
    | error signal =>
      obtain ⟨hrun, hturns⟩ := @sampleEach_of_signal c failFast _ schema run _ hverdict rest
      rw [hrun, hturns, List.flatMap_singleton]
      rfl
    | ok outcome =>
      cases hlast : failFast && !outcome.ok with
      | true =>
        obtain ⟨hrun, hturns⟩ := sampleEach_of_last hverdict hlast rest
        rw [hrun, hturns, List.flatMap_singleton]
        rfl
      | false =>
        obtain ⟨hrun, hturns⟩ := sampleEach_of_more hverdict hlast rest
        rw [hrun, hturns, ih, List.flatMap_cons, ← List.append_assoc]
        rfl

/-- A store is tried behind another one that came to an outcome. -/
theorem of_mem_tail_turns {rest : List Schema} {t : Turn}
    (h : t ∈ (c.turns failFast cancelAt (schema :: rest) run).tail) :
    ∃ outcome, t ∈ c.turns failFast (Turn.result c ⟨schema, run, cancelAt⟩).cancelAt rest
      (Turn.next c ⟨schema, run, cancelAt⟩ outcome) := by
  rw [turns, List.tail_cons] at h
  split at h
  · exact absurd h List.not_mem_nil
  · split at h
    · exact absurd h List.not_mem_nil
    · exact ⟨_, h⟩

/-- Time goes on from one store to the next. -/
theorem le_now_of_mem_turns {schemas : List Schema} {t : Turn}
    (h : t ∈ c.turns failFast cancelAt schemas run) : run.now ≤ t.run.now := by
  induction schemas generalizing cancelAt run with
  | nil => exact absurd h List.not_mem_nil
  | cons schema rest ih =>
    have hcons : c.turns failFast cancelAt (schema :: rest) run =
        ⟨schema, run, cancelAt⟩ :: (c.turns failFast cancelAt (schema :: rest) run).tail := by
      rw [turns, List.tail_cons]
    rw [hcons, List.mem_cons] at h
    rcases h with rfl | hlater
    · exact le_rfl
    · obtain ⟨outcome, ht⟩ := of_mem_tail_turns hlater
      have hnext := ih ht
      rw [Turn.now_next] at hnext
      exact (Turn.between c ⟨schema, run, cancelAt⟩).1.trans hnext

/-! ## 4. The cut -/

/-- A run over several stores that was cancelled at some time, beside the one that was not: the
stores whose runs end before are what they are, one is broken off, and no other is tried. -/
structure CutRun (c : Census) (failFast : Bool) (time : Rat) (schemas : List Schema) (run : Run)
    (done : List Turn) (broken : Turn) (later : List Turn) (untried : List Schema) : Prop where
  stores : schemas = done.map Turn.schema ++ broken.schema :: untried
  turns : c.turns failFast none schemas run = done ++ broken :: later
  turns_cut : c.turns failFast (some time) schemas run =
    (done ++ [broken]).map fun t => t.facing (some time)
  before : ∀ t ∈ done, (t.result c).ended < time ∧
    ((t.facing (some time)).result c).plain = (t.result c).plain ∧
    (t.facing (some time)).fetches c = t.fetches c
  cut : CutStore c time broken.schema broken.run.now broken.run.tree
  whole : broken.cancelAt = none
  after : ∀ t ∈ later, time < t.run.now
  run_done : c.sampleEach failFast none (done.map Turn.schema) run = broken.run
  run_from : c.sampleEach failFast none schemas run =
    c.sampleEach failFast none (broken.schema :: untried) broken.run
  run_cut : c.sampleEach failFast (some time) schemas run =
    { broken.run.after ((broken.facing (some time)).result c) with
      stopped := some (.cancelled true) }

/-- A store that ends before the cancellation stands in front of the cut. -/
theorem CutRun.cons (hs : c.source.Prompt) {outcome : Outcome} {schemas untried : List Schema}
    {done later : List Turn} {broken : Turn}
    (hended : (Turn.result c ⟨schema, run, none⟩).ended < time)
    (hsame : (Turn.result c ⟨schema, run, some time⟩).plain =
      (Turn.result c ⟨schema, run, none⟩).plain)
    (hfetches : Turn.fetches c ⟨schema, run, some time⟩ = Turn.fetches c ⟨schema, run, none⟩)
    (hverdict : (Turn.result c ⟨schema, run, none⟩).verdict = .ok outcome)
    (hmore : (failFast && !outcome.ok) = false)
    (h : CutRun c failFast time schemas (Turn.next c ⟨schema, run, none⟩ outcome) done broken later
      untried) :
    CutRun c failFast time (schema :: schemas) run (⟨schema, run, none⟩ :: done) broken later
      untried := by
  have hafter : run.after (Turn.result c ⟨schema, run, some time⟩) =
      run.after (Turn.result c ⟨schema, run, none⟩) := by
    rw [← Run.after_plain, hsame, Run.after_plain]
  have hnext : Turn.next c ⟨schema, run, some time⟩ outcome =
      Turn.next c ⟨schema, run, none⟩ outcome := by
    rw [Turn.next, Turn.next, hafter]
  have hverdict' : (Turn.result c ⟨schema, run, some time⟩).verdict = .ok outcome := by
    rw [← StoreRun.verdict_plain, hsame, StoreRun.verdict_plain]
    exact hverdict
  have hnone : (Turn.result c ⟨schema, run, none⟩).cancelAt = none :=
    cancelAt_sampleStore_none c schema run.now run.tree
  have hpending : (Turn.result c ⟨schema, run, some time⟩).cancelAt = some time :=
    (ended_sampleStore hs hverdict').2
  obtain ⟨hrun, hturns⟩ := sampleEach_of_more hverdict hmore schemas
  obtain ⟨hrun', hturns'⟩ := sampleEach_of_more hverdict' hmore schemas
  rw [hnone] at hrun hturns
  rw [hpending, hnext] at hrun' hturns'
  constructor
  · rw [h.stores]
    rfl
  · rw [hturns, h.turns]
    rfl
  · rw [hturns', h.turns_cut]
    rfl
  · exact List.forall_mem_cons.2 ⟨⟨hended, hsame, hfetches⟩, h.before⟩
  · exact h.cut
  · exact h.whole
  · exact h.after
  · have hfirst := (sampleEach_of_more hverdict hmore (done.map Turn.schema)).1
    rw [hnone] at hfirst
    rw [List.map_cons, hfirst]
    exact h.run_done
  · rw [hrun]
    exact h.run_from
  · rw [hrun']
    exact h.run_cut

/-- A store that is running at the cancellation is where the run is cut. -/
theorem cutRun_of_cutStore (h : CutStore c time schema run.now run.tree) (rest : List Schema) :
    CutRun c failFast time (schema :: rest) run [] ⟨schema, run, none⟩
      (c.turns failFast none (schema :: rest) run).tail rest := by
  obtain ⟨hrun, hturns⟩ := @sampleEach_of_signal c failFast (some time) schema run _ h.verdict rest
  constructor
  · rfl
  · rw [turns]
    rfl
  · exact hturns
  · exact fun t ht => absurd ht List.not_mem_nil
  · exact h
  · rfl
  · intro t ht
    obtain ⟨outcome, hlater⟩ := of_mem_tail_turns ht
    have hnext := le_now_of_mem_turns hlater
    rw [Turn.now_next] at hnext
    exact h.lt.trans_le hnext
  · rfl
  · rfl
  · exact hrun

theorem exists_cutRun (hs : c.source.Prompt) {schemas : List Schema} (hnow : run.now < time)
    (hfree : ∀ t ∈ c.turns failFast none schemas run,
      time ∉ c.storeMoments t.schema t.run.now t.run.tree)
    (hlast : time < (c.sampleEach failFast none schemas run).now) :
    ∃ done broken later untried,
      CutRun c failFast time schemas run done broken later untried := by
  induction schemas generalizing run with
  | nil => exact absurd hlast (not_lt.2 hnow.le)
  | cons schema rest ih =>
    have hfirst : time ∉ c.storeMoments schema run.now run.tree :=
      hfree ⟨schema, run, none⟩ (by rw [turns]; exact List.mem_cons_self)
    rcases sampleStore_cut hs hnow hfirst with ⟨hended, hsame, hfetches⟩ | hcut
    · -- the run is not over with this store, since it goes on beyond the cancellation
      cases hverdict : (Turn.result c ⟨schema, run, none⟩).verdict with
      | error signal =>
        rw [(sampleEach_of_signal hverdict rest).1] at hlast
        exact absurd hlast (not_lt.2 hended.le)
      | ok outcome =>
        cases hmore : failFast && !outcome.ok with
        | true =>
          rw [(sampleEach_of_last hverdict hmore rest).1] at hlast
          exact absurd hlast (not_lt.2 hended.le)
        | false =>
          have hnone : (Turn.result c ⟨schema, run, none⟩).cancelAt = none :=
            cancelAt_sampleStore_none c schema run.now run.tree
          obtain ⟨hrun, hturns⟩ := sampleEach_of_more hverdict hmore rest
          rw [hnone] at hrun hturns
          rw [hrun] at hlast
          rw [hturns, List.forall_mem_cons] at hfree
          obtain ⟨done, broken, later, untried, h⟩ :=
            @ih (Turn.next c ⟨schema, run, none⟩ outcome) hended hfree.2 hlast
          exact ⟨_, broken, later, untried, h.cons hs hended hsame hfetches hverdict hmore⟩
    · exact ⟨_, _, _, _, cutRun_of_cutStore hcut rest⟩

/-- What is begun in a run that is cut off is what is begun before in the one that is not. -/
theorem CutRun.flatMap_eq {schemas untried : List Schema} {done later : List Turn} {broken : Turn}
    (h : CutRun c failFast time schemas run done broken later untried) (calls : Turn → List Call)
    (hbetween : ∀ t, ∀ call ∈ calls t, t.run.now ≤ call.time ∧ call.time ≤ (t.result c).ended)
    (hdone : ∀ t ∈ done, calls (t.facing (some time)) = calls t)
    (hcut : calls (broken.facing (some time)) = callsBefore time (calls broken)) :
    (c.turns failFast (some time) schemas run).flatMap calls =
      callsBefore time ((c.turns failFast none schemas run).flatMap calls) := by
  have hfront : (done.map fun t => t.facing (some time)).flatMap calls = done.flatMap calls := by
    rw [List.flatMap_def, List.flatMap_def, List.map_map]
    exact congrArg List.flatten (List.map_congr_left hdone)
  have hearly : ∀ call ∈ done.flatMap calls, call.time < time := by
    intro call hcall
    obtain ⟨t, ht, hmem⟩ := List.mem_flatMap.1 hcall
    exact (hbetween t call hmem).2.trans_lt (h.before t ht).1
  have hlate : ∀ call ∈ later.flatMap calls, time ≤ call.time := by
    intro call hcall
    obtain ⟨t, ht, hmem⟩ := List.mem_flatMap.1 hcall
    exact (h.after t ht).le.trans (hbetween t call hmem).1
  rw [h.turns_cut, h.turns, List.map_append, List.flatMap_append, List.flatMap_append, hfront,
    List.map_singleton, List.flatMap_singleton, List.flatMap_cons, callsBefore_append,
    callsBefore_append, callsBefore_of_early hearly, callsBefore_of_late hlate, List.append_nil,
    hcut]

/-- The stores whose runs end before the cancellation are those in front of the cut. -/
theorem CutRun.map_done {schemas untried : List Schema} {tree : FileTree} {done later : List Turn}
    {broken : Turn}
    (h : CutRun c failFast time schemas (.initial c.slots tree) done broken later untried) :
    ((c.endings schemas failFast tree).filter fun e => e.2 < time).map Prod.fst =
      done.map Turn.schema := by
  have hdone : (done.map fun t => (t.schema, (t.result c).ended)).filter
      (fun e => e.2 < time) = done.map fun t => (t.schema, (t.result c).ended) := by
    refine List.filter_eq_self.2 fun e he => decide_eq_true ?_
    obtain ⟨t, ht, rfl⟩ := List.mem_map.1 he
    exact (h.before t ht).1
  have hbroken : (broken.result c).ended =
      (c.sampleStore broken.schema broken.run.now none broken.run.tree).ended := by
    rw [Turn.result, h.whole]
  have hrest : ((broken :: later).map fun t => (t.schema, (t.result c).ended)).filter
      (fun e => e.2 < time) = [] := by
    refine List.filter_eq_nil_iff.2 fun e he => ?_
    obtain ⟨t, ht, rfl⟩ := List.mem_map.1 he
    rw [decide_eq_true_eq, not_lt]
    rcases List.mem_cons.1 ht with rfl | hlater
    · rw [hbroken]
      exact h.cut.lt.le
    · exact (h.after t hlater).le.trans (Turn.between c t).1
  rw [endings, h.turns, List.map_append, List.filter_append, hdone, hrest, List.append_nil,
    List.map_map]
  rfl

/-- No fetch is open when a run is over. -/
theorem openFetches_sampleStores (hs : c.source.Prompt) (schemas : List Schema) (failFast : Bool)
    (cancelAt : Option Rat) (tree : FileTree) :
    (c.sampleStores schemas failFast cancelAt tree).openFetches = 0 := by
  obtain ⟨m, -, -, -, hopen, -, hnone⟩ :=
    @seen_sampleFrom c failFast cancelAt schemas (.initial c.slots tree) rfl 0 le_rfl
      (Nat.zero_le _)
  rw [hnone (.inr hs)] at hopen
  exact Nat.le_zero.1 (List.countP_le_length.trans hopen)

end

theorem unevenSource_prompt : unevenSource.Prompt := by
  constructor
  · intro q n
    unfold unevenSource
    dsimp only
    split <;> exact le_rfl
  · intro q n
    unfold unevenSource
    dsimp only
    split <;> rfl

end Census

end ReplicaCensus
