import Mathlib
import ReplicaCensus.Proofs.Census.Fate
/-!
# The run of a store that is cancelled

A cancellation reaches a run while it waits for the task in front. Either that task is done at once,
or the run goes on with the fetch of that task being closed, and ends with its failure at the
latest. So a run that is cancelled is never complete.
-/

namespace ReplicaCensus.Schedule

/-! ## 1. The task in front -/

theorem not_isDone_of_drain {tasks rest : List Task} {t : Task} (h : (drain tasks).2.2 = none)
    (hfront : (drain tasks).2.1 = t :: rest) : t.isDone = false := by
  fun_induction drain tasks with
  | case1 => cases hfront
  | case2 u more block hphase blocks left failure hdrain ih =>
    rw [hdrain] at ih
    exact ih h hfront
  | case3 => cases h
  | case4 u more hok herror =>
    cases hfront
    unfold Task.isDone
    split
    · next result hphase =>
      cases result with
      | ok block => exact absurd hphase (hok block)
      | error f => exact absurd hphase (herror f)
    · rfl

/-- When a run is cancelled, the task in front is not done. -/
theorem front_of_cancelled {s : Setting} {cancelAt : Option Rat} {st mid : State}
    (h : run s cancelAt st = (mid, .cancelled)) :
    ∃ t rest, mid.tasks = t :: rest ∧ t.isDone = false := by
  fun_induction run s cancelAt st with
  | case1 st st' ending hstep =>
    obtain ⟨rfl, rfl⟩ := Prod.mk.inj h
    cases steps_of_step hstep with
    | @cancelled left time _ hn _ hw _ =>
      simp only [State.write, Prod.mk.injEq] at hw
      obtain ⟨rfl, hnone⟩ := hw
      -- something is still to happen, so a task is left
      have hnext := nextTime_drain hnone
      rw [hn] at hnext
      cases htasks : (drain (st.fill s).tasks).2.1 with
      | nil =>
        rw [htasks] at hnext
        cases hnext
      | cons t rest => exact ⟨t, rest, rfl, not_isDone_of_drain hnone htasks⟩
  | case2 st st' hstep ih => exact ih h

/-- What cancelling the task in front does, if the task is not done. -/
theorem cancelFront_cases (s : Setting) {st : State} {t : Task} {rest : List Task}
    (htasks : st.tasks = t :: rest) (ht : t.isDone = false) :
    (∃ f, (st.cancelFront s).2 = some (.failed f) ∧ (st.cancelFront s).1.tasks = rest) ∨
      ∃ r r' : Reading, t.phase = .reading r ∧ r'.closing.isSome = true ∧ st.now < r'.next ∧
        st.cancelFront s = ({ st with tasks := ⟨t.key, .reading r'⟩ :: rest }, none) := by
  unfold State.cancelFront
  rw [htasks]
  dsimp only
  rcases cancel_cases s st.now t with ⟨result, hphase, -⟩ | ⟨f, stray, h, -⟩ |
    ⟨r, r', hphase, h, hclosing, hnext⟩
  · rw [Task.isDone, hphase] at ht
    cases ht
  · rw [h]
    exact .inl ⟨f, rfl, rfl⟩
  · have hreading : t.isReading = true := by rw [Task.isReading, hphase]
    have hreturned : t.returned ⟨t.key, .reading r'⟩ = 0 := by
      rw [Task.returned, hreading]
      rfl
    rw [h, hreturned]
    refine .inr ⟨r, r', hphase, hclosing, hnext, ?_⟩
    rw [Nat.add_zero, Option.toList_none, List.append_nil]

theorem now_cancelFront (s : Setting) (st : State) : (st.cancelFront s).1.now = st.now := by
  unfold State.cancelFront
  split
  · rfl
  · dsimp only
    split <;> rfl

theorem blocks_cancelFront (s : Setting) (st : State) :
    (st.cancelFront s).1.blocks = st.blocks := by
  unfold State.cancelFront
  split
  · rfl
  · dsimp only
    split <;> rfl

theorem calls_cancelFront (s : Setting) (st : State) : (st.cancelFront s).1.calls = st.calls := by
  unfold State.cancelFront
  split
  · rfl
  · dsimp only
    split <;> rfl

theorem peak_cancelFront (s : Setting) (st : State) : (st.cancelFront s).1.peak = st.peak := by
  unfold State.cancelFront
  split
  · rfl
  · dsimp only
    split <;> rfl

/-! ## 2. The whole run -/

/-- How a run comes to its end, case by case: it is not cancelled, or the task in front is done at
once when it is, or the run goes on without that task. -/
inductive RunsOut (s : Setting) (cancelAt : Option Rat) (st : State) :
    State → Ending → Option Rat → Prop where
  | ends {last : State} {ending : Ending} (hrun : run s cancelAt st = (last, ending))
    (hne : ending ≠ .cancelled) : RunsOut s cancelAt st last ending cancelAt
  | stops {mid last : State} {t : Task} {rest : List Task} {f : Failure}
    (hrun : run s cancelAt st = (mid, .cancelled)) (htasks : mid.tasks = t :: rest)
    (ht : t.isDone = false) (hfront : mid.cancelFront s = (last, some (.failed f)))
    (hrest : last.tasks = rest) : RunsOut s cancelAt st last (.failed f) none
  | goesOn {mid last : State} {ending : Ending} {t : Task} {rest : List Task} {r r' : Reading}
    (hrun : run s cancelAt st = (mid, .cancelled)) (htasks : mid.tasks = t :: rest)
    (hphase : t.phase = .reading r) (hclosing : r'.closing.isSome = true)
    (hnext : mid.now < r'.next)
    (hfront : mid.cancelFront s = ({ mid with tasks := ⟨t.key, .reading r'⟩ :: rest }, none))
    (hlast : run s none { mid with tasks := ⟨t.key, .reading r'⟩ :: rest } = (last, ending)) :
    RunsOut s cancelAt st last ending none

theorem runsOut_runOut (s : Setting) (cancelAt : Option Rat) (st : State) :
    RunsOut s cancelAt st (runOut s cancelAt st).1 (runOut s cancelAt st).2.1
      (runOut s cancelAt st).2.2 := by
  unfold runOut
  split
  · next mid hmid =>
    obtain ⟨t, rest, htasks, ht⟩ := front_of_cancelled hmid
    rcases cancelFront_cases s htasks ht with ⟨f, hending, hrest⟩ |
      ⟨r, r', hphase, hclosing, hnext, hfront⟩
    · have hfront : mid.cancelFront s = ((mid.cancelFront s).1, some (.failed f)) :=
        Prod.ext rfl hending
      rw [hfront]
      exact .stops hmid htasks ht hfront hrest
    · rw [hfront]
      exact .goesOn hmid htasks hphase hclosing hnext hfront rfl
  · next last ending hne hlast =>
    refine .ends hlast ?_
    rintro rfl
    exact hne rfl

theorem run_none_ne_cancelled {s : Setting} {st : State} (hs : 0 < st.slots) :
    (run s none st).2 ≠ .cancelled := by
  intro h
  have haccounts := accounts_run s none hs
  rw [h] at haccounts
  exact haccounts rfl

/-- Without a cancellation there is only the run. -/
theorem runOut_none (s : Setting) {st : State} (hs : 0 < st.slots) :
    runOut s none st = ((run s none st).1, (run s none st).2, none) := by
  have hne := run_none_ne_cancelled (s := s) hs
  have hruns := runsOut_runOut s none st
  generalize hresult : runOut s none st = result at hruns
  obtain ⟨last, ending, pending⟩ := result
  cases hruns with
  | ends hrun => rw [hrun]
  | stops hrun => exact absurd (congrArg Prod.snd hrun) hne
  | goesOn hrun => exact absurd (congrArg Prod.snd hrun) hne

section

variable {s : Setting} {cancelAt pending : Option Rat} {st last : State} {ending : Ending}

theorem slots_of_cancelled {mid : State} (h : run s cancelAt st = (mid, .cancelled)) :
    mid.slots = st.slots := by
  have hslots := slots_run s cancelAt st
  rwa [h] at hslots

/-- A task whose fetch is being closed comes to no block. -/
theorem fate_of_isSome {t : Task} {r : Reading} (hphase : t.phase = .reading r)
    (h : r.closing.isSome = true) : ∃ f, Task.fate s t = .error f := by
  obtain ⟨f, hf⟩ := Option.isSome_iff_exists.1 h
  exact ⟨f, by rw [fate_of_reading s hphase, fate_closing s t.key hf]⟩

/-- A store whose run is complete has no task left. -/
theorem tasks_run_of_complete {s : Setting} {cancelAt : Option Rat} {st : State}
    (hs : 0 < st.slots) (h : (run s cancelAt st).2 = .complete) :
    (run s cancelAt st).1.tasks = [] := by
  fun_induction run s cancelAt st with
  | case1 st st' ending hstep =>
    obtain rfl : ending = .complete := h
    cases steps_of_step hstep with
    | complete _ hn hw =>
      have hnil := write_of_nextTime_none s hs hn (by rw [hw])
      rwa [hw] at hnil
  | case2 st st' hstep ih => exact ih (slots_step hstep ▸ hs) h

/-- A run that is complete has a block for each of its tasks, and was not cancelled. -/
theorem RunsOut.complete (h : RunsOut s cancelAt st last .complete pending) (hs : 0 < st.slots) :
    run s cancelAt st = (last, .complete) ∧ pending = cancelAt ∧ last.tasks = [] ∧
      st.fates s = last.blocks.map .ok := by
  cases h with
  | ends hrun =>
    have haccounts := accounts_run s cancelAt hs
    have htasks := @tasks_run_of_complete s cancelAt st hs (by rw [hrun])
    rw [hrun] at haccounts htasks
    exact ⟨hrun, rfl, htasks, haccounts⟩
  | @goesOn mid _ _ t rest r r' hrun htasks _ hclosing _ hfront hlast =>
    have hslots := slots_cancelFront s mid
    rw [hfront, slots_of_cancelled hrun] at hslots
    have haccounts := @accounts_run s none _ (hslots ▸ hs)
    rw [hlast] at haccounts
    -- the task in front has failed, which a complete run does not account for
    obtain ⟨f, hf⟩ := @fate_of_isSome s ⟨t.key, .reading r'⟩ r' rfl hclosing
    have hmem : Except.error f ∈ State.fates s
        { mid with tasks := ⟨t.key, .reading r'⟩ :: rest } :=
      List.mem_append_right _ (List.mem_cons.2 (.inl hf.symm))
    rw [show State.fates s { mid with tasks := ⟨t.key, .reading r'⟩ :: rest } =
      last.blocks.map .ok from haccounts] at hmem
    obtain ⟨block, -, hblock⟩ := List.mem_map.1 hmem
    cases hblock

/-- What is written are the blocks of the first tasks. -/
theorem blocks_run (s : Setting) (cancelAt : Option Rat) (st : State) :
    (run s cancelAt st).1.blocks.map .ok <+: st.fates s := by
  fun_induction run s cancelAt st with
  | case1 st st' ending hstep =>
    have hwrite : ∀ {mid : State} {failure}, (st.fill s).write = (mid, failure) →
        mid.blocks.map .ok <+: st.fates s := by
      intro mid failure hw
      have hfates := fates_write s (st.fill s)
      rw [fates_fill, hw] at hfates
      exact ⟨_, hfates.symm⟩
    cases steps_of_step hstep with
    | interrupted => exact ⟨_, rfl⟩
    | complete _ _ hw => exact hwrite hw
    | failed _ _ hw => exact hwrite hw
    | cancelled _ _ _ hw _ =>
      have hmid := hwrite hw
      exact hmid
  | case2 st st' hstep ih =>
    rw [← fates_step s cancelAt hstep]
    exact ih

/-- The task in front has failed when the run goes on without it, so no block is written then. -/
theorem RunsOut.blocks (h : RunsOut s cancelAt st last ending pending) :
    last.blocks.map .ok <+: st.fates s := by
  have hrun := blocks_run s cancelAt st
  cases h with
  | ends heq => rwa [heq] at hrun
  | @stops mid _ t rest f heq _ _ hfront _ =>
    have hblocks := blocks_cancelFront s mid
    rw [hfront] at hblocks
    rw [heq, ← hblocks] at hrun
    exact hrun
  | @goesOn mid _ _ t rest r r' heq _ _ hclosing _ _ hlast =>
    rw [heq] at hrun
    have hnext := blocks_run s none { mid with tasks := ⟨t.key, .reading r'⟩ :: rest }
    rw [hlast] at hnext
    obtain ⟨f, hf⟩ := @fate_of_isSome s ⟨t.key, .reading r'⟩ r' rfl hclosing
    have hfates : State.fates s { mid with tasks := ⟨t.key, .reading r'⟩ :: rest } =
        mid.blocks.map .ok ++ .error f :: rest.map (Task.fate s) :=
      congrArg (fun fate => mid.blocks.map .ok ++ fate :: rest.map (Task.fate s)) hf
    rw [hfates] at hnext
    dsimp only at hnext
    -- the blocks stand in front of the failure
    have hlength : last.blocks.length ≤ mid.blocks.length := by
      by_contra hmore
      rw [not_le] at hmore
      obtain ⟨more, hmore'⟩ := hnext
      have hget := congrArg (·[mid.blocks.length]?) hmore'
      simp [List.getElem?_append, hmore] at hget
    refine (List.prefix_of_prefix_length_le hnext (List.prefix_append _ _) ?_).trans hrun
    rw [List.length_map, List.length_map]
    exact hlength

end

/-! ## 3. Fetches that are left behind -/

theorem strays_step {s : Setting} {cancelAt : Option Rat} {st st' : State}
    {ending : Option Ending} (h : step s cancelAt st = (st', ending)) : st'.strays = st.strays := by
  have hwrite : ∀ {mid : State} {failure}, (st.fill s).write = (mid, failure) →
      mid.strays = st.strays := by
    intro mid failure hw
    obtain rfl : (st.fill s).write.1 = mid := by rw [hw]
    rfl
  cases steps_of_step h with
  | interrupted => rfl
  | complete _ _ hw => exact hwrite hw
  | failed _ _ hw => exact hwrite hw
  | happens => rfl
  | cancelled _ _ _ hw _ =>
    have hmid := hwrite hw
    exact hmid
  | passes _ _ _ hw _ =>
    have hmid := hwrite hw
    exact hmid

/-- No fetch is left behind while a store runs. -/
theorem strays_run (s : Setting) (cancelAt : Option Rat) (st : State) :
    (run s cancelAt st).1.strays = st.strays := by
  fun_induction run s cancelAt st with
  | case1 st st' ending hstep => exact strays_step hstep
  | case2 st st' hstep ih => rw [ih, strays_step hstep]

/-! ## 4. Cleaning up begins no fetch -/

/-- The task is done, or its fetch is being closed. -/
def Task.isEnding (t : Task) : Bool :=
  match t.phase with
  | .waiting => false
  | .reading r => r.closing.isSome
  | .done _ => true

theorem isEnding_cancel (s : Setting) (now : Rat) (t : Task) :
    (t.cancel s now).1.isEnding = true := by
  rcases cancel_cases s now t with ⟨result, hphase, h⟩ | ⟨f, stray, h, -⟩ | ⟨r, r', -, h, hclosing, -⟩
  · rw [h, Task.isEnding, hphase]
  · rw [h]
    rfl
  · rw [h]
    exact hclosing

theorem isEnding_cancelAll (s : Setting) (now : Rat) (tasks : List Task) :
    ∀ t ∈ (cancelAll s now tasks).1, t.isEnding = true := by
  induction tasks with
  | nil => exact fun t ht => absurd ht List.not_mem_nil
  | cons t rest ih => exact List.forall_mem_cons.2 ⟨isEnding_cancel s now t, ih⟩

/-- A fetch that is being closed is followed by no other. -/
theorem isEnding_fire (s : Setting) (now : Rat) {tasks : List Task}
    (h : ∀ t ∈ tasks, t.isEnding = true) :
    (∀ t ∈ (fire s now tasks).1, t.isEnding = true) ∧ (fire s now tasks).2.2 = [] := by
  fun_induction fire s now tasks with
  | case1 => exact ⟨h, rfl⟩
  | case2 t rest r hphase hnext phase calls hproceed =>
    obtain ⟨ht, hrest⟩ := List.forall_mem_cons.1 h
    rw [Task.isEnding, hphase] at ht
    obtain ⟨f, hf⟩ := Option.isSome_iff_exists.1 ht
    rw [proceed, hf] at hproceed
    cases hproceed
    exact ⟨List.forall_mem_cons.2 ⟨rfl, hrest⟩, rfl⟩
  | case3 t rest r hphase hnext rest' returned calls hfire ih =>
    obtain ⟨ht, hrest⟩ := List.forall_mem_cons.1 h
    rw [hfire] at ih
    obtain ⟨hrest', hcalls⟩ := ih hrest
    exact ⟨List.forall_mem_cons.2 ⟨ht, hrest'⟩, hcalls⟩
  | case4 t rest rest' returned calls hfire _ ih =>
    obtain ⟨ht, hrest⟩ := List.forall_mem_cons.1 h
    rw [hfire] at ih
    obtain ⟨hrest', hcalls⟩ := ih hrest
    exact ⟨List.forall_mem_cons.2 ⟨ht, hrest'⟩, hcalls⟩

theorem calls_unwind {s : Setting} {cancelAt : Option Rat} {st : State}
    (h : ∀ t ∈ st.tasks, t.isEnding = true) : (unwind s cancelAt st).1.calls = st.calls := by
  fun_induction unwind s cancelAt st with
  | case1 => rfl
  | case2 => rfl
  | case3 st time hn hc ih =>
    obtain ⟨htasks, hcalls⟩ := isEnding_fire s time h
    refine (ih htasks).trans ?_
    show st.calls ++ (fire s time st.tasks).2.2 = st.calls
    rw [hcalls, List.append_nil]

theorem calls_abort (s : Setting) (cancelAt : Option Rat) (st : State) :
    (st.abort s cancelAt).1.calls = st.calls := by
  have hfirst : (unwind s cancelAt (st.cancelAll s)).1.calls = st.calls :=
    calls_unwind (isEnding_cancelAll s st.now st.tasks)
  unfold State.abort
  split
  · next mid hmid =>
    rw [hmid] at hfirst
    exact (calls_unwind (isEnding_cancelAll s mid.now mid.tasks)).trans hfirst
  · next mid hmid =>
    rw [hmid] at hfirst
    exact hfirst

end ReplicaCensus.Schedule
