import Mathlib
import ReplicaCensus.Proofs.Census.Endings
/-!
# Sources whose fetches end at once when they are cancelled

Where no fetch takes time to end, cleaning up takes none, and nothing can come between. A run that
is cancelled ends at that moment, and leaves no fetch open.
-/

namespace ReplicaCensus

/-- A fetch that is cancelled ends at once, and with nothing but the cancellation. -/
structure Source.Prompt (source : Source) : Prop where
  delay : ∀ q n, ((source.fetch q).closing n).delay ≤ 0
  failure : ∀ q n, ((source.fetch q).closing n).failure = .cancelled

namespace Schedule

variable {s : Setting} {cancelAt : Option Rat}

/-! ## 1. Cancelling -/

theorem close_of_prompt (hs : s.source.Prompt) (now : Rat) (key : KeyLine) (r : Reading)
    (how : Failure → Failure) : close s now key r how = .done (.error (how .cancelled)) := by
  unfold close
  dsimp only
  rw [Setting.fetch, if_pos (hs.delay _ _), hs.failure]

/-- No fetch of the task is being closed. -/
def Task.isUnclosed (t : Task) : Bool :=
  match t.phase with
  | .reading r => r.closing.isNone
  | _ => true

theorem cancel_of_prompt (hs : s.source.Prompt) (now : Rat) (t : Task) (ht : t.isDone = false) :
    (t.cancel s now).1.phase = .done (.error .cancelled) := by
  unfold Task.cancel
  cases hphase : t.phase with
  | done result =>
    rw [Task.isDone, hphase] at ht
    cases ht
  | waiting => rfl
  | reading r =>
    dsimp only
    split
    · exact close_of_prompt hs now t.key r id
    · exact close_of_prompt hs now t.key r fun _ => .cancelled
    · rfl

theorem stray_of_isUnclosed (s : Setting) (now : Rat) {t : Task} (h : t.isUnclosed = true) :
    (t.cancel s now).2 = none := by
  rcases cancel_cases s now t with ⟨result, -, hc⟩ | ⟨f, stray, hc, hstray⟩ | ⟨r, r', -, hc, -⟩
  · rw [hc]
  · rw [hc]
    by_contra hne
    obtain ⟨-, r, hphase, hclosing, -⟩ := hstray hne
    rw [Task.isUnclosed, hphase] at h
    dsimp only at h
    rw [Option.isNone_eq_false_iff.2 hclosing] at h
    cases h
  · rw [hc]

theorem isReading_cancelAll (hs : s.source.Prompt) (now : Rat) (tasks : List Task) :
    ∀ t ∈ (cancelAll s now tasks).1, t.isReading = false := by
  induction tasks with
  | nil => exact fun t ht => absurd ht List.not_mem_nil
  | cons t rest ih =>
    show ∀ u ∈ (t.cancel s now).1 :: (cancelAll s now rest).1, u.isReading = false
    rw [List.forall_mem_cons]
    refine ⟨?_, ih⟩
    unfold Task.isReading
    cases hdone : t.isDone with
    | false => rw [cancel_of_prompt hs now t hdone]
    | true =>
      rcases cancel_cases s now t with ⟨result, hphase, hc⟩ | ⟨f, stray, hc, -⟩ |
        ⟨r, r', hphase, -⟩
      · rw [hc, hphase]
      · rw [hc]
      · rw [Task.isDone, hphase] at hdone
        cases hdone

theorem strays_cancelAll (s : Setting) (now : Rat) {tasks : List Task}
    (h : ∀ t ∈ tasks, t.isUnclosed = true) : (cancelAll s now tasks).2.2 = [] := by
  induction tasks with
  | nil => rfl
  | cons t rest ih =>
    obtain ⟨hfirst, hrest⟩ := List.forall_mem_cons.1 h
    show (t.cancel s now).2.toList ++ (cancelAll s now rest).2.2 = []
    rw [stray_of_isUnclosed s now hfirst, ih hrest]
    rfl

/-! ## 2. No fetch is ever being closed -/

theorem isUnclosed_start (s : Setting) (now : Rat) (key : KeyLine) :
    Task.isUnclosed ⟨key, (start s now key).1⟩ = true := by
  unfold start
  split
  · rfl
  split
  · rfl
  split <;> rfl

theorem isUnclosed_proceed (hs : s.source.Prompt) (key : KeyLine) (r : Reading) :
    Task.isUnclosed ⟨key, (proceed s key r).1⟩ = true := by
  unfold proceed
  split
  · rfl
  split
  · rw [close_of_prompt hs]
    rfl
  split
  · rfl
  · dsimp only
    split <;> rfl

theorem isUnclosed_grant (s : Setting) (now : Rat) (free : Nat) {tasks : List Task}
    (h : ∀ t ∈ tasks, t.isUnclosed = true) :
    ∀ t ∈ (grant s now free tasks).1, t.isUnclosed = true := by
  fun_induction grant s now free tasks with
  | case1 => exact h
  | case2 => exact h
  | case3 free t rest hphase phase calls hstart t' rest' left more hgrant ih =>
    rw [hgrant] at ih
    have hfirst := isUnclosed_start s now t.key
    rw [hstart] at hfirst
    exact List.forall_mem_cons.2 ⟨hfirst, ih (List.forall_mem_cons.1 h).2⟩
  | case4 free t rest rest' left calls hgrant _ ih =>
    rw [hgrant] at ih
    exact List.forall_mem_cons.2
      ⟨(List.forall_mem_cons.1 h).1, ih (List.forall_mem_cons.1 h).2⟩

theorem isUnclosed_fire (hs : s.source.Prompt) (now : Rat) {tasks : List Task}
    (h : ∀ t ∈ tasks, t.isUnclosed = true) :
    ∀ t ∈ (fire s now tasks).1, t.isUnclosed = true := by
  fun_induction fire s now tasks with
  | case1 => exact h
  | case2 t rest r hphase hnext phase calls hproceed t' =>
    have hfirst := isUnclosed_proceed hs t.key r
    rw [hproceed] at hfirst
    exact List.forall_mem_cons.2 ⟨hfirst, (List.forall_mem_cons.1 h).2⟩
  | case3 t rest r hphase hnext rest' returned calls hfire ih =>
    rw [hfire] at ih
    exact List.forall_mem_cons.2
      ⟨(List.forall_mem_cons.1 h).1, ih (List.forall_mem_cons.1 h).2⟩
  | case4 t rest rest' returned calls hfire _ ih =>
    rw [hfire] at ih
    exact List.forall_mem_cons.2
      ⟨(List.forall_mem_cons.1 h).1, ih (List.forall_mem_cons.1 h).2⟩

theorem drain_suffix (tasks : List Task) : (drain tasks).2.1 <:+ tasks := by
  fun_induction drain tasks with
  | case1 => exact List.suffix_refl _
  | case2 t rest block hphase blocks left failure hdrain ih =>
    rw [hdrain] at ih
    exact ih.trans (List.suffix_cons t rest)
  | case3 t rest f hphase => exact List.suffix_cons t rest
  | case4 => exact List.suffix_refl _

/-- No fetch is being closed, and none was left behind. -/
structure State.Unclosed (st : State) : Prop where
  tasks : ∀ t ∈ st.tasks, t.isUnclosed = true
  strays : st.strays = []

theorem unclosed_initial (now : Rat) (free : Nat) (keys : List KeyLine) :
    (State.initial now free keys).Unclosed where
  tasks t ht := by
    obtain ⟨key, -, rfl⟩ := List.mem_map.1 ht
    rfl
  strays := rfl

theorem unclosed_step (hs : s.source.Prompt) {st st' : State} {ending : Option Ending}
    (h : step s cancelAt st = (st', ending)) (hst : st.Unclosed) : st'.Unclosed := by
  have hstrays := (strays_step h).trans hst.strays
  have hfill := isUnclosed_grant s st.now st.free hst.tasks
  have hwrite : ∀ {mid : State} {failure}, (st.fill s).write = (mid, failure) →
      ∀ t ∈ mid.tasks, t.isUnclosed = true := by
    intro mid failure hw t ht
    obtain rfl : (st.fill s).write.1 = mid := by rw [hw]
    exact hfill t ((drain_suffix _).subset ht)
  refine ⟨?_, hstrays⟩
  cases steps_of_step h with
  | interrupted => exact hst.tasks
  | complete _ _ hw => exact hwrite hw
  | failed _ _ hw => exact hwrite hw
  | happens => exact isUnclosed_fire hs _ hfill
  | cancelled _ _ _ hw _ =>
    have hmid := hwrite hw
    exact hmid
  | passes _ _ _ hw _ => exact isUnclosed_fire hs _ (hwrite hw)

theorem unclosed_run (hs : s.source.Prompt) (cancelAt : Option Rat) {st : State}
    (hst : st.Unclosed) : (run s cancelAt st).1.Unclosed := by
  fun_induction run s cancelAt st with
  | case1 st st' ending hstep => exact unclosed_step hs hstep hst
  | case2 st st' hstep ih => exact ih (unclosed_step hs hstep hst)

/-! ## 3. The run of a store -/

theorem cancelFront_of_prompt (hs : s.source.Prompt) {st : State} {t : Task} {rest : List Task}
    (htasks : st.tasks = t :: rest) (ht : t.isDone = false) :
    (st.cancelFront s).2 = some (.failed .cancelled) := by
  unfold State.cancelFront
  rw [htasks]
  dsimp only
  rw [cancel_of_prompt hs st.now t ht]

theorem unclosed_cancelFront (hs : s.source.Prompt) {st : State} (hst : st.Unclosed) :
    (st.cancelFront s).1.Unclosed := by
  unfold State.cancelFront
  split
  · exact hst
  · next t rest htasks =>
    have hall := hst.tasks
    rw [htasks, List.forall_mem_cons] at hall
    have hstrays : st.strays ++ (t.cancel s st.now).2.toList = [] := by
      rw [hst.strays, stray_of_isUnclosed s st.now hall.1]
      rfl
    dsimp only
    split
    · exact ⟨hall.2, hstrays⟩
    · refine ⟨List.forall_mem_cons.2 ⟨?_, hall.2⟩, hstrays⟩
      have hnone := isReading_cancelAll hs st.now [t] (t.cancel s st.now).1 List.mem_cons_self
      unfold Task.isReading at hnone
      unfold Task.isUnclosed
      split
      · next r hphase =>
        rw [hphase] at hnone
        cases hnone
      · rfl

/-- A run that is cancelled ends with that. -/
theorem RunsOut.of_prompt {st last : State} {ending : Ending} {pending : Option Rat}
    (h : RunsOut s cancelAt st last ending pending) (hs : s.source.Prompt) :
    run s cancelAt st = (last, ending) ∧ ending ≠ .cancelled ∧ pending = cancelAt ∨
      ∃ mid, run s cancelAt st = (mid, .cancelled) ∧ last = (mid.cancelFront s).1 ∧
        ending = .failed .cancelled ∧ pending = none := by
  cases h with
  | ends hrun hne => exact .inl ⟨hrun, hne, rfl⟩
  | @stops mid _ t rest f hrun htasks ht hfront hrest =>
    have hcancelled := cancelFront_of_prompt hs htasks ht
    rw [hfront, Option.some.injEq] at hcancelled
    exact .inr ⟨mid, hrun, by rw [hfront], hcancelled, rfl⟩
  | @goesOn mid _ _ t rest r r' hrun htasks hphase _ _ hfront _ =>
    have ht : t.isDone = false := by rw [Task.isDone, hphase]
    have hcancelled := cancelFront_of_prompt hs htasks ht
    rw [hfront] at hcancelled
    cases hcancelled

theorem RunsOut.unclosed {st last : State} {ending : Ending} {pending : Option Rat}
    (h : RunsOut s cancelAt st last ending pending) (hs : s.source.Prompt) (hst : st.Unclosed) :
    last.Unclosed := by
  have hrun := unclosed_run hs cancelAt hst
  rcases h.of_prompt hs with ⟨heq, -⟩ | ⟨mid, heq, rfl, -⟩
  · rwa [heq] at hrun
  · rw [heq] at hrun
    exact unclosed_cancelFront hs hrun

theorem nextTime_of_isReading {tasks : List Task} (h : ∀ t ∈ tasks, t.isReading = false) :
    nextTime tasks = none := by
  induction tasks with
  | nil => rfl
  | cons t rest ih =>
    obtain ⟨hfirst, hrest⟩ := List.forall_mem_cons.1 h
    unfold Task.isReading at hfirst
    unfold nextTime
    rw [ih hrest]
    cases hphase : t.phase with
    | reading r =>
      rw [hphase] at hfirst
      cases hfirst
    | waiting => rfl
    | done result => rfl

/-- Nothing has to be waited for. -/
theorem abort_of_prompt (hs : s.source.Prompt) (cancelAt : Option Rat) (st : State) :
    st.abort s cancelAt = (st.cancelAll s, false) := by
  have hnext : nextTime (st.cancelAll s).tasks = none :=
    nextTime_of_isReading (isReading_cancelAll hs st.now st.tasks)
  have hdone : unwind s cancelAt (st.cancelAll s) = (st.cancelAll s, false) := by
    unfold unwind
    split
    · rfl
    · next time htime =>
      rw [hnext] at htime
      cases htime
  unfold State.abort
  rw [hdone]

end Schedule

namespace Census

variable {c : Census} {schema : Schema} {tree : FileTree} {cancelAt : Option Rat}

/-- Whatever ends a run before its time, no time passes then, and no cancellation comes. -/
theorem aborted_of_prompt (hs : c.source.Prompt) (schema : Schema)
    (verdict : Except Signal Outcome) (tree : FileTree) (st : Schedule.State)
    (cancelAt : Option Rat) :
    c.aborted schema verdict tree st cancelAt =
      ⟨verdict, c.discard schema.name tree, callsBefore st.now st.calls, st.now, st.now, st.peak,
        (st.cancelAll (c.setting schema)).free, (st.cancelAll (c.setting schema)).openUntil,
        cancelAt⟩ := by
  have hs' : (c.setting schema).source.Prompt := hs
  rw [aborted, Schedule.abort_of_prompt hs']
  rfl

theorem ended_conclude (hs : c.source.Prompt) (schema : Schema) (tree : FileTree)
    (st : Schedule.State) (cancelAt : Option Rat) (ending : Schedule.Ending) :
    (c.conclude schema tree st cancelAt ending).ended = st.now := by
  have hs' : (c.setting schema).source.Prompt := hs
  rcases c.conclude_cases schema tree st cancelAt ending with
    ⟨-, published, hend⟩ | ⟨left, -, -, hcleaned⟩
  · rw [hend]
  · rw [hcleaned.ended, Schedule.abort_of_prompt hs']
    rfl

/-- A store with an outcome leaves the cancellation to the next. -/
theorem cancelAt_conclude (hs : c.source.Prompt) {st : Schedule.State} {ending : Schedule.Ending}
    {outcome : Outcome} (h : (c.conclude schema tree st cancelAt ending).verdict = .ok outcome) :
    (c.conclude schema tree st cancelAt ending).cancelAt = cancelAt := by
  unfold conclude at h ⊢
  split
  · split
    · rfl
    · rw [aborted_of_prompt hs]
  · rw [aborted_of_prompt hs]
  · rw [aborted_of_prompt hs]
  · rw [aborted_of_prompt hs]
  · dsimp only at h
    split at h
    · dsimp only at h
      rw [aborted_of_prompt hs] at h
      cases h
    · rw [aborted_of_prompt hs] at h
      cases h

end Census

end ReplicaCensus
