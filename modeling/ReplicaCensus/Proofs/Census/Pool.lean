import Mathlib
import ReplicaCensus.Census.Cleanup
/-!
# No slot is lost

A slot is free, or a task with an open fetch holds it. Whatever happens in the run of a store, and
also while it is cleaned up, the number of slots stays what it was. When a store has been cleaned up
none of its tasks has a fetch open, so all slots are free again.
-/

namespace ReplicaCensus.Schedule

/-! ## 1. One task -/

/-- A task that gets its slot is done at once, or has its first fetch open. -/
theorem start_cases (s : Setting) (now : Rat) (key : KeyLine) :
    (∃ result, start s now key = (.done result, [])) ∨
      ∃ r : Reading, start s now key = (.reading r, [⟨now, s.schema.name, r.node, key.2⟩]) := by
  unfold start
  split
  · exact .inl ⟨_, rfl⟩
  · split
    · exact .inl ⟨_, rfl⟩
    · split
      · exact .inl ⟨_, rfl⟩
      · exact .inl ⟨_, rfl⟩
      · exact .inr ⟨_, rfl⟩

/-- A fetch that is cancelled takes its time to end, or none. -/
theorem close_cases (s : Setting) (now : Rat) (key : KeyLine) (r : Reading)
    (how : Failure → Failure) :
    let closing := (s.fetch key r.answers.length r.node).closing r.cancels
    (closing.delay ≤ 0 ∧ close s now key r how = .done (.error (how closing.failure))) ∨
      (0 < closing.delay ∧ close s now key r how =
        .reading ⟨r.node, r.rest, r.answers, now + closing.delay, none, some (how closing.failure),
          r.cancels + 1⟩) := by
  unfold close
  dsimp only
  split
  · next h => exact .inl ⟨h, rfl⟩
  · next h => exact .inr ⟨not_le.1 h, rfl⟩

/-- A task that proceeds is done, or its fetch is being closed, or it has one answer more and its
next fetch open. -/
theorem proceed_cases (s : Setting) (key : KeyLine) (r : Reading) :
    (∃ result, proceed s key r = (.done result, [])) ∨
      (∃ r' : Reading, proceed s key r = (.reading r', []) ∧ r'.answers = r.answers ∧
        r'.closing.isSome = true) ∨
      ∃ r' : Reading, proceed s key r = (.reading r', [⟨r.due, s.schema.name, r'.node, key.2⟩]) ∧
        r'.answers.length = r.answers.length + 1 := by
  unfold proceed
  split
  · exact .inl ⟨_, rfl⟩
  · split
    · rcases close_cases s r.next key r .afterTimeout with ⟨-, h⟩ | ⟨-, h⟩
      · exact .inl ⟨_, congrArg (·, []) h⟩
      · exact .inr (.inl ⟨_, congrArg (·, []) h, rfl, rfl⟩)
    · split
      · exact .inl ⟨_, rfl⟩
      · dsimp only
        split
        · exact .inl ⟨_, rfl⟩
        · exact .inr (.inr ⟨_, rfl, List.length_append⟩)

/-- A task that is cancelled was done before, is done then, or waits for its fetch to end. -/
theorem cancel_cases (s : Setting) (now : Rat) (t : Task) :
    (∃ result, t.phase = .done result ∧ t.cancel s now = (t, none)) ∨
      (∃ f stray, t.cancel s now = (⟨t.key, .done (.error f)⟩, stray) ∧
        (stray ≠ none → s.limit ≠ none ∧ ∃ r : Reading, t.phase = .reading r ∧
          r.closing.isSome = true ∧ stray = some r.due)) ∨
      ∃ r r' : Reading, t.phase = .reading r ∧ t.cancel s now = (⟨t.key, .reading r'⟩, none) ∧
        r'.closing.isSome = true ∧ now < r'.next := by
  have hclose : ∀ (r : Reading) (how : Failure → Failure),
      (∃ f, close s now t.key r how = .done (.error f)) ∨
        ∃ r' : Reading, close s now t.key r how = .reading r' ∧ r'.closing.isSome = true ∧
          now < r'.next := by
    intro r how
    rcases close_cases s now t.key r how with ⟨-, h⟩ | ⟨hpos, h⟩
    · exact .inl ⟨_, h⟩
    · exact .inr ⟨_, h, rfl, lt_add_of_pos_right now hpos⟩
  unfold Task.cancel
  cases hphase : t.phase with
  | done result => exact .inl ⟨result, rfl, rfl⟩
  | waiting => exact .inr (.inl ⟨.cancelled, none, rfl, fun h => absurd rfl h⟩)
  | reading r =>
    dsimp only
    split
    · rcases hclose r id with ⟨f, h⟩ | ⟨r', h, hclosing, hnext⟩
      · exact .inr (.inl ⟨f, none, by rw [h], fun hne => absurd rfl hne⟩)
      · exact .inr (.inr ⟨r, r', rfl, by rw [h], hclosing, hnext⟩)
    · rcases hclose r fun _ => .cancelled with ⟨f, h⟩ | ⟨r', h, hclosing, hnext⟩
      · exact .inr (.inl ⟨f, none, by rw [h], fun hne => absurd rfl hne⟩)
      · exact .inr (.inr ⟨r, r', rfl, by rw [h], hclosing, hnext⟩)
    · next hlimit hclosing =>
      refine .inr (.inl ⟨.cancelled, some r.due, rfl, fun _ => ⟨?_, r, rfl, ?_, rfl⟩⟩)
      · rw [hlimit]
        exact Option.some_ne_none _
      · rw [hclosing]
        rfl

/-! ## 2. All tasks -/

theorem nextTime_eq_none {tasks : List Task} (h : nextTime tasks = none) :
    ∀ t ∈ tasks, t.isReading = false := by
  induction tasks with
  | nil => exact fun t ht => absurd ht List.not_mem_nil
  | cons t rest ih =>
    rw [List.forall_mem_cons]
    unfold nextTime at h
    unfold Task.isReading
    cases hp : t.phase with
    | reading r =>
      rw [hp] at h
      cases hn : nextTime rest <;> simp [hn] at h
    | waiting => rw [hp] at h; exact ⟨rfl, ih h⟩
    | done result => rw [hp] at h; exact ⟨rfl, ih h⟩

theorem openFetches_cons (t : Task) (rest : List Task) :
    openFetches (t :: rest) = openFetches rest + if t.isReading then 1 else 0 := List.countP_cons

theorem openFetches_eq_zero {tasks : List Task} (h : ∀ t ∈ tasks, t.isReading = false) :
    openFetches tasks = 0 :=
  List.countP_eq_zero.2 fun t ht => by rw [h t ht]; exact Bool.false_ne_true

/-- The slots that are left and those that are held are as many as before. -/
theorem slots_grant (s : Setting) (now : Rat) (free : Nat) (tasks : List Task) :
    (grant s now free tasks).2.1 + openFetches (grant s now free tasks).1 =
      free + openFetches tasks := by
  fun_induction grant s now free tasks with
  | case1 => rfl
  | case2 => rfl
  | case3 free t rest hphase phase calls hstart t' rest' left more hgrant ih =>
    -- a waiting task holds no slot before it is started
    have ht : t.isReading = false := by rw [Task.isReading, hphase]
    rw [hgrant] at ih
    dsimp only at ih ⊢
    rw [openFetches_cons, openFetches_cons, ht]
    cases hreads : t'.isReading with
    | true =>
      rw [hreads, if_pos rfl] at ih
      simp only [if_true, Bool.false_eq_true, if_false]
      omega
    | false =>
      rw [hreads, if_neg Bool.false_ne_true] at ih
      simp only [Bool.false_eq_true, if_false]
      omega
  | case4 free t rest rest' left calls hgrant _ ih =>
    rw [hgrant] at ih
    dsimp only at ih ⊢
    rw [openFetches_cons, openFetches_cons]
    omega

/-- A slot that is returned was held. -/
theorem slots_fire (s : Setting) (now : Rat) (tasks : List Task) :
    (fire s now tasks).2.1 + openFetches (fire s now tasks).1 = openFetches tasks := by
  fun_induction fire s now tasks with
  | case1 => rfl
  | case2 t rest r hphase hnext phase calls hproceed t' =>
    have ht : t.isReading = true := by rw [Task.isReading, hphase]
    dsimp only
    rw [openFetches_cons, openFetches_cons, ht]
    cases t'.isReading with
    | true =>
      simp only [if_true]
      omega
    | false =>
      simp only [if_true, Bool.false_eq_true, if_false]
      omega
  | case3 t rest r hphase hnext rest' returned calls hfire ih =>
    rw [hfire] at ih
    dsimp only at ih ⊢
    rw [openFetches_cons, openFetches_cons]
    omega
  | case4 t rest rest' returned calls hfire _ ih =>
    rw [hfire] at ih
    dsimp only at ih ⊢
    rw [openFetches_cons, openFetches_cons]
    omega

theorem openFetches_drain (tasks : List Task) :
    openFetches (drain tasks).2.1 = openFetches tasks := by
  have hdone : ∀ {t : Task} {result} (rest : List Task), t.phase = .done result →
      openFetches (t :: rest) = openFetches rest := by
    intro t result rest hphase
    rw [openFetches_cons, Task.isReading, hphase]
    rfl
  fun_induction drain tasks with
  | case1 => rfl
  | case2 t rest block hphase blocks left failure hdrain ih =>
    rw [hdrain] at ih
    rw [hdone rest hphase]
    exact ih
  | case3 t rest f hphase => exact (hdone rest hphase).symm
  | case4 => rfl

theorem returned_cancel (s : Setting) (now : Rat) (t : Task) :
    t.returned (t.cancel s now).1 + (if (t.cancel s now).1.isReading then 1 else 0) =
      if t.isReading then 1 else 0 := by
  rcases cancel_cases s now t with ⟨result, hphase, h⟩ | ⟨f, stray, h, -⟩ | ⟨r, r', hphase, h, -⟩
  · rw [h, Task.returned]
    cases t.isReading <;> rfl
  · have hdone : (⟨t.key, .done (.error f)⟩ : Task).isReading = false := rfl
    rw [h, Task.returned, hdone, Bool.not_false, Bool.and_true]
    rfl
  · have hreading : t.isReading = true := by rw [Task.isReading, hphase]
    have hreading' : (⟨t.key, .reading r'⟩ : Task).isReading = true := rfl
    rw [h, Task.returned, hreading, hreading']
    rfl

theorem slots_cancelAll (s : Setting) (now : Rat) (tasks : List Task) :
    (cancelAll s now tasks).2.1 + openFetches (cancelAll s now tasks).1 = openFetches tasks := by
  induction tasks with
  | nil => rfl
  | cons t rest ih =>
    have hfirst := returned_cancel s now t
    show t.returned (t.cancel s now).1 + (cancelAll s now rest).2.1 +
      openFetches ((t.cancel s now).1 :: (cancelAll s now rest).1) = _
    rw [openFetches_cons, openFetches_cons]
    omega

/-! ## 3. The states of a store -/

/-- All slots, free or held. -/
def State.slots (st : State) : Nat := st.free + openFetches st.tasks

theorem slots_initial (now : Rat) (free : Nat) (keys : List KeyLine) :
    (State.initial now free keys).slots = free := by
  have hnone : openFetches (State.initial now free keys).tasks = 0 := by
    refine openFetches_eq_zero fun t ht => ?_
    obtain ⟨key, -, rfl⟩ := List.mem_map.1 ht
    rfl
  rw [State.slots, hnone]
  rfl

theorem slots_fill (s : Setting) (st : State) : (st.fill s).slots = st.slots :=
  slots_grant s st.now st.free st.tasks

theorem slots_fireAt (s : Setting) (time : Rat) (st : State) :
    (st.fireAt s time).slots = st.slots := by
  show st.free + (fire s time st.tasks).2.1 + openFetches (fire s time st.tasks).1 = _
  rw [Nat.add_assoc, slots_fire]
  rfl

theorem slots_write {st st' : State} {failure : Option Failure} (h : st.write = (st', failure)) :
    st'.slots = st.slots := by
  obtain rfl : st.write.1 = st' := by rw [h]
  exact congrArg (st.free + ·) (openFetches_drain st.tasks)

theorem slots_cancelAll_state (s : Setting) (st : State) : (st.cancelAll s).slots = st.slots := by
  show st.free + (cancelAll s st.now st.tasks).2.1 + openFetches (cancelAll s st.now st.tasks).1 = _
  rw [Nat.add_assoc, slots_cancelAll]
  rfl

theorem slots_step {s : Setting} {cancelAt : Option Rat} {st st' : State} {ending : Option Ending}
    (h : step s cancelAt st = (st', ending)) : st'.slots = st.slots := by
  have hfill := slots_fill s st
  cases steps_of_step h with
  | interrupted => rfl
  | complete _ _ hw => rw [slots_write hw, hfill]
  | failed _ _ hw => rw [slots_write hw, hfill]
  | happens => rw [slots_fireAt, hfill]
  | cancelled _ _ _ hw _ => exact (slots_write hw).trans hfill
  | passes _ _ _ hw _ => rw [slots_fireAt, slots_write hw, hfill]

theorem slots_run (s : Setting) (cancelAt : Option Rat) (st : State) :
    (run s cancelAt st).1.slots = st.slots := by
  fun_induction run s cancelAt st with
  | case1 st st' ending hstep => exact slots_step hstep
  | case2 st st' hstep ih => rw [ih, slots_step hstep]

theorem slots_cancelFront (s : Setting) (st : State) : (st.cancelFront s).1.slots = st.slots := by
  unfold State.cancelFront
  split
  · rfl
  · next t rest htasks =>
    have hreturned := returned_cancel s st.now t
    have hslots : st.slots = st.free + (openFetches rest + if t.isReading then 1 else 0) := by
      rw [State.slots, htasks, openFetches_cons]
    dsimp only
    split
    · next f hphase =>
      rw [Task.isReading, hphase] at hreturned
      show st.free + t.returned (t.cancel s st.now).1 + openFetches rest = _
      simp only [Bool.false_eq_true, if_false] at hreturned
      omega
    · show st.free + t.returned (t.cancel s st.now).1 +
        openFetches ((t.cancel s st.now).1 :: rest) = _
      rw [openFetches_cons]
      omega

theorem slots_runOut (s : Setting) (cancelAt : Option Rat) (st : State) :
    (runOut s cancelAt st).1.slots = st.slots := by
  have hrun := slots_run s cancelAt st
  unfold runOut
  split
  · next mid hmid =>
    rw [hmid] at hrun
    have hfront := slots_cancelFront s mid
    split
    · next last ending hlast =>
      rw [hlast] at hfront
      exact hfront.trans hrun
    · next next hnext =>
      rw [hnext] at hfront
      exact (slots_run s none next).trans (hfront.trans hrun)
  · next hmid =>
    rw [hmid] at hrun
    exact hrun

/-! ## 4. Cleaning up -/

theorem slots_unwind (s : Setting) (cancelAt : Option Rat) (st : State) :
    (unwind s cancelAt st).1.slots = st.slots := by
  fun_induction unwind s cancelAt st with
  | case1 => rfl
  | case2 => rfl
  | case3 st time hn hc ih => rw [ih, slots_fireAt]

/-- Unless a cancellation comes, all fetches end. -/
theorem openFetches_unwind {s : Setting} {cancelAt : Option Rat} {st : State}
    (h : (unwind s cancelAt st).2 = false) : openFetches (unwind s cancelAt st).1.tasks = 0 := by
  fun_induction unwind s cancelAt st with
  | case1 st hn => exact openFetches_eq_zero (nextTime_eq_none hn)
  | case2 => cases h
  | case3 st time hn hc ih => exact ih h

theorem unwind_none (s : Setting) (st : State) : (unwind s none st).2 = false := by
  generalize hc : (none : Option Rat) = cancelAt
  fun_induction unwind s cancelAt st with
  | case1 => rfl
  | case2 st time hn hcomes =>
    rw [← hc] at hcomes
    cases hcomes
  | case3 st time hn hcomes ih => exact ih

theorem abort_none (s : Setting) (st : State) : (st.abort s none).2 = false := by
  have hnone := unwind_none s (st.cancelAll s)
  unfold State.abort
  split
  · next mid hmid =>
    rw [hmid] at hnone
    cases hnone
  · rfl

/-- Whatever comes meanwhile, a store is cleaned up when no task has a fetch open. -/
theorem abort_spec (s : Setting) (cancelAt : Option Rat) (st : State) :
    openFetches (st.abort s cancelAt).1.tasks = 0 ∧ (st.abort s cancelAt).1.slots = st.slots := by
  have hfirst := slots_unwind s cancelAt (st.cancelAll s)
  rw [slots_cancelAll_state] at hfirst
  unfold State.abort
  split
  · next mid hmid =>
    rw [hmid] at hfirst
    refine ⟨openFetches_unwind (unwind_none s (mid.cancelAll s)), ?_⟩
    dsimp only
    rw [slots_unwind, slots_cancelAll_state, hfirst]
  · next mid hmid =>
    have hopen := @openFetches_unwind s cancelAt (st.cancelAll s) (by rw [hmid])
    rw [hmid] at hopen hfirst
    exact ⟨hopen, hfirst⟩

/-- All slots are free again. -/
theorem free_abort (s : Setting) (cancelAt : Option Rat) (st : State) :
    (st.abort s cancelAt).1.free = st.slots := by
  obtain ⟨hopen, hslots⟩ := abort_spec s cancelAt st
  rw [← hslots, State.slots, hopen, Nat.add_zero]

end ReplicaCensus.Schedule
