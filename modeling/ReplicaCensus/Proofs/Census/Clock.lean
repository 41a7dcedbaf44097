import Mathlib
import ReplicaCensus.Proofs.Census.Interruption
import ReplicaCensus.Proofs.Number.Sign
/-!
# The clock of a store

Time never goes back in the run of a store, and nothing that is still to happen lies in its past. So
a fetch is begun at the time of the state in which it is begun, and whatever happens from a state on
happens at its time or later.
-/

namespace ReplicaCensus

/-- A limit that is not used up before it begins leaves time. -/
theorem Seconds.span_nonneg {seconds : Seconds} {span : Rat} (h : seconds.isNonPositive = false)
    (hspan : seconds.span? = some span) : 0 ≤ span := by
  cases seconds with
  | whole n =>
    cases hspan
    rw [isNonPositive, decide_eq_false_iff_not] at h
    exact_mod_cast (not_le.1 h).le
  | fraction x =>
    cases x with
    | nan =>
      cases hspan
      exact le_rfl
    | infinite negative => cases hspan
    | finite negative m e =>
      have hspan' : (Double.finite negative m e).toRat? = some span := hspan
      rw [isNonPositive, ← Bool.not_eq_true, Double.isNonPositive_iff hspan'] at h
      exact (not_le.1 h).le

namespace Census

/-! ## 1. What comes before a time -/

theorem callsBefore_append (time : Rat) (calls more : List Call) :
    callsBefore time (calls ++ more) = callsBefore time calls ++ callsBefore time more :=
  List.filter_append calls more

theorem callsBefore_of_early {time : Rat} {calls : List Call}
    (h : ∀ call ∈ calls, call.time < time) : callsBefore time calls = calls :=
  List.filter_eq_self.2 fun call hcall => decide_eq_true (h call hcall)

theorem callsBefore_of_late {time : Rat} {calls : List Call}
    (h : ∀ call ∈ calls, time ≤ call.time) : callsBefore time calls = [] :=
  List.filter_eq_nil_iff.2 fun call hcall => by simpa using h call hcall

theorem callsBefore_callsBefore {time later : Rat} (h : time ≤ later) (calls : List Call) :
    callsBefore time (callsBefore later calls) = callsBefore time calls := by
  unfold callsBefore
  rw [List.filter_filter]
  refine List.filter_congr fun call _ => ?_
  rw [← Bool.decide_and, decide_eq_decide]
  exact ⟨And.left, fun hlt => ⟨hlt, hlt.trans_le h⟩⟩

end Census

namespace Schedule

/-! ## 2. One fetch -/

/-- How long a fetch takes. -/
def Setting.wait (s : Setting) (key : KeyLine) (replica : Nat) (node : Int) : Rat :=
  let delay := (s.fetch key replica node).delay
  if delay < 0 then 0 else delay

theorem Setting.wait_nonneg (s : Setting) (key : KeyLine) (replica : Nat) (node : Int) :
    0 ≤ s.wait key replica node := by
  unfold wait
  dsimp only
  split
  · exact le_rfl
  · next h => exact not_lt.1 h

/-- A fetch that was begun for a key, whose nodes behind it are still to be asked. -/
structure Opened (s : Setting) (now : Rat) (key : KeyLine) (nodes : List Int)
    (answers : List (List String)) (r : Reading) (calls : List Call) : Prop where
  nodes : nodes = r.node :: r.rest
  due : r.due = now + s.wait key answers.length r.node
  answers : r.answers = answers
  closing : r.closing = none
  cancels : r.cancels = 0
  calls : calls = [⟨now, s.schema.name, r.node, key.2⟩]

theorem opened_openFetch {s : Setting} {now : Rat} {key : KeyLine} {node : Int} {rest : List Int}
    {answers : List (List String)} {deadline : Option Rat} {r : Reading} {calls : List Call}
    (h : openFetch s now key node rest answers deadline = (.reading r, calls)) :
    Opened s now key (node :: rest) answers r calls ∧ r.deadline = deadline := by
  unfold openFetch at h
  cases h
  refine ⟨⟨rfl, ?_, rfl, rfl, rfl, rfl⟩, rfl⟩
  unfold Setting.wait
  dsimp only
  split
  · rw [add_zero]
  · rfl

theorem of_start_reading {s : Setting} {now : Rat} {key : KeyLine} {r : Reading} {calls : List Call}
    (h : start s now key = (.reading r, calls)) :
    ∃ nodes, s.source.replicas s.schema key.2 = .ok nodes ∧ Opened s now key nodes [] r calls ∧
      r.deadline = s.deadline now ∧ s.isExpired = false := by
  unfold start at h
  split at h
  · cases h
  next hlimit =>
  split at h
  · cases h
  split at h
  · cases h
  · cases h
  · next node rest hnodes =>
    obtain ⟨hopened, hdeadline⟩ := opened_openFetch h
    exact ⟨_, hnodes, hopened, hdeadline, Bool.eq_false_iff.2 hlimit⟩

/-- A fetch that is cancelled because the time of its key is up, and takes its time to end. -/
structure Closes (s : Setting) (now : Rat) (key : KeyLine) (how : Failure → Failure)
    (r r' : Reading) : Prop where
  closing : r'.closing = some (how ((s.fetch key r.answers.length r.node).closing r.cancels).failure)
  node : r'.node = r.node
  rest : r'.rest = r.rest
  answers : r'.answers = r.answers
  deadline : r'.deadline = none
  due : now < r'.due

theorem closes_close {s : Setting} {now : Rat} {key : KeyLine} {how : Failure → Failure}
    {r r' : Reading} (h : close s now key r how = .reading r') : Closes s now key how r r' := by
  rcases close_cases s now key r how with ⟨-, h'⟩ | ⟨hpos, h'⟩
  · cases h'.symm.trans h
  · cases h'.symm.trans h
    exact ⟨rfl, rfl, rfl, rfl, rfl, lt_add_of_pos_right now hpos⟩

/-- A fetch is followed by another only if it ended well within the time of its key. If that is up
the fetch may have to be closed. -/
theorem of_proceed_reading {s : Setting} {key : KeyLine} {r r' : Reading} {calls : List Call}
    (h : proceed s key r = (.reading r', calls)) :
    r.closing = none ∧
      (r.next < r.due ∧ calls = [] ∧ Closes s r.next key .afterTimeout r r' ∨
        r.due ≤ r.next ∧ ∃ versions,
          (s.fetch key r.answers.length r.node).answer = .ok versions ∧
          Opened s r.due key r.rest (r.answers ++ [versions]) r' calls ∧
          r'.deadline = r.deadline) := by
  unfold proceed at h
  split at h
  · cases h
  next hclosing =>
  refine ⟨hclosing, ?_⟩
  split at h
  · next htime =>
    obtain ⟨hclose, hcalls⟩ := Prod.mk.inj h
    exact .inl ⟨htime, hcalls.symm, closes_close hclose⟩
  next htime =>
  split at h
  · cases h
  next versions hanswer =>
  dsimp only at h
  split at h
  · cases h
  · next node rest hrest =>
    obtain ⟨hopened, hdeadline⟩ := opened_openFetch h
    rw [hrest]
    exact .inr ⟨not_lt.1 htime, versions, hanswer, hopened, hdeadline⟩

theorem le_next_iff {r : Reading} {time : Rat} :
    time ≤ r.next ↔ time ≤ r.due ∧ ∀ deadline, r.deadline = some deadline → time ≤ deadline := by
  unfold Reading.next
  cases r.deadline with
  | none => simp
  | some deadline =>
    dsimp only
    split <;> grind

/-! ## 3. The tasks of a store -/

/-- Nothing happens to these tasks before this time. -/
def Later (time : Rat) (tasks : List Task) : Prop :=
  ∀ t ∈ tasks, ∀ r, t.phase = .reading r → time ≤ r.next

theorem later_cons {time : Rat} {t : Task} {rest : List Task} :
    Later time (t :: rest) ↔ (∀ r, t.phase = .reading r → time ≤ r.next) ∧ Later time rest :=
  List.forall_mem_cons

theorem later_start {s : Setting} {now : Rat} {key : KeyLine} {phase : Phase} {calls : List Call}
    (h : start s now key = (phase, calls)) :
    (∀ r, phase = .reading r → now ≤ r.next) ∧ ∀ call ∈ calls, call.time = now := by
  cases phase with
  | reading r =>
    obtain ⟨nodes, -, hopened, hdeadline, hexpired⟩ := of_start_reading h
    have hnext : now ≤ r.next := by
      rw [le_next_iff, hopened.due, hdeadline]
      refine ⟨le_add_of_nonneg_right (s.wait_nonneg key _ r.node), fun deadline hd => ?_⟩
      unfold Setting.deadline at hd
      unfold Setting.isExpired at hexpired
      cases hlimit : s.limit with
      | none => simp [hlimit] at hd
      | some seconds =>
        simp only [hlimit, Option.map_eq_some_iff] at hd hexpired
        obtain ⟨span, hspan, rfl⟩ := hd
        exact le_add_of_nonneg_right (Seconds.span_nonneg hexpired hspan)
    refine ⟨fun r' hr' => Phase.reading.inj hr' ▸ hnext, ?_⟩
    simp [hopened.calls]
  | waiting => exact absurd (congrArg Prod.fst h) (start_ne_waiting s now key)
  | done result =>
    rcases start_cases s now key with ⟨result', h'⟩ | ⟨r, h'⟩
    · cases h'.symm.trans h
      simp
    · cases h'.symm.trans h

theorem later_proceed {s : Setting} {key : KeyLine} {r : Reading} {phase : Phase} {calls : List Call}
    (h : proceed s key r = (phase, calls)) :
    (∀ r', phase = .reading r' → r.next ≤ r'.next) ∧ ∀ call ∈ calls, call.time = r.next := by
  have hreading : ∀ r', proceed s key r = (.reading r', calls) →
      r.next ≤ r'.next ∧ ∀ call ∈ calls, call.time = r.next := by
    intro r' h'
    rcases (of_proceed_reading h').2 with ⟨-, rfl, hcloses⟩ |
      ⟨hdue, versions, -, hopened, hdeadline⟩
    · refine ⟨le_next_iff.2 ⟨hcloses.due.le, fun deadline hd => ?_⟩, by simp⟩
      rw [hcloses.deadline] at hd
      cases hd
    · obtain ⟨hle, hlimit⟩ := le_next_iff.1 (le_refl r.next)
      have hnext : r.next = r.due := le_antisymm hle hdue
      constructor
      · rw [le_next_iff, hopened.due, hdeadline]
        exact ⟨hle.trans (le_add_of_nonneg_right (s.wait_nonneg key _ r'.node)), hlimit⟩
      · simp [hopened.calls, hnext]
  rcases proceed_cases s key r with ⟨result, h'⟩ | ⟨r', h', -⟩ | ⟨r', h', -⟩
  · cases h'.symm.trans h
    simp
  · cases h'.symm.trans h
    obtain ⟨hnext, hcalls⟩ := hreading r' h'
    exact ⟨fun r'' hr'' => Phase.reading.inj hr'' ▸ hnext, hcalls⟩
  · cases h'.symm.trans h
    obtain ⟨hnext, hcalls⟩ := hreading r' h'
    exact ⟨fun r'' hr'' => Phase.reading.inj hr'' ▸ hnext, hcalls⟩

theorem later_cancel {s : Setting} {now : Rat} {t : Task} :
    ∀ r, (t.cancel s now).1.phase = .reading r → now ≤ r.next := by
  intro r hr
  rcases cancel_cases s now t with ⟨result, hphase, h⟩ | ⟨f, stray, h, -⟩ | ⟨r', r'', -, h, -, hnext⟩
  · rw [h, hphase] at hr
    cases hr
  · rw [h] at hr
    cases hr
  · rw [h] at hr
    exact Phase.reading.inj hr ▸ hnext.le

theorem later_cancelAll (s : Setting) (now : Rat) (tasks : List Task) :
    Later now (cancelAll s now tasks).1 := by
  induction tasks with
  | nil => simp [cancelAll, Later]
  | cons t rest ih => exact later_cons.2 ⟨later_cancel, ih⟩

theorem later_grant {s : Setting} {now : Rat} (free : Nat) {tasks : List Task}
    (h : Later now tasks) :
    Later now (grant s now free tasks).1 ∧
      ∀ call ∈ (grant s now free tasks).2.2, call.time = now := by
  fun_induction grant s now free tasks with
  | case1 => simp [Later]
  | case2 => exact ⟨h, by simp⟩
  | case3 free t rest hphase phase calls hstart t' rest' left more hgrant ih =>
    rw [hgrant] at ih
    obtain ⟨hlater, hmore⟩ := ih (later_cons.1 h).2
    obtain ⟨hnew, hcalls⟩ := later_start hstart
    refine ⟨later_cons.2 ⟨hnew, hlater⟩, fun call hcall => ?_⟩
    exact (List.mem_append.1 hcall).elim (hcalls call) (hmore call)
  | case4 free t rest rest' left calls hgrant _ ih =>
    rw [hgrant] at ih
    rw [later_cons] at h
    obtain ⟨hlater, hcalls⟩ := ih h.2
    exact ⟨later_cons.2 ⟨h.1, hlater⟩, hcalls⟩

theorem later_fire {s : Setting} {now : Rat} {tasks : List Task} (h : Later now tasks) :
    Later now (fire s now tasks).1 ∧ ∀ call ∈ (fire s now tasks).2.2, call.time = now := by
  fun_induction fire s now tasks with
  | case1 => simp [Later]
  | case2 t rest r hphase hnext phase calls hproceed t' =>
    rw [later_cons] at h
    -- what happens now is neither early nor late
    have hnow : r.next = now := le_antisymm hnext (h.1 r hphase)
    obtain ⟨hnew, hcalls⟩ := later_proceed hproceed
    rw [hnow] at hnew hcalls
    exact ⟨later_cons.2 ⟨hnew, h.2⟩, hcalls⟩
  | case3 t rest r hphase hnext rest' returned calls hfire ih =>
    rw [hfire] at ih
    rw [later_cons] at h
    obtain ⟨hlater, hcalls⟩ := ih h.2
    exact ⟨later_cons.2 ⟨h.1, hlater⟩, hcalls⟩
  | case4 t rest rest' returned calls hfire _ ih =>
    rw [hfire] at ih
    rw [later_cons] at h
    obtain ⟨hlater, hcalls⟩ := ih h.2
    exact ⟨later_cons.2 ⟨h.1, hlater⟩, hcalls⟩

theorem later_nextTime {tasks : List Task} {time : Rat} (h : nextTime tasks = some time) :
    Later time tasks := by
  induction tasks generalizing time with
  | nil => simp [Later]
  | cons t rest ih =>
    rw [later_cons]
    unfold nextTime at h
    cases hphase : t.phase with
    | reading r =>
      cases hrest : nextTime rest with
      | none =>
        have hidle := nextTime_eq_none hrest
        simp only [hphase, hrest, Option.some.injEq] at h
        subst h
        refine ⟨fun r' hr' => Phase.reading.inj hr' ▸ le_rfl, fun u hu r' hr' => ?_⟩
        have hread := hidle u hu
        simp [Task.isReading, hr'] at hread
      | some later =>
        simp only [hphase, hrest, Option.some.injEq] at h
        have hle : time ≤ r.next ∧ time ≤ later := by grind
        refine ⟨fun r' hr' => Phase.reading.inj hr' ▸ hle.1, fun u hu r' hr' => ?_⟩
        exact hle.2.trans (ih hrest u hu r' hr')
    | waiting =>
      rw [hphase] at h
      exact ⟨fun r hr => Phase.noConfusion hr, ih h⟩
    | done result =>
      rw [hphase] at h
      exact ⟨fun r hr => Phase.noConfusion hr, ih h⟩

theorem later_drain {time : Rat} {tasks : List Task} (h : Later time tasks) :
    Later time (drain tasks).2.1 := by
  fun_induction drain tasks with
  | case1 => exact h
  | case2 t rest block hphase blocks left failure hdrain ih =>
    rw [hdrain] at ih
    exact ih (later_cons.1 h).2
  | case3 t rest f hphase => exact (later_cons.1 h).2
  | case4 => exact h

/-! ## 4. The states of a store -/

/-- A state with nothing left to happen in its past, and nothing begun in its future. -/
structure Timely (st : State) : Prop where
  later : Later st.now st.tasks
  calls_le : ∀ call ∈ st.calls, call.time ≤ st.now

theorem timely_initial (now : Rat) (free : Nat) (keys : List KeyLine) :
    Timely (.initial now free keys) := by
  refine ⟨fun t ht r hr => ?_, fun call hcall => absurd hcall List.not_mem_nil⟩
  obtain ⟨key, -, rfl⟩ := List.mem_map.1 ht
  cases hr

/-- What comes between one state and a later one: time goes on, and the fetches that are begun are
begun on the way. -/
structure GoesOn (st st' : State) : Prop where
  timely : Timely st'
  now_le : st.now ≤ st'.now
  calls : ∃ more, st'.calls = st.calls ++ more ∧ ∀ call ∈ more, st.now ≤ call.time

theorem GoesOn.trans {st next last : State} (h : GoesOn st next) (h' : GoesOn next last) :
    GoesOn st last := by
  obtain ⟨more, hmore, hlate⟩ := h.calls
  obtain ⟨more', hmore', hlate'⟩ := h'.calls
  refine ⟨h'.timely, h.now_le.trans h'.now_le, more ++ more', ?_, fun call hcall => ?_⟩
  · rw [hmore', hmore, List.append_assoc]
  · rcases List.mem_append.1 hcall with hcall | hcall
    · exact hlate call hcall
    · exact h.now_le.trans (hlate' call hcall)

/-- Something is begun at one moment, up to which nothing was left to happen. -/
theorem goesOn_of_calls {st st' : State} {more : List Call} (h : Timely st)
    (hnow : st.now ≤ st'.now) (hlater : Later st'.now st'.tasks)
    (hcalls : st'.calls = st.calls ++ more) (htime : ∀ call ∈ more, call.time = st'.now) :
    GoesOn st st' := by
  refine ⟨⟨hlater, fun call hcall => ?_⟩, hnow, more, hcalls, fun call hcall => ?_⟩
  · rw [hcalls] at hcall
    rcases List.mem_append.1 hcall with hcall | hcall
    · exact (h.calls_le call hcall).trans hnow
    · exact (htime call hcall).le
  · exact (htime call hcall).symm ▸ hnow

theorem goesOn_fill (s : Setting) {st : State} (h : Timely st) : GoesOn st (st.fill s) := by
  obtain ⟨hlater, hcalls⟩ := @later_grant s st.now st.free _ h.later
  exact goesOn_of_calls h le_rfl hlater rfl hcalls

theorem goesOn_write {st : State} (h : Timely st) : GoesOn st st.write.1 :=
  goesOn_of_calls h le_rfl (later_drain h.later) (List.append_nil _).symm
    fun _ hcall => absurd hcall List.not_mem_nil

theorem goesOn_fireAt (s : Setting) {st : State} {time : Rat} (h : Timely st)
    (hnow : st.now ≤ time) (hlater : Later time st.tasks) : GoesOn st (st.fireAt s time) := by
  obtain ⟨hlater', hcalls⟩ := @later_fire s time _ hlater
  exact goesOn_of_calls h hnow hlater' rfl hcalls

theorem goesOn_wait {st : State} {time : Rat} (h : Timely st) (hnow : st.now ≤ time)
    (hlater : Later time st.tasks) : GoesOn st { st with now := time } :=
  goesOn_of_calls h hnow hlater (List.append_nil _).symm
    fun _ hcall => absurd hcall List.not_mem_nil

/-- Writing takes no time, and leaves for later what was left for later. -/
theorem goesOn_of_write {st st' : State} {failure : Option Failure} (h : Timely st)
    (hw : st.write = (st', failure)) :
    GoesOn st st' ∧ st'.now = st.now ∧
      ∀ time, nextTime st.tasks = some time → Later time st'.tasks := by
  obtain rfl : st.write.1 = st' := by rw [hw]
  exact ⟨goesOn_write h, rfl, fun time hn => later_drain (later_nextTime hn)⟩

theorem cancelTime_mem {now time : Rat} {cancelAt : Option Rat} (h : now ≤ time)
    (hc : comesFirst cancelAt time = true) :
    now ≤ cancelTime now cancelAt ∧ cancelTime now cancelAt ≤ time := by
  unfold cancelTime
  cases cancelAt with
  | none => exact ⟨le_rfl, h⟩
  | some c =>
    have hle : c ≤ time := of_decide_eq_true hc
    dsimp only
    split
    · next hfirst => exact ⟨hfirst, hle⟩
    · exact ⟨le_rfl, h⟩

/-- Whatever happens next, it does not happen in the past. -/
theorem goesOn_step {s : Setting} {cancelAt : Option Rat} {st st' : State} {ending : Option Ending}
    (h : Timely st) (hstep : step s cancelAt st = (st', ending)) : GoesOn st st' := by
  have hfill := goesOn_fill s h
  cases steps_of_step hstep with
  | interrupted =>
    exact goesOn_of_calls h le_rfl h.later (List.append_nil _).symm (by simp)
  | complete _ _ hw => exact hfill.trans (goesOn_of_write hfill.timely hw).1
  | failed _ _ hw => exact hfill.trans (goesOn_of_write hfill.timely hw).1
  | happens =>
    exact hfill.trans (goesOn_fireAt s hfill.timely le_rfl hfill.timely.later)
  | @cancelled mid time _ hn hlt hw hc =>
    obtain ⟨hmid, hnow, hlater⟩ := goesOn_of_write hfill.timely hw
    obtain ⟨hle, hfirst⟩ := cancelTime_mem (hnow ▸ (not_le.1 hlt).le) hc
    -- what is left to happen comes behind the cancellation
    refine hfill.trans (hmid.trans (goesOn_wait hmid.timely hle fun t ht r hr => ?_))
    exact hfirst.trans (hlater time hn t ht r hr)
  | @passes mid time _ hn hlt hw _ =>
    obtain ⟨hmid, hnow, hlater⟩ := goesOn_of_write hfill.timely hw
    exact hfill.trans (hmid.trans
      (goesOn_fireAt s hmid.timely (hnow ▸ (not_le.1 hlt).le) (hlater time hn)))

theorem goesOn_run {s : Setting} {cancelAt : Option Rat} {st : State} (h : Timely st) :
    GoesOn st (run s cancelAt st).1 := by
  fun_induction run s cancelAt st with
  | case1 st st' ending hstep => exact goesOn_step h hstep
  | case2 st st' hstep ih =>
    have hnext := goesOn_step h hstep
    exact hnext.trans (ih hnext.timely)

theorem goesOn_cancelFront (s : Setting) {st : State} (h : Timely st) :
    GoesOn st (st.cancelFront s).1 := by
  refine goesOn_of_calls h (now_cancelFront s st).ge ?_
    ((calls_cancelFront s st).trans (List.append_nil _).symm) (by simp)
  rw [now_cancelFront]
  unfold State.cancelFront
  split
  · exact h.later
  · next t rest htasks =>
    have hlater := h.later
    rw [htasks, later_cons] at hlater
    dsimp only
    split
    · exact hlater.2
    · exact later_cons.2 ⟨later_cancel, hlater.2⟩

/-- A run that is cancelled goes on behind its cancellation. -/
theorem goesOn_runOut {s : Setting} {cancelAt : Option Rat} {st : State} (h : Timely st) :
    GoesOn st (runOut s cancelAt st).1 := by
  have hrun : GoesOn st (run s cancelAt st).1 := goesOn_run h
  unfold runOut
  split
  · next mid hmid =>
    rw [hmid] at hrun
    have hfront := hrun.trans (goesOn_cancelFront s hrun.timely)
    split
    · next last ending hlast =>
      rw [hlast] at hfront
      exact hfront
    · next next hnext =>
      rw [hnext] at hfront
      exact hfront.trans (goesOn_run hfront.timely)
  · next hmid =>
    rw [hmid] at hrun
    exact hrun

theorem goesOn_cancelAll (s : Setting) {st : State} (h : Timely st) : GoesOn st (st.cancelAll s) :=
  goesOn_of_calls h le_rfl (later_cancelAll s st.now st.tasks) (List.append_nil _).symm (by simp)

theorem nextTime_mem {tasks : List Task} {time : Rat} (h : nextTime tasks = some time) :
    ∃ t ∈ tasks, ∃ r, t.phase = .reading r ∧ r.next = time := by
  induction tasks generalizing time with
  | nil => cases h
  | cons t rest ih =>
    have hrest : nextTime rest = some time → ∃ u ∈ t :: rest, ∃ r, u.phase = .reading r ∧
        r.next = time := by
      intro h
      obtain ⟨u, hu, r, hr, hnext⟩ := ih h
      exact ⟨u, List.mem_cons_of_mem _ hu, r, hr, hnext⟩
    unfold nextTime at h
    split at h
    · next r hphase _ => exact ⟨t, List.mem_cons_self, r, hphase, Option.some.inj h⟩
    · next r later hphase hlater =>
      split at h
      · exact ⟨t, List.mem_cons_self, r, hphase, Option.some.inj h⟩
      · exact hrest (hlater.trans h)
    · exact hrest h

theorem Timely.le_nextTime {st : State} (h : Timely st) {time : Rat}
    (hn : nextTime st.tasks = some time) : st.now ≤ time := by
  obtain ⟨t, ht, r, hphase, rfl⟩ := nextTime_mem hn
  exact h.later t ht r hphase

theorem goesOn_unwind {s : Setting} {cancelAt : Option Rat} {st : State} (h : Timely st) :
    GoesOn st (unwind s cancelAt st).1 := by
  fun_induction unwind s cancelAt st with
  | case1 st hn => exact goesOn_of_calls h le_rfl h.later (List.append_nil _).symm (by simp)
  | case2 st time hn hc =>
    obtain ⟨hle, hfirst⟩ := cancelTime_mem (h.le_nextTime hn) hc
    exact goesOn_wait h hle fun t ht r hr => hfirst.trans (later_nextTime hn t ht r hr)
  | case3 st time hn hc ih =>
    have hfire := goesOn_fireAt s h (h.le_nextTime hn) (later_nextTime hn)
    exact hfire.trans (ih hfire.timely)

theorem goesOn_abort {s : Setting} {cancelAt : Option Rat} {st : State} (h : Timely st) :
    GoesOn st (st.abort s cancelAt).1 := by
  have hfirst := goesOn_cancelAll s h
  have hunwound : GoesOn st (unwind s cancelAt (st.cancelAll s)).1 :=
    hfirst.trans (goesOn_unwind hfirst.timely)
  unfold State.abort
  split
  · next mid hmid =>
    rw [hmid] at hunwound
    have hagain := hunwound.trans (goesOn_cancelAll s hunwound.timely)
    exact hagain.trans (goesOn_unwind hagain.timely)
  · next mid hmid =>
    rw [hmid] at hunwound
    exact hunwound

end Schedule

/-! ## 5. A store -/

namespace Census

/-- The keys of a store whose run gets as far as asking for them: it has a key file and no samples,
and its files can be opened. -/
def keys? (c : Census) (schema : Schema) (tree : FileTree) : Option (List KeyLine) :=
  if tree.has (c.samplesPath schema.name) then none
  else if !tree.has (c.keysPath schema.name) then none
  else
    match c.openFiles schema.name tree with
    | .error _ => none
    | .ok (keys, _) => some keys

/-- All fetches that are begun in the run of a store, also those of its last moment. -/
def storeFetches (c : Census) (schema : Schema) (now : Rat) (cancelAt : Option Rat)
    (tree : FileTree) : List Call :=
  match c.keys? schema tree with
  | some keys => (Schedule.runOut (c.setting schema) cancelAt (.initial now c.slots keys)).1.calls
  | none => []

variable {c : Census} {schema : Schema} {tree : FileTree}

theorem storeFetches_of_keys {keys : List KeyLine} (h : c.keys? schema tree = some keys) (now : Rat)
    (cancelAt : Option Rat) :
    c.storeFetches schema now cancelAt tree =
      (Schedule.runOut (c.setting schema) cancelAt (.initial now c.slots keys)).1.calls := by
  rw [storeFetches, h]

theorem storeFetches_of_idle (h : c.keys? schema tree = none) (now : Rat) (cancelAt : Option Rat) :
    c.storeFetches schema now cancelAt tree = [] := by
  rw [storeFetches, h]

theorem of_keys? {keys : List KeyLine} (h : c.keys? schema tree = some keys) :
    tree.has (c.samplesPath schema.name) = false ∧ tree.has (c.keysPath schema.name) = true ∧
      ∃ opened, c.openFiles schema.name tree = .ok (keys, opened) := by
  unfold keys? at h
  cases hs : tree.has (c.samplesPath schema.name) with
  | true =>
    rw [hs] at h
    cases h
  | false =>
    cases hk : tree.has (c.keysPath schema.name) with
    | false =>
      rw [hs, hk] at h
      cases h
    | true =>
      cases hopen : c.openFiles schema.name tree with
      | error f =>
        rw [hs, hk, hopen] at h
        cases h
      | ok found =>
        rw [hs, hk, hopen] at h
        cases h
        exact ⟨rfl, rfl, found.2, rfl⟩

theorem sampleStore_of_keys {keys : List KeyLine} (h : c.keys? schema tree = some keys) :
    ∃ opened, ∀ now cancelAt, c.sampleStore schema now cancelAt tree =
      let out := Schedule.runOut (c.setting schema) cancelAt (.initial now c.slots keys)
      c.conclude schema opened out.1 out.2.2 out.2.1 := by
  obtain ⟨hs, hk, opened, hopen⟩ := of_keys? h
  refine ⟨opened, fun now cancelAt => ?_⟩
  rw [sampleStore, sampleWith, hs, hk, hopen]
  rfl

/-- A store that asks for no keys takes no time, and cannot be cancelled. -/
theorem sampleStore_of_idle (h : c.keys? schema tree = none) :
    ∃ outcome left, outcome.status ≠ .sampled ∧ ∀ now cancelAt,
      c.sampleStore schema now cancelAt tree = .idle outcome left now c.slots cancelAt := by
  unfold sampleStore sampleWith
  dsimp only
  cases hs : tree.has (c.samplesPath schema.name) with
  | true => exact ⟨_, _, Status.noConfusion, fun now cancelAt => rfl⟩
  | false =>
    cases hk : tree.has (c.keysPath schema.name) with
    | false => exact ⟨_, _, Status.noConfusion, fun now cancelAt => rfl⟩
    | true =>
      cases hopen : c.openFiles schema.name tree with
      | error f => exact ⟨_, _, Status.noConfusion, fun now cancelAt => rfl⟩
      | ok found =>
        rw [keys?, hs, hk, hopen] at h
        cases h

/-- A run that ends before its time counts the fetches that were begun before. -/
theorem calls_conclude (schema : Schema) (opened : FileTree) (st : Schedule.State)
    (cancelAt : Option Rat) (ending : Schedule.Ending) :
    (c.conclude schema opened st cancelAt ending).calls = st.calls ∨
      (c.conclude schema opened st cancelAt ending).calls = callsBefore st.now st.calls := by
  rcases c.conclude_cases schema opened st cancelAt ending with
    ⟨-, published, hend⟩ | ⟨left, -, -, hcleaned⟩
  · rw [hend]
    exact .inl rfl
  · exact .inr hcleaned.calls

/-- The cleaning up comes behind the keys. -/
theorem halted_conclude {st : Schedule.State} (h : Schedule.Timely st) (schema : Schema)
    (opened : FileTree) (cancelAt : Option Rat) (ending : Schedule.Ending) :
    (c.conclude schema opened st cancelAt ending).halted = st.now ∧
      st.now ≤ (c.conclude schema opened st cancelAt ending).ended := by
  rcases c.conclude_cases schema opened st cancelAt ending with
    ⟨-, published, hend⟩ | ⟨left, -, -, hcleaned⟩
  · rw [hend]
    exact ⟨rfl, le_rfl⟩
  · have hlast : Schedule.GoesOn st (st.abort (c.setting schema) left).1 :=
      Schedule.goesOn_abort h
    rw [hcleaned.ended]
    exact ⟨hcleaned.halted, hlast.now_le⟩

theorem timely_runOut (c : Census) (schema : Schema) (now : Rat) (cancelAt : Option Rat)
    (keys : List KeyLine) :
    Schedule.Timely
      (Schedule.runOut (c.setting schema) cancelAt (.initial now c.slots keys)).1 :=
  (Schedule.goesOn_runOut (Schedule.timely_initial now c.slots keys)).timely

theorem calls_sampleStore (c : Census) (schema : Schema) (now : Rat) (cancelAt : Option Rat)
    (tree : FileTree) :
    (c.sampleStore schema now cancelAt tree).calls = c.storeFetches schema now cancelAt tree ∨
      (c.sampleStore schema now cancelAt tree).calls =
        callsBefore (c.sampleStore schema now cancelAt tree).halted
          (c.storeFetches schema now cancelAt tree) := by
  cases hkeys : c.keys? schema tree with
  | none =>
    obtain ⟨outcome, left, -, hidle⟩ := sampleStore_of_idle hkeys
    rw [hidle, storeFetches_of_idle hkeys]
    exact .inl rfl
  | some keys =>
    obtain ⟨opened, hopened⟩ := sampleStore_of_keys hkeys
    rw [hopened, storeFetches_of_keys hkeys]
    dsimp only
    rw [(halted_conclude (timely_runOut c schema now cancelAt keys) _ _ _ _).1]
    exact calls_conclude _ _ _ _ _

theorem mem_storeFetches {now : Rat} {cancelAt : Option Rat} {call : Call}
    (h : call ∈ (c.sampleStore schema now cancelAt tree).calls) :
    call ∈ c.storeFetches schema now cancelAt tree := by
  rcases calls_sampleStore c schema now cancelAt tree with hall | hbefore
  · rwa [hall] at h
  · rw [hbefore] at h
    exact List.mem_of_mem_filter h

/-- A store begins its fetches before it is done with its keys, and then it is cleaned up. -/
theorem storeFetches_between (c : Census) (schema : Schema) (now : Rat) (cancelAt : Option Rat)
    (tree : FileTree) :
    now ≤ (c.sampleStore schema now cancelAt tree).halted ∧
      (c.sampleStore schema now cancelAt tree).halted ≤
        (c.sampleStore schema now cancelAt tree).ended ∧
      ∀ call ∈ c.storeFetches schema now cancelAt tree,
        now ≤ call.time ∧ call.time ≤ (c.sampleStore schema now cancelAt tree).halted := by
  cases hkeys : c.keys? schema tree with
  | none =>
    obtain ⟨outcome, left, -, hidle⟩ := sampleStore_of_idle hkeys
    rw [hidle, storeFetches_of_idle hkeys]
    exact ⟨le_rfl, le_rfl, by simp⟩
  | some keys =>
    obtain ⟨opened, hopened⟩ := sampleStore_of_keys hkeys
    have hrun : Schedule.GoesOn (.initial now c.slots keys)
        (Schedule.runOut (c.setting schema) cancelAt (.initial now c.slots keys)).1 :=
      Schedule.goesOn_runOut (Schedule.timely_initial now c.slots keys)
    rw [hopened, storeFetches_of_keys hkeys]
    dsimp only
    obtain ⟨hhalted, hended⟩ := halted_conclude hrun.timely schema opened
      (Schedule.runOut (c.setting schema) cancelAt (.initial now c.slots keys)).2.2
      (Schedule.runOut (c.setting schema) cancelAt (.initial now c.slots keys)).2.1
    rw [hhalted]
    refine ⟨hrun.now_le, hended, fun call hcall => ⟨?_, hrun.timely.calls_le call hcall⟩⟩
    obtain ⟨more, hmore, hlate⟩ := hrun.calls
    rw [hmore] at hcall
    exact hlate call hcall

end Census

end ReplicaCensus
