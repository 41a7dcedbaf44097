import ReplicaCensus.Census.Block
import ReplicaCensus.Census.Source
/-!
# The schedule of one store -- keys, slots and virtual time

The keys of a store are tasks in file order. A task waits for one of the slots, then asks its
replicas one after the other, and gives its slot back when it is done. When the time of a key is up,
its fetch is cancelled, and the task is done when the fetch has ended. The store writes the blocks
of its tasks in file order; the first task in that order to fail ends it. Nothing takes time but the
fetches, and nothing is written while something can happen at the present moment.
-/

namespace ReplicaCensus

namespace Schedule

/-- What stays the same while a store is sampled. -/
structure Setting where
  source : Source
  schema : Schema
  limit : Option Seconds

/-- A fetch that is open: its node, the replicas after it, the answers before it, when it ends and
when the time of the key is up. If it was cancelled, the failure its task ends with is known, and
the time of the key counts no more. -/
structure Reading where
  node : Int
  rest : List Int
  answers : List (List String)
  due : Rat
  deadline : Option Rat
  closing : Option Failure
  cancels : Nat

/-- How far a task is. -/
inductive Phase where
  | waiting
  | reading (r : Reading)
  | done (result : Except Failure String)

/-- A key and how far it is. -/
structure Task where
  key : KeyLine
  phase : Phase

/-! ## 1. One task -/

/-- What a node says that is the replica of a key with this number. -/
def Setting.fetch (s : Setting) (key : KeyLine) (replica : Nat) (node : Int) : Fetch :=
  s.source.fetch ⟨s.schema.name, key.1, key.2, replica, node⟩

def openFetch (s : Setting) (now : Rat) (key : KeyLine) (node : Int) (rest : List Int)
    (answers : List (List String)) (deadline : Option Rat) : Phase × List Call :=
  let delay := (s.fetch key answers.length node).delay
  let due := if delay < 0 then now else now + delay
  (.reading ⟨node, rest, answers, due, deadline, none, 0⟩, [⟨now, s.schema.name, node, key.2⟩])

def Setting.isExpired (s : Setting) : Bool :=
  match s.limit with
  | some seconds => seconds.isNonPositive
  | none => false

def Setting.isUnusable (s : Setting) : Bool :=
  match s.limit with
  | some seconds => seconds.isTooLarge
  | none => false

def Setting.deadline (s : Setting) (now : Rat) : Option Rat :=
  match s.limit with
  | some seconds => seconds.span?.map (now + ·)
  | none => none

def start (s : Setting) (now : Rat) (key : KeyLine) : Phase × List Call :=
  if s.isExpired then (.done (.error .timedOut), [])
  else if s.isUnusable then (.done (.error .limitTooLarge), [])
  else
    match s.source.replicas s.schema key.2 with
    | .error f => (.done (.error f), [])
    | .ok [] => (.done (.ok (Block.ofAnswers key.2 [])), [])
    | .ok (node :: rest) => openFetch s now key node rest [] (s.deadline now)

/-- When something happens to an open fetch: it ends, or before that the time of its key is up. -/
def Reading.next (r : Reading) : Rat :=
  match r.deadline with
  | none => r.due
  | some deadline => if r.due ≤ deadline then r.due else deadline

/-- Cancels an open fetch at time `now`. Its task is done when the fetch has ended; `how` says what
the task makes of the failure. -/
def close (s : Setting) (now : Rat) (key : KeyLine) (r : Reading) (how : Failure → Failure) :
    Phase :=
  let closing := (s.fetch key r.answers.length r.node).closing r.cancels
  let failure := how closing.failure
  if closing.delay ≤ 0 then .done (.error failure)
  else
    .reading { r with
      due := now + closing.delay, deadline := none, closing := some failure,
      cancels := r.cancels + 1 }

def proceed (s : Setting) (key : KeyLine) (r : Reading) : Phase × List Call :=
  match r.closing with
  | some f => (.done (.error f), [])
  | none =>
    if r.next < r.due then (close s r.next key r .afterTimeout, [])
    else
      match (s.fetch key r.answers.length r.node).answer with
      | .error f => (.done (.error f), [])
      | .ok versions =>
        let answers := r.answers ++ [versions]
        match r.rest with
        | [] => (.done (.ok (Block.ofAnswers key.2 answers)), [])
        | node :: rest => openFetch s r.due key node rest answers r.deadline

/-! ## 2. All tasks -/

def Task.isReading (t : Task) : Bool :=
  match t.phase with
  | .reading _ => true
  | _ => false

def openFetches (tasks : List Task) : Nat := tasks.countP Task.isReading

/-- Gives free slots to waiting tasks, first come first served, and tells how many are left. A task
that is done at once leaves its slot to the next. -/
def grant (s : Setting) (now : Rat) : Nat → List Task → List Task × Nat × List Call
  | free, [] => ([], free, [])
  | 0, tasks => (tasks, 0, [])
  | free + 1, t :: rest =>
    match t.phase with
    | .waiting =>
      let (phase, calls) := start s now t.key
      let t : Task := ⟨t.key, phase⟩
      -- a key that fails or ends at once never holds its slot
      let (rest, left, more) := grant s now (if t.isReading then free else free + 1) rest
      (t :: rest, left, calls ++ more)
    -- a task that is not waiting takes none of the free slots
    | _ =>
      let (rest, left, calls) := grant s now (free + 1) rest
      (t :: rest, left, calls)

def nextTime : List Task → Option Rat
  | [] => none
  | t :: rest =>
    match t.phase, nextTime rest with
    | .reading r, none => some r.next
    | .reading r, some time => some (if r.next ≤ time then r.next else time)
    | _, time => time

/-- Lets the first task proceed to which something happens at time `now`, and tells how many slots
it returns. -/
def fire (s : Setting) (now : Rat) : List Task → List Task × Nat × List Call
  | [] => ([], 0, [])
  | t :: rest =>
    match t.phase with
    | .reading r =>
      if r.next ≤ now then
        let (phase, calls) := proceed s t.key r
        let t : Task := ⟨t.key, phase⟩
        (t :: rest, if t.isReading then 0 else 1, calls)
      else
        let (rest, returned, calls) := fire s now rest
        (t :: rest, returned, calls)
    | _ =>
      let (rest, returned, calls) := fire s now rest
      (t :: rest, returned, calls)

/-- Takes the tasks that are done off the front: their blocks, the tasks left, and the failure that
stands in front of them. -/
def drain : List Task → List String × List Task × Option Failure
  | [] => ([], [], none)
  | t :: rest =>
    match t.phase with
    | .done (.ok block) =>
      let (blocks, tasks, failure) := drain rest
      (block :: blocks, tasks, failure)
    | .done (.error f) => ([], rest, some f)
    | _ => ([], t :: rest, none)

def Task.isInterrupted (t : Task) : Bool :=
  match t.phase with
  | .done (.error .interrupted) => true
  | _ => false

def Task.work (s : Setting) (t : Task) : Nat :=
  match t.phase with
  | .waiting =>
    match s.source.replicas s.schema t.key.2 with
    | .ok nodes => nodes.length + 1
    | .error _ => 0
  -- a fetch may have to be closed, which is one event more
  | .reading r => if r.closing.isSome then 1 else r.rest.length + 2
  | .done _ => 0

def work (s : Setting) : List Task → Nat
  | [] => 0
  | t :: rest => t.work s + work s rest

/-! ## 3. The run of a store -/

/-- The state of a store's run: the time, the slots that are free, the tasks whose blocks are not
written yet, the blocks written, the fetches begun, and the most fetches that were open at once. A
task that is cancelled twice may be done before its fetch has ended: such strays are known by the
times of their ends. -/
structure State where
  now : Rat
  free : Nat
  tasks : List Task
  blocks : List String
  calls : List Call
  peak : Nat
  strays : List Rat

/-- How the run of a store ended. -/
inductive Ending where
  | complete
  | failed (f : Failure)
  | cancelled
  | interrupted

def State.fill (s : Setting) (st : State) : State :=
  let (tasks, free, calls) := grant s st.now st.free st.tasks
  { st with
    free := free, tasks := tasks, calls := st.calls ++ calls
    peak := max st.peak (openFetches tasks) }

/-- Writes the blocks of the tasks that are done, and looks at the task in front. -/
def State.write (st : State) : State × Option Failure :=
  let (blocks, tasks, failure) := drain st.tasks
  ({ st with tasks := tasks, blocks := st.blocks ++ blocks }, failure)

def State.fireAt (s : Setting) (time : Rat) (st : State) : State :=
  let (tasks, returned, calls) := fire s time st.tasks
  { st with now := time, free := st.free + returned, tasks := tasks, calls := st.calls ++ calls }

def comesFirst (c : Option Rat) (time : Rat) : Bool :=
  match c with
  | some c => c ≤ time
  | none => false

/-- When a run is cancelled: at time `c`, but not before now. -/
def cancelTime (now : Rat) (c : Option Rat) : Rat :=
  match c with
  | some c => if now ≤ c then c else now
  | none => now

/-- What happens next: an end, or an event that leads to another state. With `cancelAt`, the run is
cancelled when that time comes. -/
def step (s : Setting) (cancelAt : Option Rat) (st : State) : State × Option Ending :=
  if st.tasks.any Task.isInterrupted then (st, some .interrupted)
  else
    let st := st.fill s
    match nextTime st.tasks with
    | none =>
      -- no fetch is open, so with the slots filled every task is done
      match st.write with
      | (st, none) => (st, some .complete)
      | (st, some f) => (st, some (.failed f))
    | some time =>
      -- all that happens now happens before the task in front is looked at
      if time ≤ st.now then (st.fireAt s st.now, none)
      else
        match st.write with
        | (st, some f) => (st, some (.failed f))
        | (st, none) =>
          if comesFirst cancelAt time then
            ({ st with now := cancelTime st.now cancelAt }, some .cancelled)
          else (st.fireAt s time, none)

/-- What a step does, case by case. Before anything else the slots are filled; then all happens
that happens now, and only when nothing does are blocks written and does time pass. -/
inductive Steps (s : Setting) (cancelAt : Option Rat) (st : State) :
    State → Option Ending → Prop where
  | interrupted (hi : st.tasks.any Task.isInterrupted = true) :
    Steps s cancelAt st st (some .interrupted)
  | complete {st' : State} (hi : st.tasks.any Task.isInterrupted = false)
    (hn : nextTime (st.fill s).tasks = none) (hw : (st.fill s).write = (st', none)) :
    Steps s cancelAt st st' (some .complete)
  | failed {st' : State} {f : Failure} (hi : st.tasks.any Task.isInterrupted = false)
    (hn : ∀ time, nextTime (st.fill s).tasks = some time → ¬time ≤ (st.fill s).now)
    (hw : (st.fill s).write = (st', some f)) : Steps s cancelAt st st' (some (.failed f))
  | happens {time : Rat} (hi : st.tasks.any Task.isInterrupted = false)
    (hn : nextTime (st.fill s).tasks = some time) (hle : time ≤ (st.fill s).now) :
    Steps s cancelAt st ((st.fill s).fireAt s (st.fill s).now) none
  | cancelled {st' : State} {time : Rat} (hi : st.tasks.any Task.isInterrupted = false)
    (hn : nextTime (st.fill s).tasks = some time) (hlt : ¬time ≤ (st.fill s).now)
    (hw : (st.fill s).write = (st', none)) (hc : comesFirst cancelAt time = true) :
    Steps s cancelAt st { st' with now := cancelTime st'.now cancelAt } (some .cancelled)
  | passes {st' : State} {time : Rat} (hi : st.tasks.any Task.isInterrupted = false)
    (hn : nextTime (st.fill s).tasks = some time) (hlt : ¬time ≤ (st.fill s).now)
    (hw : (st.fill s).write = (st', none)) (hc : comesFirst cancelAt time = false) :
    Steps s cancelAt st (st'.fireAt s time) none

theorem steps_step (s : Setting) (cancelAt : Option Rat) (st : State) :
    Steps s cancelAt st (step s cancelAt st).1 (step s cancelAt st).2 := by
  unfold step
  split
  · next hi => exact .interrupted hi
  · next hi =>
    rw [Bool.not_eq_true] at hi
    dsimp only
    split
    · next hn =>
      have hlate : ∀ time, nextTime (st.fill s).tasks = some time → ¬time ≤ (st.fill s).now := by
        intro time htime
        rw [hn] at htime
        cases htime
      split
      · next st' hw => exact .complete hi hn hw
      · next st' f hw => exact .failed hi hlate hw
    · next time hn =>
      split
      · next hle => exact .happens hi hn hle
      · next hlt =>
        have hlate : ∀ t, nextTime (st.fill s).tasks = some t → ¬t ≤ (st.fill s).now := by
          intro t ht
          rw [hn] at ht
          cases ht
          exact hlt
        split
        · next st' f hw => exact .failed hi hlate hw
        · next st' hw =>
          split
          · next hc => exact .cancelled hi hn hlt hw hc
          · next hc => exact .passes hi hn hlt hw (Bool.not_eq_true _ ▸ hc)

theorem steps_of_step {s : Setting} {cancelAt : Option Rat} {st st' : State}
    {ending : Option Ending} (h : step s cancelAt st = (st', ending)) :
    Steps s cancelAt st st' ending := by
  have hsteps := steps_step s cancelAt st
  rw [h] at hsteps
  exact hsteps

/-! ## 4. The run ends -/

theorem work_close_le (s : Setting) (now : Rat) (key : KeyLine) (r : Reading)
    (how : Failure → Failure) : Task.work s ⟨key, close s now key r how⟩ ≤ 1 := by
  unfold close
  dsimp only
  split <;> simp [Task.work]

theorem work_proceed_lt (s : Setting) (key : KeyLine) (r : Reading) :
    Task.work s ⟨key, (proceed s key r).1⟩ < Task.work s ⟨key, .reading r⟩ := by
  unfold proceed
  split
  · next f hclosing => simp [Task.work, hclosing]
  · next hclosing =>
    split
    · have hle := work_close_le s r.next key r .afterTimeout
      have hwork : Task.work s ⟨key, .reading r⟩ = r.rest.length + 2 := by
        simp [Task.work, hclosing]
      show Task.work s ⟨key, close s r.next key r .afterTimeout⟩ < _
      omega
    · split
      · simp [Task.work, hclosing]
      · cases hr : r.rest with
        | nil => simp [Task.work, hclosing]
        | cons node rest => simp [Task.work, openFetch, hclosing, hr]

theorem work_start_le (s : Setting) (now : Rat) (key : KeyLine) :
    Task.work s ⟨key, (start s now key).1⟩ ≤ Task.work s ⟨key, .waiting⟩ := by
  unfold start
  split
  · simp [Task.work]
  · split
    · simp [Task.work]
    · split
      · simp [Task.work]
      · simp [Task.work]
      · next node rest h => simp [Task.work, openFetch, h]

theorem work_cons (s : Setting) (t : Task) (rest : List Task) :
    work s (t :: rest) = t.work s + work s rest := rfl

theorem work_grant_le (s : Setting) (now : Rat) (free : Nat) (tasks : List Task) :
    work s (grant s now free tasks).1 ≤ work s tasks := by
  fun_induction grant s now free tasks with
  | case1 => exact Nat.le_refl _
  | case2 => exact Nat.le_refl _
  | case3 free t rest hphase phase calls hstart t' rest' left more hgrant ih =>
    simp only [work_cons]
    have hle := work_start_le s now t.key
    rw [hstart] at hle
    have ht : Task.work s t = Task.work s ⟨t.key, .waiting⟩ := by simp [Task.work, hphase]
    have ht' : Task.work s t' = Task.work s ⟨t.key, phase⟩ := rfl
    rw [hgrant] at ih
    simp only at ih hle
    omega
  | case4 free t rest rest' left calls hgrant _ ih =>
    simp only [work_cons]
    rw [hgrant] at ih
    simp only at ih
    omega

theorem work_fire_lt (s : Setting) (now time : Rat) {tasks : List Task}
    (h : nextTime tasks = some time) (hle : time ≤ now) :
    work s (fire s now tasks).1 < work s tasks := by
  induction tasks generalizing time with
  | nil => simp [nextTime] at h
  | cons t rest ih =>
    unfold fire
    unfold nextTime at h
    cases hp : t.phase with
    | reading r =>
      simp only [hp] at h ⊢
      by_cases hr : r.next ≤ now
      · simp only [hr, if_true, work_cons]
        have hlt := work_proceed_lt s t.key r
        have ht : Task.work s t = Task.work s ⟨t.key, .reading r⟩ := by simp [Task.work, hp]
        omega
      · simp only [hr, if_false, work_cons]
        cases hn : nextTime rest with
        | none =>
          simp only [hn, Option.some.injEq] at h
          exact absurd (h ▸ hle) hr
        | some later =>
          simp only [hn, Option.some.injEq] at h
          have hlater : later ≤ now := by grind
          exact Nat.add_lt_add_left (ih later hn hlater) _
    | waiting =>
      simp only [hp] at h ⊢
      simp only [work_cons]
      exact Nat.add_lt_add_left (ih time h hle) _
    | done result =>
      simp only [hp] at h ⊢
      simp only [work_cons]
      exact Nat.add_lt_add_left (ih time h hle) _

theorem nextTime_drain {tasks : List Task} (h : (drain tasks).2.2 = none) :
    nextTime (drain tasks).2.1 = nextTime tasks := by
  fun_induction drain tasks with
  | case1 => rfl
  | case2 t rest block hp blocks left failure hd ih =>
    rw [hd] at ih
    simp only at ih h ⊢
    rw [ih h, nextTime, hp]
  | case3 t rest f hp => simp at h
  | case4 => rfl

theorem work_drain_le (s : Setting) (tasks : List Task) :
    work s (drain tasks).2.1 ≤ work s tasks := by
  fun_induction drain tasks with
  | case1 => exact Nat.le_refl _
  | case2 t rest block hp blocks left failure hd ih =>
    rw [hd] at ih
    simp only [work_cons] at ih ⊢
    omega
  | case3 t rest f hp =>
    simp only [work_cons]
    omega
  | case4 => exact Nat.le_refl _

/-- Every event takes some of the work away. -/
theorem work_step_lt (s : Setting) (cancelAt : Option Rat) {st st' : State}
    (h : step s cancelAt st = (st', none)) : work s st'.tasks < work s st.tasks := by
  have hfill : work s (st.fill s).tasks ≤ work s st.tasks := work_grant_le s _ _ _
  cases steps_of_step h with
  | @happens time _ hn hle => exact Nat.lt_of_lt_of_le (work_fire_lt s _ time hn hle) hfill
  | @passes st'' time _ hn _ hw _ =>
    simp only [State.write, Prod.mk.injEq] at hw
    obtain ⟨rfl, hnone⟩ := hw
    have hnext := nextTime_drain hnone
    have hlt := work_fire_lt s time time (hnext.trans hn) Rat.le_refl
    exact Nat.lt_of_lt_of_le hlt (Nat.le_trans (work_drain_le s _) hfill)

def run (s : Setting) (cancelAt : Option Rat) (st : State) : State × Ending :=
  match _h : step s cancelAt st with
  | (st, some ending) => (st, ending)
  | (st, none) => run s cancelAt st
termination_by work s st.tasks
decreasing_by exact work_step_lt s cancelAt _h

/-- The state in which a store with these keys begins at time `now`, with so many free slots. -/
def State.initial (now : Rat) (free : Nat) (keys : List KeyLine) : State :=
  ⟨now, free, keys.map fun key => ⟨key, .waiting⟩, [], [], 0, []⟩

end Schedule

end ReplicaCensus
