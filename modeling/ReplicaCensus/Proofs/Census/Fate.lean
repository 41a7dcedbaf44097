import Mathlib
import ReplicaCensus.Proofs.Census.Pool
import ReplicaCensus.Proofs.Census.Sequential
/-!
# What becomes of a task does not depend on the others

From the moment a task has its slot, only its own fetches decide how it ends. So every task has a
fate that no event changes: starting it, letting it proceed or another task's events. The fate of a
task that waits is what its key comes to by itself, whenever it gets its slot.
-/

namespace ReplicaCensus.Schedule

/-! ## 1. One task -/

/-- Asks nodes one after the other from time `now` on, up to a deadline. -/
def askUntil (s : Setting) (key : KeyLine) (deadline : Option Rat) (now : Rat)
    (answers : List (List String)) : List Int → Except Failure String
  | [] => .ok (Block.ofAnswers key.2 answers)
  | node :: rest =>
    let fetch := s.fetch key answers.length node
    let due := if fetch.delay < 0 then now else now + fetch.delay
    if deadline.any (· < due) then .error fetch.timedOut
    else
      match fetch.answer with
      | .error f => .error f
      | .ok versions => askUntil s key deadline due (answers ++ [versions]) rest

/-- How a task ends. -/
def Task.fate (s : Setting) (t : Task) : Except Failure String :=
  match t.phase with
  | .waiting => ask s t.key
  | .reading r =>
    match r.closing with
    | some f => .error f
    | none =>
      let fetch := s.fetch t.key r.answers.length r.node
      if r.deadline.any (· < r.due) then .error (fetch.closing r.cancels).failure.afterTimeout
      else
        match fetch.answer with
        | .error f => .error f
        | .ok versions => askUntil s t.key r.deadline r.due (r.answers ++ [versions]) r.rest
  | .done result => result

theorem deadline_eq (s : Setting) (now : Rat) :
    s.deadline now = (s.limit.bind Seconds.span?).map (now + ·) := by
  unfold Setting.deadline
  cases s.limit <;> rfl

-- what matters is how far the deadline is away, not when the key got its slot
theorem askUntil_eq_askFrom (s : Setting) (key : KeyLine) (began spent : Rat)
    (answers : List (List String)) (nodes : List Int) :
    askUntil s key (s.deadline began) (began + spent) answers nodes =
      askFrom s key spent answers nodes := by
  -- a task notes when its fetch is due, its key by itself how long it took: one is the other since
  -- `began`
  induction nodes generalizing spent answers with
  | nil => rfl
  | cons node rest ih =>
    unfold askUntil askFrom
    have hdue : (if (s.fetch key answers.length node).delay < 0 then began + spent
        else began + spent + (s.fetch key answers.length node).delay) =
        began + if (s.fetch key answers.length node).delay < 0 then spent
          else spent + (s.fetch key answers.length node).delay := by
      split
      · rfl
      · rw [add_assoc]
    -- the limit has run out at one and the same moment
    have hoverdue : ∀ t, (s.deadline began).any (· < began + t) = s.isOverdue t := by
      intro t
      rw [deadline_eq, Setting.isOverdue]
      cases s.limit.bind Seconds.span? with
      | none => rfl
      | some span => simp
    dsimp only
    rw [hdue, hoverdue]
    generalize (if (s.fetch key answers.length node).delay < 0 then spent
      else spent + (s.fetch key answers.length node).delay) = spent'
    split
    · rfl
    · cases (s.fetch key answers.length node).answer with
      | error f => rfl
      | ok versions => exact ih _ _

theorem next_lt_due_iff (r : Reading) : r.next < r.due ↔ r.deadline.any (· < r.due) = true := by
  unfold Reading.next
  -- with a limit, what comes next is the earlier of the two times
  cases r.deadline with
  | none => simp
  | some deadline =>
    simp only [Option.any_some, decide_eq_true_eq]
    split
    · next h => exact ⟨fun hlt => absurd hlt (lt_irrefl _), fun hlt => absurd h (not_le.2 hlt)⟩
    · exact Iff.rfl

theorem fate_openFetch (s : Setting) (now : Rat) (key : KeyLine) (node : Int) (rest : List Int)
    (answers : List (List String)) (deadline : Option Rat) :
    Task.fate s ⟨key, (openFetch s now key node rest answers deadline).1⟩ =
      askUntil s key deadline now answers (node :: rest) := rfl

/-- A task that gets its slot ends as its key does by itself. -/
theorem fate_start (s : Setting) (now : Rat) (key : KeyLine) :
    Task.fate s ⟨key, (start s now key).1⟩ = ask s key := by
  unfold start ask
  split
  -- a limit that is not positive is over before any node is asked
  · rfl
  · split
    · rfl
    · split
      · next h => rw [h]; rfl
      · next h => rw [h]; rfl
      · next node rest h =>
        rw [h, fate_openFetch]
        show _ = askFrom s key 0 [] (node :: rest)
        -- the task asks from `now` on, the key by itself from the beginning of its time on
        rw [← askUntil_eq_askFrom s key now 0, add_zero]

theorem fate_closing (s : Setting) (key : KeyLine) {r : Reading} {f : Failure}
    (h : r.closing = some f) : Task.fate s ⟨key, .reading r⟩ = .error f := by
  simp only [Task.fate, h]

theorem fate_reading (s : Setting) (key : KeyLine) {r : Reading} (h : r.closing = none) :
    Task.fate s ⟨key, .reading r⟩ =
      if r.deadline.any (· < r.due) then
        .error ((s.fetch key r.answers.length r.node).closing r.cancels).failure.afterTimeout
      else
        match (s.fetch key r.answers.length r.node).answer with
        | .error f => .error f
        | .ok versions => askUntil s key r.deadline r.due (r.answers ++ [versions]) r.rest := by
  simp only [Task.fate, h]

/-- However long it takes, a fetch that is being closed ends with the failure it is known to. -/
theorem fate_close (s : Setting) (now : Rat) (key : KeyLine) (r : Reading)
    (how : Failure → Failure) :
    Task.fate s ⟨key, close s now key r how⟩ =
      .error (how ((s.fetch key r.answers.length r.node).closing r.cancels).failure) := by
  rcases close_cases s now key r how with ⟨-, h⟩ | ⟨-, h⟩
  · rw [h]
    rfl
  · rw [h, fate_closing s key rfl]

theorem fate_proceed (s : Setting) (key : KeyLine) (r : Reading) :
    Task.fate s ⟨key, (proceed s key r).1⟩ = Task.fate s ⟨key, .reading r⟩ := by
  unfold proceed
  cases hclosing : r.closing with
  | some f => exact (fate_closing s key hclosing).symm
  | none =>
    rw [fate_reading s key hclosing]
    dsimp only
    -- the first case is the end of the time, the second the end of the fetch
    by_cases h : r.next < r.due
    · rw [if_pos h, if_pos ((next_lt_due_iff r).1 h)]
      exact fate_close s r.next key r .afterTimeout
    · rw [if_neg h, if_neg (mt (next_lt_due_iff r).2 h)]
      cases (s.fetch key r.answers.length r.node).answer with
      | error f => rfl
      | ok versions => cases r.rest <;> rfl

/-! ## 2. All tasks -/

theorem fate_waiting (s : Setting) {t : Task} (h : t.phase = .waiting) :
    Task.fate s t = ask s t.key := by
  rw [Task.fate, h]

theorem fate_of_reading (s : Setting) {t : Task} {r : Reading} (h : t.phase = .reading r) :
    Task.fate s t = Task.fate s ⟨t.key, .reading r⟩ := by
  rw [← h]

theorem fate_done (s : Setting) {t : Task} {result : Except Failure String}
    (h : t.phase = .done result) : Task.fate s t = result := by
  rw [Task.fate, h]

theorem map_fate_grant (s : Setting) (now : Rat) (free : Nat) (tasks : List Task) :
    (grant s now free tasks).1.map (Task.fate s) = tasks.map (Task.fate s) := by
  fun_induction grant s now free tasks with
  | case1 => rfl
  | case2 => rfl
  | case3 free t rest hphase phase calls hstart t' rest' left more hgrant ih =>
    -- only this task is new, and starting it leaves its fate alone
    have ht : Task.fate s t' = Task.fate s t := by
      rw [fate_waiting s hphase, ← fate_start s now t.key, hstart]
    rw [hgrant] at ih
    rw [List.map_cons, List.map_cons, ht]
    exact congrArg (List.cons _) ih
  | case4 free t rest rest' left calls hgrant _ ih =>
    rw [hgrant] at ih
    exact congrArg (List.cons _) ih

theorem map_fate_fire (s : Setting) (now : Rat) (tasks : List Task) :
    (fire s now tasks).1.map (Task.fate s) = tasks.map (Task.fate s) := by
  fun_induction fire s now tasks with
  | case1 => rfl
  | case2 t rest r hphase hnext phase calls hproceed t' =>
    have ht := fate_proceed s t.key r
    rw [hproceed] at ht
    rw [List.map_cons, List.map_cons, ht, fate_of_reading s hphase]
  | case3 t rest r hphase hnext rest' returned calls hfire ih =>
    rw [hfire] at ih
    exact congrArg (List.cons _) ih
  | case4 t rest rest' returned calls hfire _ ih =>
    rw [hfire] at ih
    exact congrArg (List.cons _) ih

/-- A failure in front of what is left. -/
def failing (failure : Option Failure) (rest : List (Except Failure String)) :
    List (Except Failure String) :=
  match failure with
  | some f => .error f :: rest
  | none => rest

theorem map_fate_drain (s : Setting) (tasks : List Task) :
    (drain tasks).1.map .ok ++ failing (drain tasks).2.2 ((drain tasks).2.1.map (Task.fate s)) =
      tasks.map (Task.fate s) := by
  fun_induction drain tasks with
  | case1 => rfl
  | case2 t rest block hphase blocks left failure hdrain ih =>
    rw [hdrain] at ih
    rw [List.map_cons, List.map_cons, fate_done s hphase, ← ih]
    rfl
  -- the tasks behind a failure stay as they are
  | case3 t rest f hphase =>
    rw [List.map_cons, fate_done s hphase]
    rfl
  | case4 => rfl

/-- Whether a task is done. -/
def Task.isDone (t : Task) : Bool :=
  match t.phase with
  | .done _ => true
  | _ => false

theorem isDone_of_not (t : Task) (hw : t.phase ≠ .waiting) (hr : t.isReading = false) :
    t.isDone = true := by
  unfold Task.isDone
  unfold Task.isReading at hr
  cases hp : t.phase with
  | waiting => exact absurd hp hw
  | reading r => rw [hp] at hr; exact absurd hr.symm Bool.false_ne_true
  | done result => rfl

theorem start_ne_waiting (s : Setting) (now : Rat) (key : KeyLine) :
    (start s now key).1 ≠ .waiting := by
  rcases start_cases s now key with ⟨result, h⟩ | ⟨r, h⟩
  · rw [h]
    exact Phase.noConfusion
  · rw [h]
    exact Phase.noConfusion

/-- With a slot left to give, no task is left waiting unless some task is reading. -/
theorem isDone_of_grant (s : Setting) (now : Rat) (free : Nat) (tasks : List Task)
    (hleft : 0 < (grant s now free tasks).2.1)
    (h : ∀ t ∈ (grant s now free tasks).1, t.isReading = false) :
    ∀ t ∈ (grant s now free tasks).1, t.isDone = true := by
  fun_induction grant s now free tasks with
  | case1 => exact fun t ht => absurd ht List.not_mem_nil
  | case2 => exact absurd hleft (Nat.lt_irrefl 0)
  | case3 free t rest hphase phase calls hstart t' rest' left more hgrant ih =>
    -- the task in front holds no slot, so there is one for the next
    have hread : t'.isReading = false := h t' List.mem_cons_self
    have hwait : t'.phase ≠ .waiting := by
      have hne := start_ne_waiting s now t.key
      rw [hstart] at hne
      exact hne
    simp only [hread, Bool.false_eq_true, if_false] at hgrant ih
    rw [hgrant] at ih
    rw [List.forall_mem_cons] at h ⊢
    exact ⟨isDone_of_not t' hwait hread, ih hleft h.2⟩
  | case4 free t rest rest' left calls hgrant hwait ih =>
    rw [hgrant] at ih
    rw [List.forall_mem_cons] at h ⊢
    exact ⟨isDone_of_not t hwait h.1, ih hleft h.2⟩

theorem drain_of_isDone {tasks : List Task} (h : ∀ t ∈ tasks, t.isDone = true)
    (hd : (drain tasks).2.2 = none) : (drain tasks).2.1 = [] := by
  fun_induction drain tasks with
  | case1 => rfl
  | case2 t rest block hphase blocks left failure hdrain ih =>
    rw [hdrain] at ih
    exact ih (List.forall_mem_cons.1 h).2 hd
  | case3 t rest f hphase => exact absurd hd (Option.some_ne_none f)
  -- a task that is neither is not done
  | case4 t rest hok herror =>
    have ht := (List.forall_mem_cons.1 h).1
    unfold Task.isDone at ht
    split at ht
    · next result hp =>
      cases result with
      | ok block => exact absurd hp (hok block)
      | error f => exact absurd hp (herror f)
    · exact absurd ht Bool.false_ne_true

/-! ## 3. The run -/

/-- How the tasks of a state end: those that are written did well. -/
def State.fates (s : Setting) (st : State) : List (Except Failure String) :=
  st.blocks.map .ok ++ st.tasks.map (Task.fate s)

/-- What the end of a run says of the tasks it began with. -/
def Accounts (fates : List (Except Failure String)) (cancelAt : Option Rat) (st : State) :
    Ending → Prop
  | .complete => fates = st.blocks.map .ok
  | .failed f => ∃ rest, fates = st.blocks.map .ok ++ .error f :: rest
  | .cancelled => cancelAt ≠ none
  | .interrupted => .error .interrupted ∈ fates

theorem fates_fill (s : Setting) (st : State) : (st.fill s).fates s = st.fates s := by
  show st.blocks.map .ok ++ (grant s st.now _ st.tasks).1.map (Task.fate s) = _
  rw [map_fate_grant]
  rfl

theorem fates_fireAt (s : Setting) (time : Rat) (st : State) :
    (st.fireAt s time).fates s = st.fates s := by
  show st.blocks.map .ok ++ (fire s time st.tasks).1.map (Task.fate s) = _
  rw [map_fate_fire]
  rfl

theorem fates_write (s : Setting) (st : State) :
    st.fates s = st.write.1.blocks.map .ok ++
      failing st.write.2 (st.write.1.tasks.map (Task.fate s)) := by
  show _ = (st.blocks ++ (drain st.tasks).1).map .ok ++ failing (drain st.tasks).2.2 _
  rw [List.map_append, List.append_assoc]
  exact congrArg _ (map_fate_drain s st.tasks).symm

theorem interrupted_mem_fates (s : Setting) {st : State}
    (h : st.tasks.any Task.isInterrupted = true) : .error .interrupted ∈ st.fates s := by
  obtain ⟨t, ht, hi⟩ := List.any_eq_true.1 h
  refine List.mem_append_right _ (List.mem_map.2 ⟨t, ht, ?_⟩)
  unfold Task.isInterrupted at hi
  split at hi
  · next hp => exact fate_done s hp
  · exact absurd hi Bool.false_ne_true

-- the slots were filled and nothing is left to happen, so the tasks are all written
theorem write_of_nextTime_none (s : Setting) {st : State} (hs : 0 < st.slots)
    (hn : nextTime (st.fill s).tasks = none) (hw : (st.fill s).write.2 = none) :
    (st.fill s).write.1.tasks = [] := by
  have hread := nextTime_eq_none hn
  -- a slot is left, so there was one to give
  have hleft : 0 < (grant s st.now st.free st.tasks).2.1 := by
    have hslots := slots_fill s st
    have hopen : openFetches (st.fill s).tasks = 0 := openFetches_eq_zero hread
    rw [State.slots, hopen, Nat.add_zero] at hslots
    exact lt_of_lt_of_eq hs hslots.symm
  exact drain_of_isDone (isDone_of_grant s st.now st.free st.tasks hleft hread) hw

theorem fates_step (s : Setting) (cancelAt : Option Rat) {st st' : State}
    (h : step s cancelAt st = (st', none)) : st'.fates s = st.fates s := by
  cases steps_of_step h with
  | happens => rw [fates_fireAt, fates_fill]
  | passes _ _ _ hw _ =>
    -- no failure stands in front, so writing only moves blocks out of the tasks
    have hfates := fates_write s (st.fill s)
    rw [hw] at hfates
    rw [fates_fireAt, ← fates_fill s st]
    exact hfates.symm

theorem accounts_step (s : Setting) (cancelAt : Option Rat) {st st' : State} (hs : 0 < st.slots)
    {ending : Ending} (h : step s cancelAt st = (st', some ending)) :
    Accounts (st.fates s) cancelAt st' ending := by
  have hfates := fates_write s (st.fill s)
  rw [fates_fill] at hfates
  cases steps_of_step h with
  | interrupted hi => exact interrupted_mem_fates s hi
  | complete _ hn hw =>
    -- nothing is left to come and nothing failed: all tasks are written
    have hnil := write_of_nextTime_none s hs hn (by rw [hw])
    rw [hw] at hfates hnil
    rw [hfates, hnil]
    exact List.append_nil _
  | failed _ _ hw =>
    rw [hw] at hfates
    exact ⟨_, hfates⟩
  | cancelled _ _ _ _ hc =>
    -- without a signal there is no time that could come first
    show cancelAt ≠ none
    intro hnone
    rw [hnone] at hc
    exact absurd hc Bool.false_ne_true

/-- However the events fall, a run ends as the fates of its tasks in file order say. -/
theorem accounts_run (s : Setting) (cancelAt : Option Rat) {st : State} (hs : 0 < st.slots) :
    Accounts (st.fates s) cancelAt (run s cancelAt st).1 (run s cancelAt st).2 := by
  -- by induction on the run: no step changes the fates, and the last one accounts for them
  fun_induction run s cancelAt st with
  | case1 st st' ending h => exact accounts_step s cancelAt hs h
  | case2 st st' h ih => rw [← fates_step s cancelAt h]; exact ih (slots_step h ▸ hs)

/-! ## 4. The keys in file order -/

theorem fates_initial (s : Setting) (now : Rat) (free : Nat) (keys : List KeyLine) :
    (State.initial now free keys).fates s = keys.map (ask s) := by
  show [] ++ (keys.map fun key => (⟨key, .waiting⟩ : Task)).map (Task.fate s) = _
  rw [List.nil_append, List.map_map]
  rfl

theorem askInOrder_of_ok (s : Setting) {keys : List KeyLine} {blocks : List String}
    (h : keys.map (ask s) = blocks.map .ok) : askInOrder s keys = (blocks, none) := by
  induction keys generalizing blocks with
  | nil =>
    rw [List.map_nil, eq_comm, List.map_eq_nil_iff] at h
    rw [h]
    rfl
  | cons key rest ih =>
    cases blocks with
    | nil => exact absurd h (List.cons_ne_nil _ _)
    | cons block blocks =>
      rw [List.map_cons, List.map_cons, List.cons.injEq] at h
      rw [askInOrder, h.1, ih h.2]

theorem askInOrder_of_error (s : Setting) {keys : List KeyLine} {blocks : List String} {f : Failure}
    {rest : List (Except Failure String)}
    (h : keys.map (ask s) = blocks.map .ok ++ .error f :: rest) :
    askInOrder s keys = (blocks, some f) := by
  induction keys generalizing blocks with
  | nil => simp at h
  | cons key keys ih =>
    cases blocks with
    | nil =>
      rw [List.map_cons, List.map_nil, List.nil_append, List.cons.injEq] at h
      rw [askInOrder, h.1]
    | cons block blocks =>
      rw [List.map_cons, List.map_cons, List.cons_append, List.cons.injEq] at h
      rw [askInOrder, h.1, ih h.2]

section

variable {s : Setting} {key : KeyLine} {P : Failure → Prop}

/-- What running out of time and all failures of the fetches have in common, a failure of the key
has. -/
theorem failure_of_askFrom (htime : ∀ q, P (s.source.fetch q).timedOut)
    (hfetch : ∀ q f, (s.source.fetch q).answer = .error f → P f)
    {spent : Rat} {answers : List (List String)} {nodes : List Int} {f : Failure}
    (hf : askFrom s key spent answers nodes = .error f) : P f := by
  induction nodes generalizing spent answers with
  | nil => exact absurd hf (by simp [askFrom])
  | cons node rest ih =>
    unfold askFrom at hf
    dsimp only at hf
    generalize (if (s.fetch key answers.length node).delay < 0 then spent else _) = t at hf
    split at hf
    · cases hf
      exact htime _
    · split at hf
      · next g hg =>
        cases hf
        exact hfetch _ _ hg
      · exact ih hf

theorem failure_of_ask (hexpired : P .timedOut) (hunusable : P .limitTooLarge)
    (htime : ∀ q, P (s.source.fetch q).timedOut)
    (hreplicas : ∀ f, s.source.replicas s.schema key.2 = .error f → P f)
    (hfetch : ∀ q f, (s.source.fetch q).answer = .error f → P f)
    {f : Failure} (hf : ask s key = .error f) : P f := by
  unfold ask at hf
  split at hf
  · cases hf
    exact hexpired
  · split at hf
    · cases hf
      exact hunusable
    · split at hf
      · next g hg =>
        cases hf
        exact hreplicas _ hg
      · exact failure_of_askFrom htime hfetch hf

end

theorem isOrdinary_ask {s : Setting} (h : s.source.Ordinary) {key : KeyLine} {f : Failure}
    (hf : ask s key = .error f) : f.isOrdinary = true := by
  refine failure_of_ask (P := fun f => f.isOrdinary = true) rfl rfl ?_ ?_ h.fetch hf
  · exact fun q => (s.source.fetch q).isOrdinary_timedOut
  · exact fun f => h.replicas s.schema key.2 f

/-- The ending that an order of the keys calls for. -/
def endingOf : Option Failure → Ending
  | none => .complete
  | some f => .failed f

/-- Without a signal, a run writes the blocks of the keys in order, up to the first that fails. -/
theorem run_eq_askInOrder {s : Setting} (h : s.source.Ordinary) (now : Rat) {free : Nat}
    (hfree : 0 < free) (keys : List KeyLine) :
    (run s none (.initial now free keys)).1.blocks = (askInOrder s keys).1 ∧
      (run s none (.initial now free keys)).2 = endingOf (askInOrder s keys).2 := by
  have ha := @accounts_run s none (.initial now free keys) (by rwa [slots_initial])
  rw [fates_initial] at ha
  generalize (run s none (.initial now free keys)).1 = st at ha
  cases he : (run s none (.initial now free keys)).2 with
  | complete =>
    rw [he] at ha
    rw [askInOrder_of_ok s ha]
    exact ⟨rfl, rfl⟩
  | failed f =>
    rw [he] at ha
    obtain ⟨rest, hrest⟩ := ha
    rw [askInOrder_of_error s hrest]
    exact ⟨rfl, rfl⟩
  -- no signal was given
  | cancelled =>
    rw [he] at ha
    exact absurd rfl ha
  | interrupted =>
    rw [he] at ha
    -- only a task can be interrupted, and no answer of the source says so
    obtain ⟨key, -, hkey⟩ := List.mem_map.1 ha
    exact absurd (isOrdinary_ask h hkey) Bool.false_ne_true

theorem isOrdinary_askInOrder {s : Setting} (h : s.source.Ordinary) {keys : List KeyLine}
    {f : Failure} (hf : (askInOrder s keys).2 = some f) : f.isOrdinary = true := by
  induction keys with
  | nil => exact absurd hf (by simp [askInOrder])
  | cons key rest ih =>
    unfold askInOrder at hf
    split at hf
    · next g hg =>
      cases hf
      exact isOrdinary_ask h hg
    · exact ih hf

end ReplicaCensus.Schedule
