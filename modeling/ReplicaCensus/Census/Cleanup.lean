import ReplicaCensus.Census.Schedule
/-!
# The end of a run -- cancelling tasks and waiting for them

A run that is cancelled passes the cancellation on to the task in front, which it is waiting for,
and goes on until that task is done. A run that ends before its time cancels the tasks that are
left, and waits until they are done. This takes as long as their fetches take to end, and a
cancellation may come meanwhile: then they are cancelled once more.
-/

namespace ReplicaCensus.Schedule

/-! ## 1. Cancelling tasks -/

/-- Cancels a task, and tells when the fetch ends that it leaves behind, if it leaves one. Without a
limit a task ends as its fetch does. With a limit it ends with the cancellation; it waits for its
fetch to end, but not if the fetch is being closed already. -/
def Task.cancel (s : Setting) (now : Rat) (t : Task) : Task × Option Rat :=
  match t.phase with
  | .done _ => (t, none)
  | .waiting => (⟨t.key, .done (.error .cancelled)⟩, none)
  | .reading r =>
    match s.limit, r.closing with
    | none, _ => (⟨t.key, close s now t.key r id⟩, none)
    | some _, none => (⟨t.key, close s now t.key r fun _ => .cancelled⟩, none)
    | some _, some _ => (⟨t.key, .done (.error .cancelled)⟩, some r.due)

/-- The slots that a task returns from one state to another. -/
def Task.returned (old new : Task) : Nat := if old.isReading && !new.isReading then 1 else 0

/-- Cancels tasks, and tells how many slots they return and when the fetches end that they leave
behind. -/
def cancelAll (s : Setting) (now : Rat) : List Task → List Task × Nat × List Rat
  | [] => ([], 0, [])
  | t :: rest =>
    let (t', stray) := t.cancel s now
    let (rest, returned, strays) := cancelAll s now rest
    (t' :: rest, t.returned t' + returned, stray.toList ++ strays)

def State.cancelAll (s : Setting) (st : State) : State :=
  let (tasks, returned, strays) := Schedule.cancelAll s st.now st.tasks
  { st with free := st.free + returned, tasks := tasks, strays := st.strays ++ strays }

/-- Cancels the task in front. If it is done at once the run ends with it. -/
def State.cancelFront (s : Setting) (st : State) : State × Option Ending :=
  match st.tasks with
  -- while time passes there is a task in front
  | [] => (st, some (.failed .cancelled))
  | t :: rest =>
    let (t', stray) := t.cancel s st.now
    let st := { st with free := st.free + t.returned t', strays := st.strays ++ stray.toList }
    match t'.phase with
    | .done (.error f) => ({ st with tasks := rest }, some (.failed f))
    | _ => ({ st with tasks := t' :: rest }, none)

/-! ## 2. The whole run -/

/-- Runs a store to its end, and tells the cancellation that is still to come. One that comes is
spent on the task in front. -/
def runOut (s : Setting) (cancelAt : Option Rat) (st : State) : State × Ending × Option Rat :=
  match run s cancelAt st with
  | (st, .cancelled) =>
    match st.cancelFront s with
    | (st, some ending) => (st, ending, none)
    | (st, none) =>
      let (st, ending) := run s none st
      (st, ending, none)
  | (st, ending) => (st, ending, cancelAt)

/-! ## 3. Cleaning up -/

/-- Waits for tasks that were cancelled, until they are done or a cancellation comes. -/
def unwind (s : Setting) (cancelAt : Option Rat) (st : State) : State × Bool :=
  match _h : nextTime st.tasks with
  | none => (st, false)
  | some time =>
    if comesFirst cancelAt time then ({ st with now := cancelTime st.now cancelAt }, true)
    else unwind s cancelAt (st.fireAt s time)
termination_by work s st.tasks
decreasing_by exact work_fire_lt s time time _h Rat.le_refl

/-- Cancels all tasks and waits for them. If a cancellation comes meanwhile they are cancelled once
more, and waited for all the same. -/
def State.abort (s : Setting) (cancelAt : Option Rat) (st : State) : State × Bool :=
  match unwind s cancelAt (st.cancelAll s) with
  | (st, true) => ((unwind s none (st.cancelAll s)).1, true)
  | (st, false) => (st, false)

def Task.due? (t : Task) : Option Rat :=
  match t.phase with
  | .reading r => some r.due
  | _ => none

/-- When the fetches end that are open in a state. -/
def State.openUntil (st : State) : List Rat :=
  st.tasks.filterMap Task.due? ++ st.strays.filter fun due => st.now < due

end ReplicaCensus.Schedule
