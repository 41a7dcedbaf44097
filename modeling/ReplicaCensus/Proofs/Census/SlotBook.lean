import Mathlib
import ReplicaCensus.Census.Report
/-!
# A book of the slots

Whoever watches a census from outside can keep a book: which keys hold a slot, which have a fetch
open, how many still wait. The rules of the book know nothing of schedules and of virtual time. What
goes into it is told from the states of a run alone, each of them beside the next.
-/

namespace ReplicaCensus

/-! ## 1. The book and its rules -/

/-- What is written down while a census runs: a store is entered, with so many keys; a key takes a
slot, or gives up waiting for one; it begins a fetch; the fetch ends; the slot is returned, or the
key abandons its fetch and returns the slot all the same; time passes; the store is left. In between
it is noted how many keys wait and which have a fetch open. A key goes by the number of keys that
stand behind it in its file. -/
inductive SlotEvent where
  | entered (store : String) (keys : Nat)
  | took (k : Nat)
  | gaveUp (k : Nat)
  | began (k : Nat) (store : String) (node : Int) (key : Bytes)
  | ended (k : Nat)
  | returned (k : Nat)
  | abandoned (k : Nat)
  | passed
  | noted (waiting : Nat) (reading : Finset Nat)
  | left
  deriving DecidableEq

/-- The store that is being sampled, how many of its keys have not had a slot yet, which hold one,
which of these have a fetch open, and how many fetches have been abandoned so far. -/
structure SlotBook where
  store : Option String
  waiting : Nat
  holders : Finset Nat
  fetching : Finset Nat
  abandoned : Nat
  deriving DecidableEq

namespace SlotBook

/-- The book between two stores. -/
def idle (abandoned : Nat) : SlotBook := ⟨none, 0, ∅, ∅, abandoned⟩

def empty : SlotBook := idle 0

-- a slot that is still held when a store is left stays held in the next
def after (b : SlotBook) : SlotEvent → SlotBook
  | .entered store keys => { b with store := some store, waiting := keys }
  | .took k => { b with waiting := b.waiting - 1, holders := insert k b.holders }
  | .gaveUp _ => { b with waiting := b.waiting - 1 }
  | .began k _ _ _ => { b with fetching := insert k b.fetching }
  | .ended k => { b with fetching := b.fetching.erase k }
  | .returned k => { b with holders := b.holders.erase k }
  | .abandoned k =>
    { b with
      holders := b.holders.erase k, fetching := b.fetching.erase k, abandoned := b.abandoned + 1 }
  | .passed => b
  | .noted _ _ => b
  | .left => { b with store := none, waiting := 0 }

/-- The book after all this happened. -/
def ofLog (events : List SlotEvent) : SlotBook := events.foldl after empty

/-- What may happen next. The next key in file order takes a slot, if one is free, or gives up; a key
with a slot begins one fetch at a time, for the store that is being sampled; no key returns its slot
before its fetch has ended, unless it abandons it. Time passes only when no slot is free or no key
waits. A store is entered, and left, with all slots free and none of its keys fetching. -/
def Allows (slots : Nat) (b : SlotBook) : SlotEvent → Prop
  | .entered _ _ => b = idle b.abandoned
  | .took k => k + 1 = b.waiting ∧ k ∉ b.holders ∧ b.holders.card < slots
  | .gaveUp k => k + 1 = b.waiting
  | .began k store _ _ => b.store = some store ∧ k ∈ b.holders ∧ k ∉ b.fetching
  | .ended k => k ∈ b.fetching
  | .returned k => k ∈ b.holders ∧ k ∉ b.fetching
  | .abandoned k => k ∈ b.holders ∧ k ∈ b.fetching
  | .passed => b.holders.card = slots ∨ b.waiting = 0
  | .noted waiting reading => b.waiting = waiting ∧ b.fetching = reading
  | .left => b.holders = ∅ ∧ b.fetching = ∅

instance (slots : Nat) (b : SlotBook) : (event : SlotEvent) → Decidable (b.Allows slots event)
  | .entered _ _ => inferInstanceAs (Decidable (b = idle b.abandoned))
  | .took k =>
    inferInstanceAs (Decidable (k + 1 = b.waiting ∧ k ∉ b.holders ∧ b.holders.card < slots))
  | .gaveUp k => inferInstanceAs (Decidable (k + 1 = b.waiting))
  | .began k store _ _ =>
    inferInstanceAs (Decidable (b.store = some store ∧ k ∈ b.holders ∧ k ∉ b.fetching))
  | .ended k => inferInstanceAs (Decidable (k ∈ b.fetching))
  | .returned k => inferInstanceAs (Decidable (k ∈ b.holders ∧ k ∉ b.fetching))
  | .abandoned k => inferInstanceAs (Decidable (k ∈ b.holders ∧ k ∈ b.fetching))
  | .passed => inferInstanceAs (Decidable (b.holders.card = slots ∨ b.waiting = 0))
  | .noted waiting reading =>
    inferInstanceAs (Decidable (b.waiting = waiting ∧ b.fetching = reading))
  | .left => inferInstanceAs (Decidable (b.holders = ∅ ∧ b.fetching = ∅))

/-- A slot that is not returned keeps the next store out. -/
example : ¬(ofLog [.entered "s" 1, .took 0, .left]).Allows 2 (.entered "t" 1) := by decide

/-- All that happens is allowed, from one book to another. -/
inductive Follows (slots : Nat) : SlotBook → List SlotEvent → SlotBook → Prop where
  | nil (b : SlotBook) : Follows slots b [] b
  | cons {b last : SlotBook} {event : SlotEvent} {rest : List SlotEvent}
    (hallows : b.Allows slots event) (hrest : Follows slots (b.after event) rest last) :
    Follows slots b (event :: rest) last

theorem Follows.append {slots : Nat} {b next last : SlotBook} {events more : List SlotEvent}
    (h : Follows slots b events next) (h' : Follows slots next more last) :
    Follows slots b (events ++ more) last := by
  induction h with
  | nil => exact h'
  | cons hallows _ ih => exact .cons hallows (ih h')

/-- No more slots are held than there are, and only keys with a slot have a fetch open. -/
structure Within (slots : Nat) (b : SlotBook) : Prop where
  holders_le : b.holders.card ≤ slots
  fetching_subset : b.fetching ⊆ b.holders

theorem within_empty (slots : Nat) : Within slots empty := ⟨Nat.zero_le _, subset_rfl⟩

theorem Within.after {slots : Nat} {b : SlotBook} (h : b.Within slots) {event : SlotEvent}
    (hallows : b.Allows slots event) : (b.after event).Within slots := by
  obtain ⟨hle, hsub⟩ := h
  cases event with
  | entered store keys => exact ⟨hle, hsub⟩
  | took k =>
    obtain ⟨-, -, hfree⟩ := hallows
    exact ⟨(Finset.card_insert_le k b.holders).trans hfree,
      hsub.trans (Finset.subset_insert k b.holders)⟩
  | gaveUp k => exact ⟨hle, hsub⟩
  | began k store node key =>
    obtain ⟨-, hholds, -⟩ := hallows
    exact ⟨hle, Finset.insert_subset hholds hsub⟩
  | ended k => exact ⟨hle, (Finset.erase_subset k b.fetching).trans hsub⟩
  | returned k =>
    obtain ⟨-, hidle⟩ := hallows
    exact ⟨(Finset.card_erase_le).trans hle, Finset.subset_erase.2 ⟨hsub, hidle⟩⟩
  | abandoned k => exact ⟨(Finset.card_erase_le).trans hle, Finset.erase_subset_erase k hsub⟩
  | passed => exact ⟨hle, hsub⟩
  | noted waiting reading => exact ⟨hle, hsub⟩
  | left => exact ⟨hle, hsub⟩

/-- What the rules keep, they keep at every moment. -/
theorem Follows.within {slots : Nat} {b last : SlotBook} {events : List SlotEvent}
    (h : Follows slots b events last) (hb : b.Within slots) (n : Nat) :
    ((events.take n).foldl SlotBook.after b).Within slots := by
  induction h generalizing n with
  | nil b =>
    rw [List.take_nil]
    exact hb
  | cons hallows _ ih =>
    cases n with
    | zero => exact hb
    | succ n => exact ih (hb.after hallows) n

end SlotBook

namespace SlotEvent

/-- The fetch that begins: its store, node and key. -/
def target? : SlotEvent → Option (String × Int × Bytes)
  | began _ store node key => some (store, node, key)
  | _ => none

end SlotEvent

def Call.target (call : Call) : String × Int × Bytes := (call.store, call.node, call.key)

/-! ## 2. What is seen of a schedule -/

namespace Schedule

/-- What happened to a key that is now in another phase. A key whose next fetch is open has one
answer more. -/
def Task.changes (store : String) (k : Nat) (old new : Task) : List SlotEvent :=
  match old.phase, new.phase with
  | .waiting, .reading r => [.took k, .began k store r.node new.key.2]
  | .waiting, .done _ => [.took k, .returned k]
  | .reading r, .reading r' =>
    if r.answers.length = r'.answers.length then []
    else [.ended k, .began k store r'.node new.key.2]
  | .reading _, .done _ => [.ended k, .returned k]
  | _, _ => []

def changes (store : String) : List Task → List Task → List SlotEvent
  | old :: olds, new :: news => old.changes store news.length new ++ changes store olds news
  | _, _ => []

def Task.isWaiting (t : Task) : Bool :=
  match t.phase with
  | .waiting => true
  | _ => false

def waiting (tasks : List Task) : Nat := tasks.countP Task.isWaiting

/-- The keys with an open fetch. -/
def readingAt : List Task → Finset Nat
  | [] => ∅
  | t :: rest => if t.isReading then insert rest.length (readingAt rest) else readingAt rest

/-- What happened between two states of a store. Blocks that were written are gone from the front of
the tasks. -/
def State.between (store : String) (st st' : State) : List SlotEvent :=
  (if st.now < st'.now then [.passed] else []) ++
    changes store (st.tasks.drop (st.tasks.length - st'.tasks.length)) st'.tasks ++
    [.noted (waiting st'.tasks) (readingAt st'.tasks)]

-- the slots are filled in each step, but for the one that an interruption ends
def stepLog (s : Setting) (cancelAt : Option Rat) (st : State) : List SlotEvent :=
  if st.tasks.any Task.isInterrupted then []
  else
    st.between s.schema.name (st.fill s) ++
      (st.fill s).between s.schema.name (step s cancelAt st).1

/-- All that is seen of a store from this state on, up to its ending. -/
def runLog (s : Setting) (cancelAt : Option Rat) (st : State) : List SlotEvent :=
  stepLog s cancelAt st ++
    match _h : step s cancelAt st with
    | (_, some _) => []
    | (st', none) => runLog s cancelAt st'
termination_by work s st.tasks
decreasing_by exact work_step_lt s cancelAt _h

/-- What becomes of a key that is cancelled. It gives up waiting; or it ends its fetch, or abandons
it, and returns its slot; or it keeps the slot until the fetch has ended. -/
def Task.yields (s : Setting) (now : Rat) (k : Nat) (t : Task) : List SlotEvent :=
  let (t', stray) := t.cancel s now
  if t.isWaiting then [.gaveUp k]
  else if t.isReading && !t'.isReading then
    if stray.isSome then [.abandoned k] else [.ended k, .returned k]
  else []

def yields (s : Setting) (now : Rat) : List Task → List SlotEvent
  | [] => []
  | t :: rest => t.yields s now rest.length ++ yields s now rest

def State.note (st : State) : SlotEvent := .noted (waiting st.tasks) (readingAt st.tasks)

/-- What is seen when the task in front is cancelled. -/
def frontLog (s : Setting) (st : State) : List SlotEvent :=
  match st.tasks with
  | [] => []
  | t :: rest => t.yields s st.now rest.length ++ [(st.cancelFront s).1.note]

/-- All that is seen of a store up to its ending. -/
def outLog (s : Setting) (cancelAt : Option Rat) (st : State) : List SlotEvent :=
  runLog s cancelAt st ++
    match run s cancelAt st with
    | (mid, .cancelled) =>
      frontLog s mid ++
        match mid.cancelFront s with
        | (_, some _) => []
        | (next, none) => runLog s none next
    | _ => []

/-- What is seen while tasks that were cancelled are waited for. -/
def unwindLog (s : Setting) (cancelAt : Option Rat) (st : State) : List SlotEvent :=
  match _h : nextTime st.tasks with
  | none => []
  | some time =>
    if comesFirst cancelAt time then
      st.between s.schema.name { st with now := cancelTime st.now cancelAt }
    else st.between s.schema.name (st.fireAt s time) ++ unwindLog s cancelAt (st.fireAt s time)
termination_by work s st.tasks
decreasing_by exact work_fire_lt s time time _h Rat.le_refl

def cancelLog (s : Setting) (st : State) : List SlotEvent :=
  yields s st.now st.tasks ++ [(st.cancelAll s).note]

def abortLog (s : Setting) (cancelAt : Option Rat) (st : State) : List SlotEvent :=
  cancelLog s st ++ unwindLog s cancelAt (st.cancelAll s) ++
    match unwind s cancelAt (st.cancelAll s) with
    | (mid, true) => cancelLog s mid ++ unwindLog s none (mid.cancelAll s)
    | _ => []

/-- What is seen after the ending of a store: where it is not complete, it is cleaned up. -/
def endingLog (s : Setting) (cancelAt : Option Rat) (st : State) : Ending → List SlotEvent
  | .complete => []
  -- an interruption leaves no other cancellation to come
  | .interrupted => abortLog s none st
  | _ => abortLog s cancelAt st

end Schedule

/-! ## 3. What is seen of a census -/

namespace Census

def storeLog (c : Census) (schema : Schema) (now : Rat) (free : Nat) (cancelAt : Option Rat)
    (tree : FileTree) : List SlotEvent :=
  if tree.has (c.samplesPath schema.name) then []
  else if !tree.has (c.keysPath schema.name) then []
  else
    match c.openFiles schema.name tree with
    | .error _ => []
    | .ok (keys, _) =>
      let s := c.setting schema
      let (last, ending, pending) := Schedule.runOut s cancelAt (.initial now free keys)
      .entered schema.name keys.length ::
        (Schedule.outLog s cancelAt (.initial now free keys) ++
          Schedule.endingLog s pending last ending ++ [.left])

def slotLogFrom (c : Census) (failFast : Bool) (cancelAt : Option Rat) :
    List Schema → Run → List SlotEvent
  | [], _ => []
  | schema :: rest, run =>
    let r := c.sampleWith schema run.now run.free cancelAt run.tree
    let run' := run.after r
    c.storeLog schema run.now run.free cancelAt run.tree ++
      match r.verdict with
      | .error _ => []
      | .ok outcome =>
        let run' := { run' with report := run'.report.add outcome }
        if failFast && !outcome.ok then [] else slotLogFrom c failFast r.cancelAt rest run'

/-- All that is seen of a census. -/
def slotLog (c : Census) (schemas : List Schema) (failFast : Bool) (cancelAt : Option Rat)
    (tree : FileTree) : List SlotEvent :=
  c.slotLogFrom failFast cancelAt schemas (.initial c.slots tree)

end Census

end ReplicaCensus
