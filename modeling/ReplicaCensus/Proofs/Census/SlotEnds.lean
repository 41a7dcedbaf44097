import Mathlib
import ReplicaCensus.Proofs.Census.SlotSteps
/-!
# The slots of a store that is cancelled

A key that is cancelled gives up waiting for a slot, or returns the one it holds when its fetch has
ended. Only with a time limit may it return the slot before: if it is cancelled while its fetch is
being closed, it abandons the fetch.
-/

namespace ReplicaCensus.Schedule

open SlotBook (Follows busy)

variable {s : Setting} {slots n : Nat}

/-! ## 1. Keys that are cancelled -/

theorem isWaiting_cancel (s : Setting) (now : Rat) (t : Task) :
    (t.cancel s now).1.isWaiting = false := by
  rcases cancel_cases s now t with ⟨result, hphase, h⟩ | ⟨f, stray, h, -⟩ | ⟨r, r', -, h, -⟩
  · rw [h, Task.isWaiting, hphase]
  · rw [h]
    rfl
  · rw [h]
    rfl

theorem waiting_cancelAll (s : Setting) (now : Rat) (tasks : List Task) :
    waiting (cancelAll s now tasks).1 = 0 := by
  induction tasks with
  | nil => rfl
  | cons t rest ih =>
    show waiting ((t.cancel s now).1 :: (cancelAll s now rest).1) = 0
    rw [waiting_cons_of_not (isWaiting_cancel s now t), ih]

theorem length_cancelAll (s : Setting) (now : Rat) (tasks : List Task) :
    (cancelAll s now tasks).1.length = tasks.length := by
  induction tasks with
  | nil => rfl
  | cons t rest ih => exact congrArg (· + 1) ih

/-- A key that is cancelled begins no fetch. -/
theorem targets_yields (s : Setting) (now : Rat) (k : Nat) (t : Task) :
    (t.yields s now k).filterMap SlotEvent.target? = [] := by
  unfold Task.yields
  dsimp only
  split
  · rfl
  split
  · split <;> rfl
  · rfl

theorem targets_yields_all (s : Setting) (now : Rat) (tasks : List Task) :
    (yields s now tasks).filterMap SlotEvent.target? = [] := by
  induction tasks with
  | nil => rfl
  | cons t rest ih => rw [yields, List.filterMap_append, targets_yields, ih, List.append_nil]

theorem targets_frontLog (s : Setting) (st : State) :
    (frontLog s st).filterMap SlotEvent.target? = [] := by
  unfold frontLog
  split
  · rfl
  · rw [List.filterMap_append, targets_yields]
    rfl

/-- A key that is cancelled, and where that leaves the slots. -/
theorem follows_yields (slots n : Nat) (store : String) (s : Setting) {w : Nat} (now : Rat)
    {t : Task} {k : Nat} {held : Finset Nat} (hheld : t.isReading = true → k ∈ held)
    (hwaits : t.isWaiting = true → w = k + 1) :
    Follows slots (busy store w held n) (t.yields s now k)
      (busy store (if t.isWaiting then k else w)
        (if t.isReading && !(t.cancel s now).1.isReading then held.erase k else held)
        (n + (t.cancel s now).2.toList.length)) := by
  unfold Task.yields
  dsimp only
  cases hw : t.isWaiting with
  | true =>
    obtain rfl := hwaits hw
    have hphase := isWaiting_iff.1 hw
    have hr : t.isReading = false := by rw [Task.isReading, hphase]
    have hstray : (t.cancel s now).2 = none := by rw [Task.cancel, hphase]
    rw [hr, hstray]
    exact SlotBook.follows_gaveUp
  | false =>
    cases hr : t.isReading with
    | false =>
      have hstray : (t.cancel s now).2 = none := by
        rcases cancel_cases s now t with ⟨result, -, h⟩ | ⟨f, stray, h, hopen⟩ | ⟨r, r', -, h, -⟩
        · rw [h]
        · by_contra hne
          rw [h] at hne
          obtain ⟨-, r, hphase, -⟩ := hopen hne
          rw [Task.isReading, hphase] at hr
          cases hr
        · rw [h]
      rw [hstray]
      exact .nil _
    | true =>
      have hmem := hheld hr
      cases hr' : (t.cancel s now).1.isReading with
      | true =>
        have hstray : (t.cancel s now).2 = none := by
          rcases cancel_cases s now t with ⟨result, -, h⟩ | ⟨f, stray, h, -⟩ | ⟨r, r', -, h, -⟩
          · rw [h]
          · rw [h] at hr'
            cases hr'
          · rw [h]
        rw [hstray]
        exact .nil _
      | false =>
        cases (t.cancel s now).2 with
        | none => exact SlotBook.follows_ended_returned hmem
        | some due => exact SlotBook.follows_abandoned hmem

/-- A key of a list that is cancelled, the slots in front and behind being as they are. -/
theorem follows_yields_cons (slots n : Nat) (store : String) (s : Setting) (now : Rat) {t : Task}
    {rest : List Task} {held : Finset Nat} (hheld : ∀ k ∈ held, rest.length + 1 ≤ k)
    (hw : WaitsLast (t :: rest)) :
    Follows slots (busy store (waiting (t :: rest)) (held ∪ readingAt (t :: rest)) n)
      (t.yields s now rest.length)
      (busy store (waiting rest) (heldBy held (t.cancel s now).1 rest.length ∪ readingAt rest)
        (n + (t.cancel s now).2.toList.length)) := by
  have hreading : t.isReading = true → rest.length ∈ held ∪ readingAt (t :: rest) := by
    intro hr
    rw [readingAt, if_pos hr]
    exact Finset.mem_union_right _ (Finset.mem_insert_self _ _)
  have hwaits : t.isWaiting = true → waiting (t :: rest) = rest.length + 1 := by
    intro ht
    rw [waiting_cons_of_waiting ht, (hw.behind ht).1]
  have hfollows := follows_yields slots n store s now hreading hwaits
  have hwaiting : (if t.isWaiting then rest.length else waiting (t :: rest)) = waiting rest := by
    cases ht : t.isWaiting with
    | true => exact (hw.behind ht).1.symm
    | false => exact waiting_cons_of_not ht rest
  have hholders : (if t.isReading && !(t.cancel s now).1.isReading then
        (held ∪ readingAt (t :: rest)).erase rest.length else held ∪ readingAt (t :: rest)) =
      heldBy held (t.cancel s now).1 rest.length ∪ readingAt rest := by
    have hslot := returned_cancel s now t
    rw [union_readingAt_cons]
    unfold heldBy
    cases hr : t.isReading with
    | false =>
      rw [hr, Task.returned, hr] at hslot
      cases hr' : (t.cancel s now).1.isReading with
      | false => rfl
      | true =>
        rw [hr'] at hslot
        cases hslot
    | true =>
      cases (t.cancel s now).1.isReading with
      | false => exact erase_front hheld
      | true => rfl
  rwa [hwaiting, hholders] at hfollows

/-- All keys are cancelled, in file order. -/
theorem follows_yields_all (slots n : Nat) (store : String) (s : Setting) (now : Rat)
    (tasks : List Task) {held : Finset Nat} (hheld : ∀ k ∈ held, tasks.length ≤ k)
    (hw : WaitsLast tasks) :
    Follows slots (busy store (waiting tasks) (held ∪ readingAt tasks) n) (yields s now tasks)
      (busy store 0 (held ∪ readingAt (cancelAll s now tasks).1)
        (n + (cancelAll s now tasks).2.2.length)) := by
  induction tasks generalizing held n with
  | nil => exact .nil _
  | cons t rest ih =>
    have hfirst := follows_yields_cons slots n store s now hheld hw
    have hmore := ih (n + (t.cancel s now).2.toList.length)
      (@le_of_mem_heldBy held (t.cancel s now).1 rest.length hheld) (List.pairwise_cons.1 hw).2
    have hlength : (cancelAll s now (t :: rest)).2.2.length =
        (t.cancel s now).2.toList.length + (cancelAll s now rest).2.2.length :=
      List.length_append
    have hreading : held ∪ readingAt (cancelAll s now (t :: rest)).1 =
        heldBy held (t.cancel s now).1 rest.length ∪ readingAt (cancelAll s now rest).1 := by
      show held ∪ readingAt ((t.cancel s now).1 :: (cancelAll s now rest).1) = _
      rw [union_readingAt_cons, length_cancelAll]
    rw [yields, hlength, hreading, ← Nat.add_assoc]
    exact hfirst.append hmore

theorem seen_cancelAll {st : State} (ho : Orderly slots st) :
    Seen s slots n st (cancelLog s st) (st.cancelAll s) := by
  have hfollows := follows_yields_all slots (n + st.strays.length) s.schema.name s st.now st.tasks
    (fun k hk => absurd hk (Finset.notMem_empty k)) ho.waitsLast
  rw [Finset.empty_union, Finset.empty_union] at hfollows
  have hwaiting : waiting (st.cancelAll s).tasks = 0 := waiting_cancelAll s st.now st.tasks
  have hseen : Seen s slots n st (yields s st.now st.tasks) (st.cancelAll s) := by
    refine ⟨?_, ?_, ?_, ?_, ho.peak_le⟩
    · have hbook : (st.cancelAll s).book s n = busy s.schema.name 0
          (readingAt (cancelAll s st.now st.tasks).1)
          (n + st.strays.length + (cancelAll s st.now st.tasks).2.2.length) := by
        rw [State.book, hwaiting, Nat.add_assoc]
        exact congrArg (fun m => busy _ 0 _ (n + m)) List.length_append
      rw [hbook]
      exact hfollows
    · rw [targets_yields_all, List.append_nil]
      rfl
    · -- no key waits any more
      refine List.pairwise_of_forall_mem_list fun t ht u _ hwaits => ?_
      have hnone := List.countP_eq_zero.1 hwaiting t ht
      exact absurd hwaits hnone
    · rw [slots_cancelAll_state, ho.slots_eq]
  exact hseen.note

/-- The task in front is cancelled when it has a fetch open. -/
theorem seen_cancelFront {st : State} {t : Task} {rest : List Task} (ho : Orderly slots st)
    (htasks : st.tasks = t :: rest) (ht : t.isDone = false) :
    Seen s slots n st (frontLog s st) (st.cancelFront s).1 := by
  have hw := ho.waitsLast
  rw [htasks] at hw
  have hfollows := follows_yields_cons slots (n + st.strays.length) s.schema.name s st.now
    (fun k hk => absurd hk (Finset.notMem_empty k)) hw
  rw [Finset.empty_union] at hfollows
  have hpeak := ho.peak_le
  rw [← peak_cancelFront s st] at hpeak
  have hslots := ho.slots_eq
  rw [← slots_cancelFront s st] at hslots
  have hstrays : (st.cancelFront s).1.strays.length =
      st.strays.length + (t.cancel s st.now).2.toList.length := by
    unfold State.cancelFront
    rw [htasks]
    dsimp only
    split <;> exact List.length_append
  have hlog : frontLog s st = t.yields s st.now rest.length ++ [(st.cancelFront s).1.note] := by
    rw [frontLog, htasks]
  have hseen : ∀ left, (st.cancelFront s).1.tasks = left → WaitsLast left →
      waiting left = waiting rest →
      readingAt left = heldBy ∅ (t.cancel s st.now).1 rest.length ∪ readingAt rest →
      Seen s slots n st (t.yields s st.now rest.length) (st.cancelFront s).1 := by
    rintro left rfl hlast hwaiting hreading
    refine ⟨?_, ?_, hlast, hslots, hpeak⟩
    · rw [State.book, State.book, htasks, hwaiting, hreading, hstrays, ← Nat.add_assoc]
      exact hfollows
    · rw [calls_cancelFront, targets_yields, List.append_nil]
  have hrest := (List.pairwise_cons.1 hw).2
  have hleft : (st.cancelFront s).1.tasks =
      if (t.cancel s st.now).1.isReading then (t.cancel s st.now).1 :: rest else rest := by
    unfold State.cancelFront
    rw [htasks]
    dsimp only
    rcases cancel_cases s st.now t with ⟨result, hphase, -⟩ | ⟨f, stray, h, -⟩ | ⟨r, r', -, h, -⟩
    · rw [Task.isDone, hphase] at ht
      cases ht
    · rw [h]
      rfl
    · rw [h]
      rfl
  rw [hlog]
  refine (hseen _ hleft ?_ ?_ ?_).note
  · split
    · exact WaitsLast.cons (isWaiting_cancel s st.now t) hrest
    · exact hrest
  · split
    · exact waiting_cons_of_not (isWaiting_cancel s st.now t) rest
    · rfl
  · split
    · next hr => rw [← union_readingAt_cons, Finset.empty_union]
    · next hr => rw [heldBy, if_neg hr, Finset.empty_union]

/-! ## 2. The whole run and its cleaning up -/

/-- All that happens in a store up to its ending is allowed, whether or not it is cancelled. -/
theorem seen_out (s : Setting) (cancelAt : Option Rat) {st : State} (ho : Orderly slots st) :
    Seen s slots n st (outLog s cancelAt st) (runOut s cancelAt st).1 := by
  have hrun := seen_run (n := n) s cancelAt ho
  have hruns := runsOut_runOut s cancelAt st
  unfold outLog
  generalize runOut s cancelAt st = result at hruns
  obtain ⟨last, ending, pending⟩ := result
  dsimp only at hruns ⊢
  cases hruns with
  | ends heq hne =>
    rw [heq] at hrun ⊢
    cases ending with
    | cancelled => exact absurd rfl hne
    | _ => rwa [List.append_nil]
  | stops heq htasks ht hfront =>
    rw [heq] at hrun ⊢
    have hcut := hrun.trans (seen_cancelFront hrun.orderly htasks ht)
    rw [hfront] at hcut
    dsimp only
    rw [hfront, List.append_nil]
    exact hcut
  | @goesOn mid _ _ t rest r r' heq htasks hphase _ _ hfront hlast =>
    rw [heq] at hrun ⊢
    have ht : t.isDone = false := by rw [Task.isDone, hphase]
    have hcut := hrun.trans (seen_cancelFront hrun.orderly htasks ht)
    rw [hfront] at hcut
    have hmore := seen_run (n := n) s none hcut.orderly
    rw [hlast] at hmore
    dsimp only
    rw [hfront, ← List.append_assoc]
    exact hcut.trans hmore

theorem seen_unwind (s : Setting) (cancelAt : Option Rat) {st : State} (ho : Orderly slots st)
    (hnone : waiting st.tasks = 0) :
    Seen s slots n st (unwindLog s cancelAt st) (unwind s cancelAt st).1 := by
  fun_induction unwind s cancelAt st with
  | case1 st hn =>
    unfold unwindLog
    split
    · exact .nil ho
    · next time htime =>
      rw [hn] at htime
      cases htime
  | case2 st time hn hc =>
    unfold unwindLog
    split
    · next hnone' =>
      rw [hn] at hnone'
      cases hnone'
    · next time' htime =>
      obtain rfl : time = time' := Option.some.inj (hn.symm.trans htime)
      rw [if_pos hc]
      exact seen_still (.refl st) ho _ fun _ => .inr hnone
  | case3 st time hn hc ih =>
    unfold unwindLog
    split
    · next hnone' =>
      rw [hn] at hnone'
      cases hnone'
    · next time' htime =>
      obtain rfl : time = time' := Option.some.inj (hn.symm.trans htime)
      rw [if_neg hc]
      have hfire := seen_fireAt (s := s) (n := n) (.refl st) ho time fun _ => .inr hnone
      have hstill : waiting (st.fireAt s time).tasks = 0 :=
        (waiting_fire s time st.tasks).trans hnone
      exact hfire.trans (ih hfire.orderly hstill)

/-- So is all that happens while the store is cleaned up. -/
theorem seen_abort (s : Setting) (cancelAt : Option Rat) {st : State} (ho : Orderly slots st) :
    Seen s slots n st (abortLog s cancelAt st) (st.abort s cancelAt).1 := by
  have hcancelled := seen_cancelAll (s := s) (n := n) ho
  have hfirst := hcancelled.trans
    (seen_unwind s cancelAt hcancelled.orderly (waiting_cancelAll s st.now st.tasks))
  unfold abortLog State.abort
  generalize unwind s cancelAt (st.cancelAll s) = result at hfirst ⊢
  obtain ⟨mid, hit⟩ := result
  dsimp only at hfirst ⊢
  cases hit with
  | false =>
    rw [List.append_nil]
    exact hfirst
  | true =>
    have hagain := seen_cancelAll (s := s) (n := n) hfirst.orderly
    exact hfirst.trans (hagain.trans
      (seen_unwind s none hagain.orderly (waiting_cancelAll s mid.now mid.tasks)))

theorem orderly_initial (now : Rat) {free : Nat} (keys : List KeyLine) :
    Orderly free (.initial now free keys) ∧
      waiting (State.initial now free keys).tasks = keys.length := by
  have hall : ∀ t ∈ (State.initial now free keys).tasks, t.isWaiting = true := by
    intro t ht
    obtain ⟨key, -, rfl⟩ := List.mem_map.1 ht
    rfl
  refine ⟨⟨List.pairwise_of_forall_mem_list fun t _ u hu _ => hall u hu,
    slots_initial now free keys, Nat.zero_le _⟩, ?_⟩
  exact (List.countP_eq_length.2 hall).trans (List.length_map _)

/-! ## 3. Fetches that are abandoned -/

/-- Without a limit a key waits for its fetch to end, however often it is cancelled. -/
theorem stray_of_limit (hlimit : s.limit = none) (now : Rat) (t : Task) :
    (t.cancel s now).2 = none := by
  rcases cancel_cases s now t with ⟨result, -, h⟩ | ⟨f, stray, h, hstray⟩ | ⟨r, r', -, h, -⟩
  · rw [h]
  · rw [h]
    by_contra hne
    exact (hstray hne).1 hlimit
  · rw [h]

theorem strays_cancelAll_of_limit (hlimit : s.limit = none) (st : State) :
    (st.cancelAll s).strays = st.strays := by
  have hnone : ∀ tasks, (cancelAll s st.now tasks).2.2 = [] := by
    intro tasks
    induction tasks with
    | nil => rfl
    | cons t rest ih =>
      show (t.cancel s st.now).2.toList ++ (cancelAll s st.now rest).2.2 = []
      rw [stray_of_limit hlimit, ih]
      rfl
  show st.strays ++ (cancelAll s st.now st.tasks).2.2 = st.strays
  rw [hnone, List.append_nil]

theorem strays_cancelFront_of_limit (hlimit : s.limit = none) (st : State) :
    (st.cancelFront s).1.strays = st.strays := by
  unfold State.cancelFront
  split
  · rfl
  · next t rest htasks =>
    have hstray := stray_of_limit hlimit st.now t
    dsimp only
    rw [hstray, Option.toList_none, List.append_nil]
    split <;> rfl

theorem strays_runOut_of_limit (hlimit : s.limit = none) (cancelAt : Option Rat) (st : State) :
    (runOut s cancelAt st).1.strays = st.strays := by
  have hrun := strays_run s cancelAt st
  unfold runOut
  split
  · next mid hmid =>
    rw [hmid] at hrun
    have hfront := strays_cancelFront_of_limit hlimit mid
    split
    · next last ending hlast =>
      rw [hlast] at hfront
      exact hfront.trans hrun
    · next next hnext =>
      rw [hnext] at hfront
      exact (strays_run s none next).trans (hfront.trans hrun)
  · next hmid =>
    rw [hmid] at hrun
    exact hrun

theorem strays_unwind (s : Setting) (cancelAt : Option Rat) (st : State) :
    (unwind s cancelAt st).1.strays = st.strays := by
  fun_induction unwind s cancelAt st with
  | case1 => rfl
  | case2 => rfl
  | case3 st time hn hc ih => exact ih

theorem strays_abort_of_limit (hlimit : s.limit = none) (cancelAt : Option Rat) (st : State) :
    (st.abort s cancelAt).1.strays = st.strays := by
  have hfirst := strays_unwind s cancelAt (st.cancelAll s)
  rw [strays_cancelAll_of_limit hlimit] at hfirst
  unfold State.abort
  split
  · next mid hmid =>
    rw [hmid] at hfirst
    dsimp only
    rw [strays_unwind, strays_cancelAll_of_limit hlimit, hfirst]
  · next mid hmid =>
    rw [hmid] at hfirst
    exact hfirst

/-- No fetch is abandoned where keys have no limit, or where fetches end at once when they are
cancelled. -/
theorem strays_eq_nil (h : s.limit = none ∨ s.source.Prompt) (cancelAt pending : Option Rat)
    (now : Rat) (free : Nat) (keys : List KeyLine) :
    let last := (runOut s cancelAt (.initial now free keys)).1
    last.strays = [] ∧ (last.abort s pending).1.strays = [] := by
  dsimp only
  rcases h with hlimit | hprompt
  · have hnone : (runOut s cancelAt (.initial now free keys)).1.strays = [] :=
      strays_runOut_of_limit hlimit cancelAt _
    exact ⟨hnone, (strays_abort_of_limit hlimit pending _).trans hnone⟩
  · have hunclosed := (runsOut_runOut s cancelAt (.initial now free keys)).unclosed hprompt
      (unclosed_initial now free keys)
    refine ⟨hunclosed.strays, ?_⟩
    rw [abort_of_prompt hprompt]
    show _ ++ (cancelAll s _ _).2.2 = []
    rw [hunclosed.strays, strays_cancelAll s _ hunclosed.tasks]
    rfl

/-- When all keys are done, only abandoned fetches can be open. -/
theorem length_openUntil_le {st : State} (h : openFetches st.tasks = 0) :
    st.openUntil.length ≤ st.strays.length := by
  have hnone : st.tasks.filterMap Task.due? = [] := by
    rw [List.filterMap_eq_nil_iff]
    intro t ht
    have hreading := List.countP_eq_zero.1 h t ht
    unfold Task.isReading at hreading
    unfold Task.due?
    cases hphase : t.phase with
    | waiting => rfl
    | reading r =>
      rw [hphase] at hreading
      exact absurd rfl hreading
    | done result => rfl
  rw [State.openUntil, hnone, List.nil_append]
  exact List.length_filter_le _ _

end ReplicaCensus.Schedule
