import Mathlib
import ReplicaCensus.Proofs.Census.SlotEnds
/-!
# The slots of a census are a bound

Whatever a source answers and whenever a run is cancelled, all that happens to the slots of a census
is allowed by the book of the slots, from the first store to the last. All slots are free between
two stores, and a store leaves no fetch open but those that its keys have abandoned.
-/

namespace ReplicaCensus

open SlotBook (Follows)

/-! ## 1. Entering and leaving a store -/

namespace Schedule

/-- When a store is entered all its keys wait. -/
theorem after_entered (s : Setting) (now : Rat) (free : Nat) (keys : List KeyLine) (n : Nat) :
    (SlotBook.idle n).after (.entered s.schema.name keys.length) =
      (State.initial now free keys).book s n := by
  have hreading : readingAt (State.initial now free keys).tasks = ∅ := by
    rw [← Finset.card_eq_zero, card_readingAt]
    refine openFetches_eq_zero fun t ht => ?_
    obtain ⟨key, -, rfl⟩ := List.mem_map.1 ht
    rfl
  rw [State.book, (@orderly_initial now free keys).2, hreading]
  rfl

/-- A store can be left when no key holds a slot. -/
theorem follows_left (slots : Nat) (s : Setting) (n : Nat) {last : State}
    (h : openFetches last.tasks = 0) :
    Follows slots (last.book s n) [.left] (.idle (n + last.strays.length)) := by
  have hempty : readingAt last.tasks = ∅ := by
    rw [← Finset.card_eq_zero, card_readingAt, h]
  rw [State.book, hempty]
  exact SlotBook.follows_one ⟨rfl, rfl⟩ rfl

end Schedule

namespace Census

variable {c : Census} {schema : Schema} {now : Rat} {free : Nat} {cancelAt pending : Option Rat}

/-! ## 2. One store -/

/-- Where a store ends before its time, what is left of it is what its cleaning up leaves. -/
theorem conclude_cleaned (c : Census) (schema : Schema) (opened : FileTree)
    (st : Schedule.State) (cancelAt : Option Rat) {ending : Schedule.Ending}
    (h : ending ≠ .complete) :
    ∃ pending, Schedule.endingLog (c.setting schema) cancelAt st ending =
        Schedule.abortLog (c.setting schema) pending st ∧
      (c.conclude schema opened st cancelAt ending).openUntil =
        (st.abort (c.setting schema) pending).1.openUntil ∧
      (c.conclude schema opened st cancelAt ending).peak = st.peak := by
  rcases c.conclude_cases schema opened st cancelAt ending with
    ⟨hcomplete, -⟩ | ⟨left, hleft, hnone, hcleaned⟩
  · exact absurd hcomplete h
  refine ⟨left, ?_, hcleaned.openUntil, hcleaned.peak⟩
  cases ending with
  | complete => exact absurd rfl h
  | interrupted =>
    rw [hnone rfl]
    rfl
  | _ =>
    rw [hleft Schedule.Ending.noConfusion]
    rfl

/-- A complete store has no fetch to leave open. -/
theorem conclude_done (c : Census) (schema : Schema) (opened : FileTree) {st : Schedule.State}
    (cancelAt : Option Rat) (htasks : st.tasks = []) (hstrays : st.strays = []) :
    (c.conclude schema opened st cancelAt .complete).openUntil = [] ∧
      (c.conclude schema opened st cancelAt .complete).peak = st.peak := by
  have hnone : (st.cancelAll (c.setting schema)).openUntil = [] := by
    simp [Schedule.State.cancelAll, htasks, Schedule.cancelAll, Schedule.State.openUntil, hstrays]
  have hunwound : Schedule.unwind (c.setting schema) cancelAt (st.cancelAll (c.setting schema)) =
      (st.cancelAll (c.setting schema), false) := by
    unfold Schedule.unwind
    split
    · rfl
    · next time htime => simp [Schedule.State.cancelAll, htasks, Schedule.cancelAll,
        Schedule.nextTime] at htime
  rcases c.conclude_cases schema opened st cancelAt .complete with
    ⟨-, published, hend⟩ | ⟨left, hleft, -, hcleaned⟩
  · rw [hend]
    refine ⟨?_, rfl⟩
    show st.openUntil = []
    rw [Schedule.State.openUntil, htasks, hstrays]
    rfl
  · obtain rfl := hleft Schedule.Ending.noConfusion
    rw [hcleaned.openUntil, hcleaned.peak, Schedule.State.abort, hunwound]
    exact ⟨hnone, rfl⟩

/-- What is seen of a store from the moment it is entered, when `n` fetches have been abandoned, to
the moment it is left, when there are `m` more. Only these can be open then. -/
structure StoreRun.Seen (r : StoreRun) (c : Census) (free n m : Nat) (log : List SlotEvent) :
    Prop where
  follows : Follows free (.idle n) log (.idle (n + m))
  targets : (r.calls.map Call.target).Sublist (log.filterMap SlotEvent.target?)
  openFetches_le : r.openFetches ≤ m
  peak_le : r.peak ≤ free
  none_abandoned : c.limit = none ∨ c.source.Prompt → m = 0

/-- The last state of a store is the one after its cleaning up, if there is one. -/
theorem exists_last (hfree : 0 < free) (opened : FileTree) {keys : List KeyLine} (n : Nat)
    {st : Schedule.State} {ending : Schedule.Ending}
    (hout : Schedule.runOut (c.setting schema) cancelAt (.initial now free keys) =
      (st, ending, pending)) :
    ∃ last, Schedule.Seen (c.setting schema) free n st
        (Schedule.endingLog (c.setting schema) pending st ending) last ∧
      Schedule.openFetches last.tasks = 0 ∧
      (c.conclude schema opened st pending ending).openFetches ≤ last.strays.length ∧
      (c.conclude schema opened st pending ending).peak ≤ free ∧
      (c.limit = none ∨ c.source.Prompt → last.strays = []) := by
  obtain ⟨horderly, -⟩ := @Schedule.orderly_initial now free keys
  have hseen := Schedule.seen_out (n := n) (c.setting schema) cancelAt horderly
  have hruns := Schedule.runsOut_runOut (c.setting schema) cancelAt (.initial now free keys)
  have hnone := fun h left =>
    Schedule.strays_eq_nil (s := c.setting schema) h cancelAt left now free keys
  rw [hout] at hseen hruns hnone
  dsimp only at hseen hruns hnone
  by_cases hcomplete : ending = .complete
  · subst hcomplete
    obtain ⟨hrun, -, htasks, -⟩ := hruns.complete (by rw [horderly.slots_eq]; exact hfree)
    have hstrays := Schedule.strays_run (c.setting schema) cancelAt (.initial now free keys)
    rw [hrun] at hstrays
    obtain ⟨huntil, hpeak⟩ := c.conclude_done schema opened pending htasks hstrays
    refine ⟨st, .nil hseen.orderly, by rw [htasks]; rfl, ?_, ?_, fun _ => hstrays⟩
    · rw [StoreRun.openFetches, huntil]
      exact Nat.zero_le _
    · rw [hpeak]
      exact hseen.orderly.peak_le
  · obtain ⟨left, hlog, huntil, hpeak⟩ := c.conclude_cleaned schema opened st pending hcomplete
    have hzero := (Schedule.abort_spec (c.setting schema) left st).1
    refine ⟨(st.abort (c.setting schema) left).1, ?_, hzero, ?_, ?_, fun h => (hnone h left).2⟩
    · rw [hlog]
      exact Schedule.seen_abort (c.setting schema) left hseen.orderly
    · rw [StoreRun.openFetches, huntil]
      exact Schedule.length_openUntil_le hzero
    · rw [hpeak]
      exact hseen.orderly.peak_le

/-- A store that asks for keys, from the moment it is entered to the moment it is left. -/
theorem seen_conclude (c : Census) (schema : Schema) (now : Rat) (hfree : 0 < free)
    (cancelAt : Option Rat) (opened : FileTree) (keys : List KeyLine) (n : Nat) :
    let s := c.setting schema
    let out := Schedule.runOut s cancelAt (.initial now free keys)
    ∃ m, (c.conclude schema opened out.1 out.2.2 out.2.1).Seen c free n m
      (.entered schema.name keys.length ::
        (Schedule.outLog s cancelAt (.initial now free keys) ++
          Schedule.endingLog s out.2.2 out.1 out.2.1 ++ [.left])) := by
  dsimp only
  have horderly := (@Schedule.orderly_initial now free keys).1
  have hseen := Schedule.seen_out (n := n) (c.setting schema) cancelAt horderly
  cases hout : Schedule.runOut (c.setting schema) cancelAt (.initial now free keys) with
  | mk st rest =>
    obtain ⟨ending, pending⟩ := rest
    rw [hout] at hseen
    obtain ⟨last, hlast, hdone, hopen, hpeak, hstrays⟩ := exists_last hfree opened n hout
    dsimp only at hseen ⊢
    refine ⟨last.strays.length, ?_, ?_, hopen, hpeak, fun h => by rw [hstrays h]; rfl⟩
    · refine .cons rfl ?_
      have hentered := Schedule.after_entered (c.setting schema) now free keys n
      rw [show schema.name = (c.setting schema).schema.name from rfl, hentered]
      have hleft := Schedule.follows_left free (c.setting schema) n hdone
      exact (hseen.follows.append hlast.follows).append hleft
    · -- the cleaning up begins no fetch, and what it takes out of the calls stays in the book
      have hcalls : (c.conclude schema opened st pending ending).calls.Sublist st.calls := by
        rcases calls_conclude schema opened st pending ending with h | h
        · rw [h]
        · rw [h]
          exact List.filter_sublist
      refine (hcalls.map Call.target).trans ?_
      rw [hseen.targets]
      refine List.Sublist.filterMap SlotEvent.target? (List.Sublist.cons _ ?_)
      exact (List.sublist_append_left _ _).trans (List.sublist_append_left _ _)

/-- What happens to the slots while a store is sampled is allowed, from the moment it is entered to
the moment it is left. Of its fetches only those are open at its end that were abandoned. -/
theorem seen_sampleWith (c : Census) (schema : Schema) (now : Rat) (hfree : 0 < free)
    (cancelAt : Option Rat) (tree : FileTree) (n : Nat) :
    ∃ m, (c.sampleWith schema now free cancelAt tree).Seen c free n m
      (c.storeLog schema now free cancelAt tree) := by
  have hidle : ∀ outcome tree', ∃ m,
      (StoreRun.idle outcome tree' now free cancelAt).Seen c free n m [] :=
    fun _ _ => ⟨0, .nil _, .slnil, Nat.zero_le _, Nat.zero_le _, fun _ => rfl⟩
  unfold sampleWith storeLog
  dsimp only
  cases tree.has (c.samplesPath schema.name) with
  | true => exact hidle _ _
  | false =>
    cases tree.has (c.keysPath schema.name) with
    | false => exact hidle _ _
    | true =>
      cases c.openFiles schema.name tree with
      | error f => exact hidle _ _
      | ok found =>
        obtain ⟨keys, opened⟩ := found
        exact seen_conclude c schema now hfree cancelAt opened keys n

theorem seen_sampleFrom (c : Census) (failFast : Bool) (cancelAt : Option Rat)
    (schemas : List Schema) {run : Run} (hfree : run.free = c.slots) {n : Nat}
    (hopen : run.openUntil.length ≤ n) (hpeak : run.peak ≤ c.slots) :
    let log := c.slotLogFrom failFast cancelAt schemas run
    let last := c.sampleFrom failFast cancelAt schemas run
    ∃ m, Follows c.slots (.idle n) log (.idle (n + m)) ∧
      (last.calls.map Call.target).Sublist
        (run.calls.map Call.target ++ log.filterMap SlotEvent.target?) ∧
      last.free = c.slots ∧ last.openUntil.length ≤ n + m ∧ last.peak ≤ c.slots ∧
      (c.limit = none ∨ c.source.Prompt → m = 0) := by
  induction schemas generalizing cancelAt run n with
  | nil => exact ⟨0, .nil _, List.sublist_append_left _ _, hfree, hopen, hpeak, fun _ => rfl⟩
  | cons schema rest ih =>
    have hpos : 0 < run.free := hfree ▸ c.slots_pos
    obtain ⟨m, hseen⟩ := seen_sampleWith c schema run.now hpos cancelAt run.tree n
    have hreturned : (c.sampleWith schema run.now run.free cancelAt run.tree).free = c.slots :=
      (free_sampleWith hpos).trans hfree
    unfold sampleFrom slotLogFrom
    dsimp only
    generalize c.storeLog schema run.now run.free cancelAt run.tree = log at hseen ⊢
    generalize c.sampleWith schema run.now run.free cancelAt run.tree = r at hseen hreturned ⊢
    rw [hfree] at hseen
    -- the run after this store, whatever comes behind it
    have hpeak' : (run.after r).peak ≤ c.slots := max_le hpeak hseen.peak_le
    have hopen' : (run.after r).openUntil.length ≤ n + m := by
      rw [Run.after, List.length_append]
      exact Nat.add_le_add hopen hseen.openFetches_le
    have hcalls : ((run.after r).calls.map Call.target).Sublist
        (run.calls.map Call.target ++ log.filterMap SlotEvent.target?) := by
      rw [Run.after, List.map_append]
      exact (List.Sublist.refl _).append hseen.targets
    cases r.verdict with
    | error signal =>
      dsimp only
      rw [List.append_nil]
      exact ⟨m, hseen.follows, hcalls, hreturned, hopen', hpeak', hseen.none_abandoned⟩
    | ok outcome =>
      dsimp only
      split
      · rw [List.append_nil]
        exact ⟨m, hseen.follows, hcalls, hreturned, hopen', hpeak', hseen.none_abandoned⟩
      · obtain ⟨more, hfollows, hlater, hfree', hend, hpeak'', hnone⟩ :=
          @ih r.cancelAt { run.after r with report := (run.after r).report.add outcome }
            hreturned (n + m) hopen' hpeak'
        refine ⟨m + more, ?_, hlater.trans ?_, hfree', ?_, hpeak'', fun h => ?_⟩
        · rw [← Nat.add_assoc]
          exact hseen.follows.append hfollows
        · rw [List.filterMap_append, ← List.append_assoc]
          exact hcalls.append (List.Sublist.refl _)
        · rw [← Nat.add_assoc]
          exact hend
        · rw [hseen.none_abandoned h, hnone h]

/-! ## 3. The whole census -/

/-- When it is cancelled, the fetch of the second key takes five seconds to end, that of any other a
moment. -/
def stubbornSource : Source where
  replicas _ _ := .ok [0]
  fetch q :=
    ⟨30, .ok [], fun _ => { Closing.prompt with delay := if q.line = 2 then 5 else 1 / 5 }⟩

def stubborn : Census := ⟨stubbornSource, "in", "out", 2, some (.whole 1), Nat.two_pos⟩

/-- A store that is cancelled with two fetches open and its last key waiting. -/
example : uneven.storeLog unevenSchema 0 2 (some (1 / 2)) unevenTree =
    [.entered "s" 3, .took 2, .began 2 "s" 0 [0x61], .took 1, .began 1 "s" 0 [0x62],
      .noted 1 {2, 1}, .passed, .noted 1 {2, 1}, .ended 2, .returned 2, .noted 1 {1}, .ended 1,
      .returned 1, .gaveUp 0, .noted 0 ∅, .left] := by
  decide +kernel

end Census

end ReplicaCensus
