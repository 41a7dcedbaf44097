import Mathlib
import ReplicaCensus.Census.Report
import ReplicaCensus.Proofs.Census.Refinement
/-!
# The stores of a run share the slots

No store keeps a slot: however the run of a store ends, as many slots are free then as when it
began. So every store of a run begins with all slots, as it does in a run of its own.
-/

namespace ReplicaCensus.Census

variable {c : Census} {schema : Schema} {now : Rat} {free : Nat} {cancelAt : Option Rat}
  {tree : FileTree}

theorem free_conclude {st : Schedule.State} {ending : Schedule.Ending}
    (h : ending = .complete → st.tasks = []) (cancelAt : Option Rat) :
    (c.conclude schema tree st cancelAt ending).free = st.slots := by
  rcases c.conclude_cases schema tree st cancelAt ending with
    ⟨hcomplete, published, hend⟩ | ⟨left, -, -, hcleaned⟩
  · rw [hend, Schedule.State.slots, h hcomplete]
    rfl
  · rw [hcleaned.free]
    exact Schedule.free_abort (c.setting schema) left st

/-- The state in which a store begins has these slots. -/
theorem slots_pos_initial (hfree : 0 < free) (now : Rat) (keys : List KeyLine) :
    0 < (Schedule.State.initial now free keys).slots := by
  rwa [Schedule.slots_initial]

/-- A store returns all slots it was given. -/
theorem free_sampleWith (hfree : 0 < free) :
    (c.sampleWith schema now free cancelAt tree).free = free := by
  unfold sampleWith
  dsimp only
  split
  · rfl
  split
  · rfl
  split
  · rfl
  · next keys opened hopen =>
    have hslots := Schedule.slots_runOut (c.setting schema) cancelAt (.initial now free keys)
    have hruns := Schedule.runsOut_runOut (c.setting schema) cancelAt (.initial now free keys)
    generalize Schedule.runOut (c.setting schema) cancelAt (.initial now free keys) = result
      at hslots hruns
    obtain ⟨st, ending, pending⟩ := result
    rw [Schedule.slots_initial] at hslots
    refine Eq.trans (free_conclude ?_ pending) hslots
    rintro rfl
    exact (hruns.complete (slots_pos_initial hfree now keys)).2.2.1

theorem free_sampleStore (c : Census) (schema : Schema) (now : Rat) (cancelAt : Option Rat)
    (tree : FileTree) : (c.sampleStore schema now cancelAt tree).free = c.slots :=
  free_sampleWith c.slots_pos

/-- Samples stores one after the other, each with all slots. -/
def sampleEach (c : Census) (failFast : Bool) (cancelAt : Option Rat) : List Schema → Run → Run
  | [], run => run
  | schema :: rest, run =>
    let r := c.sampleStore schema run.now cancelAt run.tree
    let run := run.after r
    match r.verdict with
    | .error signal => { run with stopped := some signal }
    | .ok outcome =>
      let run := { run with report := run.report.add outcome }
      if failFast && !outcome.ok then run else sampleEach c failFast r.cancelAt rest run

/-- Where all slots are free, sharing them makes no difference. -/
theorem sampleFrom_eq_sampleEach (c : Census) (failFast : Bool) (cancelAt : Option Rat)
    (schemas : List Schema) {run : Run} (hfree : run.free = c.slots) :
    c.sampleFrom failFast cancelAt schemas run = c.sampleEach failFast cancelAt schemas run := by
  induction schemas generalizing cancelAt run with
  | nil => rfl
  | cons schema rest ih =>
    have hsame : c.sampleWith schema run.now run.free cancelAt run.tree =
        c.sampleStore schema run.now cancelAt run.tree := by
      rw [hfree, sampleStore]
    have hnext := free_sampleStore c schema run.now cancelAt run.tree
    rw [sampleFrom, sampleEach, hsame]
    dsimp only
    generalize c.sampleStore schema run.now cancelAt run.tree = r at hnext
    cases r.verdict with
    | error signal => rfl
    | ok outcome =>
      dsimp only
      split
      · rfl
      · exact ih r.cancelAt hnext

theorem sampleStores_eq_sampleEach (c : Census) (schemas : List Schema) (failFast : Bool)
    (cancelAt : Option Rat) (tree : FileTree) :
    c.sampleStores schemas failFast cancelAt tree =
      c.sampleEach failFast cancelAt schemas (.initial c.slots tree) :=
  sampleFrom_eq_sampleEach c failFast cancelAt schemas rfl

theorem free_sampleEach (c : Census) (failFast : Bool) (cancelAt : Option Rat)
    (schemas : List Schema) {run : Run} (hfree : run.free = c.slots) :
    (c.sampleEach failFast cancelAt schemas run).free = c.slots := by
  induction schemas generalizing cancelAt run with
  | nil => exact hfree
  | cons schema rest ih =>
    have hnext := free_sampleStore c schema run.now cancelAt run.tree
    rw [sampleEach]
    dsimp only
    generalize c.sampleStore schema run.now cancelAt run.tree = r at hnext
    cases r.verdict with
    | error signal => exact hnext
    | ok outcome =>
      dsimp only
      split
      · exact hnext
      · exact ih r.cancelAt hnext

/-! ## Runs that are not cancelled -/

theorem cancelAt_sampleStore_none (c : Census) (schema : Schema) (now : Rat) (tree : FileTree) :
    (c.sampleStore schema now none tree).cancelAt = none := by
  unfold sampleStore sampleWith
  dsimp only
  split
  · rfl
  split
  · rfl
  split
  · rfl
  · next keys opened hopen =>
    rw [Schedule.runOut_none (c.setting schema) (slots_pos_initial c.slots_pos now keys)]
    dsimp only
    have hcut := fun verdict st => (c.aborted_none schema verdict opened st).2.2
    unfold conclude
    split
    · split
      · rfl
      · exact hcut _ _
    · exact hcut _ _
    · exact hcut _ _
    · exact hcut _ _
    · split
      · exact hcut (.error (.interrupted false)) _
      · exact hcut _ _

end ReplicaCensus.Census
