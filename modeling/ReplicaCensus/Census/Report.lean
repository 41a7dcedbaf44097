import ReplicaCensus.Census.Store
/-!
# Sampling all stores -- the report of a run

The stores are sampled one after the other, and share the slots. The report has the outcome of each
store tried; of two stores with one name the later outcome counts, at the earlier one's place.
-/

namespace ReplicaCensus

/-- The outcomes of the stores that were tried. -/
structure Report where
  outcomes : OrderedMap String Outcome
  deriving DecidableEq

namespace Report

def empty : Report := ⟨OrderedMap.empty⟩

def add (r : Report) (o : Outcome) : Report := ⟨r.outcomes.insert o.store o⟩

def failed (r : Report) : List String :=
  (r.outcomes.entries.filter fun e => !e.2.ok).map Prod.fst

def ok (r : Report) : Bool := r.failed.isEmpty

end Report

namespace Census

/-- How far a run is: its report, the tree, the fetches begun, the time, the most fetches of a store
that were open at once, the slots that are free, when the fetches end that stores have left open,
and the signal that stopped it. -/
structure Run where
  report : Report
  tree : FileTree
  calls : List Call
  now : Rat
  peak : Nat
  free : Nat
  openUntil : List Rat
  stopped : Option Signal

/-- The beginning of a run with so many free slots. -/
def Run.initial (free : Nat) (tree : FileTree) : Run := ⟨.empty, tree, [], 0, 0, free, [], none⟩

/-- The fetches that are open now. -/
def Run.openFetches (run : Run) : Nat := run.openUntil.countP fun due => run.now < due

/-- Adds what a store's run did; its result is left out. -/
def Run.after (run : Run) (r : StoreRun) : Run :=
  { run with
    tree := r.tree
    calls := run.calls ++ r.calls
    now := r.ended
    peak := max run.peak r.peak
    free := r.free
    openUntil := run.openUntil ++ r.openUntil }

/-- Samples stores one after the other. With `failFast` the first that fails is the last. -/
def sampleFrom (c : Census) (failFast : Bool) (cancelAt : Option Rat) : List Schema → Run → Run
  | [], run => run
  | schema :: rest, run =>
    let r := c.sampleWith schema run.now run.free cancelAt run.tree
    -- what a store leaves behind counts whether or not it ended well
    let run := run.after r
    match r.verdict with
    | .error signal => { run with stopped := some signal }
    | .ok outcome =>
      let run := { run with report := run.report.add outcome }
      -- a store may have spent the cancellation
      if failFast && !outcome.ok then run else sampleFrom c failFast r.cancelAt rest run

def sampleStores (c : Census) (schemas : List Schema) (failFast : Bool) (cancelAt : Option Rat)
    (tree : FileTree) : Run :=
  sampleFrom c failFast cancelAt schemas (.initial c.slots tree)

end Census

end ReplicaCensus
