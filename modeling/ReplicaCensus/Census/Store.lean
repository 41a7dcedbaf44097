import ReplicaCensus.Census.Cleanup
import ReplicaCensus.Census.KeyFile
/-!
# Sampling one store -- from its key file to its output file

The output is written to a temporary file that takes its final name when all blocks are there. A
store that fails, or is cancelled, removes its temporary file, unless a signal hits its cleaning up.
A store whose output file is there already is skipped.
-/

namespace ReplicaCensus

/-- What became of a store. -/
inductive Status where
  | sampled
  | skipped
  | failed
  deriving DecidableEq, Repr

namespace Status

def toText : Status → String
  | sampled => "sampled"
  | skipped => "skipped"
  | failed => "failed"

end Status

/-- The result of a store: how many blocks were written, and what went wrong if it failed. -/
structure Outcome where
  store : String
  status : Status
  keys : Nat
  error : Option String
  deriving DecidableEq, Repr

namespace Outcome

def ok (o : Outcome) : Bool := o.status ≠ .failed

end Outcome

/-- What stops a whole run. One that is not `clean` has hit the cleaning up of a store, whose
temporary file stays; after such an interruption nothing that was open gets closed. -/
inductive Signal where
  | cancelled (clean : Bool)
  | interrupted (clean : Bool)
  deriving DecidableEq, Repr

/-- Why there is no census. -/
structure BadParallelism where
  slots : Int
  deriving DecidableEq, Repr

namespace BadParallelism

def message (e : BadParallelism) : String :=
  "parallelism must be at least 1, got " ++ toString e.slots

end BadParallelism

/-- A source with the directories and limits of a run. -/
structure Census where
  source : Source
  inDir : String
  outDir : String
  slots : Nat
  limit : Option Seconds
  slots_pos : 0 < slots

namespace Census

def defaultSlots : Int := 4

/-- Sets a census up; it needs a slot. -/
def make (source : Source) (inDir outDir : String) (slots : Int) (limit : Option Seconds) :
    Except BadParallelism Census :=
  if h : 1 ≤ slots then .ok ⟨source, inDir, outDir, slots.toNat, limit, by omega⟩
  else .error ⟨slots⟩

def keysPath (c : Census) (store : String) : String := FileTree.join c.inDir (store ++ ".keys")

def samplesPath (c : Census) (store : String) : String := FileTree.join c.outDir (store ++ ".kvs")

def partialPath (c : Census) (store : String) : String := c.samplesPath store ++ ".tmp"

def setting (c : Census) (schema : Schema) : Schedule.Setting :=
  ⟨c.source, schema, c.limit⟩

/-- How the run of one store went: its result, the tree it leaves, the fetches it began, when it was
done with its keys and when it ended, the most fetches open at once, the slots that are free then,
when the fetches end that are open still, and the cancellation that is still to come. -/
structure StoreRun where
  verdict : Except Signal Outcome
  tree : FileTree
  calls : List Call
  halted : Rat
  ended : Rat
  peak : Nat
  free : Nat
  openUntil : List Rat
  cancelAt : Option Rat

def StoreRun.openFetches (r : StoreRun) : Nat := r.openUntil.length

/-- The run of a store that asks for no keys. -/
def StoreRun.idle (outcome : Outcome) (tree : FileTree) (now : Rat) (free : Nat)
    (cancelAt : Option Rat) : StoreRun :=
  ⟨.ok outcome, tree, [], now, now, 0, free, [], cancelAt⟩

/-- The keys of a store with their lines, and the tree with an empty temporary file. -/
def openFiles (c : Census) (store : String) (tree : FileTree) :
    Except Failure (List KeyLine × FileTree) :=
  match tree.read (c.keysPath store) with
  | .error e => .error (.raised e.kind e.message)
  | .ok content =>
    -- the whole file is read before anything is written
    let file := KeyFile.read (c.keysPath store) content
    match file.fault with
    | some fault => .error (.raised fault.kind fault.message)
    | none =>
      match tree.write (c.partialPath store) [] with
      | .error e => .error (.raised e.kind e.message)
      | .ok tree => .ok (file.keys, tree)

def contentOf (blocks : List String) : Bytes := Utf8.encode (String.join blocks).toList

def discard (c : Census) (store : String) (tree : FileTree) : FileTree :=
  match tree.remove (c.partialPath store) with
  | .ok tree => tree
  | .error _ => tree

/-- The tree in which the temporary file stays, with the blocks that were written. -/
def abandon (c : Census) (store : String) (blocks : List String) (tree : FileTree) : FileTree :=
  match tree.write (c.partialPath store) (contentOf blocks) with
  | .ok tree => tree
  | .error _ => tree

def publish (c : Census) (store : String) (blocks : List String) (tree : FileTree) :
    Except Failure FileTree :=
  match tree.write (c.partialPath store) (contentOf blocks) with
  | .error e => .error (.raised e.kind e.message)
  | .ok tree =>
    match tree.rename (c.partialPath store) (c.samplesPath store) with
    | .error e => .error (.raised e.kind e.message)
    | .ok tree => .ok tree

def failedOutcome (c : Census) (store : String) (keys : Nat) (f : Failure) : Outcome :=
  ⟨store, .failed, keys, some (f.describe c.limit)⟩

/-- The fetches that were begun before the run of a store was over. -/
def callsBefore (time : Rat) (calls : List Call) : List Call := calls.filter fun c => c.time < time

/-- What is left when a run ends before its time: all tasks are cancelled and waited for, then the
temporary file is removed. A cancellation that comes before that stops the run. -/
def aborted (c : Census) (schema : Schema) (verdict : Except Signal Outcome) (tree : FileTree)
    (st : Schedule.State) (cancelAt : Option Rat) : StoreRun :=
  let calls := callsBefore st.now st.calls
  match st.abort (c.setting schema) cancelAt with
  | (last, false) =>
    ⟨verdict, c.discard schema.name tree, calls, st.now, last.now, st.peak, last.free,
      last.openUntil, cancelAt⟩
  | (last, true) =>
    ⟨.error (.cancelled false), c.abandon schema.name st.blocks tree, calls, st.now, last.now,
      st.peak, last.free, last.openUntil, none⟩

/-- The result of a run that ended. A key that was cancelled cancels the run. An interruption in a
key with a limit hits the cleaning up, too. -/
def conclude (c : Census) (schema : Schema) (tree : FileTree) (st : Schedule.State)
    (cancelAt : Option Rat) : Schedule.Ending → StoreRun
  | .complete =>
    match c.publish schema.name st.blocks tree with
    | .ok tree =>
      ⟨.ok ⟨schema.name, .sampled, st.blocks.length, none⟩, tree, st.calls, st.now, st.now,
        st.peak, st.free, st.openUntil, cancelAt⟩
    | .error f =>
      c.aborted schema (.ok (c.failedOutcome schema.name st.blocks.length f)) tree st cancelAt
  | .failed .cancelled => c.aborted schema (.error (.cancelled true)) tree st cancelAt
  | .failed f =>
    c.aborted schema (.ok (c.failedOutcome schema.name st.blocks.length f)) tree st cancelAt
  | .cancelled => c.aborted schema (.error (.cancelled true)) tree st cancelAt
  | .interrupted =>
    if c.limit.isSome then
      -- the cleaning up never gets to the temporary file
      { c.aborted schema (.error (.interrupted false)) tree st none with
        tree := c.abandon schema.name st.blocks tree }
    else c.aborted schema (.error (.interrupted true)) tree st none

/-- Samples a store, from time `now` on and with so many free slots. -/
def sampleWith (c : Census) (schema : Schema) (now : Rat) (free : Nat) (cancelAt : Option Rat)
    (tree : FileTree) : StoreRun :=
  let store := schema.name
  if tree.has (c.samplesPath store) then .idle ⟨store, .skipped, 0, none⟩ tree now free cancelAt
  else if !tree.has (c.keysPath store) then
    let reason := "keys file " ++ c.keysPath store ++ " does not exist"
    .idle ⟨store, .failed, 0, some reason⟩ tree now free cancelAt
  else
    match c.openFiles store tree with
    | .error f => .idle (c.failedOutcome store 0 f) (c.discard store tree) now free cancelAt
    | .ok (keys, tree) =>
      let (st, ending, cancelAt) :=
        Schedule.runOut (c.setting schema) cancelAt (.initial now free keys)
      c.conclude schema tree st cancelAt ending

/-- Samples a store with all slots free. -/
def sampleStore (c : Census) (schema : Schema) (now : Rat) (cancelAt : Option Rat)
    (tree : FileTree) : StoreRun :=
  c.sampleWith schema now c.slots cancelAt tree

end Census

end ReplicaCensus
