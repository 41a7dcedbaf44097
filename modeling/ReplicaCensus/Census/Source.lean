import ReplicaCensus.Census.Failure
import ReplicaCensus.Cluster.Entry
/-!
# What a census asks

A census asks which nodes hold a key, and what a node holds for it. A key that stands in its file
twice may be answered differently each time, and a fetch may take its time to end when it is
cancelled. It ends with a failure then: a fetcher that catches its cancellation has to pass it on
once it is done with cleaning up.
-/

namespace ReplicaCensus

/-- What is asked for: the store, the key with the number of its line, and the node that is the
replica with this number. -/
structure Query where
  store : String
  line : Nat
  key : Bytes
  replica : Nat
  node : Int
  deriving DecidableEq, Repr

/-- How a fetch ends that is cancelled: after how many seconds, and with what failure. -/
structure Closing where
  delay : Rat
  failure : Failure
  no_interruption : failure ≠ .interrupted

/-- The fetch ends at once, and with nothing but the cancellation. -/
def Closing.prompt : Closing := ⟨0, .cancelled, by decide⟩

/-- What one replica answers for a key, and after how many seconds; and how the fetch ends when it
is cancelled, for the first time and again. -/
structure Fetch where
  delay : Rat
  answer : Except Failure (List String)
  closing : Nat → Closing

/-- A fetch that ends at once when it is cancelled. -/
def Fetch.prompt (delay : Rat) (answer : Except Failure (List String)) : Fetch :=
  ⟨delay, answer, fun _ => .prompt⟩

/-- What a census asks: which nodes hold a key, and what a node holds for it. -/
structure Source where
  replicas : Schema → Bytes → Except Failure (List Int)
  fetch : Query → Fetch

/-- The beginning of a fetch. -/
structure Call where
  time : Rat
  store : String
  node : Int
  key : Bytes
  deriving DecidableEq, Repr

/-- A key with the number of its line. -/
abbrev KeyLine := Nat × Bytes

end ReplicaCensus
