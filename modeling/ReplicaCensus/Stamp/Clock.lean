import ReplicaCensus.OrderedMap
/-!
# Vector clocks -- how many writes of each node a version has seen

A clock counts writes by node; a node without an entry counts as zero. Clocks are compared node by
node, so two of them may be unordered.
-/

namespace ReplicaCensus

/-- A count for each of some nodes, in the order of their first entries. -/
abbrev Clock := OrderedMap Int Int

/-- How one clock stands to another. -/
inductive Causality where
  | before
  | same
  | after
  | concurrent
  deriving DecidableEq, Repr

namespace Causality

def code : Causality → Int
  | before => -1
  | same => 0
  | after => 1
  | concurrent => 2

end Causality

namespace Clock

def count (c : Clock) (node : Int) : Int := (c.get? node).getD 0

def lessSomewhere (a b : Clock) : Bool :=
  -- a node without an entry in either clock counts zero in both
  (a.keys ++ b.keys).any fun node => count a node < count b node

def compare (a b : Clock) : Causality :=
  match lessSomewhere a b, lessSomewhere b a with
  | true, false => .before
  | false, true => .after
  | false, false => .same
  | true, true => .concurrent

def increment (c : Clock) (node : Int) : Clock := c.insert node (count c node + 1)

def sorted (c : Clock) : List (Int × Int) := c.entries.mergeSort fun a b => a.1 ≤ b.1

def sameEntries (a b : Clock) : Bool :=
  a.size = b.size && a.entries.all fun e => b.get? e.1 = some e.2

end Clock

end ReplicaCensus
