import ReplicaCensus.Text.Hex
/-!
# Consistent-hashing ring -- positions, owners, preference lists

Every node owns `vnodes` positions, where a hash puts its labels `n#0`, `n#1`, …; a label whose
position is taken gets underscores until its position is free. The nodes of a key are those met on
a clockwise walk from the key's own position. The hash is a parameter.
-/

namespace ReplicaCensus

/-- A position with the label that was put there and the node that owns it. -/
structure RingPoint where
  position : Nat
  label : String
  owner : Int
  deriving DecidableEq, Repr

/-- A ring: its points by ascending position, and the nodes in the order of their addition. -/
structure Ring where
  hash : Bytes → Nat
  vnodes : Nat
  points : List RingPoint
  nodes : List Int

/-- Why there is no ring. -/
inductive RingError where
  /-- The number of positions per node has to be positive. -/
  | badVnodes (vnodes : Int)
  /-- No free position ever turns up for a label. -/
  | crowded (label : String)
  deriving DecidableEq, Repr

namespace RingError

def kind : RingError → String
  | badVnodes _ => "ValueError"
  | crowded _ => "RuntimeError"

def message : RingError → String
  | badVnodes vnodes => "vnodes must be positive, got " ++ toString vnodes
  | crowded label => "no free position for " ++ label

end RingError

namespace Ring

/-! ## 1. Adding nodes -/

def label (node : Int) (i : Nat) : String := toString node ++ "#" ++ toString i

def labelBytes (label : String) : Bytes := label.toList.flatMap String.utf8EncodeChar

def isTaken (points : List RingPoint) (position : Nat) : Bool :=
  points.any fun p => p.position = position

/-- A search for a position: the label that is tried, and the points that are there. -/
structure Search where
  hash : Bytes → Nat
  points : List RingPoint
  label : String

namespace Search

def position (s : Search) : Nat := s.hash (labelBytes s.label)

def next (s : Search) : Search := { s with label := s.label ++ "_" }

/-- The first of `label`, `label_`, `label__`, … whose position is free, with that position. The
search has no bound of its own: with none of those positions free it does not end, and has no
value. -/
def run (s : Search) : Option (String × Nat) :=
  -- a taken position is no fault: another label leads elsewhere
  if isTaken s.points s.position then s.next |>.run else some (s.label, s.position)
partial_fixpoint

end Search

def freeLabel (hash : Bytes → Nat) (points : List RingPoint) (label : String) :
    Option (String × Nat) := Search.run ⟨hash, points, label⟩

def insertPoint (p : RingPoint) : List RingPoint → List RingPoint
  | [] => [p]
  | q :: rest => if p.position < q.position then p :: q :: rest else q :: insertPoint p rest

def place (hash : Bytes → Nat) (node : Int) (points : List RingPoint) (i : Nat) :
    Except RingError (List RingPoint) :=
  match freeLabel hash points (label node i) with
  | none => .error (.crowded (label node i))
  | some (label, position) => .ok (insertPoint ⟨position, label, node⟩ points)

/-- Gives a node the positions with numbers `is`, one after the other. -/
def placeAll (hash : Bytes → Nat) (node : Int) :
    List Nat → List RingPoint → Except RingError (List RingPoint)
  | [], points => .ok points
  | i :: is, points =>
    match place hash node points i with
    | .error e => .error e
    | .ok points => placeAll hash node is points

/-- Adds a node; one that is on the ring already changes nothing. -/
def add (ring : Ring) (node : Int) : Except RingError Ring :=
  if ring.nodes.contains node then .ok ring
  else
    match placeAll ring.hash node (List.range ring.vnodes) ring.points with
    | .error e => .error e
    | .ok points => .ok { ring with points := points, nodes := ring.nodes ++ [node] }

def addAll : List Int → Ring → Except RingError Ring
  | [], ring => .ok ring
  | node :: rest, ring =>
    match ring.add node with
    | .error e => .error e
    | .ok ring => addAll rest ring

def empty (hash : Bytes → Nat) (vnodes : Nat) : Ring := ⟨hash, vnodes, [], []⟩

def defaultVnodes : Int := 100

def ofNodes (hash : Bytes → Nat) (vnodes : Int) (nodes : List Int) : Except RingError Ring :=
  if vnodes < 1 then .error (.badVnodes vnodes) else addAll nodes (empty hash vnodes.toNat)

/-! ## 2. Walking clockwise -/

/-- The points in the order of a clockwise walk that starts behind `position`. -/
def clockwise (points : List RingPoint) (position : Nat) : List RingPoint :=
  points.dropWhile (fun p => p.position ≤ position) ++
    points.takeWhile (fun p => p.position ≤ position)

/-- Goes on collecting owners that are not in `found` until there are `limit` of them. -/
def collectOwners (limit : Nat) : List Int → List RingPoint → List Int
  | found, [] => found
  | found, p :: rest =>
    if limit ≤ found.length then found
    else if found.contains p.owner then collectOwners limit found rest
    else collectOwners limit (found ++ [p.owner]) rest

def defaultReplicas : Int := 3

/-- The first `n` distinct nodes met on the walk from the key's position. -/
def replicas (ring : Ring) (key : Bytes) (n : Int) : List Int :=
  collectOwners n.toNat [] (clockwise ring.points (ring.hash key))

def snapshot (ring : Ring) : List (Nat × String) := ring.points.map fun p => (p.position, p.label)

end Ring

end ReplicaCensus
