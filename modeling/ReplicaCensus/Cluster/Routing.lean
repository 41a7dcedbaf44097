import ReplicaCensus.Ring.Basic
import ReplicaCensus.Ring.Sha1
import ReplicaCensus.Cluster.Topology
/-!
# Routing -- which nodes hold a key of a store

A resolver puts a topology's nodes on the ring once. It checks a store before it routes its keys,
and remembers the stores that passed.
-/

namespace ReplicaCensus

/-- Why a store cannot be routed. -/
inductive RoutingError where
  | unknownStrategy (store strategy : String)
  | noNodes
  | tooWide (store : String) (factor : Int) (nodes : Nat)
  | shortWalk (store : String) (found : Nat) (factor : Int)
  deriving DecidableEq, Repr

namespace RoutingError

def kind : String := "TopologyError"

def message : RoutingError → String
  | unknownStrategy store strategy =>
    "store " ++ store ++ ": unknown routing strategy " ++ Text.quoted strategy
  | noNodes => "cluster has no nodes"
  | tooWide store factor nodes =>
    "store " ++ store ++ ": replication factor " ++ toString factor ++ " exceeds cluster size " ++
      toString nodes
  | shortWalk store found factor =>
    "store " ++ store ++ ": ring yielded " ++ toString found ++ " replicas, expected " ++
      toString factor

end RoutingError

/-- A topology with its ring and the stores that were found routable. -/
structure Resolver where
  topology : Topology
  ring : Ring
  checked : List Schema

namespace Resolver

def make (hash : Bytes → Nat) (topology : Topology) : Except RingError Resolver :=
  match Ring.ofNodes hash topology.vnodes topology.nodeIds with
  | .error e => .error e
  | .ok ring => .ok ⟨topology, ring, []⟩

/-- The resolver of a topology; positions are SHA-1 digests. -/
def ofTopology (topology : Topology) : Except RingError Resolver := make Sha1.digest topology

/-- The conditions on a store: a known strategy, a node at all, and no more replicas than nodes. -/
def routable (topology : Topology) (schema : Schema) : Except RoutingError Unit :=
  let count := topology.nodeIds.length
  if !Schema.isKnownStrategy schema.strategy then
    .error (.unknownStrategy schema.name schema.strategy)
  else if count = 0 then .error .noNodes
  -- a store on all nodes takes as many as there are
  else if schema.strategy = Schema.consistentRouting ∧ (count : Int) < schema.replicationFactor then
    .error (.tooWide schema.name schema.replicationFactor count)
  else .ok ()

def check (r : Resolver) (schema : Schema) : Except RoutingError Resolver :=
  -- a store that passed once passes again
  if r.checked.contains schema then .ok r
  else
    match routable r.topology schema with
    | .error e => .error e
    | .ok () => .ok { r with checked := schema :: r.checked }

def checkAll : List Schema → Resolver → Except RoutingError Resolver
  | [], r => .ok r
  | schema :: rest, r =>
    match r.check schema with
    | .error e => .error e
    | .ok r => checkAll rest r

def walk (r : Resolver) (schema : Schema) (key : Bytes) : Except RoutingError (List Int) :=
  if schema.strategy = Schema.allRouting then .ok r.topology.nodeIds
  else
    let found := r.ring.replicas key schema.replicationFactor
    if (found.length : Int) = schema.replicationFactor then .ok found
    else .error (.shortWalk schema.name found.length schema.replicationFactor)

/-- The nodes of a key, the owner of the master position first, and the resolver afterwards. -/
def resolve (r : Resolver) (schema : Schema) (key : Bytes) :
    Except RoutingError (List Int) × Resolver :=
  match r.check schema with
  | .error e => (.error e, r)
  | .ok r => (r.walk schema key, r)

def replicas (r : Resolver) (schema : Schema) (key : Bytes) : Except RoutingError (List Int) :=
  (r.resolve schema key).1

/-- The owner of a key's master position; a store with no replicas has none. -/
def master (r : Resolver) (schema : Schema) (key : Bytes) :
    Except RoutingError (Option Int) × Resolver :=
  let (found, r) := r.resolve schema key
  (found.map List.head?, r)

end Resolver

end ReplicaCensus
