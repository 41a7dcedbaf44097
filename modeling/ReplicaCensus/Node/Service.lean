import ReplicaCensus.Client.Transport
import ReplicaCensus.Cluster.Routing
import ReplicaCensus.Cluster.Document
import ReplicaCensus.Node.Request
import ReplicaCensus.Stamp.Json
import ReplicaCensus.Storage
/-!
# Node service -- one node's answers to requests

A node answers about the cluster and about the versions it holds itself, and takes writes. A write
without a clock is one of the node's own: it counts one write of the node on a fresh clock. What is
wrong with a request is looked for in the order body, key, clock, store.
-/

namespace ReplicaCensus

/-- Why a node does not start. -/
inductive StartError where
  | metadata (error : MetadataError)
  | routing (error : RoutingError)
  | ring (error : RingError)

namespace StartError

def kind : StartError → String
  | metadata _ => "MetadataError"
  | routing _ => RoutingError.kind
  | ring error => error.kind

def message : StartError → String
  | metadata error => error.message
  | routing error => error.message
  | ring error => error.message

def isReported : StartError → Bool
  | ring _ => false
  | _ => true

end StartError

/-- A node: its id, what it knows of the cluster, and what it stores. -/
structure Service where
  node : Int
  resolver : Resolver
  schemas : List Schema
  storage : Storage

/-- A status, and the body unless nothing is said about it. -/
structure Answer where
  status : Nat
  body : Option Json

namespace Answer

def refusal (status : Nat) (detail : String) : Answer :=
  ⟨status, some (.obj [("detail", .str detail)])⟩

def success (members : List (String × Json)) : Answer := ⟨200, some (.obj members)⟩

def toResponse (a : Answer) : Response :=
  ⟨a.status, match a.body with
    | some body => Utf8.encode (Json.valueChars .compact 0 body)
    | none => []⟩

end Answer

namespace Service

/-- Starts a node: it has to be a member of the cluster, and every store has to be routable. The
node stores the cluster's stores unless it is handed a storage. -/
def start (node : Int) (cluster : ClusterDescription) (storage : Option Storage) :
    Except StartError Service :=
  match cluster.topology.get node with
  | .error e => .error (.metadata e)
  | .ok _ =>
    match Resolver.ofTopology cluster.topology with
    | .error e => .error (.ring e)
    | .ok resolver =>
      match Resolver.checkAll cluster.schemas resolver with
      | .error e => .error (.routing e)
      | .ok resolver =>
        let names := cluster.schemas.map Schema.name
        .ok ⟨node, resolver, cluster.schemas, storage.getD (Storage.ofNames names)⟩

def title (s : Service) : String := "kv-node-" ++ toString s.node

def badKey (key : String) : Answer :=
  .refusal 400 ("key " ++ Text.quoted key ++ " is not hex encoded")

def unknownStore (store : String) : Answer := .refusal 404 ("unknown store " ++ store)

/-- The clock of a write: the counts it comes with, or one write of the node itself. -/
def clockOf (s : Service) (write : WriteBody) : Except StampFault Clock :=
  if write.counts.isEmpty then .ok (OrderedMap.empty.insert s.node 1)
  else Clock.readMembers (write.counts.map fun e => (e.1, .int e.2)) OrderedMap.empty

def put (s : Service) (request : Request) (store key : String) : Answer × Service :=
  match WriteBody.ofBytes request.body with
  | .error .unreadable => (.refusal 400 "There was an error parsing the body", s)
  | .error .invalid => (⟨422, none⟩, s)
  | .ok write =>
    match Hex.decodeSpaced? key.toList with
    | none => (badKey key, s)
    | some bytes =>
      match s.clockOf write with
      | .error fault => (.refusal 400 fault.message, s)
      | .ok clock =>
        -- only now does the store have to be known
        match s.storage.put store bytes ⟨write.value, ⟨clock, request.now⟩⟩ with
        | .error _ => (unknownStore store, s)
        -- the answer has the version that accounts for the write, which may be an earlier one
        | .ok (stored, storage) =>
          (.success [("status", .str "ok"), ("node", .int s.node),
            ("stored", stored.stamp.toJson)], { s with storage := storage })

def versions (s : Service) (store key : String) : Answer :=
  match Hex.decodeSpaced? key.toList with
  | none => badKey key
  | some bytes =>
    match s.storage.stamps store bytes with
    | .error _ => unknownStore store
    | .ok stamps => .success [("versions", .arr (stamps.map Stamp.toJson))]

def ringJson (s : Service) : Json :=
  .arr (s.resolver.ring.snapshot.map fun p => .arr [.int p.1, .str p.2])

/-- Answers a request; only a write changes the node. -/
def handle (s : Service) (request : Request) : Answer × Service :=
  match Route.ofPath? request.path with
  | none => (.refusal 404 "Not Found", s)
  | some route =>
    if request.method ≠ route.method then (.refusal 405 "Method Not Allowed", s)
    else
      match route with
      | .ping => (.success [("status", .str "ok"), ("node", .int s.node)], s)
      | .cluster => (⟨200, some s.resolver.topology.toJson⟩, s)
      | .stores => (.success [("stores", .arr (s.schemas.map Schema.toJson))], s)
      | .ring => (.success [("node", .int s.node), ("ring", s.ringJson)], s)
      | .versions store key => (s.versions store key, s)
      | .cell store key => s.put request store key

end Service

end ReplicaCensus
