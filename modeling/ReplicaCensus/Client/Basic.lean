import ReplicaCensus.Client.Transport
import ReplicaCensus.Cluster.Topology
import ReplicaCensus.Json.Encoding
import ReplicaCensus.Stamp.Json
import ReplicaCensus.Text.Percent
import ReplicaCensus.Text.Wide
/-!
# Client -- cluster metadata and the stamps of keys, over a transport

A client learns the topology and the stores from a bootstrap node, and reads the stamps of one key
from one node. Nothing is passed over in silence: every fault has a cause of its own. The client
keeps the topology of the last bootstrap whose two requests succeeded so far as the topology goes.
-/

namespace ReplicaCensus

/-- Why the client has no answer. -/
inductive ClientError where
  | transport (f : Failure)
  | status (code : Nat)
  | badBody (url : String) (fault : Json.BodyFault)
  | storesNotObject
  | noVersionList (url : String)
  | badVersion (url : String) (entry : Json) (fault : Option StampFault)
  | infiniteNumber
  | tooDeep (container : Json.Container)
  | notEncodable (fault : EncodeFault)
  | unknownNode (error : MetadataError)
  | description (fault : DescriptionFault)
  | notBootstrapped

namespace ClientError

def kind : ClientError → String
  | transport f => f.kind
  | status _ => "HTTPStatusError"
  | infiniteNumber => ConversionFault.fromInfinity.kind
  | tooDeep _ => TextFault.tooDeep.kind
  | notEncodable _ => EncodeFault.kind
  | description fault => fault.kind
  | notBootstrapped => "RuntimeError"
  | _ => "AdminResponseError"

def message : ClientError → String
  | transport f => f.message
  | status code => toString code
  | badBody url fault => url ++ " returned invalid JSON: " ++ fault.message
  | storesNotObject => "store metadata must be a JSON object"
  | noVersionList url => url ++ " returned no 'versions' list"
  | badVersion url entry none => url ++ " returned a malformed version entry " ++ entry.shown
  | badVersion url entry (some fault) =>
    url ++ " returned a malformed version entry " ++ entry.shown ++ ": " ++ fault.message
  | infiniteNumber => ConversionFault.fromInfinity.message
  | tooDeep container => container.tooDeepMessage
  | notEncodable fault => fault.message
  | unknownNode error => error.said
  | description fault => fault.message
  | notBootstrapped => "AdminClient used before bootstrap()"

/-- An error as the failure of a key. A signal of the transport stays a signal. -/
def toFailure : ClientError → Failure
  | transport f => f
  | e => .raised e.kind e.message

def isReported : ClientError → Bool
  | transport f => Transport.isExchangeFailure f
  | infiniteNumber => false
  | tooDeep _ => false
  | notEncodable _ => false
  | description (.metadata _) => true
  | description _ => false
  | notBootstrapped => false
  | _ => true

end ClientError

/-- A client of a cluster. -/
structure Client where
  base : String
  topology : Option Topology

namespace Client

/-- A client that has asked nothing yet. Slashes at the end of the URL are dropped. -/
def ofUrl (url : String) : Client :=
  ⟨String.ofList (url.toList.reverse.dropWhile (· = '/')).reverse, none⟩

def clusterUrl (c : Client) : String := c.base ++ "/admin/cluster"

def storesUrl (c : Client) : String := c.base ++ "/admin/stores"

def getJson (transport : Transport) (url : String) : Except ClientError Json :=
  match (transport url).result with
  | .error f => .error (.transport f)
  | .ok response =>
    if response.status < 200 ∨ 300 ≤ response.status then .error (.status response.status)
    else
      match Json.ofBytes response.body with
      -- too deep a nest is no fault that is looked for in a body
      | .error (.notJson (.tooDeep container)) => .error (.tooDeep container)
      | .error fault => .error (.badBody url fault)
      | .ok value => .ok value

/-! ## 1. Bootstrap -/

def getCluster (c : Client) (transport : Transport) : Except ClientError Topology :=
  match getJson transport c.clusterUrl with
  | .error e => .error e
  | .ok value =>
    match Topology.ofJson value with
    | .error fault => .error (.description fault)
    | .ok t => .ok t

def getSchemas (c : Client) (transport : Transport) : Except ClientError (List Schema) :=
  match getJson transport c.storesUrl with
  | .error e => .error e
  | .ok (.obj members) =>
    match Schema.listOfJson ((Json.member? "stores" (.obj members)).getD .null) with
    | .error fault => .error (.description fault)
    | .ok schemas => .ok schemas
  | .ok _ => .error .storesNotObject

/-- What one operation did: the URLs it asked for, its result, and the client afterwards. -/
structure Exchange (α : Type) where
  urls : List String
  result : Except ClientError α
  client : Client

/-- Asks for topology and stores. The topology is kept as soon as it is known. -/
def bootstrap (c : Client) (transport : Transport) : Exchange (Topology × List Schema) :=
  match c.getCluster transport with
  | .error e => ⟨[c.clusterUrl], .error e, c⟩
  | .ok t =>
    let c := { c with topology := some t }
    let urls := [c.clusterUrl, c.storesUrl]
    match c.getSchemas transport with
    | .error e => ⟨urls, .error e, c⟩
    | .ok schemas => ⟨urls, .ok (t, schemas), c⟩

def knownTopology (c : Client) : Except ClientError Topology :=
  match c.topology with
  | some t => .ok t
  | none => .error .notBootstrapped

/-! ## 2. Reading a key -/

def nodeUrl (c : Client) (node : Int) : Except ClientError String :=
  match c.knownTopology with
  | .error e => .error e
  | .ok t =>
    match t.get node with
    | .error e => .error (.unknownNode e)
    | .ok m => .ok ("http://" ++ m.address)

def versionsPath (store : String) (key : Bytes) : String :=
  "/admin/stores/" ++ Percent.quote store ++ "/keys/" ++ Hex.encode key ++ "/versions"

def versionsUrl (c : Client) (store : String) (node : Int) (key : Bytes) :
    Except ClientError String :=
  (c.nodeUrl node).map fun url => url ++ versionsPath store key

def readVersion (url : String) (entry : Json) : Except ClientError Stamp :=
  match entry, (entry.member? "vc").getD (.obj []) with
  | .obj _, .obj _ =>
    match Stamp.ofJson entry with
    | .ok stamp => .ok stamp
    | .error (.conversion .fromInfinity) => .error .infiniteNumber
    | .error fault => .error (.badVersion url entry (some fault))
  | _, _ => .error (.badVersion url entry none)

def readVersions (url : String) : List Json → Except ClientError (List Stamp)
  | [] => .ok []
  | entry :: rest =>
    match readVersion url entry with
    | .error e => .error e
    | .ok stamp => (readVersions url rest).map (stamp :: ·)

def stampsOf (url : String) (body : Json) : Except ClientError (List Stamp) :=
  match body.member? "versions" with
  | some (.arr entries) => readVersions url entries
  | _ => .error (.noVersionList url)

def getStamps (c : Client) (transport : Transport) (store : String) (node : Int) (key : Bytes) :
    Exchange (List Stamp) :=
  match c.versionsUrl store node key with
  | .error e => ⟨[], .error e, c⟩
  | .ok url =>
    match getJson transport url with
    | .error e => ⟨[url], .error e, c⟩
    | .ok body => ⟨[url], stampsOf url body, c⟩

/-- Reads a key of a store with any name. The node is looked up before the name is encoded. -/
def getStampsOf (c : Client) (transport : Transport) (store : WideText) (node : Int)
    (key : Bytes) : Exchange (List Stamp) :=
  match c.nodeUrl node with
  | .error e => ⟨[], .error e, c⟩
  | .ok _ =>
    match store.narrow with
    | .error fault => ⟨[], .error (.notEncodable fault), c⟩
    | .ok name => c.getStamps transport name node key

end Client

end ReplicaCensus
