import ReplicaCensus.Client.Transport
import ReplicaCensus.Node.Service
import ReplicaCensus.Text.Percent
/-!
# Cluster in one process -- nodes that are reached by their URLs

The nodes of a cluster stand behind their addresses, and a URL's path reaches them with its percent
signs resolved. Of several nodes with one address the last is reached.
-/

namespace ReplicaCensus

/-- Splits a URL of the `http` scheme into its host part and its path, without what follows a
question mark or a number sign; no path is a slash. -/
def Url.split? (url : String) : Option (String × String) :=
  let cs := url.toList
  let scheme := "http://".toList
  if scheme.isPrefixOf cs then
    let rest := cs.drop scheme.length
    let inHost (c : Char) : Bool := c ≠ '/' && c ≠ '?' && c ≠ '#'
    let path := (rest.dropWhile inHost).takeWhile fun c => c ≠ '?' && c ≠ '#'
    some (String.ofList (rest.takeWhile inHost), if path.isEmpty then "/" else String.ofList path)
  else none

/-- Running nodes with their addresses. -/
structure RunningCluster where
  nodes : List (Member × Service)

namespace RunningCluster

def startAll (cluster : ClusterDescription) :
    List Member → Except StartError (List (Member × Service))
  | [] => .ok []
  | m :: rest =>
    match Service.start m.id cluster none with
    | .error e => .error e
    | .ok service => (startAll cluster rest).map ((m, service) :: ·)

def start (cluster : ClusterDescription) (absent : List Int) : Except StartError RunningCluster :=
  (startAll cluster (cluster.topology.members.filter fun m => !absent.contains m.id)).map
    RunningCluster.mk

def replaceLast (address : String) (service : Service) :
    List (Member × Service) → List (Member × Service)
  | [] => []
  | (m, old) :: rest =>
    -- of the nodes with one address the last is the one that was asked
    if m.address = address && !rest.any fun e => e.1.address = address then (m, service) :: rest
    else (m, old) :: replaceLast address service rest

/-- Sends a request with the path and to the host of a URL; no answer means that nobody is there. -/
def send (c : RunningCluster) (method url : String) (body : Bytes) (now : Int) :
    Option (Answer × RunningCluster) :=
  match Url.split? url with
  | none => none
  | some (host, path) =>
    match c.nodes.reverse.find? fun e => e.1.address = host with
    | none => none
    | some (_, service) =>
      let (answer, service) :=
        -- a path whose percent signs cannot be resolved is sent as it is
        service.handle ⟨method, (Percent.unquote? path).getD path, body, now⟩
      some (answer, ⟨replaceLast host service c.nodes⟩)

/-- The cluster as a transport: reading changes nothing, so every request meets the same nodes. -/
def transport (c : RunningCluster) (now : Int) : Transport := fun url =>
  match c.send "GET" url [] now with
  | none => Transport.refused
  | some (answer, _) => ⟨0, .ok answer.toResponse⟩

def seed (c : RunningCluster) (node : Int) (store : String) (key : Bytes) (version : Version) :
    RunningCluster :=
  ⟨c.nodes.map fun (m, service) =>
    if m.id = node then
      match service.storage.put store key version with
      | .ok (_, storage) => (m, { service with storage := storage })
      | .error _ => (m, service)
    else (m, service)⟩

end RunningCluster

end ReplicaCensus
