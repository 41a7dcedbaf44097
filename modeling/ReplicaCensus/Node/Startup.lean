import ReplicaCensus.Command.Log
import ReplicaCensus.Command.Option
import ReplicaCensus.Node.Service
/-!
# Starting a node -- from its options to the address it listens on

A node reads the cluster file, finds itself in it, and starts its service. It listens where the file
says unless its options name another host or port; an empty host and the port zero name none. What
is wrong with the file is logged, and the exit status is 1.
-/

namespace ReplicaCensus

/-- Which node to start, and where it listens if not where the cluster file says. -/
structure NodeOptions where
  node : Int
  clusterFile : String
  host : Option String
  port : Option Int
  debug : Bool
  deriving DecidableEq, Repr

namespace NodeOptions

open Command

def program : String := "node"

def specs : List OptionSpec :=
  [.help, .mandatory "--node_id" .integer, .mandatory "--cluster_file" .text,
    .optional "--host" .text, .optional "--port" .integer, .flag "--debug"]

def ofGiven (given : Given) : NodeOptions where
  node := (given.integer? "--node_id").getD 0
  clusterFile := (given.text? "--cluster_file").getD ""
  host := given.text? "--host"
  port := given.integer? "--port"
  debug := given.has "--debug"

def parse (arguments : List String) : Except CommandStop NodeOptions :=
  (readOptions specs arguments).map ofGiven

def toJson (o : NodeOptions) : Json :=
  .obj [("node_id", .int o.node), ("cluster_file", .str o.clusterFile),
    ("host", match o.host with
      | some host => .str host
      | none => .null),
    ("port", match o.port with
      | some port => .int port
      | none => .null),
    ("debug", .bool o.debug)]

end NodeOptions

/-- Why a node is not running. -/
inductive StartupFault where
  | load (error : LoadError)
  | start (error : StartError)

namespace StartupFault

def kind : StartupFault → String
  | load error => error.kind
  | start error => error.kind

def message : StartupFault → String
  | load error => error.message
  | start error => error.message

/-- Whether the fault lies in the file system or in the description of the cluster. -/
def isReported : StartupFault → Bool
  | load error => error.isReported
  | start error => error.isReported

end StartupFault

/-- A service and the address it listens on. -/
structure Listener where
  service : Service
  host : String
  port : Int

namespace Listener

def place (o : NodeOptions) (m : Member) (service : Service) : Listener where
  service := service
  host :=
    match o.host with
    | some host => if host.isEmpty then m.host else host
    | none => m.host
  port :=
    match o.port with
    | some port => if port = 0 then m.port else port
    | none => m.port

def start (o : NodeOptions) (tree : FileTree) : Except StartupFault Listener :=
  match ClusterDescription.load tree o.clusterFile with
  | .error e => .error (.load e)
  | .ok cluster =>
    match cluster.topology.get o.node with
    | .error e => .error (.start (.metadata e))
    | .ok m =>
      match Service.start o.node cluster none with
      | .error e => .error (.start e)
      | .ok service => .ok (place o m service)

end Listener

/-- How starting went: what was logged, and the listener if there is one. -/
structure Startup where
  log : List Command.LogLine
  listener : Option Listener

namespace Startup

open Command

def startedLine (s : Service) : LogLine :=
  .info ("[" ++ toString s.node ++ "] node starting with stores " ++
    Text.bracketed (s.schemas.map fun schema => Text.quoted schema.name))

def failedLine (node : Int) (fault : StartupFault) : LogLine :=
  .error ("cannot start node " ++ toString node ++ ": " ++ fault.message)

/-- Starts a node. A fault that is not reported is handed on. -/
def run (o : NodeOptions) (tree : FileTree) : Except StartupFault Startup :=
  match Listener.start o tree with
  | .ok listener => .ok ⟨[startedLine listener.service], some listener⟩
  | .error fault => if fault.isReported then .ok ⟨[failedLine o.node fault], none⟩ else .error fault

/-- The exit status of a node that does not start; one that starts has none. -/
def exitStatus (s : Startup) : Option Nat := if s.listener.isSome then none else some 1

end Startup

end ReplicaCensus
