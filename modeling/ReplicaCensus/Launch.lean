import ReplicaCensus.Cluster.Document
import ReplicaCensus.Command.Option
/-!
# Launching a cluster -- the cluster file and the node processes

The nodes have the ids from zero on and consecutive ports of the local host. The launcher writes the
cluster file, starts the nodes one after the other with a pause behind each, and waits for them in
that order; an interruption while it waits ends them all.
-/

namespace ReplicaCensus

/-- What to launch. -/
structure LaunchOptions where
  nodes : Int
  basePort : Int
  vnodes : Int
  stores : List String
  outputDir : Option String
  deriving DecidableEq, Repr

namespace LaunchOptions

open Command

def program : String := "run_cluster.py"

def defaultStores : List String := ["users:3"]

def specs : List OptionSpec :=
  [.help, .optional "--nodes" .integer, .optional "--base_port" .integer,
    .optional "--vnodes_per_node" .integer, .optional "--store" .text,
    .optional "--output_dir" .text]

def ofGiven (given : Given) : LaunchOptions where
  nodes := (given.integer? "--nodes").getD 5
  basePort := (given.integer? "--base_port").getD 60000
  vnodes := (given.integer? "--vnodes_per_node").getD Topology.defaultVnodes
  stores :=
    match given.texts "--store" with
    | [] => defaultStores
    | stores => stores
  outputDir := given.text? "--output_dir"

def parse (arguments : List String) : Except CommandStop LaunchOptions :=
  (readOptions specs arguments).map ofGiven

end LaunchOptions

def Schema.defaultReplication : Int := 3

/-- Reads a store from a name and, behind a colon, a replication factor or the word for all
nodes. -/
def Schema.ofArgument (text : String) : Except IntegerFault Schema :=
  let (name, factor) := Text.cutAt ':' text.toList
  let name := String.ofList name
  let factor := String.ofList (factor.getD [])
  if factor = "all" then .ok ⟨name, 1, Schema.allRouting⟩
  else if factor.isEmpty then .ok ⟨name, Schema.defaultReplication, Schema.consistentRouting⟩
  else (Number.readInteger factor).map fun n => ⟨name, n, Schema.consistentRouting⟩

/-- Why a cluster is not launched. -/
inductive LaunchFault where
  | badStore (fault : IntegerFault)
  | metadata (error : MetadataError)
  | file (error : FileError)
  | dump (error : DumpError)

namespace LaunchFault

def kind : LaunchFault → String
  | badStore _ => "ValueError"
  | metadata _ => "MetadataError"
  | file error => error.kind
  | dump error => error.kind

def message : LaunchFault → String
  | badStore fault => fault.message
  | metadata error => error.message
  | file error => error.message
  | dump error => error.message

end LaunchFault

/-- What the launcher does to the node processes. -/
inductive LaunchEvent where
  /-- Starts a process with some arguments. -/
  | start (arguments : List String)
  | pause (seconds : Double)
  | wait (node : Int)
  | terminate (node : Int)
  deriving DecidableEq, Repr

/-- How a launch went: the events, the lines printed, and the tree it leaves. -/
structure Launch where
  events : List LaunchEvent
  lines : List String
  tree : FileTree

namespace Launch

/-- The pause behind the start of a node: 0.15 seconds. -/
def stagger : Double := Double.ofDecimal false 15 (-2)

def host : String := "127.0.0.1"

def member (basePort : Int) (i : Nat) : Member := ⟨i, host, basePort + i⟩

/-- The nodes to launch; a number below one launches none. -/
def members (o : LaunchOptions) : List Member := (List.range o.nodes.toNat).map (member o.basePort)

def readStores : List String → Except IntegerFault (List Schema)
  | [] => .ok []
  | text :: rest =>
    match Schema.ofArgument text with
    | .error fault => .error fault
    | .ok schema => (readStores rest).map (schema :: ·)

/-- The cluster to launch; stores are read before the nodes are looked at. -/
def describe (o : LaunchOptions) : Except LaunchFault ClusterDescription :=
  match readStores o.stores with
  | .error fault => .error (.badStore fault)
  | .ok schemas =>
    match Topology.make (members o) o.vnodes with
    | .error e => .error (.metadata e)
    | .ok topology => .ok ⟨topology, schemas⟩

def fileName : String := "cluster.json"

def clusterFile (o : LaunchOptions) : String :=
  match o.outputDir with
  | some directory => if directory.isEmpty then fileName else FileTree.join directory fileName
  | none => fileName

def makeDirectory (o : LaunchOptions) (tree : FileTree) : FileTree × Option FileError :=
  match o.outputDir with
  | some directory => if directory.isEmpty then (tree, none) else tree.makeDirs directory
  | none => (tree, none)

def nodeArguments (file : String) (m : Member) : List String :=
  ["-m", "kvcluster.node", "--node_id", toString m.id, "--cluster_file", file]

/-- What happens for one node: its start, and the pause behind it. -/
def startEvents (file : String) (m : Member) : List LaunchEvent :=
  [.start (nodeArguments file m), .pause stagger]

def startedLine (m : Member) : String :=
  "[launcher] starting node " ++ toString m.id ++ " on " ++ toString m.port

/-- The nodes waited for, up to one at which an interruption comes, and whether one came. -/
def waited (interrupts : Int → Bool) : List Int → List Int × Bool
  | [] => ([], false)
  | id :: rest =>
    if interrupts id then ([id], true)
    else
      let (ids, interrupted) := waited interrupts rest
      (id :: ids, interrupted)

/-- Starts the nodes of a cluster whose file is written, and waits for them. -/
def startNodes (o : LaunchOptions) (interrupts : Int → Bool) (cluster : ClusterDescription)
    (tree : FileTree) : Launch :=
  let file := clusterFile o
  let nodes := cluster.topology.members
  let ids := nodes.map Member.id
  let (waitedFor, interrupted) := waited interrupts ids
  let started := nodes.flatMap (startEvents file) ++ waitedFor.map LaunchEvent.wait
  let lines := nodes.map startedLine ++
    ["[launcher] cluster started with " ++ toString o.nodes ++ " nodes; metadata written to " ++
      file]
  if interrupted then
    ⟨started ++ ids.map LaunchEvent.terminate,
      lines ++ ["[launcher] terminating cluster processes"], tree⟩
  else ⟨started, lines, tree⟩

/-- Launches a cluster; `interrupts` says at which nodes an interruption comes. Nothing is started
after a fault, whose tree has what was made before it. -/
def run (o : LaunchOptions) (interrupts : Int → Bool) (tree : FileTree) :
    Except (LaunchFault × FileTree) Launch :=
  match describe o with
  | .error fault => .error (fault, tree)
  | .ok cluster =>
    match makeDirectory o tree with
    | (tree, some e) => .error (.file e, tree)
    | (tree, none) =>
      match cluster.dump tree (clusterFile o) with
      | .error (e, tree) => .error (.dump e, tree)
      | .ok tree => .ok (startNodes o interrupts cluster tree)

end Launch

end ReplicaCensus
