import ReplicaCensus.Cluster.Topology
import ReplicaCensus.File.Tree
import ReplicaCensus.Json.Encoding
import ReplicaCensus.Json.Printer
/-!
# Cluster files -- a topology with its stores, as a JSON document

The document is an object with the members of a topology and the list of stores under `stores`,
which may be missing.
-/

namespace ReplicaCensus

/-- A cluster: its topology and its stores. -/
structure ClusterDescription where
  topology : Topology
  schemas : List Schema
  deriving DecidableEq

/-- Why a cluster file cannot be loaded. -/
inductive LoadError where
  | file (error : FileError)
  | notText (fault : DecodeFault)
  | notJson (path : String) (misreading : Json.Misreading)
  | tooLong (digits : Nat)
  | tooDeep (container : Json.Container)
  | description (fault : DescriptionFault)

namespace LoadError

def kind : LoadError → String
  | file error => error.kind
  | notText _ => "UnicodeDecodeError"
  | notJson .. => "MetadataError"
  | tooLong _ => "ValueError"
  | tooDeep _ => TextFault.tooDeep.kind
  | description fault => fault.kind

def message : LoadError → String
  | file error => error.message
  | notText fault => fault.message
  | notJson path misreading =>
    "cluster file " ++ path ++ " is not valid JSON: " ++ misreading.message
  | tooLong digits => (IntegerFault.tooLong digits).message
  | tooDeep container => container.tooDeepMessage
  | description fault => fault.message

/-- Whether the error lies in the file system or in the description. -/
def isReported : LoadError → Bool
  | file error => error.isSystem
  | notJson .. => true
  | description (.metadata _) => true
  | _ => false

end LoadError

/-- Why a cluster file cannot be written. -/
inductive DumpError where
  | file (error : FileError)
  | tooLong

namespace DumpError

def kind : DumpError → String
  | file error => error.kind
  | tooLong => TextFault.tooLong.kind

def message : DumpError → String
  | file error => error.message
  | tooLong => TextFault.tooLong.message

end DumpError

namespace ClusterDescription

/-- Reads a cluster from a value: the topology first. -/
def ofJson (value : Json) : Except DescriptionFault ClusterDescription :=
  match Topology.ofJson value with
  | .error fault => .error fault
  | .ok topology =>
    match Schema.listOfJson ((value.member? "stores").getD (.arr [])) with
    | .error fault => .error fault
    | .ok schemas => .ok ⟨topology, schemas⟩

def ofText (path : String) (cs : List Char) : Except LoadError ClusterDescription :=
  match Json.ofText cs with
  -- neither a number of too many digits nor too deep a nest is a fault of the syntax
  | .error (.tooLong digits) => .error (.tooLong digits)
  | .error (.tooDeep container) => .error (.tooDeep container)
  | .error misreading => .error (.notJson path misreading)
  | .ok value =>
    match ofJson value with
    | .error fault => .error (.description fault)
    | .ok cluster => .ok cluster

def load (tree : FileTree) (path : String) : Except LoadError ClusterDescription :=
  match tree.read path with
  | .error e => .error (.file e)
  | .ok content =>
    match Utf8.decode content with
    | .error fault => .error (.notText fault)
    | .ok cs => ofText path (Text.foldNewlines cs)

def toJson (c : ClusterDescription) : Json :=
  .obj (c.topology.toMembers ++ [("stores", .arr (c.schemas.map Schema.toJson))])

def toText (c : ClusterDescription) : String := c.toJson.render .indented

/-- Writes a cluster file. An integer of too many digits breaks the writing off, and the file keeps
what was written before it. -/
def dump (c : ClusterDescription) (tree : FileTree) (path : String) :
    Except (DumpError × FileTree) FileTree :=
  let part := c.toJson.beforeLong .indented 0
  match tree.write path (Utf8.encode (part.getD c.toText.toList)) with
  | .error e => .error (.file e, tree)
  | .ok tree => if part.isSome then .error (.tooLong, tree) else .ok tree

end ClusterDescription

end ReplicaCensus
