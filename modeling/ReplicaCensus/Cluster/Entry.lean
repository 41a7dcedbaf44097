import ReplicaCensus.Json.Basic
/-!
# Cluster members and stores -- the entries of a cluster description

A member has an id and an address; a store has a name, a replication factor and a routing strategy.
Both are read from JSON objects, whose members are looked up one after the other, so that the first
fault counts. A fault is told with the entry that has it, if there is a text that shows the entry.
-/

namespace ReplicaCensus

/-- A node of the cluster, and where it listens. -/
structure Member where
  id : Int
  host : String
  port : Int
  deriving DecidableEq, Repr

namespace Member

def address (m : Member) : String := m.host ++ ":" ++ toString m.port

def toJson (m : Member) : Json :=
  .obj [("id", .int m.id), ("host", .str m.host), ("port", .int m.port)]

end Member

/-- A store, and how its keys are spread over the nodes. -/
structure Schema where
  name : String
  replicationFactor : Int
  strategy : String
  deriving DecidableEq, Repr

namespace Schema

/-- Every key on as many nodes of the ring as the replication factor says. -/
def consistentRouting : String := "consistent-routing"

def allRouting : String := "all-routing"

def isKnownStrategy (strategy : String) : Bool :=
  strategy = consistentRouting || strategy = allRouting

def toJson (s : Schema) : Json :=
  .obj [("name", .str s.name), ("replication_factor", .int s.replicationFactor),
    ("routing_strategy", .str s.strategy)]

/-- Whether a name may be a file name of its own: not empty, without a slash, not hidden. -/
def isValidName (name : String) : Bool :=
  match name.toList with
  | [] => false
  | c :: rest => c ≠ '.' && !(c :: rest).contains '/'

end Schema

/-! ## Faults of an entry -/

/-- Why a member of an entry could not be read. -/
inductive EntryFault where
  | missing (name : String)
  /-- An entry that is no object. -/
  | notObject (entry : Json)
  | conversion (fault : ConversionFault)
  /-- A value that no text shows where one is needed. -/
  | noText (fault : TextFault)

namespace EntryFault

def message : EntryFault → String
  | missing name => Text.quoted name
  | notObject (.arr _) => "list indices must be integers or slices, not str"
  | notObject (.str _) => "string indices must be integers, not 'str'"
  | notObject entry => "'" ++ entry.typeName ++ "' object is not subscriptable"
  | conversion fault => fault.message
  | noText fault => fault.message

end EntryFault

/-- What is wrong with a cluster description. -/
inductive MetadataError where
  | badMember (entry : Json) (fault : EntryFault)
  | negativeId (id : Int)
  | duplicateId (id : Int)
  | unknownId (id : Int)
  | noMemberList
  | badVnodesValue (fault : ConversionFault)
  | badVnodes (vnodes : Int)
  | badStore (entry : Json) (fault : EntryFault)
  | badStoreName (name : String)
  | badReplication (store : String) (factor : Int)
  | storesNotList
  | duplicateStores (names : List String)

namespace MetadataError

def message : MetadataError → String
  | badMember entry fault => "invalid node entry " ++ entry.shown ++ ": " ++ fault.message
  | negativeId id => "node id must be non-negative, got " ++ toString id
  | duplicateId id => "duplicate node id " ++ toString id
  | unknownId id => "unknown node id " ++ toString id
  | noMemberList => "cluster metadata must contain a 'nodes' list"
  | badVnodesValue fault => "invalid vnodes_per_node: " ++ fault.message
  | badVnodes vnodes => "vnodes_per_node must be positive, got " ++ toString vnodes
  | badStore entry fault => "invalid store definition " ++ entry.shown ++ ": " ++ fault.message
  | badStoreName name => "invalid store name " ++ Text.quoted name
  | badReplication store factor =>
    "store " ++ store ++ ": replication factor must be positive, got " ++ toString factor
  | storesNotList => "store metadata must be a list"
  | duplicateStores names => "duplicate store names in " ++ Text.bracketed (names.map Text.quoted)

/-- The value that the message of an error shows. -/
def subject? : MetadataError → Option Json
  | badMember entry _ => some entry
  | negativeId id => some (.int id)
  | duplicateId id => some (.int id)
  | unknownId id => some (.int id)
  | badVnodes vnodes => some (.int vnodes)
  | badStore entry _ => some entry
  | badReplication _ factor => some (.int factor)
  | _ => none

/-- What is wrong with the message of an error itself. -/
def textFault? (error : MetadataError) : Option TextFault := error.subject?.bind Json.textFault?

/-- The message of an error, or of what is wrong with it. -/
def said (error : MetadataError) : String :=
  match error.textFault? with
  | some fault => fault.message
  | none => error.message

end MetadataError

/-- Why a description cannot be read: it is wrong, an infinite number stands for an integer, or no
text shows a value that is needed as text or that a message is to show. -/
inductive DescriptionFault where
  | metadata (error : MetadataError)
  | infinite
  | noText (fault : TextFault)

namespace DescriptionFault

def kind : DescriptionFault → String
  | metadata _ => "MetadataError"
  | infinite => ConversionFault.fromInfinity.kind
  | noText fault => fault.kind

def message : DescriptionFault → String
  | metadata error => error.message
  | infinite => ConversionFault.fromInfinity.message
  | noText fault => fault.message

/-- Raises an error, with a message if there is one. -/
def ofError (error : MetadataError) : DescriptionFault :=
  match error.textFault? with
  | some fault => .noText fault
  | none => .metadata error

/-- An infinite number is a fault of its own, and so is too deep a nest; other faults are wrapped. -/
def ofEntry (wrap : EntryFault → MetadataError) : EntryFault → DescriptionFault
  | .conversion .fromInfinity => .infinite
  | .noText .tooDeep => .noText .tooDeep
  | fault => .ofError (wrap fault)

end DescriptionFault

namespace Json

def required (entry : Json) (name : String) : Except EntryFault Json :=
  match entry with
  | obj members =>
    match OrderedMap.find name members with
    | some value => .ok value
    | none => .error (.missing name)
  | entry => .error (.notObject entry)

def requiredInteger (entry : Json) (name : String) : Except EntryFault Int :=
  match entry.required name with
  | .error fault => .error fault
  | .ok value =>
    match value.toInteger with
    | .ok n => .ok n
    | .error fault => .error (.conversion fault)

def requiredText (entry : Json) (name : String) : Except EntryFault String :=
  match entry.required name with
  | .error fault => .error fault
  | .ok value =>
    match value.asText with
    | .ok text => .ok text
    | .error fault => .error (.noText fault)

/-- The text of a member, which may be missing. -/
def optionalText (entry : Json) (name default : String) : Except EntryFault String :=
  match ((entry.member? name).getD (.str default)).asText with
  | .ok text => .ok text
  | .error fault => .error (.noText fault)

end Json

namespace Member

def readFields (entry : Json) : Except EntryFault Member := do
  let id ← entry.requiredInteger "id"
  let host ← entry.requiredText "host"
  let port ← entry.requiredInteger "port"
  return ⟨id, host, port⟩

def ofJson (entry : Json) : Except DescriptionFault Member :=
  match readFields entry with
  | .error fault => .error (.ofEntry (.badMember entry) fault)
  | .ok m => if m.id < 0 then .error (.ofError (.negativeId m.id)) else .ok m

end Member

namespace Schema

def readFields (entry : Json) : Except EntryFault Schema := do
  let name ← entry.requiredText "name"
  let factor ← entry.requiredInteger "replication_factor"
  let strategy ← entry.optionalText "routing_strategy" consistentRouting
  return ⟨name, factor, strategy⟩

def ofJson (entry : Json) : Except DescriptionFault Schema :=
  match readFields entry with
  | .error fault => .error (.ofEntry (.badStore entry) fault)
  | .ok s =>
    if !isValidName s.name then .error (.ofError (.badStoreName s.name))
    else if s.replicationFactor < 1 then
      .error (.ofError (.badReplication s.name s.replicationFactor))
    else .ok s

def readAll : List Json → Except DescriptionFault (List Schema)
  | [] => .ok []
  | entry :: rest =>
    match ofJson entry with
    | .error fault => .error fault
    | .ok s => (readAll rest).map (s :: ·)

def listOfJson (value : Json) : Except DescriptionFault (List Schema) :=
  match value with
  | .arr entries =>
    match readAll entries with
    | .error fault => .error fault
    | .ok schemas =>
      -- names are compared only when every entry has been read
      let names := schemas.map Schema.name
      if names.eraseDups.length = names.length then .ok schemas
      else .error (.ofError (.duplicateStores names))
  | _ => .error (.ofError .storesNotList)

end Schema

end ReplicaCensus
