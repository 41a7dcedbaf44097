import ReplicaCensus.Command.Option
import ReplicaCensus.Node.Cluster
/-!
# Workload -- writes that leave replicas apart, and key files to sample

For each store, keys are picked and written at their masters. Every other replica gets a copy of the
write, or a write of its own instead, or nothing, as the next roll says. A sample of the keys
written goes into the store's key file. Random numbers are drawn from lists that start over at their
ends; which keys make up a sample is drawn, too.
-/

namespace ReplicaCensus

/-- How the keys are spread over the key space. -/
inductive Distribution where
  | uniform
  | zipf
  deriving DecidableEq, Repr

/-- What to write. -/
structure WorkloadOptions where
  clusterFile : String
  keysDir : String
  writes : Int
  sample : Int
  divergence : Double
  distribution : Distribution
  keyspace : Int
  deriving DecidableEq, Repr

namespace WorkloadOptions

open Command

def program : String := "workload.py"

def specs : List OptionSpec :=
  [.help, .optional "--cluster_file" .text, .optional "--keys_dir" .text,
    .optional "--writes" .integer, .optional "--sample" .integer,
    .optional "--divergence" .number, .optional "--dist" (.oneOf ["uniform", "zipf"]),
    .optional "--keyspace" .integer]

def ofGiven (given : Given) : WorkloadOptions where
  clusterFile := (given.text? "--cluster_file").getD "cluster.json"
  keysDir := (given.text? "--keys_dir").getD "keys"
  writes := (given.integer? "--writes").getD 200
  sample := (given.integer? "--sample").getD 50
  divergence := (given.number? "--divergence").getD (Double.ofDecimal false 2 (-1))
  distribution := if given.text? "--dist" = some "zipf" then .zipf else .uniform
  keyspace := (given.integer? "--keyspace").getD 1000

def parse (arguments : List String) : Except CommandStop WorkloadOptions :=
  (readOptions specs arguments).map ofGiven

end WorkloadOptions

/-- Why a workload stops. -/
inductive WorkloadFault where
  | load (error : LoadError)
  | ring (error : RingError)
  | routing (error : RoutingError)
  | unknownNode (error : MetadataError)
  | file (error : FileError)
  /-- A node that nobody answers for. -/
  | refused
  | status (code : Nat)
  /-- No rank that could be drawn lies in the key space. -/
  | noKey
  /-- A size that no sample can have. -/
  | badSample

namespace WorkloadFault

def kind : WorkloadFault → String
  | load error => error.kind
  | ring error => error.kind
  | routing _ => RoutingError.kind
  | unknownNode _ => "MetadataError"
  | file error => error.kind
  | refused => "ConnectError"
  | status _ => "HTTPStatusError"
  | noKey => "ValueError"
  | badSample => "ValueError"

def message : WorkloadFault → String
  | load error => error.message
  | ring error => error.message
  | routing error => error.message
  | unknownNode error => error.message
  | file error => error.message
  | refused => "connection refused"
  | status code => toString code
  | noKey => "no rank within the key space"
  | badSample => "Sample larger than population or is negative"

end WorkloadFault

namespace Workload

/-! ## 1. Random choices -/

/-- The values that random choices take, and which of some keys a sample of a given size has; a size
may be refused, as a negative one is by the library. -/
structure Draws where
  integers : List Int
  rolls : List Double
  ranks : List Int
  sample : Int → List Bytes → Option (List Bytes)

/-- The value with number `i` of a list that starts over at its end. -/
def cyclic {α : Type} (values : List α) (i : Nat) : Option α := values[i % values.length]?

/-- How many values of each kind were drawn. -/
structure Drawn where
  integers : Nat
  rolls : Nat
  ranks : Nat
  deriving DecidableEq, Repr

/-- The next integer; a list without any stands for ones. -/
def Draws.integer (d : Draws) (n : Drawn) : Int × Drawn :=
  ((cyclic d.integers n.integers).getD 1, { n with integers := n.integers + 1 })

def Draws.roll (d : Draws) (n : Drawn) : Double × Drawn :=
  ((cyclic d.rolls n.rolls).getD (Double.ofInt 1), { n with rolls := n.rolls + 1 })

/-- The next rank within the key space; those above it are passed over. -/
def Draws.rank (d : Draws) (keyspace : Int) (n : Drawn) : Option Int × Drawn :=
  (cyclic (d.ranks.filter fun rank => rank ≤ keyspace) n.ranks, { n with ranks := n.ranks + 1 })

def keyOf (n : Int) : Bytes := Utf8.encode ("key-" ++ toString n).toList

def pickKey (o : WorkloadOptions) (d : Draws) (n : Drawn) : Option Bytes × Drawn :=
  match o.distribution with
  | .uniform =>
    let (number, n) := d.integer n
    (some (keyOf number), n)
  | .zipf =>
    let (rank, n) := d.rank o.keyspace n
    (rank.map keyOf, n)

/-! ## 2. Writing a key -/

/-- A write that was sent, and the status of its answer. -/
structure Sent where
  url : String
  body : Json
  status : Nat

/-- What stays the same while a workload runs; `now` is the time of its writes. -/
structure Setting where
  options : WorkloadOptions
  draws : Draws
  now : Int

/-- How far a workload is. -/
structure State where
  cluster : RunningCluster
  resolver : Resolver
  drawn : Drawn
  sent : List Sent

def cellUrl (m : Member) (store : String) (key : Bytes) : String :=
  "http://" ++ m.address ++ "/admin/stores/" ++ store ++ "/keys/" ++ Hex.encode key

def bodyOf (value : String) (clock : Json) : Json := .obj [("value", .str value), ("vc", clock)]

def noClock : Json := .obj []

def storedClock (answer : Answer) : Json :=
  ((answer.body.bind fun body => (body.member? "stored").bind (Json.member? "vc"))).getD noClock

/-- Sends a write to a node; the result is the clock that was stored. -/
def send (s : Setting) (st : State) (m : Member) (store : String) (key : Bytes) (value : String)
    (clock : Json) : Except WorkloadFault Json × State :=
  let url := cellUrl m store key
  let body := bodyOf value clock
  let bytes := Utf8.encode (Json.valueChars .compact 0 body)
  match st.cluster.send "PUT" url bytes s.now with
  | none => (.error .refused, st)
  | some (answer, cluster) =>
    let st := { st with cluster := cluster, sent := st.sent ++ [⟨url, body, answer.status⟩] }
    if answer.status < 200 ∨ 300 ≤ answer.status then (.error (.status answer.status), st)
    else (.ok (storedClock answer), st)

def divergentValue (value : String) : String := value ++ "-concurrent"

/-- Hands a write on to further replicas: a roll below half of the divergence leaves a replica out,
one below the divergence gives it a write of its own. -/
def copyTo (s : Setting) (store : String) (key : Bytes) (value : String) (clock : Json) :
    List Int → State → Option WorkloadFault × State
  | [], st => (none, st)
  | id :: rest, st =>
    match st.resolver.topology.get id with
    | .error e => (some (.unknownNode e), st)
    | .ok m =>
      let (roll, drawn) := s.draws.roll st.drawn
      let st := { st with drawn := drawn }
      if roll.lt s.options.divergence.half then copyTo s store key value clock rest st
      else
        let (result, st) :=
          if roll.lt s.options.divergence then
            send s st m store key (divergentValue value) noClock
          else send s st m store key value clock
        match result with
        | .error fault => (some fault, st)
        | .ok _ => copyTo s store key value clock rest st

def writeKey (s : Setting) (schema : Schema) (key : Bytes) (st : State) :
    Option WorkloadFault × State :=
  let (found, resolver) := st.resolver.resolve schema key
  let st := { st with resolver := resolver }
  match found with
  | .error e => (some (.routing e), st)
  | .ok [] => (none, st)
  | .ok (master :: others) =>
    match st.resolver.topology.get master with
    | .error e => (some (.unknownNode e), st)
    | .ok m =>
      let (number, drawn) := s.draws.integer st.drawn
      let st := { st with drawn := drawn }
      let value := toString number
      match send s st m schema.name key value noClock with
      | (.error fault, st) => (some fault, st)
      | (.ok clock, st) => copyTo s schema.name key value clock others st

/-! ## 3. Stores -/

/-- Makes a number of writes; the result has the keys written, each once, in the order of their
first writes. -/
def writeKeys (s : Setting) (schema : Schema) :
    Nat → List Bytes → State → Except WorkloadFault (List Bytes) × State
  | 0, keys, st => (.ok keys, st)
  | writes + 1, keys, st =>
    let (key, drawn) := pickKey s.options s.draws st.drawn
    let st := { st with drawn := drawn }
    match key with
    | none => (.error .noKey, st)
    | some key =>
      match writeKey s schema key st with
      | (some fault, st) => (.error fault, st)
      | (none, st) =>
        writeKeys s schema writes (if keys.contains key then keys else keys ++ [key]) st

/-- A choice that sampling may make: the last keys, the last of all first. -/
def lastFirst (count : Int) (keys : List Bytes) : Option (List Bytes) :=
  if 0 ≤ count then some (keys.reverse.take count.toNat) else none

/-- A sample of keys; if no more were written than asked for, all of them. -/
def sampleOf (d : Draws) (count : Int) (keys : List Bytes) : Option (List Bytes) :=
  if (keys.length : Int) ≤ count then some keys else d.sample count keys

def keyFileOf (keys : List Bytes) : String :=
  String.join (keys.map fun key => Hex.encode key ++ "\n")

def keysPath (o : WorkloadOptions) (store : String) : String :=
  FileTree.join o.keysDir (store ++ ".keys")

def storeLine (o : WorkloadOptions) (store : String) (keys : Nat) : String :=
  "[workload] " ++ store ++ ": " ++ toString o.writes ++ " writes, " ++ toString keys ++
    " keys -> " ++ keysPath o store

/-- How a workload went: the writes sent, the lines printed, the cluster and the tree it leaves, and
the fault that stopped it. -/
structure Run where
  sent : List Sent
  lines : List String
  cluster : RunningCluster
  tree : FileTree
  fault : Option WorkloadFault

/-- Writes to stores one after the other; `lines` are those printed before. -/
def writeStores (s : Setting) : List Schema → List String → FileTree → State → Run
  | [], lines, tree, st => ⟨st.sent, lines, st.cluster, tree, none⟩
  | schema :: rest, lines, tree, st =>
    match writeKeys s schema s.options.writes.toNat [] st with
    | (.error fault, st) => ⟨st.sent, lines, st.cluster, tree, some fault⟩
    | (.ok keys, st) =>
      match sampleOf s.draws s.options.sample keys with
      | none => ⟨st.sent, lines, st.cluster, tree, some .badSample⟩
      | some sample =>
        let content := Utf8.encode (keyFileOf sample).toList
        match tree.write (keysPath s.options schema.name) content with
        | .error e => ⟨st.sent, lines, st.cluster, tree, some (.file e)⟩
        | .ok tree =>
          writeStores s rest (lines ++ [storeLine s.options schema.name sample.length]) tree st

def run (s : Setting) (cluster : RunningCluster) (tree : FileTree) : Run :=
  match ClusterDescription.load tree s.options.clusterFile with
  | .error e => ⟨[], [], cluster, tree, some (.load e)⟩
  | .ok description =>
    match Resolver.ofTopology description.topology with
    | .error e => ⟨[], [], cluster, tree, some (.ring e)⟩
    | .ok resolver =>
      match tree.makeDirs s.options.keysDir with
      | (tree, some e) => ⟨[], [], cluster, tree, some (.file e)⟩
      | (tree, none) => writeStores s description.schemas [] tree ⟨cluster, resolver, ⟨0, 0, 0⟩, []⟩

end Workload

end ReplicaCensus
