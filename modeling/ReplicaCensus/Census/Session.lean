import ReplicaCensus.Census.Options
import ReplicaCensus.Census.Report
import ReplicaCensus.Client.Basic
import ReplicaCensus.Cluster.Routing
import ReplicaCensus.Command.Log
/-!
# Census session -- from the options to the exit status

A session makes its directories, learns the cluster from the bootstrap node, checks that every store
can be routed, and samples the stores over the same transport. The exit status is 0 if every store
has its samples, 1 if not, and 130 after an interruption, which may come at any time. Faults that no
status stands for end the session without one.
-/

namespace ReplicaCensus

/-- A fault that ends a session without an exit status. -/
inductive SessionFault where
  | file (error : FileError)
  | client (error : ClientError)
  | ring (error : RingError)
  | slots (error : BadParallelism)
  | cancelled

namespace SessionFault

def kind : SessionFault → String
  | file error => error.kind
  | client error => error.kind
  | ring error => error.kind
  | slots _ => "ValueError"
  | cancelled => Failure.cancelled.kind

def message : SessionFault → String
  | file error => error.message
  | client error => error.message
  | ring error => error.message
  | slots error => error.message
  | cancelled => Failure.cancelled.message

end SessionFault

/-- How a session ended: its exit status, what it logged, whether its client was closed, the tree it
leaves, the URLs it asked for, and the time of its end. -/
structure Session where
  exitStatus : Nat
  log : List Command.LogLine
  closed : Bool
  tree : FileTree
  urls : List String
  ended : Rat

namespace Session

open Command

def interruptedStatus : Nat := 130

/-! ## 1. Before the first store -/

/-- The cluster as a session knows it once it has begun: the client with its topology, the resolver,
and the stores, all of them routable. -/
structure Known where
  client : Client
  resolver : Resolver
  schemas : List Schema

/-- Why a session does not begin, with the kind and the text of a reported fault. -/
inductive Refusal where
  | reported (kind text : String)
  | interrupted
  | fault (f : SessionFault)

def refusalOf (e : ClientError) : Refusal :=
  match e with
  | .transport .interrupted => .interrupted
  | .transport .cancelled => .fault .cancelled
  | e => if e.isReported then .reported e.kind e.message else .fault (.client e)

def learn (url : String) (transport : Transport) : Except Refusal Known × List String :=
  let exchange := (Client.ofUrl url).bootstrap transport
  let known : Except Refusal Known :=
    match exchange.result with
    | .error e => .error (refusalOf e)
    | .ok (topology, schemas) =>
      -- the resolver asks nothing, so the URLs are those of the bootstrap
      match Resolver.ofTopology topology with
      | .error e => .error (.fault (.ring e))
      | .ok resolver =>
        match Resolver.checkAll schemas resolver with
        | .error e => .error (.reported RoutingError.kind e.message)
        | .ok resolver => .ok ⟨exchange.client, resolver, schemas⟩
  (known, exchange.urls)

/-- How far a session came with its first requests: those it made, the time, and whether it was
interrupted then. -/
structure Wait where
  urls : List String
  ended : Rat
  interrupted : Bool

/-- Waits for the replies to requests that are made one after the other, from time `now` on. A reply
that takes no time is not waited for, and cannot come too late. -/
def waitFor (transport : Transport) (interruptAt : Option Rat) : Rat → List String → Wait
  | now, [] => ⟨[], now, false⟩
  | now, url :: rest =>
    let delay := (transport url).delay
    let due := if delay < 0 then now else now + delay
    if now < due && Schedule.comesFirst interruptAt due then
      ⟨[url], Schedule.cancelTime now interruptAt, true⟩
    else
      let wait := waitFor transport interruptAt due rest
      { wait with urls := url :: wait.urls }

/-! ## 2. The stores -/

def sourceOf (k : Known) (transport : Transport) : Source where
  replicas schema key :=
    match k.resolver.replicas schema key with
    | .ok nodes => .ok nodes
    | .error e => .error (.raised RoutingError.kind e.message)
  fetch q :=
    let exchange := k.client.getStamps transport q.store q.node q.key
    -- a node that is not known is not asked, and takes no time
    .prompt
      (match exchange.urls with
      | [] => 0
      | url :: _ => (transport url).delay)
      (match exchange.result with
      | .ok stamps => .ok (stamps.map Stamp.toText)
      | .error e => .error e.toFailure)

def urlsOf (client : Client) (calls : List Call) : List String :=
  calls.filterMap fun c =>
    match client.versionsUrl c.store c.node c.key with
    | .ok url => some url
    | .error _ => none

def outcomeLine (o : Outcome) : LogLine :=
  if o.ok then
    .info ("store " ++ o.store ++ ": " ++ o.status.toText ++ " (" ++ toString o.keys ++ " keys)")
  else .error ("store " ++ o.store ++ ": failed: " ++ o.error.getD "")

def reportLines (report : Report) : List LogLine :=
  report.outcomes.values.map outcomeLine ++
    if report.ok then []
    else
      [.error ("Key-versions were not successfully sampled from stores: " ++
        String.intercalate ", " report.failed)]

def interruptedLine : LogLine := .error "Key-version sampling interrupted"

def interrupted (clean : Bool) (tree : FileTree) (urls : List String) (ended : Rat) : Session :=
  ⟨interruptedStatus, [interruptedLine], clean, tree, urls, ended⟩

/-- The end of a session after its run. The user interrupts a run by cancelling it; an interruption
that was not clean leaves the client open. -/
def ofRun (run : Census.Run) (interruptAt : Option Rat) (urls : List String) (ended : Rat) :
    Except SessionFault Session :=
  match run.stopped with
  | some (.cancelled _) =>
    -- a cancellation that the user did not ask for is a fault
    if Schedule.comesFirst interruptAt ended then .ok (interrupted true run.tree urls ended)
    else .error .cancelled
  | some (.interrupted clean) => .ok (interrupted clean run.tree urls ended)
  | none =>
    .ok ⟨if run.report.ok then 0 else 1, reportLines run.report, true, run.tree, urls, ended⟩

/-- Samples the stores, from time `began` on. -/
def sample (o : CensusOptions) (k : Known) (transport : Transport) (interruptAt : Option Rat)
    (tree : FileTree) (asked : List String) (began : Rat) : Except SessionFault Session :=
  match Census.make (sourceOf k transport) o.inDir o.outDir o.parallelism o.limit with
  | .error e => .error (.slots e)
  | .ok census =>
    let cancelAt := interruptAt.map fun time => time - began
    let run := census.sampleStores k.schemas o.failFast cancelAt tree
    ofRun run interruptAt (asked ++ urlsOf k.client run.calls) (began + run.now)

/-! ## 3. The whole session -/

def makeDirectories (o : CensusOptions) (tree : FileTree) : Except FileError FileTree :=
  match tree.makeDirs o.inDir with
  | (_, some e) => .error e
  | (tree, none) =>
    match tree.makeDirs o.outDir with
    | (_, some e) => .error e
    | (tree, none) => .ok tree

/-- The session of a user who interrupts it at some time, unless it is over by then. -/
def runUntil (interruptAt : Option Rat) (o : CensusOptions) (transport : Transport)
    (tree : FileTree) : Except SessionFault Session :=
  match makeDirectories o tree with
  | .error e => .error (.file e)
  | .ok tree =>
    let (known, urls) := learn o.url transport
    let wait := waitFor transport interruptAt 0 urls
    if wait.interrupted then .ok (interrupted true tree wait.urls wait.ended)
    else
      match known with
      | .ok known => sample o known transport interruptAt tree wait.urls wait.ended
      -- a fault that is not reported ends the session without an exit status
      | .error (.fault f) => .error f
      | .error .interrupted => .ok (interrupted true tree wait.urls wait.ended)
      | .error (.reported kind text) =>
        .ok ⟨1, [.error ("Exception during key-version sampling: " ++ kind ++ ": " ++ text)], true,
          tree, wait.urls, wait.ended⟩

/-- The session of a user who lets it come to its end. -/
def run (o : CensusOptions) (transport : Transport) (tree : FileTree) :
    Except SessionFault Session :=
  runUntil none o transport tree

end Session

end ReplicaCensus
