import ReplicaCensus.Census.Session
import ReplicaCensus.Launch
import ReplicaCensus.Node.Startup
import ReplicaCensus.Workload
/-!
# Command line -- the programs, one after the other in one process

The arguments are commands with their options, separated by the word `then`: `launch`, `node`,
`workload` and `census`. The commands share a file tree in memory, empty at first, and the nodes
that the last `launch` started. What they report is printed, and at the end the files they leave.
-/

namespace ReplicaCensus.Main

open Command

/-- What commands share. -/
structure World where
  tree : FileTree
  cluster : RunningCluster
  draws : Workload.Draws
  now : Int

/-- What a command did: the world after it, the lines it printed, and its exit status. -/
structure Effect where
  world : World
  lines : List String
  status : Nat

def stopped (w : World) (program : String) (stop : CommandStop) : Effect :=
  ⟨w, (stop.report? program).toList, stop.exitStatus⟩

def faulted (w : World) (kind message : String) : Effect := ⟨w, [kind ++ ": " ++ message], 1⟩

def logLines (log : List LogLine) : List String :=
  log.map fun line => line.severity.label ++ " " ++ line.text

def launch (w : World) (arguments : List String) : Effect :=
  match LaunchOptions.parse arguments with
  | .error stop => stopped w LaunchOptions.program stop
  | .ok o =>
    match Launch.run o (fun _ => false) w.tree with
    | .error (fault, tree) => faulted { w with tree := tree } fault.kind fault.message
    | .ok launch =>
      let w := { w with tree := launch.tree }
      match ClusterDescription.load w.tree (Launch.clusterFile o) with
      | .error e => faulted w e.kind e.message
      | .ok description =>
        match RunningCluster.start description [] with
        | .error e => faulted w e.kind e.message
        | .ok cluster => ⟨{ w with cluster := cluster }, launch.lines, 0⟩

def node (w : World) (arguments : List String) : Effect :=
  match NodeOptions.parse arguments with
  | .error stop => stopped w NodeOptions.program stop
  | .ok o =>
    match Startup.run o w.tree with
    | .error fault => faulted w fault.kind fault.message
    | .ok startup =>
      let place := startup.listener.toList.map fun l =>
        l.service.title ++ " on " ++ l.host ++ ":" ++ toString l.port
      ⟨w, logLines startup.log ++ place, startup.exitStatus.getD 0⟩

def workload (w : World) (arguments : List String) : Effect :=
  match WorkloadOptions.parse arguments with
  | .error stop => stopped w WorkloadOptions.program stop
  | .ok o =>
    let run := Workload.run ⟨o, w.draws, w.now⟩ w.cluster w.tree
    let w := { w with tree := run.tree, cluster := run.cluster }
    match run.fault with
    | some fault =>
      let effect := faulted w fault.kind fault.message
      { effect with lines := run.lines ++ effect.lines }
    | none => ⟨w, run.lines, 0⟩

def census (w : World) (arguments : List String) : Effect :=
  match CensusOptions.parse arguments with
  | .error stop => stopped w CensusOptions.program stop
  | .ok o =>
    match Session.run o (w.cluster.transport w.now) w.tree with
    | .error fault => faulted w fault.kind fault.message
    | .ok session => ⟨{ w with tree := session.tree }, logLines session.log, session.exitStatus⟩

def command (w : World) : List String → Effect
  | "launch" :: arguments => launch w arguments
  | "node" :: arguments => node w arguments
  | "workload" :: arguments => workload w arguments
  | "census" :: arguments => census w arguments
  | _ => ⟨w, ["usage: (launch | node | workload | census) OPTIONS [then ...]"], 2⟩

def commandsOf : List String → List (List String)
  | [] => [[]]
  | argument :: rest =>
    if argument = "then" then [] :: commandsOf rest
    else
      match commandsOf rest with
      | [] => [[argument]]
      | first :: others => (argument :: first) :: others

/-- Runs commands one after the other; the first that fails is the last. -/
def runAll : World → List (List String) → Effect
  | w, [] => ⟨w, [], 0⟩
  | w, arguments :: rest =>
    let effect := command w arguments
    if effect.status = 0 then
      let later := runAll effect.world rest
      { later with lines := effect.lines ++ later.lines }
    else effect

def shownFile (entry : String × FileEntry) : List String :=
  match entry with
  | (_, .dir) => []
  | (path, .file content) =>
    match Utf8.decode content with
    | .ok cs => ["== " ++ path, String.ofList cs]
    | .error _ => ["== " ++ path, Hex.encode content]

def randomIntegers (count bound : Nat) : IO (List Int) :=
  (List.replicate count bound).mapM fun bound => return (← IO.rand 1 bound)

/-- Runs the commands of a command line with random draws, and prints what they did. -/
def run (arguments : List String) : IO UInt32 := do
  let integers ← randomIntegers 1024 1000
  let rolls ← randomIntegers 1024 1000
  let ranks ← randomIntegers 1024 1000
  let draws : Workload.Draws :=
    ⟨integers, rolls.map fun n => Double.ofFraction false n.natAbs 1001, ranks,
      Workload.lastFirst⟩
  let now ← IO.monoMsNow
  let effect := runAll ⟨OrderedMap.empty, ⟨[]⟩, draws, now⟩ (commandsOf arguments)
  for line in effect.lines do
    IO.println line
  for entry in effect.world.tree.under "." [] do
    for line in shownFile entry do
      IO.println line
  return UInt32.ofNat effect.status

end ReplicaCensus.Main

def main (arguments : List String) : IO UInt32 := ReplicaCensus.Main.run arguments
