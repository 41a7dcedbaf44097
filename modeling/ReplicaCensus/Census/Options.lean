import ReplicaCensus.Census.Store
import ReplicaCensus.Command.Option
/-!
# Options of a census -- where to ask, where to read and write, and the limits

The URL of a bootstrap node and the two directories have to be given. The number of slots is at
least one; neither time limit is zero or negative, though a limit may be infinite or no number.
-/

namespace ReplicaCensus

/-- What a census is asked to do. -/
structure CensusOptions where
  url : String
  inDir : String
  outDir : String
  parallelism : Int
  keyTimeout : Option Double
  requestTimeout : Double
  failFast : Bool
  debug : Bool
  deriving DecidableEq, Repr

namespace CensusOptions

open Command

def program : String := "kvsampler"

/-- The time limit of one request when none is given: five seconds. -/
def defaultRequestTimeout : Double := Double.ofInt 5

def specs : List OptionSpec :=
  [.help, .mandatory "--url" .text, .mandatory "--in-dir" .text, .mandatory "--out-dir" .text,
    .optional "--parallelism" .integer, .optional "--key-timeout" .number,
    .optional "--request-timeout" .number, .flag "--fail-fast", .flag "--debug"]

def ofGiven (given : Given) : CensusOptions where
  url := (given.text? "--url").getD ""
  inDir := (given.text? "--in-dir").getD ""
  outDir := (given.text? "--out-dir").getD ""
  parallelism := (given.integer? "--parallelism").getD Census.defaultSlots
  keyTimeout := given.number? "--key-timeout"
  requestTimeout := (given.number? "--request-timeout").getD defaultRequestTimeout
  failFast := given.has "--fail-fast"
  debug := given.has "--debug"

def fault? (o : CensusOptions) : Option UsageError :=
  if o.parallelism < 1 then some (.tooSmall "--parallelism" 1 o.parallelism)
  else if o.keyTimeout.any Double.isNonPositive then some (.notPositive "--key-timeout")
  else if o.requestTimeout.isNonPositive then some (.notPositive "--request-timeout")
  else none

def parse (arguments : List String) : Except CommandStop CensusOptions :=
  match readOptions specs arguments with
  | .error stop => .error stop
  | .ok given =>
    let o := ofGiven given
    match o.fault? with
    | some fault => .error (.usage fault)
    | none => .ok o

def limit (o : CensusOptions) : Option Seconds := o.keyTimeout.map Seconds.fraction

def toJson (o : CensusOptions) : Json :=
  .obj [("url", .str o.url), ("in_dir", .str o.inDir), ("out_dir", .str o.outDir),
    ("parallelism", .int o.parallelism),
    ("key_timeout", match o.keyTimeout with
      | some x => .double x
      | none => .null),
    ("request_timeout", .double o.requestTimeout), ("fail_fast", .bool o.failFast),
    ("debug", .bool o.debug)]

end CensusOptions

end ReplicaCensus
