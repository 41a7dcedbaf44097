import ReplicaCensus.Number.Shortest
/-!
# Failures and limits of a census

A failed key is reported by the kind of its failure and a text. Two signals are no failures of
their own: a cancellation ends the run once its key is looked at, an interruption at once.
-/

namespace ReplicaCensus

/-- Why a key could not be sampled. -/
inductive Failure where
  | raised (kind text : String)
  /-- A failure of a kind that stands for a time-out; the kind itself may have any name. -/
  | timeout (kind text : String)
  | cancelled
  | interrupted
  deriving DecidableEq, Repr

namespace Failure

def timedOut : Failure := .timeout "TimeoutError" ""

/-- A limit that no clock can be set to. -/
def limitTooLarge : Failure := .raised "OverflowError" "int too large to convert to float"

def kind : Failure → String
  | raised kind _ => kind
  | timeout kind _ => kind
  | cancelled => "CancelledError"
  | interrupted => "KeyboardInterrupt"

def message : Failure → String
  | raised _ text => text
  | timeout _ text => text
  | _ => ""

/-- Whether this is a time-out that says nothing. -/
def isSilentTimeout : Failure → Bool
  | timeout _ text => text = ""
  | _ => false

def toText (f : Failure) : String := f.kind ++ ": " ++ f.message

/-- How a key fails whose time is up, given how its fetch ended when it was cancelled for that. -/
def afterTimeout : Failure → Failure
  | cancelled => timedOut
  | f => f

end Failure

/-- A number of seconds, whole or not; it is shown as it was given. -/
inductive Seconds where
  | whole (n : Int)
  | fraction (x : Double)
  deriving DecidableEq, Repr

namespace Seconds

def toText : Seconds → String
  | whole n => toString n
  | fraction x => x.toText

def isNonPositive : Seconds → Bool
  | whole n => n ≤ 0
  | fraction x => x.isNonPositive

/-- Whether this is a whole number beyond the doubles. -/
def isTooLarge : Seconds → Bool
  | whole n => Double.ofInt n = .infinite (n < 0)
  | fraction _ => false

/-- The number of seconds; none is endless. A number that is none leaves time for work that takes
no time, and for no other. -/
def span? : Seconds → Option Rat
  | whole n => some n
  | fraction .nan => some 0
  | fraction (.infinite _) => none
  | fraction x => x.toRat?

end Seconds

/-- The words for a failure in a report: a time-out with no text of its own, in a run with a limit,
names the limit. -/
def Failure.describe (limit : Option Seconds) (f : Failure) : String :=
  match limit with
  | some seconds =>
    if f.isSilentTimeout then "timed out sampling a key after " ++ seconds.toText ++ "s"
    else f.toText
  | none => f.toText

end ReplicaCensus
