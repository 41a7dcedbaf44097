import ReplicaCensus.Json.Encoding
import ReplicaCensus.Text.Lines
/-!
# Requests to a node -- routes and the body of a write

A path leads to a route; the names in it are one or more characters but slashes. A line feed at the
end of a path is passed over where the route ends in a fixed word. The body of a write is an object
with a string and, optionally, an object of integers, which may be written as whole doubles, truth
values or strings.

The program itself only lists the routes and the fields of a body. How a path is matched, how a body
is read and which status refuses it are the rules of the web framework that it is written with; they
are set down here as that framework has them.
-/

namespace ReplicaCensus

/-- A request to a node; `now` is the time in milliseconds. -/
structure Request where
  method : String
  path : String
  body : Bytes
  now : Int
  deriving DecidableEq, Repr

/-- Where a path leads. -/
inductive Route where
  | ping
  | cluster
  | stores
  | ring
  | versions (store key : String)
  | cell (store key : String)
  deriving DecidableEq, Repr

namespace Route

def dropLastFeed (cs : List Char) : List Char :=
  if cs.getLast? = some '\n' then cs.dropLast else cs

/-- The route with given names behind the first slash, if it ends in a fixed word. -/
def fixed? : List String → Option Route
  | ["ping"] => some .ping
  | ["admin", "cluster"] => some .cluster
  | ["admin", "stores"] => some .stores
  | ["admin", "ring"] => some .ring
  | ["admin", "stores", store, "keys", key, "versions"] =>
    if store = "" ∨ key = "" then none else some (.versions store key)
  | _ => none

/-- The route with given names behind the first slash, if it ends in a key. -/
def cell? : List String → Option Route
  | ["admin", "stores", store, "keys", key] =>
    if store = "" ∨ key = "" then none else some (.cell store key)
  | _ => none

def names? (cs : List Char) : Option (List String) :=
  match Text.splitAtChar '/' cs with
  | [] :: rest => some (rest.map String.ofList)
  | _ => none

def ofPath? (path : String) : Option Route :=
  match names? path.toList with
  | none => none
  | some names =>
    match cell? names with
    | some route => some route
    | none => ((names? (dropLastFeed path.toList)).getD []) |> fixed?

def method : Route → String
  | cell .. => "PUT"
  | _ => "GET"

end Route

/-! ## The body of a write -/

/-- A value to write, with the counts of the clock it comes with. -/
structure WriteBody where
  value : String
  counts : List (String × Int)
  deriving DecidableEq, Repr

/-- Why a body is refused: it is not text, has too long a number or is nested too deep, or it is not
a write. -/
inductive BodyRefusal where
  | unreadable
  | invalid
  deriving DecidableEq, Repr

namespace WriteBody

/-- Whether an underscore follows leading zeros, which are dropped before underscores are looked
at. -/
def isZeroJoined (cs : List Char) : Bool :=
  cs.head? = some '0' && (cs.dropWhile (· = '0')).head? = some '_'

/-- Reads an integer string of a body: white space around it, a sign, digits with single underscores
between them, and possibly a point and zeros behind them. -/
def readCount (text : String) : Option Int :=
  let (negative, cs) := Number.takeSign (Text.trimBoth Text.isWhiteSpace text.toList)
  let (digits, rest) := Number.takeDigits cs
  -- a fraction of zeros alone leaves the number whole
  let isWhole := rest = [] || (rest.head? = some '.' && (rest.drop 1).all (· = '0'))
  if digits.isEmpty || !isWhole || isZeroJoined cs || maxDigits < text.length then none
  else
    let n : Int := Number.ofDigits digits
    some (if negative then -n else n)

/-- The bound of the magnitudes of whole doubles that count as integers. -/
def wholeBound : Nat := 0x8000000000000000

def countOf : Json → Option Int
  | .int n => some n
  | .bool b => some (if b then 1 else 0)
  | .double x =>
    match x.truncate? with
    | some n => if x.isWhole && n.natAbs < wholeBound then some n else none
    | none => none
  | .str s => readCount s
  | _ => none

def readCounts : List (String × Json) → Option (List (String × Int))
  | [] => some []
  | (name, value) :: rest =>
    match countOf value, readCounts rest with
    | some n, some counts => some ((name, n) :: counts)
    | _, _ => none

def ofJson (body : Json) : Option WriteBody :=
  match body.member? "value", body.member? "vc" with
  | some (.str value), none => some ⟨value, []⟩
  | some (.str value), some (.obj members) => (readCounts members).map fun counts => ⟨value, counts⟩
  | _, _ => none

def ofBytes (body : Bytes) : Except BodyRefusal WriteBody :=
  if body.isEmpty then .error .invalid
  else
    match Json.ofBytes body with
    | .error (.notText _) => .error .unreadable
    | .error (.notJson (.tooLong _)) => .error .unreadable
    | .error (.notJson (.tooDeep _)) => .error .unreadable
    | .error (.notJson _) => .error .invalid
    | .ok json =>
      match ofJson json with
      | some write => .ok write
      | none => .error .invalid

end WriteBody

end ReplicaCensus
