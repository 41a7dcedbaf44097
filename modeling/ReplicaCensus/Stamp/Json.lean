import ReplicaCensus.Json.Basic
import ReplicaCensus.Stamp.Basic
/-!
# Stamps as JSON

A stamp is an object with the clock under `vc`, its nodes written as strings, and the time under
`ts`. Reading refuses negative nodes and counts below one.
-/

namespace ReplicaCensus

/-- Why a value is not a stamp. -/
inductive StampFault where
  /-- A value that is no object where one is needed for looking up `wanted`. -/
  | notObject (typeName wanted : String)
  | conversion (fault : ConversionFault)
  | badEntry (node : String) (count : Json)

namespace StampFault

def kind : StampFault → String
  | notObject _ _ => "AttributeError"
  | conversion fault => fault.kind
  | badEntry _ _ => "ValueError"

def message : StampFault → String
  | notObject typeName wanted =>
    "'" ++ typeName ++ "' object has no attribute '" ++ wanted ++ "'"
  | conversion fault => fault.message
  | badEntry node count =>
    match count.textFault? with
    -- a count of too many digits cannot be told
    | some fault => fault.message
    | none => "invalid vector clock entry " ++ Text.quoted node ++ ": " ++ count.shown

end StampFault

namespace Clock

/-- Reads one entry: first the node, then the count. -/
def readEntry (name : String) (value : Json) : Except StampFault (Int × Int) :=
  match Json.toInteger (.str name), value.toInteger with
  | .error fault, _ => .error (.conversion fault)
  | .ok _, .error fault => .error (.conversion fault)
  | .ok node, .ok count =>
    if node < 0 ∨ count < 1 then .error (.badEntry name value) else .ok (node, count)

def readMembers : List (String × Json) → Clock → Except StampFault Clock
  | [], clock => .ok clock
  | (name, value) :: rest, clock =>
    match readEntry name value with
    | .error fault => .error fault
    -- two names of one node, such as `1` and `01`, are one entry
    | .ok (node, count) => readMembers rest (clock.insert node count)

/-- Reads a clock; a value that counts as nothing is a clock without entries. -/
def ofJson (value : Json) : Except StampFault Clock :=
  if value.isNothing then .ok OrderedMap.empty
  else
    match value with
    | .obj members => readMembers members OrderedMap.empty
    | value => .error (.notObject value.typeName "items")

def toMembers (c : Clock) : List (String × Json) := c.entries.map fun e => (toString e.1, .int e.2)

def toJson (c : Clock) : Json := .obj (toMembers c)

end Clock

namespace Stamp

/-- Reads a stamp; the time is looked at before the clock. -/
def ofJson (payload : Json) : Except StampFault Stamp :=
  match payload with
  | .obj _ =>
    match ((payload.member? "ts").getD (.int 0)).toInteger with
    | .error fault => .error (.conversion fault)
    | .ok time =>
      match Clock.ofJson ((payload.member? "vc").getD (.obj [])) with
      | .error fault => .error fault
      | .ok clock => .ok ⟨clock, time⟩
  | payload => .error (.notObject payload.typeName "get")

def toJson (s : Stamp) : Json := .obj [("vc", Clock.toJson s.clock), ("ts", .int s.time)]

end Stamp

end ReplicaCensus
