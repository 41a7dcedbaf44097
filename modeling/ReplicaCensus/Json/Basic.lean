import ReplicaCensus.OrderedMap
import ReplicaCensus.Number.Shortest
import ReplicaCensus.Number.Reading
import ReplicaCensus.Text.Quoted
/-!
# JSON values -- the type, how a value is shown in messages, conversion to numbers and text

An object keeps its members in the order in which their names first came. Whole numbers are
unbounded integers; numbers with a fraction or an exponent are doubles. Not every value can be
shown: an integer may have too many digits for it, and arrays and objects may be nested too deep.
-/

namespace ReplicaCensus

/-- A JSON value. -/
inductive Json where
  | null
  | bool (b : Bool)
  | int (n : Int)
  | double (x : Double)
  | str (s : String)
  | arr (items : List Json)
  | obj (members : List (String × Json))
  deriving Inhabited

namespace Json

/-! ## 1. Looking at a value -/

def member? (name : String) : Json → Option Json
  | obj members => OrderedMap.find name members
  | _ => none

/-- Whether a value counts as nothing: null, false, zero or empty. -/
def isNothing : Json → Bool
  | null => true
  | bool b => !b
  | int n => n = 0
  | double x => x.isZero
  | str s => s.isEmpty
  | arr items => items.isEmpty
  | obj members => members.isEmpty

def typeName : Json → String
  | null => "NoneType"
  | bool _ => "bool"
  | int _ => "int"
  | double _ => "float"
  | str _ => "str"
  | arr _ => "list"
  | obj _ => "dict"

mutual

def shown : Json → String
  | null => "None"
  | bool b => if b then "True" else "False"
  | int n => toString n
  | double x => x.toText
  | str s => Text.quoted s
  | arr items => Text.bracketed (shownItems items)
  | obj members => "\x7b" ++ String.intercalate ", " (shownMembers members) ++ "\x7d"

def shownItems : List Json → List String
  | [] => []
  | item :: rest => shown item :: shownItems rest

def shownMembers : List (String × Json) → List String
  | [] => []
  | (name, value) :: rest => (Text.quoted name ++ ": " ++ shown value) :: shownMembers rest

end

end Json

/-! ## 2. What cannot be written in a text -/

/-- Why there is no text that shows a value. -/
inductive TextFault where
  | tooLong
  | tooDeep
  deriving DecidableEq, Repr

namespace TextFault

def kind : TextFault → String
  | tooLong => "ValueError"
  | tooDeep => "RecursionError"

def message : TextFault → String
  | tooLong =>
    "Exceeds the limit (" ++ toString maxDigits ++ " digits) for integer string conversion; " ++
      "use sys.set_int_max_str_digits() to increase the limit"
  | tooDeep => "maximum recursion depth exceeded while getting the repr of an object"

end TextFault

namespace Json

/-- Whether an integer has more digits than are written. -/
def isLong (n : Int) : Bool := maxDigits < (Nat.toDigits 10 n.natAbs).length

/-- How deep calls nest when a value is read or shown. The interpreter stops at a thousand calls,
and the program that reads or shows the value takes some of them. -/
def maxNesting : Nat := 980

mutual

/-- What is wrong first with the text that shows a value, if the calls for it nest no deeper than
the second argument says. -/
def textFaultWithin : Json → Nat → Option TextFault
  | _, 0 => some .tooDeep
  | int n, _ + 1 => if isLong n then some .tooLong else none
  | arr items, room + 1 => itemsFaultWithin items room
  | obj members, room + 1 => membersFaultWithin members room
  | _, _ + 1 => none

def itemsFaultWithin : List Json → Nat → Option TextFault
  | [], _ => none
  | item :: rest, room =>
    match textFaultWithin item room with
    | some fault => some fault
    | none => itemsFaultWithin rest room

def membersFaultWithin : List (String × Json) → Nat → Option TextFault
  | [], _ => none
  | (_, value) :: rest, room =>
    match textFaultWithin value room with
    | some fault => some fault
    | none => membersFaultWithin rest room

end

def textFault? (value : Json) : Option TextFault := textFaultWithin value maxNesting

/-- A value as text: a string is itself, anything else is shown. -/
def asText : Json → Except TextFault String
  | str s => .ok s
  | value =>
    match value.textFault? with
    | some fault => .error fault
    | none => .ok (shown value)

end Json

/-! ## 3. Conversion to an integer -/

/-- Why a value is not an integer. -/
inductive ConversionFault where
  /-- A value of a type that is no number. -/
  | notNumber (typeName : String)
  | badText (fault : IntegerFault)
  | fromNan
  | fromInfinity
  deriving DecidableEq, Repr

namespace ConversionFault

def kind : ConversionFault → String
  | notNumber _ => "TypeError"
  | badText _ => "ValueError"
  | fromNan => "ValueError"
  | fromInfinity => "OverflowError"

def message : ConversionFault → String
  | notNumber typeName =>
    "int() argument must be a string, a bytes-like object or a real number, not '" ++ typeName ++
      "'"
  | badText fault => fault.message
  | fromNan => "cannot convert float NaN to integer"
  | fromInfinity => "cannot convert float infinity to integer"

end ConversionFault

namespace Json

/-- The integer a value stands for: truth values count as 0 and 1, doubles lose their fraction,
strings are read. -/
def toInteger : Json → Except ConversionFault Int
  | int n => .ok n
  | bool b => .ok (if b then 1 else 0)
  | double x =>
    match x with
    | .nan => .error .fromNan
    | .infinite _ => .error .fromInfinity
    | .finite negative m e =>
      let n : Int := Double.truncated m e
      .ok (if negative then -n else n)
  | str s =>
    match Number.readInteger s with
    | .ok n => .ok n
    | .error fault => .error (.badText fault)
  | value => .error (.notNumber value.typeName)

end Json

end ReplicaCensus
