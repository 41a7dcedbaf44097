import ReplicaCensus.Json.Basic
/-!
# Writing JSON

Three layouts are in use: compact for messages between nodes, spaced on one line, and indented for
files. Strings are written with short escapes where there are any; a layout may ask for ASCII
alone, and then other characters are written as UTF-16 units.
-/

namespace ReplicaCensus.Json

/-- How a value is laid out. -/
structure Layout where
  /-- Spaces per level, if every item has a line of its own. -/
  indent : Option Nat
  /-- Whether a space follows a comma on the same line and a colon. -/
  afterComma : List Char
  afterColon : List Char
  asciiOnly : Bool

namespace Layout

def compact : Layout := ⟨none, [], [], false⟩

def line : Layout := ⟨none, [' '], [' '], true⟩

def indented : Layout := ⟨some 2, [], [' '], true⟩

/-- The white space before an item at `depth`, or before the closing bracket of that depth. -/
def lineBreak (layout : Layout) (depth : Nat) : List Char :=
  match layout.indent with
  | none => []
  | some k => '\n' :: List.replicate (k * depth) ' '

def separator (layout : Layout) (depth : Nat) : List Char :=
  ',' :: layout.afterComma ++ layout.lineBreak depth

end Layout

def unitEscape (n : Nat) : List Char := '\\' :: 'u' :: Hex.padded 4 n

def escapeChar (asciiOnly : Bool) (c : Char) : List Char :=
  let n := c.toNat
  if c = '"' || c = '\\' then ['\\', c]
  else if c = '\n' then ['\\', 'n']
  else if c = '\r' then ['\\', 'r']
  else if c = '\t' then ['\\', 't']
  else if n = 12 then ['\\', 'f']
  else if n = 8 then ['\\', 'b']
  else if n < 32 then unitEscape n
  else if n < 127 || !asciiOnly then [c]
  else if n < 0x10000 then unitEscape n
  else
    let v := n - 0x10000
    unitEscape (0xD800 + v / 1024) ++ unitEscape (0xDC00 + v % 1024)

def stringChars (asciiOnly : Bool) (s : String) : List Char :=
  '"' :: s.toList.flatMap (escapeChar asciiOnly) ++ ['"']

/-- A double; infinities and NaN have names of their own. -/
def doubleChars : Double → List Char
  | .nan => "NaN".toList
  | .infinite negative => (if negative then "-Infinity" else "Infinity").toList
  | x => x.toText.toList

mutual

def valueChars (layout : Layout) (depth : Nat) : Json → List Char
  | null => "null".toList
  | bool b => (if b then "true" else "false").toList
  | int n => (toString n).toList
  | double x => doubleChars x
  | str s => stringChars layout.asciiOnly s
  | arr [] => ['[', ']']
  | arr (item :: rest) =>
    '[' :: layout.lineBreak (depth + 1) ++ valueChars layout (depth + 1) item ++
      itemsChars layout (depth + 1) rest ++ layout.lineBreak depth ++ [']']
  | obj [] => ['\x7b', '\x7d']
  | obj ((name, value) :: rest) =>
    '\x7b' :: layout.lineBreak (depth + 1) ++ stringChars layout.asciiOnly name ++
      ':' :: layout.afterColon ++ valueChars layout (depth + 1) value ++
      membersChars layout (depth + 1) rest ++ layout.lineBreak depth ++ ['\x7d']

def itemsChars (layout : Layout) (depth : Nat) : List Json → List Char
  | [] => []
  | item :: rest =>
    layout.separator depth ++ valueChars layout depth item ++ itemsChars layout depth rest

def membersChars (layout : Layout) (depth : Nat) : List (String × Json) → List Char
  | [] => []
  | (name, value) :: rest =>
    layout.separator depth ++ stringChars layout.asciiOnly name ++ ':' :: layout.afterColon ++
      valueChars layout depth value ++ membersChars layout depth rest

end

def render (layout : Layout) (value : Json) : String := String.ofList (valueChars layout 0 value)

/-! ## Integers that cannot be written -/

/-- What is written of the text in front of an item before the item itself; an integer is written
together with it. -/
def written (opening : List Char) : Json → List Char
  | int _ => []
  | _ => opening

mutual

/-- What is written of a value up to its first integer of too many digits, if it has one. -/
def beforeLong (layout : Layout) (depth : Nat) : Json → Option (List Char)
  | int n => if isLong n then some [] else none
  | arr (item :: rest) =>
    let opening := '[' :: layout.lineBreak (depth + 1)
    match beforeLong layout (depth + 1) item with
    | some cs => some (written opening item ++ cs)
    | none =>
      (itemsBeforeLong layout (depth + 1) rest).map fun cs =>
        opening ++ valueChars layout (depth + 1) item ++ cs
  | obj ((name, value) :: rest) =>
    let opening := '\x7b' :: layout.lineBreak (depth + 1) ++ stringChars layout.asciiOnly name ++
      ':' :: layout.afterColon
    match beforeLong layout (depth + 1) value with
    | some cs => some (opening ++ cs)
    | none =>
      (membersBeforeLong layout (depth + 1) rest).map fun cs =>
        opening ++ valueChars layout (depth + 1) value ++ cs
  | _ => none

def itemsBeforeLong (layout : Layout) (depth : Nat) : List Json → Option (List Char)
  | [] => none
  | item :: rest =>
    let opening := layout.separator depth
    match beforeLong layout depth item with
    | some cs => some (written opening item ++ cs)
    | none =>
      (itemsBeforeLong layout depth rest).map fun cs =>
        opening ++ valueChars layout depth item ++ cs

def membersBeforeLong (layout : Layout) (depth : Nat) : List (String × Json) → Option (List Char)
  | [] => none
  | (name, value) :: rest =>
    let opening := layout.separator depth ++ stringChars layout.asciiOnly name ++
      ':' :: layout.afterColon
    match beforeLong layout depth value with
    | some cs => some (opening ++ cs)
    | none =>
      (membersBeforeLong layout depth rest).map fun cs =>
        opening ++ valueChars layout depth value ++ cs

end

end ReplicaCensus.Json
