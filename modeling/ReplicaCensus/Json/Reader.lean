import ReplicaCensus.Json.Basic
/-!
# Reading JSON -- values, or the place and the cause of a fault

The reader goes through a list of characters and hands on what is left of it. A fault is noted with
the number of characters left at its place, from which offset, line and column follow. Beyond the
standard it takes `NaN`, `Infinity` and `-Infinity`, and of members with one name the last counts,
at the place of the first. Arrays and objects may be nested, but not too deep.
-/

namespace ReplicaCensus.Json

/-! ## 1. Faults -/

/-- What is wrong at a place. -/
inductive Expectation where
  | value
  | comma
  | colon
  | name
  | endOfText
  | closingQuote
  | noControlCharacter
  | escape
  | unicodeEscape
  | noByteOrderMark
  deriving DecidableEq, Repr

namespace Expectation

def message : Expectation → String
  | value => "Expecting value"
  | comma => "Expecting ',' delimiter"
  | colon => "Expecting ':' delimiter"
  | name => "Expecting property name enclosed in double quotes"
  | endOfText => "Extra data"
  | closingQuote => "Unterminated string starting at"
  | noControlCharacter => "Invalid control character at"
  | escape => "Invalid \\escape"
  | unicodeEscape => "Invalid \\uXXXX escape"
  | noByteOrderMark => "Unexpected UTF-8 BOM (decode using utf-8-sig)"

end Expectation

/-- What is read when calls nest too deep. -/
inductive Container where
  | array
  | object
  deriving DecidableEq, Repr

/-- Why reading stopped: an expectation that failed with `left` characters left, an integer of too
many digits, or too deep a nest. -/
inductive Stop where
  | failed (expected : Expectation) (left : Nat)
  | tooLong (digits : Nat)
  | tooDeep (container : Container)
  deriving DecidableEq, Repr

/-- A fault with its place in the text; lines and columns count from one, offsets from zero. -/
inductive Misreading where
  | failed (expected : Expectation) (line column offset : Nat)
  | tooLong (digits : Nat)
  | tooDeep (container : Container)
  deriving DecidableEq, Repr

/-- The words for a nest that is too deep. -/
def Container.tooDeepMessage (container : Container) : String :=
  "maximum recursion depth exceeded while decoding a JSON " ++
    (match container with | .array => "array" | .object => "object") ++ " from a unicode string"

namespace Misreading

def message : Misreading → String
  | failed expected line column offset =>
    expected.message ++ ": line " ++ toString line ++ " column " ++ toString column ++
      " (char " ++ toString offset ++ ")"
  | tooLong digits => (IntegerFault.tooLong digits).message
  | tooDeep container => container.tooDeepMessage

def ofStop (text : List Char) : Stop → Misreading
  | .tooLong digits => .tooLong digits
  | .tooDeep container => .tooDeep container
  | .failed expected left =>
    let offset := text.length - left
    -- the column starts over behind the last line feed
    let before := text.take offset
    let column := (before.reverse.takeWhile (· ≠ '\n')).length + 1
    .failed expected (before.count '\n' + 1) column offset

end Misreading

/-! ## 2. Strings -/

def isSpace (c : Char) : Bool := c = ' ' || c = '\t' || c = '\n' || c = '\r'

def skipSpace (cs : List Char) : List Char := cs.dropWhile isSpace

def unit? : List Char → Option Nat
  | [a, b, c, d] => do
    let a ← Hex.digitValue? a
    let b ← Hex.digitValue? b
    let c ← Hex.digitValue? c
    let d ← Hex.digitValue? d
    some (((a * 16 + b) * 16 + c) * 16 + d)
  | _ => none

/-- The character of a UTF-16 unit on its own; a surrogate becomes the replacement character. -/
def ofUnit (n : Nat) : Char := if 0xD800 ≤ n ∧ n < 0xE000 then Char.ofNat 0xFFFD else Char.ofNat n

/-- Reads what follows a backslash and a `u`: the character, and how many characters it took. A
high surrogate joins with an escaped low one right behind it. At least one character has to follow
an escape. -/
def unicodeEscape (tail : List Char) : Except Stop (Char × Nat) :=
  if tail.length ≤ 4 then .error (.failed .unicodeEscape (tail.length + 1))
  else
    match unit? (tail.take 4) with
    | none => .error (.failed .unicodeEscape (tail.length + 1))
    | some high =>
      let rest := tail.drop 4
      -- half of a pair looks for its other half, which is an escape of its own
      if 0xD800 ≤ high ∧ high < 0xDC00 ∧ 6 < rest.length ∧ rest.take 2 = ['\\', 'u'] then
        match unit? ((rest.drop 2).take 4) with
        | none => .error (.failed .unicodeEscape (rest.length - 1))
        | some low =>
          if 0xDC00 ≤ low ∧ low < 0xE000 then
            .ok (Char.ofNat (0x10000 + (high - 0xD800) * 1024 + (low - 0xDC00)), 10)
          -- the second escape is none of this one's, and is read by itself
          else .ok (ofUnit high, 4)
      else .ok (ofUnit high, 4)

def shortEscape? (c : Char) : Option Char :=
  if c = '"' || c = '\\' || c = '/' then some c
  else if c = 'b' then some (Char.ofNat 8)
  else if c = 'f' then some (Char.ofNat 12)
  else if c = 'n' then some '\n'
  else if c = 'r' then some '\r'
  else if c = 't' then some '\t'
  else none

def push (c : Char) : Except Stop (List Char × List Char) → Except Stop (List Char × List Char)
  | .ok (cs, rest) => .ok (c :: cs, rest)
  | .error stop => .error stop

/-- Reads a string after its opening quote, at which `opened` characters were left. -/
def stringBody (opened : Nat) : List Char → Except Stop (List Char × List Char)
  | [] => .error (.failed .closingQuote opened)
  | c :: rest =>
    if c = '"' then .ok ([], rest)
    else if c = '\\' then
      match rest with
      | [] => .error (.failed .closingQuote opened)
      | e :: tail =>
        -- a unit of four digits, or one letter
        if e = 'u' then
          match unicodeEscape tail with
          | .error stop => .error stop
          | .ok (c, used) => push c (stringBody opened (tail.drop used))
        else
          match shortEscape? e with
          | some c => push c (stringBody opened tail)
          | none => .error (.failed .escape (tail.length + 2))
    else if c.toNat < 32 then .error (.failed .noControlCharacter (rest.length + 1))
    else push c (stringBody opened rest)
termination_by cs => cs.length
decreasing_by all_goals simp only [List.length_drop, List.length_cons]; omega

/-! ## 3. Numbers -/

/-- The integer part at the front: a zero alone, or digits that start with another. -/
def integerPart : List Char → List Char × List Char
  | [] => ([], [])
  | c :: rest =>
    if c = '0' then ([c], rest)
    else ((c :: rest).takeWhile Text.isAsciiDigit, (c :: rest).dropWhile Text.isAsciiDigit)

def fractionPart : List Char → List Char × List Char
  | '.' :: rest =>
    match rest.takeWhile Text.isAsciiDigit with
    -- a point without digits behind it is no part of the number
    | [] => ([], '.' :: rest)
    | digits => (digits, rest.dropWhile Text.isAsciiDigit)
  | cs => ([], cs)

def exponentPart : List Char → Option (Int × List Char)
  | [] => none
  | e :: rest =>
    if e = 'e' || e = 'E' then
      let (negative, cs) := Number.takeSign rest
      match cs.takeWhile Text.isAsciiDigit with
      -- an `e` without digits behind it begins no exponent
      | [] => none
      | digits =>
        let n : Int := Number.ofDigits digits
        some (if negative then -n else n, cs.dropWhile Text.isAsciiDigit)
    else none

/-- Reads a number that starts with a digit, its sign having been read. -/
def unsigned (negative : Bool) (cs : List Char) : Option (Except Stop Json × List Char) :=
  match integerPart cs with
  | ([], _) => none
  | (whole, rest) =>
    let (fraction, rest) := fractionPart rest
    match fraction, exponentPart rest with
    -- only a number with neither fraction nor exponent is an integer
    | [], none =>
      if maxDigits < whole.length then some (.error (.tooLong whole.length), rest)
      else
        let n : Int := Number.ofDigits whole
        some (.ok (int (if negative then -n else n)), rest)
    | fraction, none =>
      some (.ok (double (Double.ofDecimal negative (Number.ofDigits (whole ++ fraction))
        (-fraction.length))), rest)
    | fraction, some (e, rest) =>
      some (.ok (double (Double.ofDecimal negative (Number.ofDigits (whole ++ fraction))
        (e - fraction.length))), rest)

def constants : List (List Char × Json) :=
  [("null".toList, null), ("true".toList, bool true), ("false".toList, bool false),
    ("NaN".toList, double .nan), ("Infinity".toList, double (.infinite false)),
    ("-Infinity".toList, double (.infinite true))]

def after? : List Char → List Char → Option (List Char)
  | [], cs => some cs
  | w :: word, c :: cs => if w = c then after? word cs else none
  | _ :: _, [] => none

def constant? (cs : List Char) : Option (Json × List Char) :=
  constants.findSome? fun (word, value) => (after? word cs).map fun rest => (value, rest)

def scalar (cs : List Char) : Except Stop (Json × List Char) :=
  match constant? cs with
  | some found => .ok found
  | none =>
    -- `-Infinity` was looked for before, so a minus sign begins a number
    let number :=
      match cs with
      | '-' :: rest => unsigned true rest
      | cs => unsigned false cs
    match number with
    | some (.ok value, rest) => .ok (value, rest)
    | some (.error stop, _) => .error stop
    | none => .error (.failed .value cs.length)

/-! ## 4. Values -/

mutual

/-- Reads the value at the front. The first argument bounds the number of calls; twice the number
of characters is always enough. The second is how deep arrays and objects may be nested. -/
def value : Nat → Nat → List Char → Except Stop (Json × List Char)
  | 0, _, cs => .error (.failed .value cs.length)
  | _ + 1, _, [] => .error (.failed .value 0)
  | calls + 1, room, c :: rest =>
    if c = '"' then
      match stringBody (rest.length + 1) rest with
      | .error stop => .error stop
      | .ok (s, rest) => .ok (str (String.ofList s), rest)
    else if c = '[' then
      if room = 0 then .error (.tooDeep .array)
      else
        match skipSpace rest with
        | ']' :: rest => .ok (arr [], rest)
        | rest => items calls (room - 1) [] rest
    else if c = '\x7b' then
      if room = 0 then .error (.tooDeep .object)
      else
        match skipSpace rest with
        | '\x7d' :: rest => .ok (obj [], rest)
        | rest => members calls (room - 1) [] rest
    else scalar (c :: rest)

/-- Reads items up to the closing bracket; `done` holds those before them, last first. -/
def items : Nat → Nat → List Json → List Char → Except Stop (Json × List Char)
  | 0, _, _, cs => .error (.failed .value cs.length)
  | calls + 1, room, done, cs =>
    match value calls room cs with
    | .error stop => .error stop
    | .ok (item, rest) =>
      match skipSpace rest with
      | ']' :: rest => .ok (arr (item :: done).reverse, rest)
      -- a comma must be followed by another item
      | ',' :: rest => items calls room (item :: done) (skipSpace rest)
      | rest => .error (.failed .comma rest.length)

/-- Reads members up to the closing brace; `done` holds those before them, in order. -/
def members : Nat → Nat → List (String × Json) → List Char → Except Stop (Json × List Char)
  | 0, _, _, cs => .error (.failed .value cs.length)
  | calls + 1, room, done, cs =>
    match cs with
    | '"' :: rest =>
      match stringBody (rest.length + 1) rest with
      | .error stop => .error stop
      | .ok (name, rest) =>
        match skipSpace rest with
        | ':' :: rest =>
          match value calls room (skipSpace rest) with
          | .error stop => .error stop
          | .ok (item, rest) =>
            -- a name that came before keeps its place and takes the new value
            let done := OrderedMap.put (String.ofList name) item done
            match skipSpace rest with
            | '\x7d' :: rest => .ok (obj done, rest)
            | ',' :: rest => members calls room done (skipSpace rest)
            | rest => .error (.failed .comma rest.length)
        | rest => .error (.failed .colon rest.length)
    | cs => .error (.failed .name cs.length)

end

def readWhole (cs : List Char) : Except Stop Json :=
  match value (2 * cs.length + 2) maxNesting (skipSpace cs) with
  | .error stop => .error stop
  | .ok (json, rest) =>
    -- nothing but white space may follow
    match skipSpace rest with
    | [] => .ok json
    | rest => .error (.failed .endOfText rest.length)

def ofChars (cs : List Char) : Except Misreading Json :=
  match readWhole cs with
  | .ok json => .ok json
  | .error stop => .error (.ofStop cs stop)

def ofText (cs : List Char) : Except Misreading Json :=
  match cs with
  | [] => ofChars []
  | c :: rest =>
    -- a text has no byte order mark; only bytes may have one
    if c.toNat = 0xFEFF then .error (.ofStop (c :: rest) (.failed .noByteOrderMark (rest.length + 1)))
    else ofChars (c :: rest)

end ReplicaCensus.Json
