import ReplicaCensus.Text.Digit
import ReplicaCensus.Text.Quoted
import ReplicaCensus.Number.Double
/-!
# Numbers from text

Numbers may stand between blanks, carry a sign, use the decimal digits of any script and have
single underscores between digits. An integer has at most `maxDigits` digits.
-/

namespace ReplicaCensus

def maxDigits : Nat := 4300

/-- Why a text is not an integer. -/
inductive IntegerFault where
  | malformed (text : String)
  | tooLong (digits : Nat)
  deriving DecidableEq, Repr

namespace IntegerFault

/-- A malformed text is shown quoted, up to two hundred characters of it. -/
def message : IntegerFault → String
  | malformed text =>
    "invalid literal for int() with base 10: " ++
      String.ofList ((Text.quotedChars text.toList).take 200)
  | tooLong digits =>
    "Exceeds the limit (" ++ toString maxDigits ++ " digits) for integer string conversion: " ++
      "value has " ++ toString digits ++
      " digits; use sys.set_int_max_str_digits() to increase the limit"

end IntegerFault

namespace Number

/-- The number that a string of ASCII digits stands for; other characters are passed over. -/
def ofDigits (cs : List Char) : Nat :=
  cs.foldl (fun n c => if Text.isAsciiDigit c then 10 * n + (c.toNat - 48) else n) 0

/-- The ASCII form of a text that is to be read as a number: digits of other scripts become ASCII
digits and blanks beyond ASCII become spaces. -/
def toAscii (cs : List Char) : List Char :=
  cs.map fun c =>
    if c.toNat < 128 then c
    else
      match Text.digitValue? c with
      | some d => Char.ofNat (48 + d)
      | none => if Text.isBlank c then ' ' else c

/-- Takes a sign off: whether it was a minus, and the rest. -/
def takeSign : List Char → Bool × List Char
  | '-' :: rest => (true, rest)
  | '+' :: rest => (false, rest)
  | cs => (false, cs)

/-- Whether underscores stand between digits only, in a run of digits and underscores. -/
def wellSpaced : List Char → Bool
  | [] => true
  | '_' :: _ => false
  | [_] => true
  | _ :: '_' :: '_' :: _ => false
  | _ :: '_' :: rest => !rest.isEmpty && wellSpaced rest
  | _ :: rest => wellSpaced rest

/-- Reads an integer. A run of too many digits is refused before what follows it is looked at. -/
def readInteger (text : String) : Except IntegerFault Int :=
  let (negative, cs) := takeSign (Text.trimBoth Text.isAsciiBlank (toAscii text.toList))
  let run := cs.takeWhile fun c => Text.isAsciiDigit c || c = '_'
  let rest := cs.dropWhile fun c => Text.isAsciiDigit c || c = '_'
  let count := run.countP Text.isAsciiDigit
  if !wellSpaced run || count = 0 then .error (.malformed text)
  else if maxDigits < count then .error (.tooLong count)
  else if !rest.isEmpty then .error (.malformed text)
  else
    let n : Int := ofDigits run
    .ok (if negative then -n else n)

/-- A run of digits with single underscores between them, without the underscores, and the rest.
An underscore that no digit precedes or follows is left in the rest. -/
def takeDigits : List Char → List Char × List Char
  | [] => ([], [])
  | c :: rest =>
    if Text.isAsciiDigit c then
      match rest with
      | '_' :: d :: rest' =>
        if Text.isAsciiDigit d then
          let (ds, tail) := takeDigits (d :: rest')
          (c :: ds, tail)
        else ([c], rest)
      | rest =>
        let (ds, tail) := takeDigits rest
        (c :: ds, tail)
    else ([], c :: rest)
termination_by cs => cs.length

def readExponent : List Char → Option Int
  | [] => some 0
  | e :: rest =>
    if e = 'e' || e = 'E' then
      let (negative, cs) := takeSign rest
      match takeDigits cs with
      | ([], _) => none
      | (digits, []) =>
        let n : Int := ofDigits digits
        some (if negative then -n else n)
      | _ => none
    else none

/-- Reads a double: a decimal fraction with an optional exponent, an infinity or a NaN. -/
def readDouble (text : String) : Option Double :=
  let (negative, cs) := takeSign (Text.trimBoth Text.isAsciiBlank (toAscii text.toList))
  let word := cs.map Char.toLower
  if word = "inf".toList || word = "infinity".toList then some (.infinite negative)
  else if word = "nan".toList then some .nan
  else
    let (whole, rest) := takeDigits cs
    let (fraction, rest) :=
      match rest with
      | '.' :: rest => takeDigits rest
      | rest => ([], rest)
    if whole.isEmpty && fraction.isEmpty then none
    else
      (readExponent rest).map fun e =>
        Double.ofDecimal negative (ofDigits (whole ++ fraction)) (e - fraction.length)

end Number

end ReplicaCensus
