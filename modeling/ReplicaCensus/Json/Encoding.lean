import ReplicaCensus.Json.Reader
import ReplicaCensus.Text.Utf8
/-!
# JSON from bytes

A message body is UTF-8 unless a byte order mark or the zeros among its first bytes say that it is
UTF-16 or UTF-32. Surrogates that pair with none become the replacement character.
-/

namespace ReplicaCensus.Json

/-- The order of the bytes of a unit. -/
inductive Endian where
  | little
  | big
  deriving DecidableEq, Repr

/-- The encoding of a body, with the number of bytes of its mark. -/
inductive Encoding where
  | utf8 (mark : Nat)
  | utf16 (order : Endian) (mark : Nat)
  | utf32 (order : Endian) (mark : Nat)
  deriving DecidableEq, Repr

namespace Encoding

def detect : Bytes → Encoding
  | 0x00 :: 0x00 :: 0xFE :: 0xFF :: _ => .utf32 .big 4
  | 0xFF :: 0xFE :: 0x00 :: 0x00 :: _ => .utf32 .little 4
  | 0xFE :: 0xFF :: _ => .utf16 .big 2
  | 0xFF :: 0xFE :: _ => .utf16 .little 2
  | 0xEF :: 0xBB :: 0xBF :: _ => .utf8 3
  -- without a mark, the zeros in the first bytes of a text tell the width of its units
  | a :: b :: c :: d :: _ =>
    if a = 0 then (if b = 0 then .utf32 .big 0 else .utf16 .big 0)
    else if b = 0 then (if c = 0 ∧ d = 0 then .utf32 .little 0 else .utf16 .little 0)
    else .utf8 0
  | [a, b] => if a = 0 then .utf16 .big 0 else if b = 0 then .utf16 .little 0 else .utf8 0
  | _ => .utf8 0

def unitValue (order : Endian) (bytes : Bytes) : Nat :=
  match order with
  | .big => bytes.foldl (fun n b => n * 256 + b.toNat) 0
  | .little => bytes.foldr (fun b n => n * 256 + b.toNat) 0

/-- The units of `size` bytes, and the bytes that make no whole unit; the first argument bounds
the number of units. -/
def unitsOf (order : Endian) (size : Nat) : Nat → Bytes → List Nat × Bytes
  | 0, bytes => ([], bytes)
  | budget + 1, bytes =>
    if bytes.length < size ∨ bytes = [] then ([], bytes)
    else
      let (units, rest) := unitsOf order size budget (bytes.drop size)
      (unitValue order (bytes.take size) :: units, rest)

def ofUnits16 : List Nat → List Char
  | [] => []
  | [n] => [ofUnit n]
  | high :: low :: rest =>
    -- two units that pair up are one character
    if 0xD800 ≤ high ∧ high < 0xDC00 ∧ 0xDC00 ≤ low ∧ low < 0xE000 then
      Char.ofNat (0x10000 + (high - 0xD800) * 1024 + (low - 0xDC00)) :: ofUnits16 rest
    else ofUnit high :: ofUnits16 (low :: rest)

def codecName (size : Nat) (order : Endian) : String :=
  "utf-" ++ toString (8 * size) ++ (match order with | .little => "-le" | .big => "-be")

def decodeUnits (order : Endian) (size mark : Nat) (bytes : Bytes) :
    Except DecodeFault (List Char) :=
  let (units, rest) := unitsOf order size bytes.length bytes
  let place (index : Nat) := mark + size * index
  match units.findIdx? fun n => 0x10FFFF < n with
  | some index =>
    .error ⟨codecName size order, place index, (bytes.drop (size * index)).take size, .outOfRange⟩
  | none =>
    -- bytes that make no whole unit are left at the end
    if rest.isEmpty then .ok (if size = 2 then ofUnits16 units else units.map ofUnit)
    else .error ⟨codecName size order, place units.length, rest, .truncated⟩

end Encoding

/-- Why a body is not JSON. -/
inductive BodyFault where
  | notText (fault : DecodeFault)
  | notJson (misreading : Misreading)
  deriving DecidableEq, Repr

namespace BodyFault

def message : BodyFault → String
  | notText fault => fault.message
  | notJson misreading => misreading.message

end BodyFault

def decodeBytes (bytes : Bytes) : Except DecodeFault (List Char) :=
  match Encoding.detect bytes with
  | .utf8 mark => Utf8.decodeFrom true 0 (bytes.drop mark)
  | .utf16 order mark => Encoding.decodeUnits order 2 mark (bytes.drop mark)
  | .utf32 order mark => Encoding.decodeUnits order 4 mark (bytes.drop mark)

def ofBytes (bytes : Bytes) : Except BodyFault Json :=
  match decodeBytes bytes with
  | .error fault => .error (.notText fault)
  | .ok cs =>
    match ofChars cs with
    | .ok json => .ok json
    | .error misreading => .error (.notJson misreading)

end ReplicaCensus.Json
