import ReplicaCensus.Text.Hex
/-!
# UTF-8 -- text from bytes, with the place and the cause of a fault

A well-formed sequence has the shortest form and encodes a scalar value. A fault names the bytes
that could not be read: the start byte and the continuation bytes that were still in order.
-/

namespace ReplicaCensus

/-- Why bytes are not text. -/
inductive DecodeCause where
  | invalidStart
  | invalidContinuation
  | unexpectedEnd
  | truncated
  | outOfRange
  deriving DecidableEq, Repr

namespace DecodeCause

def message : DecodeCause → String
  | invalidStart => "invalid start byte"
  | invalidContinuation => "invalid continuation byte"
  | unexpectedEnd => "unexpected end of data"
  | truncated => "truncated data"
  | outOfRange => "code point not in range(0x110000)"

end DecodeCause

/-- Bytes that are not text in the encoding `codec`, and where they start. -/
structure DecodeFault where
  codec : String
  position : Nat
  bytes : Bytes
  cause : DecodeCause
  deriving DecidableEq, Repr

namespace DecodeFault

def message (f : DecodeFault) : String :=
  let place :=
    match f.bytes with
    | [b] => "byte 0x" ++ String.ofList (Hex.padded 2 b.toNat) ++ " in position " ++
        toString f.position
    | bytes => "bytes in position " ++ toString f.position ++ "-" ++
        toString (f.position + bytes.length - 1)
  "'" ++ f.codec ++ "' codec can't decode " ++ place ++ ": " ++ f.cause.message

end DecodeFault

namespace Utf8

def encode (cs : List Char) : Bytes := cs.flatMap String.utf8EncodeChar

/-- A byte of the form `10xxxxxx`. -/
def isContinuation (b : UInt8) : Bool := 0x80 ≤ b && b < 0xC0

/-- Whether `b` may follow the start byte: some start bytes narrow the range, so that no character
has two forms, none is a surrogate and none is above the last code point. -/
def isSecond (start b : UInt8) : Bool :=
  isContinuation b &&
    (if start = 0xE0 then 0xA0 ≤ b
    else if start = 0xED then b < 0xA0
    else if start = 0xF0 then 0x90 ≤ b
    else if start = 0xF4 then b < 0x90
    else true)

/-- How many continuation bytes follow a start byte, and the bits it holds itself. -/
def startByte? (b : UInt8) : Option (Nat × Nat) :=
  let n := b.toNat
  if n < 0x80 then some (0, n)
  else if n < 0xC2 then none
  else if n < 0xE0 then some (1, n - 0xC0)
  else if n < 0xF0 then some (2, n - 0xE0)
  else if n < 0xF5 then some (3, n - 0xF0)
  else none

/-- Whether a byte may come behind those `seen` of its character. -/
def isNext (seen : Bytes) (b : UInt8) : Bool :=
  match seen with
  | [start] => isSecond start b
  | _ => isContinuation b

/-- Adds the bits of `k` continuation bytes to `acc`; `seen` are the bytes before them. -/
def continuations : Nat → Bytes → Nat → Bytes → Except (Bytes × DecodeCause) Nat
  | 0, _, acc, _ => .ok acc
  | _ + 1, seen, _, [] => .error (seen, .unexpectedEnd)
  | k + 1, seen, acc, b :: rest =>
    if isNext seen b then continuations k (seen ++ [b]) (acc * 64 + b.toNat % 64) rest
    else .error (seen, .invalidContinuation)

/-- The character at the front, and how many bytes it takes after the first. -/
def firstChar (b : UInt8) (rest : Bytes) : Except (Bytes × DecodeCause) (Char × Nat) :=
  match startByte? b with
  | none => .error ([b], .invalidStart)
  | some (k, acc) => (continuations k [b] acc rest).map fun code => (Char.ofNat code, k)

/-- A surrogate in the three-byte form, which some writers leave in their output. -/
def isSurrogateForm (b : UInt8) (rest : Bytes) : Bool :=
  match rest with
  | s :: t :: _ => b = 0xED && 0xA0 ≤ s && s < 0xC0 && isContinuation t
  | _ => false

/-- Reads text whose first byte stands at `position`. With `surrogates`, a surrogate in three bytes
is read as the replacement character, for strings hold scalar values only. -/
def decodeFrom (surrogates : Bool) (position : Nat) : Bytes → Except DecodeFault (List Char)
  | [] => .ok []
  | b :: rest =>
    if surrogates && isSurrogateForm b rest then
      (decodeFrom surrogates (position + 3) (rest.drop 2)).map (Char.ofNat 0xFFFD :: ·)
    else
      match firstChar b rest with
      | .error (bytes, cause) => .error ⟨"utf-8", position, bytes, cause⟩
      | .ok (c, k) => (decodeFrom surrogates (position + k + 1) (rest.drop k)).map (c :: ·)
termination_by bytes => bytes.length
decreasing_by all_goals simp only [List.length_drop, List.length_cons]; omega

def decode (bytes : Bytes) : Except DecodeFault (List Char) := decodeFrom false 0 bytes

/-- Whether the bytes from a start byte on are cut short by the end of the data. A two-byte
beginning of a surrogate counts as cut short as well. -/
def isPending (b : UInt8) (rest : Bytes) : Bool :=
  match firstChar b rest with
  | .error (_, .unexpectedEnd) => true
  | .error _ => b = 0xED && rest.length = 1 && isSurrogateForm b (rest ++ [0x80])
  | .ok _ => false

/-- The bytes of a text up to a character that the end of the data cuts short, and that rest; a
fault in front of it keeps all together. -/
def splitPending : Bytes → Bytes × Bytes
  | [] => ([], [])
  | b :: rest =>
    if isPending b rest then ([], b :: rest)
    else
      match firstChar b rest with
      | .error _ => (b :: rest, [])
      | .ok (_, k) =>
        let (text, tail) := splitPending (rest.drop k)
        (b :: rest.take k ++ text, tail)
termination_by bytes => bytes.length
decreasing_by simp only [List.length_drop, List.length_cons]; omega

/-! ## Files, which are read piece by piece -/

def pieceSize : Nat := 8192

/-- Bytes in pieces of one size, the last of them with what is left. The first argument bounds the
number of pieces. -/
def piecesWithin : Nat → Bytes → List Bytes
  | 0, _ => []
  | budget + 1, bytes =>
    if bytes.isEmpty then []
    else bytes.take pieceSize :: piecesWithin budget (bytes.drop pieceSize)

def pieces (bytes : Bytes) : List Bytes := piecesWithin bytes.length bytes

/-- The text of the pieces in front of the first fault, and that fault. A character that the end of
a piece cuts short waits for the next one; the places in a fault count from it on. -/
def decodePieces : Bytes → List Bytes → List Char × Option DecodeFault
  | pending, [] =>
    match decode pending with
    | .ok cs => (cs, none)
    | .error fault => ([], some fault)
  | pending, piece :: rest =>
    let (whole, pending) := splitPending (pending ++ piece)
    match decode whole with
    | .ok cs =>
      let (more, fault) := decodePieces pending rest
      (cs ++ more, fault)
    | .error fault => ([], some fault)

end Utf8

end ReplicaCensus
