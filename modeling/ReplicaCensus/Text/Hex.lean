import ReplicaCensus.Text.Blank
/-!
# Hexadecimal text of bytes

Bytes are written as two lower-case digits each. Reading takes digits of either case; the spaced
form also lets ASCII blanks stand before, between and after the pairs.
-/

namespace ReplicaCensus

abbrev Bytes := List UInt8

namespace Hex

def digit (n : Nat) : Char := if n < 10 then Char.ofNat (48 + n) else Char.ofNat (87 + n)

def digitValue? (c : Char) : Option Nat :=
  let n := c.toNat
  if 48 ≤ n ∧ n ≤ 57 then some (n - 48)
  else if 97 ≤ n ∧ n ≤ 102 then some (n - 87)
  else if 65 ≤ n ∧ n ≤ 70 then some (n - 55)
  else none

def isDigit (c : Char) : Bool := (digitValue? c).isSome

def padded : Nat → Nat → List Char
  | 0, _ => []
  | width + 1, n => padded width (n / 16) ++ [digit (n % 16)]

def encodeChars (bytes : Bytes) : List Char :=
  bytes.flatMap fun b => [digit (b.toNat / 16), digit (b.toNat % 16)]

def encode (bytes : Bytes) : String := String.ofList (encodeChars bytes)

def decode? : List Char → Option Bytes
  | [] => some []
  | [_] => none
  | a :: b :: rest =>
    match digitValue? a, digitValue? b, decode? rest with
    | some x, some y, some bytes => some (UInt8.ofNat (16 * x + y) :: bytes)
    | _, _, _ => none

def decodeSpaced? : List Char → Option Bytes
  | [] => some []
  | a :: rest =>
    if Text.isAsciiBlank a then decodeSpaced? rest
    else
      match rest with
      | [] => none
      | b :: rest =>
        match digitValue? a, digitValue? b, decodeSpaced? rest with
        | some x, some y, some bytes => some (UInt8.ofNat (16 * x + y) :: bytes)
        | _, _, _ => none

theorem digitValue?_digit {n : Nat} (h : n < 16) : digitValue? (digit n) = some n := by
  have : ∀ m : Fin 16, digitValue? (digit m.val) = some m.val := by decide
  exact this ⟨n, h⟩

theorem decode?_encodeChars (bytes : Bytes) : decode? (encodeChars bytes) = some bytes := by
  induction bytes with
  | nil => rfl
  | cons b rest ih =>
    have hb : b.toNat < 256 := b.toNat_lt
    have hx : digitValue? (digit (b.toNat / 16)) = some (b.toNat / 16) :=
      digitValue?_digit (by omega)
    have hy : digitValue? (digit (b.toNat % 16)) = some (b.toNat % 16) :=
      digitValue?_digit (by omega)
    have hsum : 16 * (b.toNat / 16) + b.toNat % 16 = b.toNat := Nat.div_add_mod _ _
    show decode? (digit (b.toNat / 16) :: digit (b.toNat % 16) :: encodeChars rest) = _
    simp [decode?, hx, hy, ih, hsum]

end Hex

end ReplicaCensus
