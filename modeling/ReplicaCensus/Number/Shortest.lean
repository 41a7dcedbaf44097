import ReplicaCensus.Number.Double
/-!
# Shortest decimal text of a double

A double is written with the fewest significant digits that read back as the same double, and of
those the nearest to it. Exponents from -5 downwards and from 16 upwards are written with `e`.
-/

namespace ReplicaCensus

/-- `digits * 10 ^ exponent`. -/
structure Decimal where
  digits : Nat
  exponent : Int
  deriving DecidableEq, Repr

namespace Decimal

def toRat (d : Decimal) : Rat :=
  if 0 ≤ d.exponent then mkRat (d.digits * Nat.pow 10 d.exponent.toNat) 1
  else mkRat d.digits (Nat.pow 10 (-d.exponent).toNat)

def below (x : Rat) (exponent : Int) : Decimal :=
  let step := Decimal.toRat ⟨1, exponent⟩
  ⟨(x / step).floor.toNat, exponent⟩

def next (d : Decimal) : Decimal := ⟨d.digits + 1, d.exponent⟩

def distance (x : Rat) (d : Decimal) : Rat := let y := d.toRat; if x < y then y - x else x - y

/-- Of two decimals that qualify the nearer to `x`, a tie going to even digits. -/
def nearest (x : Rat) (qualifies : Decimal → Bool) (a b : Decimal) : Option Decimal :=
  match qualifies a, qualifies b with
  | false, false => none
  | true, false => some a
  | false, true => some b
  | true, true =>
    let da := distance x a
    let db := distance x b
    some (if da < db then a else if db < da then b else if a.digits % 2 = 0 then a else b)

/-- Goes through grids of finer and finer step until a neighbour of `x` qualifies. -/
def firstHit (x : Rat) (qualifies : Decimal → Bool) : Nat → Int → Option Decimal
  | 0, _ => none
  | tries + 1, exponent =>
    let a := below x exponent
    (nearest x qualifies a a.next).orElse fun _ => firstHit x qualifies tries (exponent - 1)

def trimZeros : Nat → Decimal → Decimal
  | 0, d => d
  | fuel + 1, d =>
    if d.digits ≠ 0 ∧ d.digits % 10 = 0 then trimZeros fuel ⟨d.digits / 10, d.exponent + 1⟩ else d

end Decimal

namespace Double

/-- The shortest decimal that reads back as the double of magnitude `m * 2 ^ e`, for `m ≠ 0`. -/
def shortest (m : Nat) (e : Int) : Decimal :=
  let self := finite false m e
  let x := (self.toRat?).getD 0
  let reads (d : Decimal) : Bool := ofDecimal false d.digits d.exponent = self
  -- the decimal exponent of the leading digit, at most one too large
  let top : Int := (floorLog2 (scaled m 1 e).1 (scaled m 1 e).2 + 1) * 30103 / 100000 + 1
  match Decimal.firstHit x reads 20 top with
  | some d => Decimal.trimZeros 20 d
  | none => ⟨truncated m e, 0⟩

def zeros (n : Nat) : List Char := List.replicate n '0'

/-- Writes `0.d₁d₂… * 10 ^ point`: with `e` when the leading digit's exponent is below -4 or above
15, else positionally, with at least one digit after the point. -/
def layout (digits : List Char) (point : Int) : List Char :=
  if point ≤ -4 || 16 < point then
    let exponent := point - 1
    let size := (toString exponent.natAbs).toList
    let tail := if size.length < 2 then '0' :: size else size
    let mantissa :=
      match digits with
      | [] => []
      | [d] => [d]
      | d :: rest => d :: '.' :: rest
    mantissa ++ 'e' :: (if exponent < 0 then '-' else '+') :: tail
  else if point ≤ 0 then '0' :: '.' :: zeros (-point).toNat ++ digits
  else
    -- a whole number gets a point and a zero
    let n := point.toNat
    if digits.length ≤ n then digits ++ zeros (n - digits.length) ++ ['.', '0']
    else digits.take n ++ '.' :: digits.drop n

def toText : Double → String
  | nan => "nan"
  | infinite negative => if negative then "-inf" else "inf"
  | finite negative m e =>
    let sign := if negative then "-" else ""
    if m = 0 then sign ++ "0.0"
    else
      let d := shortest m e
      let digits := (toString d.digits).toList
      sign ++ String.ofList (layout digits (digits.length + d.exponent))

end Double

end ReplicaCensus
