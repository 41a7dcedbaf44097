/-!
# Double-precision numbers -- exact values, rounding, truncation

A finite double is `± mantissa * 2 ^ exponent` with a mantissa below `2 ^ 53` and an exponent of at
least `-1074`; one that is not subnormal has a mantissa of at least `2 ^ 52`. Reading rounds a
decimal fraction to the nearest double, halves to the even one; all else here is exact.
-/

namespace ReplicaCensus

/-- A double-precision number. -/
inductive Double where
  | nan
  | infinite (negative : Bool)
  | finite (negative : Bool) (mantissa : Nat) (exponent : Int)
  deriving DecidableEq, Repr, Inhabited

namespace Double

def divEven (n d : Nat) : Nat :=
  let q := n / d
  let r := n % d
  if 2 * r < d then q else if d < 2 * r then q + 1 else q + q % 2

def scaled (num den : Nat) (e : Int) : Nat × Nat :=
  if 0 ≤ e then (num * Nat.pow 2 e.toNat, den) else (num, den * Nat.pow 2 (-e).toNat)

def mantissaBound : Nat := 0x20000000000000

/-- The largest `e` with `2 ^ e ≤ num / den`, for a positive fraction. -/
def floorLog2 (num den : Nat) : Int :=
  let guess := (Nat.log2 num : Int) - Nat.log2 den
  let (n, d) := scaled num den (-guess)
  if n < d then guess - 1 else guess

/-- The double nearest to `num / den`, halves to even; above the largest one an infinity. -/
def ofFraction (negative : Bool) (num den : Nat) : Double :=
  if num = 0 then .finite negative 0 (-1074)
  else
    let e := max (floorLog2 num den - 52) (-1074)
    let (n, d) := scaled num den (-e)
    let m := divEven n d
    -- rounding up may have carried into a digit more
    let (m, e) := if m = mantissaBound then (m / 2, e + 1) else (m, e)
    -- the largest double is `(2 ^ 53 - 1) * 2 ^ 971`
    if 971 < e then .infinite negative else .finite negative m e

/-- The double nearest to `digits * 10 ^ exponent`. Magnitudes far outside the range are settled
by their length, so that no huge power is formed. -/
def ofDecimal (negative : Bool) (digits : Nat) (exponent : Int) : Double :=
  let length : Int := (Nat.toDigits 10 digits).length
  if digits = 0 then .finite negative 0 (-1074)
  else if 400 < length + exponent then .infinite negative
  else if length + exponent < -400 then .finite negative 0 (-1074)
  else if 0 ≤ exponent then ofFraction negative (digits * Nat.pow 10 exponent.toNat) 1
  else ofFraction negative digits (Nat.pow 10 (-exponent).toNat)

def ofInt (n : Int) : Double := ofFraction (n < 0) n.natAbs 1

def toRat? : Double → Option Rat
  | finite negative m e =>
    let (n, d) := scaled m 1 e
    some (if negative then mkRat (-n) d else mkRat n d)
  | _ => none

def truncated (m : Nat) (e : Int) : Nat :=
  let (n, d) := scaled m 1 e
  n / d

def isWhole : Double → Bool
  | finite _ m e =>
    let (n, d) := scaled m 1 e
    n % d = 0
  | _ => false

def truncate? : Double → Option Int
  | finite negative m e =>
    let n : Int := truncated m e
    some (if negative then -n else n)
  | _ => none

/-- Whether a number is at most zero; no comparison holds of a NaN. -/
def isNonPositive : Double → Bool
  | nan => false
  | infinite negative => negative
  | finite negative m _ => negative || m = 0

def isZero : Double → Bool
  | finite _ m _ => m = 0
  | _ => false

/-- Strictly less; a NaN is neither less nor greater. -/
def lt : Double → Double → Bool
  | nan, _ => false
  | _, nan => false
  | infinite s, infinite t => s && !t
  | infinite s, finite .. => s
  | finite .., infinite t => !t
  | a@(finite ..), b@(finite ..) =>
    match a.toRat?, b.toRat? with
    | some x, some y => x < y
    | _, _ => false

/-- Half of a number, rounded where halving leaves the normal range. -/
def half : Double → Double
  | finite negative m e =>
    if m = 0 then finite negative m e
    else
      let (n, d) := scaled m 1 e
      ofFraction negative n (2 * d)
  | x => x

end Double

end ReplicaCensus
