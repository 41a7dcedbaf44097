import ReplicaCensus.Text.Utf8
/-!
# Percent quoting -- text inside one segment of a URL path

Letters, digits and `_.-~` stand for themselves; every other character is written as its UTF-8
bytes, each a percent sign and two upper-case hexadecimal digits.
-/

namespace ReplicaCensus.Percent

def isUnreserved (c : Char) : Bool :=
  let n := c.toNat
  (48 ≤ n && n ≤ 57) || (65 ≤ n && n ≤ 90) || (97 ≤ n && n ≤ 122) ||
    c = '_' || c = '.' || c = '-' || c = '~'

def upperDigit (n : Nat) : Char := if n < 10 then Char.ofNat (48 + n) else Char.ofNat (55 + n)

def quoteByte (b : UInt8) : List Char := ['%', upperDigit (b.toNat / 16), upperDigit (b.toNat % 16)]

def quoteChars (cs : List Char) : List Char :=
  cs.flatMap fun c =>
    if isUnreserved c then [c] else (String.utf8EncodeChar c).flatMap quoteByte

def quote (s : String) : String := String.ofList (quoteChars s.toList)

/-- The bytes a quoted text stands for; a percent sign without two digits stands for itself. -/
def unquoteBytes : List Char → Bytes
  | [] => []
  | '%' :: a :: b :: rest =>
    match Hex.digitValue? a, Hex.digitValue? b with
    | some x, some y => UInt8.ofNat (16 * x + y) :: unquoteBytes rest
    | _, _ => 0x25 :: unquoteBytes (a :: b :: rest)
  | c :: rest => String.utf8EncodeChar c ++ unquoteBytes rest

def unquote? (s : String) : Option String :=
  match Utf8.decode (unquoteBytes s.toList) with
  | .ok cs => some (String.ofList cs)
  | .error _ => none

example : quote "a b/é~" = "a%20b%2F%C3%A9~" := by decide +kernel

end ReplicaCensus.Percent
