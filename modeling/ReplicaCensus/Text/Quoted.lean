import ReplicaCensus.Text.Hex
import ReplicaCensus.Text.Printable
/-!
# Quoted text -- how a string is shown inside a message

A string stands between single quotes, or between double quotes if it holds a single quote and no
double one. The quote in use, the backslash and the unprintable characters are escaped.
-/

namespace ReplicaCensus.Text

def quoteFor (cs : List Char) : Char :=
  if cs.contains '\'' && !cs.contains '"' then '"' else '\''

/-- One character between quotes: a short escape, the character itself, or its code point in two,
four or eight hexadecimal digits. -/
def escapeChar (quote c : Char) : List Char :=
  if c = quote || c = '\\' then ['\\', c]
  else if c = '\t' then ['\\', 't']
  else if c = '\n' then ['\\', 'n']
  else if c = '\r' then ['\\', 'r']
  else if isPrintable c then [c]
  else if c.toNat < 256 then '\\' :: 'x' :: Hex.padded 2 c.toNat
  else if c.toNat < 65536 then '\\' :: 'u' :: Hex.padded 4 c.toNat
  else '\\' :: 'U' :: Hex.padded 8 c.toNat

def quotedChars (cs : List Char) : List Char :=
  let quote := quoteFor cs
  quote :: cs.flatMap (escapeChar quote) ++ [quote]

def quoted (s : String) : String := String.ofList (quotedChars s.toList)

example : quoted "a b" = "'a b'" := by decide +kernel
example : quoted "it's" = "\"it's\"" := by decide +kernel
example : quoted "a\"'\n" = "'a\"\\'\\n'" := by decide +kernel

/-- A list as it stands in a message: shown elements between brackets. -/
def bracketed (shown : List String) : String := "[" ++ String.intercalate ", " shown ++ "]"

end ReplicaCensus.Text
