import ReplicaCensus.Text.Hex
/-!
# Wide texts -- strings in which halves of surrogate pairs may stand alone

A string of the interpreter is a row of code points, and some of them are no characters: those from
`D800` to `DFFF`, of which only two together stand for a character. Such a string has no UTF-8 form.
-/

namespace ReplicaCensus

/-- A code point: a character, or the half of a pair with a number behind `D800`. -/
inductive WideChar where
  | char (c : Char)
  | half (number : Fin 0x800)
  deriving DecidableEq, Repr

abbrev WideText := List WideChar

/-- The halves that a text cannot be encoded for, and where they start. -/
structure EncodeFault where
  position : Nat
  halves : List (Fin 0x800)
  deriving DecidableEq, Repr

namespace EncodeFault

def kind : String := "UnicodeEncodeError"

def message (f : EncodeFault) : String :=
  let place :=
    match f.halves with
    | [half] => "character '\\u" ++ String.ofList (Hex.padded 4 (0xD800 + half.val)) ++
        "' in position " ++ toString f.position
    | halves => "characters in position " ++ toString f.position ++ "-" ++
        toString (f.position + halves.length - 1)
  "'utf-8' codec can't encode " ++ place ++ ": surrogates not allowed"

end EncodeFault

namespace WideText

def ofString (s : String) : WideText := s.toList.map .char

def leadingHalves : WideText → List (Fin 0x800)
  | .half n :: rest => n :: leadingHalves rest
  | _ => []

/-- The characters of a text whose first element stands at `position`. -/
def narrowFrom (position : Nat) : WideText → Except EncodeFault (List Char)
  | [] => .ok []
  | .char c :: rest => (narrowFrom (position + 1) rest).map (c :: ·)
  | .half n :: rest => .error ⟨position, n :: leadingHalves rest⟩

/-- The text as one that can be encoded. -/
def narrow (t : WideText) : Except EncodeFault String := (narrowFrom 0 t).map String.ofList

end WideText

end ReplicaCensus
