import ReplicaCensus.File.Tree
import ReplicaCensus.Text.Utf8
/-!
# Key files -- one key a line, in hexadecimal digits

Blank lines are passed over, blanks around a key are dropped. The first line that is neither ends
the file: the keys before it count as read. The bytes are decoded piece by piece, so a fault of the
encoding is found when the lines that the pieces before it complete have been read.
-/

namespace ReplicaCensus

/-- Why a key file cannot be read to its end. -/
inductive KeyFileFault where
  | badKey (path : String) (line : Nat) (text : String)
  | notText (fault : DecodeFault)
  deriving DecidableEq, Repr

namespace KeyFileFault

def kind : KeyFileFault → String
  | badKey .. => "KeyDecodeError"
  | notText _ => "UnicodeDecodeError"

def message : KeyFileFault → String
  | badKey path line text =>
    path ++ ":" ++ toString line ++ ": cannot decode key " ++ Text.quoted text ++ " as hex"
  | notText fault => fault.message

def line? : KeyFileFault → Option Nat
  | badKey _ line _ => some line
  | notText _ => none

end KeyFileFault

/-- The keys of a file with their line numbers, and the fault that ended it. -/
structure KeyFile where
  keys : List (Nat × Bytes)
  fault : Option KeyFileFault
  deriving DecidableEq, Repr

namespace KeyFile

def cons (number : Nat) (key : Bytes) (file : KeyFile) : KeyFile :=
  ⟨(number, key) :: file.keys, file.fault⟩

/-- Reads lines, the first of them having the given number; `last` is the fault behind them. -/
def ofLines (path : String) (last : Option KeyFileFault) : Nat → List (List Char) → KeyFile
  | _, [] => ⟨[], last⟩
  | number, line :: rest =>
    match Text.trimBlanks line with
    -- a blank line has a number, too
    | [] => ofLines path last (number + 1) rest
    | text =>
      match Hex.decode? text with
      | some key => cons number key (ofLines path last (number + 1) rest)
      | none => ⟨[], some (.badKey path number (String.ofList text))⟩

/-- Takes a carriage return off the end: one more character could make a line end of it. -/
def dropLastReturn (cs : List Char) : List Char :=
  if cs.getLast? = some '\r' then cs.dropLast else cs

def read (path : String) (content : Bytes) : KeyFile :=
  match Utf8.decodePieces [] (Utf8.pieces content) with
  | (cs, none) => ofLines path none 1 (Text.linesOf (Text.foldNewlines cs))
  | (cs, some fault) =>
    -- the line that the fault cuts short is not read
    ofLines path (some (.notText fault)) 1
      (Text.splitLines (Text.foldNewlines (dropLastReturn cs))).1

end KeyFile

end ReplicaCensus
