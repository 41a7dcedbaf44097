import ReplicaCensus.Stamp.Clock
/-!
# Version stamps -- a clock and the time of the write

A stamp is a vector clock with the wall-clock time, in milliseconds, of the write that made it. Its
text lists the entries by node; two stamps are equal if clock entries and time are.
-/

namespace ReplicaCensus

/-- A vector clock with the time of the write. -/
structure Stamp where
  clock : Clock
  time : Int
  deriving DecidableEq

namespace Stamp

def increment (s : Stamp) (node now : Int) : Stamp := ⟨s.clock.increment node, now⟩

def same (a b : Stamp) : Bool := Clock.sameEntries a.clock b.clock && a.time = b.time

/-- What equal stamps share: the entries by node, and the time. -/
def fingerprint (s : Stamp) : List (Int × Int) × Int := (Clock.sorted s.clock, s.time)

instance : Hashable Stamp := ⟨fun s => hash s.fingerprint⟩

def entryText (e : Int × Int) : String := toString e.1 ++ ":" ++ toString e.2

def toText (s : Stamp) : String :=
  "version(" ++ String.intercalate ", " ((Clock.sorted s.clock).map entryText) ++ ") ts:" ++
    toString s.time

instance : ToString Stamp := ⟨toText⟩

def shown (s : Stamp) : String :=
  let entries := s.clock.entries.map fun e => toString e.1 ++ ": " ++ toString e.2
  "VC(\x7b" ++ String.intercalate ", " entries ++ "\x7d, ts=" ++ toString s.time ++ ")"

end Stamp

end ReplicaCensus
