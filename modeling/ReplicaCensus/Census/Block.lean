import ReplicaCensus.Text.Hex
/-!
# Sample blocks -- what is written for one key

One line per replica, in replica order: the number of the replica, the key and the versions the
replica holds, each followed by a tab.
-/

namespace ReplicaCensus.Block

def line (offset : Nat) (key : Bytes) (versions : List String) : String :=
  toString offset ++ " : " ++ Hex.encode key ++ "\t" ++
    String.join (versions.map fun v => v ++ "\t") ++ "\n"

def linesFrom (key : Bytes) : Nat → List (List String) → String
  | _, [] => ""
  | offset, versions :: rest => line offset key versions ++ linesFrom key (offset + 1) rest

def ofAnswers (key : Bytes) (answers : List (List String)) : String := linesFrom key 0 answers

end ReplicaCensus.Block
