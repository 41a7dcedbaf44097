import ReplicaCensus.Text.Quoted
import ReplicaCensus.Stamp.Basic
/-!
# Versioned storage -- the versions of each key that no other write dominates

A store holds for each key the versions written to it that are not strictly before another one, in
the order of their writes, versions with the same value and the same clock entries once.
-/

namespace ReplicaCensus

/-- A value with the stamp of the write that produced it. -/
structure Version where
  value : String
  stamp : Stamp
  deriving DecidableEq

namespace Version

/-- What versions that count as identical share; the time is left out. -/
def signature (v : Version) : String × List (Int × Int) := (v.value, Clock.sorted v.stamp.clock)

def isBefore (v w : Version) : Bool := Clock.compare v.stamp.clock w.stamp.clock = .before

def shown (v : Version) : String :=
  "Versioned(" ++ Text.quoted v.value ++ ", " ++ v.stamp.shown ++ ")"

def undominated (versions : List Version) : List Version :=
  versions.filter fun v => !versions.any fun w => v.isBefore w

/-- Drops every version whose signature an earlier one has; `seen` are the signatures so far. -/
def dedupFrom (seen : List (String × List (Int × Int))) : List Version → List Version
  | [] => []
  | v :: rest =>
    if seen.contains v.signature then dedupFrom seen rest
    else v :: dedupFrom (seen ++ [v.signature]) rest

def dedup (versions : List Version) : List Version := dedupFrom [] versions

end Version

/-- The versions of each key of each store. -/
structure Storage where
  stores : OrderedMap String (OrderedMap Bytes (List Version))

/-- A store name that a storage does not know. -/
structure UnknownStore where
  name : String
  deriving DecidableEq, Repr

namespace UnknownStore

def message (e : UnknownStore) : String := Text.quoted e.name

end UnknownStore

namespace Storage

def ofNames (names : List String) : Storage :=
  ⟨OrderedMap.ofList (names.map fun name => (name, OrderedMap.empty))⟩

def hasStore (s : Storage) (store : String) : Bool := s.stores.contains store

/-- The versions stored for a key; a key never written has none. -/
def versions (s : Storage) (store : String) (key : Bytes) : Except UnknownStore (List Version) :=
  match s.stores.get? store with
  | none => .error ⟨store⟩
  | some keys => .ok ((keys.get? key).getD [])

def stamps (s : Storage) (store : String) (key : Bytes) : Except UnknownStore (List Stamp) :=
  (s.versions store key).map fun versions => versions.map Version.stamp

def merge (old : List Version) (candidate : Version) : List Version :=
  -- the candidate comes last, so of versions with its signature an earlier one stays
  Version.dedup (Version.undominated (old ++ [candidate]))

/-- The version that accounts for a write among those kept: one with its signature, or else the
last. -/
def accounting (kept : List Version) (candidate : Version) : Version :=
  match kept.find? fun v => v.signature = candidate.signature with
  | some v => v
  | none => kept.getLastD candidate

/-- Writes a version; the answer is the version that accounts for the write. -/
def put (s : Storage) (store : String) (key : Bytes) (candidate : Version) :
    Except UnknownStore (Version × Storage) :=
  match s.stores.get? store with
  | none => .error ⟨store⟩
  | some keys =>
    let kept := merge ((keys.get? key).getD []) candidate
    .ok (accounting kept candidate, ⟨s.stores.insert store (keys.insert key kept)⟩)

end Storage

end ReplicaCensus
