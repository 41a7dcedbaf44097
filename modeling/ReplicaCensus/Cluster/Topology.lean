import ReplicaCensus.Cluster.Entry
/-!
# Cluster topology -- the members with their positions per node

The ids of the members differ and every node has at least one position on the ring.
-/

namespace ReplicaCensus

/-- The members of a cluster. -/
structure Topology where
  members : List Member
  vnodes : Int
  nodup : (members.map Member.id).Nodup
  vnodes_pos : 1 ≤ vnodes
  deriving DecidableEq

namespace Topology

def defaultVnodes : Int := 20

def firstDuplicate : List Int → List Member → Option Int
  | _, [] => none
  | seen, m :: rest => if m.id ∈ seen then some m.id else firstDuplicate (m.id :: seen) rest

theorem nodup_of_firstDuplicate {seen : List Int} {members : List Member}
    (h : firstDuplicate seen members = none) :
    (members.map Member.id).Nodup ∧ ∀ m ∈ members, m.id ∉ seen := by
  induction members generalizing seen with
  | nil => simp
  | cons m rest ih =>
    unfold firstDuplicate at h
    split at h
    · cases h
    · next hm =>
      obtain ⟨hnd, hseen⟩ := ih h
      constructor
      · rw [List.map_cons, List.nodup_cons]
        refine ⟨?_, hnd⟩
        intro hmem
        obtain ⟨m', hm', e⟩ := List.mem_map.1 hmem
        exact hseen m' hm' (e ▸ List.mem_cons_self)
      · intro m' hm'
        rcases List.mem_cons.1 hm' with rfl | hm'
        · exact hm
        · exact fun h' => hseen m' hm' (List.mem_cons_of_mem _ h')

/-- Makes a topology; a repeated id is looked for before the number of positions. -/
def make (members : List Member) (vnodes : Int) : Except MetadataError Topology :=
  match h : firstDuplicate [] members with
  | some id => .error (.duplicateId id)
  | none =>
    if hv : 1 ≤ vnodes then .ok ⟨members, vnodes, (nodup_of_firstDuplicate h).1, hv⟩
    else .error (.badVnodes vnodes)

def nodeIds (t : Topology) : List Int := (t.members.map Member.id).mergeSort fun a b => a ≤ b

def get (t : Topology) (id : Int) : Except MetadataError Member :=
  match t.members.find? fun m => m.id = id with
  | some m => .ok m
  | none => .error (.unknownId id)

def toMembers (t : Topology) : List (String × Json) :=
  [("vnodes_per_node", .int t.vnodes), ("nodes", .arr (t.members.map Member.toJson))]

def toJson (t : Topology) : Json := .obj t.toMembers

def readMembers : List Json → Except DescriptionFault (List Member)
  | [] => .ok []
  | entry :: rest =>
    match Member.ofJson entry with
    | .error fault => .error fault
    | .ok m => (readMembers rest).map (m :: ·)

def readVnodes (value : Json) : Except DescriptionFault Int :=
  match ((value.member? "vnodes_per_node").getD (.int defaultVnodes)).toInteger with
  | .ok n => .ok n
  | .error .fromInfinity => .error .infinite
  | .error fault => .error (.ofError (.badVnodesValue fault))

/-- Reads a topology: the number of positions, then the members, then the checks on the whole. -/
def ofJson (value : Json) : Except DescriptionFault Topology :=
  match value.member? "nodes" with
  | some (.arr entries) =>
    match readVnodes value with
    | .error fault => .error fault
    | .ok vnodes =>
      match readMembers entries with
      | .error fault => .error fault
      | .ok members =>
        match make members vnodes with
        | .ok t => .ok t
        | .error error => .error (.ofError error)
  | _ => .error (.ofError .noMemberList)

end Topology

end ReplicaCensus
