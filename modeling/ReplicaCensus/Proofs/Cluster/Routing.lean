import Mathlib
import ReplicaCensus.Cluster.Routing
import ReplicaCensus.Proofs.Ring.Walk
/-!
# Stores that passed their check are routed

A resolver that checked some stores routes their keys as a fresh one does, to as many nodes of the
topology as the store asks for.
-/

namespace ReplicaCensus

namespace Topology

theorem nodeIds_perm (t : Topology) : t.nodeIds.Perm (t.members.map Member.id) :=
  List.mergeSort_perm _ _

theorem nodup_nodeIds (t : Topology) : t.nodeIds.Nodup := (nodeIds_perm t).nodup_iff.2 t.nodup

theorem length_nodeIds (t : Topology) : t.nodeIds.length = t.members.length := by
  rw [(nodeIds_perm t).length_eq, List.length_map]

theorem nodeIds_ascending (t : Topology) : t.nodeIds.Pairwise (· < ·) := by
  have hle : t.nodeIds.Pairwise (· ≤ ·) := List.pairwise_mergeSort' (· ≤ ·) _
  exact (hle.and t.nodup_nodeIds).imp fun hab => lt_of_le_of_ne hab.1 hab.2

/-- The order of the members does not show in their ids. -/
theorem nodeIds_congr {t t' : Topology} (h : t'.members.Perm t.members) :
    t'.nodeIds = t.nodeIds := by
  have hperm : t'.nodeIds.Perm t.nodeIds :=
    (nodeIds_perm t').trans ((h.map Member.id).trans (nodeIds_perm t).symm)
  apply hperm.eq_of_pairwise _ t'.nodeIds_ascending t.nodeIds_ascending
  intro a b _ _ hab hba
  omega

theorem mem_nodeIds {t : Topology} {id : Int} :
    id ∈ t.nodeIds ↔ ∃ m ∈ t.members, m.id = id := by
  rw [(nodeIds_perm t).mem_iff, List.mem_map]

theorem get_of_mem {t : Topology} {m : Member} (h : m ∈ t.members) : t.get m.id = .ok m := by
  have hnd := t.nodup
  unfold get
  generalize t.members = members at h hnd
  have hfind : members.find? (fun m' => m'.id = m.id) = some m := by
    induction members with
    | nil => exact absurd h List.not_mem_nil
    | cons m' rest ih =>
      rw [List.map_cons, List.nodup_cons] at hnd
      -- ids differ, so the first member with the id is the member itself
      rcases List.mem_cons.1 h with rfl | hrest
      · rw [List.find?_cons_of_pos (by simp)]
      · have hne : m'.id ≠ m.id := fun he => hnd.1 (he ▸ List.mem_map_of_mem hrest)
        rw [List.find?_cons_of_neg (by simpa using hne), ih hrest hnd.2]
  rw [hfind]

end Topology

theorem Schema.isKnownStrategy_iff {strategy : String} :
    Schema.isKnownStrategy strategy = true ↔
      strategy = Schema.consistentRouting ∨ strategy = Schema.allRouting := by
  simp [Schema.isKnownStrategy]

namespace Resolver

/-- A resolver of a topology: its ring has the topology's nodes. -/
structure Of (r : Resolver) (t : Topology) : Prop where
  topology : r.topology = t
  sound : r.ring.Sound
  nodes : r.ring.nodes = t.nodeIds
  vnodes : 0 < r.ring.vnodes

theorem make_eq_ok {hash : Bytes → Nat} {t : Topology} {r : Resolver} :
    make hash t = .ok r ↔
      ∃ ring, Ring.ofNodes hash t.vnodes t.nodeIds = .ok ring ∧ r = ⟨t, ring, []⟩ := by
  unfold make
  cases Ring.ofNodes hash t.vnodes t.nodeIds <;> simp [eq_comm]

theorem of_make {hash : Bytes → Nat} {t : Topology} {r : Resolver} (h : make hash t = .ok r) :
    r.Of t := by
  obtain ⟨ring, hring, rfl⟩ := make_eq_ok.1 h
  obtain ⟨hpos, hvnodes, -, hnodes⟩ := Ring.of_ofNodes hring
  -- no id of a topology comes twice
  have hdistinct : t.nodeIds.eraseDups = t.nodeIds := by
    rw [eraseDups_eq_distinctOn]
    exact distinctOn_eq_self id (by rw [List.map_id]; exact t.nodup_nodeIds)
  refine ⟨rfl, Ring.ofNodes_sound hring, hnodes.trans hdistinct, ?_⟩
  show 0 < ring.vnodes
  omega

theorem of_ofTopology {t : Topology} {r : Resolver} (h : ofTopology t = .ok r) : r.Of t := of_make h

/-- Two resolvers with one ring of one topology. -/
structure Alike (r r' : Resolver) : Prop where
  topology : r'.topology = r.topology
  ring : r'.ring = r.ring

theorem alike_check {r r' : Resolver} {schema : Schema} (h : r.check schema = .ok r') :
    Alike r r' := by
  unfold check at h
  split at h
  · cases h
    exact ⟨rfl, rfl⟩
  · split at h
    · cases h
    · cases h
      exact ⟨rfl, rfl⟩

/-- Every store that is remembered is routable. -/
def Honest (r : Resolver) : Prop := ∀ schema ∈ r.checked, routable r.topology schema = .ok ()

theorem check_eq {r : Resolver} (hr : r.Honest) (schema : Schema) :
    (∃ r', r.check schema = .ok r') ↔ routable r.topology schema = .ok () := by
  unfold check
  split
  · next hmem => exact ⟨fun _ => hr schema (by simpa using hmem), fun _ => ⟨r, rfl⟩⟩
  · cases routable r.topology schema with
    | error e =>
      constructor
      · rintro ⟨r', h⟩
        cases h
      · intro h
        cases h
    | ok u => exact ⟨fun _ => rfl, fun _ => ⟨_, rfl⟩⟩

theorem honest_check {r r' : Resolver} {schema : Schema} (hr : r.Honest)
    (h : r.check schema = .ok r') : r'.Honest := by
  have hroutable := (check_eq hr schema).1 ⟨r', h⟩
  unfold check at h
  split at h
  · cases h
    exact hr
  · rw [hroutable] at h
    cases h
    exact List.forall_mem_cons.2 ⟨hroutable, hr⟩

theorem checkAll_ok {schemas : List Schema} {r r' : Resolver} (hr : r.Honest)
    (h : checkAll schemas r = .ok r') :
    Alike r r' ∧ r'.Honest ∧ ∀ schema ∈ schemas, routable r.topology schema = .ok () := by
  induction schemas generalizing r with
  | nil =>
    cases h
    exact ⟨⟨rfl, rfl⟩, hr, fun _ hs => absurd hs List.not_mem_nil⟩
  | cons schema rest ih =>
    unfold checkAll at h
    split at h
    · cases h
    · next r'' hcheck =>
      -- checking a store notes it, and leaves the ring and the topology alone
      have halike := alike_check hcheck
      obtain ⟨halike', hhonest, hrest⟩ := ih (honest_check hr hcheck) h
      refine ⟨⟨halike'.topology.trans halike.topology, halike'.ring.trans halike.ring⟩, hhonest,
        List.forall_mem_cons.2 ⟨(check_eq hr schema).1 ⟨r'', hcheck⟩, fun s hs => ?_⟩⟩
      rw [← halike.topology]
      exact hrest s hs

theorem exists_checkAll {schemas : List Schema} {r : Resolver} (hr : r.Honest)
    (h : ∀ schema ∈ schemas, routable r.topology schema = .ok ()) :
    ∃ r', checkAll schemas r = .ok r' := by
  induction schemas generalizing r with
  | nil => exact ⟨r, rfl⟩
  | cons schema rest ih =>
    obtain ⟨hschema, hrest⟩ := List.forall_mem_cons.1 h
    obtain ⟨r', hcheck⟩ := (check_eq hr schema).2 hschema
    rw [← (alike_check hcheck).topology] at hrest
    obtain ⟨r'', hall⟩ := ih (honest_check hr hcheck) hrest
    rw [checkAll, hcheck]
    exact ⟨r'', hall⟩

theorem honest_of_make {hash : Bytes → Nat} {t : Topology} {r : Resolver}
    (h : make hash t = .ok r) : r.Honest := by
  obtain ⟨ring, -, rfl⟩ := make_eq_ok.1 h
  exact fun _ hs => absurd hs List.not_mem_nil

theorem honest_of_ofTopology {t : Topology} {r : Resolver} (h : ofTopology t = .ok r) :
    r.Honest := honest_of_make h

theorem walk_alike {r r' : Resolver} (h : Alike r r') (schema : Schema) (key : Bytes) :
    r'.walk schema key = r.walk schema key := by
  rw [walk, walk, h.topology, h.ring]

/-- Resolving a key of a routable store is the walk alone. -/
theorem replicas_eq_walk {r : Resolver} (hr : r.Honest) {schema : Schema}
    (h : routable r.topology schema = .ok ()) (key : Bytes) :
    r.replicas schema key = r.walk schema key := by
  obtain ⟨r', hcheck⟩ := (check_eq hr schema).2 h
  rw [replicas, resolve, hcheck]
  exact walk_alike (alike_check hcheck) schema key

/-- A store is routable if its strategy is known, there are nodes at all, and there are as many of
them as it asks for on the ring. -/
theorem routable_iff {t : Topology} {schema : Schema} :
    routable t schema = .ok () ↔
      (schema.strategy = Schema.consistentRouting ∨ schema.strategy = Schema.allRouting) ∧
      t.members ≠ [] ∧
      (schema.strategy = Schema.consistentRouting →
        schema.replicationFactor ≤ t.members.length) := by
  have hnone : t.members = [] ↔ t.nodeIds.length = 0 := by
    rw [t.length_nodeIds, List.length_eq_zero_iff]
  rw [← Schema.isKnownStrategy_iff, Ne, hnone, ← t.length_nodeIds]
  unfold routable
  dsimp only
  split
  · next hunknown => simp_all
  · next hknown =>
    split
    · next hempty => simp [hempty]
    · next hnodes =>
      split
      · next hwide => simp [hwide.1, hwide.2, hnodes]
      · next hfits => simp_all

/-- The ring of a topology gives a key as many nodes as are asked for, or all that there are. -/
theorem length_replicas {r : Resolver} {t : Topology} (hr : r.Of t) (key : Bytes) (n : Int) :
    (r.ring.replicas key n).length = min n.toNat t.members.length := by
  have hperm := Ring.preference_perm hr.sound hr.vnodes key
  rw [hr.nodes] at hperm
  rw [Ring.replicas_eq_take, List.length_take, hperm.length_eq, t.length_nodeIds]

/-- A store that the ring has nodes enough for gets them, unless it asks for a negative number. -/
theorem walk_eq {r : Resolver} {t : Topology} (hr : r.Of t) {schema : Schema}
    (hall : schema.strategy ≠ Schema.allRouting)
    (hwide : schema.replicationFactor ≤ t.members.length) (key : Bytes) :
    r.walk schema key =
      if 0 ≤ schema.replicationFactor then .ok (r.ring.replicas key schema.replicationFactor)
      else .error (.shortWalk schema.name 0 schema.replicationFactor) := by
  have hlength := length_replicas hr key schema.replicationFactor
  unfold walk
  rw [if_neg hall]
  dsimp only
  split
  · next heq => rw [if_pos (by omega)]
  · next hne =>
    have hzero : (r.ring.replicas key schema.replicationFactor).length = 0 := by omega
    rw [if_neg (by omega), hzero]

theorem mem_of_walk {r : Resolver} {t : Topology} (hr : r.Of t) {schema : Schema} {key : Bytes}
    {nodes : List Int} (h : r.walk schema key = .ok nodes) : ∀ node ∈ nodes, node ∈ t.nodeIds := by
  unfold walk at h
  dsimp only at h
  split at h
  · cases h
    rw [hr.topology]
    exact fun _ => id
  · split at h
    · cases h
      intro node hnode
      rw [Ring.replicas_eq_take] at hnode
      have hmem := (Ring.preference_perm hr.sound hr.vnodes key).subset (List.mem_of_mem_take hnode)
      rwa [hr.nodes] at hmem
    · cases h

/-- The replicas of a key differ. -/
theorem nodup_of_walk {r : Resolver} {schema : Schema} {key : Bytes} {nodes : List Int}
    (h : r.walk schema key = .ok nodes) : nodes.Nodup := by
  unfold walk at h
  split at h
  · cases h
    exact r.topology.nodup_nodeIds
  · dsimp only at h
    split at h
    · cases h
      rw [Ring.replicas_eq_take]
      exact (r.ring.nodup_preference key).sublist (List.take_sublist _ _)
    · cases h

/-- A store that is not on all nodes is on as many as it asks for. -/
theorem length_of_walk {r : Resolver} {schema : Schema} {key : Bytes}
    (hall : schema.strategy ≠ Schema.allRouting) {nodes : List Int}
    (h : r.walk schema key = .ok nodes) : (nodes.length : Int) = schema.replicationFactor := by
  unfold walk at h
  rw [if_neg hall] at h
  dsimp only at h
  split at h
  · next hlength =>
    cases h
    exact hlength
  · cases h

/-- A key of a routable store has replicas, and they are nodes of the topology. -/
theorem exists_walk {r : Resolver} {t : Topology} (hr : r.Of t) {schema : Schema}
    (hfactor : 1 ≤ schema.replicationFactor) (h : routable t schema = .ok ()) (key : Bytes) :
    ∃ nodes, r.walk schema key = .ok nodes ∧ ∀ node ∈ nodes, node ∈ t.nodeIds := by
  obtain ⟨hknown, -, hwide⟩ := routable_iff.1 h
  have hwalk : ∃ nodes, r.walk schema key = .ok nodes := by
    by_cases hall : schema.strategy = Schema.allRouting
    · exact ⟨_, if_pos hall⟩
    · rw [walk_eq hr hall (hwide (hknown.resolve_right hall)), if_pos (by omega)]
      exact ⟨_, rfl⟩
  obtain ⟨nodes, hnodes⟩ := hwalk
  exact ⟨nodes, hnodes, mem_of_walk hr hnodes⟩

end Resolver

end ReplicaCensus
