import Mathlib
import ReplicaCensus.Node.Cluster
import ReplicaCensus.Proofs.Cluster.Routing
import ReplicaCensus.Proofs.Stamp.Json
import ReplicaCensus.Proofs.Storage.History
/-!
# What the nodes of a cluster hold

The nodes start with empty stores, and then each takes the writes that are addressed to it. The
members, the topology and the stores of the nodes stay what they were at the start.
-/

namespace ReplicaCensus

/-- A write and the node it goes to. -/
structure Put where
  node : Int
  write : Write

namespace RunningCluster

/-! ## 1. Writes to the nodes -/

/-- The cluster after writes to its nodes, one after the other. -/
def seedAll (c : RunningCluster) (puts : List Put) : RunningCluster :=
  puts.foldl (fun c p => c.seed p.node p.write.store p.write.key p.write.version) c

/-- The writes to one node. -/
def writesTo (node : Int) (puts : List Put) : List Write :=
  (puts.filter fun p => p.node = node).map Put.write

/-- A node after some writes to its storage. -/
def afterWrites (writes : List Write) (e : Member × Service) : Member × Service :=
  (e.1, { e.2 with storage := e.2.storage.applyAll writes })

theorem nodes_seed (c : RunningCluster) (p : Put) :
    (c.seed p.node p.write.store p.write.key p.write.version).nodes =
      c.nodes.map fun e => afterWrites (writesTo e.1.id [p]) e := by
  apply List.map_congr_left
  rintro ⟨m, service⟩ -
  dsimp only
  -- the write goes to the one node with its id, and is refused there if the store is not known
  by_cases hid : m.id = p.node
  · have hone : writesTo m.id [p] = [p.write] := by
      rw [writesTo, List.filter_singleton, hid, decide_eq_true rfl]
      rfl
    rw [if_pos hid, hone, afterWrites, Storage.applyAll, List.foldl_cons, List.foldl_nil,
      Storage.apply]
    cases service.storage.put p.write.store p.write.key p.write.version <;> rfl
  · have hnone : writesTo m.id [p] = [] := by
      rw [writesTo, List.filter_singleton, decide_eq_false (Ne.symm hid)]
      rfl
    rw [if_neg hid, hnone]
    rfl

theorem afterWrites_append (writes more : List Write) (e : Member × Service) :
    afterWrites more (afterWrites writes e) = afterWrites (writes ++ more) e := by
  simp only [afterWrites, Storage.applyAll, List.foldl_append]

/-- Every node has taken the writes to itself, in their order. -/
theorem nodes_seedAll (c : RunningCluster) (puts : List Put) :
    (c.seedAll puts).nodes = c.nodes.map fun e => afterWrites (writesTo e.1.id puts) e := by
  -- by induction on the writes, taking the last one off
  induction puts using List.reverseRecOn with
  | nil => exact (List.map_id _).symm
  | append_singleton puts p ih =>
    have hstep : c.seedAll (puts ++ [p]) =
        (c.seedAll puts).seed p.node p.write.store p.write.key p.write.version := by
      simp only [seedAll, List.foldl_append, List.foldl_cons, List.foldl_nil]
    rw [hstep, nodes_seed, ih, List.map_map]
    apply List.map_congr_left
    intro e _
    have hwrites : writesTo e.1.id (puts ++ [p]) = writesTo e.1.id puts ++ writesTo e.1.id [p] := by
      simp only [writesTo, List.filter_append, List.map_append]
    rw [hwrites]
    exact afterWrites_append _ _ e

/-! ## 2. From the start on -/

/-- A node of a cluster: it knows the topology and the stores, and holds stamps that can be read. -/
structure Serves (cluster : ClusterDescription) (service : Service) : Prop where
  topology : service.resolver.topology = cluster.topology
  schemas : service.schemas = cluster.schemas
  stamps : ∀ schema ∈ cluster.schemas, ∀ key, ∃ stamps,
    service.storage.stamps schema.name key = .ok stamps ∧ ∀ s ∈ stamps, s.IsSound

/-- A node that has just started, and its resolver. -/
structure Started (cluster : ClusterDescription) (service : Service) : Prop where
  resolver : ∃ r, Resolver.ofTopology cluster.topology = .ok r ∧
    Resolver.checkAll cluster.schemas r = .ok service.resolver
  schemas : service.schemas = cluster.schemas
  storage : service.storage = Storage.ofNames (cluster.schemas.map Schema.name)

theorem started_of_start {node : Int} {cluster : ClusterDescription} {service : Service}
    (h : Service.start node cluster none = .ok service) : Started cluster service := by
  unfold Service.start at h
  split at h
  · cases h
  split at h
  · cases h
  next r hr =>
  split at h
  · cases h
  next r' hr' =>
  cases h
  exact ⟨⟨r, hr, hr'⟩, rfl, rfl⟩

theorem started_of_startAll {cluster : ClusterDescription} {members : List Member}
    {nodes : List (Member × Service)} (h : startAll cluster members = .ok nodes) :
    nodes.map Prod.fst = members ∧ ∀ e ∈ nodes, Started cluster e.2 := by
  induction members generalizing nodes with
  | nil =>
    cases h
    exact ⟨rfl, fun _ he => absurd he List.not_mem_nil⟩
  | cons m rest ih =>
    unfold startAll at h
    split at h
    · cases h
    next service hservice =>
    cases hrest : startAll cluster rest with
    | error e => rw [hrest] at h; cases h
    | ok more =>
      rw [hrest] at h
      cases h
      obtain ⟨hmembers, hstarted⟩ := ih hrest
      exact ⟨congrArg (m :: ·) hmembers,
        List.forall_mem_cons.2 ⟨started_of_start hservice, hstarted⟩⟩

theorem started_of_startCluster {cluster : ClusterDescription} {fresh : RunningCluster}
    (h : RunningCluster.start cluster [] = .ok fresh) :
    fresh.nodes.map Prod.fst = cluster.topology.members ∧
      ∀ e ∈ fresh.nodes, Started cluster e.2 := by
  have hall : (cluster.topology.members.filter fun m => !([] : List Int).contains m.id) =
      cluster.topology.members := List.filter_eq_self.2 fun m _ => rfl
  rw [RunningCluster.start, hall] at h
  cases hnodes : startAll cluster cluster.topology.members with
  | error e => rw [hnodes] at h; cases h
  | ok nodes =>
    rw [hnodes] at h
    cases h
    exact started_of_startAll hnodes

/-- A node holds the stamps of the maximal ones of the writes to it. -/
def heldStamps (writes : List Write) (store : String) (key : Bytes) : List Stamp :=
  (Version.maximal (Storage.history writes store key)).map Version.stamp

theorem stamps_applyAll {names : List String} {store : String} (h : store ∈ names) (key : Bytes)
    (writes : List Write) :
    ((Storage.ofNames names).applyAll writes).stamps store key =
      .ok (heldStamps writes store key) := by
  rw [Storage.stamps, Storage.versions_applyAll h]
  rfl

theorem exists_of_mem_heldStamps {writes : List Write} {store : String} {key : Bytes} {s : Stamp}
    (h : s ∈ heldStamps writes store key) : ∃ w ∈ writes, w.version.stamp = s := by
  obtain ⟨v, hv, rfl⟩ := List.mem_map.1 h
  have hhistory := (Version.mem_of_mem_maximal hv).1
  rw [Storage.history] at hhistory
  obtain ⟨w, hw, rfl⟩ := List.mem_map.1 hhistory
  exact ⟨w, (List.mem_filter.1 hw).1, rfl⟩

theorem serves_of_started {cluster : ClusterDescription} {service : Service}
    (h : Started cluster service) {writes : List Write}
    (hwrites : ∀ w ∈ writes, w.version.stamp.IsSound) :
    Serves cluster { service with storage := service.storage.applyAll writes } := by
  obtain ⟨r, hr, hcheck⟩ := h.resolver
  have halike := (Resolver.checkAll_ok (Resolver.honest_of_ofTopology hr) hcheck).1
  refine ⟨halike.topology.trans (Resolver.of_ofTopology hr).topology, h.schemas, ?_⟩
  intro schema hschema key
  have hname : schema.name ∈ cluster.schemas.map Schema.name := List.mem_map_of_mem hschema
  refine ⟨heldStamps writes schema.name key, ?_, fun s hs => ?_⟩
  · rw [h.storage]
    exact stamps_applyAll hname key writes
  -- what a node holds was written to it
  · obtain ⟨w, hw, rfl⟩ := exists_of_mem_heldStamps hs
    exact hwrites w hw

/-- The nodes of a cluster that was started and written to are its members, and they serve. -/
theorem serves_seedAll {cluster : ClusterDescription} {fresh : RunningCluster}
    (h : RunningCluster.start cluster [] = .ok fresh) {puts : List Put}
    (hputs : ∀ p ∈ puts, p.write.version.stamp.IsSound) :
    (fresh.seedAll puts).nodes.map Prod.fst = cluster.topology.members ∧
      ∀ e ∈ (fresh.seedAll puts).nodes, Serves cluster e.2 := by
  obtain ⟨hmembers, hstarted⟩ := started_of_startCluster h
  rw [nodes_seedAll]
  constructor
  · rw [List.map_map, ← hmembers]
    rfl
  · intro e he
    obtain ⟨old, hold, rfl⟩ := List.mem_map.1 he
    apply serves_of_started (hstarted old hold)
    intro w hw
    obtain ⟨p, hp, rfl⟩ := List.mem_map.1 hw
    exact hputs p (List.mem_filter.1 hp).1

/-- What a node of the cluster holds after the writes. -/
theorem stamps_of_mem_seedAll {cluster : ClusterDescription} {fresh : RunningCluster}
    (h : RunningCluster.start cluster [] = .ok fresh) {puts : List Put} {e : Member × Service}
    (he : e ∈ (fresh.seedAll puts).nodes) {store : String}
    (hstore : store ∈ cluster.schemas.map Schema.name) (key : Bytes) :
    e.2.storage.stamps store key = .ok (heldStamps (writesTo e.1.id puts) store key) := by
  rw [nodes_seedAll] at he
  obtain ⟨old, hold, rfl⟩ := List.mem_map.1 he
  have hstorage := ((started_of_startCluster h).2 old hold).storage
  show (old.2.storage.applyAll _).stamps store key = _
  rw [hstorage]
  exact stamps_applyAll hstore key _

/-- A cluster with a node has a resolver, and every store of it is routable. -/
theorem routable_of_start {cluster : ClusterDescription} {fresh : RunningCluster}
    (h : RunningCluster.start cluster [] = .ok fresh) {m : Member}
    (hm : m ∈ cluster.topology.members) :
    ∃ r r', Resolver.ofTopology cluster.topology = .ok r ∧
      Resolver.checkAll cluster.schemas r = .ok r' := by
  obtain ⟨hmembers, hstarted⟩ := started_of_startCluster h
  rw [← hmembers] at hm
  obtain ⟨e, he, -⟩ := List.mem_map.1 hm
  obtain ⟨r, hr, hcheck⟩ := (hstarted e he).resolver
  exact ⟨r, _, hr, hcheck⟩

/-- A member starts if there is a ring for all of them and every store is routable. -/
theorem exists_service {cluster : ClusterDescription} {r : Resolver}
    (hr : Resolver.ofTopology cluster.topology = .ok r)
    (hroutable : ∀ s ∈ cluster.schemas, Resolver.routable cluster.topology s = .ok ())
    {m : Member} (hm : m ∈ cluster.topology.members) (storage : Option Storage) :
    ∃ service, Service.start m.id cluster storage = .ok service := by
  rw [← (Resolver.of_ofTopology hr).topology] at hroutable
  obtain ⟨r', hr'⟩ := Resolver.exists_checkAll (Resolver.honest_of_ofTopology hr) hroutable
  rw [Service.start, Topology.get_of_mem hm]
  dsimp only
  rw [hr]
  dsimp only
  rw [hr']
  exact ⟨_, rfl⟩

/-- The nodes start if there is a ring for them and every store is routable. -/
theorem exists_start {cluster : ClusterDescription} {r : Resolver}
    (hr : Resolver.ofTopology cluster.topology = .ok r)
    (hroutable : ∀ s ∈ cluster.schemas, Resolver.routable cluster.topology s = .ok ()) :
    ∃ fresh, RunningCluster.start cluster [] = .ok fresh := by
  have hall : ∀ members : List Member, (∀ m ∈ members, m ∈ cluster.topology.members) →
      ∃ nodes, startAll cluster members = .ok nodes := by
    intro members hmembers
    induction members with
    | nil => exact ⟨[], rfl⟩
    | cons m rest ih =>
      obtain ⟨hm, hrest⟩ := List.forall_mem_cons.1 hmembers
      obtain ⟨service, hservice⟩ := exists_service hr hroutable hm none
      obtain ⟨nodes, hnodes⟩ := ih hrest
      rw [startAll, hservice, hnodes]
      exact ⟨_, rfl⟩
  obtain ⟨nodes, hnodes⟩ := hall _ fun m hm => (List.mem_filter.1 hm).1
  rw [RunningCluster.start, hnodes]
  exact ⟨_, rfl⟩

end RunningCluster

end ReplicaCensus
