import Mathlib
import ReplicaCensus.Proofs.Census.Faithful
import ReplicaCensus.Proofs.Cluster.Document
/-!
# All parts of a cluster route alike

What a client learns from any node of a cluster is what the cluster file says. So the resolvers of
the nodes, of the clients and of whoever read the file give one list of replicas for a key.
-/

namespace ReplicaCensus

/-! ## 1. Resolvers -/

namespace Resolver

variable {r : Resolver} {t : Topology} {schema : Schema}

/-- A key of a routable store has an owner. -/
theorem walk_ne_nil (hr : r.Of t) (hmembers : t.members ≠ [])
    (hfactor : 1 ≤ schema.replicationFactor) {key : Bytes} {nodes : List Int}
    (h : r.walk schema key = .ok nodes) : nodes ≠ [] := by
  rintro rfl
  unfold walk at h
  split at h
  · -- a store on all nodes is on some
    have hids : r.topology.nodeIds = [] := Except.ok.inj h
    have hperm := Topology.nodeIds_perm t
    rw [← hr.topology, hids, hr.topology, List.nil_perm, List.map_eq_nil_iff] at hperm
    exact hmembers hperm
  · dsimp only at h
    split at h
    · next hlen =>
      rw [Except.ok.inj h, List.length_nil] at hlen
      omega
    · cases h

/-- What a resolver remembers of its checks makes no difference to its routing. -/
theorem replicas_eq_of_checkAll {r' : Resolver} {schemas : List Schema} (hr : r.Honest)
    (h : checkAll schemas r = .ok r') (hschema : schema ∈ schemas) (key : Bytes) :
    r'.replicas schema key = r.replicas schema key := by
  obtain ⟨halike, hhonest, hroutable⟩ := checkAll_ok hr h
  have hroute := hroutable schema hschema
  have hroute' : routable r'.topology schema = .ok () := by
    rw [halike.topology]
    exact hroute
  rw [replicas_eq_walk hhonest hroute', replicas_eq_walk hr hroute, walk_alike halike]

end Resolver

/-! ## 2. Nodes -/

namespace Service

/-- A node that runs is a member, and its resolver has checked the stores of the cluster. -/
theorem of_start {node : Int} {cluster : ClusterDescription} {storage : Option Storage}
    {service : Service} (h : start node cluster storage = .ok service) :
    cluster.topology.members ≠ [] ∧ service.schemas = cluster.schemas ∧
      ∃ r, Resolver.ofTopology cluster.topology = .ok r ∧
        Resolver.checkAll cluster.schemas r = .ok service.resolver := by
  unfold start at h
  split at h
  · cases h
  next m hm =>
  split at h
  · cases h
  next r hr =>
  split at h
  · cases h
  next r' hr' =>
  cases h
  refine ⟨fun hnil => ?_, rfl, r, hr, hr'⟩
  unfold Topology.get at hm
  rw [hnil] at hm
  cases hm

end Service

/-! ## 3. Clients -/

namespace Session

variable {cluster : ClusterDescription} {service : Service} {transport : Transport} {url : String}

/-- A session that is begun at a node knows what the node was started with. -/
theorem learn_of_reaches (hcluster : cluster.IsSound) {node : Int} {storage : Option Storage}
    (hservice : Service.start node cluster storage = .ok service)
    (h : Reaches transport (Client.ofUrl url).base service) :
    ((Client.ofUrl url).bootstrap transport).result = .ok (cluster.topology, cluster.schemas) ∧
      ∃ known urls, learn url transport = (.ok known, urls) ∧
        known.client.topology = some cluster.topology ∧ known.schemas = cluster.schemas ∧
        known.resolver = service.resolver := by
  obtain ⟨-, hschemas, r, hr, hcheck⟩ := Service.of_start hservice
  have htopology : service.resolver.topology = cluster.topology := by
    rw [(Resolver.checkAll_ok (Resolver.honest_of_ofTopology hr) hcheck).1.topology]
    exact (Resolver.of_ofTopology hr).topology
  have hread := Client.getCluster_of_reaches h htopology hcluster.topology
  have hread' : (Client.mk (Client.ofUrl url).base (some cluster.topology)).getSchemas transport =
      .ok cluster.schemas :=
    Client.getSchemas_of_reaches h hschemas hcluster.schemas hcluster.shortFactors
  obtain ⟨known, urls, hlearn, hknown, hresolver, hlist⟩ := learn_eq hread hread' hr hcheck
  refine ⟨?_, known, urls, hlearn, hknown, hlist, hresolver⟩
  rw [bootstrap_eq hread hread']

/-- Of a cluster file with which one node starts, every node starts. Then the stores pass their
checks, and each of their keys has an owner among the members. A client that bootstraps from a node,
whichever it is, gets the topology and the stores of the file; its resolver and the node's give for
every key the replicas that the resolver of the file gives, and it knows the address of each. -/
theorem learn_agrees {tree : FileTree} {path : String}
    (hload : ClusterDescription.load tree path = .ok cluster) {first : Int}
    {storage : Option Storage} {started : Service}
    (hfirst : Service.start first cluster storage = .ok started) :
    ∃ r, Resolver.ofTopology cluster.topology = .ok r ∧
      (∀ m ∈ cluster.topology.members, ∀ storage, ∃ service,
        Service.start m.id cluster storage = .ok service) ∧
      (∀ schema ∈ cluster.schemas, (∃ r', r.check schema = .ok r') ∧
        ∀ key, ∃ owner others, r.replicas schema key = .ok (owner :: others) ∧
          ∀ id ∈ owner :: others, ∃ m ∈ cluster.topology.members, m.id = id) ∧
      ∀ node storage service, Service.start node cluster storage = .ok service →
        ∀ url transport, Reaches transport (Client.ofUrl url).base service →
          ((Client.ofUrl url).bootstrap transport).result =
              .ok (cluster.topology, cluster.schemas) ∧
            ∃ known urls, learn url transport = (.ok known, urls) ∧
              known.schemas = cluster.schemas ∧
              (∀ m ∈ cluster.topology.members,
                known.client.nodeUrl m.id = .ok ("http://" ++ m.address)) ∧
              ∀ schema ∈ cluster.schemas, ∀ key,
                known.resolver.replicas schema key = r.replicas schema key ∧
                  service.resolver.replicas schema key = r.replicas schema key := by
  have hsound := ClusterDescription.isSound_of_load hload
  obtain ⟨hmembers, -, r, hr, hcheck⟩ := Service.of_start hfirst
  have hof := Resolver.of_ofTopology hr
  have hhonest := Resolver.honest_of_ofTopology hr
  have hroutable := (Resolver.checkAll_ok hhonest hcheck).2.2
  have hroutable' : ∀ s ∈ cluster.schemas, Resolver.routable cluster.topology s = .ok () := by
    rw [← hof.topology]
    exact hroutable
  refine ⟨r, hr, fun m hm storage => RunningCluster.exists_service hr hroutable' hm storage,
    fun schema hschema => ⟨(Resolver.check_eq hhonest schema).2 (hroutable schema hschema), ?_⟩, ?_⟩
  · intro key
    have hfactor := (hsound.schemas.each schema hschema).replicationFactor
    obtain ⟨nodes, hwalk, hnodes⟩ := Resolver.exists_walk hof hfactor (hroutable' schema hschema) key
    obtain ⟨owner, others, rfl⟩ :=
      List.exists_cons_of_ne_nil (Resolver.walk_ne_nil hof hmembers hfactor hwalk)
    refine ⟨owner, others, ?_, fun id hid => Topology.mem_nodeIds.1 (hnodes id hid)⟩
    rw [Resolver.replicas_eq_walk hhonest (hroutable schema hschema), hwalk]
  · intro node storage service hservice url transport hreaches
    obtain ⟨hresult, known, urls, hlearn, hknown, hlist, hresolver⟩ :=
      learn_of_reaches hsound hservice hreaches
    refine ⟨hresult, known, urls, hlearn, hlist, fun m hm => ?_, fun schema hschema key => ?_⟩
    · rw [Client.nodeUrl, Client.knownTopology, hknown]
      dsimp only
      rw [Topology.get_of_mem hm]
    · -- the node made its resolver from the same topology
      obtain ⟨-, -, r', hr', hcheck'⟩ := Service.of_start hservice
      obtain rfl : r = r' := Except.ok.inj (hr.symm.trans hr')
      have hroute := Resolver.replicas_eq_of_checkAll hhonest hcheck' hschema key
      exact ⟨hresolver ▸ hroute, hroute⟩

/-! The two nodes of `pair`, with their cluster file. -/

/-- A transport to one node, whose URLs all begin with its base URL. -/
def toNode (base : String) (service : Service) : Transport := fun url =>
  let path := String.ofList (url.toList.drop base.toList.length)
  ⟨0, .ok (service.handle ⟨"GET", (Percent.unquote? path).getD path, [], 0⟩).1.toResponse⟩

theorem reaches_toNode (base : String) (service : Service) :
    Reaches (toNode base service) base service := by
  intro path _
  refine ⟨0, ?_⟩
  unfold toNode
  dsimp only
  rw [String.toList_append, List.drop_left, String.ofList_toList]

theorem isSound_pair : pair.IsSound := by
  have hschemas : Schema.listOfJson (.arr [pairSchema.toJson]) = .ok pair.schemas := rfl
  refine ⟨isSound_pairTopology, Schema.areSound_of_listOfJson hschemas, fun s hs => ?_⟩
  obtain rfl := List.mem_singleton.1 hs
  decide

/-- A tree with one file. -/
def pairFile (content : Bytes) : FileTree := OrderedMap.empty.insert ["c.json"] (.file content)

theorem exists_load_pairFile :
    ∃ content, ClusterDescription.load (pairFile content) "c.json" = .ok pair := by
  have hplace : FileTree.locate OrderedMap.empty "c.json" = .ok (.free ["c.json"]) := by
    decide +kernel
  have hends : FileTree.EndsIn "c.json" "c.json" :=
    ⟨⟨[], by decide +kernel⟩, by decide, by decide, by decide⟩
  obtain ⟨content, hdump⟩ :
      ∃ content, pair.dump OrderedMap.empty "c.json" = .ok (pairFile content) := by
    have hwhole : pair.toJson.beforeLong .indented 0 = none := by decide +kernel
    unfold ClusterDescription.dump FileTree.write
    rw [hplace, hwhole]
    exact ⟨_, rfl⟩
  exact ⟨content, isSound_pair.load_of_dump hends hdump⟩

theorem learn_agrees_pair :
    ∃ tree first second known urls,
      ClusterDescription.load tree "c.json" = .ok pair ∧
      Service.start 0 pair none = .ok first ∧ Service.start 1 pair none = .ok second ∧
      learn "http://b:1/" (toNode "http://b:1" second) = (.ok known, urls) ∧
      known.schemas = [pairSchema] ∧ known.client.nodeUrl 0 = .ok "http://a:1" ∧
      known.resolver.replicas pairSchema [0x62] = .ok [1, 0] := by
  obtain ⟨content, hload⟩ := exists_load_pairFile
  have hfirst : (⟨0, "a", 1⟩ : Member) ∈ pair.topology.members := List.mem_cons_self
  have hsecond : (⟨1, "b", 1⟩ : Member) ∈ pair.topology.members :=
    List.mem_cons_of_mem _ List.mem_cons_self
  obtain ⟨first, hstart⟩ := RunningCluster.exists_service ofTopology_pair routable_pair hfirst none
  obtain ⟨second, hstart'⟩ :=
    RunningCluster.exists_service ofTopology_pair routable_pair hsecond none
  obtain ⟨r, hr, -, -, hall⟩ := learn_agrees hload hstart
  have hbase : (Client.ofUrl "http://b:1/").base = "http://b:1" := by decide +kernel
  have hreaches := reaches_toNode "http://b:1" second
  rw [← hbase] at hreaches
  obtain ⟨-, known, urls, hlearn, hschemas, haddress, hroute⟩ :=
    hall 1 none second hstart' "http://b:1/" _ hreaches
  rw [hbase] at hlearn
  refine ⟨pairFile content, first, second, known, urls, hload, hstart, hstart', hlearn, hschemas,
    ?_, ?_⟩
  · rw [haddress _ hfirst]
    exact congrArg Except.ok (by decide +kernel)
  · obtain rfl : ⟨pairTopology, pairRing Sha1.digest, []⟩ = r := by
      rw [show pair.topology = pairTopology from rfl, ofTopology_pair] at hr
      exact Except.ok.inj hr
    rw [(hroute pairSchema List.mem_cons_self [0x62]).1,
      Resolver.replicas_eq_walk (Resolver.honest_of_ofTopology hr)
        (routable_pair pairSchema List.mem_cons_self), walk_pair]

end Session

end ReplicaCensus
