import Mathlib
import ReplicaCensus.Census.Session
import ReplicaCensus.Proofs.Census.Blocks
import ReplicaCensus.Proofs.Census.Limits
import ReplicaCensus.Proofs.Census.Stores
import ReplicaCensus.Proofs.Client.Reading
/-!
# The samples of a session are what the nodes hold

A session that is begun at any node of a cluster writes for every store, key by key and replica by
replica, the stamps that the replica itself stores.
-/

namespace ReplicaCensus

/-! ## 1. What a session learns -/

theorem ClientError.isOrdinary_toFailure {e : ClientError} (h : e.isTransport = false) :
    e.toFailure.isOrdinary = true := by
  cases e with
  | transport f => cases h
  | _ => rfl

namespace Session

theorem bootstrap_eq {transport : Transport} {client : Client} {topology : Topology}
    {schemas : List Schema} (hcluster : client.getCluster transport = .ok topology)
    (hschemas : (Client.mk client.base (some topology)).getSchemas transport = .ok schemas) :
    client.bootstrap transport = ⟨[client.clusterUrl, client.storesUrl], .ok (topology, schemas),
      ⟨client.base, some topology⟩⟩ := by
  rw [Client.bootstrap, hcluster]
  dsimp only
  rw [hschemas]
  rfl

theorem learn_eq {transport : Transport} {url : String} {topology : Topology}
    {schemas : List Schema} (hcluster : (Client.ofUrl url).getCluster transport = .ok topology)
    (hschemas : (Client.mk (Client.ofUrl url).base (some topology)).getSchemas transport =
      .ok schemas) {r r' : Resolver} (hr : Resolver.ofTopology topology = .ok r)
    (hr' : Resolver.checkAll schemas r = .ok r') :
    ∃ k urls, learn url transport = (.ok k, urls) ∧ k.client.topology = some topology ∧
      k.resolver = r' ∧ k.schemas = schemas := by
  have hboot := bootstrap_eq hcluster hschemas
  refine ⟨⟨⟨(Client.ofUrl url).base, some topology⟩, r', schemas⟩,
    [(Client.ofUrl url).clusterUrl, (Client.ofUrl url).storesUrl], ?_, rfl, rfl, rfl⟩
  unfold learn
  rw [hboot]
  dsimp only
  rw [hr]
  dsimp only
  rw [hr']

/-- Without an interruption by the user, all replies are waited for. -/
theorem waitFor_none (transport : Transport) (now : Rat) (urls : List String) :
    ∃ ended, waitFor transport none now urls = ⟨urls, ended, false⟩ := by
  induction urls generalizing now with
  | nil => exact ⟨now, rfl⟩
  | cons url rest ih =>
    unfold waitFor
    dsimp only
    rw [Schedule.comesFirst, Bool.and_false, if_neg Bool.false_ne_true]
    obtain ⟨ended, hrest⟩ := ih (if (transport url).delay < 0 then now else
      now + (transport url).delay)
    exact ⟨ended, by rw [hrest]⟩

theorem run_eq_sample {o : CensusOptions} {transport : Transport} {tree begun : FileTree}
    {k : Known} {urls : List String} (hdirs : makeDirectories o tree = .ok begun)
    (hlearn : learn o.url transport = (.ok k, urls)) :
    ∃ began, Session.run o transport tree = sample o k transport none begun urls began := by
  obtain ⟨began, hwait⟩ := waitFor_none transport 0 urls
  refine ⟨began, ?_⟩
  unfold Session.run runUntil
  rw [hdirs]
  dsimp only
  generalize learn o.url transport = learned at hlearn
  subst hlearn
  dsimp only
  rw [hwait]
  dsimp only
  rw [if_neg Bool.false_ne_true]

theorem ordinary_sourceOf {transport : Transport} {c : RunningCluster}
    (hdelivers : Delivers transport c) {k : Known} {t : Topology}
    (ht : k.client.topology = some t) (hmembers : c.nodes.map Prod.fst = t.members) :
    (sourceOf k transport).Ordinary := by
  constructor
  -- a resolver raises errors, and no signals
  · intro schema key f hf
    unfold sourceOf at hf
    dsimp only at hf
    split at hf
    · cases hf
    · cases hf
      rfl
  · intro q f hf
    unfold sourceOf at hf
    dsimp only [Fetch.prompt] at hf
    split at hf
    · cases hf
    · next e he =>
      cases hf
      -- only the transport could pass a signal on, and this one delivers
      exact ClientError.isOrdinary_toFailure (Client.isTransport_getStamps hdelivers ht hmembers he)

end Session

/-! ## 2. What is written for a key -/

/-- A node of a cluster holds these stamps of a key. -/
def RunningCluster.Holds (c : RunningCluster) (store : String) (key : Bytes) (node : Int)
    (stamps : List Stamp) : Prop :=
  ∃ e ∈ c.nodes, e.1.id = node ∧ e.2.storage.stamps store key = .ok stamps

theorem RunningCluster.Holds.eq_heldStamps {cluster : ClusterDescription} {fresh : RunningCluster}
    (hstart : RunningCluster.start cluster [] = .ok fresh) {puts : List Put} {store : String}
    (hstore : store ∈ cluster.schemas.map Schema.name) {key : Bytes} {node : Int}
    {stamps : List Stamp} (h : (fresh.seedAll puts).Holds store key node stamps) :
    stamps = heldStamps (writesTo node puts) store key := by
  obtain ⟨e, he, rfl, hstamps⟩ := h
  rw [stamps_of_mem_seedAll hstart he hstore] at hstamps
  exact (Except.ok.inj hstamps).symm

/-- The text of a key: for each of its nodes, in their order, the line of what the node holds. -/
def RunningCluster.IsBlock (c : RunningCluster) (r : Resolver) (schema : Schema) (key : Bytes)
    (text : String) : Prop :=
  ∃ nodes held, r.replicas schema key = .ok nodes ∧
    List.Forall₂ (c.Holds schema.name key) nodes held ∧
    text = String.join (held.zipIdx.map fun e => replicaLine e.2 key e.1)

/-- A cluster that was started and written to. What its nodes know and hold can be read back: ids,
ports, counts and times have no more digits than a reader takes. -/
structure RunningCluster.Reached (cluster : ClusterDescription) (c : RunningCluster) : Prop where
  topology : cluster.topology.IsSound
  stores : ∃ value, Schema.listOfJson value = .ok cluster.schemas
  shortFactors : ∀ s ∈ cluster.schemas, Number.IsShort s.replicationFactor
  writes : ∃ fresh puts, RunningCluster.start cluster [] = .ok fresh ∧
    (∀ p ∈ puts, p.write.version.stamp.IsSound) ∧ c = fresh.seedAll puts

namespace Session

variable {transport : Transport} {cluster : ClusterDescription} {c : RunningCluster}

theorem exists_holds (hdelivers : Delivers transport c)
    (hmembers : c.nodes.map Prod.fst = cluster.topology.members)
    (hserves : ∀ e ∈ c.nodes, RunningCluster.Serves cluster e.2) {k : Known}
    (ht : k.client.topology = some cluster.topology) {schema : Schema}
    (hschema : schema ∈ cluster.schemas) (hname : Schema.isValidName schema.name = true)
    {key : Bytes} (hkey : key ≠ []) {node : Int} (hnode : node ∈ cluster.topology.nodeIds) :
    ∃ stamps, c.Holds schema.name key node stamps ∧ ∀ line replica,
      ((sourceOf k transport).fetch ⟨schema.name, line, key, replica, node⟩).answer =
        .ok (stamps.map Stamp.toText) := by
  obtain ⟨m, hm, rfl⟩ := Topology.mem_nodeIds.1 hnode
  have hm' := hm
  rw [← hmembers] at hm'
  obtain ⟨e, he, rfl⟩ := List.mem_map.1 hm'
  obtain ⟨stamps, hstamps, hsound⟩ := (hserves e he).stamps schema hschema key
  refine ⟨stamps, ⟨e, he, rfl, hstamps⟩, fun line replica => ?_⟩
  have hread := Client.getStamps_of_delivers hdelivers he ht hm hname hkey hstamps hsound
  unfold sourceOf
  dsimp only [Fetch.prompt]
  rw [hread]

theorem exists_block (hdelivers : Delivers transport c)
    (hmembers : c.nodes.map Prod.fst = cluster.topology.members)
    (hserves : ∀ e ∈ c.nodes, RunningCluster.Serves cluster e.2) {k : Known}
    (ht : k.client.topology = some cluster.topology) {r : Resolver}
    (hr : Resolver.ofTopology cluster.topology = .ok r)
    (hcheck : Resolver.checkAll cluster.schemas r = .ok k.resolver) {census : Census}
    (hsource : census.source = sourceOf k transport) (hlimit : census.limit = none)
    {schema : Schema} (hschema : schema ∈ cluster.schemas) (hsound : schema.IsSound)
    {key : KeyLine} (hkey : key.2 ≠ []) :
    ∃ text, Schedule.ask (census.setting schema) key = .ok text ∧
      c.IsBlock r schema key.2 text := by
  have hof := Resolver.of_ofTopology hr
  have hhonest := Resolver.honest_of_ofTopology hr
  obtain ⟨halike, hhonest', hroutable⟩ := Resolver.checkAll_ok hhonest hcheck
  -- the resolver of the session checked every store, so it routes as a fresh one does
  have hroute := hroutable schema hschema
  have hroute' : Resolver.routable k.resolver.topology schema = .ok () := by
    rw [halike.topology]
    exact hroute
  have hroute'' : Resolver.routable cluster.topology schema = .ok () := by
    rw [← hof.topology]
    exact hroute
  obtain ⟨nodes, hwalk, hnodes⟩ := Resolver.exists_walk hof hsound.replicationFactor hroute'' key.2
  have hreplicas : r.replicas schema key.2 = .ok nodes := by
    rw [Resolver.replicas_eq_walk hhonest hroute, hwalk]
  have hreplicas' : (sourceOf k transport).replicas schema key.2 = .ok nodes := by
    unfold sourceOf
    dsimp only
    rw [Resolver.replicas_eq_walk hhonest' hroute', Resolver.walk_alike halike, hwalk]
  -- each node of the key is asked, and answers with what it holds
  obtain ⟨held, hheld⟩ := exists_forall₂ fun node hnode =>
    exists_holds hdelivers hmembers hserves ht hschema hsound.name hkey (hnodes node hnode)
  have hanswers : List.Forall₂ (fun node versions => ∀ i,
      ((census.setting schema).fetch key i node).answer = .ok versions) nodes
      (held.map (List.map Stamp.toText)) := by
    refine List.forall₂_map_right_iff.2 (hheld.imp fun node stamps h i => ?_)
    rw [Schedule.Setting.fetch, show (census.setting schema).source = sourceOf k transport
      from hsource]
    exact h.2 key.1 i
  refine ⟨_, ?_, nodes, held, hreplicas, hheld.imp fun _ _ h => h.1,
    Block.linesFrom_map_toText key.2 0 held⟩
  have hlimit' : (census.setting schema).limit = none := hlimit
  rw [← hsource] at hreplicas'
  exact Schedule.ask_of_ok hlimit' hreplicas' (Schedule.answerFrom_of_forall₂ hanswers 0)

/-! ## 3. The whole session -/

theorem sample_eq {o : CensusOptions} {k : Known} {tree : FileTree} {asked : List String}
    {census : Census} (hmake : Census.make (sourceOf k transport) o.inDir o.outDir o.parallelism
      o.limit = .ok census) (hfast : o.failFast = false)
    (hstopped : (census.sampleStores k.schemas false none tree).stopped = none) (began : Rat) :
    ∃ session, sample o k transport none tree asked began = .ok session ∧
      session.tree = (census.sampleStores k.schemas false none tree).tree := by
  unfold sample
  rw [hmake, hfast]
  dsimp only [Option.map_none]
  -- the report lists what every store came to; here the tree it leaves is what counts
  generalize census.sampleStores k.schemas false none tree = run at hstopped
  unfold ofRun
  rw [hstopped]
  dsimp only
  exact ⟨_, rfl, rfl⟩

/-- A session that was begun at a member of a cluster has learned what all members know. Its census
asks the nodes themselves, and each key has its block. -/
structure Attached (cluster : ClusterDescription) (c : RunningCluster) (transport : Transport)
    (o : CensusOptions) (r : Resolver) (k : Known) (census : Census) : Prop where
  learned : (learn o.url transport).1 = .ok k
  schemas : k.schemas = cluster.schemas
  sound : Schema.AreSound cluster.schemas
  resolver : Resolver.ofTopology cluster.topology = .ok r
  made : Census.make (sourceOf k transport) o.inDir o.outDir o.parallelism o.limit = .ok census
  inDir : census.inDir = o.inDir
  outDir : census.outDir = o.outDir
  ordinary : census.source.Ordinary
  asks : ∀ schema ∈ cluster.schemas, ∀ key : KeyLine, key.2 ≠ [] →
    ∃ text, Schedule.ask (census.setting schema) key = .ok text ∧ c.IsBlock r schema key.2 text

theorem exists_attached (hreached : RunningCluster.Reached cluster c)
    (hdelivers : Delivers transport c) {m : Member} (hm : m ∈ cluster.topology.members)
    {o : CensusOptions} (hurl : (Client.ofUrl o.url).base = "http://" ++ m.address)
    (hslots : 1 ≤ o.parallelism) (hlimit : o.keyTimeout = none) :
    ∃ r k census, Attached cluster c transport o r k census := by
  obtain ⟨fresh, puts, hstart, hputs, rfl⟩ := hreached.writes
  obtain ⟨value, hvalue⟩ := hreached.stores
  have hsound := Schema.areSound_of_listOfJson hvalue
  obtain ⟨hmembers, hserves⟩ := RunningCluster.serves_seedAll hstart hputs
  -- the nodes started, so their stores are routable
  obtain ⟨r, r', hr, hr'⟩ := RunningCluster.routable_of_start hstart hm
  have hm' := hm
  rw [← hmembers] at hm'
  obtain ⟨e, he, rfl⟩ := List.mem_map.1 hm'
  -- the session learns from one node what all of them know
  have hcluster := Client.getCluster_of_delivers hdelivers he (hserves e he) hreached.topology hurl
  have hstores : (Client.mk (Client.ofUrl o.url).base (some cluster.topology)).getSchemas
      transport = .ok cluster.schemas :=
    Client.getSchemas_of_delivers hdelivers he (hserves e he) hsound hreached.shortFactors hurl
  obtain ⟨k, urls, hlearn, ht, rfl, hknown⟩ := learn_eq hcluster hstores hr hr'
  have hordinary := ordinary_sourceOf hdelivers ht hmembers
  obtain ⟨census, hmake, hsource, hin, hout, hcensus, -⟩ :=
    Census.exists_make (sourceOf k transport) o.inDir o.outDir hslots o.limit
  rw [← hsource] at hordinary
  have hnone : census.limit = none := by
    rw [hcensus, CensusOptions.limit, hlimit]
    rfl
  -- without a limit, every key has its block
  refine ⟨r, k, census, by rw [hlearn], hknown, hsound, hr, hmake, hin, hout, hordinary, ?_⟩
  exact fun schema hschema key hkey => exists_block hdelivers hmembers hserves ht hr hr' hsource
    hnone hschema (hsound.each schema hschema) hkey

namespace Attached

variable {o : CensusOptions} {r : Resolver} {k : Known} {census : Census} {tree begun : FileTree}

/-- Nothing that it asks for gives a signal, so the session comes to its end. -/
theorem run (h : Attached cluster c transport o r k census) (hfast : o.failFast = false)
    (hdirs : makeDirectories o tree = .ok begun) :
    ∃ session, Session.run o transport tree = .ok session ∧
      session.tree = (census.sampleStores k.schemas false none begun).tree := by
  have hstopped : (census.sampleStores k.schemas false none begun).stopped = none := by
    rw [Census.sampleStores_eq_sampleEach]
    exact Census.stopped_sampleEach h.ordinary k.schemas _
  have hlearn : learn o.url transport = (.ok k, (learn o.url transport).2) :=
    Prod.ext h.learned rfl
  obtain ⟨began, hrun⟩ := run_eq_sample hdirs hlearn
  obtain ⟨session, hsample, htree⟩ := @sample_eq transport o k begun
    (learn o.url transport).2 census h.made hfast hstopped began
  exact ⟨session, hrun.trans hsample, htree⟩

/-- A store whose keys can be read and whose samples can be written gets its samples. -/
theorem read_samples (h : Attached cluster c transport o r k census) {schema : Schema}
    (hschema : schema ∈ cluster.schemas) {content : Bytes} {opened : FileTree}
    (hread : begun.read (census.keysPath schema.name) = .ok content)
    (hfault : (KeyFile.read (census.keysPath schema.name) content).fault = none)
    (hnew : begun.has (census.samplesPath schema.name) = false)
    (hopened : begun.write (census.partialPath schema.name) [] = .ok opened) :
    ∃ blocks, List.Forall₂ (c.IsBlock r schema)
        ((KeyFile.read (census.keysPath schema.name) content).keys.map Prod.snd) blocks ∧
      (census.sampleStores k.schemas false none begun).tree.read
        (census.samplesPath schema.name) = .ok (Census.contentOf blocks) := by
  obtain ⟨blocks, hasked, hblocks⟩ := Schedule.exists_blocks fun key hkey =>
    h.asks schema hschema key (KeyFile.ne_nil_of_mem hkey)
  refine ⟨blocks, List.forall₂_map_left_iff.2 hblocks, ?_⟩
  -- the store is ready from the beginning, so its samples are there at the end
  have hready : Census.Ready census schema.name (Census.Run.initial census.slots begun).tree
      content := ⟨hread, ⟨opened, hopened⟩, hnew⟩
  rw [Census.sampleStores_eq_sampleEach, h.schemas]
  exact Census.read_samples_of_ready h.ordinary h.sound hschema hready hfault hasked

end Attached

/-- A session that is begun at a member of a cluster comes to an end, and every store whose keys can
be read and whose samples can be written has as its samples the blocks of its keys in file order:
what each replica of a key holds itself. -/
theorem run_samples (hreached : RunningCluster.Reached cluster c) (hdelivers : Delivers transport c)
    {m : Member} (hm : m ∈ cluster.topology.members) {o : CensusOptions}
    (hurl : (Client.ofUrl o.url).base = "http://" ++ m.address) (hslots : 1 ≤ o.parallelism)
    (hlimit : o.keyTimeout = none) (hfast : o.failFast = false) {tree begun : FileTree}
    (hdirs : makeDirectories o tree = .ok begun) :
    ∃ r session, Resolver.ofTopology cluster.topology = .ok r ∧
      Session.run o transport tree = .ok session ∧
      ∀ schema ∈ cluster.schemas, ∀ keysPath samplesPath content opened,
        keysPath = FileTree.join o.inDir (schema.name ++ ".keys") →
        samplesPath = FileTree.join o.outDir (schema.name ++ ".kvs") →
        begun.read keysPath = .ok content → (KeyFile.read keysPath content).fault = none →
        begun.has samplesPath = false → begun.write (samplesPath ++ ".tmp") [] = .ok opened →
        ∃ blocks, List.Forall₂ (c.IsBlock r schema)
            ((KeyFile.read keysPath content).keys.map Prod.snd) blocks ∧
          session.tree.read samplesPath = .ok (Utf8.encode (String.join blocks).toList) := by
  obtain ⟨r, k, census, h⟩ := exists_attached hreached hdelivers hm hurl hslots hlimit
  obtain ⟨session, hrun, htree⟩ := h.run hfast hdirs
  refine ⟨r, session, h.resolver, hrun, ?_⟩
  rintro schema hschema keysPath samplesPath content opened rfl rfl hread hfault hnew hopened
  rw [← h.inDir] at hread hfault ⊢
  rw [← h.outDir] at hnew hopened ⊢
  rw [htree]
  exact h.read_samples hschema hread hfault hnew hopened

/-! Two nodes, of which the second is the first replica of the key `62`. -/

def pairTopology : Topology := ⟨[⟨0, "a", 1⟩, ⟨1, "b", 1⟩], 1, by decide, by decide⟩

def pairSchema : Schema := ⟨"s", 2, Schema.consistentRouting⟩

def pair : ClusterDescription := ⟨pairTopology, [pairSchema]⟩

def pairWrite (node count time : Int) : Put :=
  ⟨node, "s", [0x62], "v", OrderedMap.ofList [(node, count)], time⟩

def pairPuts : List Put := [pairWrite 0 1 7, pairWrite 1 2 (-3)]

def pairOptions : CensusOptions where
  url := "http://a:1"
  inDir := "in"
  outDir := "out"
  parallelism := 4
  keyTimeout := none
  requestTimeout := CensusOptions.defaultRequestTimeout
  failFast := false
  debug := false

def pairTree : FileTree :=
  OrderedMap.ofList [(["in"], .dir), (["out"], .dir),
    (["in", "s.keys"], .file (Utf8.encode "62\n".toList))]

/-- The only position of a node. -/
def pairPoint (hash : Bytes → Nat) (node : Int) : RingPoint :=
  ⟨hash (Ring.labelBytes (Ring.label node 0)), Ring.label node 0, node⟩

def pairRing (hash : Bytes → Nat) : Ring :=
  ⟨hash, 1, Ring.insertPoint (pairPoint hash 1) [pairPoint hash 0], [0, 1]⟩

theorem nodeIds_pair : pairTopology.nodeIds = [0, 1] := by
  have hids : pairTopology.members.map Member.id = [0, 1] := rfl
  rw [Topology.nodeIds, hids]
  exact List.mergeSort_of_pairwise (by decide)

theorem ofNodes_pair {hash : Bytes → Nat}
    (h : Ring.isTaken [pairPoint hash 0] (pairPoint hash 1).position = false) :
    Ring.ofNodes hash 1 [0, 1] = .ok (pairRing hash) := by
  have hfirst : Ring.freeLabel hash [] (Ring.label 0 0) =
      some ((pairPoint hash 0).label, (pairPoint hash 0).position) := Ring.freeLabel_of_free rfl
  have hsecond : Ring.freeLabel hash [pairPoint hash 0] (Ring.label 1 0) =
      some ((pairPoint hash 1).label, (pairPoint hash 1).position) := Ring.freeLabel_of_free h
  have hone : Ring.place hash 0 [] 0 = .ok [pairPoint hash 0] := by
    rw [Ring.place, hfirst]
    rfl
  have htwo : Ring.place hash 1 [pairPoint hash 0] 0 = .ok (pairRing hash).points := by
    rw [Ring.place, hsecond]
    rfl
  simp [Ring.ofNodes, Ring.addAll, Ring.add, Ring.empty, Ring.placeAll, hone, htwo, pairRing]

theorem ofTopology_pair : Resolver.ofTopology pairTopology =
    .ok ⟨pairTopology, pairRing Sha1.digest, []⟩ := by
  have hring : Ring.ofNodes Sha1.digest 1 [0, 1] = .ok (pairRing Sha1.digest) :=
    ofNodes_pair (by decide +kernel)
  have hvnodes : pairTopology.vnodes = 1 := rfl
  rw [Resolver.ofTopology, Resolver.make, nodeIds_pair, hvnodes, hring]

theorem routable_pair : ∀ s ∈ pair.schemas, Resolver.routable pairTopology s = .ok () := by
  intro s hs
  obtain rfl := List.mem_singleton.1 hs
  rw [Resolver.routable, nodeIds_pair]
  rfl

theorem isSound_pairPuts : ∀ p ∈ pairPuts, p.write.version.stamp.IsSound := by
  intro p hp
  have hcases : p = pairWrite 0 1 7 ∨ p = pairWrite 1 2 (-3) := by
    simpa [pairPuts] using hp
  rcases hcases with rfl | rfl
  · refine ⟨fun e he => ?_, by decide⟩
    obtain rfl := List.mem_singleton.1 he
    exact ⟨by decide, by decide, by decide, by decide⟩
  · refine ⟨fun e he => ?_, by decide⟩
    obtain rfl := List.mem_singleton.1 he
    exact ⟨by decide, by decide, by decide, by decide⟩

theorem isSound_pairTopology : pairTopology.IsSound := by
  refine ⟨fun m hm => ?_, by decide⟩
  have hcases : m = ⟨0, "a", 1⟩ ∨ m = ⟨1, "b", 1⟩ := by
    simpa [pairTopology] using hm
  rcases hcases with rfl | rfl
  · exact ⟨by decide, by decide, by decide⟩
  · exact ⟨by decide, by decide, by decide⟩

theorem walk_pair :
    Resolver.walk ⟨pairTopology, pairRing Sha1.digest, []⟩ pairSchema [0x62] = .ok [1, 0] := by
  have hring : (pairRing Sha1.digest).replicas [0x62] 2 = [1, 0] := by decide +kernel
  unfold Resolver.walk
  dsimp only
  rw [show pairSchema.replicationFactor = 2 from rfl, hring]
  rfl

theorem toText_pair (node count time : Int) :
    toString (pairWrite node count time).write.version.stamp =
      "version(" ++ toString node ++ ":" ++ toString count ++ ") ts:" ++ toString time := by
  have hsorted : Clock.sorted (OrderedMap.ofList [(node, count)]) = [(node, count)] :=
    List.mergeSort_singleton _
  show "version(" ++ String.intercalate ", " ((Clock.sorted (OrderedMap.ofList [(node, count)])).map
    Stamp.entryText) ++ ") ts:" ++ toString time = _
  rw [hsorted, List.map_singleton, String.intercalate_singleton, Stamp.entryText]
  simp only [String.append_assoc]

/-- The nodes can be started and written to, and requests are delivered to them. -/
theorem exists_pair :
    ∃ fresh, RunningCluster.start pair [] = .ok fresh ∧
      RunningCluster.Reached pair (fresh.seedAll pairPuts) ∧
      Delivers ((fresh.seedAll pairPuts).transport 0) (fresh.seedAll pairPuts) := by
  obtain ⟨fresh, hstart⟩ := RunningCluster.exists_start ofTopology_pair routable_pair
  have hmembers := (RunningCluster.serves_seedAll hstart isSound_pairPuts).1
  refine ⟨fresh, hstart, ⟨isSound_pairTopology, ⟨.arr [pairSchema.toJson], rfl⟩, ?_, fresh, pairPuts,
    hstart, isSound_pairPuts, rfl⟩, ?_⟩
  · intro s hs
    obtain rfl := List.mem_singleton.1 hs
    decide
  -- the two nodes are told apart by their addresses
  have haddresses : ((fresh.seedAll pairPuts).nodes.map fun e => e.1.address) = ["a:1", "b:1"] := by
    show (fresh.seedAll pairPuts).nodes.map (Member.address ∘ Prod.fst) = _
    rw [← List.map_map, hmembers]
    decide +kernel
  apply RunningCluster.delivers_transport
  · rw [haddresses]
    decide
  · intro e he
    have haddress : e.1.address ∈ ["a:1", "b:1"] := by
      rw [← haddresses]
      exact List.mem_map_of_mem he
    rcases List.mem_cons.1 haddress with ha | ha
    · rw [ha]
      exact ⟨by decide, by decide, by decide⟩
    · rw [List.mem_singleton.1 ha]
      exact ⟨by decide, by decide, by decide⟩

theorem run_samples_pair :
    ∃ fresh session, RunningCluster.start pair [] = .ok fresh ∧
      Session.run pairOptions ((fresh.seedAll pairPuts).transport 0) pairTree = .ok session ∧
      session.tree.read "out/s.kvs" = .ok (Utf8.encode
        "0 : 62\tversion(1:2) ts:-3\t\n1 : 62\tversion(0:1) ts:7\t\n".toList) := by
  obtain ⟨fresh, hstart, hreached, hdelivers⟩ := exists_pair
  obtain ⟨r, session, hr, hrun, hsamples⟩ := @run_samples _ _ _ hreached hdelivers ⟨0, "a", 1⟩
    List.mem_cons_self pairOptions (by decide +kernel) (by decide) rfl rfl pairTree pairTree
    (by decide +kernel)
  obtain rfl : ⟨pairTopology, pairRing Sha1.digest, []⟩ = r := by
    rw [show pair.topology = pairTopology from rfl, ofTopology_pair] at hr
    exact Except.ok.inj hr
  obtain ⟨blocks, hblocks, hread⟩ := hsamples pairSchema List.mem_cons_self "in/s.keys" "out/s.kvs"
    (Utf8.encode "62\n".toList) (pairTree.insert ["out", "s.kvs.tmp"] (.file []))
    (by decide +kernel) (by decide +kernel) (by decide +kernel) (by decide +kernel)
    (by decide +kernel) (by decide +kernel)
  refine ⟨fresh, session, hstart, hrun, ?_⟩
  have hkeys : (KeyFile.read "in/s.keys" (Utf8.encode "62\n".toList)).keys.map Prod.snd =
      [[0x62]] := by decide +kernel
  rw [hkeys] at hblocks
  obtain ⟨text, rest, ⟨nodes, held, hnodes, hheld, htext⟩, hrest, rfl⟩ :=
    List.forall₂_cons_left_iff.1 hblocks
  rw [List.forall₂_nil_left_iff.1 hrest] at hread
  -- the walk of the key meets the second node first
  have hwalk := Resolver.replicas_eq_walk (Resolver.honest_of_ofTopology hr)
    (routable_pair pairSchema List.mem_cons_self) [0x62]
  rw [hwalk, walk_pair] at hnodes
  cases hnodes
  obtain ⟨first, more, hfirst, hmore, rfl⟩ := List.forall₂_cons_left_iff.1 hheld
  obtain ⟨second, nothing, hsecond, hnothing, rfl⟩ := List.forall₂_cons_left_iff.1 hmore
  rw [List.forall₂_nil_left_iff.1 hnothing] at htext
  -- each line has what its own node was written, and not what the other one was
  have hstamps : first = [(pairWrite 1 2 (-3)).write.version.stamp] :=
    hfirst.eq_heldStamps hstart List.mem_cons_self
  have hstamps' : second = [(pairWrite 0 1 7).write.version.stamp] :=
    hsecond.eq_heldStamps hstart List.mem_cons_self
  have hline : replicaLine 0 [0x62] first = "0 : 62\tversion(1:2) ts:-3\t\n" := by
    rw [hstamps, replicaLine, List.map_singleton, toText_pair]
    decide +kernel
  have hline' : replicaLine 1 [0x62] second = "1 : 62\tversion(0:1) ts:7\t\n" := by
    rw [hstamps', replicaLine, List.map_singleton, toText_pair]
    decide +kernel
  have hblock : text = replicaLine 0 [0x62] first ++ replicaLine 1 [0x62] second := by
    rw [htext]
    simp [List.zipIdx_cons]
  rw [hread, hblock, hline, hline']
  decide +kernel

end Session

end ReplicaCensus
