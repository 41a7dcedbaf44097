import Mathlib
import ReplicaCensus.Client.Basic
import ReplicaCensus.Proofs.Cluster.Json
import ReplicaCensus.Proofs.Node.Answers
import ReplicaCensus.Proofs.Node.Seeding
/-!
# What a client reads from the nodes

Over a transport that brings the answers of the nodes back unchanged, the client learns the topology
and the stores that the nodes know, and reads from a node the stamps that this node stores.
-/

namespace ReplicaCensus

/-! ## 1. Delivery -/

/-- A path that stands in a URL as it is: it starts with a slash, and a server gets all of it. -/
structure IsPath (path : String) : Prop where
  slash : path.toList.head? = some '/'
  noQuery : '?' ∉ path.toList
  noFragment : '#' ∉ path.toList

/-- A transport that asks the node behind an address at some time, with the percent signs of the
path resolved, and brings its answer back. -/
def Delivers (transport : Transport) (c : RunningCluster) : Prop :=
  ∀ e ∈ c.nodes, ∀ path, IsPath path → ∃ now,
    (transport ("http://" ++ e.1.address ++ path)).result =
      .ok (e.2.handle ⟨"GET", (Percent.unquote? path).getD path, [], now⟩).1.toResponse

/-- A transport that asks one node, whatever path stands behind a base URL. -/
def Reaches (transport : Transport) (base : String) (service : Service) : Prop :=
  ∀ path, IsPath path → ∃ now, (transport (base ++ path)).result =
    .ok (service.handle ⟨"GET", (Percent.unquote? path).getD path, [], now⟩).1.toResponse

theorem Delivers.reaches {transport : Transport} {c : RunningCluster} (h : Delivers transport c)
    {e : Member × Service} (he : e ∈ c.nodes) :
    Reaches transport ("http://" ++ e.1.address) e.2 := h e he

namespace Client

variable {transport : Transport} {base : String} {service : Service}

/-- An answer that is an object with a member gets through. -/
theorem getJson_of_reaches (h : Reaches transport base service) {path request : String}
    (hpath : IsPath path) (hrequest : (Percent.unquote? path).getD path = request)
    {name : String} {value : Json} {more : List (String × Json)}
    (hanswer : ∀ now, (service.handle ⟨"GET", request, [], now⟩).1 =
      ⟨200, some (.obj ((name, value) :: more))⟩)
    (hplain : Json.IsPlain (.obj ((name, value) :: more)) Json.maxNesting) :
    getJson transport (base ++ path) = .ok (.obj ((name, value) :: more)) := by
  obtain ⟨now, hresult⟩ := h path hpath
  rw [hrequest, hanswer] at hresult
  rw [getJson, hresult]
  dsimp only [Answer.toResponse]
  rw [if_neg (by decide), Json.ofBytes_encode hplain]

/-! ## 2. Bootstrap -/

/-- A client learns the topology that the node routes by. -/
theorem getCluster_of_reaches {client : Client} (h : Reaches transport client.base service)
    {t : Topology} (htopology : service.resolver.topology = t) (ht : t.IsSound) :
    client.getCluster transport = .ok t := by
  have hpath : IsPath "/admin/cluster" := ⟨rfl, by decide, by decide⟩
  have hrequest : (Percent.unquote? "/admin/cluster").getD "/admin/cluster" = "/admin/cluster" := by
    rw [Percent.unquote?_eq_self (by decide)]
    rfl
  have hanswer : ∀ now, (service.handle ⟨"GET", "/admin/cluster", [], now⟩).1 =
      ⟨200, some t.toJson⟩ := by
    intro now
    rw [Service.handle_cluster, htopology]
  have hjson : getJson transport (client.base ++ "/admin/cluster") = .ok t.toJson :=
    getJson_of_reaches h hpath hrequest hanswer (Topology.isPlain_toJson ht _)
  rw [getCluster, clusterUrl, hjson]
  dsimp only
  rw [Topology.ofJson_toJson ht]

/-- The object in which a node answers with its stores. -/
def storesJson (schemas : List Schema) : Json :=
  .obj [("stores", .arr (schemas.map Schema.toJson))]

theorem getSchemas_of_reaches {client : Client} (h : Reaches transport client.base service)
    {schemas : List Schema} (hschemas : service.schemas = schemas) (hs : Schema.AreSound schemas)
    (hshort : ∀ s ∈ schemas, Number.IsShort s.replicationFactor) :
    client.getSchemas transport = .ok schemas := by
  have hpath : IsPath "/admin/stores" := ⟨rfl, by decide, by decide⟩
  have hrequest : (Percent.unquote? "/admin/stores").getD "/admin/stores" = "/admin/stores" := by
    rw [Percent.unquote?_eq_self (by decide)]
    rfl
  have hanswer : ∀ now, (service.handle ⟨"GET", "/admin/stores", [], now⟩).1 =
      ⟨200, some (storesJson schemas)⟩ := by
    intro now
    rw [Service.handle_stores, hschemas]
    rfl
  have hjson : getJson transport (client.base ++ "/admin/stores") = .ok (storesJson schemas) :=
    getJson_of_reaches h hpath hrequest hanswer
      (Json.isPlain_list "stores" fun s hs => Schema.isPlain_toJson (hshort s hs) _)
  have hlist : (Json.member? "stores" (storesJson schemas)).getD .null =
      .arr (schemas.map Schema.toJson) := rfl
  unfold storesJson at hjson hlist
  rw [getSchemas, storesUrl, hjson]
  dsimp only
  rw [hlist, Schema.listOfJson_map hs]

variable {c : RunningCluster} {e : Member × Service} {cluster : ClusterDescription}

theorem getCluster_of_delivers (h : Delivers transport c) (he : e ∈ c.nodes)
    (hserves : RunningCluster.Serves cluster e.2) (ht : cluster.topology.IsSound) {client : Client}
    (hbase : client.base = "http://" ++ e.1.address) :
    client.getCluster transport = .ok cluster.topology :=
  getCluster_of_reaches (hbase ▸ h.reaches he) hserves.topology ht

theorem getSchemas_of_delivers (h : Delivers transport c) (he : e ∈ c.nodes)
    (hserves : RunningCluster.Serves cluster e.2) (hs : Schema.AreSound cluster.schemas)
    (hshort : ∀ s ∈ cluster.schemas, Number.IsShort s.replicationFactor) {client : Client}
    (hbase : client.base = "http://" ++ e.1.address) :
    client.getSchemas transport = .ok cluster.schemas :=
  getSchemas_of_reaches (hbase ▸ h.reaches he) hserves.schemas hs hshort

/-! ## 3. The stamps of a key -/

theorem isPath_versionsPath (store : String) (key : Bytes) : IsPath (versionsPath store key) := by
  have hlist := toList_versionsPath store key
  refine ⟨?_, ?_, ?_⟩
  · rw [hlist]
    rfl
  -- neither the quoted name nor the hexadecimal key has a question mark or a hash sign
  · rw [hlist]
    simp only [List.mem_append, not_or]
    refine ⟨by decide, fun hc => ?_, by decide, fun hc => ?_, by decide⟩
    · exact absurd (Percent.isQuoted_of_mem hc) (by decide)
    · exact absurd (Hex.mem_encodeChars hc) (by decide)
  · rw [hlist]
    simp only [List.mem_append, not_or]
    refine ⟨by decide, fun hc => ?_, by decide, fun hc => ?_, by decide⟩
    · exact absurd (Percent.isQuoted_of_mem hc) (by decide)
    · exact absurd (Hex.mem_encodeChars hc) (by decide)

theorem readVersions_map (url : String) {stamps : List Stamp} (h : ∀ s ∈ stamps, s.IsSound) :
    readVersions url (stamps.map Stamp.toJson) = .ok stamps := by
  induction stamps with
  | nil => rfl
  | cons s rest ih =>
    obtain ⟨hs, hrest⟩ := List.forall_mem_cons.1 h
    have hread : readVersion url s.toJson = .ok s := by
      have hvc : (Json.member? "vc" s.toJson).getD (.obj []) = .obj (Clock.toMembers s.clock) := rfl
      have hstamp := Stamp.ofJson_toJson hs
      unfold Stamp.toJson at hvc hstamp ⊢
      unfold readVersion
      rw [hvc]
      dsimp only
      rw [hstamp]
    rw [List.map_cons, readVersions, hread, ih hrest]
    rfl

theorem versionsUrl_of_mem {client : Client} {t : Topology} (ht : client.topology = some t)
    {m : Member} (hm : m ∈ t.members) (store : String) (key : Bytes) :
    client.versionsUrl store m.id key =
      .ok ("http://" ++ m.address ++ versionsPath store key) := by
  rw [versionsUrl, nodeUrl, knownTopology, ht]
  dsimp only
  rw [Topology.get_of_mem hm]
  rfl

/-- A client reads from a node what this node stores. -/
theorem getStamps_of_delivers (h : Delivers transport c) (he : e ∈ c.nodes) {client : Client}
    {t : Topology} (ht : client.topology = some t) (hm : e.1 ∈ t.members) {store : String}
    (hstore : Schema.isValidName store = true) {key : Bytes} (hkey : key ≠ [])
    {stamps : List Stamp} (hstamps : e.2.storage.stamps store key = .ok stamps)
    (hsound : ∀ s ∈ stamps, s.IsSound) :
    (client.getStamps transport store e.1.id key).result = .ok stamps := by
  have hname := Schema.noSlash_of_isValidName hstore
  -- the node gets the name of the store as it is
  have hrequest : (Percent.unquote? (versionsPath store key)).getD (versionsPath store key) =
      String.ofList (plainPath store key) := by
    rw [unquote?_versionsPath]
    rfl
  have hjson := getJson_of_reaches (h.reaches he) (isPath_versionsPath store key) hrequest
    (fun now => e.2.handle_versions hname.1 hname.2 hkey hstamps now)
    (Json.isPlain_list "versions" fun s hs => Stamp.isPlain_toJson (hsound s hs).isShort _)
  rw [getStamps, versionsUrl_of_mem ht hm]
  dsimp only
  rw [hjson]
  exact readVersions_map _ hsound

end Client

/-! ## 4. Faults of a transport -/

namespace ClientError

/-- Whether the transport itself failed. -/
def isTransport : ClientError → Bool
  | transport _ => true
  | _ => false

end ClientError

namespace Client

theorem isTransport_readVersion {url : String} {entry : Json} {e : ClientError}
    (h : readVersion url entry = .error e) : e.isTransport = false := by
  unfold readVersion at h
  split at h
  · split at h
    · cases h
    · cases h
      rfl
    · cases h
      rfl
  · cases h
    rfl

theorem isTransport_readVersions {url : String} {entries : List Json} {e : ClientError}
    (h : readVersions url entries = .error e) : e.isTransport = false := by
  induction entries with
  | nil => cases h
  | cons entry rest ih =>
    unfold readVersions at h
    split at h
    · next e' he =>
      cases h
      exact isTransport_readVersion he
    · cases hrest : readVersions url rest with
      | error e' =>
        rw [hrest] at h
        cases h
        exact ih hrest
      | ok stamps =>
        rw [hrest] at h
        cases h

theorem isTransport_stampsOf {url : String} {body : Json} {e : ClientError}
    (h : stampsOf url body = .error e) : e.isTransport = false := by
  unfold stampsOf at h
  split at h
  · exact isTransport_readVersions h
  · cases h
    rfl

theorem isTransport_getJson {transport : Transport} {url : String} {response : Response}
    (hresult : (transport url).result = .ok response) {e : ClientError}
    (h : getJson transport url = .error e) : e.isTransport = false := by
  rw [getJson, hresult] at h
  dsimp only at h
  split at h
  · cases h
    rfl
  · split at h
    · cases h
      rfl
    · cases h
      rfl
    · cases h

/-- Asking a member never ends with a fault of the transport. -/
theorem isTransport_getStamps {transport : Transport} {c : RunningCluster}
    (hdelivers : Delivers transport c) {client : Client} {t : Topology}
    (ht : client.topology = some t) (hmembers : c.nodes.map Prod.fst = t.members) {store : String}
    {node : Int} {key : Bytes} {e : ClientError}
    (h : (client.getStamps transport store node key).result = .error e) :
    e.isTransport = false := by
  -- a node that is not known is refused before anything is sent
  cases hget : t.get node with
  | error e' =>
    have hnode : client.nodeUrl node = .error (.unknownNode e') := by
      rw [nodeUrl, knownTopology, ht]
      dsimp only
      rw [hget]
    rw [getStamps, versionsUrl, hnode] at h
    cases h
    rfl
  | ok m =>
    have hm : m ∈ t.members := by
      unfold Topology.get at hget
      split at hget
      · next m' hfind =>
        cases hget
        exact List.mem_of_find?_eq_some hfind
      · cases hget
    -- the members are the nodes that are delivered to
    rw [← hmembers] at hm
    obtain ⟨e', he', rfl⟩ := List.mem_map.1 hm
    obtain ⟨now, hresult⟩ := hdelivers e' he' _ (isPath_versionsPath store key)
    have hnode : client.nodeUrl node = .ok ("http://" ++ e'.1.address) := by
      rw [nodeUrl, knownTopology, ht]
      dsimp only
      rw [hget]
    rw [getStamps, versionsUrl, hnode] at h
    dsimp only [Except.map] at h
    cases hjson : getJson transport ("http://" ++ e'.1.address ++ versionsPath store key) with
    | error e'' =>
      rw [hjson] at h
      cases h
      exact isTransport_getJson hresult hjson
    | ok body =>
      rw [hjson] at h
      exact isTransport_stampsOf h

/-- A fault of the transport comes from a reply. -/
theorem result_of_getJson {transport : Transport} {url : String} {f : Failure}
    (h : getJson transport url = .error (.transport f)) : (transport url).result = .error f := by
  unfold getJson at h
  split at h
  · next hresult =>
    cases h
    exact hresult
  · split at h
    · cases h
    · split at h <;> cases h

theorem result_of_getStamps {transport : Transport} {client : Client} {store : String}
    {node : Int} {key : Bytes} {f : Failure}
    (h : (client.getStamps transport store node key).result = .error (.transport f)) :
    ∃ url, (transport url).result = .error f := by
  unfold getStamps at h
  split at h
  · next e hurl =>
    -- without a URL nothing is asked
    cases h
    unfold versionsUrl nodeUrl knownTopology at hurl
    cases ht : client.topology with
    | none =>
      rw [ht] at hurl
      cases hurl
    | some t =>
      rw [ht] at hurl
      dsimp only at hurl
      cases hget : t.get node <;> rw [hget] at hurl <;> cases hurl
  · next url hurl =>
    split at h
    · next e hjson =>
      cases h
      exact ⟨url, result_of_getJson hjson⟩
    · exact absurd (isTransport_stampsOf h) Bool.noConfusion

theorem result_of_getCluster {transport : Transport} {client : Client} {f : Failure}
    (h : client.getCluster transport = .error (.transport f)) :
    ∃ url, (transport url).result = .error f := by
  unfold getCluster at h
  split at h
  · next e hjson =>
    cases h
    exact ⟨_, result_of_getJson hjson⟩
  · split at h <;> cases h

theorem result_of_getSchemas {transport : Transport} {client : Client} {f : Failure}
    (h : client.getSchemas transport = .error (.transport f)) :
    ∃ url, (transport url).result = .error f := by
  unfold getSchemas at h
  split at h
  · next e hjson =>
    cases h
    exact ⟨_, result_of_getJson hjson⟩
  · split at h <;> cases h
  · cases h

theorem result_of_bootstrap {transport : Transport} {client : Client} {f : Failure}
    (h : (client.bootstrap transport).result = .error (.transport f)) :
    ∃ url, (transport url).result = .error f := by
  unfold bootstrap at h
  split at h
  · next e hcluster =>
    cases h
    exact result_of_getCluster hcluster
  · next t hcluster =>
    dsimp only at h
    split at h
    · next e hschemas =>
      cases h
      exact result_of_getSchemas hschemas
    · cases h

/-- The stores that a bootstrap leads to are sound. -/
theorem areSound_of_bootstrap {transport : Transport} {client : Client} {t : Topology}
    {schemas : List Schema} (h : (client.bootstrap transport).result = .ok (t, schemas)) :
    Schema.AreSound schemas := by
  unfold bootstrap at h
  split at h
  · cases h
  · dsimp only at h
    split at h
    · cases h
    · next schemas' hschemas =>
      cases h
      unfold getSchemas at hschemas
      split at hschemas
      · cases hschemas
      · split at hschemas
        · cases hschemas
        · next hlist =>
          cases hschemas
          exact Schema.areSound_of_listOfJson hlist
      · cases hschemas

end Client

/-! ## 5. Nodes in one process -/

/-- An address that stands in a URL as it is. -/
structure IsHost (address : String) : Prop where
  noSlash : '/' ∉ address.toList
  noQuery : '?' ∉ address.toList
  noFragment : '#' ∉ address.toList

theorem Url.split?_append {address path : String} (ha : IsHost address) (hp : IsPath path) :
    Url.split? ("http://" ++ address ++ path) = some (address, path) := by
  have hlist : ("http://" ++ address ++ path).toList =
      "http://".toList ++ (address.toList ++ path.toList) := by
    rw [String.toList_append, String.toList_append, List.append_assoc]
  have hprefix : "http://".toList.isPrefixOf ("http://" ++ address ++ path).toList = true := by
    rw [hlist, List.isPrefixOf_iff_prefix]
    exact List.prefix_append _ _
  obtain ⟨rest, hrest⟩ : ∃ rest, path.toList = '/' :: rest := by
    have hslash := hp.slash
    cases hpath : path.toList with
    | nil => rw [hpath] at hslash; cases hslash
    | cons c rest =>
      rw [hpath, List.head?_cons] at hslash
      exact ⟨rest, by rw [Option.some.inj hslash]⟩
  -- the host ends at the first slash, question mark or hash sign
  have hhost : ∀ c ∈ address.toList, (c ≠ '/' && c ≠ '?' && c ≠ '#') = true := by
    intro c hc
    have hslash : c ≠ '/' := fun he => ha.noSlash (he ▸ hc)
    have hquery : c ≠ '?' := fun he => ha.noQuery (he ▸ hc)
    have hfragment : c ≠ '#' := fun he => ha.noFragment (he ▸ hc)
    simp [hslash, hquery, hfragment]
  have hwhole : ∀ c ∈ path.toList, (c ≠ '?' && c ≠ '#') = true := by
    intro c hc
    have hquery : c ≠ '?' := fun he => hp.noQuery (he ▸ hc)
    have hfragment : c ≠ '#' := fun he => hp.noFragment (he ▸ hc)
    simp [hquery, hfragment]
  have hpath : path.toList.isEmpty = false := by
    rw [hrest]
    rfl
  unfold Url.split?
  dsimp only
  rw [if_pos hprefix, hlist, List.drop_left, List.takeWhile_append_of_pos hhost,
    List.dropWhile_append_of_pos hhost, hrest, List.takeWhile_cons_of_neg (by decide),
    List.dropWhile_cons_of_neg (by decide), ← hrest, List.append_nil,
    List.takeWhile_eq_self_iff.2 hwhole, hpath, if_neg Bool.false_ne_true, String.ofList_toList,
    String.ofList_toList]

theorem find?_reverse_address {nodes : List (Member × Service)}
    (hnd : (nodes.map fun e => e.1.address).Nodup) {e : Member × Service} (he : e ∈ nodes) :
    nodes.reverse.find? (fun e' => e'.1.address = e.1.address) = some e := by
  cases hfind : nodes.reverse.find? (fun e' => e'.1.address = e.1.address) with
  | none =>
    rw [List.find?_eq_none] at hfind
    exact absurd (decide_eq_true rfl) (hfind e (List.mem_reverse.2 he))
  | some e' =>
    -- of two nodes with one address the later one would answer
    have hmem := List.mem_reverse.1 (List.mem_of_find?_eq_some hfind)
    have haddress : e'.1.address = e.1.address := by
      simpa using List.find?_some hfind
    rw [List.inj_on_of_nodup_map hnd hmem he haddress]

/-- Nodes with different addresses are delivered to within one process. -/
theorem RunningCluster.delivers_transport {c : RunningCluster} (now : Int)
    (hnd : (c.nodes.map fun e => e.1.address).Nodup) (hhost : ∀ e ∈ c.nodes, IsHost e.1.address) :
    Delivers (c.transport now) c := by
  intro e he path hpath
  refine ⟨now, ?_⟩
  rw [RunningCluster.transport, RunningCluster.send, Url.split?_append (hhost e he) hpath]
  dsimp only
  rw [find?_reverse_address hnd he]

end ReplicaCensus
