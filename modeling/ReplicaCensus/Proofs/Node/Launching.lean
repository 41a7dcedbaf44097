import Mathlib
import ReplicaCensus.Launch
import ReplicaCensus.Node.Startup
import ReplicaCensus.Proofs.Census.Faithful
import ReplicaCensus.Proofs.Cluster.Dumping
/-!
# Which of the launched nodes come up

The launcher writes down whatever stores it was told of, and the nodes check them when they read the
file. So either all nodes of a cluster come up or none does, and which of the two it is can be told
from the stores, the number of nodes and the name of the file.
-/

namespace ReplicaCensus

/-! ## 1. The arguments of a node -/

namespace NodeOptions

open Command

/-- Whether the nodes take a text for the value of an option. -/
def isValue (text : String) : Prop := classify (nameTable specs) text = .ok .operand

instance (text : String) : Decidable (isValue text) := inferInstanceAs (Decidable (_ = _))

theorem isValue_toString {n : Int} (h : 0 ≤ n) : isValue (toString n) := by
  have hlist : (toString n).toList = Number.digits n.natAbs := by
    rw [Number.toList_toString, if_neg (Int.not_lt.2 h)]
  -- a digit begins the text, and no dash
  have hhead : (toString n).toList.head? ≠ some '-' := by
    intro hdash
    rw [hlist] at hdash
    have hdigit := Number.isAsciiDigit_of_mem (List.mem_of_head? hdash)
    exact absurd hdigit (by decide)
  have hends : toString n ≠ "--" := by
    intro he
    rw [he] at hhead
    exact hhead rfl
  rw [isValue, classify, if_neg hends, if_pos (.inr hhead)]

/-- The arguments by which a node is told its id and its file. -/
def argumentsOf (node : Int) (file : String) : List String :=
  ["--node_id", toString node, "--cluster_file", file]

theorem classify_node_id : classify (nameTable specs) "--node_id" =
    .ok (.option (.mandatory "--node_id" .integer) none) := by
  decide +kernel

theorem classify_cluster_file : classify (nameTable specs) "--cluster_file" =
    .ok (.option (.mandatory "--cluster_file" .text) none) := by
  decide +kernel

theorem parse_argumentsOf {node : Int} (hnode : 0 ≤ node) (hshort : Number.IsShort node)
    {file : String} (hfile : isValue file) :
    parse (argumentsOf node file) = .ok ⟨node, file, none, none, false⟩ := by
  have hclassified : classifyAll (nameTable specs) (argumentsOf node file) =
      .ok [("--node_id", .option (.mandatory "--node_id" .integer) none),
        (toString node, .operand),
        ("--cluster_file", .option (.mandatory "--cluster_file" .text) none),
        (file, .operand)] := by
    simp only [argumentsOf, classifyAll, classify_node_id, classify_cluster_file,
      show classify (nameTable specs) (toString node) = .ok .operand from isValue_toString hnode,
      show classify (nameTable specs) file = .ok .operand from hfile]
    rfl
  have htaken : take [("--node_id", .option (.mandatory "--node_id" .integer) none),
        (toString node, .operand),
        ("--cluster_file", .option (.mandatory "--cluster_file" .text) none),
        (file, .operand)] ⟨[], []⟩ =
      .ok ⟨[("--node_id", .integer node), ("--cluster_file", .text file)], []⟩ := by
    simp only [take, OptionSpec.mandatory, readValue, Number.readInteger_toString hshort]
    rfl
  rw [parse, readOptions, hclassified]
  dsimp only
  rw [htaken]
  rfl

/-- A file whose name is an option, or might be one, is refused. -/
theorem isValue_of_parse {node : Int} (hnode : 0 ≤ node) (hshort : Number.IsShort node)
    {file : String} {o : NodeOptions} (h : parse (argumentsOf node file) = .ok o) :
    isValue file := by
  have hhead : classifyAll (nameTable specs) (argumentsOf node file) =
      (classifyAll (nameTable specs) [file]).map fun rest =>
        ("--node_id", .option (.mandatory "--node_id" .integer) none) ::
          (toString node, .operand) ::
          ("--cluster_file", .option (.mandatory "--cluster_file" .text) none) :: rest := by
    rw [argumentsOf, classifyAll, classify_node_id]
    dsimp only
    rw [classifyAll, show classify (nameTable specs) (toString node) = .ok .operand from
      isValue_toString hnode]
    dsimp only
    rw [classifyAll, classify_cluster_file]
    dsimp only
    cases classifyAll (nameTable specs) [file] <;> rfl
  -- the name stands last, so it is all that could be its option's value
  have hrefused : ∀ kind, kind ≠ .operand →
      (take [("--node_id", .option (.mandatory "--node_id" .integer) none),
        (toString node, .operand),
        ("--cluster_file", .option (.mandatory "--cluster_file" .text) none),
        (file, kind)] ⟨[], []⟩) =
      .error (.usage (.expectedValue (.mandatory "--cluster_file" .text))) := by
    intro kind hkind
    simp only [take, OptionSpec.mandatory, readValue, Number.readInteger_toString hshort]
    cases kind <;> first | rfl | exact absurd rfl hkind
  by_contra hfile
  rw [parse, readOptions, hhead, classifyAll] at h
  cases hkind : classify (nameTable specs) file with
  | error e => rw [hkind] at h; cases h
  | ok kind =>
    have hne : kind ≠ .operand := fun he => hfile (by rw [isValue, hkind, he])
    have hlast : (classifyAll (nameTable specs) [file]) = .ok [(file, kind)] := by
      rw [classifyAll, hkind]
      cases kind <;> rfl
    rw [classifyAll] at hlast
    rw [hlast] at h
    dsimp only [Except.map] at h
    rw [hrefused kind hne] at h
    cases h

end NodeOptions

/-! ## 2. What the launcher does -/

namespace Launch

theorem endsIn_clusterFile (o : LaunchOptions) : FileTree.EndsIn (clusterFile o) fileName := by
  have hplain : FileTree.IsPlain fileName := ⟨by decide, by decide, by decide⟩
  have hname : '/' ∉ fileName.toList := by decide
  have hbare : FileTree.names fileName = [] ++ [fileName] := by decide +kernel
  unfold clusterFile
  split
  · split
    · exact ⟨⟨_, hbare⟩, hplain⟩
    · exact ⟨FileTree.exists_names_join hname _, hplain⟩
  · exact ⟨⟨_, hbare⟩, hplain⟩

/-- A store that was read from an argument has one of the two strategies. -/
theorem isKnownStrategy_of_ofArgument {text : String} {s : Schema}
    (h : Schema.ofArgument text = .ok s) : Schema.isKnownStrategy s.strategy = true := by
  unfold Schema.ofArgument at h
  dsimp only at h
  split at h
  · cases h
    rfl
  split at h
  · cases h
    rfl
  · cases hread : Number.readInteger
      (String.ofList ((Text.cutAt ':' text.toList).2.getD [])) with
    | error fault => rw [hread] at h; cases h
    | ok n =>
      rw [hread] at h
      cases h
      rfl

theorem isKnownStrategy_of_readStores {texts : List String} {schemas : List Schema}
    (h : readStores texts = .ok schemas) :
    ∀ s ∈ schemas, Schema.isKnownStrategy s.strategy = true := by
  induction texts generalizing schemas with
  | nil =>
    cases h
    exact fun _ hs => absurd hs List.not_mem_nil
  | cons text rest ih =>
    rw [readStores] at h
    split at h
    · cases h
    · next s hs =>
      cases hrest : readStores rest with
      | error fault => rw [hrest] at h; cases h
      | ok more =>
        rw [hrest] at h
        cases h
        exact List.forall_mem_cons.2 ⟨isKnownStrategy_of_ofArgument hs, ih hrest⟩

/-- The cluster that is launched has the members and the stores of the options. -/
theorem of_describe {o : LaunchOptions} {cluster : ClusterDescription}
    (h : describe o = .ok cluster) :
    cluster.topology.members = members o ∧ readStores o.stores = .ok cluster.schemas := by
  unfold describe at h
  split at h
  · cases h
  · next schemas hschemas =>
    split at h
    · cases h
    · next t ht =>
      cases h
      exact ⟨(Topology.eq_of_make ht).1, hschemas⟩

theorem id_nonneg {o : LaunchOptions} {m : Member} (h : m ∈ members o) : 0 ≤ m.id := by
  obtain ⟨i, -, rfl⟩ := List.mem_map.1 h
  exact Int.natCast_nonneg i

/-- The processes that are started, each by its arguments. -/
def processes (events : List LaunchEvent) : List (List String) :=
  events.filterMap fun event =>
    match event with
    | .start arguments => some arguments
    | _ => none

theorem processes_startEvents (file : String) (nodes : List Member) :
    processes (nodes.flatMap (startEvents file)) = nodes.map (nodeArguments file) := by
  induction nodes with
  | nil => rfl
  | cons m rest ih =>
    rw [processes] at ih ⊢
    rw [List.flatMap_cons, List.filterMap_append, ih]
    rfl

/-- A cluster as a launch without a fault leaves it: described as the options say, and written to
the cluster file. -/
structure Launched (o : LaunchOptions) (cluster : ClusterDescription) (tree : FileTree) : Prop where
  described : describe o = .ok cluster
  topology : cluster.topology.IsSound
  strategies : ∀ s ∈ cluster.schemas, Schema.isKnownStrategy s.strategy = true
  load : ClusterDescription.load tree (clusterFile o) =
    (ClusterDescription.ofJson cluster.toJson).mapError LoadError.description

theorem launched_of_dump {o : LaunchOptions} {cluster : ClusterDescription}
    (hcluster : describe o = .ok cluster) {tree after : FileTree}
    (hdump : cluster.dump tree (clusterFile o) = .ok after) : Launched o cluster after := by
  obtain ⟨hmembers, hstores⟩ := of_describe hcluster
  have hshort := (ClusterDescription.isShort_of_dump hdump).1
  have hids : ∀ m ∈ cluster.topology.members, 0 ≤ m.id := hmembers ▸ fun m hm => id_nonneg hm
  exact ⟨hcluster,
    ⟨fun m hm => ⟨hids m hm, (hshort.members m hm).1, (hshort.members m hm).2⟩, hshort.vnodes⟩,
    isKnownStrategy_of_readStores hstores,
    ClusterDescription.load_of_dump (endsIn_clusterFile o) hdump⟩

/-- A launch that ends without a fault wrote the cluster file and started one process for each
member. -/
theorem exists_launched {o : LaunchOptions} {interrupts : Int → Bool} {tree : FileTree}
    {launch : Launch} (h : run o interrupts tree = .ok launch) :
    ∃ cluster, Launched o cluster launch.tree ∧
      processes launch.events = cluster.topology.members.map (nodeArguments (clusterFile o)) := by
  unfold run at h
  split at h
  · cases h
  next cluster hcluster =>
  split at h
  · cases h
  next begun hbegun =>
  split at h
  · cases h
  next after hafter =>
  cases h
  refine ⟨cluster, ?_, ?_⟩
  · have htree : (startNodes o interrupts cluster after).tree = after := by
      unfold startNodes
      dsimp only
      split <;> rfl
    rw [htree]
    exact launched_of_dump hcluster hafter
  · -- what comes behind the starts starts nothing
    have hwait : ∀ ids : List Int, processes (ids.map LaunchEvent.wait) = [] := by
      intro ids
      exact List.filterMap_eq_nil_iff.2 (by simp)
    have hterminate : ∀ ids : List Int, processes (ids.map LaunchEvent.terminate) = [] := by
      intro ids
      exact List.filterMap_eq_nil_iff.2 (by simp)
    have happend : ∀ as bs, processes (as ++ bs) = processes as ++ processes bs :=
      fun as bs => List.filterMap_append
    unfold startNodes
    dsimp only
    split <;> simp only [happend, hwait, hterminate, processes_startEvents, List.append_nil]

/-! ## 3. What the nodes do -/

/-- A process comes up as a member: with its arguments and the files that the launcher left, it
serves at the address of the member. -/
def ComesUp (tree : FileTree) (arguments : List String) (m : Member) : Prop :=
  ∃ options startup listener, NodeOptions.parse (arguments.drop 2) = .ok options ∧
    Startup.run options tree = .ok startup ∧ startup.listener = some listener ∧
    listener.service.node = m.id ∧ listener.host = m.host ∧ listener.port = m.port

/-- What the nodes ask of a cluster and of the name of its file. -/
structure Fits (file : String) (cluster : ClusterDescription) : Prop where
  file : NodeOptions.isValue file
  stores : Schema.AreSound cluster.schemas
  factors : ∀ s ∈ cluster.schemas, s.strategy = Schema.consistentRouting →
    s.replicationFactor ≤ cluster.topology.members.length
  ring : ∃ r, Resolver.ofTopology cluster.topology = .ok r

theorem listener_iff {o : NodeOptions} {tree : FileTree} {listener : Listener} :
    (∃ startup, Startup.run o tree = .ok startup ∧ startup.listener = some listener) ↔
      Listener.start o tree = .ok listener := by
  unfold Startup.run
  cases Listener.start o tree with
  | ok found => simp
  | error fault =>
    dsimp only
    by_cases hreported : fault.isReported = true
    · simp [hreported]
    · simp [hreported]

/-- A process that comes up has passed all checks of the nodes. -/
theorem fits_of_comesUp {o : LaunchOptions} {cluster : ClusterDescription} {tree : FileTree}
    (h : Launched o cluster tree) {m : Member} (hm : m ∈ cluster.topology.members)
    (hup : ComesUp tree (nodeArguments (clusterFile o) m) m) : Fits (clusterFile o) cluster := by
  obtain ⟨options, startup, listener, hparse, hstartup, hlistener, -, -, -⟩ := hup
  have hsound := h.topology.members m hm
  have hfile := NodeOptions.isValue_of_parse hsound.id hsound.shortId hparse
  have hoptions := NodeOptions.parse_argumentsOf hsound.id hsound.shortId hfile
  obtain rfl := Except.ok.inj (hoptions.symm.trans hparse)
  have hstart := listener_iff.1 ⟨startup, hstartup, hlistener⟩
  unfold Listener.start at hstart
  rw [h.load] at hstart
  -- the file holds a cluster, which is then the one that was launched
  cases hjson : ClusterDescription.ofJson cluster.toJson with
  | error fault => rw [hjson] at hstart; cases hstart
  | ok read =>
    obtain ⟨hvalid, rfl⟩ := ClusterDescription.ofJson_toJson_eq_ok.1 hjson
    rw [hjson] at hstart
    dsimp only [Except.mapError] at hstart
    rw [Topology.get_of_mem hm] at hstart
    dsimp only at hstart
    cases hservice : Service.start m.id read none with
    | error e => rw [hservice] at hstart; cases hstart
    | ok service =>
      obtain ⟨r, hr, hcheck⟩ := (RunningCluster.started_of_start hservice).resolver
      have hall := (Resolver.checkAll_ok (Resolver.honest_of_ofTopology hr) hcheck).2.2
      rw [(Resolver.of_ofTopology hr).topology] at hall
      refine ⟨hfile, hvalid.schemas.areSound, fun s hs => ?_, r, hr⟩
      exact (Resolver.routable_iff.1 (hall s hs)).2.2

theorem comesUp_of_fits {o : LaunchOptions} {cluster : ClusterDescription} {tree : FileTree}
    (h : Launched o cluster tree) (hfits : Fits (clusterFile o) cluster) {m : Member}
    (hm : m ∈ cluster.topology.members) : ComesUp tree (nodeArguments (clusterFile o) m) m := by
  obtain ⟨r, hr⟩ := hfits.ring
  have hsound := h.topology.members m hm
  have hget := Topology.get_of_mem hm
  have hroutable : ∀ s ∈ cluster.schemas, Resolver.routable cluster.topology s = .ok () :=
    fun s hs => Resolver.routable_iff.2
      ⟨Schema.isKnownStrategy_iff.1 (h.strategies s hs), List.ne_nil_of_mem hm, hfits.factors s hs⟩
  obtain ⟨service, hservice⟩ := RunningCluster.exists_service hr hroutable hm none
  have hnode : service.node = m.id := by
    unfold Service.start at hservice
    rw [hget, hr] at hservice
    dsimp only at hservice
    split at hservice
    · cases hservice
    · cases hservice
      rfl
  -- neither a host nor a port is named, so those of the member count
  have hstart : Listener.start ⟨m.id, clusterFile o, none, none, false⟩ tree =
      .ok ⟨service, m.host, m.port⟩ := by
    unfold Listener.start
    rw [h.load, ClusterDescription.ofJson_toJson h.topology hfits.stores]
    dsimp only [Except.mapError]
    rw [hget]
    dsimp only
    rw [hservice]
    rfl
  obtain ⟨startup, hstartup, hlistener⟩ := listener_iff.2 hstart
  have hparse := NodeOptions.parse_argumentsOf hsound.id hsound.shortId hfits.file
  exact ⟨_, startup, _, hparse, hstartup, hlistener, hnode, rfl, rfl⟩

/-- Of a launch that ends without a fault, every process comes up as its member if the file and the
stores suit the nodes, and no process does if they do not: the name of the file has to be none that
a node takes for an option, and the stores need names of their own that may be file names, positive
replication factors, and no more replicas than there are nodes. -/
theorem comesUp_iff {o : LaunchOptions} {interrupts : Int → Bool} {tree : FileTree}
    {launch : Launch} (hrun : run o interrupts tree = .ok launch) :
    ∃ cluster, describe o = .ok cluster ∧
      processes launch.events = cluster.topology.members.map (nodeArguments (clusterFile o)) ∧
      ∀ m ∈ cluster.topology.members,
        ComesUp launch.tree (nodeArguments (clusterFile o) m) m ↔ Fits (clusterFile o) cluster := by
  obtain ⟨cluster, hlaunched, hprocesses⟩ := exists_launched hrun
  refine ⟨cluster, hlaunched.described, hprocesses, fun m hm => ⟨?_, ?_⟩⟩
  · exact fits_of_comesUp hlaunched hm
  · exact fun hfits => comesUp_of_fits hlaunched hfits hm

/-- Launching needs a cluster that can be described and written, and nothing of the nodes. -/
theorem exists_run {o : LaunchOptions} {cluster : ClusterDescription}
    (hcluster : describe o = .ok cluster) (hdir : o.outputDir = none)
    (hwhole : cluster.toJson.beforeLong .indented 0 = none) (interrupts : Int → Bool) :
    ∃ launch, run o interrupts OrderedMap.empty = .ok launch := by
  have hfile : clusterFile o = fileName := by rw [clusterFile, hdir]
  have hmake : makeDirectory o OrderedMap.empty = (OrderedMap.empty, none) := by
    rw [makeDirectory, hdir]
  have hplace : FileTree.locate OrderedMap.empty fileName = .ok (.free [fileName]) := by
    decide +kernel
  have hdump : ∃ after, cluster.dump OrderedMap.empty (clusterFile o) = .ok after := by
    unfold ClusterDescription.dump FileTree.write
    rw [hfile, hplace, hwhole]
    exact ⟨_, rfl⟩
  obtain ⟨after, hafter⟩ := hdump
  unfold run
  rw [hcluster]
  dsimp only
  rw [hmake]
  dsimp only
  rw [hafter]
  exact ⟨_, rfl⟩

def twoOptions (vnodes : Int) (stores : List String) : LaunchOptions :=
  ⟨2, 60000, vnodes, stores, none⟩

def twoMembers : List Member := [⟨0, "127.0.0.1", 60000⟩, ⟨1, "127.0.0.1", 60001⟩]

/-- A store with two replicas on two nodes. -/
theorem comesUp_iff_two :
    LaunchOptions.parse ["--nodes", "2", "--vnodes_per_node", "1", "--store", "s:2"] =
        .ok (twoOptions 1 ["s:2"]) ∧
      ∃ launch, run (twoOptions 1 ["s:2"]) (fun _ => false) OrderedMap.empty = .ok launch ∧
        processes launch.events = twoMembers.map (nodeArguments fileName) ∧
        ∀ m ∈ twoMembers, ComesUp launch.tree (nodeArguments fileName m) m := by
  refine ⟨by decide +kernel, ?_⟩
  obtain ⟨launch, hrun⟩ := @exists_run (twoOptions 1 ["s:2"])
    ⟨⟨twoMembers, 1, by decide, by decide⟩, [⟨"s", 2, Schema.consistentRouting⟩]⟩ rfl rfl
    (by decide +kernel) (fun _ => false)
  obtain ⟨cluster, hcluster, hprocesses, hall⟩ := comesUp_iff hrun
  obtain rfl : (⟨⟨twoMembers, 1, by decide, by decide⟩, [⟨"s", 2, Schema.consistentRouting⟩]⟩ :
      ClusterDescription) = cluster := Except.ok.inj hcluster
  refine ⟨launch, hrun, hprocesses, fun m hm => (hall m hm).2 ⟨by decide +kernel, ?_, ?_, ?_⟩⟩
  · have hlist : Schema.listOfJson (.arr [(⟨"s", 2, Schema.consistentRouting⟩ : Schema).toJson]) =
        .ok [⟨"s", 2, Schema.consistentRouting⟩] := rfl
    exact Schema.areSound_of_listOfJson hlist
  · decide
  · -- the positions of the two nodes differ
    have hids : (twoMembers.map Member.id).mergeSort (fun a b => a ≤ b) = [0, 1] :=
      List.mergeSort_of_pairwise (by decide)
    have hring : Ring.ofNodes Sha1.digest 1 [0, 1] = .ok (Session.pairRing Sha1.digest) :=
      Session.ofNodes_pair (by decide +kernel)
    unfold Resolver.ofTopology Resolver.make Topology.nodeIds
    dsimp only
    rw [hids, hring]
    exact ⟨_, rfl⟩

/-- The store that is launched if none is named has three replicas. So with two nodes the launcher
ends without a fault, having announced them, and neither comes up. -/
theorem launch_two_by_default :
    LaunchOptions.parse ["--nodes", "2"] =
        .ok (twoOptions Topology.defaultVnodes LaunchOptions.defaultStores) ∧
      ∃ launch, run (twoOptions Topology.defaultVnodes LaunchOptions.defaultStores)
          (fun _ => false) OrderedMap.empty = .ok launch ∧
        processes launch.events = twoMembers.map (nodeArguments fileName) ∧
        ∀ m ∈ twoMembers, ¬ComesUp launch.tree (nodeArguments fileName m) m := by
  refine ⟨by decide +kernel, ?_⟩
  obtain ⟨launch, hrun⟩ := @exists_run (twoOptions Topology.defaultVnodes LaunchOptions.defaultStores)
    ⟨⟨twoMembers, Topology.defaultVnodes, by decide, by decide⟩,
      [⟨"users", 3, Schema.consistentRouting⟩]⟩ rfl rfl (by decide +kernel) (fun _ => false)
  obtain ⟨cluster, hlaunched, hprocesses⟩ := exists_launched hrun
  obtain rfl : (⟨⟨twoMembers, Topology.defaultVnodes, by decide, by decide⟩,
      [⟨"users", 3, Schema.consistentRouting⟩]⟩ : ClusterDescription) = cluster :=
    Except.ok.inj hlaunched.described
  refine ⟨launch, hrun, hprocesses, fun m hm hup => ?_⟩
  have hfactor := (fits_of_comesUp hlaunched hm hup).factors _ List.mem_cons_self rfl
  exact absurd hfactor (by decide)

end Launch

end ReplicaCensus
