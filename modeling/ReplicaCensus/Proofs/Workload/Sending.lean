import Mathlib
import ReplicaCensus.Proofs.Client.Reading
import ReplicaCensus.Proofs.Cluster.Document
import ReplicaCensus.Proofs.Node.Record
import ReplicaCensus.Proofs.Storage.Siblings
import ReplicaCensus.Workload
/-!
# What a write of the workload does

A write that is sent to a node with an address of its own changes that node alone: its cell takes
the version in the body, with the clock the body names or, if it names none, the clock of a first
write of the node. As long as all clocks count one write, the answer has the clock of the write.
-/

namespace ReplicaCensus

/-! ## 1. The request -/

namespace Workload

/-- The path of a cell. -/
def cellChars (store : String) (hex : List Char) : List Char :=
  '/' :: ("admin".toList ++ '/' :: ("stores".toList ++ '/' :: (store.toList ++ '/' ::
    ("keys".toList ++ '/' :: hex))))

/-- A name whose characters stand for themselves in a URL. -/
def IsUnreserved (name : String) : Prop := ∀ c ∈ name.toList, Percent.isUnreserved c = true

instance (name : String) : Decidable (IsUnreserved name) := List.decidableBAll _ _

theorem IsUnreserved.not_mem {name : String} (h : IsUnreserved name) {c : Char}
    (hc : Percent.isUnreserved c = false) : c ∉ name.toList := by
  intro hmem
  rw [h c hmem] at hc
  cases hc

theorem cellUrl_eq (m : Member) (store : String) (key : Bytes) :
    cellUrl m store key =
      "http://" ++ m.address ++ String.ofList (cellChars store (Hex.encodeChars key)) := by
  apply String.toList_inj.1
  unfold cellUrl cellChars Hex.encode
  simp only [String.toList_append, String.toList_ofList, List.append_assoc]
  rfl

theorem not_mem_cellChars {store : String} (key : Bytes) {c : Char} (hstore : c ∉ store.toList)
    (hc : Percent.isUnreserved c = false) (hslash : c ≠ '/') :
    c ∉ cellChars store (Hex.encodeChars key) := by
  have hword : ∀ name : String, IsUnreserved name → c ∉ name.toList := fun _ h => h.not_mem hc
  have hhex : c ∉ Hex.encodeChars key := by
    intro h
    have hrange := Hex.mem_encodeChars h
    have hdigit : Percent.isUnreserved c = true := by
      simp only [Percent.isUnreserved, Bool.or_eq_true, Bool.and_eq_true, decide_eq_true_eq]
      omega
    rw [hdigit] at hc
    cases hc
  simp only [cellChars, List.mem_cons, List.mem_append, not_or]
  exact ⟨hslash, hword "admin" (by decide), hslash, hword "stores" (by decide), hslash,
    hstore, hslash, hword "keys" (by decide), hslash, hhex⟩

/-- A name that ends nothing in a URL and has no percent sign to be resolved. -/
structure IsWhole (name : String) : Prop where
  noPercent : '%' ∉ name.toList
  noQuery : '?' ∉ name.toList
  noFragment : '#' ∉ name.toList

theorem IsUnreserved.isWhole {name : String} (h : IsUnreserved name) : IsWhole name :=
  ⟨h.not_mem (by decide), h.not_mem (by decide), h.not_mem (by decide)⟩

theorem isPath_cellChars {store : String} (hstore : IsWhole store) (key : Bytes) :
    IsPath (String.ofList (cellChars store (Hex.encodeChars key))) := by
  refine ⟨by rw [String.toList_ofList]; rfl, ?_, ?_⟩
  · rw [String.toList_ofList]
    exact not_mem_cellChars key hstore.noQuery (by decide) (by decide)
  · rw [String.toList_ofList]
    exact not_mem_cellChars key hstore.noFragment (by decide) (by decide)

/-- No character of the path needs its percent sign resolved. -/
theorem unquote?_cellChars {store : String} (hstore : IsWhole store) (key : Bytes) :
    Percent.unquote? (String.ofList (cellChars store (Hex.encodeChars key))) =
      some (String.ofList (cellChars store (Hex.encodeChars key))) := by
  apply Percent.unquote?_eq_self
  rw [String.toList_ofList]
  exact not_mem_cellChars key hstore.noPercent (by decide) (by decide)

theorem ofPath?_cellChars {store : String} (hstore : '/' ∉ store.toList) (hne : store ≠ "")
    {key : Bytes} (hkey : key ≠ []) :
    Route.ofPath? (String.ofList (cellChars store (Hex.encodeChars key))) =
      some (.cell store (Hex.encode key)) := by
  have hsplit : Text.splitAtChar '/' (cellChars store (Hex.encodeChars key)) =
      [[], "admin".toList, "stores".toList, store.toList, "keys".toList, Hex.encodeChars key] := by
    rw [cellChars, ← List.nil_append ('/' :: _), Text.splitAtChar_piece List.not_mem_nil,
      Text.splitAtChar_piece (by decide), Text.splitAtChar_piece (by decide),
      Text.splitAtChar_piece hstore, Text.splitAtChar_piece (by decide),
      Text.splitAtChar_eq_singleton (slash_not_mem_encodeChars key)]
  have hnames : Route.names? (cellChars store (Hex.encodeChars key)) =
      some ["admin", "stores", store, "keys", Hex.encode key] := by
    rw [Route.names?, hsplit]
    simp only [List.map_cons, List.map_nil, String.ofList_toList]
    rfl
  have hempty : Hex.encode key ≠ "" := by
    intro he
    have hlist := congrArg String.toList he
    rw [Hex.encode, String.toList_ofList] at hlist
    exact Hex.encodeChars_ne_nil hkey hlist
  have hcell : Route.cell? ["admin", "stores", store, "keys", Hex.encode key] =
      some (.cell store (Hex.encode key)) := by
    show (if store = "" ∨ Hex.encode key = "" then none else _) = _
    rw [if_neg (not_or.2 ⟨hne, hempty⟩)]
  rw [Route.ofPath?, String.toList_ofList, hnames]
  dsimp only
  rw [hcell]

/-- The clock that a write comes with: none, or that of a first write of some node. -/
def clockJson : Option Int → Json
  | none => noClock
  | some node => Clock.toJson (Clock.once node)

def bodyBytes (value : String) (origin : Option Int) : Bytes :=
  Utf8.encode (Json.valueChars .compact 0 (bodyOf value (clockJson origin)))

theorem ofBytes_bodyBytes (value : String) {origin : Option Int}
    (horigin : ∀ node ∈ origin, Number.IsShort node) :
    WriteBody.ofBytes (bodyBytes value origin) =
      .ok ⟨value, origin.toList.map fun node => (toString node, 1)⟩ := by
  have hplain : (bodyOf value (clockJson origin)).IsPlain Json.maxNesting := by
    have hclock : (clockJson origin).IsPlain (Json.maxNesting - 1) := by
      cases origin with
      | none => exact ⟨trivial, List.nodup_nil⟩
      | some node =>
        refine ⟨⟨?_, trivial⟩, List.nodup_singleton _⟩
        show Number.IsShort 1
        decide
    refine ⟨⟨trivial, hclock, trivial⟩, ?_⟩
    show ["value", "vc"].Nodup
    decide
  have hnonempty : (bodyBytes value origin).isEmpty = false := rfl
  have hread : Json.ofBytes (bodyBytes value origin) = .ok (bodyOf value (clockJson origin)) :=
    Json.ofBytes_encode hplain
  rw [WriteBody.ofBytes, hnonempty, if_neg Bool.false_ne_true, hread]
  dsimp only
  cases origin <;> rfl

/-- A body without a clock brings a first write of the node that gets it. -/
theorem clock?_origin (node : Int) (value : String) {origin : Option Int}
    (horigin : ∀ i ∈ origin, 0 ≤ i ∧ Number.IsShort i) :
    WriteBody.clock? node ⟨value, origin.toList.map fun i => (toString i, 1)⟩ =
      some (Clock.once (origin.getD node)) := by
  cases origin with
  | none => rfl
  | some i =>
    obtain ⟨hi, hshort⟩ := horigin i rfl
    have hentry : WriteBody.entry? (toString i, 1) = some (i, 1) := by
      unfold WriteBody.entry?
      rw [Number.readInteger_toString hshort]
      dsimp only
      rw [if_pos ⟨hi, le_rfl⟩]
    rw [WriteBody.clock?, if_neg (by simp)]
    simp only [Option.toList_some, List.map_cons, List.map_nil, WriteBody.entries?, hentry]
    rfl

/-- The request that a write is sent in. -/
def requestOf (store : String) (key : Bytes) (value : String) (origin : Option Int) (now : Int) :
    Request :=
  ⟨"PUT", String.ofList (cellChars store (Hex.encodeChars key)), bodyBytes value origin, now⟩

/-- The version that a write brings to a node. -/
def versionOf (node : Int) (value : String) (origin : Option Int) (now : Int) : Version :=
  ⟨value, ⟨Clock.once (origin.getD node), now⟩⟩

theorem countsOne_versionOf (node : Int) (value : String) (origin : Option Int) (now : Int) :
    (versionOf node value origin now).CountsOne := ⟨_, rfl⟩

theorem write?_requestOf {store : String} (hstore : IsUnreserved store) (hne : store ≠ "")
    {key : Bytes} (hkey : key ≠ []) (node : Int) (value : String) {origin : Option Int}
    (horigin : ∀ i ∈ origin, 0 ≤ i ∧ Number.IsShort i) (now : Int) :
    (requestOf store key value origin now).write? node =
      some ⟨store, key, versionOf node value origin now⟩ := by
  unfold Request.write? requestOf
  dsimp only
  rw [if_pos rfl, ofPath?_cellChars (hstore.not_mem (by decide)) hne hkey]
  dsimp only
  rw [ofBytes_bodyBytes value fun i hi => (horigin i hi).2, Hex.encode, String.toList_ofList,
    Hex.decodeSpaced?_encodeChars]
  dsimp only
  rw [clock?_origin node value horigin]
  rfl

end Workload

/-! ## 2. The node that is asked -/

namespace RunningCluster

/-- Of nodes with different addresses one is replaced. -/
theorem replaceLast_eq_map {nodes : List (Member × Service)}
    (hnd : (nodes.map fun e => e.1.address).Nodup) (address : String) (service : Service) :
    replaceLast address service nodes =
      nodes.map fun e => if e.1.address = address then (e.1, service) else e := by
  induction nodes with
  | nil => rfl
  | cons e rest ih =>
    rw [List.map_cons, List.nodup_cons] at hnd
    obtain ⟨m, old⟩ := e
    rw [replaceLast, List.map_cons, ih hnd.2]
    by_cases he : m.address = address
    · -- no later node has the address of the first one
      have hother : ∀ e ∈ rest, ¬e.1.address = address := by
        intro e hmem hsame
        apply hnd.1
        show m.address ∈ _
        rw [he, ← hsame]
        exact List.mem_map_of_mem (f := fun e : Member × Service => e.1.address) hmem
      have hlast : (rest.any fun e => e.1.address = address) = false := by
        rw [List.any_eq_false]
        intro e hmem
        simpa using hother e hmem
      have hrest :
          (rest.map fun e => if e.1.address = address then (e.1, service) else e) = rest := by
        rw [List.map_congr_left fun e hmem => if_neg (hother e hmem)]
        exact List.map_id' rest
      rw [hlast, decide_eq_true he, hrest]
      simp [he]
    · rw [decide_eq_false he]
      simp [he]

/-- Nodes that are told apart by their addresses as well as by their ids. -/
structure AreApart (nodes : List (Member × Service)) : Prop where
  ids : (nodes.map fun e => e.1.id).Nodup
  addresses : (nodes.map fun e => e.1.address).Nodup

/-- A node that was asked to write takes the place it had. -/
theorem replaceLast_eq_seed {c : RunningCluster} (hnd : AreApart c.nodes) {e : Member × Service}
    (he : e ∈ c.nodes) {w : Write} {stored : Version} {storage : Storage}
    (hput : e.2.storage.put w.store w.key w.version = .ok (stored, storage)) :
    (⟨replaceLast e.1.address { e.2 with storage := storage } c.nodes⟩ : RunningCluster) =
      c.seed e.1.id w.store w.key w.version := by
  rw [replaceLast_eq_map hnd.addresses, seed]
  congr 1
  apply List.map_congr_left
  intro e' he'
  by_cases hsame : e' = e
  · subst hsame
    rw [if_pos rfl]
    dsimp only
    rw [if_pos rfl, hput]
  · have hid : ¬e'.1.id = e.1.id :=
      fun h => hsame (List.inj_on_of_nodup_map hnd.ids he' he h)
    have haddress : ¬e'.1.address = e.1.address :=
      fun h => hsame (List.inj_on_of_nodup_map hnd.addresses he' he h)
    rw [if_neg haddress]
    dsimp only
    rw [if_neg hid]

theorem node_of_startAll {cluster : ClusterDescription} {members : List Member}
    {nodes : List (Member × Service)} (h : startAll cluster members = .ok nodes) :
    ∀ e ∈ nodes, e.2.node = e.1.id := by
  induction members generalizing nodes with
  | nil =>
    cases h
    exact fun _ he => absurd he List.not_mem_nil
  | cons m rest ih =>
    unfold startAll at h
    split at h
    · cases h
    next service hservice =>
    cases hrest : startAll cluster rest with
    | error e => rw [hrest] at h; cases h
    | ok more =>
      rw [hrest] at h
      cases h
      exact List.forall_mem_cons.2 ⟨(Service.start_node hservice).1, ih hrest⟩

end RunningCluster

/-! ## 3. Sending -/

namespace Workload

/-- A cluster whose nodes have started with empty stores, and that a workload can write to: its
stores are routable, the addresses differ, and they and the names of the stores stand in a URL as
they are. -/
structure IsReady (cluster : ClusterDescription) (fresh : RunningCluster) : Prop where
  start : RunningCluster.start cluster [] = .ok fresh
  sound : cluster.IsSound
  routable : ∀ schema ∈ cluster.schemas, Resolver.routable cluster.topology schema = .ok ()
  addresses : (cluster.topology.members.map Member.address).Nodup
  hosts : ∀ m ∈ cluster.topology.members, IsHost m.address
  names : ∀ schema ∈ cluster.schemas, IsUnreserved schema.name

namespace IsReady

variable {cluster : ClusterDescription} {fresh : RunningCluster}

theorem members_seedAll (h : IsReady cluster fresh) (puts : List Put) :
    (fresh.seedAll puts).nodes.map Prod.fst = cluster.topology.members := by
  rw [RunningCluster.nodes_seedAll, List.map_map,
    ← (RunningCluster.started_of_startCluster h.start).1]
  rfl

theorem areApart_seedAll (h : IsReady cluster fresh) (puts : List Put) :
    RunningCluster.AreApart (fresh.seedAll puts).nodes := by
  have hmembers := h.members_seedAll puts
  constructor
  · show ((fresh.seedAll puts).nodes.map (Member.id ∘ Prod.fst)).Nodup
    rw [← List.map_map, hmembers]
    exact cluster.topology.nodup
  · show ((fresh.seedAll puts).nodes.map (Member.address ∘ Prod.fst)).Nodup
    rw [← List.map_map, hmembers]
    exact h.addresses

/-- The node of a member: it holds what was written to it. -/
theorem exists_node (h : IsReady cluster fresh) (puts : List Put) {m : Member}
    (hm : m ∈ cluster.topology.members) :
    ∃ e ∈ (fresh.seedAll puts).nodes, e.1 = m ∧ e.2.node = m.id ∧
      e.2.storage = (Storage.ofNames (cluster.schemas.map Schema.name)).applyAll
        (RunningCluster.writesTo m.id puts) := by
  obtain ⟨hmembers, hstarted⟩ := RunningCluster.started_of_startCluster h.start
  rw [← hmembers] at hm
  obtain ⟨e, he, rfl⟩ := List.mem_map.1 hm
  have hnode : e.2.node = e.1.id := by
    have hstart := h.start
    unfold RunningCluster.start at hstart
    cases hnodes : RunningCluster.startAll cluster
        (cluster.topology.members.filter fun m => !([] : List Int).contains m.id) with
    | error fault => rw [hnodes] at hstart; cases hstart
    | ok nodes =>
      rw [hnodes] at hstart
      cases hstart
      exact RunningCluster.node_of_startAll hnodes e he
  rw [RunningCluster.nodes_seedAll]
  refine ⟨_, List.mem_map_of_mem he, rfl, hnode, ?_⟩
  rw [← (hstarted e he).storage]
  rfl

end IsReady

theorem seedAll_append_singleton (c : RunningCluster) (puts : List Put) (p : Put) :
    c.seedAll (puts ++ [p]) =
      (c.seedAll puts).seed p.node p.write.store p.write.key p.write.version := by
  simp only [RunningCluster.seedAll, List.foldl_append, List.foldl_cons, List.foldl_nil]

/-- A node that has the store accepts the write. -/
theorem handle_requestOf {service : Service} {node : Int} (hnode : service.node = node)
    {store : String} (hstore : IsUnreserved store) (hne : store ≠ "") {key : Bytes}
    (hkey : key ≠ []) {value : String} {origin : Option Int}
    (horigin : ∀ i ∈ origin, 0 ≤ i ∧ Number.IsShort i) {now : Int} {stored : Version}
    {storage : Storage} (hput : service.storage.put store key (versionOf node value origin now) =
      .ok (stored, storage)) :
    service.handle (requestOf store key value origin now) =
      (.success [("status", .str "ok"), ("node", .int service.node),
        ("stored", stored.stamp.toJson)], { service with storage := storage }) := by
  have hwrite := write?_requestOf hstore hne hkey service.node value horigin now
  rw [hnode] at hwrite
  have h := service.handles_handle (requestOf store key value origin now)
  generalize service.handle (requestOf store key value origin now) = result at h
  obtain ⟨answer, after⟩ := result
  cases h with
  | wrote _ hw hput' =>
    rw [hnode, hwrite] at hw
    cases hw
    rw [hput] at hput'
    cases hput'
    rfl
  | kept _ hunknown =>
    rw [hnode] at hunknown
    rw [Storage.put_of_unknown (hunknown _ hwrite)] at hput
    cases hput

/-- A write reaches its node, is accepted, and is answered with its clock. -/
theorem send_eq {cluster : ClusterDescription} {fresh : RunningCluster}
    (h : IsReady cluster fresh) (s : Setting) {st : State} {puts : List Put}
    (hst : st.cluster = fresh.seedAll puts) (hputs : ∀ p ∈ puts, p.write.version.CountsOne)
    {m : Member} (hm : m ∈ cluster.topology.members) {schema : Schema}
    (hschema : schema ∈ cluster.schemas) {key : Bytes} (hkey : key ≠ []) (value : String)
    {origin : Option Int} (horigin : ∀ i ∈ origin, i ∈ cluster.topology.nodeIds) :
    send s st m schema.name key value (clockJson origin) =
      (.ok (Clock.toJson (Clock.once (origin.getD m.id))),
        { st with
          cluster := fresh.seedAll
            (puts ++ [⟨m.id, schema.name, key, versionOf m.id value origin s.now⟩])
          sent := st.sent ++
            [⟨cellUrl m schema.name key, bodyOf value (clockJson origin), 200⟩] }) := by
  obtain ⟨e, he, rfl, hnode, hstorage⟩ := h.exists_node puts hm
  have hstore := h.names schema hschema
  have hvalid := Schema.noSlash_of_isValidName (h.sound.schemas.each schema hschema).name
  have horigin' : ∀ i ∈ origin, 0 ≤ i ∧ Number.IsShort i := by
    intro i hi
    obtain ⟨m', hm', rfl⟩ := Topology.mem_nodeIds.1 (horigin i hi)
    exact ⟨(h.sound.topology.members m' hm').id, (h.sound.topology.members m' hm').shortId⟩
  have hcounts : ∀ w ∈ RunningCluster.writesTo e.1.id puts, w.version.CountsOne := by
    intro w hw
    obtain ⟨p, hp, rfl⟩ := List.mem_map.1 hw
    exact hputs p (List.mem_filter.1 hp).1
  have hname : schema.name ∈ cluster.schemas.map Schema.name := List.mem_map_of_mem hschema
  obtain ⟨stored, hput, hclock⟩ := @Storage.put_of_countsOne _ _
    ⟨schema.name, key, versionOf e.1.id value origin s.now⟩ hname hcounts (origin.getD e.1.id) rfl
  rw [← hstorage] at hput
  have hhandle := handle_requestOf hnode hstore hvalid.2 hkey horigin' hput
  have hsend : st.cluster.send "PUT" (cellUrl e.1 schema.name key) (bodyBytes value origin) s.now =
      some (.success [("status", .str "ok"), ("node", .int e.2.node),
        ("stored", stored.stamp.toJson)], fresh.seedAll
          (puts ++ [⟨e.1.id, schema.name, key, versionOf e.1.id value origin s.now⟩])) := by
    rw [hst, RunningCluster.send, cellUrl_eq,
      Url.split?_append (h.hosts e.1 hm) (isPath_cellChars hstore.isWhole key)]
    dsimp only
    rw [find?_reverse_address (h.areApart_seedAll puts).addresses he]
    dsimp only
    rw [unquote?_cellChars hstore.isWhole, Option.getD_some]
    unfold requestOf at hhandle
    rw [hhandle]
    dsimp only
    rw [RunningCluster.replaceLast_eq_seed (h.areApart_seedAll puts) he hput,
      seedAll_append_singleton]
  have hstored : storedClock (.success [("status", .str "ok"), ("node", .int e.2.node),
      ("stored", stored.stamp.toJson)]) = Clock.toJson stored.stamp.clock := rfl
  unfold bodyBytes at hsend
  unfold send
  dsimp only
  rw [hsend]
  dsimp only [Answer.success]
  rw [if_neg (by decide)]
  unfold Answer.success at hstored
  rw [hstored, hclock]

end Workload

end ReplicaCensus
