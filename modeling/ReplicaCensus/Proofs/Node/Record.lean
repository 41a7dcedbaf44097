import Mathlib
import ReplicaCensus.Proofs.Node.Answers
import ReplicaCensus.Proofs.Node.Seeding
import ReplicaCensus.Proofs.Storage.Accounting
import ReplicaCensus.Proofs.Text.Hex
/-!
# A node is a record of the writes it accepted

Whatever requests a node gets, it holds what a storage holds that took the accepted writes and
nothing else, one after the other. So each key has the versions of these writes that no other is
after, and a reader gets their stamps.
-/

namespace ReplicaCensus

/-! ## 1. The write in a request -/

namespace WriteBody

/-- An entry of a body's clock: no negative node, and no count below one. -/
def entry? (e : String × Int) : Option (Int × Int) :=
  match Number.readInteger e.1 with
  | .ok node => if 0 ≤ node ∧ 1 ≤ e.2 then some (node, e.2) else none
  | .error _ => none

def entries? : List (String × Int) → Option (List (Int × Int))
  | [] => some []
  | e :: rest =>
    match entry? e, entries? rest with
    | some entry, some more => some (entry :: more)
    | _, _ => none

/-- The clock that a write brings: the entries of its body, of two for one node the later count, or
one write of the node itself if the body has none. -/
def clock? (node : Int) (body : WriteBody) : Option Clock :=
  if body.counts = [] then some (OrderedMap.ofList [(node, 1)])
  else (entries? body.counts).map OrderedMap.ofList

theorem toOption_readEntry (e : String × Int) :
    (Clock.readEntry e.1 (.int e.2)).toOption = entry? e := by
  unfold Clock.readEntry entry?
  have hcount : (Json.int e.2).toInteger = .ok e.2 := rfl
  rw [hcount, Json.toInteger]
  cases Number.readInteger e.1 with
  | error fault => rfl
  | ok node =>
    dsimp only
    by_cases h : node < 0 ∨ e.2 < 1
    · rw [if_pos h, if_neg (by omega)]
      rfl
    · rw [if_neg h, if_pos (by omega)]
      rfl

theorem toOption_readMembers (counts : List (String × Int)) (clock : Clock) :
    (Clock.readMembers (counts.map fun e => (e.1, .int e.2)) clock).toOption =
      (entries? counts).map fun entries =>
        entries.foldl (fun m p => m.insert p.1 p.2) clock := by
  -- by induction on the entries, with the clock so far as the accumulator
  induction counts generalizing clock with
  | nil => rfl
  | cons e rest ih =>
    have hentry := toOption_readEntry e
    rw [List.map_cons, Clock.readMembers, entries?, ← hentry]
    cases Clock.readEntry e.1 (.int e.2) with
    | error fault => rfl
    | ok found =>
      dsimp only
      rw [ih]
      cases entries? rest <;> rfl

theorem toOption_clockOf (s : Service) (body : WriteBody) :
    (s.clockOf body).toOption = body.clock? s.node := by
  unfold Service.clockOf clock?
  by_cases h : body.counts = []
  · rw [if_pos h, h]
    rfl
  · rw [if_neg h, if_neg (by rwa [List.isEmpty_iff]), toOption_readMembers]
    rfl

theorem sound_entry {e : String × Int} {entry : Int × Int} (h : entry? e = some entry) :
    0 ≤ entry.1 ∧ 1 ≤ entry.2 := by
  unfold entry? at h
  split at h
  · split at h
    · next hsound => cases h; exact hsound
    · cases h
  · cases h

theorem sound_of_entries? {counts : List (String × Int)} {entries : List (Int × Int)}
    (h : entries? counts = some entries) : ∀ e ∈ entries, 0 ≤ e.1 ∧ 1 ≤ e.2 := by
  induction counts generalizing entries with
  | nil =>
    cases h
    exact fun e he => absurd he List.not_mem_nil
  | cons e rest ih =>
    unfold entries? at h
    split at h
    · next entry more hentry hmore =>
      cases h
      exact List.forall_mem_cons.2 ⟨sound_entry hentry, ih hmore⟩
    · cases h

/-- Only sound entries get into a clock. -/
theorem sound_of_clock? {node : Int} (hnode : 0 ≤ node) {body : WriteBody} {clock : Clock}
    (h : body.clock? node = some clock) : ∀ e ∈ clock.entries, 0 ≤ e.1 ∧ 1 ≤ e.2 := by
  intro e he
  have hget : clock.get? e.1 = some e.2 := OrderedMap.get?_eq_some.2 he
  unfold clock? at h
  split at h
  · cases h
    have hmem := OrderedMap.mem_of_get?_ofList hget
    rw [List.mem_singleton, Prod.mk.injEq] at hmem
    omega
  · obtain ⟨entries, hentries, rfl⟩ := Option.map_eq_some_iff.1 h
    exact sound_of_entries? hentries e (OrderedMap.mem_of_get?_ofList hget)

end WriteBody

/-- What a request would write: the cell that its path names, and the version in its body. -/
def Request.write? (node : Int) (r : Request) : Option Write :=
  if r.method = "PUT" then
    match Route.ofPath? r.path with
    | some (.cell store hex) =>
      match WriteBody.ofBytes r.body, Hex.decodeSpaced? hex.toList with
      | .ok body, some key =>
        (body.clock? node).map fun clock => ⟨store, key, ⟨body.value, ⟨clock, r.now⟩⟩⟩
      | _, _ => none
    | _ => none
  else none

theorem Request.sound_of_write? {node : Int} (hnode : 0 ≤ node) {r : Request} {w : Write}
    (h : r.write? node = some w) : ∀ e ∈ w.version.stamp.clock.entries, 0 ≤ e.1 ∧ 1 ≤ e.2 := by
  unfold write? at h
  split at h
  · split at h
    · split at h
      · obtain ⟨clock, hclock, rfl⟩ := Option.map_eq_some_iff.1 h
        exact WriteBody.sound_of_clock? hnode hclock
      · cases h
    · cases h
  · cases h

/-- A request for the versions of a key, in whatever spelling. -/
structure Request.Reads (r : Request) (store : String) (key : Bytes) : Prop where
  method : r.method = "GET"
  route : ∃ hex, Route.ofPath? r.path = some (.versions store hex) ∧ Hex.Spells key hex.toList

theorem Hex.Spells.noSlash {key : Bytes} {cs : List Char} (h : Hex.Spells key cs) : '/' ∉ cs := by
  have hslash : Hex.digitValue? '/' = none := by decide
  induction h with
  | nil => exact List.not_mem_nil
  | blank hc _ ih =>
    rw [List.mem_cons, not_or]
    refine ⟨?_, ih⟩
    rintro rfl
    exact absurd hc (by decide)
  | @byte b _ x y _ hx hy _ ih =>
    obtain ⟨hhigh, hlow, -⟩ := Hex.byte_halves b
    rw [← Hex.digitValue?_eq_some hhigh] at hx
    rw [← Hex.digitValue?_eq_some hlow] at hy
    rw [List.mem_cons, List.mem_cons, not_or, not_or]
    refine ⟨?_, ?_, ih⟩
    · rintro rfl
      rw [hslash] at hx
      cases hx
    · rintro rfl
      rw [hslash] at hy
      cases hy

/-- Every store whose name may stand in a path can be asked for a key in every spelling of it. -/
theorem Request.reads_versionsChars {store : String} (hs : '/' ∉ store.toList) (hne : store ≠ "")
    {key : Bytes} {hex : List Char} (hhex : Hex.Spells key hex) (hnil : hex ≠ []) (body : Bytes)
    (now : Int) :
    Request.Reads ⟨"GET", String.ofList (versionsChars store hex), body, now⟩ store key := by
  refine ⟨rfl, String.ofList hex, ofPath?_versionsChars hs hne hhex.noSlash hnil, ?_⟩
  rwa [String.toList_ofList]

/-! ## 2. One request -/

theorem Storage.hasStore_of_put_error {s : Storage} {store : String} {key : Bytes} {v : Version}
    {e : UnknownStore} (h : s.put store key v = .error e) : s.hasStore store = false := by
  unfold put at h
  split at h
  · next hnone => rw [hasStore, OrderedMap.contains, hnone]; rfl
  · cases h

namespace Service

/-- What a request does, case by case: it is a write to a store that the node has, and is accepted,
or it leaves the node as it is. -/
inductive Handles (s : Service) (r : Request) : Answer → Service → Prop where
  | wrote {w : Write} {stored : Version} {storage : Storage} (hmethod : r.method = "PUT")
    (hw : r.write? s.node = some w)
    (hput : s.storage.put w.store w.key w.version = .ok (stored, storage)) :
    Handles s r (.success [("status", .str "ok"), ("node", .int s.node),
      ("stored", stored.stamp.toJson)]) { s with storage := storage }
  | kept {answer : Answer} (hanswer : r.method = "PUT" → answer.status ≠ 200)
    (hw : ∀ w, r.write? s.node = some w → s.storage.hasStore w.store = false) :
    Handles s r answer s

theorem Handles.refused {s : Service} {r : Request} {status : Nat} (body : Option Json)
    (hstatus : status ≠ 200) (hw : r.write? s.node = none) : s.Handles r ⟨status, body⟩ s := by
  refine .kept (fun _ => hstatus) fun w h => ?_
  rw [hw] at h
  cases h

theorem handles_put (s : Service) {r : Request} {store hex : String} (hmethod : r.method = "PUT")
    (hroute : Route.ofPath? r.path = some (.cell store hex)) :
    s.Handles r (s.put r store hex).1 (s.put r store hex).2 := by
  -- the write is looked for in the order in which the faults of a request are
  have hwrite : r.write? s.node = match WriteBody.ofBytes r.body, Hex.decodeSpaced? hex.toList with
      | .ok body, some key => (body.clock? s.node).map fun clock =>
        ⟨store, key, ⟨body.value, ⟨clock, r.now⟩⟩⟩
      | _, _ => none := by
    rw [Request.write?, if_pos hmethod, hroute]
  unfold put
  cases hbody : WriteBody.ofBytes r.body with
  | error refusal =>
    rw [hbody] at hwrite
    cases refusal with
    | unreadable => exact .refused _ (show 400 ≠ 200 by decide) hwrite
    | invalid => exact .refused _ (show 422 ≠ 200 by decide) hwrite
  | ok body =>
    rw [hbody] at hwrite
    dsimp only
    cases hkey : Hex.decodeSpaced? hex.toList with
    | none =>
      rw [hkey] at hwrite
      exact .refused _ (show 400 ≠ 200 by decide) hwrite
    | some key =>
      rw [hkey] at hwrite
      dsimp only at hwrite
      rw [← WriteBody.toOption_clockOf] at hwrite
      dsimp only
      cases hclock : s.clockOf body with
      | error fault =>
        rw [hclock] at hwrite
        exact .refused _ (show 400 ≠ 200 by decide) hwrite
      | ok clock =>
        rw [hclock] at hwrite
        dsimp only
        cases hput : s.storage.put store key ⟨body.value, ⟨clock, r.now⟩⟩ with
        | error unknown =>
          refine .kept (fun _ => show 404 ≠ 200 by decide) fun w hw => ?_
          obtain rfl := Option.some.inj (hwrite.symm.trans hw)
          exact Storage.hasStore_of_put_error hput
        | ok found => exact .wrote hmethod hwrite hput

theorem handles_handle (s : Service) (r : Request) :
    s.Handles r (s.handle r).1 (s.handle r).2 := by
  -- only a write to a cell has a write to make
  have hnone : (∀ store hex, r.method = "PUT" → Route.ofPath? r.path ≠ some (.cell store hex)) →
      r.write? s.node = none := by
    intro h
    unfold Request.write?
    split
    · next hmethod =>
      split
      · next store hex hroute => exact absurd hroute (h store hex hmethod)
      · rfl
    · rfl
  unfold handle
  cases hroute : Route.ofPath? r.path with
  | none =>
    refine .refused _ (show 404 ≠ 200 by decide) (hnone fun store hex _ h => ?_)
    rw [hroute] at h
    cases h
  | some route =>
    dsimp only
    by_cases hmethod : r.method = route.method
    · rw [if_neg (not_not.2 hmethod)]
      have hread : route.method = "GET" → ∀ {answer}, s.Handles r answer s := by
        intro hget answer
        rw [hget] at hmethod
        have hput : r.method ≠ "PUT" := by
          rw [hmethod]
          decide
        refine .kept (fun h => absurd h hput) fun w hw => ?_
        rw [hnone fun _ _ h => absurd h hput] at hw
        cases hw
      cases route with
      | cell store hex => exact s.handles_put hmethod hroute
      | ping => exact hread rfl
      | cluster => exact hread rfl
      | stores => exact hread rfl
      | ring => exact hread rfl
      | versions => exact hread rfl
    · rw [if_pos hmethod]
      refine .refused _ (show 405 ≠ 200 by decide) (hnone fun store hex hput h => ?_)
      rw [hroute] at h
      cases h
      exact hmethod hput

/-- Asked for a key in any spelling, a node answers with the stamps it stores. -/
theorem handle_reads (s : Service) {r : Request} {store : String} {key : Bytes}
    (hr : r.Reads store key) {stamps : List Stamp}
    (hstamps : s.storage.stamps store key = .ok stamps) :
    (s.handle r).1 = .success [("versions", .arr (stamps.map Stamp.toJson))] := by
  obtain ⟨hmethod, hex, hroute, hhex⟩ := hr
  have hsame : ¬r.method ≠ (Route.versions store hex).method := not_not.2 hmethod
  rw [handle, hroute]
  dsimp only
  rw [if_neg hsame]
  show s.versions store hex = _
  rw [versions, Hex.decodeSpaced?_eq_some.2 hhex]
  dsimp only
  rw [hstamps]

/-! ## 3. Many requests -/

/-- The node after some requests. -/
def after (s : Service) (requests : List Request) : Service :=
  requests.foldl (fun s r => (s.handle r).2) s

/-- What the requests that were answered with success wrote, in their order. -/
def accepted (s : Service) : List Request → List Write
  | [] => []
  | r :: rest =>
    (if r.method = "PUT" ∧ (s.handle r).1.status = 200 then (r.write? s.node).toList else []) ++
      (s.handle r).2.accepted rest

theorem after_cons (s : Service) (r : Request) (rest : List Request) :
    s.after (r :: rest) = (s.handle r).2.after rest := rfl

theorem node_handle (s : Service) (r : Request) : (s.handle r).2.node = s.node := by
  have h := s.handles_handle r
  generalize s.handle r = result at h
  obtain ⟨answer, s'⟩ := result
  cases h <;> rfl

theorem node_after (s : Service) (requests : List Request) : (s.after requests).node = s.node := by
  induction requests generalizing s with
  | nil => rfl
  | cons r rest ih => rw [after_cons, ih, node_handle]

/-- A request takes what it wrote, if it was accepted, to the storage. -/
theorem storage_handle (s : Service) (r : Request) :
    (s.handle r).2.storage = s.storage.applyAll (s.accepted [r]) := by
  have h := s.handles_handle r
  rw [accepted, accepted, List.append_nil]
  generalize s.handle r = result at h
  obtain ⟨answer, s'⟩ := result
  cases h with
  | @wrote w stored storage hmethod hw hput =>
    rw [if_pos ⟨hmethod, rfl⟩, hw]
    show storage = s.storage.apply w
    rw [Storage.apply, hput]
  | kept h _ =>
    rw [if_neg fun hok => h hok.1 hok.2]
    rfl

/-- A node holds what its storage came to hold by the accepted writes. -/
theorem storage_after (s : Service) (requests : List Request) :
    (s.after requests).storage = s.storage.applyAll (s.accepted requests) := by
  induction requests generalizing s with
  | nil => rfl
  | cons r rest ih =>
    have hhead := s.storage_handle r
    rw [accepted, accepted, List.append_nil] at hhead
    rw [after_cons, ih, hhead, accepted, Storage.applyAll, Storage.applyAll, Storage.applyAll,
      List.foldl_append]

theorem exists_request_of_mem_accepted {s : Service} {requests : List Request} {w : Write}
    (h : w ∈ s.accepted requests) : ∃ r ∈ requests, r.write? s.node = some w := by
  induction requests generalizing s with
  | nil => exact absurd h List.not_mem_nil
  | cons r rest ih =>
    rw [accepted] at h
    rcases List.mem_append.1 h with h | h
    · split at h
      · exact ⟨r, List.mem_cons_self, Option.mem_toList.1 h⟩
      · exact absurd h List.not_mem_nil
    · obtain ⟨r', hr', hw⟩ := ih h
      rw [node_handle] at hw
      exact ⟨r', List.mem_cons_of_mem _ hr', hw⟩

end Service

/-! ## 4. What is recorded -/

namespace Service

theorem start_node {node : Int} {cluster : ClusterDescription} {service : Service}
    (h : Service.start node cluster none = .ok service) :
    service.node = node ∧ service.storage = Storage.ofNames (cluster.schemas.map Schema.name) := by
  refine ⟨?_, (RunningCluster.started_of_start h).storage⟩
  unfold Service.start at h
  split at h
  · cases h
  split at h
  · cases h
  split at h
  · cases h
  cases h
  rfl

/-- A node is a record of the writes it accepted. Whatever requests came before, a request that is
no write answered with success leaves the node as it is; a write answered with success changes one
cell, and the stamp it is answered with is among those a reader of that cell gets next; a reader of
a store that the node has gets, for any spelling of a key, the stamps of the accepted writes to it
that no other is after, of those with one signature the first; and no clock with a negative node or
a count below one is ever stored. -/
theorem after_records {node : Int} (hnode : 0 ≤ node) {cluster : ClusterDescription}
    {service : Service} (hstart : Service.start node cluster none = .ok service)
    (requests : List Request) :
    (∀ r, ¬(r.method = "PUT" ∧ ((service.after requests).handle r).1.status = 200) →
      ((service.after requests).handle r).2 = service.after requests) ∧
    (∀ r, r.method = "PUT" → ((service.after requests).handle r).1.status = 200 →
      ∃ w stored, r.write? node = some w ∧ w.store ∈ cluster.schemas.map Schema.name ∧
        ((service.after requests).handle r).1 = .success [("status", .str "ok"),
          ("node", .int node), ("stored", Stamp.toJson stored)] ∧
        (∀ store key, ¬(w.store = store ∧ w.key = key) →
          ((service.after requests).handle r).2.storage.versions store key =
            (service.after requests).storage.versions store key) ∧
        ∀ get : Request, get.Reads w.store w.key → ∃ stamps : List Stamp,
          (((service.after requests).handle r).2.handle get).1 =
            .success [("versions", .arr (stamps.map Stamp.toJson))] ∧ stored ∈ stamps) ∧
    (∀ get store key, store ∈ cluster.schemas.map Schema.name → Request.Reads get store key →
      ((service.after requests).handle get).1 = .success [("versions", .arr
        (((distinctOn Version.signature
          ((Storage.history (service.accepted requests) store key).filter fun v =>
            (Storage.history (service.accepted requests) store key).all fun w =>
              Clock.compare v.stamp.clock w.stamp.clock ≠ .before)).map Version.stamp).map
                Stamp.toJson))]) ∧
    ∀ store key held, (service.after requests).storage.versions store key = .ok held →
      ∀ v ∈ held, ∀ e ∈ v.stamp.clock.entries, 0 ≤ e.1 ∧ 1 ≤ e.2 := by
  obtain ⟨hid, hfresh⟩ := start_node hstart
  have hstorage := service.storage_after requests
  have hnode' := service.node_after requests
  rw [hfresh] at hstorage
  rw [hid] at hnode'
  have hread : ∀ {s : Service} {writes : List Write} {get : Request} {store : String} {key : Bytes},
      s.storage = (Storage.ofNames (cluster.schemas.map Schema.name)).applyAll writes →
      store ∈ cluster.schemas.map Schema.name → get.Reads store key →
      (s.handle get).1 = .success [("versions",
        .arr ((RunningCluster.heldStamps writes store key).map Stamp.toJson))] := by
    intro s writes get store key hs hstore hget
    refine s.handle_reads hget ?_
    rw [hs]
    exact RunningCluster.stamps_applyAll hstore key writes
  refine ⟨fun r hno => ?_, fun r hmethod hok => ?_, fun get store key hstore hget =>
    hread hstorage hstore hget, fun store key held hheld v hv => ?_⟩
  · have h := (service.after requests).handles_handle r
    generalize (service.after requests).handle r = result at h hno
    obtain ⟨answer, s'⟩ := result
    cases h with
    | wrote hmethod => exact absurd ⟨hmethod, rfl⟩ hno
    | kept => rfl
  · have h := (service.after requests).handles_handle r
    generalize (service.after requests).handle r = result at h hok
    obtain ⟨answer, s'⟩ := result
    cases h with
    | kept hrefused _ => exact absurd hok (hrefused hmethod)
    | @wrote w stored storage _ hw hput =>
      rw [hstorage] at hput
      obtain ⟨hknown, hnext, hmem⟩ := Storage.stored_mem_of_put hput
      rw [hnode'] at hw ⊢
      refine ⟨w, stored.stamp, hw, hknown, rfl, fun store key hne => ?_, fun get hget =>
        ⟨_, hread hnext hknown hget, List.mem_map_of_mem hmem⟩⟩
      show storage.versions store key = _
      rw [hnext, hstorage, Storage.applyAll_append_singleton, Storage.versions_apply_of_ne _ hne]
  · -- what is held was written, and only sound clocks are
    have hknown : store ∈ cluster.schemas.map Schema.name := by
      by_contra hno
      rw [← Storage.hasStore_ofNames, Bool.not_eq_true,
        ← Storage.hasStore_applyAll _ (service.accepted requests), ← hstorage] at hno
      rw [Storage.hasStore, OrderedMap.contains, Option.isSome_eq_false_iff,
        Option.isNone_iff_eq_none] at hno
      rw [Storage.versions, hno] at hheld
      cases hheld
    rw [hstorage, Storage.versions_applyAll hknown] at hheld
    rw [← Except.ok.inj hheld] at hv
    obtain ⟨w, hw, rfl⟩ := List.mem_map.1 (Version.mem_of_mem_maximal hv).1
    obtain ⟨r, -, hr⟩ := exists_request_of_mem_accepted (List.mem_filter.1 hw).1
    rw [hid] at hr
    exact Request.sound_of_write? hnode hr

/-! A cluster of one node, a write without a clock to the key `6a`, and a reader who spells the key
with a capital and a blank. -/

theorem one_le_vnodes : (1 : Int) ≤ 1 := le_rfl

def lone : ClusterDescription :=
  ⟨⟨[⟨0, "a", 1⟩], 1, by decide, one_le_vnodes⟩, [⟨"users", 1, Schema.allRouting⟩]⟩

theorem exists_start_lone : ∃ service, Service.start 0 lone none = .ok service := by
  have hids : lone.topology.nodeIds = [0] := List.mergeSort_singleton _
  have hlabel : Ring.freeLabel Sha1.digest [] (Ring.label 0 0) =
      some (Ring.label 0 0, Sha1.digest (Ring.labelBytes (Ring.label 0 0))) :=
    Ring.freeLabel_of_free rfl
  have hplace : Ring.place Sha1.digest 0 [] 0 =
      .ok [⟨Sha1.digest (Ring.labelBytes (Ring.label 0 0)), Ring.label 0 0, 0⟩] := by
    rw [Ring.place, hlabel]
    rfl
  obtain ⟨r, hr⟩ : ∃ r, Resolver.ofTopology lone.topology = .ok r := by
    have hring : ∃ ring, Ring.ofNodes Sha1.digest 1 [0] = .ok ring := by
      simp [Ring.ofNodes, Ring.addAll, Ring.add, Ring.empty, Ring.placeAll, hplace]
    obtain ⟨ring, hring⟩ := hring
    refine ⟨⟨lone.topology, ring, []⟩, ?_⟩
    have hvnodes : lone.topology.vnodes = 1 := rfl
    rw [Resolver.ofTopology, Resolver.make, hids, hvnodes, hring]
  have hroutable : ∀ s ∈ lone.schemas, Resolver.routable r.topology s = .ok () := by
    intro s hs
    obtain rfl := List.mem_singleton.1 hs
    rw [(Resolver.of_ofTopology hr).topology, Resolver.routable, hids]
    rfl
  obtain ⟨r', hr'⟩ := Resolver.exists_checkAll (Resolver.honest_of_ofTopology hr) hroutable
  rw [Service.start, hr]
  dsimp only
  rw [hr']
  exact ⟨_, rfl⟩

def loneWrite : Request :=
  ⟨"PUT", "/admin/stores/users/keys/6a", Utf8.encode "\x7b\"value\":\"v\"\x7d".toList, 7⟩

def loneRead : Request := ⟨"GET", "/admin/stores/users/keys/6A /versions", [], 8⟩

theorem reads_loneRead : loneRead.Reads "users" [0x6a] := by
  have hpath : loneRead.path = String.ofList (versionsChars "users" "6A ".toList) := by
    decide +kernel
  have hspells : Hex.Spells [0x6a] "6A ".toList := Hex.decodeSpaced?_eq_some.1 (by decide +kernel)
  have hreads : Request.Reads ⟨"GET", String.ofList (versionsChars "users" "6A ".toList), [], 8⟩
      "users" [0x6a] :=
    Request.reads_versionsChars (by decide) (by decide) hspells (by decide) [] 8
  rw [← hpath] at hreads
  exact hreads

theorem after_records_lone :
    ∃ service, Service.start 0 lone none = .ok service ∧
      ((service.after [loneWrite]).handle loneRead).1 =
        .success [("versions", .arr [Stamp.toJson ⟨OrderedMap.ofList [(0, 1)], 7⟩])] := by
  obtain ⟨service, hstart⟩ := exists_start_lone
  obtain ⟨hid, hstorage⟩ := start_node hstart
  have hw : loneWrite.write? 0 =
      some ⟨"users", [0x6a], ⟨"v", ⟨OrderedMap.ofList [(0, 1)], 7⟩⟩⟩ := by
    decide +kernel
  -- the node has the store, so the write is accepted
  have haccepted : service.accepted [loneWrite] =
      [⟨"users", [0x6a], ⟨"v", ⟨OrderedMap.ofList [(0, 1)], 7⟩⟩⟩] := by
    have h := service.handles_handle loneWrite
    rw [accepted, accepted, List.append_nil]
    generalize service.handle loneWrite = result at h
    obtain ⟨answer, s⟩ := result
    cases h with
    | wrote => rw [if_pos ⟨rfl, rfl⟩, hid, hw]; rfl
    | kept _ hunknown =>
      rw [hid, hstorage] at hunknown
      exact absurd (hunknown _ hw) (by decide +kernel)
  obtain ⟨-, -, hread, -⟩ := after_records (by decide) hstart [loneWrite]
  refine ⟨service, hstart, ?_⟩
  rw [hread loneRead "users" [0x6a] (by decide) reads_loneRead, haccepted]
  rfl

end Service

end ReplicaCensus
