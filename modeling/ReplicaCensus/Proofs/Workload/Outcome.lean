import Mathlib
import ReplicaCensus.Proofs.Workload.Writing
/-!
# What a workload leaves

No two clocks of a workload are ordered, so no node drops what was put there: after a run that ends
without a fault, the nodes hold exactly what was posted to them. And the key files can be read, and
list keys that their masters have.
-/

namespace ReplicaCensus.Workload

/-! ## 1. Key files -/

/-- Whether a sample of different keys always has different ones of them. -/
def Draws.SamplesKeys (d : Draws) : Prop :=
  ∀ (count : Int) (keys sample : List Bytes), keys.Nodup → d.sample count keys = some sample →
    sample.Nodup ∧ ∀ key ∈ sample, key ∈ keys

theorem samplesKeys_lastFirst (integers ranks : List Int) (rolls : List Double) :
    Draws.SamplesKeys ⟨integers, rolls, ranks, lastFirst⟩ := by
  intro count keys sample hnd h
  replace h : lastFirst count keys = some sample := h
  unfold lastFirst at h
  split at h
  · cases h
    exact ⟨(List.nodup_reverse.2 hnd).sublist (List.take_sublist _ _),
      fun key hkey => List.mem_reverse.1 (List.mem_of_mem_take hkey)⟩
  · cases h

theorem sampleOf_spec {d : Draws} (hd : d.SamplesKeys) {count : Int} {keys sample : List Bytes}
    (hnd : keys.Nodup) (h : sampleOf d count keys = some sample) :
    sample.Nodup ∧ ∀ key ∈ sample, key ∈ keys := by
  unfold sampleOf at h
  split at h
  · cases h
    exact ⟨hnd, fun _ hkey => hkey⟩
  · exact hd count keys sample hnd h

def keysName (store : String) : String := store ++ ".keys"

theorem endsIn_keysPath (o : WorkloadOptions) {store : String} (h : '/' ∉ store.toList) :
    FileTree.EndsIn (keysPath o store) (keysName store) := by
  have hslash : '/' ∉ (keysName store).toList := by
    rw [keysName, String.toList_append, List.mem_append, not_or]
    exact ⟨h, by decide⟩
  exact ⟨FileTree.exists_names_join hslash o.keysDir, FileTree.isPlain_append (by decide)⟩

theorem keysName_injective {a b : String} (h : keysName a = keysName b) : a = b :=
  String.append_left_inj _ |>.1 h

/-- The key files of other stores are not touched. -/
theorem read_writeStores {path name : String} (hpath : FileTree.EndsIn path name)
    {content : Bytes} {s : Setting} {schemas : List Schema}
    (hother : ∀ schema ∈ schemas, '/' ∉ schema.name.toList ∧ name ≠ keysName schema.name)
    {lines : List String} {tree : FileTree} {st : State} (hread : tree.read path = .ok content) :
    (writeStores s schemas lines tree st).tree.read path = .ok content := by
  induction schemas generalizing lines tree st with
  | nil => exact hread
  | cons schema rest ih =>
    obtain ⟨⟨hslash, hne⟩, hrest⟩ := List.forall_mem_cons.1 hother
    rw [writeStores]
    split
    · exact hread
    · split
      · exact hread
      · dsimp only
        split
        · exact hread
        · next hwrite =>
          exact ih hrest (hpath.read_write_of_ne (endsIn_keysPath _ hslash) hne hwrite hread)

/-! ## 2. All stores -/

/-- The writes to a store: as many as were asked for, and the key file lists keys of theirs. -/
structure IsFiled (s : Setting) (tree : FileTree) (written : List Written) (schema : Schema) :
    Prop where
  count : (written.filter fun w => w.store = schema.name).length = s.options.writes.toNat
  file : ∃ keys, tree.read (keysPath s.options schema.name) =
      .ok (Utf8.encode (keyFileOf keys).toList) ∧ keys.Nodup ∧
    ∀ key ∈ keys, key ≠ [] ∧ ∃ w ∈ written, w.store = schema.name ∧ w.key = key

theorem filter_store_eq_nil {written : List Written} {store : String}
    (h : ∀ w ∈ written, w.store ≠ store) : written.filter (fun w => w.store = store) = [] := by
  rw [List.filter_eq_nil_iff]
  exact fun w hw hstore => h w hw (of_decide_eq_true hstore)

/-- Writes to other stores make no difference. -/
theorem IsFiled.append_left {s : Setting} {tree : FileTree} {mine more : List Written}
    {schema : Schema} (h : IsFiled s tree more schema) (hne : ∀ w ∈ mine, w.store ≠ schema.name) :
    IsFiled s tree (mine ++ more) schema := by
  obtain ⟨keys, hread, hnd, hkeys⟩ := h.file
  refine ⟨?_, keys, hread, hnd, fun key hkey => ?_⟩
  · rw [List.filter_append, filter_store_eq_nil hne, List.nil_append, h.count]
  · obtain ⟨hkey, w, hw, hto⟩ := hkeys key hkey
    exact ⟨hkey, w, List.mem_append_right _ hw, hto⟩

/-- The writes to a store and its key file stay as they are while the other stores follow. -/
theorem isFiled_first {r : Resolver} {s : Setting} (hsamples : s.draws.SamplesKeys)
    {schema : Schema} (hslash : '/' ∉ schema.name.toList) {mine more : List Written}
    (hlength : mine.length = s.options.writes.toNat)
    (hmine : ∀ w ∈ mine, w.key ≠ [] ∧ IsWriteTo r s schema w) {keys : List Bytes}
    (hkeys : keys = (mine.map Written.key).eraseDups) {sample : List Bytes}
    (hdrawn : sampleOf s.draws s.options.sample keys = some sample)
    (hmore : ∀ w ∈ more, w.store ≠ schema.name) {rest : List Schema}
    (hrest : ∀ other ∈ rest, '/' ∉ other.name.toList ∧ other.name ≠ schema.name)
    {tree tree₁ : FileTree} (hwrite : tree.write (keysPath s.options schema.name)
      (Utf8.encode (keyFileOf sample).toList) = .ok tree₁)
    {lines : List String} {st : State} :
    IsFiled s (writeStores s rest lines tree₁ st).tree (mine ++ more) schema := by
  have hall : mine.filter (fun w => w.store = schema.name) = mine :=
    List.filter_eq_self.2 fun w hw => decide_eq_true (hmine w hw).2.store
  have hdistinct : keys.Nodup := by
    rw [hkeys, eraseDups_eq_distinctOn, ← List.map_id (distinctOn id _)]
    exact nodup_map_distinctOn id _
  have hpath := endsIn_keysPath s.options hslash
  obtain ⟨hsample, hsampled⟩ := sampleOf_spec hsamples hdistinct hdrawn
  refine ⟨?_, _, ?_, hsample, fun key hkey => ?_⟩
  · rw [List.filter_append, hall, filter_store_eq_nil hmore, List.append_nil, hlength]
  · exact read_writeStores hpath (fun other hother => ⟨(hrest other hother).1,
      fun hname => (hrest other hother).2 (keysName_injective hname).symm⟩)
      (hpath.read_write hwrite)
  · have hmem := hsampled key hkey
    rw [hkeys, List.mem_eraseDups] at hmem
    obtain ⟨w, hw, rfl⟩ := List.mem_map.1 hmem
    exact ⟨(hmine w hw).1, w, List.mem_append_left _ hw, (hmine w hw).2.store, rfl⟩

section

variable {cluster : ClusterDescription} {fresh : RunningCluster} (h : IsReady cluster fresh)
  {r : Resolver} (hr : Resolver.ofTopology cluster.topology = .ok r) {s : Setting}

include h hr

theorem writeStores_leaves (hsamples : s.draws.SamplesKeys) {schemas : List Schema}
    (hschemas : ∀ schema ∈ schemas, schema ∈ cluster.schemas)
    (hnd : (schemas.map Schema.name).Nodup) {lines : List String} {tree : FileTree} {st : State}
    (hfault : (writeStores s schemas lines tree st).fault = none) {posts : List Post}
    (hst : Reached cluster fresh r s.now posts st) :
    ∃ more : List Written,
      Leaves cluster fresh s.now (posts ++ more.flatMap Written.posts)
        (writeStores s schemas lines tree st).cluster (writeStores s schemas lines tree st).sent ∧
      (∀ w ∈ more, ∃ schema ∈ schemas, IsWriteTo r s schema w) ∧
      ∀ schema ∈ schemas, IsFiled s (writeStores s schemas lines tree st).tree more schema := by
  induction schemas generalizing lines tree st posts with
  | nil =>
    refine ⟨[], ?_, fun _ hw => absurd hw List.not_mem_nil, fun _ hs => absurd hs List.not_mem_nil⟩
    rw [List.flatMap_nil, List.append_nil]
    exact hst.leaves
  | cons schema rest ih =>
    obtain ⟨hschema, hrest⟩ := List.forall_mem_cons.1 hschemas
    rw [List.map_cons, List.nodup_cons] at hnd
    have hslash : ∀ s ∈ cluster.schemas, '/' ∉ s.name.toList := fun s hs =>
      (Schema.noSlash_of_isValidName (h.sound.schemas.each s hs).name).1
    cases hkeys : writeKeys s schema s.options.writes.toNat [] st with
    | mk result st₁ =>
    cases result with
    | error fault =>
      rw [writeStores, hkeys] at hfault
      cases hfault
    | ok keys =>
    cases hdrawn : sampleOf s.draws s.options.sample keys with
    | none =>
      rw [writeStores, hkeys] at hfault
      dsimp only at hfault
      rw [hdrawn] at hfault
      cases hfault
    | some sample =>
    cases hwrite : tree.write (keysPath s.options schema.name)
        (Utf8.encode (keyFileOf sample).toList) with
    | error e =>
      rw [writeStores, hkeys] at hfault
      dsimp only at hfault
      rw [hdrawn] at hfault
      dsimp only at hfault
      rw [hwrite] at hfault
      cases hfault
    | ok tree₁ =>
    have hnext : writeStores s (schema :: rest) lines tree st = writeStores s rest
        (lines ++ [storeLine s.options schema.name sample.length]) tree₁ st₁ := by
      rw [writeStores, hkeys]
      dsimp only
      rw [hdrawn]
      dsimp only
      rw [hwrite]
    obtain ⟨mine, hlength, hmine, hwritten, hst₁⟩ :=
      @writeKeys_reached _ _ h _ hr _ _ _ _ hschema _ [] _ _ hkeys hst
    rw [hnext] at hfault ⊢
    obtain ⟨more, hleaves, hmore, hfiled⟩ := ih hrest hnd.2 hfault hst₁
    refine ⟨mine ++ more, ?_, fun w hw => ?_, fun schema' hschema' => ?_⟩
    · rw [List.flatMap_append, ← List.append_assoc]
      exact hleaves
    · rcases List.mem_append.1 hw with hw | hw
      · exact ⟨schema, List.mem_cons_self, (hmine w hw).2⟩
      · obtain ⟨schema', hschema', hto⟩ := hmore w hw
        exact ⟨schema', List.mem_cons_of_mem _ hschema', hto⟩
    · rcases List.mem_cons.1 hschema' with rfl | hschema'
      · have hothers : ∀ schema ∈ rest, '/' ∉ schema.name.toList ∧ schema.name ≠ schema'.name :=
          fun other hother => ⟨hslash other (hrest other hother),
            fun hname => hnd.1 (hname ▸ List.mem_map_of_mem hother)⟩
        refine isFiled_first hsamples (hslash schema' hschema) hlength hmine hwritten
          hdrawn (fun w hw => ?_) hothers hwrite
        obtain ⟨other, hother, hto⟩ := hmore w hw
        rw [hto.store]
        exact (hothers other hother).2
      · apply (hfiled schema' hschema').append_left
        intro w hw hstore
        rw [(hmine w hw).2.store] at hstore
        exact hnd.1 (hstore ▸ List.mem_map_of_mem hschema')

end

/-! ## 3. What the nodes hold -/

/-- What a node holds for a key: values with the entries of their clocks, in this order. -/
def Holds (c : RunningCluster) (node : Int) (store : String) (key : Bytes)
    (pairs : List (String × List (Int × Int))) : Prop :=
  ∃ e ∈ c.nodes, e.1.id = node ∧
    ∃ held, e.2.storage.versions store key = .ok held ∧ held.map Version.signature = pairs

/-- What was put at a node for a key, one time for each post. -/
def pairsAt (posts : List Post) (node : Int) (store : String) (key : Bytes) :
    List (String × List (Int × Int)) :=
  (posts.filter fun p => p.node = node ∧ p.store = store ∧ p.key = key).map Post.pair

theorem signature_put (now : Int) (p : Post) : (p.put now).write.version.signature = p.pair := by
  rw [Version.signature]
  show (p.value, Clock.sorted (Clock.once (p.origin.getD p.node))) = _
  rw [Clock.sorted_once]
  rfl

theorem signatures_history (posts : List Post) (now node : Int) (store : String) (key : Bytes) :
    (Storage.history (RunningCluster.writesTo node (posts.map (Post.put now))) store key).map
      Version.signature = pairsAt posts node store key := by
  have hpair : Version.signature ∘ Write.version ∘ Put.write ∘ Post.put now = Post.pair :=
    funext (signature_put now)
  simp only [Storage.history, RunningCluster.writesTo, pairsAt, List.filter_map, List.map_map,
    List.filter_filter]
  rw [hpair]
  congr 1
  apply List.filter_congr
  intro p _
  show (decide ((p.put now).write.store = store ∧ (p.put now).write.key = key) &&
    decide ((p.put now).node = node)) = _
  rw [Bool.eq_iff_iff, Bool.and_eq_true, decide_eq_true_eq, decide_eq_true_eq, decide_eq_true_eq]
  exact and_comm

/-- No node drops anything that was put there. -/
theorem holds_seedAll {cluster : ClusterDescription} {fresh : RunningCluster}
    (h : IsReady cluster fresh) {m : Member} (hm : m ∈ cluster.topology.members) {schema : Schema}
    (hschema : schema ∈ cluster.schemas) (key : Bytes) (now : Int) (posts : List Post) :
    Holds (fresh.seedAll (posts.map (Post.put now))) m.id schema.name key
      (pairsAt posts m.id schema.name key).eraseDups := by
  obtain ⟨e, he, rfl, -, hstorage⟩ := h.exists_node (posts.map (Post.put now)) hm
  have hname : schema.name ∈ cluster.schemas.map Schema.name := List.mem_map_of_mem hschema
  have hcounts : ∀ w ∈ RunningCluster.writesTo e.1.id (posts.map (Post.put now)),
      w.version.CountsOne := by
    intro w hw
    obtain ⟨put, hput, rfl⟩ := List.mem_map.1 hw
    obtain ⟨p, -, rfl⟩ := List.mem_map.1 (List.mem_filter.1 hput).1
    exact countsOne_versionOf _ _ _ _
  obtain ⟨held, hheld, hsignatures⟩ := Storage.signatures_of_countsOne hname hcounts
  rw [← hstorage] at hheld
  rw [signatures_history] at hsignatures
  exact ⟨e, he, rfl, held, hheld, hsignatures⟩

/-! ## 4. What was put where -/

theorem pairsAt_append (posts more : List Post) (node : Int) (store : String) (key : Bytes) :
    pairsAt (posts ++ more) node store key =
      pairsAt posts node store key ++ pairsAt more node store key := by
  rw [pairsAt, List.filter_append, List.map_append]
  rfl

namespace Written

variable {w : Written} {node : Int}

/-- A post of a write to another replica goes there, and counts a write of the master or of the
replica. -/
structure IsCopy (w : Written) (c : Int × Copy) (p : Post) : Prop where
  node : p.node = c.1
  store : p.store = w.store
  key : p.key = w.key
  clock : p.origin.getD p.node = w.master ∨ p.origin.getD p.node = p.node

theorem isCopy_of_copyPost? {c : Int × Copy} {p : Post} (h : w.copyPost? c = some p) :
    w.IsCopy c p := by
  obtain ⟨id, copy⟩ := c
  cases copy with
  | missed => cases h
  | diverged =>
    cases h
    exact ⟨rfl, rfl, rfl, .inr rfl⟩
  | taken =>
    cases h
    exact ⟨rfl, rfl, rfl, .inl rfl⟩

/-- A post of a write goes to the cell of the write, at one of its replicas. -/
theorem of_mem_posts {p : Post} (h : p ∈ w.posts) :
    p.store = w.store ∧ p.key = w.key ∧ p.node ∈ w.master :: w.copies.map Prod.fst ∧
      (p.origin.getD p.node = w.master ∨ p.origin.getD p.node = p.node) := by
  rcases List.mem_cons.1 h with rfl | h
  · exact ⟨rfl, rfl, List.mem_cons_self, .inl rfl⟩
  · obtain ⟨c, hc, hp⟩ := List.mem_filterMap.1 h
    have hcopy := isCopy_of_copyPost? hp
    refine ⟨hcopy.store, hcopy.key, ?_, hcopy.clock⟩
    rw [hcopy.node]
    exact List.mem_cons_of_mem _ (List.mem_map_of_mem hc)

theorem pairsAt_posts_of_ne {store : String} {key : Bytes} (h : ¬(w.store = store ∧ w.key = key)) :
    pairsAt w.posts node store key = [] := by
  rw [pairsAt, List.map_eq_nil_iff, List.filter_eq_nil_iff]
  intro p hp hcell
  obtain ⟨hstore, hkey, -⟩ := of_mem_posts hp
  obtain ⟨-, hstore', hkey'⟩ := of_decide_eq_true hcell
  exact h ⟨hstore ▸ hstore', hkey ▸ hkey'⟩

theorem pairsAt_posts_of_not_mem (h : node ∉ w.master :: w.copies.map Prod.fst) :
    pairsAt w.posts node w.store w.key = [] := by
  rw [pairsAt, List.map_eq_nil_iff, List.filter_eq_nil_iff]
  intro p hp hcell
  have hnode := (of_mem_posts hp).2.2.1
  rw [(of_decide_eq_true hcell).1] at hnode
  exact h hnode

/-- At its master a write puts its value, once. -/
theorem pairsAt_posts_master (hnd : (w.master :: w.copies.map Prod.fst).Nodup) :
    pairsAt w.posts w.master w.store w.key = [(w.value, [(w.master, 1)])] := by
  have hothers : (w.copies.filterMap w.copyPost?).filter
      (fun p => p.node = w.master ∧ p.store = w.store ∧ p.key = w.key) = [] := by
    rw [List.filter_eq_nil_iff]
    intro p hp hcell
    obtain ⟨c, hc, hcopy⟩ := List.mem_filterMap.1 hp
    have hnode := (isCopy_of_copyPost? hcopy).node
    rw [(of_decide_eq_true hcell).1] at hnode
    exact (List.nodup_cons.1 hnd).1 (hnode ▸ List.mem_map_of_mem hc)
  rw [pairsAt, posts, List.filter_cons_of_pos (by simp), hothers]
  rfl

/-- If all replicas take it, a write puts at each what it puts at the master. -/
theorem pairsAt_posts_taken (hnd : (w.master :: w.copies.map Prod.fst).Nodup)
    (htaken : ∀ c ∈ w.copies, c.2 = .taken) (hnode : node ∈ w.copies.map Prod.fst) :
    pairsAt w.posts node w.store w.key = [(w.value, [(w.master, 1)])] := by
  obtain ⟨hmaster, hcopies⟩ := List.nodup_cons.1 hnd
  have hposts : w.copies.filterMap w.copyPost? =
      (w.copies.map Prod.fst).map fun id => ⟨id, w.store, w.key, w.value, some w.master⟩ := by
    rw [List.map_map, ← List.filterMap_eq_map]
    apply List.filterMap_congr
    rintro ⟨id, copy⟩ hc
    obtain rfl := htaken _ hc
    rfl
  have hone : (w.copies.map Prod.fst).filter (fun id => id = node) = [node] := by
    rw [List.filter_eq, List.count_eq_one_of_mem hcopies hnode]
    rfl
  have hne : ¬w.master = node := fun he => hmaster (he ▸ hnode)
  rw [pairsAt, posts, hposts, List.filter_cons_of_neg (by simp [hne]), List.filter_map]
  simp only [Function.comp_def, and_true]
  rw [hone]
  rfl

end Written

/-- The writes to a key. -/
def writesOf (written : List Written) (store : String) (key : Bytes) : List Written :=
  written.filter fun w => w.store = store ∧ w.key = key

theorem pairsAt_flatMap_posts (written : List Written) (node : Int) (store : String)
    (key : Bytes) :
    pairsAt (written.flatMap Written.posts) node store key =
      (writesOf written store key).flatMap fun w => pairsAt w.posts node w.store w.key := by
  induction written with
  | nil => rfl
  | cons w rest ih =>
    rw [List.flatMap_cons, pairsAt_append, ih]
    unfold writesOf
    by_cases hcell : w.store = store ∧ w.key = key
    · rw [List.filter_cons_of_pos (by simpa using hcell), List.flatMap_cons, hcell.1, hcell.2]
    · rw [List.filter_cons_of_neg (by simpa using hcell), Written.pairsAt_posts_of_ne hcell,
        List.nil_append]

/-- If each write to a key puts one pair at a node, these are what is put there. -/
theorem pairsAt_eq_map {written : List Written} {node : Int} {store : String} {key : Bytes}
    {f : Written → String × List (Int × Int)}
    (h : ∀ w ∈ writesOf written store key, pairsAt w.posts node w.store w.key = [f w]) :
    pairsAt (written.flatMap Written.posts) node store key =
      (writesOf written store key).map f := by
  rw [pairsAt_flatMap_posts, List.map_eq_flatMap]
  exact List.flatMap_congr h

/-- The values written to a key, each once, with the clock of a first write of its master. -/
def pairsWritten (written : List Written) (store : String) (key : Bytes) (master : Int) :
    List (String × List (Int × Int)) :=
  ((writesOf written store key).map fun w => (w.value, [(master, 1)])).eraseDups

theorem pairsWritten_ne_nil {written : List Written} {w : Written} (hw : w ∈ written)
    {store : String} (hstore : w.store = store) {key : Bytes} (hkey : w.key = key) (master : Int) :
    pairsWritten written store key master ≠ [] := by
  have hto : w ∈ writesOf written store key :=
    List.mem_filter.2 ⟨hw, decide_eq_true ⟨hstore, hkey⟩⟩
  exact List.ne_nil_of_mem (List.mem_eraseDups.2 (List.mem_map_of_mem hto))

/-! ## 5. The whole run -/

/-- What the nodes hold for a key after some writes. -/
structure Keeps (c : RunningCluster) (t : Topology) (written : List Written) (store : String)
    (key : Bytes) (master : Int) (others : List Int) : Prop where
  /-- The master has each value that was written, with the clock of a first write of its own. -/
  atMaster : Holds c master store key (pairsWritten written store key master)
  elsewhere : ∀ node ∈ others, Holds c node store key
    (pairsAt (written.flatMap Written.posts) node store key).eraseDups
  clocks : ∀ node ∈ others, ∀ pair ∈ pairsAt (written.flatMap Written.posts) node store key,
    pair.2 = [(master, 1)] ∨ pair.2 = [(node, 1)]
  nothing : ∀ m ∈ t.members, m.id ∉ master :: others → Holds c m.id store key []

/-- Whether a key file can be read, and lists different keys that their masters have. -/
structure IsSampleable (c : RunningCluster) (r : Resolver) (schema : Schema) (file : KeyFile) :
    Prop where
  fault : file.fault = none
  nodup : (file.keys.map Prod.snd).Nodup
  held : ∀ key ∈ file.keys.map Prod.snd, ∃ master others pairs,
    r.replicas schema key = .ok (master :: others) ∧
      Holds c master schema.name key pairs ∧ pairs ≠ []

section

variable {cluster : ClusterDescription} {fresh : RunningCluster} (h : IsReady cluster fresh)
  {r : Resolver} (hr : Resolver.ofTopology cluster.topology = .ok r) {s : Setting}
  {written : List Written}
  (hwritten : ∀ w ∈ written, ∃ schema ∈ cluster.schemas, IsWriteTo r s schema w)
  {schema : Schema} (hschema : schema ∈ cluster.schemas) {key : Bytes} {master : Int}
  {others : List Int} (hreplicas : r.replicas schema key = .ok (master :: others))

include h hwritten hschema hreplicas

/-- The writes to a key go to its replicas. -/
theorem replicas_of_mem_writesOf {w : Written} (hw : w ∈ writesOf written schema.name key) :
    w.master = master ∧ w.copies.map Prod.fst = others ∧
      (s.CopiesAll → ∀ c ∈ w.copies, c.2 = .taken) := by
  obtain ⟨hmem, hcell⟩ := List.mem_filter.1 hw
  obtain ⟨hstore, hkey⟩ := of_decide_eq_true hcell
  obtain ⟨schema', hschema', hto⟩ := hwritten w hmem
  -- names of stores differ, so the write is to this one
  obtain rfl : schema' = schema :=
    List.inj_on_of_nodup_map h.sound.schemas.nodup hschema' hschema (hto.store.symm.trans hstore)
  have hnodes := hto.replicas
  rw [hkey, hreplicas, Except.ok.injEq, List.cons.injEq] at hnodes
  exact ⟨hnodes.1.symm, hnodes.2.symm, hto.taken⟩

include hr

theorem keeps_of_leaves {c : RunningCluster} {sent : List Sent}
    (hleaves : Leaves cluster fresh s.now (written.flatMap Written.posts) c sent) :
    Keeps c cluster.topology written schema.name key master others ∧
      (s.CopiesAll → ∀ node ∈ others,
        Holds c node schema.name key (pairsWritten written schema.name key master)) := by
  obtain ⟨master', others', hreplicas', hnd, hnodes⟩ := exists_replicas h hr hschema key
  rw [hreplicas, Except.ok.injEq, List.cons.injEq] at hreplicas'
  obtain ⟨rfl, rfl⟩ := hreplicas'
  have hholds : ∀ id ∈ cluster.topology.nodeIds, Holds c id schema.name key
      (pairsAt (written.flatMap Written.posts) id schema.name key).eraseDups := by
    intro id hid
    obtain ⟨m, hm, rfl⟩ := Topology.mem_nodeIds.1 hid
    rw [hleaves.nodes]
    exact holds_seedAll h hm hschema key s.now _
  have hmem := fun {w} => replicas_of_mem_writesOf h hwritten hschema hreplicas (w := w)
  have hmaster : pairsAt (written.flatMap Written.posts) master schema.name key =
      (writesOf written schema.name key).map fun w => (w.value, [(master, 1)]) := by
    apply pairsAt_eq_map
    intro w hw
    obtain ⟨rfl, rfl, -⟩ := hmem hw
    exact Written.pairsAt_posts_master hnd
  refine ⟨⟨?_, fun node hnode => ?_, fun node hnode pair hpair => ?_, fun m hm hm' => ?_⟩,
    fun hall node hnode => ?_⟩
  · rw [pairsWritten, ← hmaster]
    exact hholds master (hnodes master List.mem_cons_self)
  · exact hholds node (hnodes node (List.mem_cons_of_mem _ hnode))
  · obtain ⟨p, hp, rfl⟩ := List.mem_map.1 hpair
    obtain ⟨hp, hcell⟩ := List.mem_filter.1 hp
    obtain ⟨hnode', hstore, hkey⟩ := of_decide_eq_true hcell
    obtain ⟨w, hw, hpost⟩ := List.mem_flatMap.1 hp
    obtain ⟨hstore', hkey', -, hclock⟩ := Written.of_mem_posts hpost
    have hto : w ∈ writesOf written schema.name key :=
      List.mem_filter.2 ⟨hw, decide_eq_true ⟨hstore' ▸ hstore, hkey' ▸ hkey⟩⟩
    rw [(hmem hto).1, hnode'] at hclock
    rw [Post.pair, hnode']
    rcases hclock with hclock | hclock
    · exact .inl (by rw [hclock])
    · exact .inr (by rw [hclock])
  · have hnothing : pairsAt (written.flatMap Written.posts) m.id schema.name key = [] := by
      rw [pairsAt_flatMap_posts, List.flatMap_eq_nil_iff]
      intro w hw
      obtain ⟨rfl, rfl, -⟩ := hmem hw
      exact Written.pairsAt_posts_of_not_mem hm'
    have hheld := hholds m.id (Topology.mem_nodeIds.2 ⟨m, hm, rfl⟩)
    rw [hnothing] at hheld
    exact hheld
  · rw [pairsWritten, ← pairsAt_eq_map fun w hw => ?_]
    · exact hholds node (hnodes node (List.mem_cons_of_mem _ hnode))
    · obtain ⟨rfl, rfl, htaken⟩ := hmem hw
      exact Written.pairsAt_posts_taken hnd (htaken hall) hnode

end

/-- A run without a fault gets as far as the stores, with a ring of all nodes. -/
theorem exists_run_eq {s : Setting} {tree : FileTree} {cluster : ClusterDescription}
    {fresh : RunningCluster}
    (hload : ClusterDescription.load tree s.options.clusterFile = .ok cluster)
    (hdone : (run s fresh tree).fault = none) :
    ∃ r made, Resolver.ofTopology cluster.topology = .ok r ∧
      run s fresh tree = writeStores s cluster.schemas [] made ⟨fresh, r, ⟨0, 0, 0⟩, []⟩ := by
  unfold run at hdone ⊢
  rw [hload] at hdone ⊢
  dsimp only at hdone ⊢
  cases hr : Resolver.ofTopology cluster.topology with
  | error e =>
    rw [hr] at hdone
    cases hdone
  | ok r =>
    cases hdirs : tree.makeDirs s.options.keysDir with
    | mk made fault =>
      rw [hr] at hdone
      dsimp only at hdone
      rw [hdirs] at hdone
      cases fault with
      | some e => cases hdone
      | none => exact ⟨r, made, rfl, rfl⟩

/-- A workload loses no write, and its keys can be sampled. Let the stores of a cluster file be
routable, let the addresses of the members differ and stand in a URL as they are, as those of hosts
do, and let the names of the stores do so, too. After a run without a fault against nodes that were
empty, whatever was drawn, the requests that were sent are the posts of as many writes to each store
as were asked for, each to the replicas of its key; the master of a key has every value that was
written to it, with the clock of a first write of its own; each other replica has the values that
were put there, with the clock of a first write of the master or of itself; nobody else has
anything; without divergence all replicas of a key have the same; and the key file of a store can be
read, and lists different keys, each with a version at its master. -/
theorem run_loses_nothing {s : Setting} {tree : FileTree} {cluster : ClusterDescription}
    {fresh : RunningCluster}
    (hload : ClusterDescription.load tree s.options.clusterFile = .ok cluster)
    (hstart : RunningCluster.start cluster [] = .ok fresh)
    (hroutable : ∀ schema ∈ cluster.schemas, Resolver.routable cluster.topology schema = .ok ())
    (haddresses : (cluster.topology.members.map Member.address).Nodup)
    (hhosts : ∀ m ∈ cluster.topology.members, IsHost m.address)
    (hnames : ∀ schema ∈ cluster.schemas, IsUnreserved schema.name)
    (hrolls : ∀ roll ∈ s.draws.rolls, roll.IsFraction) (hsamples : s.draws.SamplesKeys)
    (hdone : (run s fresh tree).fault = none) :
    ∃ r written, Resolver.ofTopology cluster.topology = .ok r ∧
      List.Forall₂ (Post.IsSentAs cluster.topology) (written.flatMap Written.posts)
        (run s fresh tree).sent ∧
      (∀ w ∈ written, ∃ schema ∈ cluster.schemas, w.store = schema.name ∧
        r.replicas schema w.key = .ok (w.master :: w.copies.map Prod.fst)) ∧
      ∀ schema ∈ cluster.schemas,
        (written.filter fun w => w.store = schema.name).length = s.options.writes.toNat ∧
        (∀ key, ∃ master others, r.replicas schema key = .ok (master :: others) ∧
          Keeps (run s fresh tree).cluster cluster.topology written schema.name key master others ∧
          (s.options.divergence.isNonPositive = true → ∃ pairs, ∀ node ∈ master :: others,
            Holds (run s fresh tree).cluster node schema.name key pairs)) ∧
        ∃ content, (run s fresh tree).tree.read (keysPath s.options schema.name) = .ok content ∧
          IsSampleable (run s fresh tree).cluster r schema
            (KeyFile.read (keysPath s.options schema.name) content) := by
  have h : IsReady cluster fresh :=
    ⟨hstart, ClusterDescription.isSound_of_load hload, hroutable, haddresses, hhosts, hnames⟩
  obtain ⟨r, made, hr, hrun⟩ := exists_run_eq hload hdone
  have hfirst : Reached cluster fresh r s.now [] ⟨fresh, r, ⟨0, 0, 0⟩, []⟩ :=
    ⟨⟨rfl, .nil⟩, ⟨rfl, rfl⟩, Resolver.honest_of_ofTopology hr⟩
  rw [hrun] at hdone
  obtain ⟨written, hleaves, hwritten, hfiled⟩ := writeStores_leaves h hr hsamples
    (fun _ hs => hs) h.sound.schemas.nodup hdone hfirst
  rw [← hrun] at hleaves hfiled
  rw [List.nil_append] at hleaves
  refine ⟨r, written, hr, hleaves.sent, fun w hw => ?_, fun schema hschema => ?_⟩
  · obtain ⟨schema, hschema, hto⟩ := hwritten w hw
    exact ⟨schema, hschema, hto.store, hto.replicas⟩
  · have hkey : ∀ key, ∃ master others, r.replicas schema key = .ok (master :: others) ∧
        Keeps (run s fresh tree).cluster cluster.topology written schema.name key master others ∧
        (s.CopiesAll → ∀ node ∈ others, Holds (run s fresh tree).cluster node schema.name key
          (pairsWritten written schema.name key master)) := by
      intro key
      obtain ⟨master, others, hreplicas, -, -⟩ := exists_replicas h hr hschema key
      exact ⟨master, others, hreplicas, keeps_of_leaves h hr hwritten hschema hreplicas hleaves⟩
    obtain ⟨keys, hread, hnd, hkeys⟩ := (hfiled schema hschema).file
    obtain ⟨hfault, hlisted⟩ :=
      read_keyFileOf (fun key hk => (hkeys key hk).1) (keysPath s.options schema.name)
    refine ⟨(hfiled schema hschema).count, fun key => ?_, _, hread, hfault, ?_, fun key hk => ?_⟩
    · obtain ⟨master, others, hreplicas, hkeeps, htaken⟩ := hkey key
      exact ⟨master, others, hreplicas, hkeeps, fun hdivergence =>
        ⟨_, List.forall_mem_cons.2 ⟨hkeeps.atMaster, htaken ⟨hdivergence, hrolls⟩⟩⟩⟩
    · rw [hlisted]
      exact hnd
    · rw [hlisted] at hk
      obtain ⟨-, w, hw, hstore, rfl⟩ := hkeys key hk
      obtain ⟨master, others, hreplicas, hkeeps, -⟩ := hkey w.key
      exact ⟨master, others, _, hreplicas, hkeeps.atMaster, pairsWritten_ne_nil hw hstore rfl master⟩

/-! Two writes to one key on two nodes, without divergence. -/

def pairSetting : Setting where
  options := ⟨"c.json", "keys", 2, 5, .finite false 0 (-1074), .uniform, 10⟩
  draws := ⟨[7, 1, 7, 2], [.finite false 1 (-1)], [], lastFirst⟩
  now := 0

theorem exists_sampleOf_pair (keys : List Bytes) :
    ∃ sample, sampleOf pairSetting.draws pairSetting.options.sample keys = some sample := by
  unfold sampleOf
  split
  · exact ⟨keys, rfl⟩
  · exact ⟨keys.reverse.take 5, rfl⟩

def pairDirs (content : Bytes) : FileTree := (Session.pairFile content).insert ["keys"] .dir

theorem isHost_pair : ∀ m ∈ Session.pair.topology.members, IsHost m.address := by
  intro m hm
  have hcases : m = ⟨0, "a", 1⟩ ∨ m = ⟨1, "b", 1⟩ := by
    simpa [Session.pair, Session.pairTopology] using hm
  rcases hcases with rfl | rfl
  · exact ⟨by decide +kernel, by decide +kernel, by decide +kernel⟩
  · exact ⟨by decide +kernel, by decide +kernel, by decide +kernel⟩

theorem isReady_pair {fresh : RunningCluster}
    (hstart : RunningCluster.start Session.pair [] = .ok fresh) : IsReady Session.pair fresh :=
  ⟨hstart, Session.isSound_pair, Session.routable_pair, by decide +kernel, isHost_pair, by decide⟩

theorem makeDirs_pairFile (content : Bytes) :
    (Session.pairFile content).makeDirs "keys" = (pairDirs content, none) := by
  have hleads : (Session.pairFile content).Leads "keys" [] "keys" :=
    ⟨⟨by decide +kernel, by decide +kernel, by decide +kernel⟩, ⟨[], by decide +kernel, rfl⟩,
      ⟨by decide, by decide, by decide⟩, by decide +kernel⟩
  have hfree : (Session.pairFile content).locate "keys" = .ok (.free ["keys"]) := by
    rw [hleads.locate, FileTree.spot, Session.pairFile, OrderedMap.get?_insert, if_neg (by decide)]
    rfl
  have hsplit : FileTree.splitPath "keys" = ("", "keys") := by decide +kernel
  have hmake : (Session.pairFile content).makeDir "keys" = .ok (pairDirs content) := by
    rw [FileTree.makeDir, hfree]
    rfl
  have hempty : "keys".isEmpty = false := by decide +kernel
  unfold FileTree.makeDirs FileTree.makeDirsWithin
  rw [hsplit]
  dsimp only
  rw [hempty]
  simp [hmake]

theorem locate_pairDirs (content : Bytes) :
    (pairDirs content).locate "keys/s.keys" = .ok (.free ["keys", "s.keys"]) := by
  have hway : (pairDirs content).walk [] .dir ["keys"] = .ok (.there ["keys"] .dir) := by
    rw [FileTree.walk_plain _ _ ⟨by decide, by decide, by decide⟩ (by decide +kernel),
      FileTree.spot, pairDirs, OrderedMap.get?_insert, List.nil_append, if_pos rfl]
  have hleads : (pairDirs content).Leads "keys/s.keys" ["keys"] "s.keys" :=
    ⟨⟨by decide +kernel, by decide +kernel, by decide +kernel⟩,
      ⟨["keys"], by decide +kernel, hway⟩, ⟨by decide, by decide, by decide⟩, by decide +kernel⟩
  rw [hleads.locate, FileTree.spot, pairDirs, OrderedMap.get?_insert, if_neg (by decide),
    Session.pairFile, OrderedMap.get?_insert, if_neg (by decide)]
  rfl

theorem fault_run_pair {fresh : RunningCluster}
    (hstart : RunningCluster.start Session.pair [] = .ok fresh) {content : Bytes}
    (hload : ClusterDescription.load (Session.pairFile content) "c.json" = .ok Session.pair) :
    (run pairSetting fresh (Session.pairFile content)).fault = none := by
  have hfirst : Reached Session.pair fresh _ 0 [] ⟨fresh, _, ⟨0, 0, 0⟩, []⟩ :=
    ⟨⟨rfl, .nil⟩, ⟨rfl, rfl⟩, Resolver.honest_of_ofTopology Session.ofTopology_pair⟩
  obtain ⟨keys, st, hkeys⟩ := exists_writeKeys (isReady_pair hstart) Session.ofTopology_pair
    (s := pairSetting) rfl List.mem_cons_self 2 [] hfirst
  unfold run
  rw [show pairSetting.options.clusterFile = "c.json" from rfl, hload]
  dsimp only
  rw [show Session.pair.topology = Session.pairTopology from rfl, Session.ofTopology_pair]
  dsimp only
  rw [show pairSetting.options.keysDir = "keys" from rfl, makeDirs_pairFile]
  dsimp only
  rw [show Session.pair.schemas = [Session.pairSchema] from rfl, writeStores,
    show pairSetting.options.writes.toNat = 2 from rfl, hkeys]
  dsimp only
  obtain ⟨sample, hsample⟩ := exists_sampleOf_pair keys
  rw [hsample]
  dsimp only
  rw [show keysPath pairSetting.options Session.pairSchema.name = "keys/s.keys" by decide +kernel,
    FileTree.write, locate_pairDirs]
  rfl

theorem run_loses_nothing_pair : ∃ (fresh : RunningCluster) (content : Bytes)
    (written : List Written) (pairs : List (String × List (Int × Int))),
    ClusterDescription.load (Session.pairFile content) "c.json" = .ok Session.pair ∧
      RunningCluster.start Session.pair [] = .ok fresh ∧
      (run pairSetting fresh (Session.pairFile content)).fault = none ∧
      List.Forall₂ (Post.IsSentAs Session.pair.topology) (written.flatMap Written.posts)
        (run pairSetting fresh (Session.pairFile content)).sent ∧
      (written.filter fun w => w.store = "s").length = 2 ∧
      Holds (run pairSetting fresh (Session.pairFile content)).cluster 0 "s" (keyOf 7) pairs ∧
      Holds (run pairSetting fresh (Session.pairFile content)).cluster 1 "s" (keyOf 7) pairs := by
  obtain ⟨fresh, hstart⟩ := RunningCluster.exists_start Session.ofTopology_pair
    Session.routable_pair
  obtain ⟨content, hload⟩ := Session.exists_load_pairFile
  have hdone := fault_run_pair hstart hload
  have hrolls : ∀ roll ∈ pairSetting.draws.rolls, roll.IsFraction := by
    intro roll hroll
    obtain rfl := List.mem_singleton.1 hroll
    exact ⟨1 / 2, by decide +kernel, by norm_num, by norm_num⟩
  obtain ⟨r, written, hr, hsent, -, hall⟩ := run_loses_nothing (s := pairSetting) hload
    hstart Session.routable_pair (by decide +kernel) isHost_pair (by decide) hrolls
    (samplesKeys_lastFirst _ _ _) hdone
  obtain ⟨hcount, hkey, -⟩ := hall Session.pairSchema List.mem_cons_self
  obtain ⟨master, others, hreplicas, -, hsame⟩ := hkey (keyOf 7)
  obtain ⟨pairs, hpairs⟩ := hsame rfl
  -- the two replicas of the key are the two nodes
  have hmem : ∀ node ∈ [0, 1], node ∈ master :: others := by
    obtain ⟨master', others', hreplicas', hnd, hnodes⟩ :=
      exists_replicas (isReady_pair hstart) hr
        (List.mem_cons_self : Session.pairSchema ∈ Session.pair.schemas) (keyOf 7)
    rw [hreplicas, Except.ok.injEq] at hreplicas'
    rw [← hreplicas'] at hnd hnodes
    have hlength : (master :: others).length = 2 := by
      have hroutable := Session.routable_pair Session.pairSchema List.mem_cons_self
      rw [show Session.pairTopology = Session.pair.topology from rfl,
        ← (Resolver.of_ofTopology hr).topology] at hroutable
      rw [Resolver.replicas_eq_walk (Resolver.honest_of_ofTopology hr) hroutable] at hreplicas
      have htwo : ((master :: others).length : Int) = 2 :=
        Resolver.length_of_walk (by decide) hreplicas
      exact_mod_cast htwo
    have hids : (master :: others) ⊆ [0, 1] := by
      rw [← Session.nodeIds_pair]
      exact hnodes
    exact ((List.subperm_of_subset hnd hids).perm_of_length_le hlength.ge).symm.subset
  exact ⟨fresh, content, written, pairs, hload, hstart, hdone, hsent, hcount,
    hpairs 0 (hmem 0 (by decide)), hpairs 1 (hmem 1 (by decide))⟩

end ReplicaCensus.Workload
