import Mathlib
import ReplicaCensus.Proofs.Census.Agreement
import ReplicaCensus.Proofs.Number.Sign
import ReplicaCensus.Proofs.Workload.KeyFile
import ReplicaCensus.Proofs.Workload.Sending
/-!
# The writes of a workload

Writing a key sends the value to its master, and then each of the other replicas misses the copy,
takes it, or gets a value of its own. What the nodes hold and what was sent are told by the posts
made so far, whatever the draws were.
-/

namespace ReplicaCensus

/-! ## 1. Rolls -/

namespace Double

/-- A number from zero on and below one. -/
def IsFraction (x : Double) : Prop := ∃ q, x.toRat? = some q ∧ 0 ≤ q ∧ q < 1

/-- What is not negative is not below what is not positive. -/
theorem lt_eq_false {x d : Double} {q : Rat} (hx : x.toRat? = some q) (hq : 0 ≤ q)
    (hd : d.isNonPositive = true) : x.lt d = false := by
  cases x with
  | nan => cases hx
  | infinite negative => cases hx
  | finite negative m e =>
    cases d with
    | nan => rfl
    | infinite negative' =>
      rw [isNonPositive] at hd
      rw [lt, hd]
      rfl
    | finite negative' m' e' =>
      obtain ⟨q', hq'⟩ : ∃ q', (finite negative' m' e').toRat? = some q' := ⟨_, rfl⟩
      have hle := (isNonPositive_iff hq').1 hd
      rw [lt, hx, hq']
      exact decide_eq_false (not_lt.2 (hle.trans hq))

theorem isNonPositive_ofFraction (num den : Nat) :
    (ofFraction true num den).isNonPositive = true := by
  unfold ofFraction
  dsimp only
  split
  · rfl
  -- rounding changes the magnitude alone
  · split <;> split <;> rfl

theorem isNonPositive_half {d : Double} (h : d.isNonPositive = true) :
    d.half.isNonPositive = true := by
  cases d with
  | nan => exact h
  | infinite negative => exact h
  | finite negative m e =>
    rw [half]
    split
    · exact h
    · next hm =>
      -- a half keeps the sign
      have hnegative : negative = true := by
        rw [isNonPositive, Bool.or_eq_true, decide_eq_true_eq] at h
        exact h.resolve_right hm
      rw [hnegative]
      exact isNonPositive_ofFraction _ _

end Double

namespace Resolver

variable {r r' : Resolver} {t : Topology} {schema : Schema} {key : Bytes}

/-- Resolving gives what every resolver of the topology gives, and goes on to do so. -/
theorem resolve_alike (halike : Alike r r') (hhonest : r'.Honest)
    (hroutable : routable r.topology schema = .ok ()) (key : Bytes) :
    ∃ r'', r'.resolve schema key = (r.walk schema key, r'') ∧ Alike r r'' ∧ r''.Honest := by
  rw [← halike.topology] at hroutable
  obtain ⟨r'', hcheck⟩ := (check_eq hhonest schema).2 hroutable
  have hnext := alike_check hcheck
  have hall : Alike r r'' :=
    ⟨hnext.topology.trans halike.topology, hnext.ring.trans halike.ring⟩
  refine ⟨r'', ?_, hall, honest_check hhonest hcheck⟩
  rw [resolve, hcheck]
  dsimp only
  rw [walk_alike hall]

end Resolver

namespace Workload

/-! ## 2. Writes and posts -/

/-- What becomes of a write at a replica but the master: nothing, a write of its own, or a copy. -/
inductive Copy where
  | missed
  | diverged
  | taken
  deriving DecidableEq, Repr

/-- A value that was written to a key at its master, and what became of it at the other replicas. -/
structure Written where
  store : String
  key : Bytes
  value : String
  master : Int
  copies : List (Int × Copy)

/-- A write that goes to a node; the clock counts a first write of `origin`, or of the node itself
if none is named. -/
structure Post where
  node : Int
  store : String
  key : Bytes
  value : String
  origin : Option Int

namespace Post

def put (now : Int) (p : Post) : Put :=
  ⟨p.node, p.store, p.key, versionOf p.node p.value p.origin now⟩

/-- The value that is put, and the entries of its clock. -/
def pair (p : Post) : String × List (Int × Int) := (p.value, [(p.origin.getD p.node, 1)])

/-- The request in which a post was sent, and that it was accepted. -/
def IsSentAs (t : Topology) (p : Post) (sent : Sent) : Prop :=
  ∃ m ∈ t.members, m.id = p.node ∧
    sent = ⟨cellUrl m p.store p.key, bodyOf p.value (clockJson p.origin), 200⟩

end Post

namespace Written

def copyPost? (w : Written) : Int × Copy → Option Post
  | (_, .missed) => none
  | (node, .diverged) => some ⟨node, w.store, w.key, divergentValue w.value, none⟩
  | (node, .taken) => some ⟨node, w.store, w.key, w.value, some w.master⟩

/-- The posts of a write, that to the master first. -/
def posts (w : Written) : List Post :=
  ⟨w.master, w.store, w.key, w.value, none⟩ :: w.copies.filterMap w.copyPost?

end Written

/-- Whether every replica gets a copy of every write. -/
structure Setting.CopiesAll (s : Setting) : Prop where
  divergence : s.options.divergence.isNonPositive = true
  rolls : ∀ roll ∈ s.draws.rolls, roll.IsFraction

theorem Setting.CopiesAll.lt_eq_false {s : Setting} (h : s.CopiesAll) {d : Double}
    (hd : d.isNonPositive = true) (n : Drawn) : (s.draws.roll n).1.lt d = false := by
  have hroll : (s.draws.roll n).1 ∈ s.draws.rolls ∨ (s.draws.roll n).1 = Double.ofInt 1 := by
    unfold Draws.roll cyclic
    dsimp only
    cases hget : s.draws.rolls[n.rolls % s.draws.rolls.length]? with
    | none => exact .inr rfl
    | some roll => exact .inl (List.mem_of_getElem? hget)
  rcases hroll with hroll | hroll
  · obtain ⟨q, hq, hpos, -⟩ := h.rolls _ hroll
    exact Double.lt_eq_false hq hpos hd
  · have hone : (Double.ofInt 1).toRat? = some 1 := by decide +kernel
    rw [hroll]
    exact Double.lt_eq_false hone zero_le_one hd

/-- What some posts lead to: the nodes have taken them one after the other, and they were sent in
this order. -/
structure Leaves (cluster : ClusterDescription) (fresh : RunningCluster) (now : Int)
    (posts : List Post) (c : RunningCluster) (sent : List Sent) : Prop where
  nodes : c = fresh.seedAll (posts.map (Post.put now))
  sent : List.Forall₂ (Post.IsSentAs cluster.topology) posts sent

/-- A state that some posts have led to; the resolver routes as `r` does. -/
structure Reached (cluster : ClusterDescription) (fresh : RunningCluster) (r : Resolver) (now : Int)
    (posts : List Post) (st : State) : Prop where
  leaves : Leaves cluster fresh now posts st.cluster st.sent
  alike : Resolver.Alike r st.resolver
  honest : st.resolver.Honest

section

variable {cluster : ClusterDescription} {fresh : RunningCluster} (h : IsReady cluster fresh)
  {r : Resolver} (hr : Resolver.ofTopology cluster.topology = .ok r) {s : Setting}
  {posts : List Post} {st : State}

include h

/-! ## 3. One write -/

/-- Sending a post leads on by it. -/
theorem send_reached (hst : Reached cluster fresh r s.now posts st) {m : Member}
    (hm : m ∈ cluster.topology.members) {schema : Schema} (hschema : schema ∈ cluster.schemas)
    {key : Bytes} (hkey : key ≠ []) (value : String) {origin : Option Int}
    (horigin : ∀ i ∈ origin, i ∈ cluster.topology.nodeIds) :
    ∃ st', send s st m schema.name key value (clockJson origin) =
        (.ok (clockJson (some (origin.getD m.id))), st') ∧
      Reached cluster fresh r s.now (posts ++ [⟨m.id, schema.name, key, value, origin⟩]) st' := by
  have hputs : ∀ p ∈ posts.map (Post.put s.now), p.write.version.CountsOne := by
    intro p hp
    obtain ⟨post, -, rfl⟩ := List.mem_map.1 hp
    exact countsOne_versionOf _ _ _ _
  refine ⟨_, send_eq h s hst.leaves.nodes hputs hm hschema hkey value horigin, ⟨?_, ?_⟩,
    hst.alike, hst.honest⟩
  · rw [List.map_append]
    rfl
  · exact List.rel_append hst.leaves.sent (.cons ⟨m, hm, rfl, rfl⟩ .nil)

include hr

/-- Another replica misses a write, takes it, or gets one of its own. -/
theorem copyTo_cons_reached {schema : Schema} (hschema : schema ∈ cluster.schemas) {w : Written}
    (hstore : w.store = schema.name) (hkey : w.key ≠ [])
    (hmaster : w.master ∈ cluster.topology.nodeIds) {id : Int}
    (hid : id ∈ cluster.topology.nodeIds) (hst : Reached cluster fresh r s.now posts st) :
    ∃ copy st', (∀ rest,
        copyTo s schema.name w.key w.value (clockJson (some w.master)) (id :: rest) st =
          copyTo s schema.name w.key w.value (clockJson (some w.master)) rest st') ∧
      (s.CopiesAll → copy = .taken) ∧
      Reached cluster fresh r s.now (posts ++ (w.copyPost? (id, copy)).toList) st' := by
  obtain ⟨m, hm, rfl⟩ := Topology.mem_nodeIds.1 hid
  have hget : st.resolver.topology.get m.id = .ok m := by
    rw [hst.alike.topology, (Resolver.of_ofTopology hr).topology]
    exact Topology.get_of_mem hm
  have hdrawn : Reached cluster fresh r s.now posts
      { st with drawn := (s.draws.roll st.drawn).2 } := ⟨hst.leaves, hst.alike, hst.honest⟩
  by_cases hmissed : (s.draws.roll st.drawn).1.lt s.options.divergence.half = true
  · refine ⟨.missed, { st with drawn := (s.draws.roll st.drawn).2 }, fun rest => ?_, fun hs => ?_,
      ?_⟩
    · rw [copyTo, hget]
      dsimp only
      rw [if_pos hmissed]
    · rw [hs.lt_eq_false (Double.isNonPositive_half hs.divergence)] at hmissed
      cases hmissed
    · rw [Written.copyPost?, Option.toList_none, List.append_nil]
      exact hdrawn
  by_cases hdiverged : (s.draws.roll st.drawn).1.lt s.options.divergence = true
  · have horigin : ∀ i ∈ (none : Option Int), i ∈ cluster.topology.nodeIds :=
      fun _ hi => by cases hi
    obtain ⟨st', hsend, hst'⟩ :=
      send_reached h hdrawn hm hschema hkey (divergentValue w.value) horigin
    rw [← hstore] at hst'
    refine ⟨.diverged, st', fun rest => ?_, fun hs => ?_, hst'⟩
    · rw [copyTo, hget]
      dsimp only
      rw [if_neg hmissed, if_pos hdiverged]
      unfold clockJson at hsend
      rw [hsend]
    · rw [hs.lt_eq_false hs.divergence] at hdiverged
      cases hdiverged
  · have horigin : ∀ i ∈ some w.master, i ∈ cluster.topology.nodeIds :=
      fun i hi => Option.some.inj hi ▸ hmaster
    obtain ⟨st', hsend, hst'⟩ := send_reached h hdrawn hm hschema hkey w.value horigin
    rw [← hstore] at hst'
    refine ⟨.taken, st', fun rest => ?_, fun _ => rfl, hst'⟩
    rw [copyTo, hget]
    dsimp only
    rw [if_neg hmissed, if_neg hdiverged, hsend]

theorem copyTo_reached {schema : Schema} (hschema : schema ∈ cluster.schemas) {w : Written}
    (hstore : w.store = schema.name) (hkey : w.key ≠ [])
    (hmaster : w.master ∈ cluster.topology.nodeIds) {ids : List Int}
    (hids : ∀ id ∈ ids, id ∈ cluster.topology.nodeIds)
    (hst : Reached cluster fresh r s.now posts st) :
    ∃ (copies : List (Int × Copy)) (st' : State),
      copyTo s schema.name w.key w.value (clockJson (some w.master)) ids st = (none, st') ∧
      copies.map Prod.fst = ids ∧ (s.CopiesAll → ∀ c ∈ copies, c.2 = .taken) ∧
      Reached cluster fresh r s.now (posts ++ copies.filterMap w.copyPost?) st' := by
  induction ids generalizing posts st with
  | nil =>
    refine ⟨[], st, rfl, rfl, fun _ _ hc => absurd hc List.not_mem_nil, ?_⟩
    rw [List.filterMap_nil, List.append_nil]
    exact hst
  | cons id rest ih =>
    obtain ⟨hid, hrest⟩ := List.forall_mem_cons.1 hids
    obtain ⟨copy, st', hcopy, htaken, hst'⟩ :=
      copyTo_cons_reached h hr hschema hstore hkey hmaster hid hst
    obtain ⟨copies, st'', hmore, hcopies, hall, hst''⟩ := ih hrest hst'
    refine ⟨(id, copy) :: copies, st'', (hcopy rest).trans hmore, congrArg (id :: ·) hcopies,
      fun hs => List.forall_mem_cons.2 ⟨htaken hs, hall hs⟩, ?_⟩
    rw [List.append_assoc] at hst''
    have hposts : ((id, copy) :: copies).filterMap w.copyPost? =
        (w.copyPost? (id, copy)).toList ++ copies.filterMap w.copyPost? := by
      cases hpost : w.copyPost? (id, copy) with
      | none => rw [List.filterMap_cons_none hpost]; rfl
      | some p => rw [List.filterMap_cons_some hpost]; rfl
    rw [hposts]
    exact hst''

/-- A write to a key of a store: its posts go to the replicas of the key. -/
structure IsWriteTo (r : Resolver) (s : Setting) (schema : Schema) (w : Written) : Prop where
  store : w.store = schema.name
  replicas : r.replicas schema w.key = .ok (w.master :: w.copies.map Prod.fst)
  taken : s.CopiesAll → ∀ c ∈ w.copies, c.2 = .taken

theorem exists_replicas {schema : Schema} (hschema : schema ∈ cluster.schemas) (key : Bytes) :
    ∃ master others, r.replicas schema key = .ok (master :: others) ∧ (master :: others).Nodup ∧
      ∀ id ∈ master :: others, id ∈ cluster.topology.nodeIds := by
  have hof := Resolver.of_ofTopology hr
  have hroutable := h.routable schema hschema
  have hfactor := (h.sound.schemas.each schema hschema).replicationFactor
  obtain ⟨nodes, hwalk, hnodes⟩ := Resolver.exists_walk hof hfactor hroutable key
  obtain ⟨master, others, rfl⟩ := List.exists_cons_of_ne_nil
    (Resolver.walk_ne_nil hof (Resolver.routable_iff.1 hroutable).2.1 hfactor hwalk)
  refine ⟨master, others, ?_, Resolver.nodup_of_walk hwalk, hnodes⟩
  rw [← hof.topology] at hroutable
  rw [Resolver.replicas_eq_walk (Resolver.honest_of_ofTopology hr) hroutable, hwalk]

/-- Writing a key leads on by the posts of one write. -/
theorem writeKey_reached {schema : Schema} (hschema : schema ∈ cluster.schemas) {key : Bytes}
    (hkey : key ≠ []) (hst : Reached cluster fresh r s.now posts st) :
    ∃ w st', writeKey s schema key st = (none, st') ∧ w.key = key ∧ IsWriteTo r s schema w ∧
      Reached cluster fresh r s.now (posts ++ w.posts) st' := by
  obtain ⟨master, others, hreplicas, -, hnodes⟩ := exists_replicas h hr hschema key
  obtain ⟨hmaster, hothers⟩ := List.forall_mem_cons.1 hnodes
  obtain ⟨m, hm, rfl⟩ := Topology.mem_nodeIds.1 hmaster
  have hroutable := h.routable schema hschema
  rw [← (Resolver.of_ofTopology hr).topology] at hroutable
  obtain ⟨r', hresolve, halike, hhonest⟩ :=
    Resolver.resolve_alike hst.alike hst.honest hroutable key
  rw [← Resolver.replicas_eq_walk (Resolver.honest_of_ofTopology hr) hroutable, hreplicas]
    at hresolve
  have hget : r'.topology.get m.id = .ok m := by
    rw [halike.topology, (Resolver.of_ofTopology hr).topology]
    exact Topology.get_of_mem hm
  -- the value is drawn, then the master gets it, and then the others
  have hdrawn : Reached cluster fresh r s.now posts
      { st with resolver := r', drawn := (s.draws.integer st.drawn).2 } :=
    ⟨hst.leaves, halike, hhonest⟩
  have horigin : ∀ i ∈ (none : Option Int), i ∈ cluster.topology.nodeIds := fun _ hi => by cases hi
  obtain ⟨st₁, hsend, hst₁⟩ := send_reached h hdrawn hm hschema hkey
    (toString (s.draws.integer st.drawn).1) horigin
  obtain ⟨copies, st₂, hcopy, hcopies, htaken, hst₂⟩ := @copyTo_reached _ _ h _ hr _ _ _ _ hschema
    ⟨schema.name, key, toString (s.draws.integer st.drawn).1, m.id, []⟩ rfl hkey hmaster _ hothers
    hst₁
  refine ⟨⟨schema.name, key, toString (s.draws.integer st.drawn).1, m.id, copies⟩, st₂, ?_, rfl,
    ⟨rfl, ?_, htaken⟩, ?_⟩
  · unfold clockJson at hsend
    rw [writeKey, hresolve]
    dsimp only
    rw [hget]
    dsimp only
    rw [hsend]
    exact hcopy
  · rw [hreplicas, ← hcopies]
  · rw [List.append_assoc] at hst₂
    exact hst₂

/-! ## 4. Many writes -/

omit h hr in
theorem ne_nil_of_pickKey {o : WorkloadOptions} {d : Draws} {n n' : Drawn} {key : Bytes}
    (hpick : pickKey o d n = (some key, n')) : key ≠ [] := by
  unfold pickKey at hpick
  split at hpick
  · cases hpick
    exact keyOf_ne_nil _
  · obtain ⟨rank, -, rfl⟩ := Option.map_eq_some_iff.1 (Prod.mk.inj hpick).1
    exact keyOf_ne_nil rank

omit h hr in
/-- A key is added to the keys so far unless it is one of them. -/
theorem eraseDups_append_key (keys : List Bytes) (key : Bytes) :
    (if keys.eraseDups.contains key then keys.eraseDups else keys.eraseDups ++ [key]) =
      (keys ++ [key]).eraseDups := by
  rw [List.eraseDups_append]
  by_cases hkey : key ∈ keys <;> simp [List.removeAll, List.eraseDups_cons, hkey]

/-- Many writes lead on by their posts, and the keys are those written, each once. -/
theorem writeKeys_reached {schema : Schema} (hschema : schema ∈ cluster.schemas) {n : Nat}
    {before keys : List Bytes} {st' : State}
    (hrun : writeKeys s schema n before.eraseDups st = (.ok keys, st'))
    (hst : Reached cluster fresh r s.now posts st) :
    ∃ more : List Written, more.length = n ∧
      (∀ w ∈ more, w.key ≠ [] ∧ IsWriteTo r s schema w) ∧
      keys = (before ++ more.map Written.key).eraseDups ∧
      Reached cluster fresh r s.now (posts ++ more.flatMap Written.posts) st' := by
  induction n generalizing before posts st with
  | zero =>
    cases hrun
    refine ⟨[], rfl, fun _ hw => absurd hw List.not_mem_nil, ?_, ?_⟩
    · rw [List.map_nil, List.append_nil]
    · rw [List.flatMap_nil, List.append_nil]
      exact hst
  | succ n ih =>
    rw [writeKeys] at hrun
    cases hpick : pickKey s.options s.draws st.drawn with
    | mk picked drawn =>
      rw [hpick] at hrun
      dsimp only at hrun
      cases picked with
      | none => cases hrun
      | some key =>
        have hkey := ne_nil_of_pickKey hpick
        have hdrawn : Reached cluster fresh r s.now posts { st with drawn := drawn } :=
          ⟨hst.leaves, hst.alike, hst.honest⟩
        obtain ⟨w, st₁, hwrite, rfl, hw, hst₁⟩ := writeKey_reached h hr hschema hkey hdrawn
        dsimp only at hrun
        rw [hwrite] at hrun
        dsimp only at hrun
        rw [eraseDups_append_key] at hrun
        obtain ⟨more, hlength, hmore, hkeys, hst'⟩ := ih hrun hst₁
        refine ⟨w :: more, congrArg (· + 1) hlength,
          List.forall_mem_cons.2 ⟨⟨hkey, hw⟩, hmore⟩, ?_, ?_⟩
        · rw [hkeys, List.append_assoc]
          rfl
        · rw [List.append_assoc] at hst'
          exact hst'

/-- Uniform picks never run out, so the writes are made. -/
theorem exists_writeKeys (huniform : s.options.distribution = .uniform) {schema : Schema}
    (hschema : schema ∈ cluster.schemas) (n : Nat) (keys : List Bytes)
    (hst : Reached cluster fresh r s.now posts st) :
    ∃ keys' st', writeKeys s schema n keys st = (.ok keys', st') := by
  induction n generalizing keys posts st with
  | zero => exact ⟨keys, st, rfl⟩
  | succ n ih =>
    have hpick : pickKey s.options s.draws st.drawn =
        (some (keyOf (s.draws.integer st.drawn).1), (s.draws.integer st.drawn).2) := by
      rw [pickKey, huniform]
    have hdrawn : Reached cluster fresh r s.now posts
        { st with drawn := (s.draws.integer st.drawn).2 } :=
      ⟨hst.leaves, hst.alike, hst.honest⟩
    obtain ⟨w, st₁, hwrite, -, -, hst₁⟩ := writeKey_reached h hr hschema (keyOf_ne_nil _) hdrawn
    rw [writeKeys, hpick]
    dsimp only
    rw [hwrite]
    exact ih _ hst₁

end

end Workload

end ReplicaCensus
