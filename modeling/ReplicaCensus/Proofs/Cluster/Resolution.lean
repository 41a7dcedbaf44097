import Mathlib
import ReplicaCensus.Proofs.Cluster.Routing
import ReplicaCensus.Proofs.Ring.Order
/-!
# Resolving a key, whatever was asked before

A resolver only ever changes by noting stores that passed their check, and a store that is noted
would pass again. So its answers are those of a fresh resolver: they depend on the topology alone,
and of the topology on no more than the ids and the number of positions.
-/

namespace ReplicaCensus

namespace Topology

theorem exists_get {t : Topology} {id : Int} (h : id ∈ t.nodeIds) :
    ∃ m, t.get id = .ok m ∧ m.id = id := by
  obtain ⟨m, hm, rfl⟩ := mem_nodeIds.1 h
  exact ⟨m, get_of_mem hm, rfl⟩

end Topology

namespace Resolver

/-! ## 1. What a resolver is asked -/

/-- A question to a resolver: whether a store can be routed, which nodes have a key, or which node
has its master position. -/
inductive Question where
  | check (schema : Schema)
  | resolve (schema : Schema) (key : Bytes)
  | master (schema : Schema) (key : Bytes)

/-- The resolver after a question. -/
def after (r : Resolver) : Question → Resolver
  | .check schema =>
    match r.check schema with
    | .ok r => r
    -- a check that fails notes nothing
    | .error _ => r
  | .resolve schema key => (r.resolve schema key).2
  | .master schema key => (r.master schema key).2

def afterAll (r : Resolver) (questions : List Question) : Resolver := questions.foldl after r

/-- All that a resolver keeps of a question is a store that passed its check. -/
theorem after_cases (r : Resolver) (q : Question) :
    r.after q = r ∨ ∃ schema, r.check schema = .ok (r.after q) := by
  have hchecked : ∀ schema, r.after (.check schema) = r ∨
      r.check schema = .ok (r.after (.check schema)) := by
    intro schema
    cases h : r.check schema <;> simp [after, h]
  have hresolved : ∀ schema key, (r.resolve schema key).2 = r.after (.check schema) := by
    intro schema key
    cases h : r.check schema <;> simp [after, resolve, h]
  cases q with
  | check schema => exact (hchecked schema).imp_right fun h => ⟨schema, h⟩
  | resolve schema key =>
    rw [after, hresolved]
    exact (hchecked schema).imp_right fun h => ⟨schema, h⟩
  | master schema key =>
    -- asking for the first node resolves the key like asking for all
    show (r.resolve schema key).2 = r ∨ ∃ schema', r.check schema' = .ok (r.resolve schema key).2
    rw [hresolved]
    exact (hchecked schema).imp_right fun h => ⟨schema, h⟩

theorem Alike.trans {r r' r'' : Resolver} (h : Alike r r') (h' : Alike r' r'') : Alike r r'' :=
  ⟨h'.topology.trans h.topology, h'.ring.trans h.ring⟩

theorem honest_after {r : Resolver} (hr : r.Honest) (q : Question) :
    Alike r (r.after q) ∧ (r.after q).Honest := by
  rcases r.after_cases q with h | ⟨schema, h⟩
  · rw [h]
    exact ⟨⟨rfl, rfl⟩, hr⟩
  · exact ⟨alike_check h, honest_check hr h⟩

/-- No question changes the ring or the topology, or has a store noted that is not routable. -/
theorem honest_afterAll {r : Resolver} (hr : r.Honest) (questions : List Question) :
    Alike r (r.afterAll questions) ∧ (r.afterAll questions).Honest := by
  unfold afterAll
  induction questions generalizing r with
  | nil => exact ⟨⟨rfl, rfl⟩, hr⟩
  | cons q rest ih =>
    obtain ⟨halike, hhonest⟩ := honest_after hr q
    obtain ⟨halike', hhonest'⟩ := ih hhonest
    exact ⟨halike.trans halike', hhonest'⟩

/-! ## 2. What it answers -/

/-- The notes save a check and change no answer. -/
theorem replicas_eq {r : Resolver} (hr : r.Honest) (schema : Schema) (key : Bytes) :
    r.replicas schema key = (routable r.topology schema).bind fun _ => r.walk schema key := by
  cases h : routable r.topology schema with
  | ok u => exact replicas_eq_walk hr h key
  | error e =>
    have hunnoted : r.checked.contains schema = false := by
      rw [List.contains_eq_mem, decide_eq_false_iff_not]
      intro hmem
      have hok := hr schema hmem
      rw [h] at hok
      cases hok
    rw [replicas, resolve, check, hunnoted, h]
    rfl

/-- Resolvers with one ring whose topologies have the same ids answer alike. -/
theorem replicas_congr {r r' : Resolver} (hr : r.Honest) (hr' : r'.Honest)
    (hids : r'.topology.nodeIds = r.topology.nodeIds) (hring : r'.ring = r.ring) (schema : Schema)
    (key : Bytes) : r'.replicas schema key = r.replicas schema key := by
  rw [replicas_eq hr, replicas_eq hr', routable, routable, hids]
  unfold walk
  rw [hids, hring]

/-- A resolver of the topology with its members in another order has the same ring. -/
theorem make_congr {hash : Bytes → Nat} {t t' : Topology} {r : Resolver} (h : make hash t = .ok r)
    (hmembers : t'.members.Perm t.members) (hvnodes : t'.vnodes = t.vnodes) :
    make hash t' = .ok ⟨t', r.ring, []⟩ := by
  obtain ⟨ring, hring, rfl⟩ := make_eq_ok.1 h
  rw [← hvnodes, ← Topology.nodeIds_congr hmembers] at hring
  exact make_eq_ok.2 ⟨ring, hring, rfl⟩

/-- A key has no replicas exactly if its store is not routable or asks the ring for a negative
number of nodes. -/
theorem exists_error_iff {t : Topology} {r : Resolver} (hof : r.Of t) (hr : r.Honest)
    (schema : Schema) (key : Bytes) :
    (∃ e, r.replicas schema key = .error e) ↔
      ¬(routable t schema = .ok () ∧
        (schema.strategy = Schema.consistentRouting → 0 ≤ schema.replicationFactor)) := by
  rw [replicas_eq hr, hof.topology]
  cases h : routable t schema with
  | error e => simp [Except.bind]
  | ok u =>
    obtain ⟨hknown, -, hwide⟩ := routable_iff.1 h
    simp only [Except.bind, true_and]
    by_cases hall : schema.strategy = Schema.allRouting
    · have hother : Schema.allRouting ≠ Schema.consistentRouting := by decide
      simp [walk, hall, hother]
    · have hring := hknown.resolve_right hall
      rw [walk_eq hof hall (hwide hring)]
      split <;> simp_all

/-- No walk is short but that of a store that asks for a negative number of nodes. -/
theorem replicationFactor_neg_of_shortWalk {t : Topology} {r : Resolver} (hof : r.Of t)
    (hr : r.Honest) {schema : Schema} {key : Bytes} {store : String} {found : Nat} {factor : Int}
    (h : r.replicas schema key = .error (.shortWalk store found factor)) :
    schema.replicationFactor < 0 := by
  rw [replicas_eq hr, hof.topology] at h
  cases hroutable : routable t schema with
  | error e =>
    -- the checks before the walk have errors of their own
    rw [hroutable, Except.bind] at h
    cases h
    unfold routable at hroutable
    dsimp only at hroutable
    split at hroutable
    · cases hroutable
    · split at hroutable
      · cases hroutable
      · split at hroutable <;> cases hroutable
  | ok u =>
    obtain ⟨hknown, -, hwide⟩ := routable_iff.1 hroutable
    rw [hroutable, Except.bind] at h
    by_cases hall : schema.strategy = Schema.allRouting
    · rw [walk, if_pos hall] at h
      cases h
    · rw [walk_eq hof hall (hwide (hknown.resolve_right hall))] at h
      by_contra hneg
      rw [if_pos (by omega)] at h
      cases h

/-- The nodes that a key is found on. -/
structure Located (hash : Bytes → Nat) (t : Topology) (schema : Schema) (key : Bytes)
    (nodes : List Int) : Prop where
  nodup : nodes.Nodup
  known : ∀ node ∈ nodes, ∃ m, t.get node = .ok m ∧ m.id = node
  all : schema.strategy = Schema.allRouting →
    nodes.Pairwise (· < ·) ∧ ∀ m ∈ t.members, m.id ∈ nodes
  /-- On the ring they are the first so many owners that a walk meets, behind the key first. -/
  met : schema.strategy = Schema.consistentRouting →
    (nodes.length : Int) = schema.replicationFactor ∧
      ∃ ring, Ring.ofNodes hash t.vnodes t.nodeIds = .ok ring ∧
        nodes = ((ring.points.filter (fun p => hash key < p.position) ++
          ring.points.filter fun p => p.position ≤ hash key).map
            RingPoint.owner).eraseDups.take schema.replicationFactor.toNat

theorem located_of_walk {hash : Bytes → Nat} {t : Topology} {r : Resolver}
    (h : make hash t = .ok r) {schema : Schema} {key : Bytes} {nodes : List Int}
    (hwalk : r.walk schema key = .ok nodes) : Located hash t schema key nodes where
  nodup := nodup_of_walk hwalk
  known := fun node hnode => Topology.exists_get (mem_of_walk (of_make h) hwalk node hnode)
  all := by
    intro hall
    rw [walk, if_pos hall, (of_make h).topology] at hwalk
    cases hwalk
    exact ⟨t.nodeIds_ascending, fun m hm => Topology.mem_nodeIds.2 ⟨m, hm, rfl⟩⟩
  met := by
    intro hring
    have hall : schema.strategy ≠ Schema.allRouting := by
      rw [hring]
      decide
    obtain ⟨ring, hmade, rfl⟩ := make_eq_ok.1 h
    obtain ⟨-, -, hhash, -⟩ := Ring.of_ofNodes hmade
    refine ⟨length_of_walk hall hwalk, ring, hmade, ?_⟩
    rw [← hhash, ← Ring.clockwise_eq_filter (Ring.ofNodes_sound hmade).ascending]
    unfold walk at hwalk
    rw [if_neg hall] at hwalk
    dsimp only at hwalk
    split at hwalk
    · cases hwalk
      exact Ring.replicas_eq_take ring key schema.replicationFactor
    · cases hwalk

/-! ## 3. All of it, at any time -/

/-- Whatever a resolver was asked before, it fails to resolve a key exactly if the strategy of the
store is not known, there are no nodes, or the store asks the ring for a negative number of nodes or
for more than there are. Otherwise it gives different members, by ascending id for a store that is
on all of them, and else as many as the store asks for, in the order in which a walk meets them. A
resolver that was asked nothing answers the same, and so does one of the members in any order. -/
theorem replicas_after_questions {hash : Bytes → Nat} {t : Topology} {r : Resolver}
    (h : make hash t = .ok r) (questions : List Question) (schema : Schema) (key : Bytes) :
    ((∃ e, (r.afterAll questions).replicas schema key = .error e) ↔
      schema.strategy ≠ Schema.consistentRouting ∧ schema.strategy ≠ Schema.allRouting ∨
      t.members = [] ∨
      schema.strategy = Schema.consistentRouting ∧
        (schema.replicationFactor < 0 ∨ t.members.length < schema.replicationFactor)) ∧
    (∀ nodes, (r.afterAll questions).replicas schema key = .ok nodes →
      Located hash t schema key nodes) ∧
    (0 ≤ schema.replicationFactor → ∀ store found factor,
      (r.afterAll questions).replicas schema key ≠ .error (.shortWalk store found factor)) ∧
    (r.afterAll questions).replicas schema key = r.replicas schema key ∧
    ∀ t' : Topology, t'.members.Perm t.members → t'.vnodes = t.vnodes →
      ∃ r', make hash t' = .ok r' ∧ ∀ questions',
        (r'.afterAll questions').replicas schema key =
          (r.afterAll questions).replicas schema key := by
  have hof := of_make h
  have hr := honest_of_make h
  obtain ⟨halike, hhonest⟩ := honest_afterAll hr questions
  have hfresh : (r.afterAll questions).replicas schema key = r.replicas schema key :=
    replicas_congr hr hhonest (by rw [halike.topology]) halike.ring schema key
  rw [hfresh]
  refine ⟨?_, fun nodes hnodes => ?_, fun hfactor store found factor hshort => ?_, rfl,
    fun t' hmembers hvnodes => ?_⟩
  · rw [exists_error_iff hof hr, routable_iff]
    by_cases hring : schema.strategy = Schema.consistentRouting
    · simp only [hring, true_or, true_and, forall_const, ne_eq, not_true_eq_false, false_and,
        false_or]
      by_cases hnone : t.members = []
      · simp [hnone]
      · simp only [hnone, not_false_eq_true, true_and, false_or]
        omega
    · simp only [hring, false_or, false_implies, and_true, ne_eq, not_false_eq_true, true_and,
        false_and, or_false]
      tauto
  · rw [replicas_eq hr] at hnodes
    cases hroutable : routable r.topology schema with
    | error e =>
      rw [hroutable] at hnodes
      cases hnodes
    | ok u =>
      rw [hroutable] at hnodes
      exact located_of_walk h hnodes
  · have hneg := replicationFactor_neg_of_shortWalk hof hr hshort
    omega
  · have hmade := make_congr h hmembers hvnodes
    refine ⟨_, hmade, fun questions' => ?_⟩
    obtain ⟨halike', hhonest'⟩ := honest_afterAll (honest_of_make hmade) questions'
    apply replicas_congr hr hhonest' _ halike'.ring
    rw [halike'.topology, hof.topology]
    exact Topology.nodeIds_congr hmembers

/-- Two members, the one with the greater id first. -/
def twoMembers : Topology := ⟨[⟨7, "h", 1⟩, ⟨0, "h", 2⟩], 2, by decide, by decide⟩

/-- A store on the ring that takes a negative number of nodes passes the check and is noted, and yet
it is not resolved, then or later. -/
theorem replicas_after_questions_noted :
    ∃ r, make Ring.alternating twoMembers = .ok r ∧
      (∀ nodes, (r.afterAll [.check ⟨"s", 3, Schema.consistentRouting⟩,
          .master ⟨"s", 0, Schema.consistentRouting⟩ []]).replicas
            ⟨"s", 2, Schema.consistentRouting⟩ [0x61] = .ok nodes → nodes.length = 2) ∧
      ∃ e, (r.afterAll [.resolve ⟨"s", -1, Schema.consistentRouting⟩ [0x61]]).replicas
        ⟨"s", -1, Schema.consistentRouting⟩ [0x61] = .error e := by
  have hids : twoMembers.nodeIds = [0, 7] := by
    simp [Topology.nodeIds, twoMembers, List.mergeSort, List.MergeSort.Internal.splitInTwo]
  obtain ⟨ring, hring, -⟩ := @Ring.exists_ofNodes Ring.alternating 2 (by decide) [0, 7]
    Ring.separates_alternating
  have hmade : make Ring.alternating twoMembers = .ok ⟨twoMembers, ring, []⟩ := by
    refine make_eq_ok.2 ⟨ring, ?_, rfl⟩
    rw [hids]
    exact hring
  refine ⟨_, hmade, fun nodes hnodes => ?_, ?_⟩
  · obtain ⟨-, hlocated, -⟩ := replicas_after_questions hmade _ _ _
    have hlength : (nodes.length : Int) = 2 := ((hlocated nodes hnodes).met rfl).1
    omega
  · obtain ⟨herror, -⟩ := replicas_after_questions hmade _ _ _
    exact herror.2 (.inr (.inr ⟨rfl, .inl (by decide)⟩))

end Resolver

end ReplicaCensus
