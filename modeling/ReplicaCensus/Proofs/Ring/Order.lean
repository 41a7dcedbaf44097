import Mathlib
import ReplicaCensus.Proofs.Ring.Labels
/-!
# The order in which nodes are added

Where the hash keeps the labels of the nodes apart, no search ever goes beyond the first label, and
a ring has the points of its nodes whatever was on it before. Points by ascending position have only
one order, so that the nodes alone make the ring.
-/

namespace ReplicaCensus.Ring

/-! ## 1. Points under their first labels -/

/-- The position that a number of a node has under its first label. -/
def home (hash : Bytes → Nat) (e : Int × Nat) : Nat := hash (labelBytes (label e.1 e.2))

/-- The points of nodes' numbers, each under its first label. -/
def plainPoints (hash : Bytes → Nat) (pairs : List (Int × Nat)) : List RingPoint :=
  pairs.map fun e => ⟨home hash e, label e.1 e.2, e.1⟩

theorem mem_plainPoints {hash : Bytes → Nat} {pairs : List (Int × Nat)} {p : RingPoint} :
    p ∈ plainPoints hash pairs ↔ ∃ e ∈ pairs, ⟨home hash e, label e.1 e.2, e.1⟩ = p :=
  List.mem_map

theorem plainPoints_append (hash : Bytes → Nat) (pairs more : List (Int × Nat)) :
    plainPoints hash (pairs ++ more) = plainPoints hash pairs ++ plainPoints hash more :=
  List.map_append

/-- A number whose position is free gets its point under the first label. -/
theorem place_of_free {hash : Bytes → Nat} {node : Int} {points : List RingPoint} {i : Nat}
    (h : isTaken points (home hash (node, i)) = false) :
    place hash node points i =
      .ok (insertPoint ⟨home hash (node, i), label node i, node⟩ points) := by
  unfold place
  rw [freeLabel_of_free h]
  rfl

section

variable {hash : Bytes → Nat} {pairs : List (Int × Nat)} {points : List RingPoint} {node : Int}

/-- Numbers whose positions differ from each other and from those that are taken all get their
points. -/
theorem exists_placeAll {is : List Nat} (hperm : points.Perm (plainPoints hash pairs))
    (hnodup : ((pairs ++ is.map (node, ·)).map (home hash)).Nodup) :
    ∃ points', placeAll hash node is points = .ok points' ∧
      points'.Perm (plainPoints hash (pairs ++ is.map (node, ·))) := by
  induction is generalizing pairs points with
  | nil =>
    rw [List.map_nil, List.append_nil]
    exact ⟨points, rfl, hperm⟩
  | cons i is ih =>
    rw [List.map_cons, List.append_cons] at hnodup ⊢
    have hfree : isTaken points (home hash (node, i)) = false := by
      rw [isTaken_eq_false]
      intro p hp heq
      obtain ⟨e, he, rfl⟩ := mem_plainPoints.1 (hperm.subset hp)
      simp only [List.map_append, List.nodup_append] at hnodup
      exact hnodup.1.2.2 _ (List.mem_map_of_mem he) _ (by simp) heq
    have hplaced : (insertPoint ⟨home hash (node, i), label node i, node⟩ points).Perm
        (plainPoints hash (pairs ++ [(node, i)])) := by
      rw [plainPoints_append]
      exact (insertPoint_perm _ _).trans (hperm.append_right _)
    obtain ⟨points', hpoints', hperm'⟩ := ih hplaced hnodup
    refine ⟨points', ?_, hperm'⟩
    rw [placeAll, place_of_free hfree]
    exact hpoints'

end

/-! ## 2. Rings of such points -/

/-- A ring that has the points of its nodes, each under its first label. -/
def Plain (ring : Ring) : Prop :=
  ring.points.Perm (plainPoints ring.hash (turns ring.vnodes ring.nodes))

/-- A hash that gives the labels of these nodes different positions. -/
def Separates (hash : Bytes → Nat) (vnodes : Nat) (members : Finset Int) : Prop :=
  Set.InjOn (home hash) {e | e.1 ∈ members ∧ e.2 < vnodes}

theorem Separates.nodup {hash : Bytes → Nat} {vnodes : Nat} {members : Finset Int}
    (h : Separates hash vnodes members) {nodes : List Int} (hnodes : nodes.Nodup)
    (hmem : ∀ node ∈ nodes, node ∈ members) : ((turns vnodes nodes).map (home hash)).Nodup := by
  apply (nodup_turns vnodes hnodes).map_on
  intro e he e' he' heq
  rw [mem_turns] at he he'
  exact h ⟨hmem _ he.1, he.2⟩ ⟨hmem _ he'.1, he'.2⟩ heq

/-- A node finds all its positions free. -/
theorem exists_add {ring : Ring} {members : Finset Int}
    (h : Separates ring.hash ring.vnodes members) (hr : Sound ring) (hplain : Plain ring)
    (hmem : ∀ node ∈ ring.nodes, node ∈ members) {node : Int} (hnode : node ∈ members) :
    ∃ ring', ring.add node = .ok ring' ∧ Plain ring' ∧ ring'.hash = ring.hash ∧
      ring'.vnodes = ring.vnodes ∧ ∀ m ∈ ring'.nodes, m ∈ members := by
  by_cases hn : node ∈ ring.nodes
  · exact ⟨ring, add_of_mem hn, hplain, rfl, rfl, hmem⟩
  · have hall : ∀ m ∈ ring.nodes ++ [node], m ∈ members := by simpa [or_imp, forall_and, hnode]
    have hnodup : (ring.nodes ++ [node]).Nodup := by
      rw [List.nodup_append_comm]
      exact hr.nodup.cons hn
    have hturns : turns ring.vnodes (ring.nodes ++ [node]) =
        turns ring.vnodes ring.nodes ++ (List.range ring.vnodes).map (node, ·) := by
      simp [turns]
    have hhomes := h.nodup hnodup hall
    rw [hturns] at hhomes
    obtain ⟨points', hpoints', hperm⟩ := exists_placeAll hplain hhomes
    refine ⟨{ ring with points := points', nodes := ring.nodes ++ [node] }, ?_, ?_, rfl, rfl, hall⟩
    · unfold add
      rw [if_neg (by simpa using hn), hpoints']
    · show points'.Perm (plainPoints ring.hash (turns ring.vnodes (ring.nodes ++ [node])))
      rw [hturns]
      exact hperm

theorem exists_addAll {ring : Ring} {members : Finset Int}
    (h : Separates ring.hash ring.vnodes members) (hr : Sound ring) (hplain : Plain ring)
    (hmem : ∀ node ∈ ring.nodes, node ∈ members) {nodes : List Int}
    (hnodes : ∀ node ∈ nodes, node ∈ members) :
    ∃ ring', addAll nodes ring = .ok ring' ∧ Plain ring' := by
  induction nodes generalizing ring with
  | nil => exact ⟨ring, rfl, hplain⟩
  | cons node rest ih =>
    rw [List.forall_mem_cons] at hnodes
    obtain ⟨next, hadd, hnext, hhash, hvnodes, hmem'⟩ := exists_add h hr hplain hmem hnodes.1
    rw [← hhash, ← hvnodes] at h
    obtain ⟨ring', hring', hplain'⟩ := ih h (add_sound hr hadd) hnext hmem' hnodes.2
    refine ⟨ring', ?_, hplain'⟩
    rw [addAll, hadd]
    exact hring'

/-- Nodes can be put on a ring at once or one after the other. -/
theorem bind_addAll (hash : Bytes → Nat) (vnodes : Int) (first more : List Int) :
    (ofNodes hash vnodes first).bind (addAll more) = ofNodes hash vnodes (first ++ more) := by
  have happend : ∀ ring, (addAll first ring).bind (addAll more) = addAll (first ++ more) ring := by
    induction first with
    | nil => exact fun _ => rfl
    | cons node rest ih =>
      intro ring
      rw [List.cons_append, addAll, addAll]
      cases ring.add node with
      | error e => rfl
      | ok next => exact ih next
  unfold ofNodes
  split
  · rfl
  · exact happend _

theorem exists_ofNodes {hash : Bytes → Nat} {vnodes : Int} (hpos : 1 ≤ vnodes) {nodes : List Int}
    (h : Separates hash vnodes.toNat nodes.toFinset) :
    ∃ ring, ofNodes hash vnodes nodes = .ok ring ∧ Plain ring := by
  unfold ofNodes
  rw [if_neg (by omega)]
  exact exists_addAll h (empty_sound hash _) (List.Perm.refl []) (by simp [empty]) (by simp)

/-! ## 3. One ring for one set of nodes -/

/-- Two rings with the points of the same nodes have the same points. -/
theorem points_eq_of_plain {hash : Bytes → Nat} {vnodes : Int} {nodes nodes' : List Int}
    {ring ring' : Ring} (h : ofNodes hash vnodes nodes = .ok ring) (hplain : Plain ring)
    (h' : ofNodes hash vnodes nodes' = .ok ring') (hplain' : Plain ring')
    (hsame : nodes.toFinset = nodes'.toFinset) : ring'.points = ring.points := by
  obtain ⟨-, hvnodes, hhash, hnodes⟩ := of_ofNodes h
  obtain ⟨-, hvnodes', hhash', hnodes'⟩ := of_ofNodes h'
  have hr := ofNodes_sound h
  have hr' := ofNodes_sound h'
  have hmembers : ring'.nodes.Perm ring.nodes := by
    rw [List.perm_ext_iff_of_nodup hr'.nodup hr.nodup, hnodes, hnodes']
    intro node
    have hmem := congrArg (node ∈ ·) hsame
    simpa using hmem.symm
  have hperm : ring'.points.Perm ring.points := by
    unfold Plain at hplain hplain'
    rw [hhash, hvnodes] at hplain
    rw [hhash', hvnodes'] at hplain'
    exact hplain'.trans (((hmembers.flatMap_right _).map _).trans hplain.symm)
  -- of two points, one stands before the other in at most one of the two orders
  apply hperm.eq_of_pairwise _ hr'.ascending hr.ascending
  intro p q _ _ hlt hgt
  omega

/-- A ring does not depend on the order in which its nodes were added, nor on how often. Where the
labels of the nodes have different positions, every way to add exactly these nodes makes a ring, all
of them with the same snapshot, in which each label stands at its own position, and with the same
nodes for every key. -/
theorem ofNodes_order_free {hash : Bytes → Nat} {vnodes : Int} (hpos : 1 ≤ vnodes)
    {members : Finset Int}
    (hdistinct : Set.InjOn (fun e : Int × Nat => hash (labelBytes (label e.1 e.2)))
      {e | e.1 ∈ members ∧ e.2 < vnodes})
    {first more first' more' : List Int} (h : (first ++ more).toFinset = members)
    (h' : (first' ++ more').toFinset = members) :
    ∃ ring ring', (ofNodes hash vnodes first).bind (addAll more) = .ok ring ∧
      (ofNodes hash vnodes first').bind (addAll more') = .ok ring' ∧
      ring'.snapshot = ring.snapshot ∧
      (∀ key n, ring'.replicas key n = ring.replicas key n) ∧
      ∀ position name, (position, name) ∈ ring.snapshot ↔
        ∃ node ∈ members, ∃ i : Nat, i < vnodes ∧ name = label node i ∧
          position = hash (labelBytes name) := by
  have hseparates : Separates hash vnodes.toNat members := by
    apply hdistinct.mono
    intro e he
    exact ⟨he.1, Int.lt_toNat.1 he.2⟩
  rw [bind_addAll, bind_addAll]
  obtain ⟨ring, hring, hplain⟩ := exists_ofNodes hpos (h ▸ hseparates)
  obtain ⟨ring', hring', hplain'⟩ := exists_ofNodes hpos (h' ▸ hseparates)
  have hpoints := points_eq_of_plain hring hplain hring' hplain' (h.trans h'.symm)
  obtain ⟨-, hvnodes, hhash, hnodes⟩ := of_ofNodes hring
  refine ⟨ring, ring', hring, hring', ?_, fun key n => ?_, fun position name => ?_⟩
  · rw [snapshot, snapshot, hpoints]
  · obtain ⟨-, -, hhash', -⟩ := of_ofNodes hring'
    rw [replicas, replicas, hpoints, hhash, hhash']
  · -- the points of the ring are those of the nodes that were added
    have hmem : ∀ p, p ∈ ring.points ↔ p ∈ plainPoints hash (turns vnodes.toNat ring.nodes) := by
      rw [← hhash, ← hvnodes]
      exact fun p => hplain.mem_iff
    simp only [snapshot, List.mem_map, hmem, mem_plainPoints, mem_turns, hnodes, ← h,
      List.mem_eraseDups, List.mem_toFinset, Prod.mk.injEq]
    constructor
    · rintro ⟨p, ⟨e, he, rfl⟩, rfl, rfl⟩
      exact ⟨e.1, he.1, e.2, Int.lt_toNat.1 he.2, rfl, rfl⟩
    · rintro ⟨node, hnode, i, hi, rfl, rfl⟩
      exact ⟨_, ⟨(node, i), ⟨hnode, Int.lt_toNat.2 hi⟩, rfl⟩, rfl, rfl⟩

/-- A hash that puts the labels of two nodes alternately: the number first, then the node. -/
def alternating (key : Bytes) : Nat := (key.getLast?.getD 0).toNat * 256 + (key.head?.getD 0).toNat

theorem separates_alternating : Separates alternating 2 {0, 7} := by
  have hall : ∀ n ∈ ({0, 7} : Finset Int), ∀ i < 2, ∀ m ∈ ({0, 7} : Finset Int), ∀ j < 2,
      home alternating (n, i) = home alternating (m, j) → (n, i) = (m, j) := by decide
  rintro ⟨n, i⟩ ⟨hn, hi⟩ ⟨m, j⟩ ⟨hm, hj⟩ heq
  exact hall n hn i hi m hm j hj heq

theorem ofNodes_order_free_alternating :
    Set.InjOn (fun e : Int × Nat => alternating (labelBytes (label e.1 e.2)))
        {e | e.1 ∈ ({0, 7} : Finset Int) ∧ e.2 < (2 : Int)} ∧
      ∃ ring ring', (ofNodes alternating 2 [0, 7]).bind (addAll []) = .ok ring ∧
        (ofNodes alternating 2 [7]).bind (addAll [0, 7]) = .ok ring' ∧
        ring'.snapshot = ring.snapshot ∧
        (∀ key n, ring'.replicas key n = ring.replicas key n) ∧
        (alternating (labelBytes "7#1"), "7#1") ∈ ring.snapshot := by
  have hdistinct : Set.InjOn (fun e : Int × Nat => alternating (labelBytes (label e.1 e.2)))
      {e | e.1 ∈ ({0, 7} : Finset Int) ∧ e.2 < (2 : Int)} := by
    apply separates_alternating.mono
    rintro e ⟨he, hi⟩
    exact ⟨he, by omega⟩
  have hmembers : ([0, 7] ++ [] : List Int).toFinset = {0, 7} := by decide
  have hmembers' : ([7] ++ [0, 7] : List Int).toFinset = {0, 7} := by decide
  obtain ⟨ring, ring', hring, hring', hsnapshot, hreplicas, hlabels⟩ :=
    ofNodes_order_free (by decide) hdistinct hmembers hmembers'
  exact ⟨hdistinct, ring, ring', hring, hring', hsnapshot, hreplicas,
    (hlabels _ _).2 ⟨7, by decide, 1, by decide, by decide, rfl⟩⟩

end ReplicaCensus.Ring
