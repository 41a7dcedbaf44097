import Mathlib
import ReplicaCensus.Ring.Basic
import ReplicaCensus.Proofs.Distinct
/-!
# Rings and their walks

What every ring keeps: its points ascend strictly, no point belongs to a node that is not on the
ring, and every node has a point. From it follows what a walk finds: the owners of the points behind
the key, then of those before it, each owner where it is met first. The nodes of a key are the first
so many of that list, the key's preference list.
-/

namespace ReplicaCensus.Ring

/-- Points by strictly ascending position. -/
def Ascending (points : List RingPoint) : Prop :=
  points.Pairwise fun p q => p.position < q.position

/-- What every ring keeps. -/
structure Sound (ring : Ring) : Prop where
  ascending : Ascending ring.points
  nodup : ring.nodes.Nodup
  owner_mem : ∀ p ∈ ring.points, p.owner ∈ ring.nodes
  exists_owner : 0 < ring.vnodes → ∀ node ∈ ring.nodes, ∃ p ∈ ring.points, p.owner = node

/-! ## 1. Putting points in their places -/

theorem isTaken_eq_false {points : List RingPoint} {position : Nat} :
    isTaken points position = false ↔ ∀ p ∈ points, p.position ≠ position := by
  simp [isTaken]

theorem freeLabel_of_free {hash : Bytes → Nat} {points : List RingPoint} {label : String}
    (h : isTaken points (hash (labelBytes label)) = false) :
    freeLabel hash points label = some (label, hash (labelBytes label)) := by
  rw [freeLabel, Search.run]
  exact if_neg (Bool.eq_false_iff.1 h)

theorem freeLabel_of_taken {hash : Bytes → Nat} {points : List RingPoint} {label : String}
    (h : isTaken points (hash (labelBytes label)) = true) :
    freeLabel hash points label = freeLabel hash points (label ++ "_") := by
  rw [freeLabel, Search.run]
  exact if_pos h

/-- A label that is found leads to a position that is free. -/
theorem isTaken_of_freeLabel {hash : Bytes → Nat} {points : List RingPoint} {label : String}
    {found : String × Nat} (h : freeLabel hash points label = some found) :
    isTaken points found.2 = false := by
  -- the search need not end, so there is no recursion to induct on but that of its values
  refine Search.run.partial_correctness (fun s found => isTaken s.points found.2 = false) ?_
    ⟨hash, points, label⟩ found h
  intro search ih s found hfound
  split at hfound
  · exact ih s.next found hfound
  · next hfree =>
    cases hfound
    simpa using hfree

theorem mem_insertPoint {p q : RingPoint} {points : List RingPoint} :
    q ∈ insertPoint p points ↔ q = p ∨ q ∈ points := by
  induction points with
  | nil => simp [insertPoint]
  | cons r rest ih =>
    unfold insertPoint
    split
    · exact List.mem_cons
    · rw [List.mem_cons, ih, List.mem_cons]
      tauto

theorem insertPoint_ascending {p : RingPoint} {points : List RingPoint} (h : Ascending points)
    (hfree : isTaken points p.position = false) : Ascending (insertPoint p points) := by
  rw [isTaken_eq_false] at hfree
  induction points with
  | nil => exact List.pairwise_singleton _ _
  | cons q rest ih =>
    obtain ⟨hq, hrest⟩ := List.pairwise_cons.1 h
    unfold insertPoint
    split
    · next hlt =>
      refine List.pairwise_cons.2 ⟨?_, h⟩
      intro r hr
      rcases List.mem_cons.1 hr with rfl | hr
      · exact hlt
      · exact Nat.lt_trans hlt (hq r hr)
    · next hge =>
      -- the position is free, so behind `q` means strictly behind it
      have hne : q.position ≠ p.position := hfree q List.mem_cons_self
      refine List.pairwise_cons.2 ⟨?_, ih hrest fun r hr => hfree r (List.mem_cons_of_mem _ hr)⟩
      intro r hr
      -- what follows `q` now is the new point or one that followed it before
      rcases mem_insertPoint.1 hr with rfl | hr
      · omega
      · exact hq r hr

/-- A new point shows nowhere in a selection that leaves it out. -/
theorem filter_insertPoint {select : RingPoint → Bool} {p : RingPoint} (hp : select p = false)
    (points : List RingPoint) : (insertPoint p points).filter select = points.filter select := by
  induction points with
  | nil => simp [insertPoint, hp]
  | cons q rest ih =>
    unfold insertPoint
    split
    · rw [List.filter_cons_of_neg (by simp [hp])]
    · rw [List.filter_cons, List.filter_cons, ih]

/-- What the points of a node do to those that are there: the order stays strict, a selection
without the node's points sees nothing of them, and none but them come in. -/
structure Joined (node : Int) (points points' : List RingPoint) : Prop where
  ascending : Ascending points'
  filter_eq : ∀ select : RingPoint → Bool, (∀ p, p.owner = node → select p = false) →
    points'.filter select = points.filter select
  mem_or_owner : ∀ p ∈ points', p ∈ points ∨ p.owner = node
  mem : ∀ p ∈ points, p ∈ points'

theorem Joined.refl {node : Int} {points : List RingPoint} (h : Ascending points) :
    Joined node points points :=
  ⟨h, fun _ _ => rfl, fun _ hp => .inl hp, fun _ hp => hp⟩

theorem Joined.trans {node : Int} {points points' points'' : List RingPoint}
    (h : Joined node points points') (h' : Joined node points' points'') :
    Joined node points points'' where
  ascending := h'.ascending
  filter_eq := fun select hselect =>
    (h'.filter_eq select hselect).trans (h.filter_eq select hselect)
  mem_or_owner := fun p hp => (h'.mem_or_owner p hp).elim (h.mem_or_owner p) .inr
  mem := fun p hp => h'.mem p (h.mem p hp)

theorem place_joined {hash : Bytes → Nat} {node : Int} {i : Nat} {points points' : List RingPoint}
    (hasc : Ascending points) (h : place hash node points i = .ok points') :
    Joined node points points' ∧ ∃ p ∈ points', p.owner = node := by
  unfold place at h
  split at h
  · cases h
  · next label position hfound =>
    cases h
    -- the only new point is the one at the free position, and the node owns it
    refine ⟨⟨insertPoint_ascending hasc (isTaken_of_freeLabel hfound), ?_, ?_, ?_⟩,
      ⟨position, label, node⟩, mem_insertPoint.2 (.inl rfl), rfl⟩
    · intro select hselect
      exact filter_insertPoint (hselect _ rfl) points
    · intro p hp
      rcases mem_insertPoint.1 hp with rfl | hp
      · exact .inr rfl
      · exact .inl hp
    · intro p hp
      exact mem_insertPoint.2 (.inr hp)

theorem placeAll_joined {hash : Bytes → Nat} {node : Int} {is : List Nat}
    {points points' : List RingPoint} (hasc : Ascending points)
    (h : placeAll hash node is points = .ok points') : Joined node points points' := by
  induction is generalizing points with
  | nil => cases h; exact Joined.refl hasc
  | cons i is ih =>
    unfold placeAll at h
    split at h
    · cases h
    · next placed hplace =>
      -- each point joins the ones before it, and joining twice is joining
      have hplaced := (place_joined hasc hplace).1
      exact hplaced.trans (ih hplaced.ascending h)

theorem exists_owner_of_placeAll {hash : Bytes → Nat} {node : Int} {is : List Nat}
    {points points' : List RingPoint} (hasc : Ascending points) (hne : is ≠ [])
    (h : placeAll hash node is points = .ok points') : ∃ p ∈ points', p.owner = node := by
  cases is with
  | nil => exact absurd rfl hne
  | cons i is =>
    unfold placeAll at h
    split at h
    · cases h
    · next placed hplace =>
      obtain ⟨hplaced, p, hp, hnode⟩ := place_joined hasc hplace
      exact ⟨p, (placeAll_joined hplaced.ascending h).mem p hp, hnode⟩

/-! ## 2. What every ring keeps -/

theorem empty_sound (hash : Bytes → Nat) (vnodes : Nat) : Sound (empty hash vnodes) where
  ascending := List.Pairwise.nil
  nodup := List.nodup_nil
  owner_mem := fun _ hp => nomatch hp
  exists_owner := fun _ _ hn => nomatch hn

theorem add_of_mem {ring : Ring} {node : Int} (h : node ∈ ring.nodes) : ring.add node = .ok ring :=
  if_pos (List.contains_iff_mem.2 h)

/-- Adding a node that is not on the ring places its points and notes the node. -/
theorem add_eq_ok {ring ring' : Ring} {node : Int} (hn : node ∉ ring.nodes)
    (h : ring.add node = .ok ring') :
    placeAll ring.hash node (List.range ring.vnodes) ring.points = .ok ring'.points ∧
      ring'.nodes = ring.nodes ++ [node] ∧ ring'.hash = ring.hash ∧
      ring'.vnodes = ring.vnodes := by
  unfold add at h
  rw [if_neg (by simpa using hn)] at h
  split at h
  · cases h
  · next points hpoints =>
    cases h
    exact ⟨hpoints, rfl, rfl, rfl⟩

theorem add_sound {ring ring' : Ring} {node : Int} (hr : Sound ring)
    (h : ring.add node = .ok ring') : Sound ring' := by
  by_cases hn : node ∈ ring.nodes
  · rw [add_of_mem hn] at h
    cases h
    -- a node that is on the ring already changes nothing
    exact hr
  · obtain ⟨hplace, hnodes, -, hvnodes⟩ := add_eq_ok hn h
    have hjoined := placeAll_joined hr.ascending hplace
    refine ⟨hjoined.ascending, ?_, ?_, ?_⟩
    · rw [hnodes, List.nodup_append]
      refine ⟨hr.nodup, List.nodup_singleton _, ?_⟩
      intro a ha b hb e
      rw [List.mem_singleton] at hb
      exact hn (hb ▸ e ▸ ha)
    · intro p hp
      rw [hnodes, List.mem_append, List.mem_singleton]
      exact (hjoined.mem_or_owner p hp).imp (hr.owner_mem p) id
    · intro hpos m hm
      rw [hvnodes] at hpos
      rw [hnodes, List.mem_append, List.mem_singleton] at hm
      rcases hm with hm | rfl
      · obtain ⟨p, hp, hpm⟩ := hr.exists_owner hpos m hm
        exact ⟨p, hjoined.mem p hp, hpm⟩
      -- with a position to take, the new node takes one
      · have hne : List.range ring.vnodes ≠ [] := by
          rw [Ne, List.range_eq_nil]
          omega
        exact exists_owner_of_placeAll hr.ascending hne hplace

theorem addAll_sound {nodes : List Int} {ring ring' : Ring} (hr : Sound ring)
    (h : addAll nodes ring = .ok ring') : Sound ring' := by
  induction nodes generalizing ring with
  | nil => cases h; exact hr
  | cons node rest ih =>
    unfold addAll at h
    split at h
    · cases h
    · next next hnext => exact ih (add_sound hr hnext) h

/-- Every ring that is made keeps what a ring keeps. -/
theorem ofNodes_sound {hash : Bytes → Nat} {vnodes : Int} {nodes : List Int} {ring : Ring}
    (h : ofNodes hash vnodes nodes = .ok ring) : Sound ring := by
  unfold ofNodes at h
  split at h
  · cases h
  · exact addAll_sound (empty_sound _ _) h

theorem vnodes_addAll {nodes : List Int} {ring ring' : Ring} (h : addAll nodes ring = .ok ring') :
    ring'.vnodes = ring.vnodes ∧ ring'.hash = ring.hash := by
  induction nodes generalizing ring with
  | nil =>
    cases h
    exact ⟨rfl, rfl⟩
  | cons node rest ih =>
    unfold addAll at h
    split at h
    · cases h
    · next next hadd =>
      obtain ⟨hvnodes, hhash⟩ := ih h
      by_cases hn : node ∈ ring.nodes
      · rw [add_of_mem hn] at hadd
        cases hadd
        exact ⟨hvnodes, hhash⟩
      · obtain ⟨-, -, hhash', hvnodes'⟩ := add_eq_ok hn hadd
        exact ⟨hvnodes.trans hvnodes', hhash.trans hhash'⟩

/-- The nodes of a ring come in the order in which they were added first. -/
theorem nodes_addAll {nodes : List Int} {ring ring' : Ring}
    (h : addAll nodes ring = .ok ring') :
    ring'.nodes = ring.nodes ++ (nodes.filter (· ∉ ring.nodes)).eraseDups := by
  induction nodes generalizing ring with
  | nil =>
    cases h
    exact (List.append_nil _).symm
  | cons node rest ih =>
    unfold addAll at h
    split at h
    · cases h
    · next next hadd =>
      by_cases hn : node ∈ ring.nodes
      · rw [add_of_mem hn] at hadd
        cases hadd
        rw [ih h, List.filter_cons_of_neg (by simpa using hn)]
      · obtain ⟨-, hnodes, -, -⟩ := add_eq_ok hn hadd
        rw [ih h, hnodes, List.filter_cons_of_pos (by simpa using hn), List.eraseDups_cons,
          List.filter_filter, List.append_assoc, List.singleton_append]
        congr 3
        apply List.filter_congr
        intro m _
        by_cases hm : m = node <;> simp [hm]

/-- What is known of a ring by how it was made. -/
theorem of_ofNodes {hash : Bytes → Nat} {vnodes : Int} {nodes : List Int} {ring : Ring}
    (h : ofNodes hash vnodes nodes = .ok ring) :
    1 ≤ vnodes ∧ ring.vnodes = vnodes.toNat ∧ ring.hash = hash ∧ ring.nodes = nodes.eraseDups := by
  unfold ofNodes at h
  split at h
  · cases h
  · next hpos =>
    obtain ⟨hvnodes, hhash⟩ := vnodes_addAll h
    have hnodes := nodes_addAll h
    rw [show (empty hash vnodes.toNat).nodes = [] from rfl, List.nil_append,
      List.filter_eq_self.2 fun m _ => by simp] at hnodes
    exact ⟨by omega, hvnodes, hhash, hnodes⟩

/-! ## 3. The walk of a key -/

/-- The owners that a whole walk from the key's position meets, each where it is met first. -/
def preference (ring : Ring) (key : Bytes) : List Int :=
  ((clockwise ring.points (ring.hash key)).map RingPoint.owner).eraseDups

theorem dropWhile_eq_filter {points : List RingPoint} (h : Ascending points) (position : Nat) :
    points.dropWhile (fun p => p.position ≤ position) =
      points.filter fun p => position < p.position := by
  induction points with
  | nil => rfl
  | cons p rest ih =>
    obtain ⟨hp, hrest⟩ := List.pairwise_cons.1 h
    by_cases hle : p.position ≤ position
    · rw [List.dropWhile_cons_of_pos (by simpa using hle), ih hrest,
        List.filter_cons_of_neg (by simpa using hle)]
    · rw [List.dropWhile_cons_of_neg (by simpa using hle), eq_comm, List.filter_eq_self]
      -- once a point is behind the position, all that follow are
      intro q hq
      rw [decide_eq_true_eq]
      rcases List.mem_cons.1 hq with rfl | hq
      · omega
      · exact Nat.lt_trans (by omega) (hp q hq)

theorem takeWhile_eq_filter {points : List RingPoint} (h : Ascending points) (position : Nat) :
    points.takeWhile (fun p => p.position ≤ position) =
      points.filter fun p => p.position ≤ position := by
  induction points with
  | nil => rfl
  | cons p rest ih =>
    obtain ⟨hp, hrest⟩ := List.pairwise_cons.1 h
    by_cases hle : p.position ≤ position
    · rw [List.takeWhile_cons_of_pos (by simpa using hle), ih hrest,
        List.filter_cons_of_pos (by simpa using hle)]
    · rw [List.takeWhile_cons_of_neg (by simpa using hle), eq_comm, List.filter_eq_nil_iff]
      -- no point from here on is up to the position
      intro q hq
      rw [decide_eq_true_eq]
      rcases List.mem_cons.1 hq with rfl | hq
      · exact hle
      · have := hp q hq
        omega

/-- A walk takes the points behind the position in their order, then those up to it in theirs. -/
theorem clockwise_eq_filter {points : List RingPoint} (h : Ascending points) (position : Nat) :
    clockwise points position =
      points.filter (fun p => position < p.position) ++
        points.filter (fun p => p.position ≤ position) := by
  rw [clockwise, dropWhile_eq_filter h, takeWhile_eq_filter h]

theorem mem_clockwise {points : List RingPoint} {position : Nat} {p : RingPoint} :
    p ∈ clockwise points position ↔ p ∈ points := by
  -- the walk turns the two parts of the ring around
  conv_rhs =>
    rw [← List.takeWhile_append_dropWhile (p := fun p => p.position ≤ position) (l := points)]
  rw [clockwise, List.mem_append, List.mem_append, or_comm]

/-- Collecting goes on with the owners that are not found yet, each where it is met first. -/
theorem collectOwners_eq (limit : Nat) (found : List Int) (points : List RingPoint) :
    collectOwners limit found points =
      found ++ (distinctOn id ((points.map RingPoint.owner).filter (· ∉ found))).take
        (limit - found.length) := by
  -- by induction on the walk, with the owners found so far as the accumulator
  induction points generalizing found with
  | nil => simp [collectOwners]
  | cons p rest ih =>
    unfold collectOwners
    split
    · next hfull => rw [Nat.sub_eq_zero_of_le hfull, List.take_zero, List.append_nil]
    · next hroom =>
      split
      · next hmem =>
        have hmem : p.owner ∈ found := by simpa using hmem
        rw [ih, List.map_cons, List.filter_cons_of_neg (by simpa using hmem)]
      · next hnew =>
        have hnew : p.owner ∉ found := by simpa using hnew
        -- the new owner takes one of the places that are left
        have hroom : limit - found.length = limit - (found ++ [p.owner]).length + 1 := by
          rw [List.length_append, List.length_singleton]
          omega
        rw [ih, List.map_cons, List.filter_cons_of_pos (by simpa using hnew), distinctOn_cons,
          hroom, List.take_succ_cons, List.append_assoc, List.singleton_append,
          List.filter_filter]
        congr 4
        apply List.filter_congr
        intro b _
        simp [and_comm]

/-- The nodes of a key are the first so many of its preference list. -/
theorem replicas_eq_take (ring : Ring) (key : Bytes) (n : Int) :
    ring.replicas key n = (ring.preference key).take n.toNat := by
  rw [replicas, collectOwners_eq, preference, eraseDups_eq_distinctOn]
  simp

theorem nodup_preference (ring : Ring) (key : Bytes) : (ring.preference key).Nodup := by
  have := nodup_map_distinctOn id ((clockwise ring.points (ring.hash key)).map RingPoint.owner)
  rwa [List.map_id] at this

theorem mem_preference {ring : Ring} {key : Bytes} {node : Int} :
    node ∈ ring.preference key ↔ ∃ p ∈ ring.points, p.owner = node := by
  rw [preference, List.mem_eraseDups, List.mem_map]
  simp only [mem_clockwise]

/-- All nodes of a ring are in the preference list of every key. -/
theorem preference_perm {ring : Ring} (hr : Sound ring) (hpos : 0 < ring.vnodes) (key : Bytes) :
    (ring.preference key).Perm ring.nodes := by
  rw [List.perm_ext_iff_of_nodup (nodup_preference ring key) hr.nodup]
  -- both have every owner of a point once
  intro node
  rw [mem_preference]
  constructor
  · rintro ⟨p, hp, rfl⟩
    exact hr.owner_mem p hp
  · exact hr.exists_owner hpos node

theorem length_preference_le {ring : Ring} (hr : Sound ring) (key : Bytes) :
    (ring.preference key).length ≤ ring.nodes.length := by
  apply List.Subperm.length_le
  apply (nodup_preference ring key).subperm
  intro node hnode
  obtain ⟨p, hp, rfl⟩ := mem_preference.1 hnode
  exact hr.owner_mem p hp

end ReplicaCensus.Ring
