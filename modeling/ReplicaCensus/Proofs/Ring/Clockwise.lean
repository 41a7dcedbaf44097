import Mathlib
import ReplicaCensus.Proofs.Ring.Walk
/-!
# The nodes of a key, met clockwise

The walk of a key is the ring turned so far that it begins behind the key's position. The nodes of
the key are the first so many that the walk meets, and with enough of them asked for these are all
nodes that were added.
-/

namespace ReplicaCensus.Ring

/-! ## 1. The ring, turned -/

/-- How many points stand at or before a position: the number of the point behind it. -/
def turn (points : List RingPoint) (position : Nat) : Nat :=
  points.countP fun p => p.position ≤ position

theorem turn_le (points : List RingPoint) (position : Nat) :
    turn points position ≤ points.length := List.countP_le_length

/-- A point at the position itself is passed over. -/
theorem clockwise_eq_rotate {points : List RingPoint} (h : Ascending points) (position : Nat) :
    clockwise points position = points.rotate (turn points position) := by
  -- the points up to the position are the first so many, since the order is strict
  have hlength : (points.takeWhile fun p => p.position ≤ position).length =
      turn points position := by
    rw [takeWhile_eq_filter h, turn, List.countP_eq_length_filter]
  have hle := turn_le points position
  generalize turn points position = k at hlength hle ⊢
  have hsplit := List.takeWhile_append_dropWhile (p := fun p : RingPoint => p.position ≤ position)
    (l := points)
  have htake : points.take k = points.takeWhile fun p => p.position ≤ position := by
    conv_lhs => rw [← hsplit]
    exact List.take_left' hlength
  have hdrop : points.drop k = points.dropWhile fun p => p.position ≤ position := by
    conv_lhs => rw [← hsplit]
    exact List.drop_left' hlength
  rw [clockwise, List.rotate_eq_drop_append_take hle, htake, hdrop]

/-- The point met at each step, by its number on the ring. -/
theorem getElem?_clockwise {points : List RingPoint} (h : Ascending points) (position : Nat)
    {step : Nat} (hstep : step < points.length) :
    (clockwise points position)[step]? =
      points[(turn points position + step) % points.length]? := by
  rw [clockwise_eq_rotate h, List.getElem?_rotate hstep, Nat.add_comm step]

/-! ## 2. The nodes of a key -/

/-- The nodes of a key are met on a walk over the points behind the key's position, by ascending
position, and then over those up to it: a walk that takes the points by their number, going on from
the last to the first. Of the nodes that it meets, each where it is met first, they are the first
`n`. So no node comes twice, each was added, there are `n` of them or as many as there are nodes,
and whoever asks for more gets the same ones first. -/
theorem replicas_clockwise {hash : Bytes → Nat} {vnodes : Int} {nodes : List Int} {ring : Ring}
    (hring : ofNodes hash vnodes nodes = .ok ring) (key : Bytes) :
    (ring.points.map RingPoint.position).Pairwise (· < ·) ∧
    (∀ step < ring.points.length,
      (ring.points.filter (fun p => hash key < p.position) ++
        ring.points.filter fun p => p.position ≤ hash key)[step]? =
      ring.points[(turn ring.points (hash key) + step) % ring.points.length]?) ∧
    ∀ n : Int,
      ring.replicas key n =
        ((ring.points.filter (fun p => hash key < p.position) ++
          ring.points.filter fun p => p.position ≤ hash key).map
            RingPoint.owner).eraseDups.take (max n 0).toNat ∧
      (ring.replicas key n).Nodup ∧
      (∀ node ∈ ring.replicas key n, node ∈ nodes) ∧
      ((ring.replicas key n).length : Int) = min (max n 0) nodes.eraseDups.length ∧
      ∀ m, n ≤ m → ring.replicas key n <+: ring.replicas key m := by
  have hr := ofNodes_sound hring
  obtain ⟨hpos, hvnodes, hhash, hnodes⟩ := of_ofNodes hring
  have hwalk := clockwise_eq_filter hr.ascending (hash key)
  have hperm := preference_perm hr (by omega) key
  refine ⟨List.pairwise_map.2 hr.ascending, fun step hstep => ?_, fun n => ?_⟩
  · rw [← hwalk]
    exact getElem?_clockwise hr.ascending (hash key) hstep
  · rw [← hwalk, ← hhash, replicas_eq_take]
    refine ⟨?_, (nodup_preference ring key).sublist (List.take_sublist _ _), fun node hnode => ?_,
      ?_, fun m hm => ?_⟩
    · rw [show (max n 0).toNat = n.toNat by omega, preference]
    · have hmem := hperm.mem_iff.1 (List.mem_of_mem_take hnode)
      rwa [hnodes, List.mem_eraseDups] at hmem
    · -- every node that was added is in the preference list once
      have hlength := hperm.length_eq
      rw [hnodes] at hlength
      rw [List.length_take, hlength]
      omega
    · rw [replicas_eq_take]
      exact List.take_prefix_take_left (by omega)

/-- A hash that counts bytes: the second node finds both its places taken. -/
theorem ofNodes_colliding :
    ofNodes List.length 2 [7, 0, 7] = .ok ⟨List.length, 2,
      [⟨3, "7#0", 7⟩, ⟨4, "7#1_", 7⟩, ⟨5, "0#0__", 0⟩, ⟨6, "0#1___", 0⟩], [7, 0]⟩ := by
  have h70 : freeLabel List.length [] (label 7 0) = some ("7#0", 3) := by
    rw [freeLabel_of_free (by decide)]
    decide
  have h71 : freeLabel List.length [⟨3, "7#0", 7⟩] (label 7 1) = some ("7#1_", 4) := by
    rw [freeLabel_of_taken (by decide), freeLabel_of_free (by decide)]
    decide
  have h00 : freeLabel List.length [⟨3, "7#0", 7⟩, ⟨4, "7#1_", 7⟩] (label 0 0) =
      some ("0#0__", 5) := by
    rw [freeLabel_of_taken (by decide), freeLabel_of_taken (by decide),
      freeLabel_of_free (by decide)]
    decide
  have h01 : freeLabel List.length [⟨3, "7#0", 7⟩, ⟨4, "7#1_", 7⟩, ⟨5, "0#0__", 0⟩] (label 0 1) =
      some ("0#1___", 6) := by
    rw [freeLabel_of_taken (by decide), freeLabel_of_taken (by decide),
      freeLabel_of_taken (by decide), freeLabel_of_free (by decide)]
    decide
  simp [ofNodes, addAll, add, empty, List.range_succ, placeAll, place, h70, h71, h00, h01,
    insertPoint]

/-- There a key of four bytes stands right on the last point of the first node. -/
theorem replicas_clockwise_colliding :
    ∃ ring : Ring, ofNodes List.length 2 [7, 0, 7] = .ok ring ∧
      ring.replicas [1, 2, 3, 4] 5 = [0, 7] ∧
      ring.replicas [1, 2, 3, 4] 1 <+: ring.replicas [1, 2, 3, 4] 2 ∧
      ring.replicas [1, 2, 3, 4] (-1) = [] := by
  obtain ⟨-, -, hall⟩ := replicas_clockwise ofNodes_colliding [1, 2, 3, 4]
  refine ⟨_, ofNodes_colliding, ?_, (hall 1).2.2.2.2 2 (by decide), ?_⟩
  · rw [(hall 5).1]
    decide
  · rw [(hall (-1)).1]
    decide

end ReplicaCensus.Ring
