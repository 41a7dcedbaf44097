import ReplicaCensus.Proofs.Ring.Walk
/-!
# Adding a node to a ring

The points of a new node may stand anywhere on the ring, even right behind the key, and where they
stand depends on the points that are there. Yet a walk that passes over them meets the others in the
order in which it met them before, so the preference list of a key only has the new node put in.
-/

namespace ReplicaCensus.Ring

/-- A walk that leaves the points of the new node out is the walk of the old ring. -/
theorem filter_clockwise {node : Int} {points points' : List RingPoint}
    (hasc : Ascending points) (hjoined : Joined node points points')
    (hother : ∀ p ∈ points, p.owner ≠ node) (position : Nat) :
    (clockwise points' position).filter (fun p => p.owner ≠ node) = clockwise points position := by
  -- the parts behind and before the key are compared one by one: a new point may fall into either
  have hside : ∀ side : RingPoint → Bool,
      (points'.filter side).filter (fun p => p.owner ≠ node) = points.filter side := by
    intro side
    rw [List.filter_filter, hjoined.filter_eq _ fun p hp => by simp [hp]]
    apply List.filter_congr
    intro p hp
    simp [hother p hp]
  rw [clockwise_eq_filter hasc, clockwise_eq_filter hjoined.ascending, List.filter_append, hside,
    hside]

/-- Adding a node puts it into each preference list and leaves the others in their order. -/
theorem erase_preference_add {ring ring' : Ring} {node : Int} (hr : Sound ring)
    (hn : node ∉ ring.nodes) (h : ring.add node = .ok ring') (key : Bytes) :
    (ring'.preference key).erase node = ring.preference key := by
  obtain ⟨hplace, -, hhash, -⟩ := add_eq_ok hn h
  have hjoined := placeAll_joined hr.ascending hplace
  have hother : ∀ p ∈ ring.points, p.owner ≠ node := fun p hp e => hn (e ▸ hr.owner_mem p hp)
  have hwalk := filter_clockwise hr.ascending hjoined hother (ring.hash key)
  -- leaving the node out of the owners met is passing its points over on the walk
  rw [(nodup_preference ring' key).erase_eq_filter]
  unfold preference
  rw [eraseDups_eq_distinctOn, eraseDups_eq_distinctOn, hhash, ← hwalk,
    ← distinctOn_filter id fun a b h => by rw [show a = b from h], List.filter_map]
  congr 2
  apply List.filter_congr
  intro p _
  by_cases hp : p.owner = node <;> simp [hp]

/-- The first `n` elements of a list against those of the list without `x`: nothing changes unless
`x` is among them, and then at most the last one goes to make room for it. -/
theorem take_erase (l : List Int) (x : Int) (n : Nat) :
    l.take n = (l.erase x).take n ∨
      x ∈ l.take n ∧
        ((l.take n).erase x = (l.erase x).take n ∨
          ∃ last, (l.take n).erase x ++ [last] = (l.erase x).take n) := by
  by_cases hn : l.length ≤ n
  -- the whole list is taken, so nothing has to make room
  · rw [List.take_of_length_le hn,
      List.take_of_length_le (Nat.le_trans List.length_erase_le hn)]
    by_cases hx : x ∈ l
    · exact .inr ⟨hx, .inl rfl⟩
    · exact .inl (List.erase_of_not_mem hx).symm
  · have hlen : (l.take n).length = n := by
      rw [List.length_take]
      omega
    have hsplit := List.take_append_drop n l
    by_cases hx : x ∈ l.take n
    -- `x` takes one of the first `n` places, and the one that falls out stands right behind them
    · right
      refine ⟨hx, .inr ?_⟩
      obtain ⟨last, rest, hdrop⟩ := List.exists_cons_of_length_pos (l := l.drop n) (by
        rw [List.length_drop]
        omega)
      have herase : l.erase x = (l.take n).erase x ++ last :: rest := by
        rw [← hdrop, ← List.erase_append_left _ hx, hsplit]
      have hlen' : ((l.take n).erase x).length = n - 1 := by
        rw [List.length_erase_of_mem hx, hlen]
      have hpos : 0 < n := hlen ▸ List.length_pos_of_mem hx
      refine ⟨last, ?_⟩
      rw [herase, List.take_append, List.take_of_length_le (l := (l.take n).erase x) (by omega),
        hlen', show n - (n - 1) = 1 by omega, List.take_succ_cons, List.take_zero]
    -- `x` stands behind the first `n` places
    · left
      have herase : l.erase x = l.take n ++ (l.drop n).erase x := by
        rw [← List.erase_append_right _ hx, hsplit]
      rw [herase, List.take_append_of_le_length (by omega), List.take_take, Nat.min_self]

/-- A node that joins a ring is put into the preference list of every key, and the nodes that were
there keep their order. So the first `n` nodes of a key stay as they are, or the new node is one of
them and at most the last of the others has made room; none of the others comes in. -/
theorem replicas_add {hash : Bytes → Nat} {vnodes : Int} {nodes : List Int} {ring ring' : Ring}
    {node : Int} (hring : ofNodes hash vnodes nodes = .ok ring) (hnode : node ∉ ring.nodes)
    (hadd : ring.add node = .ok ring') (key : Bytes) :
    (∀ n n' : Int, ring.nodes.length ≤ n → ring'.nodes.length ≤ n' →
      (ring'.replicas key n').erase node = ring.replicas key n) ∧
    ∀ n : Int, 0 ≤ n →
      (ring'.replicas key n = ring.replicas key n ∨
        node ∈ ring'.replicas key n ∧
          ((ring'.replicas key n).erase node = ring.replicas key n ∨
            ∃ last, (ring'.replicas key n).erase node ++ [last] = ring.replicas key n)) ∧
      ∀ other ∈ ring'.replicas key n, other ≠ node → other ∈ ring.replicas key n := by
  have hr := ofNodes_sound hring
  have hr' := add_sound hr hadd
  have herase := erase_preference_add hr hnode hadd key
  simp only [replicas_eq_take]
  constructor
  · intro n n' hn hn'
    -- with room for all nodes, the replicas are the preference list itself
    have hle := length_preference_le hr key
    have hle' := length_preference_le hr' key
    rw [List.take_of_length_le (by omega), List.take_of_length_le (by omega), herase]
  · intro n _
    -- the old replicas are the first `n` of the new preference list without the new node
    rw [← herase]
    refine ⟨take_erase _ _ _, ?_⟩
    intro other hother hne
    rcases take_erase (ring'.preference key) node n.toNat with h | ⟨-, h | ⟨last, h⟩⟩
    · exact h ▸ hother
    · exact h ▸ (List.mem_erase_of_ne hne).2 hother
    · exact h ▸ List.mem_append_left _ ((List.mem_erase_of_ne hne).2 hother)

/-- A hash that counts bytes puts all labels on one position, so that the third node looks for a
free one three times; its position is then the one behind the key's first node. -/
theorem replicas_add_colliding :
    ∃ ring ring' : Ring, ofNodes List.length 1 [7, 0, 7] = .ok ring ∧ 5 ∉ ring.nodes ∧
      ring.add 5 = .ok ring' ∧
      (∀ n n' : Int, ring.nodes.length ≤ n → ring'.nodes.length ≤ n' →
        (ring'.replicas [1, 2, 3] n').erase 5 = ring.replicas [1, 2, 3] n) ∧
      ∀ n : Int, 0 ≤ n →
        (ring'.replicas [1, 2, 3] n = ring.replicas [1, 2, 3] n ∨
          5 ∈ ring'.replicas [1, 2, 3] n ∧
            ((ring'.replicas [1, 2, 3] n).erase 5 = ring.replicas [1, 2, 3] n ∨
              ∃ last, (ring'.replicas [1, 2, 3] n).erase 5 ++ [last] =
                ring.replicas [1, 2, 3] n)) ∧
        ∀ other ∈ ring'.replicas [1, 2, 3] n, other ≠ 5 →
          other ∈ ring.replicas [1, 2, 3] n := by
  have h7 : freeLabel List.length [] (label 7 0) = some ("7#0", 3) := by
    rw [freeLabel_of_free (by decide)]
    decide
  have h0 : freeLabel List.length [⟨3, "7#0", 7⟩] (label 0 0) = some ("0#0_", 4) := by
    rw [freeLabel_of_taken (by decide), freeLabel_of_free (by decide)]
    decide
  have h5 : freeLabel List.length [⟨3, "7#0", 7⟩, ⟨4, "0#0_", 0⟩] (label 5 0) =
      some ("5#0__", 5) := by
    rw [freeLabel_of_taken (by decide), freeLabel_of_taken (by decide),
      freeLabel_of_free (by decide)]
    decide
  have hring : ofNodes List.length 1 [7, 0, 7] =
      .ok ⟨List.length, 1, [⟨3, "7#0", 7⟩, ⟨4, "0#0_", 0⟩], [7, 0]⟩ := by
    simp [ofNodes, addAll, add, empty, placeAll, place, h7, h0, insertPoint]
  have hadd : add ⟨List.length, 1, [⟨3, "7#0", 7⟩, ⟨4, "0#0_", 0⟩], [7, 0]⟩ 5 =
      .ok ⟨List.length, 1, [⟨3, "7#0", 7⟩, ⟨4, "0#0_", 0⟩, ⟨5, "5#0__", 5⟩], [7, 0, 5]⟩ := by
    simp [add, placeAll, place, h5, insertPoint]
  exact ⟨_, _, hring, by decide, hadd, replicas_add hring (by decide) hadd [1, 2, 3]⟩

end ReplicaCensus.Ring
