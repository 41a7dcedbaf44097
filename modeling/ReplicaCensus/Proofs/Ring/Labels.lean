import Mathlib
import ReplicaCensus.Proofs.Number.Digits
import ReplicaCensus.Proofs.OrderedMap
import ReplicaCensus.Proofs.Ring.Clockwise
/-!
# The labels on a ring

Each node has its numbers on the ring, each number of it once, under the first of its labels whose
position was free when its turn came. So the positions, the labels at the positions and the owners
of the labels agree: a label is found at its own position and nowhere else, and says whose it is.
-/

namespace ReplicaCensus.Ring

/-! ## 1. Labels with underscores -/

/-- A label with so many underscores behind it. -/
def underscored (label : String) (k : Nat) : String :=
  label ++ String.ofList (List.replicate k '_')

theorem underscored_zero (label : String) : underscored label 0 = label := String.append_empty

theorem underscored_succ (label : String) (k : Nat) :
    underscored label (k + 1) = underscored (label ++ "_") k := by
  rw [underscored, underscored, String.append_assoc, List.replicate_succ,
    ← List.singleton_append, String.ofList_append]

theorem toList_underscored (node : Int) (i k : Nat) :
    (underscored (label node i) k).toList =
      (toString node).toList ++ '#' :: (Number.digits i ++ List.replicate k '_') := by
  have hnumber : (toString i).toList = Number.digits i := Nat.toList_repr
  rw [underscored, label, String.toList_append, String.toList_append, String.toList_append,
    String.toList_ofList (l := List.replicate k '_'), hnumber, List.append_assoc,
    List.append_assoc]
  rfl

theorem takeWhile_digits_underscores (i k : Nat) :
    (Number.digits i ++ List.replicate k '_').takeWhile Text.isAsciiDigit = Number.digits i := by
  rw [List.takeWhile_append_of_pos fun c hc => Number.isAsciiDigit_of_mem hc]
  cases k with
  | zero => rw [List.replicate_zero, List.takeWhile_nil, List.append_nil]
  | succ k =>
    rw [List.replicate_succ, List.takeWhile_cons_of_neg (by decide), List.append_nil]

/-- A label says whose it is and what number it has. -/
theorem underscored_inj {n n' : Int} {i i' k k' : Nat}
    (h : underscored (label n i) k = underscored (label n' i') k') : n = n' ∧ i = i' := by
  have hlist := congrArg String.toList h
  rw [toList_underscored, toList_underscored] at hlist
  -- the number sign between the two numbers is the only one
  have hbefore : '#' ∉ (toString n).toList := Number.not_mem_toString rfl n
  have hbehind : '#' ∉ Number.digits i ++ List.replicate k '_' := by
    intro hmem
    rcases List.mem_append.1 hmem with hmem | hmem
    · exact absurd (Number.isAsciiDigit_of_mem hmem) (by decide)
    · exact absurd (List.eq_of_mem_replicate hmem) (by decide)
  obtain ⟨hnode, -, hrest⟩ := (List.append_cons_inj_of_notMem hbefore hbehind).1 hlist
  have hnumber := congrArg (List.takeWhile Text.isAsciiDigit) hrest
  rw [takeWhile_digits_underscores, takeWhile_digits_underscores] at hnumber
  refine ⟨Int.repr_inj.1 (String.toList_inj.1 hnode), ?_⟩
  rw [← Number.ofDigits_digits i, hnumber, Number.ofDigits_digits]

theorem underscored_right_inj {s : String} {k k' : Nat} (h : underscored s k = underscored s k') :
    k = k' := by
  have hlength := congrArg String.length h
  simpa [underscored] using hlength

/-! ## 2. The first free position -/

/-- With `k` underscores the position of a label is free, and with fewer it is taken. -/
structure IsFirstFree (hash : Bytes → Nat) (points : List RingPoint) (label : String) (k : Nat) :
    Prop where
  free : isTaken points (hash (labelBytes (underscored label k))) = false
  taken : ∀ j < k, isTaken points (hash (labelBytes (underscored label j))) = true

/-- A search that ends has found the first free position. -/
theorem isFirstFree_of_freeLabel {hash : Bytes → Nat} {points : List RingPoint} {label : String}
    {found : String × Nat} (h : freeLabel hash points label = some found) :
    ∃ k, IsFirstFree hash points label k ∧
      found = (underscored label k, hash (labelBytes (underscored label k))) := by
  refine Search.run.partial_correctness (fun s found =>
    ∃ k, IsFirstFree s.hash s.points s.label k ∧
      found = (underscored s.label k, s.hash (labelBytes (underscored s.label k)))) ?_
    ⟨hash, points, label⟩ found h
  intro search ih s found hfound
  split at hfound
  · next htaken =>
    -- what is found for the label with an underscore is found for this one with one more
    obtain ⟨k, ⟨hfree, hbefore⟩, hk⟩ := ih s.next found hfound
    rw [Search.next] at hfree hk
    rw [← underscored_succ] at hfree hk
    refine ⟨k + 1, ⟨hfree, fun j hj => ?_⟩, hk⟩
    cases j with
    | zero =>
      rw [underscored_zero]
      exact htaken
    | succ j =>
      rw [underscored_succ]
      exact hbefore j (by omega)
  · next hfree =>
    cases hfound
    refine ⟨0, ⟨?_, fun j hj => absurd hj (Nat.not_lt_zero j)⟩, ?_⟩
    · rw [underscored_zero]
      exact Bool.eq_false_iff.2 hfree
    · rw [underscored_zero]
      rfl

/-- A search ends wherever there is a free position to find. -/
theorem freeLabel_of_isFirstFree {hash : Bytes → Nat} {points : List RingPoint} {label : String}
    {k : Nat} (h : IsFirstFree hash points label k) :
    freeLabel hash points label =
      some (underscored label k, hash (labelBytes (underscored label k))) := by
  induction k generalizing label with
  | zero =>
    have hfree := h.free
    rw [underscored_zero] at hfree ⊢
    exact freeLabel_of_free hfree
  | succ k ih =>
    have htaken := h.taken 0 (Nat.succ_pos k)
    rw [underscored_zero] at htaken
    rw [freeLabel_of_taken htaken, underscored_succ]
    refine ih ⟨?_, fun j hj => ?_⟩
    · rw [← underscored_succ]
      exact h.free
    · rw [← underscored_succ]
      exact h.taken (j + 1) (by omega)

/-- What a search finds is the first free position, and it finds none only where there is none. -/
theorem freeLabel_eq_some {hash : Bytes → Nat} {points : List RingPoint} {label : String}
    {found : String × Nat} :
    freeLabel hash points label = some found ↔
      ∃ k, IsFirstFree hash points label k ∧
        found = (underscored label k, hash (labelBytes (underscored label k))) := by
  constructor
  · exact isFirstFree_of_freeLabel
  · rintro ⟨k, hk, rfl⟩
    exact freeLabel_of_isFirstFree hk

/-! ## 3. The points in the order in which they came -/

/-- The point of a node's number, whose label got `k` underscores. -/
def pointOf (hash : Bytes → Nat) (node : Int) (i k : Nat) : RingPoint :=
  ⟨hash (labelBytes (underscored (label node i) k)), underscored (label node i) k, node⟩

/-- How nodes and their numbers got their points, one after the other: each the first of its labels
whose position none of the points before it has. -/
inductive Placed (hash : Bytes → Nat) : List (Int × Nat) → List RingPoint → Prop where
  | nil : Placed hash [] []
  | next {pairs : List (Int × Nat)} {points : List RingPoint} {node : Int} {i k : Nat}
    (h : Placed hash pairs points) (hk : IsFirstFree hash points (label node i) k) :
    Placed hash (pairs ++ [(node, i)]) (points ++ [pointOf hash node i k])

namespace Placed

variable {hash : Bytes → Nat} {pairs : List (Int × Nat)} {points : List RingPoint}

/-- No two points have one position. -/
theorem nodup_positions (h : Placed hash pairs points) :
    (points.map RingPoint.position).Nodup := by
  induction h with
  | nil => exact List.nodup_nil
  | next h hk ih =>
    rw [List.map_append, List.map_singleton, List.nodup_append]
    refine ⟨ih, List.nodup_singleton _, ?_⟩
    intro position hposition new hnew heq
    obtain ⟨p, hp, rfl⟩ := List.mem_map.1 hposition
    rw [List.mem_singleton] at hnew
    exact isTaken_eq_false.1 hk.free p hp (heq.trans hnew)

/-- Each pair has its point. -/
theorem forall₂ (h : Placed hash pairs points) :
    List.Forall₂ (fun e p => ∃ k, p = pointOf hash e.1 e.2 k) pairs points := by
  induction h with
  | nil => exact .nil
  | @next pairs points node i k h hk ih =>
    exact List.rel_append ih (.cons ⟨k, rfl⟩ .nil)

theorem length_eq (h : Placed hash pairs points) : points.length = pairs.length :=
  h.forall₂.length_eq.symm

theorem exists_pair (h : Placed hash pairs points) {p : RingPoint} (hp : p ∈ points) :
    ∃ e ∈ pairs, ∃ k, p = pointOf hash e.1 e.2 k := by
  obtain ⟨a, ha, rfl⟩ := List.mem_iff_getElem.1 hp
  have hall := List.forall₂_iff_get.1 h.forall₂
  have ha' : a < pairs.length := h.length_eq ▸ ha
  exact ⟨pairs[a], List.getElem_mem ha', hall.2 a ha' ha⟩

theorem exists_point (h : Placed hash pairs points) {e : Int × Nat} (he : e ∈ pairs) :
    ∃ k, pointOf hash e.1 e.2 k ∈ points := by
  obtain ⟨a, ha, rfl⟩ := List.mem_iff_getElem.1 he
  have ha' : a < points.length := h.length_eq ▸ ha
  obtain ⟨k, hk⟩ := (List.forall₂_iff_get.1 h.forall₂).2 a ha ha'
  exact ⟨k, hk ▸ List.getElem_mem ha'⟩

/-- Where no pair comes twice, it has no second point. -/
theorem eq_of_pair (h : Placed hash pairs points) (hnd : pairs.Nodup) {node : Int} {i k k' : Nat}
    (hp : pointOf hash node i k ∈ points) (hp' : pointOf hash node i k' ∈ points) : k = k' := by
  induction h with
  | nil => cases hp
  | @next pairs points m j l h hl ih =>
    obtain ⟨hnd, -, hnew⟩ := List.nodup_append.1 hnd
    -- an older point is that of an older pair, and the new pair is none of them
    have hold : ∀ k, pointOf hash node i k ∈ points → (node, i) ∈ pairs := by
      intro k hk
      obtain ⟨e, he, k', heq⟩ := h.exists_pair hk
      obtain ⟨hnode, hi⟩ := underscored_inj (congrArg RingPoint.label heq)
      rw [hnode, hi]
      exact he
    have hlast : ∀ k, pointOf hash node i k = pointOf hash m j l → (node, i) = (m, j) ∧ k = l := by
      intro k hk
      obtain ⟨rfl, rfl⟩ := underscored_inj (congrArg RingPoint.label hk)
      exact ⟨rfl, underscored_right_inj (congrArg RingPoint.label hk)⟩
    rw [List.mem_append, List.mem_singleton] at hp hp'
    rcases hp with hp | hp <;> rcases hp' with hp' | hp'
    · exact ih hnd hp hp'
    · exact absurd (hlast k' hp').1 (hnew _ (hold k hp) _ List.mem_cons_self)
    · exact absurd (hlast k hp).1 (hnew _ (hold k' hp') _ List.mem_cons_self)
    · rw [(hlast k hp).2, (hlast k' hp').2]

end Placed

/-! ## 4. Points that are placed on a ring -/

theorem insertPoint_perm (p : RingPoint) (points : List RingPoint) :
    (insertPoint p points).Perm (points ++ [p]) := by
  induction points with
  | nil => exact List.Perm.refl _
  | cons q rest ih =>
    unfold insertPoint
    split
    · exact (List.perm_append_singleton p (q :: rest)).symm
    · exact ih.cons q

theorem isTaken_congr {points points' : List RingPoint} (h : points.Perm points') (position : Nat) :
    isTaken points position = isTaken points' position :=
  h.any_eq

theorem isFirstFree_congr {hash : Bytes → Nat} {points points' : List RingPoint}
    (h : points.Perm points') {label : String} {k : Nat} (hk : IsFirstFree hash points label k) :
    IsFirstFree hash points' label k where
  free := (isTaken_congr h _).symm.trans hk.free
  taken := fun j hj => (isTaken_congr h _).symm.trans (hk.taken j hj)

section

variable {hash : Bytes → Nat} {pairs : List (Int × Nat)} {points placed points' : List RingPoint}
  {node : Int}

/-- A point that is placed is the next to come. -/
theorem placed_of_place (h : Placed hash pairs placed) (hperm : placed.Perm points) {i : Nat}
    (hplace : place hash node points i = .ok points') :
    ∃ placed', Placed hash (pairs ++ [(node, i)]) placed' ∧ placed'.Perm points' := by
  unfold place at hplace
  split at hplace
  · cases hplace
  · next label' position hfound =>
    cases hplace
    obtain ⟨k, hk, heq⟩ := freeLabel_eq_some.1 hfound
    obtain ⟨rfl, rfl⟩ := Prod.mk.injEq _ _ _ _ ▸ heq
    exact ⟨_, h.next (isFirstFree_congr hperm.symm hk),
      (hperm.append_right _).trans (insertPoint_perm _ _).symm⟩

theorem placed_of_placeAll {is : List Nat} (h : Placed hash pairs placed)
    (hperm : placed.Perm points) (hplace : placeAll hash node is points = .ok points') :
    ∃ placed', Placed hash (pairs ++ is.map (node, ·)) placed' ∧ placed'.Perm points' := by
  induction is generalizing pairs placed points with
  | nil =>
    cases hplace
    rw [List.map_nil, List.append_nil]
    exact ⟨placed, h, hperm⟩
  | cons i is ih =>
    unfold placeAll at hplace
    split at hplace
    · cases hplace
    · next next hnext =>
      obtain ⟨placed', h', hperm'⟩ := placed_of_place h hperm hnext
      rw [List.map_cons, List.append_cons]
      exact ih h' hperm' hplace

end

/-- The numbers of each node, in the order in which they get their points. -/
def turns (vnodes : Nat) (nodes : List Int) : List (Int × Nat) :=
  nodes.flatMap fun node => (List.range vnodes).map (node, ·)

theorem mem_turns {vnodes : Nat} {nodes : List Int} {e : Int × Nat} :
    e ∈ turns vnodes nodes ↔ e.1 ∈ nodes ∧ e.2 < vnodes := by
  obtain ⟨node, i⟩ := e
  simp [turns, List.mem_flatMap]

theorem nodup_turns (vnodes : Nat) {nodes : List Int} (h : nodes.Nodup) :
    (turns vnodes nodes).Nodup := by
  refine List.nodup_flatMap.2 ⟨fun node _ => ?_, h.imp fun hne => ?_⟩
  · exact List.nodup_range.map fun _ _ h => (Prod.mk.inj h).2
  · rw [Function.onFun, List.disjoint_left]
    intro e he he'
    obtain ⟨i, -, rfl⟩ := List.mem_map.1 he
    obtain ⟨i', -, heq⟩ := List.mem_map.1 he'
    exact hne (Prod.mk.inj heq).1.symm

theorem length_turns (vnodes : Nat) (nodes : List Int) :
    (turns vnodes nodes).length = vnodes * nodes.length := by
  rw [turns, List.length_flatMap]
  simp [Nat.mul_comm]

/-- A ring whose points came to it one after the other, node by node. -/
def Arrived (ring : Ring) : Prop :=
  ∃ placed, Placed ring.hash (turns ring.vnodes ring.nodes) placed ∧ placed.Perm ring.points

theorem add_arrived {ring ring' : Ring} {node : Int} (hr : Arrived ring)
    (h : ring.add node = .ok ring') : Arrived ring' := by
  by_cases hn : node ∈ ring.nodes
  · rw [add_of_mem hn] at h
    cases h
    exact hr
  · obtain ⟨hplace, hnodes, hhash, hvnodes⟩ := add_eq_ok hn h
    obtain ⟨placed, hplaced, hperm⟩ := hr
    obtain ⟨placed', hplaced', hperm'⟩ := placed_of_placeAll hplaced hperm hplace
    refine ⟨placed', ?_, hperm'⟩
    rw [hhash, hvnodes, hnodes, turns, List.flatMap_append, List.flatMap_singleton]
    exact hplaced'

theorem addAll_arrived {nodes : List Int} {ring ring' : Ring} (hr : Arrived ring)
    (h : addAll nodes ring = .ok ring') : Arrived ring' := by
  induction nodes generalizing ring with
  | nil =>
    cases h
    exact hr
  | cons node rest ih =>
    unfold addAll at h
    split at h
    · cases h
    · next next hnext => exact ih (add_arrived hr hnext) h

theorem ofNodes_arrived {hash : Bytes → Nat} {vnodes : Int} {nodes : List Int} {ring : Ring}
    (h : ofNodes hash vnodes nodes = .ok ring) : Arrived ring := by
  unfold ofNodes at h
  split at h
  · cases h
  · exact addAll_arrived ⟨[], .nil, List.Perm.refl _⟩ h

/-! ## 5. The tables of a ring -/

/-- What is written down of each point: its position among the positions, the label at the position
and the owner of the label. -/
structure Tables where
  positions : List Nat
  labelAt : OrderedMap Nat String
  ownerOf : OrderedMap String Int

namespace Tables

def empty : Tables := ⟨[], ∅, ∅⟩

def record (t : Tables) (p : RingPoint) : Tables :=
  ⟨t.positions.orderedInsert (· ≤ ·) p.position, t.labelAt.insert p.position p.label,
    t.ownerOf.insert p.label p.owner⟩

/-- The tables after the points have come, in this order. -/
def ofPoints (points : List RingPoint) : Tables := points.foldl record empty

/-- Tables in which each point stands once. -/
structure Agrees (points : List RingPoint) (t : Tables) : Prop where
  sorted : t.positions.Pairwise (· ≤ ·)
  positions : t.positions.Perm (points.map RingPoint.position)
  labelAt : t.labelAt.entries = points.map fun p => (p.position, p.label)
  ownerOf : t.ownerOf.entries = points.map fun p => (p.label, p.owner)

/-- A point with a position and a label of its own overwrites nothing. -/
theorem Agrees.record {points : List RingPoint} {t : Tables} (h : Agrees points t) {p : RingPoint}
    (hposition : ∀ q ∈ points, q.position ≠ p.position) (hlabel : ∀ q ∈ points, q.label ≠ p.label) :
    Agrees (points ++ [p]) (t.record p) where
  sorted := h.sorted.orderedInsert _ _
  positions := by
    rw [List.map_append, List.map_singleton]
    exact (List.perm_orderedInsert _ _ _).trans
      ((h.positions.cons _).trans (List.perm_append_singleton _ _).symm)
  labelAt := by
    rw [List.map_append, List.map_singleton, ← h.labelAt]
    refine OrderedMap.put_eq_append ?_ _
    rw [h.labelAt, List.map_map]
    intro hmem
    obtain ⟨q, hq, heq⟩ := List.mem_map.1 hmem
    exact hposition q hq heq
  ownerOf := by
    rw [List.map_append, List.map_singleton, ← h.ownerOf]
    refine OrderedMap.put_eq_append ?_ _
    rw [h.ownerOf, List.map_map]
    intro hmem
    obtain ⟨q, hq, heq⟩ := List.mem_map.1 hmem
    exact hlabel q hq heq

theorem Agrees.get?_labelAt {points : List RingPoint} {t : Tables} (h : Agrees points t)
    {position : Nat} {label : String} :
    t.labelAt.get? position = some label ↔
      ∃ p ∈ points, p.position = position ∧ p.label = label := by
  rw [OrderedMap.get?_eq_some, h.labelAt, List.mem_map]
  simp only [Prod.mk.injEq]

theorem Agrees.get?_ownerOf {points : List RingPoint} {t : Tables} (h : Agrees points t)
    {p : RingPoint} (hp : p ∈ points) : t.ownerOf.get? p.label = some p.owner := by
  rw [OrderedMap.get?_eq_some, h.ownerOf]
  exact List.mem_map_of_mem hp

theorem Agrees.mem_keys {points : List RingPoint} {t : Tables} (h : Agrees points t)
    {position : Nat} : position ∈ t.labelAt.keys ↔ position ∈ t.positions := by
  rw [OrderedMap.keys, h.labelAt, List.map_map, h.positions.mem_iff]
  rfl

/-- What the tables of a ring with these nodes keep, however the hash collides. -/
structure Sound (hash : Bytes → Nat) (vnodes : Nat) (nodes : List Int) (t : Tables) : Prop where
  ascending : t.positions.Pairwise (· < ·)
  mem_positions : ∀ position, position ∈ t.positions ↔ position ∈ t.labelAt.keys
  /-- A label stands where it hashes to. -/
  hash_label : ∀ position label, t.labelAt.get? position = some label →
    hash (labelBytes label) = position
  label_unique : ∀ position position' label, t.labelAt.get? position = some label →
    t.labelAt.get? position' = some label → position = position'
  /-- A label says which node owns it. -/
  owner_label : ∀ position label, t.labelAt.get? position = some label →
    ∃ node ∈ nodes, ∃ i < vnodes, ∃ k,
      label = underscored (Ring.label node i) k ∧ t.ownerOf.get? label = some node
  /-- Each number of a node has one position. -/
  existsUnique_position : ∀ node ∈ nodes, ∀ i < vnodes,
    ∃! position, ∃ k, t.labelAt.get? position = some (underscored (Ring.label node i) k)
  length_positions : t.positions.length = vnodes * nodes.length

end Tables

section

variable {hash : Bytes → Nat} {pairs : List (Int × Nat)} {points : List RingPoint}

theorem Placed.position_eq (h : Placed hash pairs points) {p : RingPoint} (hp : p ∈ points) :
    p.position = hash (labelBytes p.label) := by
  obtain ⟨e, -, k, rfl⟩ := h.exists_pair hp
  rfl

/-- The tables that are written while the points come. -/
theorem Placed.agrees (h : Placed hash pairs points) :
    Tables.Agrees points (Tables.ofPoints points) := by
  induction h with
  | nil => exact ⟨List.Pairwise.nil, List.Perm.refl _, rfl, rfl⟩
  | @next pairs points node i k h hk ih =>
    have hposition := isTaken_eq_false.1 hk.free
    rw [Tables.ofPoints, List.foldl_append]
    -- a label that was there already would have had the position
    refine ih.record hposition fun q hq heq => hposition q hq ?_
    rw [h.position_eq hq, heq]
    rfl

theorem Placed.tables_sound {vnodes : Nat} {nodes : List Int} (hnd : nodes.Nodup)
    (h : Placed hash (turns vnodes nodes) points) :
    Tables.Sound hash vnodes nodes (Tables.ofPoints points) where
  ascending := by
    have hnodup := h.agrees.positions.nodup_iff.2 h.nodup_positions
    exact (h.agrees.sorted.and hnodup).imp fun hle => lt_of_le_of_ne hle.1 hle.2
  mem_positions := fun position => h.agrees.mem_keys.symm
  hash_label := fun position label hget => by
    obtain ⟨p, hp, rfl, rfl⟩ := h.agrees.get?_labelAt.1 hget
    exact (h.position_eq hp).symm
  label_unique := fun position position' label hget hget' => by
    obtain ⟨p, hp, rfl, rfl⟩ := h.agrees.get?_labelAt.1 hget
    obtain ⟨p', hp', rfl, hlabel⟩ := h.agrees.get?_labelAt.1 hget'
    rw [h.position_eq hp, h.position_eq hp', hlabel]
  owner_label := fun position label hget => by
    obtain ⟨p, hp, rfl, rfl⟩ := h.agrees.get?_labelAt.1 hget
    obtain ⟨e, he, k, rfl⟩ := h.exists_pair hp
    obtain ⟨hnode, hi⟩ := mem_turns.1 he
    exact ⟨e.1, hnode, e.2, hi, k, rfl, h.agrees.get?_ownerOf hp⟩
  existsUnique_position := fun node hnode i hi => by
    have hturn : (node, i) ∈ turns vnodes nodes := mem_turns.2 ⟨hnode, hi⟩
    obtain ⟨k, hk⟩ := h.exists_point hturn
    refine ⟨_, ⟨k, h.agrees.get?_labelAt.2 ⟨_, hk, rfl, rfl⟩⟩, ?_⟩
    rintro position ⟨k', hget⟩
    obtain ⟨p, hp, rfl, hlabel⟩ := h.agrees.get?_labelAt.1 hget
    -- a point whose label is one of this number's is this number's point
    obtain ⟨e, -, l, rfl⟩ := h.exists_pair hp
    obtain ⟨hn, hj⟩ := underscored_inj hlabel
    rw [hn, hj] at hp ⊢
    rw [h.eq_of_pair (nodup_turns vnodes hnd) hp hk]
  length_positions := by
    rw [h.agrees.positions.length_eq, List.length_map, h.length_eq, length_turns]

end

/-! ## 6. What every ring keeps of its labels -/

/-- The points of a ring came one after the other, node by node and number by number, each to the
first free position of its labels, and the tables that were written along the way agree. The ring
shows what is in them, it has `vnodes` points for each node that was added, and one that is added
again changes nothing. -/
theorem ofNodes_tables {hash : Bytes → Nat} {vnodes : Int} {nodes : List Int} {ring : Ring}
    (h : ofNodes hash vnodes nodes = .ok ring) :
    (∃ placed, Placed hash (turns vnodes.toNat nodes.eraseDups) placed ∧
      Tables.Sound hash vnodes.toNat nodes.eraseDups (Tables.ofPoints placed) ∧
      (Tables.ofPoints placed).positions = ring.snapshot.map Prod.fst ∧
      (∀ e ∈ ring.snapshot, (Tables.ofPoints placed).labelAt.get? e.1 = some e.2) ∧
      ∀ p ∈ ring.points, (Tables.ofPoints placed).ownerOf.get? p.label = some p.owner) ∧
    (ring.points.length : Int) = vnodes * nodes.eraseDups.length ∧
    ∀ node ∈ nodes, ring.add node = .ok ring := by
  obtain ⟨hpos, hvnodes, hhash, hnodes⟩ := of_ofNodes h
  obtain ⟨placed, hplaced, hperm⟩ := ofNodes_arrived h
  rw [hhash, hvnodes, hnodes] at hplaced
  have hagrees := hplaced.agrees
  have hsound := hplaced.tables_sound (hnodes ▸ (ofNodes_sound h).nodup)
  refine ⟨⟨placed, hplaced, hsound, ?_, fun e he => ?_, fun p hp => ?_⟩, ?_, fun node hnode => ?_⟩
  · -- both ascend and have the same positions
    rw [snapshot, List.map_map]
    have hring : (ring.points.map RingPoint.position).Pairwise (· ≤ ·) :=
      List.pairwise_map.2 ((ofNodes_sound h).ascending.imp Nat.le_of_lt)
    exact List.Perm.eq_of_pairwise' hagrees.sorted hring
      (hagrees.positions.trans (hperm.map RingPoint.position))
  · obtain ⟨p, hp, rfl⟩ := List.mem_map.1 he
    exact hagrees.get?_labelAt.2 ⟨p, hperm.mem_iff.2 hp, rfl, rfl⟩
  · exact hagrees.get?_ownerOf (hperm.mem_iff.2 hp)
  · rw [← hperm.length_eq, hplaced.length_eq, length_turns, Nat.cast_mul,
      Int.toNat_of_nonneg (by omega)]
  · refine add_of_mem ?_
    rw [hnodes, List.mem_eraseDups]
    exact hnode

/-- Where the hash counts bytes, the first label of the second node ends with two underscores. -/
theorem ofNodes_tables_colliding :
    ∃ ring : Ring, ofNodes List.length 2 [7, 0, 7] = .ok ring ∧
      (∃ t, Tables.Sound List.length 2 [7, 0] t ∧ t.positions = [3, 4, 5, 6] ∧
        t.labelAt.get? 5 = some "0#0__" ∧ t.ownerOf.get? "0#0__" = some 0) ∧
      ring.add 7 = .ok ring := by
  obtain ⟨⟨placed, -, hsound, hpositions, hlabels, howners⟩, -, hagain⟩ :=
    ofNodes_tables ofNodes_colliding
  refine ⟨_, ofNodes_colliding, ⟨_, hsound, hpositions, ?_, ?_⟩, hagain 7 (by decide)⟩
  · exact hlabels (5, "0#0__") (by decide)
  · exact howners ⟨5, "0#0__", 0⟩ (by decide)

end ReplicaCensus.Ring
