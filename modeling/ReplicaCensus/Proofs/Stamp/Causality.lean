import ReplicaCensus.Proofs.OrderedMap
import ReplicaCensus.Stamp.Basic
/-!
# Happened before -- a strict order on counts

A clock is compared through the count it has for each node, entries of zero and missing entries
alike. One clock is before another if no node counts more in it and some node counts less, and this
is a strict order. What two clocks have in common when they list the same entries includes all
counts. A clock is before what it becomes when a write of some node is counted.
-/

namespace ReplicaCensus

theorem Causality.code_injective : Function.Injective Causality.code := by
  intro x y h
  cases x <;> cases y <;> simp_all [Causality.code]

namespace Clock

theorem count_eq_zero {c : Clock} {node : Int} (h : node ∉ c.keys) : count c node = 0 := by
  rw [count, OrderedMap.get?_eq_none.2 h, Option.getD_none]

theorem count_eq_of_mem {c : Clock} {node n : Int} (h : (node, n) ∈ c.entries) :
    count c node = n := by
  rw [count, OrderedMap.get?_eq_some.2 h, Option.getD_some]

/-- A count above zero is that of an entry. -/
theorem mem_entries_of_count {c : Clock} {node n : Int} (h : count c node = n) (hn : 1 ≤ n) :
    (node, n) ∈ c.entries := by
  cases hget : c.get? node with
  | none =>
    rw [count, hget, Option.getD_none] at h
    omega
  | some m =>
    rw [count, hget, Option.getD_some] at h
    exact OrderedMap.get?_eq_some.1 (h ▸ hget)

/-- Only nodes with an entry can count less in one clock than in another. -/
theorem lessSomewhere_iff {a b : Clock} :
    lessSomewhere a b = true ↔ ∃ node, count a node < count b node := by
  simp only [lessSomewhere, List.any_eq_true, decide_eq_true_eq]
  constructor
  · rintro ⟨node, -, h⟩
    exact ⟨node, h⟩
  · rintro ⟨node, h⟩
    refine ⟨node, ?_, h⟩
    -- without an entry in either clock, the node counts zero in both
    by_contra hmem
    rw [List.mem_append, not_or] at hmem
    rw [count_eq_zero hmem.1, count_eq_zero hmem.2] at h
    exact Int.lt_irrefl 0 h

theorem lessSomewhere_eq_false {a b : Clock} :
    lessSomewhere a b = false ↔ ∀ node, count b node ≤ count a node := by
  rw [← Bool.not_eq_true, lessSomewhere_iff]
  simp

theorem compare_eq_before {a b : Clock} :
    compare a b = .before ↔
      (∀ node, count a node ≤ count b node) ∧ ∃ node, count a node < count b node := by
  rw [← lessSomewhere_iff, ← lessSomewhere_eq_false, compare]
  cases lessSomewhere a b <;> cases lessSomewhere b a <;> simp

/-- Comparing the other way round tells the same in other words. -/
theorem compare_eq_after {a b : Clock} : compare a b = .after ↔ compare b a = .before := by
  rw [compare, compare]
  cases lessSomewhere a b <;> cases lessSomewhere b a <;> simp

theorem compare_eq_same {a b : Clock} :
    compare a b = .same ↔ ∀ node, count a node = count b node := by
  have hboth : compare a b = .same ↔ lessSomewhere a b = false ∧ lessSomewhere b a = false := by
    rw [compare]
    cases lessSomewhere a b <;> cases lessSomewhere b a <;> simp
  rw [hboth, lessSomewhere_eq_false, lessSomewhere_eq_false]
  constructor
  · rintro ⟨hba, hab⟩ node
    exact Int.le_antisymm (hab node) (hba node)
  · intro h
    exact ⟨fun node => (h node).ge, fun node => (h node).le⟩

theorem compare_eq_concurrent {a b : Clock} :
    compare a b = .concurrent ↔
      (∃ node, count a node < count b node) ∧ ∃ node, count b node < count a node := by
  rw [← lessSomewhere_iff, ← lessSomewhere_iff, compare]
  cases lessSomewhere a b <;> cases lessSomewhere b a <;> simp

theorem not_before_self (a : Clock) : compare a a ≠ .before := by
  rw [Ne, compare_eq_before]
  rintro ⟨-, node, h⟩
  exact Int.lt_irrefl _ h

theorem before_trans {a b c : Clock} (hab : compare a b = .before) (hbc : compare b c = .before) :
    compare a c = .before := by
  rw [compare_eq_before] at *
  obtain ⟨hle, node, hlt⟩ := hab
  refine ⟨fun n => Int.le_trans (hle n) (hbc.1 n), node, ?_⟩
  exact Int.lt_of_lt_of_le hlt (hbc.1 node)

/-- In which order the entries came does not matter. -/
theorem count_eq_of_perm {a b : Clock} (h : a.entries.Perm b.entries) (node : Int) :
    count a node = count b node := by
  rw [count, count, OrderedMap.get?_eq_of_perm h]

theorem pairwise_sorted (c : Clock) : (sorted c).Pairwise fun e f => e.1 < f.1 := by
  have hle : (sorted c).Pairwise fun e f => decide (e.1 ≤ f.1) = true :=
    List.pairwise_mergeSort
      (fun _ _ _ h h' => decide_eq_true ((of_decide_eq_true h).trans (of_decide_eq_true h')))
      (fun e f => by simp [Int.le_total]) c.entries
  -- no node has two entries
  have hne : (sorted c).Pairwise fun e f => e.1 ≠ f.1 :=
    List.pairwise_map.1 (((List.mergeSort_perm _ _).map Prod.fst).nodup_iff.2 c.nodup)
  exact hle.imp₂ (fun _ _ h h' => lt_of_le_of_ne (of_decide_eq_true h) h') hne

/-- Sorting forgets the order of the entries and nothing else. -/
theorem sorted_eq_iff {a b : Clock} : sorted a = sorted b ↔ a.entries.Perm b.entries := by
  constructor
  · intro h
    calc
      a.entries.Perm (sorted a) := (List.mergeSort_perm _ _).symm
      (sorted a).Perm (sorted b) := h ▸ List.Perm.refl _
      (sorted b).Perm b.entries := List.mergeSort_perm _ _
  · intro h
    have hperm : (sorted a).Perm (sorted b) :=
      ((List.mergeSort_perm _ _).trans h).trans (List.mergeSort_perm _ _).symm
    exact hperm.eq_of_pairwise (fun _ _ _ _ h h' => absurd h (lt_asymm h')) (pairwise_sorted a)
      (pairwise_sorted b)

/-- The sorted entries fix every count. -/
theorem count_eq_of_sorted {a b : Clock} (h : sorted a = sorted b) (node : Int) :
    count a node = count b node :=
  count_eq_of_perm (sorted_eq_iff.1 h) node

/-- Only the counts are compared. -/
theorem compare_congr {a a' b b' : Clock} (ha : ∀ node, count a node = count a' node)
    (hb : ∀ node, count b node = count b' node) : compare a b = compare a' b' := by
  have hless : lessSomewhere a b = lessSomewhere a' b' := by
    rw [Bool.eq_iff_iff, lessSomewhere_iff, lessSomewhere_iff]
    simp only [ha, hb]
  have hmore : lessSomewhere b a = lessSomewhere b' a' := by
    rw [Bool.eq_iff_iff, lessSomewhere_iff, lessSomewhere_iff]
    simp only [ha, hb]
  rw [compare, compare, hless, hmore]

/-- Clocks with the same sorted entries come before the same clocks. -/
theorem before_congr_right {a b c : Clock} (h : sorted b = sorted c) :
    compare a b = .before ↔ compare a c = .before := by
  rw [compare_eq_before, compare_eq_before]
  simp only [count_eq_of_sorted h]

theorem before_congr_left {a b c : Clock} (h : sorted a = sorted b) :
    compare a c = .before ↔ compare b c = .before := by
  rw [compare_eq_before, compare_eq_before]
  simp only [count_eq_of_sorted h]

theorem count_increment (c : Clock) (node n : Int) :
    count (c.increment node) n = if node = n then count c node + 1 else count c n := by
  rw [increment, count, OrderedMap.get?_insert]
  split
  · rfl
  · rfl

theorem before_increment (c : Clock) (node : Int) : compare c (c.increment node) = .before := by
  rw [compare_eq_before]
  refine ⟨fun n => ?_, node, ?_⟩
  · rw [count_increment]
    split
    · next h => exact h ▸ Int.le_of_lt (Int.lt_succ _)
    · exact Int.le_refl _
  · rw [count_increment, if_pos rfl]
    exact Int.lt_succ _

end Clock

namespace Stamp

/-- The clocks of stamps are compared node by node, whatever their counts, the order of their
entries and their times are: the codes -1, 1, 0 and 2 say that all counts are at most those of the
other and one is less, that it is so the other way round, that all are the same, and that one is
less and one is more. So -1 is a strict order, which clocks with the same counts do not feel, and a
clock is before what an increment makes of it. -/
theorem compare_pointwise :
    (∀ a b : Stamp,
      ((Clock.compare a.clock b.clock).code = -1 ↔
        (∀ node, a.clock.count node ≤ b.clock.count node) ∧
          ∃ node, a.clock.count node < b.clock.count node) ∧
      ((Clock.compare a.clock b.clock).code = 1 ↔ (Clock.compare b.clock a.clock).code = -1) ∧
      ((Clock.compare a.clock b.clock).code = 0 ↔
        ∀ node, a.clock.count node = b.clock.count node) ∧
      ((Clock.compare a.clock b.clock).code = 2 ↔
        (∃ node, a.clock.count node < b.clock.count node) ∧
          ∃ node, b.clock.count node < a.clock.count node)) ∧
      (∀ a : Stamp, (Clock.compare a.clock a.clock).code ≠ -1) ∧
      (∀ a b c : Stamp, (Clock.compare a.clock b.clock).code = -1 →
        (Clock.compare b.clock c.clock).code = -1 → (Clock.compare a.clock c.clock).code = -1) ∧
      (∀ a a' b : Stamp,
        (Clock.compare a.clock a'.clock).code = 0 ∨ a.clock.entries.Perm a'.clock.entries →
        Clock.compare a.clock b.clock = Clock.compare a'.clock b.clock ∧
          Clock.compare b.clock a.clock = Clock.compare b.clock a'.clock) ∧
      ∀ (a : Stamp) (node now : Int),
        (Clock.compare a.clock (a.increment node now).clock).code = -1 := by
  have hbefore (a b : Clock) : (Clock.compare a b).code = -1 ↔ Clock.compare a b = .before :=
    Causality.code_injective.eq_iff' rfl
  have hafter (a b : Clock) : (Clock.compare a b).code = 1 ↔ Clock.compare a b = .after :=
    Causality.code_injective.eq_iff' rfl
  have hsame (a b : Clock) : (Clock.compare a b).code = 0 ↔ Clock.compare a b = .same :=
    Causality.code_injective.eq_iff' rfl
  have hconcurrent (a b : Clock) :
      (Clock.compare a b).code = 2 ↔ Clock.compare a b = .concurrent :=
    Causality.code_injective.eq_iff' rfl
  simp only [ne_eq, hbefore, hafter, hsame, hconcurrent]
  refine ⟨fun a b => ?_, fun a => Clock.not_before_self a.clock,
    fun a b c => Clock.before_trans, fun a a' b h => ?_,
    fun a node now => Clock.before_increment a.clock node⟩
  · exact ⟨Clock.compare_eq_before, Clock.compare_eq_after, Clock.compare_eq_same,
      Clock.compare_eq_concurrent⟩
  · -- either way the two clocks have the same counts
    have hcounts : ∀ node, a.clock.count node = a'.clock.count node :=
      h.elim Clock.compare_eq_same.1 Clock.count_eq_of_perm
    exact ⟨Clock.compare_congr hcounts fun _ => rfl, Clock.compare_congr (fun _ => rfl) hcounts⟩

/-! A count below zero, one of zero, and nodes without an entry. -/

def owing : Stamp := ⟨OrderedMap.ofList [(0, -1), (1, 0)], 9⟩

def level : Stamp := ⟨OrderedMap.ofList [(2, 0), (1, 0)], 3⟩

def turnedLevel : Stamp := ⟨OrderedMap.ofList [(1, 0), (2, 0)], 8⟩

def ahead : Stamp := ⟨OrderedMap.ofList [(3, 2)], 1⟩

theorem compare_pointwise_owing :
    (Clock.compare owing.clock level.clock).code = -1 ∧
      (Clock.compare level.clock ahead.clock).code = -1 ∧
      (Clock.compare owing.clock ahead.clock).code = -1 ∧
      level.clock.entries.Perm turnedLevel.clock.entries ∧
      Clock.compare level.clock ahead.clock = Clock.compare turnedLevel.clock ahead.clock ∧
      (Clock.compare ahead.clock (ahead.increment 0 4).clock).code = -1 := by
  obtain ⟨-, -, htrans, hcongr, hincrement⟩ := compare_pointwise
  have hfirst : (Clock.compare owing.clock level.clock).code = -1 := by decide
  have hsecond : (Clock.compare level.clock ahead.clock).code = -1 := by decide
  have hperm : level.clock.entries.Perm turnedLevel.clock.entries := by decide
  exact ⟨hfirst, hsecond, htrans _ _ _ hfirst hsecond, hperm, (hcongr _ _ _ (.inr hperm)).1,
    hincrement ahead 0 4⟩

end Stamp

end ReplicaCensus
