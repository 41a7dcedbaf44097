import Mathlib
import ReplicaCensus.Proofs.Storage.Accounting
/-!
# Versions that count one write

A clock that counts a single write of a single node is before no other such clock. So of versions
with these clocks none makes another obsolete, and a cell keeps all that were written to it.
-/

namespace ReplicaCensus

/-! ## 1. Clocks of one write -/

namespace Clock

/-- The clock of the first write of a node. -/
def once (node : Int) : Clock := OrderedMap.ofList [(node, 1)]

theorem count_once (node n : Int) : count (once node) n = if node = n then 1 else 0 := by
  unfold count once OrderedMap.get? OrderedMap.ofList
  by_cases h : node = n
  · rw [if_pos h, ← h]
    simp [OrderedMap.insert, OrderedMap.put, OrderedMap.find, OrderedMap.empty]
  · rw [if_neg h]
    simp [OrderedMap.insert, OrderedMap.put, OrderedMap.find, OrderedMap.empty, h]

theorem sorted_once (node : Int) : sorted (once node) = [(node, 1)] := List.mergeSort_singleton _

/-- Nothing else lists the same entries. -/
theorem eq_once_of_sorted {c : Clock} {node : Int} (h : sorted c = [(node, 1)]) :
    c = once node := by
  have hperm : c.entries.Perm [(node, 1)] :=
    calc
      c.entries.Perm (sorted c) := (List.mergeSort_perm _ _).symm
      (sorted c).Perm [(node, 1)] := h ▸ List.Perm.refl _
  exact OrderedMap.ext (List.perm_singleton.1 hperm)

theorem not_before_once (a b : Int) : compare (once a) (once b) ≠ .before := by
  rw [Ne, compare_eq_before]
  rintro ⟨hle, n, hlt⟩
  -- what is counted less is counted for the other node, and then this one's write is missing there
  have ha := hle a
  rw [count_once, count_once, if_pos rfl] at ha
  rw [count_once, count_once] at hlt
  by_cases hb : b = a
  · rw [hb] at hlt
    exact Int.lt_irrefl _ hlt
  · rw [if_neg hb] at ha
    omega

end Clock

/-! ## 2. Histories of such versions -/

namespace Version

/-- A version whose clock counts a single write. -/
def CountsOne (v : Version) : Prop := ∃ node, v.stamp.clock = Clock.once node

/-- Of versions that count one write all are maximal. -/
theorem maximal_of_countsOne {history : List Version} (h : ∀ v ∈ history, v.CountsOne) :
    maximal history = distinctOn signature history := by
  have hall : history.filter (isMaximal history) = history := by
    apply List.filter_eq_self.2
    intro v hv
    rw [isMaximal_iff]
    intro w hw
    obtain ⟨a, ha⟩ := h v hv
    obtain ⟨b, hb⟩ := h w hw
    rw [isBefore, ha, hb]
    exact decide_eq_false (Clock.not_before_once a b)
  rw [maximal, hall]

end Version

namespace Storage

variable {names : List String} {writes : List Write}

/-- A cell to which only such versions were written holds what was written, each signature once. -/
theorem signatures_of_countsOne {store : String} (hstore : store ∈ names) {key : Bytes}
    (h : ∀ w ∈ writes, w.version.CountsOne) :
    ∃ held, ((ofNames names).applyAll writes).versions store key = .ok held ∧
      held.map Version.signature =
        ((history writes store key).map Version.signature).eraseDups := by
  refine ⟨_, versions_applyAll hstore key writes, ?_⟩
  have hhistory : ∀ v ∈ history writes store key, v.CountsOne := by
    intro v hv
    obtain ⟨w, hw, rfl⟩ := List.mem_map.1 hv
    exact h w (List.mem_filter.1 hw).1
  rw [Version.maximal_of_countsOne hhistory, map_distinctOn]

/-- One more such write is answered with its own clock. -/
theorem put_of_countsOne {w : Write} (hstore : w.store ∈ names)
    (h : ∀ w ∈ writes, w.version.CountsOne) {node : Int}
    (hw : w.version.stamp.clock = Clock.once node) :
    ∃ stored, ((ofNames names).applyAll writes).put w.store w.key w.version =
        .ok (stored, (ofNames names).applyAll (writes ++ [w])) ∧
      stored.stamp.clock = Clock.once node := by
  refine ⟨_, put_of_mem hstore, ?_⟩
  -- nothing that was written is after the write
  have hlive : ¬Version.IsObsolete (Version.maximal (history writes w.store w.key)) w.version := by
    rintro ⟨u, hu, hbefore⟩
    obtain ⟨w', hw', rfl⟩ := List.mem_map.1 (Version.mem_of_mem_maximal hu).1
    obtain ⟨node', hnode'⟩ := h w' (List.mem_filter.1 hw').1
    rw [Version.isBefore, hw, hnode', decide_eq_true_eq] at hbefore
    exact Clock.not_before_once node node' hbefore
  have hsorted := congrArg Prod.snd (answer_of_not_isObsolete hlive)
  rw [Version.signature, Version.signature, hw, Clock.sorted_once] at hsorted
  exact Clock.eq_once_of_sorted hsorted

end Storage

end ReplicaCensus
