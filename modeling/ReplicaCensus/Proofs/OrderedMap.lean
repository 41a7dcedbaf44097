import Mathlib
import ReplicaCensus.OrderedMap
/-!
# Ordered maps through their view

What a map holds for a key is the value its pairs have there; writing what is there already changes
nothing, and taking a key out leaves what the others hold.
-/

namespace ReplicaCensus.OrderedMap

variable {κ ν : Type} [DecidableEq κ]

/-! ## 1. Pairs in a list -/

theorem find_eq_none {k : κ} {l : List (κ × ν)} : find k l = none ↔ k ∉ l.map Prod.fst := by
  induction l with
  | nil => simp [find]
  | cons p rest ih =>
    obtain ⟨j, v⟩ := p
    by_cases h : j = k
    · simp [find, h]
    · simp only [find, h, if_false, ih, List.map_cons, List.mem_cons, not_or]
      exact ⟨fun hk => ⟨Ne.symm h, hk⟩, fun hk => hk.2⟩

theorem find_eq_some_of_mem {k : κ} {v : ν} {l : List (κ × ν)} (hl : (l.map Prod.fst).Nodup)
    (h : (k, v) ∈ l) : find k l = some v := by
  induction l with
  | nil => cases h
  | cons p rest ih =>
    obtain ⟨j, w⟩ := p
    rw [List.map_cons, List.nodup_cons] at hl
    rcases List.mem_cons.1 h with h | h
    · cases h
      simp [find]
    · have hk : k ∈ rest.map Prod.fst := List.mem_map.2 ⟨_, h, rfl⟩
      have hne : j ≠ k := fun e => hl.1 (e ▸ hk)
      rw [find, if_neg hne]
      exact ih hl.2 h

theorem mem_of_find {k : κ} {v : ν} {l : List (κ × ν)} (h : find k l = some v) : (k, v) ∈ l := by
  induction l with
  | nil => cases h
  | cons p rest ih =>
    obtain ⟨j, w⟩ := p
    unfold find at h
    split at h
    · next e =>
      cases h
      rw [← e]
      exact List.mem_cons_self
    · exact List.mem_cons_of_mem _ (ih h)

/-- What holds of all values goes on to hold with another such value. -/
theorem forall_put {P : ν → Prop} {k : κ} {v : ν} {l : List (κ × ν)} (h : ∀ e ∈ l, P e.2)
    (hv : P v) : ∀ e ∈ put k v l, P e.2 := by
  induction l with
  | nil => exact List.forall_mem_singleton.2 hv
  | cons e rest ih =>
    obtain ⟨k', v'⟩ := e
    obtain ⟨hfirst, hrest⟩ := List.forall_mem_cons.1 h
    rw [put]
    split
    · exact List.forall_mem_cons.2 ⟨hv, hrest⟩
    · exact List.forall_mem_cons.2 ⟨hfirst, ih hrest⟩

/-- Writing what is there already changes nothing. -/
theorem put_eq_self {k : κ} {v : ν} {l : List (κ × ν)} (h : find k l = some v) :
    put k v l = l := by
  induction l with
  | nil => cases h
  | cons p rest ih =>
    obtain ⟨j, w⟩ := p
    by_cases e : j = k
    · rw [find, if_pos e] at h
      cases h
      rw [put, if_pos e]
    · rw [find, if_neg e] at h
      rw [put, if_neg e, ih h]

/-- A key that is not there goes to the end. -/
theorem put_eq_append {k : κ} {l : List (κ × ν)} (h : k ∉ l.map Prod.fst) (v : ν) :
    put k v l = l ++ [(k, v)] := by
  induction l with
  | nil => rfl
  | cons p rest ih =>
    obtain ⟨j, w⟩ := p
    rw [List.map_cons, List.mem_cons, not_or] at h
    rw [put, if_neg (Ne.symm h.1), ih h.2, List.cons_append]

theorem find_filter_ne (k j : κ) (l : List (κ × ν)) :
    find j (l.filter fun p => p.1 ≠ k) = if k = j then none else find j l := by
  induction l with
  | nil => simp [find]
  | cons p rest ih =>
    obtain ⟨i, v⟩ := p
    rw [List.filter_cons]
    by_cases hik : i = k
    · rw [if_neg (by simpa using hik), ih, find]
      by_cases hkj : k = j <;> simp [hik, hkj]
    · rw [if_pos (by simpa using hik), find, ih, find]
      by_cases hij : i = j
      · have hkj : k ≠ j := fun e => hik (hij.trans e.symm)
        simp [hij, hkj]
      · simp [hij]

theorem find_append (k : κ) (l l' : List (κ × ν)) :
    find k (l ++ l') = (find k l).or (find k l') := by
  induction l with
  | nil => rfl
  | cons p rest ih =>
    rw [List.cons_append, find, find]
    split
    · rfl
    · exact ih

/-! ## 2. Maps -/

theorem get?_eq_some {m : OrderedMap κ ν} {k : κ} {v : ν} :
    m.get? k = some v ↔ (k, v) ∈ m.entries :=
  ⟨mem_of_find, find_eq_some_of_mem m.nodup⟩

theorem get?_eq_none {m : OrderedMap κ ν} {k : κ} : m.get? k = none ↔ k ∉ m.keys := find_eq_none

theorem get?_eq_of_perm {a b : OrderedMap κ ν} (h : a.entries.Perm b.entries) (k : κ) :
    a.get? k = b.get? k := by
  -- no key has two values, so the order of the pairs does not matter
  apply Option.ext
  intro v
  rw [get?_eq_some, get?_eq_some, h.mem_iff]

theorem insert_eq_self {m : OrderedMap κ ν} {k : κ} {v : ν} (h : m.get? k = some v) :
    m.insert k v = m :=
  ext (put_eq_self h)

theorem get?_erase (m : OrderedMap κ ν) (k j : κ) :
    (m.erase k).get? j = if k = j then none else m.get? j :=
  find_filter_ne k j m.entries

theorem filter_put (k : κ) (v : ν) (l : List (κ × ν)) :
    (put k v l).filter (fun p => p.1 ≠ k) = l.filter fun p => p.1 ≠ k := by
  induction l with
  | nil => simp [put]
  | cons p rest ih =>
    unfold put
    by_cases h : p.1 = k
    · rw [if_pos h]
      simp [h]
    · rw [if_neg h, List.filter_cons, List.filter_cons, ih]

theorem erase_insert (m : OrderedMap κ ν) (k : κ) (v : ν) : (m.insert k v).erase k = m.erase k :=
  ext (filter_put k v m.entries)

/-- The last of the pairs with a key counts, and with none what was there before. -/
theorem get?_foldl_insert (pairs : List (κ × ν)) (m : OrderedMap κ ν) (k : κ) :
    (pairs.foldl (fun m p => m.insert p.1 p.2) m).get? k =
      (find k pairs.reverse).or (m.get? k) := by
  induction pairs generalizing m with
  | nil => rfl
  | cons p rest ih =>
    rw [List.foldl_cons, ih, get?_insert, List.reverse_cons, find_append, Option.or_assoc]
    congr 1
    rw [find]
    split
    · rfl
    · rfl

/-- Keys that are new come behind the others, in their order. -/
theorem entries_foldl_insert {pairs : List (κ × ν)} {m : OrderedMap κ ν}
    (h : (m.entries.map Prod.fst ++ pairs.map Prod.fst).Nodup) :
    (pairs.foldl (fun m p => m.insert p.1 p.2) m).entries = m.entries ++ pairs := by
  induction pairs generalizing m with
  | nil => exact (List.append_nil _).symm
  | cons p rest ih =>
    have hnew : p.1 ∉ m.entries.map Prod.fst :=
      fun hmem => List.disjoint_of_nodup_append h hmem List.mem_cons_self
    have hinsert : (m.insert p.1 p.2).entries = m.entries ++ [p] := put_eq_append hnew p.2
    rw [List.foldl_cons, ih, hinsert, List.append_assoc, List.singleton_append]
    rwa [hinsert, List.map_append, List.append_assoc]

theorem get?_ofList (pairs : List (κ × ν)) (k : κ) :
    (ofList pairs).get? k = find k pairs.reverse := by
  rw [ofList, get?_foldl_insert, get?_empty, Option.or_none]

theorem get?_ofList_eq_none {pairs : List (κ × ν)} {k : κ} :
    (ofList pairs).get? k = none ↔ k ∉ pairs.map Prod.fst := by
  rw [get?_ofList, find_eq_none, List.map_reverse, List.mem_reverse]

theorem mem_of_get?_foldl_insert {pairs : List (κ × ν)} {m : OrderedMap κ ν} {k : κ} {v : ν}
    (h : (pairs.foldl (fun m p => m.insert p.1 p.2) m).get? k = some v) :
    m.get? k = some v ∨ (k, v) ∈ pairs := by
  rw [get?_foldl_insert, Option.or_eq_some_iff] at h
  rcases h with h | ⟨-, h⟩
  · exact .inr (List.mem_reverse.1 (mem_of_find h))
  · exact .inl h

theorem mem_of_get?_ofList {pairs : List (κ × ν)} {k : κ} {v : ν}
    (h : (ofList pairs).get? k = some v) : (k, v) ∈ pairs := by
  rw [get?_ofList] at h
  exact List.mem_reverse.1 (mem_of_find h)

theorem mem_of_mem_ofList {pairs : List (κ × ν)} {p : κ × ν} (h : p ∈ (ofList pairs).entries) :
    p ∈ pairs := mem_of_get?_ofList (get?_eq_some.2 h)

/-- A map has the pairs it is made of again. -/
theorem ofList_entries (m : OrderedMap κ ν) : ofList m.entries = m :=
  ext (entries_foldl_insert m.nodup)

/-- Every pair is kept if and only if no key comes with two values. -/
theorem get?_ofList_eq_some_iff {pairs : List (κ × ν)} :
    (∀ p ∈ pairs, (ofList pairs).get? p.1 = some p.2) ↔
      ∀ p ∈ pairs, ∀ q ∈ pairs, p.1 = q.1 → p.2 = q.2 := by
  constructor
  · intro h p hp q hq he
    have hsame := h p hp
    rw [he, h q hq] at hsame
    exact (Option.some.inj hsame).symm
  · intro h p hp
    cases hget : (ofList pairs).get? p.1 with
    | none => exact absurd (List.mem_map_of_mem hp) (get?_ofList_eq_none.1 hget)
    | some v => exact congrArg some (h p hp _ (mem_of_get?_ofList hget) rfl).symm

end ReplicaCensus.OrderedMap
