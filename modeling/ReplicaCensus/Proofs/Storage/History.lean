import ReplicaCensus.Proofs.Distinct
import ReplicaCensus.Proofs.Stamp.Causality
import ReplicaCensus.Storage
/-!
# Storage and its history

A storage sees of earlier writes only what it kept of them. Even so the versions it holds for a key
are the maximal ones of all writes ever made to the key, in the order of the writes. A version that
was dropped is never missed: it was before one that was kept, or one with its signature was kept,
and whatever either says about another version the kept one says as well.
-/

namespace ReplicaCensus

/-! ## 1. Maximal versions -/

namespace Version

/-- Whether no version of a history comes after `v`. -/
def isMaximal (history : List Version) (v : Version) : Bool :=
  history.all fun w => Clock.compare v.stamp.clock w.stamp.clock ≠ .before

/-- The versions of a history that no other comes after, of those with one signature the first. -/
def maximal (history : List Version) : List Version :=
  distinctOn signature (history.filter (isMaximal history))

theorem isMaximal_iff {history : List Version} {v : Version} :
    isMaximal history v = true ↔ ∀ w ∈ history, v.isBefore w = false := by
  simp [isMaximal, isBefore]

theorem undominated_eq_filter (history : List Version) :
    undominated history = history.filter (isMaximal history) := by
  apply List.filter_congr
  intro v _
  rw [Bool.eq_iff_iff, isMaximal_iff]
  simp

theorem dedupFrom_eq (seen : List (String × List (Int × Int))) (history : List Version) :
    dedupFrom seen history = distinctOn signature (history.filter fun v => v.signature ∉ seen) := by
  -- by induction on the history, with the signatures seen so far as the accumulator
  induction history generalizing seen with
  | nil => rfl
  | cons v rest ih =>
    unfold dedupFrom
    split
    · next h =>
      rw [List.filter_cons_of_neg (by simpa using h), ih]
    · next h =>
      rw [List.filter_cons_of_pos (by simpa using h), distinctOn_cons, ih, List.filter_filter]
      congr 3
      funext w
      simp [and_comm]

theorem dedup_eq_distinctOn (history : List Version) :
    dedup history = distinctOn signature history := by
  rw [dedup, dedupFrom_eq]
  simp

theorem not_isBefore_self (v : Version) : v.isBefore v = false :=
  decide_eq_false (Clock.not_before_self _)

theorem isBefore_trans {u v w : Version} (huv : u.isBefore v = true) (hvw : v.isBefore w = true) :
    u.isBefore w = true := by
  simp only [isBefore, decide_eq_true_eq] at *
  exact Clock.before_trans huv hvw

theorem isBefore_congr_left {u v w : Version} (h : u.signature = v.signature) :
    u.isBefore w = v.isBefore w := by
  simp only [isBefore, Clock.before_congr_left (congrArg Prod.snd h)]

theorem isBefore_congr_right {u v w : Version} (h : v.signature = w.signature) :
    u.isBefore v = u.isBefore w := by
  simp only [isBefore, Clock.before_congr_right (congrArg Prod.snd h)]

theorem isMaximal_congr {history : List Version} {v w : Version} (h : v.signature = w.signature) :
    isMaximal history v = isMaximal history w := by
  -- a signature has the entries of the clock in it, and nothing else counts
  rw [Bool.eq_iff_iff, isMaximal_iff, isMaximal_iff]
  simp only [isBefore_congr_left h]

/-- After each version of a history that is not maximal comes one that is. -/
theorem exists_maximal_after {history : List Version} {v w : Version} (hw : w ∈ history)
    (hvw : v.isBefore w = true) :
    ∃ m ∈ history, v.isBefore m = true ∧ isMaximal history m = true := by
  -- coming after is a strict order on finitely many versions, so some version after `v` is last
  let after (a b : history.toFinset) : Prop := b.1.isBefore a.1 = true
  have : IsTrans _ after := ⟨fun a b c hab hbc => isBefore_trans hbc hab⟩
  have : Std.Irrefl after := ⟨fun a h => by simp [after, not_isBefore_self] at h⟩
  have hwf : WellFounded after := Finite.wellFounded_of_trans_of_irrefl after
  obtain ⟨⟨m, hm⟩, hvm, hmin⟩ := hwf.has_min (fun m => v.isBefore m.1 = true)
    ⟨⟨w, List.mem_toFinset.2 hw⟩, hvw⟩
  refine ⟨m, List.mem_toFinset.1 hm, hvm, isMaximal_iff.2 ?_⟩
  -- a version after the last one would be after `v`, too
  intro u hu
  by_contra hmu
  rw [Bool.not_eq_false] at hmu
  exact hmin ⟨u, List.mem_toFinset.2 hu⟩ (isBefore_trans hvm hmu) hmu

/-! ## 2. One more write -/

/-- Some version with the signature of a maximal one is kept. -/
theorem exists_mem_maximal {history : List Version} {v : Version} (hv : v ∈ history)
    (hmax : isMaximal history v = true) : ∃ w ∈ maximal history, w.signature = v.signature :=
  exists_mem_distinctOn signature (List.mem_filter.2 ⟨hv, hmax⟩)

theorem mem_of_mem_maximal {history : List Version} {v : Version} (h : v ∈ maximal history) :
    v ∈ history ∧ isMaximal history v = true :=
  List.mem_filter.1 ((distinctOn_sublist signature _).subset h)

/-- With one more write, the versions kept say about every version what the whole history says. -/
theorem isMaximal_maximal_append (history : List Version) (c v : Version) :
    isMaximal (maximal history ++ [c]) v = isMaximal (history ++ [c]) v := by
  rw [Bool.eq_iff_iff, isMaximal_iff, isMaximal_iff]
  constructor
  · intro h w hw
    rcases List.mem_append.1 hw with hw | hw
    · by_contra hvw
      rw [Bool.not_eq_false] at hvw
      -- a later version that was dropped has a maximal one after it, of which a copy was kept
      obtain ⟨m, hm, hvm, hmax⟩ := exists_maximal_after hw hvw
      obtain ⟨u, hu, hsame⟩ := exists_mem_maximal hm hmax
      have hvu := h u (List.mem_append_left _ hu)
      rw [isBefore_congr_right hsame, hvm] at hvu
      cases hvu
    · exact h w (List.mem_append_right _ hw)
  · intro h w hw
    rcases List.mem_append.1 hw with hw | hw
    · exact h w (List.mem_append_left _ (mem_of_mem_maximal hw).1)
    · exact h w (List.mem_append_right _ hw)

/-- What is maximal with one more write was maximal before or is that write. -/
theorem isMaximal_of_append {history : List Version} {c v : Version}
    (h : isMaximal (history ++ [c]) v = true) : isMaximal history v = true := by
  rw [isMaximal_iff] at *
  exact fun w hw => h w (List.mem_append_left _ hw)

theorem merge_maximal (history : List Version) (c : Version) :
    Storage.merge (maximal history) c = maximal (history ++ [c]) := by
  -- what the merge keeps is decided by the whole history, and alike for one signature
  let p := isMaximal (history ++ [c])
  have hp : ∀ u v : Version, u.signature = v.signature → p u = p v := fun u v => isMaximal_congr
  -- whatever is maximal now was maximal before, so filtering twice is filtering once
  have hold : history.filter p = (history.filter (isMaximal history)).filter p := by
    rw [List.filter_filter]
    apply List.filter_congr
    intro v _
    cases hv : p v
    · rfl
    · rw [isMaximal_of_append hv, Bool.and_self]
  calc
    Storage.merge (maximal history) c
      = distinctOn signature ((maximal history ++ [c]).filter p) := by
        rw [Storage.merge, dedup_eq_distinctOn, undominated_eq_filter,
          funext (isMaximal_maximal_append history c)]
    _ = distinctOn signature (distinctOn signature
          ((history.filter (isMaximal history)).filter p) ++ [c].filter p) := by
        rw [List.filter_append, distinctOn_filter signature hp]
        rfl
    _ = distinctOn signature (history.filter p ++ [c].filter p) := by
        rw [distinctOn_distinctOn_append, ← hold]
    _ = maximal (history ++ [c]) := by rw [← List.filter_append, maximal]

/-- A write whose signature has come up already leaves the maximal versions as they are. -/
theorem maximal_append_of_signature {history : List Version} {c v : Version} (hv : v ∈ history)
    (hsig : v.signature = c.signature) : maximal (history ++ [c]) = maximal history := by
  -- a second version with the same clock is after no version that the first is not after
  have hsame : isMaximal (history ++ [c]) = isMaximal history := by
    funext u
    rw [Bool.eq_iff_iff, isMaximal_iff, isMaximal_iff]
    simp only [List.mem_append, List.mem_singleton]
    constructor
    · exact fun h w hw => h w (.inl hw)
    · rintro h w (hw | rfl)
      · exact h w hw
      · rw [← isBefore_congr_right hsig]
        exact h v hv
  rw [maximal, List.filter_append, hsame, List.filter_singleton]
  cases hmax : isMaximal history c
  · rw [cond_false, List.append_nil, maximal]
  · have hmem : c.signature ∈ (history.filter (isMaximal history)).map signature :=
      List.mem_map.2 ⟨v, List.mem_filter.2 ⟨hv, isMaximal_congr hsig ▸ hmax⟩, hsig⟩
    rw [cond_true, distinctOn_append_singleton, if_pos hmem, maximal]

theorem maximal_ne_nil {history : List Version} (h : history ≠ []) : maximal history ≠ [] := by
  obtain ⟨v, hv⟩ := List.exists_mem_of_ne_nil history h
  -- any version is maximal itself or has a maximal one after it
  have hmax : ∃ m ∈ history, isMaximal history m = true := by
    by_cases hvm : isMaximal history v = true
    · exact ⟨v, hv, hvm⟩
    · rw [isMaximal_iff, not_forall] at hvm
      obtain ⟨w, hw⟩ := hvm
      rw [Classical.not_imp, Bool.not_eq_false] at hw
      obtain ⟨m, hm, -, hmax⟩ := exists_maximal_after hw.1 hw.2
      exact ⟨m, hm, hmax⟩
  obtain ⟨m, hm, hmax⟩ := hmax
  obtain ⟨w, hw, -⟩ := exists_mem_maximal hm hmax
  exact List.ne_nil_of_mem hw

/-- The signatures that are kept depend on which versions a history has, not on their order. -/
theorem signature_mem_maximal {history : List Version} {s : String × List (Int × Int)} :
    s ∈ (maximal history).map signature ↔
      ∃ v ∈ history, (∀ w ∈ history, v.isBefore w = false) ∧ v.signature = s := by
  rw [maximal, mem_map_distinctOn, List.mem_map]
  simp only [List.mem_filter, isMaximal_iff, and_assoc]

end Version

/-! ## 3. Whole histories -/

/-- A write: the cell it goes to, and the version it brings. -/
structure Write where
  store : String
  key : Bytes
  version : Version
  deriving DecidableEq

namespace Storage

/-- The storage after a write; one to a store that is not known changes nothing. -/
def apply (s : Storage) (w : Write) : Storage :=
  match s.put w.store w.key w.version with
  | .ok (_, s) => s
  | .error _ => s

/-- The storage after writes, one after the other. -/
def applyAll (s : Storage) (writes : List Write) : Storage := writes.foldl apply s

/-- What was written to a key of a store, in the order of the writes. -/
def history (writes : List Write) (store : String) (key : Bytes) : List Version :=
  (writes.filter fun w => w.store = store ∧ w.key = key).map Write.version

theorem applyAll_append_singleton (s : Storage) (writes : List Write) (w : Write) :
    s.applyAll (writes ++ [w]) = (s.applyAll writes).apply w := by
  simp [applyAll]

theorem hasStore_iff {s : Storage} {store : String} :
    s.hasStore store = true ↔ ∃ keys, s.stores.get? store = some keys := by
  rw [hasStore, OrderedMap.contains, Option.isSome_iff_exists]

theorem hasStore_ofNames {names : List String} {store : String} :
    (ofNames names).hasStore store = true ↔ store ∈ names := by
  rw [hasStore, OrderedMap.contains, Option.isSome_iff_ne_none, ofNames, Ne,
    OrderedMap.get?_ofList_eq_none, not_not, List.map_map]
  simp [Function.comp_def]

theorem put_of_unknown {s : Storage} {store : String} (h : s.hasStore store = false) (key : Bytes)
    (v : Version) : s.put store key v = .error ⟨store⟩ := by
  rw [hasStore, OrderedMap.contains, Option.isSome_eq_false_iff, Option.isNone_iff_eq_none] at h
  rw [put, h]

/-- A write to a known store: the versions of its key are merged with it. -/
theorem apply_of_known {s : Storage} {w : Write} {keys : OrderedMap Bytes (List Version)}
    (h : s.stores.get? w.store = some keys) :
    s.apply w = ⟨s.stores.insert w.store
      (keys.insert w.key (merge ((keys.get? w.key).getD []) w.version))⟩ := by
  rw [apply, put, h]

theorem apply_of_unknown {s : Storage} {w : Write} (h : s.hasStore w.store = false) :
    s.apply w = s := by
  rw [apply, put_of_unknown h]

theorem hasStore_apply (s : Storage) (w : Write) (store : String) :
    (s.apply w).hasStore store = s.hasStore store := by
  cases hk : s.hasStore w.store
  · rw [apply_of_unknown hk]
  · obtain ⟨keys, hkeys⟩ := hasStore_iff.1 hk
    rw [apply_of_known hkeys]
    by_cases h : w.store = store
    · rw [Bool.eq_iff_iff, hasStore_iff, OrderedMap.get?_insert, if_pos h, ← h, hk]
      simp
    · rw [hasStore, OrderedMap.contains, OrderedMap.get?_insert, if_neg h]
      rfl

theorem hasStore_applyAll (s : Storage) (writes : List Write) (store : String) :
    (s.applyAll writes).hasStore store = s.hasStore store := by
  induction writes using List.reverseRecOn with
  | nil => rfl
  | append_singleton writes w ih => rw [applyAll_append_singleton, hasStore_apply, ih]

/-- A write changes the versions of its own cell alone. -/
theorem versions_apply_of_ne (s : Storage) {w : Write} {store : String} {key : Bytes}
    (h : ¬(w.store = store ∧ w.key = key)) :
    (s.apply w).versions store key = s.versions store key := by
  cases hk : s.hasStore w.store
  · rw [apply_of_unknown hk]
  · obtain ⟨keys, hkeys⟩ := hasStore_iff.1 hk
    rw [apply_of_known hkeys, versions, versions, OrderedMap.get?_insert]
    -- the other cell is another key of the same store, or in another store
    by_cases hs : w.store = store
    · have hne : w.key ≠ key := fun e => h ⟨hs, e⟩
      rw [if_pos hs, ← hs, hkeys]
      simp only [OrderedMap.get?_insert, if_neg hne]
    · rw [if_neg hs]

theorem versions_apply_self {s : Storage} {w : Write} {old : List Version}
    (h : s.versions w.store w.key = .ok old) :
    (s.apply w).versions w.store w.key = .ok (merge old w.version) := by
  unfold versions at h
  split at h
  · cases h
  · next keys hkeys =>
    cases h
    rw [apply_of_known hkeys, versions, OrderedMap.get?_insert, if_pos rfl]
    simp only [OrderedMap.get?_insert, if_pos, Option.getD_some]

theorem versions_ofNames {names : List String} {store : String} (h : store ∈ names) (key : Bytes) :
    (ofNames names).versions store key = .ok [] := by
  obtain ⟨keys, hkeys⟩ := hasStore_iff.1 (hasStore_ofNames.2 h)
  obtain ⟨name, -, hname⟩ := List.mem_map.1 (OrderedMap.mem_of_get?_ofList hkeys)
  cases hname
  rw [versions, hkeys]
  rfl

theorem history_append_singleton (writes : List Write) (w : Write) (store : String) (key : Bytes) :
    history (writes ++ [w]) store key =
      history writes store key ++
        if w.store = store ∧ w.key = key then [w.version] else [] := by
  rw [history, List.filter_append, List.map_append, history, List.filter_singleton]
  by_cases h : w.store = store ∧ w.key = key
  · rw [if_pos h, decide_eq_true h]
    rfl
  · rw [if_neg h, decide_eq_false h]
    rfl

/-- The versions of a cell after any writes are the maximal ones of its history. -/
theorem versions_applyAll {names : List String} {store : String} (h : store ∈ names) (key : Bytes)
    (writes : List Write) :
    ((ofNames names).applyAll writes).versions store key =
      .ok (Version.maximal (history writes store key)) := by
  -- by induction on the writes, taking the last one off
  induction writes using List.reverseRecOn with
  | nil => exact versions_ofNames h key
  | append_singleton writes w ih =>
    rw [applyAll_append_singleton, history_append_singleton]
    by_cases hw : w.store = store ∧ w.key = key
    · obtain ⟨rfl, rfl⟩ := hw
      rw [versions_apply_self ih, if_pos ⟨rfl, rfl⟩, Version.merge_maximal]
    · rw [versions_apply_of_ne _ hw, if_neg hw, List.append_nil, ih]

/-- A write that leaves the versions of its cell as they are changes nothing at all. -/
theorem apply_eq_self {s : Storage} {w : Write} {old : List Version}
    (h : s.versions w.store w.key = .ok old) (hne : old ≠ [])
    (hmerge : merge old w.version = old) : s.apply w = s := by
  unfold versions at h
  split at h
  · cases h
  · next keys hkeys =>
    -- a cell that was never written to holds nothing, so this one was
    have hold : keys.get? w.key = some old := by
      cases hget : keys.get? w.key with
      | none =>
        rw [hget] at h
        cases h
        exact absurd rfl hne
      | some versions =>
        rw [hget] at h
        cases h
        rfl
    rw [apply_of_known hkeys, hold, Option.getD_some, hmerge, OrderedMap.insert_eq_self hold,
      OrderedMap.insert_eq_self hkeys]

/-- Writing a version that was written before changes nothing, whatever time the new one bears. -/
theorem apply_of_signature {names : List String} {writes : List Write} {w : Write} {v : Version}
    (hv : v ∈ history writes w.store w.key) (hsig : v.signature = w.version.signature) :
    ((ofNames names).applyAll writes).apply w = (ofNames names).applyAll writes := by
  -- a write to a store that is not known is refused whatever was written
  by_cases hs : w.store ∈ names
  · apply apply_eq_self (versions_applyAll hs w.key writes)
    · exact Version.maximal_ne_nil (List.ne_nil_of_mem hv)
    · rw [Version.merge_maximal, Version.maximal_append_of_signature hv hsig]
  · apply apply_of_unknown
    rw [hasStore_applyAll, Bool.eq_false_iff, Ne, hasStore_ofNames]
    exact hs

/-- After any writes to a new storage, a cell of a known store holds the maximal versions of its own
history: of all versions ever written to it those that no other is after, in the order of their
writes, of those with one signature the first. So no maximal version is lost, none that is held
comes before another, no signature is held twice, a cell that was written to is not empty, repeating
a write changes nothing even at another time, writes to other cells do not show, and the order of
the writes does not matter for the signatures. A write to a store that is not known is refused and
changes nothing. -/
theorem versions_eq_maximal (names : List String) (writes : List Write) (store : String)
    (hstore : store ∈ names) (key : Bytes) :
    ∃ held, ((ofNames names).applyAll writes).versions store key = .ok held ∧
      held = distinctOn Version.signature ((history writes store key).filter fun v =>
        (history writes store key).all fun w =>
          Clock.compare v.stamp.clock w.stamp.clock ≠ .before) ∧
      (∀ v ∈ history writes store key,
        (∀ w ∈ history writes store key, Clock.compare v.stamp.clock w.stamp.clock ≠ .before) →
          ∃ u ∈ held, u.signature = v.signature) ∧
      (∀ v ∈ held, ∀ w ∈ held, Clock.compare v.stamp.clock w.stamp.clock ≠ .before) ∧
      (held.map Version.signature).Nodup ∧
      (history writes store key ≠ [] → held ≠ []) ∧
      (∀ w : Write, (∃ v ∈ history writes w.store w.key, v.signature = w.version.signature) →
        ((ofNames names).applyAll writes).apply w = (ofNames names).applyAll writes) ∧
      (∀ w : Write, ¬(w.store = store ∧ w.key = key) →
        (((ofNames names).applyAll writes).apply w).versions store key = .ok held) ∧
      (∀ writes' : List Write, writes'.Perm writes → ∃ held',
        ((ofNames names).applyAll writes').versions store key = .ok held' ∧
          ∀ s, s ∈ held'.map Version.signature ↔ s ∈ held.map Version.signature) ∧
      ∀ w : Write, w.store ∉ names →
        ((ofNames names).applyAll writes).put w.store w.key w.version = .error ⟨w.store⟩ ∧
          ((ofNames names).applyAll writes).apply w = (ofNames names).applyAll writes := by
  have hheld := versions_applyAll hstore key writes
  refine ⟨_, hheld, rfl, ?_, ?_, nodup_map_distinctOn _ _, Version.maximal_ne_nil,
    fun w ⟨v, hv, hsig⟩ => apply_of_signature hv hsig, ?_, ?_, ?_⟩
  · intro v hv hmax
    apply Version.exists_mem_maximal hv
    simpa [Version.isMaximal] using hmax
  · intro v hv w hw
    have hmax := Version.isMaximal_iff.1 (Version.mem_of_mem_maximal hv).2 w
      (Version.mem_of_mem_maximal hw).1
    exact of_decide_eq_false hmax
  · intro w hw
    rw [versions_apply_of_ne _ hw, hheld]
  · intro writes' hperm
    refine ⟨_, versions_applyAll hstore key writes', fun s => ?_⟩
    -- the order of the writes does not show in which versions there are
    have hmem : ∀ v, v ∈ history writes' store key ↔ v ∈ history writes store key := by
      intro v
      exact ((hperm.filter _).map _).mem_iff
    rw [Version.signature_mem_maximal, Version.signature_mem_maximal]
    simp only [hmem]
  · intro w hw
    have hunknown : ((ofNames names).applyAll writes).hasStore w.store = false := by
      rw [hasStore_applyAll, Bool.eq_false_iff, Ne, hasStore_ofNames]
      exact hw
    exact ⟨put_of_unknown hunknown _ _, apply_of_unknown hunknown⟩

/-- Two values with one clock, an entry of zero, a repetition at a later time, a store that is not
known, and a version that comes after one written before it and one written behind it. -/
theorem versions_eq_maximal_siblings :
    "users" ∈ ["meta", "users"] ∧
      ((ofNames ["meta", "users"]).applyAll
        ([("users", "a", [(0, 1)], 1), ("users", "b", [(0, 1)], 2),
          ("users", "a", [(1, 0), (0, 1)], 3), ("users", "a", [(0, 1)], 4),
          ("orders", "z", [(0, 9)], 5), ("users", "c", [(1, 2)], 6), ("users", "d", [(1, 3)], 7),
          ("users", "e", [(1, 1)], 8)].map fun (store, value, entries, time) =>
            ⟨store, [1], ⟨value, OrderedMap.ofList entries, time⟩⟩)).versions "users" [1] =
      .ok ([("a", [(0, 1)], 1), ("b", [(0, 1)], 2), ("a", [(1, 0), (0, 1)], 3),
        ("d", [(1, 3)], 7)].map fun (value, entries, time) =>
          ⟨value, OrderedMap.ofList entries, time⟩) := by
  obtain ⟨held, hheld, hmax, -⟩ := versions_eq_maximal ["meta", "users"]
    ([("users", "a", [(0, 1)], 1), ("users", "b", [(0, 1)], 2),
      ("users", "a", [(1, 0), (0, 1)], 3), ("users", "a", [(0, 1)], 4),
      ("orders", "z", [(0, 9)], 5), ("users", "c", [(1, 2)], 6), ("users", "d", [(1, 3)], 7),
      ("users", "e", [(1, 1)], 8)].map fun (store, value, entries, time) =>
        ⟨store, [1], ⟨value, OrderedMap.ofList entries, time⟩⟩) "users" (by decide) [1]
  refine ⟨by decide, ?_⟩
  rw [hheld, hmax]
  cbv

end Storage

end ReplicaCensus
