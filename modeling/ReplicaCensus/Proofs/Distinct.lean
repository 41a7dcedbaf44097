import Mathlib
/-!
# Keeping the first of elements with one key

`distinctOn f l` keeps of all elements of `l` with one value under `f` the first. It goes along with
filters that look at that value alone, and it may be applied to a part of a list beforehand.
-/

namespace ReplicaCensus

variable {α β : Type} [DecidableEq β]

/-- The elements of `l` without those whose value under `f` an earlier one has. -/
def distinctOn (f : α → β) (l : List α) : List α := l.eraseDupsBy fun a b => f a = f b

variable (f : α → β)

@[simp] theorem distinctOn_nil : distinctOn f [] = [] := rfl

theorem distinctOn_cons (a : α) (l : List α) :
    distinctOn f (a :: l) = a :: distinctOn f (l.filter fun b => f b ≠ f a) := by
  unfold distinctOn
  rw [List.eraseDupsBy_cons]
  congr 2
  apply List.filter_congr
  intro b _
  by_cases h : f b = f a <;> simp [h]

theorem eraseDups_eq_distinctOn [BEq β] [LawfulBEq β] (l : List β) :
    l.eraseDups = distinctOn id l := by
  rw [List.eraseDups, distinctOn]
  congr 1
  funext a b
  exact beq_eq_decide a b

/-- Leaving elements out before or after comes to the same, if their keys decide who goes. -/
theorem distinctOn_filter {p : α → Bool} (hp : ∀ a b, f a = f b → p a = p b) (l : List α) :
    distinctOn f (l.filter p) = (distinctOn f l).filter p := by
  -- by induction on the length, since the rest of a list is filtered before it is gone through
  induction hn : l.length using Nat.strong_induction_on generalizing l with
  | _ n ih =>
    cases l with
    | nil => rfl
    | cons a rest =>
      have hlt : (rest.filter fun b => f b ≠ f a).length < n := by
        have := List.length_filter_le (fun b => f b ≠ f a) rest
        simp only [List.length_cons] at hn
        omega
      have hrest := ih _ hlt (rest.filter fun b => f b ≠ f a) rfl
      rw [distinctOn_cons, List.filter_cons, List.filter_cons, ← hrest]
      -- an element that is left out leaves out all with its key
      by_cases ha : p a = true
      · rw [if_pos ha, if_pos ha, distinctOn_cons, List.filter_filter, List.filter_filter]
        congr 3
        funext b
        exact Bool.and_comm _ _
      · rw [if_neg ha, if_neg ha, List.filter_filter]
        congr 1
        apply List.filter_congr
        intro b _
        by_cases hb : f b = f a
        · rw [hp b a hb, Bool.eq_false_iff.2 ha, Bool.false_and]
        · simp [hb]

theorem distinctOn_filter_ne (k : β) (l : List α) :
    distinctOn f (l.filter fun b => f b ≠ k) = (distinctOn f l).filter fun b => f b ≠ k :=
  distinctOn_filter f (fun a b h => by rw [h]) l

theorem distinctOn_sublist (l : List α) : (distinctOn f l).Sublist l := by
  induction hn : l.length using Nat.strong_induction_on generalizing l with
  | _ n ih =>
    cases l with
    | nil => exact List.Sublist.refl _
    | cons a rest =>
      rw [distinctOn_cons, distinctOn_filter_ne]
      have hrest := ih rest.length (by simp only [List.length_cons] at hn; omega) rest rfl
      exact List.Sublist.cons_cons a (List.filter_sublist.trans hrest)

/-- Two elements that are kept have two keys. -/
theorem nodup_map_distinctOn (l : List α) : ((distinctOn f l).map f).Nodup := by
  induction l with
  | nil => exact List.nodup_nil
  | cons a rest ih =>
    rw [distinctOn_cons, distinctOn_filter_ne, List.map_cons,
      List.nodup_cons]
    constructor
    · intro h
      obtain ⟨b, hb, hba⟩ := List.mem_map.1 h
      simp only [List.mem_filter, decide_eq_true_eq] at hb
      exact hb.2 hba
    · exact ih.sublist (List.filter_sublist.map f)

/-- Some element with the key of each is kept. -/
theorem exists_mem_distinctOn {a : α} {l : List α} (h : a ∈ l) :
    ∃ b ∈ distinctOn f l, f b = f a := by
  induction l with
  | nil => cases h
  | cons c rest ih =>
    rw [distinctOn_cons, distinctOn_filter_ne]
    by_cases hc : f a = f c
    · exact ⟨c, List.mem_cons_self, hc.symm⟩
    · rcases List.mem_cons.1 h with rfl | h
      · exact absurd rfl hc
      · obtain ⟨b, hb, hba⟩ := ih h
        refine ⟨b, List.mem_cons_of_mem _ (List.mem_filter.2 ⟨hb, ?_⟩), hba⟩
        simpa [hba] using hc

theorem mem_map_distinctOn {k : β} {l : List α} : k ∈ (distinctOn f l).map f ↔ k ∈ l.map f := by
  constructor
  · intro h
    exact ((distinctOn_sublist f l).map f).subset h
  · intro h
    obtain ⟨a, ha, rfl⟩ := List.mem_map.1 h
    obtain ⟨b, hb, hba⟩ := exists_mem_distinctOn f ha
    exact List.mem_map.2 ⟨b, hb, hba⟩

/-- The keys of what is kept are the keys there are, each once. -/
theorem map_distinctOn [BEq β] [LawfulBEq β] (l : List α) :
    (distinctOn f l).map f = (l.map f).eraseDups := by
  induction l with
  | nil => rfl
  | cons a rest ih =>
    have hfilter : ((distinctOn f rest).filter fun b => f b ≠ f a).map f =
        ((distinctOn f rest).map f).filter fun k => k ≠ f a := by
      rw [List.filter_map]
      rfl
    rw [distinctOn_cons, distinctOn_filter_ne, List.map_cons, hfilter, ih, List.map_cons,
      eraseDups_eq_distinctOn, eraseDups_eq_distinctOn, distinctOn_cons, distinctOn_filter_ne]
    rfl

theorem distinctOn_append (l l' : List α) :
    distinctOn f (l ++ l') =
      distinctOn f l ++ distinctOn f (l'.filter fun b => f b ∉ l.map f) := by
  induction l generalizing l' with
  | nil => simp
  | cons a rest ih =>
    rw [List.cons_append, distinctOn_cons, distinctOn_filter_ne, ih,
      distinctOn_cons, distinctOn_filter_ne, List.filter_append,
      List.cons_append, ← distinctOn_filter_ne f (f a) (l'.filter _),
      List.filter_filter]
    congr 3
    apply List.filter_congr
    intro b _
    simp

/-- An element whose key has come up already adds nothing. -/
theorem distinctOn_append_singleton (l : List α) (a : α) :
    distinctOn f (l ++ [a]) =
      if f a ∈ l.map f then distinctOn f l else distinctOn f l ++ [a] := by
  rw [distinctOn_append, List.filter_singleton]
  by_cases h : f a ∈ l.map f
  · rw [if_pos h, decide_eq_false (not_not.2 h), cond_false, distinctOn_nil, List.append_nil]
  · rw [if_neg h, decide_eq_true h, cond_true, distinctOn_cons, List.filter_nil, distinctOn_nil]

theorem distinctOn_eq_self {l : List α} (h : (l.map f).Nodup) : distinctOn f l = l := by
  induction l with
  | nil => rfl
  | cons a rest ih =>
    rw [List.map_cons, List.nodup_cons] at h
    rw [distinctOn_cons, distinctOn_filter_ne, ih h.2]
    congr 1
    apply List.filter_eq_self.2
    intro b hb
    rw [decide_eq_true_eq]
    exact fun e => h.1 (e ▸ List.mem_map_of_mem hb)

theorem distinctOn_distinctOn (l : List α) : distinctOn f (distinctOn f l) = distinctOn f l :=
  distinctOn_eq_self f (nodup_map_distinctOn f l)

/-- What comes later needs to know of a list only what is kept of it. -/
theorem distinctOn_distinctOn_append (l l' : List α) :
    distinctOn f (distinctOn f l ++ l') = distinctOn f (l ++ l') := by
  rw [distinctOn_append, distinctOn_append, distinctOn_distinctOn]
  simp only [mem_map_distinctOn]

end ReplicaCensus
