import Mathlib
/-!
# Lists that are read item by item, up to the first fault

A list is read well if each of its items is, and is refused for the first item that is not.
-/

namespace ReplicaCensus

variable {α β ε : Type} {read : α → Except ε β} {items : List α}

theorem mapM_cons_eq (read : α → Except ε β) (item : α) (rest : List α) :
    (item :: rest).mapM read =
      match read item with
      | .error fault => .error fault
      | .ok found => (rest.mapM read).map (found :: ·) := by
  rw [List.mapM_cons]
  cases read item with
  | error fault => rfl
  | ok found => cases rest.mapM read <;> rfl

/-- Only what is read of the items matters. -/
theorem mapM_congr {read' : α → Except ε β} (h : ∀ item ∈ items, read item = read' item) :
    items.mapM read = items.mapM read' := by
  induction items with
  | nil => rfl
  | cons item rest ih =>
    obtain ⟨hitem, hrest⟩ := List.forall_mem_cons.1 h
    rw [mapM_cons_eq, mapM_cons_eq, hitem, ih hrest]

theorem mapM_eq_ok {found : List β} :
    items.mapM read = .ok found ↔ List.Forall₂ (fun item y => read item = .ok y) items found := by
  induction items generalizing found with
  | nil =>
    rw [List.mapM_nil, List.forall₂_nil_left_iff]
    exact ⟨fun h => (Except.ok.inj h).symm, fun h => h ▸ rfl⟩
  | cons item rest ih =>
    rw [mapM_cons_eq, List.forall₂_cons_left_iff]
    constructor
    · intro h
      split at h
      · cases h
      · next y hy =>
        cases hrest : rest.mapM read with
        | error fault => rw [hrest] at h; cases h
        | ok more =>
          rw [hrest] at h
          cases h
          exact ⟨y, more, hy, ih.1 hrest, rfl⟩
    · rintro ⟨y, more, hy, hmore, rfl⟩
      rw [hy, ih.2 hmore]
      rfl

/-- Items that were written are read back. -/
theorem mapM_map_eq_ok {write : β → α} {found : List β} (h : ∀ y ∈ found, read (write y) = .ok y) :
    (found.map write).mapM read = .ok found := by
  rw [mapM_eq_ok, List.forall₂_map_left_iff, List.forall₂_same]
  exact h

/-- A reader that gives good items back as they are gives back a list of good items. -/
theorem mapM_eq_ok_self {Good : α → Prop} {check : α → Except ε α} {found : List α}
    (h : ∀ item y, check item = .ok y ↔ Good item ∧ y = item) :
    items.mapM check = .ok found ↔ (∀ item ∈ items, Good item) ∧ found = items := by
  have hread : (fun item y => check item = .ok y) = fun item y => Good item ∧ item = y := by
    funext item y
    rw [h, eq_comm (a := y)]
  rw [mapM_eq_ok, hread, List.forall₂_and_left, List.forall₂_eq_eq_eq, eq_comm (a := items)]

theorem forall_of_mapM_eq_ok {found : List β} {P : β → Prop} (h : items.mapM read = .ok found)
    (hread : ∀ item ∈ items, ∀ y, read item = .ok y → P y) : ∀ y ∈ found, P y := by
  have hall := mapM_eq_ok.1 h
  clear h
  induction hall with
  | nil => exact fun _ hy => absurd hy List.not_mem_nil
  | cons hitem _ ih =>
    obtain ⟨hfirst, hrest⟩ := List.forall_mem_cons.1 hread
    exact List.forall_mem_cons.2 ⟨hfirst _ hitem, ih hrest⟩

theorem exists_mapM_eq_ok :
    (∃ found, items.mapM read = .ok found) ↔ ∀ item ∈ items, ∃ y, read item = .ok y := by
  induction items with
  | nil => exact ⟨fun _ => by simp, fun _ => ⟨[], rfl⟩⟩
  | cons item rest ih =>
    rw [mapM_cons_eq, List.forall_mem_cons, ← ih]
    constructor
    · rintro ⟨found, h⟩
      split at h
      · cases h
      · next y hy =>
        refine ⟨⟨y, hy⟩, ?_⟩
        cases hrest : rest.mapM read with
        | error fault => rw [hrest] at h; cases h
        | ok more => exact ⟨more, rfl⟩
    · rintro ⟨⟨y, hy⟩, more, hmore⟩
      rw [hy, hmore]
      exact ⟨_, rfl⟩

/-- What comes before the first fault is read well; what comes behind it does not matter. -/
theorem mapM_eq_error {fault : ε} :
    items.mapM read = .error fault ↔
      ∃ front item behind, items = front ++ item :: behind ∧
        (∀ good ∈ front, ∃ y, read good = .ok y) ∧ read item = .error fault := by
  induction items with
  | nil =>
    constructor
    · intro h
      cases h
    · rintro ⟨front, item, behind, h, -⟩
      exact absurd h (by simp)
  | cons first rest ih =>
    rw [mapM_cons_eq]
    constructor
    · intro h
      split at h
      · next fault' hfault =>
        cases h
        exact ⟨[], first, rest, rfl, by simp, hfault⟩
      · next y hy =>
        cases hrest : rest.mapM read with
        | ok more => rw [hrest] at h; cases h
        | error fault' =>
          rw [hrest] at h
          cases h
          obtain ⟨front, item, behind, rfl, hfront, hitem⟩ := ih.1 hrest
          exact ⟨first :: front, item, behind, rfl,
            List.forall_mem_cons.2 ⟨⟨y, hy⟩, hfront⟩, hitem⟩
    · rintro ⟨front, item, behind, hsplit, hfront, hitem⟩
      cases front with
      | nil =>
        cases hsplit
        rw [hitem]
      | cons good front =>
        cases hsplit
        obtain ⟨⟨y, hy⟩, hmore⟩ := List.forall_mem_cons.1 hfront
        rw [hy, ih.2 ⟨front, item, behind, rfl, hmore, hitem⟩]
        rfl

/-- Behind good items there is a bad one. -/
def ComesFirst (Good Bad : α → Prop) (items : List α) : Prop :=
  ∃ front item behind, items = front ++ item :: behind ∧ (∀ good ∈ front, Good good) ∧ Bad item

theorem mapM_eq_error_iff_comesFirst {Good Bad : α → Prop} {fault : ε}
    (hgood : ∀ item, (∃ y, read item = .ok y) ↔ Good item)
    (hbad : ∀ item ∈ items, read item = .error fault ↔ Bad item) :
    items.mapM read = .error fault ↔ ComesFirst Good Bad items := by
  simp only [mapM_eq_error, ComesFirst, hgood]
  constructor
  · rintro ⟨front, item, behind, rfl, hfront, hitem⟩
    exact ⟨front, item, behind, rfl, hfront, (hbad item (by simp)).1 hitem⟩
  · rintro ⟨front, item, behind, rfl, hfront, hitem⟩
    exact ⟨front, item, behind, rfl, hfront, (hbad item (by simp)).2 hitem⟩

/-- What comes first is the same however the list is split there. -/
theorem first_fault_unique {P : α → Prop} {front front' behind behind' : List α} {item item' : α}
    (h : front ++ item :: behind = front' ++ item' :: behind') (hfront : ∀ x ∈ front, P x)
    (hitem : ¬P item) (hfront' : ∀ x ∈ front', P x) (hitem' : ¬P item') :
    front = front' ∧ item = item' ∧ behind = behind' := by
  induction front generalizing front' with
  | nil =>
    cases front' with
    | nil => exact ⟨rfl, List.cons.inj h⟩
    | cons x rest' =>
      cases h
      exact absurd (hfront' _ List.mem_cons_self) hitem
  | cons x rest ih =>
    cases front' with
    | nil =>
      cases h
      exact absurd (hfront _ List.mem_cons_self) hitem'
    | cons x' rest' =>
      obtain ⟨rfl, hrest⟩ := List.cons.inj h
      obtain ⟨rfl, hsame⟩ := ih hrest (List.forall_mem_cons.1 hfront).2
        (List.forall_mem_cons.1 hfront').2
      exact ⟨rfl, hsame⟩

end ReplicaCensus
