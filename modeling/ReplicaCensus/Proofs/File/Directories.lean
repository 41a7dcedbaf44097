import Mathlib
import ReplicaCensus.Proofs.File.Place
/-!
# Making directories

Whether it ends well or not, making a directory and those above it leaves what was there as it is.
What is new are directories, and the leading parts of the path text lead to them.
-/

namespace ReplicaCensus.FileTree

variable {t u v : FileTree}

/-! ## 1. A new directory -/

theorem keepsDirs_insert (t : FileTree) (place : List String) :
    KeepsDirs t (t.insert place .dir) := by
  intro path hpath
  rw [OrderedMap.get?_insert]
  split
  · rfl
  · exact hpath

theorem entry?_append_singleton (t : FileTree) (path : List String) (name : String) :
    t.entry? (path ++ [name]) = t.get? (path ++ [name]) := by
  unfold entry?
  rw [if_neg (by simp)]

/-- With a directory at a free place, the name leads to it. -/
theorem advance_insert {path place : List String} {name : String}
    (h : t.advance path name = .ok (.free place)) :
    t.get? place = none ∧ advance (t.insert place .dir) path name = .ok (.there place .dir) := by
  unfold advance at h
  split at h
  · cases h
  · next hstay =>
    split at h
    · cases h
    · next hup =>
      split at h
      · cases h
      · next hshort =>
        split at h
        · cases h
        · next hentry =>
          cases h
          rw [entry?_append_singleton] at hentry
          refine ⟨hentry, ?_⟩
          rw [advance, if_neg hstay, if_neg hup, if_neg hshort, entry?_append_singleton,
            OrderedMap.get?_insert, if_pos rfl]

/-- Names that are all empty lead nowhere else. -/
theorem walk_empty (t : FileTree) (path : List String) {names : List String}
    (h : names.all (· = "") = true) : t.walk path .dir names = .ok (.there path .dir) := by
  induction names with
  | nil => rfl
  | cons name rest ih =>
    rw [List.all_cons, Bool.and_eq_true, decide_eq_true_eq] at h
    rw [walk, if_pos (.inl h.1)]
    exact ih h.2

theorem walk_insert {path place : List String} {names : List String}
    (h : t.walk path .dir names = .ok (.free place)) :
    t.get? place = none ∧ walk (t.insert place .dir) path .dir names = .ok (.there place .dir) := by
  -- by induction on the names: before the free one they lead through directories that stay
  induction names generalizing path with
  | nil => cases h
  | cons name rest ih =>
    rw [walk_cons] at h ⊢
    cases ha : t.advance path name with
    | error e => rw [ha] at h; cases h
    | ok found =>
      rw [ha] at h
      cases found with
      | there path' entry =>
        cases entry with
        | dir =>
          rw [advance_of_keepsDirs (keepsDirs_insert t place) ha]
          exact ih h
        | file content => cases rest <;> cases h
      | free path' =>
        unfold walkOn at h
        dsimp only at h
        split at h
        · next hrest =>
          cases h
          obtain ⟨hnone, hadvance⟩ := advance_insert ha
          rw [hadvance]
          exact ⟨hnone, walk_empty _ _ hrest⟩
        · cases h

theorem locate_of_keepsDirs (h : KeepsDirs t u) {path : String} {place : List String}
    (ht : t.locate path = .ok (.there place .dir)) : u.locate path = .ok (.there place .dir) := by
  have hwalked := isWalked_of_locate ht
  rw [locate_eq _ hwalked] at ht ⊢
  exact walk_of_keepsDirs h ht

/-! ## 2. All directories on the way -/

/-- `u` is `t` with directories in free places, to which leading parts of the path lead. -/
structure MadeAlong (path : String) (t u : FileTree) : Prop where
  kept : ∀ place entry, t.get? place = some entry → u.get? place = some entry
  made : ∀ place, t.get? place = none → u.get? place ≠ none →
    u.get? place = some .dir ∧
      ∃ leading : String, leading.toList <+: path.toList ∧
        u.locate leading = .ok (.there place .dir)

namespace MadeAlong

variable {path head : String}

theorem refl (path : String) (t : FileTree) : MadeAlong path t t :=
  ⟨fun _ _ h => h, fun _ hnone hsome => absurd hnone hsome⟩

theorem keepsDirs (h : MadeAlong path t u) : KeepsDirs t u := fun place => h.kept place .dir

/-- First the directories above, then those of the path itself. -/
theorem trans (h : MadeAlong head t u) (h' : MadeAlong path u v)
    (hhead : head.toList <+: path.toList) : MadeAlong path t v where
  kept := fun place entry ht => h'.kept place entry (h.kept place entry ht)
  made := fun place hnone hsome => by
    cases hu : u.get? place with
    | none => exact h'.made place hu hsome
    | some entry =>
      obtain ⟨hdir, leading, hleading, hlocate⟩ := h.made place hnone (by rw [hu]; simp)
      exact ⟨h'.kept place .dir hdir, leading, hleading.trans hhead,
        locate_of_keepsDirs h'.keepsDirs hlocate⟩

end MadeAlong

theorem madeAlong_makeDir {path : String} (h : t.makeDir path = .ok u) : MadeAlong path t u := by
  unfold makeDir at h
  split at h
  · cases h
  · next place hlocate =>
    cases h
    have hwalked := isWalked_of_locate hlocate
    rw [locate_eq _ hwalked] at hlocate
    obtain ⟨hfree, hthere⟩ := walk_insert hlocate
    refine ⟨fun other entry hentry => ?_, fun other hnone hsome => ?_⟩
    · have hne : place ≠ other := by
        rintro rfl
        rw [hfree] at hentry
        cases hentry
      rw [OrderedMap.get?_insert, if_neg hne, hentry]
    · by_cases hp : place = other
      · subst hp
        refine ⟨by rw [OrderedMap.get?_insert, if_pos rfl], path, List.prefix_refl _, ?_⟩
        rw [locate_eq _ hwalked, hthere]
      · rw [OrderedMap.get?_insert, if_neg hp] at hsome
        exact absurd hnone hsome
  · cases h

theorem splitPath_head (path : String) : (splitPath path).1.toList <+: path.toList := by
  unfold splitPath
  dsimp only
  rw [String.toList_ofList]
  have hbefore := List.dropWhile_suffix (l := path.toList.reverse) (· ≠ '/')
  split
  · exact List.reverse_suffix.1 (by rwa [List.reverse_reverse])
  · exact List.reverse_suffix.1 (by
      rw [List.reverse_reverse]
      exact (List.dropWhile_suffix _).trans hbefore)

theorem madeAlong_makeDirsWithin (depth : Nat) (t : FileTree) (path : String) :
    MadeAlong path t (makeDirsWithin depth t path).1 := by
  induction depth generalizing t path with
  | zero => exact .refl _ _
  | succ depth ih =>
    unfold makeDirsWithin
    -- what is above the path is a leading part of it, whether or not a slash ends the path
    have hhead : (if (splitPath path).2.isEmpty then splitPath (splitPath path).1
        else ((splitPath path).1, (splitPath path).2)).1.toList <+: path.toList := by
      split
      · exact (splitPath_head _).trans (splitPath_head _)
      · exact splitPath_head _
    dsimp only
    generalize (if (splitPath path).2.isEmpty then splitPath (splitPath path).1
      else ((splitPath path).1, (splitPath path).2)) = split at hhead ⊢
    obtain ⟨head, tail⟩ := split
    dsimp only
    have habove : MadeAlong head t (if !head.isEmpty && !tail.isEmpty && !t.has head then
        makeDirsWithin depth t head else (t, none)).1 := by
      split
      · exact ih t head
      · exact .refl _ _
    generalize (if !head.isEmpty && !tail.isEmpty && !t.has head then
      makeDirsWithin depth t head else (t, none)) = above at habove
    obtain ⟨u, fault⟩ := above
    have hstays := habove.trans (.refl path u) hhead
    cases fault with
    | some e => exact hstays
    | none =>
      dsimp only
      split
      · exact hstays
      · cases hmake : u.makeDir path with
        | error e => exact hstays
        | ok v => exact habove.trans (madeAlong_makeDir hmake) hhead

theorem madeAlong_makeDirs (t : FileTree) (path : String) :
    MadeAlong path t (t.makeDirs path).1 :=
  madeAlong_makeDirsWithin _ t path

end ReplicaCensus.FileTree
