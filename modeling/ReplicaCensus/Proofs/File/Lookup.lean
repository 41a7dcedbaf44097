import Mathlib
import ReplicaCensus.Proofs.File.Place
/-!
# What stands at a path text

A path text whose last name stands for itself leads to one path of the tree, and as long as the
directories stay the same it leads there. What such a text has, reads or could be written to is then
a matter of the entry at that path.
-/

namespace ReplicaCensus.FileTree

/-- The path that a text leads to, whether or not something stands there. -/
def target? (t : FileTree) (path : String) : Option (List String) :=
  match t.locate path with
  | .ok (.there place _) => some place
  | .ok (.free place) => some place
  | .error _ => none

/-- What stands at the end of a text. -/
def lookup (t : FileTree) (path : String) : Option FileEntry :=
  match t.locate path with
  | .ok (.there _ entry) => some entry
  | _ => none

/-! ## 1. Operations through the entry -/

theorem has_eq_isSome (t : FileTree) (path : String) : t.has path = (t.lookup path).isSome := by
  unfold has lookup
  rcases t.locate path with e | (_ | _) <;> rfl

theorem hasDir_iff {t : FileTree} {path : String} :
    t.hasDir path = true ↔ t.lookup path = some .dir := by
  unfold hasDir lookup
  rcases t.locate path with e | (⟨place, entry⟩ | place)
  · simp
  · cases entry <;> simp
  · simp

theorem read_eq_ok_iff {t : FileTree} {path : String} {content : Bytes} :
    t.read path = .ok content ↔ t.lookup path = some (.file content) := by
  unfold read lookup
  rcases t.locate path with e | (⟨place, entry⟩ | place)
  · simp
  · cases entry <;> simp
  · simp

theorem read_of_lookup_dir {t : FileTree} {path : String} (h : t.lookup path = some .dir) :
    t.read path = .error ⟨.isDirectory, path⟩ := by
  rw [← hasDir_iff] at h
  unfold hasDir at h
  unfold read
  split at h
  · next hlocate => rw [hlocate]
  · cases h

namespace Leads

variable {t : FileTree} {path : String} {dir : List String} {name : String}

theorem target?_eq (h : t.Leads path dir name) : t.target? path = some (dir ++ [name]) := by
  rw [target?, h.locate, spot]
  cases t.get? (dir ++ [name]) <;> rfl

theorem lookup_eq (h : t.Leads path dir name) : t.lookup path = t.get? (dir ++ [name]) := by
  rw [lookup, h.locate, spot]
  cases t.get? (dir ++ [name]) <;> rfl

end Leads

/-! ## 2. Texts that end in a name -/

/-- A text whose last name stands for itself. -/
structure EndsIn (path name : String) : Prop where
  names : ∃ before, names path = before ++ [name]
  plain : IsPlain name

namespace EndsIn

variable {t u : FileTree} {path name : String}

/-- Such a text leads to a name in a directory if it leads anywhere. -/
theorem leads (h : EndsIn path name) {place : List String} (ht : t.target? path = some place) :
    ∃ dir, t.Leads path dir name ∧ place = dir ++ [name] := by
  obtain ⟨before, hnames⟩ := h.names
  obtain ⟨found, hfound⟩ : ∃ found, t.locate path = .ok found := by
    unfold target? at ht
    cases hl : t.locate path with
    | ok found => exact ⟨found, rfl⟩
    | error e => rw [hl] at ht; cases ht
  obtain ⟨dir, hdir⟩ := leads_of_locate hfound hnames h.plain
  rw [hdir.target?_eq] at ht
  exact ⟨dir, hdir, (Option.some.inj ht).symm⟩

theorem target?_congr (h : EndsIn path name) (hs : SameDirs t u) :
    u.target? path = t.target? path := by
  have hto : ∀ {a b : FileTree}, SameDirs a b → ∀ place, a.target? path = some place →
      b.target? path = some place := by
    intro a b hab place ha
    obtain ⟨dir, hdir, rfl⟩ := h.leads ha
    exact (hdir.congr hab).target?_eq
  apply Option.ext
  intro place
  exact ⟨hto (fun path => (hs path).symm) place, hto hs place⟩

/-- A text finds what it found before if the entry at its end is the same. -/
theorem lookup_congr (h : EndsIn path name) (hs : SameDirs t u)
    (he : ∀ place, t.target? path = some place → u.get? place = t.get? place) :
    u.lookup path = t.lookup path := by
  cases ht : t.target? path with
  | some place =>
    obtain ⟨dir, hdir, rfl⟩ := h.leads ht
    rw [hdir.lookup_eq, (hdir.congr hs).lookup_eq, he _ ht]
  | none =>
    -- a text that leads nowhere finds nothing in either tree
    have hnone : ∀ a : FileTree, a.target? path = none → a.lookup path = none := by
      intro a ha
      unfold target? at ha
      unfold lookup
      split at ha
      · cases ha
      · cases ha
      · next hl => rw [hl]
    rw [hnone t ht, hnone u (by rw [h.target?_congr hs, ht])]

theorem hasDir_congr (h : EndsIn path name) (hs : SameDirs t u) :
    u.hasDir path = t.hasDir path := by
  have hto : ∀ {a b : FileTree}, SameDirs a b → a.hasDir path = true → b.hasDir path = true := by
    intro a b hab ha
    unfold hasDir at ha
    split at ha
    · next place hl =>
      -- the place that was found is the one the text leads to
      have htarget : a.target? path = some place := by rw [target?, hl]
      obtain ⟨dir, hdir, rfl⟩ := h.leads htarget
      have hentry : a.lookup path = some .dir := by rw [lookup, hl]
      rw [hdir.lookup_eq] at hentry
      rw [hasDir_iff, (hdir.congr hab).lookup_eq]
      exact (hab _).1 hentry
    · cases ha
  exact Bool.eq_iff_iff.2 ⟨hto fun path => (hs path).symm, hto hs⟩

end EndsIn

/-! ## 3. Trees that differ in some files -/

/-- `u` is `t` but for the files at some paths. -/
structure DiffersAt (t u : FileTree) (places : Set (List String)) : Prop where
  sameDirs : SameDirs t u
  same : ∀ path, path ∉ places → u.get? path = t.get? path

namespace DiffersAt

variable {t u v : FileTree} {places : Set (List String)}

theorem refl (t : FileTree) (places : Set (List String)) : DiffersAt t t places :=
  ⟨SameDirs.refl t, fun _ _ => rfl⟩

theorem trans (h : DiffersAt t u places) (h' : DiffersAt u v places) : DiffersAt t v places :=
  ⟨h.sameDirs.trans h'.sameDirs, fun path hp => (h'.same path hp).trans (h.same path hp)⟩

theorem mono (h : DiffersAt t u places) {more : Set (List String)} (hm : places ⊆ more) :
    DiffersAt t u more :=
  ⟨h.sameDirs, fun path hp => h.same path fun hmem => hp (hm hmem)⟩

theorem insert {place : List String} (hp : place ∈ places) (hd : t.get? place ≠ some .dir)
    (content : Bytes) : DiffersAt t (t.insert place (.file content)) places := by
  refine ⟨sameDirs_insert hd content, fun path hpath => ?_⟩
  have hne : place ≠ path := fun he => hpath (he ▸ hp)
  rw [OrderedMap.get?_insert, if_neg hne]

theorem erase {place : List String} (hp : place ∈ places) (hd : t.get? place ≠ some .dir) :
    DiffersAt t (t.erase place) places := by
  refine ⟨sameDirs_erase hd, fun path hpath => ?_⟩
  have hne : place ≠ path := fun he => hpath (he ▸ hp)
  rw [OrderedMap.get?_erase, if_neg hne]

end DiffersAt

/-! ## 4. Files that were written -/

namespace EndsIn

variable {t u : FileTree} {path name : String} {content : Bytes}

/-- Writing puts the file where the text leads. -/
theorem leads_of_write (h : EndsIn path name) (hw : t.write path content = .ok u) :
    ∃ dir, t.Leads path dir name ∧ t.get? (dir ++ [name]) ≠ some .dir ∧
      u = t.insert (dir ++ [name]) (.file content) := by
  obtain ⟨place, hplace⟩ := locate_of_write hw
  obtain ⟨before, hnames⟩ := h.names
  obtain ⟨dir, hleads⟩ := leads_of_locate hplace hnames h.plain
  have hne := hleads.ne_dir_of_write hw
  rw [hleads.write hne] at hw
  exact ⟨dir, hleads, hne, (Except.ok.inj hw).symm⟩

theorem read_write (h : EndsIn path name) (hw : t.write path content = .ok u) :
    u.read path = .ok content := by
  obtain ⟨dir, hleads, hne, rfl⟩ := h.leads_of_write hw
  rw [(hleads.congr (sameDirs_insert hne content)).read_eq_ok, OrderedMap.get?_insert, if_pos rfl]

/-- A file stays as it is when one with another name is written. -/
theorem read_write_of_ne (h : EndsIn path name) {path' name' : String} {content' : Bytes}
    (h' : EndsIn path' name') (hne : name ≠ name') (hw : t.write path' content' = .ok u)
    (hread : t.read path = .ok content) : u.read path = .ok content := by
  obtain ⟨dir', -, hfile, rfl⟩ := h'.leads_of_write hw
  rw [read_eq_ok_iff] at hread ⊢
  rw [h.lookup_congr (sameDirs_insert hfile content') fun place hplace => ?_, hread]
  obtain ⟨dir, -, rfl⟩ := h.leads hplace
  have hplaces : dir' ++ [name'] ≠ dir ++ [name] :=
    fun he => hne (List.cons.inj (List.append_inj' he rfl).2).1.symm
  rw [OrderedMap.get?_insert, if_neg hplaces]

end EndsIn

end ReplicaCensus.FileTree
