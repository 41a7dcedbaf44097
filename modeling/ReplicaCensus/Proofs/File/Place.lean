import Mathlib
import ReplicaCensus.File.Tree
import ReplicaCensus.Proofs.OrderedMap
import ReplicaCensus.Proofs.Text.Lines
/-!
# Where a path text leads while files come and go

The directories of a tree decide where a path text leads, so writing and removing files leaves the
way alone: what changes is only whether something stands at its end.
-/

namespace ReplicaCensus.FileTree

/-! ## 1. Trees with the same directories -/

def SameDirs (t u : FileTree) : Prop := ∀ path, t.get? path = some .dir ↔ u.get? path = some .dir

/-- The directories of `t` are there in `u`, too. -/
def KeepsDirs (t u : FileTree) : Prop := ∀ path, t.get? path = some .dir → u.get? path = some .dir

theorem SameDirs.keeps {t u : FileTree} (h : SameDirs t u) : KeepsDirs t u := fun path => (h path).1

theorem SameDirs.refl (t : FileTree) : SameDirs t t := fun _ => Iff.rfl

theorem SameDirs.trans {t u v : FileTree} (h : SameDirs t u) (h' : SameDirs u v) : SameDirs t v :=
  fun path => (h path).trans (h' path)

theorem sameDirs_insert {t : FileTree} {place : List String} (h : t.get? place ≠ some .dir)
    (content : Bytes) : SameDirs t (t.insert place (.file content)) := by
  intro path
  rw [OrderedMap.get?_insert]
  by_cases hp : place = path
  · rw [if_pos hp]
    subst hp
    exact ⟨fun hd => absurd hd h, fun hd => by cases hd⟩
  · rw [if_neg hp]

theorem sameDirs_erase {t : FileTree} {place : List String} (h : t.get? place ≠ some .dir) :
    SameDirs t (t.erase place) := by
  intro path
  rw [OrderedMap.get?_erase]
  by_cases hp : place = path
  · rw [if_pos hp]
    subst hp
    exact ⟨fun hd => absurd hd h, fun hd => by cases hd⟩
  · rw [if_neg hp]

theorem entry?_of_keepsDirs {t u : FileTree} (h : KeepsDirs t u) {path : List String}
    (ht : t.entry? path = some .dir) : u.entry? path = some .dir := by
  unfold entry? at ht ⊢
  split
  · rfl
  · next hp =>
    rw [if_neg hp] at ht
    exact h path ht

/-! ## 2. Walking -/

/-- Where one name leads from a directory. -/
def advance (t : FileTree) (path : List String) (name : String) : Except PathError Place :=
  if name = "" ∨ name = "." then .ok (.there path .dir)
  else if name = ".." then .ok (.there path.dropLast .dir)
  else if maxName < name.utf8ByteSize then .error .nameTooLong
  else
    match t.entry? (path ++ [name]) with
    | some entry => .ok (.there (path ++ [name]) entry)
    | none => .ok (.free (path ++ [name]))

/-- Where the rest of the names leads from what one name led to. -/
def walkOn (t : FileTree) (rest : List String) : Except PathError Place → Except PathError Place
  | .error e => .error e
  | .ok (.there path entry) => t.walk path entry rest
  | .ok (.free path) => if rest.all (· = "") then .ok (.free path) else .error .absent

theorem walk_cons (t : FileTree) (path : List String) (name : String) (rest : List String) :
    t.walk path .dir (name :: rest) = t.walkOn rest (t.advance path name) := by
  unfold walk advance
  split
  · rfl
  split
  · rfl
  split
  · rfl
  · dsimp only
    cases t.entry? (path ++ [name]) <;> rfl

theorem advance_of_keepsDirs {t u : FileTree} (h : KeepsDirs t u) {path dir : List String}
    {name : String} (ht : t.advance path name = .ok (.there dir .dir)) :
    u.advance path name = .ok (.there dir .dir) := by
  unfold advance at ht ⊢
  -- the name stays, goes up, is too long, or leads to an entry: only that one asks the tree
  split at ht
  · next hs => rw [if_pos hs]; exact ht
  · next hs =>
    rw [if_neg hs]
    split at ht
    · next hb => rw [if_pos hb]; exact ht
    · next hb =>
      rw [if_neg hb]
      split at ht
      · cases ht
      · next hl =>
        rw [if_neg hl]
        split at ht
        · next entry he =>
          cases ht
          rw [entry?_of_keepsDirs h he]
        · cases ht

theorem walk_of_keepsDirs {t u : FileTree} (h : KeepsDirs t u) {path dir : List String}
    {names : List String} (ht : t.walk path .dir names = .ok (.there dir .dir)) :
    u.walk path .dir names = .ok (.there dir .dir) := by
  -- by induction on the names: a way that ends in a directory has only directories on it
  induction names generalizing path with
  | nil => exact ht
  | cons name rest ih =>
    rw [walk_cons] at ht ⊢
    cases ha : t.advance path name with
    | error e => rw [ha] at ht; cases ht
    | ok place =>
      rw [ha] at ht
      cases place with
      | free path => unfold walkOn at ht; dsimp only at ht; split at ht <;> cases ht
      | there path entry =>
        cases entry with
        | dir =>
          rw [advance_of_keepsDirs h ha]
          exact ih ht
        | file content =>
          -- a file is no directory, and nothing lies behind it
          cases rest <;> cases ht

theorem walk_append {t : FileTree} {path dir : List String} {entry last : FileEntry}
    {names : List String} (h : t.walk path entry names = .ok (.there dir last))
    (rest : List String) : t.walk path entry (names ++ rest) = t.walk dir last rest := by
  -- by induction on the first names, which lead to something by themselves
  induction names generalizing path entry with
  | nil =>
    rw [walk] at h
    cases h
    rfl
  | cons name names ih =>
    cases entry with
    | file content => cases h
    | dir =>
      rw [List.cons_append, walk_cons]
      rw [walk_cons] at h
      cases ha : t.advance path name with
      | error e => rw [ha] at h; cases h
      | ok place =>
        rw [ha] at h
        cases place with
        | free path => unfold walkOn at h; dsimp only at h; split at h <;> cases h
        | there path entry => exact ih h

/-- What comes before the last name, if that is not empty, leads to a directory. -/
theorem walk_parent {t : FileTree} {path : List String} {entry : FileEntry} {names : List String}
    {name : String} (hname : name ≠ "") {place : Place}
    (h : t.walk path entry (names ++ [name]) = .ok place) :
    ∃ dir, t.walk path entry names = .ok (.there dir .dir) ∧
      t.walk dir .dir [name] = .ok place := by
  induction names generalizing path entry with
  | nil =>
    cases entry with
    | file content => cases h
    | dir => exact ⟨path, rfl, h⟩
  | cons first names ih =>
    cases entry with
    | file content => cases h
    | dir =>
      rw [List.cons_append, walk_cons] at h
      rw [walk_cons]
      cases ha : t.advance path first with
      | error e => rw [ha] at h; cases h
      | ok found =>
        rw [ha] at h
        cases found with
        | there path entry => exact ih h
        | free path =>
          unfold walkOn at h
          dsimp only at h
          split at h
          -- only empty names may follow a place where nothing stands
          · next hall =>
            have hlast := List.all_eq_true.1 hall name (List.mem_append_right _ List.mem_cons_self)
            exact absurd (of_decide_eq_true hlast) hname
          · cases h

/-! ## 3. Path texts that lead to a name in a directory -/

/-- A name that is not empty and stands for itself. -/
def IsPlain (name : String) : Prop := name ≠ "" ∧ name ≠ "." ∧ name ≠ ".."

/-- What stands at a place. -/
def spot (t : FileTree) (place : List String) : Place :=
  match t.get? place with
  | some entry => .there place entry
  | none => .free place

theorem walk_plain (t : FileTree) (dir : List String) {name : String} (hp : IsPlain name)
    (hshort : ¬maxName < name.utf8ByteSize) :
    t.walk dir .dir [name] = .ok (t.spot (dir ++ [name])) := by
  have hstay : ¬(name = "" ∨ name = ".") := fun h => h.elim hp.1 hp.2.1
  -- the path of a name is never that of the root
  have hentry : t.entry? (dir ++ [name]) = t.get? (dir ++ [name]) := by
    unfold entry?
    rw [if_neg (by simp)]
  rw [walk_cons, advance, if_neg hstay, if_neg hp.2.2, if_neg hshort, hentry, spot]
  cases t.get? (dir ++ [name]) <;> rfl

theorem short_of_walk {t : FileTree} {dir : List String} {name : String} (hp : IsPlain name)
    {place : Place} (h : t.walk dir .dir [name] = .ok place) : ¬maxName < name.utf8ByteSize := by
  intro hlong
  have hstay : ¬(name = "" ∨ name = ".") := fun h => h.elim hp.1 hp.2.1
  rw [walk_cons, advance, if_neg hstay, if_neg hp.2.2, if_pos hlong] at h
  cases h

/-- A text that is walked at all. -/
structure IsWalked (path : String) : Prop where
  noZero : ¬(path.toList.any fun c => c.toNat = 0)
  nonempty : ¬path.isEmpty
  short : ¬maxPath < path.utf8ByteSize

theorem locate_eq (t : FileTree) {path : String} (h : IsWalked path) :
    t.locate path = t.walk [] .dir (names path) := by
  rw [locate, if_neg h.noZero, if_neg h.nonempty, if_neg h.short]

theorem isWalked_of_locate {t : FileTree} {path : String} {place : Place}
    (h : t.locate path = .ok place) : IsWalked path := by
  unfold locate at h
  split at h
  · cases h
  split at h
  · cases h
  split at h
  · cases h
  · exact ⟨‹_›, ‹_›, ‹_›⟩

/-- A path text that leads to a name in a directory, whether or not something stands there. -/
structure Leads (t : FileTree) (path : String) (dir : List String) (name : String) : Prop where
  walked : IsWalked path
  way : ∃ before, names path = before ++ [name] ∧ t.walk [] .dir before = .ok (.there dir .dir)
  plain : IsPlain name
  short : ¬maxName < name.utf8ByteSize

namespace Leads

variable {t u : FileTree} {path : String} {dir : List String} {name : String}

theorem congr (h : t.Leads path dir name) (hs : SameDirs t u) : u.Leads path dir name := by
  obtain ⟨before, hnames, hwalk⟩ := h.way
  exact ⟨h.walked, ⟨before, hnames, walk_of_keepsDirs hs.keeps hwalk⟩, h.plain, h.short⟩

theorem locate (h : t.Leads path dir name) : t.locate path = .ok (t.spot (dir ++ [name])) := by
  obtain ⟨before, hnames, hwalk⟩ := h.way
  rw [locate_eq t h.walked, hnames, walk_append hwalk, walk_plain t dir h.plain h.short]

theorem has (h : t.Leads path dir name) : t.has path = (t.get? (dir ++ [name])).isSome := by
  rw [FileTree.has, h.locate, spot]
  cases t.get? (dir ++ [name]) <;> rfl

theorem read_eq_ok (h : t.Leads path dir name) {content : Bytes} :
    t.read path = .ok content ↔ t.get? (dir ++ [name]) = some (.file content) := by
  rw [FileTree.read, h.locate, spot]
  cases t.get? (dir ++ [name]) with
  | none => simp
  | some entry => cases entry <;> simp

theorem write (h : t.Leads path dir name) (hd : t.get? (dir ++ [name]) ≠ some .dir)
    (content : Bytes) :
    t.write path content = .ok (t.insert (dir ++ [name]) (.file content)) := by
  rw [FileTree.write, h.locate, spot]
  cases he : t.get? (dir ++ [name]) with
  | none => rfl
  | some entry =>
    cases entry with
    | dir => exact absurd he hd
    | file old => rfl

theorem remove (h : t.Leads path dir name) {content : Bytes}
    (hf : t.get? (dir ++ [name]) = some (.file content)) :
    t.remove path = .ok (t.erase (dir ++ [name])) := by
  rw [FileTree.remove, h.locate, spot, hf]

theorem ne_dir_of_write (h : t.Leads path dir name) {content : Bytes}
    (hw : t.write path content = .ok u) : t.get? (dir ++ [name]) ≠ some .dir := by
  intro hd
  rw [FileTree.write, h.locate, spot, hd] at hw
  cases hw

end Leads

theorem leads_of_locate {t : FileTree} {path : String} {before : List String} {name : String}
    {place : Place} (h : t.locate path = .ok place) (hnames : names path = before ++ [name])
    (hp : IsPlain name) : ∃ dir, t.Leads path dir name := by
  have hwalked := isWalked_of_locate h
  rw [locate_eq t hwalked, hnames] at h
  obtain ⟨dir, hway, hlast⟩ := walk_parent hp.1 h
  exact ⟨dir, hwalked, ⟨before, hnames, hway⟩, hp, short_of_walk hp hlast⟩

/-- A text that goes on like one that leads to a name in a directory leads to its own name there,
or fails in every tree with these directories. -/
theorem Leads.beside {t : FileTree} {path other : String} {before dir : List String}
    {name last last' : String} (h : t.Leads path dir name) (hpath : names path = before ++ [last])
    (hother : names other = before ++ [last']) (hp : IsPlain last') :
    t.Leads other dir last' ∨ ∃ e, ∀ u, SameDirs t u → u.locate other = .error e := by
  obtain ⟨before', hnames, hway⟩ := h.way
  obtain rfl : before = before' := (List.append_inj' (hpath.symm.trans hnames) rfl).1
  by_cases hz : (other.toList.any fun c => c.toNat = 0) = true
  · exact .inr ⟨.zeroCharacter, fun u _ => by rw [FileTree.locate, if_pos hz]⟩
  by_cases hr : other.isEmpty
  · exact .inr ⟨.absent, fun u _ => by rw [FileTree.locate, if_neg hz, if_pos hr]⟩
  by_cases hl : maxPath < other.utf8ByteSize
  · exact .inr ⟨.nameTooLong, fun u _ => by rw [FileTree.locate, if_neg hz, if_neg hr, if_pos hl]⟩
  by_cases hshort : maxName < last'.utf8ByteSize
  · refine .inr ⟨.nameTooLong, fun u hu => ?_⟩
    have hstay : ¬(last' = "" ∨ last' = ".") := fun h => h.elim hp.1 hp.2.1
    rw [locate_eq u ⟨hz, hr, hl⟩, hother, walk_append (walk_of_keepsDirs hu.keeps hway), walk_cons,
      advance, if_neg hstay, if_neg hp.2.2, if_pos hshort]
    rfl
  · exact .inl ⟨⟨hz, hr, hl⟩, ⟨before, hother, hway⟩, hp, hshort⟩

theorem locate_of_write {t u : FileTree} {path : String} {content : Bytes}
    (h : t.write path content = .ok u) : ∃ place, t.locate path = .ok place := by
  unfold FileTree.write at h
  cases hl : t.locate path with
  | ok place => exact ⟨place, rfl⟩
  | error e => rw [hl] at h; cases h

/-! ## 4. The last name of a text -/

theorem names_append {a b : String} {before : List String} {last : String}
    (ha : names a = before ++ [last]) (hb : '/' ∉ b.toList) :
    names (a ++ b) = before ++ [last ++ b] := by
  unfold names at ha ⊢
  obtain ⟨xs, ys, hsplit, hxs, hys⟩ := List.map_eq_append_iff.1 ha
  obtain ⟨y, rfl, hy⟩ := List.map_eq_singleton_iff.1 hys
  rw [String.toList_append, Text.splitAtChar_append hsplit hb, List.map_append, hxs,
    List.map_singleton, String.ofList_append, hy, String.ofList_toList]

theorem exists_names (a : String) : ∃ before last, names a = before ++ [last] := by
  have hne : names a ≠ [] := by
    unfold names
    rw [Ne, List.map_eq_nil_iff]
    exact Text.splitAtChar_ne_nil _ _
  exact ⟨_, _, (List.dropLast_append_getLast hne).symm⟩

/-- A name that is joined to a directory is the last name of the path text, behind the names of the
directory. -/
theorem exists_names_before (directory : String) :
    ∃ before, ∀ name, '/' ∉ name.toList → names (join directory name) = before ++ [name] := by
  -- a directory that ends in a slash has an empty last name, which the joined one takes over
  have hafter : ∀ base name, '/' ∉ name.toList →
      names (base ++ "/" ++ name) = names base ++ [name] := by
    intro base name h
    have hbase : names (base ++ "/") = names base ++ [""] := by
      unfold names
      rw [String.toList_append, show "/".toList = ['/'] from rfl, Text.splitAtChar_snoc,
        List.map_append]
      rfl
    rw [names_append hbase h, String.empty_append]
  have hslash : ∀ name : String, '/' ∉ name.toList → (name.startsWith "/") = false := by
    intro name h
    rw [Bool.eq_false_iff]
    intro hs
    rw [String.startsWith_string_iff] at hs
    exact h (hs.subset List.mem_cons_self)
  by_cases hend : (directory.isEmpty || directory.endsWith "/") = true
  · rw [Bool.or_eq_true] at hend
    rcases hend with hempty | hend
    · refine ⟨[], fun name h => ?_⟩
      unfold join names
      rw [hslash name h, if_neg Bool.false_ne_true, hempty, Bool.true_or, if_pos rfl,
        String.isEmpty_iff.1 hempty, String.empty_append, Text.splitAtChar_eq_singleton h,
        List.map_singleton, String.ofList_toList, List.nil_append]
    · have hdirectory := hend
      rw [← String.endsWith_toSlice, String.Slice.endsWith_string_iff, String.copy_toSlice]
        at hdirectory
      obtain ⟨base, hbase⟩ := hdirectory
      have hbase' : directory = String.ofList base ++ "/" := by
        apply String.toList_inj.1
        rw [String.toList_append, String.toList_ofList, hbase]
      refine ⟨names (String.ofList base), fun name h => ?_⟩
      rw [join, hslash name h, if_neg Bool.false_ne_true, hend, Bool.or_true, if_pos rfl, hbase']
      exact hafter _ name h
  · refine ⟨names directory, fun name h => ?_⟩
    rw [join, hslash name h, if_neg Bool.false_ne_true, if_neg hend]
    exact hafter directory name h

theorem exists_names_join {name : String} (h : '/' ∉ name.toList) (directory : String) :
    ∃ before, names (join directory name) = before ++ [name] := by
  obtain ⟨before, hbefore⟩ := exists_names_before directory
  exact ⟨before, hbefore name h⟩

/-- A path text that goes on without a slash leads to the same directory as one that stops
earlier. -/
theorem Leads.shorten {t : FileTree} {path suffix : String} {dir : List String} {name : String}
    (h : t.Leads (path ++ suffix) dir (name ++ suffix)) (hp : IsPlain name)
    (hnames : ∃ before, names path = before ++ [name]) (hs : '/' ∉ suffix.toList) :
    t.Leads path dir name := by
  obtain ⟨before, hpath⟩ := hnames
  obtain ⟨before', hlong, hway⟩ := h.way
  rw [names_append hpath hs, List.append_cancel_right_eq] at hlong
  have hle : path.utf8ByteSize ≤ (path ++ suffix).utf8ByteSize := by
    rw [String.utf8ByteSize_append]
    exact Nat.le_add_right _ _
  have hle' : name.utf8ByteSize ≤ (name ++ suffix).utf8ByteSize := by
    rw [String.utf8ByteSize_append]
    exact Nat.le_add_right _ _
  -- the empty text has an empty last name
  have hne : path ≠ "" := by
    intro hempty
    rw [hempty] at hpath
    have hnil := List.append_inj' (show [] ++ [""] = before ++ [name] from hpath) rfl
    exact hp.1 (List.cons.inj hnil.2).1.symm
  refine ⟨⟨?_, ?_, ?_⟩, ⟨before, hpath, hlong ▸ hway⟩, hp, ?_⟩
  -- what keeps a text from being walked keeps every longer one from it
  · intro hz
    apply h.walked.noZero
    rw [String.toList_append, List.any_append, hz, Bool.true_or]
  · exact fun hempty => hne (String.isEmpty_iff.1 hempty)
  · exact fun hlong' => h.walked.short (Nat.lt_of_lt_of_le hlong' hle)
  · exact fun hlong' => h.short (Nat.lt_of_lt_of_le hlong' hle')

end ReplicaCensus.FileTree
