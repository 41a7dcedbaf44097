import Mathlib
import ReplicaCensus.Census.Store
import ReplicaCensus.Proofs.File.Lookup
/-!
# The two output files of a store

The samples of a store and its temporary file are two names in one directory. Opening the temporary
file shows that both can be written, so publishing cannot fail afterwards.
-/

namespace ReplicaCensus

theorem FileTree.isPlain_of_length {name : String} (h : 2 < name.length) :
    FileTree.IsPlain name := by
  refine ⟨?_, ?_, ?_⟩ <;> rintro rfl <;> exact absurd h (by decide)

theorem FileTree.isPlain_append {name suffix : String} (h : 2 < suffix.length) :
    FileTree.IsPlain (name ++ suffix) := by
  apply FileTree.isPlain_of_length
  rw [String.length_append]
  omega

theorem FileTree.exists_join_eq (directory name suffix : String) :
    ∃ base, FileTree.join directory (name ++ suffix) = base ++ suffix := by
  unfold FileTree.join
  split
  · exact ⟨name, rfl⟩
  split
  · exact ⟨directory ++ name, by rw [String.append_assoc]⟩
  · exact ⟨directory ++ "/" ++ name, by rw [← String.append_assoc]⟩

namespace Census

theorem append_ne_append {a b s t : String} (hlen : s.toList.length = t.toList.length)
    (h : s ≠ t) : a ++ s ≠ b ++ t := by
  intro he
  -- two suffixes of one length stand at the same end
  have hlists := congrArg String.toList he
  rw [String.toList_append, String.toList_append] at hlists
  exact h (String.toList_inj.1 (List.append_inj' hlists hlen).2)

/-! The three suffixes of file names keep the files of stores apart. -/

theorem samples_ne_partial {a b : String} : a ++ ".kvs" ≠ b ++ ".tmp" :=
  append_ne_append (by simp) (by decide)

theorem keys_ne_samples {a b : String} : a ++ ".keys" ≠ b ++ ".kvs" := by
  rw [show (".keys" : String) = "." ++ "keys" from rfl, ← String.append_assoc]
  exact append_ne_append (by simp) (by decide)

theorem keys_ne_partial {a b : String} : a ++ ".keys" ≠ b ++ ".tmp" := by
  rw [show (".keys" : String) = "." ++ "keys" from rfl, ← String.append_assoc]
  exact append_ne_append (by simp) (by decide)

/-- The last names of one path are one name. -/
theorem last_eq {dir dir' : List String} {name name' : String}
    (h : dir ++ [name] = dir' ++ [name']) : name = name' :=
  (List.cons.inj (List.append_inj' h rfl).2).1

theorem append_suffix_inj {a b s : String} (h : a ++ s = b ++ s) : a = b := by
  have hlists := congrArg String.toList h
  rw [String.toList_append, String.toList_append] at hlists
  exact String.toList_inj.1 (List.append_cancel_right hlists)

/-- The directory of a store's output, and the name of its samples there. -/
structure Output (c : Census) (store : String) (tree : FileTree) (dir : List String)
    (name : String) : Prop where
  samples : tree.Leads (c.samplesPath store) dir name
  unfinished : tree.Leads (c.partialPath store) dir (name ++ ".tmp")

/-- With their suffixes, the last names of the two path texts stand for themselves. -/
theorem exists_endsIn (c : Census) (store : String) :
    ∃ name, FileTree.EndsIn (c.samplesPath store) (name ++ ".kvs") ∧
      FileTree.EndsIn (c.partialPath store) (name ++ ".kvs" ++ ".tmp") := by
  obtain ⟨base, hbase⟩ := FileTree.exists_join_eq c.outDir store ".kvs"
  obtain ⟨before, n, hn⟩ := FileTree.exists_names base
  have hsamples : FileTree.names (c.samplesPath store) = before ++ [n ++ ".kvs"] := by
    rw [samplesPath, hbase]
    exact FileTree.names_append hn (by decide)
  exact ⟨n, ⟨⟨before, hsamples⟩, FileTree.isPlain_append (by decide)⟩,
    ⟨⟨before, FileTree.names_append hsamples (by decide)⟩, FileTree.isPlain_append (by decide)⟩⟩

theorem exists_endsIn_keysPath (c : Census) (store : String) :
    ∃ name, FileTree.EndsIn (c.keysPath store) (name ++ ".keys") := by
  obtain ⟨base, hbase⟩ := FileTree.exists_join_eq c.inDir store ".keys"
  obtain ⟨before, n, hn⟩ := FileTree.exists_names base
  refine ⟨n, ⟨before, ?_⟩, FileTree.isPlain_append (by decide)⟩
  rw [keysPath, hbase]
  exact FileTree.names_append hn (by decide)

/-- Where the temporary file can be looked for, the samples can: their path text is shorter. -/
theorem exists_output_of_target {c : Census} {store : String} {tree : FileTree}
    {place : List String} (h : tree.target? (c.partialPath store) = some place) :
    ∃ dir name, c.Output store tree dir name := by
  obtain ⟨name, hsamples, hpartial⟩ := exists_endsIn c store
  obtain ⟨dir, hdir, -⟩ := hpartial.leads h
  exact ⟨dir, name ++ ".kvs", hdir.shorten hsamples.plain hsamples.names (by decide), hdir⟩

theorem exists_output {c : Census} {store : String} {tree opened : FileTree}
    (h : tree.write (c.partialPath store) [] = .ok opened) :
    ∃ dir name, c.Output store tree dir name := by
  obtain ⟨place, hplace⟩ := FileTree.locate_of_write h
  obtain ⟨name, -, hpartial⟩ := exists_endsIn c store
  obtain ⟨before, hnames⟩ := hpartial.names
  obtain ⟨dir, hdir⟩ := FileTree.leads_of_locate hplace hnames hpartial.plain
  exact exists_output_of_target hdir.target?_eq

namespace Output

variable {c : Census} {store : String} {tree : FileTree} {dir : List String} {name : String}

theorem congr (h : c.Output store tree dir name) {u : FileTree} (hs : FileTree.SameDirs tree u) :
    c.Output store u dir name :=
  ⟨h.samples.congr hs, h.unfinished.congr hs⟩

theorem places_ne (dir : List String) (name : String) :
    dir ++ [name ++ ".tmp"] ≠ dir ++ [name] := by
  intro he
  have hlen := congrArg String.length (List.cons.inj (List.append_cancel_left he)).1
  rw [String.length_append, show (".tmp" : String).length = 4 from rfl] at hlen
  omega

theorem discard (h : c.Output store tree dir name) {old : Bytes}
    (hold : tree.get? (dir ++ [name ++ ".tmp"]) = some (.file old)) :
    c.discard store tree = tree.erase (dir ++ [name ++ ".tmp"]) := by
  rw [Census.discard, h.unfinished.remove hold]

/-- Publishing puts the temporary file, with the blocks in it, in the place of the samples. -/
theorem publish (h : c.Output store tree dir name) {old : Bytes}
    (hold : tree.get? (dir ++ [name ++ ".tmp"]) = some (.file old))
    (hfree : tree.get? (dir ++ [name]) ≠ some .dir) (blocks : List String) :
    c.publish store blocks tree =
      .ok ((tree.erase (dir ++ [name ++ ".tmp"])).insert (dir ++ [name])
        (.file (contentOf blocks))) := by
  have hfile : tree.get? (dir ++ [name ++ ".tmp"]) ≠ some .dir := by
    rw [hold]
    exact fun he => by cases he
  -- writing a file and erasing one leave both path texts where they lead
  have hwritten := h.congr (FileTree.sameDirs_insert hfile (contentOf blocks))
  have hget : (tree.insert (dir ++ [name ++ ".tmp"]) (.file (contentOf blocks))).get?
      (dir ++ [name ++ ".tmp"]) = some (.file (contentOf blocks)) := by
    rw [OrderedMap.get?_insert, if_pos rfl]
  have herased := h.congr (FileTree.sameDirs_erase hfile)
  have hfree' : (tree.erase (dir ++ [name ++ ".tmp"])).get? (dir ++ [name]) ≠ some .dir := by
    rw [OrderedMap.get?_erase, if_neg (places_ne dir name)]
    exact hfree
  rw [Census.publish, h.unfinished.write hfile]
  dsimp only
  rw [FileTree.rename, hwritten.unfinished.read_eq_ok.2 hget]
  dsimp only
  rw [hwritten.unfinished.remove hget, OrderedMap.erase_insert]
  dsimp only
  rw [herased.samples.write hfree']

end Output

end Census

end ReplicaCensus
