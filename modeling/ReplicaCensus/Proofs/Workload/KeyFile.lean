import Mathlib
import ReplicaCensus.Census.KeyFile
import ReplicaCensus.Proofs.Cluster.Document
import ReplicaCensus.Proofs.Text.Hex
import ReplicaCensus.Proofs.Text.Lines
import ReplicaCensus.Workload
/-!
# Key files, written and read

The keys that a workload writes to a key file are read back from it, one from each line.
-/

namespace ReplicaCensus

/-! ## 1. The lines of a key file -/

namespace KeyFile

/-- A key file that is text is read line by line. -/
theorem read_encode (path : String) (cs : List Char) :
    read path (Utf8.encode cs) = ofLines path none 1 (Text.linesOf (Text.foldNewlines cs)) := by
  rw [read, Utf8.decodePieces_encode]

/-- However many good lines stand before it, a line that is no key is a fault. -/
theorem fault_of_mem {lines : List (List Char)} {line : List Char} (hline : line ∈ lines)
    (hbad : Hex.decode? (Text.trimBlanks line) = none) (path : String)
    (last : Option KeyFileFault) (number : Nat) :
    (ofLines path last number lines).fault ≠ none := by
  induction lines generalizing number with
  | nil => exact absurd hline List.not_mem_nil
  | cons first rest ih =>
    unfold ofLines
    split
    · next hblank =>
      rcases List.mem_cons.1 hline with rfl | hlater
      · rw [hblank] at hbad
        cases hbad
      · exact ih hlater (number + 1)
    · split
      · next key hkey =>
        rcases List.mem_cons.1 hline with rfl | hlater
        · rw [hkey] at hbad
          cases hbad
        · exact ih hlater (number + 1)
      · exact Option.some_ne_none _

theorem trimBlanks_encodeChars (key : Bytes) :
    Text.trimBlanks (Hex.encodeChars key) = Hex.encodeChars key := by
  have hdigit : ∀ c : Char, 48 ≤ c.toNat ∧ c.toNat ≤ 57 ∨ 97 ≤ c.toNat ∧ c.toNat ≤ 102 →
      Text.isBlank c = false := by
    intro c hc
    simp only [Text.isBlank, Text.blankRanges, List.any_cons, List.any_nil, Bool.or_false,
      Bool.or_eq_false_iff, Bool.and_eq_false_iff, decide_eq_false_iff_not]
    omega
  exact Text.trimBoth_eq_self fun c hc => hdigit c (Hex.mem_encodeChars hc)

/-- Lines in hexadecimal digits are keys, unless they are empty. -/
theorem ofLines_map_encodeChars {keys : List Bytes} (h : ∀ key ∈ keys, key ≠ []) (path : String)
    (number : Nat) :
    ofLines path none number (keys.map Hex.encodeChars) =
      ⟨(keys.zipIdx number).map Prod.swap, none⟩ := by
  induction keys generalizing number with
  | nil => rfl
  | cons key rest ih =>
    obtain ⟨hkey, hrest⟩ := List.forall_mem_cons.1 h
    rw [List.map_cons, ofLines, trimBlanks_encodeChars]
    split
    · next hnil => exact absurd hnil (Hex.encodeChars_ne_nil hkey)
    · rw [Hex.decode?_encodeChars]
      dsimp only
      rw [ih hrest, cons, List.zipIdx_cons, List.map_cons, Prod.swap_prod_mk]

end KeyFile

/-! ## 2. The whole file -/

namespace Workload

theorem keyOf_ne_nil (n : Int) : keyOf n ≠ [] := by
  unfold keyOf
  rw [String.toList_append, Utf8.encode_append]
  exact List.append_ne_nil_of_left_ne_nil (by decide +kernel) _

theorem toList_keyFileOf (keys : List Bytes) :
    (keyFileOf keys).toList = (keys.map Hex.encodeChars).flatMap fun line => line ++ ['\n'] := by
  induction keys with
  | nil => rfl
  | cons key rest ih =>
    rw [keyFileOf, List.map_cons, String.join_cons, String.toList_append, String.toList_append,
      Hex.encode, String.toList_ofList, List.map_cons, List.flatMap_cons, ← ih]
    rfl

/-- No digit ends a line or is a carriage return. -/
theorem not_mem_encodeChars {c : Char} (hc : c.toNat < 48) (key : Bytes) :
    c ∉ Hex.encodeChars key := by
  intro h
  have hrange := Hex.mem_encodeChars h
  omega

/-- Each line of the file is a key, and the lines have their numbers. -/
theorem read_keyFileOf_eq {keys : List Bytes} (h : ∀ key ∈ keys, key ≠ []) (path : String) :
    KeyFile.read path (Utf8.encode (keyFileOf keys).toList) =
      ⟨(keys.zipIdx 1).map Prod.swap, none⟩ := by
  have hreturn : '\r' ∉ (keyFileOf keys).toList := by
    rw [toList_keyFileOf, List.mem_flatMap]
    rintro ⟨line, hline, hc⟩
    obtain ⟨key, -, rfl⟩ := List.mem_map.1 hline
    rcases List.mem_append.1 hc with hc | hc
    · exact not_mem_encodeChars (by decide) key hc
    · exact absurd hc (by decide)
  have hlines : Text.linesOf (keyFileOf keys).toList = keys.map Hex.encodeChars := by
    rw [toList_keyFileOf]
    apply Text.linesOf_flatMap
    intro line hline
    obtain ⟨key, -, rfl⟩ := List.mem_map.1 hline
    exact not_mem_encodeChars (by decide) key
  rw [KeyFile.read_encode, Text.foldNewlines_eq_self hreturn, hlines]
  exact KeyFile.ofLines_map_encodeChars h path 1

theorem read_keyFileOf {keys : List Bytes} (h : ∀ key ∈ keys, key ≠ []) (path : String) :
    (KeyFile.read path (Utf8.encode (keyFileOf keys).toList)).fault = none ∧
      (KeyFile.read path (Utf8.encode (keyFileOf keys).toList)).keys.map Prod.snd = keys := by
  rw [read_keyFileOf_eq h]
  refine ⟨rfl, ?_⟩
  rw [List.map_map]
  exact List.zipIdx_map_fst 1 keys

end Workload

end ReplicaCensus
