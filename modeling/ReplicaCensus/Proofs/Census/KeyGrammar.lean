import Mathlib
import ReplicaCensus.Proofs.Census.Blocks
import ReplicaCensus.Proofs.Text.Blank
import ReplicaCensus.Proofs.Workload.KeyFile
/-!
# The grammar of key files

A line of a key file is blank, or it holds a key: an even number of hexadecimal digits, and at least
two, with nothing but blanks around them. The keys of a file are read in the order of its lines,
with the numbers of these, up to the first line that is neither.
-/

namespace ReplicaCensus.KeyFile

/-! ## 1. One line -/

def IsBlankLine (line : List Char) : Prop := ∀ c ∈ line, Text.isBlank c = true

/-- Between blanks there is this text, which is not empty. -/
def Encloses (line text : List Char) : Prop :=
  text ≠ [] ∧ ∃ front back, line = front ++ text ++ back ∧ IsBlankLine front ∧ IsBlankLine back

/-- A line that can be a key: an even number of hexadecimal digits of either case. -/
def IsKeyLine (line : List Char) : Prop :=
  ∃ text, Encloses line text ∧ Even text.length ∧ ∀ c ∈ text, c ∈ Hex.allDigits

/-- A line holds a key if its text is, in small letters, that of the key. -/
def Holds (line : List Char) (key : Bytes) : Prop :=
  ∃ text, Encloses line text ∧ text.map Char.toLower = Hex.encodeChars key

theorem isBlank_of_mem_allDigits {c : Char} (h : c ∈ Hex.allDigits) : Text.isBlank c = false := by
  have hall : (Hex.allDigits.all fun c => !Text.isBlank c) = true := by decide
  simpa using List.all_eq_true.1 hall c h

theorem trimBlanks_eq_nil {line : List Char} : Text.trimBlanks line = [] ↔ IsBlankLine line :=
  Text.trimBoth_eq_nil

theorem encloses_trimBlanks {line : List Char} (h : Text.trimBlanks line ≠ []) :
    Encloses line (Text.trimBlanks line) :=
  ⟨h, Text.exists_trimBoth Text.isBlank line⟩

theorem Encloses.trimBlanks_eq {line text : List Char} (h : Encloses line text)
    (hdigits : ∀ c ∈ text, c ∈ Hex.allDigits) : Text.trimBlanks line = text := by
  obtain ⟨-, front, back, rfl, hfront, hback⟩ := h
  exact Text.trimBoth_append hfront hback fun c hc => isBlank_of_mem_allDigits (hdigits c hc)

theorem isKeyLine_iff {line : List Char} :
    IsKeyLine line ↔ Text.trimBlanks line ≠ [] ∧
      ∃ key, Hex.decode? (Text.trimBlanks line) = some key := by
  constructor
  · rintro ⟨text, htext, hdecodes⟩
    rw [htext.trimBlanks_eq hdecodes.2]
    exact ⟨htext.1, Hex.exists_decode?.2 hdecodes⟩
  · rintro ⟨hne, hkey⟩
    exact ⟨_, encloses_trimBlanks hne, Hex.exists_decode?.1 hkey⟩

theorem holds_iff {line : List Char} {key : Bytes} :
    Holds line key ↔ Text.trimBlanks line ≠ [] ∧
      Hex.decode? (Text.trimBlanks line) = some key := by
  constructor
  · rintro ⟨text, htext, hkey⟩
    have hdecode := Hex.decode?_eq_some.2 hkey
    rw [htext.trimBlanks_eq (Hex.exists_decode?.1 ⟨key, hdecode⟩).2]
    exact ⟨htext.1, hdecode⟩
  · rintro ⟨hne, hkey⟩
    exact ⟨_, encloses_trimBlanks hne, Hex.decode?_eq_some.1 hkey⟩

theorem Holds.isKeyLine {line : List Char} {key : Bytes} (h : Holds line key) : IsKeyLine line :=
  isKeyLine_iff.2 ⟨(holds_iff.1 h).1, key, (holds_iff.1 h).2⟩

/-! ## 2. The lines of a file -/

/-- The keys that the lines hold, with the numbers of the lines, the first of which has the given
number. Each of the lines is blank or holds a key. -/
inductive Lists : Nat → List (List Char) → List (Nat × Bytes) → Prop where
  | nil {number} : Lists number [] []
  | blank {number line lines keys} (hline : IsBlankLine line)
      (hlines : Lists (number + 1) lines keys) : Lists number (line :: lines) keys
  | key {number line key lines keys} (hline : Holds line key)
      (hlines : Lists (number + 1) lines keys) :
      Lists number (line :: lines) ((number, key) :: keys)

/-- A line that is neither blank nor a key, and the fault that it is reported with. -/
structure IsAtFault (path : String) (number : Nat) (line : List Char) (fault : KeyFileFault) :
    Prop where
  notBlank : ¬IsBlankLine line
  notKey : ¬IsKeyLine line
  fault_eq : fault = .badKey path number (String.ofList (Text.trimBlanks line))

/-- Reading ends with the last line, or at a line that is neither blank nor a key. -/
inductive EndsAt (path : String) (number : Nat) :
    List (List Char) → Option KeyFileFault → Prop where
  | done : EndsAt path number [] none
  | fault {line behind fault} (hline : IsAtFault path number line fault) :
      EndsAt path number (line :: behind) (some fault)

variable {path : String} {number : Nat} {lines : List (List Char)} {keys : List (Nat × Bytes)}

theorem Lists.isGood (h : Lists number lines keys) :
    ∀ line ∈ lines, IsBlankLine line ∨ IsKeyLine line := by
  induction h with
  | nil => exact fun _ hmem => absurd hmem List.not_mem_nil
  | blank hline _ ih => exact List.forall_mem_cons.2 ⟨.inl hline, ih⟩
  | key hline _ ih => exact List.forall_mem_cons.2 ⟨.inr hline.isKeyLine, ih⟩

/-- What is read from a line on, for each of the three kinds of lines. -/
theorem ofLines_cons (path : String) (number : Nat) (line : List Char) (rest : List (List Char)) :
    (IsBlankLine line ∧
        ofLines path none number (line :: rest) = ofLines path none (number + 1) rest) ∨
      (∃ key, Holds line key ∧ ofLines path none number (line :: rest) =
        cons number key (ofLines path none (number + 1) rest)) ∨
      ∃ fault, IsAtFault path number line fault ∧
        ofLines path none number (line :: rest) = ⟨[], some fault⟩ := by
  rw [ofLines]
  split
  · next hblank => exact .inl ⟨trimBlanks_eq_nil.1 hblank, rfl⟩
  · next hne =>
    have htext : Text.trimBlanks line ≠ [] := hne
    split
    · next key hkey => exact .inr (.inl ⟨key, holds_iff.2 ⟨htext, hkey⟩, rfl⟩)
    · next hnone =>
      refine .inr (.inr ⟨_, ⟨fun h => htext (trimBlanks_eq_nil.2 h), fun h => ?_, rfl⟩, rfl⟩)
      obtain ⟨-, key, hkey⟩ := isKeyLine_iff.1 h
      rw [hnone] at hkey
      cases hkey

/-- The keys that are read are those of the lines in front of the place where reading ends. -/
theorem ofLines_lists (path : String) (number : Nat) (lines : List (List Char)) :
    ∃ front behind, lines = front ++ behind ∧
      Lists number front (ofLines path none number lines).keys ∧
      EndsAt path (number + front.length) behind (ofLines path none number lines).fault := by
  induction lines generalizing number with
  | nil => exact ⟨[], [], rfl, .nil, .done⟩
  | cons line rest ih =>
    obtain ⟨front, behind, hsplit, hkeys, hend⟩ := ih (number + 1)
    have hnumber : number + (line :: front).length = number + 1 + front.length := by
      rw [List.length_cons]
      omega
    rcases ofLines_cons path number line rest with ⟨hline, hread⟩ | ⟨key, hline, hread⟩ |
      ⟨fault, hline, hread⟩
    · rw [hread]
      exact ⟨line :: front, behind, congrArg _ hsplit, .blank hline hkeys, hnumber ▸ hend⟩
    · rw [hread]
      exact ⟨line :: front, behind, congrArg _ hsplit, .key hline hkeys, hnumber ▸ hend⟩
    · rw [hread]
      exact ⟨[], line :: rest, rfl, .nil, .fault hline⟩

theorem EndsAt.eq_none_iff {front behind : List (List Char)} {fault : Option KeyFileFault}
    {start : Nat} (h : EndsAt path number behind fault) (hfront : Lists start front keys) :
    fault = none ↔ ∀ line ∈ front ++ behind, IsBlankLine line ∨ IsKeyLine line := by
  cases h with
  | done =>
    rw [List.append_nil]
    exact iff_of_true rfl hfront.isGood
  | @fault line behind fault hline =>
    refine iff_of_false (Option.some_ne_none fault) fun hall => ?_
    exact (hall line (by simp)).elim hline.notBlank hline.notKey

/-! ## 3. The whole file -/

/-- A key file that is text is read by its lines, which it has in one way only. All of them are
blank or keys if and only if the file is read to its end; else reading stops at the first line that
is neither, with its number. Either way the keys of the lines before the end are read, in order and
with the numbers of these lines, and none of them is empty. A file that is written with a line for
each of some keys is read as these keys. -/
theorem read_grammar (path : String) :
    (∀ cs : List Char, ∃ lines, Text.HasLines cs lines ∧
      (∀ other, Text.HasLines cs other → other = lines) ∧
      ((read path (Utf8.encode cs)).fault = none ↔
        ∀ line ∈ lines, IsBlankLine line ∨ IsKeyLine line) ∧
      ((read path (Utf8.encode cs)).fault = none →
        Lists 1 lines (read path (Utf8.encode cs)).keys) ∧
      (∀ fault, (read path (Utf8.encode cs)).fault = some fault →
        ∃ front line behind, lines = front ++ line :: behind ∧
          Lists 1 front (read path (Utf8.encode cs)).keys ∧
          IsAtFault path (front.length + 1) line fault) ∧
      ∀ e ∈ (read path (Utf8.encode cs)).keys, e.2 ≠ []) ∧
    ∀ keys : List Bytes, (∀ key ∈ keys, key ≠ []) →
      read path (Utf8.encode (Workload.keyFileOf keys).toList) =
        ⟨(keys.zipIdx 1).map Prod.swap, none⟩ := by
  refine ⟨fun cs => ?_, fun keys hkeys => Workload.read_keyFileOf_eq hkeys path⟩
  have hnonempty : ∀ e ∈ (read path (Utf8.encode cs)).keys, e.2 ≠ [] := fun e he => ne_nil_of_mem he
  refine ⟨_, Text.hasLines_iff.2 rfl, fun other hother => Text.hasLines_iff.1 hother, ?_⟩
  rw [read_encode] at hnonempty ⊢
  obtain ⟨front, behind, hsplit, hkeys, hend⟩ :=
    ofLines_lists path 1 (Text.linesOf (Text.foldNewlines cs))
  generalize ofLines path none 1 (Text.linesOf (Text.foldNewlines cs)) = file at *
  obtain ⟨keys, fault⟩ := file
  rw [hsplit]
  refine ⟨hend.eq_none_iff hkeys, fun hnone => ?_, fun fault' hfault => ?_, hnonempty⟩
  · dsimp only at hnone
    subst hnone
    cases hend
    rwa [List.append_nil]
  · dsimp only at hfault
    subst hfault
    cases hend with
    | @fault line behind _ hline =>
      exact ⟨front, line, behind, rfl, hkeys, Nat.add_comm 1 _ ▸ hline⟩

/-- A key in capitals, an empty line, a key between blanks, and a line of which one character is no
digit. All four line ends occur. -/
def mixed : List Char := "6B\r\n\n\t61 \u0085\r0g".toList

theorem read_grammar_mixed :
    (read "k" (Utf8.encode mixed)).fault = some (.badKey "k" 4 "0g") ∧
      (∃ front line behind, Text.HasLines mixed (front ++ line :: behind) ∧
        Lists 1 front [(1, [0x6B]), (3, [0x61])] ∧
        IsAtFault "k" (front.length + 1) line (.badKey "k" 4 "0g")) ∧
      (∀ key ∈ ([[0x6B], [0x61, 0xFF]] : List Bytes), key ≠ []) ∧
      read "k" (Utf8.encode (Workload.keyFileOf [[0x6B], [0x61, 0xFF]]).toList) =
        ⟨[(1, [0x6B]), (2, [0x61, 0xFF])], none⟩ := by
  have hread : read "k" (Utf8.encode mixed) =
      ⟨[(1, [0x6B]), (3, [0x61])], some (.badKey "k" 4 "0g")⟩ := by
    rw [read_encode]
    decide +kernel
  obtain ⟨hfiles, hkeys⟩ := read_grammar "k"
  obtain ⟨lines, hlines, -, -, -, hfault, -⟩ := hfiles mixed
  rw [hread] at hfault
  obtain ⟨front, line, behind, rfl, hfront, hline⟩ := hfault _ rfl
  have hnonempty : ∀ key ∈ ([[0x6B], [0x61, 0xFF]] : List Bytes), key ≠ [] := by decide
  refine ⟨?_, ⟨front, line, behind, hlines, hfront, hline⟩, hnonempty, hkeys _ hnonempty⟩
  rw [hread]

end ReplicaCensus.KeyFile
