import Mathlib
import ReplicaCensus.Proofs.Census.Blocks
import ReplicaCensus.Proofs.Stamp.Text
import ReplicaCensus.Proofs.Text.Hex
/-!
# What a sample file tells

Nothing but the numbers of the replicas shows where in a sample file the block of one key ends and
the next one starts, and a version is text with blanks, colons and commas of its own. Yet the text
tells the keys and, replica by replica, the versions that were sampled, if each key has a replica
and no version has a tab or a line feed in it. Stamps have neither, and are told up to equality.
-/

namespace ReplicaCensus.Block

/-! ## 1. One line -/

/-- What a line of a sample file tells: the number of a replica, a key, and its versions there. -/
structure Row where
  offset : Nat
  key : Bytes
  versions : List String

/-- A text that can stand between two tabs of a line. -/
def IsPlain (version : String) : Prop := '\t' ∉ version.toList ∧ '\n' ∉ version.toList

namespace Row

/-- The line of a row, without the line feed. -/
def chars (r : Row) : List Char :=
  (toString r.offset).toList ++ ' ' :: ':' :: ' ' :: (Hex.encodeChars r.key ++
    '\t' :: (r.versions.map String.toList).flatMap fun v => v ++ ['\t'])

theorem toList_line (r : Row) : (line r.offset r.key r.versions).toList = r.chars ++ ['\n'] := by
  have hversions : (String.join (r.versions.map fun v => v ++ "\t")).toList =
      (r.versions.map String.toList).flatMap fun v => v ++ ['\t'] := by
    rw [String.toList_join, List.flatMap_map, List.flatMap_map]
    exact List.flatMap_congr fun v _ => String.toList_append
  rw [line, chars, Hex.encode]
  simp only [String.toList_append, String.toList_ofList, hversions, List.append_assoc,
    List.cons_append]
  rfl

/-- The versions of the row can be told apart. -/
def IsPlain (r : Row) : Prop := ∀ v ∈ r.versions, Block.IsPlain v

theorem not_mem_chars {r : Row} (h : r.IsPlain) : '\n' ∉ r.chars := by
  have hoffset : '\n' ∉ (toString r.offset).toList := Number.not_mem_toString rfl (r.offset : Int)
  have hkey : '\n' ∉ Hex.encodeChars r.key := fun hmem =>
    absurd (Hex.mem_encodeChars hmem) (by decide)
  have hversions : '\n' ∉ (r.versions.map String.toList).flatMap fun v => v ++ ['\t'] := by
    rw [List.flatMap_map, List.mem_flatMap]
    rintro ⟨v, hv, hmem⟩
    exact (List.mem_append.1 hmem).elim (h v hv).2 (by decide)
  simp only [chars, List.mem_append, List.mem_cons, hoffset, hkey, hversions]
  decide

/-- A line tells the number up to its first blank, the key up to its first tab, and each version up
to the tab behind it. -/
theorem eq_of_chars {r r' : Row} (h : r.IsPlain) (h' : r'.IsPlain) (hchars : r.chars = r'.chars) :
    r = r' := by
  have hoffset : ∀ n : Nat, ' ' ∉ (toString n).toList := fun n =>
    Number.not_mem_toString rfl (n : Int)
  have hkey : ∀ key, '\t' ∉ Hex.encodeChars key := fun key hmem =>
    absurd (Hex.mem_encodeChars hmem) (by decide)
  obtain ⟨hoffsets, hrest⟩ := Text.eq_of_append_cons (hoffset _) (hoffset _) hchars
  rw [List.cons.injEq, List.cons.injEq] at hrest
  obtain ⟨hkeys, hversions⟩ := Text.eq_of_append_cons (hkey _) (hkey _) hrest.2.2
  have hpieces := Text.flatMap_ended_injective (List.forall_mem_map.2 fun v hv => (h v hv).1)
    (List.forall_mem_map.2 fun v hv => (h' v hv).1) hversions
  have hnumber : (r.offset : Int) = r'.offset := Int.repr_injective (String.toList_inj.1 hoffsets)
  have htexts := List.map_injective_iff.2 (fun _ _ => String.toList_inj.1) hpieces
  cases r
  cases r'
  rw [mk.injEq]
  exact ⟨Int.ofNat.inj hnumber, Hex.encodeChars_injective hkeys, htexts⟩

/-- The lines of a text tell its rows. -/
theorem eq_of_map_chars {rows rows' : List Row} (h : ∀ r ∈ rows, r.IsPlain)
    (h' : ∀ r ∈ rows', r.IsPlain) (hchars : rows.map chars = rows'.map chars) : rows = rows' := by
  induction rows generalizing rows' with
  | nil => exact (List.map_eq_nil_iff.1 hchars.symm).symm
  | cons r rest ih =>
    obtain ⟨r', rest', rfl, hr, hrest⟩ := List.map_eq_cons_iff.1 hchars.symm
    rw [List.forall_mem_cons] at h h'
    rw [eq_of_chars h.1 h'.1 hr.symm, ih h.2 h'.2 hrest.symm]

end Row

/-! ## 2. The lines of a file -/

/-- The rows of a block from some replica on. -/
def rowsFrom (key : Bytes) : Nat → List (List String) → List Row
  | _, [] => []
  | offset, versions :: rest => ⟨offset, key, versions⟩ :: rowsFrom key (offset + 1) rest

/-- The rows of a file: for each key one for each of its replicas, numbered from zero. -/
def rowsOf (samples : List (Bytes × List (List String))) : List Row :=
  samples.flatMap fun e => rowsFrom e.1 0 e.2

/-- The text of a file: the blocks of the keys, one after the other. -/
def textOf (samples : List (Bytes × List (List String))) : String :=
  String.join (samples.map fun e => ofAnswers e.1 e.2)

/-- The lines of some rows, each with its line feed. -/
def charsOf (rows : List Row) : List Char :=
  (rows.map Row.chars).flatMap fun line => line ++ ['\n']

theorem charsOf_append (rows rows' : List Row) :
    charsOf (rows ++ rows') = charsOf rows ++ charsOf rows' := by
  rw [charsOf, List.map_append, List.flatMap_append]
  rfl

theorem toList_linesFrom (key : Bytes) (offset : Nat) (answers : List (List String)) :
    (linesFrom key offset answers).toList = charsOf (rowsFrom key offset answers) := by
  induction answers generalizing offset with
  | nil => rfl
  | cons versions rest ih =>
    rw [linesFrom, rowsFrom, String.toList_append, ih, charsOf, charsOf, List.map_cons,
      List.flatMap_cons, ← Row.toList_line]

theorem toList_textOf (samples : List (Bytes × List (List String))) :
    (textOf samples).toList = charsOf (rowsOf samples) := by
  induction samples with
  | nil => rfl
  | cons e rest ih =>
    calc
      (textOf (e :: rest)).toList = (ofAnswers e.1 e.2).toList ++ (textOf rest).toList := by
        rw [textOf, List.map_cons, String.join_cons, String.toList_append, ← textOf]
      _ = charsOf (rowsFrom e.1 0 e.2 ++ rowsOf rest) := by
        rw [ofAnswers, toList_linesFrom, ih, charsOf_append]

theorem mem_versions_of_rowsFrom {key : Bytes} {offset : Nat} {answers : List (List String)}
    {r : Row} (h : r ∈ rowsFrom key offset answers) : r.versions ∈ answers := by
  induction answers generalizing offset with
  | nil => exact absurd h List.not_mem_nil
  | cons versions rest ih =>
    rcases List.mem_cons.1 h with rfl | hrest
    · exact List.mem_cons_self
    · exact List.mem_cons_of_mem _ (ih hrest)

/-- Samples that a file can tell: each key has a replica, and each version is plain. -/
def IsLegible (samples : List (Bytes × List (List String))) : Prop :=
  ∀ e ∈ samples, e.2 ≠ [] ∧ ∀ versions ∈ e.2, ∀ v ∈ versions, IsPlain v

theorem IsLegible.isPlain {samples : List (Bytes × List (List String))} (h : IsLegible samples)
    {r : Row} (hr : r ∈ rowsOf samples) : r.IsPlain := by
  obtain ⟨e, he, hmem⟩ := List.mem_flatMap.1 hr
  exact (h e he).2 _ (mem_versions_of_rowsFrom hmem)

theorem rowsOf_eq_of_textOf {samples samples' : List (Bytes × List (List String))}
    (h : IsLegible samples) (h' : IsLegible samples') (htext : textOf samples = textOf samples') :
    rowsOf samples = rowsOf samples' := by
  have hchars := congrArg String.toList htext
  rw [toList_textOf, toList_textOf] at hchars
  have hlines := Text.flatMap_ended_injective
    (List.forall_mem_map.2 fun r hr => Row.not_mem_chars (h.isPlain hr))
    (List.forall_mem_map.2 fun r hr => Row.not_mem_chars (h'.isPlain hr)) hchars
  exact Row.eq_of_map_chars (fun _ => h.isPlain) (fun _ => h'.isPlain) hlines

/-! ## 3. Where a block ends -/

theorem rowsOf_cons (key : Bytes) (versions : List String) (more : List (List String))
    (rest : List (Bytes × List (List String))) :
    rowsOf ((key, versions :: more) :: rest) =
      ⟨0, key, versions⟩ :: (rowsFrom key 1 more ++ rowsOf rest) := rfl

theorem IsLegible.exists_cons {e : Bytes × List (List String)}
    {rest : List (Bytes × List (List String))} (h : IsLegible (e :: rest)) :
    ∃ key versions more, e = (key, versions :: more) ∧ IsLegible rest := by
  obtain ⟨he, hrest⟩ := List.forall_mem_cons.1 h
  obtain ⟨versions, more, hanswers⟩ := List.exists_cons_of_ne_nil he.1
  exact ⟨e.1, versions, more, by rw [← hanswers], hrest⟩

/-- The rows start with number zero, if there are any. -/
def StartsFresh (rows : List Row) : Prop := ∀ r ∈ rows.head?, r.offset = 0

theorem startsFresh_rowsOf {samples : List (Bytes × List (List String))} (h : IsLegible samples) :
    StartsFresh (rowsOf samples) := by
  cases samples with
  | nil => rintro r ⟨⟩
  | cons e rest =>
    obtain ⟨key, versions, more, rfl, -⟩ := h.exists_cons
    rintro r ⟨⟩
    rfl

theorem not_startsFresh (key : Bytes) (offset : Nat) (versions : List String)
    (more : List (List String)) (rest : List Row) :
    ¬StartsFresh (rowsFrom key (offset + 1) (versions :: more) ++ rest) :=
  fun h => Nat.succ_ne_zero offset (h _ rfl)

/-- The first row that has number zero again is the first one behind the block. -/
theorem rowsFrom_append_inj {key : Bytes} {offset : Nat} {answers answers' : List (List String)}
    {rest rest' : List Row} (hrest : StartsFresh rest) (hrest' : StartsFresh rest')
    (h : rowsFrom key (offset + 1) answers ++ rest = rowsFrom key (offset + 1) answers' ++ rest') :
    answers = answers' ∧ rest = rest' := by
  induction answers generalizing offset answers' with
  | nil =>
    cases answers' with
    | nil => exact ⟨rfl, h⟩
    | cons versions' more' =>
      rw [show rest = _ from h] at hrest
      exact absurd hrest (not_startsFresh key offset versions' more' rest')
  | cons versions more ih =>
    cases answers' with
    | nil =>
      rw [← show _ = rest' from h] at hrest'
      exact absurd hrest' (not_startsFresh key offset versions more rest)
    | cons versions' more' =>
      rw [rowsFrom, rowsFrom, List.cons_append, List.cons_append, List.cons.injEq,
        Row.mk.injEq] at h
      obtain ⟨⟨-, -, rfl⟩, hmore⟩ := h
      obtain ⟨rfl, rfl⟩ := ih hmore
      exact ⟨rfl, rfl⟩

theorem rowsOf_inj {samples samples' : List (Bytes × List (List String))} (h : IsLegible samples)
    (h' : IsLegible samples') (hrows : rowsOf samples = rowsOf samples') : samples = samples' := by
  induction samples generalizing samples' with
  | nil =>
    cases samples' with
    | nil => rfl
    | cons e' rest' =>
      obtain ⟨key', versions', more', rfl, -⟩ := h'.exists_cons
      cases hrows
  | cons e rest ih =>
    obtain ⟨key, versions, more, rfl, hrest⟩ := h.exists_cons
    cases samples' with
    | nil => cases hrows
    | cons e' rest' =>
      obtain ⟨key', versions', more', rfl, hrest'⟩ := h'.exists_cons
      rw [rowsOf_cons, rowsOf_cons, List.cons.injEq, Row.mk.injEq] at hrows
      obtain ⟨⟨-, rfl, rfl⟩, hmore⟩ := hrows
      obtain ⟨rfl, hbehind⟩ :=
        rowsFrom_append_inj (startsFresh_rowsOf hrest) (startsFresh_rowsOf hrest') hmore
      rw [ih hrest hrest' hbehind]

/-! ## 4. Stamps -/

theorem isPlain_toText (s : Stamp) : IsPlain s.toText :=
  ⟨Stamp.not_mem_toText rfl (by decide) s, Stamp.not_mem_toText rfl (by decide) s⟩

/-- Samples as they are written: the texts of the stamps. -/
def texts (samples : List (Bytes × List (List Stamp))) : List (Bytes × List (List String)) :=
  samples.map fun e => (e.1, e.2.map (List.map Stamp.toText))

theorem isLegible_texts {samples : List (Bytes × List (List Stamp))}
    (h : ∀ e ∈ samples, e.2 ≠ []) : IsLegible (texts samples) := by
  refine List.forall_mem_map.2 fun e he => ⟨?_, ?_⟩
  · rw [Ne, List.map_eq_nil_iff]
    exact h e he
  · exact List.forall_mem_map.2 fun stamps _ => List.forall_mem_map.2 fun s _ => isPlain_toText s

/-- The same key, and replica by replica equal stamps. -/
def SameSample (e e' : Bytes × List (List Stamp)) : Prop :=
  e.1 = e'.1 ∧ List.Forall₂ (List.Forall₂ fun a b => Stamp.same a b = true) e.2 e'.2

theorem texts_eq_iff {samples samples' : List (Bytes × List (List Stamp))} :
    texts samples = texts samples' ↔ List.Forall₂ SameSample samples samples' := by
  simp only [texts, map_eq_map_iff, Prod.mk.injEq, Stamp.toText_eq_iff]
  rfl

/-- The text of a sample file tells what was sampled, if each key has a replica: all keys and
versions in their order, if no version has a tab or a line feed in it. If the versions are stamps it
tells them up to equality, and no more than that. -/
theorem textOf_tells :
    (∀ samples samples' : List (Bytes × List (List String)), IsLegible samples →
      IsLegible samples' → textOf samples = textOf samples' → samples = samples') ∧
      ∀ samples samples' : List (Bytes × List (List Stamp)), (∀ e ∈ samples, e.2 ≠ []) →
        (∀ e ∈ samples', e.2 ≠ []) →
        (textOf (texts samples) = textOf (texts samples') ↔
          List.Forall₂ SameSample samples samples') := by
  have hplain : ∀ samples samples' : List (Bytes × List (List String)), IsLegible samples →
      IsLegible samples' → textOf samples = textOf samples' → samples = samples' :=
    fun samples samples' h h' htext => rowsOf_inj h h' (rowsOf_eq_of_textOf h h' htext)
  refine ⟨hplain, fun samples samples' h h' => ?_⟩
  rw [← texts_eq_iff]
  exact ⟨hplain _ _ (isLegible_texts h) (isLegible_texts h'), fun htexts => htexts ▸ rfl⟩

/-! One key twice, with a version that looks like a line of its own and a replica with none. -/

def askedTwice : List (Bytes × List (List String)) :=
  [([7], [["0 : 07, ts:1", ""], []]), ([7], [[]])]

def askedTwiceLater : List (Bytes × List (List String)) :=
  [([7], [["0 : 07, ts:1", ""]]), ([7], [[], []])]

def stampedTwice : List (Bytes × List (List Stamp)) :=
  [([7], [[Stamp.early, Stamp.idleEarly], []]), ([7], [[Stamp.early]])]

def turnedTwice : List (Bytes × List (List Stamp)) :=
  [([7], [[Stamp.turnedEarly, Stamp.idleEarly], []]), ([7], [[Stamp.turnedEarly]])]

theorem textOf_tells_twice :
    textOf askedTwice ≠ textOf askedTwiceLater ∧
      textOf (texts stampedTwice) = textOf (texts turnedTwice) ∧
      List.Forall₂ SameSample stampedTwice turnedTwice := by
  obtain ⟨hplain, hstamps⟩ := textOf_tells
  have hne : textOf askedTwice ≠ textOf askedTwiceLater := fun h =>
    absurd (hplain askedTwice askedTwiceLater (by unfold IsLegible IsPlain; decide)
      (by unfold IsLegible IsPlain; decide) h) (by decide)
  have hsame : Stamp.same Stamp.early Stamp.turnedEarly = true := by decide
  have htext : textOf (texts stampedTwice) = textOf (texts turnedTwice) := by
    simp only [stampedTwice, turnedTwice, texts, List.map_cons, Stamp.toText_eq_iff.2 hsame]
  exact ⟨hne, htext, (hstamps stampedTwice turnedTwice (by decide) (by decide)).1 htext⟩

end ReplicaCensus.Block
