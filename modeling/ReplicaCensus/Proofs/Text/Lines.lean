import Mathlib
import ReplicaCensus.Text.Lines
/-!
# Pieces and lines of a text

A piece without the separator stays whole, whether another one follows it or not, and so pieces that
were put together with separators are told apart. Lines that are each ended by a line feed are split
back into the same lines. The lines of any text are those that line feeds, carriage returns and
pairs of the two end.
-/

namespace ReplicaCensus.Text

/-! ## 1. Splitting at a separator -/

theorem splitAtChar_ne_nil (sep : Char) (cs : List Char) : splitAtChar sep cs ≠ [] := by
  cases cs with
  | nil => exact List.cons_ne_nil _ _
  | cons c rest =>
    unfold splitAtChar
    split
    · exact List.cons_ne_nil _ _
    · split <;> exact List.cons_ne_nil _ _

theorem splitAtChar_of_ne {sep c : Char} (hc : c ≠ sep) {rest piece : List Char}
    {pieces : List (List Char)} (h : splitAtChar sep rest = piece :: pieces) :
    splitAtChar sep (c :: rest) = (c :: piece) :: pieces := by
  rw [splitAtChar, if_neg hc, h]

theorem splitAtChar_eq_singleton {sep : Char} {cs : List Char} (h : sep ∉ cs) :
    splitAtChar sep cs = [cs] := by
  induction cs with
  | nil => rfl
  | cons c rest ih =>
    rw [List.mem_cons, not_or] at h
    exact splitAtChar_of_ne (Ne.symm h.1) (ih h.2)

theorem splitAtChar_append {sep : Char} {a b : List Char} {before : List (List Char)}
    {last : List Char} (ha : splitAtChar sep a = before ++ [last]) (hb : sep ∉ b) :
    splitAtChar sep (a ++ b) = before ++ [last ++ b] := by
  induction a generalizing before last with
  | nil =>
    have hnil := List.append_inj' (show [] ++ [[]] = before ++ [last] from ha) rfl
    rw [← hnil.1, ← List.cons.inj hnil.2 |>.1]
    exact splitAtChar_eq_singleton hb
  | cons c rest ih =>
    rw [List.cons_append]
    by_cases hc : c = sep
    · unfold splitAtChar at ha ⊢
      rw [if_pos hc] at ha ⊢
      cases before with
      | nil =>
        -- something always follows a separator
        rw [List.nil_append, List.cons.injEq] at ha
        exact absurd ha.2 (splitAtChar_ne_nil sep rest)
      | cons x xs =>
        rw [List.cons_append, List.cons.injEq] at ha
        rw [ih ha.2, ← ha.1, List.cons_append]
    · obtain ⟨piece, pieces, hrest⟩ := List.exists_cons_of_ne_nil (splitAtChar_ne_nil sep rest)
      rw [splitAtChar_of_ne hc hrest] at ha
      cases before with
      | nil =>
        rw [List.nil_append, List.cons.injEq] at ha
        have hlast : splitAtChar sep rest = [] ++ [piece] := by rw [hrest, ha.2, List.nil_append]
        rw [← ha.1]
        exact splitAtChar_of_ne hc (ih hlast)
      | cons x xs =>
        rw [List.cons_append, List.cons.injEq] at ha
        have hlast : splitAtChar sep rest = (piece :: xs) ++ [last] := by
          rw [hrest, ha.2, List.cons_append]
        rw [← ha.1]
        exact splitAtChar_of_ne hc (ih hlast)

theorem splitAtChar_piece {sep : Char} {piece : List Char} (h : sep ∉ piece) (rest : List Char) :
    splitAtChar sep (piece ++ sep :: rest) = piece :: splitAtChar sep rest := by
  induction piece with
  | nil => rw [List.nil_append, splitAtChar, if_pos rfl]
  | cons c cs ih =>
    rw [List.mem_cons, not_or] at h
    exact splitAtChar_of_ne (Ne.symm h.1) (ih h.2)

/-- A separator at the end is followed by an empty piece. -/
theorem splitAtChar_snoc (sep : Char) (cs : List Char) :
    splitAtChar sep (cs ++ [sep]) = splitAtChar sep cs ++ [[]] := by
  induction cs with
  | nil =>
    show splitAtChar sep (sep :: []) = _
    unfold splitAtChar
    rw [if_pos rfl]
    rfl
  | cons c rest ih =>
    rw [List.cons_append]
    by_cases hc : c = sep
    · unfold splitAtChar
      rw [if_pos hc, if_pos hc, ih, List.cons_append]
    · obtain ⟨piece, pieces, hrest⟩ := List.exists_cons_of_ne_nil (splitAtChar_ne_nil sep rest)
      rw [hrest, List.cons_append] at ih
      rw [splitAtChar_of_ne hc ih, splitAtChar_of_ne hc hrest, List.cons_append]

/-! ## 2. Putting pieces together -/

theorem cutAt_append {sep : Char} {before : List Char} (h : sep ∉ before) (after : List Char) :
    cutAt sep (before ++ sep :: after) = (before, some after) := by
  induction before with
  | nil => rw [List.nil_append, cutAt, if_pos rfl]
  | cons c rest ih =>
    rw [List.mem_cons, not_or] at h
    rw [List.cons_append, cutAt, if_neg (Ne.symm h.1), ih h.2]

/-- The first separator shows where the text before it ends. -/
theorem eq_of_append_cons {sep : Char} {a a' b b' : List Char} (ha : sep ∉ a) (ha' : sep ∉ a')
    (h : a ++ sep :: b = a' ++ sep :: b') : a = a' ∧ b = b' := by
  have hcut := cutAt_append ha b
  rw [h, cutAt_append ha', Prod.mk.injEq, Option.some_inj] at hcut
  exact ⟨hcut.1.symm, hcut.2.symm⟩

/-- Pieces that are each ended by the separator are told apart. -/
theorem flatMap_ended_injective {sep : Char} {pieces pieces' : List (List Char)}
    (hfree : ∀ p ∈ pieces, sep ∉ p) (hfree' : ∀ p ∈ pieces', sep ∉ p)
    (h : (pieces.flatMap fun p => p ++ [sep]) = pieces'.flatMap fun p => p ++ [sep]) :
    pieces = pieces' := by
  induction pieces generalizing pieces' with
  | nil =>
    cases pieces' with
    | nil => rfl
    | cons p' rest' => simp at h
  | cons p rest ih =>
    cases pieces' with
    | nil => simp at h
    | cons p' rest' =>
      obtain ⟨hp, hrest⟩ := List.forall_mem_cons.1 hfree
      obtain ⟨hp', hrest'⟩ := List.forall_mem_cons.1 hfree'
      simp only [List.flatMap_cons, List.append_assoc, List.singleton_append] at h
      obtain ⟨rfl, hmore⟩ := eq_of_append_cons hp hp' h
      rw [ih hrest hrest' hmore]

/-- With one more separator behind them, joined pieces are pieces that are each ended by it. -/
theorem intercalate_append (sep : Char) (blanks first : List Char) (rest : List (List Char)) :
    (sep :: blanks).intercalate (first :: rest) ++ [sep] =
      (first :: rest.map fun p => blanks ++ p).flatMap fun p => p ++ [sep] := by
  induction rest generalizing first with
  | nil => simp
  | cons p rest ih =>
    rw [List.intercalate_cons_cons, List.append_assoc, ih p]
    simp

/-- Joined pieces that are not empty are told apart. -/
theorem intercalate_injective {sep : Char} {blanks : List Char} {pieces pieces' : List (List Char)}
    (hblanks : sep ∉ blanks) (hfree : ∀ p ∈ pieces, p ≠ [] ∧ sep ∉ p)
    (hfree' : ∀ p ∈ pieces', p ≠ [] ∧ sep ∉ p)
    (h : (sep :: blanks).intercalate pieces = (sep :: blanks).intercalate pieces') :
    pieces = pieces' := by
  -- a piece at the front would end before the text does
  have hnonempty : ∀ first rest, first ≠ [] ∧ sep ∉ first →
      (sep :: blanks).intercalate (first :: rest) ≠ [] := by
    intro first rest hfirst hnil
    have happend := intercalate_append sep blanks first rest
    rw [hnil, List.flatMap_cons, List.append_assoc] at happend
    exact hfirst.1 (eq_of_append_cons List.not_mem_nil hfirst.2 happend).1.symm
  have hended : ∀ first rest, (∀ p ∈ first :: rest, p ≠ [] ∧ sep ∉ p) →
      ∀ p ∈ first :: rest.map fun p => blanks ++ p, sep ∉ p := by
    intro first rest hall
    obtain ⟨hfirst, hrest⟩ := List.forall_mem_cons.1 hall
    refine List.forall_mem_cons.2 ⟨hfirst.2, List.forall_mem_map.2 fun p hp hmem => ?_⟩
    exact (List.mem_append.1 hmem).elim hblanks (hrest p hp).2
  cases pieces with
  | nil =>
    cases pieces' with
    | nil => rfl
    | cons first' rest' =>
      exact absurd h.symm (hnonempty first' rest' (List.forall_mem_cons.1 hfree').1)
  | cons first rest =>
    cases pieces' with
    | nil => exact absurd h (hnonempty first rest (List.forall_mem_cons.1 hfree).1)
    | cons first' rest' =>
      have hsame := congrArg (· ++ [sep]) h
      rw [intercalate_append, intercalate_append] at hsame
      have hcons := flatMap_ended_injective (hended first rest hfree) (hended first' rest' hfree')
        hsame
      rw [List.cons.injEq, List.map_inj_right fun _ _ => List.append_cancel_left] at hcons
      rw [hcons.1, hcons.2]

theorem not_mem_intercalate {c : Char} {sep : List Char} {pieces : List (List Char)}
    (hsep : c ∉ sep) (h : ∀ p ∈ pieces, c ∉ p) : c ∉ sep.intercalate pieces := by
  induction pieces with
  | nil => exact List.not_mem_nil
  | cons p rest ih =>
    obtain ⟨hp, hrest⟩ := List.forall_mem_cons.1 h
    cases rest with
    | nil => rwa [List.intercalate_singleton]
    | cons q rest =>
      rw [List.intercalate_cons_cons, List.mem_append, List.mem_append, not_or, not_or]
      exact ⟨⟨hp, hsep⟩, ih hrest⟩

/-! ## 3. The lines of a text -/

theorem foldNewlines_append {line : List Char} (h : '\r' ∉ line) (rest : List Char) :
    foldNewlines (line ++ rest) = line ++ foldNewlines rest := by
  induction line with
  | nil => rfl
  | cons c cs ih =>
    rw [List.mem_cons, not_or] at h
    rw [List.cons_append, foldNewlines, ih h.2]
    · rfl
    · rintro tail rfl
      exact absurd rfl h.1
    · rintro rfl
      exact absurd rfl h.1

theorem foldNewlines_eq_self {cs : List Char} (h : '\r' ∉ cs) : foldNewlines cs = cs := by
  have hfold := foldNewlines_append h []
  rwa [List.append_nil, foldNewlines, List.append_nil] at hfold

theorem foldNewlines_return {rest : List Char} (h : rest.head? ≠ some '\n') :
    foldNewlines ('\r' :: rest) = '\n' :: foldNewlines rest := by
  cases rest with
  | nil => rfl
  | cons c cs =>
    rw [foldNewlines]
    rintro tail he
    cases he
    exact absurd rfl h

theorem splitLines_append {line : List Char} (h : '\n' ∉ line) (rest : List Char) :
    splitLines (line ++ '\n' :: rest) = (line :: (splitLines rest).1, (splitLines rest).2) := by
  induction line with
  | nil =>
    rw [List.nil_append, splitLines]
    dsimp only
    rw [if_pos rfl]
  | cons c cs ih =>
    rw [List.mem_cons, not_or] at h
    rw [List.cons_append, splitLines, ih h.2]
    dsimp only
    rw [if_neg (Ne.symm h.1)]

theorem splitLines_eq_nil {line : List Char} (h : '\n' ∉ line) : splitLines line = ([], line) := by
  induction line with
  | nil => rfl
  | cons c cs ih =>
    rw [List.mem_cons, not_or] at h
    rw [splitLines, ih h.2]
    dsimp only
    rw [if_neg (Ne.symm h.1)]

theorem linesOf_append {line : List Char} (h : '\n' ∉ line) (rest : List Char) :
    linesOf (line ++ '\n' :: rest) = line :: linesOf rest := by
  rw [linesOf, linesOf, splitLines_append h]
  dsimp only
  split
  · rfl
  · rfl

theorem linesOf_flatMap {lines : List (List Char)} (h : ∀ line ∈ lines, '\n' ∉ line) :
    linesOf (lines.flatMap fun line => line ++ ['\n']) = lines := by
  induction lines with
  | nil => rfl
  | cons line rest ih =>
    obtain ⟨hline, hrest⟩ := List.forall_mem_cons.1 h
    rw [List.flatMap_cons, List.append_assoc, List.singleton_append, linesOf_append hline, ih hrest]

/-- A line has no line end in it. -/
def IsLine (line : List Char) : Prop := '\n' ∉ line ∧ '\r' ∉ line

/-- The lines of a text: each is ended by a line feed, by a carriage return and a line feed, or by a
carriage return alone. What stands behind the last line end is a line if it is not empty. -/
inductive HasLines : List Char → List (List Char) → Prop where
  | nil : HasLines [] []
  | unended {line} (hline : IsLine line) (hne : line ≠ []) : HasLines line [line]
  | feed {line rest lines} (hline : IsLine line) (hrest : HasLines rest lines) :
      HasLines (line ++ '\n' :: rest) (line :: lines)
  | returnFeed {line rest lines} (hline : IsLine line) (hrest : HasLines rest lines) :
      HasLines (line ++ '\r' :: '\n' :: rest) (line :: lines)
  | loneReturn {line rest lines} (hline : IsLine line) (hrest : HasLines rest lines)
      (halone : rest.head? ≠ some '\n') : HasLines (line ++ '\r' :: rest) (line :: lines)

theorem HasLines.eq_linesOf {cs : List Char} {lines : List (List Char)} (h : HasLines cs lines) :
    lines = linesOf (foldNewlines cs) := by
  induction h with
  | nil => rfl
  | @unended line hline hne =>
    rw [foldNewlines_eq_self hline.2, linesOf, splitLines_eq_nil hline.1]
    simp [hne]
  | @feed line rest lines hline _ ih =>
    rw [foldNewlines_append hline.2, foldNewlines, linesOf_append hline.1, ih]
    all_goals simp
  | @returnFeed line rest lines hline _ ih =>
    rw [foldNewlines_append hline.2, foldNewlines, linesOf_append hline.1, ih]
  | @loneReturn line rest lines hline _ halone ih =>
    rw [foldNewlines_append hline.2, foldNewlines_return halone, linesOf_append hline.1, ih]

/-- One more character at the front, which ends no line, belongs to the first line. -/
theorem exists_hasLines_cons {c : Char} (hfeed : c ≠ '\n') (hreturn : c ≠ '\r') {cs : List Char}
    {lines : List (List Char)} (h : HasLines cs lines) : ∃ lines', HasLines (c :: cs) lines' := by
  have hcons : ∀ {line}, IsLine line → IsLine (c :: line) := fun hline =>
    ⟨by simp [hfeed.symm, hline.1], by simp [hreturn.symm, hline.2]⟩
  cases h with
  | nil => exact ⟨_, .unended (hcons ⟨List.not_mem_nil, List.not_mem_nil⟩) (List.cons_ne_nil c [])⟩
  | unended hline _ => exact ⟨_, .unended (hcons hline) (List.cons_ne_nil c _)⟩
  | feed hline hrest => exact ⟨_, .feed (hcons hline) hrest⟩
  | returnFeed hline hrest => exact ⟨_, .returnFeed (hcons hline) hrest⟩
  | loneReturn hline hrest halone => exact ⟨_, .loneReturn (hcons hline) hrest halone⟩

theorem exists_hasLines (cs : List Char) : ∃ lines, HasLines cs lines := by
  have hempty : IsLine [] := ⟨List.not_mem_nil, List.not_mem_nil⟩
  -- by the cases in which line ends are made one
  fun_induction foldNewlines cs with
  | case1 => exact ⟨[], .nil⟩
  | case2 rest ih =>
    obtain ⟨lines, hlines⟩ := ih
    exact ⟨_, .returnFeed hempty hlines⟩
  | case3 rest hother ih =>
    obtain ⟨lines, hlines⟩ := ih
    refine ⟨_, .loneReturn hempty hlines ?_⟩
    cases rest with
    | nil => simp
    | cons c cs =>
      rintro he
      cases he
      exact hother cs rfl
  | case4 c rest _ hreturn ih =>
    obtain ⟨lines, hlines⟩ := ih
    by_cases hc : c = '\n'
    · subst hc
      exact ⟨_, .feed hempty hlines⟩
    · exact exists_hasLines_cons hc hreturn hlines

/-- Every text has its lines, and no others. -/
theorem hasLines_iff {cs : List Char} {lines : List (List Char)} :
    HasLines cs lines ↔ lines = linesOf (foldNewlines cs) := by
  refine ⟨HasLines.eq_linesOf, fun h => ?_⟩
  obtain ⟨lines', hlines'⟩ := exists_hasLines cs
  rw [h, ← hlines'.eq_linesOf]
  exact hlines'

end ReplicaCensus.Text
