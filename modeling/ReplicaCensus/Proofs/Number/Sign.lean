import Mathlib
import ReplicaCensus.Proofs.Number.Digits
import ReplicaCensus.Proofs.Text.Blank
/-!
# Numbers above zero

A number that is not at most zero is above it, unless it is a NaN. And a NaN is read from nothing
but its name, in whatever case, with or without a sign, between blanks.
-/

namespace ReplicaCensus

/-! ## 1. Signs -/

namespace Double

/-- A number that compares as greater than zero. -/
def IsPositive (x : Double) : Prop := (ofInt 0).lt x = true

theorem scaled_one (m : Nat) (e : Int) :
    ((scaled m 1 e).1 = 0 ↔ m = 0) ∧ 0 < (scaled m 1 e).2 := by
  unfold scaled
  split
  · exact ⟨by simp, Nat.one_pos⟩
  · exact ⟨Iff.rfl, by simp⟩

/-- The sign of a finite number is that of its value. -/
theorem isNonPositive_iff {d : Double} {q : Rat} (hq : d.toRat? = some q) :
    d.isNonPositive = true ↔ q ≤ 0 := by
  cases d with
  | nan => cases hq
  | infinite negative => cases hq
  | finite negative m e =>
    obtain ⟨hzero, hpos⟩ := scaled_one m e
    have hden : (0 : Rat) < (scaled m 1 e).2 := Nat.cast_pos.2 hpos
    rw [toRat?, Option.some.injEq] at hq
    rw [isNonPositive, Bool.or_eq_true, decide_eq_true_eq, ← hq, ← hzero, Rat.mkRat_eq_div,
      Rat.mkRat_eq_div]
    split
    · next hnegative =>
      exact iff_of_true (.inl hnegative) (div_nonpos_of_nonpos_of_nonneg (by simp) hden.le)
    · next hpositive =>
      rw [or_iff_right hpositive, div_le_iff₀ hden, zero_mul]
      simp

theorem isPositive_iff {x : Double} : x.IsPositive ↔ x ≠ nan ∧ x.isNonPositive = false := by
  have hzero : ofInt 0 = finite false 0 (-1074) := rfl
  unfold IsPositive
  rw [hzero]
  cases x with
  | nan => simp [lt]
  | infinite negative => simp [lt, isNonPositive]
  | finite negative m e =>
    obtain ⟨q, hq⟩ : ∃ q, (finite negative m e).toRat? = some q := ⟨_, rfl⟩
    have hzero : (finite false 0 (-1074)).toRat? = some 0 := by decide +kernel
    rw [lt, hq, hzero, ← Bool.not_eq_true, isNonPositive_iff hq]
    simp

theorem ofFraction_ne_nan (negative : Bool) (num den : Nat) :
    ofFraction negative num den ≠ nan := by
  unfold ofFraction
  dsimp only
  split
  · nofun
  · split <;> split <;> nofun

theorem ofDecimal_ne_nan (negative : Bool) (digits : Nat) (exponent : Int) :
    ofDecimal negative digits exponent ≠ nan := by
  unfold ofDecimal
  dsimp only
  split
  · nofun
  · split
    · nofun
    · split
      · nofun
      · split <;> exact ofFraction_ne_nan _ _ _

end Double

/-! ## 2. NaN -/

namespace Number

/-- A blank that may stand around a number. -/
def IsSpacing (c : Char) : Prop :=
  Text.isAsciiBlank c = true ∨ 128 ≤ c.toNat ∧ Text.isBlank c = true

/-- The name of NaN, in whatever case. -/
def IsNanWord (word : List Char) : Prop := word.map Char.toLower = ['n', 'a', 'n']

/-- The name of NaN with or without a sign, between blanks. -/
def IsNan (text : String) : Prop :=
  ∃ front sign word back, text.toList = front ++ (sign ++ word) ++ back ∧
    (∀ c ∈ front, IsSpacing c) ∧ (∀ c ∈ back, IsSpacing c) ∧
    (sign = [] ∨ sign = ['+'] ∨ sign = ['-']) ∧ IsNanWord word

/-- No decimal digit of any script is a blank. -/
theorem digitValue?_eq_none_of_isBlank {c : Char} (h : Text.isBlank c = true) :
    Text.digitValue? c = none := by
  have hapart : ∀ r ∈ Text.blankRanges, ∀ z ∈ Text.zeroDigits, r.2 < z ∨ z + 10 ≤ r.1 := by
    decide
  obtain ⟨r, hr, hc⟩ := List.any_eq_true.1 h
  rw [Text.digitValue?, Option.map_eq_none_iff, List.find?_eq_none]
  intro z hz hdigit
  have := hapart r hr z hz
  simp only [Bool.and_eq_true, decide_eq_true_eq] at hc hdigit
  omega

theorem isAsciiDigit_of_digitValue? {c : Char} {d : Nat} (h : Text.digitValue? c = some d) :
    Text.isAsciiDigit (Char.ofNat (48 + d)) = true := by
  obtain ⟨z, hz, rfl⟩ := Option.map_eq_some_iff.1 h
  have hrange := List.find?_some hz
  have hall : ∀ d < 10, Text.isAsciiDigit (Char.ofNat (48 + d)) = true := by decide
  simp only [Bool.and_eq_true, decide_eq_true_eq] at hrange
  exact hall _ (by omega)

theorem toNat_lt_of_isAsciiBlank {c : Char} (h : Text.isAsciiBlank c = true) : c.toNat ≤ 32 := by
  simp only [Text.isAsciiBlank, Bool.or_eq_true, decide_eq_true_eq, Bool.and_eq_true] at h
  rcases h with rfl | h
  · decide
  · omega

/-- The character that stands for another one in the ASCII form of a text. -/
def asciiForm (c : Char) : Char :=
  if c.toNat < 128 then c
  else
    match Text.digitValue? c with
    | some d => Char.ofNat (48 + d)
    | none => if Text.isBlank c then ' ' else c

theorem toAscii_eq_map (cs : List Char) : toAscii cs = cs.map asciiForm := rfl

theorem isAsciiBlank_asciiForm {c : Char} :
    Text.isAsciiBlank (asciiForm c) = true ↔ IsSpacing c := by
  unfold asciiForm IsSpacing
  split
  · next hascii => exact (or_iff_left fun h => absurd h.1 (not_le.2 hascii)).symm
  next hascii =>
  have hnot : ¬Text.isAsciiBlank c = true := fun h => by
    have := toNat_lt_of_isAsciiBlank h
    omega
  rw [or_iff_right hnot, and_iff_right (not_lt.1 hascii)]
  split
  · next d hd =>
    have hdigit := isAsciiDigit_of_digitValue? hd
    refine iff_of_false (fun h => ?_) fun h => ?_
    · have hle := toNat_lt_of_isAsciiBlank h
      simp only [Text.isAsciiDigit, Bool.and_eq_true, decide_eq_true_eq] at hdigit
      omega
    · rw [digitValue?_eq_none_of_isBlank h] at hd
      cases hd
  · split
    · next hblank => exact iff_of_true rfl hblank
    · next hblank => exact iff_of_false hnot hblank

/-- A character of a name or a sign. -/
structure IsWordChar (c : Char) : Prop where
  low : 32 < c.toNat
  ascii : c.toNat < 128
  digit : Text.isAsciiDigit c = false

theorem IsWordChar.not_blank {c : Char} (h : IsWordChar c) : Text.isAsciiBlank c = false := by
  rw [← Bool.not_eq_true]
  intro hblank
  have := toNat_lt_of_isAsciiBlank hblank
  have := h.low
  omega

theorem isWordChar_of_isAlpha {c : Char} (h : c.isAlpha = true) : IsWordChar c := by
  have hrange : 65 ≤ c.toNat ∧ c.toNat ≤ 90 ∨ 97 ≤ c.toNat ∧ c.toNat ≤ 122 := by
    simpa [Char.isAlpha, Char.isUpper, Char.isLower, UInt32.le_iff_toNat_le, ← Char.toNat_val]
      using h
  refine ⟨by omega, by omega, ?_⟩
  rw [Text.isAsciiDigit, Bool.and_eq_false_iff]
  exact .inr (decide_eq_false (by omega))

/-- Nothing but itself stands for a character of a name or a sign. -/
theorem eq_of_asciiForm {c w : Char} (h : asciiForm c = w) (hw : IsWordChar w) : c = w := by
  unfold asciiForm at h
  split at h
  · exact h
  · split at h
    · next d hd =>
      have hdigit := hw.digit
      rw [← h, isAsciiDigit_of_digitValue? hd] at hdigit
      cases hdigit
    · split at h
      · have hlow := hw.low
        rw [← h] at hlow
        exact absurd hlow (by decide)
      · exact h

theorem eq_of_map_asciiForm {cs word : List Char} (h : cs.map asciiForm = word)
    (hword : ∀ c ∈ word, IsWordChar c) : cs = word := by
  induction cs generalizing word with
  | nil => exact h
  | cons c rest ih =>
    rw [List.map_cons] at h
    subst h
    obtain ⟨hc, hrest⟩ := List.forall_mem_cons.1 hword
    rw [← ih rfl hrest, ← eq_of_asciiForm rfl hc]

theorem map_asciiForm_eq_self {word : List Char} (h : ∀ c ∈ word, IsWordChar c) :
    word.map asciiForm = word := by
  rw [← toAscii_eq_map]
  exact toAscii_eq_self fun c hc => (h c hc).ascii

theorem IsNanWord.isAlpha {word : List Char} (h : IsNanWord word) :
    ∀ c ∈ word, c.isAlpha = true := by
  intro c hc
  have hlower : c.toLower ∈ word.map Char.toLower := List.mem_map_of_mem hc
  rw [h] at hlower
  have hall : ∀ d ∈ ['n', 'a', 'n'], Char.isLower d = true := by
    simp [Char.isLower, UInt32.le_iff_toNat_le]
  rw [← Char.isLower_toLower_eq_isAlpha]
  exact hall _ hlower

/-- What is read is told by the word between the blanks and behind the sign. -/
theorem readDouble_eq_nan {text : String} :
    readDouble text = some .nan ↔
      IsNanWord (takeSign (Text.trimBoth Text.isAsciiBlank (toAscii text.toList))).2 := by
  unfold readDouble IsNanWord
  obtain ⟨negative, cs⟩ := takeSign (Text.trimBoth Text.isAsciiBlank (toAscii text.toList))
  dsimp only
  have hnan : "nan".toList = ['n', 'a', 'n'] := rfl
  split
  · next hinf =>
    refine iff_of_false nofun fun h => ?_
    rw [h] at hinf
    exact absurd hinf (by decide)
  split
  · next hword => exact iff_of_true rfl hword
  next hword =>
  have hdecimal : ∀ (none? : Bool) (digits places : Nat) (exponent : Option Int),
      (if none? then none
        else exponent.map fun e => Double.ofDecimal negative digits (e - places)) ≠ some .nan := by
    intro none? digits places exponent h
    split at h
    · cases h
    · obtain ⟨e, -, hdouble⟩ := Option.map_eq_some_iff.1 h
      exact Double.ofDecimal_ne_nan _ _ _ hdouble
  refine iff_of_false ?_ hword
  split <;> exact hdecimal _ _ _ _

/-- A sign is taken off, and all of the rest is left. -/
theorem takeSign_cases (cs : List Char) :
    ∃ sign, cs = sign ++ (takeSign cs).2 ∧ (sign = [] ∨ sign = ['+'] ∨ sign = ['-']) := by
  unfold takeSign
  split
  · exact ⟨['-'], rfl, .inr (.inr rfl)⟩
  · exact ⟨['+'], rfl, .inr (.inl rfl)⟩
  · exact ⟨[], rfl, .inl rfl⟩

theorem takeSign_of_isAlpha {word : List Char} (h : ∀ c ∈ word, c.isAlpha = true) :
    takeSign word = (false, word) := by
  unfold takeSign
  split
  · exact absurd (h '-' List.mem_cons_self) (by decide)
  · exact absurd (h '+' List.mem_cons_self) (by decide)
  · rfl

theorem isWordChar_of_mem_sign {sign : List Char} (h : sign = [] ∨ sign = ['+'] ∨ sign = ['-']) :
    ∀ c ∈ sign, IsWordChar c := by
  rcases h with rfl | rfl | rfl
  · exact fun c hc => absurd hc List.not_mem_nil
  · exact List.forall_mem_singleton.2 ⟨by decide, by decide, by decide⟩
  · exact List.forall_mem_singleton.2 ⟨by decide, by decide, by decide⟩

theorem IsNanWord.isWordChar {sign word : List Char} (h : IsNanWord word)
    (hsign : sign = [] ∨ sign = ['+'] ∨ sign = ['-']) : ∀ c ∈ sign ++ word, IsWordChar c :=
  List.forall_mem_append.2
    ⟨isWordChar_of_mem_sign hsign, fun c hc => isWordChar_of_isAlpha (h.isAlpha c hc)⟩

/-- A NaN is read from its name, and from nothing else. -/
theorem readDouble_eq_nan_iff {text : String} : readDouble text = some .nan ↔ IsNan text := by
  rw [readDouble_eq_nan]
  constructor
  · intro h
    obtain ⟨front, back, htext, hfront, hback⟩ :=
      Text.exists_trimBoth Text.isAsciiBlank (toAscii text.toList)
    generalize Text.trimBoth Text.isAsciiBlank (toAscii text.toList) = cs at h htext
    obtain ⟨sign, hcs, hsign⟩ := takeSign_cases cs
    generalize (takeSign cs).2 = word at h hcs
    subst hcs
    rw [toAscii_eq_map] at htext
    obtain ⟨before, back', hsplit, hbefore, rfl⟩ := List.map_eq_append_iff.1 htext
    obtain ⟨front', word', rfl, rfl, hword⟩ := List.map_eq_append_iff.1 hbefore
    rw [eq_of_map_asciiForm hword (h.isWordChar hsign)] at hsplit
    exact ⟨front', sign, word, back', hsplit,
      fun c hc => isAsciiBlank_asciiForm.1 (hfront _ (List.mem_map_of_mem hc)),
      fun c hc => isAsciiBlank_asciiForm.1 (hback _ (List.mem_map_of_mem hc)), hsign, h⟩
  · rintro ⟨front, sign, word, back, htext, hfront, hback, hsign, hword⟩
    have hspacing : ∀ cs : List Char, (∀ c ∈ cs, IsSpacing c) →
        ∀ c ∈ cs.map asciiForm, Text.isAsciiBlank c = true := by
      intro cs hcs
      exact List.forall_mem_map.2 fun c hc => isAsciiBlank_asciiForm.2 (hcs c hc)
    have hchars := hword.isWordChar hsign
    rw [toAscii_eq_map, htext, List.map_append, List.map_append, map_asciiForm_eq_self hchars,
      Text.trimBoth_append (hspacing front hfront) (hspacing back hback)
        fun c hc => (hchars c hc).not_blank]
    rcases hsign with rfl | rfl | rfl
    · rw [List.nil_append, takeSign_of_isAlpha hword.isAlpha]
      exact hword
    · exact hword
    · exact hword

end Number

end ReplicaCensus
