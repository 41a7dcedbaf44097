import Mathlib
import ReplicaCensus.Number.Reading
import ReplicaCensus.Proofs.Text.Blank
/-!
# Decimal digits, written and read

An integer of not too many digits is read back from its text, by itself or in front of more text.
-/

namespace ReplicaCensus.Number

/-! ## 1. The digits of a natural number -/

def digits (n : Nat) : List Char := Nat.toDigits 10 n

theorem digits_ne_nil (n : Nat) : digits n ≠ [] := Nat.toDigits_ne_nil

theorem isAsciiDigit_of_mem {n : Nat} {c : Char} (h : c ∈ digits n) :
    Text.isAsciiDigit c = true := by
  have hc := Nat.isDigit_of_mem_toDigits (by decide) (by decide) h
  unfold Char.isDigit at hc
  unfold Text.isAsciiDigit
  rw [Bool.and_eq_true, decide_eq_true_eq, decide_eq_true_eq] at hc ⊢
  exact ⟨UInt32.le_iff_toNat_le.1 hc.1, UInt32.le_iff_toNat_le.1 hc.2⟩

theorem ofDigits_eq_ofDigitChars {cs : List Char} (h : ∀ c ∈ cs, Text.isAsciiDigit c = true) :
    ofDigits cs = Nat.ofDigitChars 10 cs 0 := by
  unfold ofDigits Nat.ofDigitChars
  apply List.foldl_ext
  intro n c hc
  rw [if_pos (h c hc)]
  rfl

theorem ofDigits_digits (n : Nat) : ofDigits (digits n) = n := by
  rw [ofDigits_eq_ofDigitChars fun c hc => isAsciiDigit_of_mem hc]
  exact Nat.ofDigitChars_ten_toDigits

/-- No number but zero starts with a zero. -/
theorem head?_digits {n : Nat} (h : 0 < n) : (digits n).head? ≠ some '0' := by
  unfold digits
  -- by strong induction: the first digit is that of the number without its last digit
  induction n using Nat.strongRecOn with
  | ind n ih =>
    by_cases hn : n < 10
    · rw [Nat.toDigits_of_lt_base hn]
      have hall : ∀ m : Fin 10, 0 < m.val → [Nat.digitChar m.val].head? ≠ some '0' := by decide
      exact hall ⟨n, hn⟩ h
    · rw [Nat.toDigits_of_base_le (by decide) (by omega), List.head?_append]
      have hrest := ih (n / 10) (by omega) (by omega)
      cases hd : Nat.toDigits 10 (n / 10) with
      | nil => exact absurd hd Nat.toDigits_ne_nil
      | cons c cs =>
        rw [hd] at hrest
        exact hrest

/-! ## 2. Integers -/

/-- An integer that is written with at most `maxDigits` digits. -/
def IsShort (n : Int) : Prop := (digits n.natAbs).length ≤ maxDigits

instance (n : Int) : Decidable (IsShort n) := inferInstanceAs (Decidable (_ ≤ _))

theorem toList_toString (n : Int) :
    (toString n).toList = if n < 0 then '-' :: digits n.natAbs else digits n.natAbs := by
  cases n with
  | ofNat m =>
    exact (Nat.toList_repr (n := m)).trans (if_neg (not_lt.2 (Int.natCast_nonneg m))).symm
  | negSucc m =>
    rw [if_pos (Int.negSucc_lt_zero m)]
    show ("-" ++ Nat.repr (m + 1)).toList = _
    rw [String.toList_append, Nat.toList_repr]
    rfl

theorem sign_natAbs (n : Int) :
    (if decide (n < 0) = true then -(n.natAbs : Int) else (n.natAbs : Int)) = n := by
  by_cases h : n < 0
  · rw [decide_eq_true h, if_pos rfl]
    omega
  · rw [decide_eq_false h, if_neg Bool.false_ne_true]
    omega

/-! ## 3. Reading an integer by itself -/

/-- What the text of an integer is made of. -/
def isIntegerChar (c : Char) : Bool := Text.isAsciiDigit c || c = '-'

theorem isIntegerChar_of_mem {n : Int} {c : Char} (h : c ∈ (toString n).toList) :
    isIntegerChar c = true := by
  rw [toList_toString] at h
  unfold isIntegerChar
  split at h
  · rcases List.mem_cons.1 h with rfl | h
    · rfl
    · rw [isAsciiDigit_of_mem h, Bool.true_or]
  · rw [isAsciiDigit_of_mem h, Bool.true_or]

theorem not_mem_toString {c : Char} (hc : isIntegerChar c = false) (n : Int) :
    c ∉ (toString n).toList :=
  fun h => Bool.false_ne_true (hc.symm.trans (isIntegerChar_of_mem h))

theorem toNat_of_isIntegerChar {c : Char} (h : isIntegerChar c = true) :
    45 ≤ c.toNat ∧ c.toNat ≤ 57 := by
  unfold isIntegerChar Text.isAsciiDigit at h
  rw [Bool.or_eq_true, Bool.and_eq_true, decide_eq_true_eq, decide_eq_true_eq,
    decide_eq_true_eq] at h
  rcases h with h | rfl
  · omega
  · decide

theorem toAscii_eq_self {cs : List Char} (h : ∀ c ∈ cs, c.toNat < 128) : toAscii cs = cs := by
  unfold toAscii
  refine (List.map_congr_left fun c hc => ?_).trans (List.map_id cs)
  rw [if_pos (h c hc)]
  rfl

theorem wellSpaced_of_not_mem {cs : List Char} (h : '_' ∉ cs) : wellSpaced cs = true := by
  induction cs with
  | nil => rfl
  | cons c rest ih =>
    rw [List.mem_cons, not_or] at h
    cases rest with
    | nil =>
      unfold wellSpaced
      split <;> simp_all
    | cons d rest =>
      unfold wellSpaced
      split <;> simp_all

theorem takeSign_toString (n : Int) :
    takeSign (toString n).toList = (decide (n < 0), digits n.natAbs) := by
  rw [toList_toString]
  by_cases h : n < 0
  · rw [if_pos h, decide_eq_true h]
    rfl
  · rw [if_neg h, decide_eq_false h]
    -- a digit is no sign
    cases hd : digits n.natAbs with
    | nil => exact absurd hd (digits_ne_nil _)
    | cons c cs =>
      have hmem : c ∈ digits n.natAbs := by
        rw [hd]
        exact List.mem_cons_self
      have hc := isAsciiDigit_of_mem hmem
      unfold takeSign
      split
      · next heq =>
        rw [(List.cons.inj heq).1] at hc
        exact absurd hc (by decide)
      · next heq =>
        rw [(List.cons.inj heq).1] at hc
        exact absurd hc (by decide)
      · rfl

theorem readInteger_toString {n : Int} (h : IsShort n) : readInteger (toString n) = .ok n := by
  -- nothing is trimmed off, and nothing is replaced
  have hblank : ∀ c ∈ (toString n).toList, Text.isAsciiBlank c = false := by
    intro c hc
    have hrange := toNat_of_isIntegerChar (isIntegerChar_of_mem hc)
    unfold Text.isAsciiBlank
    rw [Bool.or_eq_false_iff, Bool.and_eq_false_iff, decide_eq_false_iff_not,
      decide_eq_false_iff_not, decide_eq_false_iff_not]
    refine ⟨?_, .inr (by omega)⟩
    rintro rfl
    exact absurd hrange.1 (by decide)
  have hascii : toAscii (toString n).toList = (toString n).toList :=
    toAscii_eq_self fun c hc => by
      have hrange := toNat_of_isIntegerChar (isIntegerChar_of_mem hc)
      omega
  -- all that follows the sign is digits, without underscores between them
  have hrun : ∀ c ∈ digits n.natAbs, (Text.isAsciiDigit c || c = '_') = true := fun c hc => by
    rw [isAsciiDigit_of_mem hc, Bool.true_or]
  have hcount : (digits n.natAbs).countP Text.isAsciiDigit = (digits n.natAbs).length :=
    List.countP_eq_length.2 fun c hc => isAsciiDigit_of_mem hc
  have hspaced : wellSpaced (digits n.natAbs) = true :=
    wellSpaced_of_not_mem Nat.underscore_not_in_toDigits
  have hpos : (digits n.natAbs).length ≠ 0 := fun hz =>
    digits_ne_nil _ (List.length_eq_zero_iff.1 hz)
  unfold readInteger
  rw [hascii, Text.trimBoth_eq_self hblank, takeSign_toString]
  dsimp only
  rw [List.takeWhile_eq_self_iff.2 hrun, List.dropWhile_eq_nil_iff.2 hrun, hcount, hspaced,
    decide_eq_false hpos]
  rw [if_neg (by decide), if_neg (Nat.not_lt.2 h), if_neg (by decide), ofDigits_digits, sign_natAbs]

end ReplicaCensus.Number
