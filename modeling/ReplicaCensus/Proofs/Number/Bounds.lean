import Mathlib
import ReplicaCensus.Number.Double
import ReplicaCensus.Proofs.Number.Digits
/-!
# How large the numbers are that are read

A run of digits stands for a number of no more digits, and a double that was read from a decimal
fraction has at most a few hundred digits before its point.
-/

namespace ReplicaCensus

/-! ## 1. Runs of digits -/

namespace Number

theorem foldl_digits_lt (cs : List Char) (n : Nat) :
    cs.foldl (fun n c => if Text.isAsciiDigit c then 10 * n + (c.toNat - 48) else n) n <
      (n + 1) * 10 ^ cs.countP Text.isAsciiDigit := by
  induction cs generalizing n with
  | nil =>
    show n < (n + 1) * 10 ^ 0
    omega
  | cons c rest ih =>
    rw [List.foldl_cons, List.countP_cons]
    by_cases hc : Text.isAsciiDigit c = true
    · have hdigit := hc
      unfold Text.isAsciiDigit at hdigit
      simp only [Bool.and_eq_true, decide_eq_true_eq] at hdigit
      rw [if_pos hc, if_pos hc, pow_succ]
      calc _ < (10 * n + (c.toNat - 48) + 1) * 10 ^ rest.countP Text.isAsciiDigit := ih _
        _ ≤ (n + 1) * 10 * 10 ^ rest.countP Text.isAsciiDigit :=
          Nat.mul_le_mul_right _ (by omega)
        _ = (n + 1) * (10 ^ rest.countP Text.isAsciiDigit * 10) := by ring
    · rw [if_neg hc, if_neg hc]
      exact ih n

theorem ofDigits_lt (cs : List Char) : ofDigits cs < 10 ^ cs.countP Text.isAsciiDigit := by
  have h := foldl_digits_lt cs 0
  rw [Nat.zero_add, Nat.one_mul] at h
  exact h

theorem lt_pow_length_digits (n : Nat) : n < 10 ^ (digits n).length := by
  have h := ofDigits_lt (digits n)
  rw [ofDigits_digits, List.countP_eq_length.2 fun c hc => isAsciiDigit_of_mem hc] at h
  exact h

theorem isShort_of_lt {n : Int} {k : Nat} (h : n.natAbs < 10 ^ k) (hk : k ≤ maxDigits) :
    IsShort n := by
  have hpow : n.natAbs < 10 ^ maxDigits :=
    h.trans_le (Nat.pow_le_pow_right (by decide) hk)
  exact Nat.toDigits_length 10 _ _ (by decide) hpow

theorem natAbs_signed (negative : Bool) (n : Nat) :
    (if negative = true then -(n : Int) else (n : Int)).natAbs = n := by
  cases negative
  · rfl
  · exact Int.natAbs_neg n

theorem isShort_ofDigits {cs : List Char} (h : cs.countP Text.isAsciiDigit ≤ maxDigits)
    (negative : Bool) :
    IsShort (if negative = true then -(ofDigits cs : Int) else (ofDigits cs : Int)) := by
  refine isShort_of_lt ?_ h
  rw [natAbs_signed]
  exact ofDigits_lt cs

/-- An integer that is read from a text can be written again. -/
theorem isShort_of_readInteger {text : String} {n : Int} (h : readInteger text = .ok n) :
    IsShort n := by
  unfold readInteger at h
  dsimp only at h
  split at h
  · cases h
  split at h
  · cases h
  next hcount =>
  split at h
  · cases h
  · cases h
    exact isShort_ofDigits (Nat.not_lt.1 hcount) _

end Number

/-! ## 2. Doubles -/

namespace Double

theorem truncated_of_nonneg {m : Nat} {e : Int} (h : 0 ≤ e) : truncated m e = m * 2 ^ e.toNat := by
  unfold truncated scaled
  rw [if_pos h]
  exact Nat.div_one _

theorem truncated_of_neg {m : Nat} {e : Int} (h : e < 0) :
    truncated m e = m / 2 ^ (-e).toNat := by
  unfold truncated scaled
  rw [if_neg (Int.not_le.2 h)]
  show m / (1 * 2 ^ (-e).toNat) = _
  rw [Nat.one_mul]

theorem divEven_le (n d : Nat) : divEven n d ≤ n / d + 1 := by
  unfold divEven
  dsimp only
  split
  · omega
  · split <;> omega

/-- A fraction that is rounded to a multiple of `2 ^ e` grows by no more than that, or by one. -/
theorem truncated_divEven_le (num den : Nat) {e : Int} (he : e ≤ 971) :
    truncated (divEven (scaled num den (-e)).1 (scaled num den (-e)).2) e ≤
      num / den + 2 ^ 971 := by
  have hpow : 2 ^ e.toNat ≤ 2 ^ 971 := Nat.pow_le_pow_right (by decide) (by omega)
  by_cases hpos : 0 < e
  · have hscaled : scaled num den (-e) = (num, den * 2 ^ e.toNat) := by
      unfold scaled
      rw [if_neg (by omega), Int.neg_neg]
      rfl
    rw [hscaled, truncated_of_nonneg (by omega)]
    have hfloor := Nat.div_mul_le_self (num / den) (2 ^ e.toNat)
    calc divEven num (den * 2 ^ e.toNat) * 2 ^ e.toNat
        ≤ (num / (den * 2 ^ e.toNat) + 1) * 2 ^ e.toNat :=
          Nat.mul_le_mul_right _ (divEven_le _ _)
      _ = num / den / 2 ^ e.toNat * 2 ^ e.toNat + 2 ^ e.toNat := by
          rw [Nat.add_mul, Nat.one_mul, Nat.div_div_eq_div_mul]
      _ ≤ num / den + 2 ^ 971 := Nat.add_le_add hfloor hpow
  · have hscaled : scaled num den (-e) = (num * 2 ^ (-e).toNat, den) := by
      unfold scaled
      rw [if_pos (by omega)]
      rfl
    have hround := divEven_le (num * 2 ^ (-e).toNat) den
    have hfloor : num * 2 ^ (-e).toNat / den / 2 ^ (-e).toNat = num / den := by
      rw [Nat.div_div_eq_div_mul, Nat.mul_div_mul_right _ _ (Nat.two_pow_pos _)]
    have hone : 1 ≤ 2 ^ 971 := Nat.one_le_two_pow
    have htruncated : ∀ m, truncated m e = m / 2 ^ (-e).toNat := by
      intro m
      by_cases hzero : e = 0
      · rw [hzero, truncated_of_nonneg (le_refl 0)]
        exact (Nat.mul_one m).trans (Nat.div_one m).symm
      · exact truncated_of_neg (by omega)
    rw [hscaled, htruncated]
    calc divEven (num * 2 ^ (-e).toNat) den / 2 ^ (-e).toNat
        ≤ (num * 2 ^ (-e).toNat / den + 2 ^ (-e).toNat) / 2 ^ (-e).toNat :=
          Nat.div_le_div_right (hround.trans (Nat.add_le_add_left Nat.one_le_two_pow _))
      _ = num / den + 1 := by rw [Nat.add_div_right _ (Nat.two_pow_pos _), hfloor]
      _ ≤ num / den + 2 ^ 971 := Nat.add_le_add_left hone _

/-- A mantissa that is halved for a greater exponent makes no greater number. -/
theorem truncated_half_le (m : Nat) (e : Int) : truncated (m / 2) (e + 1) ≤ truncated m e := by
  by_cases h : 0 ≤ e
  · rw [truncated_of_nonneg h, truncated_of_nonneg (show 0 ≤ e + 1 by omega),
      show (e + 1).toNat = e.toNat + 1 by omega, pow_succ']
    calc m / 2 * (2 * 2 ^ e.toNat) = m / 2 * 2 * 2 ^ e.toNat := (Nat.mul_assoc _ _ _).symm
      _ ≤ m * 2 ^ e.toNat := Nat.mul_le_mul_right _ (Nat.div_mul_le_self m 2)
  · rw [truncated_of_neg (show e < 0 by omega)]
    by_cases hlast : e = -1
    · rw [hlast]
      exact (Nat.div_one _).trans_le (Nat.mul_one _).le
    · rw [truncated_of_neg (show e + 1 < 0 by omega), Nat.div_div_eq_div_mul, ← pow_succ',
        show (-(e + 1)).toNat + 1 = (-e).toNat by omega]

theorem truncated_ofFraction_le {negative sign : Bool} {num den m : Nat} {e : Int}
    (h : ofFraction negative num den = .finite sign m e) :
    truncated m e ≤ num / den + 2 ^ 971 := by
  unfold ofFraction at h
  split at h
  · cases h
    rw [truncated_of_neg (by decide), Nat.zero_div]
    exact Nat.zero_le _
  · dsimp only at h
    generalize max (floorLog2 num den - 52) (-1074) = e' at h
    -- with the carry the exponent is one more, and the mantissa half
    split at h
    · split at h
      · cases h
      · next hlow =>
        cases h
        dsimp only at hlow
        exact (truncated_half_le _ e').trans (truncated_divEven_le num den (by omega))
    · split at h
      · cases h
      · next hlow =>
        cases h
        dsimp only at hlow
        exact truncated_divEven_le num den (by omega)

/-- A decimal fraction that gives a finite double is below `10 ^ 400`. -/
theorem truncated_ofDecimal_lt {negative sign : Bool} {digits m : Nat} {exponent e : Int}
    (h : ofDecimal negative digits exponent = .finite sign m e) : truncated m e < 10 ^ 401 := by
  have hzero : truncated 0 (-1074) < 10 ^ 401 := by
    rw [truncated_of_neg (by decide), Nat.zero_div]
    exact Nat.pow_pos (by decide)
  have hlength := Number.lt_pow_length_digits digits
  unfold Number.digits at hlength
  -- rounding adds less than the bound itself
  have hsmall : 2 ^ 971 ≤ 10 ^ 400 :=
    calc (2 : Nat) ^ 971 ≤ 2 ^ (3 * 400) := Nat.pow_le_pow_right (by decide) (by decide)
      _ = (2 ^ 3) ^ 400 := pow_mul 2 3 400
      _ ≤ 10 ^ 400 := Nat.pow_le_pow_left (by decide) 400
  have hten : 10 ^ 401 = 10 * 10 ^ 400 := pow_succ' 10 400
  have hbound : ∀ num den, num / den < 10 ^ 400 →
      ofFraction negative num den = .finite sign m e → truncated m e < 10 ^ 401 := by
    intro num den hfraction hread
    have hle := truncated_ofFraction_le hread
    omega
  unfold ofDecimal at h
  dsimp only at h
  split at h
  · cases h
    exact hzero
  split at h
  · cases h
  next hshort =>
  split at h
  · cases h
    exact hzero
  split at h
  · refine hbound _ _ ?_ h
    rw [Nat.div_one]
    calc digits * 10 ^ exponent.toNat
        < 10 ^ (Nat.toDigits 10 digits).length * 10 ^ exponent.toNat :=
          Nat.mul_lt_mul_of_pos_right hlength (Nat.pow_pos (by decide))
      _ = 10 ^ ((Nat.toDigits 10 digits).length + exponent.toNat) := (pow_add _ _ _).symm
      _ ≤ 10 ^ 400 := Nat.pow_le_pow_right (by decide) (by omega)
  · refine hbound _ _ ?_ h
    refine (Nat.div_lt_iff_lt_mul (Nat.pow_pos (by decide))).2 ?_
    calc digits < 10 ^ (Nat.toDigits 10 digits).length := hlength
      _ ≤ 10 ^ (400 + (-exponent).toNat) := Nat.pow_le_pow_right (by decide) (by omega)
      _ = 10 ^ 400 * 10 ^ (-exponent).toNat := pow_add _ _ _

/-- A double that is read can be written without its fraction. -/
theorem isShort_of_ofDecimal {negative : Bool} {digits : Nat} {exponent n : Int}
    (h : (ofDecimal negative digits exponent).truncate? = some n) : Number.IsShort n := by
  cases hread : ofDecimal negative digits exponent with
  | nan => rw [hread] at h; cases h
  | infinite sign => rw [hread] at h; cases h
  | finite sign m e =>
    rw [hread] at h
    cases h
    refine Number.isShort_of_lt ?_ (by decide : 401 ≤ maxDigits)
    rw [Number.natAbs_signed]
    exact truncated_ofDecimal_lt hread

end Double

end ReplicaCensus
