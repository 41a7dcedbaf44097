import Mathlib
import ReplicaCensus.Json.Printer
import ReplicaCensus.Json.Reader
import ReplicaCensus.Proofs.Number.Digits
import ReplicaCensus.Proofs.Text.Hex
/-!
# Strings and integers of JSON, written and read

A string is read back whether or not it was written in ASCII alone. An integer is read back if what
follows it cannot be taken for more of a number.
-/

namespace ReplicaCensus.Json

/-! ## 1. Units of four hexadecimal digits -/

theorem unit?_padded {n : Nat} (h : n < 0x10000) : unit? (Hex.padded 4 n) = some n := by
  have hd : ∀ m : Nat, Hex.digitValue? (Hex.digit (m % 16)) = some (m % 16) := fun m =>
    Hex.digitValue?_digit (Nat.mod_lt m (by decide))
  show unit? [Hex.digit (n / 16 / 16 / 16 % 16), Hex.digit (n / 16 / 16 % 16),
    Hex.digit (n / 16 % 16), Hex.digit (n % 16)] = _
  rw [unit?, hd, hd, hd, hd]
  show some (((n / 16 / 16 / 16 % 16 * 16 + n / 16 / 16 % 16) * 16 + n / 16 % 16) * 16 + n % 16) = _
  congr 1
  omega

theorem length_padded (width n : Nat) : (Hex.padded width n).length = width := by
  induction width generalizing n with
  | zero => rfl
  | succ width ih => rw [Hex.padded, List.length_append, ih, List.length_singleton]

theorem not_surrogate (c : Char) : ¬(0xD800 ≤ c.toNat ∧ c.toNat < 0xE000) := by
  rcases c.valid with hv | hv
  · exact fun h => absurd hv (Nat.not_lt.2 h.1)
  · have hlow : 0xDFFF < c.toNat := hv.1
    omega

theorem toNat_lt (c : Char) : c.toNat < 0x110000 := by
  rcases c.valid with hv | hv
  · exact Nat.lt_trans hv (by decide)
  · exact hv.2

/-- A unit that is a character by itself. -/
theorem unicodeEscape_single {c : Char} (h : c.toNat < 0x10000) {tail : List Char}
    (ht : tail ≠ []) : unicodeEscape (Hex.padded 4 c.toNat ++ tail) = .ok (c, 4) := by
  have hlen := length_padded 4 c.toNat
  have hpos := List.length_pos_iff.2 ht
  have hsurrogate := not_surrogate c
  unfold unicodeEscape
  -- no character is half of a pair, so the second unit is not looked at
  rw [if_neg (by rw [List.length_append]; omega), List.take_left' hlen, unit?_padded h]
  dsimp only
  rw [if_neg (by omega), ofUnit, if_neg hsurrogate, Char.ofNat_toNat]

theorem unicodeEscape_joined {high low : Nat} (hh : 0xD800 ≤ high) (hh' : high < 0xDC00)
    (hl : 0xDC00 ≤ low) (hl' : low < 0xE000) {tail : List Char} (ht : tail ≠ []) :
    unicodeEscape (Hex.padded 4 high ++ (unitEscape low ++ tail)) =
      .ok (Char.ofNat (0x10000 + (high - 0xD800) * 1024 + (low - 0xDC00)), 10) := by
  have hpos := List.length_pos_iff.2 ht
  have hlen : (unitEscape low ++ tail).length = 6 + tail.length := by
    rw [List.length_append, unitEscape, List.length_cons, List.length_cons, length_padded]
  -- the second unit follows a backslash and a `u` of its own
  have hdrop : (unitEscape low ++ tail).drop 2 = Hex.padded 4 low ++ tail := rfl
  have htake : (unitEscape low ++ tail).take 2 = ['\\', 'u'] := rfl
  unfold unicodeEscape
  rw [if_neg (by rw [List.length_append, length_padded, hlen]; omega),
    List.take_left' (length_padded 4 high), List.drop_left' (length_padded 4 high),
    unit?_padded (by omega)]
  dsimp only
  rw [if_pos ⟨hh, hh', by omega, htake⟩, hdrop, List.take_left' (length_padded 4 low),
    unit?_padded (by omega)]
  dsimp only
  rw [if_pos ⟨hl, hl'⟩]

/-- A pair of units that is one character. -/
theorem unicodeEscape_pair {c : Char} (h : 0x10000 ≤ c.toNat) {tail : List Char} (ht : tail ≠ []) :
    unicodeEscape (Hex.padded 4 (0xD800 + (c.toNat - 0x10000) / 1024) ++
      (unitEscape (0xDC00 + (c.toNat - 0x10000) % 1024) ++ tail)) = .ok (c, 10) := by
  have hmax := toNat_lt c
  -- ten bits stand in each unit
  rw [unicodeEscape_joined (by omega) (by omega) (by omega) (by omega) ht,
    Nat.add_sub_cancel_left, Nat.add_sub_cancel_left, Nat.mul_comm, Nat.add_assoc,
    Nat.div_add_mod, Nat.add_sub_cancel' h, Char.ofNat_toNat]

/-! ## 2. Strings -/

theorem stringBody_short (opened : Nat) {e c : Char} (h : shortEscape? e = some c) (hu : e ≠ 'u')
    (tail : List Char) :
    stringBody opened ('\\' :: e :: tail) = push c (stringBody opened tail) := by
  rw [stringBody.eq_def]
  dsimp only
  rw [if_neg (by decide), if_pos rfl, if_neg hu, h]

theorem stringBody_unicode (opened : Nat) {c : Char} {used : Nat} {tail : List Char}
    (h : unicodeEscape tail = .ok (c, used)) :
    stringBody opened ('\\' :: 'u' :: tail) = push c (stringBody opened (tail.drop used)) := by
  rw [stringBody.eq_def]
  dsimp only
  rw [if_neg (by decide), if_pos rfl, if_pos rfl, h]

theorem stringBody_plain (opened : Nat) {c : Char} (hquote : c ≠ '"') (hslash : c ≠ '\\')
    (hc : ¬c.toNat < 32) (tail : List Char) :
    stringBody opened (c :: tail) = push c (stringBody opened tail) := by
  rw [stringBody.eq_def]
  dsimp only
  rw [if_neg hquote, if_neg hslash, if_neg hc]

theorem stringBody_escapeChar (asciiOnly : Bool) (opened : Nat) (c : Char) {tail : List Char}
    (ht : tail ≠ []) :
    stringBody opened (escapeChar asciiOnly c ++ tail) = push c (stringBody opened tail) := by
  -- one case for each way in which a character is written
  unfold escapeChar
  dsimp only
  split
  · next h =>
    rw [Bool.or_eq_true, decide_eq_true_eq, decide_eq_true_eq] at h
    rcases h with rfl | rfl
    · exact stringBody_short opened (by decide) (by decide) tail
    · exact stringBody_short opened (by decide) (by decide) tail
  next hplain =>
  rw [Bool.or_eq_true, decide_eq_true_eq, decide_eq_true_eq, not_or] at hplain
  split
  · next h => exact h ▸ stringBody_short opened (by decide) (by decide) tail
  split
  · next h => exact h ▸ stringBody_short opened (by decide) (by decide) tail
  split
  · next h => exact h ▸ stringBody_short opened (by decide) (by decide) tail
  split
  · next h =>
    have hc : c = Char.ofNat 12 := by rw [← h, Char.ofNat_toNat]
    exact hc ▸ stringBody_short opened (by decide) (by decide) tail
  split
  · next h =>
    have hc : c = Char.ofNat 8 := by rw [← h, Char.ofNat_toNat]
    exact hc ▸ stringBody_short opened (by decide) (by decide) tail
  split
  · next h =>
    rw [unitEscape, List.cons_append, List.cons_append,
      stringBody_unicode opened (unicodeEscape_single (by omega) ht),
      List.drop_left' (length_padded 4 c.toNat)]
  next hcontrol =>
  split
  · exact stringBody_plain opened hplain.1 hplain.2 hcontrol tail
  split
  · next h =>
    rw [unitEscape, List.cons_append, List.cons_append,
      stringBody_unicode opened (unicodeEscape_single h ht),
      List.drop_left' (length_padded 4 c.toNat)]
  · next h =>
    have hlen : (Hex.padded 4 (0xD800 + (c.toNat - 0x10000) / 1024) ++
        unitEscape (0xDC00 + (c.toNat - 0x10000) % 1024)).length = 10 := by
      rw [List.length_append, length_padded, unitEscape, List.length_cons, List.length_cons,
        length_padded]
    rw [unitEscape, List.append_assoc, List.cons_append, List.cons_append,
      stringBody_unicode opened (unicodeEscape_pair (by omega) ht), ← List.append_assoc,
      List.drop_left' hlen]

theorem stringBody_flatMap (asciiOnly : Bool) (opened : Nat) (cs rest : List Char) :
    stringBody opened (cs.flatMap (escapeChar asciiOnly) ++ '"' :: rest) = .ok (cs, rest) := by
  induction cs with
  | nil =>
    rw [List.flatMap_nil, List.nil_append, stringBody.eq_def]
    dsimp only
    rw [if_pos rfl]
  | cons c cs ih =>
    have hne : cs.flatMap (escapeChar asciiOnly) ++ '"' :: rest ≠ [] := by simp
    rw [List.flatMap_cons, List.append_assoc, stringBody_escapeChar asciiOnly opened c hne, ih]
    rfl

/-! ## 3. Integers -/

/-- Whether a text cannot go on with a number that stands before it. -/
def endsNumber : List Char → Bool
  | [] => true
  | c :: _ => !(Text.isAsciiDigit c || c = '.' || c = 'e' || c = 'E')

theorem takeWhile_digits {ds rest : List Char} (hds : ∀ c ∈ ds, Text.isAsciiDigit c = true)
    (h : endsNumber rest = true) :
    (ds ++ rest).takeWhile Text.isAsciiDigit = ds ∧
      (ds ++ rest).dropWhile Text.isAsciiDigit = rest := by
  -- what follows does not begin with a digit
  have hrest : rest.takeWhile Text.isAsciiDigit = [] ∧
      rest.dropWhile Text.isAsciiDigit = rest := by
    cases rest with
    | nil => exact ⟨rfl, rfl⟩
    | cons c cs =>
      unfold endsNumber at h
      have hc : Text.isAsciiDigit c = false := by
        cases hd : Text.isAsciiDigit c with
        | false => rfl
        | true => simp [hd] at h
      rw [List.takeWhile_cons, List.dropWhile_cons, hc]
      exact ⟨rfl, rfl⟩
  rw [List.takeWhile_append_of_pos hds, List.dropWhile_append_of_pos hds, hrest.1, hrest.2,
    List.append_nil]
  exact ⟨rfl, rfl⟩

theorem integerPart_digits (n : Nat) {rest : List Char} (h : endsNumber rest = true) :
    integerPart (Number.digits n ++ rest) = (Number.digits n, rest) := by
  have hds : ∀ c ∈ Number.digits n, Text.isAsciiDigit c = true :=
    fun c hc => Number.isAsciiDigit_of_mem hc
  obtain ⟨htake, hdrop⟩ := takeWhile_digits hds h
  -- a leading zero would be a number by itself, and only zero begins with one
  rcases Nat.eq_zero_or_pos n with rfl | hn
  · rfl
  · have hhead := Number.head?_digits hn
    cases hd : Number.digits n with
    | nil => exact absurd hd (Number.digits_ne_nil n)
    | cons c cs =>
      rw [hd] at hhead htake hdrop
      have hne : c ≠ '0' := fun he => hhead (congrArg some he)
      rw [List.cons_append] at htake hdrop ⊢
      rw [integerPart, if_neg hne, htake, hdrop]

theorem fractionPart_of_endsNumber {rest : List Char} (h : endsNumber rest = true) :
    fractionPart rest = ([], rest) := by
  unfold fractionPart
  split
  · cases h
  · rfl

theorem exponentPart_of_endsNumber {rest : List Char} (h : endsNumber rest = true) :
    exponentPart rest = none := by
  cases rest with
  | nil => rfl
  | cons c cs =>
    unfold endsNumber at h
    have hc : ¬(c = 'e' || c = 'E') = true := by
      intro he
      rw [Bool.or_eq_true, decide_eq_true_eq, decide_eq_true_eq] at he
      rcases he with rfl | rfl <;> cases h
    rw [exponentPart, if_neg hc]

theorem unsigned_digits (negative : Bool) {n : Nat} (hn : (Number.digits n).length ≤ maxDigits)
    {rest : List Char} (h : endsNumber rest = true) :
    unsigned negative (Number.digits n ++ rest) =
      some (.ok (int (if negative then -(n : Int) else n)), rest) := by
  unfold unsigned
  rw [integerPart_digits n h]
  cases hd : Number.digits n with
  | nil => exact absurd hd (Number.digits_ne_nil n)
  | cons c cs =>
    dsimp only
    rw [fractionPart_of_endsNumber h, exponentPart_of_endsNumber h]
    dsimp only
    rw [← hd, if_neg (Nat.not_lt.2 hn), Number.ofDigits_digits]

theorem constant?_digit {c : Char} (h : Text.isAsciiDigit c = true) (rest : List Char) :
    constant? (c :: rest) = none := by
  have hne : c ≠ 'n' ∧ c ≠ 't' ∧ c ≠ 'f' ∧ c ≠ 'N' ∧ c ≠ 'I' ∧ c ≠ '-' := by
    refine ⟨?_, ?_, ?_, ?_, ?_, ?_⟩ <;> (rintro rfl; cases h)
  simp [constant?, constants, after?, hne.1.symm, hne.2.1.symm, hne.2.2.1.symm,
    hne.2.2.2.1.symm, hne.2.2.2.2.1.symm, hne.2.2.2.2.2.symm]

theorem constant?_minus_digit {c : Char} (h : Text.isAsciiDigit c = true) (rest : List Char) :
    constant? ('-' :: c :: rest) = none := by
  have hc : c ≠ 'I' := by
    rintro rfl
    cases h
  simp [constant?, constants, after?, Ne.symm hc]

theorem scalar_of_minus {cs rest : List Char} {v : Json} (hc : constant? ('-' :: cs) = none)
    (hu : unsigned true cs = some (.ok v, rest)) : scalar ('-' :: cs) = .ok (v, rest) := by
  unfold scalar
  rw [hc]
  dsimp only
  -- behind the minus sign there is a number, and nothing else
  split
  · next value rest' heq =>
    have heq' : unsigned true cs = some (.ok value, rest') := heq
    rw [hu] at heq'
    cases heq'
    rfl
  · next stop rest' heq =>
    have heq' : unsigned true cs = some (.error stop, rest') := heq
    rw [hu] at heq'
    cases heq'
  · next heq =>
    have heq' : unsigned true cs = none := heq
    rw [hu] at heq'
    cases heq'

theorem scalar_of_ne_minus {c : Char} {cs rest : List Char} {v : Json}
    (hc : constant? (c :: cs) = none) (hne : c ≠ '-')
    (hu : unsigned false (c :: cs) = some (.ok v, rest)) :
    scalar (c :: cs) = .ok (v, rest) := by
  unfold scalar
  rw [hc]
  dsimp only
  split
  · next value rest' heq =>
    split at heq
    · next hminus => exact absurd (List.cons.inj hminus).1 hne
    · rw [hu] at heq
      cases heq
      rfl
  · next stop rest' heq =>
    split at heq
    · next hminus => exact absurd (List.cons.inj hminus).1 hne
    · rw [hu] at heq
      cases heq
  · next heq =>
    split at heq
    · next hminus => exact absurd (List.cons.inj hminus).1 hne
    · rw [hu] at heq
      cases heq

theorem scalar_toString {n : Int} (hn : Number.IsShort n) {rest : List Char}
    (h : endsNumber rest = true) : scalar ((toString n).toList ++ rest) = .ok (int n, rest) := by
  obtain ⟨c, cs, hd⟩ := List.exists_cons_of_ne_nil (Number.digits_ne_nil n.natAbs)
  have hc : Text.isAsciiDigit c = true := Number.isAsciiDigit_of_mem (hd ▸ List.mem_cons_self)
  rw [Number.toList_toString]
  -- a minus sign could also begin `-Infinity`
  by_cases hneg : n < 0
  · have hread := unsigned_digits true hn h
    rw [if_pos rfl, show -(n.natAbs : Int) = n by omega] at hread
    have hconstant := constant?_minus_digit hc (cs ++ rest)
    rw [if_pos hneg, List.cons_append]
    refine scalar_of_minus ?_ hread
    rw [hd, List.cons_append]
    exact hconstant
  · have hread := unsigned_digits false hn h
    rw [if_neg Bool.false_ne_true, show (n.natAbs : Int) = n by omega, hd,
      List.cons_append] at hread
    have hne : c ≠ '-' := by
      rintro rfl
      cases hc
    rw [if_neg hneg, hd, List.cons_append]
    exact scalar_of_ne_minus (constant?_digit hc _) hne hread

end ReplicaCensus.Json
