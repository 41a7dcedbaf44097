import Mathlib
import ReplicaCensus.Text.Hex
/-!
# Hexadecimal text of bytes, read back

The digits that bytes are written with are ASCII digits and small letters, so nothing in them is
taken for a blank, a slash or a sign. Which texts are read, and for which bytes, is the same for
digits of either case.
-/

namespace ReplicaCensus.Hex

/-- A digit is an ASCII digit or a small letter up to `f`. -/
theorem toNat_digit {n : Nat} (h : n < 16) :
    48 ≤ (digit n).toNat ∧ (digit n).toNat ≤ 57 ∨ 97 ≤ (digit n).toNat ∧ (digit n).toNat ≤ 102 := by
  have hall : ∀ m : Fin 16, 48 ≤ (digit m.val).toNat ∧ (digit m.val).toNat ≤ 57 ∨
      97 ≤ (digit m.val).toNat ∧ (digit m.val).toNat ≤ 102 := by decide
  exact hall ⟨n, h⟩

theorem isAsciiBlank_digit {n : Nat} (h : n < 16) : Text.isAsciiBlank (digit n) = false := by
  have hall : ∀ m : Fin 16, Text.isAsciiBlank (digit m.val) = false := by decide
  exact hall ⟨n, h⟩

theorem byte_halves (b : UInt8) : b.toNat / 16 < 16 ∧ b.toNat % 16 < 16 ∧
    UInt8.ofNat (16 * (b.toNat / 16) + b.toNat % 16) = b := by
  have hb : b.toNat < 256 := b.toNat_lt
  refine ⟨by omega, by omega, ?_⟩
  rw [Nat.div_add_mod]
  exact UInt8.ofNat_toNat

theorem encodeChars_cons (b : UInt8) (rest : Bytes) :
    encodeChars (b :: rest) =
      digit (b.toNat / 16) :: digit (b.toNat % 16) :: encodeChars rest := rfl

theorem mem_encodeChars {bytes : Bytes} {c : Char} (h : c ∈ encodeChars bytes) :
    48 ≤ c.toNat ∧ c.toNat ≤ 57 ∨ 97 ≤ c.toNat ∧ c.toNat ≤ 102 := by
  obtain ⟨b, -, hc⟩ := List.mem_flatMap.1 h
  obtain ⟨hhigh, hlow, -⟩ := byte_halves b
  rw [List.mem_cons, List.mem_singleton] at hc
  rcases hc with rfl | rfl
  · exact toNat_digit hhigh
  · exact toNat_digit hlow

theorem encodeChars_ne_nil {bytes : Bytes} (h : bytes ≠ []) : encodeChars bytes ≠ [] := by
  cases bytes with
  | nil => exact absurd rfl h
  | cons b rest => exact List.cons_ne_nil _ _

theorem encodeChars_injective : Function.Injective encodeChars := by
  intro bytes bytes' h
  have hdecoded := decode?_encodeChars bytes
  rw [h, decode?_encodeChars, Option.some_inj] at hdecoded
  exact hdecoded.symm

theorem decodeSpaced?_encodeChars (bytes : Bytes) :
    decodeSpaced? (encodeChars bytes) = some bytes := by
  induction bytes with
  | nil => rfl
  | cons b rest ih =>
    obtain ⟨hhigh, hlow, hb⟩ := byte_halves b
    rw [encodeChars_cons, decodeSpaced?, isAsciiBlank_digit hhigh, if_neg Bool.false_ne_true,
      digitValue?_digit hhigh, digitValue?_digit hlow, ih]
    dsimp only
    rw [hb]

/-! ## Spellings with blanks -/

/-- The spellings of some bytes: two digits for each, in small letters or capitals, with blanks
around the pairs. -/
inductive Spells : Bytes → List Char → Prop where
  | nil : Spells [] []
  | blank {bytes : Bytes} {c : Char} {cs : List Char} (hc : Text.isAsciiBlank c = true)
    (hcs : Spells bytes cs) : Spells bytes (c :: cs)
  | byte {b : UInt8} {bytes : Bytes} {x y : Char} {cs : List Char}
    (hx : x.toLower = digit (b.toNat / 16)) (hy : y.toLower = digit (b.toNat % 16))
    (hcs : Spells bytes cs) : Spells (b :: bytes) (x :: y :: cs)

/-- What has the value of a digit is that digit or its capital. -/
theorem digitValue?_eq_some {c : Char} {n : Nat} (hn : n < 16) :
    digitValue? c = some n ↔ c.toLower = digit n := by
  have hascii : ∀ m : Fin 128, ∀ k : Fin 16, digitValue? (Char.ofNat m.val) = some k.val ↔
      (Char.ofNat m.val).toLower = digit k.val := by decide +kernel
  by_cases hc : c.toNat < 128
  · have h := hascii ⟨c.toNat, hc⟩ ⟨n, hn⟩
    rwa [Char.ofNat_toNat] at h
  · -- no other character is a digit, nor the capital of one
    have hnone : digitValue? c = none := by
      unfold digitValue?
      dsimp only
      rw [if_neg (by omega), if_neg (by omega), if_neg (by omega)]
    have hlower : c.toLower = c := by
      unfold Char.toLower
      rw [dif_neg]
      rintro ⟨-, hle⟩
      exact hc (Nat.lt_of_le_of_lt (show c.toNat ≤ 90 from hle) (by decide))
    rw [hnone, hlower]
    constructor
    · exact fun h => by cases h
    · rintro rfl
      have hrange := toNat_digit hn
      omega

theorem lt_of_digitValue? {c : Char} {n : Nat} (h : digitValue? c = some n) : n < 16 := by
  unfold digitValue? at h
  dsimp only at h
  split at h
  · cases h; omega
  split at h
  · cases h; omega
  split at h
  · cases h; omega
  · cases h

theorem isAsciiBlank_of_digitValue? {c : Char} {n : Nat} (h : digitValue? c = some n) :
    Text.isAsciiBlank c = false := by
  rw [Bool.eq_false_iff]
  intro hblank
  rw [Text.isAsciiBlank, Bool.or_eq_true, decide_eq_true_eq, Bool.and_eq_true, decide_eq_true_eq,
    decide_eq_true_eq] at hblank
  have hsmall : c.toNat ≤ 32 := by
    rcases hblank with rfl | ⟨-, hle⟩
    · decide
    · omega
  unfold digitValue? at h
  dsimp only at h
  rw [if_neg (by omega), if_neg (by omega), if_neg (by omega)] at h
  cases h

/-- Two digits are the halves of the byte that they stand for. -/
theorem toLower_of_digitValue? {a b : Char} {x y : Nat} (hx : digitValue? a = some x)
    (hy : digitValue? b = some y) :
    a.toLower = digit ((UInt8.ofNat (16 * x + y)).toNat / 16) ∧
      b.toLower = digit ((UInt8.ofNat (16 * x + y)).toNat % 16) := by
  have hx' := lt_of_digitValue? hx
  have hy' := lt_of_digitValue? hy
  have hbyte : (UInt8.ofNat (16 * x + y)).toNat = 16 * x + y := by
    rw [UInt8.toNat_ofNat']
    omega
  rw [hbyte, show (16 * x + y) / 16 = x by omega, show (16 * x + y) % 16 = y by omega]
  exact ⟨(digitValue?_eq_some hx').1 hx, (digitValue?_eq_some hy').1 hy⟩

/-- The decoder takes a text for some bytes just if it spells them. -/
theorem decodeSpaced?_eq_some {bytes : Bytes} {cs : List Char} :
    decodeSpaced? cs = some bytes ↔ Spells bytes cs := by
  constructor
  · intro h
    fun_induction decodeSpaced? cs generalizing bytes with
    | case1 =>
      cases h
      exact .nil
    | case2 a rest hblank ih => exact .blank hblank (ih h)
    | case3 => cases h
    | case4 a hblank b rest x y more hmore hy hx ih =>
      cases h
      obtain ⟨ha, hb⟩ := toLower_of_digitValue? hx hy
      exact .byte ha hb (ih hmore)
    | case5 => cases h
  · intro h
    induction h with
    | nil => rfl
    | blank hc _ ih =>
      unfold decodeSpaced?
      rw [if_pos hc, ih]
    | @byte b bytes x y cs hx hy _ ih =>
      obtain ⟨hhigh, hlow, hb⟩ := byte_halves b
      rw [← digitValue?_eq_some hhigh] at hx
      rw [← digitValue?_eq_some hlow] at hy
      rw [decodeSpaced?, isAsciiBlank_of_digitValue? hx, if_neg Bool.false_ne_true, hx, hy, ih]
      dsimp only
      rw [hb]

/-! ## Spellings without blanks -/

/-- The decoder takes a text for some bytes just if, in small letters, it is their text. -/
theorem decode?_eq_some {cs : List Char} {bytes : Bytes} :
    decode? cs = some bytes ↔ cs.map Char.toLower = encodeChars bytes := by
  constructor
  · intro h
    fun_induction decode? cs generalizing bytes with
    | case1 =>
      cases h
      rfl
    | case2 => cases h
    | case3 a b rest x y more hmore hy hx ih =>
      cases h
      obtain ⟨ha, hb⟩ := toLower_of_digitValue? hx hy
      rw [List.map_cons, List.map_cons, ih hmore, ha, hb, encodeChars_cons]
    | case4 => cases h
  · intro h
    induction bytes generalizing cs with
    | nil =>
      rw [List.map_eq_nil_iff.1 h]
      rfl
    | cons b rest ih =>
      rw [encodeChars_cons, List.map_eq_cons_iff] at h
      obtain ⟨x, _, rfl, hx, h⟩ := h
      obtain ⟨y, tail, rfl, hy, h⟩ := List.map_eq_cons_iff.1 h
      obtain ⟨hhigh, hlow, hb⟩ := byte_halves b
      rw [decode?, (digitValue?_eq_some hhigh).2 hx, (digitValue?_eq_some hlow).2 hy, ih h]
      dsimp only
      rw [hb]

/-- The digits of either case. -/
def allDigits : List Char := "0123456789abcdefABCDEF".toList

theorem exists_digitValue? {c : Char} : (∃ n, digitValue? c = some n) ↔ c ∈ allDigits := by
  have hascii : ∀ m : Fin 128, (digitValue? (Char.ofNat m.val)).isSome = true ↔
      Char.ofNat m.val ∈ allDigits := by decide +kernel
  have hlow : (allDigits.all fun d => d.toNat < 128) = true := by decide
  rw [← Option.isSome_iff_exists]
  by_cases hc : c.toNat < 128
  · have h := hascii ⟨c.toNat, hc⟩
    rwa [Char.ofNat_toNat] at h
  · refine iff_of_false ?_ fun hmem => hc (of_decide_eq_true (List.all_eq_true.1 hlow c hmem))
    unfold digitValue?
    dsimp only
    rw [if_neg (by omega), if_neg (by omega), if_neg (by omega)]
    decide

/-- A text can be decoded if it is an even number of digits. -/
theorem exists_decode? {cs : List Char} :
    (∃ bytes, decode? cs = some bytes) ↔ Even cs.length ∧ ∀ c ∈ cs, c ∈ allDigits := by
  fun_induction decode? cs with
  | case1 => simp
  | case2 => simp
  | case3 a b rest x y more hmore hy hx ih =>
    have hrest := ih.1 ⟨_, hmore⟩
    refine iff_of_true ⟨_, rfl⟩ ⟨?_, ?_⟩
    · simpa [Nat.even_add] using hrest.1
    · exact List.forall_mem_cons.2 ⟨exists_digitValue?.1 ⟨x, hx⟩,
        List.forall_mem_cons.2 ⟨exists_digitValue?.1 ⟨y, hy⟩, hrest.2⟩⟩
  | case4 a b rest hnone ih =>
    refine iff_of_false (by simp) ?_
    rintro ⟨heven, hall⟩
    obtain ⟨ha, hall⟩ := List.forall_mem_cons.1 hall
    obtain ⟨hb, hall⟩ := List.forall_mem_cons.1 hall
    obtain ⟨x, hx⟩ := exists_digitValue?.2 ha
    obtain ⟨y, hy⟩ := exists_digitValue?.2 hb
    obtain ⟨more, hmore⟩ := ih.2 ⟨by simpa [Nat.even_add_one] using heven, hall⟩
    exact hnone x y more hx hy hmore

end ReplicaCensus.Hex
