import Mathlib
import ReplicaCensus.Proofs.Text.Hex
import ReplicaCensus.Proofs.Text.Utf8
import ReplicaCensus.Text.Percent
/-!
# Quoted text in a URL path, read back

Resolving the percent signs of a path gives back the text that was quoted into it, and what was not
quoted, as long as that has no percent sign of its own.
-/

namespace ReplicaCensus.Percent

/-! ## 1. Resolving percent signs -/

theorem digitValue?_upperDigit {n : Nat} (h : n < 16) :
    Hex.digitValue? (upperDigit n) = some n := by
  have hall : ∀ m : Fin 16, Hex.digitValue? (upperDigit m.val) = some m.val := by decide
  exact hall ⟨n, h⟩

theorem unquoteBytes_quoteByte (b : UInt8) (rest : List Char) :
    unquoteBytes (quoteByte b ++ rest) = b :: unquoteBytes rest := by
  obtain ⟨hhigh, hlow, hb⟩ := Hex.byte_halves b
  show unquoteBytes ('%' :: upperDigit (b.toNat / 16) :: upperDigit (b.toNat % 16) :: rest) = _
  rw [unquoteBytes, digitValue?_upperDigit hhigh, digitValue?_upperDigit hlow]
  dsimp only
  rw [hb]

theorem unquoteBytes_flatMap_quoteByte (bytes : Bytes) (rest : List Char) :
    unquoteBytes (bytes.flatMap quoteByte ++ rest) = bytes ++ unquoteBytes rest := by
  induction bytes with
  | nil => rfl
  | cons b bytes ih =>
    rw [List.flatMap_cons, List.append_assoc, unquoteBytes_quoteByte, ih, List.cons_append]

theorem unquoteBytes_cons {c : Char} (h : c ≠ '%') (rest : List Char) :
    unquoteBytes (c :: rest) = String.utf8EncodeChar c ++ unquoteBytes rest := by
  rw [unquoteBytes]
  intro a b tail he
  exact absurd he h

theorem unquoteBytes_append {cs : List Char} (h : '%' ∉ cs) (rest : List Char) :
    unquoteBytes (cs ++ rest) = Utf8.encode cs ++ unquoteBytes rest := by
  induction cs with
  | nil => rfl
  | cons c cs ih =>
    rw [List.mem_cons, not_or] at h
    rw [List.cons_append, unquoteBytes_cons (Ne.symm h.1), ih h.2, Utf8.encode_cons,
      List.append_assoc]

theorem isUnreserved_percent : isUnreserved '%' = false := by decide

/-- A character is written as itself or as all of its bytes. -/
theorem quoteChars_cons (c : Char) (cs : List Char) :
    quoteChars (c :: cs) =
      (if isUnreserved c then [c] else (String.utf8EncodeChar c).flatMap quoteByte) ++
        quoteChars cs := List.flatMap_cons

theorem unquoteBytes_quoteChars (cs rest : List Char) :
    unquoteBytes (quoteChars cs ++ rest) = Utf8.encode cs ++ unquoteBytes rest := by
  induction cs with
  | nil => rfl
  | cons c cs ih =>
    rw [quoteChars_cons, List.append_assoc, Utf8.encode_cons, List.append_assoc]
    by_cases hc : isUnreserved c = true
    · have hne : c ≠ '%' := by
        rintro rfl
        rw [isUnreserved_percent] at hc
        cases hc
      rw [if_pos hc, List.singleton_append, unquoteBytes_cons hne, ih]
    · rw [if_neg hc, unquoteBytes_flatMap_quoteByte, ih]

theorem unquote?_eq_some {s : String} {cs : List Char}
    (h : unquoteBytes s.toList = Utf8.encode cs) : unquote? s = some (String.ofList cs) := by
  rw [unquote?, h, Utf8.decode_encode]

theorem unquote?_eq_self {s : String} (h : '%' ∉ s.toList) : unquote? s = some s := by
  have hbytes := unquoteBytes_append h []
  rw [List.append_nil, unquoteBytes, List.append_nil] at hbytes
  rw [unquote?_eq_some hbytes, String.ofList_toList]

/-! ## 2. What quoted text is made of -/

/-- The characters of quoted text: those that need no quoting, and percent signs. -/
def isQuoted (c : Char) : Bool := isUnreserved c || c = '%'

theorem isQuoted_upperDigit {n : Nat} (h : n < 16) : isQuoted (upperDigit n) = true := by
  have hall : ∀ m : Fin 16, isQuoted (upperDigit m.val) = true := by decide
  exact hall ⟨n, h⟩

theorem isQuoted_of_mem {cs : List Char} {c : Char} (h : c ∈ quoteChars cs) :
    isQuoted c = true := by
  obtain ⟨d, -, hd⟩ := List.mem_flatMap.1 h
  split at hd
  · next hu =>
    rw [List.mem_singleton] at hd
    rw [hd, isQuoted, hu, Bool.true_or]
  · obtain ⟨b, -, hb⟩ := List.mem_flatMap.1 hd
    obtain ⟨hhigh, hlow, -⟩ := Hex.byte_halves b
    rw [quoteByte, List.mem_cons, List.mem_cons, List.mem_singleton] at hb
    rcases hb with rfl | rfl | rfl
    · rfl
    · exact isQuoted_upperDigit hhigh
    · exact isQuoted_upperDigit hlow

/-- Text of unreserved characters and of percent signs with two upper-case digits each. -/
inductive IsEscaped : List Char → Prop where
  | nil : IsEscaped []
  | plain {c rest} (hc : isUnreserved c = true) (hrest : IsEscaped rest) : IsEscaped (c :: rest)
  | escape {a b rest} (ha : a ∈ "0123456789ABCDEF".toList) (hb : b ∈ "0123456789ABCDEF".toList)
      (hrest : IsEscaped rest) : IsEscaped ('%' :: a :: b :: rest)

theorem mem_upperDigit {n : Nat} (h : n < 16) : upperDigit n ∈ "0123456789ABCDEF".toList := by
  have hall : ∀ m : Fin 16, upperDigit m.val ∈ "0123456789ABCDEF".toList := by decide
  exact hall ⟨n, h⟩

theorem isEscaped_flatMap_quoteByte (bytes : Bytes) {rest : List Char} (hrest : IsEscaped rest) :
    IsEscaped (bytes.flatMap quoteByte ++ rest) := by
  induction bytes with
  | nil => exact hrest
  | cons b bytes ih =>
    obtain ⟨hhigh, hlow, -⟩ := Hex.byte_halves b
    rw [List.flatMap_cons, List.append_assoc]
    exact .escape (mem_upperDigit hhigh) (mem_upperDigit hlow) ih

theorem isEscaped_quoteChars (cs : List Char) : IsEscaped (quoteChars cs) := by
  induction cs with
  | nil => exact .nil
  | cons c cs ih =>
    rw [quoteChars_cons]
    by_cases hc : isUnreserved c = true
    · rw [if_pos hc]
      exact .plain hc ih
    · rw [if_neg hc]
      exact isEscaped_flatMap_quoteByte _ ih

/-! ## 3. Different texts, quoted differently -/

theorem quoteChars_injective {cs ds : List Char} (h : quoteChars cs = quoteChars ds) : cs = ds := by
  have hbytes : Utf8.encode cs = Utf8.encode ds := by
    have hcs := unquoteBytes_quoteChars cs []
    rw [h, unquoteBytes_quoteChars ds []] at hcs
    exact (List.append_cancel_right hcs).symm
  have hdecode := Utf8.decode_encode cs
  rw [hbytes, Utf8.decode_encode] at hdecode
  exact (Except.ok.inj hdecode).symm

theorem quote_injective : Function.Injective quote := by
  intro s t h
  exact String.toList_inj.1 (quoteChars_injective (String.ofList_injective h))

theorem length_quoteByte (b : UInt8) : (quoteByte b).length = 3 := rfl

/-- Only an unreserved character is quoted by a single character. -/
theorem length_quoteChars_cons {c : Char} (hc : isUnreserved c = false) (cs : List Char) :
    (quoteChars cs).length + 3 ≤ (quoteChars (c :: cs)).length := by
  have hbytes : 1 ≤ (String.utf8EncodeChar c).length := by
    rw [String.length_utf8EncodeChar]
    exact Char.utf8Size_pos c
  have hquoted : ((String.utf8EncodeChar c).flatMap quoteByte).length =
      (String.utf8EncodeChar c).length * 3 := by
    rw [List.length_flatMap, List.map_congr_left fun b _ => length_quoteByte b, List.map_const',
      List.sum_replicate, smul_eq_mul]
  rw [quoteChars_cons, hc, if_neg Bool.false_ne_true, List.length_append, hquoted]
  omega

theorem length_le_length_quoteChars (cs : List Char) : cs.length ≤ (quoteChars cs).length := by
  induction cs with
  | nil => exact Nat.le_refl 0
  | cons c cs ih =>
    by_cases hc : isUnreserved c = true
    · rw [quoteChars_cons, if_pos hc]
      exact Nat.succ_le_succ ih
    · have := length_quoteChars_cons (by simpa using hc) cs
      rw [List.length_cons]
      omega

/-- Quoting leaves a text as it is if all of it stands for itself, and no other text. -/
theorem quoteChars_eq_self_iff {cs : List Char} :
    quoteChars cs = cs ↔ ∀ c ∈ cs, isUnreserved c = true := by
  induction cs with
  | nil => simp [quoteChars]
  | cons c cs ih =>
    rw [List.forall_mem_cons]
    by_cases hc : isUnreserved c = true
    · rw [quoteChars_cons, if_pos hc, List.singleton_append, List.cons_inj_right, ih,
        and_iff_right hc]
    · refine iff_of_false (fun h => ?_) fun h => hc h.1
      -- the quoted text is longer than the text
      have hlength := length_quoteChars_cons (by simpa using hc) cs
      have hle := length_le_length_quoteChars cs
      rw [h, List.length_cons] at hlength
      omega

end ReplicaCensus.Percent
