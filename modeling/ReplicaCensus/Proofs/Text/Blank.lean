import Mathlib
import ReplicaCensus.Text.Blank
/-!
# What trimming leaves of a text

Trimming takes off the ends what is blank and nothing else. So a text without blanks comes back from
between blanks as it was put there, and nothing is left of a text of blanks alone.
-/

namespace ReplicaCensus.Text

variable {p : Char → Bool}

theorem trimBoth_eq_nil {cs : List Char} : trimBoth p cs = [] ↔ ∀ c ∈ cs, p c = true := by
  rw [trimBoth, List.reverse_eq_nil_iff, List.dropWhile_eq_nil_iff]
  constructor
  · intro h c hc
    by_contra hp
    have hall : cs.dropWhile p ≠ [] := fun hnil => hp (List.dropWhile_eq_nil_iff.1 hnil c hc)
    have hfirst := List.head_dropWhile_not p hall
    rw [h _ (List.mem_reverse.2 (List.head_mem hall))] at hfirst
    cases hfirst
  · intro h c hc
    exact h c ((List.dropWhile_sublist p).subset (List.mem_reverse.1 hc))

/-- What is taken off the ends is blank. -/
theorem exists_trimBoth (p : Char → Bool) (cs : List Char) :
    ∃ front back, cs = front ++ trimBoth p cs ++ back ∧ (∀ c ∈ front, p c = true) ∧
      ∀ c ∈ back, p c = true := by
  refine ⟨cs.takeWhile p, ((cs.dropWhile p).reverse.takeWhile p).reverse, ?_, fun c hc => ?_,
    fun c hc => ?_⟩
  · rw [trimBoth, List.append_assoc, ← List.reverse_append, List.takeWhile_append_dropWhile,
      List.reverse_reverse, List.takeWhile_append_dropWhile]
  · exact List.mem_takeWhile_imp hc
  · exact List.mem_takeWhile_imp (List.mem_reverse.1 hc)

theorem trimBoth_append {front text back : List Char} (hfront : ∀ c ∈ front, p c = true)
    (hback : ∀ c ∈ back, p c = true) (htext : ∀ c ∈ text, p c = false) :
    trimBoth p (front ++ text ++ back) = text := by
  cases text with
  | nil =>
    rw [List.append_nil, trimBoth_eq_nil]
    exact fun c hc => (List.mem_append.1 hc).elim (hfront c) (hback c)
  | cons c rest =>
    -- the first and the last character of the text stop the trimming
    have hlast : ∀ d ∈ (c :: rest).reverse, ¬p d = true := fun d hd => by
      rw [htext d (List.mem_reverse.1 hd)]
      exact Bool.false_ne_true
    rw [trimBoth, List.append_assoc, List.dropWhile_append_of_pos hfront, List.cons_append,
      List.dropWhile_cons_of_neg (hlast c (by simp)), ← List.cons_append, List.reverse_append,
      List.dropWhile_append_of_pos fun d hd => hback d (List.mem_reverse.1 hd),
      List.dropWhile_eq_self_iff.2 fun hl => hlast _ (List.getElem_mem hl), List.reverse_reverse]

theorem trimBoth_eq_self {cs : List Char} (h : ∀ c ∈ cs, p c = false) : trimBoth p cs = cs := by
  have hnone : ∀ c ∈ ([] : List Char), p c = true := fun c hc => absurd hc List.not_mem_nil
  have hends := trimBoth_append hnone hnone h
  rwa [List.nil_append, List.append_nil] at hends

end ReplicaCensus.Text
