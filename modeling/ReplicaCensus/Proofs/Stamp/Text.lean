import Mathlib
import ReplicaCensus.Proofs.Number.Digits
import ReplicaCensus.Proofs.Stamp.Causality
import ReplicaCensus.Proofs.Text.Lines
/-!
# Equal stamps have equal texts

Two stamps are equal if their clocks have the same entries, in whatever order, and their times are
the same. That is so if and only if they have the same text, or the same fingerprint: the sorted
entries can be told from either. Equal stamps compare as the same; stamps that compare as the same
and have equal times are equal if none of their counts is below one.
-/

namespace ReplicaCensus

/-! ## 1. Equal entries -/

namespace Clock

/-- The same number of entries, all of them in the other clock, is the same entries. -/
theorem sameEntries_iff {a b : Clock} :
    sameEntries a b = true ↔ a.entries.Perm b.entries := by
  have hall : (a.entries.all fun e => b.get? e.1 = some e.2) = true ↔ a.entries ⊆ b.entries := by
    simp only [List.all_eq_true, decide_eq_true_eq, OrderedMap.get?_eq_some]
    exact Iff.rfl
  rw [sameEntries, Bool.and_eq_true, decide_eq_true_eq, hall]
  constructor
  · rintro ⟨hsize, hsubset⟩
    exact (List.subperm_of_subset (a.nodup.of_map _) hsubset).perm_of_length_le hsize.ge
  · intro h
    exact ⟨h.length_eq, h.subset⟩

/-- Without counts below one, the counts show which nodes have an entry and what it is. -/
theorem perm_of_compare_eq_same {a b : Clock} (ha : ∀ e ∈ a.entries, 1 ≤ e.2)
    (hb : ∀ e ∈ b.entries, 1 ≤ e.2) (h : compare a b = .same) : a.entries.Perm b.entries := by
  rw [List.perm_ext_iff_of_nodup (a.nodup.of_map _) (b.nodup.of_map _)]
  rintro ⟨node, n⟩
  rw [compare_eq_same] at h
  constructor
  · intro hmem
    exact mem_entries_of_count ((h node).symm.trans (count_eq_of_mem hmem)) (ha _ hmem)
  · intro hmem
    exact mem_entries_of_count ((h node).trans (count_eq_of_mem hmem)) (hb _ hmem)

end Clock

namespace Stamp

theorem same_iff {a b : Stamp} :
    same a b = true ↔ a.clock.entries.Perm b.clock.entries ∧ a.time = b.time := by
  rw [same, Bool.and_eq_true, decide_eq_true_eq, Clock.sameEntries_iff]

theorem same_iff_fingerprint {a b : Stamp} : same a b = true ↔ a.fingerprint = b.fingerprint := by
  rw [same_iff, fingerprint, fingerprint, Prod.mk.injEq, Clock.sorted_eq_iff]

/-! ## 2. The text of a stamp -/

theorem toList_entryText (e : Int × Int) :
    (entryText e).toList = (toString e.1).toList ++ ':' :: (toString e.2).toList := by
  rw [entryText, String.toList_append, String.toList_append, List.append_assoc]
  rfl

theorem entryText_injective : Function.Injective entryText := by
  intro e f h
  have hchars := congrArg String.toList h
  rw [toList_entryText, toList_entryText] at hchars
  -- no number has a colon in it
  obtain ⟨hnode, hcount⟩ := Text.eq_of_append_cons (Number.not_mem_toString rfl e.1)
    (Number.not_mem_toString rfl f.1) hchars
  exact Prod.ext (Int.repr_injective (String.toList_inj.1 hnode))
    (Int.repr_injective (String.toList_inj.1 hcount))

/-- The entries of a stamp, as they stand between its brackets. -/
def entriesChars (s : Stamp) : List Char :=
  [',', ' '].intercalate ((Clock.sorted s.clock).map fun e => (entryText e).toList)

theorem toList_toText (s : Stamp) :
    s.toText.toList = "version(".toList ++ (s.entriesChars ++
      ')' :: (" ts:".toList ++ (toString s.time).toList)) := by
  rw [toText, entriesChars]
  simp only [String.toList_append, String.toList_intercalate, List.map_map, List.append_assoc]
  rfl

/-- What stands in an entry: digits, signs and a colon. -/
theorem not_mem_entryText {c : Char} (hc : Number.isIntegerChar c = false) (hcolon : c ≠ ':')
    (e : Int × Int) : c ∉ (entryText e).toList := by
  rw [toList_entryText, List.mem_append, List.mem_cons, not_or, not_or]
  exact ⟨Number.not_mem_toString hc e.1, hcolon, Number.not_mem_toString hc e.2⟩

theorem not_mem_entriesChars {c : Char} (hc : Number.isIntegerChar c = false) (hcolon : c ≠ ':')
    (hsep : c ∉ [',', ' ']) (s : Stamp) : c ∉ s.entriesChars :=
  Text.not_mem_intercalate hsep
    (List.forall_mem_map.2 fun e _ => not_mem_entryText hc hcolon e)

/-- What stands in the text of a stamp: digits, signs, and what is around the numbers. -/
theorem not_mem_toText {c : Char} (hc : Number.isIntegerChar c = false)
    (hother : c ∉ "version(, :) ts:".toList) (s : Stamp) : c ∉ s.toText.toList := by
  have hsplit : "version(, :) ts:".toList =
      "version(".toList ++ ([',', ' '] ++ ([':'] ++ ([')'] ++ " ts:".toList))) := by decide
  simp only [hsplit, List.mem_append, List.mem_singleton, not_or] at hother
  obtain ⟨hfront, hsep, hcolon, hclose, hback⟩ := hother
  rw [toList_toText]
  simp only [List.mem_append, List.mem_cons, not_or]
  exact ⟨hfront, not_mem_entriesChars hc hcolon hsep s, hclose, hback,
    Number.not_mem_toString hc s.time⟩

theorem entriesChars_injective {a b : Stamp} (h : a.entriesChars = b.entriesChars) :
    Clock.sorted a.clock = Clock.sorted b.clock := by
  have hfree : ∀ s : Stamp, ∀ p ∈ (Clock.sorted s.clock).map fun e => (entryText e).toList,
      p ≠ [] ∧ ',' ∉ p := by
    intro s
    refine List.forall_mem_map.2 fun e _ => ⟨?_, not_mem_entryText rfl (by decide) e⟩
    rw [toList_entryText]
    simp
  have hpieces := Text.intercalate_injective (by decide) (hfree a) (hfree b) h
  have hentry : Function.Injective fun e : Int × Int => (entryText e).toList :=
    fun e f he => entryText_injective (String.toList_inj.1 he)
  exact List.map_injective_iff.2 hentry hpieces

/-- The text of a stamp tells its entries by node and its time, and nothing else. -/
theorem toText_eq_iff {a b : Stamp} : a.toText = b.toText ↔ same a b = true := by
  rw [same_iff_fingerprint]
  constructor
  · intro h
    have hchars := congrArg String.toList h
    rw [toList_toText, toList_toText] at hchars
    -- the bracket that closes the entries is the first one
    obtain ⟨hentries, htime⟩ := Text.eq_of_append_cons
      (not_mem_entriesChars rfl (by decide) (by decide) a)
      (not_mem_entriesChars rfl (by decide) (by decide) b) (List.append_cancel_left hchars)
    have hnumber := String.toList_inj.1 (List.append_cancel_left htime)
    exact Prod.ext (entriesChars_injective hentries) (Int.repr_injective hnumber)
  · intro h
    obtain ⟨hsorted, htime⟩ := Prod.mk.inj h
    rw [toText, toText, hsorted, htime]

/-- Stamps are equal if and only if they have the same text, which is so if they have the same
entries in some order and the same time. Equal stamps have the same hash and compare as the same.
Stamps that compare as the same and have the same time are equal, unless one has a count below one.
-/
theorem same_agrees (a b : Stamp) :
    (same a b = true ↔ a.toText = b.toText) ∧
      (same a b = true ↔ a.clock.entries.Perm b.clock.entries ∧ a.time = b.time) ∧
      (same a b = true → a.fingerprint = b.fingerprint ∧ hash a = hash b ∧
        (Clock.compare a.clock b.clock).code = 0) ∧
      ((∀ e ∈ a.clock.entries, 1 ≤ e.2) → (∀ e ∈ b.clock.entries, 1 ≤ e.2) →
        (Clock.compare a.clock b.clock).code = 0 → a.time = b.time → same a b = true) := by
  have hcode : (Clock.compare a.clock b.clock).code = 0 ↔
      Clock.compare a.clock b.clock = .same := Causality.code_injective.eq_iff' rfl
  rw [hcode]
  refine ⟨toText_eq_iff.symm, same_iff, fun h => ?_, fun ha hb hcompare htime => ?_⟩
  · have hfingerprint := same_iff_fingerprint.1 h
    have hhash : hash a.fingerprint = hash b.fingerprint := by rw [hfingerprint]
    exact ⟨hfingerprint, hhash,
      Clock.compare_eq_same.2 (Clock.count_eq_of_perm (same_iff.1 h).1)⟩
  · exact same_iff.2 ⟨Clock.perm_of_compare_eq_same ha hb hcompare, htime⟩

/-! The same entries in two orders, and an entry of zero, which only comparing passes over. -/

def early : Stamp := ⟨OrderedMap.ofList [(0, 1), (-2, 3)], 9⟩

def turnedEarly : Stamp := ⟨OrderedMap.ofList [(-2, 3), (0, 1)], 9⟩

def idleEarly : Stamp := ⟨OrderedMap.ofList [(0, 1), (4, 0), (-2, 3)], 9⟩

theorem same_agrees_early :
    early ≠ turnedEarly ∧ early.toText = turnedEarly.toText ∧ hash early = hash turnedEarly ∧
      (Clock.compare early.clock turnedEarly.clock).code = 0 ∧ same early turnedEarly = true ∧
      (Clock.compare early.clock idleEarly.clock).code = 0 ∧ early.toText ≠ idleEarly.toText := by
  obtain ⟨htext, -, hequal, hback⟩ := same_agrees early turnedEarly
  have hsame : same early turnedEarly = true :=
    hback (by decide) (by decide) (by decide) rfl
  obtain ⟨-, hhash, hcode⟩ := hequal hsame
  have hidle : early.toText ≠ idleEarly.toText :=
    fun h => absurd ((same_agrees early idleEarly).1.2 h) (by decide)
  exact ⟨by decide, htext.1 hsame, hhash, hcode, hsame, by decide, hidle⟩

end Stamp

end ReplicaCensus
