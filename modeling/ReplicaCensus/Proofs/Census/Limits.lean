import Mathlib
import ReplicaCensus.Census.Options
import ReplicaCensus.Proofs.Command.Grammar
import ReplicaCensus.Proofs.Number.Sign
/-!
# The limits that a census is given

Options that are accepted give a census at least one slot, and each of its time limits is above zero
unless the text that was given for it last is a NaN. A NaN passes the checks because it does not
compare as zero or less; it does not compare as more, either.
-/

namespace ReplicaCensus

theorem Census.exists_make (source : Source) (inDir outDir : String) {slots : Int}
    (h : 1 ≤ slots) (limit : Option Seconds) :
    ∃ census, Census.make source inDir outDir slots limit = .ok census ∧ census.source = source ∧
      census.inDir = inDir ∧ census.outDir = outDir ∧ census.limit = limit ∧
      (census.slots : Int) = slots := by
  unfold Census.make
  rw [dif_pos h]
  exact ⟨_, rfl, rfl, rfl, rfl, rfl, Int.toNat_of_nonneg (by omega)⟩

namespace CensusOptions

open Command

/-! ## 1. Where the limits come from -/

/-- Each limit is read from the text that was given for it last, and has a default without one. -/
structure LimitsReadFrom (occurrences : List Occurrence) (o : CensusOptions) : Prop where
  parallelism : match lastText occurrences "--parallelism" with
    | none => o.parallelism = 4
    | some text => Number.readInteger text = .ok o.parallelism
  keyTimeout : match lastText occurrences "--key-timeout" with
    | none => o.keyTimeout = none
    | some text => ∃ x, Number.readDouble text = some x ∧ o.keyTimeout = some x
  requestTimeout : match lastText occurrences "--request-timeout" with
    | none => o.requestTimeout = Double.ofInt 5
    | some text => Number.readDouble text = some o.requestTimeout

variable {arguments : List String} {occurrences : List Occurrence} {given : Given}
  {o : CensusOptions}

theorem limitsReadFrom_ofGiven (hspells : Spells (nameTable specs) arguments occurrences)
    (hkept : List.Forall₂ KeptAs occurrences given.values) :
    LimitsReadFrom occurrences (ofGiven given) where
  parallelism := by
    have hkind : ∀ spec ∈ specs, spec.key = "--parallelism" → spec.kind = .value .integer := by
      decide
    have hlast := integer?_of_spells hspells hkept hkind
    rw [ofGiven]
    generalize lastText occurrences "--parallelism" = text?,
      given.integer? "--parallelism" = n? at hlast
    cases hlast with
    | none => rfl
    | some hread => exact hread
  keyTimeout := by
    have hkind : ∀ spec ∈ specs, spec.key = "--key-timeout" → spec.kind = .value .number := by
      decide
    have hlast := number?_of_spells hspells hkept hkind
    rw [ofGiven]
    generalize lastText occurrences "--key-timeout" = text?,
      given.number? "--key-timeout" = x? at hlast
    cases hlast with
    | none => rfl
    | some hread => exact ⟨_, hread, rfl⟩
  requestTimeout := by
    have hkind : ∀ spec ∈ specs, spec.key = "--request-timeout" → spec.kind = .value .number := by
      decide
    have hlast := number?_of_spells hspells hkept hkind
    rw [ofGiven]
    generalize lastText occurrences "--request-timeout" = text?,
      given.number? "--request-timeout" = x? at hlast
    cases hlast with
    | none => rfl
    | some hread => exact hread

/-- What is accepted was given as options and passed the checks. -/
theorem parse_eq_ok (h : parse arguments = .ok o) :
    ∃ given, readOptions specs arguments = .ok given ∧ o = ofGiven given ∧ o.fault? = none := by
  unfold parse at h
  split at h
  · cases h
  next given hgiven =>
  dsimp only at h
  split at h
  · cases h
  next hfault =>
  cases h
  exact ⟨given, hgiven, rfl, hfault⟩

/-! ## 2. What the checks let pass -/

theorem fault?_eq_none : o.fault? = none ↔
    1 ≤ o.parallelism ∧ (∀ x, o.keyTimeout = some x → x.isNonPositive = false) ∧
      o.requestTimeout.isNonPositive = false := by
  have hkey : (∀ x, o.keyTimeout = some x → x.isNonPositive = false) ↔
      ¬o.keyTimeout.any Double.isNonPositive = true := by
    cases o.keyTimeout <;> simp
  rw [hkey, fault?]
  split_ifs with hslots hkey hrequest
  · exact iff_of_false nofun fun h => absurd h.1 (not_le.2 hslots)
  · exact iff_of_false nofun fun h => h.2.1 hkey
  · exact iff_of_false nofun fun h => Bool.false_ne_true (h.2.2.symm.trans hrequest)
  · exact iff_of_true rfl ⟨not_lt.1 hslots, hkey, Bool.eq_false_iff.2 hrequest⟩

/-- A number that was not refused is above zero unless it was read as a NaN. -/
theorem isPositive_iff_of_read {text : String} {x : Double}
    (hread : Number.readDouble text = some x) (hx : x.isNonPositive = false) :
    x.IsPositive ↔ ¬Number.IsNan text := by
  rw [Double.isPositive_iff, ← Number.readDouble_eq_nan_iff, hread, Option.some_inj]
  exact and_iff_left hx

/-- Options that are accepted give a census at least one slot, so that it can be set up. Each time
limit comes from the text that was given for it last, whatever the order and the form of the
arguments, and is above zero unless this text is a NaN. -/
theorem limits_of_parse (h : parse arguments = .ok o) :
    ∃ occurrences,
      (∀ others, Spells (nameTable specs) arguments others ↔ others = occurrences) ∧
      LimitsReadFrom occurrences o ∧
      1 ≤ o.parallelism ∧
      (∀ source, ∃ c, Census.make source o.inDir o.outDir o.parallelism o.limit = .ok c ∧
        (c.slots : Int) = o.parallelism ∧ c.limit = o.limit) ∧
      ((∀ x, o.keyTimeout = some x → x.IsPositive) ↔
        ∀ text, lastText occurrences "--key-timeout" = some text → ¬Number.IsNan text) ∧
      (o.requestTimeout.IsPositive ↔
        ∀ text, lastText occurrences "--request-timeout" = some text → ¬Number.IsNan text) := by
  obtain ⟨given, hgiven, ho, hfault⟩ := parse_eq_ok h
  obtain ⟨occurrences, hspells, hkept⟩ := spells_of_readOptions hgiven
  obtain ⟨hslots, hkey, hrequest⟩ := fault?_eq_none.1 hfault
  have hfrom : LimitsReadFrom occurrences o := ho ▸ limitsReadFrom_ofGiven hspells hkept
  refine ⟨occurrences, fun others => ⟨hspells.unique, fun he => he ▸ hspells⟩, hfrom, hslots,
    fun source => ?_, ?_, ?_⟩
  · obtain ⟨c, hmake, -, -, -, hlimit, hc⟩ :=
      Census.exists_make source o.inDir o.outDir hslots o.limit
    exact ⟨c, hmake, hc, hlimit⟩
  · have hread := hfrom.keyTimeout
    cases htext : lastText occurrences "--key-timeout" with
    | none =>
      rw [htext] at hread
      simp [hread]
    | some text =>
      rw [htext] at hread
      obtain ⟨x, hread, hx⟩ := hread
      simp only [hx, Option.some_inj, forall_eq']
      exact isPositive_iff_of_read hread (hkey x hx)
  · have hread := hfrom.requestTimeout
    cases htext : lastText occurrences "--request-timeout" with
    | none =>
      rw [htext] at hread
      rw [hread]
      exact iff_of_true (Double.isPositive_iff.2 ⟨by decide, by decide⟩) nofun
    | some text =>
      rw [htext] at hread
      simp only [Option.some_inj, forall_eq']
      exact isPositive_iff_of_read hread hrequest

/-- Options that are cut short or repeated, with a digit of another script, blanks and an underscore
in their values. -/
def variedArguments : List String :=
  ["--out-dir=out", "--key-t", "0", "--par=٤", "--url", "http://x", "--in", "in",
    "--key-timeout=\u00a01_0e-1 ", "--request-timeout", "inf"]

def variedOptions : CensusOptions :=
  ⟨"http://x", "in", "out", 4, some (Double.ofInt 1), .infinite false, false, false⟩

/-- The zero that was given first does no harm, and an infinite limit is one. -/
theorem limits_of_parse_varied :
    parse variedArguments = .ok variedOptions ∧
      ∃ occurrences,
        (∀ others, Spells (nameTable specs) variedArguments others ↔ others = occurrences) ∧
        LimitsReadFrom occurrences variedOptions ∧
        1 ≤ variedOptions.parallelism ∧
        (∀ source, ∃ c, Census.make source variedOptions.inDir variedOptions.outDir
            variedOptions.parallelism variedOptions.limit = .ok c ∧
          (c.slots : Int) = variedOptions.parallelism ∧ c.limit = variedOptions.limit) ∧
        ((∀ x, variedOptions.keyTimeout = some x → x.IsPositive) ↔
          ∀ text, lastText occurrences "--key-timeout" = some text → ¬Number.IsNan text) ∧
        (variedOptions.requestTimeout.IsPositive ↔
          ∀ text, lastText occurrences "--request-timeout" = some text → ¬Number.IsNan text) := by
  have hparse : parse variedArguments = .ok variedOptions := by decide +kernel
  exact ⟨hparse, limits_of_parse hparse⟩

/-- A NaN is accepted for a time limit, and is not above zero. -/
theorem parse_nan : ∃ o x,
    parse ["--url", "http://x", "--in-dir", "in", "--out-dir", "out", "--key-timeout", "nan"] =
      .ok o ∧ o.keyTimeout = some x ∧ ¬x.IsPositive := by
  have hparse : parse ["--url", "http://x", "--in-dir", "in", "--out-dir", "out", "--key-timeout",
      "nan"] = .ok ⟨"http://x", "in", "out", 4, some .nan, Double.ofInt 5, false, false⟩ := by
    decide +kernel
  exact ⟨_, .nan, hparse, rfl, Bool.false_ne_true⟩

end CensusOptions

end ReplicaCensus
