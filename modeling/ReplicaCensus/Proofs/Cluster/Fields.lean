import Mathlib
import ReplicaCensus.Cluster.Entry
/-!
# The members of an entry, and how their faults are told

What is under a name stands for an integer or a text, or it is infinite, or nested too deep to be
written. The last two are told in their own way; all other faults are told with the entry, which
takes a text that shows it.
-/

namespace ReplicaCensus

/-! ## 1. What is under a name -/

namespace Json

/-- An infinite number under a name. -/
def HasInfinite (entry : Json) (name : String) : Prop :=
  ∃ negative, entry.member? name = some (.double (.infinite negative))

/-- The integer that what is under a name stands for. -/
def HasInteger (entry : Json) (name : String) (n : Int) : Prop :=
  ∃ value, entry.member? name = some value ∧ value.toInteger = .ok n

/-- The text of what is under a name. -/
def HasText (entry : Json) (name text : String) : Prop :=
  ∃ value, entry.member? name = some value ∧ value.asText = .ok text

/-- What is under a name is nested too deep for a text. -/
def HasDeep (entry : Json) (name : String) : Prop :=
  ∃ value, entry.member? name = some value ∧ value.asText = .error .tooDeep

theorem toInteger_eq_fromInfinity {value : Json} :
    value.toInteger = .error .fromInfinity ↔ ∃ negative, value = .double (.infinite negative) := by
  constructor
  · intro h
    cases value with
    | double x =>
      cases x with
      | infinite negative => exact ⟨negative, rfl⟩
      | nan => cases h
      | finite negative m e => cases h
    | str s =>
      rw [toInteger] at h
      split at h <;> cases h
    | null => cases h
    | bool b => cases h
    | int n => cases h
    | arr items => cases h
    | obj members => cases h
  · rintro ⟨negative, rfl⟩
    rfl

theorem required_eq_ok {entry : Json} {name : String} {value : Json} :
    entry.required name = .ok value ↔ entry.member? name = some value := by
  cases entry with
  | obj members =>
    rw [required, member?]
    cases OrderedMap.find name members with
    | none => simp
    | some found => simp
  | _ =>
    constructor
    · intro h
      cases h
    · intro h
      cases h

theorem required_ne_conversion (entry : Json) (name : String) (fault : ConversionFault) :
    entry.required name ≠ .error (.conversion fault) := by
  intro h
  cases entry with
  | obj members =>
    rw [required] at h
    split at h <;> cases h
  | _ => cases h

theorem required_ne_noText (entry : Json) (name : String) (fault : TextFault) :
    entry.required name ≠ .error (.noText fault) := by
  intro h
  cases entry with
  | obj members =>
    rw [required] at h
    split at h <;> cases h
  | _ => cases h

theorem requiredInteger_eq_ok {entry : Json} {name : String} {n : Int} :
    entry.requiredInteger name = .ok n ↔ entry.HasInteger name n := by
  unfold requiredInteger HasInteger
  constructor
  · intro h
    split at h
    · cases h
    · next value hvalue =>
      split at h
      · next n' hn' =>
        cases h
        exact ⟨value, required_eq_ok.1 hvalue, hn'⟩
      · cases h
  · rintro ⟨value, hvalue, hn⟩
    rw [required_eq_ok.2 hvalue]
    dsimp only
    rw [hn]

theorem requiredInteger_eq_fromInfinity {entry : Json} {name : String} :
    entry.requiredInteger name = .error (.conversion .fromInfinity) ↔ entry.HasInfinite name := by
  unfold requiredInteger HasInfinite
  constructor
  · intro h
    split at h
    · next fault hfault =>
      cases h
      exact absurd hfault (required_ne_conversion _ _ _)
    · next value hvalue =>
      split at h
      · cases h
      · next fault hfault =>
        cases h
        obtain ⟨negative, rfl⟩ := toInteger_eq_fromInfinity.1 hfault
        exact ⟨negative, required_eq_ok.1 hvalue⟩
  · rintro ⟨negative, h⟩
    rw [required_eq_ok.2 h]
    rfl

theorem requiredInteger_ne_noText (entry : Json) (name : String) (fault : TextFault) :
    entry.requiredInteger name ≠ .error (.noText fault) := by
  intro h
  unfold requiredInteger at h
  split at h
  · next fault' hfault =>
    cases h
    exact required_ne_noText _ _ _ hfault
  · split at h <;> cases h

theorem requiredText_eq_ok {entry : Json} {name text : String} :
    entry.requiredText name = .ok text ↔ entry.HasText name text := by
  unfold requiredText HasText
  constructor
  · intro h
    split at h
    · cases h
    · next value hvalue =>
      split at h
      · next text' htext =>
        cases h
        exact ⟨value, required_eq_ok.1 hvalue, htext⟩
      · cases h
  · rintro ⟨value, hvalue, htext⟩
    rw [required_eq_ok.2 hvalue]
    dsimp only
    rw [htext]

theorem requiredText_eq_tooDeep {entry : Json} {name : String} :
    entry.requiredText name = .error (.noText .tooDeep) ↔ entry.HasDeep name := by
  unfold requiredText HasDeep
  constructor
  · intro h
    split at h
    · next fault hfault =>
      cases h
      exact absurd hfault (required_ne_noText _ _ _)
    · next value hvalue =>
      split at h
      · cases h
      · next fault hfault =>
        cases h
        exact ⟨value, required_eq_ok.1 hvalue, hfault⟩
  · rintro ⟨value, hvalue, hfault⟩
    rw [required_eq_ok.2 hvalue]
    dsimp only
    rw [hfault]

theorem requiredText_ne_conversion (entry : Json) (name : String) (fault : ConversionFault) :
    entry.requiredText name ≠ .error (.conversion fault) := by
  intro h
  unfold requiredText at h
  split at h
  · next fault' hfault =>
    cases h
    exact required_ne_conversion _ _ _ hfault
  · split at h <;> cases h

theorem optionalText_eq_ok {entry : Json} {name default text : String} :
    entry.optionalText name default = .ok text ↔
      entry.HasText name text ∨ entry.member? name = none ∧ text = default := by
  unfold optionalText HasText
  cases entry.member? name with
  | none => simp [asText, eq_comm]
  | some value =>
    simp only [Option.getD_some]
    split
    · next text' htext => simp [htext]
    · next fault hfault => simp [hfault]

theorem optionalText_eq_tooDeep {entry : Json} {name default : String} :
    entry.optionalText name default = .error (.noText .tooDeep) ↔ entry.HasDeep name := by
  unfold optionalText HasDeep
  cases entry.member? name with
  | none => simp [asText]
  | some value =>
    simp only [Option.getD_some]
    split
    · next text htext => simp [htext]
    · next fault hfault => simp [hfault]

theorem optionalText_ne_conversion (entry : Json) (name default : String)
    (fault : ConversionFault) : entry.optionalText name default ≠ .error (.conversion fault) := by
  intro h
  unfold optionalText at h
  split at h <;> cases h

theorem textFault?_int_eq_some {n : Int} {fault : TextFault} :
    (int n).textFault? = some fault ↔ isLong n = true ∧ fault = .tooLong := by
  have hfault : (int n).textFault? = if isLong n then some .tooLong else none := rfl
  rw [hfault]
  cases isLong n with
  | false => simp
  | true => simp [eq_comm]

end Json

/-! ## 2. How faults of an entry are told -/

namespace DescriptionFault

theorem ofError_ne_infinite (error : MetadataError) : ofError error ≠ .infinite := by
  intro h
  unfold ofError at h
  split at h <;> cases h

theorem ofError_eq_noText {error : MetadataError} {fault : TextFault} :
    ofError error = .noText fault ↔ error.textFault? = some fault := by
  unfold ofError
  split
  · next fault' hfault => simp [hfault]
  · next hnone => simp [hnone]

theorem ofError_eq_metadata {error : MetadataError} (h : error.textFault? = none) :
    ofError error = .metadata error := by
  rw [ofError, h]

theorem ofEntry_eq_infinite {wrap : EntryFault → MetadataError} {fault : EntryFault} :
    ofEntry wrap fault = .infinite ↔ fault = .conversion .fromInfinity := by
  constructor
  · intro h
    unfold ofEntry at h
    split at h
    · rfl
    · cases h
    · exact absurd h (ofError_ne_infinite _)
  · rintro rfl
    rfl

/-- A text is missing because the entry nests too deep where a text is needed, or because there is
no message that shows an entry with another fault. -/
theorem ofEntry_eq_noText {wrap : EntryFault → MetadataError} {fault : EntryFault}
    {text : TextFault} :
    ofEntry wrap fault = .noText text ↔
      fault = .noText .tooDeep ∧ text = .tooDeep ∨
        fault ≠ .conversion .fromInfinity ∧ fault ≠ .noText .tooDeep ∧
          (wrap fault).textFault? = some text := by
  unfold ofEntry
  split
  · simp
  · simp [eq_comm]
  · next hinfinite hdeep =>
    rw [ofError_eq_noText]
    constructor
    · exact fun h => .inr ⟨hinfinite, hdeep, h⟩
    · rintro (⟨h, -⟩ | ⟨-, -, h⟩)
      · exact absurd h hdeep
      · exact h

/-- The same for the result of reading an entry, if all messages about it show the same. -/
theorem exists_ofEntry_eq_noText {α : Type} {read : Except EntryFault α}
    {wrap : EntryFault → MetadataError} {shown : Option TextFault}
    (hwrap : ∀ fault, (wrap fault).textFault? = shown) {text : TextFault} :
    (∃ fault, read = .error fault ∧ ofEntry wrap fault = .noText text) ↔
      read = .error (.noText .tooDeep) ∧ text = .tooDeep ∨
        (∀ x, read ≠ .ok x) ∧ read ≠ .error (.conversion .fromInfinity) ∧
          read ≠ .error (.noText .tooDeep) ∧ shown = some text := by
  simp only [ofEntry_eq_noText, hwrap]
  cases read with
  | ok x => simp
  | error fault => simp

end DescriptionFault

end ReplicaCensus
