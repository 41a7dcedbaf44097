import Mathlib
import ReplicaCensus.Text.Wide
/-!
# Which wide texts can be encoded

A wide text can be encoded exactly if it is made of characters only, and then it is the text of them.
-/

namespace ReplicaCensus.WideText

/-- A half that stands alone. -/
def HasHalf (t : WideText) : Prop := ∃ n, WideChar.half n ∈ t

theorem narrowFrom_chars (cs : List Char) (position : Nat) :
    narrowFrom position (cs.map .char) = .ok cs := by
  induction cs generalizing position with
  | nil => rfl
  | cons c rest ih =>
    rw [List.map_cons, narrowFrom, ih]
    rfl

theorem narrow_ofString (s : String) : (ofString s).narrow = .ok s := by
  rw [narrow, ofString, narrowFrom_chars]
  show Except.ok (String.ofList s.toList) = _
  rw [String.ofList_toList]

theorem narrowFrom_eq_ok {t : WideText} {position : Nat} {cs : List Char}
    (h : narrowFrom position t = .ok cs) : t = cs.map .char := by
  induction t generalizing position cs with
  | nil =>
    cases h
    rfl
  | cons first rest ih =>
    cases first with
    | half n => cases h
    | char c =>
      rw [narrowFrom] at h
      cases hrest : narrowFrom (position + 1) rest with
      | error fault => rw [hrest] at h; cases h
      | ok more =>
        rw [hrest] at h
        cases h
        rw [List.map_cons, ih hrest]

theorem narrow_eq_ok {t : WideText} {s : String} : t.narrow = .ok s ↔ t = ofString s := by
  constructor
  · intro h
    unfold narrow at h
    cases hread : narrowFrom 0 t with
    | error fault => rw [hread] at h; cases h
    | ok cs =>
      rw [hread] at h
      cases h
      rw [ofString, String.toList_ofList]
      exact narrowFrom_eq_ok hread
  · rintro rfl
    exact narrow_ofString s

theorem not_hasHalf_ofString (s : String) : ¬HasHalf (ofString s) := by
  rintro ⟨n, h⟩
  obtain ⟨c, -, hc⟩ := List.mem_map.1 h
  cases hc

theorem hasHalf_of_narrowFrom {t : WideText} {position : Nat} {fault : EncodeFault}
    (h : narrowFrom position t = .error fault) : t.HasHalf := by
  induction t generalizing position fault with
  | nil => cases h
  | cons first rest ih =>
    cases first with
    | half n => exact ⟨n, List.mem_cons_self⟩
    | char c =>
      rw [narrowFrom] at h
      cases hrest : narrowFrom (position + 1) rest with
      | ok more => rw [hrest] at h; cases h
      | error fault' =>
        obtain ⟨n, hn⟩ := ih hrest
        exact ⟨n, List.mem_cons_of_mem _ hn⟩

theorem hasHalf_of_narrow {t : WideText} {fault : EncodeFault} (h : t.narrow = .error fault) :
    t.HasHalf := by
  unfold narrow at h
  cases hread : narrowFrom 0 t with
  | ok cs => rw [hread] at h; cases h
  | error fault' => exact hasHalf_of_narrowFrom hread

end ReplicaCensus.WideText
