import Mathlib
import ReplicaCensus.Json.Reader
import ReplicaCensus.Proofs.Number.Bounds
import ReplicaCensus.Proofs.OrderedMap
/-!
# Values that were read have short numbers and can be shown

Whatever text a value was read from, the integers that its parts stand for have no more digits than
a reader takes, so they can be written and read again. And its parts are nested no deeper than the
reader goes, so that there is a text that shows it.
-/

namespace ReplicaCensus.Json

/-! ## 1. Values with short numbers -/

mutual

/-- The integers that the value and its parts stand for have not too many digits. -/
def IsShort : Json → Prop
  | null => True
  | bool _ => True
  | int n => Number.IsShort n
  | double x => ∀ n, x.truncate? = some n → Number.IsShort n
  | str _ => True
  | arr items => AreShort items
  | obj members => MembersShort members

def AreShort : List Json → Prop
  | [] => True
  | item :: rest => IsShort item ∧ AreShort rest

def MembersShort : List (String × Json) → Prop
  | [] => True
  | (_, value) :: rest => IsShort value ∧ MembersShort rest

end

theorem areShort_iff {items : List Json} : AreShort items ↔ ∀ item ∈ items, IsShort item := by
  induction items with
  | nil => exact ⟨fun _ _ h => absurd h List.not_mem_nil, fun _ => trivial⟩
  | cons item rest ih => rw [AreShort, ih, List.forall_mem_cons]

theorem membersShort_iff {members : List (String × Json)} :
    MembersShort members ↔ ∀ member ∈ members, IsShort member.2 := by
  induction members with
  | nil => exact ⟨fun _ _ h => absurd h List.not_mem_nil, fun _ => trivial⟩
  | cons member rest ih =>
    obtain ⟨name, value⟩ := member
    rw [MembersShort, ih, List.forall_mem_cons]

theorem isShort_of_member? {name : String} {json value : Json} (h : IsShort json)
    (hmember : json.member? name = some value) : IsShort value := by
  cases json with
  | obj members => exact membersShort_iff.1 h _ (OrderedMap.mem_of_find hmember)
  | _ => cases hmember

/-- What is taken for a member is short, whether the member is there or not. -/
theorem isShort_getD {json other : Json} (h : IsShort json) (hother : IsShort other)
    (name : String) : IsShort ((json.member? name).getD other) := by
  cases hmember : json.member? name with
  | none => exact hother
  | some value => exact isShort_of_member? h hmember

theorem isShort_of_toInteger {json : Json} (h : IsShort json) {n : Int}
    (hn : json.toInteger = .ok n) : Number.IsShort n := by
  cases json with
  | int m =>
    cases hn
    exact h
  | bool b => cases b <;> cases hn <;> decide
  | double x =>
    cases x with
    | finite negative m e =>
      cases hn
      exact h _ rfl
    | _ => cases hn
  | str s =>
    rw [toInteger] at hn
    split at hn
    · next m hm =>
      cases hn
      exact Number.isShort_of_readInteger hm
    · cases hn
  | _ => cases hn

/-! ## 2. The reader -/

section

variable {P : Nat → Json → Prop} (hstr : ∀ room s, P room (str s))
  (hscalar : ∀ room cs json rest, scalar cs = .ok (json, rest) → P room json)
  (harr : ∀ room items, (∀ item ∈ items, P room item) → P (room + 1) (arr items))
  (hobj : ∀ room members, (∀ e ∈ members, P room e.2) → P (room + 1) (obj members))

include hstr hscalar harr hobj

/-- What holds of scalars, and of arrays and objects if it holds of their parts with room for one
less of them, holds of every value that is read, and of one whose parts are read one by one. -/
theorem forall_read (calls : Nat) :
    (∀ room cs json rest, value calls room cs = .ok (json, rest) → P room json) ∧
      (∀ room done cs json rest, (∀ item ∈ done, P room item) →
        items calls room done cs = .ok (json, rest) → P (room + 1) json) ∧
      ∀ room done cs json rest, (∀ e ∈ done, P room e.2) →
        members calls room done cs = .ok (json, rest) → P (room + 1) json := by
  -- by induction on the calls that are left, with the parts that are done as the accumulator
  induction calls with
  | zero =>
    refine ⟨fun room cs json rest h => ?_, fun room done cs json rest _ h => ?_,
      fun room done cs json rest _ h => ?_⟩
    · cases h
    · cases h
    · cases h
  | succ calls ih =>
    obtain ⟨hvalue, hitems, hmembers⟩ := ih
    refine ⟨fun room cs json rest h => ?_, fun room done cs json rest hdone h => ?_,
      fun room done cs json rest hdone h => ?_⟩
    · cases cs with
      | nil => cases h
      | cons c tail =>
        rw [value] at h
        split at h
        · split at h
          · cases h
          · cases h
            exact hstr room _
        split at h
        · split at h
          · cases h
          · next hroom =>
            obtain ⟨room, rfl⟩ := Nat.exists_eq_succ_of_ne_zero hroom
            split at h
            · cases h
              exact harr room [] fun _ hitem => absurd hitem List.not_mem_nil
            · exact hitems room [] _ _ _ (fun _ hitem => absurd hitem List.not_mem_nil) h
        split at h
        · split at h
          · cases h
          · next hroom =>
            obtain ⟨room, rfl⟩ := Nat.exists_eq_succ_of_ne_zero hroom
            split at h
            · cases h
              exact hobj room [] fun _ he => absurd he List.not_mem_nil
            · exact hmembers room [] _ _ _ (fun _ he => absurd he List.not_mem_nil) h
        · exact hscalar room _ _ _ h
    · rw [items] at h
      split at h
      · cases h
      · next item tail hitem =>
        have hdone' : ∀ v ∈ item :: done, P room v :=
          List.forall_mem_cons.2 ⟨hvalue _ _ _ _ hitem, hdone⟩
        split at h
        · cases h
          exact harr room _ fun v hv => hdone' v (List.mem_reverse.1 hv)
        · exact hitems room _ _ _ _ hdone' h
        · cases h
    · unfold members at h
      split at h
      · split at h
        · cases h
        · split at h
          · split at h
            · cases h
            · next item tail hitem =>
              have hdone' := fun name =>
                OrderedMap.forall_put (k := name) hdone (hvalue _ _ _ _ hitem)
              dsimp only at h
              split at h
              · cases h
                exact hobj room _ (hdone' _)
              · exact hmembers room _ _ _ _ (hdone' _) h
              · cases h
          · cases h
      · cases h

theorem forall_ofChars {cs : List Char} {json : Json} (h : ofChars cs = .ok json) :
    P maxNesting json := by
  unfold ofChars at h
  split at h
  · next json' hread =>
    cases h
    unfold readWhole at hread
    split at hread
    · cases hread
    · next json'' rest hvalue =>
      split at hread
      · cases hread
        exact (forall_read hstr hscalar harr hobj _).1 _ _ _ _ hvalue
      · cases hread
  · cases h

end

theorem ofChars_of_ofText {cs : List Char} {json : Json} (h : ofText cs = .ok json) :
    ofChars cs = .ok json := by
  cases cs with
  | nil => exact h
  | cons c rest =>
    rw [ofText] at h
    split at h
    · cases h
    · exact h

/-! ## 3. What a reader makes of a text -/

/-- A value that is no array and no object, with a short number if any. -/
structure IsShortScalar (json : Json) : Prop where
  short : json.IsShort
  shown : ∀ room, json.textFaultWithin (room + 1) = none

theorem isShortScalar_int {n : Int} (h : Number.IsShort n) : IsShortScalar (int n) where
  short := h
  shown room := by
    have hshort : isLong n = false := decide_eq_false (Nat.not_lt.2 h)
    rw [textFaultWithin, hshort]
    rfl

theorem isShortScalar_unsigned {negative : Bool} {cs rest : List Char} {json : Json}
    (h : unsigned negative cs = some (.ok json, rest)) : IsShortScalar json := by
  unfold unsigned at h
  split at h
  · cases h
  · next whole rest' hwhole =>
    dsimp only at h
    split at h
    · split at h
      · cases h
      · next hlen =>
        cases h
        -- an integer that was taken has no more digits than characters
        exact isShortScalar_int
          (Number.isShort_ofDigits (List.countP_le_length.trans (Nat.not_lt.1 hlen)) _)
    · cases h
      exact ⟨fun n hn => Double.isShort_of_ofDecimal hn, fun _ => rfl⟩
    · cases h
      exact ⟨fun n hn => Double.isShort_of_ofDecimal hn, fun _ => rfl⟩

theorem isShortScalar_constant {cs rest : List Char} {json : Json}
    (h : constant? cs = some (json, rest)) : IsShortScalar json := by
  obtain ⟨⟨word, value⟩, he, hread⟩ := List.exists_of_findSome?_eq_some h
  have hshort : ∀ e ∈ constants, IsShort e.2 := by
    simp [constants, IsShort, Double.truncate?]
  have hshown : ∀ e ∈ constants, ∀ room, e.2.textFaultWithin (room + 1) = none := by
    simp [constants, textFaultWithin]
  dsimp only at hread
  cases hafter : after? word cs with
  | none => rw [hafter] at hread; cases hread
  | some found =>
    rw [hafter] at hread
    cases hread
    exact ⟨hshort _ he, hshown _ he⟩

theorem isShortScalar_scalar {cs rest : List Char} {json : Json}
    (h : scalar cs = .ok (json, rest)) : IsShortScalar json := by
  unfold scalar at h
  split at h
  · next hconstant =>
    cases h
    exact isShortScalar_constant hconstant
  · dsimp only at h
    split at h
    · next hnumber =>
      cases h
      split at hnumber <;> exact isShortScalar_unsigned hnumber
    · cases h
    · cases h

theorem isShort_ofChars {cs : List Char} {json : Json} (h : ofChars cs = .ok json) :
    IsShort json :=
  forall_ofChars (P := fun _ => IsShort) (fun _ _ => trivial)
    (fun _ _ _ _ hscalar => (isShortScalar_scalar hscalar).short) (fun _ _ => areShort_iff.2)
    (fun _ _ => membersShort_iff.2) h

theorem isShort_ofText {cs : List Char} {json : Json} (h : ofText cs = .ok json) :
    IsShort json :=
  isShort_ofChars (ofChars_of_ofText h)

/-! ## 4. Values that can be shown -/

theorem itemsFaultWithin_eq_none {items : List Json} {room : Nat} :
    itemsFaultWithin items room = none ↔
      ∀ item ∈ items, item.textFaultWithin room = none := by
  induction items with
  | nil => exact ⟨fun _ _ h => absurd h List.not_mem_nil, fun _ => rfl⟩
  | cons item rest ih =>
    rw [itemsFaultWithin, List.forall_mem_cons, ← ih]
    cases item.textFaultWithin room <;> simp

theorem membersFaultWithin_eq_none {members : List (String × Json)} {room : Nat} :
    membersFaultWithin members room = none ↔
      ∀ e ∈ members, e.2.textFaultWithin room = none := by
  induction members with
  | nil => exact ⟨fun _ _ h => absurd h List.not_mem_nil, fun _ => rfl⟩
  | cons member rest ih =>
    obtain ⟨name, value⟩ := member
    rw [membersFaultWithin, List.forall_mem_cons, ← ih]
    cases value.textFaultWithin room <;> simp

/-- A value that was read can be shown, a scalar in the innermost array or object included. -/
theorem textFaultWithin_ofChars {cs : List Char} {json : Json} (h : ofChars cs = .ok json) :
    json.textFaultWithin (maxNesting + 1) = none :=
  forall_ofChars (P := fun room json => json.textFaultWithin (room + 1) = none) (fun _ _ => rfl)
    (fun room _ _ _ hscalar => (isShortScalar_scalar hscalar).shown room)
    (fun _ _ => itemsFaultWithin_eq_none.2) (fun _ _ => membersFaultWithin_eq_none.2) h

mutual

/-- More room does no harm. -/
theorem textFaultWithin_mono : ∀ (json : Json) {room : Nat},
    json.textFaultWithin room = none → json.textFaultWithin (room + 1) = none
  | .null, _, _ => rfl
  | .bool _, _, _ => rfl
  | .double _, _, _ => rfl
  | .str _, _, _ => rfl
  | .int n, 0, h => by cases h
  | .arr items, 0, h => by cases h
  | .obj members, 0, h => by cases h
  | .int n, _ + 1, h => h
  | .arr items, _ + 1, h => itemsFaultWithin_mono items h
  | .obj members, _ + 1, h => membersFaultWithin_mono members h

theorem itemsFaultWithin_mono : ∀ (items : List Json) {room : Nat},
    itemsFaultWithin items room = none → itemsFaultWithin items (room + 1) = none
  | [], _, _ => rfl
  | item :: rest, room, h => by
    rw [itemsFaultWithin_eq_none, List.forall_mem_cons] at h
    rw [itemsFaultWithin, textFaultWithin_mono item h.1]
    exact itemsFaultWithin_mono rest (itemsFaultWithin_eq_none.2 h.2)

theorem membersFaultWithin_mono : ∀ (members : List (String × Json)) {room : Nat},
    membersFaultWithin members room = none → membersFaultWithin members (room + 1) = none
  | [], _, _ => rfl
  | (name, value) :: rest, room, h => by
    rw [membersFaultWithin_eq_none, List.forall_mem_cons] at h
    rw [membersFaultWithin, textFaultWithin_mono value h.1]
    exact membersFaultWithin_mono rest (membersFaultWithin_eq_none.2 h.2)

end

/-- The part of an object that was read can be shown, and so can the parts of it. -/
theorem textFault?_of_member? {cs : List Char} {json value : Json} (h : ofChars cs = .ok json)
    {name : String} (hmember : json.member? name = some value) : value.textFault? = none := by
  have hjson := textFaultWithin_ofChars h
  cases json with
  | obj members =>
    exact membersFaultWithin_eq_none.1 hjson _ (OrderedMap.mem_of_find hmember)
  | _ => cases hmember

theorem textFault?_of_mem {items : List Json} (h : (arr items).textFault? = none) {item : Json}
    (hitem : item ∈ items) : item.textFault? = none :=
  textFaultWithin_mono item (itemsFaultWithin_eq_none.1 h item hitem)

theorem textFault?_of_member {json value : Json} (h : json.textFault? = none) {name : String}
    (hmember : json.member? name = some value) : value.textFault? = none := by
  cases json with
  | obj members =>
    exact textFaultWithin_mono value
      (membersFaultWithin_eq_none.1 h _ (OrderedMap.mem_of_find hmember))
  | _ => cases hmember

theorem textFault?_int {n : Int} (h : Number.IsShort n) : (int n).textFault? = none :=
  (isShortScalar_int h).shown _

end ReplicaCensus.Json
