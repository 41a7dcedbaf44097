import Mathlib
import ReplicaCensus.Proofs.FirstFault
import ReplicaCensus.Proofs.OrderedMap
import ReplicaCensus.Stamp.Json
/-!
# What the reader of a clock keeps of an object

An object is read as a clock if all its members stand for entries: their names for nodes and their
values for counts. The clock then has these entries and no others, but of two names of one node the
later one counts, so an entry is lost when they come with two counts. Else the first member that
stands for no entry says what is wrong, which need not be bad text: a value may hold no number, or
an infinite one.
-/

namespace ReplicaCensus

/-! ## 1. Values for numbers -/

namespace Json

/-- A value of a type that holds no number. -/
def isNoNumber : Json → Bool
  | null => true
  | arr _ => true
  | obj _ => true
  | _ => false

def isInfinite : Json → Bool
  | double (.infinite _) => true
  | _ => false

/-- What kind of error a value is that is no integer depends on its type, and on whether it is an
infinite number. -/
theorem kind_of_toInteger {value : Json} {fault : ConversionFault}
    (h : value.toInteger = .error fault) :
    (fault.kind = "TypeError" ↔ value.isNoNumber = true) ∧
      (fault.kind = "OverflowError" ↔ value.isInfinite = true) ∧
      (fault.kind = "ValueError" ↔ ¬(value.isNoNumber = true ∨ value.isInfinite = true)) := by
  cases value with
  | int n => cases h
  | bool b => cases h
  | double x =>
    cases x with
    | nan => cases h; decide
    | infinite negative => cases h; simp [ConversionFault.kind, isNoNumber, isInfinite]
    | finite negative m e => cases h
  | str s =>
    rw [toInteger] at h
    split at h
    · cases h
    · cases h
      simp [ConversionFault.kind, isNoNumber, isInfinite]
  | null => cases h; decide
  | arr items => cases h; simp [ConversionFault.kind, isNoNumber, isInfinite]
  | obj members => cases h; simp [ConversionFault.kind, isNoNumber, isInfinite]

end Json

/-! ## 2. Members and entries -/

namespace Clock

/-- This member stands for this entry: its name for a node that is not negative, its value for a
count of at least one. -/
structure StandsFor (member : String × Json) (entry : Int × Int) : Prop where
  node : (Json.str member.1).toInteger = .ok entry.1
  count : member.2.toInteger = .ok entry.2
  node_nonneg : 0 ≤ entry.1
  count_pos : 1 ≤ entry.2

/-- Why a member stands for no entry; its name is looked at before its value. -/
inductive Refused : String × Json → StampFault → Prop
  | badName {name : String} {value : Json} {fault : ConversionFault}
    (hname : (Json.str name).toInteger = .error fault) :
    Refused (name, value) (.conversion fault)
  | badValue {name : String} {value : Json} {fault : ConversionFault} {node : Int}
    (hname : (Json.str name).toInteger = .ok node) (hvalue : value.toInteger = .error fault) :
    Refused (name, value) (.conversion fault)
  | outOfRange {name : String} {value : Json} {node count : Int}
    (hname : (Json.str name).toInteger = .ok node) (hvalue : value.toInteger = .ok count)
    (hrange : node < 0 ∨ count < 1) : Refused (name, value) (.badEntry name value)

variable {member : String × Json} {members : List (String × Json)}

theorem readEntry_spec (member : String × Json) :
    match readEntry member.1 member.2 with
    | .ok entry => StandsFor member entry
    | .error fault => Refused member fault := by
  unfold readEntry
  cases hname : (Json.str member.1).toInteger with
  | error fault => exact .badName hname
  | ok node =>
    cases hvalue : member.2.toInteger with
    | error fault => exact .badValue hname hvalue
    | ok count =>
      dsimp only
      by_cases hrange : node < 0 ∨ count < 1
      · rw [if_pos hrange]
        exact .outOfRange hname hvalue hrange
      · rw [if_neg hrange]
        rw [not_or] at hrange
        exact ⟨hname, hvalue, Int.not_lt.1 hrange.1, Int.not_lt.1 hrange.2⟩

theorem readEntry_eq_ok {entry : Int × Int} :
    readEntry member.1 member.2 = .ok entry ↔ StandsFor member entry := by
  constructor
  · intro h
    have hspec := readEntry_spec member
    rw [h] at hspec
    exact hspec
  · intro h
    have hnode := h.node_nonneg
    have hcount := h.count_pos
    rw [readEntry, h.node, h.count]
    dsimp only
    rw [if_neg (by omega)]

theorem refused_of_readEntry {fault : StampFault}
    (h : readEntry member.1 member.2 = .error fault) : Refused member fault := by
  have hspec := readEntry_spec member
  rw [h] at hspec
  exact hspec

/-- A member is refused with a bad value unless it is its value that cannot be converted: then the
kind of value counts. -/
theorem Refused.kind {fault : StampFault} (h : Refused member fault) :
    (fault.kind = "TypeError" ↔
        (∃ node, (Json.str member.1).toInteger = .ok node) ∧ member.2.isNoNumber = true) ∧
      (fault.kind = "OverflowError" ↔
        (∃ node, (Json.str member.1).toInteger = .ok node) ∧ member.2.isInfinite = true) ∧
      (fault.kind = "ValueError" ↔
        ¬((∃ node, (Json.str member.1).toInteger = .ok node) ∧
          (member.2.isNoNumber = true ∨ member.2.isInfinite = true))) := by
  cases h with
  | @badName name value fault hname =>
    -- a name is a text, and bad text is a bad value
    have hno : ¬∃ node, (Json.str name).toInteger = .ok node := by simp [hname]
    obtain ⟨-, -, hkind⟩ := Json.kind_of_toInteger hname
    have hvalue : fault.kind = "ValueError" := hkind.2 (by simp [Json.isNoNumber, Json.isInfinite])
    simp [StampFault.kind, hvalue, hno]
  | @badValue name value fault node hname hvalue =>
    have hyes : ∃ node, (Json.str name).toInteger = .ok node := ⟨node, hname⟩
    obtain ⟨htype, hoverflow, hkind⟩ := Json.kind_of_toInteger hvalue
    simp only [StampFault.kind, htype, hoverflow, hkind, hyes, true_and, and_self]
  | @outOfRange name value node count hname hvalue hrange =>
    have hnumber : value.isNoNumber = false ∧ value.isInfinite = false := by
      cases value with
      | double x => cases x <;> cases hvalue; exact ⟨rfl, rfl⟩
      | int n => exact ⟨rfl, rfl⟩
      | bool b => exact ⟨rfl, rfl⟩
      | str s => exact ⟨rfl, rfl⟩
      | _ => cases hvalue
    simp [StampFault.kind, hnumber]

/-! ## 3. Objects -/

theorem readMembers_eq (members : List (String × Json)) (clock : Clock) :
    readMembers members clock =
      (members.mapM fun member => readEntry member.1 member.2).map fun entries =>
        entries.foldl (fun m e => m.insert e.1 e.2) clock := by
  -- by induction on the members, with the clock so far as the accumulator
  induction members generalizing clock with
  | nil => rfl
  | cons member rest ih =>
    rw [readMembers, mapM_cons_eq]
    cases readEntry member.1 member.2 with
    | error fault => rfl
    | ok entry =>
      dsimp only
      rw [ih]
      cases rest.mapM fun member => readEntry member.1 member.2 <;> rfl

theorem ofJson_obj (members : List (String × Json)) :
    ofJson (.obj members) =
      (members.mapM fun member => readEntry member.1 member.2).map OrderedMap.ofList := by
  unfold ofJson
  split
  · next hnothing =>
    -- an object that counts as nothing has no members
    rw [Json.isNothing, List.isEmpty_iff] at hnothing
    rw [hnothing]
    rfl
  · exact readMembers_eq members OrderedMap.empty

theorem exists_ofJson_obj :
    (∃ clock, ofJson (.obj members) = .ok clock) ↔
      ∀ member ∈ members, ∃ entry, StandsFor member entry := by
  have hall : (∃ found, members.mapM (fun member => readEntry member.1 member.2) = .ok found) ↔
      ∀ member ∈ members, ∃ entry, StandsFor member entry := by
    simp only [exists_mapM_eq_ok, readEntry_eq_ok]
  rw [← hall, ofJson_obj]
  cases members.mapM fun member => readEntry member.1 member.2 with
  | ok entries => exact ⟨fun _ => ⟨entries, rfl⟩, fun _ => ⟨_, rfl⟩⟩
  | error fault => exact ⟨fun ⟨_, h⟩ => (nomatch h), fun ⟨_, h⟩ => (nomatch h)⟩

/-- Each entry of a clock that was read is one that a member stands for. -/
theorem standsFor_of_ofJson {value : Json} {c : Clock} (h : ofJson value = .ok c) {e : Int × Int}
    (he : e ∈ c.entries) :
    ∃ members, value = .obj members ∧ ∃ member ∈ members, StandsFor member e := by
  cases value with
  | obj members =>
    rw [ofJson_obj] at h
    cases hread : members.mapM fun member => readEntry member.1 member.2 with
    | error fault => rw [hread] at h; cases h
    | ok entries =>
      rw [hread] at h
      cases h
      have hall : ∀ e ∈ entries, ∃ member ∈ members, StandsFor member e :=
        forall_of_mapM_eq_ok hread fun member hmember _ hentry =>
          ⟨member, hmember, readEntry_eq_ok.1 hentry⟩
      exact ⟨members, rfl, hall e (OrderedMap.mem_of_mem_ofList he)⟩
  | _ =>
    -- any other value that is read counts as nothing
    unfold ofJson at h
    split at h
    · cases h
      exact absurd he List.not_mem_nil
    · cases h

/-- What becomes of an object that is read as a clock. If all its members stand for entries, the
clock has of these entries, for each node, the last, and no others; so each entry is kept if and
only if no two names of one node come with different counts. Else the first member that stands for
no entry is refused: with a bad value, unless its name is a node and its value holds no number or an
infinite one. -/
theorem ofJson_keeps (members : List (String × Json)) :
    ((∃ clock, ofJson (.obj members) = .ok clock) ↔
        ∀ member ∈ members, ∃ entry, StandsFor member entry) ∧
      match ofJson (.obj members) with
      | .ok clock =>
        ∃ entries, List.Forall₂ StandsFor members entries ∧
          (∀ node, clock.get? node = OrderedMap.find node entries.reverse) ∧
          (∀ e ∈ clock.entries, e ∈ entries) ∧
          ((∀ e ∈ entries, clock.get? e.1 = some e.2) ↔
            ∀ e ∈ entries, ∀ e' ∈ entries, e.1 = e'.1 → e.2 = e'.2)
      | .error fault =>
        ∃ front member behind, members = front ++ member :: behind ∧
          (∀ good ∈ front, ∃ entry, StandsFor good entry) ∧ Refused member fault ∧
          (fault.kind = "TypeError" ↔
            (∃ node, (Json.str member.1).toInteger = .ok node) ∧ member.2.isNoNumber = true) ∧
          (fault.kind = "OverflowError" ↔
            (∃ node, (Json.str member.1).toInteger = .ok node) ∧ member.2.isInfinite = true) ∧
          (fault.kind = "ValueError" ↔
            ¬((∃ node, (Json.str member.1).toInteger = .ok node) ∧
              (member.2.isNoNumber = true ∨ member.2.isInfinite = true))) := by
  refine ⟨exists_ofJson_obj, ?_⟩
  rw [ofJson_obj]
  cases hread : members.mapM fun member => readEntry member.1 member.2 with
  | ok entries =>
    refine ⟨entries, (mapM_eq_ok.1 hread).imp fun _ _ => readEntry_eq_ok.1,
      OrderedMap.get?_ofList entries, fun e => OrderedMap.mem_of_mem_ofList,
      OrderedMap.get?_ofList_eq_some_iff⟩
  | error fault =>
    obtain ⟨front, member, behind, hsplit, hfront, hmember⟩ := mapM_eq_error.1 hread
    have hrefused := refused_of_readEntry hmember
    refine ⟨front, member, behind, hsplit, fun good hgood => ?_, hrefused, hrefused.kind⟩
    obtain ⟨entry, hentry⟩ := hfront good hgood
    exact ⟨entry, readEntry_eq_ok.1 hentry⟩

/-- Two names of one node, of which the first is lost, and values that are refused with other errors
than bad values. -/
theorem ofJson_aliased :
    StandsFor ("1", .int 5) (1, 5) ∧ StandsFor ("01", .int 3) (1, 3) ∧
      (ofJson (.obj [("1", .int 5), ("01", .int 3)])).toOption.bind (fun c => c.get? 1) = some 3 ∧
      (∃ fault, ofJson (.obj [("0", .null)]) = .error fault ∧ fault.kind = "TypeError") ∧
      ∃ fault, ofJson (.obj [("0", .double (.infinite false))]) = .error fault ∧
        fault.kind = "OverflowError" := by
  have hone : (Json.str "1").toInteger = .ok 1 := by decide +kernel
  have hother : (Json.str "01").toInteger = .ok 1 := by decide +kernel
  refine ⟨⟨hone, rfl, by decide, by decide⟩, ⟨hother, rfl, by decide, by decide⟩, ?_,
    ⟨_, rfl, rfl⟩, _, rfl, rfl⟩
  decide +kernel

end Clock

end ReplicaCensus
