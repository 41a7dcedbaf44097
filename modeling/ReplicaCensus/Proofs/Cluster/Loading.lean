import Mathlib
import ReplicaCensus.Proofs.Cluster.Document
import ReplicaCensus.Proofs.Cluster.Validity
/-!
# What the reader of cluster files takes, and what it lets escape

The content of a file is no text, or no JSON that can be read, or a value of which a cluster is
made. Everything in such a value can be shown, so that of the errors that pass the readers of values
only the overflow is left.
-/

namespace ReplicaCensus

/-! ## 1. Values that were read can be shown -/

namespace Json

theorem textFault?_of_asText {value : Json} {fault : TextFault}
    (h : value.asText = .error fault) : value.textFault? = some fault := by
  unfold asText at h
  split at h
  · cases h
  · split at h
    · next fault' hfault =>
      cases h
      exact hfault
    · cases h

theorem not_hasDeep_of_textFault? {entry : Json} (h : entry.textFault? = none) (name : String) :
    ¬entry.HasDeep name := by
  rintro ⟨value, hvalue, hdeep⟩
  have hnone := textFault?_of_member h hvalue
  rw [textFault?_of_asText hdeep] at hnone
  cases hnone

theorem isLong_eq_false {n : Int} (h : Number.IsShort n) : isLong n = false :=
  decide_eq_false (Nat.not_lt.2 h)

theorem isLong_of_hasInteger {entry : Json} (h : entry.IsShort) {name : String} {n : Int}
    (hn : entry.HasInteger name n) : isLong n = false := by
  obtain ⟨value, hvalue, hn⟩ := hn
  exact isLong_eq_false (isShort_of_toInteger (isShort_of_member? h hvalue) hn)

end Json

theorem Member.not_noText {entry : Json} (hshown : entry.textFault? = none) (hshort : entry.IsShort)
    (fault : TextFault) : ¬NoText entry fault := by
  intro h
  cases h with
  | host hdeep => exact Json.not_hasDeep_of_textFault? hshown _ hdeep.2
  | entry _ _ _ h => rw [hshown] at h; cases h
  | id hreads _ hlong => rw [Json.isLong_of_hasInteger hshort hreads.id] at hlong; cases hlong

theorem Schema.not_noText {entry : Json} (hshown : entry.textFault? = none) (hshort : entry.IsShort)
    (fault : TextFault) : ¬NoText entry fault := by
  intro h
  cases h with
  | deep hdeep =>
    rcases hdeep with hname | ⟨-, -, hstrategy⟩
    · exact Json.not_hasDeep_of_textFault? hshown _ hname
    · exact Json.not_hasDeep_of_textFault? hshown _ hstrategy
  | entry _ _ _ h => rw [hshown] at h; cases h
  | factor hreads _ _ hlong =>
    rw [Json.isLong_of_hasInteger hshort hreads.factor] at hlong
    cases hlong

theorem Schema.not_listNoText {value : Json} (hshown : value.textFault? = none)
    (hshort : value.IsShort) (fault : TextFault) : ¬ListNoText value fault := by
  rintro ⟨entries, rfl, front, entry, behind, rfl, -, hentry⟩
  exact Schema.not_noText (Json.textFault?_of_mem hshown (by simp))
    (Json.areShort_iff.1 hshort entry (by simp)) fault hentry

theorem Topology.not_noText {value : Json}
    (hshown : ∀ name part, value.member? name = some part → part.textFault? = none)
    (hshort : value.IsShort) (fault : TextFault) : ¬NoText value fault := by
  intro h
  cases h with
  | member hnodes _ h =>
    obtain ⟨front, entry, behind, rfl, -, hentry⟩ := h
    have hentries := Json.areShort_iff.1 (Json.isShort_of_member? hshort hnodes)
    exact Member.not_noText (Json.textFault?_of_mem (hshown _ _ hnodes) (by simp))
      (hentries entry (by simp)) fault hentry
  | id hnodes _ hmembers hid hlong =>
    -- the id that is repeated is the id of a member that was read
    obtain ⟨front, m, behind, rfl, -, -, rfl⟩ := hid
    have hentries := Json.areShort_iff.1 (Json.isShort_of_member? hshort hnodes)
    have hsound := isSound_of_readMembers hentries
      ((readMembers_eq_mapM _).trans (mapM_eq_ok.2 hmembers)) m (by simp)
    rw [Json.isLong_eq_false hsound.shortId] at hlong
    cases hlong
  | vnodes _ hvnodes _ _ _ hlong =>
    rcases hvnodes with hn | ⟨-, rfl⟩
    · rw [Json.isLong_of_hasInteger hshort hn] at hlong
      cases hlong
    · exact absurd hlong (by decide)

/-! ## 2. Cluster files -/

namespace ClusterDescription

structure IsValid (c : ClusterDescription) : Prop where
  topology : c.topology.IsValid
  schemas : Schema.AreValid c.schemas

/-- What is read first and cannot be is infinite; the stores come behind the topology. -/
def HasInfinite (value : Json) : Prop :=
  Topology.HasInfinite value ∨
    (∃ topology, Topology.ofJson value = .ok topology) ∧
      Schema.ListHasInfinite ((value.member? "stores").getD (.arr []))

def NoText (value : Json) (fault : TextFault) : Prop :=
  Topology.NoText value fault ∨
    (∃ topology, Topology.ofJson value = .ok topology) ∧
      Schema.ListNoText ((value.member? "stores").getD (.arr [])) fault

theorem not_noText_of_ofText {cs : List Char} {value : Json} (h : Json.ofText cs = .ok value)
    (fault : TextFault) : ¬NoText value fault := by
  have hread := Json.ofChars_of_ofText h
  have hshort := Json.isShort_ofText h
  rintro (htopology | ⟨-, hstores⟩)
  · exact Topology.not_noText (fun _ _ => Json.textFault?_of_member? hread) hshort fault htopology
  · refine Schema.not_listNoText ?_ (Json.isShort_getD hshort ?_ "stores") fault hstores
    · cases hmember : value.member? "stores" with
      | none => rfl
      | some stores => exact Json.textFault?_of_member? hread hmember
    · exact Json.areShort_iff.2 fun _ h => absurd h List.not_mem_nil

/-- The kinds of errors that the content of a cluster file has besides metadata errors. -/
inductive Escapes (content : Bytes) : String → Prop
  | notText {fault : DecodeFault} (htext : Utf8.decode content = .error fault) :
    Escapes content "UnicodeDecodeError"
  | tooLong {cs : List Char} {digits : Nat} (htext : Utf8.decode content = .ok cs)
    (hjson : Json.ofText (Text.foldNewlines cs) = .error (.tooLong digits)) :
    Escapes content "ValueError"
  | tooDeep {cs : List Char} {container : Json.Container} (htext : Utf8.decode content = .ok cs)
    (hjson : Json.ofText (Text.foldNewlines cs) = .error (.tooDeep container)) :
    Escapes content "RecursionError"
  | infinite {cs : List Char} {value : Json} (htext : Utf8.decode content = .ok cs)
    (hjson : Json.ofText (Text.foldNewlines cs) = .ok value) (hvalue : HasInfinite value) :
    Escapes content "OverflowError"

theorem ofJson_eq_error {value : Json} {fault : DescriptionFault} :
    ofJson value = .error fault ↔
      Topology.ofJson value = .error fault ∨
        (∃ topology, Topology.ofJson value = .ok topology) ∧
          Schema.listOfJson ((value.member? "stores").getD (.arr [])) = .error fault := by
  unfold ofJson
  cases Topology.ofJson value with
  | error fault' => simp
  | ok topology =>
    dsimp only
    split
    · next fault' hfault => simp [hfault]
    · next schemas hschemas => simp [hschemas]

theorem ofJson_eq_infinite {value : Json} :
    ofJson value = .error .infinite ↔ HasInfinite value := by
  rw [ofJson_eq_error, Topology.ofJson_eq_infinite, Schema.listOfJson_eq_infinite, HasInfinite]

theorem ofJson_eq_noText {value : Json} {fault : TextFault} :
    ofJson value = .error (.noText fault) ↔ NoText value fault := by
  rw [ofJson_eq_error, Topology.ofJson_eq_noText, Schema.listOfJson_eq_noText, NoText]

theorem isValid_of_ofJson {value : Json} {c : ClusterDescription} (h : ofJson value = .ok c) :
    c.IsValid := by
  unfold ofJson at h
  split at h
  · cases h
  · next topology htopology =>
    split at h
    · cases h
    · next schemas hschemas =>
      cases h
      exact ⟨Topology.isValid_of_ofJson htopology,
        (Schema.areSound_of_listOfJson hschemas).areValid⟩

variable {tree : FileTree} {path : String} {content : Bytes}

theorem load_eq_ok {c : ClusterDescription} (hread : tree.read path = .ok content)
    (h : load tree path = .ok c) : ∃ value, ofJson value = .ok c := by
  rw [load, hread] at h
  dsimp only at h
  split at h
  · cases h
  · unfold ofText at h
    split at h
    · cases h
    · cases h
    · cases h
    · next value _ =>
      split at h
      · cases h
      · next c' hc =>
        cases h
        exact ⟨value, hc⟩

theorem kind_of_load {error : LoadError} (hread : tree.read path = .ok content)
    (h : load tree path = .error error) :
    error.kind = "MetadataError" ∨ Escapes content error.kind := by
  rw [load, hread] at h
  dsimp only at h
  split at h
  · next fault htext =>
    cases h
    exact .inr (.notText htext)
  · next cs htext =>
    unfold ofText at h
    split at h
    · next digits hjson =>
      cases h
      exact .inr (.tooLong htext hjson)
    · next container hjson =>
      cases h
      exact .inr (.tooDeep htext hjson)
    · cases h
      exact .inl rfl
    · next value hjson =>
      split at h
      · next fault hvalue =>
        cases h
        cases fault with
        | metadata error => exact .inl rfl
        | infinite => exact .inr (.infinite htext hjson (ofJson_eq_infinite.1 hvalue))
        | noText fault =>
          exact absurd (ofJson_eq_noText.1 hvalue) (not_noText_of_ofText hjson fault)
      · cases h

theorem load_of_escapes {escaped : String} (hread : tree.read path = .ok content)
    (h : Escapes content escaped) :
    ∃ error, load tree path = .error error ∧ error.kind = escaped := by
  rw [load, hread]
  dsimp only
  cases h with
  | notText htext => rw [htext]; exact ⟨_, rfl, rfl⟩
  | tooLong htext hjson =>
    rw [htext]
    dsimp only
    rw [ofText, hjson]
    exact ⟨_, rfl, rfl⟩
  | tooDeep htext hjson =>
    rw [htext]
    dsimp only
    rw [ofText, hjson]
    exact ⟨_, rfl, rfl⟩
  | infinite htext hjson hvalue =>
    rw [htext]
    dsimp only
    rw [ofText, hjson]
    dsimp only
    rw [ofJson_eq_infinite.2 hvalue]
    exact ⟨_, rfl, rfl⟩

theorem judged_load (hread : tree.read path = .ok content) :
    Judged LoadError.kind (load tree path) IsValid (Escapes content) where
  valid c h := by
    obtain ⟨value, hvalue⟩ := load_eq_ok hread h
    exact isValid_of_ofJson hvalue
  metadata error h := kind_of_load hread h
  escapes escaped h := ⟨by cases h <;> decide, load_of_escapes hread h⟩

/-- What is read from any value or any file is valid or a metadata error, but for the errors that
escape. These are, for values, an overflow where an infinite number comes before all other faults,
and the fault of a text where an integer of too many digits or too deep a nest has to be written.
With files they are the overflow, and the errors of a content that is no text, has a number of too
many digits or is nested too deep. -/
theorem descriptions_judged (value : Json) (tree : FileTree) (path : String) :
    Judged DescriptionFault.kind (Member.ofJson value) (fun m => 0 ≤ m.id)
        (EscapesIf (Member.HasInfinite value) (Member.NoText value)) ∧
      Judged DescriptionFault.kind (Topology.ofJson value) Topology.IsValid
        (EscapesIf (Topology.HasInfinite value) (Topology.NoText value)) ∧
      Judged DescriptionFault.kind (Schema.ofJson value) Schema.IsValid
        (EscapesIf (Schema.HasInfinite value) (Schema.NoText value)) ∧
      Judged DescriptionFault.kind (Schema.listOfJson value) Schema.AreValid
        (EscapesIf (Schema.ListHasInfinite value) (Schema.ListNoText value)) ∧
      match tree.read path with
      | .error error => load tree path = .error (.file error)
      | .ok content => Judged LoadError.kind (load tree path) IsValid (Escapes content) := by
  refine ⟨Member.judged_ofJson value, Topology.judged_ofJson value, Schema.judged_ofJson value,
    Schema.judged_listOfJson value, ?_⟩
  cases hread : tree.read path with
  | error error => rw [load, hread]
  | ok content => exact judged_load hread

/-- Arrays in arrays. -/
def nested : Nat → Json
  | 0 => .arr []
  | depth + 1 => .arr [nested depth]

theorem textFaultWithin_nested (depth room : Nat) :
    (nested (depth + room)).textFaultWithin room = some .tooDeep := by
  induction room with
  | zero => cases depth <;> rfl
  | succ room ih =>
    show Json.itemsFaultWithin [nested (depth + room)] room = some .tooDeep
    rw [Json.itemsFaultWithin, ih]

theorem asText_nested (depth : Nat) :
    (nested (depth + 1 + Json.maxNesting)).asText = .error .tooDeep := by
  have htext : (nested (depth + 1 + Json.maxNesting)).textFault? = some .tooDeep :=
    textFaultWithin_nested _ _
  rw [Nat.add_right_comm] at htext ⊢
  change (Json.arr [nested (depth + Json.maxNesting)]).textFault? = _ at htext
  show (Json.arr [nested (depth + Json.maxNesting)]).asText = _
  simp only [Json.asText, htext]

/-- An infinite number of positions is an overflow, and so is an infinite id or replication factor;
a file of no text has an error of its own. A negative id of 4301 digits has no message, and a host
of arrays that nest too deep is no text. -/
theorem descriptions_escape :
    (∃ fault, Topology.ofJson (.obj [("nodes", .arr []),
        ("vnodes_per_node", .double (.infinite false))]) = .error fault ∧
        fault.kind = "OverflowError") ∧
      (∃ fault, Member.ofJson (.obj [("id", .double (.infinite false))]) = .error fault ∧
        fault.kind = "OverflowError") ∧
      (∃ fault, Schema.listOfJson (.arr [.obj [("name", .str "s"),
        ("replication_factor", .double (.infinite true))]]) = .error fault ∧
        fault.kind = "OverflowError") ∧
      (∃ error, load (OrderedMap.empty.insert ["c.json"] (.file [0xFF])) "c.json" = .error error ∧
        error.kind = "UnicodeDecodeError") ∧
      (∃ fault, Member.ofJson (.obj [("id", .int (-(10 ^ 4300))), ("host", .str "h"),
        ("port", .int 1)]) = .error fault ∧ fault.kind = "ValueError") ∧
      ∃ fault, Member.ofJson (.obj [("id", .int 0), ("host", nested 1200), ("port", .int 1)]) =
        .error fault ∧ fault.kind = "RecursionError" := by
  refine ⟨⟨_, rfl, rfl⟩, ⟨_, rfl, rfl⟩, ⟨_, rfl, rfl⟩, ?_, ?_, ?_⟩
  rotate_left
  · have hneg : (-(10 ^ 4300) : Int) < 0 := Int.neg_neg_of_pos (Int.pow_pos (by decide))
    have hlong : Json.isLong (-(10 ^ 4300)) = true := by decide +kernel
    exact ⟨_, Member.ofJson_eq_noText.2 (.id (m := ⟨-(10 ^ 4300), "h", 1⟩)
      ⟨⟨_, rfl, rfl⟩, ⟨_, rfl, rfl⟩, ⟨_, rfl, rfl⟩⟩ hneg hlong), rfl⟩
  · exact ⟨_, Member.ofJson_eq_noText.2 (.host ⟨⟨0, _, rfl, rfl⟩, _, rfl, asText_nested 219⟩), rfl⟩
  have hread : FileTree.read (OrderedMap.empty.insert ["c.json"] (.file [0xFF])) "c.json" =
      .ok [0xFF] := by decide +kernel
  have hdecode : Utf8.decode [0xFF] = .error ⟨"utf-8", 0, [0xFF], .invalidStart⟩ := by
    rw [Utf8.decode, Utf8.decodeFrom]
    rfl
  refine ⟨.notText ⟨"utf-8", 0, [0xFF], .invalidStart⟩, ?_, rfl⟩
  rw [load, hread]
  dsimp only
  rw [hdecode]

end ClusterDescription

end ReplicaCensus
