import Mathlib
import ReplicaCensus.Proofs.Cluster.Fields
import ReplicaCensus.Proofs.Cluster.Json
/-!
# What the readers of a description take, and what they let escape

A reader of members, of topologies or of stores is there to return a valid description or to say
what is wrong with the metadata. Errors of another kind pass all of them where an infinite number
stands for an integer, and where a value that is needed in a text, be it the text of a member or the
message about the metadata, has an integer of too many digits or is nested too deep.
-/

namespace ReplicaCensus

/-! ## 1. Readers that judge what they read -/

/-- The result of a reader: what it returns is valid, and its errors are metadata errors, but for
the kinds that escape, which are those that `Escapes` says and no others. -/
structure Judged {ε α : Type} (kind : ε → String) (result : Except ε α) (Valid : α → Prop)
    (Escapes : String → Prop) : Prop where
  valid : ∀ x, result = .ok x → Valid x
  metadata : ∀ fault, result = .error fault → kind fault = "MetadataError" ∨ Escapes (kind fault)
  escapes : ∀ escaped, Escapes escaped →
    escaped ≠ "MetadataError" ∧ ∃ fault, result = .error fault ∧ kind fault = escaped

/-- What escapes the readers of values: an overflow under a condition, and the fault of a text that
is needed and cannot be written. -/
inductive EscapesIf (Infinite : Prop) (NoText : TextFault → Prop) : String → Prop
  | overflow (h : Infinite) : EscapesIf Infinite NoText "OverflowError"
  | text {fault : TextFault} (h : NoText fault) : EscapesIf Infinite NoText fault.kind

theorem TextFault.kind_ne (fault : TextFault) : fault.kind ≠ "MetadataError" := by
  cases fault <;> decide

theorem judged_of_iff {α : Type} {result : Except DescriptionFault α} {Valid : α → Prop}
    {Infinite : Prop} {NoText : TextFault → Prop} (hvalid : ∀ x, result = .ok x → Valid x)
    (hinfinite : result = .error .infinite ↔ Infinite)
    (htext : ∀ {fault}, result = .error (.noText fault) ↔ NoText fault) :
    Judged DescriptionFault.kind result Valid (EscapesIf Infinite NoText) where
  valid := hvalid
  metadata := by
    intro fault hfault
    cases fault with
    | metadata error => exact .inl rfl
    | infinite => exact .inr (.overflow (hinfinite.1 hfault))
    | noText fault => exact .inr (.text (htext.1 hfault))
  escapes := by
    intro escaped h
    cases h with
    | overflow h => exact ⟨by decide, .infinite, hinfinite.2 h, rfl⟩
    | text h => exact ⟨TextFault.kind_ne _, .noText _, htext.2 h, rfl⟩

/-- An item behind readable ones is bad. -/
def FirstBad {ε α β : Type} (read : α → Except ε β) (Bad : α → Prop) (items : List α) : Prop :=
  ∃ front item behind, items = front ++ item :: behind ∧
    (∀ good ∈ front, ∃ y, read good = .ok y) ∧ Bad item

theorem mapM_eq_error_iff_firstBad {ε α β : Type} {read : α → Except ε β} {Bad : α → Prop}
    {fault : ε} (h : ∀ item, read item = .error fault ↔ Bad item) (items : List α) :
    items.mapM read = .error fault ↔ FirstBad read Bad items := by
  simp only [mapM_eq_error, FirstBad, h]

/-! ## 2. Members -/

namespace Member

/-- The member that an entry describes. -/
structure Reads (entry : Json) (m : Member) : Prop where
  id : entry.HasInteger "id" m.id
  host : entry.HasText "host" m.host
  port : entry.HasInteger "port" m.port

/-- What cannot be read first of an entry is infinite. -/
def HasInfinite (entry : Json) : Prop :=
  entry.HasInfinite "id" ∨
    (∃ id, entry.HasInteger "id" id) ∧ (∃ host, entry.HasText "host" host) ∧
      entry.HasInfinite "port"

/-- What cannot be read first of an entry is nested too deep. -/
def HasDeep (entry : Json) : Prop := (∃ id, entry.HasInteger "id" id) ∧ entry.HasDeep "host"

/-- The text that is needed of an entry and cannot be written: the host, the entry itself where it
describes no member for another reason, or its negative id. -/
inductive NoText (entry : Json) : TextFault → Prop
  | host (h : HasDeep entry) : NoText entry .tooDeep
  | entry {fault : TextFault} (hreads : ∀ m, ¬Reads entry m) (hinfinite : ¬HasInfinite entry)
    (hdeep : ¬HasDeep entry) (h : entry.textFault? = some fault) : NoText entry fault
  | id {m : Member} (hreads : Reads entry m) (hneg : m.id < 0) (hlong : Json.isLong m.id = true) :
    NoText entry .tooLong

theorem readFields_iff {entry : Json} {m : Member} :
    readFields entry = .ok m ↔ Reads entry m := by
  rw [readFields_eq_ok, Json.requiredInteger_eq_ok, Json.requiredText_eq_ok,
    Json.requiredInteger_eq_ok]
  exact ⟨fun h => ⟨h.1, h.2.1, h.2.2⟩, fun h => ⟨h.id, h.host, h.port⟩⟩

theorem readFields_eq_error {entry : Json} {fault : EntryFault} :
    readFields entry = .error fault ↔
      entry.requiredInteger "id" = .error fault ∨
        (∃ id, entry.requiredInteger "id" = .ok id) ∧
          (entry.requiredText "host" = .error fault ∨
            (∃ host, entry.requiredText "host" = .ok host) ∧
              entry.requiredInteger "port" = .error fault) := by
  unfold readFields
  cases entry.requiredInteger "id" with
  | error fault => simp [bind, Except.bind]
  | ok id =>
    cases entry.requiredText "host" with
    | error fault => simp [bind, Except.bind]
    | ok host =>
      cases entry.requiredInteger "port" with
      | error fault => simp [bind, Except.bind]
      | ok port => simp [bind, Except.bind, pure, Except.pure]

theorem readFields_eq_fromInfinity {entry : Json} :
    readFields entry = .error (.conversion .fromInfinity) ↔ HasInfinite entry := by
  simp only [readFields_eq_error, Json.requiredInteger_eq_fromInfinity, Json.requiredInteger_eq_ok,
    Json.requiredText_eq_ok, Json.requiredText_ne_conversion, false_or, HasInfinite]

theorem readFields_eq_tooDeep {entry : Json} :
    readFields entry = .error (.noText .tooDeep) ↔ HasDeep entry := by
  simp only [readFields_eq_error, Json.requiredInteger_ne_noText, Json.requiredInteger_eq_ok,
    Json.requiredText_eq_tooDeep, and_false, or_false, false_or, HasDeep]

theorem ofJson_eq_infinite {entry : Json} :
    Member.ofJson entry = .error .infinite ↔ HasInfinite entry := by
  rw [← readFields_eq_fromInfinity, Member.ofJson]
  cases readFields entry with
  | error fault => simp [DescriptionFault.ofEntry_eq_infinite]
  | ok m =>
    dsimp only
    split <;> simp [DescriptionFault.ofError_ne_infinite]

theorem ofJson_eq_noText {entry : Json} {fault : TextFault} :
    Member.ofJson entry = .error (.noText fault) ↔ NoText entry fault := by
  have hsplit : Member.ofJson entry = .error (.noText fault) ↔
      (∃ f, readFields entry = .error f ∧
        DescriptionFault.ofEntry (.badMember entry) f = .noText fault) ∨
      ∃ m, readFields entry = .ok m ∧ m.id < 0 ∧ (Json.int m.id).textFault? = some fault := by
    unfold Member.ofJson
    cases readFields entry with
    | error f => simp
    | ok m =>
      by_cases hid : m.id < 0
      · simp [hid, DescriptionFault.ofError_eq_noText, MetadataError.textFault?,
          MetadataError.subject?]
      · simp [hid]
  have hshown : ∀ f, (MetadataError.badMember entry f).textFault? = entry.textFault? :=
    fun _ => rfl
  rw [hsplit, DescriptionFault.exists_ofEntry_eq_noText hshown]
  simp only [ne_eq, readFields_iff, readFields_eq_fromInfinity, readFields_eq_tooDeep,
    Json.textFault?_int_eq_some]
  constructor
  · rintro ((⟨hdeep, rfl⟩ | ⟨hreads, hinfinite, hdeep, htext⟩) | ⟨m, hreads, hneg, hlong, rfl⟩)
    · exact .host hdeep
    · exact .entry hreads hinfinite hdeep htext
    · exact .id hreads hneg hlong
  · intro h
    cases h with
    | host hdeep => exact .inl (.inl ⟨hdeep, rfl⟩)
    | entry hreads hinfinite hdeep htext =>
      exact .inl (.inr ⟨hreads, hinfinite, hdeep, htext⟩)
    | id hreads hneg hlong => exact .inr ⟨_, hreads, hneg, hlong, rfl⟩

theorem id_nonneg_of_ofJson {entry : Json} {m : Member} (h : Member.ofJson entry = .ok m) :
    0 ≤ m.id := by
  unfold Member.ofJson at h
  split at h
  · cases h
  · split at h
    · cases h
    · next hid =>
      cases h
      exact Int.not_lt.1 hid

theorem judged_ofJson (entry : Json) :
    Judged DescriptionFault.kind (Member.ofJson entry) (fun m => 0 ≤ m.id)
      (EscapesIf (HasInfinite entry) (NoText entry)) :=
  judged_of_iff (fun _ => id_nonneg_of_ofJson) ofJson_eq_infinite ofJson_eq_noText

end Member

/-! ## 3. Topologies -/

namespace Topology

/-- A topology as it should be. -/
structure IsValid (t : Topology) : Prop where
  nodup : (t.members.map Member.id).Nodup
  nonneg : ∀ m ∈ t.members, 0 ≤ m.id
  vnodes : 1 ≤ t.vnodes

/-- The number of positions that a value gives, or the default. -/
def HasVnodes (value : Json) (n : Int) : Prop :=
  value.HasInteger "vnodes_per_node" n ∨
    value.member? "vnodes_per_node" = none ∧ n = defaultVnodes

/-- There are entries to read, and what cannot be read first is an infinite number: the number of
positions comes before the members. -/
def HasInfinite (value : Json) : Prop :=
  ∃ entries, value.member? "nodes" = some (.arr entries) ∧
    (value.HasInfinite "vnodes_per_node" ∨
      (∃ n, HasVnodes value n) ∧ FirstBad Member.ofJson Member.HasInfinite entries)

/-- The first member whose id another member has before it. -/
def FirstRepeats (members : List Member) (id : Int) : Prop :=
  ∃ front m behind, members = front ++ m :: behind ∧ (front.map Member.id).Nodup ∧
    m.id ∈ front.map Member.id ∧ m.id = id

/-- The text that is needed of a value and cannot be written: one of a member, or a repeated id, or
a number of positions that is none. -/
inductive NoText (value : Json) : TextFault → Prop
  | member {entries : List Json} {n : Int} {fault : TextFault}
    (hnodes : value.member? "nodes" = some (.arr entries)) (hvnodes : HasVnodes value n)
    (h : FirstBad Member.ofJson (fun entry => Member.NoText entry fault) entries) :
    NoText value fault
  | id {entries : List Json} {n : Int} {members : List Member} {id : Int}
    (hnodes : value.member? "nodes" = some (.arr entries)) (hvnodes : HasVnodes value n)
    (hmembers : entries.Forall₂ (fun entry m => Member.ofJson entry = .ok m) members)
    (hid : FirstRepeats members id) (hlong : Json.isLong id = true) : NoText value .tooLong
  | vnodes {entries : List Json} {n : Int} {members : List Member}
    (hnodes : value.member? "nodes" = some (.arr entries)) (hvnodes : HasVnodes value n)
    (hmembers : entries.Forall₂ (fun entry m => Member.ofJson entry = .ok m) members)
    (hids : (members.map Member.id).Nodup) (hn : n < 1) (hlong : Json.isLong n = true) :
    NoText value .tooLong

theorem readVnodes_eq_infinite {value : Json} :
    readVnodes value = .error .infinite ↔ value.HasInfinite "vnodes_per_node" := by
  unfold readVnodes Json.HasInfinite
  cases value.member? "vnodes_per_node" with
  | none => simp [Json.toInteger]
  | some found =>
    simp only [Option.getD_some, Option.some_inj, ← Json.toInteger_eq_fromInfinity]
    split
    · next n hn => simp [hn]
    · next hinfinite => simp [hinfinite]
    · next fault hne hfault =>
      rw [hfault]
      simpa [DescriptionFault.ofError_ne_infinite] using hne

theorem readVnodes_eq_ok {value : Json} {n : Int} :
    readVnodes value = .ok n ↔ HasVnodes value n := by
  unfold readVnodes HasVnodes Json.HasInteger
  cases value.member? "vnodes_per_node" with
  | none => simp [Json.toInteger, eq_comm]
  | some found =>
    simp only [Option.getD_some, Option.some_inj]
    split
    · next n hn => simp [hn]
    · next hinfinite => simp [hinfinite]
    · next fault hne hfault => simp [hfault]

/-- The message about the number of positions shows no value. -/
theorem readVnodes_ne_noText (value : Json) (fault : TextFault) :
    readVnodes value ≠ .error (.noText fault) := by
  intro h
  unfold readVnodes at h
  split at h
  · cases h
  · cases h
  · have hnone := DescriptionFault.ofError_eq_noText.1 (Except.error.inj h)
    cases hnone

theorem firstDuplicate_eq_some {seen : List Int} {members : List Member} {id : Int} :
    firstDuplicate seen members = some id ↔
      ∃ front m behind, members = front ++ m :: behind ∧ (front.map Member.id).Nodup ∧
        (∀ x ∈ front, x.id ∉ seen) ∧ (m.id ∈ seen ∨ m.id ∈ front.map Member.id) ∧ m.id = id := by
  induction members generalizing seen with
  | nil => simp [firstDuplicate]
  | cons first rest ih =>
    rw [firstDuplicate]
    split
    · next hseen =>
      constructor
      · intro h
        exact ⟨[], first, rest, rfl, List.nodup_nil, by simp, .inl hseen, Option.some.inj h⟩
      · rintro ⟨front, m, behind, hsplit, -, hfront, -, rfl⟩
        cases front with
        | nil =>
          cases hsplit
          rfl
        | cons x front =>
          cases hsplit
          exact absurd hseen (hfront _ List.mem_cons_self)
    · next hseen =>
      rw [ih]
      constructor
      · rintro ⟨front, m, behind, rfl, hnd, hfront, hm, rfl⟩
        refine ⟨first :: front, m, behind, rfl, ?_, ?_, ?_, rfl⟩
        · rw [List.map_cons, List.nodup_cons]
          refine ⟨fun hmem => ?_, hnd⟩
          obtain ⟨x, hx, hid⟩ := List.mem_map.1 hmem
          exact hfront x hx (hid ▸ List.mem_cons_self)
        · exact List.forall_mem_cons.2
            ⟨hseen, fun x hx h => hfront x hx (List.mem_cons_of_mem _ h)⟩
        · rw [List.map_cons, List.mem_cons]
          rcases hm with hm | hm
          · rcases List.mem_cons.1 hm with he | hm
            · exact .inr (.inl he)
            · exact .inl hm
          · exact .inr (.inr hm)
      · rintro ⟨front, m, behind, hsplit, hnd, hfront, hm, rfl⟩
        cases front with
        | nil =>
          cases hsplit
          rcases hm with hm | hm
          · exact absurd hm hseen
          · exact absurd hm List.not_mem_nil
        | cons x front =>
          cases hsplit
          rw [List.map_cons, List.nodup_cons] at hnd
          rw [List.map_cons, List.mem_cons] at hm
          refine ⟨front, m, behind, rfl, hnd.2, fun y hy h => ?_, ?_, rfl⟩
          · rcases List.mem_cons.1 h with he | h
            · exact hnd.1 (he ▸ List.mem_map_of_mem hy)
            · exact hfront y (List.mem_cons_of_mem _ hy) h
          · rw [List.mem_cons]
            rcases hm with hm | hm | hm
            · exact .inl (.inr hm)
            · exact .inl (.inl hm)
            · exact .inr hm

theorem firstDuplicate_nil_eq_some {members : List Member} {id : Int} :
    firstDuplicate [] members = some id ↔ FirstRepeats members id := by
  simp [firstDuplicate_eq_some, FirstRepeats]

theorem make_eq_error {members : List Member} {n : Int} {error : MetadataError} :
    make members n = .error error ↔
      (∃ id, FirstRepeats members id ∧ error = .duplicateId id) ∨
        (members.map Member.id).Nodup ∧ n < 1 ∧ error = .badVnodes n := by
  simp only [← firstDuplicate_nil_eq_some]
  unfold make
  split
  · next id hid =>
    constructor
    · intro h
      exact .inl ⟨id, hid, (Except.error.inj h).symm⟩
    · rintro (⟨id', hid', rfl⟩ | ⟨hids, -⟩)
      · rw [hid] at hid'
        cases hid'
        rfl
      · rw [firstDuplicate_eq_none hids fun _ _ => List.not_mem_nil] at hid
        cases hid
  · next hnone =>
    have hids := (nodup_of_firstDuplicate hnone).1
    split
    · next hn =>
      constructor
      · intro h
        cases h
      · rintro (⟨id, hid, -⟩ | ⟨-, hlt, -⟩)
        · rw [hnone] at hid
          cases hid
        · omega
    · next hn =>
      constructor
      · intro h
        exact .inr ⟨hids, Int.not_le.1 hn, (Except.error.inj h).symm⟩
      · rintro (⟨id, hid, -⟩ | ⟨-, -, rfl⟩)
        · rw [hnone] at hid
          cases hid
        · rfl

/-- A text is missing in one of the members, or in a check on the whole. -/
theorem ofJson_eq_noText_iff {value : Json} {fault : TextFault} :
    Topology.ofJson value = .error (.noText fault) ↔
      ∃ entries n, value.member? "nodes" = some (.arr entries) ∧ readVnodes value = .ok n ∧
        (readMembers entries = .error (.noText fault) ∨
          ∃ members error, readMembers entries = .ok members ∧ make members n = .error error ∧
            error.textFault? = some fault) := by
  unfold Topology.ofJson
  split
  · next entries hnodes =>
    simp only [hnodes, Option.some_inj, Json.arr.injEq, exists_and_left, exists_eq_left']
    cases hvnodes : readVnodes value with
    | error fault' =>
      have hne := readVnodes_ne_noText value fault
      rw [hvnodes] at hne
      simpa using hne
    | ok n =>
      cases readMembers entries with
      | error fault' => simp
      | ok members =>
        cases hmake : make members n with
        | error error => simp [hmake, DescriptionFault.ofError_eq_noText]
        | ok t => simp [hmake]
  · next hnodes =>
    have hnone : (MetadataError.noMemberList).textFault? = none := rfl
    simp only [Except.error.injEq, DescriptionFault.ofError_eq_noText, hnone]
    constructor
    · intro h
      cases h
    · rintro ⟨entries, -, h, -⟩
      exact absurd h (hnodes entries)

theorem ofJson_eq_noText {value : Json} {fault : TextFault} :
    Topology.ofJson value = .error (.noText fault) ↔ NoText value fault := by
  simp only [ofJson_eq_noText_iff, readVnodes_eq_ok, readMembers_eq_mapM, mapM_eq_ok,
    mapM_eq_error_iff_firstBad (fun _ => Member.ofJson_eq_noText), make_eq_error]
  constructor
  · rintro ⟨entries, n, hnodes, hvnodes, hmember | ⟨members, error, hmembers, herror, htext⟩⟩
    · exact .member hnodes hvnodes hmember
    · rcases herror with ⟨id, hid, rfl⟩ | ⟨hids, hn, rfl⟩
      · obtain ⟨hlong, rfl⟩ := Json.textFault?_int_eq_some.1 htext
        exact .id hnodes hvnodes hmembers hid hlong
      · obtain ⟨hlong, rfl⟩ := Json.textFault?_int_eq_some.1 htext
        exact .vnodes hnodes hvnodes hmembers hids hn hlong
  · intro h
    cases h with
    | member hnodes hvnodes hmember => exact ⟨_, _, hnodes, hvnodes, .inl hmember⟩
    | id hnodes hvnodes hmembers hid hlong =>
      exact ⟨_, _, hnodes, hvnodes, .inr ⟨_, _, hmembers, .inl ⟨_, hid, rfl⟩,
        Json.textFault?_int_eq_some.2 ⟨hlong, rfl⟩⟩⟩
    | vnodes hnodes hvnodes hmembers hids hn hlong =>
      exact ⟨_, _, hnodes, hvnodes, .inr ⟨_, _, hmembers, .inr ⟨hids, hn, rfl⟩,
        Json.textFault?_int_eq_some.2 ⟨hlong, rfl⟩⟩⟩

theorem ofJson_eq_infinite {value : Json} :
    Topology.ofJson value = .error .infinite ↔ HasInfinite value := by
  simp only [HasInfinite, ← readVnodes_eq_infinite, ← readVnodes_eq_ok,
    ← mapM_eq_error_iff_firstBad (fun _ => Member.ofJson_eq_infinite), ← readMembers_eq_mapM]
  unfold Topology.ofJson
  split
  · next entries hnodes =>
    simp only [hnodes, Option.some_inj, Json.arr.injEq, exists_eq_left']
    cases readVnodes value with
    | error fault => simp
    | ok vnodes =>
      cases readMembers entries with
      | error fault => simp
      | ok members =>
        dsimp only
        split <;> simp [DescriptionFault.ofError_ne_infinite]
  · next hnodes =>
    simpa [DescriptionFault.ofError_ne_infinite] using fun entries h => absurd h (hnodes entries)

theorem isValid_of_ofJson {value : Json} {t : Topology} (h : Topology.ofJson value = .ok t) :
    t.IsValid where
  nodup := t.nodup
  vnodes := t.vnodes_pos
  nonneg := by
    unfold Topology.ofJson at h
    split at h
    · split at h
      · cases h
      · split at h
        · cases h
        · next members hmembers =>
          split at h
          · next t' hmake =>
            cases h
            rw [readMembers_eq_mapM] at hmembers
            rw [(eq_of_make hmake).1]
            exact forall_of_mapM_eq_ok hmembers fun _ _ _ => Member.id_nonneg_of_ofJson
          · cases h
    · cases h

theorem judged_ofJson (value : Json) :
    Judged DescriptionFault.kind (Topology.ofJson value) IsValid
      (EscapesIf (HasInfinite value) (NoText value)) :=
  judged_of_iff (fun _ => isValid_of_ofJson) ofJson_eq_infinite ofJson_eq_noText

end Topology

/-! ## 4. Stores -/

namespace Schema

/-- A store as it should be. -/
structure IsValid (s : Schema) : Prop where
  name_ne : s.name ≠ ""
  noSlash : '/' ∉ s.name.toList
  notHidden : ¬['.'] <+: s.name.toList
  factor : 1 ≤ s.replicationFactor

structure AreValid (schemas : List Schema) : Prop where
  each : ∀ s ∈ schemas, s.IsValid
  nodup : (schemas.map Schema.name).Nodup

/-- The store that an entry describes. -/
structure Reads (entry : Json) (s : Schema) : Prop where
  name : entry.HasText "name" s.name
  factor : entry.HasInteger "replication_factor" s.replicationFactor
  strategy : entry.HasText "routing_strategy" s.strategy ∨
    entry.member? "routing_strategy" = none ∧ s.strategy = consistentRouting

/-- What cannot be read first of an entry is infinite. -/
def HasInfinite (entry : Json) : Prop :=
  (∃ name, entry.HasText "name" name) ∧ entry.HasInfinite "replication_factor"

/-- What cannot be read first of an entry is nested too deep. -/
def HasDeep (entry : Json) : Prop :=
  entry.HasDeep "name" ∨
    (∃ name, entry.HasText "name" name) ∧ (∃ n, entry.HasInteger "replication_factor" n) ∧
      entry.HasDeep "routing_strategy"

/-- The text that is needed of an entry and cannot be written: the name or the strategy, the entry
itself where it describes no store for another reason, or a replication factor that is none. -/
inductive NoText (entry : Json) : TextFault → Prop
  | deep (h : HasDeep entry) : NoText entry .tooDeep
  | entry {fault : TextFault} (hreads : ∀ s, ¬Reads entry s) (hinfinite : ¬HasInfinite entry)
    (hdeep : ¬HasDeep entry) (h : entry.textFault? = some fault) : NoText entry fault
  | factor {s : Schema} (hreads : Reads entry s) (hname : isValidName s.name = true)
    (hfactor : s.replicationFactor < 1) (hlong : Json.isLong s.replicationFactor = true) :
    NoText entry .tooLong

def ListHasInfinite (value : Json) : Prop :=
  ∃ entries, value = .arr entries ∧ FirstBad Schema.ofJson HasInfinite entries

def ListNoText (value : Json) (fault : TextFault) : Prop :=
  ∃ entries, value = .arr entries ∧
    FirstBad Schema.ofJson (fun entry => NoText entry fault) entries

theorem notHidden_of_isValidName {name : String} (h : isValidName name = true) :
    ¬['.'] <+: name.toList := by
  unfold isValidName at h
  split at h
  · cases h
  · next c rest hchars =>
    rw [hchars, List.cons_prefix_cons]
    rintro ⟨rfl, -⟩
    simp at h

theorem IsSound.isValid {s : Schema} (h : s.IsSound) : s.IsValid where
  name_ne := (noSlash_of_isValidName h.name).2
  noSlash := (noSlash_of_isValidName h.name).1
  notHidden := notHidden_of_isValidName h.name
  factor := h.replicationFactor

theorem AreSound.areValid {schemas : List Schema} (h : AreSound schemas) : AreValid schemas where
  each s hs := (h.each s hs).isValid
  nodup := h.nodup

theorem readFields_iff {entry : Json} {s : Schema} :
    readFields entry = .ok s ↔ Reads entry s := by
  rw [readFields_eq_ok, Json.requiredText_eq_ok, Json.requiredInteger_eq_ok,
    Json.optionalText_eq_ok]
  exact ⟨fun h => ⟨h.1, h.2.1, h.2.2⟩, fun h => ⟨h.name, h.factor, h.strategy⟩⟩

theorem readFields_eq_error {entry : Json} {fault : EntryFault} :
    readFields entry = .error fault ↔
      entry.requiredText "name" = .error fault ∨
        (∃ name, entry.requiredText "name" = .ok name) ∧
          (entry.requiredInteger "replication_factor" = .error fault ∨
            (∃ n, entry.requiredInteger "replication_factor" = .ok n) ∧
              entry.optionalText "routing_strategy" consistentRouting = .error fault) := by
  unfold readFields
  cases entry.requiredText "name" with
  | error fault => simp [bind, Except.bind]
  | ok name =>
    cases entry.requiredInteger "replication_factor" with
    | error fault => simp [bind, Except.bind]
    | ok factor =>
      cases entry.optionalText "routing_strategy" consistentRouting with
      | error fault => simp [bind, Except.bind]
      | ok strategy => simp [bind, Except.bind, pure, Except.pure]

theorem readFields_eq_fromInfinity {entry : Json} :
    readFields entry = .error (.conversion .fromInfinity) ↔ HasInfinite entry := by
  simp only [readFields_eq_error, Json.requiredText_ne_conversion, Json.requiredText_eq_ok,
    Json.requiredInteger_eq_fromInfinity, Json.optionalText_ne_conversion, and_false, or_false,
    false_or, HasInfinite]

theorem readFields_eq_tooDeep {entry : Json} :
    readFields entry = .error (.noText .tooDeep) ↔ HasDeep entry := by
  simp only [readFields_eq_error, Json.requiredText_eq_tooDeep, Json.requiredText_eq_ok,
    Json.requiredInteger_ne_noText, Json.requiredInteger_eq_ok, Json.optionalText_eq_tooDeep,
    false_or, HasDeep]

theorem ofJson_eq_infinite {entry : Json} :
    Schema.ofJson entry = .error .infinite ↔ HasInfinite entry := by
  rw [← readFields_eq_fromInfinity, Schema.ofJson]
  cases readFields entry with
  | error fault => simp [DescriptionFault.ofEntry_eq_infinite]
  | ok s =>
    dsimp only
    split
    · simp [DescriptionFault.ofError_ne_infinite]
    · split <;> simp [DescriptionFault.ofError_ne_infinite]

theorem ofJson_eq_noText {entry : Json} {fault : TextFault} :
    Schema.ofJson entry = .error (.noText fault) ↔ NoText entry fault := by
  have hsplit : Schema.ofJson entry = .error (.noText fault) ↔
      (∃ f, readFields entry = .error f ∧
        DescriptionFault.ofEntry (.badStore entry) f = .noText fault) ∨
      ∃ s, readFields entry = .ok s ∧ isValidName s.name = true ∧ s.replicationFactor < 1 ∧
        (Json.int s.replicationFactor).textFault? = some fault := by
    unfold Schema.ofJson
    cases readFields entry with
    | error f => simp
    | ok s =>
      cases hname : isValidName s.name with
      | false =>
        -- a name is a string, which is shown always
        simp [hname, DescriptionFault.ofError_eq_noText, MetadataError.textFault?,
          MetadataError.subject?]
      | true =>
        by_cases hfactor : s.replicationFactor < 1
        · simp [hname, hfactor, DescriptionFault.ofError_eq_noText, MetadataError.textFault?,
            MetadataError.subject?]
        · simp [hname, hfactor]
  have hshown : ∀ f, (MetadataError.badStore entry f).textFault? = entry.textFault? :=
    fun _ => rfl
  rw [hsplit, DescriptionFault.exists_ofEntry_eq_noText hshown]
  simp only [ne_eq, readFields_iff, readFields_eq_fromInfinity, readFields_eq_tooDeep,
    Json.textFault?_int_eq_some]
  constructor
  · rintro ((⟨hdeep, rfl⟩ | ⟨hreads, hinfinite, hdeep, htext⟩) |
      ⟨s, hreads, hname, hfactor, hlong, rfl⟩)
    · exact .deep hdeep
    · exact .entry hreads hinfinite hdeep htext
    · exact .factor hreads hname hfactor hlong
  · intro h
    cases h with
    | deep hdeep => exact .inl (.inl ⟨hdeep, rfl⟩)
    | entry hreads hinfinite hdeep htext =>
      exact .inl (.inr ⟨hreads, hinfinite, hdeep, htext⟩)
    | factor hreads hname hfactor hlong => exact .inr ⟨_, hreads, hname, hfactor, hlong, rfl⟩

theorem judged_ofJson (entry : Json) :
    Judged DescriptionFault.kind (Schema.ofJson entry) IsValid
      (EscapesIf (HasInfinite entry) (NoText entry)) :=
  judged_of_iff (fun _ h => (isSound_of_ofJson h).isValid) ofJson_eq_infinite ofJson_eq_noText

/-- A list has no faults that escape besides those of its entries: its own errors show names. -/
theorem listOfJson_eq_error {value : Json} {fault : DescriptionFault}
    (hfault : ∀ error, error.subject? = none → DescriptionFault.ofError error ≠ fault) :
    listOfJson value = .error fault ↔
      ∃ entries, value = .arr entries ∧ readAll entries = .error fault := by
  unfold listOfJson
  split
  · next entries =>
    simp only [Json.arr.injEq, exists_eq_left']
    cases readAll entries with
    | error fault' => simp
    | ok schemas =>
      dsimp only
      split
      · simp
      · simpa using hfault _ rfl
  · next hlist =>
    have hne := hfault .storesNotList rfl
    simpa [hne] using fun entries h => absurd h (hlist entries)

theorem listOfJson_eq_infinite {value : Json} :
    listOfJson value = .error .infinite ↔ ListHasInfinite value := by
  simp only [listOfJson_eq_error fun error _ => DescriptionFault.ofError_ne_infinite error,
    readAll_eq_mapM, mapM_eq_error_iff_firstBad (fun _ => Schema.ofJson_eq_infinite),
    ListHasInfinite]

theorem listOfJson_eq_noText {value : Json} {fault : TextFault} :
    listOfJson value = .error (.noText fault) ↔ ListNoText value fault := by
  have hown : ∀ error : MetadataError, error.subject? = none →
      DescriptionFault.ofError error ≠ .noText fault := by
    intro error hnone h
    have htext := DescriptionFault.ofError_eq_noText.1 h
    rw [MetadataError.textFault?, hnone] at htext
    cases htext
  simp only [listOfJson_eq_error hown, readAll_eq_mapM,
    mapM_eq_error_iff_firstBad (fun _ => Schema.ofJson_eq_noText), ListNoText]

theorem judged_listOfJson (value : Json) :
    Judged DescriptionFault.kind (listOfJson value) AreValid
      (EscapesIf (ListHasInfinite value) (ListNoText value)) :=
  judged_of_iff (fun _ h => (areSound_of_listOfJson h).areValid) listOfJson_eq_infinite
    listOfJson_eq_noText

end Schema

end ReplicaCensus
