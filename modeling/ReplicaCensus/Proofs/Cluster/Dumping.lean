import Mathlib
import ReplicaCensus.Proofs.Cluster.Document
import ReplicaCensus.Proofs.Cluster.Loading
/-!
# Which clusters survive their file

Any cluster can be made and written, the invalid ones too: a topology asks only that the ids of its
members differ and that there are positions, a store asks for nothing. The reader of the file is
there to tell them apart. It gives a valid cluster back as it was, and blames an invalid one for the
first thing that is wrong with it.
-/

namespace ReplicaCensus

/-! ## 1. Every cluster of short numbers is written as a whole -/

namespace Json

variable (layout : Layout)

mutual

theorem beforeLong_eq_none : ∀ (json : Json) (depth room : Nat), json.IsPlain room →
    beforeLong layout depth json = none
  | .null, _, _, _ => rfl
  | .bool _, _, _, _ => rfl
  | .int n, _, _, hp => by
    have hshort : isLong n = false := decide_eq_false (Nat.not_lt.2 hp)
    rw [beforeLong, hshort, if_neg Bool.false_ne_true]
  | .double _, _, _, hp => absurd hp id
  | .str _, _, _, _ => rfl
  | .arr _, _, 0, hp => absurd hp id
  | .obj _, _, 0, hp => absurd hp id
  | .arr [], _, _ + 1, _ => rfl
  | .arr (item :: rest), depth, room + 1, hp => by
    rw [beforeLong, beforeLong_eq_none item (depth + 1) room hp.1]
    dsimp only
    rw [itemsBeforeLong_eq_none rest (depth + 1) room hp.2]
    rfl
  | .obj [], _, _ + 1, _ => rfl
  | .obj ((name, value) :: rest), depth, room + 1, hp => by
    rw [beforeLong, beforeLong_eq_none value (depth + 1) room hp.1.1]
    dsimp only
    rw [membersBeforeLong_eq_none rest (depth + 1) room hp.1.2]
    rfl

theorem itemsBeforeLong_eq_none : ∀ (items : List Json) (depth room : Nat), ArePlain items room →
    itemsBeforeLong layout depth items = none
  | [], _, _, _ => rfl
  | item :: rest, depth, room, hp => by
    rw [itemsBeforeLong, beforeLong_eq_none item depth room hp.1]
    dsimp only
    rw [itemsBeforeLong_eq_none rest depth room hp.2]
    rfl

theorem membersBeforeLong_eq_none : ∀ (members : List (String × Json)) (depth room : Nat),
    MembersPlain members room → membersBeforeLong layout depth members = none
  | [], _, _, _ => rfl
  | (name, value) :: rest, depth, room, hp => by
    rw [membersBeforeLong, beforeLong_eq_none value depth room hp.1]
    dsimp only
    rw [membersBeforeLong_eq_none rest depth room hp.2]
    rfl

end

end Json

namespace ClusterDescription

theorem dump_eq_write {c : ClusterDescription} (h : c.IsShort) {tree after : FileTree}
    {path : String} (hwrite : tree.write path (Utf8.encode c.toText.toList) = .ok after) :
    c.dump tree path = .ok after := by
  have hwhole := Json.beforeLong_eq_none .indented c.toJson 0 _ (isPlain_toJson h 0)
  unfold dump
  dsimp only
  rw [hwhole, Option.getD_none, hwrite]
  rfl

end ClusterDescription

/-! ## 2. What is read of the members that were written -/

namespace Member

/-- All that can be wrong with a member that was written is its id. -/
def Blames (m : Member) (fault : DescriptionFault) : Prop :=
  m.id < 0 ∧ fault = .metadata (.negativeId m.id)

theorem ofJson_toJson_eq (m : Member) :
    Member.ofJson m.toJson = if m.id < 0 then .error (.ofError (.negativeId m.id)) else .ok m :=
  rfl

theorem ofJson_toJson_eq_ok {m m' : Member} :
    Member.ofJson m.toJson = .ok m' ↔ 0 ≤ m.id ∧ m' = m := by
  rw [ofJson_toJson_eq]
  by_cases hid : m.id < 0
  · simp [hid]
  · simp [hid, Int.not_lt.1 hid, eq_comm]

theorem ofJson_toJson_eq_error {m : Member} (hshort : Number.IsShort m.id)
    {fault : DescriptionFault} : Member.ofJson m.toJson = .error fault ↔ m.Blames fault := by
  have hmessage : DescriptionFault.ofError (.negativeId m.id) = .metadata (.negativeId m.id) :=
    DescriptionFault.ofError_eq_metadata (Json.textFault?_int hshort)
  rw [ofJson_toJson_eq, Blames, hmessage]
  by_cases hid : m.id < 0
  · simp [hid, eq_comm]
  · simp [hid]

end Member

namespace Topology

theorem readMembers_map_eq (members : List Member) :
    readMembers (members.map Member.toJson) = members.mapM fun m => Member.ofJson m.toJson := by
  rw [readMembers_eq_mapM, List.mapM_map]
  rfl

theorem readMembers_map_eq_ok {members found : List Member} :
    readMembers (members.map Member.toJson) = .ok found ↔
      (∀ m ∈ members, 0 ≤ m.id) ∧ found = members := by
  rw [readMembers_map_eq]
  exact mapM_eq_ok_self fun _ _ => Member.ofJson_toJson_eq_ok

theorem readMembers_map_eq_error {members : List Member}
    (hshort : ∀ m ∈ members, Number.IsShort m.id) {fault : DescriptionFault} :
    readMembers (members.map Member.toJson) = .error fault ↔
      ComesFirst (fun m => 0 ≤ m.id) (fun m => m.Blames fault) members := by
  rw [readMembers_map_eq]
  exact mapM_eq_error_iff_comesFirst
    (fun _ => by simp only [Member.ofJson_toJson_eq_ok, exists_eq_right])
    fun m hm => Member.ofJson_toJson_eq_error (hshort m hm)

/-- The positions and the members of a topology pass all other checks. -/
theorem ofJson_toJson_eq (c : ClusterDescription) :
    Topology.ofJson c.toJson =
      (readMembers (c.topology.members.map Member.toJson)).map fun _ => c.topology := by
  have hnodes : c.toJson.member? "nodes" =
      some (.arr (c.topology.members.map Member.toJson)) := rfl
  have hvnodes : readVnodes c.toJson = .ok c.topology.vnodes := rfl
  rw [Topology.ofJson, hnodes]
  dsimp only
  rw [hvnodes]
  dsimp only
  cases hread : readMembers (c.topology.members.map Member.toJson) with
  | error fault => rfl
  | ok found =>
    obtain ⟨-, rfl⟩ := readMembers_map_eq_ok.1 hread
    dsimp only
    rw [make_eq]
    rfl

theorem isValid_iff {t : Topology} : t.IsValid ↔ ∀ m ∈ t.members, 0 ≤ m.id :=
  ⟨fun h => h.nonneg, fun h => ⟨t.nodup, h, t.vnodes_pos⟩⟩

end Topology

/-! ## 3. What is read of the stores that were written -/

namespace Schema

/-- A name that may be a file name of its own. -/
structure IsName (name : String) : Prop where
  ne : name ≠ ""
  noSlash : '/' ∉ name.toList
  notHidden : ¬['.'] <+: name.toList

theorem isValidName_iff {name : String} : isValidName name = true ↔ IsName name := by
  constructor
  · intro h
    obtain ⟨hslash, hne⟩ := noSlash_of_isValidName h
    exact ⟨hne, hslash, notHidden_of_isValidName h⟩
  · rintro ⟨hne, hslash, hdot⟩
    unfold isValidName
    split
    · next hchars => exact absurd (String.toList_eq_nil_iff.1 hchars) hne
    · next c rest hchars =>
      rw [hchars] at hslash hdot
      have hc : c ≠ '.' := by
        rintro rfl
        exact hdot (List.cons_prefix_cons.2 ⟨rfl, List.nil_prefix⟩)
      simpa [hc] using hslash

theorem isValid_iff {s : Schema} : s.IsValid ↔ IsName s.name ∧ 1 ≤ s.replicationFactor :=
  ⟨fun h => ⟨⟨h.name_ne, h.noSlash, h.notHidden⟩, h.factor⟩,
    fun h => ⟨h.1.ne, h.1.noSlash, h.1.notHidden, h.2⟩⟩

theorem AreValid.areSound {schemas : List Schema} (h : AreValid schemas) : AreSound schemas where
  each s hs :=
    ⟨isValidName_iff.2 (isValid_iff.1 (h.each s hs)).1, (h.each s hs).factor⟩
  nodup := h.nodup

/-- A store that was written is blamed for its name, or else for its replication factor. -/
inductive Blames (s : Schema) : DescriptionFault → Prop where
  | name (hname : ¬IsName s.name) : Blames s (.metadata (.badStoreName s.name))
  | factor (hname : IsName s.name) (hfactor : s.replicationFactor < 1) :
      Blames s (.metadata (.badReplication s.name s.replicationFactor))

theorem ofJson_toJson_eq (s : Schema) :
    Schema.ofJson s.toJson =
      if !isValidName s.name then .error (.metadata (.badStoreName s.name))
      else if s.replicationFactor < 1 then
        .error (.ofError (.badReplication s.name s.replicationFactor))
      else .ok s :=
  rfl

theorem ofJson_toJson_eq_ok {s s' : Schema} :
    Schema.ofJson s.toJson = .ok s' ↔ s.IsValid ∧ s' = s := by
  rw [ofJson_toJson_eq, isValid_iff, ← isValidName_iff]
  cases isValidName s.name with
  | false => simp
  | true =>
    by_cases hfactor : s.replicationFactor < 1
    · simp [hfactor, Int.not_le.2 hfactor]
    · simp [hfactor, Int.not_lt.1 hfactor, eq_comm]

theorem ofJson_toJson_eq_error {s : Schema} (hshort : Number.IsShort s.replicationFactor)
    {fault : DescriptionFault} : Schema.ofJson s.toJson = .error fault ↔ s.Blames fault := by
  have hmessage : DescriptionFault.ofError (.badReplication s.name s.replicationFactor) =
      .metadata (.badReplication s.name s.replicationFactor) :=
    DescriptionFault.ofError_eq_metadata (Json.textFault?_int hshort)
  rw [ofJson_toJson_eq, hmessage]
  constructor
  · intro h
    split at h
    · next hname =>
      cases h
      exact .name fun hvalid => by simp [isValidName_iff.2 hvalid] at hname
    · next hname =>
      split at h
      · next hfactor =>
        cases h
        exact .factor (isValidName_iff.1 (by simpa using hname)) hfactor
      · cases h
  · rintro (hname | ⟨hname, hfactor⟩)
    · rw [← isValidName_iff, Bool.not_eq_true] at hname
      rw [hname, if_pos (by decide)]
    · rw [isValidName_iff.2 hname, if_neg (by decide), if_pos hfactor]

theorem readAll_map_eq (schemas : List Schema) :
    readAll (schemas.map Schema.toJson) = schemas.mapM fun s => Schema.ofJson s.toJson := by
  rw [readAll_eq_mapM, List.mapM_map]
  rfl

theorem readAll_map_eq_ok {schemas found : List Schema} :
    readAll (schemas.map Schema.toJson) = .ok found ↔
      (∀ s ∈ schemas, s.IsValid) ∧ found = schemas := by
  rw [readAll_map_eq]
  exact mapM_eq_ok_self fun _ _ => ofJson_toJson_eq_ok

theorem readAll_map_eq_error {schemas : List Schema}
    (hshort : ∀ s ∈ schemas, Number.IsShort s.replicationFactor) {fault : DescriptionFault} :
    readAll (schemas.map Schema.toJson) = .error fault ↔
      ComesFirst IsValid (fun s => s.Blames fault) schemas := by
  rw [readAll_map_eq]
  exact mapM_eq_error_iff_comesFirst
    (fun _ => by simp only [ofJson_toJson_eq_ok, exists_and_left, exists_eq, and_true])
    fun s hs => ofJson_toJson_eq_error (hshort s hs)

/-- Stores that were written are blamed for the first bad one, or else for names that are equal. -/
inductive AreBlamed (schemas : List Schema) : DescriptionFault → Prop where
  | entry {fault} (h : ComesFirst IsValid (fun s => s.Blames fault) schemas) :
      AreBlamed schemas fault
  | duplicates (heach : ∀ s ∈ schemas, s.IsValid) (hnames : ¬(schemas.map Schema.name).Nodup) :
      AreBlamed schemas (.metadata (.duplicateStores (schemas.map Schema.name)))

theorem listOfJson_map_eq_ok {schemas found : List Schema} :
    listOfJson (.arr (schemas.map Schema.toJson)) = .ok found ↔
      AreValid schemas ∧ found = schemas := by
  rw [listOfJson]
  constructor
  · intro h
    split at h
    · cases h
    · next read hread =>
      obtain ⟨heach, rfl⟩ := readAll_map_eq_ok.1 hread
      dsimp only at h
      split at h
      · next hlength =>
        cases h
        exact ⟨⟨heach, length_eraseDups_eq_iff.1 hlength⟩, rfl⟩
      · cases h
  · rintro ⟨⟨heach, hnames⟩, rfl⟩
    rw [readAll_map_eq_ok.2 ⟨heach, rfl⟩]
    dsimp only
    rw [if_pos (length_eraseDups_eq_iff.2 hnames)]

theorem listOfJson_map_eq_error {schemas : List Schema}
    (hshort : ∀ s ∈ schemas, Number.IsShort s.replicationFactor) {fault : DescriptionFault} :
    listOfJson (.arr (schemas.map Schema.toJson)) = .error fault ↔ AreBlamed schemas fault := by
  rw [listOfJson]
  constructor
  · intro h
    split at h
    · next hread =>
      cases h
      exact .entry ((readAll_map_eq_error hshort).1 hread)
    · next read hread =>
      obtain ⟨heach, rfl⟩ := readAll_map_eq_ok.1 hread
      dsimp only at h
      split at h
      · cases h
      · next hlength =>
        cases h
        exact .duplicates heach fun hnames => hlength (length_eraseDups_eq_iff.2 hnames)
  · rintro (hfirst | ⟨heach, hnames⟩)
    · rw [(readAll_map_eq_error hshort).2 hfirst]
    · rw [readAll_map_eq_ok.2 ⟨heach, rfl⟩]
      dsimp only
      rw [if_neg fun hlength => hnames (length_eraseDups_eq_iff.1 hlength)]
      rfl

end Schema

/-! ## 4. Written and loaded -/

namespace ClusterDescription

/-- A cluster is blamed for the first member with a negative id, or else for its stores. -/
inductive Blames (c : ClusterDescription) (fault : DescriptionFault) : Prop where
  | member (h : ComesFirst (fun m => 0 ≤ m.id) (fun m => m.Blames fault) c.topology.members) :
      Blames c fault
  | stores (htopology : c.topology.IsValid) (h : Schema.AreBlamed c.schemas fault) : Blames c fault

theorem Blames.kind_eq {c : ClusterDescription} {fault : DescriptionFault} (h : c.Blames fault) :
    fault.kind = "MetadataError" := by
  rcases h with ⟨_, m, _, _, _, _, rfl⟩ | ⟨_, ⟨_, s, _, _, _, hs⟩ | _⟩
  · rfl
  · cases hs <;> rfl
  · rfl

theorem stores_toJson (c : ClusterDescription) :
    (c.toJson.member? "stores").getD (.arr []) = .arr (c.schemas.map Schema.toJson) := rfl

theorem ofJson_toJson_eq_ok {c c' : ClusterDescription} :
    ofJson c.toJson = .ok c' ↔ c.IsValid ∧ c' = c := by
  rw [ofJson, Topology.ofJson_toJson_eq, stores_toJson]
  constructor
  · intro h
    cases hread : Topology.readMembers (c.topology.members.map Member.toJson) with
    | error fault => rw [hread] at h; cases h
    | ok found =>
      have htopology := Topology.isValid_iff.2 (Topology.readMembers_map_eq_ok.1 hread).1
      rw [hread] at h
      dsimp only [Except.map] at h
      split at h
      · cases h
      · next schemas hlist =>
        cases h
        obtain ⟨hschemas, rfl⟩ := Schema.listOfJson_map_eq_ok.1 hlist
        exact ⟨⟨htopology, hschemas⟩, rfl⟩
  · rintro ⟨hvalid, rfl⟩
    rw [Topology.readMembers_map_eq_ok.2 ⟨hvalid.topology.nonneg, rfl⟩,
      Schema.listOfJson_map_eq_ok.2 ⟨hvalid.schemas, rfl⟩]
    rfl

theorem blames_of_ofJson_toJson {c : ClusterDescription} (hshort : c.IsShort)
    {fault : DescriptionFault} (h : ofJson c.toJson = .error fault) : c.Blames fault := by
  rw [ofJson, Topology.ofJson_toJson_eq, stores_toJson] at h
  cases hread : Topology.readMembers (c.topology.members.map Member.toJson) with
  | error fault' =>
    rw [hread] at h
    cases h
    exact .member ((Topology.readMembers_map_eq_error fun m hm => (hshort.members m hm).1).1 hread)
  | ok found =>
    have htopology := Topology.isValid_iff.2 (Topology.readMembers_map_eq_ok.1 hread).1
    rw [hread] at h
    dsimp only [Except.map] at h
    split at h
    · next hlist =>
      cases h
      exact .stores htopology ((Schema.listOfJson_map_eq_error hshort.factors).1 hlist)
    · cases h

/-- A cluster whose numbers can be written is written to its file as a whole, and loaded from there
as it is exactly if it is valid. Otherwise loading ends in a metadata error, for the first thing
that is wrong with the cluster. -/
theorem load_dump {c : ClusterDescription} (hshort : c.IsShort) {tree after : FileTree}
    {path name : String} (hpath : FileTree.EndsIn path name)
    (hwrite : tree.write path (Utf8.encode c.toText.toList) = .ok after) :
    c.dump tree path = .ok after ∧ (c.IsValid → load after path = .ok c) ∧
      (¬c.IsValid → ∃ fault, load after path = .error (.description fault) ∧
        fault.kind = "MetadataError" ∧ c.Blames fault) := by
  have hdump := dump_eq_write hshort hwrite
  have hload := load_of_dump hpath hdump
  refine ⟨hdump, fun hvalid => ?_, fun hinvalid => ?_⟩
  · rw [hload, ofJson_toJson_eq_ok.2 ⟨hvalid, rfl⟩]
    rfl
  · cases hjson : ofJson c.toJson with
    | ok c' => exact absurd (ofJson_toJson_eq_ok.1 hjson).1 hinvalid
    | error fault =>
      have hblames := blames_of_ofJson_toJson hshort hjson
      refine ⟨fault, ?_, hblames.kind_eq, hblames⟩
      rw [hload, hjson]
      rfl

/-- A cluster with two unordered members, a host that needs escapes, a negative port, and a store
whose name and strategy are unusual. -/
def unusual : ClusterDescription :=
  ⟨⟨[⟨12, "\"\n𝄞", -1⟩, ⟨0, "", 70000⟩], 3, by decide, by decide⟩, [⟨"é\\ .", 1, "\x01"⟩]⟩

/-- The same members with stores of which the second has a hidden name. -/
def hidden : ClusterDescription :=
  ⟨unusual.topology, [⟨"s", 1, "x"⟩, ⟨".s", 0, "x"⟩, ⟨"s", 1, "x"⟩]⟩

theorem write_first (content : Bytes) :
    FileTree.write OrderedMap.empty "c.json" content =
      .ok (OrderedMap.empty.insert ["c.json"] (.file content)) := by
  have hplace : FileTree.locate OrderedMap.empty "c.json" = .ok (.free ["c.json"]) := by
    decide +kernel
  rw [FileTree.write, hplace]

theorem load_dump_unusual :
    FileTree.EndsIn "c.json" "c.json" ∧
      (unusual.IsShort ∧ unusual.IsValid ∧ ∃ after, unusual.dump .empty "c.json" = .ok after ∧
        load after "c.json" = .ok unusual) ∧
      hidden.IsShort ∧ ¬hidden.IsValid ∧ ∃ after fault,
        hidden.dump .empty "c.json" = .ok after ∧
        load after "c.json" = .error (.description fault) ∧ fault.kind = "MetadataError" := by
  have hpath : FileTree.EndsIn "c.json" "c.json" :=
    ⟨⟨[], by decide +kernel⟩, by decide, by decide, by decide⟩
  have hshort : unusual.IsShort := ⟨by decide, by decide, by decide⟩
  have hvalid : unusual.IsValid := by
    refine ⟨⟨unusual.topology.nodup, by decide, unusual.topology.vnodes_pos⟩, ?_, by decide⟩
    exact List.forall_mem_singleton.2 ⟨by decide, by decide, by decide, by decide⟩
  have hshort' : hidden.IsShort := ⟨hshort.members, hshort.vnodes, by decide⟩
  have hinvalid : ¬hidden.IsValid := fun h =>
    (h.schemas.each ⟨".s", 0, "x"⟩ (by decide)).notHidden (by decide)
  obtain ⟨hdump, hload, -⟩ := load_dump hshort hpath (write_first _)
  obtain ⟨hdump', -, hload'⟩ := load_dump hshort' hpath (write_first _)
  obtain ⟨fault, hfault, hkind, -⟩ := hload' hinvalid
  exact ⟨hpath, ⟨hshort, hvalid, _, hdump, hload hvalid⟩, hshort', hinvalid, _, fault, hdump',
    hfault, hkind⟩

end ClusterDescription

end ReplicaCensus
