import Mathlib
import ReplicaCensus.Cluster.Topology
import ReplicaCensus.Proofs.Distinct
import ReplicaCensus.Proofs.FirstFault
import ReplicaCensus.Proofs.Json.RoundTrip
/-!
# Topologies and stores survive their JSON form

What a node says of its cluster is what the reader makes of it: the same members, the same number of
positions, the same stores.
-/

namespace ReplicaCensus

/-! ## 1. Members and topologies -/

namespace Member

theorem readFields_eq_ok {entry : Json} {m : Member} :
    readFields entry = .ok m ↔
      entry.requiredInteger "id" = .ok m.id ∧ entry.requiredText "host" = .ok m.host ∧
        entry.requiredInteger "port" = .ok m.port := by
  unfold readFields
  constructor
  · intro h
    cases hid : entry.requiredInteger "id" with
    | error fault => rw [hid] at h; cases h
    | ok id =>
      cases hhost : entry.requiredText "host" with
      | error fault => rw [hid, hhost] at h; cases h
      | ok host =>
        cases hport : entry.requiredInteger "port" with
        | error fault => rw [hid, hhost, hport] at h; cases h
        | ok port =>
          rw [hid, hhost, hport] at h
          cases h
          exact ⟨rfl, rfl, rfl⟩
  · rintro ⟨hid, hhost, hport⟩
    rw [hid, hhost, hport]
    rfl

/-- A member that can be read back. -/
structure IsSound (m : Member) : Prop where
  id : 0 ≤ m.id
  shortId : Number.IsShort m.id
  shortPort : Number.IsShort m.port

theorem ofJson_toJson {m : Member} (h : m.IsSound) : Member.ofJson m.toJson = .ok m := by
  have hread : readFields m.toJson = .ok m := rfl
  rw [Member.ofJson, hread]
  dsimp only
  rw [if_neg (Int.not_lt.2 h.id)]

theorem isPlain_toJson {m : Member} (h : m.IsSound) (room : Nat) : m.toJson.IsPlain (room + 1) := by
  refine ⟨⟨h.shortId, trivial, h.shortPort, trivial⟩, ?_⟩
  show ["id", "host", "port"].Nodup
  decide

end Member

namespace Topology

/-- A topology that can be read back. -/
structure IsSound (t : Topology) : Prop where
  members : ∀ m ∈ t.members, m.IsSound
  shortVnodes : Number.IsShort t.vnodes

theorem readMembers_eq_mapM (entries : List Json) :
    readMembers entries = entries.mapM Member.ofJson := by
  induction entries with
  | nil => rfl
  | cons entry rest ih =>
    rw [readMembers, mapM_cons_eq, ih]
    cases Member.ofJson entry <;> rfl

theorem readMembers_map {members : List Member} (h : ∀ m ∈ members, m.IsSound) :
    readMembers (members.map Member.toJson) = .ok members := by
  rw [readMembers_eq_mapM]
  exact mapM_map_eq_ok fun m hm => Member.ofJson_toJson (h m hm)

theorem firstDuplicate_eq_none {seen : List Int} {members : List Member}
    (hnd : (members.map Member.id).Nodup) (h : ∀ m ∈ members, m.id ∉ seen) :
    firstDuplicate seen members = none := by
  induction members generalizing seen with
  | nil => rfl
  | cons m rest ih =>
    rw [List.map_cons, List.nodup_cons] at hnd
    obtain ⟨hm, hrest⟩ := List.forall_mem_cons.1 h
    rw [firstDuplicate, if_neg hm]
    -- the id of a later member is neither this one's nor one seen before
    refine ih hnd.2 fun m' hm' hmem => ?_
    rcases List.mem_cons.1 hmem with he | hseen
    · exact hnd.1 (he ▸ List.mem_map_of_mem hm')
    · exact hrest m' hm' hseen

theorem make_eq (t : Topology) : make t.members t.vnodes = .ok t := by
  have hnone : firstDuplicate [] t.members = none :=
    firstDuplicate_eq_none t.nodup fun _ _ => List.not_mem_nil
  unfold make
  split
  · next id hid => rw [hnone] at hid; cases hid
  · rw [dif_pos t.vnodes_pos]

theorem eq_of_make {members : List Member} {vnodes : Int} {t : Topology}
    (h : make members vnodes = .ok t) : t.members = members ∧ t.vnodes = vnodes := by
  unfold make at h
  split at h
  · cases h
  · split at h
    · cases h
      exact ⟨rfl, rfl⟩
    · cases h

theorem ofJson_toJson {t : Topology} (h : t.IsSound) : Topology.ofJson t.toJson = .ok t := by
  have hnodes : t.toJson.member? "nodes" = some (.arr (t.members.map Member.toJson)) := rfl
  have hvnodes : readVnodes t.toJson = .ok t.vnodes := rfl
  rw [Topology.ofJson, hnodes]
  dsimp only
  rw [hvnodes]
  dsimp only
  rw [readMembers_map h.members]
  dsimp only
  rw [make_eq]

theorem isPlain_toJson {t : Topology} (h : t.IsSound) (room : Nat) :
    t.toJson.IsPlain (room + 3) := by
  have hmembers : Json.ArePlain (t.members.map Member.toJson) (room + 1) :=
    Json.arePlain_map fun m hm => Member.isPlain_toJson (h.members m hm) room
  refine ⟨⟨h.shortVnodes, hmembers, trivial⟩, ?_⟩
  show ["vnodes_per_node", "nodes"].Nodup
  decide

end Topology

/-! ## 2. Stores -/

namespace Schema

theorem readFields_eq_ok {entry : Json} {s : Schema} :
    readFields entry = .ok s ↔
      entry.requiredText "name" = .ok s.name ∧
        entry.requiredInteger "replication_factor" = .ok s.replicationFactor ∧
        entry.optionalText "routing_strategy" consistentRouting = .ok s.strategy := by
  unfold readFields
  constructor
  · intro h
    cases hname : entry.requiredText "name" with
    | error fault => rw [hname] at h; cases h
    | ok name =>
      cases hfactor : entry.requiredInteger "replication_factor" with
      | error fault => rw [hname, hfactor] at h; cases h
      | ok factor =>
        cases hstrategy : entry.optionalText "routing_strategy" consistentRouting with
        | error fault => rw [hname, hfactor, hstrategy] at h; cases h
        | ok strategy =>
          rw [hname, hfactor, hstrategy] at h
          cases h
          exact ⟨rfl, rfl, rfl⟩
  · rintro ⟨hname, hfactor, hstrategy⟩
    rw [hname, hfactor, hstrategy]
    rfl

/-- A store that the reader takes. -/
structure IsSound (s : Schema) : Prop where
  name : isValidName s.name = true
  replicationFactor : 1 ≤ s.replicationFactor

theorem ofJson_toJson {s : Schema} (h : s.IsSound) : Schema.ofJson s.toJson = .ok s := by
  have hread : readFields s.toJson = .ok s := rfl
  rw [Schema.ofJson, hread]
  dsimp only
  rw [h.name, if_neg (by decide), if_neg (Int.not_lt.2 h.replicationFactor)]

theorem isSound_of_ofJson {entry : Json} {s : Schema} (h : Schema.ofJson entry = .ok s) :
    s.IsSound := by
  unfold Schema.ofJson at h
  split at h
  · cases h
  · split at h
    · cases h
    · next hname =>
      split at h
      · cases h
      · next hfactor =>
        cases h
        exact ⟨by simpa using hname, Int.not_lt.1 hfactor⟩

theorem readAll_eq_mapM (entries : List Json) : readAll entries = entries.mapM Schema.ofJson := by
  induction entries with
  | nil => rfl
  | cons entry rest ih =>
    rw [readAll, mapM_cons_eq, ih]
    cases Schema.ofJson entry <;> rfl

theorem isSound_of_readAll {entries : List Json} {schemas : List Schema}
    (h : readAll entries = .ok schemas) : ∀ s ∈ schemas, s.IsSound := by
  rw [readAll_eq_mapM] at h
  exact forall_of_mapM_eq_ok h fun _ _ _ => isSound_of_ofJson

theorem noSlash_of_isValidName {name : String} (h : isValidName name = true) :
    '/' ∉ name.toList ∧ name ≠ "" := by
  constructor
  · intro hslash
    unfold isValidName at h
    split at h
    · cases h
    · next c rest hchars =>
      rw [hchars] at hslash
      simp only [Bool.and_eq_true, Bool.not_eq_true', List.contains_eq_mem,
        decide_eq_false_iff_not] at h
      exact h.2 hslash
  · rintro rfl
    cases h

/-- Stores that the reader takes as a list. -/
structure AreSound (schemas : List Schema) : Prop where
  each : ∀ s ∈ schemas, s.IsSound
  nodup : (schemas.map Schema.name).Nodup

theorem length_eraseDups_eq_iff {names : List String} :
    names.eraseDups.length = names.length ↔ names.Nodup := by
  rw [eraseDups_eq_distinctOn]
  constructor
  · intro h
    have heq := (distinctOn_sublist id names).eq_of_length h
    have hnd := nodup_map_distinctOn id names
    rw [heq, List.map_id] at hnd
    exact hnd
  · intro h
    rw [distinctOn_eq_self id (by rw [List.map_id]; exact h)]

theorem areSound_of_listOfJson {value : Json} {schemas : List Schema}
    (h : listOfJson value = .ok schemas) : AreSound schemas := by
  unfold listOfJson at h
  split at h
  · split at h
    · cases h
    · next schemas' hread =>
      dsimp only at h
      split at h
      · next hlen =>
        cases h
        exact ⟨isSound_of_readAll hread, length_eraseDups_eq_iff.1 hlen⟩
      · cases h
  · cases h

theorem readAll_map {schemas : List Schema} (h : ∀ s ∈ schemas, s.IsSound) :
    readAll (schemas.map Schema.toJson) = .ok schemas := by
  rw [readAll_eq_mapM]
  exact mapM_map_eq_ok fun s hs => ofJson_toJson (h s hs)

theorem listOfJson_map {schemas : List Schema} (h : AreSound schemas) :
    listOfJson (.arr (schemas.map Schema.toJson)) = .ok schemas := by
  rw [listOfJson, readAll_map h.each]
  dsimp only
  rw [if_pos (length_eraseDups_eq_iff.2 h.nodup)]

theorem isPlain_toJson {s : Schema} (h : Number.IsShort s.replicationFactor) (room : Nat) :
    s.toJson.IsPlain (room + 1) := by
  refine ⟨⟨trivial, h, trivial, trivial⟩, ?_⟩
  show ["name", "replication_factor", "routing_strategy"].Nodup
  decide

end Schema

end ReplicaCensus
