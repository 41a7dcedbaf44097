import Mathlib
import ReplicaCensus.Cluster.Document
import ReplicaCensus.Proofs.Cluster.Json
import ReplicaCensus.Proofs.File.Lookup
import ReplicaCensus.Proofs.Json.Short
import ReplicaCensus.Proofs.Text.Lines
/-!
# Cluster files, read and written

A cluster that was read from a file can be written and read again as it is. A file that was written
is read as the value in it, whether or not this describes a cluster.
-/

namespace ReplicaCensus

/-! ## 1. Files in text form -/

namespace Json

theorem return_not_mem_padded (width n : Nat) : '\r' ∉ Hex.padded width n := by
  induction width generalizing n with
  | zero => exact List.not_mem_nil
  | succ width ih =>
    rw [Hex.padded, List.mem_append, not_or, List.mem_singleton]
    refine ⟨ih _, fun h => ?_⟩
    have hrange := Hex.toNat_digit (Nat.mod_lt n (show 0 < 16 by decide))
    rw [← h] at hrange
    exact absurd hrange (by decide)

theorem return_not_mem_unitEscape (n : Nat) : '\r' ∉ unitEscape n := by
  rw [unitEscape, List.mem_cons, List.mem_cons, not_or, not_or]
  exact ⟨by decide, by decide, return_not_mem_padded 4 n⟩

theorem return_not_mem_escapeChar (asciiOnly : Bool) (c : Char) :
    '\r' ∉ escapeChar asciiOnly c := by
  unfold escapeChar
  dsimp only
  split
  · next h =>
    rw [Bool.or_eq_true, decide_eq_true_eq, decide_eq_true_eq] at h
    rcases h with rfl | rfl <;> decide
  split
  · decide
  split
  · decide
  next hreturn =>
  split
  · decide
  split
  · decide
  split
  · decide
  split
  · exact return_not_mem_unitEscape _
  split
  · rw [List.mem_singleton]
    exact fun h => hreturn h.symm
  split
  · exact return_not_mem_unitEscape _
  · rw [List.mem_append, not_or]
    exact ⟨return_not_mem_unitEscape _, return_not_mem_unitEscape _⟩

theorem return_not_mem_stringChars (asciiOnly : Bool) (s : String) :
    '\r' ∉ stringChars asciiOnly s := by
  have hbody : '\r' ∉ s.toList.flatMap (escapeChar asciiOnly) := by
    rw [List.mem_flatMap]
    rintro ⟨c, -, hc⟩
    exact return_not_mem_escapeChar asciiOnly c hc
  rw [stringChars, List.cons_append, List.mem_cons, List.mem_append, List.mem_singleton]
  rintro (h | h | h)
  · exact absurd h (by decide)
  · exact hbody h
  · exact absurd h (by decide)

theorem return_not_mem_lineBreak (layout : Layout) (depth : Nat) :
    '\r' ∉ layout.lineBreak depth := by
  intro h
  unfold Layout.lineBreak at h
  split at h
  · exact List.not_mem_nil h
  · rcases List.mem_cons.1 h with h | h
    · exact absurd h (by decide)
    · exact absurd (List.eq_of_mem_replicate h) (by decide)

theorem return_not_mem_separator (depth : Nat) : '\r' ∉ Layout.indented.separator depth := by
  rw [Layout.separator, List.cons_append, List.mem_cons, not_or, List.mem_append, not_or]
  exact ⟨by decide, List.not_mem_nil, return_not_mem_lineBreak _ depth⟩

mutual

theorem return_not_mem_valueChars : ∀ (json : Json) (depth room : Nat), json.IsPlain room →
    '\r' ∉ valueChars .indented depth json
  | .null, _, _, _ => show '\r' ∉ "null".toList by decide
  | .bool true, _, _, _ => show '\r' ∉ "true".toList by decide
  | .bool false, _, _, _ => show '\r' ∉ "false".toList by decide
  | .int n, _, _, _ => Number.not_mem_toString rfl n
  | .double _, _, _, hp => absurd hp id
  | .str s, _, _, _ => return_not_mem_stringChars _ s
  | .arr _, _, 0, hp => absurd hp id
  | .obj _, _, 0, hp => absurd hp id
  | .arr [], _, _ + 1, _ => show '\r' ∉ ['[', ']'] by decide
  | .arr (item :: rest), depth, room + 1, hp => by
    have hitem := return_not_mem_valueChars item (depth + 1) room hp.1
    have hrest := return_not_mem_itemsChars rest (depth + 1) room hp.2
    have hbreak := return_not_mem_lineBreak .indented
    rw [valueChars]
    simp only [List.cons_append, List.mem_cons, List.mem_append, List.append_assoc, not_or]
    exact ⟨by decide, hbreak _, hitem, hrest, hbreak _, by decide, List.not_mem_nil⟩
  | .obj [], _, _ + 1, _ => show '\r' ∉ ['\x7b', '\x7d'] by decide
  | .obj ((name, value) :: rest), depth, room + 1, hp => by
    have hname := return_not_mem_stringChars Layout.indented.asciiOnly name
    have hvalue := return_not_mem_valueChars value (depth + 1) room hp.1.1
    have hrest := return_not_mem_membersChars rest (depth + 1) room hp.1.2
    have hbreak := return_not_mem_lineBreak .indented
    rw [valueChars]
    simp only [List.cons_append, List.mem_cons, List.mem_append, List.append_assoc, not_or]
    exact ⟨by decide, hbreak _, hname, by decide, by decide, hvalue, hrest, hbreak _, by decide,
      List.not_mem_nil⟩

theorem return_not_mem_itemsChars : ∀ (items : List Json) (depth room : Nat),
    ArePlain items room → '\r' ∉ itemsChars .indented depth items
  | [], _, _, _ => List.not_mem_nil
  | item :: rest, depth, room, hp => by
    rw [itemsChars, List.mem_append, List.mem_append, not_or, not_or]
    exact ⟨⟨return_not_mem_separator depth, return_not_mem_valueChars item depth room hp.1⟩,
      return_not_mem_itemsChars rest depth room hp.2⟩

theorem return_not_mem_membersChars : ∀ (members : List (String × Json)) (depth room : Nat),
    MembersPlain members room → '\r' ∉ membersChars .indented depth members
  | [], _, _, _ => List.not_mem_nil
  | (name, value) :: rest, depth, room, hp => by
    have hname := return_not_mem_stringChars Layout.indented.asciiOnly name
    have hvalue := return_not_mem_valueChars value depth room hp.1
    have hrest := return_not_mem_membersChars rest depth room hp.2
    rw [membersChars]
    simp only [List.cons_append, List.mem_cons, List.mem_append, List.append_assoc, not_or]
    exact ⟨return_not_mem_separator depth, hname, by decide, by decide, hvalue, hrest⟩

end

/-- A plain object with a member is read back from a file of its indented text. -/
theorem ofText_indented {name : String} {value : Json} {more : List (String × Json)}
    (h : IsPlain (obj ((name, value) :: more)) maxNesting) :
    ofText (Text.foldNewlines (valueChars .indented 0 (obj ((name, value) :: more)))) =
      .ok (obj ((name, value) :: more)) := by
  rw [Text.foldNewlines_eq_self (return_not_mem_valueChars _ 0 _ h)]
  exact ofText_valueChars isBlank_indented h

end Json

/-! ## 2. Integers that are written -/

namespace Json

variable {layout : Layout} {depth : Nat}

theorem isShort_of_beforeLong {n : Int} (h : beforeLong layout depth (int n) = none) :
    Number.IsShort n := by
  rw [beforeLong] at h
  split at h
  · cases h
  · next hlong =>
    rw [Bool.not_eq_true, isLong, decide_eq_false_iff_not] at hlong
    exact Nat.not_lt.1 hlong

theorem none_of_itemsBeforeLong {items : List Json}
    (h : itemsBeforeLong layout depth items = none) :
    ∀ item ∈ items, beforeLong layout depth item = none := by
  induction items with
  | nil => exact fun _ hi => absurd hi List.not_mem_nil
  | cons item rest ih =>
    rw [itemsBeforeLong] at h
    split at h
    · cases h
    · next hitem =>
      rw [Option.map_eq_none_iff] at h
      exact List.forall_mem_cons.2 ⟨hitem, ih h⟩

theorem none_of_membersBeforeLong {members : List (String × Json)}
    (h : membersBeforeLong layout depth members = none) :
    ∀ e ∈ members, beforeLong layout depth e.2 = none := by
  induction members with
  | nil => exact fun _ he => absurd he List.not_mem_nil
  | cons member rest ih =>
    rw [membersBeforeLong] at h
    split at h
    · cases h
    · next hvalue =>
      rw [Option.map_eq_none_iff] at h
      exact List.forall_mem_cons.2 ⟨hvalue, ih h⟩

/-- A list that is written as a whole has only items that are. -/
theorem none_of_beforeLong_arr {items : List Json}
    (h : beforeLong layout depth (arr items) = none) :
    ∀ item ∈ items, beforeLong layout (depth + 1) item = none := by
  cases items with
  | nil => exact fun _ hi => absurd hi List.not_mem_nil
  | cons item rest =>
    rw [beforeLong] at h
    split at h
    · cases h
    · next hitem =>
      rw [Option.map_eq_none_iff] at h
      exact List.forall_mem_cons.2 ⟨hitem, none_of_itemsBeforeLong h⟩

theorem none_of_beforeLong_obj {members : List (String × Json)}
    (h : beforeLong layout depth (obj members) = none) :
    ∀ e ∈ members, beforeLong layout (depth + 1) e.2 = none := by
  cases members with
  | nil => exact fun _ he => absurd he List.not_mem_nil
  | cons member rest =>
    rw [beforeLong] at h
    split at h
    · cases h
    · next hvalue =>
      rw [Option.map_eq_none_iff] at h
      exact List.forall_mem_cons.2 ⟨hvalue, none_of_membersBeforeLong h⟩

end Json

/-! ## 3. Clusters that were read -/

namespace Json

theorem isShort_of_required {name : String} {json value : Json} (h : IsShort json)
    (hmember : json.required name = .ok value) : IsShort value := by
  cases json with
  | obj members =>
    unfold required at hmember
    dsimp only at hmember
    split at hmember
    · next found hfind =>
      cases hmember
      exact membersShort_iff.1 h _ (OrderedMap.mem_of_find hfind)
    · cases hmember
  | _ => cases hmember

theorem isShort_of_requiredInteger {name : String} {json : Json} (h : IsShort json) {n : Int}
    (hn : json.requiredInteger name = .ok n) : Number.IsShort n := by
  unfold requiredInteger at hn
  split at hn
  · cases hn
  · next value hvalue =>
    split at hn
    · next m hm =>
      cases hn
      exact isShort_of_toInteger (isShort_of_required h hvalue) hm
    · cases hn

end Json

theorem Member.isSound_of_ofJson {entry : Json} (h : entry.IsShort) {m : Member}
    (hm : Member.ofJson entry = .ok m) : m.IsSound := by
  unfold Member.ofJson at hm
  split at hm
  · cases hm
  · next m' hread =>
    split at hm
    · cases hm
    · next hid =>
      cases hm
      obtain ⟨hread, -, hport⟩ := readFields_eq_ok.1 hread
      exact ⟨Int.not_lt.1 hid, Json.isShort_of_requiredInteger h hread,
        Json.isShort_of_requiredInteger h hport⟩

namespace Topology

theorem isSound_of_readMembers {entries : List Json} (h : ∀ entry ∈ entries, entry.IsShort)
    {members : List Member} (hread : readMembers entries = .ok members) :
    ∀ m ∈ members, m.IsSound := by
  rw [readMembers_eq_mapM] at hread
  exact forall_of_mapM_eq_ok hread fun entry hentry _ => Member.isSound_of_ofJson (h entry hentry)

theorem isSound_of_ofJson {value : Json} (h : value.IsShort) {t : Topology}
    (ht : Topology.ofJson value = .ok t) : t.IsSound := by
  unfold Topology.ofJson at ht
  split at ht
  · next entries hnodes =>
    have hentries : ∀ entry ∈ entries, entry.IsShort :=
      Json.areShort_iff.1 (Json.isShort_of_member? h hnodes)
    split at ht
    · cases ht
    · next vnodes hvnodes =>
      have hshort : Number.IsShort vnodes := by
        unfold readVnodes at hvnodes
        split at hvnodes
        · next n hn =>
          cases hvnodes
          -- the number of positions is a member of the value, or the default
          have hdefault : (Json.int defaultVnodes).IsShort :=
            show Number.IsShort defaultVnodes by decide
          exact Json.isShort_of_toInteger (Json.isShort_getD h hdefault "vnodes_per_node") hn
        · cases hvnodes
        · cases hvnodes
      split at ht
      · cases ht
      · next members hmembers =>
        split at ht
        · next t' hmake =>
          cases ht
          obtain ⟨hm, hv⟩ := eq_of_make hmake
          exact ⟨hm ▸ isSound_of_readMembers hentries hmembers, hv ▸ hshort⟩
        · cases ht
  · cases ht

end Topology

namespace Schema

theorem isShort_of_ofJson {entry : Json} (h : entry.IsShort) {s : Schema}
    (hs : Schema.ofJson entry = .ok s) : Number.IsShort s.replicationFactor := by
  unfold Schema.ofJson at hs
  split at hs
  · cases hs
  · next s' hread =>
    split at hs
    · cases hs
    · split at hs
      · cases hs
      · cases hs
        exact Json.isShort_of_requiredInteger h (readFields_eq_ok.1 hread).2.1

theorem isShort_of_readAll {entries : List Json} (h : ∀ entry ∈ entries, entry.IsShort)
    {schemas : List Schema} (hread : readAll entries = .ok schemas) :
    ∀ s ∈ schemas, Number.IsShort s.replicationFactor := by
  rw [readAll_eq_mapM] at hread
  exact forall_of_mapM_eq_ok hread fun entry hentry _ => isShort_of_ofJson (h entry hentry)

theorem isShort_of_listOfJson {value : Json} (h : value.IsShort) {schemas : List Schema}
    (hread : listOfJson value = .ok schemas) :
    ∀ s ∈ schemas, Number.IsShort s.replicationFactor := by
  unfold listOfJson at hread
  split at hread
  · split at hread
    · cases hread
    · next schemas' hall =>
      dsimp only at hread
      split at hread
      · cases hread
        exact isShort_of_readAll (Json.areShort_iff.1 h) hall
      · cases hread
  · cases hread

end Schema

namespace ClusterDescription

/-- A cluster that can be written and read again. -/
structure IsSound (c : ClusterDescription) : Prop where
  topology : c.topology.IsSound
  schemas : Schema.AreSound c.schemas
  shortFactors : ∀ s ∈ c.schemas, Number.IsShort s.replicationFactor

theorem isSound_of_ofJson {value : Json} (h : value.IsShort) {c : ClusterDescription}
    (hc : ofJson value = .ok c) : c.IsSound := by
  unfold ofJson at hc
  split at hc
  · cases hc
  · next t ht =>
    split at hc
    · cases hc
    · next schemas hschemas =>
      cases hc
      have hstores : ((value.member? "stores").getD (.arr [])).IsShort :=
        Json.isShort_getD h (show (Json.arr []).IsShort from trivial) "stores"
      exact ⟨Topology.isSound_of_ofJson h ht, Schema.areSound_of_listOfJson hschemas,
        Schema.isShort_of_listOfJson hstores hschemas⟩

/-- What a cluster file holds can be written again: no number in a file is too long for that. -/
theorem isSound_of_load {tree : FileTree} {path : String} {c : ClusterDescription}
    (h : load tree path = .ok c) : c.IsSound := by
  unfold load at h
  split at h
  · cases h
  split at h
  · cases h
  unfold ofText at h
  split at h
  · cases h
  · cases h
  · cases h
  next value hvalue =>
  split at h
  · cases h
  · next c' hc =>
    cases h
    exact isSound_of_ofJson (Json.isShort_ofText hvalue) hc

/-! ## 4. Clusters that are written -/

/-- The numbers of a cluster, without which it cannot be written. -/
structure IsShort (c : ClusterDescription) : Prop where
  members : ∀ m ∈ c.topology.members, Number.IsShort m.id ∧ Number.IsShort m.port
  vnodes : Number.IsShort c.topology.vnodes
  factors : ∀ s ∈ c.schemas, Number.IsShort s.replicationFactor

theorem isPlain_toJson {c : ClusterDescription} (h : c.IsShort) (room : Nat) :
    c.toJson.IsPlain (room + 3) := by
  have hmembers : Json.ArePlain (c.topology.members.map Member.toJson) (room + 1) :=
    Json.arePlain_map fun m hm => by
      refine ⟨⟨(h.members m hm).1, trivial, (h.members m hm).2, trivial⟩, ?_⟩
      show ["id", "host", "port"].Nodup
      decide
  have hschemas : Json.ArePlain (c.schemas.map Schema.toJson) (room + 1) :=
    Json.arePlain_map fun s hs => Schema.isPlain_toJson (h.factors s hs) room
  refine ⟨⟨h.vnodes, hmembers, hschemas, trivial⟩, ?_⟩
  show ["vnodes_per_node", "nodes", "stores"].Nodup
  decide

/-- Only a cluster whose numbers can be written is written as a whole. -/
theorem isShort_of_dump {c : ClusterDescription} {tree after : FileTree} {path : String}
    (h : c.dump tree path = .ok after) :
    c.IsShort ∧ tree.write path (Utf8.encode c.toText.toList) = .ok after := by
  unfold dump at h
  dsimp only at h
  split at h
  · cases h
  next written hwrite =>
  split at h
  · cases h
  next hpart =>
  cases h
  rw [Bool.not_eq_true, Option.isSome_eq_false_iff, Option.isNone_iff_eq_none] at hpart
  rw [hpart] at hwrite
  refine ⟨?_, hwrite⟩
  -- no part of the value has an integer before which the writing stops
  have hparts := Json.none_of_beforeLong_obj hpart
  have hmembers := Json.none_of_beforeLong_arr
    (hparts ("nodes", .arr (c.topology.members.map Member.toJson)) (by simp [Topology.toMembers]))
  have hschemas := Json.none_of_beforeLong_arr
    (hparts ("stores", .arr (c.schemas.map Schema.toJson)) (by simp))
  refine ⟨fun m hm => ?_, ?_, fun s hs => ?_⟩
  · have hfields := Json.none_of_beforeLong_obj (hmembers _ (List.mem_map_of_mem hm))
    exact ⟨Json.isShort_of_beforeLong (hfields ("id", .int m.id) (by simp)),
      Json.isShort_of_beforeLong (hfields ("port", .int m.port) (by simp))⟩
  · exact Json.isShort_of_beforeLong
      (hparts ("vnodes_per_node", .int c.topology.vnodes) (by simp [Topology.toMembers]))
  · have hfields := Json.none_of_beforeLong_obj (hschemas _ (List.mem_map_of_mem hs))
    exact Json.isShort_of_beforeLong
      (hfields ("replication_factor", .int s.replicationFactor) (by simp))

/-- A file that was written is read as the value in it. -/
theorem load_of_dump {c : ClusterDescription} {tree after : FileTree} {path name : String}
    (hpath : FileTree.EndsIn path name) (hdump : c.dump tree path = .ok after) :
    load after path = (ofJson c.toJson).mapError LoadError.description := by
  obtain ⟨hshort, hwrite⟩ := isShort_of_dump hdump
  have hread := hpath.read_write hwrite
  have htext : Json.ofText (Text.foldNewlines c.toText.toList) = .ok c.toJson := by
    unfold toText Json.render
    rw [String.toList_ofList]
    exact Json.ofText_indented (isPlain_toJson hshort _)
  rw [load, hread]
  dsimp only
  rw [Utf8.decode_encode]
  dsimp only
  rw [ofText, htext]
  dsimp only
  cases ofJson c.toJson <;> rfl

theorem ofJson_toJson {c : ClusterDescription} (ht : c.topology.IsSound)
    (hs : Schema.AreSound c.schemas) : ofJson c.toJson = .ok c := by
  have htopology : Topology.ofJson c.toJson = .ok c.topology := Topology.ofJson_toJson ht
  have hstores : (c.toJson.member? "stores").getD (.arr []) =
      .arr (c.schemas.map Schema.toJson) := rfl
  rw [ofJson, htopology, hstores]
  dsimp only
  rw [Schema.listOfJson_map hs]

/-- A cluster that was read, or could have been, is read back from the file it is written to. -/
theorem IsSound.load_of_dump {c : ClusterDescription} (h : c.IsSound) {tree after : FileTree}
    {path name : String} (hpath : FileTree.EndsIn path name)
    (hdump : c.dump tree path = .ok after) : load after path = .ok c := by
  rw [ClusterDescription.load_of_dump hpath hdump, ofJson_toJson h.topology h.schemas]
  rfl

end ClusterDescription

end ReplicaCensus
