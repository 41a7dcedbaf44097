import Mathlib
import ReplicaCensus.Proofs.Json.RoundTrip
import ReplicaCensus.Proofs.Stamp.Entries
/-!
# Stamps survive their JSON form

A stamp without too long numbers is read back from its object, with the entries of its clock in
their order, if no node is negative and no count is below one. Else its first entry that is not so
is refused.
-/

namespace ReplicaCensus

theorem Json.toInteger_str {n : Int} (h : Number.IsShort n) :
    (Json.str (toString n)).toInteger = .ok n := by
  rw [Json.toInteger, Number.readInteger_toString h]

/-! ## 1. Clocks -/

/-- An entry that can be read back: no negative node, no count below one, not too many digits. -/
structure Clock.EntryIsSound (e : Int × Int) : Prop where
  node : 0 ≤ e.1
  count : 1 ≤ e.2
  shortNode : Number.IsShort e.1
  shortCount : Number.IsShort e.2

namespace Clock

def IsSound (c : Clock) : Prop := ∀ e ∈ c.entries, EntryIsSound e

/-- No negative node and no count below one. -/
def EntryIsFit (e : Int × Int) : Prop := 0 ≤ e.1 ∧ 1 ≤ e.2

/-- An entry that is written and refused, and what is said of it. -/
def Blames (e : Int × Int) (fault : StampFault) : Prop :=
  ¬EntryIsFit e ∧ fault = .badEntry (toString e.1) (.int e.2)

/-- What is read of an entry that was written. -/
def reread (e : Int × Int) : Except StampFault (Int × Int) :=
  if e.1 < 0 ∨ e.2 < 1 then .error (.badEntry (toString e.1) (.int e.2)) else .ok e

theorem not_entryIsFit {e : Int × Int} : ¬EntryIsFit e ↔ e.1 < 0 ∨ e.2 < 1 := by
  rw [EntryIsFit]
  omega

theorem reread_eq_ok {e f : Int × Int} : reread e = .ok f ↔ EntryIsFit e ∧ f = e := by
  rw [reread]
  by_cases h : EntryIsFit e
  · rw [if_neg (not_entryIsFit.not_right.1 h)]
    simp [h, eq_comm]
  · rw [if_pos (not_entryIsFit.1 h)]
    simp [h]

theorem reread_eq_error {e : Int × Int} {fault : StampFault} :
    reread e = .error fault ↔ Blames e fault := by
  rw [reread, Blames, not_entryIsFit]
  by_cases h : e.1 < 0 ∨ e.2 < 1
  · simp [h, eq_comm]
  · simp [h]

theorem readEntry_toString {e : Int × Int} (h : Number.IsShort e.1) :
    readEntry (toString e.1) (.int e.2) = reread e := by
  rw [readEntry, Json.toInteger_str h]
  rfl

variable {c : Clock}

theorem ofJson_toJson_eq (h : ∀ e ∈ c.entries, Number.IsShort e.1) :
    ofJson (toJson c) = (c.entries.mapM reread).map OrderedMap.ofList := by
  have hread : (toMembers c).mapM (fun member => readEntry member.1 member.2) =
      c.entries.mapM reread := by
    rw [toMembers, List.mapM_map]
    refine mapM_congr fun e he => ?_
    rw [Function.comp_apply, readEntry_toString (h e he)]
  rw [toJson, ofJson_obj, hread]

/-- A clock is read back, unless an entry is refused; the first such entry is blamed. -/
theorem ofJson_toJson_spec (h : ∀ e ∈ c.entries, Number.IsShort e.1) :
    match ofJson (toJson c) with
    | .ok c' => (∀ e ∈ c.entries, EntryIsFit e) ∧ c' = c
    | .error fault => ComesFirst EntryIsFit (fun e => Blames e fault) c.entries := by
  rw [ofJson_toJson_eq h]
  cases hread : c.entries.mapM reread with
  | ok found =>
    obtain ⟨hfit, rfl⟩ := (mapM_eq_ok_self fun _ _ => reread_eq_ok).1 hread
    exact ⟨hfit, OrderedMap.ofList_entries c⟩
  | error fault =>
    exact (mapM_eq_error_iff_comesFirst
      (fun _ => by simp only [reread_eq_ok, exists_eq_right]) fun _ _ => reread_eq_error).1 hread

theorem nodup_names (c : Clock) : ((toMembers c).map Prod.fst).Nodup := by
  have hinj : Function.Injective fun e : Int => toString e := fun a b h => Int.repr_injective h
  have hnames : (toMembers c).map Prod.fst = (c.entries.map Prod.fst).map fun n => toString n := by
    rw [toMembers, List.map_map, List.map_map]
    rfl
  rw [hnames]
  exact c.nodup.map hinj

theorem isPlain_toJson (h : ∀ e ∈ c.entries, Number.IsShort e.2) (room : Nat) :
    (Clock.toJson c).IsPlain (room + 1) := by
  refine ⟨Json.membersPlain_iff.2 fun member hmember => ?_, nodup_names c⟩
  obtain ⟨e, he, rfl⟩ := List.mem_map.1 hmember
  exact h e he

end Clock

/-! ## 2. Stamps -/

namespace Stamp

/-- No number of the stamp has too many digits. -/
structure IsShort (s : Stamp) : Prop where
  nodes : ∀ e ∈ s.clock.entries, Number.IsShort e.1
  counts : ∀ e ∈ s.clock.entries, Number.IsShort e.2
  time : Number.IsShort s.time

structure IsSound (s : Stamp) : Prop where
  clock : s.clock.IsSound
  shortTime : Number.IsShort s.time

theorem IsSound.isShort {s : Stamp} (h : s.IsSound) : s.IsShort :=
  ⟨fun e he => (h.clock e he).shortNode, fun e he => (h.clock e he).shortCount, h.shortTime⟩

theorem ofJson_toJson_eq (s : Stamp) :
    Stamp.ofJson s.toJson = (Clock.ofJson (Clock.toJson s.clock)).map fun c => ⟨c, s.time⟩ := by
  have hts : (s.toJson.member? "ts").getD (.int 0) = .int s.time := rfl
  have hvc : (s.toJson.member? "vc").getD (.obj []) = Clock.toJson s.clock := rfl
  unfold Stamp.toJson at hts hvc ⊢
  rw [Stamp.ofJson, hts, hvc, Json.toInteger]
  dsimp only
  cases Clock.ofJson (Clock.toJson s.clock) <;> rfl

theorem ofJson_toJson_spec {s : Stamp} (h : ∀ e ∈ s.clock.entries, Number.IsShort e.1) :
    match Stamp.ofJson s.toJson with
    | .ok s' => (∀ e ∈ s.clock.entries, Clock.EntryIsFit e) ∧ s' = s
    | .error fault =>
      ComesFirst Clock.EntryIsFit (fun e => Clock.Blames e fault) s.clock.entries := by
  have hclock := Clock.ofJson_toJson_spec h
  rw [ofJson_toJson_eq]
  cases hread : Clock.ofJson (Clock.toJson s.clock) with
  | ok c =>
    rw [hread] at hclock
    obtain ⟨hfit, rfl⟩ := hclock
    exact ⟨hfit, rfl⟩
  | error fault =>
    rw [hread] at hclock
    exact hclock

/-- A stamp is read back if none of its entries is refused. -/
theorem ofJson_toJson_of_fit {s : Stamp} (h : ∀ e ∈ s.clock.entries, Number.IsShort e.1)
    (hfit : ∀ e ∈ s.clock.entries, Clock.EntryIsFit e) : Stamp.ofJson s.toJson = .ok s := by
  have hspec := ofJson_toJson_spec h
  cases hread : Stamp.ofJson s.toJson with
  | ok s' =>
    rw [hread] at hspec
    rw [hspec.2]
  | error fault =>
    rw [hread] at hspec
    obtain ⟨front, e, behind, hsplit, -, hunfit, -⟩ := hspec
    exact absurd (hfit e (hsplit ▸ by simp)) hunfit

/-- Else it is refused for the first entry that would be. -/
theorem ofJson_toJson_of_unfit {s : Stamp} (h : ∀ e ∈ s.clock.entries, Number.IsShort e.1)
    (hunfit : ¬∀ e ∈ s.clock.entries, Clock.EntryIsFit e) :
    ∃ fault, Stamp.ofJson s.toJson = .error fault ∧
      ComesFirst Clock.EntryIsFit (fun e => Clock.Blames e fault) s.clock.entries := by
  have hspec := ofJson_toJson_spec h
  cases hread : Stamp.ofJson s.toJson with
  | ok s' =>
    rw [hread] at hspec
    exact absurd hspec.1 hunfit
  | error fault =>
    rw [hread] at hspec
    exact ⟨fault, rfl, hspec⟩

theorem ofJson_toJson {s : Stamp} (h : s.IsSound) : Stamp.ofJson s.toJson = .ok s :=
  ofJson_toJson_of_fit h.isShort.nodes fun e he => ⟨(h.clock e he).node, (h.clock e he).count⟩

theorem isPlain_toJson {s : Stamp} (h : s.IsShort) (room : Nat) :
    s.toJson.IsPlain (room + 2) := by
  refine ⟨⟨Clock.isPlain_toJson h.counts room, h.time, trivial⟩, ?_⟩
  show ["vc", "ts"].Nodup
  decide

end Stamp

end ReplicaCensus
