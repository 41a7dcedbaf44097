import Mathlib
import ReplicaCensus.Proofs.Json.Short
import ReplicaCensus.Proofs.Stamp.Json
/-!
# Stamps that are passed on

Much is read as a stamp: counts may be texts, truth values or numbers with a fraction, and the clock
and the time may be missing. What is read is written in one form, which is read as the same stamp
again, so a stamp can be passed on any number of times, in whatever layouts.
-/

namespace ReplicaCensus.Stamp

/-! ## 1. What a stamp is read from -/

theorem ofJson_eq_ok {payload : Json} {s : Stamp} (h : Stamp.ofJson payload = .ok s) :
    ((payload.member? "ts").getD (.int 0)).toInteger = .ok s.time ∧
      Clock.ofJson ((payload.member? "vc").getD (.obj [])) = .ok s.clock := by
  unfold Stamp.ofJson at h
  split at h
  · split at h
    · cases h
    next time htime =>
    split at h
    · cases h
    next clock hclock =>
    cases h
    exact ⟨htime, hclock⟩
  · cases h

/-- No entry that was read would be refused, and each node was read from a name. -/
theorem isFit_of_ofJson {payload : Json} {s : Stamp} (h : Stamp.ofJson payload = .ok s) :
    ∀ e ∈ s.clock.entries, Clock.EntryIsFit e ∧ Number.IsShort e.1 := by
  intro e he
  obtain ⟨members, -, member, -, hentry⟩ := Clock.standsFor_of_ofJson (ofJson_eq_ok h).2 he
  have hname : (Json.str member.1).IsShort := trivial
  exact ⟨⟨hentry.node_nonneg, hentry.count_pos⟩, Json.isShort_of_toInteger hname hentry.node⟩

/-- Whatever a stamp was read from, it is read back from its own form. -/
theorem ofJson_toJson_of_ofJson {payload : Json} {s : Stamp} (h : Stamp.ofJson payload = .ok s) :
    Stamp.ofJson s.toJson = .ok s :=
  ofJson_toJson_of_fit (fun e he => (isFit_of_ofJson h e he).2)
    fun e he => (isFit_of_ofJson h e he).1

theorem isShort_of_ofJson {payload : Json} (hshort : payload.IsShort) {s : Stamp}
    (h : Stamp.ofJson payload = .ok s) : s.IsShort := by
  obtain ⟨htime, hclock⟩ := ofJson_eq_ok h
  have hzero : (Json.int 0).IsShort := show Number.IsShort 0 by decide
  have hempty : (Json.obj []).IsShort := trivial
  refine ⟨fun e he => (isFit_of_ofJson h e he).2, fun e he => ?_, ?_⟩
  · obtain ⟨members, hmembers, member, hmember, hentry⟩ := Clock.standsFor_of_ofJson hclock he
    have hall : (Json.obj members).IsShort := hmembers ▸ Json.isShort_getD hshort hempty "vc"
    exact Json.isShort_of_toInteger (Json.membersShort_iff.1 hall member hmember) hentry.count
  · exact Json.isShort_of_toInteger (Json.isShort_getD hshort hzero "ts") htime

/-! ## 2. Passing on -/

/-- What arrives of a stamp that is written in a layout and read at the other end. -/
def passedOn (layout : Json.Layout) (s : Stamp) : Option Stamp :=
  match Json.ofText (Json.valueChars layout 0 s.toJson) with
  | .ok payload => (Stamp.ofJson payload).toOption
  | .error _ => none

variable {layout : Json.Layout} {s : Stamp}

theorem ofText_toJson (hl : layout.IsBlank) (h : s.IsShort) :
    Json.ofText (Json.valueChars layout 0 s.toJson) = .ok s.toJson :=
  Json.ofText_valueChars hl (isPlain_toJson h _)

theorem passedOn_eq_self (hl : layout.IsBlank) (h : s.IsShort)
    (hread : Stamp.ofJson s.toJson = .ok s) : s.passedOn layout = some s := by
  rw [passedOn, ofText_toJson hl h]
  dsimp only
  rw [hread]
  rfl

theorem foldlM_passedOn {layouts : List Json.Layout} (hl : ∀ layout ∈ layouts, layout.IsBlank)
    (h : s.IsShort) (hread : Stamp.ofJson s.toJson = .ok s) :
    layouts.foldlM (fun s layout => s.passedOn layout) s = some s := by
  -- by induction on the layouts, each of which leaves the stamp as it is
  induction layouts with
  | nil => rfl
  | cons layout rest ih =>
    obtain ⟨hlayout, hrest⟩ := List.forall_mem_cons.1 hl
    rw [List.foldlM_cons, passedOn_eq_self hlayout h hread]
    exact ih hrest

/-- The text of a stamp without too long numbers is read as its object, in whatever layout, and the
object as the stamp, if no node is negative and no count is below one; else the first entry that is
not so is a bad value. A stamp that was read from any value is read back from its own object; if the
value came as a text, the stamp can be passed on any number of times. -/
theorem toJson_faithful :
    (∀ s : Stamp, s.IsShort → ∀ layout : Json.Layout, layout.IsBlank →
      Json.ofText (Json.valueChars layout 0 s.toJson) = .ok s.toJson ∧
        ((∀ e ∈ s.clock.entries, 0 ≤ e.1 ∧ 1 ≤ e.2) → Stamp.ofJson s.toJson = .ok s) ∧
        (¬(∀ e ∈ s.clock.entries, 0 ≤ e.1 ∧ 1 ≤ e.2) →
          ∃ fault, Stamp.ofJson s.toJson = .error fault ∧ fault.kind = "ValueError" ∧
            ∃ front e behind, s.clock.entries = front ++ e :: behind ∧
              (∀ good ∈ front, 0 ≤ good.1 ∧ 1 ≤ good.2) ∧ ¬(0 ≤ e.1 ∧ 1 ≤ e.2) ∧
              fault = .badEntry (toString e.1) (.int e.2))) ∧
      (∀ (payload : Json) (s : Stamp), Stamp.ofJson payload = .ok s →
        Stamp.ofJson s.toJson = .ok s) ∧
      ∀ (cs : List Char) (payload : Json) (s : Stamp), Json.ofText cs = .ok payload →
        Stamp.ofJson payload = .ok s → ∀ layouts : List Json.Layout,
        (∀ layout ∈ layouts, layout.IsBlank) →
        layouts.foldlM (fun s layout => s.passedOn layout) s = some s := by
  refine ⟨fun s hshort layout hl => ⟨ofText_toJson hl hshort,
    ofJson_toJson_of_fit hshort.nodes, fun hunfit => ?_⟩,
    fun _ _ => ofJson_toJson_of_ofJson, fun cs payload s hcs h layouts hl => ?_⟩
  · obtain ⟨fault, hfault, front, e, behind, hsplit, hfront, hbad, rfl⟩ :=
      ofJson_toJson_of_unfit hshort.nodes hunfit
    exact ⟨_, hfault, rfl, front, e, behind, hsplit, hfront, hbad, rfl⟩
  · exact foldlM_passedOn hl (isShort_of_ofJson (Json.isShort_ofText hcs) h)
      (ofJson_toJson_of_ofJson h)

/-! A truth value and a text for numbers, a stamp with a time below zero that is read back, and one
that is refused. -/

def lenient : Json := .obj [("vc", .obj [("01", .bool true)]), ("ts", .str " 7 ")]

theorem isPlain_lenient : lenient.IsPlain Json.maxNesting := by
  refine ⟨⟨⟨⟨trivial, trivial⟩, ?_⟩, trivial, trivial⟩, ?_⟩
  · show ["01"].Nodup
    decide
  · show ["vc", "ts"].Nodup
    decide

def plain : Stamp := ⟨OrderedMap.ofList [(1, 1)], 7⟩

def backdated : Stamp := ⟨OrderedMap.ofList [(3, 2), (0, 1)], -7⟩

def refused : Stamp := ⟨OrderedMap.ofList [(1, 1), (-2, 3)], -7⟩

theorem toJson_faithful_lenient :
    Stamp.ofJson lenient = .ok plain ∧ Stamp.ofJson plain.toJson = .ok plain ∧
      [Json.Layout.line, .compact, .indented].foldlM (fun s layout => s.passedOn layout) plain =
        some plain ∧
      Stamp.ofJson backdated.toJson = .ok backdated ∧
      ∃ fault, Stamp.ofJson refused.toJson = .error fault ∧ fault.kind = "ValueError" := by
  obtain ⟨hform, hagain, hpassed⟩ := toJson_faithful
  have hread : Stamp.ofJson lenient = .ok plain := by
    have hfound : (Stamp.ofJson lenient).toOption = some plain := by decide +kernel
    cases hstamp : Stamp.ofJson lenient with
    | error fault => rw [hstamp] at hfound; cases hfound
    | ok s => rw [hstamp] at hfound; cases hfound; rfl
  have htext : Json.ofText (Json.valueChars .compact 0 lenient) = .ok lenient :=
    Json.ofText_valueChars Json.isBlank_compact isPlain_lenient
  have hshort : backdated.IsShort := ⟨by decide, by decide, by decide⟩
  have hshort' : refused.IsShort := ⟨by decide, by decide, by decide⟩
  obtain ⟨-, hback, -⟩ := hform backdated hshort .line Json.isBlank_line
  obtain ⟨-, -, hrefused⟩ := hform refused hshort' .line Json.isBlank_line
  obtain ⟨fault, herror, hkind, -⟩ := hrefused (by decide)
  refine ⟨hread, hagain lenient plain hread, ?_, hback (by decide), fault, herror, hkind⟩
  refine hpassed _ lenient plain htext hread _ fun layout hlayout => ?_
  simp only [List.mem_cons, List.not_mem_nil, or_false] at hlayout
  rcases hlayout with rfl | rfl | rfl
  · exact Json.isBlank_line
  · exact Json.isBlank_compact
  · exact Json.isBlank_indented

end ReplicaCensus.Stamp
