import Mathlib
import ReplicaCensus.Command.Option
import ReplicaCensus.Proofs.OrderedMap
/-!
# Command lines that are accepted

A command line that is accepted is made of options alone, in any order and as often as one likes:
flags, and options with a value that is attached or stands behind. Each value is of the kind that
its option takes, and of an option that is given several times the last value counts.
-/

namespace ReplicaCensus.Command

/-! ## 1. Options and their texts -/

/-- An option that is given, with the text of its value if it takes one. -/
abbrev Occurrence := OptionSpec × Option String

/-- Arguments that give options and nothing else. -/
inductive Spells (table : NameTable) : List String → List Occurrence → Prop where
  | nil : Spells table [] []
  | flag {argument spec rest occurrences}
      (hargument : classify table argument = .ok (.option spec none)) (hkind : spec.kind = .flag)
      (hrest : Spells table rest occurrences) :
      Spells table (argument :: rest) ((spec, none) :: occurrences)
  | attached {argument spec attachment kind rest occurrences}
      (hargument : classify table argument = .ok (.option spec (some attachment)))
      (hkind : spec.kind = .value kind) (hrest : Spells table rest occurrences) :
      Spells table (argument :: rest) ((spec, some attachment.text) :: occurrences)
  | behind {argument spec kind text rest occurrences}
      (hargument : classify table argument = .ok (.option spec none))
      (hkind : spec.kind = .value kind) (htext : classify table text = .ok .operand)
      (hrest : Spells table rest occurrences) :
      Spells table (argument :: text :: rest) ((spec, some text) :: occurrences)

/-- What an option that is given is kept as. -/
inductive KeptAs : Occurrence → String × OptionValue → Prop where
  | flag {spec} (hkind : spec.kind = .flag) : KeptAs (spec, none) (spec.key, .present)
  | value {spec kind text value} (hkind : spec.kind = .value kind)
      (hread : readValue spec kind text = .ok value) :
      KeptAs (spec, some text) (spec.key, value)

/-- The text of the value that an option was given last. -/
def lastText (occurrences : List Occurrence) (key : String) : Option String :=
  (occurrences.reverse.find? fun o => o.1.key = key).bind Prod.snd

/-! ## 2. What is accepted -/

/-- Arguments are classified one by one, up to one that ends the options. -/
theorem classifyAll_eq_cons {table : NameTable} {arguments : List String} {argument : String}
    {kind : Argument} {classified : List (String × Argument)}
    (h : classifyAll table arguments = .ok ((argument, kind) :: classified))
    (hkind : kind ≠ .endOfOptions) :
    ∃ rest, arguments = argument :: rest ∧ classify table argument = .ok kind ∧
      classifyAll table rest = .ok classified := by
  cases arguments with
  | nil => cases h
  | cons first rest =>
    unfold classifyAll at h
    split at h
    · cases h
    · cases h
      exact absurd rfl hkind
    · next found _ hfound =>
      cases hrest : classifyAll table rest with
      | error e => rw [hrest] at h; cases h
      | ok more =>
        rw [hrest] at h
        cases h
        exact ⟨rest, rfl, hfound, hrest⟩

theorem eq_nil_of_classifyAll {table : NameTable} {arguments : List String}
    (h : classifyAll table arguments = .ok []) : arguments = [] := by
  cases arguments with
  | nil => rfl
  | cons first rest =>
    unfold classifyAll at h
    split at h
    · cases h
    · cases h
    · cases hrest : classifyAll table rest with
      | error e => rw [hrest] at h; cases h
      | ok more => rw [hrest] at h; cases h

/-- What fits nowhere is not forgotten. -/
theorem extras_of_take {classified : List (String × Argument)} {taken result : Taken}
    (h : take classified taken = .ok result) : taken.extras <+: result.extras := by
  fun_induction take classified taken with
  | case1 taken =>
    cases h
    exact List.prefix_rfl
  | case2 argument rest taken ih | case3 argument rest taken ih | case4 argument rest taken ih =>
    exact (List.prefix_append _ _).trans (ih h)
  -- an option that is taken leaves the extras alone
  | case6 argument rest taken spec hkind ih => exact ih h
  | case10 argument rest taken spec kind attachment hkind value hread ih => exact ih h
  | case12 argument taken spec kind hkind text rest value hread ih => exact ih h
  | _ => cases h

/-- If all arguments were taken, they spell the options whose values were kept. -/
theorem spells_of_take {table : NameTable} {classified : List (String × Argument)}
    {taken result : Taken} (h : take classified taken = .ok result) (hextras : result.extras = [])
    {arguments : List String} (hall : classifyAll table arguments = .ok classified) :
    ∃ occurrences values, Spells table arguments occurrences ∧
      List.Forall₂ KeptAs occurrences values ∧ result.values = taken.values ++ values := by
  have hstray : ∀ argument rest (taken : Taken),
      take rest { taken with extras := taken.extras ++ [argument] } ≠ .ok result := by
    intro argument rest taken htake
    have hprefix := extras_of_take htake
    rw [hextras, List.prefix_nil] at hprefix
    exact absurd hprefix (by simp)
  fun_induction take classified taken generalizing arguments with
  | case1 taken =>
    cases h
    rw [eq_nil_of_classifyAll hall]
    exact ⟨[], [], .nil, .nil, (List.append_nil _).symm⟩
  | case2 argument rest taken | case3 argument rest taken | case4 argument rest taken =>
    exact absurd h (hstray argument rest taken)
  | case6 argument rest taken spec hkind ih =>
    obtain ⟨behind, rfl, hargument, hrest⟩ := classifyAll_eq_cons hall nofun
    obtain ⟨occurrences, values, hspells, hkept, hvalues⟩ := ih h hrest
    refine ⟨_, _, .flag hargument hkind hspells, .cons (.flag hkind) hkept, ?_⟩
    rw [hvalues, Taken.add, List.append_assoc, List.singleton_append]
  | case10 argument rest taken spec kind attachment hkind value hread ih =>
    obtain ⟨behind, rfl, hargument, hrest⟩ := classifyAll_eq_cons hall nofun
    obtain ⟨occurrences, values, hspells, hkept, hvalues⟩ := ih h hrest
    refine ⟨_, _, .attached hargument hkind hspells, .cons (.value hkind hread) hkept, ?_⟩
    rw [hvalues, Taken.add, List.append_assoc, List.singleton_append]
  | case12 argument taken spec kind hkind text rest value hread ih =>
    obtain ⟨behind, rfl, hargument, hbehind⟩ := classifyAll_eq_cons hall nofun
    obtain ⟨last, rfl, htext, hrest⟩ := classifyAll_eq_cons hbehind nofun
    obtain ⟨occurrences, values, hspells, hkept, hvalues⟩ := ih h hrest
    refine ⟨_, _, .behind hargument hkind htext hspells, .cons (.value hkind hread) hkept, ?_⟩
    rw [hvalues, Taken.add, List.append_assoc, List.singleton_append]
  | _ => cases h

/-- A command line that is accepted spells the options that are given. -/
theorem spells_of_readOptions {specs : List OptionSpec} {arguments : List String} {given : Given}
    (h : readOptions specs arguments = .ok given) :
    ∃ occurrences, Spells (nameTable specs) arguments occurrences ∧
      List.Forall₂ KeptAs occurrences given.values := by
  unfold readOptions at h
  split at h
  · cases h
  next classified hall =>
  split at h
  · cases h
  next taken htake =>
  dsimp only at h
  split at h
  · cases h
  split at h
  · cases h
  next hextras =>
  cases h
  have hnone : taken.extras = [] := by simpa using hextras
  obtain ⟨occurrences, values, hspells, hkept, hvalues⟩ := spells_of_take htake hnone hall
  rw [hvalues, List.nil_append]
  exact ⟨occurrences, hspells, hkept⟩

/-! ## 3. What an option has for its value -/

theorem mem_specs_of_nameTable {specs : List OptionSpec} {entry : String × OptionSpec}
    (h : entry ∈ nameTable specs) : entry.2 ∈ specs := by
  obtain ⟨spec, hspec, hentry⟩ := List.mem_flatMap.1 h
  obtain ⟨name, -, rfl⟩ := List.mem_map.1 hentry
  exact hspec

theorem mem_table_of_fitting {table : NameTable} {argument : String}
    {found : String × OptionSpec × Option Attachment} (h : found ∈ fitting table argument) :
    (found.1, found.2.1) ∈ table := by
  unfold fitting at h
  split at h
  · dsimp only at h
    obtain ⟨entry, hentry, rfl⟩ := List.mem_map.1 h
    exact (List.mem_filter.1 hentry).1
  · obtain ⟨entry, hentry, hfound⟩ := List.mem_filterMap.1 h
    split at hfound
    · cases hfound
      exact hentry
    · split at hfound
      · cases hfound
        exact hentry
      · cases hfound

/-- An argument that is an option is one that the program has. -/
theorem mem_specs_of_classify {specs : List OptionSpec} {argument : String} {spec : OptionSpec}
    {attached : Option Attachment}
    (h : classify (nameTable specs) argument = .ok (.option spec attached)) : spec ∈ specs := by
  unfold classify at h
  split at h
  · cases h
  split at h
  · cases h
  split at h
  · next hfull =>
    cases h
    exact mem_specs_of_nameTable (OrderedMap.mem_of_find hfull)
  split at h
  · next hequals =>
    cases h
    unfold beforeEquals? at hequals
    split at hequals
    · cases hequals
    · obtain ⟨spec, hspec, hfound⟩ := Option.map_eq_some_iff.1 hequals
      cases hfound
      exact mem_specs_of_nameTable (OrderedMap.mem_of_find hspec)
  · unfold classifyShort at h
    split at h
    · next hfitting =>
      cases h
      have hmem := mem_table_of_fitting (hfitting ▸ List.mem_singleton_self _)
      exact mem_specs_of_nameTable hmem
    · split at h <;> cases h
    · cases h

theorem Spells.mem_specs {specs : List OptionSpec} {arguments : List String}
    {occurrences : List Occurrence} (h : Spells (nameTable specs) arguments occurrences) :
    ∀ o ∈ occurrences, o.1 ∈ specs := by
  induction h with
  | nil => exact fun o ho => absurd ho List.not_mem_nil
  | flag hargument _ _ ih | attached hargument _ _ ih | behind hargument _ _ _ ih =>
    exact List.forall_mem_cons.2 ⟨mem_specs_of_classify hargument, ih⟩

/-- Arguments spell their options in one way only. -/
theorem Spells.unique {table : NameTable} {arguments : List String}
    {occurrences others : List Occurrence} (h : Spells table arguments occurrences)
    (h' : Spells table arguments others) : others = occurrences := by
  induction h generalizing others with
  | nil =>
    cases h'
    rfl
  | flag hargument hkind _ ih =>
    cases h' with
    | flag hargument' _ hrest =>
      cases hargument.symm.trans hargument'
      rw [ih hrest]
    | attached hargument' => cases hargument.symm.trans hargument'
    | behind hargument' hkind' =>
      cases hargument.symm.trans hargument'
      cases hkind.symm.trans hkind'
  | attached hargument hkind _ ih =>
    cases h' with
    | attached hargument' _ hrest =>
      cases hargument.symm.trans hargument'
      rw [ih hrest]
    | flag hargument' | behind hargument' => cases hargument.symm.trans hargument'
  | behind hargument hkind _ _ ih =>
    cases h' with
    | flag hargument' hkind' =>
      cases hargument.symm.trans hargument'
      cases hkind.symm.trans hkind'
    | attached hargument' => cases hargument.symm.trans hargument'
    | behind hargument' _ _ hrest =>
      cases hargument.symm.trans hargument'
      rw [ih hrest]

section

variable {specs : List OptionSpec} {arguments : List String} {occurrences : List Occurrence}
  {given : Given} {key : String}

/-- The value that counts is read from the text that was given last. -/
theorem last?_of_spells (hspells : Spells (nameTable specs) arguments occurrences)
    (hkept : List.Forall₂ KeptAs occurrences given.values) {kind : ValueKind}
    (hkind : ∀ spec ∈ specs, spec.key = key → spec.kind = .value kind) :
    Option.Rel (fun text value => ∃ spec, readValue spec kind text = .ok value)
      (lastText occurrences key) (given.last? key) := by
  have hsame : Relator.LiftFun KeptAs (· ↔ ·) (fun o => decide (o.1.key = key) = true)
      fun e => decide (e.1 = key) = true := by
    intro o e h
    cases h <;> rfl
  -- what was given for the option, and what was kept of it, from the last on
  have hlast := List.rel_filter hsame (List.forall₂_reverse_iff.2 hkept)
  unfold lastText Given.last?
  rw [← List.head?_filter, ← List.head?_filter]
  cases hfound : occurrences.reverse.filter fun o => decide (o.1.key = key) with
  | nil =>
    rw [hfound, List.forall₂_nil_left_iff] at hlast
    rw [hlast]
    exact .none
  | cons o before =>
    rw [hfound, List.forall₂_cons_left_iff] at hlast
    obtain ⟨e, before', hoe, -, hvalues⟩ := hlast
    have ho : o ∈ occurrences ∧ o.1.key = key := by
      have hmem : o ∈ occurrences.reverse.filter fun o => decide (o.1.key = key) := by simp [hfound]
      simpa using List.mem_filter.1 hmem
    have hvalue := hkind o.1 (hspells.mem_specs o ho.1) ho.2
    rw [hvalues]
    cases hoe with
    | flag hflag => cases hflag.symm.trans hvalue
    | @value spec _ text value hkind' hread =>
      cases hkind'.symm.trans hvalue
      exact .some ⟨spec, hread⟩

theorem readInteger_of_readValue {spec : OptionSpec} {text : String} {value : OptionValue}
    (h : readValue spec .integer text = .ok value) :
    ∃ n, Number.readInteger text = .ok n ∧ value = .integer n := by
  unfold readValue at h
  dsimp only at h
  split at h
  · next n hn =>
    cases h
    exact ⟨n, hn, rfl⟩
  · cases h

theorem readDouble_of_readValue {spec : OptionSpec} {text : String} {value : OptionValue}
    (h : readValue spec .number text = .ok value) :
    ∃ x, Number.readDouble text = some x ∧ value = .number x := by
  unfold readValue at h
  dsimp only at h
  split at h
  · next x hx =>
    cases h
    exact ⟨x, hx, rfl⟩
  · cases h

theorem integer?_of_spells (hspells : Spells (nameTable specs) arguments occurrences)
    (hkept : List.Forall₂ KeptAs occurrences given.values)
    (hkind : ∀ spec ∈ specs, spec.key = key → spec.kind = .value .integer) :
    Option.Rel (fun text n => Number.readInteger text = .ok n)
      (lastText occurrences key) (given.integer? key) := by
  have hlast := last?_of_spells hspells hkept hkind
  unfold Given.integer?
  generalize lastText occurrences key = text?, given.last? key = value? at hlast
  cases hlast with
  | none => exact .none
  | some h =>
    obtain ⟨spec, hread⟩ := h
    obtain ⟨n, hn, rfl⟩ := readInteger_of_readValue hread
    exact .some hn

theorem number?_of_spells (hspells : Spells (nameTable specs) arguments occurrences)
    (hkept : List.Forall₂ KeptAs occurrences given.values)
    (hkind : ∀ spec ∈ specs, spec.key = key → spec.kind = .value .number) :
    Option.Rel (fun text x => Number.readDouble text = some x)
      (lastText occurrences key) (given.number? key) := by
  have hlast := last?_of_spells hspells hkept hkind
  unfold Given.number?
  generalize lastText occurrences key = text?, given.last? key = value? at hlast
  cases hlast with
  | none => exact .none
  | some h =>
    obtain ⟨spec, hread⟩ := h
    obtain ⟨x, hx, rfl⟩ := readDouble_of_readValue hread
    exact .some hx

end

end ReplicaCensus.Command
