import Mathlib
import ReplicaCensus.Proofs.Census.Prompt
/-!
# Where a signal comes from and when a run is over

Where fetches end at once when they are cancelled, a run is stopped by a signal that a fetch gave,
or because its time to be cancelled had come. A run that is not stopped was over before that time,
unless no time passed in it at all.
-/

namespace ReplicaCensus

/-! ## 1. The time of a run -/

namespace Schedule

variable {s : Setting} {time : Rat}

/-- Time passes only up to the moment when the run is cancelled. -/
theorem now_step {st st' : State} {ending : Option Ending}
    (h : step s (some time) st = (st', ending)) (hc : ending ≠ some .cancelled) :
    st'.now = st.now ∨ st'.now < time := by
  cases steps_of_step h with
  | interrupted => exact .inl rfl
  | complete _ _ hw =>
    left
    rw [← congrArg (fun r => r.1.now) hw]
    rfl
  | failed _ _ hw =>
    left
    rw [← congrArg (fun r => r.1.now) hw]
    rfl
  | happens => exact .inl rfl
  | cancelled => exact absurd rfl hc
  | passes _ _ _ _ hcancel =>
    right
    rw [comesFirst, decide_eq_false_iff_not, Rat.not_le] at hcancel
    exact hcancel

theorem now_run (st : State) (h : (run s (some time) st).2 ≠ .cancelled) :
    (run s (some time) st).1.now = st.now ∨ (run s (some time) st).1.now < time := by
  fun_induction run s (some time) st with
  | case1 st st' ending hstep => exact now_step hstep fun he => h (Option.some.inj he)
  | case2 st st' hstep ih =>
    have hnow := now_step hstep fun he => by cases he
    rcases ih h with hlater | hlater
    · rw [hlater]
      exact hnow
    · exact .inr hlater

/-- A run is interrupted by a key that is. -/
theorem exists_interrupted {cancelAt : Option Rat} {now : Rat} {free : Nat} (hfree : 0 < free)
    {keys : List KeyLine} (h : (run s cancelAt (.initial now free keys)).2 = .interrupted) :
    ∃ key ∈ keys, ask s key = .error .interrupted := by
  have hslots : 0 < (State.initial now free keys).slots := by
    rw [slots_initial]
    exact hfree
  have haccounts := accounts_run s cancelAt hslots
  rw [h, Accounts, fates_initial] at haccounts
  exact List.mem_map.1 haccounts

end Schedule

namespace Census

variable {c : Census} {schema : Schema} {tree : FileTree} {now time : Rat}
  {cancelAt : Option Rat}

/-- The run of a store asks for no keys, or it is that of its keys. -/
theorem sampleStore_cases (c : Census) (schema : Schema) (now : Rat) (cancelAt : Option Rat)
    (tree : FileTree) :
    (∃ outcome u, c.sampleStore schema now cancelAt tree =
        .idle outcome u now c.slots cancelAt) ∨
      ∃ keys opened st ending pending,
        c.openFiles schema.name tree = .ok (keys, opened) ∧
        Schedule.runOut (c.setting schema) cancelAt (.initial now c.slots keys) =
          (st, ending, pending) ∧
        c.sampleStore schema now cancelAt tree = c.conclude schema opened st pending ending := by
  unfold sampleStore sampleWith
  dsimp only
  split
  · exact .inl ⟨_, _, rfl⟩
  split
  · exact .inl ⟨_, _, rfl⟩
  split
  · exact .inl ⟨_, _, rfl⟩
  · next keys opened hopen => exact .inr ⟨keys, opened, _, _, _, hopen, rfl, rfl⟩

/-- A store with an outcome ends before the time at which it is cancelled, or takes no time, and
leaves the cancellation to the next. -/
theorem ended_sampleStore (hs : c.source.Prompt) {outcome : Outcome}
    (h : (c.sampleStore schema now (some time) tree).verdict = .ok outcome) :
    ((c.sampleStore schema now (some time) tree).ended = now ∨
        (c.sampleStore schema now (some time) tree).ended < time) ∧
      (c.sampleStore schema now (some time) tree).cancelAt = some time := by
  rcases c.sampleStore_cases schema now (some time) tree with ⟨outcome, u, hidle⟩ |
    ⟨keys, opened, st, ending, pending, -, hrun, hconclude⟩
  · rw [hidle]
    exact ⟨.inl rfl, rfl⟩
  · have hruns := Schedule.runsOut_runOut (c.setting schema) (some time) (.initial now c.slots keys)
    rw [hrun] at hruns
    rw [hconclude] at h ⊢
    rw [ended_conclude hs, cancelAt_conclude hs h]
    have hs' : (c.setting schema).source.Prompt := hs
    rcases hruns.of_prompt hs' with ⟨heq, hne, rfl⟩ | ⟨mid, -, -, rfl, -⟩
    · have hnow := @Schedule.now_run (c.setting schema) time (.initial now c.slots keys)
        (by rw [heq]; exact hne)
      rw [heq] at hnow
      exact ⟨hnow, rfl⟩
    · rw [conclude, aborted_of_prompt hs] at h
      cases h

/-- The first of some stores stops the run, or it is the last that is tried, or the run goes on
behind it. -/
theorem sampleEach_cases (c : Census) (failFast : Bool) (cancelAt : Option Rat) (schema : Schema)
    (rest : List Schema) (run : Run) :
    (∃ signal, (c.sampleStore schema run.now cancelAt run.tree).verdict = .error signal ∧
        (c.sampleEach failFast cancelAt (schema :: rest) run).stopped = some signal) ∨
      ∃ outcome, ∃ next : Run,
        (c.sampleStore schema run.now cancelAt run.tree).verdict = .ok outcome ∧
        next.now = (c.sampleStore schema run.now cancelAt run.tree).ended ∧
        next.stopped = run.stopped ∧
        (c.sampleEach failFast cancelAt (schema :: rest) run = next ∨
          c.sampleEach failFast cancelAt (schema :: rest) run =
            c.sampleEach failFast (c.sampleStore schema run.now cancelAt run.tree).cancelAt rest
              next) := by
  rw [sampleEach]
  dsimp only
  cases (c.sampleStore schema run.now cancelAt run.tree).verdict with
  | error signal => exact .inl ⟨signal, rfl, rfl⟩
  | ok outcome =>
    refine .inr ⟨outcome, { run.after (c.sampleStore schema run.now cancelAt run.tree) with
      report := (run.after (c.sampleStore schema run.now cancelAt run.tree)).report.add outcome },
      rfl, rfl, rfl, ?_⟩
    dsimp only
    split
    · exact .inl rfl
    · exact .inr rfl

/-- Stores that are sampled one after the other end before the time at which they are cancelled, or
none of them took any time. -/
theorem now_sampleEach (hs : c.source.Prompt) (failFast : Bool) (schemas : List Schema) (run : Run)
    (h : (c.sampleEach failFast (some time) schemas run).stopped = none) :
    (c.sampleEach failFast (some time) schemas run).now = run.now ∨
      (c.sampleEach failFast (some time) schemas run).now < time := by
  induction schemas generalizing run with
  | nil => exact .inl rfl
  | cons schema rest ih =>
    rcases c.sampleEach_cases failFast (some time) schema rest run with
      ⟨signal, -, hstopped⟩ | ⟨outcome, next, hverdict, hnow, -, hend | hmore⟩
    · rw [hstopped] at h
      cases h
    · rw [hend, hnow]
      exact (ended_sampleStore hs hverdict).1
    · obtain ⟨hended, hpending⟩ := ended_sampleStore hs hverdict
      rw [hmore, hpending] at h ⊢
      rcases ih next h with hlater | hlater
      · rw [hlater, hnow]
        exact hended
      · exact .inr hlater

/-! ## 2. The source of an interruption -/

theorem interrupted_of_verdict (hs : c.source.Prompt) {clean : Bool}
    (h : (c.sampleStore schema now cancelAt tree).verdict = .error (.interrupted clean)) :
    ∃ key, Schedule.ask (c.setting schema) key = .error .interrupted := by
  rcases c.sampleStore_cases schema now cancelAt tree with ⟨outcome, u, hidle⟩ |
    ⟨keys, opened, st, ending, pending, -, hrun, hconclude⟩
  · rw [hidle] at h
    cases h
  · rw [hconclude] at h
    cases ending with
    | interrupted =>
      have hruns := Schedule.runsOut_runOut (c.setting schema) cancelAt (.initial now c.slots keys)
      rw [hrun] at hruns
      have hs' : (c.setting schema).source.Prompt := hs
      rcases hruns.of_prompt hs' with ⟨heq, -, -⟩ | ⟨mid, -, -, hcancelled, -⟩
      · obtain ⟨key, -, hkey⟩ := Schedule.exists_interrupted c.slots_pos (congrArg Prod.snd heq)
        exact ⟨key, hkey⟩
      · cases hcancelled
    | complete =>
      rw [conclude] at h
      split at h
      · cases h
      · rw [aborted_of_prompt hs] at h
        cases h
    | failed f =>
      unfold conclude at h
      cases f
      all_goals
        dsimp only at h
        rw [aborted_of_prompt hs] at h
        cases h
    | cancelled =>
      rw [conclude, aborted_of_prompt hs] at h
      cases h

/-- An interruption in the midst of a run is one that a fetch gave. -/
theorem interrupted_of_stopped (hs : c.source.Prompt)
    (hreplicas : ∀ schema key, c.source.replicas schema key ≠ .error .interrupted)
    {failFast : Bool} {schemas : List Schema} {run : Run} (hrun : run.stopped = none) {clean : Bool}
    (h : (c.sampleEach failFast cancelAt schemas run).stopped = some (.interrupted clean)) :
    ∃ q, (c.source.fetch q).answer = .error .interrupted := by
  induction schemas generalizing cancelAt run with
  | nil =>
    rw [sampleEach, hrun] at h
    cases h
  | cons schema rest ih =>
    rcases c.sampleEach_cases failFast cancelAt schema rest run with
      ⟨signal, hverdict, hstopped⟩ | ⟨outcome, next, -, -, hnext, hend | hmore⟩
    · rw [hstopped, Option.some.injEq] at h
      rw [h] at hverdict
      obtain ⟨key, hkey⟩ := interrupted_of_verdict hs hverdict
      by_contra hno
      -- otherwise no failure of the key would be an interruption
      refine Schedule.failure_of_ask (P := fun f => f ≠ .interrupted) (by decide) (by decide) ?_ ?_
        ?_ hkey rfl
      · intro q hf
        have hordinary := (c.source.fetch q).isOrdinary_timedOut
        rw [show (c.source.fetch q).timedOut = .interrupted from hf] at hordinary
        cases hordinary
      · rintro f hf rfl
        exact hreplicas _ _ hf
      · rintro q f hf rfl
        exact hno ⟨q, hf⟩
    · rw [hend, hnext, hrun] at h
      cases h
    · rw [hmore] at h
      exact ih (hnext.trans hrun) h

end Census

end ReplicaCensus
