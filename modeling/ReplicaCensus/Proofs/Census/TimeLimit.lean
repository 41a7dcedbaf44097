import Mathlib
import ReplicaCensus.Proofs.Census.InTurn
import ReplicaCensus.Proofs.FirstFault
import ReplicaCensus.Proofs.Number.Digits
/-!
# When a store is reported as out of time

A store with a time limit is reported as out of time if its first failing key was not done when its
time was up, and its fetch then ended with the cancellation or with a time-out that has no text. It
is also reported so if that key failed in time, but with a time-out of its own that has no text,
whatever its kind is called. All other failures are reported as they are.
-/

namespace ReplicaCensus

/-! ## 1. The words of a report -/

namespace Double

theorem colon_not_mem_layout {digits : List Char} (h : ':' ∉ digits) (point : Int) :
    ':' ∉ layout digits point := by
  have hzeros : ∀ n, ':' ∉ zeros n := fun n hmem =>
    absurd (List.eq_of_mem_replicate hmem) (by decide)
  unfold layout
  split
  · -- the exponent is an integer with its sign before it
    have hsize : ':' ∉ (toString (point - 1).natAbs).toList :=
      Number.not_mem_toString rfl ((point - 1).natAbs : Int)
    dsimp only
    rw [List.mem_append, List.mem_cons, List.mem_cons, not_or, not_or, not_or]
    refine ⟨?_, by decide, ?_, ?_⟩
    · split
      · exact List.not_mem_nil
      · exact h
      · next d rest _ =>
        rw [List.mem_cons, not_or] at h ⊢
        rw [List.mem_cons, not_or]
        exact ⟨h.1, by decide, h.2⟩
    · split <;> decide
    · split
      · rw [List.mem_cons, not_or]
        exact ⟨by decide, hsize⟩
      · exact hsize
  · split
    · simp only [List.cons_append, List.mem_cons, List.mem_append, not_or]
      exact ⟨by decide, by decide, hzeros _, h⟩
    · dsimp only
      split
      · simp only [List.mem_append, not_or]
        exact ⟨⟨h, hzeros _⟩, by decide⟩
      · rw [List.mem_append, List.mem_cons, not_or, not_or]
        exact ⟨fun hmem => h (List.mem_of_mem_take hmem), by decide,
          fun hmem => h (List.mem_of_mem_drop hmem)⟩

theorem colon_not_mem_toText (x : Double) : ':' ∉ x.toText.toList := by
  cases x with
  | nan => decide
  | infinite negative => cases negative <;> decide
  | finite negative m e =>
    have hsign : ':' ∉ (if negative = true then "-" else "").toList := by
      cases negative <;> decide
    rw [toText]
    dsimp only
    split
    · rw [String.toList_append, List.mem_append, not_or]
      exact ⟨hsign, by decide⟩
    · rw [String.toList_append, List.mem_append, not_or, String.toList_ofList]
      have hdigits : ':' ∉ (toString (shortest m e).digits).toList :=
        Number.not_mem_toString rfl ((shortest m e).digits : Int)
      exact ⟨hsign, colon_not_mem_layout hdigits _⟩

end Double

theorem Seconds.colon_not_mem_toText (seconds : Seconds) : ':' ∉ seconds.toText.toList := by
  cases seconds with
  | whole n => exact Number.not_mem_toString rfl n
  | fraction x => exact x.colon_not_mem_toText

/-- The words for a key that is out of time. -/
def Seconds.outOfTime (seconds : Seconds) : String :=
  "timed out sampling a key after " ++ seconds.toText ++ "s"

theorem Seconds.colon_not_mem_outOfTime (seconds : Seconds) :
    ':' ∉ seconds.outOfTime.toList := by
  have hwords : ':' ∉ "timed out sampling a key after ".toList := by decide +kernel
  have hend : ':' ∉ "s".toList := by decide
  show ':' ∉ ("timed out sampling a key after " ++ seconds.toText ++ "s").toList
  rw [String.toList_append, String.toList_append, List.mem_append, List.mem_append, not_or,
    not_or]
  exact ⟨⟨hwords, seconds.colon_not_mem_toText⟩, hend⟩

namespace Failure

theorem colon_mem_toText (f : Failure) : ':' ∈ f.toText.toList := by
  rw [toText, String.toList_append, String.toList_append, List.mem_append, List.mem_append]
  exact .inl (.inr (by decide))

/-- Of all failures only a time-out without a text gets the words for the limit. -/
theorem describe_eq_outOfTime {seconds : Seconds} {f : Failure} :
    f.describe (some seconds) = seconds.outOfTime ↔ f.isSilentTimeout = true := by
  rw [describe]
  constructor
  · intro h
    by_contra hne
    rw [if_neg hne] at h
    exact seconds.colon_not_mem_outOfTime (h ▸ f.colon_mem_toText)
  · intro h
    rw [if_pos h]
    rfl

theorem describe_of_loud {seconds : Seconds} {f : Failure} (h : f.isSilentTimeout = false) :
    f.describe (some seconds) = f.toText := by
  rw [describe, h]
  rfl

theorem isSilentTimeout_iff {f : Failure} :
    f.isSilentTimeout = true ↔ ∃ kind, f = .timeout kind "" := by
  cases f with
  | timeout kind text =>
    show decide (text = "") = true ↔ _
    rw [decide_eq_true_iff]
    constructor
    · rintro rfl
      exact ⟨kind, rfl⟩
    · rintro ⟨kind', h⟩
      exact (Failure.timeout.inj h).2
  | _ =>
    constructor
    · intro h
      cases h
    · rintro ⟨kind, h⟩
      cases h

end Failure

/-! ## 2. How a key fails -/

namespace Schedule

variable {s : Setting} {key : KeyLine} {calls : List Call} {f g : Failure}

theorem OutOfTime.not_failedInTime (h : OutOfTime s key calls) : ¬FailedInTime s key calls f := by
  intro hf
  cases h with
  | expired hexpired =>
    have halive : s.isExpired = false := by cases hf <;> assumption
    rw [hexpired] at halive
    cases halive
  | cutOff hfirst hlast hdeadline hlate =>
    cases hf with
    | unusable _ hcalls _ _ =>
      rw [hcalls] at hfirst
      cases hfirst
    | unrouted _ hcalls _ _ =>
      rw [hcalls] at hfirst
      cases hfirst
    | answered _ hfirst' hlast' hintime _ =>
      obtain rfl := Option.mem_unique hfirst hfirst'
      obtain rfl := Option.mem_unique hlast hlast'
      exact absurd (hintime _ hdeadline) (not_le.2 hlate)

theorem FailedInTime.unique (hf : FailedInTime s key calls f) (hg : FailedInTime s key calls g) :
    f = g := by
  -- a key that was asked for has begun a fetch
  have hnone : ∀ {first : Call}, calls = [] → first ∉ calls.head? := by
    rintro first rfl hfirst
    cases hfirst
  cases hf with
  | unusable _ hcalls hunusable hlimit =>
    cases hg with
    | unusable _ _ _ hlimit' => exact hlimit.trans hlimit'.symm
    | unrouted _ _ husable _ => exact absurd hunusable (Bool.eq_false_iff.1 husable)
    | answered _ hfirst _ _ _ => exact absurd hfirst (hnone hcalls)
  | unrouted _ hcalls husable hroute =>
    cases hg with
    | unusable _ _ hunusable _ => exact absurd hunusable (Bool.eq_false_iff.1 husable)
    | unrouted _ _ _ hroute' => exact Except.error.inj (hroute.symm.trans hroute')
    | answered _ hfirst _ _ _ => exact absurd hfirst (hnone hcalls)
  | answered _ hfirst hlast _ hanswer =>
    cases hg with
    | unusable _ hcalls _ _ => exact absurd hfirst (hnone hcalls)
    | unrouted _ hcalls _ _ => exact absurd hfirst (hnone hcalls)
    | answered _ _ hlast' _ hanswer' =>
      obtain rfl := Option.mem_unique hlast hlast'
      exact Except.error.inj (hanswer.symm.trans hanswer')

/-- How a key fails that is not cancelled: late, or in time. -/
def FailsAlone (s : Setting) (key : KeyLine) (calls : List Call) (f : Failure) : Prop :=
  OutOfTime s key calls ∧ f = lateFailure s key calls ∨ FailedInTime s key calls f

theorem FailsWith.alone (h : FailsWith s key calls f) (hlimit : s.limit ≠ none)
    (hf : f ≠ .cancelled) : FailsAlone s key calls f := by
  cases h with
  | late hout hlate => exact .inl ⟨hout, hlate⟩
  | inTime hin => exact .inr hin
  | cut hcut => exact absurd (hcut hlimit) hf

theorem FailsAlone.unique (hf : FailsAlone s key calls f) (hg : FailsAlone s key calls g) :
    f = g := by
  rcases hf with ⟨hout, rfl⟩ | hfailed
  · rcases hg with ⟨-, rfl⟩ | hfailed'
    · rfl
    · exact absurd hfailed' hout.not_failedInTime
  · rcases hg with ⟨hout, -⟩ | hfailed'
    · exact absurd hfailed hout.not_failedInTime
    · exact hfailed.unique hfailed'

/-- A key fails with a time-out that has no text if it does so late, or in time. -/
theorem FailsAlone.isSilentTimeout_iff (hf : FailsAlone s key calls f) :
    f.isSilentTimeout = true ↔
      OutOfTime s key calls ∧ (lateFailure s key calls).isSilentTimeout = true ∨
        ∃ kind, FailedInTime s key calls (.timeout kind "") := by
  constructor
  · intro hsilent
    rcases hf with ⟨hout, rfl⟩ | hfailed
    · exact .inl ⟨hout, hsilent⟩
    · obtain ⟨kind, rfl⟩ := Failure.isSilentTimeout_iff.1 hsilent
      exact .inr ⟨kind, hfailed⟩
  · rintro (⟨hout, hsilent⟩ | ⟨kind, hin⟩)
    · rw [hf.unique (.inl ⟨hout, rfl⟩)]
      exact hsilent
    · rw [hf.unique (.inr hin)]
      rfl

/-- A key whose fetch ends with nothing but the cancellation is just out of time. -/
theorem lateFailure_of_prompt (hs : s.source.Prompt) (key : KeyLine) (calls : List Call) :
    lateFailure s key calls = .timedOut := by
  unfold lateFailure
  split
  · rfl
  · exact congrArg Failure.afterTimeout (hs.failure _ 0)

/-- A key that succeeds by itself. -/
def Succeeds (s : Setting) (key : KeyLine) : Prop := ∃ block, ask s key = .ok block

theorem not_succeeds_of_error (h : ask s key = .error f) : ¬Succeeds s key := by
  rintro ⟨block, hblock⟩
  cases hblock.symm.trans h

/-- The failure stands behind as many tasks as there are blocks. -/
theorem Wrote.exists_last {blocks : List String} {tasks : List Task}
    (h : Wrote blocks (some f) tasks) :
    ∃ well t, tasks = well ++ [t] ∧ well.length = blocks.length ∧ t.phase = .done (.error f) := by
  obtain ⟨well, last, rfl, hwell, hlast⟩ := List.map_eq_append_iff.1 h
  obtain ⟨t, rfl, ht⟩ := List.map_eq_singleton_iff.1 hlast
  have hlength := congrArg List.length hwell
  rw [List.length_map, List.length_map] at hlength
  exact ⟨well, t, rfl, hlength, ht⟩

/-! ## 3. Runs with a limit -/

/-- With a limit, a task that is cancelled ends with the cancellation. -/
theorem cancel_of_limit (hlimit : s.limit ≠ none) (now : Rat) {t : Task} (ht : t.isDone = false) :
    (t.cancel s now).1.phase = .done (.error .cancelled) ∨
      ∃ r : Reading, (t.cancel s now).1.phase = .reading r ∧ r.closing = some .cancelled := by
  unfold Task.cancel
  split
  · next result hphase =>
    rw [Task.isDone, hphase] at ht
    cases ht
  · exact .inl rfl
  · next r hphase =>
    split
    · next hnone => exact absurd hnone hlimit
    · rcases close_cases s now t.key r fun _ => .cancelled with ⟨-, h⟩ | ⟨-, h⟩
      · exact .inl h
      · exact .inr ⟨_, h, rfl⟩
    · exact .inl rfl

/-- A run whose task in front is being closed fails with that task, unless it is interrupted. -/
theorem run_of_closing {st : State} {r : Reading} {rest : List Task} (hs : 0 < st.slots)
    (htasks : st.tasks = ⟨key, .reading r⟩ :: rest) (hclosing : r.closing = some f) :
    (run s none st).2 = .failed f ∨ (run s none st).2 = .interrupted := by
  have haccounts := accounts_run s none hs
  have hfates : st.fates s = st.blocks.map .ok ++ .error f :: rest.map (Task.fate s) := by
    rw [State.fates, htasks, List.map_cons, fate_closing s key hclosing]
  rw [hfates] at haccounts
  have hgood : ∀ {blocks : List String} (x : Except Failure String), x ∈ blocks.map .ok →
      ∃ block, x = .ok block := by
    intro blocks x hx
    obtain ⟨block, -, rfl⟩ := List.mem_map.1 hx
    exact ⟨block, rfl⟩
  have hbad : ∀ f, ¬∃ block, (.error f : Except Failure String) = .ok block :=
    fun f ⟨_, hblock⟩ => nomatch hblock
  generalize run s none st = out at haccounts
  obtain ⟨last, ending⟩ := out
  cases ending with
  | complete =>
    have hmem : .error f ∈ last.blocks.map (.ok : String → Except Failure String) :=
      haccounts ▸ List.mem_append_right _ List.mem_cons_self
    exact absurd (hgood _ hmem) (hbad f)
  | failed g =>
    obtain ⟨more, heq⟩ := haccounts
    obtain ⟨-, hsame, -⟩ := first_fault_unique heq hgood (hbad f) hgood (hbad g)
    exact .inl (congrArg Ending.failed (Except.error.inj hsame).symm)
  | cancelled => exact absurd rfl haccounts
  | interrupted => exact .inr rfl

/-- With a limit, a run that is cancelled comes to no other end of its own than this. -/
theorem RunsOut.of_limit {cancelAt pending : Option Rat} {st last : State} {ending : Ending}
    (h : RunsOut s cancelAt st last ending pending) (hs : 0 < st.slots) (hlimit : s.limit ≠ none)
    (hcancelled : ending ≠ .failed .cancelled) (hinterrupted : ending ≠ .interrupted) :
    run s cancelAt st = (last, ending) := by
  cases h with
  | ends hrun => exact hrun
  | @stops mid _ t rest f _ htasks ht hfront =>
    rw [State.cancelFront, htasks] at hfront
    dsimp only at hfront
    rcases cancel_of_limit hlimit mid.now ht with hdone | ⟨r, hreading, -⟩
    · rw [hdone] at hfront
      exact absurd (Option.some.inj (congrArg Prod.snd hfront)).symm hcancelled
    · rw [hreading] at hfront
      cases hfront
  | @goesOn mid _ _ t rest r r' hrun htasks hphase _ _ hfront hlast =>
    have ht : t.isDone = false := by rw [Task.isDone, hphase]
    have hslots := slots_cancelFront s mid
    rw [hfront, slots_of_cancelled hrun] at hslots
    have hclosing : r'.closing = some .cancelled := by
      rw [State.cancelFront, htasks] at hfront
      dsimp only at hfront
      rcases cancel_of_limit hlimit mid.now ht with hdone | ⟨r'', hreading, hclosing⟩
      · rw [hdone] at hfront
        cases congrArg Prod.snd hfront
      · rw [hreading] at hfront
        have hleft := congrArg (fun left => left.1.tasks.map Task.phase) hfront
        rw [List.map_cons, hreading] at hleft
        cases (List.cons.inj hleft).1
        exact hclosing
    rcases run_of_closing (s := s) (hslots.symm ▸ hs) rfl hclosing with hend | hend
    · rw [hlast] at hend
      exact absurd hend hcancelled
    · rw [hlast] at hend
      exact absurd hend hinterrupted

end Schedule

/-! ## 4. The first key to fail -/

namespace Census

open Schedule (OutOfTime FailedInTime FailsAlone InTurn Succeeds callsOf lateFailure)

/-- The first key of a store that fails, with those before and behind it in its key file. -/
structure FirstFailing (c : Census) (schema : Schema) (tree : FileTree) (front : List KeyLine)
    (key : KeyLine) (behind : List KeyLine) : Prop where
  keys : c.keys? schema tree = some (front ++ key :: behind)
  before : ∀ k ∈ front, Succeeds (c.setting schema) k
  fails : ¬Succeeds (c.setting schema) key

/-- The fetches that were begun in the run of a store for the key with these behind it. -/
def callsFor (c : Census) (schema : Schema) (now : Rat) (cancelAt : Option Rat) (tree : FileTree)
    (behind : List KeyLine) : List Call :=
  callsOf behind.length (c.begun schema now cancelAt tree)

variable {c : Census} {schema : Schema} {tree : FileTree} {front behind : List KeyLine}
  {key : KeyLine} {now : Rat} {cancelAt : Option Rat} {outcome : Outcome} {seconds : Seconds}

theorem FirstFailing.unique {front' behind' : List KeyLine} {key' : KeyLine}
    (h : c.FirstFailing schema tree front key behind)
    (h' : c.FirstFailing schema tree front' key' behind') :
    front = front' ∧ key = key' ∧ behind = behind' :=
  first_fault_unique (Option.some.inj (h.keys.symm.trans h'.keys)) h.before h.fails h'.before
    h'.fails

/-- If blocks come first and then a failure, the blocks are those of the keys before the first that
fails. -/
theorem firstFailing_of_fates {keys : List KeyLine} (h : c.keys? schema tree = some keys)
    {blocks : List String} {f : Failure} {rest : List (Except Failure String)}
    (hfates : keys.map (Schedule.ask (c.setting schema)) = blocks.map .ok ++ .error f :: rest) :
    ∃ front key behind, keys = front ++ key :: behind ∧
      c.FirstFailing schema tree front key behind ∧ blocks.length = front.length := by
  obtain ⟨front, left, rfl, hfront, hleft⟩ := List.map_eq_append_iff.1 hfates
  obtain ⟨key, behind, rfl, hkey, -⟩ := List.map_eq_cons_iff.1 hleft
  have hlength := congrArg List.length hfront
  rw [List.length_map, List.length_map] at hlength
  refine ⟨front, key, behind, rfl, ⟨h, fun k hk => ?_, Schedule.not_succeeds_of_error hkey⟩,
    hlength.symm⟩
  have hmem := List.mem_map_of_mem (f := Schedule.ask (c.setting schema)) hk
  rw [hfront] at hmem
  obtain ⟨block, -, hblock⟩ := List.mem_map.1 hmem
  exact ⟨block, hblock.symm⟩

/-- The run of a store that fails with one of its keys fails with the first that does. -/
theorem exists_firstFailing {keys : List KeyLine} (h : c.keys? schema tree = some keys)
    (hlimit : c.limit = some seconds) {st : Schedule.State} {pending : Option Rat} {f : Failure}
    (hf : f ≠ .cancelled)
    (hfailed : Schedule.runOut (c.setting schema) cancelAt (.initial now c.slots keys) =
      (st, .failed f, pending)) :
    ∃ front key behind, c.FirstFailing schema tree front key behind ∧
      st.blocks.length = front.length ∧
      InTurn (c.setting schema) key (c.callsFor schema now cancelAt tree behind) ∧
      FailsAlone (c.setting schema) key (c.callsFor schema now cancelAt tree behind) f := by
  have hsome : (c.setting schema).limit ≠ none := by
    show c.limit ≠ none
    rw [hlimit]
    exact Option.some_ne_none _
  have hpos := slots_pos_initial c.slots_pos now keys
  obtain ⟨gone, hrecorded, hwrote⟩ := exists_recorded h now cancelAt
  have hruns := Schedule.runsOut_runOut (c.setting schema) cancelAt (.initial now c.slots keys)
  rw [hfailed] at hrecorded hwrote hruns
  dsimp only at hrecorded hwrote hruns
  -- the run has failed by itself, and its blocks are those of the keys in front
  have hrun := hruns.of_limit hpos hsome (by simpa using hf) (by simp)
  have haccounts := Schedule.accounts_run (c.setting schema) cancelAt hpos
  rw [Schedule.fates_initial, hrun] at haccounts
  obtain ⟨rest, hfates⟩ := haccounts
  obtain ⟨front, key, behind, rfl, hfirst, hlength⟩ := firstFailing_of_fates h hfates
  obtain ⟨well, t, rfl, hwell, hphase⟩ := hwrote.exists_last
  -- the task that failed stands behind as many as this key does
  have hkeys := hrecorded.map_key
  have hasked := hrecorded.asked
  rw [List.append_assoc, List.map_append, List.singleton_append, List.map_cons] at hkeys
  rw [List.append_assoc, List.singleton_append] at hasked
  obtain ⟨-, hkey⟩ := List.append_inj hkeys (by rw [List.length_map, hwell, hlength])
  obtain ⟨rfl, rfl⟩ := List.cons.inj hkey
  obtain ⟨hturn, hend⟩ := hasked.of_append
  rw [hphase] at hend
  rw [← List.length_map (f := Schedule.Task.key)] at hturn hend
  exact ⟨front, t.key, _, hfirst, hlength, hturn, hend.alone hsome hf⟩

/-! ## 5. Reports -/

theorem isSilentTimeout_of_openFiles {store : String} {f : Failure}
    (h : c.openFiles store tree = .error f) : f.isSilentTimeout = false := by
  unfold openFiles at h
  split at h
  · cases h
    rfl
  · dsimp only at h
    split at h
    · cases h
      rfl
    · split at h
      · cases h
        rfl
      · cases h

theorem isSilentTimeout_of_publish {store : String} {blocks : List String} {f : Failure}
    (h : c.publish store blocks tree = .error f) : f.isSilentTimeout = false := by
  unfold publish at h
  split at h
  · cases h
    rfl
  · split at h
    · cases h
      rfl
    · cases h

theorem error_failedOutcome (hlimit : c.limit = some seconds) {store : String} {written : Nat}
    {f : Failure} :
    (c.failedOutcome store written f).error = some seconds.outOfTime ↔
      f.isSilentTimeout = true := by
  rw [failedOutcome, hlimit, Option.some_inj, Failure.describe_eq_outOfTime]

theorem missing_ne_outOfTime (path : String) (seconds : Seconds) :
    "keys file " ++ path ++ " does not exist" ≠ seconds.outOfTime := by
  intro h
  have hhead : ("keys file " ++ path ++ " does not exist").toList.head? =
      ("timed out sampling a key after " ++ seconds.toText ++ "s").toList.head? :=
    congrArg (fun text => text.toList.head?) h
  simp [String.toList_append] at hhead

/-- A store that asks for no keys is not reported as out of time. -/
theorem error_of_idle (hlimit : c.limit = some seconds) (h : c.keys? schema tree = none)
    (hverdict : (c.sampleStore schema now cancelAt tree).verdict = .ok outcome) :
    outcome.error ≠ some seconds.outOfTime := by
  unfold sampleStore sampleWith at hverdict
  dsimp only at hverdict
  cases hs : tree.has (c.samplesPath schema.name) with
  | true =>
    rw [hs] at hverdict
    cases hverdict
    exact (Option.some_ne_none _).symm
  | false =>
    cases hk : tree.has (c.keysPath schema.name) with
    | false =>
      rw [hs, hk] at hverdict
      cases hverdict
      exact mt Option.some.inj (missing_ne_outOfTime _ _)
    | true =>
      cases hopen : c.openFiles schema.name tree with
      | error f =>
        rw [hs, hk, hopen] at hverdict
        cases hverdict
        intro herror
        have hsilent := (error_failedOutcome hlimit).1 herror
        rw [isSilentTimeout_of_openFiles hopen] at hsilent
        cases hsilent
      | ok found =>
        rw [keys?, hs, hk, hopen] at h
        cases h

/-- A store whose first failing key is this one, and that comes to a report, fails with that key. -/
theorem FirstFailing.report (h : c.FirstFailing schema tree front key behind)
    (hlimit : c.limit = some seconds)
    (hverdict : (c.sampleStore schema now cancelAt tree).verdict = .ok outcome) :
    ∃ f, outcome = c.failedOutcome schema.name front.length f ∧
      InTurn (c.setting schema) key (c.callsFor schema now cancelAt tree behind) ∧
      FailsAlone (c.setting schema) key (c.callsFor schema now cancelAt tree behind) f := by
  obtain ⟨opened, hrun⟩ := sampleStore_of_keys h.keys
  rw [hrun] at hverdict
  have hruns := Schedule.runsOut_runOut (c.setting schema) cancelAt
    (.initial now c.slots (front ++ key :: behind))
  generalize hout : Schedule.runOut (c.setting schema) cancelAt
    (.initial now c.slots (front ++ key :: behind)) = out at hverdict hruns
  obtain ⟨st, ending, pending⟩ := out
  rcases of_conclude_ok hverdict with ⟨rfl, -⟩ | ⟨f, hf, rfl, rfl⟩
  · -- in a complete run the key would have succeeded
    obtain ⟨-, -, -, hfates⟩ := hruns.complete (slots_pos_initial c.slots_pos now _)
    rw [Schedule.fates_initial] at hfates
    have hmem := List.mem_map_of_mem (f := Schedule.ask (c.setting schema))
      (List.mem_append_right front (List.mem_cons_self (a := key) (l := behind)))
    rw [hfates] at hmem
    obtain ⟨block, -, hblock⟩ := List.mem_map.1 hmem
    exact absurd ⟨block, hblock.symm⟩ h.fails
  · obtain ⟨front', key', behind', hfirst, hlength, hends⟩ :=
      exists_firstFailing h.keys hlimit hf hout
    obtain ⟨rfl, rfl, rfl⟩ := h.unique hfirst
    rw [hlength]
    exact ⟨f, rfl, hends⟩

/-- A store that is reported as out of time has a first failing key, whose failure is a time-out
without a text. -/
theorem exists_timedOut (hlimit : c.limit = some seconds)
    (hverdict : (c.sampleStore schema now cancelAt tree).verdict = .ok outcome)
    (herror : outcome.error = some seconds.outOfTime) :
    ∃ f front key behind, f.isSilentTimeout = true ∧
      c.FirstFailing schema tree front key behind ∧
      FailsAlone (c.setting schema) key (c.callsFor schema now cancelAt tree behind) f := by
  cases hkeys : c.keys? schema tree with
  | none => exact absurd herror (error_of_idle hlimit hkeys hverdict)
  | some keys =>
    obtain ⟨opened, hrun⟩ := sampleStore_of_keys hkeys
    rw [hrun] at hverdict
    generalize hout : Schedule.runOut (c.setting schema) cancelAt (.initial now c.slots keys) = out
      at hverdict
    obtain ⟨st, ending, pending⟩ := out
    rcases of_conclude_ok hverdict with
      ⟨-, ⟨rfl, -⟩ | ⟨f, hpublish, rfl⟩⟩ | ⟨f, hf, rfl, rfl⟩
    · cases herror
    · have hsilent := (error_failedOutcome hlimit).1 herror
      rw [isSilentTimeout_of_publish hpublish] at hsilent
      cases hsilent
    · have hsilent := (error_failedOutcome hlimit).1 herror
      obtain ⟨front, key, behind, hfirst, -, -, hends⟩ :=
        exists_firstFailing hkeys hlimit hf hout
      exact ⟨f, front, key, behind, hsilent, hfirst, hends⟩

/-- A store with a time limit is reported as out of time if and only if its first failing key ran
out of time, and its last fetch then ended with the cancellation or with a time-out that has no
text, or if that key failed in time with such a time-out. If its first failing key failed with
another failure, in time or late, this is reported by its kind and its text. -/
theorem sampleStore_outOfTime (c : Census) (schema : Schema) (now : Rat) (cancelAt : Option Rat)
    (tree : FileTree) {seconds : Seconds} (hlimit : c.limit = some seconds) {outcome : Outcome}
    (hverdict : (c.sampleStore schema now cancelAt tree).verdict = .ok outcome) :
    let s := c.setting schema
    let calls := c.callsFor schema now cancelAt tree
    (outcome.error = some ("timed out sampling a key after " ++ seconds.toText ++ "s") ↔
        ∃ front key behind, c.FirstFailing schema tree front key behind ∧
          (OutOfTime s key (calls behind) ∧
              (lateFailure s key (calls behind)).isSilentTimeout = true ∨
            ∃ kind, FailedInTime s key (calls behind) (.timeout kind ""))) ∧
      ∀ front key behind, c.FirstFailing schema tree front key behind →
        outcome.status = .failed ∧ outcome.keys = front.length ∧ InTurn s key (calls behind) ∧
          (OutOfTime s key (calls behind) ∨ ∃ f, FailedInTime s key (calls behind) f) ∧
          ∀ f, FailsAlone s key (calls behind) f → (∀ kind, f ≠ .timeout kind "") →
            outcome.error = some (f.kind ++ ": " ++ f.message) := by
  dsimp only
  refine ⟨⟨fun herror => ?_, ?_⟩, fun front key behind hfirst => ?_⟩
  · obtain ⟨f, front, key, behind, hsilent, hfirst, hends⟩ :=
      exists_timedOut hlimit hverdict herror
    exact ⟨front, key, behind, hfirst, hends.isSilentTimeout_iff.1 hsilent⟩
  · rintro ⟨front, key, behind, hfirst, hends⟩
    obtain ⟨f, rfl, -, hf⟩ := hfirst.report hlimit hverdict
    exact (error_failedOutcome hlimit).2 (hf.isSilentTimeout_iff.2 hends)
  · obtain ⟨f, rfl, hturn, hf⟩ := hfirst.report hlimit hverdict
    refine ⟨rfl, rfl, hturn, hf.imp And.left fun hin => ⟨f, hin⟩, fun g hg hne => ?_⟩
    obtain rfl := hf.unique hg
    have hloud : f.isSilentTimeout = false := by
      rw [← Bool.not_eq_true, Failure.isSilentTimeout_iff]
      exact not_exists.2 hne
    rw [failedOutcome, hlimit, Failure.describe_of_loud hloud]
    rfl

/-! One node, which takes some time to fail with a time-out of its own. -/

def tiring (delay : Rat) : Census :=
  ⟨⟨fun _ _ => .ok [0], fun _ => .prompt delay (.error .timedOut)⟩, "in", "out", 1,
    some (.whole 10), Nat.one_pos⟩

def tiringSchema : Schema := ⟨"t", 1, Schema.consistentRouting⟩

theorem sampleStore_outOfTime_tiring :
    (tiring 20).limit = some (.whole 10) ∧
      ((tiring 20).sampleStore tiringSchema 0 none staleTree).verdict =
        .ok ⟨"t", .failed, 0, some "timed out sampling a key after 10s"⟩ ∧
      ∃ front key behind, (tiring 20).FirstFailing tiringSchema staleTree front key behind ∧
        (OutOfTime ((tiring 20).setting tiringSchema) key
              ((tiring 20).callsFor tiringSchema 0 none staleTree behind) ∧
            (lateFailure ((tiring 20).setting tiringSchema) key
              ((tiring 20).callsFor tiringSchema 0 none staleTree behind)).isSilentTimeout = true ∨
          ∃ kind, FailedInTime ((tiring 20).setting tiringSchema) key
            ((tiring 20).callsFor tiringSchema 0 none staleTree behind) (.timeout kind "")) := by
  have hverdict : ((tiring 20).sampleStore tiringSchema 0 none staleTree).verdict =
      .ok ⟨"t", .failed, 0, some "timed out sampling a key after 10s"⟩ := by decide +kernel
  obtain ⟨⟨hreported, -⟩, -⟩ :=
    sampleStore_outOfTime (tiring 20) tiringSchema 0 none staleTree rfl hverdict
  exact ⟨rfl, hverdict, hreported (by decide +kernel)⟩

/-- A store that is reported as out of time, though its only key failed in time. -/
theorem sampleStore_outOfTime_early :
    (tiring 1).FirstFailing tiringSchema staleTree [] (1, [0x61]) [] ∧
      FailedInTime ((tiring 1).setting tiringSchema) (1, [0x61])
        ((tiring 1).callsFor tiringSchema 0 none staleTree []) (.timeout "TimeoutError" "") ∧
      ¬OutOfTime ((tiring 1).setting tiringSchema) (1, [0x61])
        ((tiring 1).callsFor tiringSchema 0 none staleTree []) ∧
      ((tiring 1).sampleStore tiringSchema 0 none staleTree).verdict =
        .ok ⟨"t", .failed, 0, some "timed out sampling a key after 10s"⟩ := by
  have hkeys : (tiring 1).keys? tiringSchema staleTree = some ([] ++ (1, [0x61]) :: []) := by
    decide +kernel
  have hcalls : (tiring 1).callsFor tiringSchema 0 none staleTree [] =
      [⟨0, "t", 0, [0x61]⟩] := by decide +kernel
  have hask : Schedule.ask ((tiring 1).setting tiringSchema) (1, [0x61]) = .error .timedOut := by
    decide +kernel
  have hfailed : FailedInTime ((tiring 1).setting tiringSchema) (1, [0x61])
      [⟨0, "t", 0, [0x61]⟩] .timedOut := by
    refine .answered rfl rfl rfl (fun deadline hdeadline => ?_) rfl
    cases hdeadline
    decide +kernel
  rw [hcalls]
  exact ⟨⟨hkeys, by simp, Schedule.not_succeeds_of_error hask⟩, hfailed,
    fun hout => hout.not_failedInTime hfailed, by decide +kernel⟩

end Census

end ReplicaCensus
