import Mathlib
import ReplicaCensus.Proofs.Census.AllOrNothing
import ReplicaCensus.Proofs.Census.Slots
import ReplicaCensus.Proofs.Workload.KeyFile
/-!
# Each key asks its replicas in turn

The fetches that are begun for one key of a store go to the first of its replicas, in their order,
and each of them is begun when the one before it has succeeded. A store that is sampled has asked
all replicas of all its keys, and a store that cannot be written has asked none. A key that fails is
out of time, or its last fetch has failed, or it was cancelled.
-/

namespace ReplicaCensus

open Census (callsBefore callsBefore_of_late)

/-- The number of the key for which a fetch begins. -/
def SlotEvent.begins? : SlotEvent → Option Nat
  | began k _ _ _ => some k
  | _ => none

/-- Where nothing is asked for no fetch begins. -/
theorem begins_eq_nil {events : List SlotEvent} (h : events.filterMap SlotEvent.target? = []) :
    events.filterMap SlotEvent.begins? = [] := by
  rw [List.filterMap_eq_nil_iff] at h ⊢
  intro event hevent
  have hnone := h event hevent
  cases event with
  | began k store node key => cases hnone
  | _ => rfl

namespace Schedule

/-! ## 1. One key -/

/-- The nodes to be asked for a key; none if the key cannot be routed. -/
def Setting.replicas (s : Setting) (key : Bytes) : List Int :=
  match s.source.replicas s.schema key with
  | .ok nodes => nodes
  | .error _ => []

/-- These fetches are begun for a key in turn: its replicas are asked in their order, each at the
moment at which the one before it has answered well, and none once the time of the key is up. -/
structure InTurn (s : Setting) (key : KeyLine) (calls : List Call) : Prop where
  own : ∀ call ∈ calls, call.store = s.schema.name ∧ call.key = key.2
  nodes : calls.map Call.node <+: s.replicas key.2
  succeeded : ∀ i call next, calls[i]? = some call → calls[i + 1]? = some next →
    (∃ versions, (s.fetch key i call.node).answer = .ok versions) ∧
      next.time = call.time + s.wait key i call.node
  inTime : ∀ first ∈ calls.head?, ∀ deadline, s.deadline first.time = some deadline →
    ∀ call ∈ calls, call.time ≤ deadline

variable {s : Setting} {key : KeyLine} {calls : List Call} {f : Failure}

theorem inTurn_nil (s : Setting) (key : KeyLine) : InTurn s key [] := by
  refine ⟨?_, List.nil_prefix, ?_, ?_⟩ <;> simp

theorem InTurn.of_prefix {begun : List Call} (h : InTurn s key calls) (hbegun : begun <+: calls) :
    InTurn s key begun := by
  refine ⟨fun call hcall => h.own call (hbegun.subset hcall), (hbegun.map _).trans h.nodes,
    fun i call next hcall hnext => ?_, fun first hfirst deadline hdeadline call hcall => ?_⟩
  · have hsame : ∀ {j : Nat} {call : Call}, begun[j]? = some call → calls[j]? = some call := by
      intro j call hj
      obtain ⟨hlt, rfl⟩ := List.getElem?_eq_some_iff.1 hj
      exact List.prefix_iff_getElem?.1 hbegun j hlt
    exact h.succeeded i call next (hsame hcall) (hsame hnext)
  · obtain ⟨more, rfl⟩ := hbegun
    apply h.inTime first _ deadline hdeadline call (List.mem_append_left _ hcall)
    rw [List.head?_append, Option.mem_def.1 hfirst]
    rfl

/-- Fetches in turn are begun one behind the other. -/
theorem callsBefore_prefix (h : InTurn s key calls) (time : Rat) :
    callsBefore time calls <+: calls := by
  have hsorted : calls.Pairwise fun call next => call.time ≤ next.time := by
    refine List.isChain_iff_pairwise.1 (List.isChain_iff_getElem.2 fun i hi => ?_)
    obtain ⟨-, hnext⟩ := h.succeeded i _ _ (List.getElem?_eq_getElem (Nat.lt_of_succ_lt hi))
      (List.getElem?_eq_getElem hi)
    rw [hnext]
    exact le_add_of_nonneg_right (s.wait_nonneg key i _)
  clear h
  unfold callsBefore
  induction calls with
  | nil => exact List.nil_prefix
  | cons call rest ih =>
    rw [List.pairwise_cons] at hsorted
    by_cases hearly : call.time < time
    · rw [List.filter_cons_of_pos (by simpa using hearly), List.cons_prefix_cons]
      exact ⟨rfl, ih hsorted.2⟩
    · -- those behind are no earlier
      have hlate : ∀ later ∈ call :: rest, time ≤ later.time :=
        List.forall_mem_cons.2 ⟨not_lt.1 hearly, fun later hmem =>
          (not_lt.1 hearly).trans (hsorted.1 later hmem)⟩
      have hnone := callsBefore_of_late hlate
      unfold callsBefore at hnone
      rw [hnone]
      exact List.nil_prefix

/-- What a fetch that is open has to do with the fetches that were begun for its key. -/
structure Asking (s : Setting) (key : KeyLine) (r : Reading) (calls : List Call) : Prop where
  alive : s.isExpired = false
  fresh : r.cancels = 0
  length_eq : calls.length = r.answers.length + 1
  replicas : s.source.replicas s.schema key.2 = .ok (calls.map Call.node ++ r.rest)
  first : ∃ first ∈ calls.head?, r.deadline = s.deadline first.time
  last : ∃ last ∈ calls.getLast?, last.node = r.node ∧
    r.due = last.time + s.wait key r.answers.length last.node

/-- The time of a key was up before it was done: it never had any, or the last fetch that was begun
for it was open still when the time since the first was up. The first fetch is begun when the key
gets its slot. -/
inductive OutOfTime (s : Setting) (key : KeyLine) (calls : List Call) : Prop
  | expired (hexpired : s.isExpired = true) (hcalls : calls = [])
  | cutOff {first last : Call} {deadline : Rat} (hfirst : first ∈ calls.head?)
    (hlast : last ∈ calls.getLast?) (hdeadline : s.deadline first.time = some deadline)
    (hlate : deadline < last.time + s.wait key (calls.length - 1) last.node)

/-- The failure of a key whose time is up: that with which its last fetch ends when it is cancelled,
unless this is only the cancellation. -/
def lateFailure (s : Setting) (key : KeyLine) (calls : List Call) : Failure :=
  match calls.getLast? with
  | none => .timedOut
  | some last => (s.fetch key (calls.length - 1) last.node).timedOut

/-- A key failed while it had time: no clock can be set to its limit, or it could not be routed, or
the last fetch that was begun for it ended in time, and with this failure. -/
inductive FailedInTime (s : Setting) (key : KeyLine) (calls : List Call) (f : Failure) : Prop
  | unusable (halive : s.isExpired = false) (hcalls : calls = []) (hunusable : s.isUnusable = true)
    (hlimit : f = .limitTooLarge)
  | unrouted (halive : s.isExpired = false) (hcalls : calls = []) (husable : s.isUnusable = false)
    (hroute : s.source.replicas s.schema key.2 = .error f)
  | answered {first last : Call} (halive : s.isExpired = false) (hfirst : first ∈ calls.head?)
    (hlast : last ∈ calls.getLast?)
    (hintime : ∀ deadline, s.deadline first.time = some deadline →
      last.time + s.wait key (calls.length - 1) last.node ≤ deadline)
    (hanswer : (s.fetch key (calls.length - 1) last.node).answer = .error f)

/-- How a key fails for which these fetches were begun. If it is cancelled with the run, a key with
a limit fails with the cancellation and nothing else. -/
inductive FailsWith (s : Setting) (key : KeyLine) (calls : List Call) (f : Failure) : Prop
  | late (hout : OutOfTime s key calls) (hf : f = lateFailure s key calls)
  | inTime (hin : FailedInTime s key calls f)
  | cut (hlimit : s.limit ≠ none → f = .cancelled)

/-- What was begun for a key whose task has come this far. -/
def Asked (s : Setting) (key : KeyLine) (phase : Phase) (calls : List Call) : Prop :=
  InTurn s key calls ∧
    match phase with
    | .waiting => calls = []
    | .reading r =>
      match r.closing with
      | none => Asking s key r calls
      | some f => FailsWith s key calls f
    | .done (.ok _) => s.source.replicas s.schema key.2 = .ok (calls.map Call.node)
    | .done (.error f) => FailsWith s key calls f

theorem asked_start {now : Rat} {phase : Phase} (h : start s now key = (phase, calls)) :
    Asked s key phase calls := by
  have hlater := (later_start h).1
  cases phase with
  | waiting => exact absurd (congrArg Prod.fst h) (start_ne_waiting s now key)
  | reading r =>
    obtain ⟨nodes, hnodes, hopened, hdeadline, halive⟩ := of_start_reading h
    rw [hopened.nodes] at hnodes
    obtain rfl := hopened.calls
    have hasking : Asking s key r [⟨now, s.schema.name, r.node, key.2⟩] := by
      refine ⟨halive, hopened.cancels, ?_, hnodes, ⟨_, rfl, hdeadline⟩, ⟨_, rfl, rfl, ?_⟩⟩
      · rw [hopened.answers]
        rfl
      · rw [hopened.due, hopened.answers]
        rfl
    refine ⟨⟨by simp, ?_, by simp, ?_⟩, ?_⟩
    · rw [Setting.replicas, hnodes]
      exact ⟨r.rest, rfl⟩
    · -- the first fetch is begun with all the time of the key left
      intro first hfirst deadline hd call hcall
      obtain rfl := Option.some.inj hfirst
      obtain rfl := List.mem_singleton.1 hcall
      exact (le_next_iff.1 (hlater r rfl)).2 deadline (hdeadline.trans hd)
    · dsimp only
      rw [hopened.closing]
      exact hasking
  | done result =>
    unfold start at h
    split at h
    · next hexpired =>
      cases h
      exact ⟨inTurn_nil s key, .late (.expired hexpired rfl) rfl⟩
    next halive =>
    rw [Bool.not_eq_true] at halive
    split at h
    · next hunusable =>
      cases h
      exact ⟨inTurn_nil s key, .inTime (.unusable halive rfl hunusable rfl)⟩
    next husable =>
    rw [Bool.not_eq_true] at husable
    split at h
    · next f hroute =>
      cases h
      exact ⟨inTurn_nil s key, .inTime (.unrouted halive rfl husable hroute)⟩
    · next hnodes =>
      cases h
      exact ⟨inTurn_nil s key, hnodes⟩
    · cases h

/-- A fetch that is begun at the moment at which the last one has answered well is in turn, if this
is in the time of the key. -/
theorem InTurn.concat {last new : Call} (h : InTurn s key calls) (hlast : last ∈ calls.getLast?)
    (hown : new.store = s.schema.name ∧ new.key = key.2)
    (hnodes : (calls ++ [new]).map Call.node <+: s.replicas key.2)
    (hanswer : ∃ versions, (s.fetch key (calls.length - 1) last.node).answer = .ok versions)
    (htime : new.time = last.time + s.wait key (calls.length - 1) last.node)
    (hintime : ∀ first ∈ calls.head?, ∀ deadline, s.deadline first.time = some deadline →
      new.time ≤ deadline) : InTurn s key (calls ++ [new]) := by
  have hlength : 0 < calls.length := List.length_pos_of_mem (List.mem_of_getLast? hlast)
  refine ⟨fun call hcall => ?_, hnodes, fun i call next hcall hnext => ?_,
    fun first hfirst deadline hd call hcall => ?_⟩
  · rcases List.mem_append.1 hcall with hcall | hcall
    · exact h.own call hcall
    · rw [List.mem_singleton.1 hcall]
      exact hown
  · by_cases hold : i + 1 < calls.length
    · rw [List.getElem?_append_left (Nat.lt_of_succ_lt hold)] at hcall
      rw [List.getElem?_append_left hold] at hnext
      exact h.succeeded i call next hcall hnext
    · -- the new fetch stands behind the last one
      have hi : i + 1 = calls.length := by
        have hlt := (List.getElem?_eq_some_iff.1 hnext).1
        rw [List.length_append, List.length_singleton] at hlt
        omega
      rw [List.getElem?_append_left (by omega)] at hcall
      rw [hi, List.getElem?_concat_length] at hnext
      have hindex : i = calls.length - 1 := by omega
      have hsame : call ∈ calls.getLast? := by
        rw [List.getLast?_eq_getElem?, ← hindex]
        exact hcall
      obtain rfl := Option.mem_unique hsame hlast
      obtain rfl := Option.some.inj hnext
      rw [hindex]
      exact ⟨hanswer, htime⟩
  · rw [List.head?_append_of_ne_nil _ (List.length_pos_iff.1 hlength)] at hfirst
    rcases List.mem_append.1 hcall with hcall | hcall
    · exact h.inTime first hfirst deadline hd call hcall
    · rw [List.mem_singleton.1 hcall]
      exact hintime first hfirst deadline hd

/-- So is the next fetch of a task whose fetch has ended well. -/
theorem inTurn_next {r r' : Reading} {versions : List String} {more : List Call}
    (h : InTurn s key calls) (ha : Asking s key r calls) (hintime : r.due ≤ r.next)
    (hanswer : (s.fetch key r.answers.length r.node).answer = .ok versions)
    (hopened : Opened s r.due key r.rest (r.answers ++ [versions]) r' more)
    (hdeadline : r'.deadline = r.deadline) :
    InTurn s key (calls ++ more) ∧ Asking s key r' (calls ++ more) := by
  obtain ⟨last, hlast, hnode, hdue⟩ := ha.last
  obtain ⟨begin, hbegin, hlimit⟩ := ha.first
  obtain ⟨new, hnew, rfl⟩ : ∃ new : Call,
      new = ⟨r.due, s.schema.name, r'.node, key.2⟩ ∧ more = [new] := ⟨_, rfl, hopened.calls⟩
  have hrest : s.source.replicas s.schema key.2 =
      .ok ((calls ++ [new]).map Call.node ++ r'.rest) := by
    rw [ha.replicas, hopened.nodes, List.map_append, List.append_assoc, hnew]
    rfl
  have hhead : (calls ++ [new]).head? = some begin := by
    rw [List.head?_append, Option.mem_def.1 hbegin]
    rfl
  have hlength : r'.answers.length = r.answers.length + 1 := by
    rw [hopened.answers, List.length_append]
    rfl
  have hindex : calls.length - 1 = r.answers.length := by
    rw [ha.length_eq]
    rfl
  constructor
  · rw [← hindex] at hdue hanswer
    rw [← hnode] at hanswer
    refine h.concat hlast (hnew ▸ ⟨rfl, rfl⟩) ?_ ⟨versions, hanswer⟩ (hnew ▸ hdue) ?_
    · rw [Setting.replicas, hrest]
      exact ⟨r'.rest, rfl⟩
    · intro first hfirst deadline hd
      obtain rfl := Option.mem_unique hfirst hbegin
      rw [hnew]
      exact hintime.trans ((le_next_iff.1 le_rfl).2 deadline (hlimit.trans hd))
  · refine ⟨ha.alive, hopened.cancels, ?_, hrest, ⟨begin, hhead, hdeadline.trans hlimit⟩, ?_⟩
    · rw [List.length_append, ha.length_eq, hlength]
      rfl
    · rw [List.getLast?_concat]
      refine ⟨new, rfl, by rw [hnew], ?_⟩
      rw [hopened.due, hopened.answers, hnew]

/-- A fetch that is cancelled goes on until it has ended, or ends at once. -/
theorem asked_close {r : Reading} {how : Failure → Failure} (h : InTurn s key calls)
    (hf : FailsWith s key calls
      (how ((s.fetch key r.answers.length r.node).closing r.cancels).failure)) (now : Rat) :
    Asked s key (close s now key r how) calls := by
  rcases close_cases s now key r how with ⟨-, hclose⟩ | ⟨-, hclose⟩
  · rw [hclose]
    exact ⟨h, hf⟩
  · rw [hclose]
    exact ⟨h, hf⟩

theorem asked_proceed {r : Reading} {phase : Phase} {more : List Call}
    (h : Asked s key (.reading r) calls) (hproceed : proceed s key r = (phase, more)) :
    Asked s key phase (calls ++ more) := by
  obtain ⟨hturn, hasking⟩ := h
  dsimp only at hasking
  unfold proceed at hproceed
  split at hproceed
  · next f hclosing =>
    cases hproceed
    rw [hclosing] at hasking
    rw [List.append_nil]
    exact ⟨hturn, hasking⟩
  next hclosing =>
  rw [hclosing] at hasking
  dsimp only at hasking
  obtain ⟨first, hfirst, hlimit⟩ := hasking.first
  obtain ⟨last, hlast, hnode, hdue⟩ := hasking.last
  have hindex : r.answers.length = calls.length - 1 := by
    rw [hasking.length_eq]
    rfl
  split at hproceed
  · next hlate =>
    cases hproceed
    rw [List.append_nil]
    obtain ⟨deadline, hdeadline, hlate⟩ :=
      (Option.any_eq_true _ _).1 ((next_lt_due_iff r).1 hlate)
    rw [decide_eq_true_eq, hdue, hindex] at hlate
    refine asked_close hturn (.late (.cutOff hfirst hlast (hlimit.symm.trans hdeadline) hlate) ?_) _
    rw [lateFailure, Option.mem_def.1 hlast, hasking.fresh, hindex, ← hnode]
    rfl
  next hintime =>
  have hdeadline := (le_next_iff.1 (not_lt.1 hintime)).2
  split at hproceed
  · next f hanswer =>
    cases hproceed
    rw [List.append_nil]
    rw [hdue, hlimit, hindex] at hdeadline
    rw [hindex, ← hnode] at hanswer
    exact ⟨hturn, .inTime (.answered hasking.alive hfirst hlast hdeadline hanswer)⟩
  next versions hanswer =>
  dsimp only at hproceed
  split at hproceed
  · next hrest =>
    cases hproceed
    have hall := hasking.replicas
    rw [hrest, List.append_nil] at hall
    rw [List.append_nil]
    exact ⟨hturn, hall⟩
  · next node rest hrest =>
    obtain ⟨r', rfl⟩ : ∃ r', phase = .reading r' := ⟨_, (congrArg Prod.fst hproceed).symm⟩
    obtain ⟨hopened, hsame⟩ := opened_openFetch hproceed
    rw [← hrest] at hopened
    obtain ⟨hturn', hasking'⟩ :=
      inTurn_next hturn hasking (not_lt.1 hintime) hanswer hopened hsame
    refine ⟨hturn', ?_⟩
    dsimp only
    rw [hopened.closing]
    exact hasking'

/-- A key that is cancelled begins no fetch any more. -/
theorem asked_cancel {t : Task} (h : Asked s t.key t.phase calls) (now : Rat) :
    Asked s t.key (t.cancel s now).1.phase calls := by
  obtain ⟨hturn, hphase⟩ := h
  unfold Task.cancel
  split
  · next result hdone => exact ⟨hturn, hphase⟩
  · exact ⟨hturn, .cut fun _ => rfl⟩
  · split
    · next hlimit => exact asked_close hturn (.cut fun hne => absurd hlimit hne) now
    · exact @asked_close s t.key calls _ (fun _ => .cancelled) hturn (.cut fun _ => rfl) now
    · exact ⟨hturn, .cut fun _ => rfl⟩

/-! ## 2. The keys of a store -/

/-- The fetches that were begun for the key with this number. -/
def callsOf (k : Nat) (begun : List (Nat × Call)) : List Call :=
  (begun.filter fun e => e.1 = k).map Prod.snd

theorem callsOf_append (k : Nat) (begun more : List (Nat × Call)) :
    callsOf k (begun ++ more) = callsOf k begun ++ callsOf k more := by
  rw [callsOf, List.filter_append, List.map_append]
  rfl

theorem callsOf_of_ne {k : Nat} {begun : List (Nat × Call)} (h : ∀ e ∈ begun, e.1 ≠ k) :
    callsOf k begun = [] := by
  rw [callsOf, List.filter_eq_nil_iff.2 fun e he => by simpa using h e he]
  rfl

theorem callsOf_map_mk (k : Nat) (calls : List Call) :
    callsOf k (calls.map (Prod.mk k)) = calls := by
  unfold callsOf
  rw [List.filter_eq_self.2, List.map_map]
  · exact List.map_id calls
  · intro e he
    obtain ⟨call, -, rfl⟩ := List.mem_map.1 he
    exact decide_eq_true rfl

/-- Of all that was begun, what was begun for each of these keys. A key goes by the number of keys
behind it. -/
def EachAsked (s : Setting) : List Task → List (Nat × Call) → Prop
  | [], _ => True
  | t :: rest, begun =>
    Asked s t.key t.phase (callsOf rest.length begun) ∧ EachAsked s rest begun

/-- What is begun for keys in front is nothing to these. -/
theorem EachAsked.append {tasks : List Task} {begun more : List (Nat × Call)}
    (h : EachAsked s tasks begun) (hmore : ∀ e ∈ more, tasks.length ≤ e.1) :
    EachAsked s tasks (begun ++ more) := by
  induction tasks with
  | nil => trivial
  | cons t rest ih =>
    refine ⟨?_, ih h.2 fun e he => Nat.le_of_succ_le (hmore e he)⟩
    rw [callsOf_append, callsOf_of_ne fun e he => (Nat.lt_of_succ_le (hmore e he)).ne',
      List.append_nil]
    exact h.1

theorem EachAsked.of_append {front behind : List Task} {t : Task} {begun : List (Nat × Call)}
    (h : EachAsked s (front ++ t :: behind) begun) :
    Asked s t.key t.phase (callsOf behind.length begun) := by
  induction front with
  | nil => exact h.1
  | cons u front ih => exact ih h.2

theorem begins_start {now : Rat} {t : Task} {phase : Phase} {calls : List Call}
    (ht : t.phase = .waiting) (h : start s now t.key = (phase, calls)) (k : Nat) :
    (t.changes s.schema.name k ⟨t.key, phase⟩).filterMap SlotEvent.begins? =
      calls.map fun _ => k := by
  unfold Task.changes
  rw [ht]
  rcases start_cases s now t.key with ⟨result, h'⟩ | ⟨r, h'⟩
  · cases h'.symm.trans h
    rfl
  · cases h'.symm.trans h
    rfl

theorem begins_proceed {t : Task} {r : Reading} {phase : Phase} {calls : List Call}
    (ht : t.phase = .reading r) (h : proceed s t.key r = (phase, calls)) (k : Nat) :
    (t.changes s.schema.name k ⟨t.key, phase⟩).filterMap SlotEvent.begins? =
      calls.map fun _ => k := by
  unfold Task.changes
  rw [ht]
  rcases proceed_cases s t.key r with ⟨result, h'⟩ | ⟨r', h', hsame, -⟩ | ⟨r', h', hmore⟩
  · cases h'.symm.trans h
    rfl
  · cases h'.symm.trans h
    dsimp only
    rw [if_pos (congrArg List.length hsame.symm)]
    rfl
  · cases h'.symm.trans h
    have hnext : r.answers.length ≠ r'.answers.length := by omega
    dsimp only
    rw [if_neg hnext]
    rfl

/-- From some tasks to others the keys are the same, and these fetches were begun for them, as it is
seen from the tasks. -/
structure Told (s : Setting) (tasks tasks' : List Task) (calls : List Call)
    (told : List (Nat × Call)) : Prop where
  map_key : tasks'.map Task.key = tasks.map Task.key
  begins : told.map Prod.fst =
    (changes s.schema.name tasks tasks').filterMap SlotEvent.begins?
  fetches : told.map Prod.snd = calls
  lt : ∀ e ∈ told, e.1 < tasks.length
  asked : ∀ begun, EachAsked s tasks begun → EachAsked s tasks' (begun ++ told)

theorem Told.length_eq {tasks tasks' : List Task} {calls : List Call} {told : List (Nat × Call)}
    (h : Told s tasks tasks' calls told) : tasks'.length = tasks.length := by
  have hmap := congrArg List.length h.map_key
  rwa [List.length_map, List.length_map] at hmap

theorem told_refl (s : Setting) (tasks : List Task) : Told s tasks tasks [] [] := by
  refine ⟨rfl, ?_, rfl, by simp, fun begun h => (List.append_nil begun).symm ▸ h⟩
  rw [changes_self]
  rfl

/-- A key to which something happens, with others behind it. -/
theorem Told.cons {t t' : Task} {rest rest' : List Task} {more calls : List Call}
    {told : List (Nat × Call)} (h : Told s rest rest' calls told) (hkey : t'.key = t.key)
    (hfirst : ∀ calls, Asked s t.key t.phase calls → Asked s t'.key t'.phase (calls ++ more))
    (hbegins : (t.changes s.schema.name rest.length t').filterMap SlotEvent.begins? =
      more.map fun _ => rest.length) :
    Told s (t :: rest) (t' :: rest') (more ++ calls) (more.map (Prod.mk rest.length) ++ told) := by
  have hnew : ∀ e ∈ more.map (Prod.mk rest.length), e.1 = rest.length := by
    intro e he
    obtain ⟨call, -, rfl⟩ := List.mem_map.1 he
    rfl
  refine ⟨by rw [List.map_cons, List.map_cons, hkey, h.map_key], ?_, ?_, fun e he => ?_,
    fun begun hb => ?_⟩
  · rw [changes, h.length_eq, List.filterMap_append, hbegins, List.map_append, List.map_map,
      h.begins]
    rfl
  · rw [List.map_append, List.map_map, h.fetches]
    exact congrArg (· ++ calls) (List.map_id more)
  · rcases List.mem_append.1 he with he | he
    · exact (hnew e he).trans_lt (Nat.lt_succ_self _)
    · exact Nat.lt_succ_of_lt (h.lt e he)
  · rw [← List.append_assoc]
    refine ⟨?_, h.asked _ (hb.2.append fun e he => (hnew e he).ge)⟩
    rw [h.length_eq, callsOf_append, callsOf_append, callsOf_map_mk,
      callsOf_of_ne fun e he => (h.lt e he).ne, List.append_nil]
    exact hfirst _ hb.1

/-- A key to which nothing happens. -/
theorem Told.cons_self {rest rest' : List Task} {calls : List Call} {told : List (Nat × Call)}
    (h : Told s rest rest' calls told) (t : Task) : Told s (t :: rest) (t :: rest') calls told := by
  have hcons := @Told.cons s t t rest rest' [] calls told h rfl
    (fun begun hbegun => (List.append_nil begun).symm ▸ hbegun)
    (by rw [Task.changes_self]; rfl)
  exact hcons

theorem Told.front {tasks tasks' : List Task} {calls : List Call} {told : List (Nat × Call)}
    (h : Told s tasks tasks' calls told) (front : List Task) :
    Told s (front ++ tasks) (front ++ tasks') calls told := by
  induction front with
  | nil => exact h
  | cons t front ih => exact ih.cons_self t

theorem exists_told_grant (s : Setting) (now : Rat) (free : Nat) (tasks : List Task) :
    ∃ told, Told s tasks (grant s now free tasks).1 (grant s now free tasks).2.2 told := by
  fun_induction grant s now free tasks with
  | case1 => exact ⟨_, told_refl s []⟩
  | case2 => exact ⟨_, told_refl s _⟩
  | case3 free t rest hphase phase calls hstart t' rest' left more hgrant ih =>
    rw [hgrant] at ih
    obtain ⟨told, h⟩ := ih
    refine ⟨_, h.cons rfl (fun begun hbegun => ?_) (begins_start hphase hstart rest.length)⟩
    -- nothing was begun for a key that waits
    rw [hphase] at hbegun
    rw [hbegun.2]
    exact asked_start hstart
  | case4 free t rest rest' left calls hgrant _ ih =>
    rw [hgrant] at ih
    obtain ⟨told, h⟩ := ih
    exact ⟨_, h.cons_self t⟩

theorem exists_told_fire (s : Setting) (now : Rat) (tasks : List Task) :
    ∃ told, Told s tasks (fire s now tasks).1 (fire s now tasks).2.2 told := by
  fun_induction fire s now tasks with
  | case1 => exact ⟨_, told_refl s []⟩
  | case2 t rest r hphase hnext phase calls hproceed =>
    have h : Told s (t :: rest) (⟨t.key, phase⟩ :: rest) (calls ++ []) _ :=
      (told_refl s rest).cons rfl (fun begun hbegun => asked_proceed (hphase ▸ hbegun) hproceed)
        (begins_proceed hphase hproceed rest.length)
    rw [List.append_nil] at h
    exact ⟨_, h⟩
  | case3 t rest r hphase hnext rest' returned calls hfire ih =>
    rw [hfire] at ih
    obtain ⟨told, h⟩ := ih
    exact ⟨_, h.cons_self t⟩
  | case4 t rest rest' returned calls hfire _ ih =>
    rw [hfire] at ih
    obtain ⟨told, h⟩ := ih
    exact ⟨_, h.cons_self t⟩

/-! ## 3. The states of a store -/

/-- What is seen between two states are the fetches that begin for the tasks that are left. -/
theorem begins_between {st st' : State} {tasks : List Task} (hleft : tasks <:+ st.tasks)
    (hlength : st'.tasks.length = tasks.length) (store : String) :
    (st.between store st').filterMap SlotEvent.begins? =
      (changes store tasks st'.tasks).filterMap SlotEvent.begins? := by
  have hdrop : st.tasks.drop (st.tasks.length - st'.tasks.length) = tasks := by
    rw [hlength]
    exact (List.suffix_iff_eq_drop.1 hleft).symm
  have hnone : (if st.now < st'.now then [SlotEvent.passed] else []).filterMap
      SlotEvent.begins? = [] := by
    split <;> rfl
  rw [State.between, hdrop, List.filterMap_append, List.filterMap_append, hnone, List.nil_append]
  exact List.append_nil _

/-- What was begun for the keys of a store, those among them whose tasks are gone. -/
structure Recorded (s : Setting) (keys : List KeyLine) (gone : List Task) (st : State)
    (begun : List (Nat × Call)) : Prop where
  map_key : (gone ++ st.tasks).map Task.key = keys
  lt : ∀ e ∈ begun, e.1 < keys.length
  fetches : begun.map Prod.snd = st.calls
  asked : EachAsked s (gone ++ st.tasks) begun

theorem Recorded.told {keys : List KeyLine} {gone : List Task} {st st' : State} {calls : List Call}
    {begun told : List (Nat × Call)} (h : Recorded s keys gone st begun)
    (ht : Told s st.tasks st'.tasks calls told) (hcalls : st'.calls = st.calls ++ calls) :
    Recorded s keys gone st' (begun ++ told) := by
  have hfront := ht.front gone
  have hlength : (gone ++ st.tasks).length = keys.length := by
    rw [← h.map_key, List.length_map]
  refine ⟨hfront.map_key.trans h.map_key, fun e he => ?_, ?_, hfront.asked _ h.asked⟩
  · rcases List.mem_append.1 he with he | he
    · exact h.lt e he
    · exact hlength ▸ hfront.lt e he
  · rw [List.map_append, h.fetches, ht.fetches, hcalls]

/-- The phases of tasks that are done: well, up to the last if there is a failure. -/
def endPhases (blocks : List String) (failure : Option Failure) : List Phase :=
  blocks.map (fun block => .done (.ok block)) ++ failure.toList.map fun f => .done (.error f)

/-- These tasks have left these blocks; if there is a failure it is that of the last. -/
def Wrote (blocks : List String) (failure : Option Failure) (tasks : List Task) : Prop :=
  tasks.map Task.phase = endPhases blocks failure

theorem wrote_nil : Wrote [] none [] := rfl

theorem Wrote.append {blocks more : List String} {failure : Option Failure}
    {tasks tasks' : List Task} (h : Wrote blocks none tasks) (h' : Wrote more failure tasks') :
    Wrote (blocks ++ more) failure (tasks ++ tasks') := by
  have hall : tasks.map Task.phase = blocks.map fun block => .done (.ok block) :=
    h.trans (List.append_nil _)
  have hmore : tasks'.map Task.phase = endPhases more failure := h'
  show (tasks ++ tasks').map Task.phase = endPhases (blocks ++ more) failure
  rw [List.map_append, hall, hmore, endPhases, endPhases, List.map_append, List.append_assoc]

/-- The task behind those that left blocks fails. -/
theorem Wrote.fails {blocks : List String} {tasks : List Task} {t : Task} {f : Failure}
    (h : Wrote blocks none tasks) (ht : t.phase = .done (.error f)) :
    Wrote blocks (some f) (tasks ++ [t]) := by
  have hlast : Wrote [] (some f) [t] := congrArg (fun phase => [phase]) ht
  have happend := h.append hlast
  rwa [List.append_nil] at happend

theorem Wrote.done {blocks : List String} {tasks : List Task} {t : Task}
    (h : Wrote blocks none tasks) (ht : t ∈ tasks) : ∃ block, t.phase = .done (.ok block) := by
  have hphase : t.phase ∈ endPhases blocks none := h ▸ List.mem_map_of_mem ht
  rw [endPhases, Option.toList_none, List.map_nil, List.append_nil] at hphase
  obtain ⟨block, -, hblock⟩ := List.mem_map.1 hphase
  exact ⟨block, hblock.symm⟩

/-- The tasks whose blocks are written are done well; the one behind them may have failed. -/
theorem exists_gone_drain (tasks : List Task) :
    ∃ gone, gone ++ (drain tasks).2.1 = tasks ∧ Wrote (drain tasks).1 (drain tasks).2.2 gone := by
  fun_induction drain tasks with
  | case1 => exact ⟨[], rfl, wrote_nil⟩
  | case2 t rest block hphase blocks left failure hdrain ih =>
    rw [hdrain] at ih
    obtain ⟨gone, hgone, hwrote⟩ := ih
    have hfirst : Wrote [block] none [t] := congrArg (fun phase => [phase]) hphase
    exact ⟨t :: gone, congrArg (t :: ·) hgone, hfirst.append hwrote⟩
  | case3 t rest f hphase => exact ⟨[t], rfl, wrote_nil.fails hphase⟩
  | case4 => exact ⟨[], rfl, wrote_nil⟩

theorem Recorded.write {keys : List KeyLine} {gone : List Task} {st st' : State}
    {failure : Option Failure} {begun : List (Nat × Call)} (h : Recorded s keys gone st begun)
    (hw : st.write = (st', failure)) :
    ∃ gone', Recorded s keys gone' st' begun ∧
      (Wrote st.blocks none gone → Wrote st'.blocks failure gone') ∧ st'.tasks <:+ st.tasks := by
  obtain ⟨more, hmore, hwrote⟩ := exists_gone_drain st.tasks
  obtain rfl : st.write.1 = st' := by rw [hw]
  obtain rfl : (drain st.tasks).2.2 = failure := congrArg Prod.snd hw
  have htasks : (gone ++ more) ++ st.write.1.tasks = gone ++ st.tasks := by
    rw [List.append_assoc]
    exact congrArg (gone ++ ·) hmore
  refine ⟨gone ++ more, ⟨?_, h.lt, h.fetches, ?_⟩, fun hgone => hgone.append hwrote, ⟨more, hmore⟩⟩
  · rw [htasks]
    exact h.map_key
  · rw [htasks]
    exact h.asked

/-- The failure with which a run ends. -/
def Ending.failure? : Ending → Option Failure
  | failed f => some f
  | _ => none

/-- What a step begins is seen, and is begun in turn. -/
theorem recorded_step {cancelAt : Option Rat} {keys : List KeyLine} {gone : List Task}
    {st st' : State} {ending : Option Ending} {begun : List (Nat × Call)}
    (h : Recorded s keys gone st begun) (hstep : step s cancelAt st = (st', ending)) :
    ∃ gone' told, Recorded s keys gone' st' (begun ++ told) ∧
      told.map Prod.fst = (stepLog s cancelAt st).filterMap SlotEvent.begins? ∧
      (Wrote st.blocks none gone → Wrote st'.blocks (ending.bind Ending.failure?) gone') := by
  obtain ⟨granted, hgrant⟩ : ∃ granted, Told s st.tasks (st.fill s).tasks _ granted :=
    exists_told_grant s st.now st.free st.tasks
  have hfill : Recorded s keys gone (st.fill s) (begun ++ granted) := h.told hgrant rfl
  have hseen : granted.map Prod.fst =
      (st.between s.schema.name (st.fill s)).filterMap SlotEvent.begins? := by
    rw [begins_between List.suffix_rfl hgrant.length_eq, hgrant.begins]
  -- with the blocks written no fetch is begun, unless an event comes behind it
  have hquiet : ∀ {mid : State} {tasks : List Task} {told : List (Nat × Call)} {calls : List Call},
      tasks <:+ (st.fill s).tasks → Told s tasks mid.tasks calls told →
      (granted ++ told).map Prod.fst = (st.between s.schema.name (st.fill s) ++
        (st.fill s).between s.schema.name mid).filterMap SlotEvent.begins? := by
    intro mid tasks told calls hleft htold
    rw [List.map_append, List.filterMap_append, hseen,
      begins_between hleft htold.length_eq, htold.begins]
  unfold stepLog
  rw [hstep]
  cases steps_of_step hstep with
  | interrupted hi =>
    rw [if_pos hi]
    exact ⟨gone, [], (List.append_nil begun).symm ▸ h, rfl, id⟩
  | complete hi _ hw =>
    rw [if_neg (Bool.eq_false_iff.1 hi)]
    obtain ⟨gone', hwritten, hwrote, hleft⟩ := hfill.write hw
    refine ⟨gone', granted, hwritten, ?_, hwrote⟩
    rw [← hquiet hleft (told_refl s _), List.append_nil]
  | @failed _ f hi _ hw =>
    rw [if_neg (Bool.eq_false_iff.1 hi)]
    obtain ⟨gone', hwritten, hwrote, hleft⟩ := hfill.write hw
    refine ⟨gone', granted, hwritten, ?_, hwrote⟩
    rw [← hquiet hleft (told_refl s _), List.append_nil]
  | happens hi _ _ =>
    rw [if_neg (Bool.eq_false_iff.1 hi)]
    obtain ⟨told, hfire⟩ := exists_told_fire s (st.fill s).now (st.fill s).tasks
    refine ⟨gone, granted ++ told, ?_, hquiet List.suffix_rfl hfire, id⟩
    rw [← List.append_assoc]
    exact hfill.told hfire rfl
  | @cancelled mid time hi _ _ hw _ =>
    rw [if_neg (Bool.eq_false_iff.1 hi)]
    obtain ⟨gone', hwritten, hwrote, hleft⟩ := hfill.write hw
    refine ⟨gone', granted, ⟨hwritten.map_key, hwritten.lt, hwritten.fetches, hwritten.asked⟩, ?_,
      hwrote⟩
    rw [← @hquiet { mid with now := cancelTime mid.now cancelAt } _ _ _ hleft (told_refl s _),
      List.append_nil]
  | @passes mid time hi _ _ hw _ =>
    rw [if_neg (Bool.eq_false_iff.1 hi)]
    obtain ⟨gone', hwritten, hwrote, hleft⟩ := hfill.write hw
    obtain ⟨told, hfire⟩ := exists_told_fire s time mid.tasks
    refine ⟨gone', granted ++ told, ?_, hquiet hleft hfire, hwrote⟩
    rw [← List.append_assoc]
    exact hwritten.told hfire rfl

/-- All that is begun in a run is seen, and is begun in turn. -/
theorem recorded_run {cancelAt : Option Rat} {keys : List KeyLine} {gone : List Task} {st : State}
    {begun : List (Nat × Call)} (h : Recorded s keys gone st begun) :
    ∃ gone' told, Recorded s keys gone' (run s cancelAt st).1 (begun ++ told) ∧
      told.map Prod.fst = (runLog s cancelAt st).filterMap SlotEvent.begins? ∧
      (Wrote st.blocks none gone →
        Wrote (run s cancelAt st).1.blocks (run s cancelAt st).2.failure? gone') := by
  fun_induction run s cancelAt st generalizing gone begun with
  | case1 st st' ending hstep =>
    obtain ⟨gone', told, hrecorded, hseen, hwrote⟩ := recorded_step h hstep
    refine ⟨gone', told, hrecorded, ?_, hwrote⟩
    rw [runLog, hstep, List.append_nil]
    exact hseen
  | case2 st st' hstep =>
    rename_i ih
    obtain ⟨mid, told, hrecorded, hseen, hwrote⟩ := recorded_step h hstep
    obtain ⟨gone', more, hlast, hlater, hwrote'⟩ := ih hrecorded
    refine ⟨gone', told ++ more, ?_, ?_, fun hgone => hwrote' (hwrote hgone)⟩
    · rw [← List.append_assoc]
      exact hlast
    · rw [runLog, hstep, List.map_append, List.filterMap_append, hseen]
      exact congrArg _ hlater

theorem EachAsked.front {front rest : List Task} {t t' : Task} {begun : List (Nat × Call)}
    (h : EachAsked s (front ++ t :: rest) begun)
    (ht : ∀ calls, Asked s t.key t.phase calls → Asked s t'.key t'.phase calls) :
    EachAsked s (front ++ t' :: rest) begun := by
  induction front with
  | nil => exact ⟨ht _ h.1, h.2⟩
  | cons u front ih =>
    have hsame : (front ++ t' :: rest).length = (front ++ t :: rest).length := by
      rw [List.length_append, List.length_append]
      rfl
    refine ⟨?_, ih h.2⟩
    show Asked s u.key u.phase (callsOf (front ++ t' :: rest).length begun)
    rw [hsame]
    exact h.1

/-- When the task in front is cancelled, it is gone, or it goes on and begins no fetch any more. -/
theorem recorded_cancelFront {keys : List KeyLine} {gone rest : List Task} {st : State} {t : Task}
    {begun : List (Nat × Call)} (h : Recorded s keys gone st begun) (htasks : st.tasks = t :: rest)
    (ht : t.isDone = false) :
    ∃ gone', Recorded s keys gone' (st.cancelFront s).1 begun ∧
      (Wrote st.blocks none gone →
        Wrote (st.cancelFront s).1.blocks ((st.cancelFront s).2.bind Ending.failure?) gone') := by
  have hkeys := h.map_key
  have hasked := h.asked
  rw [htasks] at hkeys hasked
  have hkey : (t.cancel s st.now).1.key = t.key := by
    rcases cancel_cases s st.now t with ⟨result, -, h⟩ | ⟨f, stray, h, -⟩ | ⟨r, r', -, h, -⟩ <;>
      rw [h]
  have hcancelled : EachAsked s (gone ++ (t.cancel s st.now).1 :: rest) begun :=
    hasked.front fun calls hcalls => hkey.symm ▸ asked_cancel hcalls st.now
  have hkeys' : (gone ++ (t.cancel s st.now).1 :: rest).map Task.key = keys := by
    rw [← hkeys, List.map_append, List.map_append, List.map_cons, List.map_cons, hkey]
  unfold State.cancelFront
  rw [htasks]
  dsimp only
  rcases cancel_cases s st.now t with ⟨result, hphase, -⟩ | ⟨f, stray, hcancel, -⟩ |
    ⟨r, r', -, hcancel, -⟩
  · rw [Task.isDone, hphase] at ht
    cases ht
  · rw [hcancel] at hcancelled hkeys' ⊢
    refine ⟨gone ++ [⟨t.key, .done (.error f)⟩], ⟨?_, h.lt, h.fetches, ?_⟩, fun hgone =>
      hgone.fails rfl⟩
    · rw [List.append_assoc]
      exact hkeys'
    · rw [List.append_assoc]
      exact hcancelled
  · rw [hcancel] at hcancelled hkeys' ⊢
    exact ⟨gone, ⟨hkeys', h.lt, h.fetches, hcancelled⟩, id⟩

/-- All that is begun in the whole run of a store is seen, and is begun in turn. -/
theorem recorded_runOut {cancelAt : Option Rat} {keys : List KeyLine} {gone : List Task}
    {st : State} {begun : List (Nat × Call)} (h : Recorded s keys gone st begun) :
    ∃ gone' told, Recorded s keys gone' (runOut s cancelAt st).1 (begun ++ told) ∧
      told.map Prod.fst = (outLog s cancelAt st).filterMap SlotEvent.begins? ∧
      (Wrote st.blocks none gone →
        Wrote (runOut s cancelAt st).1.blocks (runOut s cancelAt st).2.1.failure? gone') := by
  obtain ⟨mid, told, hmid, hseen, hwrote⟩ := @recorded_run _ cancelAt _ _ _ _ h
  have hruns := runsOut_runOut s cancelAt st
  unfold outLog
  generalize runOut s cancelAt st = result at hruns
  obtain ⟨last, ending, pending⟩ := result
  dsimp only at hruns ⊢
  cases hruns with
  | ends heq hne =>
    rw [heq] at hmid hwrote ⊢
    refine ⟨mid, told, hmid, ?_, hwrote⟩
    cases ending with
    | cancelled => exact absurd rfl hne
    | _ => rw [hseen, List.append_nil]
  | stops heq htasks ht hfront _ =>
    rw [heq] at hmid hwrote ⊢
    obtain ⟨gone', hrecorded, hlast⟩ := recorded_cancelFront hmid htasks ht
    rw [hfront] at hrecorded hlast
    refine ⟨gone', told, hrecorded, ?_, fun hgone => hlast (hwrote hgone)⟩
    dsimp only
    rw [hfront, List.append_nil, List.filterMap_append, begins_eq_nil (targets_frontLog s _),
      List.append_nil]
    exact hseen
  | @goesOn _ _ _ t rest r r' heq htasks hphase _ _ hfront hlast =>
    rw [heq] at hmid hwrote ⊢
    have ht : t.isDone = false := by rw [Task.isDone, hphase]
    obtain ⟨gone', hrecorded, hnext⟩ := recorded_cancelFront hmid htasks ht
    rw [hfront] at hrecorded hnext
    obtain ⟨gone'', more, hlater, hseen', hwrote'⟩ := @recorded_run _ none _ _ _ _ hrecorded
    rw [hlast] at hlater hwrote'
    refine ⟨gone'', told ++ more, ?_, ?_, fun hgone => hwrote' (hnext (hwrote hgone))⟩
    · rw [← List.append_assoc]
      exact hlater
    · dsimp only
      rw [hfront, List.map_append, hseen, hseen', List.filterMap_append, List.filterMap_append,
        begins_eq_nil (targets_frontLog s _), List.nil_append]

theorem recorded_initial (s : Setting) (now : Rat) (free : Nat) (keys : List KeyLine) :
    Recorded s keys [] (.initial now free keys) [] := by
  refine ⟨?_, by simp, rfl, ?_⟩
  · show (keys.map fun key => (⟨key, .waiting⟩ : Task)).map Task.key = keys
    rw [List.map_map]
    exact List.map_id keys
  · show EachAsked s (keys.map fun key => ⟨key, .waiting⟩) []
    induction keys with
    | nil => trivial
    | cons key rest ih => exact ⟨⟨inTurn_nil s key, rfl⟩, ih⟩

/-- When a store ends, fetches end and slots are returned, and nothing is begun. -/
theorem targets_endingLog (s : Setting) (cancelAt : Option Rat) {slots : Nat} {st : State}
    (ho : Orderly slots st) (ending : Ending) :
    (endingLog s cancelAt st ending).filterMap SlotEvent.target? = [] := by
  have habort : ∀ pending, (abortLog s pending st).filterMap SlotEvent.target? = [] := by
    intro pending
    have htargets := (seen_abort (n := 0) s pending ho).targets
    rw [calls_abort] at htargets
    exact List.append_right_eq_self.1 htargets.symm
  cases ending with
  | complete => rfl
  | interrupted => exact habort none
  | failed f => exact habort cancelAt
  | cancelled => exact habort cancelAt

end Schedule

/-! ## 4. A store -/

namespace Census

open Schedule (InTurn callsOf)

/-- Why no key of a store is asked for: it has samples, or it has no key file, or the file cannot be
read, or some line of it is no key, or there is another fault in it, or there is no place for its
temporary file. -/
inductive Blocked (c : Census) (store : String) (tree : FileTree) : Prop where
  | sampled (h : tree.has (c.samplesPath store) = true)
  | noKeys (h : tree.has (c.keysPath store) = false)
  | unreadable {e : FileError} (h : tree.read (c.keysPath store) = .error e)
  | badLine {cs line : List Char} (hread : tree.read (c.keysPath store) = .ok (Utf8.encode cs))
    (hline : line ∈ Text.linesOf (Text.foldNewlines cs))
    (hbad : Hex.decode? (Text.trimBlanks line) = none)
  | faulty {content : Bytes} (hread : tree.read (c.keysPath store) = .ok content)
    (hfault : (KeyFile.read (c.keysPath store) content).fault ≠ none)
  | noPlace {e : FileError} (h : tree.write (c.partialPath store) [] = .error e)

/-- The fetches that are begun in the run of a store, with the numbers of their keys, as they are
seen. -/
def begun (c : Census) (schema : Schema) (now : Rat) (cancelAt : Option Rat) (tree : FileTree) :
    List (Nat × Call) :=
  ((c.storeLog schema now c.slots cancelAt tree).filterMap SlotEvent.begins?).zip
    (c.storeFetches schema now cancelAt tree)

variable {c : Census} {schema : Schema} {tree : FileTree}

/-- A store that asks for its keys has read them, all lines of its key file, and has a place for its
temporary file. -/
theorem read_of_keys {keys : List KeyLine} (h : c.keys? schema tree = some keys) :
    ∃ content, tree.read (c.keysPath schema.name) = .ok content ∧
      (KeyFile.read (c.keysPath schema.name) content).fault = none ∧
      (KeyFile.read (c.keysPath schema.name) content).keys = keys ∧
      ∃ opened, tree.write (c.partialPath schema.name) [] = .ok opened := by
  obtain ⟨-, -, opened, hopen⟩ := of_keys? h
  obtain ⟨content, hread, hfault, hkeys, hwrite⟩ := openFiles_cases hopen
  exact ⟨content, hread, hfault, hkeys, opened, hwrite⟩

theorem Blocked.keys? (h : c.Blocked schema.name tree) : c.keys? schema tree = none := by
  cases hkeys : c.keys? schema tree with
  | none => rfl
  | some keys =>
    obtain ⟨hs, hk, -⟩ := of_keys? hkeys
    obtain ⟨content, hread, hfault, -, opened, hwrite⟩ := read_of_keys hkeys
    cases h with
    | sampled h => cases h.symm.trans hs
    | noKeys h => cases h.symm.trans hk
    | unreadable h => cases h.symm.trans hread
    | badLine hread' hline hbad =>
      cases hread'.symm.trans hread
      rw [KeyFile.read_encode] at hfault
      exact absurd hfault (KeyFile.fault_of_mem hline hbad _ none 1)
    | faulty hread' hfault' =>
      cases hread'.symm.trans hread
      exact absurd hfault hfault'
    | noPlace h => cases h.symm.trans hwrite

theorem storeLog_of_keys {keys : List KeyLine} (h : c.keys? schema tree = some keys) (now : Rat)
    (cancelAt : Option Rat) :
    let s := c.setting schema
    let out := Schedule.runOut s cancelAt (.initial now c.slots keys)
    c.storeLog schema now c.slots cancelAt tree = .entered schema.name keys.length ::
      (Schedule.outLog s cancelAt (.initial now c.slots keys) ++
        Schedule.endingLog s out.2.2 out.1 out.2.1 ++ [.left]) := by
  obtain ⟨hs, hk, opened, hopen⟩ := of_keys? h
  rw [storeLog, hs, hk, hopen]
  rfl

theorem storeLog_of_idle (h : c.keys? schema tree = none) (now : Rat) (cancelAt : Option Rat) :
    c.storeLog schema now c.slots cancelAt tree = [] := by
  unfold storeLog
  cases hs : tree.has (c.samplesPath schema.name) with
  | true => rfl
  | false =>
    cases hk : tree.has (c.keysPath schema.name) with
    | false => rfl
    | true =>
      cases hopen : c.openFiles schema.name tree with
      | error f => rfl
      | ok found =>
        rw [Census.keys?, hs, hk, hopen] at h
        cases h

/-- What is picked out of what is seen of a store, if it comes from fetches that begin. -/
theorem filterMap_storeLog {α : Type} {keys : List KeyLine} (h : c.keys? schema tree = some keys)
    (now : Rat) (cancelAt : Option Rat) {pick : SlotEvent → Option α}
    (hpick : ∀ events : List SlotEvent, events.filterMap SlotEvent.target? = [] →
      events.filterMap pick = []) :
    (c.storeLog schema now c.slots cancelAt tree).filterMap pick =
      (Schedule.outLog (c.setting schema) cancelAt (.initial now c.slots keys)).filterMap pick := by
  have horderly := (Schedule.seen_out (n := 0) (c.setting schema) cancelAt
    (@Schedule.orderly_initial now c.slots keys).1).orderly
  have hentered := hpick [.entered schema.name keys.length] rfl
  rw [storeLog_of_keys h, ← List.singleton_append, List.filterMap_append, List.filterMap_append,
    List.filterMap_append, hentered, hpick [.left] rfl,
    hpick _ (Schedule.targets_endingLog _ _ horderly _)]
  simp

/-- A store is sampled when its run is complete, and all that was begun counts then. -/
theorem of_conclude_sampled {opened : FileTree} {st : Schedule.State} {cancelAt : Option Rat}
    {ending : Schedule.Ending} {outcome : Outcome}
    (h : (c.conclude schema opened st cancelAt ending).verdict = .ok outcome)
    (hsampled : outcome.status = .sampled) :
    ending = .complete ∧ (c.conclude schema opened st cancelAt ending).calls = st.calls := by
  rcases of_conclude_ok h with ⟨hcomplete, ⟨-, hcalls⟩ | ⟨f, -, rfl⟩⟩ | ⟨f, -, -, rfl⟩
  · exact ⟨hcomplete, hcalls⟩
  · cases hsampled
  · cases hsampled

/-- The fetches of a store, as they are seen, are those that were recorded for its keys. -/
theorem exists_recorded {keys : List KeyLine} (h : c.keys? schema tree = some keys) (now : Rat)
    (cancelAt : Option Rat) :
    let out := Schedule.runOut (c.setting schema) cancelAt (.initial now c.slots keys)
    ∃ gone, Schedule.Recorded (c.setting schema) keys gone out.1
        (c.begun schema now cancelAt tree) ∧
      Schedule.Wrote out.1.blocks out.2.1.failure? gone := by
  obtain ⟨gone, told, hrecorded, hseen, hwrote⟩ := @Schedule.recorded_runOut _ cancelAt _ _ _ _
    (Schedule.recorded_initial (c.setting schema) now c.slots keys)
  have hlog : (c.storeLog schema now c.slots cancelAt tree).filterMap SlotEvent.begins? =
      told.map Prod.fst := by
    rw [filterMap_storeLog h now cancelAt fun _ => begins_eq_nil, hseen]
  have hbegun : c.begun schema now cancelAt tree = [] ++ told := by
    rw [begun, hlog, storeFetches_of_keys h, ← hrecorded.fetches]
    exact (@List.zip_of_prod _ _ _ _ told rfl rfl).symm
  rw [hbegun]
  exact ⟨gone, hrecorded, hwrote Schedule.wrote_nil⟩

theorem targets_storeFetches (c : Census) (schema : Schema) (now : Rat) (cancelAt : Option Rat)
    (tree : FileTree) :
    (c.storeFetches schema now cancelAt tree).map Call.target =
      (c.storeLog schema now c.slots cancelAt tree).filterMap SlotEvent.target? := by
  cases hkeys : c.keys? schema tree with
  | none =>
    rw [storeFetches_of_idle hkeys, storeLog_of_idle hkeys]
    rfl
  | some keys =>
    have hseen := Schedule.seen_out (n := 0) (c.setting schema) cancelAt
      (@Schedule.orderly_initial now c.slots keys).1
    rw [storeFetches_of_keys hkeys, hseen.targets,
      filterMap_storeLog hkeys now cancelAt fun _ => id]
    rfl

theorem begun_of_idle (h : c.keys? schema tree = none) (now : Rat) (cancelAt : Option Rat) :
    c.begun schema now cancelAt tree = [] := by
  rw [begun, storeLog_of_idle h]
  rfl

/-- All fetches of a store are seen. -/
theorem map_snd_begun (c : Census) (schema : Schema) (now : Rat) (cancelAt : Option Rat)
    (tree : FileTree) :
    (c.begun schema now cancelAt tree).map Prod.snd = c.storeFetches schema now cancelAt tree := by
  cases hkeys : c.keys? schema tree with
  | none =>
    rw [begun_of_idle hkeys, storeFetches_of_idle hkeys]
    rfl
  | some keys =>
    obtain ⟨gone, hrecorded, -⟩ := exists_recorded hkeys now cancelAt
    rw [hrecorded.fetches, storeFetches_of_keys hkeys]

/-- The fetches of one key in the run of a store. -/
theorem inTurn_of_keys {front behind : List KeyLine} {key : KeyLine}
    (h : c.keys? schema tree = some (front ++ key :: behind)) (now : Rat)
    (cancelAt : Option Rat) :
    InTurn (c.setting schema) key (callsOf behind.length (c.begun schema now cancelAt tree)) ∧
      ((Schedule.runOut (c.setting schema) cancelAt
          (.initial now c.slots (front ++ key :: behind))).2.1 = .complete →
        c.source.replicas schema key.2 =
          .ok ((callsOf behind.length (c.begun schema now cancelAt tree)).map Call.node)) := by
  obtain ⟨gone, hrecorded, hwrote⟩ := exists_recorded h now cancelAt
  have hruns := Schedule.runsOut_runOut (c.setting schema) cancelAt
    (.initial now c.slots (front ++ key :: behind))
  generalize Schedule.runOut (c.setting schema) cancelAt
    (.initial now c.slots (front ++ key :: behind)) = out at hrecorded hwrote hruns ⊢
  obtain ⟨st, ending, pending⟩ := out
  dsimp only at hrecorded hwrote hruns ⊢
  obtain ⟨before, rest, hsplit, -, hrest⟩ := List.map_eq_append_iff.1 hrecorded.map_key
  obtain ⟨t, after, rfl, rfl, hafter⟩ := List.map_eq_cons_iff.1 hrest
  have hasked := hrecorded.asked
  rw [hsplit] at hasked
  have hkey := hasked.of_append
  rw [← List.length_map (f := Schedule.Task.key), hafter] at hkey
  refine ⟨hkey.1, ?_⟩
  rintro rfl
  -- a run that is complete has written the blocks of all its keys
  obtain ⟨-, -, hnil, -⟩ := hruns.complete (slots_pos_initial c.slots_pos now _)
  rw [hnil, List.append_nil] at hsplit
  obtain ⟨block, hphase⟩ := hwrote.done (hsplit ▸ List.mem_append_right before List.mem_cons_self)
  have hall := hkey.2
  rw [hphase] at hall
  exact hall

end Census

end ReplicaCensus
