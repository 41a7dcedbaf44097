import Mathlib
import ReplicaCensus.Proofs.Census.Clock
import ReplicaCensus.Proofs.Census.SlotBook
/-!
# The slots of a store that runs

All that happens to the slots between two states of a store is allowed by the book of the slots.
Between two events the keys with an open fetch are the keys with a slot, those that wait are the
last in file order, and a slot is free only when none waits.
-/

namespace ReplicaCensus

open SlotBook (Follows)

/-! ## 1. One key -/

namespace SlotBook

/-- The book between two events of a store: each key with a slot has a fetch open. -/
def busy (store : String) (waiting : Nat) (held : Finset Nat) (n : Nat) : SlotBook :=
  ⟨some store, waiting, held, held, n⟩

variable {slots waiting k n : Nat} {store : String} {held : Finset Nat}

theorem follows_one {b next : SlotBook} {event : SlotEvent} (h : b.Allows slots event)
    (hnext : b.after event = next) : Follows slots b [event] next :=
  .cons h (hnext ▸ .nil _)

theorem follows_took_began (hk : k ∉ held) (hfree : held.card < slots) (node : Int) (key : Bytes) :
    Follows slots (busy store (k + 1) held n) [.took k, .began k store node key]
      (busy store k (insert k held) n) := by
  refine .cons ⟨rfl, hk, hfree⟩ (follows_one ⟨rfl, ?_, hk⟩ rfl)
  exact Finset.mem_insert_self k held

theorem follows_took_returned (hk : k ∉ held) (hfree : held.card < slots) :
    Follows slots (busy store (k + 1) held n) [.took k, .returned k] (busy store k held n) := by
  refine .cons ⟨rfl, hk, hfree⟩ (follows_one ⟨Finset.mem_insert_self k held, hk⟩ ?_)
  -- the slot that was taken is the one that is returned
  have hsame : (insert k held).erase k = held := Finset.erase_insert hk
  exact congrArg (SlotBook.mk (some store) k · held n) hsame

theorem follows_ended_began (hk : k ∈ held) (node : Int) (key : Bytes) :
    Follows slots (busy store waiting held n) [.ended k, .began k store node key]
      (busy store waiting held n) := by
  refine .cons hk (follows_one ⟨rfl, hk, Finset.notMem_erase k held⟩ ?_)
  have hsame : insert k (held.erase k) = held := Finset.insert_erase hk
  exact congrArg (SlotBook.mk (some store) waiting held · n) hsame

theorem follows_ended_returned (hk : k ∈ held) :
    Follows slots (busy store waiting held n) [.ended k, .returned k]
      (busy store waiting (held.erase k) n) :=
  .cons hk (follows_one ⟨hk, Finset.notMem_erase k held⟩ rfl)

theorem follows_abandoned (hk : k ∈ held) :
    Follows slots (busy store waiting held n) [.abandoned k]
      (busy store waiting (held.erase k) (n + 1)) := follows_one ⟨hk, hk⟩ rfl

theorem follows_gaveUp :
    Follows slots (busy store (k + 1) held n) [.gaveUp k] (busy store k held n) :=
  follows_one rfl rfl

end SlotBook

namespace Schedule

open SlotBook (busy)

variable {s : Setting} {slots n : Nat}

theorem isWaiting_iff {t : Task} : t.isWaiting = true ↔ t.phase = .waiting := by
  unfold Task.isWaiting
  split
  · next h => exact ⟨fun _ => h, fun _ => rfl⟩
  · next h => exact ⟨fun hf => absurd hf Bool.false_ne_true, fun hw => absurd hw h⟩

theorem Task.changes_self (store : String) (k : Nat) (t : Task) : t.changes store k t = [] := by
  unfold Task.changes
  cases h : t.phase with
  | waiting => rfl
  | reading r => exact if_pos rfl
  | done result => rfl

theorem isWaiting_start {now : Rat} {key : KeyLine} {phase : Phase}
    {calls : List Call} (h : start s now key = (phase, calls)) :
    (⟨key, phase⟩ : Task).isWaiting = false := by
  refine Bool.eq_false_iff.2 fun hw => start_ne_waiting s now key ?_
  rw [h]
  exact isWaiting_iff.1 hw

theorem isWaiting_of_not {t : Task} (h : t.phase = .waiting → False) : t.isWaiting = false :=
  Bool.eq_false_iff.2 fun hw => h (isWaiting_iff.1 hw)

/-- A key that gets a slot keeps it while it has a fetch open. -/
theorem seen_start {t : Task} (ht : t.phase = .waiting) (now : Rat) {k : Nat}
    {held : Finset Nat} (hk : k ∉ held) (hfree : held.card < slots) {phase : Phase}
    {calls : List Call} (hstart : start s now t.key = (phase, calls)) :
    Follows slots (busy s.schema.name (k + 1) held n)
        (t.changes s.schema.name k ⟨t.key, phase⟩)
        (busy s.schema.name k (if (⟨t.key, phase⟩ : Task).isReading then insert k held else held)
          n) ∧
      (t.changes s.schema.name k ⟨t.key, phase⟩).filterMap SlotEvent.target? =
        calls.map Call.target := by
  unfold Task.changes
  rw [ht]
  rcases start_cases s now t.key with ⟨result, h⟩ | ⟨r, h⟩
  · cases hstart.symm.trans h
    exact ⟨SlotBook.follows_took_returned hk hfree, rfl⟩
  · cases hstart.symm.trans h
    exact ⟨SlotBook.follows_took_began hk hfree r.node t.key.2, rfl⟩

/-- A key whose fetch ended begins another one, or returns its slot. A fetch that is being closed
keeps it. -/
theorem seen_proceed (slots n : Nat) {t : Task} {r : Reading} (ht : t.phase = .reading r)
    (waiting : Nat) {k : Nat} {held : Finset Nat} (hk : k ∈ held) {phase : Phase}
    {calls : List Call} (hproceed : proceed s t.key r = (phase, calls)) :
    Follows slots (busy s.schema.name waiting held n)
        (t.changes s.schema.name k ⟨t.key, phase⟩)
        (busy s.schema.name waiting
          (if (⟨t.key, phase⟩ : Task).isReading then held else held.erase k) n) ∧
      (t.changes s.schema.name k ⟨t.key, phase⟩).filterMap SlotEvent.target? =
        calls.map Call.target := by
  unfold Task.changes
  rw [ht]
  rcases proceed_cases s t.key r with ⟨result, h⟩ | ⟨r', h, hsame, -⟩ | ⟨r', h, hmore⟩
  · cases hproceed.symm.trans h
    exact ⟨SlotBook.follows_ended_returned hk, rfl⟩
  · cases hproceed.symm.trans h
    dsimp only
    rw [if_pos (congrArg List.length hsame.symm)]
    exact ⟨.nil _, rfl⟩
  · cases hproceed.symm.trans h
    have hnext : r.answers.length ≠ r'.answers.length := by omega
    dsimp only
    rw [if_neg hnext]
    exact ⟨SlotBook.follows_ended_began hk r'.node t.key.2, rfl⟩

/-! ## 2. The keys of a store -/

theorem lt_of_mem_readingAt {tasks : List Task} {k : Nat} (h : k ∈ readingAt tasks) :
    k < tasks.length := by
  induction tasks with
  | nil => exact absurd h (Finset.notMem_empty k)
  | cons t rest ih =>
    unfold readingAt at h
    split at h
    · rcases Finset.mem_insert.1 h with rfl | hrest
      · exact Nat.lt_succ_self _
      · exact Nat.lt_succ_of_lt (ih hrest)
    · exact Nat.lt_succ_of_lt (ih h)

theorem card_readingAt (tasks : List Task) : (readingAt tasks).card = openFetches tasks := by
  induction tasks with
  | nil => rfl
  | cons t rest ih =>
    have hnew : rest.length ∉ readingAt rest := fun h => lt_irrefl _ (lt_of_mem_readingAt h)
    rw [readingAt, openFetches_cons]
    split
    · rw [Finset.card_insert_of_notMem hnew, ih]
    · exact ih

/-- The slots held by tasks in front, and by this one if it has a fetch open. -/
def heldBy (held : Finset Nat) (t : Task) (k : Nat) : Finset Nat :=
  if t.isReading then insert k held else held

theorem union_readingAt_cons (held : Finset Nat) (t : Task) (rest : List Task) :
    held ∪ readingAt (t :: rest) = heldBy held t rest.length ∪ readingAt rest := by
  rw [readingAt]
  unfold heldBy
  split
  · rw [Finset.union_insert, Finset.insert_union]
  · rfl

theorem le_of_mem_heldBy {held : Finset Nat} {t : Task} {n : Nat}
    (h : ∀ k ∈ held, n + 1 ≤ k) : ∀ k ∈ heldBy held t n, n ≤ k := by
  intro k hk
  unfold heldBy at hk
  split at hk
  · rcases Finset.mem_insert.1 hk with rfl | hold
    · exact le_rfl
    · exact Nat.le_of_succ_le (h k hold)
  · exact Nat.le_of_succ_le (h k hk)

theorem card_heldBy {held : Finset Nat} {n : Nat} (h : ∀ k ∈ held, n + 1 ≤ k) (t : Task) :
    (heldBy held t n).card = held.card + if t.isReading then 1 else 0 := by
  unfold heldBy
  split
  · exact Finset.card_insert_of_notMem fun hn => absurd (h n hn) (Nat.not_succ_le_self n)
  · rfl

/-- The keys that wait stand behind all others. -/
def WaitsLast (tasks : List Task) : Prop :=
  tasks.Pairwise fun t u => t.isWaiting = true → u.isWaiting = true

theorem waiting_cons_of_waiting {t : Task} (ht : t.isWaiting = true) (rest : List Task) :
    waiting (t :: rest) = waiting rest + 1 := List.countP_cons_of_pos ht

theorem waiting_cons_of_not {t : Task} (ht : t.isWaiting = false) (rest : List Task) :
    waiting (t :: rest) = waiting rest := List.countP_cons_of_neg (Bool.eq_false_iff.1 ht)

theorem WaitsLast.cons {t : Task} {rest : List Task} (ht : t.isWaiting = false)
    (h : WaitsLast rest) : WaitsLast (t :: rest) :=
  List.pairwise_cons.2 ⟨fun _ _ hw => absurd (ht ▸ hw) Bool.false_ne_true, h⟩

/-- Behind a key that waits all keys wait. -/
theorem WaitsLast.behind {t : Task} {rest : List Task} (h : WaitsLast (t :: rest))
    (ht : t.isWaiting = true) : waiting rest = rest.length ∧ readingAt rest = ∅ := by
  have hall : ∀ u ∈ rest, u.isWaiting = true := fun u hu => (List.pairwise_cons.1 h).1 u hu ht
  refine ⟨List.countP_eq_length.2 hall, ?_⟩
  rw [← Finset.card_eq_zero, card_readingAt]
  refine List.countP_eq_zero.2 fun u hu hreading => ?_
  unfold Task.isReading at hreading
  rw [isWaiting_iff.1 (hall u hu)] at hreading
  exact Bool.false_ne_true hreading

theorem changes_self (store : String) (tasks : List Task) : changes store tasks tasks = [] := by
  induction tasks with
  | nil => rfl
  | cons t rest ih => rw [changes, Task.changes_self, ih]; rfl

theorem length_grant (s : Setting) (now : Rat) (free : Nat) (tasks : List Task) :
    (grant s now free tasks).1.length = tasks.length := by
  have h := congrArg List.length (map_fate_grant s now free tasks)
  rwa [List.length_map, List.length_map] at h

theorem length_fire (s : Setting) (now : Rat) (tasks : List Task) :
    (fire s now tasks).1.length = tasks.length := by
  have h := congrArg List.length (map_fate_fire s now tasks)
  rwa [List.length_map, List.length_map] at h

theorem changes_cons_self (store : String) (t : Task) (rest rest' : List Task) :
    changes store (t :: rest) (t :: rest') = changes store rest rest' := by
  rw [changes, Task.changes_self, List.nil_append]

/-- A key to which nothing happens keeps what it has while the keys behind it go on. -/
theorem follows_cons_self {w w' : Nat} {store : String} {held : Finset Nat} {t : Task}
    {rest rest' : List Task} (hlength : rest'.length = rest.length)
    (h : Follows slots (busy store w (heldBy held t rest.length ∪ readingAt rest) n)
      (changes store rest rest') (busy store w' (heldBy held t rest.length ∪ readingAt rest') n)) :
    Follows slots (busy store w (held ∪ readingAt (t :: rest)) n)
      (changes store (t :: rest) (t :: rest'))
      (busy store w' (held ∪ readingAt (t :: rest')) n) := by
  rw [changes_cons_self, union_readingAt_cons, union_readingAt_cons, hlength]
  exact h

/-- So what is seen is what is seen of the keys behind it. -/
theorem seen_cons_self {w w' : Nat} {store : String} {held : Finset Nat} {t : Task}
    {rest rest' : List Task} {calls : List Call} (hlength : rest'.length = rest.length)
    (hfollows : Follows slots (busy store w (heldBy held t rest.length ∪ readingAt rest) n)
      (changes store rest rest') (busy store w' (heldBy held t rest.length ∪ readingAt rest') n))
    (htargets : (changes store rest rest').filterMap SlotEvent.target? = calls.map Call.target) :
    Follows slots (busy store w (held ∪ readingAt (t :: rest)) n)
        (changes store (t :: rest) (t :: rest'))
        (busy store w' (held ∪ readingAt (t :: rest')) n) ∧
      (changes store (t :: rest) (t :: rest')).filterMap SlotEvent.target? =
        calls.map Call.target := by
  refine ⟨follows_cons_self hlength hfollows, ?_⟩
  rw [changes_cons_self]
  exact htargets

/-- A key that gets a slot has it before the keys behind it get theirs, and until then none of them
has a fetch open. -/
theorem follows_cons_granted {w' : Nat} {store : String} {held : Finset Nat} {t t' : Task}
    {rest rest' : List Task} (ht : t.isWaiting = true) (hw : WaitsLast (t :: rest))
    (hlength : rest'.length = rest.length)
    (hfirst : Follows slots (busy store (rest.length + 1) held n) (t.changes store rest.length t')
      (busy store rest.length (heldBy held t' rest.length) n))
    (h : Follows slots (busy store (waiting rest) (heldBy held t' rest.length ∪ readingAt rest) n)
      (changes store rest rest') (busy store w' (heldBy held t' rest.length ∪ readingAt rest') n)) :
    Follows slots (busy store (waiting (t :: rest)) (held ∪ readingAt (t :: rest)) n)
      (changes store (t :: rest) (t' :: rest'))
      (busy store w' (held ∪ readingAt (t' :: rest')) n) := by
  obtain ⟨hwaiting, hreading⟩ := hw.behind ht
  have hbefore : heldBy held t rest.length = held := by
    rw [heldBy, if_neg]
    rw [Task.isReading, isWaiting_iff.1 ht]
    exact Bool.false_ne_true
  rw [hwaiting, hreading, Finset.union_empty] at h
  rw [changes, hlength, waiting_cons_of_waiting ht, hwaiting, union_readingAt_cons, hbefore,
    hreading, Finset.union_empty, union_readingAt_cons, hlength]
  exact hfirst.append h

/-- With the slots that are free, slots are granted in file order. -/
theorem seen_grant (s : Setting) (now : Rat) (free : Nat) (tasks : List Task) {held : Finset Nat}
    (hheld : ∀ k ∈ held, tasks.length ≤ k)
    (hfree : held.card + openFetches tasks + free ≤ slots) (hw : WaitsLast tasks) :
    Follows slots (busy s.schema.name (waiting tasks) (held ∪ readingAt tasks) n)
        (changes s.schema.name tasks (grant s now free tasks).1)
        (busy s.schema.name (waiting (grant s now free tasks).1)
          (held ∪ readingAt (grant s now free tasks).1) n) ∧
      (changes s.schema.name tasks (grant s now free tasks).1).filterMap SlotEvent.target? =
        (grant s now free tasks).2.2.map Call.target ∧
      WaitsLast (grant s now free tasks).1 := by
  -- by induction on the tasks, those in front being there only through the slots that they hold
  fun_induction grant s now free tasks generalizing held with
  | case1 => exact ⟨.nil _, rfl, .nil⟩
  | case2 tasks =>
    rw [changes_self]
    exact ⟨.nil _, rfl, hw⟩
  | case3 free t rest hphase phase calls hstart t' rest' left more hgrant =>
    rename_i ih
    have hk : rest.length ∉ held := fun h => Nat.not_succ_le_self _ (hheld _ h)
    have ht : t.isWaiting = true := isWaiting_iff.2 hphase
    have ht' : t'.isWaiting = false := isWaiting_start hstart
    have hrest : openFetches rest = 0 := by
      rw [← card_readingAt, (hw.behind ht).2]
      rfl
    have hslot : held.card < slots := by omega
    obtain ⟨hfirst, hcalls⟩ := seen_start hphase now hk hslot hstart
    -- the slot is gone for the keys behind only if the key has a fetch open
    have hcard : (heldBy held t' rest.length).card + openFetches rest +
        (if t'.isReading then free else free + 1) ≤ slots := by
      rw [card_heldBy hheld]
      split <;> omega
    have hlength := length_grant s now (if t'.isReading then free else free + 1) rest
    obtain ⟨hfollows, htargets, hlast⟩ :=
      ih (le_of_mem_heldBy hheld) hcard (List.pairwise_cons.1 hw).2
    rw [hgrant] at hlength hfollows htargets hlast
    dsimp only at hlength hfollows htargets hlast ⊢
    rw [waiting_cons_of_not ht']
    refine ⟨follows_cons_granted ht hw hlength hfirst hfollows, ?_, hlast.cons ht'⟩
    rw [changes, hlength, List.filterMap_append, List.map_append, hcalls, htargets]
  | case4 free t rest rest' left calls hgrant hwait =>
    rename_i ih
    have ht : t.isWaiting = false := isWaiting_of_not hwait
    have hlength := length_grant s now (free + 1) rest
    have hcard : (heldBy held t rest.length).card + openFetches rest + (free + 1) ≤ slots := by
      rw [openFetches_cons] at hfree
      rw [card_heldBy hheld]
      omega
    obtain ⟨hfollows, htargets, hlast⟩ :=
      ih (le_of_mem_heldBy hheld) hcard (List.pairwise_cons.1 hw).2
    rw [hgrant] at hlength hfollows htargets hlast
    dsimp only at hlength hfollows htargets hlast ⊢
    rw [waiting_cons_of_not ht, waiting_cons_of_not ht]
    obtain ⟨hmore, hcalls⟩ := seen_cons_self hlength hfollows htargets
    exact ⟨hmore, hcalls, hlast.cons ht⟩

/-- A slot is left only if no key is left that waits. -/
theorem full_grant (s : Setting) (now : Rat) (free : Nat) (tasks : List Task) :
    (grant s now free tasks).2.1 = 0 ∨ waiting (grant s now free tasks).1 = 0 := by
  fun_induction grant s now free tasks with
  | case1 => exact .inr rfl
  | case2 => exact .inl rfl
  | case3 free t rest hphase phase calls hstart t' rest' left more hgrant ih =>
    rw [hgrant] at ih
    rwa [waiting_cons_of_not (isWaiting_start hstart)]
  | case4 free t rest rest' left calls hgrant hwait ih =>
    rw [hgrant] at ih
    rwa [waiting_cons_of_not (isWaiting_of_not hwait)]

/-- A key returns its slot, and none of those in front or behind. -/
theorem erase_front {held : Finset Nat} {rest : List Task}
    (hheld : ∀ k ∈ held, rest.length + 1 ≤ k) :
    (insert rest.length held ∪ readingAt rest).erase rest.length = held ∪ readingAt rest := by
  rw [Finset.insert_union, Finset.erase_insert]
  intro h
  rcases Finset.mem_union.1 h with hfront | hbehind
  · exact Nat.not_succ_le_self _ (hheld _ hfront)
  · exact lt_irrefl _ (lt_of_mem_readingAt hbehind)

theorem heldBy_of_reading {t : Task} (ht : t.isReading = true) (held : Finset Nat) (k : Nat) :
    heldBy held t k = insert k held := if_pos ht

/-- An event of a store: the slots in front and behind stay as they are. -/
theorem seen_fire (slots n : Nat) (s : Setting) (now : Rat) (tasks : List Task) (w : Nat)
    {held : Finset Nat}
    (hheld : ∀ k ∈ held, tasks.length ≤ k) :
    Follows slots (busy s.schema.name w (held ∪ readingAt tasks) n)
        (changes s.schema.name tasks (fire s now tasks).1)
        (busy s.schema.name w (held ∪ readingAt (fire s now tasks).1) n) ∧
      (changes s.schema.name tasks (fire s now tasks).1).filterMap SlotEvent.target? =
        (fire s now tasks).2.2.map Call.target := by
  fun_induction fire s now tasks generalizing held with
  | case1 => exact ⟨.nil _, rfl⟩
  | case2 t rest r hphase hnext phase calls hproceed =>
    have ht : t.isReading = true := by rw [Task.isReading, hphase]
    -- in the union the key stands between those in front and those behind
    have hheldBy : (if (⟨t.key, phase⟩ : Task).isReading then
          insert rest.length held ∪ readingAt rest
        else (insert rest.length held ∪ readingAt rest).erase rest.length) =
        heldBy held ⟨t.key, phase⟩ rest.length ∪ readingAt rest := by
      unfold heldBy
      split
      · rfl
      · exact erase_front hheld
    have hmem : rest.length ∈ insert rest.length held ∪ readingAt rest :=
      Finset.mem_union_left _ (Finset.mem_insert_self _ _)
    have hfirst := seen_proceed slots n hphase w hmem hproceed
    rw [hheldBy] at hfirst
    dsimp only
    rw [changes, changes_self, List.append_nil, union_readingAt_cons, union_readingAt_cons,
      heldBy_of_reading ht]
    exact hfirst
  | case3 t rest r hphase hnext rest' returned calls hfire =>
    rename_i ih
    have hlength := length_fire s now rest
    obtain ⟨hfollows, htargets⟩ := ih (@le_of_mem_heldBy held t rest.length hheld)
    rw [hfire] at hlength hfollows htargets
    exact seen_cons_self hlength hfollows htargets
  | case4 t rest rest' returned calls hfire hreading =>
    rename_i ih
    have hlength := length_fire s now rest
    obtain ⟨hfollows, htargets⟩ := ih (@le_of_mem_heldBy held t rest.length hheld)
    rw [hfire] at hlength hfollows htargets
    exact seen_cons_self hlength hfollows htargets

theorem map_isWaiting_fire (s : Setting) (now : Rat) (tasks : List Task) :
    (fire s now tasks).1.map Task.isWaiting = tasks.map Task.isWaiting := by
  fun_induction fire s now tasks with
  | case1 => rfl
  | case2 t rest r hphase hnext phase calls hproceed =>
    have ht : t.isWaiting = false := by rw [Task.isWaiting, hphase]
    have ht' : (⟨t.key, phase⟩ : Task).isWaiting = false := by
      rcases proceed_cases s t.key r with ⟨result, h⟩ | ⟨r', h, -⟩ | ⟨r', h, -⟩
      · cases hproceed.symm.trans h
        rfl
      · cases hproceed.symm.trans h
        rfl
      · cases hproceed.symm.trans h
        rfl
    rw [List.map_cons, List.map_cons, ht, ht']
  | case3 t rest r hphase hnext rest' returned calls hfire ih =>
    rw [hfire] at ih
    exact congrArg (List.cons _) ih
  | case4 t rest rest' returned calls hfire _ ih =>
    rw [hfire] at ih
    exact congrArg (List.cons _) ih

theorem waiting_fire (s : Setting) (now : Rat) (tasks : List Task) :
    waiting (fire s now tasks).1 = waiting tasks := by
  have h := congrArg (List.countP id) (map_isWaiting_fire s now tasks)
  rwa [List.countP_map, List.countP_map] at h

theorem WaitsLast.of_map_eq {tasks tasks' : List Task} (h : WaitsLast tasks)
    (heq : tasks'.map Task.isWaiting = tasks.map Task.isWaiting) : WaitsLast tasks' := by
  have hmap : ∀ tasks : List Task, WaitsLast tasks ↔
      (tasks.map Task.isWaiting).Pairwise fun b b' => b = true → b' = true :=
    fun tasks => (List.pairwise_map (R := fun b b' => b = true → b' = true)).symm
  rw [hmap, heq, ← hmap]
  exact h

/-- Writing blocks takes away tasks that neither wait nor have a fetch open. -/
theorem drain_spec (tasks : List Task) :
    waiting (drain tasks).2.1 = waiting tasks ∧
      readingAt (drain tasks).2.1 = readingAt tasks := by
  have hdone : ∀ {t : Task} {result} (rest : List Task), t.phase = .done result →
      waiting (t :: rest) = waiting rest ∧ readingAt (t :: rest) = readingAt rest := by
    intro t result rest hphase
    have hw : t.isWaiting = false := by rw [Task.isWaiting, hphase]
    have hr : t.isReading = false := by rw [Task.isReading, hphase]
    rw [waiting_cons_of_not hw, readingAt, hr]
    exact ⟨rfl, rfl⟩
  fun_induction drain tasks with
  | case1 => exact ⟨rfl, rfl⟩
  | case2 t rest block hphase blocks left failure hdrain ih =>
    rw [hdrain] at ih
    obtain ⟨hwt, hrt⟩ := hdone rest hphase
    rw [hwt, hrt]
    exact ih
  | case3 t rest f hphase =>
    obtain ⟨hwt, hrt⟩ := hdone rest hphase
    rw [hwt, hrt]
    exact ⟨rfl, rfl⟩
  | case4 => exact ⟨rfl, rfl⟩

/-! ## 3. The states of a store -/

/-- What the book says of a store in this state, where so many fetches were abandoned before. -/
def State.book (s : Setting) (n : Nat) (st : State) : SlotBook :=
  busy s.schema.name (waiting st.tasks) (readingAt st.tasks) (n + st.strays.length)

/-- The keys that wait stand behind the others; all slots are accounted for, and no more fetches were
ever open than there are slots. -/
structure Orderly (slots : Nat) (st : State) : Prop where
  waitsLast : WaitsLast st.tasks
  slots_eq : st.slots = slots
  peak_le : st.peak ≤ slots

/-- No slot is free, or no key waits. -/
def Full (st : State) : Prop := st.free = 0 ∨ waiting st.tasks = 0

/-- What happened from one state of a store to another was allowed, and it includes all fetches that
were begun. -/
structure Seen (s : Setting) (slots n : Nat) (st : State) (events : List SlotEvent) (st' : State) :
    Prop where
  follows : Follows slots (st.book s n) events (st'.book s n)
  targets : st'.calls.map Call.target =
    st.calls.map Call.target ++ events.filterMap SlotEvent.target?
  orderly : Orderly slots st'

theorem Seen.trans {st next last : State} {events more : List SlotEvent}
    (h : Seen s slots n st events next) (h' : Seen s slots n next more last) :
    Seen s slots n st (events ++ more) last := by
  refine ⟨h.follows.append h'.follows, ?_, h'.orderly⟩
  rw [h'.targets, h.targets, List.filterMap_append, List.append_assoc]

theorem Seen.nil {st : State} (ho : Orderly slots st) : Seen s slots n st [] st :=
  ⟨.nil _, (List.append_nil _).symm, ho⟩

/-- What is noted of a state is what the book says. -/
theorem Seen.note {st st' : State} {events : List SlotEvent} (h : Seen s slots n st events st') :
    Seen s slots n st (events ++ [st'.note]) st' := by
  refine h.trans ⟨SlotBook.follows_one ⟨rfl, rfl⟩ rfl, (List.append_nil _).symm, h.orderly⟩

/-- A state in which some tasks are gone from the front that neither wait nor have a fetch open. -/
structure Sheds (st mid : State) : Prop where
  suffix : mid.tasks <:+ st.tasks
  waiting_eq : waiting mid.tasks = waiting st.tasks
  reading_eq : readingAt mid.tasks = readingAt st.tasks
  free_eq : mid.free = st.free
  calls_eq : mid.calls = st.calls
  peak_eq : mid.peak = st.peak
  strays_eq : mid.strays = st.strays

theorem Sheds.refl (st : State) : Sheds st st := ⟨List.suffix_rfl, rfl, rfl, rfl, rfl, rfl, rfl⟩

theorem sheds_write (st : State) : Sheds st st.write.1 :=
  ⟨drain_suffix st.tasks, (drain_spec st.tasks).1, (drain_spec st.tasks).2, rfl, rfl, rfl, rfl⟩

theorem Sheds.orderly {st mid : State} (h : Sheds st mid) (ho : Orderly slots st) :
    Orderly slots mid := by
  refine ⟨ho.waitsLast.sublist h.suffix.sublist, ?_, h.peak_eq ▸ ho.peak_le⟩
  rw [State.slots, ← card_readingAt, h.reading_eq, card_readingAt, h.free_eq]
  exact ho.slots_eq

/-- What is seen between two states is allowed if time passes only while no slot is free, and if
what happens to the tasks that are left is allowed. -/
theorem seen_between {st mid st' : State} (hs : Sheds st mid)
    (hlength : st'.tasks.length = mid.tasks.length) (ho : Orderly slots st)
    (hfull : st.now < st'.now → Full st)
    (hfollows : Follows slots (mid.book s n) (changes s.schema.name mid.tasks st'.tasks)
      (st'.book s n))
    (htargets : st'.calls.map Call.target = mid.calls.map Call.target ++
      (changes s.schema.name mid.tasks st'.tasks).filterMap SlotEvent.target?)
    (ho' : Orderly slots st') : Seen s slots n st (st.between s.schema.name st') st' := by
  have hdrop : st.tasks.drop (st.tasks.length - st'.tasks.length) = mid.tasks := by
    rw [hlength]
    exact (List.suffix_iff_eq_drop.1 hs.suffix).symm
  have hbook : mid.book s n = st.book s n := by
    rw [State.book, State.book, hs.waiting_eq, hs.reading_eq, hs.strays_eq]
  have hpassed : Follows slots (st.book s n) (if st.now < st'.now then [.passed] else [])
      (mid.book s n) := by
    rw [hbook]
    split
    · next hlt =>
      refine SlotBook.follows_one ((hfull hlt).imp_left fun hfree => ?_) rfl
      -- every slot that is not free is held by a key with an open fetch
      have hslots := ho.slots_eq
      rw [State.slots, hfree, Nat.zero_add] at hslots
      exact (card_readingAt st.tasks).trans hslots
    · exact .nil _
  have hseen : Seen s slots n st
      ((if st.now < st'.now then [.passed] else []) ++ changes s.schema.name mid.tasks st'.tasks)
      st' := by
    refine ⟨hpassed.append hfollows, ?_, ho'⟩
    have hnone : (if st.now < st'.now then [SlotEvent.passed] else []).filterMap
        SlotEvent.target? = [] := by
      split <;> rfl
    rw [htargets, hs.calls_eq, List.filterMap_append, hnone, List.nil_append]
  rw [State.between, hdrop]
  exact hseen.note

theorem seen_fill {st : State} (ho : Orderly slots st) :
    Seen s slots n st (st.between s.schema.name (st.fill s)) (st.fill s) ∧ Full (st.fill s) := by
  have hslots := ho.slots_eq
  have hfree : (∅ : Finset Nat).card + openFetches st.tasks + st.free ≤ slots := by
    rw [Finset.card_empty]
    rw [State.slots] at hslots
    omega
  obtain ⟨hfollows, htargets, hlast⟩ :=
    seen_grant (n := n + st.strays.length) s st.now st.free st.tasks
      (fun k hk => absurd hk (Finset.notMem_empty k)) hfree ho.waitsLast
  rw [Finset.empty_union, Finset.empty_union] at hfollows
  have hfilled := slots_fill s st
  rw [hslots] at hfilled
  have hpeak : openFetches (st.fill s).tasks ≤ slots := by
    rw [← hfilled, State.slots]
    exact Nat.le_add_left _ _
  refine ⟨seen_between (.refl st) (length_grant s st.now _ st.tasks) ho
    (fun hlt => absurd hlt (lt_irrefl _)) hfollows ?_ ⟨hlast, hfilled, max_le ho.peak_le hpeak⟩,
    full_grant s st.now st.free st.tasks⟩
  show (st.calls ++ (grant s st.now st.free st.tasks).2.2).map Call.target = _
  rw [List.map_append, ← htargets]
  rfl

theorem seen_still {st mid : State} (hs : Sheds st mid) (ho : Orderly slots st) (now : Rat)
    (hfull : st.now < now → Full st) :
    Seen s slots n st (st.between s.schema.name { mid with now := now })
      { mid with now := now } := by
  have hmid := hs.orderly ho
  refine seen_between hs rfl ho hfull ?_ ?_ ⟨hmid.waitsLast, hmid.slots_eq, hmid.peak_le⟩
  · rw [changes_self]
    exact .nil _
  · rw [changes_self]
    exact (List.append_nil _).symm

theorem seen_fireAt {st mid : State} (hs : Sheds st mid) (ho : Orderly slots st) (time : Rat)
    (hfull : st.now < time → Full st) :
    Seen s slots n st (st.between s.schema.name (mid.fireAt s time)) (mid.fireAt s time) := by
  have hmid := hs.orderly ho
  obtain ⟨hfollows, htargets⟩ := seen_fire slots (n + mid.strays.length) s time mid.tasks
    (waiting mid.tasks) (fun k hk => absurd hk (Finset.notMem_empty k))
  rw [Finset.empty_union, Finset.empty_union] at hfollows
  refine seen_between hs (length_fire s time mid.tasks) ho hfull ?_ ?_ ⟨?_, ?_, hmid.peak_le⟩
  · have hbook : (mid.fireAt s time).book s n = busy s.schema.name (waiting mid.tasks)
        (readingAt (fire s time mid.tasks).1) (n + mid.strays.length) :=
      congrArg (busy s.schema.name · _ _) (waiting_fire s time mid.tasks)
    rw [hbook]
    exact hfollows
  · show (mid.calls ++ (fire s time mid.tasks).2.2).map Call.target = _
    rw [List.map_append, ← htargets]
    rfl
  · exact hmid.waitsLast.of_map_eq (map_isWaiting_fire s time mid.tasks)
  · rw [slots_fireAt, hmid.slots_eq]

/-- All that a step does is allowed. -/
theorem seen_step (s : Setting) (cancelAt : Option Rat) {st : State} (ho : Orderly slots st) :
    Seen s slots n st (stepLog s cancelAt st) (step s cancelAt st).1 := by
  -- whatever comes next comes with the slots filled, so time may pass
  obtain ⟨hfill, hfull⟩ := seen_fill (s := s) (n := n) ho
  have hwrite : ∀ {st' failure}, (st.fill s).write = (st', failure) → Sheds (st.fill s) st' := by
    intro st' failure hw
    have hs := sheds_write (st.fill s)
    rwa [hw] at hs
  have hsteps := steps_step s cancelAt st
  unfold stepLog
  generalize step s cancelAt st = result at hsteps
  obtain ⟨st', ending⟩ := result
  cases hsteps with
  | interrupted hi =>
    rw [if_pos hi]
    exact .nil ho
  | complete hi _ hw =>
    rw [if_neg (Bool.eq_false_iff.1 hi)]
    exact hfill.trans (seen_still (hwrite hw) hfill.orderly st'.now fun _ => hfull)
  | failed hi _ hw =>
    rw [if_neg (Bool.eq_false_iff.1 hi)]
    exact hfill.trans (seen_still (hwrite hw) hfill.orderly st'.now fun _ => hfull)
  | happens hi =>
    rw [if_neg (Bool.eq_false_iff.1 hi)]
    exact hfill.trans (seen_fireAt (.refl _) hfill.orderly _ fun _ => hfull)
  | cancelled hi _ _ hw _ =>
    rw [if_neg (Bool.eq_false_iff.1 hi)]
    exact hfill.trans (seen_still (hwrite hw) hfill.orderly _ fun _ => hfull)
  | passes hi _ _ hw _ =>
    rw [if_neg (Bool.eq_false_iff.1 hi)]
    exact hfill.trans (seen_fireAt (hwrite hw) hfill.orderly _ fun _ => hfull)

/-- All that happens in the run of a store, up to its ending, is allowed. -/
theorem seen_run (s : Setting) (cancelAt : Option Rat) {st : State} (ho : Orderly slots st) :
    Seen s slots n st (runLog s cancelAt st) (run s cancelAt st).1 := by
  fun_induction run s cancelAt st with
  | case1 st st' ending hstep =>
    have hseen := seen_step (n := n) s cancelAt ho
    rw [runLog, hstep, List.append_nil]
    rwa [hstep] at hseen
  | case2 st st' hstep ih =>
    have hseen := seen_step (n := n) s cancelAt ho
    rw [hstep] at hseen
    rw [runLog, hstep]
    exact hseen.trans (ih hseen.orderly)

end Schedule

end ReplicaCensus
