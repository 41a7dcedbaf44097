import Mathlib
import ReplicaCensus.Proofs.Census.Blocks
import ReplicaCensus.Proofs.Census.Endings
import ReplicaCensus.Proofs.Census.Stores
/-!
# All or nothing -- what a run leaves of each of its stores

However a store ends, its output is there as a whole or not at all. In a run over several stores the
files of each store are what its own ending made of them, and nothing else in the tree is touched.
-/

namespace ReplicaCensus.Census

variable {c : Census} {schema : Schema} {t u : FileTree}

/-! ## 1. One store -/

/-- The samples of a store are the blocks of all its keys, and nothing unfinished is left. -/
structure Whole (c : Census) (schema : Schema) (before after : FileTree) (count : Nat) : Prop where
  samples : ∃ content blocks, before.read (c.keysPath schema.name) = .ok content ∧
    (KeyFile.read (c.keysPath schema.name) content).fault = none ∧
    (KeyFile.read (c.keysPath schema.name) content).keys.length = count ∧
    List.Forall₂ (Schedule.Answered (c.setting schema))
      (KeyFile.read (c.keysPath schema.name) content).keys blocks ∧
    after.read (c.samplesPath schema.name) = .ok (contentOf blocks)
  noPartial : after.has (c.partialPath schema.name) = false

/-- A store has no samples, and if it has keys, nothing unfinished. -/
structure Cleared (c : Census) (store : String) (before after : FileTree) : Prop where
  noSamples : after.has (c.samplesPath store) = false
  noPartial : before.has (c.keysPath store) = true → after.has (c.partialPath store) = false

/-- A signal has hit the cleaning up of a store: it has no samples, but its temporary file is there,
with the blocks of its first keys. -/
structure Torn (c : Census) (schema : Schema) (before after : FileTree) : Prop where
  noSamples : after.has (c.samplesPath schema.name) = false
  remains : ∃ content keys blocks, before.read (c.keysPath schema.name) = .ok content ∧
    (KeyFile.read (c.keysPath schema.name) content).fault = none ∧
    keys <+: (KeyFile.read (c.keysPath schema.name) content).keys ∧
    List.Forall₂ (Schedule.Answered (c.setting schema)) keys blocks ∧
    after.read (c.partialPath schema.name) = .ok (contentOf blocks)

/-- A store has the samples it had before. -/
structure Untouched (c : Census) (store : String) (before after : FileTree) : Prop where
  hasSamples : before.has (c.samplesPath store) = true
  sameFiles : c.files after store = c.files before store

/-- What is left of a store, given its verdict. -/
def Settled (c : Census) (schema : Schema) (before after : FileTree) :
    Except Signal Outcome → Prop
  | .error signal =>
    if signal.isClean then c.Cleared schema.name before after else c.Torn schema before after
  | .ok outcome =>
    match outcome.status with
    | .sampled => c.Whole schema before after outcome.keys
    | .skipped => c.Untouched schema.name before after
    | .failed => c.Cleared schema.name before after

theorem whole_of_begun {keys : List KeyLine} {opened : FileTree} {dir : List String} {name : String}
    {blocks : List String} (h : c.Begun schema.name t keys opened dir name)
    (hblocks : keys.map (Schedule.ask (c.setting schema)) = blocks.map .ok) :
    c.Whole schema t (leftBy t dir name (blocks, none)) blocks.length := by
  obtain ⟨content, hread, hfault, rfl, -⟩ := openFiles_cases h.opens
  have hlength := congrArg List.length hblocks
  rw [List.length_map, List.length_map] at hlength
  -- a key with its block has heard all its nodes
  exact ⟨⟨content, blocks, hread, hfault, hlength, Schedule.forall₂_answered hblocks,
    h.files.read_samples blocks⟩, h.files.noPartial _⟩

theorem cleared_of_begun {keys : List KeyLine} {opened : FileTree} {dir : List String} {name : String}
    (h : c.Begun schema.name t keys opened dir name) :
    c.Cleared schema.name t (t.erase (dir ++ [name ++ ".tmp"])) := by
  have hgone : t.erase (dir ++ [name ++ ".tmp"]) = leftBy t dir name ([], some .cancelled) := rfl
  rw [hgone]
  exact ⟨h.files.noSamples_of_failure _ _, fun _ => h.files.noPartial _⟩

theorem torn_of_begun {keys : List KeyLine} {opened : FileTree} {dir : List String} {name : String}
    {blocks : List String} (h : c.Begun schema.name t keys opened dir name)
    (hblocks : blocks.map .ok <+: keys.map (Schedule.ask (c.setting schema))) :
    c.Torn schema t (opened.insert (dir ++ [name ++ ".tmp"]) (.file (contentOf blocks))) := by
  have hends : c.Ends schema t (.error (.cancelled false)) _ := .broken h rfl hblocks
  obtain ⟨content, hread, hfault, rfl, -⟩ := openFiles_cases h.opens
  refine ⟨hends.has_samples_eq, content, _, blocks, hread, hfault, List.take_prefix blocks.length _,
    Schedule.forall₂_answered ?_, ?_⟩
  · rw [List.map_take, ← List.length_map (f := Except.ok), ← List.prefix_iff_eq_take.1 hblocks]
  · rw [FileTree.read_eq_ok_iff,
      (h.files.output.unfinished.congr hends.differsAt.sameDirs).lookup_eq, OrderedMap.get?_insert,
      if_pos rfl]

/-- Every ending settles its store. -/
theorem settled_of_ends {verdict : Except Signal Outcome} (h : c.Ends schema t verdict u)
    (hdir : t.hasDir (c.partialPath schema.name) = false) : c.Settled schema t u verdict := by
  cases h with
  | skipped hs => exact ⟨hs, rfl⟩
  | noKeys hs hk =>
    refine ⟨hs, fun hkeys => ?_⟩
    rw [hk] at hkeys
    cases hkeys
  | unopened hs hk _ =>
    have hfiles := files_discard hs
    rw [hdir] at hfiles
    exact ⟨by rw [files_samples, hfiles]; rfl, fun _ => by rw [files_unfinished, hfiles]; rfl⟩
  | sampled h hblocks => exact whole_of_begun h hblocks
  | failed h => exact cleared_of_begun h
  | stopped h hsignal =>
    rw [Settled, if_pos hsignal]
    exact cleared_of_begun h
  | broken h hsignal hblocks =>
    rw [Settled, if_neg (ne_true_of_eq_false hsignal)]
    exact torn_of_begun h hblocks

/-- A store is settled by what its own files were and are. -/
theorem Settled.congr {before after before' after' : FileTree} {verdict : Except Signal Outcome}
    (h : c.Settled schema before after verdict)
    (hkeys : before'.lookup (c.keysPath schema.name) = before.lookup (c.keysPath schema.name))
    (hbefore : c.files before' schema.name = c.files before schema.name)
    (hafter : c.files after' schema.name = c.files after schema.name) :
    c.Settled schema before' after' verdict := by
  have hcleared : c.Cleared schema.name before after → c.Cleared schema.name before' after' := by
    rintro ⟨hs, hp⟩
    rw [files_samples] at hs
    rw [files_unfinished, FileTree.has_eq_isSome] at hp
    exact ⟨by rw [files_samples, hafter, hs],
      by rw [files_unfinished, FileTree.has_eq_isSome, hafter, hkeys]; exact hp⟩
  cases verdict with
  | error signal =>
    unfold Settled at h ⊢
    dsimp only at h ⊢
    split at h
    · next hclean =>
      rw [if_pos hclean]
      exact hcleared h
    · next hclean =>
      rw [if_neg hclean]
      obtain ⟨hs, content, keys, blocks, hread, hfault, hkeys', hall, hremains⟩ := h
      rw [files_samples] at hs
      rw [FileTree.read_eq_ok_iff] at hread hremains
      refine ⟨by rw [files_samples, hafter, hs], content, keys, blocks, ?_, hfault, hkeys', hall, ?_⟩
      · rw [FileTree.read_eq_ok_iff, hkeys, hread]
      · rw [FileTree.read_eq_ok_iff, ← hremains]
        exact congrArg Files.unfinished hafter
  | ok outcome =>
    unfold Settled at h ⊢
    dsimp only at h ⊢
    cases hstatus : outcome.status with
    | failed =>
      rw [hstatus] at h
      exact hcleared h
    | skipped =>
      rw [hstatus] at h
      obtain ⟨hs, hsame⟩ := h
      rw [files_samples] at hs
      exact ⟨by rw [files_samples, hbefore, hs], by rw [hafter, hbefore, hsame]⟩
    | sampled =>
      rw [hstatus] at h
      obtain ⟨⟨content, blocks, hread, hfault, hcount, hall, hsamples⟩, hp⟩ := h
      rw [files_unfinished] at hp
      rw [FileTree.read_eq_ok_iff] at hread hsamples
      refine ⟨⟨content, blocks, ?_, hfault, hcount, hall, ?_⟩, ?_⟩
      · rw [FileTree.read_eq_ok_iff, hkeys, hread]
      · rw [FileTree.read_eq_ok_iff, ← hsamples]
        exact congrArg Files.samples hafter
      · rw [files_unfinished, hafter, hp]

/-! ## 2. Several stores -/

/-- Along a trail of stores beside each other every store is settled, with nothing changed but the
output files of stores that had keys and no samples. -/
theorem Trail.settled {tried : List (Schema × Except Signal Outcome)} (h : c.Trail t tried u)
    (hapart : tried.Pairwise fun a b => c.Apart t a.1.name b.1.name)
    (hdir : ∀ e ∈ tried, t.hasDir (c.partialPath e.1.name) = false) :
    (∀ e ∈ tried, c.Settled e.1 t u e.2) ∧
      ∀ path, u.get? path ≠ t.get? path → ∃ e ∈ tried, path ∈ c.outputs t e.1.name ∧
        t.has (c.keysPath e.1.name) = true ∧ t.has (c.samplesPath e.1.name) = false := by
  -- by induction on the trail: the first store is settled by its ending and stays so, and the
  -- others find their files as they were before it
  induction h with
  | nil => exact ⟨fun e he => absurd he List.not_mem_nil, fun path hpath => absurd rfl hpath⟩
  | @cons tree next last schema verdict rest hfirst hrest ih =>
    obtain ⟨hfirstApart, hrestApart⟩ := List.pairwise_cons.1 hapart
    obtain ⟨hfirstDir, hrestDir⟩ := List.forall_mem_cons.1 hdir
    have hdiffers := hfirst.differsAt
    have hsame := hdiffers.sameDirs
    have hfiles : ∀ e ∈ rest, c.files next e.1.name = c.files tree e.1.name :=
      fun e he => files_of_differsAt (hfirstApart e he).symm hdiffers
    have hkeys : ∀ store, next.lookup (c.keysPath store) = tree.lookup (c.keysPath store) :=
      fun store => lookup_keysPath_of_differsAt hdiffers
    obtain ⟨hsettled, hchanged⟩ := ih
      (hrestApart.imp fun hab => hab.congr hsame)
      (fun e he => by
        obtain ⟨name, -, hpartial⟩ := exists_endsIn c e.1.name
        rw [hpartial.hasDir_congr hsame, hrestDir e he])
    constructor
    · rw [List.forall_mem_cons]
      constructor
      · have hkept : c.files last schema.name = c.files next schema.name :=
          hrest.files_eq fun e he => (hfirstApart e he).congr hsame
        exact (settled_of_ends hfirst hfirstDir).congr rfl rfl hkept
      · exact fun e he => (hsettled e he).congr (hkeys _).symm (hfiles e he).symm rfl
    · intro path hpath
      by_cases hlater : last.get? path = next.get? path
      · -- the change is the first store's
        rw [hlater] at hpath
        rcases hfirst.eq_or_begins with rfl | hbegins
        · exact absurd rfl hpath
        · refine ⟨_, List.mem_cons_self, ?_, hbegins⟩
          by_contra hout
          exact hpath (hdiffers.same path hout)
      · obtain ⟨e, he, hout, hhas, hno⟩ := hchanged path hlater
        rw [outputs_congr hsame] at hout
        rw [FileTree.has_eq_isSome, hkeys] at hhas
        rw [files_samples, hfiles e he] at hno
        exact ⟨e, List.mem_cons_of_mem _ he, hout, by rw [FileTree.has_eq_isSome, hhas],
          by rw [files_samples, hno]⟩

/-! ## 3. The whole run -/

/-- The report of a run has the outcomes of its stores in their order. -/
theorem Account.Of.entries_report {a : Account} {schemas : List Schema} {before after : Run}
    (h : a.Of c schemas before after) (hnodup : (schemas.map Schema.name).Nodup)
    (hempty : before.report = .empty) :
    after.report.outcomes.entries = a.reported.map fun e => (e.1.name, e.2) := by
  have hnew : (a.reported.map fun e => e.1.name).Nodup := by
    refine hnodup.sublist ?_
    rw [h.stores, Account.tried, List.map_append, List.map_append, List.map_append, List.map_map,
      List.map_map, List.append_assoc]
    exact List.sublist_append_left _ _
  have hpairs : (a.reported.map Prod.snd).map (fun o => (o.store, o)) =
      a.reported.map fun e => (e.1.name, e.2) := by
    rw [List.map_map]
    refine List.map_congr_left fun e he => ?_
    rw [Function.comp_apply,
      h.trail.store_eq (List.mem_append_left _ (List.mem_map_of_mem he))]
  rw [h.report, outcomes_foldl_add, hpairs, hempty, OrderedMap.entries_foldl_insert]
  · rfl
  · rw [List.map_map]
    exact hnew

/-- The stores that were tried are beside each other if their names are all different. -/
theorem Account.Of.apart {a : Account} {schemas : List Schema} {before after : Run}
    (h : a.Of c schemas before after)
    (hvalid : ∀ s ∈ schemas, Schema.isValidName s.name = true)
    (hnodup : (schemas.map Schema.name).Nodup) (t : FileTree) :
    a.tried.Pairwise fun x y => c.Apart t x.1.name y.1.name := by
  have hnames : (a.tried.map fun e => e.1.name).Nodup := by
    refine hnodup.sublist ?_
    rw [h.stores, List.map_append, List.map_map]
    exact List.sublist_append_left _ _
  rw [List.Nodup, List.pairwise_map] at hnames
  exact hnames.imp_of_mem fun hx hy hne =>
    apart_of_ne (hvalid _ (h.mem_schemas hx)) (hvalid _ (h.mem_schemas hy)) hne

/-- Two stores, the first with a temporary file from before and a key that fails. -/
def staleTree : FileTree :=
  (unevenTree.insert ["out", "s.kvs.tmp"] (.file [0x61])).insert ["in", "t.keys"]
    (.file (Utf8.encode "61\n".toList))

def staleSchemas : List Schema := [unevenSchema, ⟨"t", 1, Schema.consistentRouting⟩]

/-- The node of a key that is neither `61` nor `62` is slow, and its fetch takes a second to end
when it is cancelled. -/
def lingeringSource : Source where
  replicas _ _ := .ok [0]
  fetch q :=
    if q.key = [0x61] then .prompt 0 (.ok ["version(0:1) ts:7"])
    else if q.key = [0x62] then .prompt 1 (.error (.raised "ConnectError" "connection refused"))
    else ⟨3, .ok [], fun _ => { Closing.prompt with delay := 1 }⟩

def lingering : Census := ⟨lingeringSource, "in", "out", 2, none, Nat.two_pos⟩

end ReplicaCensus.Census
