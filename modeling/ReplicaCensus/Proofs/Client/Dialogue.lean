import Mathlib
import ReplicaCensus.Proofs.Client.Versions
import ReplicaCensus.Proofs.Cluster.Routing
/-!
# The topology a client goes by

A client is asked one thing after another, and its transport may bring other answers each time. It
goes by the topology that a bootstrap learnt last, and a bootstrap has learnt one as soon as the
first of its two requests is answered. This is the topology that a bootstrap last told the caller,
unless one broke off between its requests since then.
-/

namespace ReplicaCensus

theorem Topology.get_of_not_mem {t : Topology} {id : Int} (h : id ∉ t.nodeIds) :
    t.get id = .error (.unknownId id) := by
  have hfind : (t.members.find? fun m => m.id = id) = none :=
    List.find?_eq_none.2 fun m hm hid => h (mem_nodeIds.2 ⟨m, hm, of_decide_eq_true hid⟩)
  rw [get, hfind]

namespace Client

/-! ## 1. Dialogues -/

/-- What a client is asked for: topology and stores, each of them alone, the URL of a node, or the
stamps of a key on a node. -/
inductive Question where
  | bootstrap
  | topology
  | schemas
  | url (node : Int)
  | stamps (store : String) (node : Int) (key : Bytes)

/-- What a client answers if nothing fails. -/
inductive Answer where
  | description (t : Topology) (schemas : List Schema)
  | topology (t : Topology)
  | schemas (schemas : List Schema)
  | url (url : String)
  | stamps (stamps : List Stamp)

/-- A turn of a dialogue: a question, and the transport at the time it is asked. -/
structure Turn where
  question : Question
  transport : Transport

def ask (c : Client) (turn : Turn) : Exchange Answer :=
  match turn.question with
  | .bootstrap =>
    let x := c.bootstrap turn.transport
    ⟨x.urls, x.result.map fun known => .description known.1 known.2, x.client⟩
  | .topology => ⟨[c.clusterUrl], (c.getCluster turn.transport).map .topology, c⟩
  | .schemas => ⟨[c.storesUrl], (c.getSchemas turn.transport).map .schemas, c⟩
  | .url node => ⟨[], (c.nodeUrl node).map .url, c⟩
  | .stamps store node key =>
    let x := c.getStamps turn.transport store node key
    ⟨x.urls, x.result.map .stamps, x.client⟩

/-- The client after a dialogue. -/
def after (c : Client) (dialogue : List Turn) : Client :=
  dialogue.foldl (fun c turn => (c.ask turn).client) c

/-- What a dialogue is made of, turn by turn. -/
def exchanges (c : Client) : List Turn → List (Exchange Answer)
  | [] => []
  | turn :: rest => c.ask turn :: (c.ask turn).client.exchanges rest

/-- The topology that a caller is told, if a bootstrap was answered. -/
def told? : Except ClientError Answer → Option Topology
  | .ok (.description t _) => some t
  | _ => none

def lastTold (xs : List (Exchange Answer)) : Option Topology :=
  xs.reverse.findSome? fun x => told? x.result

/-- The topology that a turn brings to the client, if it is a bootstrap whose first request is
answered. -/
def learnt? (c : Client) (turn : Turn) : Option Topology :=
  match turn.question with
  | .bootstrap => (c.getCluster turn.transport).toOption
  | _ => none

def lastLearnt (c : Client) (dialogue : List Turn) : Option Topology :=
  dialogue.reverse.findSome? c.learnt?

/-- A bootstrap that breaks off between its requests: the topology comes, and the stores do not. -/
structure BreaksOff (c : Client) (turn : Turn) (t : Topology) : Prop where
  isBootstrap : turn.question = .bootstrap
  learns : c.getCluster turn.transport = .ok t
  fails : ∃ e, c.getSchemas turn.transport = .error e

/-- A client goes by a topology: it gives this one and the addresses that are in it. If it goes by
none, it must not be used yet. -/
def GoesBy (c : Client) : Option Topology → Prop
  | some t => c.knownTopology = .ok t ∧
      (∀ m ∈ t.members, c.nodeUrl m.id = .ok ("http://" ++ m.host ++ ":" ++ toString m.port)) ∧
      ∀ node ∉ t.nodeIds, ∃ e, c.nodeUrl node = .error e ∧ e.kind = "AdminResponseError"
  | none => ∃ e : ClientError, e.kind = "RuntimeError" ∧ c.knownTopology = .error e ∧
      ∀ node, c.nodeUrl node = .error e

/-! ## 2. One turn -/

theorem goesBy_topology (c : Client) : c.GoesBy c.topology := by
  cases h : c.topology with
  | none =>
    have hknown : c.knownTopology = .error .notBootstrapped := by rw [knownTopology, h]
    exact ⟨.notBootstrapped, rfl, hknown, fun node => by rw [nodeUrl, hknown]⟩
  | some t =>
    have hknown : c.knownTopology = .ok t := by rw [knownTopology, h]
    refine ⟨hknown, fun m hm => ?_, fun node hnode => ?_⟩
    · rw [nodeUrl, hknown]
      dsimp only
      rw [Topology.get_of_mem hm]
      dsimp only
      rw [Member.address]
      simp only [String.append_assoc]
    · refine ⟨.unknownNode (.unknownId node), ?_, rfl⟩
      rw [nodeUrl, hknown]
      dsimp only
      rw [Topology.get_of_not_mem hnode]

/-- There is only one topology that a client goes by. -/
theorem goesBy_iff {c : Client} {t : Option Topology} : c.GoesBy t ↔ c.topology = t := by
  constructor
  · intro h
    cases t with
    | none =>
      obtain ⟨e, -, hknown, -⟩ := h
      unfold knownTopology at hknown
      split at hknown
      · cases hknown
      · assumption
    | some t =>
      have hknown := h.1
      unfold knownTopology at hknown
      split at hknown
      · cases hknown
        assumption
      · cases hknown
  · rintro rfl
    exact c.goesBy_topology

theorem client_getStamps (c : Client) (transport : Transport) (store : String) (node : Int)
    (key : Bytes) : (c.getStamps transport store node key).client = c := by
  unfold getStamps
  split
  · rfl
  · split <;> rfl

/-- A turn changes nothing of a client but its topology, which is then what the turn brought. -/
theorem client_ask (c : Client) (turn : Turn) :
    (c.ask turn).client = { c with topology := (c.learnt? turn).or c.topology } := by
  obtain ⟨question, transport⟩ := turn
  cases question with
  | bootstrap =>
    unfold ask learnt? bootstrap
    dsimp only
    cases c.getCluster transport with
    | error e => rfl
    | ok t =>
      dsimp only
      split <;> rfl
  | topology => rfl
  | schemas => rfl
  | url node => rfl
  | stamps store node key => exact c.client_getStamps transport store node key

theorem learnt?_eq_some {c : Client} {turn : Turn} {t : Topology} :
    c.learnt? turn = some t ↔
      turn.question = .bootstrap ∧ c.getCluster turn.transport = .ok t := by
  obtain ⟨question, transport⟩ := turn
  unfold learnt?
  cases question with
  | bootstrap => cases c.getCluster transport <;> simp [Except.toOption]
  | _ => simp

theorem BreaksOff.learnt {c : Client} {turn : Turn} {t : Topology} (h : c.BreaksOff turn t) :
    c.learnt? turn = some t :=
  learnt?_eq_some.2 ⟨h.isBootstrap, h.learns⟩

theorem result_bootstrap (c : Client) (transport : Transport) :
    (c.bootstrap transport).result =
      match c.getCluster transport with
      | .error e => .error e
      | .ok t => (c.getSchemas transport).map fun schemas => (t, schemas) := by
  unfold bootstrap
  cases c.getCluster transport with
  | error e => rfl
  | ok t =>
    -- the stores are asked for at the same URL whatever the topology is
    have hstores :
        { c with topology := some t }.getSchemas transport = c.getSchemas transport := rfl
    dsimp only
    rw [hstores]
    cases c.getSchemas transport <;> rfl

theorem told?_map {α : Type} {f : α → Answer} (hf : ∀ a, told? (.ok (f a)) = none)
    (r : Except ClientError α) : told? (r.map f) = none := by
  cases r with
  | error e => rfl
  | ok a => exact hf a

theorem told?_of_ne {turn : Turn} (h : turn.question ≠ .bootstrap) (c : Client) :
    told? (c.ask turn).result = none := by
  obtain ⟨question, transport⟩ := turn
  cases question with
  | bootstrap => exact absurd rfl h
  | _ => exact told?_map (fun _ => rfl) _

/-- What a turn brings to the client is told to the caller, and no more, unless the turn breaks
off. -/
theorem told_cases (c : Client) (turn : Turn) :
    (told? (c.ask turn).result = c.learnt? turn ∧ ∀ t, ¬c.BreaksOff turn t) ∨
      ∃ t e, c.BreaksOff turn t ∧ (c.ask turn).result = .error e := by
  by_cases hquestion : turn.question = .bootstrap
  · obtain ⟨question, transport⟩ := turn
    cases hquestion
    have hresult : (c.ask ⟨.bootstrap, transport⟩).result =
        (c.bootstrap transport).result.map fun known => .description known.1 known.2 := rfl
    rw [hresult, result_bootstrap, learnt?]
    cases hcluster : c.getCluster transport with
    | error e => exact .inl ⟨rfl, fun t h => nomatch hcluster.symm.trans h.learns⟩
    | ok t =>
      cases hschemas : c.getSchemas transport with
      | error e => exact .inr ⟨t, e, ⟨rfl, hcluster, e, hschemas⟩, rfl⟩
      | ok schemas =>
        refine .inl ⟨rfl, fun t h => ?_⟩
        obtain ⟨e, he⟩ := h.fails
        cases hschemas.symm.trans he
  · refine .inl ⟨?_, fun t h => hquestion h.isBootstrap⟩
    rw [told?_of_ne hquestion]
    cases hlearnt : c.learnt? turn with
    | none => rfl
    | some t => exact absurd (learnt?_eq_some.1 hlearnt).1 hquestion

theorem told?_of_breaksOff {c : Client} {turn : Turn} {t : Topology} (h : c.BreaksOff turn t) :
    told? (c.ask turn).result = none := by
  rcases c.told_cases turn with ⟨-, hnot⟩ | ⟨-, e, -, he⟩
  · exact absurd h (hnot t)
  · rw [he]
    rfl

/-! ## 3. A whole dialogue -/

/-- The last item for which there is something, with nothing behind it. -/
theorem findSome?_reverse_eq_some_iff {α β : Type} {f : α → Option β} {l : List α} {b : β} :
    l.reverse.findSome? f = some b ↔
      ∃ front a behind, l = front ++ a :: behind ∧ f a = some b ∧ ∀ x ∈ behind, f x = none := by
  rw [List.findSome?_eq_some_iff]
  constructor
  · rintro ⟨behind, a, front, hl, ha, hbehind⟩
    refine ⟨front.reverse, a, behind.reverse, ?_, ha, by simpa using hbehind⟩
    rw [← List.reverse_reverse l, hl]
    simp
  · rintro ⟨front, a, behind, rfl, ha, hbehind⟩
    exact ⟨behind.reverse, a, front.reverse, by simp, ha, by simpa using hbehind⟩

theorem lastTold_append (xs ys : List (Exchange Answer)) :
    lastTold (xs ++ ys) = (lastTold ys).or (lastTold xs) := by
  rw [lastTold, List.reverse_append, List.findSome?_append]
  rfl

theorem after_append (c : Client) (front behind : List Turn) :
    c.after (front ++ behind) = (c.after front).after behind := List.foldl_append

theorem exchanges_append (c : Client) (front behind : List Turn) :
    c.exchanges (front ++ behind) = c.exchanges front ++ (c.after front).exchanges behind := by
  induction front generalizing c with
  | nil => rfl
  | cons turn rest ih =>
    rw [List.cons_append, exchanges, ih]
    rfl

/-- What a client learns depends on where it asks, and not on what it knows already. -/
theorem learnt?_congr {c c' : Client} (h : c'.base = c.base) : c'.learnt? = c.learnt? := by
  funext turn
  unfold learnt? getCluster clusterUrl
  rw [h]

theorem breaksOff_congr {c c' : Client} (h : c'.base = c.base) {turn : Turn} {t : Topology} :
    c'.BreaksOff turn t ↔ c.BreaksOff turn t := by
  have himp : ∀ {c c' : Client}, c'.base = c.base → c'.BreaksOff turn t → c.BreaksOff turn t := by
    rintro c c' h ⟨hquestion, hlearns, hfails⟩
    have hcluster : c'.getCluster = c.getCluster := by unfold getCluster clusterUrl; rw [h]
    have hstores : c'.getSchemas = c.getSchemas := by unfold getSchemas storesUrl; rw [h]
    rw [hcluster] at hlearns
    rw [hstores] at hfails
    exact ⟨hquestion, hlearns, hfails⟩
  exact ⟨himp h, himp h.symm⟩

/-- A dialogue changes nothing of a client but its topology, which is then what it learnt last. -/
theorem after_eq (c : Client) (dialogue : List Turn) :
    c.after dialogue = { c with topology := (c.lastLearnt dialogue).or c.topology } := by
  induction dialogue using List.reverseRecOn with
  | nil => rfl
  | append_singleton front turn ih =>
    have hlast : c.lastLearnt (front ++ [turn]) = (c.learnt? turn).or (c.lastLearnt front) := by
      rw [lastLearnt, List.reverse_append, List.findSome?_append, List.reverse_singleton,
        List.findSome?_singleton]
      rfl
    rw [after_append, ih, hlast, Option.or_assoc]
    exact client_ask _ turn

theorem base_after (c : Client) (dialogue : List Turn) : (c.after dialogue).base = c.base := by
  rw [after_eq]

/-- Who learns nothing tells nothing. -/
theorem lastTold_eq_none {c : Client} {dialogue : List Turn}
    (h : ∀ turn ∈ dialogue, c.learnt? turn = none) : lastTold (c.exchanges dialogue) = none := by
  induction dialogue generalizing c with
  | nil => rfl
  | cons turn rest ih =>
    obtain ⟨hturn, hrest⟩ := List.forall_mem_cons.1 h
    have hbase : (c.ask turn).client.base = c.base := by rw [client_ask]
    rw [← learnt?_congr hbase] at hrest
    have htold : told? (c.ask turn).result = none := by
      rcases c.told_cases turn with ⟨htold, -⟩ | ⟨t, e, -, he⟩
      · rw [htold, hturn]
      · rw [he]
        rfl
    rw [exchanges, ← List.singleton_append, lastTold_append, ih hrest, Option.none_or, lastTold,
      List.reverse_singleton, List.findSome?_singleton, htold]

/-- What a dialogue told last, if nothing was learnt behind a turn. -/
theorem lastTold_split {c : Client} {front behind : List Turn} {turn : Turn}
    (h : ∀ later ∈ behind, c.learnt? later = none) :
    lastTold (c.exchanges (front ++ turn :: behind)) =
      (told? ((c.after front).ask turn).result).or (lastTold (c.exchanges front)) := by
  have hbehind : ∀ later ∈ behind, ((c.after front).ask turn).client.learnt? later = none := by
    have hbase : ((c.after front).ask turn).client.base = c.base := by rw [client_ask, after_eq]
    rw [learnt?_congr hbase]
    exact h
  rw [exchanges_append, exchanges, ← List.singleton_append, lastTold_append, lastTold_append,
    lastTold_eq_none hbehind, Option.none_or, lastTold, List.reverse_singleton,
    List.findSome?_singleton]

theorem lastTold_eq_lastLearnt_iff (c : Client) (dialogue : List Turn) :
    lastTold (c.exchanges dialogue) = c.lastLearnt dialogue ↔
      ∀ front turn behind t, dialogue = front ++ turn :: behind → c.BreaksOff turn t →
        (∀ later ∈ behind, c.learnt? later = none) → lastTold (c.exchanges front) = some t := by
  constructor
  · rintro heq front turn behind t rfl hbreaks hbehind
    have hlast : c.lastLearnt (front ++ turn :: behind) = some t :=
      findSome?_reverse_eq_some_iff.2 ⟨front, turn, behind, rfl, hbreaks.learnt, hbehind⟩
    have hbreaks' := (breaksOff_congr (c.base_after front)).2 hbreaks
    rw [hlast, lastTold_split hbehind, told?_of_breaksOff hbreaks', Option.none_or] at heq
    exact heq
  · intro h
    cases hlast : c.lastLearnt dialogue with
    | none =>
      refine lastTold_eq_none fun turn hturn => ?_
      exact List.findSome?_eq_none_iff.1 hlast turn (List.mem_reverse.2 hturn)
    | some t =>
      obtain ⟨front, turn, behind, rfl, hlearnt, hbehind⟩ := findSome?_reverse_eq_some_iff.1 hlast
      rw [lastTold_split hbehind]
      rcases (c.after front).told_cases turn with ⟨htold, -⟩ | ⟨t', e, hbreaks, he⟩
      · rw [htold, learnt?_congr (c.base_after front), hlearnt]
        rfl
      -- a turn that broke off told nothing, so what was told before has to be the same
      · have hbreaks' := (breaksOff_congr (c.base_after front)).1 hbreaks
        cases hlearnt.symm.trans hbreaks'.learnt
        rw [he]
        exact h front turn behind t rfl hbreaks' hbehind

/-- A turn that fails leaves the client as it was, unless it breaks off with a topology that the
client does not go by yet. -/
theorem client_ask_eq_self_iff {c : Client} {turn : Turn} {e : ClientError}
    (h : (c.ask turn).result = .error e) :
    (c.ask turn).client = c ↔ ∀ t, c.BreaksOff turn t → c.GoesBy (some t) := by
  simp only [goesBy_iff]
  rw [client_ask]
  rcases c.told_cases turn with ⟨htold, hnot⟩ | ⟨t, -, hbreaks, -⟩
  · rw [h] at htold
    rw [← htold]
    exact iff_of_true rfl fun t hbreaks => absurd hbreaks (hnot t)
  · rw [hbreaks.learnt]
    constructor
    · intro hsame t' hbreaks'
      cases hbreaks.learns.symm.trans hbreaks'.learns
      exact (congrArg Client.topology hsame).symm
    · intro hknown
      show Client.mk c.base (some t) = c
      rw [← hknown t hbreaks]

/-- After any dialogue a client goes by the topology that it learnt last. This is the one that it
told last, just if every bootstrap that broke off, with nothing learnt since, had told the same
before. And a turn that fails leaves the client as it was, just if it does not break off with a
topology that the client does not go by. -/
theorem goesBy_lastTold_iff (url : String) (dialogue : List Turn) :
    let c := ofUrl url
    (c.after dialogue).GoesBy (c.lastLearnt dialogue) ∧
    ((c.after dialogue).GoesBy (lastTold (c.exchanges dialogue)) ↔
      ∀ front turn behind t, dialogue = front ++ turn :: behind → c.BreaksOff turn t →
        (∀ later ∈ behind, c.learnt? later = none) → lastTold (c.exchanges front) = some t) ∧
    ∀ turn e, ((c.after dialogue).ask turn).result = .error e →
      (((c.after dialogue).ask turn).client = c.after dialogue ↔
        ∀ t, c.BreaksOff turn t → (c.after dialogue).GoesBy (some t)) := by
  intro c
  have htopology : (c.after dialogue).topology = c.lastLearnt dialogue := by
    rw [after_eq]
    exact Option.or_none
  refine ⟨goesBy_iff.2 htopology, ?_, fun turn e he => ?_⟩
  · rw [goesBy_iff, htopology, eq_comm]
    exact c.lastTold_eq_lastLearnt_iff dialogue
  · have hbreaks := @breaksOff_congr c _ (c.base_after dialogue) turn
    simp only [← hbreaks]
    exact client_ask_eq_self_iff he

/-- The topology of one node, as an object. -/
def oneBody : List Char :=
  "\x7b\"nodes\": [\x7b\"id\": 0, \"host\": \"h\", \"port\": 1\x7d]\x7d".toList

/-- A bootstrap over a transport that brings the topology and is refused for the stores. -/
def halfway : Turn := ⟨.bootstrap, answering "http://h:1/admin/cluster" oneBody⟩

/-- A client whose only bootstrap failed gives a topology, though it never told one. -/
theorem goesBy_untold :
    (∃ e, ((ofUrl "http://h:1").ask halfway).result = .error e ∧ e.kind = "ConnectError") ∧
      lastTold ((ofUrl "http://h:1").exchanges [halfway]) = none ∧
      ¬((ofUrl "http://h:1").after [halfway]).GoesBy none ∧
      ((ofUrl "http://h:1").after [halfway]).nodeUrl 0 = .ok "http://h:1" := by
  have hkind : (((ofUrl "http://h:1").ask halfway).result.mapError ClientError.kind).map
      (fun _ => ()) = .error "ConnectError" := by decide +kernel
  have hurl : (((ofUrl "http://h:1").after [halfway]).nodeUrl 0).mapError ClientError.kind =
      .ok "http://h:1" := by decide +kernel
  cases hresult : ((ofUrl "http://h:1").ask halfway).result with
  | ok answer => rw [hresult] at hkind; cases hkind
  | error e =>
    rw [hresult] at hkind
    cases hnode : ((ofUrl "http://h:1").after [halfway]).nodeUrl 0 with
    | error e => rw [hnode] at hurl; cases hurl
    | ok url =>
      rw [hnode] at hurl
      refine ⟨⟨e, rfl, Except.error.inj hkind⟩, ?_, ?_, by rw [Except.ok.inj hurl]⟩
      · rw [exchanges, exchanges, lastTold, List.reverse_singleton, List.findSome?_singleton,
          hresult]
        rfl
      · rintro ⟨e', -, -, hall⟩
        cases hnode.symm.trans (hall 0)

end Client

end ReplicaCensus
