import Mathlib
import ReplicaCensus.Proofs.Census.Fate
import ReplicaCensus.Stamp.Basic
/-!
# The block of a key whose replicas all answer

Without a time limit a key has its block as soon as each of its nodes answers, and the block has one
line for each node, in the order of the nodes.
-/

namespace ReplicaCensus

theorem exists_forall₂ {α β : Type} {R : α → β → Prop} {l : List α} (h : ∀ a ∈ l, ∃ b, R a b) :
    ∃ l', List.Forall₂ R l l' := by
  induction l with
  | nil => exact ⟨[], .nil⟩
  | cons a rest ih =>
    obtain ⟨⟨b, hb⟩, hrest⟩ := List.forall_mem_cons.1 h
    obtain ⟨bs, hbs⟩ := ih hrest
    exact ⟨b :: bs, .cons hb hbs⟩

theorem map_eq_map_iff {α β γ : Type} {f : α → γ} {g : β → γ} {l : List α} {l' : List β} :
    l.map f = l'.map g ↔ List.Forall₂ (fun a b => f a = g b) l l' := by
  rw [← List.forall₂_eq_eq_eq, List.forall₂_map_left_iff, List.forall₂_map_right_iff]

/-- The line of one replica: its number, the key, and the stamps it holds. -/
def replicaLine (i : Nat) (key : Bytes) (stamps : List Stamp) : String :=
  toString i ++ " : " ++ Hex.encode key ++ "\t" ++
    String.join (stamps.map fun s => toString s ++ "\t") ++ "\n"

namespace Block

theorem line_map_toText (i : Nat) (key : Bytes) (stamps : List Stamp) :
    line i key (stamps.map Stamp.toText) = replicaLine i key stamps := by
  rw [line, replicaLine, List.map_map]
  rfl

theorem linesFrom_map_toText (key : Bytes) (offset : Nat) (held : List (List Stamp)) :
    linesFrom key offset (held.map (List.map Stamp.toText)) =
      String.join ((held.zipIdx offset).map fun e => replicaLine e.2 key e.1) := by
  induction held generalizing offset with
  | nil => rfl
  | cons stamps rest ih =>
    rw [List.map_cons, linesFrom, ih, line_map_toText, List.zipIdx_cons, List.map_cons,
      String.join_cons]

end Block

namespace Schedule

/-- Nodes answer with these versions, the first of them being the replica with this number. -/
def AnswerFrom (s : Setting) (key : KeyLine) : Nat → List Int → List (List String) → Prop
  | _, [], more => more = []
  | _, _ :: _, [] => False
  | i, node :: rest, versions :: more =>
    (s.fetch key i node).answer = .ok versions ∧ AnswerFrom s key (i + 1) rest more

/-- If each node says something, whatever its number, they answer. -/
theorem answerFrom_of_forall₂ {s : Setting} {key : KeyLine} {nodes : List Int}
    {more : List (List String)}
    (h : List.Forall₂ (fun node versions => ∀ i, (s.fetch key i node).answer = .ok versions)
      nodes more) (i : Nat) : AnswerFrom s key i nodes more := by
  induction h generalizing i with
  | nil => rfl
  | cons hnode _ ih => exact ⟨hnode i, ih (i + 1)⟩

/-- What nodes answer they answer from another source, too, if it says what the first says. -/
theorem AnswerFrom.imp {s s' : Setting} {key : KeyLine} {i : Nat} {nodes : List Int}
    {more : List (List String)} (h : AnswerFrom s key i nodes more)
    (htells : ∀ i node versions, (s.fetch key i node).answer = .ok versions →
      (s'.fetch key i node).answer = .ok versions) : AnswerFrom s' key i nodes more := by
  induction nodes generalizing i more with
  | nil => exact h
  | cons node rest ih =>
    cases more with
    | nil => exact h
    | cons versions more => exact ⟨htells i node versions h.1, ih h.2⟩

/-- What is missing yet of the answers follows those that are there. -/
theorem askFrom_of_ok {s : Setting} (hlimit : s.limit = none) {key : KeyLine} {nodes : List Int}
    {more : List (List String)} (spent : Rat) {answers : List (List String)}
    (h : AnswerFrom s key answers.length nodes more) :
    askFrom s key spent answers nodes = .ok (Block.ofAnswers key.2 (answers ++ more)) := by
  have hoverdue : ∀ t, s.isOverdue t = false := by
    intro t
    rw [Setting.isOverdue, hlimit]
    rfl
  -- by induction on the nodes, with the answers so far as the accumulator
  induction nodes generalizing spent answers more with
  | nil =>
    obtain rfl : more = [] := h
    rw [askFrom, List.append_nil]
  | cons node rest ih =>
    cases more with
    | nil => exact absurd h id
    | cons versions more =>
      obtain ⟨hnode, hrest⟩ := h
      rw [askFrom, hoverdue, hnode]
      dsimp only
      have hlength : answers.length + 1 = (answers ++ [versions]).length := by
        rw [List.length_append, List.length_singleton]
      rw [hlength] at hrest
      rw [if_neg Bool.false_ne_true, ih _ hrest, List.append_assoc, List.singleton_append]

theorem ask_of_ok {s : Setting} (hlimit : s.limit = none) {key : KeyLine} {nodes : List Int}
    (hnodes : s.source.replicas s.schema key.2 = .ok nodes) {answers : List (List String)}
    (h : AnswerFrom s key 0 nodes answers) :
    ask s key = .ok (Block.ofAnswers key.2 answers) := by
  have hfresh : s.isExpired = false := by
    rw [Setting.isExpired, hlimit]
  have husable : s.isUnusable = false := by
    rw [Setting.isUnusable, hlimit]
  rw [ask, hfresh, husable, hnodes]
  exact askFrom_of_ok hlimit 0 h

/-- The text of a key: one block of what each of its nodes answers. -/
def Answered (s : Setting) (key : KeyLine) (text : String) : Prop :=
  ∃ nodes answers, s.source.replicas s.schema key.2 = .ok nodes ∧
    AnswerFrom s key 0 nodes answers ∧ text = Block.ofAnswers key.2 answers

theorem exists_answers_of_askFrom {s : Setting} {key : KeyLine} {spent : Rat}
    {answers : List (List String)} {nodes : List Int} {text : String}
    (h : askFrom s key spent answers nodes = .ok text) :
    ∃ more, AnswerFrom s key answers.length nodes more ∧
      text = Block.ofAnswers key.2 (answers ++ more) := by
  induction nodes generalizing spent answers with
  | nil =>
    unfold askFrom at h
    exact ⟨[], rfl, by rw [List.append_nil]; exact (Except.ok.inj h).symm⟩
  | cons node rest ih =>
    unfold askFrom at h
    dsimp only at h
    generalize (if (s.fetch key answers.length node).delay < 0 then spent else _) = t at h
    split at h
    · cases h
    · split at h
      · cases h
      · next versions hversions =>
        obtain ⟨more, hmore, htext⟩ := ih h
        rw [List.length_append] at hmore
        exact ⟨versions :: more, ⟨hversions, hmore⟩, by
          rw [htext, List.append_assoc, List.singleton_append]⟩

/-- Whatever the limit, a key that has its block has heard each of its nodes. -/
theorem answered_of_ask {s : Setting} {key : KeyLine} {text : String} (h : ask s key = .ok text) :
    Answered s key text := by
  unfold ask at h
  split at h
  · cases h
  · split at h
    · cases h
    · split at h
      · cases h
      · next nodes hnodes =>
        obtain ⟨answers, hanswers, htext⟩ := exists_answers_of_askFrom h
        exact ⟨nodes, answers, hnodes, hanswers, htext⟩

theorem forall₂_answered {s : Setting} {keys : List KeyLine} {blocks : List String}
    (h : keys.map (ask s) = blocks.map .ok) : List.Forall₂ (Answered s) keys blocks :=
  (map_eq_map_iff.1 h).imp fun _ _ => answered_of_ask

/-- If every key has a block of some kind, the blocks of all keys are of that kind. -/
theorem exists_blocks {s : Setting} {IsBlock : KeyLine → String → Prop} {keys : List KeyLine}
    (h : ∀ key ∈ keys, ∃ text, ask s key = .ok text ∧ IsBlock key text) :
    ∃ blocks, askInOrder s keys = (blocks, none) ∧ List.Forall₂ IsBlock keys blocks := by
  induction keys with
  | nil => exact ⟨[], rfl, .nil⟩
  | cons key rest ih =>
    obtain ⟨⟨text, hask, htext⟩, hrest⟩ := List.forall_mem_cons.1 h
    obtain ⟨blocks, hblocks, hall⟩ := ih hrest
    refine ⟨text :: blocks, ?_, .cons htext hall⟩
    rw [askInOrder, hask, hblocks]

end Schedule

/-! ## Keys of a key file -/

theorem Hex.ne_nil_of_decode? {cs : List Char} {bytes : Bytes} (h : decode? cs = some bytes)
    (hcs : cs ≠ []) : bytes ≠ [] := by
  unfold decode? at h
  split at h
  · exact absurd rfl hcs
  · cases h
  · split at h
    · cases h
      exact List.cons_ne_nil _ _
    · cases h

namespace KeyFile

theorem ne_nil_of_mem_ofLines {path : String} {last : Option KeyFileFault} {number : Nat}
    {lines : List (List Char)} {key : Nat × Bytes}
    (h : key ∈ (ofLines path last number lines).keys) : key.2 ≠ [] := by
  induction lines generalizing number with
  | nil => exact absurd h List.not_mem_nil
  | cons line rest ih =>
    unfold ofLines at h
    split at h
    · exact ih h
    next htext =>
    split at h
    · next bytes hbytes =>
      rcases List.mem_cons.1 h with rfl | hrest
      · exact Hex.ne_nil_of_decode? hbytes htext
      · exact ih hrest
    -- the first line that is no key ends the reading
    · exact absurd h List.not_mem_nil

/-- A key that was read is never empty. -/
theorem ne_nil_of_mem {path : String} {content : Bytes} {key : Nat × Bytes}
    (h : key ∈ (KeyFile.read path content).keys) : key.2 ≠ [] := by
  unfold KeyFile.read at h
  split at h
  · exact ne_nil_of_mem_ofLines h
  · exact ne_nil_of_mem_ofLines h

end KeyFile

end ReplicaCensus
