import ReplicaCensus.Census.Store
/-!
# A census that takes one key at a time

The plain way to sample a store: a key is asked for by itself, node after node, and the keys are
taken in the order of the file up to the first that fails. Nothing here waits for a slot or runs
beside anything else, and the time of a key is what its own fetches take. When it is up, the fetch
that is open is cancelled.
-/

namespace ReplicaCensus

namespace Failure

/-- A failure of its own, and no signal to stop. -/
def isOrdinary : Failure → Bool
  | raised .. => true
  | timeout .. => true
  | _ => false

end Failure

/-- A source that gives no signal to stop: what fails there fails with a report. -/
structure Source.Ordinary (source : Source) : Prop where
  replicas : ∀ schema key f, source.replicas schema key = .error f → f.isOrdinary = true
  fetch : ∀ q f, (source.fetch q).answer = .error f → f.isOrdinary = true

/-- The failure of a key whose time is up while this fetch is open. -/
def Fetch.timedOut (fetch : Fetch) : Failure := (fetch.closing 0).failure.afterTimeout

namespace Failure

theorem isOrdinary_afterTimeout {f : Failure} (h : f ≠ .interrupted) :
    f.afterTimeout.isOrdinary = true := by
  cases f with
  | interrupted => exact absurd rfl h
  | _ => rfl

end Failure

theorem Fetch.isOrdinary_timedOut (fetch : Fetch) : fetch.timedOut.isOrdinary = true :=
  Failure.isOrdinary_afterTimeout (fetch.closing 0).no_interruption

namespace Schedule

/-- Whether a key that has been asked for `spent` seconds is out of time. -/
def Setting.isOverdue (s : Setting) (spent : Rat) : Bool :=
  match s.limit.bind Seconds.span? with
  | some span => span < spent
  | none => false

/-- Asks nodes one after the other: `spent` seconds are gone, and `answers` are there. -/
def askFrom (s : Setting) (key : KeyLine) (spent : Rat) (answers : List (List String)) :
    List Int → Except Failure String
  | [] => .ok (Block.ofAnswers key.2 answers)
  | node :: rest =>
    let fetch := s.fetch key answers.length node
    let spent := if fetch.delay < 0 then spent else spent + fetch.delay
    if s.isOverdue spent then .error fetch.timedOut
    else
      match fetch.answer with
      | .error f => .error f
      | .ok versions => askFrom s key spent (answers ++ [versions]) rest

/-- A key by itself: its block, or why there is none. -/
def ask (s : Setting) (key : KeyLine) : Except Failure String :=
  if s.isExpired then .error .timedOut
  else if s.isUnusable then .error .limitTooLarge
  else
    match s.source.replicas s.schema key.2 with
    | .error f => .error f
    | .ok nodes => askFrom s key 0 [] nodes

/-- The blocks of the keys up to the first that fails, and its failure. -/
def askInOrder (s : Setting) : List KeyLine → List String × Option Failure
  | [] => ([], none)
  | key :: rest =>
    match ask s key with
    | .error f => ([], some f)
    | .ok block =>
      let (blocks, failure) := askInOrder s rest
      (block :: blocks, failure)

end Schedule

namespace Census

/-- Samples a store with a key file and without samples, one key at a time: the whole key file is
read, the temporary file is opened, the keys are asked for in order, and only if none of them fails
the file of samples is written. -/
def sampleInOrder (c : Census) (schema : Schema) (tree : FileTree) : Outcome × FileTree :=
  let store := schema.name
  let failed (keys : Nat) (f : Failure) : Outcome :=
    ⟨store, .failed, keys, some (f.describe c.limit)⟩
  match tree.read (c.keysPath store) with
  | .error e => (failed 0 (.raised e.kind e.message), c.discard store tree)
  | .ok content =>
    let file := KeyFile.read (c.keysPath store) content
    match file.fault with
    | some fault => (failed 0 (.raised fault.kind fault.message), c.discard store tree)
    | none =>
      match tree.write (c.partialPath store) [] with
      | .error e => (failed 0 (.raised e.kind e.message), c.discard store tree)
      | .ok opened =>
        match Schedule.askInOrder (c.setting schema) file.keys with
        | (blocks, some f) => (failed blocks.length f, c.discard store opened)
        | (blocks, none) =>
          let text := Utf8.encode (String.join blocks).toList
          match (c.discard store opened).write (c.samplesPath store) text with
          | .error e => (failed blocks.length (.raised e.kind e.message), c.discard store opened)
          | .ok tree => (⟨store, .sampled, blocks.length, none⟩, tree)

end Census

end ReplicaCensus
