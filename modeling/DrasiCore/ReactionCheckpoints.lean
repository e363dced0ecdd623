import DrasiCore.ReactionForwarder

/-! The checkpoints of a reaction. The reaction advances them after its side effects: it reads the stored checkpoint, and
writes the next one in a later step, by its recovery policy more than once. The host writes checkpoints in between. -/

namespace DrasiCore

open Library

structure ReactionCheckpoint where
  sequence : Nat
  /-- The epoch of the query. -/
  configHash : Nat
deriving DecidableEq

structure CheckpointState where
  /-- The last known checkpoint of each query. -/
  checkpoints : String → Option ReactionCheckpoint
  hasStore : Bool

namespace CheckpointState

def load (hasStore : Bool) : CheckpointState := ⟨fun _ => none, hasStore⟩

variable (state : CheckpointState) (queryId : String)

def current : ReactionCheckpoint := (state.checkpoints queryId).getD ⟨0, 0⟩

def insert (checkpoint : ReactionCheckpoint) : CheckpointState :=
  { state with checkpoints := Function.update state.checkpoints queryId (some checkpoint) }

/-- Take over what the host stored. A new epoch replaces the old one, and in one epoch the sequence does not go back. -/
def refresh (persisted : Option ReactionCheckpoint) : CheckpointState :=
  state.insert queryId
    (match persisted with
    | none => state.current queryId
    | some persisted =>
      if persisted.configHash ≠ (state.current queryId).configHash ∨
          (state.current queryId).sequence < persisted.sequence then persisted
      else state.current queryId)

end CheckpointState

inductive CheckpointCall where
  | advance (queryId : String) (sequence : Nat)
  | advanceWithPolicy (queryId : String) (sequence : Nat) (policy : ReactionRecoveryPolicy)
  /-- The completed sequences of a batch, by query. -/
  | advanceCompletedAfterAck (completed : List (String × Nat)) (policy : ReactionRecoveryPolicy)

namespace CheckpointCall

def entries : CheckpointCall → List (String × Nat)
  | .advance queryId sequence | .advanceWithPolicy queryId sequence _ => [(queryId, sequence)]
  | .advanceCompletedAfterAck completed _ => completed.mergeSort fun left right => left.1 ≤ right.1

/-- Without a policy a failed write is returned at once, as the strict policy does. -/
def policy : CheckpointCall → ReactionRecoveryPolicy
  | .advance .. => .strict
  | .advanceWithPolicy _ _ policy | .advanceCompletedAfterAck _ policy => policy

end CheckpointCall

inductive AdvancePhase where
  | idle
  /-- About to read the checkpoint of the first query. -/
  | reading (queryId : String) (sequence : Nat) (rest : List (String × Nat)) (policy : ReactionRecoveryPolicy)
  /-- About to write a checkpoint, after some attempts that failed. -/
  | writing (queryId : String) (checkpoint : ReactionCheckpoint) (attempt : Nat) (rest : List (String × Nat))
      (policy : ReactionRecoveryPolicy)

def AdvancePhase.next (rest : List (String × Nat)) (policy : ReactionRecoveryPolicy) : AdvancePhase :=
  match rest with
  | [] => .idle
  | (queryId, sequence) :: rest => .reading queryId sequence rest policy

/-- A write that reached the store, with what it replaced. -/
structure CheckpointWrite where
  byHost : Bool
  queryId : String
  replaced : Option ReactionCheckpoint
  written : ReactionCheckpoint

structure CheckpointSystem where
  store : String → Option ReactionCheckpoint
  state : CheckpointState
  phase : AdvancePhase
  /-- All writes to the store. No program state. -/
  writes : List CheckpointWrite

inductive CheckpointAction where
  | call (call : CheckpointCall)
  | read (succeeds : Bool)
  /-- A write; a failed one may have reached the store all the same. -/
  | write (succeeds lands : Bool)
  | hostWrite (queryId : String) (checkpoint : ReactionCheckpoint)

namespace CheckpointSystem

def autoResetCheckpointAttempts : Nat := 4

def start (store : String → Option ReactionCheckpoint) (state : CheckpointState) :
    CheckpointSystem := ⟨store, state, .idle, []⟩

variable (system : CheckpointSystem)

def put (byHost : Bool) (queryId : String) (checkpoint : ReactionCheckpoint) : CheckpointSystem :=
  { system with
    store := Function.update system.store queryId (some checkpoint)
    writes := system.writes ++ [⟨byHost, queryId, system.store queryId, checkpoint⟩] }

variable (queryId : String)

/-- The part of an advance after its read: the checkpoint moves forward or stays. -/
def afterRead (sequence : Nat) (rest : List (String × Nat)) (policy : ReactionRecoveryPolicy) : CheckpointSystem :=
  let state := system.state.refresh queryId (if system.state.hasStore then system.store queryId else none)
  let current := state.current queryId
  let checkpoint : ReactionCheckpoint := ⟨sequence, current.configHash⟩
  if sequence ≤ current.sequence then { system with state := state, phase := .next rest policy }
  else if state.hasStore then { system with state := state, phase := .writing queryId checkpoint 0 rest policy }
  else { system with state := state.insert queryId checkpoint, phase := .next rest policy }

variable (checkpoint : ReactionCheckpoint)

def afterWrite (rest : List (String × Nat)) (policy : ReactionRecoveryPolicy) : CheckpointSystem :=
  { system with state := system.state.insert queryId checkpoint, phase := .next rest policy }

def afterFailedWrite (attempt : Nat) (rest : List (String × Nat)) (policy : ReactionRecoveryPolicy) : CheckpointSystem :=
  match policy with
  | .strict => { system with phase := .idle }
  | .autoSkipGap => system.afterWrite queryId checkpoint rest policy
  | .autoReset =>
    if attempt + 1 < autoResetCheckpointAttempts then
      { system with phase := .writing queryId checkpoint (attempt + 1) rest policy }
    else { system with phase := .idle }

/-- What the host may write over a checkpoint: a new epoch, or a higher sequence in the same one. -/
def hostMayWrite : Prop :=
  ∀ old, system.store queryId = some old → checkpoint.configHash ≠ old.configHash ∨ old.sequence < checkpoint.sequence

inductive Step : CheckpointAction → CheckpointSystem → CheckpointSystem → Prop where
  | call {system : CheckpointSystem} (call : CheckpointCall) (idle : system.phase = .idle) :
      Step (.call call) system { system with phase := .next call.entries call.policy }
  | read {system queryId sequence rest policy} (reading : system.phase = .reading queryId sequence rest policy) :
      Step (.read true) system (system.afterRead queryId sequence rest policy)
  | readFails {system queryId sequence rest policy} (reading : system.phase = .reading queryId sequence rest policy) :
      Step (.read false) system { system with phase := .idle }
  | write {system queryId checkpoint attempt rest policy}
      (writing : system.phase = .writing queryId checkpoint attempt rest policy) :
      Step (.write true true) system ((system.put false queryId checkpoint).afterWrite queryId checkpoint rest policy)
  | writeFails {system queryId checkpoint attempt rest policy} (lands : Bool)
      (writing : system.phase = .writing queryId checkpoint attempt rest policy) :
      Step (.write false lands) system
        ((if lands then system.put false queryId checkpoint else system).afterFailedWrite queryId checkpoint attempt rest policy)
  | hostWrite {system : CheckpointSystem} {queryId checkpoint}
      (may : system.hostMayWrite queryId checkpoint) :
      Step (.hostWrite queryId checkpoint) system (system.put true queryId checkpoint)

/-- States reached by steps that are all allowed in the state they are taken in. -/
def Reached (allowed : CheckpointSystem → CheckpointAction → Prop) (start system : CheckpointSystem) : Prop :=
  Relation.ReflTransGen (fun before after => ∃ action, allowed before action ∧ Step action before after) start system

variable (policy : ReactionRecoveryPolicy)

/-- An advance that returns without an error. A failed write is only skipped under one policy. -/
def advance (lost : Bool) (entry : String × Nat) : CheckpointSystem :=
  let read := system.afterRead entry.1 entry.2 [] policy
  match read.phase with
  | .writing queryId checkpoint _ rest policy =>
    (if lost ∧ policy = .autoSkipGap then read else read.put false queryId checkpoint).afterWrite queryId checkpoint rest policy
  | _ => read

end CheckpointSystem

/-- An item that is sent: its query, the sequence of its result, and whether it is the last of it. -/
abbrev BatchItem := String × Nat × Bool

def raiseCandidate (map : OrderedMap String Nat) (queryId : String) (sequence : Nat) : OrderedMap String Nat :=
  map.insert queryId (max ((map.get? queryId).getD 0) sequence)

def batchCandidate (maps : OrderedMap String Nat × OrderedMap String Nat) (item : BatchItem) :
    OrderedMap String Nat × OrderedMap String Nat :=
  let (queryId, sequence, isTerminal) := item
  (if isTerminal then raiseCandidate maps.1 queryId sequence else maps.1, raiseCandidate maps.2 queryId sequence)

/-- By query, the largest sequence of which the batch has the last item, and the largest of which it has any. -/
def batchCheckpointCandidates (items : List BatchItem) : OrderedMap String Nat × OrderedMap String Nat :=
  items.foldl batchCandidate (.empty, .empty)

/-- A batch is acknowledged, and the checkpoints of what it completes advance. Some writes may be lost. -/
def CheckpointSystem.acknowledge (policy : ReactionRecoveryPolicy) (system : CheckpointSystem)
    (batch : List BatchItem × (String → Bool)) : CheckpointSystem :=
  (CheckpointCall.advanceCompletedAfterAck (batchCheckpointCandidates batch.1).1.entries policy).entries.foldl
    (fun system entry => system.advance policy (batch.2 entry.1) entry) system

end DrasiCore
