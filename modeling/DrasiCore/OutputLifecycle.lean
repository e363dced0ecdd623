import DrasiCore.DurableOutput
import DrasiCore.SourceBase

/-! The life of a persistent query's output: starts, the bootstrap snapshot, commits and their dispatches, crashes of the
process and stops inside it. -/

namespace DrasiCore

open Library

/-- One committed session: a source change with its checkpoint, or a due future, which has none. -/
structure OutputCommit where
  sourceId : String
  checkpoint : Option SourceCheckpoint
  diffs : List ResultDiff
  timestamp : Nat
  profiling : ProfilingMetadata

/-- What one source delivered to a bootstrap: the results of its events and its snapshot boundary. -/
structure BootstrapSource where
  sourceId : String
  events : List (List ResultDiff)
  sourcePosition : Option ByteString

namespace BootstrapSource

/-- A source that delivered anything needs a position of valid size. -/
def hasBoundary (source : BootstrapSource) : Bool :=
  match source.sourcePosition with
  | some position => position.length ≤ maxSourcePositionBytes
  | none => source.events.isEmpty

def position (source : BootstrapSource) : Option (String × ByteString) := source.sourcePosition.map (source.sourceId, ·)

end BootstrapSource

namespace DurableOutput

variable (durable : DurableOutput) (state : QueryOutputState)

/-- The writes of one session. An oversized position is left out of the checkpoint. -/
def commit (queryId : String) (session : OutputCommit) : Option QueryResult × DurableOutput :=
  let checkpointed := session.checkpoint.elim durable fun checkpoint =>
    durable.stageCheckpoint session.sourceId
      { checkpoint with sourcePosition := checkpoint.sourcePosition.filter (·.length ≤ maxSourcePositionBytes) }
  checkpointed.stageDurableQueryOutput state session.diffs session.sourceId queryId session.timestamp session.profiling

/-- The checkpoints a bootstrap leaves: sequence zero at the boundary of every source that has one. -/
def handover (checkpoints : AList fun _ : String => SourceCheckpoint) (positions : List (String × ByteString)) :
    AList fun _ : String => SourceCheckpoint :=
  positions.foldl (fun checkpoints position => checkpoints.insert position.1 ⟨0, some position.2⟩) checkpoints

/-- The boundary of a bootstrap: positions, the rows in memory and sequence zero, in one session. -/
def persistBootstrapBoundary (positions : List (String × ByteString)) : DurableOutput :=
  { durable with
    checkpoints := handover durable.checkpoints positions
    liveRows := durable.liveRows.applyMutations (state.results.entries.map fun row => ⟨row.1, some row.2⟩)
    resultSequence := some 0 }

/-- A start in a new process: load the copy into a new output state. -/
def restart (outboxCapacity : Nat) : Except DurableOutputInconsistency QueryOutputState :=
  let state := QueryOutputState.new outboxCapacity
  (durable.loadDurableOutput state.outboxCapacity).map fun (results, outbox, asOfSequence, generation) =>
    state.hydrate results outbox asOfSequence generation

end DurableOutput

/-- All that was ever committed to the output, in order. No program state: the results are compared with it. -/
structure CommittedOutput where
  snapshot : LiveRows
  results : List QueryResult

namespace CommittedOutput

def rows (committed : CommittedOutput) : LiveRows :=
  committed.results.foldl (fun rows result => rows.applyDiffs result.results) committed.snapshot

/-- The output state after dispatching exactly these results. -/
def dispatched (committed : CommittedOutput) (outboxCapacity : Nat) : QueryOutputState :=
  committed.results.foldl (fun state result => state.applyCommittedSequence result.sequence result.results result)
    { QueryOutputState.new outboxCapacity with results := committed.snapshot }

end CommittedOutput

/-- The database and the one process that works on it. A result is undelivered from its commit to its dispatch. -/
structure OutputSystem where
  durable : DurableOutput
  memory : QueryOutputState
  running : Bool
  undelivered : Option QueryResult
  committed : CommittedOutput

inductive OutputEvent where
  | start
  | bootstrap (sources : List BootstrapSource)
  | commit (session : OutputCommit)
  | dispatch (profiling : ProfilingMetadata)
  | crash (outboxCapacity : Nat)

namespace OutputSystem

def initial (outboxCapacity : Nat) : OutputSystem := ⟨.fresh, .new outboxCapacity, false, none, ⟨∅, []⟩⟩

variable (system : OutputSystem)

/-- Hydrate from the database, except in a process that holds the output already. An inconsistent copy refuses to start. -/
def start : OutputSystem :=
  if system.memory.initialized then { system with running := true }
  else match system.durable.restart system.memory.outboxCapacity with
    | .ok memory => { system with memory := memory, running := true }
    | .error _ => system

/-- The processor is at the point where it takes the next event. -/
def ready : Bool := system.running && system.undelivered.isNone

def untouched : Bool :=
  system.durable.resultSequence.isNone && system.durable.checkpoints.entries.isEmpty

def bootstrap (sources : List BootstrapSource) : OutputSystem :=
  let memory := system.memory.applyDiffs (sources.flatMap (·.events.flatten))
  { system with
    memory := memory
    durable := system.durable.persistBootstrapBoundary memory (sources.filterMap (·.position))
    committed := { system.committed with snapshot := memory.results } }

variable (queryId : String)

def commit (session : OutputCommit) : OutputSystem :=
  let (staged, durable) := system.durable.commit system.memory queryId session
  { system with
    durable := durable
    undelivered := staged
    committed := { system.committed with results := system.committed.results ++ staged.toList } }

def dispatch (profiling : ProfilingMetadata) : OutputSystem :=
  { system with memory := system.memory.dispatchQueryResults system.undelivered profiling, undelivered := none }

/-- The process dies; a new one begins with empty memory. -/
def crash (outboxCapacity : Nat) : OutputSystem :=
  { system with memory := .new outboxCapacity, running := false, undelivered := none }

/-- The processor task is cancelled; memory stays as the task left it. -/
def stop : OutputSystem := { system with running := false, undelivered := none }

variable (system : OutputSystem)

/-- The system after an event, or nothing if the event is not possible. Live events of a source are numbered from one. -/
def step : OutputEvent → Option OutputSystem
  | .start => if system.running then none else some system.start
  | .bootstrap sources =>
    if system.ready && system.untouched && sources.all (·.hasBoundary) then some (system.bootstrap sources) else none
  | .commit session =>
    if system.ready && session.checkpoint.all (0 < ·.sequence) then some (system.commit queryId session) else none
  | .dispatch profiling => if system.undelivered.isSome then some (system.dispatch profiling) else none
  | .crash outboxCapacity => some (system.crash outboxCapacity)

def run (events : List OutputEvent) : Option OutputSystem :=
  events.foldlM (step queryId) system

/-- The events within one machine, with stops that cancel the processor wherever it waits. -/
inductive LifecycleEvent where
  | output (event : OutputEvent)
  | stop

def lifecycleStep : LifecycleEvent → Option OutputSystem
  | .output event => system.step queryId event
  | .stop => some system.stop

def lifecycle (events : List LifecycleEvent) : Option OutputSystem :=
  events.foldlM (lifecycleStep queryId) system

end OutputSystem

end DrasiCore
