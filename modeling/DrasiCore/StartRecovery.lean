import DrasiCore.OutputLifecycle

/-! How a persistent query starts: what it reads off the configuration hash, the result sequence and the generation, and
the durable writes of a rebuild, any of which can be the last before a crash. -/

namespace DrasiCore

open Library

abbrev ConfigHash := BitVec 64

inductive RecoveryPolicy where
  | strict
  | autoReset
deriving DecidableEq

structure StartConfig where
  configHash : ConfigHash
  enableBootstrap : Bool
  recoveryPolicy : RecoveryPolicy
deriving DecidableEq

/-- What the stores report besides their contents: reads that fail, and output that cannot be decoded. -/
structure StoreReport where
  resultSequenceFails : Bool
  configHashFails : Bool
  outputReadFails : Bool
  outputCorrupt : Bool

def StoreReport.healthy : StoreReport := ⟨false, false, false, false⟩

/-- A query over its indexes: every change moves them and gives results. -/
structure QueryCore (Change Index : Type) where
  empty : Index
  process : Change → Index → Index × List ResultDiff

structure DurableStore (Index : Type) where
  output : DurableOutput
  index : Index
  configHash : Option ConfigHash

inductive DurableWrite where
  | configHash (hash : ConfigHash)
  | resultSequence (sequence : Nat)
  | outputGeneration (generation : Nat)
  | clearOutbox
  | clearLiveResults
  | clearPersistentIndexes
  /-- The configuration hash goes with the checkpoints. -/
  | clearCheckpoints
deriving DecidableEq

/-- A reset is marked by the complement of the hash it is for. -/
def outputResetInProgressHash (currentHash : ConfigHash) : ConfigHash := ~~~currentHash

/-- The writes of a rebuild. The marker stays if a bootstrap has still to commit its snapshot. -/
def rebuildWrites (currentHash : ConfigHash) (bootstrapPending : Bool) (generation : Nat) : List DurableWrite :=
  [.configHash (outputResetInProgressHash currentHash), .resultSequence 0, .outputGeneration generation, .clearOutbox,
    .clearLiveResults, .clearPersistentIndexes, .clearCheckpoints,
    .configHash (if bootstrapPending then outputResetInProgressHash currentHash else currentHash)]

def firstRunWrites (currentHash : ConfigHash) : List DurableWrite := [.clearPersistentIndexes, .configHash currentHash]

structure OutputGenerationPlan where
  persisted : Nat
  next : Nat

inductive StartDecision where
  | refuse
  | rebuild
  | firstRun
  | resume
deriving DecidableEq

variable {Change : Type} {Index : Type}

namespace DurableStore

def apply (core : QueryCore Change Index) (store : DurableStore Index) : DurableWrite → DurableStore Index
  | .configHash hash => { store with configHash := some hash }
  | .resultSequence sequence => { store with output := { store.output with resultSequence := some sequence } }
  | .outputGeneration generation => { store with output := { store.output with outputGeneration := some generation } }
  | .clearOutbox => { store with output := { store.output with outbox := .empty } }
  | .clearLiveResults => { store with output := { store.output with liveRows := ∅ } }
  | .clearPersistentIndexes => { store with index := core.empty }
  | .clearCheckpoints => { store with output := { store.output with checkpoints := ∅ }, configHash := none }

variable (store : DurableStore Index)

def planOutputGeneration (state : QueryOutputState) : OutputGenerationPlan :=
  let persisted := store.output.outputGeneration.getD 0
  ⟨persisted, QueryOutputState.nextOutputGeneration persisted state.generation⟩

def durableOutputIsDirty : Bool :=
  0 < store.output.resultSequence.getD 0 || 0 < store.output.outputGeneration.getD 0 ||
    store.output.readLatestSequence.isSome || !store.output.liveRows.entries.isEmpty

/-- An unfinished bootstrap, as a start with bootstrap enabled sees it. -/
def bootstrapProblem (config : StartConfig) : Bool :=
  config.enableBootstrap && store.configHash.any fun hash =>
    hash = config.configHash && store.output.resultSequence.isNone || hash = outputResetInProgressHash config.configHash

def startDecision (config : StartConfig) (report : StoreReport) : StartDecision :=
  if report.resultSequenceFails || config.enableBootstrap && report.configHashFails then .refuse
  else if !report.configHashFails && store.bootstrapProblem config then
    match config.recoveryPolicy with
    | .strict => .refuse
    | .autoReset => .rebuild
  else if report.configHashFails then .rebuild
  else match store.configHash with
    -- A marker and the hash of another configuration both end in a rebuild.
    | some stored => if stored = config.configHash then .resume else .rebuild
    | none => if store.durableOutputIsDirty then .rebuild else .firstRun

end DurableStore

/-- What was committed since the indexes were last cleared. No program state: the store is compared with it. -/
inductive LogEntry (Change : Type) where
  | bootstrap (sourceId : String) (change : Change)
  | handover (positions : List (String × ByteString))
  | session (sourceId : String) (checkpoint : Option SourceCheckpoint) (change : Change) (timestamp : Nat)
      (profiling : ProfilingMetadata)

namespace LogEntry

def isBootstrap : LogEntry Change → Bool
  | .bootstrap .. => true
  | _ => false

def isHandover : LogEntry Change → Bool
  | .handover .. => true
  | _ => false

end LogEntry

/-- The contents that belong to a log: all stores after exactly its entries. -/
structure GenerationContents (Index : Type) where
  committed : CommittedOutput
  index : Index
  checkpoints : AList fun _ : String => SourceCheckpoint

namespace GenerationContents

variable (core : QueryCore Change Index)

def record (queryId : String) (contents : GenerationContents Index) :
    LogEntry Change → GenerationContents Index
  | .bootstrap _ change =>
    let (index, diffs) := core.process change contents.index
    { contents with
      index := index
      committed := { contents.committed with snapshot := contents.committed.snapshot.applyDiffs diffs } }
  | .handover positions => { contents with checkpoints := DurableOutput.handover contents.checkpoints positions }
  | .session sourceId checkpoint change timestamp profiling =>
    let (index, diffs) := core.process change contents.index
    let results := contents.committed.results
    let result : QueryResult :=
      ⟨queryId, results.length + 1, timestamp, diffs, QueryResult.resultMetadata sourceId diffs.length, profiling⟩
    { index := index
      committed := { contents.committed with results := if diffs.isEmpty then results else results ++ [result] }
      checkpoints := checkpoint.elim contents.checkpoints fun checkpoint => contents.checkpoints.insert sourceId
        { checkpoint with sourcePosition := checkpoint.sourcePosition.filter (·.length ≤ maxSourcePositionBytes) } }

def ofLog (queryId : String) (log : List (LogEntry Change)) : GenerationContents Index :=
  log.foldl (record core queryId) ⟨⟨∅, []⟩, core.empty, ∅⟩

end GenerationContents

/-- Where a query is between its start and its stop. A rebuild remembers the generations there were before it. -/
inductive QueryPhase where
  | stopped
  | rebuilding (config : StartConfig) (plan : OutputGenerationPlan) (remaining : List DurableWrite) (earlier : List Nat)
  | firstRun (config : StartConfig) (remaining : List DurableWrite)
  | subscribing (config : StartConfig) (bootstrapPending : Bool) (rebuilt : Option (List Nat))
  | bootstrapping (config : StartConfig)
  | handingOver (config : StartConfig)
  | running

/-- The database, the process, and the record of commits and of generations persisted or published. -/
structure RecoverySystem (Change Index : Type) where
  store : DurableStore Index
  memory : QueryOutputState
  phase : QueryPhase
  undelivered : Option QueryResult
  log : List (LogEntry Change)
  generations : List Nat

inductive RecoveryEvent (Change : Type) where
  | start (config : StartConfig) (report : StoreReport)
  /-- The next durable write of the start. -/
  | write
  /-- A source cannot resume from the position it is given. -/
  | sourceGap
  | subscribed (bootstrapChannels : Bool)
  | bootstrapChange (sourceId : String) (change : Change)
  | handover (positions : List (String × ByteString))
  | completeBootstrap
  | session (sourceId : String) (checkpoint : Option SourceCheckpoint) (change : Change) (timestamp : Nat)
      (profiling : ProfilingMetadata)
  | dispatch (profiling : ProfilingMetadata)
  | stop
  | crash (outboxCapacity : Nat)

namespace RecoverySystem

variable (core : QueryCore Change Index)

def initial (outboxCapacity : Nat) : RecoverySystem Change Index :=
  ⟨⟨.fresh, core.empty, none⟩, .new outboxCapacity, .stopped, none, [], []⟩

variable (system : RecoverySystem Change Index) (config : StartConfig)

def beginRebuild : RecoverySystem Change Index :=
  let plan := system.store.planOutputGeneration system.memory
  { system with
    phase := .rebuilding config plan (rebuildWrites config.configHash config.enableBootstrap plan.next) system.generations }

/-- An inconsistency refuses to start under the strict policy and rebuilds otherwise. -/
def inconsistent : RecoverySystem Change Index :=
  match config.recoveryPolicy with
  | .strict => { system with phase := .stopped }
  | .autoReset => system.beginRebuild config

def resume (report : StoreReport) : RecoverySystem Change Index :=
  if system.memory.initialized then { system with phase := .subscribing config false none }
  else if report.outputReadFails then system
  else if report.outputCorrupt then system.inconsistent config
  else match system.store.output.restart system.memory.outboxCapacity with
    | .ok memory => { system with memory := memory, phase := .subscribing config false none }
    | .error _ => system.inconsistent config

def start (report : StoreReport) : RecoverySystem Change Index :=
  match system.store.startDecision config report with
  | .refuse => system
  | .rebuild => system.beginRebuild config
  | .firstRun => { system with phase := .firstRun config (firstRunWrites config.configHash) }
  | .resume => system.resume config report

/-- One durable write with what the process does beside it: memory is reset once the rows are gone. -/
def perform (persisted : Nat) (write : DurableWrite) : RecoverySystem Change Index :=
  { system with
    store := system.store.apply core write
    memory := if write = .clearLiveResults then system.memory.resetFromGeneration persisted else system.memory
    log := if write = .clearPersistentIndexes then [] else system.log
    generations := match write with
      | .outputGeneration generation => system.generations ++ [generation]
      | _ => system.generations }

def writeNext : Option (RecoverySystem Change Index) :=
  match system.phase with
  | .rebuilding config plan (write :: remaining) earlier =>
    let written := system.perform core plan.persisted write
    some (if remaining.isEmpty then { written with phase := .subscribing config config.enableBootstrap (some earlier) }
      else { written with phase := .rebuilding config plan remaining earlier })
  | .firstRun config (write :: remaining) =>
    let written := system.perform core 0 write
    some (if remaining.isEmpty then
        { written with
          phase := .subscribing config config.enableBootstrap none, memory := written.memory.markInitialized }
      else { written with phase := .firstRun config remaining })
  | _ => none

/-- The source of every bootstrapped change has a position of valid size. -/
def hasBoundary (log : List (LogEntry Change)) (positions : List (String × ByteString)) : Bool :=
  positions.all (·.2.length ≤ maxSourcePositionBytes) && log.all fun
    | .bootstrap sourceId _ => positions.any (·.1 = sourceId)
    | _ => true

def bootstrapChange (sourceId : String) (change : Change) : RecoverySystem Change Index :=
  let (index, diffs) := core.process change system.store.index
  { system with
    store := { system.store with index := index }
    memory := system.memory.applyDiffs diffs
    log := system.log ++ [.bootstrap sourceId change] }

def session (queryId : String) (system : RecoverySystem Change Index) (sourceId : String)
    (checkpoint : Option SourceCheckpoint) (change : Change) (timestamp : Nat) (profiling : ProfilingMetadata) :
    RecoverySystem Change Index :=
  let (index, diffs) := core.process change system.store.index
  let (staged, output) := system.store.output.commit system.memory queryId ⟨sourceId, checkpoint, diffs, timestamp, profiling⟩
  { system with
    store := { system.store with index := index, output := output }
    undelivered := staged
    log := system.log ++ [.session sourceId checkpoint change timestamp profiling] }

def isRunning : Bool := match system.phase with
  | .running => true
  | _ => false

/-- The system after an event, or nothing if the event is not possible. -/
def step (queryId : String) (system : RecoverySystem Change Index) :
    RecoveryEvent Change → Option (RecoverySystem Change Index)
  | .start config report => match system.phase with
    | .stopped => some (system.start config report)
    | _ => none
  | .write => system.writeNext core
  | .sourceGap => match system.phase with
    | .subscribing config .. => some (system.inconsistent config)
    | _ => none
  | .subscribed bootstrapChannels => match system.phase with
    | .subscribing config bootstrapPending _ =>
      some { system with
        phase := if bootstrapPending && bootstrapChannels then .bootstrapping config else .running
        generations := system.generations ++ [system.memory.generation] }
    | _ => none
  | .bootstrapChange sourceId change => match system.phase with
    | .bootstrapping _ => some (system.bootstrapChange core sourceId change)
    | _ => none
  | .handover positions => match system.phase with
    | .bootstrapping config =>
      if hasBoundary system.log positions then
        some { system with
          store := { system.store with output := system.store.output.persistBootstrapBoundary system.memory positions }
          log := system.log ++ [.handover positions]
          phase := .handingOver config }
      else none
    | _ => none
  | .completeBootstrap => match system.phase with
    | .handingOver config =>
      some { system with store := system.store.apply core (.configHash config.configHash), phase := .running }
    | _ => none
  | .session sourceId checkpoint change timestamp profiling =>
    if system.isRunning && system.undelivered.isNone && checkpoint.all (0 < ·.sequence) then
      some (system.session core queryId sourceId checkpoint change timestamp profiling)
    else none
  | .dispatch profiling =>
    if system.undelivered.isSome then
      some { system with
        memory := system.memory.dispatchQueryResults system.undelivered profiling, undelivered := none }
    else none
  | .stop => if system.undelivered.isNone then some { system with phase := .stopped } else none
  | .crash outboxCapacity =>
    some { system with memory := .new outboxCapacity, phase := .stopped, undelivered := none }

def run (queryId : String) (system : RecoverySystem Change Index) (events : List (RecoveryEvent Change)) :
    Option (RecoverySystem Change Index) :=
  events.foldlM (step core queryId) system

end RecoverySystem

end DrasiCore
