import DrasiCore.OutputLifecycle
import DrasiCore.RocksDbElementIndex
import DrasiCore.RocksDbFutureQueue

/-! The stores of a query in one RocksDB database: what each of their operations does and which way it takes to the
database. The processing of a change or of a due future runs them under a session, with the hook that stages its output. -/

namespace DrasiCore

open Library

/-- Accumulators, counted values and the last sequence. Counts are merged into their entries; those of zero stay. -/
structure RocksDbResultIndex where
  values : ResultOwner → ResultKey → Option ValueAccumulator
  sets : SortedSetId → OrderedMap Rat Int
  sequence : Nat × String

/-- The state of the streams: positions of sources, result sequences, output generations and the configuration hash. -/
structure RocksDbCheckpointStore where
  checkpoints : AList fun _ : String => SourceCheckpoint
  resultSequences : AList fun _ : String => Nat
  outputGenerations : AList fun _ : String => Nat
  configHash : Option Nat

def DatabaseStores : StoreFamily → Type
  | .elementIndex => RocksDbElementIndex
  | .resultIndex => RocksDbResultIndex
  | .futureQueue => RocksDbFutureQueue
  | .checkpoint => RocksDbCheckpointStore
  | .outbox => String → OrderedMap Nat QueryResult
  | .liveResults => String → LiveRows

/-- The operations on the stores. An order is that in which hash maps or digests happen to be visited. -/
inductive StoreOperation where
  | setElement (order : IterationOrder) (fuel : Nat) (element : Element) (slots : List Nat)
  | deleteElement (order : IterationOrder) (fuel : Nat) (elementRef : ElementReference)
  | getElement (elementRef : ElementReference)
  | getSlotElementByRef (slot : Nat) (elementRef : ElementReference)
  | getSlotElementsByInbound (slot : Nat) (inboundRef : ElementReference)
  | getSlotElementsByOutbound (slot : Nat) (outboundRef : ElementReference)
  | get (key : ResultKey) (owner : ResultOwner)
  | set (key : ResultKey) (owner : ResultOwner) (value : Option ValueAccumulator)
  | getNext (setId : SortedSetId) (after : Option Rat)
  | getValueCount (setId : SortedSetId) (value : Rat)
  | incrementValueCount (setId : SortedSetId) (value : Rat) (delta : Int)
  | applySequence (sequence : Nat) (sourceChangeId : String)
  | getSequence
  | push (pushType : PushType) (positionInQuery : Nat) (groupSignature : Signature) (elementRef : ElementReference)
    (originalTime dueTime : ElementTimestamp)
  | remove (positionInQuery : Nat) (groupSignature : Signature)
  | pop (order : IterationOrder)
  | stageCheckpoint (sourceId : String) (checkpoint : SourceCheckpoint)
  | stageResultSequence (queryId : String) (sequence : Nat)
  | append (queryId : String) (sequence : Nat) (data : QueryResult)
  | trimBefore (queryId : String) (retainFrom : Nat)
  | applyMutations (queryId : String) (mutations : List LiveRows.RowMutation)
  | clear (family : StoreFamily) (queryId : String)
  | writeResultSequence (queryId : String) (sequence : Nat)
  | writeOutputGeneration (queryId : String) (generation : Nat)
  | writeConfigHash (hash : Nat)

namespace StoreOperation

def family : StoreOperation → StoreFamily
  | setElement .. | deleteElement .. | getElement .. | getSlotElementByRef .. | getSlotElementsByInbound ..
  | getSlotElementsByOutbound .. => .elementIndex
  | get .. | set .. | getNext .. | getValueCount .. | incrementValueCount .. | applySequence .. | getSequence => .resultIndex
  | push .. | remove .. | pop .. => .futureQueue
  | stageCheckpoint .. | stageResultSequence .. | writeResultSequence .. | writeOutputGeneration .. | writeConfigHash .. =>
    .checkpoint
  | append .. | trimBefore .. => .outbox
  | applyMutations .. => .liveResults
  | clear family _ => family

def Answer : StoreOperation → Type
  | getElement .. | getSlotElementByRef .. => Option Element
  | getSlotElementsByInbound .. | getSlotElementsByOutbound .. => List Element
  | get .. => Option ValueAccumulator
  | getNext .. => Option (Rat × Int)
  | getValueCount .. => Int
  | getSequence => Nat × String
  | push .. => Bool
  | pop .. => Option FutureElementRef
  | trimBefore .. => Nat
  | _ => Unit

/-- These write to the database itself, whether or not a session is open. -/
def direct : StoreOperation → Bool
  | clear .. | writeResultSequence .. | writeOutputGeneration .. | writeConfigHash .. => true
  | _ => false

/-- What middleware, solving and evaluation call: the three indexes, without clearing them. -/
def indexes (operation : StoreOperation) : Bool :=
  !operation.direct && [StoreFamily.elementIndex, .resultIndex, .futureQueue].contains operation.family

end StoreOperation

namespace RocksDbElementIndex

/-- The index as a transaction shows it, in front of the committed elements. -/
def behind (session committed : RocksDbElementIndex) : RocksDbElementIndex := { session with committed := committed.elements }

/-- The outcome of a call that leaves the index so, or finds it corrupted. -/
def written (result : Option RocksDbElementIndex) : CallOutcome RocksDbElementIndex Unit IndexError :=
  match result with
  | some after => .returns (.ok ()) [fun _ => after]
  | none => .returns (.error .corruptedData) []

def collected (result : List Element × RocksDbElementIndex) : CallOutcome RocksDbElementIndex (List Element) IndexError :=
  .returns (.ok result.1) [fun _ => result.2]

end RocksDbElementIndex

namespace RocksDbResultIndex

variable (index : RocksDbResultIndex)

def set (key : ResultKey) (owner : ResultOwner) (value : Option ValueAccumulator) : RocksDbResultIndex :=
  { index with
    values := fun other otherKey => if other = owner ∧ otherKey = key then value else index.values other otherKey }

def getNext (setId : SortedSetId) (after : Option Rat) : Option (Rat × Int) :=
  (index.sets setId).entries.find? fun entry => after.all (· < entry.1) && entry.2 ≠ 0

def getValueCount (setId : SortedSetId) (value : Rat) : Int := ((index.sets setId).get? value).getD 0

def incrementValueCount (setId : SortedSetId) (value : Rat) (delta : Int) : RocksDbResultIndex :=
  { index with
    sets := Function.update index.sets setId
      ((index.sets setId).insert value (index.getValueCount setId value + delta)) }

end RocksDbResultIndex

/-- The entries from the first one to retain on. -/
def trimOutbox (outbox : OrderedMap Nat QueryResult) (retainFrom : Nat) : OrderedMap Nat QueryResult :=
  ⟨outbox.entries.dropWhile fun entry => entry.1 < retainFrom, outbox.sorted.sublist (List.dropWhile_sublist _)⟩

namespace StoreOperation

/-- Empty a store: of the result index the sequence stays, of the stream state the sequences and generations. -/
def cleared (queryId : String) : (family : StoreFamily) → DatabaseStores family → DatabaseStores family
  | .elementIndex => fun index : RocksDbElementIndex =>
    { index with
      elements := fun _ => none, slots := fun _ => none, inbound := fun _ => [], outbound := fun _ => []
      partialJoins := fun _ => [] }
  | .resultIndex => fun index : RocksDbResultIndex => { index with values := fun _ _ => none, sets := fun _ => .empty }
  | .futureQueue => fun _ => RocksDbFutureQueue.empty
  | .checkpoint => fun store : RocksDbCheckpointStore => { store with checkpoints := ∅, configHash := none }
  | .outbox => fun outbox : String → OrderedMap Nat QueryResult => Function.update outbox queryId .empty
  | .liveResults => fun rows : String → LiveRows => Function.update rows queryId ∅

open RocksDbElementIndex RocksDbFutureQueue in
/-- What an operation answers and writes, by the contents it sees and the committed ones behind them. -/
def call : (operation : StoreOperation) → StoreCall DatabaseStores operation.Answer IndexError operation.family
  | setElement order fuel element slots => fun committed session =>
    written ((behind (session .elementIndex) (committed .elementIndex)).setElement order fuel element slots)
  | deleteElement order fuel elementRef => fun committed session =>
    written ((behind (session .elementIndex) (committed .elementIndex)).deleteElement order fuel
      (hashElementRef elementRef))
  | getElement elementRef => fun _ session =>
    .returns (.ok (RocksDbElementIndex.getElement (session .elementIndex) elementRef)) []
  | getSlotElementByRef slot elementRef => fun _ session =>
    .returns (.ok (RocksDbElementIndex.getSlotElementByRef (session .elementIndex) slot elementRef)) []
  | getSlotElementsByInbound slot inboundRef => fun _ session =>
    collected (RocksDbElementIndex.getSlotElementsByInbound (session .elementIndex) slot inboundRef)
  | getSlotElementsByOutbound slot outboundRef => fun _ session =>
    collected (RocksDbElementIndex.getSlotElementsByOutbound (session .elementIndex) slot outboundRef)
  | get key owner => fun _ session => .returns (.ok (RocksDbResultIndex.values (session .resultIndex) owner key)) []
  | set key owner value => fun _ _ => .returns (.ok ()) [fun index => RocksDbResultIndex.set index key owner value]
  | getNext setId after => fun _ session => .returns (.ok (RocksDbResultIndex.getNext (session .resultIndex) setId after)) []
  | getValueCount setId value => fun _ session =>
    .returns (.ok (RocksDbResultIndex.getValueCount (session .resultIndex) setId value)) []
  | incrementValueCount setId value delta => fun _ _ =>
    .returns (.ok ()) [fun index => RocksDbResultIndex.incrementValueCount index setId value delta]
  | applySequence sequence sourceChangeId => fun _ _ =>
    .returns (.ok ()) [fun index : RocksDbResultIndex => { index with sequence := (sequence, sourceChangeId) }]
  | getSequence => fun _ session => .returns (.ok (RocksDbResultIndex.sequence (session .resultIndex))) []
  | push pushType positionInQuery groupSignature elementRef originalTime dueTime => fun _ session =>
    pushOutcome (session .futureQueue) pushType positionInQuery groupSignature elementRef originalTime dueTime
  | remove positionInQuery groupSignature => fun _ _ => removeOutcome positionInQuery groupSignature
  | pop order => fun _ session => popOutcome (session .futureQueue) order
  | stageCheckpoint sourceId checkpoint => fun _ _ =>
    .returns (.ok ()) [fun store : RocksDbCheckpointStore =>
      { store with checkpoints := store.checkpoints.insert sourceId checkpoint }]
  | stageResultSequence queryId sequence | writeResultSequence queryId sequence => fun _ _ =>
    .returns (.ok ()) [fun store : RocksDbCheckpointStore =>
      { store with resultSequences := store.resultSequences.insert queryId sequence }]
  | append queryId sequence data => fun _ _ =>
    .returns (.ok ()) [fun outbox : String → OrderedMap Nat QueryResult =>
      Function.update outbox queryId ((outbox queryId).insert sequence data)]
  | trimBefore queryId retainFrom => fun _ session =>
    let outbox : String → OrderedMap Nat QueryResult := session .outbox
    .returns (.ok ((outbox queryId).entries.length - (trimOutbox (outbox queryId) retainFrom).entries.length))
      [fun outbox : String → OrderedMap Nat QueryResult =>
        Function.update outbox queryId (trimOutbox (outbox queryId) retainFrom)]
  | applyMutations queryId mutations => fun _ _ =>
    .returns (.ok ()) [fun rows : String → LiveRows =>
      Function.update rows queryId ((rows queryId).applyMutations mutations)]
  | clear family queryId => fun _ _ => .returns (.ok ()) [cleared queryId family]
  | writeOutputGeneration queryId generation => fun _ _ =>
    .returns (.ok ()) [fun store : RocksDbCheckpointStore =>
      { store with outputGenerations := store.outputGenerations.insert queryId generation }]
  | writeConfigHash hash => fun _ _ =>
    .returns (.ok ()) [fun store : RocksDbCheckpointStore => { store with configHash := some hash }]

end StoreOperation

/-- What the database does to a call: nothing, or it fails or panics midway, with some of the writes made. -/
inductive CallFault (State : Type) where
  | none
  | fails (error : IndexError) (partway : State → State)
  | panics (partway : State → State)

namespace CallFault

variable {State Answer : Type}

def outcome (fault : CallFault State) (regular : CallOutcome State Answer IndexError) : CallOutcome State Answer IndexError :=
  match fault with
  | none => regular
  | fails error partway => .returns (.error error) [partway]
  | panics partway => .panics [partway]

end CallFault

namespace StoreOperation

variable (operation : StoreOperation) (fault : CallFault (DatabaseStores operation.family))

def faultyCall : StoreCall DatabaseStores operation.Answer IndexError operation.family := fun committed session =>
  fault.outcome (operation.call committed session)

/-- The operation by the way it takes to the database. -/
def perform (state : SessionState DatabaseStores) :
    Except IndexError operation.Answer × SessionState DatabaseStores :=
  if operation.direct then state.onDatabase id operation.family (operation.faultyCall fault)
  else state.withTxn id operation.family (operation.faultyCall fault)

end StoreOperation

/-- A run of the code over the stores. What it does next may depend on the answer of an operation, errors included. -/
inductive StoreProgram (ε α : Type) where
  | done (result : Except ε α)
  | call (operation : StoreOperation) (fault : CallFault (DatabaseStores operation.family))
      (next : Except IndexError operation.Answer → StoreProgram ε α)

namespace StoreProgram

variable {ε α β : Type}

/-- Continue with the value; an error ends the run. -/
def bind : StoreProgram ε α → (α → StoreProgram ε β) → StoreProgram ε β
  | .done (.ok value), rest => rest value
  | .done (.error error), _ => .done (.error error)
  | .call operation fault next, rest => .call operation fault fun answer => (next answer).bind rest

instance : Monad (StoreProgram ε) where
  pure value := .done (.ok value)
  bind := bind

def mapError {δ : Type} (convert : ε → δ) : StoreProgram ε α → StoreProgram δ α
  | .done result => .done (result.mapError convert)
  | .call operation fault next => .call operation fault fun answer => (next answer).mapError convert

def perform (operation : StoreOperation) (fault : CallFault (DatabaseStores operation.family)) :
    StoreProgram IndexError operation.Answer := .call operation fault .done

def run : StoreProgram ε α → SessionState DatabaseStores → Except ε α × SessionState DatabaseStores
  | .done result, state => (result, state)
  | .call operation fault next, state =>
    let (answer, after) := operation.perform fault state
    (next answer).run after

def visited : StoreProgram ε α → SessionState DatabaseStores → List (SessionState DatabaseStores)
  | .done _, state => [state]
  | .call operation fault next, state =>
    let (answer, after) := operation.perform fault state
    state :: (next answer).visited after

/-- Run under a session guard: unless its commit succeeds, dropping it rolls back, and an error of that is only logged. -/
def guarded (fromIndex : IndexError → ε) (program : StoreProgram ε α) (faults : SessionFaults)
    (state : SessionState DatabaseStores) : Except ε α × SessionState DatabaseStores :=
  if faults.beginCancelled then (.error (fromIndex .join), state)
  else match state.begin with
    | (.error error, state) => (.error (fromIndex error), state)
    | (.ok (), begun) => match program.run begun with
      | (.error error, failed) => (.error error, failed.rollback.2)
      | (.ok value, finished) => match finished.commit faults.commitOutcome with
        | (.ok (), committed) => (.ok value, committed)
        | (.error error, failed) => (.error (fromIndex error), failed.rollback.2)

end StoreProgram

/-- What the hook of a query knows: the output in memory, the time and the profiling so far. -/
structure OutputStage where
  queryId : String
  outputState : QueryOutputState
  now : Nat
  profiling : ProfilingMetadata

/-- What becomes of the operations of a hook, of its serialisations and of the slot it leaves its result in. -/
structure HookFaults where
  checkpoint : CallFault (DatabaseStores .checkpoint)
  entrySerialised : Except IndexError Unit
  append : CallFault (DatabaseStores .outbox)
  trim : CallFault (DatabaseStores .outbox)
  rowsSerialised : Except IndexError Unit
  mutations : CallFault (DatabaseStores .liveResults)
  sequence : CallFault (DatabaseStores .checkpoint)
  recorded : Except IndexError Unit

namespace OutputStage

variable (stage : OutputStage) (faults : HookFaults)

def nextSeq : Nat := min (stage.outputState.asOfSequence + 1) QueryOutputState.maxSequence

def queryResult (diffs : List ResultDiff) (sourceId : String) : QueryResult :=
  ⟨stage.queryId, stage.nextSeq, stage.now, diffs, QueryResult.resultMetadata sourceId diffs.length, stage.profiling⟩

def retainFrom : Nat := min (stage.nextSeq - stage.outputState.outboxCapacity + 1) QueryOutputState.maxSequence

/-- All writers are there, as a database provides them. -/
def stageDurableQueryOutput (diffs : List ResultDiff) (sourceId : String) :
    StoreProgram IndexError (Option QueryResult) :=
  if diffs.isEmpty then return none
  else do
    let queryResult := stage.queryResult diffs sourceId
    let mutations := LiveRows.rowMutations diffs
    .done faults.entrySerialised
    let _ ← .perform (.append stage.queryId stage.nextSeq queryResult) faults.append
    let _ ← .perform (.trimBefore stage.queryId stage.retainFrom) faults.trim
    .done faults.rowsSerialised
    if !mutations.isEmpty then
      let _ ← .perform (.applyMutations stage.queryId mutations) faults.mutations
    let _ ← .perform (.stageResultSequence stage.queryId stage.nextSeq) faults.sequence
    return some queryResult

def futureHook (diffs : List ResultDiff) (sourceId : String) : StoreProgram IndexError Unit := do
  let _ ← stage.stageDurableQueryOutput faults diffs sourceId
  .done faults.recorded

/-- Before the output the position of the source is staged. One that is too large is left out. -/
def changeHook (sourceId : String) (checkpoint : SourceCheckpoint) (diffs : List ResultDiff) :
    StoreProgram IndexError Unit := do
  let sourcePosition := checkpoint.sourcePosition.filter (·.length ≤ maxSourcePositionBytes)
  let _ ← .perform (.stageCheckpoint sourceId { checkpoint with sourcePosition }) faults.checkpoint
  stage.futureHook faults diffs sourceId

end OutputStage

/-- The steps of a query over the stores, each of which may fail: middleware, and solving with evaluation. -/
structure QuerySteps (ε : Type) where
  executeSourceMiddleware : SourceChange → StoreProgram ε (List SourceChange)
  processChangesInner : List SourceChange → StoreProgram ε (List QueryPartEvaluationContext)
  fromIndex : IndexError → ε

namespace QuerySteps

variable {ε : Type} (steps : QuerySteps ε)

def solve (change : SourceChange) : StoreProgram ε (List QueryPartEvaluationContext) := do
  let changes ← steps.executeSourceMiddleware change
  steps.processChangesInner changes

def changeBody (change : SourceChange) (preCommitHook : List ResultDiff → StoreProgram IndexError Unit) :
    StoreProgram ε (List QueryPartEvaluationContext) := do
  let results ← steps.solve change
  (preCommitHook (evaluationContextsToDiffs results)).mapError steps.fromIndex
  return results

/-- The body of a due future: it is taken from the queue inside the session. -/
def futureBody (order : IterationOrder) (fault : CallFault (DatabaseStores .futureQueue))
    (preCommitHook : List ResultDiff → String → StoreProgram IndexError Unit) :
    StoreProgram ε (Option (List QueryPartEvaluationContext × String)) := do
  let popped : Option FutureElementRef ← (StoreProgram.perform (.pop order) fault).mapError steps.fromIndex
  match popped with
  | none => return none
  | some futureRef =>
    let sourceId := futureRef.elementRef.sourceId
    let results ← steps.changeBody (.future futureRef) (preCommitHook · sourceId)
    return some (results, sourceId)

def processSourceChangeWithHook (change : SourceChange)
    (preCommitHook : List ResultDiff → StoreProgram IndexError Unit) (faults : SessionFaults)
    (state : SessionState DatabaseStores) :
    Except ε (List QueryPartEvaluationContext) × SessionState DatabaseStores :=
  (steps.changeBody change preCommitHook).guarded steps.fromIndex faults state

def processDueFuturesWithHook (order : IterationOrder) (fault : CallFault (DatabaseStores .futureQueue))
    (preCommitHook : List ResultDiff → String → StoreProgram IndexError Unit) (faults : SessionFaults)
    (state : SessionState DatabaseStores) :
    Except ε (Option (List QueryPartEvaluationContext × String)) × SessionState DatabaseStores :=
  (steps.futureBody order fault preCommitHook).guarded steps.fromIndex faults state

end QuerySteps

end DrasiCore
