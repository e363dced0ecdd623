import DrasiCore.OutputState
import DrasiCore.Library.ByteKeys
import Mathlib.Data.List.Destutter

/-! The output of a persistent query. It lives twice: in memory, where it serves reactions, and in the database, where
every commit stages it together with the indexes. A start in a new process loads the copy. -/

namespace DrasiCore

open Library

abbrev LiveRows := AList fun _ : Signature => QueryVariables

namespace LiveRows

variable (rows : LiveRows)

def applyDiff : ResultDiff → LiveRows
  | .add data rowSignature => rows.insert rowSignature data
  | .delete _ rowSignature => rows.erase rowSignature
  | .update _ after rowSignature => rows.insert rowSignature after
  | .aggregation _ after rowSignature => rows.insert rowSignature after
  | .noop => rows

def applyDiffs (diffs : List ResultDiff) : LiveRows := diffs.foldl applyDiff rows

structure RowMutation where
  rowSignature : Signature
  data : Option QueryVariables

def rowMutations (diffs : List ResultDiff) : List RowMutation :=
  diffs.filterMap fun
    | .add data rowSignature => some ⟨rowSignature, some data⟩
    | .update _ after rowSignature => some ⟨rowSignature, some after⟩
    | .aggregation _ after rowSignature => some ⟨rowSignature, some after⟩
    | .delete _ rowSignature => some ⟨rowSignature, none⟩
    | .noop => none

def applyMutations (mutations : List RowMutation) : LiveRows :=
  mutations.foldl (fun rows mutation => match mutation.data with
    | some data => rows.insert mutation.rowSignature data
    | none => rows.erase mutation.rowSignature) rows

def readSnapshot : LiveRows := rows.entries.foldl (fun results row => results.insert row.1 row.2) ∅

def view : LiveResults := fun rowSignature => rows.lookup rowSignature

end LiveRows

inductive ProfilingStamp where
  | source | reactivatorStart | reactivatorEnd | sourceReceive | sourceSend | queryReceive | queryCoreCall | queryCoreReturn
  | querySend | reactionReceive | reactionComplete
deriving DecidableEq

/-- Times in nanoseconds at which a change passed the stages of its way. -/
abbrev ProfilingMetadata := ProfilingStamp → Option Nat

inductive MetadataValue where
  | string (value : String)
  | number (value : Nat)
deriving DecidableEq

structure QueryResult where
  queryId : String
  sequence : Nat
  timestamp : Nat
  results : List ResultDiff
  metadata : List (String × MetadataValue)
  profiling : ProfilingMetadata

namespace QueryResult

def resultMetadata (sourceId : String) (resultCount : Nat) : List (String × MetadataValue) :=
  [("source_id", .string sourceId), ("processed_by", .string "drasi-core"), ("result_count", .number resultCount)]

/-- Stamps taken after the commit join those that were staged; only the return from the core and the sending replace one. -/
def overlayPostCommitProfiling (result : QueryResult) (profiling : ProfilingMetadata) : QueryResult :=
  { result with
    profiling := fun stamp => match stamp with
      | .queryCoreReturn | .querySend => (profiling stamp).or (result.profiling stamp)
      | .reactionReceive | .reactionComplete => result.profiling stamp
      | _ => (result.profiling stamp).or (profiling stamp) }

/-- The result without the times, which differ between the staged and the dispatched copy. -/
def withoutProfiling (result : QueryResult) : QueryResult := { result with profiling := fun _ => none }

end QueryResult

/-- One more result: numbered in memory, or under the sequence it was committed with. -/
inductive OutputCall where
  | advance (result : QueryResult)
  | committed (diffs : List ResultDiff) (result : QueryResult)

/-- The output state in memory: the live rows, the sequence they reflect and the recent results. -/
structure QueryOutputState where
  results : LiveRows
  asOfSequence : Nat
  outbox : List QueryResult
  outboxCapacity : Nat
  initialized : Bool
  generation : Nat

namespace QueryOutputState

def maxOutboxCapacity : Nat := 1000000

def new (outboxCapacity : Nat) : QueryOutputState :=
  ⟨∅, 0, [], max 1 (min outboxCapacity maxOutboxCapacity), false, 0⟩

variable (state : QueryOutputState)

def applyDiffs (diffs : List ResultDiff) : QueryOutputState :=
  { state with results := state.results.applyDiffs diffs }

def pushOutbox (result : QueryResult) : QueryOutputState :=
  { state with
    outbox := (if state.outboxCapacity ≤ state.outbox.length then state.outbox.tail else state.outbox) ++ [result] }

def maxSequence : Nat := 2 ^ 64 - 1

def advanceSequenceAndPush (result : QueryResult) : QueryOutputState × QueryResult :=
  let sequence := min (state.asOfSequence + 1) maxSequence
  let numbered := { result with sequence := sequence }
  (({ state with asOfSequence := sequence }).pushOutbox numbered, numbered)

/-- Apply a result under the sequence that was staged for it. -/
def applyCommittedSequence (sequence : Nat) (diffs : List ResultDiff) (result : QueryResult) : QueryOutputState :=
  ({ state.applyDiffs diffs with asOfSequence := sequence }).pushOutbox { result with sequence := sequence }

/-- Apply a committed result in memory, with the times of its dispatch. Where nothing was staged there is no result. -/
def dispatchQueryResults (stagedResult : Option QueryResult) (profiling : ProfilingMetadata) : QueryOutputState :=
  match stagedResult with
  | some staged =>
    let queryResult := staged.overlayPostCommitProfiling profiling
    state.applyCommittedSequence queryResult.sequence staged.results queryResult
  | none => state

def hydrate (results : LiveRows) (outbox : List QueryResult) (asOfSequence generation : Nat) : QueryOutputState :=
  let sorted := outbox.insertionSort fun one two => one.sequence ≤ two.sequence
  { state with
    results := results
    outbox := if state.outboxCapacity < sorted.length then sorted.drop (sorted.length - state.outboxCapacity) else sorted
    asOfSequence := max state.asOfSequence asOfSequence
    generation := generation
    initialized := true }

def perform : OutputCall → QueryOutputState × QueryResult
  | .advance result => state.advanceSequenceAndPush result
  | .committed diffs result =>
    let sequence := state.asOfSequence + 1
    (state.applyCommittedSequence sequence diffs result, { result with sequence := sequence })

/-- The position after which a reader asked is gone from the outbox. The configuration hash is filled in by the query. -/
structure OutboxGap where
  requested : Nat
  earliestAvailable : Nat
  latestSequence : Nat
  configHash : Nat
deriving DecidableEq

/-- The results after a sequence, if the outbox reaches back that far. -/
def fetchOutboxAfter (afterSequence : Nat) : Except OutboxGap (List QueryResult) :=
  if state.asOfSequence ≤ afterSequence then .ok []
  else
    let earliest := (state.outbox.head?.map (·.sequence)).getD (state.asOfSequence + 1)
    if afterSequence + 1 < earliest then .error ⟨afterSequence, earliest, state.asOfSequence, 0⟩
    else .ok (state.outbox.filter fun result => afterSequence < result.sequence)

def nextOutputGeneration (persisted ram : Nat) : Nat := max persisted ram + 1

/-- Empty the output for a rebuild and step the generation on from the persisted one. -/
def resetFromGeneration (persisted : Nat) : QueryOutputState :=
  { state with
    results := ∅
    outbox := []
    asOfSequence := 0
    generation := nextOutputGeneration persisted state.generation
    initialized := true }

def markInitialized : QueryOutputState := { state with initialized := true }

end QueryOutputState

inductive DurableOutputInconsistency where
  | outboxAheadOfSequence (storedSequence outboxHwm : Nat)
  | gappedOutbox (retained : List Nat)
  | missingLiveRows (storedSequence : Nat)
  | sequenceZeroAgainstDurableOutput (liveRows : Nat) (outboxHwm : Option Nat)
deriving DecidableEq

/-- The sequence to install, if the stored sequence, the outbox and the rows fit together. -/
def reconcileDurableOutput (storedSequence : Option Nat) (outboxSequences : List Nat) (liveRowCount : Nat)
    (liveRowsReadable : Bool) : Except DurableOutputInconsistency Nat :=
  let stored := storedSequence.getD 0
  let retained := outboxSequences.insertionSort (· ≤ ·)
  let outboxHwm := retained.getLast?
  if liveRowsReadable = false ∧ 0 < stored then .error (.missingLiveRows stored)
  else if retained ≠ [] ∧ ((retained.destutter (· ≠ ·)).length ≠ retained.length ∨
      (retained.zip retained.tail).any fun window => window.2 ≠ window.1 + 1) then .error (.gappedOutbox retained)
  else if stored = 0 ∧ (0 < liveRowCount ∨ outboxHwm.isSome) then
    .error (.sequenceZeroAgainstDurableOutput liveRowCount outboxHwm)
  else match outboxHwm with
    | some hwm => if stored < hwm then .error (.outboxAheadOfSequence stored hwm) else .ok stored
    | none => .ok stored

structure SourceCheckpoint where
  sequence : Nat
  sourcePosition : Option ByteString
deriving DecidableEq

/-- What the database keeps of the output, with the checkpoints of the sources. -/
structure DurableOutput where
  resultSequence : Option Nat
  outputGeneration : Option Nat
  outbox : OrderedMap Nat QueryResult
  liveRows : LiveRows
  checkpoints : AList fun _ : String => SourceCheckpoint

namespace DurableOutput

def fresh : DurableOutput := ⟨none, none, .empty, ∅, ∅⟩

variable (durable : DurableOutput)

def stageCheckpoint (sourceId : String) (checkpoint : SourceCheckpoint) : DurableOutput :=
  { durable with checkpoints := durable.checkpoints.insert sourceId checkpoint }

/-- Append an entry and evict those before the first one to retain. -/
def appendAndTrim (outbox : OrderedMap Nat QueryResult) (sequence : Nat) (data : QueryResult) (retainFrom : Nat) :
    OrderedMap Nat QueryResult :=
  let appended := outbox.insert sequence data
  ⟨appended.entries.dropWhile fun entry => entry.1 < retainFrom, appended.sorted.sublist (List.dropWhile_sublist _)⟩

/-- Stage result sequence, outbox entry and rows, all in the session of the change. -/
def stageDurableQueryOutput (state : QueryOutputState) (diffs : List ResultDiff) (sourceId queryId : String) (now : Nat)
    (profiling : ProfilingMetadata) : Option QueryResult × DurableOutput :=
  if diffs.isEmpty then (none, durable)
  else
    let nextSeq := state.asOfSequence + 1
    let queryResult : QueryResult :=
      ⟨queryId, nextSeq, now, diffs, QueryResult.resultMetadata sourceId diffs.length, profiling⟩
    let retainFrom := nextSeq - state.outboxCapacity + 1
    (some queryResult,
      { durable with
        outbox := appendAndTrim durable.outbox nextSeq queryResult retainFrom
        liveRows := durable.liveRows.applyMutations (LiveRows.rowMutations diffs)
        resultSequence := some nextSeq })

def readLatestSequence : Option Nat := durable.outbox.entries.getLast?.map (·.1)

def readFrom (afterSequence : Nat) : List (Nat × QueryResult) :=
  durable.outbox.entries.dropWhile fun entry => entry.1 ≤ afterSequence

/-- A bootstrap left its snapshot with sequence zero, checkpoints and no outbox entry. -/
def completedSnapshot (outboxSequences : List Nat) : Bool :=
  durable.resultSequence = some 0 && outboxSequences.isEmpty && !durable.checkpoints.entries.isEmpty &&
    durable.checkpoints.entries.all fun checkpoint => 0 < checkpoint.2.sequence || checkpoint.2.sourcePosition.isSome

/-- The rows, the recent results, the sequence and the generation to start with. -/
def loadDurableOutput (outboxCapacity : Nat) :
    Except DurableOutputInconsistency (LiveRows × List QueryResult × Nat × Nat) :=
  let latest := durable.readLatestSequence
  let rawOutbox := latest.elim [] fun hwm => durable.readFrom (hwm - outboxCapacity)
  let read := rawOutbox.map (·.1)
  -- The high-water mark counts even where the window that was read does not end with it.
  let outboxSequences := latest.elim read fun hwm => if read.getLast? = some hwm then read else read ++ [hwm]
  let asOfSequence :=
    if durable.completedSnapshot outboxSequences then .ok 0
    else reconcileDurableOutput durable.resultSequence outboxSequences durable.liveRows.entries.length true
  asOfSequence.map fun asOf =>
    (durable.liveRows.readSnapshot, rawOutbox.map (fun entry => { entry.2 with sequence := entry.1 }), asOf,
      durable.outputGeneration.getD 0)

end DurableOutput

end DrasiCore
