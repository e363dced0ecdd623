import DrasiCore.ContinuousQuery

/-! The live results of a query, kept by applying the results of every change, and the handling of one event. -/

namespace DrasiCore

open Library

inductive ResultDiff where
  | add (data : QueryVariables) (rowSignature : Signature)
  | delete (data : QueryVariables) (rowSignature : Signature)
  | update (before after : QueryVariables) (rowSignature : Signature)
  | aggregation (before : Option QueryVariables) (after : QueryVariables) (rowSignature : Signature)
  | noop
deriving DecidableEq

def evaluationContextsToDiffs (results : List QueryPartEvaluationContext) : List ResultDiff :=
  results.filterMap fun
    | .adding after rowSignature => some (.add after rowSignature)
    | .removing before rowSignature => some (.delete before rowSignature)
    | .updating before after rowSignature => some (.update before after rowSignature)
    | .aggregation before after _ _ _ rowSignature => some (.aggregation before after rowSignature)
    | .noop => none

abbrev LiveResults := Signature → Option QueryVariables

namespace LiveResults

def empty : LiveResults := fun _ => none

def applyDiff (results : LiveResults) : ResultDiff → LiveResults
  | .add data rowSignature => Function.update results rowSignature (some data)
  | .delete _ rowSignature => Function.update results rowSignature none
  | .update _ after rowSignature => Function.update results rowSignature (some after)
  | .aggregation _ after rowSignature => Function.update results rowSignature (some after)
  | .noop => results

def applyDiffs (results : LiveResults) (diffs : List ResultDiff) : LiveResults := diffs.foldl applyDiff results

end LiveResults

structure QueryState where
  engine : EngineState
  results : LiveResults

namespace QueryState

def empty : QueryState := ⟨.empty, .empty⟩

/-- Process a source change. A change that fails gives no results, but what it stored stays; `none` where the program
panics. -/
def processChange (state : QueryState) (query : ContinuousQuery) (order : IterationOrder) (change : SourceChange) :
    Option QueryState :=
  match query.processSourceChange order change state.engine with
  | (.ok none, _) => none
  | (.ok (some results), engine) => some ⟨engine, state.results.applyDiffs (evaluationContextsToDiffs results)⟩
  | (.error _, engine) => some ⟨engine, state.results⟩

/-- Changes one after another, each with its own iteration order. -/
def processChanges (query : ContinuousQuery) : List (IterationOrder × SourceChange) → QueryState → Option QueryState
  | [], state => some state
  | (order, change) :: changes, state => (state.processChange query order change).bind (processChanges query changes)

end QueryState

end DrasiCore
