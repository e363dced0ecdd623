import DrasiCore.Ast

/-! What an expression is evaluated against, and the changes that pass between the parts of a query. -/

namespace DrasiCore

open Library

/-- The no-op test of the engine: equal rows whose values also agree as grouping keys. -/
def queryVariablesUnchanged (before after : QueryVariables) : Bool :=
  VariableValue.valueEqEntries before.entries after.entries &&
    VariableValue.eqForGroupbyEntries before.entries after.entries

structure InstantQueryClock where
  transactionTime : ElementTimestamp
  realtime : ElementTimestamp
deriving DecidableEq

namespace InstantQueryClock

def fromSourceChange (change : SourceChange) : InstantQueryClock := ⟨change.getTransactionTime, change.getRealtime⟩

end InstantQueryClock

inductive SideEffects where
  | apply | revertForUpdate | revertForDelete | snapshot
deriving DecidableEq

inductive QueryPartEvaluationContext where
  | adding (after : QueryVariables) (rowSignature : Signature)
  | updating (before after : QueryVariables) (rowSignature : Signature)
  | removing (before : QueryVariables) (rowSignature : Signature)
  | aggregation (before : Option QueryVariables) (after : QueryVariables) (groupingKeys : List String)
      (defaultBefore defaultAfter : Bool) (rowSignature : Signature)
  | noop
deriving DecidableEq

structure ExpressionEvaluationContext where
  queryVariables : QueryVariables
  sideEffects : SideEffects
  outputGroupingKey : Option (List Expression)
  inputGroupingHash : Signature
  clock : InstantQueryClock
  anchorElement : Option Element

/-- Who is being changed and when. The grouping hashes start as the identity of the match; every aggregating part
replaces them by those of its groups. -/
structure ChangeContext where
  solutionSignature : Signature
  beforeAnchorElement : Option Element
  afterAnchorElement : Option Element
  beforeClock : InstantQueryClock
  afterClock : InstantQueryClock
  isFutureReprocess : Bool
  beforeGroupingHash : Signature
  afterGroupingHash : Signature

namespace ProjectionClause

/-- The grouping expressions of an aggregating projection. -/
def groupingKey : ProjectionClause → Option (List Expression)
  | .groupBy grouping _ => some grouping
  | .item _ => none

end ProjectionClause

namespace ExpressionEvaluationContext

variable (queryVariables : QueryVariables) (clock : InstantQueryClock)

def new : ExpressionEvaluationContext :=
  ⟨queryVariables, .apply, none, .zero, clock, none⟩

def fromSlot (elementReference : ElementReference) : ExpressionEvaluationContext :=
  ⟨queryVariables, .apply, none, .element elementReference, clock, none⟩

def fromBeforeChange (sideEffectDirective : SideEffects) (changeContext : ChangeContext) (queryPart : QueryPart) :
    ExpressionEvaluationContext :=
  ⟨queryVariables, sideEffectDirective, queryPart.returnClause.groupingKey, changeContext.beforeGroupingHash,
    changeContext.beforeClock, changeContext.beforeAnchorElement⟩

def fromAfterChange (changeContext : ChangeContext) (queryPart : QueryPart) : ExpressionEvaluationContext :=
  ⟨queryVariables, .apply, queryPart.returnClause.groupingKey, changeContext.afterGroupingHash,
    changeContext.afterClock, changeContext.afterAnchorElement⟩

variable (context : ExpressionEvaluationContext)

def setSideEffects (directive : SideEffects) : ExpressionEvaluationContext :=
  { context with sideEffects := directive }

def setOutputGroupingKey (groupingKey : List Expression) : ExpressionEvaluationContext :=
  { context with outputGroupingKey := some groupingKey }

end ExpressionEvaluationContext

end DrasiCore
