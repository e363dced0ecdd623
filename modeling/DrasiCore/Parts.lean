import DrasiCore.Expressions

/-! One part of a query: it filters and projects a change and passes the change of its output on. -/

namespace DrasiCore

open Library ExpressionEvaluationContext

/-- The digest of a row; grouping columns count by identity. -/
def aggregationSnapshotHash (groupingKeys : List String) (queryVariables : QueryVariables) : Signature :=
  .snapshot (queryVariables.entries.map fun entry =>
    (entry.1, if groupingKeys.contains entry.1 then entry.2.groupingIdentity else entry.2))

/-- Evaluate projected columns one after another into a row. -/
def projectFields (context : ExpressionEvaluationContext) : List Expression → QueryVariables → Eval QueryVariables
  | [], row => return row
  | expression :: expressions, row => do
    let (name, value) ← evaluateProjectionField context expression
    projectFields context expressions (row.insert name value)

/-- The projected row, with the names of its grouping columns. -/
def project (context : ExpressionEvaluationContext) (projection : ProjectionClause) :
    Eval (QueryVariables × List String) :=
  match projection with
  | .item expressions => do
    let row ← projectFields context expressions .empty
    return (row, [])
  | .groupBy grouping aggregates => do
    let groups ← projectFields context grouping .empty
    let row ← projectFields (context.setOutputGroupingKey grouping) aggregates groups
    return (row, grouping.map (·.fieldName))

/-- All filters hold; the first that does not ends the evaluation. -/
def passesFilters (context : ExpressionEvaluationContext) : List Expression → Eval Bool
  | [] => return true
  | filter :: filters => do
    if ← evaluatePredicate context filter then passesFilters context filters else return false

variable (part : QueryPart) (changeContext : ChangeContext)

/-- The row of the group of the given variables as it is now; only aggregating parts have one. -/
def aggregateSnapshot (queryVariables : QueryVariables) : Eval (Option QueryVariables) :=
  match part.returnClause with
  | .groupBy .. => do
    let (row, _) ← project (.fromBeforeChange queryVariables .snapshot changeContext part) part.returnClause
    return some row
  | .item _ => return none

def groupingMatch (groupingKeys : List String) (beforeOut afterOut : QueryVariables) : Bool :=
  groupingKeys.all fun key =>
    match beforeOut.get? key, afterOut.get? key with
    | some before, some after => before.eqForGroupby after
    | none, none => true
    | _, _ => false

/-- A row that stays in its group is one change of the group; a row that crosses changes both groups. -/
def reconcileCrossingAggregate (groupingKeys : List String) (beforeIn : Option QueryVariables)
    (beforeOut : Option QueryVariables) (afterOut : QueryVariables) (snapshot : Option QueryVariables)
    (changeContext : ChangeContext) : Eval (List QueryPartEvaluationContext) :=
  match beforeIn, beforeOut with
  | some beforeIn, some beforeOut =>
    if groupingMatch groupingKeys beforeOut afterOut then
      return [.aggregation (some beforeOut) afterOut groupingKeys false false .zero]
    else do
      let prevContext := (new beforeIn changeContext.beforeClock).setSideEffects .snapshot
      let (drained, _) ← project prevContext part.returnClause
      return [.aggregation snapshot afterOut groupingKeys true false .zero,
        .aggregation (some beforeOut) drained groupingKeys false true .zero]
  | _, beforeOut => return [.aggregation beforeOut afterOut groupingKeys false false .zero]

def evaluateAdding (after : QueryVariables) :
    Eval (List QueryPartEvaluationContext) := do
  let aggSnapshot ← aggregateSnapshot part changeContext after
  let evalContext := fromAfterChange after changeContext part
  if ← passesFilters evalContext part.whereClauses then
    let (data, groupingKeys) ← project evalContext part.returnClause
    match part.returnClause with
    | .groupBy .. => return [.aggregation aggSnapshot data groupingKeys true false .zero]
    | .item _ => return [.adding data .zero]
  else return [.noop]

variable (before : QueryVariables)

/-- The row before a change with the names of its grouping columns, and its group after the row has been taken out;
`none` for a row the filters had left out. -/
def takeOutBefore :
    Eval (Option (QueryVariables × List String × QueryVariables)) := do
  let beforeContext := fromBeforeChange before .snapshot changeContext part
  if ← passesFilters beforeContext part.whereClauses then
    let (beforeOut, groupingKeys) ← project beforeContext part.returnClause
    let revertContext := fromBeforeChange before .revertForUpdate changeContext part
    let (aggAfter, _) ← project revertContext part.returnClause
    return some (beforeOut, groupingKeys, aggAfter)
  else return none

variable (taken : Option (QueryVariables × List String × QueryVariables))

/-- What is passed on of an updated row that the filters leave out. -/
def updatingFiltered (aggSnapshot : Option QueryVariables) : Eval (List QueryPartEvaluationContext) :=
  match part.returnClause, taken with
  | .groupBy .., some (beforeOut, groupingKeys, aggAfter) =>
    reconcileCrossingAggregate part groupingKeys (some before) (some beforeOut) aggAfter aggSnapshot changeContext
  | .item _, some (beforeOut, _) => return [.removing beforeOut .zero]
  | _, none => return [.noop]

/-- What is passed on of an updated row that passes the filters. -/
def updatingPassed (afterOut : QueryVariables) (groupingKeys : List String) (aggSnapshot : Option QueryVariables) :
    Eval (List QueryPartEvaluationContext) :=
  match part.returnClause, taken with
  | .groupBy .., _ =>
    reconcileCrossingAggregate part groupingKeys (some before) (taken.map (·.1)) afterOut aggSnapshot changeContext
  | .item _, some (beforeOut, _) => return [.updating beforeOut afterOut .zero]
  | .item _, none => return [.adding afterOut .zero]

def evaluateUpdating (after : QueryVariables) :
    Eval (List QueryPartEvaluationContext) := do
  if queryVariablesUnchanged before after && !changeContext.isFutureReprocess then return [.noop]
  let aggSnapshot ← aggregateSnapshot part changeContext after
  let taken ← takeOutBefore part changeContext before
  let afterContext := fromAfterChange after changeContext part
  if ← passesFilters afterContext part.whereClauses then
    let (afterOut, groupingKeys) ← project afterContext part.returnClause
    updatingPassed part changeContext before taken afterOut groupingKeys aggSnapshot
  else updatingFiltered part changeContext before taken aggSnapshot

def evaluateRemoving :
    Eval (List QueryPartEvaluationContext) := do
  let aggBefore ← aggregateSnapshot part changeContext before
  let evalContext := fromBeforeChange before .revertForDelete changeContext part
  if ← passesFilters evalContext part.whereClauses then
    let (data, groupingKeys) ← project evalContext part.returnClause
    match part.returnClause with
    | .groupBy .. => return [.aggregation aggBefore data groupingKeys false true .zero]
    | .item _ => return [.removing data .zero]
  else return [.noop]

variable (partNum : Nat) (resultKey : ResultKey)

/-- Whether the row of a group before its change has been passed on by this part. -/
def shouldRevert (groupingKeys : List String) (before : Option QueryVariables) (defaultBefore : Bool) : Eval Bool :=
  match before with
  | none => return false
  | some before =>
    if defaultBefore then do
      let beforeHash := aggregationSnapshotHash groupingKeys before
      match ← Eval.read (·.resultIndex.get resultKey (.partCurrent partNum)) with
      | some (.signature hash) => return hash = beforeHash
      | none => do
        setResult resultKey (.partDefault partNum) (some (.signature beforeHash))
        return false
      | some _ => return false
    else return true

/-- Whether the row of a group after its change is passed on; the row of an emptied group is not. -/
def shouldApply (afterHash : Signature) (defaultAfter : Bool) : Eval Bool :=
  if defaultAfter then do
    match ← Eval.read (·.resultIndex.get resultKey (.partDefault partNum)) with
    | some (.signature hash) => do
      if hash = afterHash then setResult resultKey (.partCurrent partNum) none
      return hash ≠ afterHash
    | _ => return true
  else return true

def storeCurrent (afterHash : Signature) (applies : Bool) : Eval Unit :=
  if applies then setResult resultKey (.partCurrent partNum) (some (.signature afterHash)) else return ()

variable (before : Option QueryVariables)

/-- The projection of the row of a group before its change. -/
def projectBefore : Eval (Option QueryVariables) :=
  match before with
  | some before => do
    let (row, _) ← project (.fromBeforeChange before .snapshot changeContext part) part.returnClause
    return some row
  | none => return none

/-- Whether the row of a group before its change passed the filters; a missing row is not left out by them. -/
def fitsBefore : Eval Bool :=
  match before with
  | some before => passesFilters (.fromBeforeChange before .snapshot changeContext part) part.whereClauses
  | none => return true

/-- Take the row of a group before its change out of its own group, where it had been passed on. -/
def revertBefore (reverts : Bool) : Eval (Option (QueryVariables × List String)) :=
  match before with
  | some before =>
    if reverts then do
      let projected ← project (.fromBeforeChange before .revertForUpdate changeContext part) part.returnClause
      return some projected
    else return none
  | none => return none

variable (nextBefore : Option QueryVariables)

/-- What is passed on of a changed group whose row the filters leave out. -/
def aggregationFiltered (beforeFits : Bool) (reverted : Option (QueryVariables × List String))
    (aggSnapshot : Option QueryVariables) : Eval (List QueryPartEvaluationContext) :=
  match part.returnClause, reverted with
  | .groupBy .., some (row, keys) =>
    reconcileCrossingAggregate part keys before nextBefore row aggSnapshot changeContext
  | _, _ => return if before.isSome && beforeFits then [.removing (nextBefore.getD .empty) .zero] else [.noop]

/-- What is passed on of a changed group whose row passes the filters. -/
def aggregationPassed (hadContribution hasContribution : Bool) (nextAfter : QueryVariables)
    (nextAfterGroupingKeys : List String) (aggSnapshot : Option QueryVariables) :
    Eval (List QueryPartEvaluationContext) :=
  match part.returnClause with
  | .groupBy .. =>
    reconcileCrossingAggregate part nextAfterGroupingKeys before nextBefore nextAfter aggSnapshot changeContext
  | .item _ =>
    return match hadContribution, hasContribution with
      | true, true => [.updating (nextBefore.getD .empty) nextAfter .zero]
      | true, false => [.removing (nextBefore.getD .empty) .zero]
      | false, true => [.adding nextAfter .zero]
      | false, false => [.noop]

/-- The context after a change; a row that is not passed on takes no effect. -/
def aggregationAfterContext (after : QueryVariables) (applies : Bool) : ExpressionEvaluationContext :=
  let afterContext := fromAfterChange after changeContext part
  if applies then afterContext else afterContext.setSideEffects .snapshot

def evaluateAggregation (changeContext : ChangeContext) (before : Option QueryVariables) (after : QueryVariables)
    (groupingKeys : List String) (defaultBefore defaultAfter : Bool) : Eval (List QueryPartEvaluationContext) := do
  if before.any (queryVariablesUnchanged · after) && !changeContext.isFutureReprocess && !defaultBefore && !defaultAfter
  then return [.noop]
  let resultKey := ResultKey.groupbyFromVariables groupingKeys after
  let reverts ← shouldRevert partNum resultKey groupingKeys before defaultBefore
  let afterHash := aggregationSnapshotHash groupingKeys after
  let applies ← shouldApply partNum resultKey afterHash defaultAfter
  storeCurrent partNum resultKey afterHash applies
  let aggSnapshot ← aggregateSnapshot part changeContext after
  let nextBefore ← projectBefore part changeContext before
  let beforeFits ← fitsBefore part changeContext before
  let reverted ← revertBefore part changeContext before (beforeFits && reverts)
  let afterContext := aggregationAfterContext part changeContext after applies
  if ← passesFilters afterContext part.whereClauses then
    let (nextAfter, nextAfterGroupingKeys) ← project afterContext part.returnClause
    aggregationPassed part changeContext before nextBefore (beforeFits && reverts) applies nextAfter
      nextAfterGroupingKeys aggSnapshot
  else aggregationFiltered part changeContext before nextBefore beforeFits reverted aggSnapshot

def evaluatePart (context : QueryPartEvaluationContext) (partNum : Nat) (part : QueryPart) (changeContext : ChangeContext) :
    Eval (List QueryPartEvaluationContext) :=
  match context with
  | .adding after _ => evaluateAdding part changeContext after
  | .updating before after _ => evaluateUpdating part changeContext before after
  | .removing before _ => evaluateRemoving part changeContext before
  | .aggregation before after groupingKeys defaultBefore defaultAfter _ =>
    evaluateAggregation part partNum changeContext before after groupingKeys defaultBefore defaultAfter
  | .noop => return [.noop]

end DrasiCore
