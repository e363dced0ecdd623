import DrasiCore.Parts
import DrasiCore.PathSolver

/-! A continuous query: every source change is turned into the changes of the solutions it touches, and these are
passed through the parts of the query. -/

namespace DrasiCore

open Library

structure ContinuousQuery where
  query : Query
  matchPath : MatchPath

def matchElementToSlot (baseVariables : QueryVariables) (clock : InstantQueryClock) (elementSpec : SlotElementSpec)
    (element : Element) : Eval Bool :=
  if elementSpec.labelMatch element then
    passesFilters (.fromSlot (elementSpec.slotVariables baseVariables element) clock element.getReference)
      elementSpec.predicates
  else return false

/-- The numbers of the slots an element fits, counted from `slotNum`. -/
def getSlotsWithAffinity (baseVariables : QueryVariables) (anchorElement : Element) (clock : InstantQueryClock) :
    List MatchPathSlot → Nat → Eval (List Nat)
  | [], _ => return []
  | slot :: slots, slotNum => do
    let fits ← matchElementToSlot baseVariables clock slot.spec anchorElement
    let affinitySlots ← getSlotsWithAffinity baseVariables anchorElement clock slots (slotNum + 1)
    return if fits then slotNum :: affinitySlots else affinitySlots

abbrev Solutions := AList fun _ : Signature => MatchPathSolution

variable (path : MatchPath) (order : IterationOrder)

def resolveSolutions (anchorElement : Element) (affinitySlots : List Nat) (updateIndex : Bool) : Eval Solutions := do
  if updateIndex then
    Eval.modify fun state =>
      { state with elementIndex := state.elementIndex.setElement anchorElement affinitySlots }
  let index ← Eval.read (·.elementIndex)
  return affinitySlots.foldl
    (fun result slotNum => solve path index (order.within [slotNum]) anchorElement slotNum ∪ result) ∅

structure SolutionChangesResult where
  changes : List (Signature × QueryPartEvaluationContext)
  anchorElement : Option Element
  beforeClock : Option InstantQueryClock
  beforeAnchorElement : Option Element
  isFutureReprocess : Bool

namespace SolutionChangesResult

def new : SolutionChangesResult := ⟨[], none, none, none, false⟩

end SolutionChangesResult

/-- The solutions whose optional part can be blanked, blanked and under their old signature. -/
def blankOptionalSolutions (solutions : Solutions) : Solutions :=
  solutions.entries.foldr
    (fun entry result => (entry.2.getEmptyOptionalSolution path).elim result (result.insert entry.1 ·)) ∅

/-- Solutions on both sides are updated, the others removed or added. -/
def solutionChanges (baseVariables : QueryVariables) (before after : Solutions) :
    List (Signature × QueryPartEvaluationContext) :=
  let row (solution : MatchPathSolution) := solution.intoQueryVariables path baseVariables
  (order.arrange [0] before.entries).map (fun entry =>
      (entry.1,
        match after.lookup entry.1 with
        | some afterSolution => .updating (row entry.2) (row afterSolution) .zero
        | none => .removing (row entry.2) .zero)) ++
    ((order.arrange [1] after.entries).filter fun entry => (before.lookup entry.1).isNone).map fun entry =>
      (entry.1, .adding (row entry.2) .zero)

variable (query : ContinuousQuery) (order : IterationOrder)

namespace ContinuousQuery

/-- The solutions of an element as it is at the time of a clock. -/
def elementSolutions (baseVariables : QueryVariables) (element : Element) (clock : InstantQueryClock) (updateIndex : Bool) :
    Eval Solutions := do
  let affinitySlots ← getSlotsWithAffinity baseVariables element clock query.matchPath.slots 0
  resolveSolutions query.matchPath order element affinitySlots updateIndex

/-- How a source change changes the solutions; `none` where the program panics, on an update that turns a node into a
relation or a relation into a node. -/
def buildSolutionChanges (baseVariables : QueryVariables) (change : SourceChange) (clock : InstantQueryClock) :
    Eval (Option SolutionChangesResult) := do
  let changes := solutionChanges query.matchPath (order.within [2]) baseVariables
  match change with
  | .insert element => do
    let after ← query.elementSolutions (order.within [1]) baseVariables element clock true
    let before := blankOptionalSolutions query.matchPath after
    return some { SolutionChangesResult.new with changes := changes before after, anchorElement := some element }
  | .update element => do
    match ← Eval.read (·.elementIndex.getElement element.getReference) with
    | some prevVersion => do
      let beforeClock : InstantQueryClock := ⟨prevVersion.getEffectiveFrom, clock.realtime⟩
      let before ← query.elementSolutions (order.within [0]) baseVariables prevVersion beforeClock false
      match element.mergeMissingProperties prevVersion with
      | none => return none
      | some merged => do
        let after ← query.elementSolutions (order.within [1]) baseVariables merged clock true
        return some ⟨changes before after, some merged, some beforeClock, some prevVersion, false⟩
    | none => do
      let after ← query.elementSolutions (order.within [1]) baseVariables element clock true
      return some { SolutionChangesResult.new with changes := changes ∅ after, anchorElement := some element }
  | .delete metadata => do
    match ← Eval.read (·.elementIndex.getElement metadata.reference) with
    | some element => do
      let beforeClock : InstantQueryClock := ⟨element.getEffectiveFrom, clock.realtime⟩
      let before ← query.elementSolutions (order.within [0]) baseVariables element beforeClock false
      let after := blankOptionalSolutions query.matchPath before
      Eval.modify fun state => { state with elementIndex := state.elementIndex.deleteElement metadata.reference }
      return some ⟨changes before after, none, some beforeClock, some element, false⟩
    | none => return some .new
  | .future futureRef => do
    let reprocess := { SolutionChangesResult.new with isFutureReprocess := true }
    match ← Eval.read (·.elementIndex.getElement futureRef.elementRef) with
    | some element => do
      -- an element already processed after the due time is not processed again
      if futureRef.dueTime ≤ element.getEffectiveFrom then return some reprocess
      let beforeClock : InstantQueryClock := ⟨element.getEffectiveFrom, element.getEffectiveFrom⟩
      let before ← query.elementSolutions (order.within [0]) baseVariables element beforeClock false
      let after ← query.elementSolutions (order.within [1]) baseVariables element clock false
      return some ⟨changes before after, some element, some beforeClock, some element, true⟩
    | none => return some reprocess

end ContinuousQuery

/-! ### Projection of the changed solutions -/

def extractGroupingValueHash (groupingKeys : List String) (queryVariables : QueryVariables) : Signature :=
  .grouping (groupingKeys.map fun key => (queryVariables.get? key).map (·.groupingIdentity))

/-- Changes of groups by the hash of the group after the change, each with the hash before it. -/
abbrev CollapsedAggregationResults := AList fun _ : Signature => QueryPartEvaluationContext × Signature

namespace CollapsedAggregationResults

variable (data : CollapsedAggregationResults)

/-- A second change of a group keeps what the group was before the first. -/
def insert (context : QueryPartEvaluationContext) : CollapsedAggregationResults :=
  match context with
  | .aggregation before after groupingKeys defaultBefore defaultAfter _ =>
    let afterKey := extractGroupingValueHash groupingKeys after
    let beforeKey := before.elim afterKey (extractGroupingValueHash groupingKeys)
    match data.lookup afterKey with
    | some (.aggregation existingBefore _ _ existingDefaultBefore _ _, existingBeforeKey) =>
      AList.insert afterKey
        (.aggregation existingBefore after groupingKeys existingDefaultBefore defaultAfter afterKey, existingBeforeKey) data
    | some _ => data.erase afterKey
    | none =>
      AList.insert afterKey (.aggregation before after groupingKeys defaultBefore defaultAfter afterKey, beforeKey) data
  | _ => data

def intoVecWithContext (order : IterationOrder) (changeContext : ChangeContext) :
    List (QueryPartEvaluationContext × ChangeContext) :=
  (order.arrange [] data.entries).map fun entry =>
    (entry.2.1, { changeContext with beforeGroupingHash := entry.2.2, afterGroupingHash := entry.1 })

def intoResultVec (order : IterationOrder) : List QueryPartEvaluationContext :=
  (order.arrange [] data.entries).map fun entry =>
    match entry.2.1 with
    | .aggregation before after groupingKeys defaultBefore defaultAfter _ =>
      .aggregation before after groupingKeys defaultBefore defaultAfter entry.1
    | other => other

end CollapsedAggregationResults

namespace QueryPartEvaluationContext

def isAggregation : QueryPartEvaluationContext → Bool
  | .aggregation .. => true
  | _ => false

/-- The identity of the output row: that of the group or match after the change, for a removed row that before it. -/
def stampRowSignature (changeContext : ChangeContext) : QueryPartEvaluationContext → QueryPartEvaluationContext
  | .adding after _ => .adding after changeContext.afterGroupingHash
  | .updating before after _ => .updating before after changeContext.afterGroupingHash
  | .removing before _ => .removing before changeContext.beforeGroupingHash
  | .aggregation before after groupingKeys defaultBefore defaultAfter _ =>
    .aggregation before after groupingKeys defaultBefore defaultAfter changeContext.afterGroupingHash
  | .noop => .noop

end QueryPartEvaluationContext

/-- What one part passes on of the changes made of one context. -/
def passOn (order : IterationOrder) (changeContext : ChangeContext) (newContexts : List QueryPartEvaluationContext) :
    List (QueryPartEvaluationContext × ChangeContext) :=
  ((newContexts.filter fun context => !context.isAggregation && context ≠ .noop).map (·, changeContext)) ++
    (newContexts.foldl CollapsedAggregationResults.insert ∅).intoVecWithContext order changeContext

def evaluateContexts (order : IterationOrder) (partNum : Nat) (part : QueryPart) :
    List (QueryPartEvaluationContext × ChangeContext) → Eval (List (QueryPartEvaluationContext × ChangeContext))
  | [] => return []
  | (context, changeContext) :: contexts => do
    let newContexts ← evaluatePart context partNum part changeContext
    let rest ← evaluateContexts order partNum part contexts
    return passOn (order.within [contexts.length]) changeContext newContexts ++ rest

/-- The parts one after another; parts are counted from one. -/
def evaluateParts (order : IterationOrder) :
    List QueryPart → Nat → List (QueryPartEvaluationContext × ChangeContext) →
      Eval (List (QueryPartEvaluationContext × ChangeContext))
  | [], _, contexts => return contexts
  | part :: parts, partNum, contexts => do
    let passed ← evaluateContexts (order.within [partNum]) partNum part contexts
    evaluateParts order parts (partNum + 1) passed

def projectSolution (query : Query) (order : IterationOrder) (partContext : QueryPartEvaluationContext)
    (changeContext : ChangeContext) : Eval (List QueryPartEvaluationContext) := do
  let result ← evaluateParts order query.parts 1 [(partContext, changeContext)]
  return result.map fun entry => entry.1.stampRowSignature entry.2

/-- Results of one change: plain ones in order, those of groups collapsed. -/
structure ChangeResults where
  result : List QueryPartEvaluationContext
  aggregationResults : CollapsedAggregationResults

namespace ChangeResults

def collect (results : ChangeResults) (context : QueryPartEvaluationContext) : ChangeResults :=
  match context with
  | .aggregation before after _ defaultBefore _ _ =>
    if before.any (queryVariablesUnchanged · after) && !defaultBefore then results
    else { results with aggregationResults := results.aggregationResults.insert context }
  | .updating before after _ =>
    if queryVariablesUnchanged before after then results else { results with result := results.result ++ [context] }
  | _ => { results with result := results.result ++ [context] }

end ChangeResults

namespace ContinuousQuery

/-- Project the changed solutions one after another. A division by zero skips the solution; what its evaluation
stored before the error stays. -/
def projectSolutions (query : ContinuousQuery) (order : IterationOrder) (changeContext : Signature → ChangeContext) :
    List (Signature × QueryPartEvaluationContext) → ChangeResults → Eval ChangeResults
  | [], results => return results
  | (solutionSignature, partContext) :: changes, results => do
    let projected := projectSolution query.query (order.within [changes.length]) partContext
      (changeContext solutionSignature)
    let changeResults ← projected.skipDivideByZero
    query.projectSolutions order changeContext changes ((changeResults.getD []).foldl ChangeResults.collect results)

def processChange (change : SourceChange) :
    Eval (Option (List QueryPartEvaluationContext)) := do
  let afterClock := InstantQueryClock.fromSourceChange change
  match ← query.buildSolutionChanges (order.within [0]) .empty change afterClock with
  | none => return none
  | some solutionChanges => do
    let changeContext (solutionSignature : Signature) : ChangeContext :=
      ⟨solutionSignature, solutionChanges.beforeAnchorElement, solutionChanges.anchorElement,
        solutionChanges.beforeClock.getD afterClock, afterClock, solutionChanges.isFutureReprocess,
        solutionSignature, solutionSignature⟩
    let results ← query.projectSolutions (order.within [1]) changeContext solutionChanges.changes ⟨[], ∅⟩
    return some (results.result ++ results.aggregationResults.intoResultVec (order.within [2]))

/-- The changes one after another, with all their results. -/
def processChangesInner (query : ContinuousQuery) (order : IterationOrder) :
    List SourceChange → Eval (Option (List QueryPartEvaluationContext))
  | [] => return some []
  | change :: changes => do
    match ← query.processChange (order.within [changes.length]) change with
    | none => return none
    | some result => do
      let rest ← query.processChangesInner order changes
      return rest.map (result ++ ·)

def processSourceChange (change : SourceChange) : Eval (Option (List QueryPartEvaluationContext)) :=
  query.processChangesInner (order.within [1]) [change]

structure DueFutureResult where
  results : List QueryPartEvaluationContext
  sourceId : String

/-- Pop the first future, whether it is due or not, and process it; the inner `none` says that the queue was empty. -/
def processDueFutures : Eval (Option (Option DueFutureResult)) := do
  let futureQueue ← Eval.read (·.futureQueue)
  match futureQueue.pop (order.within [0]) with
  | (none, _) => return some none
  | (some futureRef, popped) => do
    Eval.modify fun state => { state with futureQueue := popped }
    match ← query.processChangesInner (order.within [1]) [.future futureRef] with
    | none => return none
    | some results => return some (some ⟨results, futureRef.elementRef.sourceId⟩)

end ContinuousQuery

end DrasiCore
