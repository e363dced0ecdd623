import DrasiCore.Aggregation
import DrasiCore.FutureQueue
import DrasiCore.ElementIndex

/-! Evaluation of expressions. Aggregates and future functions read and write the state of the engine. -/

namespace DrasiCore

open Library

structure EngineState where
  elementIndex : InMemoryElementIndex
  resultIndex : InMemoryResultIndex
  futureQueue : InMemoryFutureQueue

namespace EngineState

def empty : EngineState := ⟨.empty, .empty, .empty⟩

end EngineState

/-- A computation on the state of the engine. What it wrote before an error stays written. -/
def Eval (α : Type) : Type := EngineState → Except EvaluationError α × EngineState

namespace Eval

variable {α : Type}

def bind {β : Type} (first : Eval α) (next : α → Eval β) : Eval β := fun state =>
  match first state with
  | (.ok value, reached) => next value reached
  | (.error error, reached) => (.error error, reached)

instance : Monad Eval where
  pure value := fun state => (.ok value, state)
  bind := bind

def ofExcept (result : Except EvaluationError α) : Eval α := fun state => (result, state)

def mapError (rename : EvaluationError → EvaluationError) (program : Eval α) : Eval α := fun state =>
  ((program state).1.mapError rename, (program state).2)

def skipDivideByZero (program : Eval α) : Eval (Option α) := fun state =>
  match (program state).1 with
  | .ok value => (.ok (some value), (program state).2)
  | .error .divideByZero => (.ok none, (program state).2)
  | .error error => (.error error, (program state).2)

def read (view : EngineState → α) : Eval α := fun state => (.ok (view state), state)

def modify (change : EngineState → EngineState) : Eval Unit := fun state => (.ok (), change state)

end Eval

def setResult (key : ResultKey) (owner : ResultOwner) (value : Option ValueAccumulator) : Eval Unit :=
  .modify fun state => { state with resultIndex := state.resultIndex.set key owner value }

def pushFuture (pushType : PushType) (positionInQuery : Nat) (groupSignature : Signature)
    (elementRef : ElementReference) (originalTime dueTime : ElementTimestamp) : Eval Unit :=
  .modify fun state =>
    { state with
      futureQueue := state.futureQueue.push pushType positionInQuery groupSignature elementRef originalTime dueTime }

def removeFutures (positionInQuery : Nat) (groupSignature : Signature) : Eval Unit :=
  .modify fun state => { state with futureQueue := state.futureQueue.remove positionInQuery groupSignature }

/-! ### Aggregates -/

namespace AggregateFunction

/-- Store the accumulator after a call: a plain one under its key, a sorted set by its changes. -/
def commitAccumulator (accumulator : Accumulator) (resultKey : ResultKey) (resultOwner : ResultOwner) : Eval Unit :=
  match accumulator with
  | .value value => setResult resultKey resultOwner (some value)
  | .lazySortedSet set => fun state =>
    match set.commit state.resultIndex with
    | (result, resultIndex) => (result, { state with resultIndex })

/-- One call of an aggregating function for an evaluated argument and evaluated grouping keys. -/
def call (function : AggregateFunction) (positionInQuery : Nat) (sideEffects : SideEffects) (arg : VariableValue)
    (groupingKeys : List VariableValue) : Eval VariableValue := do
  let resultKey := ResultKey.ofGrouping groupingKeys
  let resultOwner := ResultOwner.function positionInQuery
  let store ← Eval.read (·.resultIndex)
  let initial := function.initializeAccumulator positionInQuery groupingKeys
  let accumulator :=
    if function.accumulatorIsLazy then initial else (store.get resultKey resultOwner).elim initial .value
  let called :=
    match sideEffects with
    | .apply => function.apply store arg accumulator
    | .revertForUpdate | .revertForDelete => function.revert store arg accumulator
    | .snapshot => function.snapshot store arg accumulator
  let (result, changed) ← Eval.ofExcept (called.mapError (.functionError function.functionName))
  commitAccumulator changed resultKey resultOwner
  return result

end AggregateFunction

/-! ### Future functions -/

variable (context : ExpressionEvaluationContext)

namespace FutureFunction

def functionName : FutureFunction → String
  | .trueLater => "drasi.trueLater"
  | .trueUntil => "drasi.trueUntil"
  | .trueFor => "drasi.trueFor"
  | .trueNowOrLater => "drasi.trueNowOrLater"

def millisAsU64 (millis : Int) : ElementTimestamp := (millis % 2 ^ 64).toNat

def dueTimeArgument : VariableValue → Except FunctionEvaluationError (Option ElementTimestamp)
  | .date days => .ok (some (millisAsU64 (days * millisPerDay)))
  | .localDateTime nanos => .ok (some (millisAsU64 (nanos.fdiv nanosPerMilli)))
  | .zonedDateTime nanos _ _ => .ok (some (millisAsU64 (nanos.fdiv nanosPerMilli)))
  | .integer value => if 0 ≤ value ∧ value ≤ u64Max then .ok (some value.toNat) else .error .overflowError
  | .null => .ok none
  | _ => .error (.invalidArgument 1)

/-- The duration the argument at a position names, in milliseconds; `none` for null. -/
def durationArgument (position : Nat) : VariableValue → Except FunctionEvaluationError (Option Int)
  | .duration nanos _ _ => .ok (some (nanos.tdiv nanosPerMilli))
  | .integer value => (VariableValue.integerAsI64 value).elim (.error .overflowError) fun millis => .ok (some millis)
  | .null => .ok none
  | _ => .error (.invalidArgument position)

def conditionArgument : VariableValue → Except FunctionEvaluationError (Option Bool)
  | .bool value => .ok (some value)
  | .null => .ok none
  | _ => .error (.invalidArgument 0)

def callTrueLater (positionInQuery : Nat) (anchorRef : ElementReference)
    (condition : Bool) (dueTime : ElementTimestamp) : Eval VariableValue := do
  if dueTime ≤ context.clock.realtime then return .bool condition
  if context.sideEffects = .apply then
    pushFuture .overwrite positionInQuery context.inputGroupingHash anchorRef context.clock.transactionTime dueTime
  return .awaiting

def callTrueUntil (positionInQuery : Nat) (anchorRef : ElementReference)
    (condition : Bool) (dueTime : ElementTimestamp) : Eval VariableValue := do
  if condition = false ∨ dueTime ≤ context.clock.realtime then
    if context.sideEffects = .apply then removeFutures positionInQuery context.inputGroupingHash
    return .bool condition
  if context.sideEffects = .apply then
    pushFuture .ifNotExists positionInQuery context.inputGroupingHash anchorRef context.clock.transactionTime dueTime
  return .awaiting

/-- The time since when the condition has held; it is kept under the result key. -/
def heldSince (resultOwner : ResultOwner) (resultKey : ResultKey) :
    Eval ElementTimestamp := do
  match ← Eval.read (·.resultIndex.get resultKey resultOwner) with
  | some (.timeMarker timestamp) =>
    if context.sideEffects = .revertForDelete then setResult resultKey resultOwner none
    return timestamp
  | none =>
    if context.sideEffects = .apply then
      setResult resultKey resultOwner (some (.timeMarker context.clock.transactionTime))
    return context.clock.transactionTime
  | some _ => Eval.ofExcept (.error (.functionError (functionName .trueFor) .corruptData))

/-- A condition that holds, once it has held until the due time. -/
def awaitDueTime (positionInQuery : Nat) (anchorRef : ElementReference)
    (condition : Bool) (dueTime : ElementTimestamp) : Eval VariableValue := do
  if dueTime ≤ context.clock.realtime then
    if context.sideEffects = .apply then removeFutures positionInQuery context.inputGroupingHash
    return .bool condition
  if context.sideEffects = .apply then
    pushFuture .ifNotExists positionInQuery context.inputGroupingHash anchorRef context.clock.transactionTime dueTime
  return .awaiting

def callTrueFor (positionInQuery : Nat) (anchorRef : ElementReference)
    (condition : Bool) (duration : Int) (resultKey : ResultKey) : Eval VariableValue := do
  let resultOwner := ResultOwner.function positionInQuery
  if condition = false then
    if context.sideEffects = .apply then
      setResult resultKey resultOwner none
      removeFutures positionInQuery context.inputGroupingHash
    return .bool condition
  let since ← heldSince context resultOwner resultKey
  awaitDueTime context positionInQuery anchorRef condition ((since + millisAsU64 duration) % 2 ^ 64)

/-- A call with evaluated arguments. Without an anchor element, or for a null argument, the result is null. -/
def call (function : FutureFunction) (context : ExpressionEvaluationContext) (positionInQuery : Nat)
    (condition argument : VariableValue) (resultKey : Eval ResultKey) : Eval VariableValue := do
  let failure {α : Type} (result : Except FunctionEvaluationError α) : Eval α :=
    Eval.ofExcept (result.mapError (.functionError function.functionName))
  match context.anchorElement with
  | none => return .null
  | some anchor =>
    match ← failure (conditionArgument condition) with
    | none => return .null
    | some holds =>
      match function with
      | .trueLater =>
        match ← failure (dueTimeArgument argument) with
        | none => return .null
        | some dueTime => callTrueLater context positionInQuery anchor.getReference holds dueTime
      | .trueUntil =>
        match ← failure (dueTimeArgument argument) with
        | none => return .null
        | some dueTime => callTrueUntil context positionInQuery anchor.getReference holds dueTime
      | .trueFor =>
        match ← failure (durationArgument 1 argument) with
        | none => return .null
        | some duration =>
          let key ← resultKey.mapError fun error => .functionError function.functionName (.evaluationError error)
          callTrueFor context positionInQuery anchor.getReference holds duration key
      | .trueNowOrLater =>
        if holds then return .bool true
        match ← failure (dueTimeArgument argument) with
        | none => return .null
        | some dueTime => callTrueLater context positionInQuery anchor.getReference holds dueTime

/-- The arguments of `drasi.future`; here null is no due time. -/
def futureArguments : VariableValue → VariableValue →
    Except FunctionEvaluationError (ElementReference × ElementTimestamp)
  | .element element, argument => do
    match ← dueTimeArgument argument with
    | none => .error (.invalidArgument 1)
    | some dueTime => return (element.getReference, dueTime)
  | _, _ => .error (.invalidArgument 0)

/-- `drasi.future`: the element, once it is due. -/
def callFutureElement (positionInQuery : Nat) (element argument : VariableValue) : Eval VariableValue := do
  let (elementRef, dueTime) ←
    Eval.ofExcept ((futureArguments element argument).mapError (.functionError "drasi.future"))
  if dueTime ≤ context.clock.realtime then
    if context.sideEffects = .apply then removeFutures positionInQuery context.inputGroupingHash
    return element
  if context.sideEffects = .apply then
    pushFuture .always positionInQuery context.inputGroupingHash elementRef context.clock.transactionTime dueTime
  return .awaiting

/-- What `drasi.slidingWindow` does before it evaluates its expression, and the context it then evaluates it in. An
element that leaves the window is marked; its value is not counted in, nor counted out while the mark is there. -/
def enterWindow (positionInQuery : Nat) (windowSize : Int) : Eval ExpressionEvaluationContext := do
  let dueTime := (context.clock.transactionTime + millisAsU64 windowSize) % 2 ^ 64
  let resultOwner := ResultOwner.function positionInQuery
  match context.anchorElement with
  | none => return context
  | some anchor =>
    let resultKey := ResultKey.element anchor.getReference
    match context.sideEffects with
    | .apply =>
      if dueTime ≤ context.clock.realtime then
        setResult resultKey resultOwner (some (.signature .one))
        return context.setSideEffects .snapshot
      pushFuture .overwrite positionInQuery context.inputGroupingHash anchor.getReference context.clock.transactionTime
        dueTime
      return context
    | .revertForUpdate | .revertForDelete =>
      match ← Eval.read (·.resultIndex.get resultKey resultOwner) with
      | some (.signature _) =>
        setResult resultKey resultOwner none
        return context.setSideEffects .snapshot
      | _ => return context
    | .snapshot => return context

end FutureFunction

/-! ### Expressions -/

/-- The key under which a future function keeps its state: the group, or the row where there are no groups. -/
def resolveContextResultKey (grouping : ExpressionEvaluationContext → Eval (List VariableValue))
    (context : ExpressionEvaluationContext) : Eval ResultKey :=
  match context.outputGroupingKey with
  | some _ => do
    let keys ← grouping (context.setSideEffects .snapshot)
    return .ofGrouping keys
  | none => return .inputHash context.inputGroupingHash

mutual

/-- Evaluate an expression, given how grouping keys are evaluated. -/
def evaluateWith (grouping : ExpressionEvaluationContext → Eval (List VariableValue))
    (context : ExpressionEvaluationContext) : Expression → Eval VariableValue
  | .pureForm _ value => .ofExcept (value context.queryVariables)
  | .call _ operation args => do
    let values ← evaluateAllWith grouping context args
    Eval.ofExcept (operation values)
  | .aliased source _ => evaluateWith grouping context source
  | .aggregate function arg positionInQuery => do
    let value ← evaluateWith grouping context arg
    let groupingKeys ← grouping context
    function.call positionInQuery context.sideEffects value groupingKeys
  | .future function condition argument positionInQuery => do
    let holds ← evaluateWith grouping context condition
    let value ← evaluateWith grouping context argument
    function.call context positionInQuery holds value (resolveContextResultKey grouping context)
  | .futureElement element dueTime positionInQuery => do
    let element ← evaluateWith grouping context element
    let argument ← evaluateWith grouping context dueTime
    FutureFunction.callFutureElement context positionInQuery element argument
  | .slidingWindow window expression positionInQuery => do
    let wrap := EvaluationError.functionError "drasi.slidingWindow"
    let value ← (evaluateWith grouping context window).mapError fun error => wrap (.evaluationError error)
    match ← Eval.ofExcept ((FutureFunction.durationArgument 0 value).mapError wrap) with
    | none => return .null
    | some windowSize =>
      let inner ← FutureFunction.enterWindow context positionInQuery windowSize
      (evaluateWith grouping inner expression).mapError fun error => wrap (.evaluationError error)

def evaluateAllWith (grouping : ExpressionEvaluationContext → Eval (List VariableValue))
    (context : ExpressionEvaluationContext) : List Expression → Eval (List VariableValue)
  | [] => return []
  | expression :: expressions => do
    let value ← evaluateWith grouping context expression
    let values ← evaluateAllWith grouping context expressions
    return value :: values

end

/-- Grouping keys are evaluated in the context they belong to. The parser keeps aggregates out of them; on a key that
asks for the grouping keys itself the program would not terminate. -/
def evaluateGroupingKeys : Eval (List VariableValue) :=
  evaluateAllWith (fun _ => .ofExcept (.error .corruptData)) context (context.outputGroupingKey.getD [])

variable (expression : Expression)

def evaluateExpression : Eval VariableValue :=
  evaluateWith evaluateGroupingKeys context expression

def evaluatePredicate : Eval Bool := do
  let value ← evaluateExpression context expression
  return value = .bool true

namespace Expression

def fieldName : Expression → String
  | .pureForm name _ => name
  | .call name _ _ => name
  | .aliased _ name => name
  | .aggregate function _ _ =>
    match function with
    | .count => "count"
    | .sum => "sum"
    | .avg => "avg"
    | .min => "min"
    | .max => "max"
  | .future function _ _ _ => function.functionName
  | .futureElement _ _ _ => "drasi.future"
  | .slidingWindow _ _ _ => "drasi.slidingWindow"

end Expression

def evaluateProjectionField :
    Eval (String × VariableValue) := do
  let value ← evaluateExpression context expression
  return (expression.fieldName, value)

end DrasiCore
