import DrasiCore.SourceChange

/-! Queries: match patterns, expressions and projections. -/

namespace DrasiCore

open Library

abbrev QueryVariables := OrderedMap String VariableValue

mutual

inductive FunctionEvaluationError where
  | invalidArgument (argument : Nat)
  | invalidArgumentCount
  | overflowError
  | corruptData
  | evaluationError (error : EvaluationError)

inductive EvaluationError where
  | divideByZero
  | overflowError
  | unknownIdentifier (identifier : String)
  | unknownProperty (propertyName : String)
  | invalidType (expected : String)
  | corruptData
  | functionError (functionName : String) (error : FunctionEvaluationError)

end

deriving instance DecidableEq for FunctionEvaluationError, EvaluationError

inductive AggregateFunction where
  | count | sum | avg | min | max
deriving DecidableEq

inductive FutureFunction where
  | trueLater | trueUntil | trueFor | trueNowOrLater
deriving DecidableEq

/-- Expressions. Every form without side effects that only reads variables is a `pureForm`; operators and functions
that evaluate all their arguments from left to right are `call`s. Both carry the name their value has in a projection.
Aggregates and future functions carry their position in the query, which names their stored state. `drasi.future` and
`drasi.slidingWindow` have forms of their own: the first works without an anchor element, the second evaluates its
second argument itself. -/
inductive Expression where
  | pureForm (name : String) (value : QueryVariables → Except EvaluationError VariableValue)
  | call (name : String) (operation : List VariableValue → Except EvaluationError VariableValue)
      (args : List Expression)
  | aliased (source : Expression) (name : String)
  | aggregate (function : AggregateFunction) (arg : Expression) (positionInQuery : Nat)
  | future (function : FutureFunction) (condition argument : Expression) (positionInQuery : Nat)
  | futureElement (element dueTime : Expression) (positionInQuery : Nat)
  | slidingWindow (window expression : Expression) (positionInQuery : Nat)

inductive Direction where
  | left | right | either
deriving DecidableEq

structure NodeMatch where
  annotationName : Option String
  labels : List String
  propertyPredicates : List Expression

structure RelationMatch where
  direction : Direction
  annotationName : Option String
  labels : List String
  propertyPredicates : List Expression

structure MatchClause where
  start : NodeMatch
  path : List (RelationMatch × NodeMatch)
  optional : Bool

inductive ProjectionClause where
  | item (items : List Expression)
  | groupBy (grouping aggregates : List Expression)

structure QueryPart where
  matchClauses : List MatchClause
  whereClauses : List Expression
  returnClause : ProjectionClause

structure Query where
  parts : List QueryPart

end DrasiCore
