import DrasiCore.Aggregation

/-! The aggregating function for the slope of a regression line, with its means and sums of products updated call by call.
Doubles are taken exactly. -/

namespace DrasiCore

structure LinearGradient where
  count : Int
  meanX : Rat
  meanY : Rat
  m2 : Rat
  cov : Rat
deriving DecidableEq

namespace LinearGradient

abbrev FunctionError := String × FunctionEvaluationError

def initializeAccumulator : LinearGradient := ⟨0, 0, 0, 0, 0⟩

def extractParameter (parameter : VariableValue) (index : Nat) : Except FunctionError Rat :=
  match parameter with
  | .float value => .ok value
  | .integer value =>
    (VariableValue.integerAsI64 value).elim (.error ("LinearGradient", .overflowError)) fun number => .ok number
  | .duration nanos _ _ => .ok (nanos.tdiv nanosPerMilli)
  | .localDateTime nanos => .ok (nanos.fdiv nanosPerMilli)
  | .zonedDateTime nanos _ _ => .ok (nanos.fdiv nanosPerMilli)
  | .date days => .ok (days * millisPerDay)
  | .localTime nanos => .ok (nanos.tdiv (1000 * nanosPerMilli))
  | .zonedTime nanos _ => .ok (nanos.tdiv (1000 * nanosPerMilli))
  | _ => .error ("LinearGradient", .invalidArgument index)

def variance (m2 : Rat) (count : Int) : Rat := if count < 2 then 0 else m2 / (count - 1)

def covariance (cov : Rat) (count : Int) : Rat := if count < 2 then 0 else cov / (count - 1)

variable (state : LinearGradient)

/-- The quotient of covariance and variance: nothing by nothing is not a number and becomes null, anything else by nothing is
not finite and becomes the default. -/
def result : VariableValue :=
  let dividend := covariance state.cov state.count
  let divisor := variance state.m2 state.count
  if divisor = 0 then if dividend = 0 then .null else .float 0 else .float (dividend / divisor)

def add (x y : Rat) : LinearGradient :=
  let count := state.count + 1
  let deltaX := x - state.meanX
  let deltaY := y - state.meanY
  let meanX := state.meanX + deltaX / count
  let meanY := state.meanY + deltaY / count
  ⟨count, meanX, meanY, state.m2 + deltaX * (x - meanX), state.cov + deltaX * (y - meanY)⟩

def subtract (x y : Rat) : LinearGradient :=
  let count := state.count - 1
  let deltaX := x - state.meanX
  let deltaY := y - state.meanY
  let meanX := state.meanX - deltaX / count
  let meanY := state.meanY - deltaY / count
  ⟨count, meanX, meanY, state.m2 - deltaX * (x - meanX), state.cov - deltaX * (y - meanY)⟩

variable (args : List VariableValue)

def apply (state : LinearGradient) : Except FunctionError (VariableValue × LinearGradient) :=
  match args with
  | [first, second] =>
    if first = .null ∨ second = .null then .ok (.null, state)
    else do
      let x ← extractParameter first 0
      let y ← extractParameter second 1
      return ((state.add x y).result, state.add x y)
  | _ => .error ("linearGradient", .invalidArgumentCount)

def revert (state : LinearGradient) : Except FunctionError (VariableValue × LinearGradient) :=
  match args with
  | [first, second] =>
    if first = .null ∨ second = .null then .ok (.null, state)
    else do
      let x ← extractParameter first 0
      let y ← extractParameter second 1
      if state.count - 1 = 0 then return (.null, initializeAccumulator)
      return ((state.subtract x y).result, state.subtract x y)
  | _ => .error ("linearGradient", .invalidArgumentCount)

def snapshot (state : LinearGradient) : Except FunctionError VariableValue :=
  if args.length = 2 then .ok (if state.count = 0 then .null else state.result)
  else .error ("linearGradient", .invalidArgumentCount)

end LinearGradient

end DrasiCore
