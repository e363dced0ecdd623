import DrasiCore.ResultIndex

/-! The aggregating functions: how they change their accumulators and what they return. -/

namespace DrasiCore

open Library

structure SortedSetEntryCount where
  snapshot : Int
  delta : Int

/-- A sorted set as stored, with the changes of one evaluation on top. -/
structure LazySortedSet where
  setId : SortedSetId
  changeLog : OrderedMap Rat SortedSetEntryCount

namespace LazySortedSet

def new (positionInQuery : Nat) (groupingValues : List VariableValue) : LazySortedSet :=
  ⟨⟨positionInQuery, groupingValues.map VariableValue.groupingIdentity⟩, .empty⟩

def headFrom (set : LazySortedSet) (store : InMemoryResultIndex) :
    List (Rat × SortedSetEntryCount) → Option (Rat × Int) → Option Rat
  | [], storageCursor => storageCursor.map (·.1)
  | (value, entry) :: changes, storageCursor =>
    match storageCursor with
    | some (stored, _) =>
      if stored < value then some stored
      else if 0 < entry.snapshot + entry.delta then some value
      else headFrom set store changes (store.getNext set.setId (some stored))
    | none => if 0 < entry.snapshot + entry.delta then some value else headFrom set store changes none

variable (set : LazySortedSet) (store : InMemoryResultIndex)

def getHead : Option Rat :=
  set.headFrom store set.changeLog.entries (store.getNext set.setId none)

def change (value : Rat) (delta : Int) : LazySortedSet :=
  match set.changeLog.get? value with
  | some entry =>
    { set with changeLog := set.changeLog.insert value { entry with delta := entry.delta + delta } }
  | none =>
    { set with changeLog := set.changeLog.insert value ⟨store.getValueCount set.setId value, delta⟩ }

def insert (value : Rat) : LazySortedSet := set.change store value 1

def remove (value : Rat) : LazySortedSet := set.change store value (-1)

/-- Write the changes to the store; the first that fails ends the commit. -/
def commitFrom (setId : SortedSetId) :
    List (Rat × SortedSetEntryCount) → InMemoryResultIndex → Except EvaluationError Unit × InMemoryResultIndex
  | [], store => (.ok (), store)
  | (value, entry) :: changes, store =>
    match store.incrementValueCount setId value entry.delta with
    | (.ok _, next) => commitFrom setId changes next
    | (.error error, next) => (.error error, next)

def commit : Except EvaluationError Unit × InMemoryResultIndex :=
  commitFrom set.setId set.changeLog.entries store

end LazySortedSet

inductive Accumulator where
  | value (accumulator : ValueAccumulator)
  | lazySortedSet (set : LazySortedSet)

/-- The conversion of a float to a 64-bit integer: towards zero, and to the nearest bound beyond the range. -/
def truncateToI64 (value : Rat) : Int :=
  max i64Min (min i64Max (if 0 ≤ value then value.floor else value.ceil))

def nanosPerMilli : Int := 1000000

def millisPerDay : Int := 86400000

/-- What an aggregating function returns, and its accumulator afterwards. -/
abbrev AggregateResult := Except FunctionEvaluationError (VariableValue × Accumulator)

/-! ### Count -/

variable (arg : VariableValue) (accumulator : Accumulator)

namespace Count

def result (value : Int) : AggregateResult := .ok (.integer value, .value (.count value))

def change (delta : Int) : AggregateResult :=
  match accumulator with
  | .value (.count value) => result (if arg = .null then value else value + delta)
  | _ => .error .corruptData

def apply : AggregateResult := change arg accumulator 1

def revert : AggregateResult := change arg accumulator (-1)

def snapshot : AggregateResult :=
  match accumulator with
  | .value (.count value) => result value
  | _ => .error .corruptData

end Count

/-- The amount a value adds to a sum, and whether the sum is one of durations. -/
inductive Summand where
  | number (amount : Rat)
  | milliseconds (amount : Rat)
  | nothing

/-- Numbers and durations can be added up; null adds nothing. -/
def summand : VariableValue → Except FunctionEvaluationError Summand
  | .float value => .ok (.number value)
  | .integer value => (VariableValue.integerAsI64 value).elim (.error .overflowError) fun number => .ok (.number number)
  | .duration nanos _ _ => .ok (.milliseconds (nanos.tdiv nanosPerMilli))
  | .null => .ok .nothing
  | _ => .error (.invalidArgument 0)

def durationOfMillis (amount : Rat) : VariableValue := .duration (truncateToI64 amount * nanosPerMilli) 0 0

/-! ### Sum -/

variable (sign : Rat)

namespace Sum

def change : AggregateResult :=
  match accumulator with
  | .value (.sum value) => do
    match ← summand arg with
    | .number amount => .ok (.float (value + sign * amount), .value (.sum (value + sign * amount)))
    | .milliseconds amount => .ok (durationOfMillis (value + sign * amount), .value (.sum (value + sign * amount)))
    | .nothing => .ok (.float value, accumulator)
  | _ => .error .corruptData

def apply : AggregateResult := change arg accumulator 1

def revert : AggregateResult := change arg accumulator (-1)

/-- The argument decides the type of the result only; an integer out of range is no error here. -/
def snapshot : AggregateResult :=
  match accumulator with
  | .value (.sum value) =>
    match arg with
    | .float _ | .integer _ | .null => .ok (.float value, accumulator)
    | .duration .. => .ok (durationOfMillis value, accumulator)
    | _ => .error (.invalidArgument 0)
  | _ => .error .corruptData

end Sum

/-! ### Avg -/

namespace Avg

def apply : AggregateResult :=
  match accumulator with
  | .value (.avg sum count) => do
    match ← summand arg with
    | .number amount => .ok (.float ((sum + amount) / (count + 1 : Int)), .value (.avg (sum + amount) (count + 1)))
    | .milliseconds amount =>
      .ok (durationOfMillis ((sum + amount) / (count + 1 : Int)), .value (.avg (sum + amount) (count + 1)))
    | .nothing => .ok (.float (sum / count), accumulator)
  | _ => .error .corruptData

def revert : AggregateResult :=
  match accumulator with
  | .value (.avg sum count) => do
    match ← summand arg with
    | .number amount =>
      let value := if count - 1 = 0 then 0 else (sum - amount) / (count - 1 : Int)
      .ok (.float value, .value (.avg (sum - amount) (count - 1)))
    | .milliseconds amount =>
      let value := if count - 1 = 0 then .float 0 else durationOfMillis ((sum - amount) / (count - 1 : Int))
      .ok (value, .value (.avg (sum - amount) (count - 1)))
    | .nothing => .ok (.float (sum / count), accumulator)
  | _ => .error .corruptData

def snapshot : AggregateResult :=
  match accumulator with
  | .value (.avg sum count) =>
    if count = 0 then .ok (.float 0, accumulator)
    else
      match arg with
      | .float _ | .integer _ => .ok (.float (sum / count), accumulator)
      | .duration .. => .ok (durationOfMillis (sum / count), accumulator)
      | _ => .error (.invalidArgument 0)
  | _ => .error .corruptData

end Avg

/-! ### Min and Max

Both keep their values in a sorted set and return its head, `Max` with the sign turned around. -/

namespace Extremum

/-- The number a value is sorted by; null is left out of the set. -/
def sortKey : VariableValue → Except FunctionEvaluationError (Option Rat)
  | .float value => .ok (some value)
  | .integer value =>
    (VariableValue.integerAsI64 value).elim (.error .overflowError) fun number => .ok (some number)
  | .zonedDateTime nanos _ _ => .ok (some (nanos.fdiv nanosPerMilli))
  | .duration nanos _ _ => .ok (some (nanos.tdiv nanosPerMilli))
  | .date days => .ok (some days)
  | .localTime nanos => .ok (some (nanos.tdiv nanosPerMilli))
  | .localDateTime nanos => .ok (some (nanos.fdiv nanosPerMilli))
  | .zonedTime nanos offset => .ok (some ((nanos - offset * 1000 * nanosPerMilli).fdiv nanosPerMilli))
  | .null => .ok none
  | _ => .error (.invalidArgument 0)

/-- The head of the set as a value of the argument's type. A time of day is counted from `midnight`. -/
def temporalValue (head : Rat) (midnight : Int) : VariableValue :=
  let number := truncateToI64 head
  match arg with
  | .zonedDateTime .. => .zonedDateTime (number * nanosPerMilli) 0 none
  | .duration .. => .duration (number * nanosPerMilli) 0 0
  | .date _ => .date number
  | .localTime _ => .localTime (number % millisPerDay * nanosPerMilli)
  | .localDateTime _ => .localDateTime (number * nanosPerMilli)
  | .zonedTime .. => .zonedTime ((midnight + number * nanosPerMilli) % (millisPerDay * nanosPerMilli)) 0
  | _ => .null

def headValue (head : Rat) : VariableValue :=
  match arg with
  | .float _ | .integer _ => .float head
  | .zonedTime nanos _ => temporalValue arg head nanos
  | _ => temporalValue arg head 0

variable (store : InMemoryResultIndex) (arg : VariableValue) (accumulator : Accumulator)

def change (delta : Int) : AggregateResult :=
  match accumulator with
  | .lazySortedSet set => do
    match ← sortKey arg with
    | none => .ok (.null, accumulator)
    | some key =>
      let changed := set.change store (sign * key) delta
      .ok ((changed.getHead store).elim .null fun head => headValue arg (sign * head), .lazySortedSet changed)
  | _ => .error .corruptData

def apply :
    AggregateResult := change sign store arg accumulator 1

def revert :
    AggregateResult := change sign store arg accumulator (-1)

/-- Unlike the other two, a snapshot for an integer argument is an integer. -/
def snapshot : AggregateResult :=
  match accumulator with
  | .lazySortedSet set =>
    match set.getHead store with
    | none => .ok (.null, accumulator)
    | some head =>
      match arg with
      | .float _ => .ok (.float (sign * head), accumulator)
      | .integer _ => .ok (.integer (truncateToI64 (sign * head)), accumulator)
      | .zonedDateTime .. | .duration .. | .date _ | .localTime _ | .localDateTime _ | .zonedTime .. =>
        .ok (temporalValue arg (sign * head) 0, accumulator)
      | .null => .ok (.null, accumulator)
      | _ => .error (.invalidArgument 0)
  | _ => .error .corruptData

end Extremum

namespace AggregateFunction

def functionName : AggregateFunction → String
  | .count => "Count"
  | .sum => "Sum"
  | .avg => "Avg"
  | .min => "Min"
  | .max => "Max"

variable (function : AggregateFunction)

def initializeAccumulator (positionInQuery : Nat) (groupingKeys : List VariableValue) : Accumulator :=
  match function with
  | .count => .value (.count 0)
  | .sum => .value (.sum 0)
  | .avg => .value (.avg 0 0)
  | .min | .max => .lazySortedSet (.new positionInQuery groupingKeys)

def accumulatorIsLazy : AggregateFunction → Bool
  | .min | .max => true
  | _ => false

variable (store : InMemoryResultIndex) (arg : VariableValue) (accumulator : Accumulator)

def apply : AggregateResult :=
  match function with
  | .count => Count.apply arg accumulator
  | .sum => Sum.apply arg accumulator
  | .avg => Avg.apply arg accumulator
  | .min => Extremum.apply 1 store arg accumulator
  | .max => Extremum.apply (-1) store arg accumulator

def revert : AggregateResult :=
  match function with
  | .count => Count.revert arg accumulator
  | .sum => Sum.revert arg accumulator
  | .avg => Avg.revert arg accumulator
  | .min => Extremum.revert 1 store arg accumulator
  | .max => Extremum.revert (-1) store arg accumulator

def snapshot : AggregateResult :=
  match function with
  | .count => Count.snapshot accumulator
  | .sum => Sum.snapshot arg accumulator
  | .avg => Avg.snapshot arg accumulator
  | .min => Extremum.snapshot 1 store arg accumulator
  | .max => Extremum.snapshot (-1) store arg accumulator

end AggregateFunction

end DrasiCore
