import DrasiCore.Context
import Mathlib.Algebra.Order.Ring.Rat

/-! The in-memory result index: accumulators of aggregates and the sorted value sets behind minimum and maximum. Keys
are hashed in the program; as everywhere, a digest is represented by what was hashed. -/

namespace DrasiCore

open Library

inductive ResultOwner where
  | function (positionInQuery : Nat)
  | partCurrent (partNum : Nat)
  | partDefault (partNum : Nat)
deriving DecidableEq

inductive ResultKey where
  /-- Grouping values by their identities. -/
  | groupBy (identities : List VariableValue)
  | inputHash (hash : Signature)
  | element (reference : ElementReference)
deriving DecidableEq

namespace ResultKey

def ofGrouping (values : List VariableValue) : ResultKey := .groupBy (values.map VariableValue.groupingIdentity)

def groupbyFromVariables (keys : List String) (queryVariables : QueryVariables) : ResultKey :=
  ofGrouping (keys.map fun key => (queryVariables.get? key).getD .null)

end ResultKey

inductive ValueAccumulator where
  | count (value : Int)
  | sum (value : Rat)
  | avg (sum : Rat) (count : Int)
  | timeMarker (timestamp : ElementTimestamp)
  | signature (hash : Signature)
deriving DecidableEq

/-- A sorted set belongs to one function of the query and one group. -/
structure SortedSetId where
  positionInQuery : Nat
  identities : List VariableValue
deriving DecidableEq

structure InMemoryResultIndex where
  values : ResultOwner → ResultKey → Option ValueAccumulator
  sortedSets : SortedSetId → OrderedMap Rat Int

namespace InMemoryResultIndex

def empty : InMemoryResultIndex := ⟨fun _ _ => none, fun _ => .empty⟩

variable (index : InMemoryResultIndex)

def get (key : ResultKey) (owner : ResultOwner) : Option ValueAccumulator :=
  index.values owner key

def set (key : ResultKey) (owner : ResultOwner) (value : Option ValueAccumulator) : InMemoryResultIndex :=
  { index with
    values := fun other otherKey => if other = owner ∧ otherKey = key then value else index.values other otherKey }

variable (setId : SortedSetId)

def getNext (after : Option Rat) : Option (Rat × Int) :=
  match after with
  | none => (index.sortedSets setId).entries.head?
  | some value => (index.sortedSets setId).entries.find? fun entry => value < entry.1

def getValueCount (value : Rat) : Int :=
  ((index.sortedSets setId).get? value).getD 0

/-- A count that falls below zero is reported, and stays in the set. -/
def incrementValueCount (value : Rat) (delta : Int) : Except EvaluationError Unit × InMemoryResultIndex :=
  if delta = 0 then (.ok (), index)
  else
    let count := index.getValueCount setId value + delta
    let set := index.sortedSets setId
    let changed := if count = 0 then set.erase value else set.insert value count
    let next : InMemoryResultIndex :=
      { index with sortedSets := fun other => if other = setId then changed else index.sortedSets other }
    if count < 0 then (.error .corruptData, next) else (.ok (), next)

end InMemoryResultIndex

end DrasiCore
