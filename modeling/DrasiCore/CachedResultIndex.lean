import DrasiCore.ResultIndex
import DrasiCore.Library.Lru

/-! The result index behind a cache: accumulators and value counts are kept in two bounded maps in front of an index
that holds them all. -/

namespace DrasiCore

open Library InMemoryResultIndex

/-- An index of accumulators and of sorted sets of counted values. -/
class ResultIndex (Value : outParam Type) (Index : Type) where
  get : Index → ResultKey → ResultOwner → Option ValueAccumulator
  set : Index → ResultKey → ResultOwner → Option ValueAccumulator → Index
  getNext : Index → SortedSetId → Option Value → Option (Value × Int)
  getValueCount : Index → SortedSetId → Value → Int
  incrementValueCount : Index → SortedSetId → Value → Int → Except EvaluationError Unit × Index
  clear : Index → Index

/-- The index behaves as a map of accumulators with a count for each value of each set. An increment that is reported as
an error has changed its count all the same. -/
class LawfulResultIndex (Value : outParam Type) (Index : Type) [DecidableEq Value] [ResultIndex Value Index] : Prop where
  get_set (index : Index) (key : ResultKey) (owner : ResultOwner) (value : Option ValueAccumulator) (other : ResultKey)
      (otherOwner : ResultOwner) :
    ResultIndex.get (ResultIndex.set index key owner value) other otherOwner =
      if otherOwner = owner ∧ other = key then value else ResultIndex.get index other otherOwner
  count_set (index : Index) (key : ResultKey) (owner : ResultOwner) (value : Option ValueAccumulator) (setId : SortedSetId)
      (counted : Value) :
    ResultIndex.getValueCount (ResultIndex.set index key owner value) setId counted =
      ResultIndex.getValueCount index setId counted
  get_increment (index : Index) (setId : SortedSetId) (value : Value) (delta : Int) (key : ResultKey)
      (owner : ResultOwner) :
    ResultIndex.get (ResultIndex.incrementValueCount index setId value delta).2 key owner = ResultIndex.get index key owner
  count_increment (index : Index) (setId : SortedSetId) (value : Value) (delta : Int) (otherId : SortedSetId)
      (other : Value) :
    ResultIndex.getValueCount (ResultIndex.incrementValueCount index setId value delta).2 otherId other =
      if otherId = setId ∧ other = value then ResultIndex.getValueCount index setId value + delta
      else ResultIndex.getValueCount index otherId other
  get_clear (index : Index) (key : ResultKey) (owner : ResultOwner) :
    ResultIndex.get (ResultIndex.clear index) key owner = none
  count_clear (index : Index) (setId : SortedSetId) (value : Value) :
    ResultIndex.getValueCount (ResultIndex.clear index) setId value = 0

def ResultIndex.Refuses {Value Index : Type} [ResultIndex Value Index] (index : Index) (setId : SortedSetId)
    (value : Value) (delta : Int) : Prop :=
  ∃ error, (ResultIndex.incrementValueCount index setId value delta).1 = .error error

inductive ResultCall (Value : Type) where
  | get (key : ResultKey) (owner : ResultOwner)
  | set (key : ResultKey) (owner : ResultOwner) (value : Option ValueAccumulator)
  | getNext (setId : SortedSetId) (after : Option Value)
  | getValueCount (setId : SortedSetId) (value : Value)
  | incrementValueCount (setId : SortedSetId) (value : Value) (delta : Int)
  | clear

inductive ResultAnswer (Value : Type) where
  | accumulator (value : Option ValueAccumulator)
  | next (entry : Option (Value × Int))
  | count (value : Int)
  | done (result : Except EvaluationError Unit)
deriving DecidableEq

def ResultIndex.perform {Value Index : Type} [ResultIndex Value Index] (index : Index) :
    ResultCall Value → ResultAnswer Value × Index
  | .get key owner => (.accumulator (get index key owner), index)
  | .set key owner value => (.done (.ok ()), set index key owner value)
  | .getNext setId after => (.next (getNext index setId after), index)
  | .getValueCount setId value => (.count (getValueCount index setId value), index)
  | .incrementValueCount setId value delta =>
    let incremented := incrementValueCount index setId value delta
    (.done incremented.1, incremented.2)
  | .clear => (.done (.ok ()), clear index)

structure CachedResultIndex (Value Index : Type) [DecidableEq Value] where
  inner : Index
  valueCache : Lru (ResultOwner × ResultKey) ValueAccumulator
  setCountCache : Lru (SortedSetId × Value) Int

namespace CachedResultIndex

variable {Value Index : Type} [DecidableEq Value] [ResultIndex Value Index]

def new (inner : Index) (cacheSize : Nat) : CachedResultIndex Value Index := ⟨inner, .new cacheSize, .new cacheSize⟩

variable (index : CachedResultIndex Value Index)

def clear : CachedResultIndex Value Index :=
  ⟨ResultIndex.clear index.inner, index.valueCache.purge, index.setCountCache.purge⟩

def get (key : ResultKey) (owner : ResultOwner) : Option ValueAccumulator × CachedResultIndex Value Index :=
  match index.valueCache.get (owner, key) with
  | (some value, cache) => (some value, { index with valueCache := cache })
  | (none, cache) =>
    match ResultIndex.get index.inner key owner with
    | some value => (some value, { index with valueCache := cache.put (owner, key) value })
    | none => (none, { index with valueCache := cache })

def set (key : ResultKey) (owner : ResultOwner) (value : Option ValueAccumulator) : CachedResultIndex Value Index :=
  let inner := ResultIndex.set index.inner key owner value
  match value with
  | none => { index with inner := inner, valueCache := index.valueCache.remove (owner, key) }
  | some value => { index with inner := inner, valueCache := index.valueCache.put (owner, key) value }

variable (setId : SortedSetId)

def getNext (after : Option Value) : Option (Value × Int) :=
  ResultIndex.getNext index.inner setId after

def getValueCount (value : Value) : Int × CachedResultIndex Value Index :=
  match index.setCountCache.get (setId, value) with
  | (some count, cache) => (count, { index with setCountCache := cache })
  | (none, cache) =>
    let count := ResultIndex.getValueCount index.inner setId value
    (count, { index with setCountCache := cache.put (setId, value) count })

/-- A count that is not cached is entered as the increment itself. -/
def incrementValueCount (value : Value) (delta : Int) : Except EvaluationError Unit × CachedResultIndex Value Index :=
  match ResultIndex.incrementValueCount index.inner setId value delta with
  | (.error error, inner) => (.error error, { index with inner := inner })
  | (.ok (), inner) =>
    let cache := match index.setCountCache.get (setId, value) with
      | (none, cache) => cache.put (setId, value) delta
      | (some count, cache) => cache.put (setId, value) (count + delta)
    (.ok (), { index with inner := inner, setCountCache := cache })

def perform : ResultCall Value → ResultAnswer Value × CachedResultIndex Value Index
  | .get key owner =>
    let found := index.get key owner
    (.accumulator found.1, found.2)
  | .set key owner value => (.done (.ok ()), index.set key owner value)
  | .getNext setId after => (.next (index.getNext setId after), index)
  | .getValueCount setId value =>
    let counted := index.getValueCount setId value
    (.count counted.1, counted.2)
  | .incrementValueCount setId value delta =>
    let incremented := index.incrementValueCount setId value delta
    (.done incremented.1, incremented.2)
  | .clear => (.done (.ok ()), index.clear)

def performAll (calls : List (ResultCall Value)) : CachedResultIndex Value Index :=
  calls.foldl (fun index call => (index.perform call).2) index

end CachedResultIndex

def ResultIndex.performAll {Value Index : Type} [ResultIndex Value Index] (index : Index)
    (calls : List (ResultCall Value)) : Index :=
  calls.foldl (fun index call => (perform index call).2) index

def InMemoryResultIndex.clear (_ : InMemoryResultIndex) : InMemoryResultIndex := .empty

instance : ResultIndex Rat InMemoryResultIndex where
  get := get
  set := set
  getNext := getNext
  getValueCount := getValueCount
  incrementValueCount := incrementValueCount
  clear := clear

end DrasiCore
