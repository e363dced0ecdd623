import DrasiCore.Context
import DrasiCore.Library.IterationOrder

/-! The in-memory queue of futures. -/

namespace DrasiCore

open Library

inductive PushType where
  | always | ifNotExists | overwrite
deriving DecidableEq

def timestampAsI64 (timestamp : ElementTimestamp) : Int :=
  let wrapped : Int := (timestamp % 2 ^ 64 : Nat)
  if wrapped ≤ i64Max then wrapped else wrapped - 2 ^ 64

/-- The priority of a due time: its negation in 64 bits, where the least integer is its own negation. -/
def duePriority (dueTime : ElementTimestamp) : Int :=
  if timestampAsI64 dueTime = i64Min then i64Min else -timestampAsI64 dueTime

/-- `queue` holds the futures with the position of the function that asked for them. `map` holds, for every function
and group, the due times asked for, each with the time and the element of the request. -/
structure InMemoryFutureQueue where
  queue : List (Nat × FutureElementRef)
  map : Nat → Signature → OrderedMap ElementTimestamp (ElementTimestamp × ElementReference)

namespace InMemoryFutureQueue

def empty : InMemoryFutureQueue := ⟨[], fun _ _ => .empty⟩

variable (data : InMemoryFutureQueue)

def remove (positionInQuery : Nat) (groupSignature : Signature) : InMemoryFutureQueue where
  queue :=
    (data.map positionInQuery groupSignature).entries.foldl
      (fun queue entry => queue.erase (positionInQuery, ⟨entry.2.2, entry.2.1, entry.1, groupSignature⟩)) data.queue
  map := fun position signature =>
    if position = positionInQuery ∧ signature = groupSignature then .empty else data.map position signature

def add (positionInQuery : Nat) (groupSignature : Signature)
    (elementRef : ElementReference) (originalTime dueTime : ElementTimestamp) : InMemoryFutureQueue where
  queue := data.queue.insert (positionInQuery, ⟨elementRef, originalTime, dueTime, groupSignature⟩)
  map := fun position signature =>
    if position = positionInQuery ∧ signature = groupSignature then
      (data.map position signature).insert dueTime (originalTime, elementRef)
    else data.map position signature

def push (pushType : PushType) (positionInQuery : Nat) (groupSignature : Signature)
    (elementRef : ElementReference) (originalTime dueTime : ElementTimestamp) : InMemoryFutureQueue :=
  match pushType with
  | .always => data.add positionInQuery groupSignature elementRef originalTime dueTime
  | .ifNotExists =>
    if (data.map positionInQuery groupSignature).entries.isEmpty then
      data.add positionInQuery groupSignature elementRef originalTime dueTime
    else data
  | .overwrite =>
    (data.remove positionInQuery groupSignature).add positionInQuery groupSignature elementRef originalTime dueTime

/-- The futures no other precedes; which of them comes first is up to the queue. -/
def heads : List (Nat × FutureElementRef) :=
  data.queue.filter fun entry =>
    data.queue.all fun other => duePriority other.2.dueTime ≤ duePriority entry.2.dueTime

def pop (order : IterationOrder) : Option FutureElementRef × InMemoryFutureQueue :=
  match (order.arrange [] data.heads).head? with
  | none => (none, data)
  | some (position, futureRef) =>
    (some futureRef,
      { queue := data.queue.erase (position, futureRef)
        map := fun other signature =>
          if other = position ∧ signature = futureRef.groupSignature then
            (data.map other signature).erase futureRef.dueTime
          else data.map other signature })

def peekDueTime : Option ElementTimestamp := data.heads.head?.map (·.2.dueTime)

end InMemoryFutureQueue

end DrasiCore
