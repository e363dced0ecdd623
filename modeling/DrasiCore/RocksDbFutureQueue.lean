import DrasiCore.FutureBag
import DrasiCore.SessionState

/-! The queue of futures in a database: one column family in order of due time, and one that finds the futures of a
function and group. Writes need the transaction of a session; the head is read from what is committed. -/

namespace DrasiCore

open Library

/-- A future with the position of the function that asked for it. Its digest is represented by itself. -/
abbrev StoredFuture := Nat × FutureElementRef

structure RocksDbFutureQueue where
  /-- The due time under the position, the group and the digest of a future. -/
  index : AList fun _ : (Nat × Signature) × StoredFuture => ElementTimestamp
  /-- The future under its due time and its digest. -/
  queue : AList fun _ : ElementTimestamp × StoredFuture => StoredFuture
  keyed : ∀ entry ∈ queue.entries, entry.1 = (entry.2.2.dueTime, entry.2)

namespace RocksDbFutureQueue

def empty : RocksDbFutureQueue := ⟨∅, ∅, fun _ member => nomatch member⟩

def storedFuture (positionInQuery : Nat) (groupSignature : Signature) (elementRef : ElementReference)
    (originalTime dueTime : ElementTimestamp) : StoredFuture :=
  (positionInQuery % 2 ^ 32, ⟨elementRef, originalTime, dueTime, groupSignature⟩)

variable (data : RocksDbFutureQueue)

def delete (indexKey : (Nat × Signature) × StoredFuture) (queueKey : ElementTimestamp × StoredFuture) :
    RocksDbFutureQueue where
  index := data.index.erase indexKey
  queue := data.queue.erase queueKey
  keyed entry member := data.keyed entry ((List.kerase_sublist _ _).subset member)

def removeInternal (groupKey : Nat × Signature) : RocksDbFutureQueue :=
  (data.index.entries.filter fun entry => entry.1.1 = groupKey).foldl
    (fun data entry => data.delete entry.1 (entry.2, entry.1.2)) data

def put (stored : StoredFuture) : RocksDbFutureQueue where
  index := data.index.insert ((stored.1, stored.2.groupSignature), stored) stored.2.dueTime
  queue := data.queue.insert (stored.2.dueTime, stored) stored
  keyed entry member := by
    rcases List.mem_cons.mp member with rfl | old
    · rfl
    · exact data.keyed entry ((List.kerase_sublist _ _).subset old)

def shouldPush (pushType : PushType) (positionInQuery : Nat) (groupSignature : Signature) : Bool :=
  match pushType with
  | .always => true
  | .ifNotExists => data.index.keys.all fun key => key.1 ≠ (positionInQuery % 2 ^ 32, groupSignature)
  | .overwrite => true

def push (pushType : PushType) (stored : StoredFuture) : RocksDbFutureQueue :=
  match pushType with
  | .overwrite => (data.removeInternal (stored.1, stored.2.groupSignature)).put stored
  | _ => data.put stored

/-- The entries no other precedes; among futures due at one time the order is that of their digests. -/
def heads : List (Sigma fun _ : ElementTimestamp × StoredFuture => StoredFuture) :=
  data.queue.entries.filter fun entry => data.queue.keys.all fun other => entry.1.1 ≤ other.1

def head? (order : IterationOrder) : Option (Sigma fun _ : ElementTimestamp × StoredFuture => StoredFuture) :=
  (order.arrange [] data.heads).head?

def dropHead (entry : Sigma fun _ : ElementTimestamp × StoredFuture => StoredFuture) : RocksDbFutureQueue :=
  data.delete ((entry.2.1, entry.2.2.groupSignature), entry.1.2) entry.1

def pushOutcome (pushType : PushType) (positionInQuery : Nat) (groupSignature : Signature) (elementRef : ElementReference)
    (originalTime dueTime : ElementTimestamp) : CallOutcome RocksDbFutureQueue Bool IndexError :=
  let stored := storedFuture positionInQuery groupSignature elementRef originalTime dueTime
  let shouldPush := data.shouldPush pushType positionInQuery groupSignature
  .returns (.ok shouldPush) (if shouldPush then [fun data => data.push pushType stored] else [])

def removeOutcome (positionInQuery : Nat) (groupSignature : Signature) : CallOutcome RocksDbFutureQueue Unit IndexError :=
  .returns (.ok ()) [fun data => data.removeInternal (positionInQuery % 2 ^ 32, groupSignature)]

def popOutcome (order : IterationOrder) : CallOutcome RocksDbFutureQueue (Option FutureElementRef) IndexError :=
  match data.head? order with
  | some entry => .returns (.ok (some entry.2.2)) [fun data => data.dropHead entry]
  | none => .returns (.ok none) []

def peekDueTime : Option ElementTimestamp := (data.queue.keys.map (·.1)).min?

def dueTimes : Multiset ElementTimestamp := data.queue.entries.map (·.2.2.dueTime)

end RocksDbFutureQueue

/-- Of the stores of a query only the queue of futures is looked at. -/
def QueueStores : StoreFamily → Type
  | .futureQueue => RocksDbFutureQueue
  | _ => Unit

namespace RocksDbFutureQueue

def ofStores (stores : Stores QueueStores) : RocksDbFutureQueue := stores .futureQueue

def pushCall (pushType : PushType) (positionInQuery : Nat) (groupSignature : Signature) (elementRef : ElementReference)
    (originalTime dueTime : ElementTimestamp) : StoreCall QueueStores Bool IndexError .futureQueue := fun _ session =>
  (ofStores session).pushOutcome pushType positionInQuery groupSignature elementRef originalTime dueTime

def removeCall (positionInQuery : Nat) (groupSignature : Signature) :
    StoreCall QueueStores Unit IndexError .futureQueue := fun _ _ => removeOutcome positionInQuery groupSignature

def popCall (order : IterationOrder) : StoreCall QueueStores (Option FutureElementRef) IndexError .futureQueue :=
  fun _ session => (ofStores session).popOutcome order

end RocksDbFutureQueue

end DrasiCore
