import DrasiCore.RocksDbFutureQueue

/-! The queue of futures behind a shadow of its head. The task that processes changes pushes, removes and pops inside
sessions; the polling task peeks at any time. The shadow has a lock: a peek that does not know the head holds it from
before it reads the database until it has entered what it read. -/

namespace DrasiCore

open Library

inductive HeadItemShadow where
  | known (head : Option ElementTimestamp)
  | unknown
deriving DecidableEq

/-- A push whose inner call has returned, with its answer, and which has yet to look at the shadow. -/
structure PendingPush where
  pushType : PushType
  result : Bool
  dueTime : ElementTimestamp
deriving DecidableEq

structure ShadowedFutureQueue where
  session : SessionState QueueStores
  headShadow : HeadItemShadow
  pushing : Option PendingPush
  /-- What the peek that holds the shadow has read. -/
  peeking : Option (Option ElementTimestamp)

def HeadItemShadow.pushed (shadow : HeadItemShadow) (push : PendingPush) : HeadItemShadow :=
  if push.pushType = .overwrite then .unknown
  else if push.result then
    match shadow with
    | .known (some head) => if push.dueTime < head then .known (some push.dueTime) else .known (some head)
    | .known none => .known (some push.dueTime)
    | .unknown => .unknown
  else shadow

inductive ShadowAction where
  | begin
  | commit (outcome : CommitOutcome)
  | rollback
  | pushInner (pushType : PushType) (positionInQuery : Nat) (groupSignature : Signature) (elementRef : ElementReference)
    (originalTime dueTime : ElementTimestamp)
  | pushShadow
  | remove (positionInQuery : Nat) (groupSignature : Signature)
  | pop (order : IterationOrder)
  | peekRead
  | peekStore
  | peekDropped

namespace ShadowedFutureQueue

def new (committed : Stores QueueStores) : ShadowedFutureQueue := ⟨.new committed, .unknown, none, none⟩

def committed (queue : ShadowedFutureQueue) : RocksDbFutureQueue := .ofStores queue.session.committed

def view (queue : ShadowedFutureQueue) : RocksDbFutureQueue := .ofStores queue.session.view

/-- The inner call of a push; one that fails ends the push. -/
def pushInner (queue : ShadowedFutureQueue) (pushType : PushType) (positionInQuery : Nat) (groupSignature : Signature)
    (elementRef : ElementReference) (originalTime dueTime : ElementTimestamp) : ShadowedFutureQueue :=
  match queue.session.withTxn id .futureQueue
      (RocksDbFutureQueue.pushCall pushType positionInQuery groupSignature elementRef originalTime dueTime) with
  | (.ok result, session) => { queue with session := session, pushing := some ⟨pushType, result, dueTime⟩ }
  | (.error _, session) => { queue with session := session }

def remove (queue : ShadowedFutureQueue) (positionInQuery : Nat) (groupSignature : Signature) : ShadowedFutureQueue :=
  { queue with
    headShadow := .unknown
    session := (queue.session.withTxn id .futureQueue (RocksDbFutureQueue.removeCall positionInQuery groupSignature)).2 }

def pop (queue : ShadowedFutureQueue) (order : IterationOrder) : ShadowedFutureQueue :=
  { queue with
    headShadow := .unknown
    session := (queue.session.withTxn id .futureQueue (RocksDbFutureQueue.popCall order)).2 }

/-- What a peek answers that is called now: it waits for the one that holds the shadow, and reads the database where the
head is not known. -/
def peekDueTime (queue : ShadowedFutureQueue) : Option ElementTimestamp :=
  match queue.peeking with
  | some read => read
  | none =>
    match queue.headShadow with
    | .known head => head
    | .unknown => queue.committed.peekDueTime

/-- One task processes changes, so that none of its steps is taken while it is inside a push; the steps that look at the
shadow wait for the peek that holds it. -/
inductive Step : ShadowAction → ShadowedFutureQueue → ShadowedFutureQueue → Prop
  | begin {queue} (idle : queue.pushing = none) : Step .begin queue { queue with session := queue.session.begin.2 }
  | commit {queue} (outcome) (idle : queue.pushing = none) :
    Step (.commit outcome) queue { queue with session := (queue.session.commit outcome).2 }
  | rollback {queue} (idle : queue.pushing = none) :
    Step .rollback queue { queue with session := queue.session.rollback.2 }
  | pushInner {queue} (pushType positionInQuery groupSignature elementRef originalTime dueTime)
      (idle : queue.pushing = none) :
    Step (.pushInner pushType positionInQuery groupSignature elementRef originalTime dueTime) queue
      (queue.pushInner pushType positionInQuery groupSignature elementRef originalTime dueTime)
  | pushShadow {queue} {push} (pending : queue.pushing = some push) (free : queue.peeking = none) :
    Step .pushShadow queue { queue with headShadow := queue.headShadow.pushed push, pushing := none }
  | remove {queue} (positionInQuery groupSignature) (idle : queue.pushing = none) (free : queue.peeking = none) :
    Step (.remove positionInQuery groupSignature) queue (queue.remove positionInQuery groupSignature)
  | pop {queue} (order) (idle : queue.pushing = none) (free : queue.peeking = none) :
    Step (.pop order) queue (queue.pop order)
  | peekRead {queue} (free : queue.peeking = none) (unknown : queue.headShadow = .unknown) :
    Step .peekRead queue { queue with peeking := some queue.committed.peekDueTime }
  | peekStore {queue} {read} (holds : queue.peeking = some read) :
    Step .peekStore queue { queue with headShadow := .known read, peeking := none }
  | peekDropped {queue} {read} (holds : queue.peeking = some read) :
    Step .peekDropped queue { queue with peeking := none }

def Reached (allowed : ShadowedFutureQueue → ShadowAction → Prop) (start queue : ShadowedFutureQueue) : Prop :=
  Relation.ReflTransGen (fun before after => ∃ action, allowed before action ∧ Step action before after) start queue

end ShadowedFutureQueue

end DrasiCore
