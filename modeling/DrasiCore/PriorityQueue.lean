import DrasiCore.Library.Notify
import Mathlib.Algebra.BigOperators.Fin

/-! The bounded priority queue between the sources of a query and its processor. Producers that find it full and the
consumer that finds it empty wait on the same notification cell. -/

namespace DrasiCore

open Library

/-- Where a task stands between two steps. `idle` is before the check under the lock of the heap; `notifying` is after it,
with the change made and the notification still to be sent; a `woken` task has been notified and did not run since. -/
inductive TaskPhase where
  | idle
  | notifying
  | parked
  | woken
deriving DecidableEq

def TaskPhase.running (phase : TaskPhase) : Bool := phase = .idle || phase = .woken

inductive QueueTask (count : Nat) where
  | producer (index : Fin count)
  | consumer
deriving DecidableEq

/-- A producer with the events it has still to enqueue, one call after another. -/
structure Producer (E : Type) where
  phase : TaskPhase
  events : List E

structure PriorityQueue (E : Type) (count : Nat) where
  heap : List E
  notify : Notify (QueueTask count)
  producers : Fin count → Producer E
  consumer : TaskPhase
  /-- The events handed to the consumer so far. -/
  dequeued : List E

namespace PriorityQueue

variable {E K : Type} [LinearOrder K] {count : Nat}

def new (scripts : Fin count → List E) : PriorityQueue E count := ⟨[], .empty, fun index => ⟨.idle, scripts index⟩, .idle, []⟩

def phase (queue : PriorityQueue E count) : QueueTask count → TaskPhase
  | .producer index => (queue.producers index).phase
  | .consumer => queue.consumer

def setPhase (queue : PriorityQueue E count) (task : QueueTask count) (phase : TaskPhase) : PriorityQueue E count :=
  match task with
  | .producer index =>
    { queue with producers := Function.update queue.producers index { queue.producers index with phase := phase } }
  | .consumer => { queue with consumer := phase }

def withNotify (queue : PriorityQueue E count) (notify : Notify (QueueTask count)) : PriorityQueue E count :=
  { queue with notify := notify }

/-- Register for a notification under the lock, then wait for it; a kept one lets the task try again at once. -/
def await (queue : PriorityQueue E count) (task : QueueTask count) : PriorityQueue E count :=
  let (kept, notify) := queue.notify.enable task
  (queue.withNotify notify).setPhase task (if kept then .idle else .parked)

def notifyOne (queue : PriorityQueue E count) (task : QueueTask count) : PriorityQueue E count :=
  let (woken, notify) := queue.notify.notifyOne
  let sent := (queue.withNotify notify).setPhase task .idle
  match woken with
  | some waiter => sent.setPhase waiter .woken
  | none => sent

/-- One pass of the loop of `enqueue_wait` under the lock. -/
def enqueueWait (queue : PriorityQueue E count) (capacity : Nat) (index : Fin count) : PriorityQueue E count :=
  match (queue.producers index).events with
  | [] => queue
  | event :: events =>
    if queue.heap.length < capacity then
      { queue with
        heap := event :: queue.heap
        producers := Function.update queue.producers index ⟨.notifying, events⟩ }
    else queue.await (.producer index)

/-- The heap gives up an event of least key, whichever it is among several. -/
def Pops (orderKey : E → K) (heap : List E) (event : E) (rest : List E) : Prop :=
  heap.Perm (event :: rest) ∧ ∀ other ∈ heap, orderKey event ≤ orderKey other

inductive Step (orderKey : E → K) (capacity : Nat) : PriorityQueue E count → PriorityQueue E count → Prop where
  | enqueue {queue} (index : Fin count) (running : (queue.producers index).phase.running)
      (pending : (queue.producers index).events ≠ []) : Step orderKey capacity queue (queue.enqueueWait capacity index)
  | dequeue {queue} {event rest} (running : queue.consumer.running) (pops : Pops orderKey queue.heap event rest) :
      Step orderKey capacity queue
        { queue with heap := rest, consumer := .notifying, dequeued := queue.dequeued ++ [event] }
  | empty {queue} (running : queue.consumer.running) (none : queue.heap = []) :
      Step orderKey capacity queue (queue.await .consumer)
  | notify {queue} (task : QueueTask count) (changed : queue.phase task = .notifying) :
      Step orderKey capacity queue (queue.notifyOne task)

/-- States reached from a fresh queue under some schedule. -/
def Reached (orderKey : E → K) (capacity : Nat) (scripts : Fin count → List E) (queue : PriorityQueue E count) : Prop :=
  Relation.ReflTransGen (Step orderKey capacity) (new scripts) queue

/-- A notification on its way: kept, still to be sent, or sent to a task that did not run since. -/
def Undelivered (queue : PriorityQueue E count) : Prop :=
  queue.notify.permit = true ∨ ∃ task, queue.phase task = .notifying ∨ queue.phase task = .woken

/-- Nobody waits for something that has happened already. -/
structure NoLostWakeup (orderKey : E → K) (capacity : Nat) (queue : PriorityQueue E count) : Prop where
  consumer : queue.consumer = .parked → queue.heap ≠ [] → queue.Undelivered
  producer : ∀ index, (queue.producers index).phase = .parked → queue.heap.length < capacity →
    (∀ next, ¬ Step orderKey capacity queue next) → queue.Undelivered

/-- All events have been enqueued and dequeued, each once. -/
def Complete (queue : PriorityQueue E count) (scripts : Fin count → List E) : Prop :=
  (∀ index, queue.producers index = ⟨.idle, []⟩) ∧ queue.heap = [] ∧
    (queue.dequeued : Multiset E) = ∑ index, (scripts index : Multiset E)

end PriorityQueue

end DrasiCore
