import DrasiCore.PriorityQueue
import DrasiCore.SourceBase
import Mathlib.Data.Prod.Lex

/-! The way of source events into a query: a forwarder for each source takes events from its receiver and enqueues them,
and the processor takes them from the priority queue and skips those its checkpoints cover. -/

namespace DrasiCore

variable {P : Type}

structure RankedSourceEvent (P : Type) where
  inner : SourceEventWrapper P
  sourceRank : Nat

/-- Events are taken by time; the rank of the source and then the sequence decide between equal times. -/
def RankedSourceEvent.orderKey (event : RankedSourceEvent P) : Int ×ₗ Nat ×ₗ Nat :=
  toLex (event.inner.timestamp, toLex (event.sourceRank, event.inner.sequence))

structure SequenceDedup where
  checkpoints : String → Option Nat

variable (dedup : SequenceDedup) (sourceId : String)

namespace SequenceDedup

def shouldSkip (sequence : Nat) : Bool :=
  (dedup.checkpoints sourceId).any (sequence ≤ ·)

def advance (sequence : Nat) : SequenceDedup :=
  ⟨Function.update dedup.checkpoints sourceId
    (some ((dedup.checkpoints sourceId).elim sequence fun entry => if entry < sequence then sequence else entry))⟩

end SequenceDedup

structure QueryIntake (P : Type) where
  /-- The event the forwarder of the source took and has not enqueued. -/
  forwarding : Option (SourceEventWrapper P)
  heap : List (RankedSourceEvent P)
  dedup : SequenceDedup
  /-- The processor stops at a change it cannot process. -/
  running : Bool
  /-- The events dequeued so far, with whether they were skipped. -/
  dequeued : List (RankedSourceEvent P × Bool)

inductive IntakeAction (P : Type) where
  | enqueue
  /-- The forwarder of another source enqueues. -/
  | enqueueOther (event : RankedSourceEvent P)
  | dequeue (succeeds : Bool)

namespace QueryIntake

def start : QueryIntake P := ⟨none, [], dedup, true, []⟩

variable (intake : QueryIntake P)

def forward (event : SourceEventWrapper P) : QueryIntake P :=
  { intake with forwarding := some event }

/-- The processor takes an event; an event that is not skipped advances the checkpoint once it is committed. -/
def process (event : RankedSourceEvent P) (rest : List (RankedSourceEvent P)) (succeeds : Bool) : QueryIntake P :=
  let skip := intake.dedup.shouldSkip event.inner.sourceId event.inner.sequence
  { intake with
    heap := rest
    dequeued := intake.dequeued ++ [(event, skip)]
    dedup := if skip || !succeeds then intake.dedup else intake.dedup.advance event.inner.sourceId event.inner.sequence
    running := skip || succeeds }

/-- Steps of the query's own tasks; the forwarder in view serves the source with the given name and rank. -/
inductive Step (sourceId : String) (rank capacity : Nat) : IntakeAction P → QueryIntake P → QueryIntake P → Prop where
  | enqueue {intake event} (forwarding : intake.forwarding = some event)
      (room : intake.heap.length < capacity) :
      Step sourceId rank capacity .enqueue intake { intake with forwarding := none, heap := ⟨event, rank⟩ :: intake.heap }
  | enqueueOther {intake : QueryIntake P} (event : RankedSourceEvent P) (other : event.inner.sourceId ≠ sourceId)
      (room : intake.heap.length < capacity) :
      Step sourceId rank capacity (.enqueueOther event) intake { intake with heap := event :: intake.heap }
  | dequeue {intake event rest} (succeeds : Bool)
      (running : intake.running) (pops : PriorityQueue.Pops RankedSourceEvent.orderKey intake.heap event rest) :
      Step sourceId rank capacity (.dequeue succeeds) intake (intake.process event rest succeeds)

def eventsOf (events : List (RankedSourceEvent P)) : List (SourceEventWrapper P) :=
  (events.map (·.inner)).filter fun event => event.sourceId = sourceId

def dequeuedOf (sourceId : String) : List (SourceEventWrapper P) :=
  eventsOf sourceId (intake.dequeued.map (·.1))

end QueryIntake

end DrasiCore
