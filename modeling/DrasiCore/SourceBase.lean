import DrasiCore.SourceChange
import DrasiCore.Library.Channel
import Mathlib.Data.List.AList

/-! What all sources share: the sequence counter, the dispatchers of the subscribers with their position filters, and the
positions that subscribers confirm. Sequences are taken from an unbounded counter. -/

namespace DrasiCore

open Library

def maxSourcePositionBytes : Nat := 65536

/-- A change on its way from a source to its subscribers. -/
structure SourceEventWrapper (P : Type) where
  sourceId : String
  change : SourceChange
  /-- Nanoseconds since the epoch. -/
  timestamp : Int
  sequence : Nat
  sourcePosition : Option P

structure SourceSubscriptionSettings (P : Type) where
  queryId : String
  /-- The position after which the subscriber resumes. -/
  resumeFrom : Option P
  /-- The sequence of its checkpoint. -/
  resumeSequence : Option Nat
  requestPositionHandle : Bool

/-- Where a subscription is once its dispatcher has been added. -/
inductive SubscribePhase where
  | attached
  /-- It computed the index for its position filter. -/
  | indexed (index : Nat)
  | filtered
  | done
deriving DecidableEq

/-- A dispatcher, with the subscription that holds its receiver. -/
structure SourceDispatcher (P : Type) where
  settings : SourceSubscriptionSettings P
  phase : SubscribePhase
  channel : Channel (SourceEventWrapper P)
  /-- All events dispatched since the dispatcher was added. No program state: deliveries are compared with it. -/
  offered : List (SourceEventWrapper P)

namespace SourceDispatcher

variable {P : Type}

def new (settings : SourceSubscriptionSettings P) (capacity : Nat) : SourceDispatcher P :=
  ⟨settings, .attached, .new capacity, []⟩

variable (dispatcher : SourceDispatcher P) (event : SourceEventWrapper P)

def deliver : SourceDispatcher P :=
  { dispatcher with channel := dispatcher.channel.send event, offered := dispatcher.offered ++ [event] }

def suppress : SourceDispatcher P :=
  { dispatcher with offered := dispatcher.offered ++ [event] }

def receive : SourceDispatcher P :=
  { dispatcher with channel := dispatcher.channel.receive }

def enter (phase : SubscribePhase) (dispatcher : SourceDispatcher P) :
    SourceDispatcher P := { dispatcher with phase := phase }

end SourceDispatcher

structure SourceBase (P : Type) where
  id : String
  nextSequence : Nat
  /-- The timestamp of the last dispatch, kept in the ordering lock. -/
  lastDispatch : Int
  dispatchers : List (SourceDispatcher P)
  /-- The high-water mark of each dispatcher, by its index. -/
  subscriberResumePositions : Nat → Option P
  sequencePositionMap : OrderedMap Nat P
  positionHandles : AList fun _ : String => Nat

namespace SourceBase

variable {P : Type}

def minUtc : Int := -8334601228800 * 10 ^ 9

def new (id : String) : SourceBase P := ⟨id, 1, minUtc, [], fun _ => none, .empty, ∅⟩

variable (base : SourceBase P)

def raiseNextSequence (floor : Nat) : SourceBase P :=
  { base with nextSequence := max base.nextSequence floor }

def setNextSequence (sequence : Nat) : SourceBase P := base.raiseNextSequence (sequence + 1)

variable (settings : SourceSubscriptionSettings P)

def raiseSequenceFloor : SourceBase P :=
  settings.resumeSequence.elim base base.setNextSequence

def nextMonotonicTimestamp (last candidate : Int) : Int := max candidate last

/-- The part of a dispatch between taking the ordering lock and its first waiting point. -/
def orderEvent (wrapper : SourceEventWrapper P) : SourceBase P × SourceEventWrapper P :=
  let timestamp := nextMonotonicTimestamp base.lastDispatch wrapper.timestamp
  ({ base.setNextSequence wrapper.sequence with lastDispatch := timestamp }, { wrapper with timestamp := timestamp })

def orderChange (change : SourceChange) (clock : Int) : SourceBase P × SourceEventWrapper P :=
  ({ base with nextSequence := base.nextSequence + 1 }).orderEvent ⟨base.id, change, clock, base.nextSequence, none⟩

def recordPosition (event : SourceEventWrapper P) : SourceBase P :=
  event.sourcePosition.elim base fun position =>
    { base with sequencePositionMap := base.sequencePositionMap.insert event.sequence position }

variable (positionReached : Option (P → P → Bool)) (index : Nat)

/-- Whether an event passes the high-water mark of a dispatcher. Without a comparator, mark or position it does. -/
def passes (event : SourceEventWrapper P) : Bool :=
  match positionReached, base.subscriberResumePositions index, event.sourcePosition with
  | some reached, some resume, some position => reached position resume
  | _, _, _ => true

def modifyDispatcher (change : SourceDispatcher P → SourceDispatcher P) : SourceBase P :=
  { base with dispatchers := base.dispatchers.modify index change }

def insertResumePosition (position : P) : SourceBase P :=
  { base with subscriberResumePositions := Function.update base.subscriberResumePositions index (some position) }

/-- Write the high-water marks of the dispatchers that got an event. -/
def advanceHighWaterMarks (updates : List (Nat × P)) : SourceBase P :=
  updates.foldl (fun base update => base.insertResumePosition update.1 update.2) base

def createStreamingReceiver (capacity : Nat) : SourceBase P :=
  { base with dispatchers := base.dispatchers ++ [.new settings capacity] }

/-- The handle value that stands for no confirmed position. -/
def unconfirmed : Nat := 2 ^ 64 - 1

variable (queryId : String)

def createPositionHandle : SourceBase P :=
  if queryId ∈ base.positionHandles then base
  else { base with positionHandles := base.positionHandles.insert queryId unconfirmed }

def requestPositionHandle : SourceBase P :=
  if settings.requestPositionHandle then base.createPositionHandle settings.queryId else base

def removePositionHandle : SourceBase P :=
  { base with positionHandles := base.positionHandles.erase queryId }

def storePosition (sequence : Nat) : SourceBase P :=
  { base with positionHandles := base.positionHandles.insert queryId sequence }

def computeConfirmedPosition : Option Nat :=
  ((base.positionHandles.entries.map (·.2)).filter (· ≠ unconfirmed)).min?

/-- The recorded position of the last sequence that is confirmed. -/
def computeConfirmedSourcePosition : Option P :=
  base.computeConfirmedPosition.bind fun confirmed =>
    ((base.sequencePositionMap.entries.filter (·.1 ≤ confirmed)).getLast?).map (·.2)

def prunePositionMap (upTo : Nat) : SourceBase P :=
  { base with
    sequencePositionMap :=
      ⟨base.sequencePositionMap.entries.filter (upTo < ·.1), base.sequencePositionMap.sorted.filter _⟩ }

def clearSequencePositionMap : SourceBase P := { base with sequencePositionMap := .empty }

def subscribeWithBootstrap (capacity : Nat) : SourceBase P :=
  let attached := (base.raiseSequenceFloor settings).createStreamingReceiver settings capacity
  let own := attached.dispatchers.length - 1
  let filtered := settings.resumeFrom.elim attached (attached.insertResumePosition own)
  (filtered.requestPositionHandle settings).modifyDispatcher own (·.enter .done)

def offerAll (event : SourceEventWrapper P) : SourceBase P :=
  { base with
    dispatchers := base.dispatchers.mapIdx fun index dispatcher =>
      if base.passes positionReached index event then dispatcher.deliver event else dispatcher.suppress event }

/-- The high-water marks to write for the dispatchers an event passes to. -/
def highWaterUpdates (event : SourceEventWrapper P) : List (Nat × P) :=
  ((List.range base.dispatchers.length).filter fun index => base.passes positionReached index event).flatMap fun index =>
    (event.sourcePosition.map (index, ·)).toList

/-- A dispatch that no other task interrupts, all sends of which go through. -/
def dispatchEvent (wrapper : SourceEventWrapper P) : SourceBase P :=
  let event := (base.orderEvent wrapper).2
  let recorded := (base.orderEvent wrapper).1.recordPosition event
  (recorded.offerAll positionReached event).advanceHighWaterMarks (recorded.highWaterUpdates positionReached event)

/-- The same for a batch, which keeps the locks until its last event. -/
def dispatchEventsBatch (events : List (SourceEventWrapper P)) : SourceBase P :=
  events.foldl (fun base event => base.dispatchEvent positionReached event) base

section Frames

variable (base : SourceBase P) (settings : SourceSubscriptionSettings P) (event : SourceEventWrapper P)

@[simp] theorem dispatchers_raiseSequenceFloor : (base.raiseSequenceFloor settings).dispatchers = base.dispatchers := by
  unfold raiseSequenceFloor
  cases settings.resumeSequence <;> rfl

@[simp] theorem subscriberResumePositions_raiseSequenceFloor :
    (base.raiseSequenceFloor settings).subscriberResumePositions = base.subscriberResumePositions := by
  unfold raiseSequenceFloor
  cases settings.resumeSequence <;> rfl

@[simp] theorem dispatchers_orderEvent : (base.orderEvent event).1.dispatchers = base.dispatchers := rfl

@[simp] theorem subscriberResumePositions_orderEvent :
    (base.orderEvent event).1.subscriberResumePositions = base.subscriberResumePositions := rfl

@[simp] theorem dispatchers_recordPosition : (base.recordPosition event).dispatchers = base.dispatchers := by
  unfold recordPosition
  cases event.sourcePosition <;> rfl

@[simp] theorem subscriberResumePositions_recordPosition :
    (base.recordPosition event).subscriberResumePositions = base.subscriberResumePositions := by
  unfold recordPosition
  cases event.sourcePosition <;> rfl

@[simp] theorem dispatchers_requestPositionHandle :
    (base.requestPositionHandle settings).dispatchers = base.dispatchers := by
  unfold requestPositionHandle createPositionHandle
  split
  · split <;> rfl
  · rfl

@[simp] theorem subscriberResumePositions_requestPositionHandle :
    (base.requestPositionHandle settings).subscriberResumePositions = base.subscriberResumePositions := by
  unfold requestPositionHandle createPositionHandle
  split
  · split <;> rfl
  · rfl

@[simp] theorem dispatchers_advanceHighWaterMarks (updates : List (Nat × P)) :
    (base.advanceHighWaterMarks updates).dispatchers = base.dispatchers := by
  induction updates generalizing base with
  | nil => rfl
  | cons update updates ih => exact ih (base.insertResumePosition update.1 update.2)

@[simp] theorem sequencePositionMap_raiseSequenceFloor :
    (base.raiseSequenceFloor settings).sequencePositionMap = base.sequencePositionMap := by
  unfold raiseSequenceFloor
  cases settings.resumeSequence <;> rfl

@[simp] theorem positionHandles_raiseSequenceFloor :
    (base.raiseSequenceFloor settings).positionHandles = base.positionHandles := by
  unfold raiseSequenceFloor
  cases settings.resumeSequence <;> rfl

@[simp] theorem positionHandles_recordPosition : (base.recordPosition event).positionHandles = base.positionHandles := by
  unfold recordPosition
  cases event.sourcePosition <;> rfl

@[simp] theorem sequencePositionMap_requestPositionHandle :
    (base.requestPositionHandle settings).sequencePositionMap = base.sequencePositionMap := by
  unfold requestPositionHandle createPositionHandle
  split
  · split <;> rfl
  · rfl

section

variable (updates : List (Nat × P))

@[simp] theorem sequencePositionMap_advanceHighWaterMarks :
    (base.advanceHighWaterMarks updates).sequencePositionMap = base.sequencePositionMap := by
  induction updates generalizing base with
  | nil => rfl
  | cons update updates ih => exact ih (base.insertResumePosition update.1 update.2)

@[simp] theorem positionHandles_advanceHighWaterMarks :
    (base.advanceHighWaterMarks updates).positionHandles = base.positionHandles := by
  induction updates generalizing base with
  | nil => rfl
  | cons update updates ih => exact ih (base.insertResumePosition update.1 update.2)

/-- The last mark written for an index stays. -/
theorem subscriberResumePositions_advanceHighWaterMarks (index : Nat) :
    (base.advanceHighWaterMarks updates).subscriberResumePositions index =
      ((updates.filterMap fun update => if update.1 = index then some update.2 else none).getLast?).or
        (base.subscriberResumePositions index) := by
  induction updates generalizing base with
  | nil => rfl
  | cons update updates ih =>
    have rest := ih (base.insertResumePosition update.1 update.2)
    rw [advanceHighWaterMarks, List.foldl_cons]
    rw [advanceHighWaterMarks] at rest
    rw [rest]
    by_cases same : update.1 = index
    · simp only [List.filterMap_cons, same, if_true]
      cases later : (updates.filterMap fun update => if update.1 = index then some update.2 else none) with
      | nil => simp [insertResumePosition]
      | cons first others => simp [List.getLast?_cons]
    · simp [same, insertResumePosition, Function.update_of_ne (Ne.symm same)]

end

end Frames

end SourceBase

end DrasiCore
