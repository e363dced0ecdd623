import DrasiCore.FutureQueue
import DrasiCore.Library.SortedBag
import Mathlib.Data.Multiset.Filter

/-! The calls on a queue of futures, what the in-memory queue answers, and what a queue of futures is for: a bag of
futures from which one of the earliest is taken. -/

namespace DrasiCore

open Library

inductive QueueCall where
  | push (pushType : PushType) (positionInQuery : Nat) (groupSignature : Signature) (elementRef : ElementReference)
    (originalTime dueTime : ElementTimestamp)
  | remove (positionInQuery : Nat) (groupSignature : Signature)
  | pop
  | peekDueTime
deriving DecidableEq

inductive QueueAnswer where
  | pushed (shouldPush : Bool)
  | removed
  | popped (future : Option FutureElementRef)
  | due (dueTime : Option ElementTimestamp)
deriving DecidableEq

namespace InMemoryFutureQueue

def shouldPush (data : InMemoryFutureQueue) (pushType : PushType) (positionInQuery : Nat)
    (groupSignature : Signature) : Bool :=
  match pushType with
  | .always => true
  | .ifNotExists => (data.map positionInQuery groupSignature).entries.isEmpty
  | .overwrite => true

def perform (data : InMemoryFutureQueue) (order : IterationOrder) : QueueCall → QueueAnswer × InMemoryFutureQueue
  | .push pushType positionInQuery groupSignature elementRef originalTime dueTime =>
    (.pushed (data.shouldPush pushType positionInQuery groupSignature),
      data.push pushType positionInQuery groupSignature elementRef originalTime dueTime)
  | .remove positionInQuery groupSignature => (.removed, data.remove positionInQuery groupSignature)
  | .pop => (.popped (data.pop order).1, (data.pop order).2)
  | .peekDueTime => (.due data.peekDueTime, data)

def performAll : InMemoryFutureQueue → List (IterationOrder × QueueCall) → List (QueueCall × QueueAnswer)
  | _, [] => []
  | data, (order, call) :: calls =>
    (call, (data.perform order call).1) :: (data.perform order call).2.performAll calls

end InMemoryFutureQueue

/-- Futures with the position of the function that asked for them. -/
abbrev FutureBag := Multiset (Nat × FutureElementRef)

namespace FutureBag

/-- The future was asked for by the function at the position and for the group. -/
def Concerns (positionInQuery : Nat) (groupSignature : Signature) (entry : Nat × FutureElementRef) : Prop :=
  entry.1 = positionInQuery ∧ entry.2.groupSignature = groupSignature

instance (positionInQuery : Nat) (groupSignature : Signature) :
    DecidablePred (Concerns positionInQuery groupSignature) := fun _ => inferInstanceAs (Decidable (_ ∧ _))

def without (bag : FutureBag) (positionInQuery : Nat) (groupSignature : Signature) : FutureBag :=
  bag.filter fun entry => ¬Concerns positionInQuery groupSignature entry

def Answers (bag : FutureBag) : QueueCall → QueueAnswer → FutureBag → Prop
  | .push .always position signature elementRef originalTime dueTime, answer, after =>
    answer = .pushed true ∧ after = (position, ⟨elementRef, originalTime, dueTime, signature⟩) ::ₘ bag
  | .push .ifNotExists position signature elementRef originalTime dueTime, answer, after =>
    (answer = .pushed false ∧ (∃ entry ∈ bag, Concerns position signature entry) ∧ after = bag) ∨
      (answer = .pushed true ∧ (∀ entry ∈ bag, ¬Concerns position signature entry) ∧
        after = (position, ⟨elementRef, originalTime, dueTime, signature⟩) ::ₘ bag)
  | .push .overwrite position signature elementRef originalTime dueTime, answer, after =>
    answer = .pushed true ∧
      after = (position, ⟨elementRef, originalTime, dueTime, signature⟩) ::ₘ bag.without position signature
  | .remove position signature, answer, after => answer = .removed ∧ after = bag.without position signature
  | .pop, answer, after =>
    (answer = .popped none ∧ bag = 0 ∧ after = bag) ∨
      ∃ position future, answer = .popped (some future) ∧ (position, future) ∈ bag ∧
        (∀ entry ∈ bag, future.dueTime ≤ entry.2.dueTime) ∧ after = bag.erase (position, future)
  | .peekDueTime, answer, after =>
    ∃ dueTime, answer = .due dueTime ∧ HasLeast (bag.map (·.2.dueTime)) dueTime ∧ after = bag

def Allows : FutureBag → List (QueueCall × QueueAnswer) → Prop
  | _, [] => True
  | bag, (call, answer) :: rest => ∃ after, bag.Answers call answer after ∧ FutureBag.Allows after rest

end FutureBag

end DrasiCore
