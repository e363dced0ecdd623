import DrasiCore.SourceBase

/-! Dispatches and subscriptions of one source, step by step. A dispatch holds the ordering lock until every dispatcher has
been served, and writes the high-water marks afterwards. A batch takes the same steps for each of its events while it keeps
the locks, so that its schedules are among those of single dispatches. A subscription adds its dispatcher, then computes its
index, then registers its position filter under that index, each under a lock of its own. -/

namespace DrasiCore

open Library

variable {P : Type}

inductive DispatchPhase (P : Type) where
  | ordered (event : SourceEventWrapper P)
  | recorded (event : SourceEventWrapper P)
  /-- The dispatchers are locked, and those before the next one have been served. -/
  | offering (event : SourceEventWrapper P) (next : Nat) (updates : List (Nat × P))

structure SourceSystem (P : Type) where
  base : SourceBase P
  dispatch : Option (DispatchPhase P)
  /-- High-water marks still to be written by dispatches that released the ordering lock. -/
  trailing : List (List (Nat × P))
  /-- Subscriptions whose dispatcher has not been added. -/
  starting : List (SourceSubscriptionSettings P)

inductive SourceAction (P : Type) where
  | dispatchSourceChange (change : SourceChange) (clock : Int)
  | dispatchEvent (wrapper : SourceEventWrapper P)
  | record
  | lockDispatchers
  | offer
  | release
  | writeMarks
  | subscribe (settings : SourceSubscriptionSettings P)
  | attach
  | computeIndex (own : Nat)
  | registerFilter (own : Nat)
  | createHandle (own : Nat)
  | receive (index : Nat)

namespace SourceSystem

def start (base : SourceBase P) : SourceSystem P := ⟨base, none, [], []⟩

variable (system : SourceSystem P)

def reading : Bool := system.dispatch matches some (.offering ..)

def withDispatch (base : SourceBase P) (phase : DispatchPhase P) : SourceSystem P :=
  { system with base := base, dispatch := some phase }

def withPhase (base : SourceBase P) (own : Nat) (phase : SubscribePhase) : SourceSystem P :=
  { system with base := base.modifyDispatcher own (·.enter phase) }

inductive Step (positionReached : Option (P → P → Bool)) (capacity : Nat) :
    SourceAction P → SourceSystem P → SourceSystem P → Prop where
  | dispatchSourceChange {system : SourceSystem P} (change : SourceChange) (clock : Int) (free : system.dispatch = none) :
      Step positionReached capacity (.dispatchSourceChange change clock) system
        (system.withDispatch (system.base.orderChange change clock).1 (.ordered (system.base.orderChange change clock).2))
  | dispatchEvent {system : SourceSystem P} (wrapper : SourceEventWrapper P) (free : system.dispatch = none) :
      Step positionReached capacity (.dispatchEvent wrapper) system
        (system.withDispatch (system.base.orderEvent wrapper).1 (.ordered (system.base.orderEvent wrapper).2))
  | record {system event} (ordered : system.dispatch = some (.ordered event)) :
      Step positionReached capacity .record system (system.withDispatch (system.base.recordPosition event) (.recorded event))
  | lockDispatchers {system event}
      (recorded : system.dispatch = some (.recorded event)) :
      Step positionReached capacity .lockDispatchers system (system.withDispatch system.base (.offering event 0 []))
  | deliver {system event index updates dispatcher} (offering : system.dispatch = some (.offering event index updates))
      (here : system.base.dispatchers[index]? = some dispatcher) (passes : system.base.passes positionReached index event)
      (room : dispatcher.channel.hasRoom) :
      Step positionReached capacity .offer system
        (system.withDispatch (system.base.modifyDispatcher index (·.deliver event))
          (.offering event (index + 1) (updates ++ (event.sourcePosition.map (index, ·)).toList)))
  | suppress {system event index updates}
      (offering : system.dispatch = some (.offering event index updates)) (inside : index < system.base.dispatchers.length)
      (held : system.base.passes positionReached index event = false) :
      Step positionReached capacity .offer system
        (system.withDispatch (system.base.modifyDispatcher index (·.suppress event)) (.offering event (index + 1) updates))
  | release {system event updates}
      (offering : system.dispatch = some (.offering event system.base.dispatchers.length updates)) :
      Step positionReached capacity .release system
        { system with dispatch := none, trailing := system.trailing ++ [updates] }
  | writeMarks {system updates before after}
      (waiting : system.trailing = before ++ updates :: after) :
      Step positionReached capacity .writeMarks system
        { system with base := system.base.advanceHighWaterMarks updates, trailing := before ++ after }
  | subscribe {system : SourceSystem P} (settings : SourceSubscriptionSettings P) :
      Step positionReached capacity (.subscribe settings) system
        { system with base := system.base.raiseSequenceFloor settings, starting := system.starting ++ [settings] }
  | attach {system settings before after} (started : system.starting = before ++ settings :: after)
      (unread : system.reading = false) :
      Step positionReached capacity .attach system
        { system with base := system.base.createStreamingReceiver settings capacity, starting := before ++ after }
  | computeIndex {system own dispatcher}
      (here : system.base.dispatchers[own]? = some dispatcher) (attached : dispatcher.phase = .attached)
      (resumes : dispatcher.settings.resumeFrom.isSome) :
      Step positionReached capacity (.computeIndex own) system
        (system.withPhase system.base own (.indexed (system.base.dispatchers.length - 1)))
  | registerFilter {system own index dispatcher position}
      (here : system.base.dispatchers[own]? = some dispatcher) (indexed : dispatcher.phase = .indexed index)
      (resumes : dispatcher.settings.resumeFrom = some position) :
      Step positionReached capacity (.registerFilter own) system
        (system.withPhase (system.base.insertResumePosition index position) own .filtered)
  /-- Nothing to register. -/
  | noFilter {system own dispatcher}
      (here : system.base.dispatchers[own]? = some dispatcher) (attached : dispatcher.phase = .attached)
      (fresh : dispatcher.settings.resumeFrom = none) :
      Step positionReached capacity (.registerFilter own) system (system.withPhase system.base own .filtered)
  | createHandle {system own dispatcher}
      (here : system.base.dispatchers[own]? = some dispatcher) (filtered : dispatcher.phase = .filtered) :
      Step positionReached capacity (.createHandle own) system
        (system.withPhase (system.base.requestPositionHandle dispatcher.settings) own .done)
  | receive {system index dispatcher}
      (here : system.base.dispatchers[index]? = some dispatcher) (some : dispatcher.channel.waiting ≠ []) :
      Step positionReached capacity (.receive index) system
        { system with base := system.base.modifyDispatcher index (·.receive) }

/-- States reached by steps that are all allowed in the state they are taken in. -/
def Reached (positionReached : Option (P → P → Bool)) (capacity : Nat) (allowed : SourceSystem P → SourceAction P → Prop)
    (start system : SourceSystem P) : Prop :=
  Relation.ReflTransGen (fun before after => ∃ action, allowed before action ∧
    Step positionReached capacity action before after) start system

end SourceSystem

end DrasiCore
