import DrasiCore.QueryIntake
import DrasiCore.SourceDispatch

/-! A source and one of its subscribers with its own tasks. -/

namespace DrasiCore

variable {P : Type}

structure LiveIntake (P : Type) where
  source : SourceSystem P
  intake : QueryIntake P

inductive LiveAction (P : Type) where
  | source (action : SourceAction P)
  /-- The forwarder takes the next event from its receiver. -/
  | take
  | intake (action : IntakeAction P)

namespace LiveIntake

/-- The subscriber holds the receiver of the dispatcher with the given index. -/
inductive Step (positionReached : Option (P → P → Bool)) (channelCapacity own rank queueCapacity : Nat) :
    LiveAction P → LiveIntake P → LiveIntake P → Prop where
  | source {live action source}
      (step : SourceSystem.Step positionReached channelCapacity action live.source source) :
      Step positionReached channelCapacity own rank queueCapacity (.source action) live { live with source := source }
  | take {live dispatcher event rest} (here : live.source.base.dispatchers[own]? = some dispatcher)
      (waiting : dispatcher.channel.waiting = event :: rest) (free : live.intake.forwarding = none) :
      Step positionReached channelCapacity own rank queueCapacity .take live
        ⟨{ live.source with base := live.source.base.modifyDispatcher own (·.receive) }, live.intake.forward event⟩
  | intake {live action intake}
      (step : QueryIntake.Step live.source.base.id rank queueCapacity action live.intake intake) :
      Step positionReached channelCapacity own rank queueCapacity (.intake action) live { live with intake := intake }

def start (base : SourceBase P) (dedup : SequenceDedup) : LiveIntake P := ⟨.start base, .start dedup⟩

/-- States reached by steps that are all allowed in the state they are taken in. -/
def Reached (positionReached : Option (P → P → Bool)) (channelCapacity own rank queueCapacity : Nat)
    (allowed : LiveIntake P → LiveAction P → Prop) (start live : LiveIntake P) : Prop :=
  Relation.ReflTransGen (fun before after => ∃ action, allowed before action ∧
    Step positionReached channelCapacity own rank queueCapacity action before after) start live

end LiveIntake

end DrasiCore
