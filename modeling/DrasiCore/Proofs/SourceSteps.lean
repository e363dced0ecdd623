import DrasiCore.SourceDispatch

/-! What one step of a source can do: counter and clock go on, and a subscriber is offered the event in flight. -/

namespace DrasiCore.Proofs

open Library SourceSystem SourceBase

variable {P : Type}
variable {index : Nat}

/-- The event of the dispatch that holds the ordering lock. -/
def inFlight : Option (DispatchPhase P) → Option (SourceEventWrapper P)
  | none => none
  | some (.ordered event) => some event
  | some (.recorded event) => some event
  | some (.offering event _ _) => some event

/-- The event a dispatcher is still to be offered in the present dispatch. -/
def upcoming : Option (DispatchPhase P) → Nat → Option (SourceEventWrapper P)
  | some (.ordered event), _ => some event
  | some (.recorded event), _ => some event
  | some (.offering event next _), index => if next ≤ index then some event else none
  | none, _ => none

structure Advances (before after : SourceBase P) : Prop where
  id : after.id = before.id
  sequence : before.nextSequence ≤ after.nextSequence
  time : before.lastDispatch ≤ after.lastDispatch

namespace Advances

section

variable (base : SourceBase P)
include base

theorem refl : Advances base base := ⟨rfl, Nat.le_refl _, Int.le_refl _⟩

variable (settings : SourceSubscriptionSettings P)

theorem raiseSequenceFloor : Advances base (base.raiseSequenceFloor settings) := by
  unfold SourceBase.raiseSequenceFloor
  cases settings.resumeSequence with
  | none => exact refl base
  | some sequence => exact ⟨rfl, Nat.le_max_left _ _, Int.le_refl _⟩

theorem orderEvent (wrapper : SourceEventWrapper P) : Advances base (base.orderEvent wrapper).1 :=
  ⟨rfl, Nat.le_max_left _ _, Int.le_max_right _ _⟩

theorem orderChange (change : SourceChange) (clock : Int) : Advances base (base.orderChange change clock).1 :=
  ⟨rfl, le_trans (Nat.le_succ _) (Nat.le_max_left _ _), Int.le_max_right _ _⟩

theorem recordPosition (event : SourceEventWrapper P) : Advances base (base.recordPosition event) := by
  unfold SourceBase.recordPosition
  cases event.sourcePosition with
  | none => exact refl base
  | some position => exact ⟨rfl, Nat.le_refl _, Int.le_refl _⟩

theorem requestPositionHandle : Advances base (base.requestPositionHandle settings) := by
  unfold SourceBase.requestPositionHandle createPositionHandle
  split
  · split
    · exact refl base
    · exact ⟨rfl, Nat.le_refl _, Int.le_refl _⟩
  · exact refl base

theorem advanceHighWaterMarks (updates : List (Nat × P)) : Advances base (base.advanceHighWaterMarks updates) := by
  induction updates generalizing base with
  | nil => exact refl base
  | cons update updates ih =>
    have rest := ih (base.insertResumePosition update.1 update.2)
    exact ⟨rest.id, rest.sequence, rest.time⟩

end

end Advances

variable {positionReached : Option (P → P → Bool)} {capacity : Nat} {system next : SourceSystem P}
  {action : SourceAction P} {event : SourceEventWrapper P}

theorem inFlight_of_upcoming {dispatch} (owed : upcoming dispatch index = some event) :
    inFlight dispatch = some event := by
  match dispatch with
  | some (.ordered _) => exact owed
  | some (.recorded _) => exact owed
  | some (.offering _ _ _) =>
    simp only [upcoming, Option.ite_none_right_eq_some] at owed
    exact owed.2

theorem Advances.step (step : Step positionReached capacity action system next) : Advances system.base next.base := by
  cases step with
  | dispatchSourceChange change clock free => exact .orderChange _ _ _
  | dispatchEvent wrapper free => exact .orderEvent _ _
  | record ordered => exact .recordPosition _ _
  | writeMarks waiting => exact .advanceHighWaterMarks _ _
  | subscribe settings => exact .raiseSequenceFloor _ _
  | @createHandle _ own dispatcher here filtered =>
    have requested := Advances.requestPositionHandle system.base dispatcher.settings
    exact ⟨requested.id, requested.sequence, requested.time⟩
  | lockDispatchers | deliver | suppress | release | attach | computeIndex | registerFilter | noFilter | receive =>
    exact ⟨rfl, Nat.le_refl _, Int.le_refl _⟩

inductive DispatcherStep (positionReached : Option (P → P → Bool)) (action : SourceAction P) (system next : SourceSystem P)
    (index : Nat) (after : SourceDispatcher P) : Prop where
  | same (before : SourceDispatcher P) (here : system.base.dispatchers[index]? = some before)
      (settings : after.settings = before.settings) (offered : after.offered = before.offered)
      (delivered : after.channel.delivered = before.channel.delivered)
  | deliver (before : SourceDispatcher P) (here : system.base.dispatchers[index]? = some before)
      (settings : after.settings = before.settings) (event : SourceEventWrapper P)
      (comes : upcoming system.dispatch index = some event) (passes : system.base.passes positionReached index event)
      (offered : after.offered = before.offered ++ [event])
      (delivered : after.channel.delivered = before.channel.delivered ++ [event])
      (served : upcoming next.dispatch index = none)
  | suppress (before : SourceDispatcher P) (here : system.base.dispatchers[index]? = some before)
      (settings : after.settings = before.settings) (event : SourceEventWrapper P)
      (comes : upcoming system.dispatch index = some event) (held : system.base.passes positionReached index event = false)
      (offered : after.offered = before.offered ++ [event])
      (delivered : after.channel.delivered = before.channel.delivered)
      (served : upcoming next.dispatch index = none)
  | attach (attaches : action = .attach) (last : index = system.base.dispatchers.length) (offered : after.offered = [])
      (delivered : after.channel.delivered = [])

theorem DispatcherStep.of_modify {other after change}
    (found : (system.base.dispatchers.modify other change)[index]? = some after)
    (settings : ∀ before, (change before).settings = before.settings)
    (offered : ∀ before, (change before).offered = before.offered)
    (delivered : ∀ before, (change before).channel.delivered = before.channel.delivered) :
    DispatcherStep positionReached action system next index after := by
  rcases getElem?_modify_cases found with ⟨rfl, before, was, rfl⟩ | ⟨-, was⟩
  · exact .same before was (settings before) (offered before) (delivered before)
  · exact .same after was rfl rfl rfl

theorem DispatcherStep.of_step (step : Step positionReached capacity action system next) {after}
    (found : next.base.dispatchers[index]? = some after) :
    DispatcherStep positionReached action system next index after := by
  cases step with
  | dispatchSourceChange | dispatchEvent | lockDispatchers | release => exact .same after found rfl rfl rfl
  | record ordered =>
    rw [SourceSystem.withDispatch, dispatchers_recordPosition] at found
    exact .same after found rfl rfl rfl
  | deliver offering here passes room =>
    rcases getElem?_modify_cases found with ⟨rfl, before, was, rfl⟩ | ⟨-, was⟩
    · exact .deliver before was rfl _ (by simp [offering, upcoming]) passes rfl (Channel.delivered_send _ _)
        (by simp [SourceSystem.withDispatch, upcoming])
    · exact .same after was rfl rfl rfl
  | suppress offering inside held =>
    rcases getElem?_modify_cases found with ⟨rfl, before, was, rfl⟩ | ⟨-, was⟩
    · exact .suppress before was rfl _ (by simp [offering, upcoming]) held rfl rfl
        (by simp [SourceSystem.withDispatch, upcoming])
    · exact .same after was rfl rfl rfl
  | writeMarks waiting =>
    rw [dispatchers_advanceHighWaterMarks] at found
    exact .same after found rfl rfl rfl
  | subscribe settings =>
    rw [dispatchers_raiseSequenceFloor] at found
    exact .same after found rfl rfl rfl
  | attach started unread =>
    simp only [createStreamingReceiver] at found
    rcases getElem?_concat_cases found with old | ⟨last, rfl⟩
    · exact .same after old rfl rfl rfl
    · exact .attach rfl last rfl rfl
  | computeIndex | registerFilter | noFilter => exact .of_modify found (fun _ => rfl) (fun _ => rfl) fun _ => rfl
  | createHandle here filtered =>
    simp only [SourceSystem.withPhase, modifyDispatcher, dispatchers_requestPositionHandle] at found
    exact .of_modify found (fun _ => rfl) (fun _ => rfl) fun _ => rfl
  | receive here some => exact .of_modify found (fun _ => rfl) (fun _ => rfl) fun _ => Channel.delivered_receive _

inductive Begins (system : SourceSystem P) : SourceAction P → SourceEventWrapper P → Prop where
  | change (change : SourceChange) (clock : Int) :
      Begins system (.dispatchSourceChange change clock) (system.base.orderChange change clock).2
  | event (wrapper : SourceEventWrapper P) : Begins system (.dispatchEvent wrapper) (system.base.orderEvent wrapper).2

theorem upcoming_step (step : Step positionReached capacity action system next)
    (comes : upcoming next.dispatch index = some event) :
    upcoming system.dispatch index = some event ∨ Begins system action event := by
  cases step with
  | dispatchSourceChange change clock free =>
    cases comes
    exact .inr (.change change clock)
  | dispatchEvent wrapper free =>
    cases comes
    exact .inr (.event wrapper)
  | record ordered => exact .inl (ordered ▸ comes)
  | lockDispatchers recorded =>
    refine .inl ?_
    rw [recorded]
    simpa [SourceSystem.withDispatch, upcoming] using comes
  | deliver offering | suppress offering =>
    refine .inl ?_
    simp only [SourceSystem.withDispatch, upcoming, Option.ite_none_right_eq_some] at comes
    rw [offering]
    simp only [upcoming, Option.ite_none_right_eq_some]
    exact ⟨by omega, comes.2⟩
  | release offering => cases comes
  | writeMarks | subscribe | attach | computeIndex | registerFilter | noFilter | createHandle | receive => exact .inl comes

theorem inFlight_step (step : Step positionReached capacity action system next)
    (flies : inFlight next.dispatch = some event) :
    inFlight system.dispatch = some event ∨ Begins system action event := by
  cases step with
  | dispatchSourceChange change clock free =>
    cases flies
    exact .inr (.change change clock)
  | dispatchEvent wrapper free =>
    cases flies
    exact .inr (.event wrapper)
  | record phase | lockDispatchers phase | deliver phase | suppress phase => exact .inl (phase ▸ flies)
  | release offering => cases flies
  | writeMarks | subscribe | attach | computeIndex | registerFilter | noFilter | createHandle | receive => exact .inl flies

end DrasiCore.Proofs
