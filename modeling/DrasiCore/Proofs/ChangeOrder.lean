import DrasiCore.Proofs.QueryIntake
import DrasiCore.Proofs.SourceSteps

/-! Changes dispatched by a source reach every subscriber in the order of their sequences and times. -/

namespace DrasiCore.Proofs

open Library SourceSystem

variable {P : Type}
variable {action : SourceAction P}

structure Stamped (base : SourceBase P) (event : SourceEventWrapper P) : Prop where
  source : event.sourceId = base.id
  sequence : event.sequence < base.nextSequence
  time : event.timestamp ≤ base.lastDispatch
  position : event.sourcePosition = none

theorem Stamped.mono {before after : SourceBase P} {event : SourceEventWrapper P} (stamped : Stamped before event)
    (advances : Advances before after) : Stamped after event :=
  ⟨stamped.source.trans advances.id.symm, lt_of_lt_of_le stamped.sequence advances.sequence,
    le_trans stamped.time advances.time, stamped.position⟩

/-- What a subscriber was offered so far, and what it is offered next. -/
structure OfferedInOrder (system : SourceSystem P) (index : Nat) (dispatcher : SourceDispatcher P) : Prop where
  delivered : dispatcher.channel.delivered = dispatcher.offered
  ordered : dispatcher.offered.Pairwise Earlier
  stamped : ∀ event ∈ dispatcher.offered, Stamped system.base event
  next : ∀ event, upcoming system.dispatch index = some event → ∀ earlier ∈ dispatcher.offered, Earlier earlier event

structure Sequenced (system : SourceSystem P) : Prop where
  flying : ∀ event, inFlight system.dispatch = some event → Stamped system.base event
  offered : ∀ index dispatcher, system.base.dispatchers[index]? = some dispatcher → OfferedInOrder system index dispatcher

variable {positionReached : Option (P → P → Bool)} {capacity : Nat} {system next : SourceSystem P}
  {event : SourceEventWrapper P}

theorem passes_of_unplaced (base : SourceBase P) (index : Nat) (unplaced : event.sourcePosition = none) :
    base.passes positionReached index event = true := by
  unfold SourceBase.passes
  rw [unplaced]
  cases positionReached <;> cases base.subscriberResumePositions index <;> rfl

theorem Stamped.earlier_of_begins {earlier} (stamped : Stamped system.base earlier) (begins : Begins system action event)
    (changes : ∀ wrapper, action ≠ .dispatchEvent wrapper) : Earlier earlier event := by
  cases begins with
  | change change clock => exact ⟨stamped.sequence, le_trans stamped.time (Int.le_max_right _ _)⟩
  | event wrapper => exact absurd rfl (changes wrapper)

theorem Stamped.of_begins (step : Step positionReached capacity action system next) (begins : Begins system action event)
    (changes : ∀ wrapper, action ≠ .dispatchEvent wrapper) : Stamped next.base event := by
  cases begins with
  | change change clock =>
    cases step
    exact ⟨rfl, lt_of_lt_of_le (Nat.lt_succ_self _) (Nat.le_max_left _ _), Int.le_refl _, rfl⟩
  | event wrapper => exact absurd rfl (changes wrapper)

theorem Sequenced.step (sequenced : Sequenced system) (changes : ∀ wrapper, action ≠ .dispatchEvent wrapper)
    (step : Step positionReached capacity action system next) : Sequenced next := by
  have advances := Advances.step step
  refine ⟨?_, ?_⟩
  · intro event flies
    rcases inFlight_step step flies with before | begins
    · exact (sequenced.flying event before).mono advances
    · exact .of_begins step begins changes
  · intro index after found
    cases DispatcherStep.of_step step found with
    | same before here settings offered delivered =>
      obtain ⟨exact_, ordered, stamped, upNext⟩ := sequenced.offered index before here
      refine ⟨?_, ?_, ?_, ?_⟩
      · rw [delivered, offered, exact_]
      · rw [offered]
        exact ordered
      · rw [offered]
        exact fun event member => (stamped event member).mono advances
      · intro event comes earlier member
        rw [offered] at member
        rcases upcoming_step step comes with upcoming | begins
        · exact upNext event upcoming earlier member
        · exact (stamped earlier member).earlier_of_begins begins changes
    | deliver before here settings event comes passes offered delivered served =>
      obtain ⟨exact_, ordered, stamped, upNext⟩ := sequenced.offered index before here
      refine ⟨?_, ?_, ?_, ?_⟩
      · rw [delivered, offered, exact_]
      · rw [offered]
        refine List.pairwise_append.mpr ⟨ordered, List.pairwise_singleton _ _, ?_⟩
        intro earlier member later last
        rw [List.mem_singleton.mp last]
        exact upNext event comes earlier member
      · intro other member
        rw [offered] at member
        rcases List.mem_append.mp member with old | new
        · exact (stamped other old).mono advances
        · rw [List.mem_singleton.mp new]
          exact (sequenced.flying event (inFlight_of_upcoming comes)).mono advances
      · intro later upcoming
        cases served.symm.trans upcoming
    | suppress before here settings event comes held =>
      have unplaced := (sequenced.flying event (inFlight_of_upcoming comes)).position
      cases held.symm.trans (passes_of_unplaced _ _ unplaced)
    | attach attaches last offered delivered =>
      refine ⟨delivered.trans offered.symm, ?_, ?_, ?_⟩
      · rw [offered]
        exact .nil
      · rw [offered]
        exact fun _ member => absurd member List.not_mem_nil
      · rw [offered]
        exact fun _ _ _ member => absurd member List.not_mem_nil

/-- All that one subscriber is offered comes after its checkpoint. -/
def OfferedAbove (own checkpoint : Nat) (system : SourceSystem P) : Prop :=
  ∀ dispatcher, system.base.dispatchers[own]? = some dispatcher →
    checkpoint < system.base.nextSequence ∧ (∀ event ∈ dispatcher.offered, checkpoint < event.sequence) ∧
      ∀ event, upcoming system.dispatch own = some event → checkpoint < event.sequence

theorem OfferedAbove.step {own checkpoint : Nat} (above : OfferedAbove own checkpoint system)
    (changes : ∀ wrapper, action ≠ .dispatchEvent wrapper)
    (attaching : action = .attach → system.base.dispatchers.length = own →
      checkpoint < system.base.nextSequence ∧ ∀ event, inFlight system.dispatch = some event → checkpoint < event.sequence)
    (step : Step positionReached capacity action system next) : OfferedAbove own checkpoint next := by
  have advances := Advances.step step
  intro after found
  -- A change whose dispatch begins gets the value of the counter.
  have counted : ∀ event, checkpoint < system.base.nextSequence → Begins system action event →
      checkpoint < event.sequence := by
    intro event below begins
    cases begins with
    | change change clock => exact below
    | event wrapper => exact absurd rfl (changes wrapper)
  cases DispatcherStep.of_step step found with
  | same before here settings offered delivered =>
    obtain ⟨below, old, upNext⟩ := above before here
    refine ⟨lt_of_lt_of_le below advances.sequence, offered ▸ old, ?_⟩
    intro event comes
    rcases upcoming_step step comes with upcoming | begins
    · exact upNext event upcoming
    · exact counted event below begins
  | deliver before here settings event comes passes offered delivered served
  | suppress before here settings event comes held offered delivered served =>
    obtain ⟨below, old, upNext⟩ := above before here
    refine ⟨lt_of_lt_of_le below advances.sequence, ?_, fun later upcoming => absurd (served.symm.trans upcoming) nofun⟩
    intro other member
    rw [offered] at member
    rcases List.mem_append.mp member with earlier | new
    · exact old other earlier
    · rw [List.mem_singleton.mp new]
      exact upNext event comes
  | attach attaches last offered delivered =>
    obtain ⟨below, flying⟩ := attaching attaches last.symm
    refine ⟨lt_of_lt_of_le below advances.sequence, ?_, ?_⟩
    · rw [offered]
      exact fun _ member => absurd member List.not_mem_nil
    · intro event comes
      rcases inFlight_step step (inFlight_of_upcoming comes) with before | begins
      · exact flying event before
      · exact counted event below begins

end DrasiCore.Proofs
