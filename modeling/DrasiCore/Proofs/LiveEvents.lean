import DrasiCore.LiveIntake
import DrasiCore.Proofs.ChangeOrder

/-! A query misses no change of a source from its subscription on, provided the change in flight when its dispatcher is
added comes after its checkpoint. -/

namespace DrasiCore.Proofs

open Library LiveIntake SourceBase

variable {P : Type} (own : Nat)

/-- Only changes are dispatched, and nobody else uses the receiver of the query. -/
def ChangesOnly : LiveAction P → Prop
  | .source (.dispatchEvent _) => False
  | .source (.receive index) => index ≠ own
  | _ => True

/-- When the dispatcher of the query is added, its checkpoint is below the counter. -/
def BelowCounter (seed : Option Nat) (live : LiveIntake P) : LiveAction P → Prop
  | .source .attach => live.source.base.dispatchers.length = own →
      ∀ checkpoint, seed = some checkpoint → checkpoint < live.source.base.nextSequence
  | _ => True

/-- And no change in flight has a sequence the checkpoint covers. -/
def ClearOfFlight (seed : Option Nat) (live : LiveIntake P) : LiveAction P → Prop
  | .source .attach => live.source.base.dispatchers.length = own →
      ∀ checkpoint, seed = some checkpoint → ∀ event, inFlight live.source.dispatch = some event → checkpoint < event.sequence
  | _ => True

/-- The changes of the source that were dequeued are the first ones dispatched since the subscription, in order, and none was
skipped. -/
structure NothingDropped (own : Nat) (live : LiveIntake P) : Prop where
  first : ∃ later, live.intake.dequeuedOf live.source.base.id ++ later =
    ((live.source.base.dispatchers[own]?).map (·.offered)).getD []
  increasing : (live.intake.dequeuedOf live.source.base.id).Pairwise Earlier
  unskipped : ∀ entry ∈ live.intake.dequeued, entry.1.inner.sourceId = live.source.base.id → entry.2 = false

variable (dispatchers : List (SourceDispatcher P))

/-- What the forwarder of the query took from its receiver. -/
def received : List (SourceEventWrapper P) :=
  (dispatchers[own]?.map (·.channel.taken)).getD []

structure Flowing (own rank : Nat) (seed : Option Nat) (live : LiveIntake P) : Prop where
  sequenced : Sequenced live.source
  above : ∀ checkpoint, seed = some checkpoint → OfferedAbove own checkpoint live.source
  inOrder : InOrder live.source.base.id rank seed (received own live.source.base.dispatchers) live.intake

variable {positionReached : Option (P → P → Bool)} {channelCapacity own rank queueCapacity : Nat} {seed : Option Nat}
  {live next : LiveIntake P}

theorem received_append {dispatcher} (sequenced : Sequenced live.source)
    (here : live.source.base.dispatchers[own]? = some dispatcher) :
    received own live.source.base.dispatchers ++ dispatcher.channel.waiting = dispatcher.offered := by
  rw [← (sequenced.offered own dispatcher here).delivered, received, here]
  rfl

theorem Flowing.ascending (flowing : Flowing own rank seed live) :
    Ascending live.source.base.id seed (received own live.source.base.dispatchers) := by
  cases here : live.source.base.dispatchers[own]? with
  | none =>
    have empty : received own live.source.base.dispatchers = [] := by simp [received, here]
    rw [empty]
    exact ⟨.nil, fun _ member => absurd member List.not_mem_nil, fun _ member => absurd member List.not_mem_nil⟩
  | some dispatcher =>
    have all := received_append flowing.sequenced here
    have inOffered : ∀ event ∈ received own live.source.base.dispatchers, event ∈ dispatcher.offered := by
      intro event member
      rw [← all]
      exact List.mem_append_left _ member
    have offered := flowing.sequenced.offered own dispatcher here
    refine ⟨?_, ?_, ?_⟩
    · have ordered := offered.ordered
      rw [← all] at ordered
      exact (List.pairwise_append.mp ordered).1
    · intro event member checkpoint seeded
      exact (flowing.above checkpoint seeded dispatcher here).2.1 event (inOffered event member)
    · intro event member
      exact (offered.stamped event (inOffered event member)).source

theorem received_modify (index : Nat) {change} (same : ∀ before, (change before).channel.taken = before.channel.taken) :
    received own (dispatchers.modify index change) = received own dispatchers := by
  simp only [received, List.getElem?_modify]
  split
  · cases dispatchers[own]? with
    | none => rfl
    | some dispatcher => exact same dispatcher
  · simp

theorem received_modify_other {index} (differs : index ≠ own) (change : SourceDispatcher P → SourceDispatcher P) :
    received own (dispatchers.modify index change) = received own dispatchers := by
  simp [received, differs]

/-- Only its own forwarder takes from a receiver. -/
theorem received_step {action system after} (step : SourceSystem.Step positionReached channelCapacity action system after)
    (others : ∀ index, action = .receive index → index ≠ own) :
    received own after.base.dispatchers = received own system.base.dispatchers := by
  cases step with
  | dispatchSourceChange | dispatchEvent | lockDispatchers | release => rfl
  | record ordered => rw [SourceSystem.withDispatch, dispatchers_recordPosition]
  | deliver | suppress | computeIndex | registerFilter | noFilter => exact received_modify _ _ fun _ => rfl
  | writeMarks waiting => rw [dispatchers_advanceHighWaterMarks]
  | subscribe settings => rw [dispatchers_raiseSequenceFloor]
  | @attach _ settings before later started unread =>
    simp only [received, createStreamingReceiver]
    by_cases inside : own < system.base.dispatchers.length
    · rw [List.getElem?_append_left inside]
    · rw [List.getElem?_append_right (Nat.le_of_not_lt inside), List.getElem?_eq_none (Nat.le_of_not_lt inside)]
      cases own - system.base.dispatchers.length <;> rfl
  | createHandle here filtered =>
    simp only [SourceSystem.withPhase, modifyDispatcher, dispatchers_requestPositionHandle]
    exact received_modify _ _ fun _ => rfl
  | receive here some => exact received_modify_other _ (others _ rfl) _

section

variable (flowing : Flowing own rank seed live)
include flowing

theorem Flowing.source {action source} (changes : ChangesOnly own (.source action))
    (below : BelowCounter own seed live (.source action)) (clear : ClearOfFlight own seed live (.source action))
    (step : SourceSystem.Step positionReached channelCapacity action live.source source) :
    Flowing own rank seed { live with source := source } := by
  have noEvent : ∀ wrapper, action ≠ .dispatchEvent wrapper := by
    intro wrapper same
    rw [same] at changes
    exact changes
  have others : ∀ index, action = .receive index → index ≠ own := by
    intro index same
    rw [same] at changes
    exact changes
  refine ⟨flowing.sequenced.step noEvent step, ?_, ?_⟩
  · intro checkpoint seeded
    refine (flowing.above checkpoint seeded).step noEvent ?_ step
    intro attaches own
    subst attaches
    exact ⟨below own checkpoint seeded, clear own checkpoint seeded⟩
  · have inOrder := flowing.inOrder
    rw [← received_step step others, ← (Advances.step step).id] at inOrder
    exact inOrder

theorem Flowing.take {dispatcher event rest} (here : live.source.base.dispatchers[own]? = some dispatcher)
    (waiting : dispatcher.channel.waiting = event :: rest) (free : live.intake.forwarding = none) :
    Flowing own rank seed
      ⟨{ live.source with base := live.source.base.modifyDispatcher own (·.receive) }, live.intake.forward event⟩ := by
  have some : dispatcher.channel.waiting ≠ [] := by simp [waiting]
  have step : SourceSystem.Step none 0 (.receive own) live.source _ := .receive here some
  have noEvent : ∀ wrapper, SourceAction.receive own ≠ (.dispatchEvent wrapper : SourceAction P) := by
    intro wrapper same
    cases same
  refine ⟨flowing.sequenced.step noEvent step, ?_, ?_⟩
  · intro checkpoint seeded
    refine (flowing.above checkpoint seeded).step noEvent ?_ step
    intro same
    cases same
  · have taken : received own (live.source.base.modifyDispatcher own (·.receive)).dispatchers =
        received own live.source.base.dispatchers ++ [event] := by
      simp [received, modifyDispatcher, here, SourceDispatcher.receive, Channel.receive, waiting]
    have forwarded := flowing.inOrder.forward free event
    rw [← taken] at forwarded
    exact forwarded

theorem Flowing.step {action} (changes : ChangesOnly own action) (below : BelowCounter own seed live action)
    (clear : ClearOfFlight own seed live action)
    (step : Step positionReached channelCapacity own rank queueCapacity action live next) :
    Flowing own rank seed next := by
  cases step with
  | source step => exact flowing.source changes below clear step
  | take here waiting free => exact flowing.take here waiting free
  | intake step => exact ⟨flowing.sequenced, flowing.above, flowing.inOrder.step flowing.ascending step⟩

theorem Flowing.nothingDropped : NothingDropped own live := by
  obtain ⟨queued, all, -⟩ := flowing.inOrder.split
  have ordered := flowing.ascending.ordered
  rw [all] at ordered
  refine ⟨?_, (List.pairwise_append.mp ordered).1, flowing.inOrder.kept⟩
  cases here : live.source.base.dispatchers[own]? with
  | none =>
    have empty : received own live.source.base.dispatchers = [] := by simp [received, here]
    rw [empty] at all
    exact ⟨_, all.symm⟩
  | some dispatcher =>
    have offered := received_append flowing.sequenced here
    rw [all, List.append_assoc] at offered
    exact ⟨_, offered⟩

end

/-- In every run in which the change in flight when the dispatcher of the query is added comes after its checkpoint, no change
of the source is dropped. -/
theorem live_changes_not_dropped (base : SourceBase P) (fresh : base.dispatchers = []) (dedup : SequenceDedup)
    (reached : Reached positionReached channelCapacity own rank queueCapacity
      (fun live action => ChangesOnly own action ∧ BelowCounter own (dedup.checkpoints base.id) live action ∧
        ClearOfFlight own (dedup.checkpoints base.id) live action) (start base dedup) live) :
    NothingDropped own live := by
  have flowing : Flowing own rank (dedup.checkpoints base.id) live := by
    induction reached with
    | refl =>
      refine ⟨⟨nofun, ?_⟩, ?_, ⟨⟨[], ?_, .nil⟩, nofun, .inl rfl, nofun⟩⟩
      · intro index dispatcher here
        exact absurd here (by simp [start, SourceSystem.start, fresh])
      · intro checkpoint seeded dispatcher here
        exact absurd here (by simp [start, SourceSystem.start, fresh])
      · simp [received, start, SourceSystem.start, fresh, QueryIntake.start, QueryIntake.dequeuedOf, QueryIntake.eventsOf]
    | tail _ step flowing =>
      obtain ⟨action, ⟨changes, below, clear⟩, step⟩ := step
      exact flowing.step changes below clear step
  exact flowing.nothingDropped

section Sample

def removal : SourceChange := .delete ⟨⟨"s", "n"⟩, [], 0⟩

variable (checkpoint : Nat)

def resumingAfter : SourceSubscriptionSettings Nat := ⟨"q", none, some checkpoint, false⟩

def checkpointAt : SequenceDedup := ⟨fun _ => some checkpoint⟩

def startAt : LiveIntake Nat := start (.new "s") (checkpointAt checkpoint)

theorem pops_single (event : RankedSourceEvent P) : PriorityQueue.Pops RankedSourceEvent.orderKey [event] event [] :=
  ⟨.refl _, fun _ member => List.mem_singleton.mp member ▸ le_refl _⟩

theorem reached_next {allowed action} {start live after : LiveIntake P}
    (reached : Reached positionReached channelCapacity own rank queueCapacity allowed start live)
    (step : Step positionReached channelCapacity own rank queueCapacity action live after)
    (free : allowed live action := by repeat' first | exact trivial | constructor) :
    Reached positionReached channelCapacity own rank queueCapacity allowed start after :=
  .tail reached ⟨action, free, step⟩

/-- A query with a checkpoint at the first sequence subscribes while the second one is in flight. A change of
another source comes first; then come the second and, though the clock is set back, the third. -/
theorem live_changes_not_dropped_next :
    ∃ live : LiveIntake Nat, NothingDropped 0 live ∧
      live.intake.dequeued.map (fun entry => (entry.1.inner.sourceId, entry.1.inner.sequence, entry.1.inner.timestamp)) =
        [("t", 1, 6), ("s", 2, 7), ("s", 3, 7)] := by
  have subscribed : Reached none 1 0 0 2
      (fun live action => ChangesOnly 0 action ∧ BelowCounter 0 ((checkpointAt 1).checkpoints "s") live action ∧
        ClearOfFlight 0 ((checkpointAt 1).checkpoints "s") live action) (startAt 1) _ :=
    reached_next .refl (.source (.subscribe (resumingAfter 1)))
  have flying := reached_next subscribed (.source (.dispatchSourceChange removal 7 rfl))
  have attached := reached_next flying (.source (@SourceSystem.Step.attach _ _ 1 _ _ [] [] rfl rfl))
    ⟨trivial, fun _ _ same => Option.some.inj same ▸ by decide, by rintro - _ ⟨⟩ _ ⟨⟩; decide⟩
  have recorded := reached_next attached (.source (.record rfl))
  have locked := reached_next recorded (.source (.lockDispatchers rfl))
  have delivered := reached_next locked (.source (.deliver rfl rfl rfl rfl))
  have taken := reached_next delivered (.take rfl rfl rfl)
  have enqueued := reached_next taken (.intake (.enqueue rfl (by decide)))
  have released := reached_next enqueued (.source (.release rfl))
  have again := reached_next released (.source (.dispatchSourceChange removal 5 rfl))
  have recorded := reached_next again (.source (.record rfl))
  have locked := reached_next recorded (.source (.lockDispatchers rfl))
  have delivered := reached_next locked (.source (.deliver rfl rfl rfl rfl))
  have joined := reached_next delivered (.intake (.enqueueOther ⟨⟨"t", removal, 6, 1, none⟩, 1⟩ (by decide) (by decide)))
  have taken := reached_next joined (.take rfl rfl rfl)
  have popped := reached_next taken (.intake (.dequeue true rfl ⟨.refl _, by decide⟩))
  have enqueued := reached_next popped (.intake (.enqueue rfl (by decide)))
  have first := reached_next enqueued (.intake (.dequeue true rfl ⟨.swap _ _ _, by decide⟩))
  have second := reached_next first (.intake (.dequeue true rfl (pops_single _)))
  exact ⟨_, live_changes_not_dropped (.new "s") rfl (checkpointAt 1) second, by decide +kernel⟩

/-- The source was restarted and counts from the beginning. A change has its sequence, and its dispatch has not come to the
dispatchers, when a query with a checkpoint at that sequence subscribes: the query gets the change and skips it. -/
theorem change_in_flight_dropped :
    ∃ live : LiveIntake Nat, Reached none 1 0 0 1
      (fun live action => ChangesOnly 0 action ∧ BelowCounter 0 ((checkpointAt 1).checkpoints "s") live action)
      (startAt 1) live ∧ ¬ NothingDropped 0 live := by
  have dispatched : Reached none 1 0 0 1
      (fun live action => ChangesOnly 0 action ∧ BelowCounter 0 ((checkpointAt 1).checkpoints "s") live action)
      (startAt 1) _ :=
    reached_next .refl (.source (.dispatchSourceChange removal 7 rfl))
  have recorded := reached_next dispatched (.source (.record rfl))
  have subscribed := reached_next recorded (.source (.subscribe (resumingAfter 1)))
  have attached := reached_next subscribed (.source (@SourceSystem.Step.attach _ _ 1 _ _ [] [] rfl rfl))
    ⟨trivial, fun _ _ same => Option.some.inj same ▸ by decide⟩
  have locked := reached_next attached (.source (.lockDispatchers rfl))
  have delivered := reached_next locked (.source (.deliver rfl rfl rfl rfl))
  have taken := reached_next delivered (.take rfl rfl rfl)
  have enqueued := reached_next taken (.intake (.enqueue rfl (by decide)))
  have dequeued := reached_next enqueued (.intake (.dequeue true rfl (pops_single _)))
  refine ⟨_, dequeued, fun kept => ?_⟩
  exact absurd (kept.unskipped _ List.mem_cons_self rfl) (by decide)

end Sample

end DrasiCore.Proofs
