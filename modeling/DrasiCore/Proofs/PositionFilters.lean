import DrasiCore.SourceDispatch
import DrasiCore.Library.RisingFilter

/-! The position filters of subscribers. A subscriber is to get the events above the position it resumes from and above all
it got before, whatever the stream does. This needs that nobody comes between the steps of a subscription, and that the
high-water mark of a dispatcher is written before the next event is offered to it. -/

namespace DrasiCore.Proofs

open Library SourceSystem SourceBase SourceSystem List

variable {P : Type}

def laterPosition [LinearOrder P] : Option (P → P → Bool) := some fun event resume => decide (resume < event)

/-- The filter of a subscription, if it asked for one, is registered. -/
def Registered (dispatcher : SourceDispatcher P) : Prop :=
  dispatcher.settings.resumeFrom = none ∨ dispatcher.phase = .filtered ∨ dispatcher.phase = .done

def SourceDispatcher.dueEvents [LinearOrder P] (dispatcher : SourceDispatcher P) : List (SourceEventWrapper P) :=
  rising (·.sourcePosition) dispatcher.settings.resumeFrom dispatcher.offered

/-- A position a subscriber supplied itself or got with an event. -/
def OwnPosition (dispatcher : SourceDispatcher P) (position : P) : Prop :=
  dispatcher.settings.resumeFrom = some position ∨
    ∃ event ∈ dispatcher.channel.delivered, event.sourcePosition = some position

/-- Every subscriber has got what it should, and every mark belongs to the subscriber it is stored for. -/
structure OwnFilters [LinearOrder P] (system : SourceSystem P) : Prop where
  delivered : ∀ dispatcher ∈ system.base.dispatchers, dispatcher.channel.delivered = SourceDispatcher.dueEvents dispatcher
  marks : ∀ index dispatcher mark, system.base.dispatchers[index]? = some dispatcher →
    system.base.subscriberResumePositions index = some mark → OwnPosition dispatcher mark

def MarksGrow [LinearOrder P] (before after : SourceSystem P) : Prop :=
  ∀ index mark, before.base.subscriberResumePositions index = some mark →
    ∃ later, after.base.subscriberResumePositions index = some later ∧ mark ≤ later

/-- An event is offered to a dispatcher after its filter is registered and its last mark written, and no dispatcher is
added before a subscription computes its index. -/
def Undisturbed (system : SourceSystem P) : SourceAction P → Prop
  | .offer => ∀ event index updates, system.dispatch = some (.offering event index updates) →
      (∀ written ∈ system.trailing, ∀ update ∈ written, update.1 ≠ index) ∧
        ∀ dispatcher, system.base.dispatchers[index]? = some dispatcher → Registered dispatcher
  | .computeIndex own => own + 1 = system.base.dispatchers.length
  | _ => True

section Pending

def currentUpdates : Option (DispatchPhase P) → List (Nat × P)
  | some (.offering _ _ updates) => updates
  | _ => []

def marksFor (updates : List (Nat × P)) (index : Nat) : List P :=
  updates.filterMap fun update => if update.1 = index then some update.2 else none

def pending (system : SourceSystem P) (index : Nat) : List P :=
  marksFor (system.trailing.flatten ++ currentUpdates system.dispatch) index

@[simp] theorem marksFor_append (one two : List (Nat × P)) (index : Nat) :
    marksFor (one ++ two) index = marksFor one index ++ marksFor two index :=
  filterMap_append

theorem marksFor_eq_nil {updates : List (Nat × P)} {index : Nat} (none : ∀ update ∈ updates, update.1 ≠ index) :
    marksFor updates index = [] := by
  apply filterMap_eq_nil_iff.mpr
  intro update member
  exact if_neg (none update member)

@[simp] theorem marksFor_own (index : Nat) (position : Option P) :
    marksFor (position.map (index, ·)).toList index = position.toList := by
  cases position <;> simp [marksFor]

theorem marksFor_other {index other : Nat} (differs : index ≠ other) (position : Option P) :
    marksFor (position.map (index, ·)).toList other = [] := by
  apply marksFor_eq_nil
  intro update member
  cases position with
  | none => cases member
  | some place =>
    rw [mem_singleton.mp member]
    exact differs

end Pending

variable [LinearOrder P]

/-- What holds of a dispatcher, given its stored mark and the marks still to be written for it. -/
structure Marked (dispatcher : SourceDispatcher P) (stored : Option P) (waiting : List P) : Prop where
  exact : dispatcher.channel.delivered = SourceDispatcher.dueEvents dispatcher
  own : ∀ mark, stored = some mark ∨ mark ∈ waiting → OwnPosition dispatcher mark
  /-- Before its filter is registered a subscriber was offered nothing. -/
  early : ¬ Registered dispatcher → dispatcher.offered = [] ∧ stored = none ∧ waiting = []
  settled : Registered dispatcher →
    waiting = [] ∧ Tracks (·.sourcePosition) dispatcher.settings.resumeFrom dispatcher.channel.delivered stored ∨
      ∃ mark, waiting = [mark] ∧ (∀ lower, stored = some lower → lower < mark) ∧
        Tracks (·.sourcePosition) dispatcher.settings.resumeFrom dispatcher.channel.delivered (some mark)

structure Filtering (system : SourceSystem P) : Prop where
  marked : ∀ index dispatcher, system.base.dispatchers[index]? = some dispatcher →
    Marked dispatcher (system.base.subscriberResumePositions index) (pending system index)
  fresh : ∀ index, system.base.dispatchers.length ≤ index →
    system.base.subscriberResumePositions index = none ∧ pending system index = []
  indexed : ∀ (own : Nat) (dispatcher : SourceDispatcher P) (index : Nat), system.base.dispatchers[own]? = some dispatcher →
    dispatcher.phase = .indexed index → index = own
  served : ∀ event next updates, system.dispatch = some (.offering event next updates) → ∀ update ∈ updates, update.1 < next

variable {dispatcher : SourceDispatcher P} {event : SourceEventWrapper P}

namespace Marked

variable {stored : Option P} {waiting : List P}

omit [LinearOrder P] in
theorem mem_own {position} (own : OwnPosition dispatcher position) : OwnPosition (dispatcher.deliver event) position := by
  rcases own with resumes | ⟨earlier, member, place⟩
  · exact .inl resumes
  · refine .inr ⟨earlier, ?_, place⟩
    simp only [SourceDispatcher.deliver, Channel.delivered_send]
    exact mem_append_left _ member

theorem dueEvents_append (dispatcher : SourceDispatcher P) (event : SourceEventWrapper P) :
    rising (·.sourcePosition) dispatcher.settings.resumeFrom (dispatcher.offered ++ [event]) =
      if due (·.sourcePosition) dispatcher.settings.resumeFrom (SourceDispatcher.dueEvents dispatcher) event
      then SourceDispatcher.dueEvents dispatcher ++ [event] else SourceDispatcher.dueEvents dispatcher :=
  rising_append _ _ _

section

variable (marked : Marked dispatcher stored []) (registered : Registered dispatcher)
include marked registered

theorem due_eq :
    due (·.sourcePosition) dispatcher.settings.resumeFrom (SourceDispatcher.dueEvents dispatcher) event =
      exceeds (·.sourcePosition) stored event := by
  rw [← marked.exact]
  rcases marked.settled registered with ⟨-, tracks⟩ | ⟨mark, some, -⟩
  · exact tracks event
  · cases some

theorem deliver (passes : exceeds (·.sourcePosition) stored event) :
    Marked (dispatcher.deliver event) stored event.sourcePosition.toList := by
  have due := (marked.due_eq registered).trans passes
  have tracks : Tracks (·.sourcePosition) dispatcher.settings.resumeFrom dispatcher.channel.delivered stored := by
    rcases marked.settled registered with ⟨-, tracks⟩ | ⟨mark, some, -⟩
    · exact tracks
    · cases some
  have after : (dispatcher.deliver event).channel.delivered = dispatcher.channel.delivered ++ [event] :=
    Channel.delivered_send _ _
  refine ⟨?_, ?_, fun unregistered => absurd registered unregistered, fun _ => ?_⟩
  · rw [after, marked.exact]
    have grown := dueEvents_append dispatcher event
    rw [if_pos due] at grown
    exact grown.symm
  · rintro mark (held | sent)
    · exact mem_own (marked.own mark (.inl held))
    · refine .inr ⟨event, ?_, Option.mem_toList.mp sent⟩
      rw [after]
      exact mem_append_right _ mem_cons_self
  · have moved := tracks.append passes
    rw [after]
    cases place : event.sourcePosition with
    | none =>
      simp only [place, Option.none_or] at moved
      exact .inl ⟨rfl, moved⟩
    | some position =>
      simp only [place, Option.some_or] at moved
      refine .inr ⟨position, rfl, ?_, moved⟩
      intro lower same
      simpa [exceeds, place, same] using passes

theorem suppress (held : exceeds (·.sourcePosition) stored event = false) :
    Marked (dispatcher.suppress event) stored [] := by
  have due := (marked.due_eq registered).trans held
  refine ⟨?_, marked.own, fun unregistered => absurd registered unregistered, marked.settled⟩
  have kept := dueEvents_append dispatcher event
  rw [if_neg (Bool.eq_false_iff.mp due)] at kept
  exact marked.exact.trans kept.symm

end

section

variable (marked : Marked dispatcher stored waiting)
include marked

theorem register {position} (unregistered : ¬ Registered dispatcher)
    (resumes : dispatcher.settings.resumeFrom = some position) :
    Marked (dispatcher.enter .filtered) (some position) waiting := by
  obtain ⟨unoffered, -, nothing⟩ := marked.early unregistered
  have silent : dispatcher.channel.delivered = [] := by
    rw [marked.exact, SourceDispatcher.dueEvents, unoffered]
    rfl
  refine ⟨marked.exact, ?_, fun early => absurd (.inr (.inl rfl)) early, fun _ => .inl ⟨nothing, ?_⟩⟩
  · rintro mark (held | sent)
    · exact .inl (resumes.trans held)
    · exact marked.own mark (.inr sent)
  · have tracks : Tracks SourceEventWrapper.sourcePosition (some position) [] (some position) := .nil _
    rw [← silent] at tracks
    exact resumes ▸ tracks

theorem enter {phase} (same : Registered (dispatcher.enter phase) ↔ Registered dispatcher) :
    Marked (dispatcher.enter phase) stored waiting :=
  ⟨marked.exact, marked.own, fun early => marked.early fun registered => early (same.mpr registered),
    fun registered => marked.settled (same.mp registered)⟩

theorem receive : Marked dispatcher.receive stored waiting := by
  have same : dispatcher.receive.channel.delivered = dispatcher.channel.delivered := Channel.delivered_receive _
  obtain ⟨exact_, own, early, settled⟩ := marked
  refine ⟨same.trans exact_, ?_, early, ?_⟩
  · intro mark held
    rcases own mark held with resumes | ⟨event, member, place⟩
    · exact .inl resumes
    · exact .inr ⟨event, same ▸ member, place⟩
  · rw [same]
    exact settled

end

theorem new (settings : SourceSubscriptionSettings P) (capacity : Nat) : Marked (.new settings capacity) none [] := by
  refine ⟨rfl, ?_, fun _ => ⟨rfl, rfl, rfl⟩, fun registered => .inl ⟨rfl, ?_⟩⟩
  · rintro mark (held | sent)
    · cases held
    · cases sent
  · have fresh : settings.resumeFrom = none := by
      rcases registered with fresh | filtered | done
      · exact fresh
      · cases filtered
      · cases done
    simp only [SourceDispatcher.new, fresh]
    exact .nil none

end Marked

section Steps

variable {capacity : Nat} {system next : SourceSystem P}
variable {index : Nat} {updates : List (Nat × P)}
  {before after : List (List (Nat × P))}

theorem passes_eq (base : SourceBase P) (index : Nat) (event : SourceEventWrapper P) :
    base.passes laterPosition index event = exceeds (·.sourcePosition) (base.subscriberResumePositions index) event := by
  cases mark : base.subscriberResumePositions index <;> cases place : event.sourcePosition <;>
    simp [passes, laterPosition, exceeds, mark, place]

section

variable (filtering : Filtering system)
include filtering

theorem Filtering.frame (dispatchers : next.base.dispatchers = system.base.dispatchers)
    (marks : next.base.subscriberResumePositions = system.base.subscriberResumePositions)
    (waiting : next.trailing.flatten ++ currentUpdates next.dispatch =
      system.trailing.flatten ++ currentUpdates system.dispatch)
    (served : ∀ event index updates, next.dispatch = some (.offering event index updates) →
      ∀ update ∈ updates, update.1 < index) : Filtering next := by
  have same : pending next = pending system := by
    funext index
    rw [pending, waiting, pending]
  refine ⟨?_, ?_, ?_, served⟩
  · rw [dispatchers, marks, same]
    exact filtering.marked
  · rw [dispatchers, marks, same]
    exact filtering.fresh
  · rw [dispatchers]
    exact filtering.indexed

theorem Filtering.modify
    {change} (here : system.base.dispatchers[index]? = some dispatcher)
    (dispatchers : next.base.dispatchers = system.base.dispatchers.modify index change)
    (own : Marked (change dispatcher) (next.base.subscriberResumePositions index) (pending next index))
    (others : ∀ other ≠ index, next.base.subscriberResumePositions other = system.base.subscriberResumePositions other ∧
      pending next other = pending system other)
    (phase : ∀ computed, (change dispatcher).phase = .indexed computed → computed = index)
    (served : ∀ event index updates, next.dispatch = some (.offering event index updates) →
      ∀ update ∈ updates, update.1 < index) : Filtering next := by
  refine ⟨?_, ?_, ?_, served⟩
  · intro other changed found
    rw [dispatchers] at found
    rcases getElem?_modify_cases found with ⟨rfl, before, was, rfl⟩ | ⟨differs, was⟩
    · rw [here] at was
      cases was
      exact own
    · rw [(others other differs.symm).1, (others other differs.symm).2]
      exact filtering.marked other changed was
  · intro other beyond
    rw [dispatchers, length_modify] at beyond
    have inside := (List.getElem?_eq_some_iff.mp here).1
    have differs : other ≠ index := by omega
    rw [(others other differs).1, (others other differs).2]
    exact filtering.fresh other beyond
  · intro other changed computed found indexed
    rw [dispatchers] at found
    rcases getElem?_modify_cases found with ⟨rfl, before, was, rfl⟩ | ⟨-, was⟩
    · rw [here] at was
      cases was
      exact phase computed indexed
    · exact filtering.indexed other changed computed was indexed

theorem Filtering.pending_nil (offering : system.dispatch = some (.offering event index updates))
    (undisturbed : Undisturbed system .offer) : pending system index = [] := by
  rw [pending, marksFor_append, offering]
  rw [marksFor_eq_nil, marksFor_eq_nil, append_nil]
  · intro update member
    exact Nat.ne_of_lt (filtering.served event index updates offering update member)
  · intro update member
    obtain ⟨written, held, inside⟩ := mem_flatten.mp member
    exact (undisturbed event index updates offering).1 written held update inside

theorem Filtering.deliver (undisturbed : Undisturbed system .offer)
    (offering : system.dispatch = some (.offering event index updates))
    (here : system.base.dispatchers[index]? = some dispatcher) (passes : system.base.passes laterPosition index event) :
    Filtering (system.withDispatch (system.base.modifyDispatcher index (·.deliver event))
      (.offering event (index + 1) (updates ++ (event.sourcePosition.map (index, ·)).toList))) := by
  have registered := (undisturbed event index updates offering).2 dispatcher here
  have nothing := filtering.pending_nil offering undisturbed
  have marked := filtering.marked index dispatcher here
  rw [nothing] at marked
  rw [passes_eq] at passes
  have after (other : Nat) : pending (system.withDispatch (system.base.modifyDispatcher index (·.deliver event))
      (.offering event (index + 1) (updates ++ (event.sourcePosition.map (index, ·)).toList))) other =
        pending system other ++ marksFor (event.sourcePosition.map (index, ·)).toList other := by
    simp only [pending, withDispatch, currentUpdates, offering, marksFor_append, append_assoc]
  refine filtering.modify here rfl ?_ (fun other differs => ⟨rfl, ?_⟩) ?_ ?_
  · rw [after index, nothing, marksFor_own, nil_append]
    exact marked.deliver registered passes
  · rw [after other, marksFor_other differs.symm, append_nil]
  · intro computed indexed
    exact filtering.indexed index dispatcher computed here indexed
  · intro current position written same
    cases same
    intro update member
    rcases mem_append.mp member with old | new
    · exact Nat.lt_succ_of_lt (filtering.served event index updates offering update old)
    · obtain ⟨place, -, rfl⟩ := Option.map_eq_some_iff.mp (Option.mem_toList.mp new)
      exact Nat.lt_succ_self _

theorem Filtering.suppress (undisturbed : Undisturbed system .offer)
    (offering : system.dispatch = some (.offering event index updates)) (inside : index < system.base.dispatchers.length)
    (held : system.base.passes laterPosition index event = false) :
    Filtering (system.withDispatch (system.base.modifyDispatcher index (·.suppress event))
      (.offering event (index + 1) updates)) := by
  have here := getElem?_eq_getElem inside
  have registered := (undisturbed event index updates offering).2 _ here
  have nothing := filtering.pending_nil offering undisturbed
  have marked := filtering.marked index _ here
  rw [nothing] at marked
  rw [passes_eq] at held
  have after (other : Nat) : pending (system.withDispatch (system.base.modifyDispatcher index (·.suppress event))
      (.offering event (index + 1) updates)) other = pending system other := by
    simp only [pending, withDispatch, currentUpdates, offering]
  refine filtering.modify here rfl ?_ (fun other _ => ⟨rfl, after other⟩) ?_ ?_
  · rw [after index, nothing]
    exact marked.suppress registered held
  · intro computed indexed
    exact filtering.indexed index _ computed here indexed
  · intro current position written same
    cases same
    intro update member
    exact Nat.lt_succ_of_lt (filtering.served event index updates offering update member)

end

theorem Marked.written {stored before updates after} (marked : Marked dispatcher stored (before ++ (updates ++ after))) :
    Marked dispatcher (updates.getLast?.or stored) (before ++ after) := by
  cases updates with
  | nil => exact marked
  | cons mark rest =>
    have registered : Registered dispatcher := by
      by_contra unregistered
      have nothing := (marked.early unregistered).2.2
      simp at nothing
    rcases marked.settled registered with ⟨nothing, -⟩ | ⟨only, one, -, tracks⟩
    · simp at nothing
    · -- The mark to be written is the only one that is waiting.
      obtain ⟨rfl, rfl, rfl, rfl⟩ : before = [] ∧ mark = only ∧ rest = [] ∧ after = [] := by
        cases before with
        | nil => simpa [and_assoc] using one
        | cons first others => simp at one
      refine ⟨marked.exact, ?_, fun unregistered => absurd registered unregistered, fun _ => .inl ⟨rfl, tracks⟩⟩
      rintro other (held | sent)
      · exact marked.own other (.inr (by simpa using held.symm))
      · cases sent

omit [LinearOrder P] in
theorem pending_writeMarks (waiting : system.trailing = before ++ updates :: after) (index : Nat) :
    pending system index = marksFor before.flatten index ++
      (marksFor updates index ++ (marksFor after.flatten index ++ marksFor (currentUpdates system.dispatch) index)) := by
  simp only [pending, waiting, flatten_append, flatten_cons, marksFor_append, append_assoc]

section

variable (filtering : Filtering system)
include filtering

theorem Filtering.writeMarks (waiting : system.trailing = before ++ updates :: after) :
    Filtering { system with base := system.base.advanceHighWaterMarks updates, trailing := before ++ after } := by
  have later (index : Nat) : pending { system with
      base := system.base.advanceHighWaterMarks updates, trailing := before ++ after } index =
        marksFor before.flatten index ++ (marksFor after.flatten index ++ marksFor (currentUpdates system.dispatch) index) := by
    simp only [pending, flatten_append, marksFor_append, append_assoc]
  refine ⟨?_, ?_, ?_, filtering.served⟩
  · intro index dispatcher here
    rw [dispatchers_advanceHighWaterMarks] at here
    have marked := filtering.marked index dispatcher here
    rw [pending_writeMarks waiting] at marked
    rw [later, subscriberResumePositions_advanceHighWaterMarks]
    exact marked.written
  · intro index beyond
    rw [dispatchers_advanceHighWaterMarks] at beyond
    obtain ⟨none, nothing⟩ := filtering.fresh index beyond
    rw [pending_writeMarks waiting] at nothing
    obtain ⟨first, rest⟩ := append_eq_nil_iff.mp nothing
    obtain ⟨here, last⟩ := append_eq_nil_iff.mp rest
    refine ⟨?_, by rw [later, first, last, append_nil]⟩
    rw [subscriberResumePositions_advanceHighWaterMarks, none]
    exact congrArg (fun marks : List P => marks.getLast?.or Option.none) here
  · intro own dispatcher index here
    rw [dispatchers_advanceHighWaterMarks] at here
    exact filtering.indexed own dispatcher index here

theorem Filtering.attach (settings : SourceSubscriptionSettings P) (starting : List (SourceSubscriptionSettings P)) :
    Filtering { system with base := system.base.createStreamingReceiver settings capacity, starting := starting } := by
  refine ⟨?_, ?_, ?_, filtering.served⟩
  · intro index dispatcher here
    simp only [createStreamingReceiver] at here
    by_cases inside : index < system.base.dispatchers.length
    · rw [getElem?_append_left inside] at here
      exact filtering.marked index dispatcher here
    · rw [getElem?_append_right (Nat.le_of_not_lt inside)] at here
      rw [mem_singleton.mp (mem_of_getElem? here)]
      obtain ⟨none, nothing⟩ := filtering.fresh index (Nat.le_of_not_lt inside)
      have marked := Marked.new settings capacity
      rw [← none, ← nothing] at marked
      exact marked
  · intro index beyond
    simp only [createStreamingReceiver, length_append, length_singleton] at beyond
    exact filtering.fresh index (by omega)
  · intro own dispatcher index here indexed
    simp only [createStreamingReceiver] at here
    by_cases inside : own < system.base.dispatchers.length
    · rw [getElem?_append_left inside] at here
      exact filtering.indexed own dispatcher index here indexed
    · rw [getElem?_append_right (Nat.le_of_not_lt inside)] at here
      rw [mem_singleton.mp (mem_of_getElem? here)] at indexed
      cases indexed

theorem Filtering.enter {base own phase} (here : system.base.dispatchers[own]? = some dispatcher)
    (dispatchers : base.dispatchers = system.base.dispatchers)
    (marks : base.subscriberResumePositions = system.base.subscriberResumePositions)
    (same : Registered (dispatcher.enter phase) ↔ Registered dispatcher)
    (computed : ∀ index, phase = .indexed index → index = own) : Filtering (system.withPhase base own phase) := by
  refine filtering.modify here (congrArg (List.modify · own _) dispatchers) ?_ (fun other _ => ⟨?_, rfl⟩) computed
    filtering.served
  · have marked := (filtering.marked own dispatcher here).enter same
    rw [← marks] at marked
    exact marked
  · exact congrFun marks other

theorem Filtering.registerFilter {own position} (here : system.base.dispatchers[own]? = some dispatcher)
    (indexed : dispatcher.phase = .indexed index) (resumes : dispatcher.settings.resumeFrom = some position) :
    Filtering (system.withPhase (system.base.insertResumePosition index position) own .filtered) := by
  obtain rfl := filtering.indexed own dispatcher index here indexed
  have unregistered : ¬ Registered dispatcher := by
    rintro (fresh | filtered | done)
    · exact absurd (resumes.symm.trans fresh) nofun
    · exact absurd (indexed.symm.trans filtered) nofun
    · exact absurd (indexed.symm.trans done) nofun
  refine filtering.modify here rfl ?_ (fun other differs => ⟨?_, rfl⟩) nofun filtering.served
  · have marked := (filtering.marked index dispatcher here).register unregistered resumes
    have written : Function.update system.base.subscriberResumePositions index (some position) index = some position :=
      Function.update_self _ _ _
    rw [← written] at marked
    exact marked
  · exact Function.update_of_ne differs _ _

theorem Filtering.step {action} (undisturbed : Undisturbed system action)
    (step : Step laterPosition capacity action system next) : Filtering next := by
  cases step with
  | dispatchSourceChange change clock free =>
    refine filtering.frame rfl rfl ?_ nofun
    simp only [withDispatch, currentUpdates, free]
  | dispatchEvent wrapper free =>
    refine filtering.frame rfl rfl ?_ nofun
    simp only [withDispatch, currentUpdates, free]
  | record ordered =>
    refine filtering.frame (dispatchers_recordPosition _ _) (subscriberResumePositions_recordPosition _ _)
      ?_ nofun
    simp only [withDispatch, currentUpdates, ordered]
  | lockDispatchers recorded =>
    refine filtering.frame rfl rfl ?_ ?_
    · simp only [withDispatch, currentUpdates, recorded]
    · intro event index updates same
      cases same
      exact nofun
  | deliver offering here passes room => exact filtering.deliver undisturbed offering here passes
  | suppress offering inside held => exact filtering.suppress undisturbed offering inside held
  | release offering =>
    refine filtering.frame rfl rfl ?_ nofun
    simp [currentUpdates, offering]
  | writeMarks waiting => exact filtering.writeMarks waiting
  | subscribe settings =>
    exact filtering.frame (dispatchers_raiseSequenceFloor _ _)
      (subscriberResumePositions_raiseSequenceFloor _ _) rfl filtering.served
  | attach => exact filtering.attach _ _
  | computeIndex here attached resumes =>
    refine filtering.enter here rfl rfl ?_ ?_
    · simp [Registered, SourceDispatcher.enter, attached]
    · intro index same
      cases same
      simp only [Undisturbed] at undisturbed
      omega
  | registerFilter here indexed resumes => exact filtering.registerFilter here indexed resumes
  | noFilter here attached fresh =>
    refine filtering.enter here rfl rfl ?_ nofun
    simp [Registered, SourceDispatcher.enter, fresh]
  | createHandle here filtered =>
    refine filtering.enter here (dispatchers_requestPositionHandle _ _)
      (subscriberResumePositions_requestPositionHandle _ _) ?_ nofun
    simp [Registered, SourceDispatcher.enter, filtered]
  | receive here some =>
    refine filtering.modify here rfl (filtering.marked _ _ here).receive (fun _ _ => ⟨rfl, rfl⟩) ?_ filtering.served
    intro computed indexed
    exact filtering.indexed _ _ computed here indexed

end

theorem Filtering.of_reached {id} (reached : Reached laterPosition capacity Undisturbed (start (.new id)) system) :
    Filtering system := by
  induction reached with
  | refl =>
    refine ⟨fun _ _ here => ?_, fun _ _ => ⟨rfl, rfl⟩, fun _ _ _ here => ?_, nofun⟩
    · exact absurd here (by simp [start, new])
    · exact absurd here (by simp [start, new])
  | tail _ step filtering =>
    obtain ⟨action, undisturbed, step⟩ := step
    exact filtering.step undisturbed step

theorem Filtering.ownFilters (filtering : Filtering system) : OwnFilters system := by
  refine ⟨fun dispatcher member => ?_, fun index dispatcher mark here held => ?_⟩
  · obtain ⟨index, here⟩ := mem_iff_getElem?.mp member
    exact (filtering.marked index dispatcher here).exact
  · exact (filtering.marked index dispatcher here).own mark (.inl held)

theorem MarksGrow.of_eq (same : next.base.subscriberResumePositions = system.base.subscriberResumePositions) :
    MarksGrow system next :=
  fun index mark held => ⟨mark, (congrFun same index).trans held, le_refl mark⟩

theorem Filtering.writeMarks_grow (filtering : Filtering system)
    (waiting : system.trailing = before ++ updates :: after) :
    MarksGrow system
      { system with base := system.base.advanceHighWaterMarks updates, trailing := before ++ after } := by
  intro index mark held
  have inside : index < system.base.dispatchers.length := by
    by_contra beyond
    exact absurd (held.symm.trans (filtering.fresh index (Nat.le_of_not_lt beyond)).1) nofun
  have marked := filtering.marked index _ (getElem?_eq_getElem inside)
  rw [pending_writeMarks waiting] at marked
  have written := subscriberResumePositions_advanceHighWaterMarks system.base updates index
  change _ = (marksFor updates index).getLast?.or _ at written
  rw [held] at written
  cases last : (marksFor updates index).getLast? with
  | none =>
    rw [last] at written
    exact ⟨mark, written, le_refl mark⟩
  | some later =>
    rw [last] at written
    refine ⟨later, written, ?_⟩
    have member : later ∈ marksFor updates index := mem_of_getLast? last
    have registered : Registered system.base.dispatchers[index] := by
      by_contra unregistered
      exact absurd (held.symm.trans (marked.early unregistered).2.1) nofun
    rcases marked.settled registered with ⟨nothing, -⟩ | ⟨only, one, lower, -⟩
    · have empty := (append_eq_nil_iff.mp (append_eq_nil_iff.mp nothing).2).1
      rw [empty] at member
      cases member
    · have same : later = only := by
        rw [← mem_singleton, ← one]
        exact mem_append_right _ (mem_append_left _ member)
      rw [same]
      exact (lower mark held).le

theorem Filtering.marksGrow {action} (filtering : Filtering system)
    (step : Step laterPosition capacity action system next) : MarksGrow system next := by
  cases step with
  | writeMarks waiting => exact filtering.writeMarks_grow waiting
  | @registerFilter _ own index dispatcher position here indexed resumes =>
    obtain rfl := filtering.indexed own dispatcher index here indexed
    intro other mark held
    by_cases same : other = index
    · have unregistered : ¬ Registered dispatcher := by simp [Registered, resumes, indexed]
      subst same
      exact absurd (held.symm.trans ((filtering.marked other dispatcher here).early unregistered).2.1) nofun
    · exact ⟨mark, (Function.update_of_ne same _ _).trans held, le_refl mark⟩
  | record ordered => exact .of_eq (subscriberResumePositions_recordPosition _ _)
  | subscribe settings => exact .of_eq (subscriberResumePositions_raiseSequenceFloor _ _)
  | createHandle here filtered => exact .of_eq (subscriberResumePositions_requestPositionHandle _ _)
  | dispatchSourceChange | dispatchEvent | lockDispatchers | deliver | suppress | release | attach | computeIndex
  | noFilter | receive => exact .of_eq rfl

end Steps

/-- In every run whose steps are all undisturbed, every subscriber gets exactly the events above the position it resumes
from and above all it got before, marks stay with their subscriber, and no mark is ever lowered. -/
theorem subscribers_filter_own {capacity : Nat} {id : String} {system : SourceSystem P}
    (reached : Reached laterPosition capacity Undisturbed (start (.new id)) system) :
    OwnFilters system ∧ ∀ action next, Step laterPosition capacity action system next → MarksGrow system next := by
  have filtering := Filtering.of_reached reached
  exact ⟨filtering.ownFilters, fun action next => filtering.marksGrow⟩

section Sample

def resumingAt (position : Option Nat) : SourceSubscriptionSettings Nat := ⟨"q", position, none, false⟩

def eventAt (position : Nat) : SourceEventWrapper Nat := ⟨"s", .delete ⟨⟨"s", "n"⟩, [], 0⟩, 0, 1, some position⟩

theorem undisturbed_offer {system : SourceSystem Nat} (written : system.trailing = [])
    (registered : system.base.dispatchers.all fun dispatcher =>
      dispatcher.settings.resumeFrom = none || dispatcher.phase = .filtered) : Undisturbed system .offer := by
  intro event index updates _
  rw [written]
  refine ⟨forall_mem_nil _, fun dispatcher here => ?_⟩
  have held := all_eq_true.mp registered dispatcher (mem_of_getElem? here)
  simp only [Bool.or_eq_true, decide_eq_true_eq] at held
  exact held.imp_right .inl

def deliveredPositions (system : SourceSystem Nat) : List (List (Option Nat)) :=
  system.base.dispatchers.map fun dispatcher => dispatcher.channel.delivered.map (·.sourcePosition)

/-- A subscriber that resumes from 5 and one that begins anew. The events at 3 and 7 are dispatched, and after a rewind the
one at 3 again. -/
theorem subscribers_filter_own_rewound :
    ∃ system : SourceSystem Nat, deliveredPositions system = [[some 7], [some 3, some 7]] ∧
      system.base.subscriberResumePositions 0 = some 7 ∧ OwnFilters system ∧
      ∀ action next, Step laterPosition 2 action system next → MarksGrow system next := by
  have begun : Reached laterPosition 2 Undisturbed (start (.new "s")) _ :=
    .single ⟨.subscribe (resumingAt (some 5)), trivial, .subscribe _⟩
  have attached := begun.tail ⟨.attach, trivial, @Step.attach _ _ 2 _ _ [] [] rfl rfl⟩
  have indexed := attached.tail ⟨.computeIndex 0, rfl, .computeIndex rfl rfl rfl⟩
  have registered := indexed.tail ⟨.registerFilter 0, trivial, .registerFilter rfl rfl rfl⟩
  have second := registered.tail ⟨.subscribe (resumingAt none), trivial, .subscribe _⟩
  have both := second.tail ⟨.attach, trivial, @Step.attach _ _ 2 _ _ [] [] rfl rfl⟩
  have ready := both.tail ⟨.registerFilter 1, trivial, .noFilter rfl rfl rfl⟩
  have third := ready.tail ⟨.dispatchEvent (eventAt 3), trivial, .dispatchEvent _ rfl⟩
  have locked := (third.tail ⟨.record, trivial, .record rfl⟩).tail ⟨.lockDispatchers, trivial, .lockDispatchers rfl⟩
  have held := locked.tail ⟨.offer, undisturbed_offer rfl rfl, .suppress rfl (by decide) rfl⟩
  have sent := held.tail ⟨.offer, undisturbed_offer rfl rfl, .deliver rfl rfl rfl rfl⟩
  have marked := (sent.tail ⟨.release, trivial, .release rfl⟩).tail
    ⟨.writeMarks, trivial, @Step.writeMarks _ _ _ _ _ [] [] rfl⟩
  have seventh := marked.tail ⟨.dispatchEvent (eventAt 7), trivial, .dispatchEvent _ rfl⟩
  have locked' := (seventh.tail ⟨.record, trivial, .record rfl⟩).tail ⟨.lockDispatchers, trivial, .lockDispatchers rfl⟩
  have first := locked'.tail ⟨.offer, undisturbed_offer rfl rfl, .deliver rfl rfl rfl rfl⟩
  have sent' := first.tail ⟨.offer, undisturbed_offer rfl rfl, .deliver rfl rfl rfl rfl⟩
  have marked' := (sent'.tail ⟨.release, trivial, .release rfl⟩).tail
    ⟨.writeMarks, trivial, @Step.writeMarks _ _ _ _ _ [] [] rfl⟩
  have again := marked'.tail ⟨.dispatchEvent (eventAt 3), trivial, .dispatchEvent _ rfl⟩
  have relocked := (again.tail ⟨.record, trivial, .record rfl⟩).tail ⟨.lockDispatchers, trivial, .lockDispatchers rfl⟩
  have withheld := relocked.tail ⟨.offer, undisturbed_offer rfl rfl, .suppress rfl (by decide) rfl⟩
  have withheld' := withheld.tail ⟨.offer, undisturbed_offer rfl rfl, .suppress rfl (by decide) rfl⟩
  have last := withheld'.tail ⟨.release, trivial, .release rfl⟩
  exact ⟨_, rfl, rfl, subscribers_filter_own last⟩

/-- The index is computed after another dispatcher was added: the filter goes to that one. An event below the position of
the first subscriber is delivered to it, and not to the second, which asked for no filter. -/
theorem filter_goes_to_other_dispatcher :
    ∃ system : SourceSystem Nat, Reached laterPosition 1 (fun _ _ => True) (start (.new "s")) system ∧ ¬ OwnFilters system := by
  have first : Reached laterPosition 1 (fun _ _ => True) (start (.new "s")) _ :=
    .single ⟨_, trivial, .subscribe (resumingAt (some 5))⟩
  have firstAttached := first.tail ⟨_, trivial, @Step.attach _ _ 1 _ _ [] [] rfl rfl⟩
  have second := firstAttached.tail ⟨_, trivial, .subscribe (resumingAt none)⟩
  have secondAttached := second.tail ⟨_, trivial, @Step.attach _ _ 1 _ _ [] [] rfl rfl⟩
  have indexed := secondAttached.tail ⟨.computeIndex 0, trivial, .computeIndex rfl rfl rfl⟩
  have registered := indexed.tail ⟨.registerFilter 0, trivial, .registerFilter rfl rfl rfl⟩
  have dispatched := registered.tail ⟨_, trivial, .dispatchEvent (eventAt 3) rfl⟩
  have recorded := dispatched.tail ⟨_, trivial, .record rfl⟩
  have locked := recorded.tail ⟨_, trivial, .lockDispatchers rfl⟩
  have delivered := locked.tail ⟨.offer, trivial, .deliver rfl rfl rfl rfl⟩
  refine ⟨_, delivered, fun filters => ?_⟩
  have due := filters.delivered _ mem_cons_self
  exact absurd (congrArg length due) (by decide)

end Sample

end DrasiCore.Proofs
