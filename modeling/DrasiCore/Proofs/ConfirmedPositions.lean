import DrasiCore.ConfirmedPositions
import DrasiCore.Proofs.SourceSteps

/-! What the upstream of a source is told to release, no subscriber that has confirmed a position still needs. -/

namespace DrasiCore.Proofs

open Library SourceSystem SourceBase ConfirmingSystem List

variable {P : Type} {positionReached : Option (P → P → Bool)} {capacity : Nat} {index : Nat}

variable {dispatcher : SourceDispatcher P} {event : SourceEventWrapper P}

section Source

variable {system next : SourceSystem P} {action : SourceAction P}

theorem Begins.begun (begins : Begins system action event) : action.begun system.base = [event] := by
  cases begins <;> rfl

section

variable (step : Step positionReached capacity action system next)
include step

theorem begun_eq_nil (none : ∀ event, ¬ Begins system action event) : action.begun system.base = [] := by
  cases step with
  | dispatchSourceChange change clock free => exact absurd (.change change clock) (none _)
  | dispatchEvent wrapper free => exact absurd (.event wrapper) (none _)
  | _ => rfl

/-- An entry of the position map was there before, or is of the event in flight. -/
theorem sequencePositionMap_step {entry} (member : entry ∈ next.base.sequencePositionMap.entries) :
    entry ∈ system.base.sequencePositionMap.entries ∨
      ∃ event, inFlight system.dispatch = some event ∧ entry.1 = event.sequence ∧ event.sourcePosition = some entry.2 := by
  cases step with
  | @record _ event ordered =>
    simp only [SourceSystem.withDispatch, recordPosition] at member
    cases placed : event.sourcePosition with
    | none => exact .inl (by simpa [placed] using member)
    | some position =>
      simp only [placed, Option.elim_some] at member
      rcases mem_insertEntry member with rfl | old
      · exact .inr ⟨event, by simp [ordered, inFlight], rfl, placed⟩
      · exact .inl old
  | subscribe settings =>
    rw [sequencePositionMap_raiseSequenceFloor] at member
    exact .inl member
  | writeMarks waiting =>
    rw [sequencePositionMap_advanceHighWaterMarks] at member
    exact .inl member
  | createHandle here filtered =>
    simp only [SourceSystem.withPhase, modifyDispatcher,
      sequencePositionMap_requestPositionHandle] at member
    exact .inl member
  | dispatchSourceChange | dispatchEvent | lockDispatchers | deliver | suppress | release | attach | computeIndex
  | registerFilter | noFilter | receive => exact .inl member

theorem positionHandles_step (plain : action.plain) : next.base.positionHandles = system.base.positionHandles := by
  cases step with
  | record ordered => exact positionHandles_recordPosition _ _
  | subscribe settings => exact positionHandles_raiseSequenceFloor _ _
  | writeMarks waiting => exact positionHandles_advanceHighWaterMarks _ _
  | attach | createHandle | receive => cases plain
  | dispatchSourceChange | dispatchEvent | lockDispatchers | deliver | suppress | release | computeIndex
  | registerFilter | noFilter => rfl

theorem length_dispatchers_step (plain : action.plain) :
    next.base.dispatchers.length = system.base.dispatchers.length := by
  cases step with
  | attach | createHandle | receive => cases plain
  | dispatchSourceChange => rfl
  | _ => simp [SourceSystem.withDispatch, SourceSystem.withPhase, modifyDispatcher, insertResumePosition]

end

/-- What a dispatcher keeps when no query takes part in a step. -/
structure KeptBy (before after : SourceDispatcher P) : Prop where
  taken : after.channel.taken = before.channel.taken
  done : before.phase = .done → after.phase = .done

/-- Only its receiver takes from a channel, and a subscription that is done stays so. -/
theorem KeptBy.of_step {after} (step : Step positionReached capacity action system next) (plain : action.plain)
    (found : next.base.dispatchers[index]? = some after) :
    ∃ before, system.base.dispatchers[index]? = some before ∧ KeptBy before after := by
  have modified : ∀ {other : Nat} {change : SourceDispatcher P → SourceDispatcher P},
      (system.base.dispatchers.modify other change)[index]? = some after →
      (∀ before, system.base.dispatchers[other]? = some before → KeptBy before (change before)) →
      ∃ before, system.base.dispatchers[index]? = some before ∧ KeptBy before after := by
    intro other change found keeps
    rcases getElem?_modify_cases found with ⟨rfl, before, was, rfl⟩ | ⟨-, was⟩
    · exact ⟨before, was, keeps before was⟩
    · exact ⟨after, was, rfl, id⟩
  cases step with
  | record ordered =>
    rw [SourceSystem.withDispatch, dispatchers_recordPosition] at found
    exact ⟨after, found, rfl, id⟩
  | subscribe settings =>
    rw [dispatchers_raiseSequenceFloor] at found
    exact ⟨after, found, rfl, id⟩
  | writeMarks waiting =>
    rw [dispatchers_advanceHighWaterMarks] at found
    exact ⟨after, found, rfl, id⟩
  | attach | createHandle | receive => cases plain
  | dispatchSourceChange | dispatchEvent | lockDispatchers | release => exact ⟨after, found, rfl, id⟩
  | deliver | suppress => exact modified found fun _ _ => ⟨rfl, id⟩
  | computeIndex here phase | registerFilter here phase | noFilter here phase =>
    refine modified found fun before was => ⟨rfl, fun done => ?_⟩
    cases here.symm.trans was
    cases phase.symm.trans done

/-- What the source has dispatched, as its position map and its subscribers show it. -/
structure DispatchRecord [LT P] (system : SourceSystem P) (history : List (SourceEventWrapper P)) : Prop where
  ordered : history.Pairwise (·.sequence < ·.sequence)
  last : ∀ event, inFlight system.dispatch = some event → history.getLast? = some event
  placed : ∀ entry ∈ system.base.sequencePositionMap.entries, ∀ event ∈ history, entry.1 < event.sequence →
    ∀ position ∈ event.sourcePosition, entry.2 < position
  reached : ∀ index dispatcher, system.base.dispatchers[index]? = some dispatcher →
    (dispatcher.channel.delivered ++ (upcoming system.dispatch index).toList).Sublist history

namespace DispatchRecord

variable [LT P] {history : List (SourceEventWrapper P)}

section

variable (recorded : DispatchRecord system history)
include recorded

theorem delivered (here : system.base.dispatchers[index]? = some dispatcher) :
    dispatcher.channel.delivered.Sublist history :=
  (sublist_append_left _ _).trans (recorded.reached index dispatcher here)

theorem delivered_ordered (here : system.base.dispatchers[index]? = some dispatcher) :
    dispatcher.channel.delivered.Pairwise (·.sequence < ·.sequence) :=
  recorded.ordered.sublist (recorded.delivered here)

theorem sequence_le (flies : inFlight system.dispatch = some event) {earlier} (member : earlier ∈ history) :
    earlier.sequence ≤ event.sequence := by
  obtain ⟨before, rfl⟩ := getLast?_eq_some_iff.mp (recorded.last event flies)
  rcases mem_append.mp member with old | new
  · exact Nat.le_of_lt ((pairwise_append.mp recorded.ordered).2.2 _ old _ (mem_singleton_self _))
  · rw [mem_singleton.mp new]

theorem withBase {base} (dispatchers : base.dispatchers = system.base.dispatchers)
    (entries : base.sequencePositionMap.entries ⊆ system.base.sequencePositionMap.entries) :
    DispatchRecord { system with base := base } history := by
  refine ⟨recorded.ordered, recorded.last, fun entry member => recorded.placed entry (entries member), ?_⟩
  intro index dispatcher here
  rw [dispatchers] at here
  exact recorded.reached index dispatcher here

theorem step
    (later : ∀ event ∈ action.begun system.base, (∀ earlier ∈ history, earlier.sequence < event.sequence) ∧
      ∀ entry ∈ system.base.sequencePositionMap.entries, ∀ position ∈ event.sourcePosition, entry.2 < position)
    (step : Step positionReached capacity action system next) :
    DispatchRecord next (history ++ action.begun system.base) := by
  refine ⟨?_, ?_, ?_, ?_⟩
  · refine pairwise_append.mpr ⟨recorded.ordered, ?_, ?_⟩
    · cases action <;> first | exact .nil | exact pairwise_singleton _ _
    · exact fun earlier old event new => (later event new).1 earlier old
  · intro event flies
    rcases inFlight_step step flies with before | begins
    · rw [begun_eq_nil step, append_nil]
      · exact recorded.last event before
      · intro other begins
        cases begins <;> cases step <;> simp_all [inFlight]
    · rw [begins.begun]
      exact getLast?_concat
  · intro entry member event happened above position placed
    rcases mem_append.mp happened with old | new
    · rcases sequencePositionMap_step step member with entered | ⟨flying, flies, sequence, -⟩
      · exact recorded.placed entry entered event old above position placed
      · have bound := recorded.sequence_le flies old
        omega
    · rcases sequencePositionMap_step step member with entered | ⟨flying, flies, sequence, -⟩
      · exact (later event new).2 entry entered position placed
      · cases step <;> simp_all [inFlight, SourceAction.begun]
  · intro index after found
    have kept : ∀ {list : List (SourceEventWrapper P)}, list.Sublist history →
        list.Sublist (history ++ action.begun system.base) := fun sub => sub.trans (sublist_append_left _ _)
    cases DispatcherStep.of_step step found with
    | same before here settings offered delivered =>
      rw [delivered]
      cases comes : upcoming next.dispatch index with
      | none => simpa using kept (recorded.delivered here)
      | some event =>
        rcases upcoming_step step comes with upcoming | begins
        · have reached := recorded.reached index before here
          rw [upcoming] at reached
          exact kept reached
        · rw [begins.begun]
          exact (recorded.delivered here).append (.refl _)
    | deliver before here settings event comes passes offered delivered served =>
      have reached := recorded.reached index before here
      rw [comes] at reached
      rw [delivered, served]
      simpa using kept reached
    | suppress before here settings event comes held offered delivered served =>
      rw [delivered, served]
      simpa using kept (recorded.delivered here)
    | attach attaches last offered delivered =>
      rw [delivered]
      cases comes : upcoming next.dispatch index with
      | none => simp
      | some event =>
        rcases inFlight_step step (inFlight_of_upcoming comes) with before | begins
        · have member := mem_of_getLast? (recorded.last event before)
          exact kept (singleton_sublist.mpr member)
        · rw [begins.begun]
          exact sublist_append_right _ _

theorem step_of_begun_eq_nil (quiet : action.begun system.base = [])
    (step : Step positionReached capacity action system next) : DispatchRecord next history := by
  have stepped := recorded.step (fun event member => absurd (quiet ▸ member) not_mem_nil) step
  rwa [quiet, append_nil] at stepped

end

end DispatchRecord

end Source

variable {reader : SourceReader P}

section Readers

/-- The reader has committed an event, or had done so when it started. -/
def Settled (reader : SourceReader P) (event : SourceEventWrapper P) : Prop :=
  event ∈ reader.committed ∨ ∃ sequence ∈ reader.seed, event.sequence ≤ sequence

/-- What a reader has done with the deliveries of its dispatcher, and what its handle says. -/
structure Confirms (handles : AList fun _ : String => Nat) (dispatcher : SourceDispatcher P) (reader : SourceReader P) :
    Prop where
  query : reader.queryId = dispatcher.settings.queryId
  committed : reader.committed ⊆ dispatcher.channel.delivered
  done : reader.seeded → dispatcher.phase = .done
  seeded : reader.committed ≠ [] → reader.seeded
  checkpoint : ∀ sequence ∈ reader.checkpoint,
    sequence ∈ reader.seed ∨ ∃ event ∈ reader.committed, event.sequence = sequence
  taken : reader.running → ∀ event ∈ dispatcher.channel.taken, Settled reader event
  upTo : ∀ event ∈ dispatcher.channel.delivered, ∀ last ∈ reader.committed, event.sequence ≤ last.sequence →
    Settled reader event
  resumed : reader.linked → reader.seeded → ∀ sequence ∈ reader.seed, reader.resumed = some sequence
  handle : reader.linked → ∃ value, handles.lookup reader.queryId = some value ∧
    (value = unconfirmed ∨ reader.resumed = some value ∨ ∃ event ∈ reader.committed, event.sequence = value)

namespace Confirms

variable {handles others : AList fun _ : String => Nat} {after : SourceDispatcher P}

theorem new (handles : AList fun _ : String => Nat) (settings : SourceSubscriptionSettings P) (capacity : Nat)
    (seed : Option Nat) : Confirms handles (.new settings capacity) (.new settings.queryId seed) where
  query := rfl
  committed := nil_subset _
  done seeded := absurd seeded Bool.false_ne_true
  seeded nonempty := absurd rfl nonempty
  checkpoint _ member := .inl member
  taken _ _ member := absurd member not_mem_nil
  upTo _ member := absurd member not_mem_nil
  resumed linked := absurd linked Bool.false_ne_true
  handle linked := absurd linked Bool.false_ne_true

section

variable (confirms : Confirms handles dispatcher reader)
include confirms

/-- Other handles do not matter, nor does the phase of the subscription; later deliveries come after all committed. -/
theorem grow (settings : after.settings = dispatcher.settings) (kept : KeptBy dispatcher after) {extra}
    (delivered : after.channel.delivered = dispatcher.channel.delivered ++ extra)
    (ordered : after.channel.delivered.Pairwise (·.sequence < ·.sequence)) : Confirms handles after reader := by
  refine ⟨confirms.query.trans (settings ▸ rfl), ?_, fun seeded => kept.done (confirms.done seeded), confirms.seeded,
    confirms.checkpoint, kept.taken ▸ confirms.taken, ?_, confirms.resumed, confirms.handle⟩
  · rw [delivered]
    exact fun event member => mem_append_left _ (confirms.committed member)
  · intro event member last committed bound
    rw [delivered] at member ordered
    rcases mem_append.mp member with old | new
    · exact confirms.upTo event old last committed bound
    · have above := (pairwise_append.mp ordered).2.2 last (confirms.committed committed) event new
      omega

theorem enter_done : Confirms handles (dispatcher.enter .done) reader :=
  { confirms with done := fun _ => rfl }

theorem withHandles (same : reader.linked → others.lookup reader.queryId = handles.lookup reader.queryId) :
    Confirms others dispatcher reader := by
  refine { confirms with handle := fun linked => ?_ }
  rw [same linked]
  exact confirms.handle linked

theorem halt : Confirms handles dispatcher { reader with running := false } :=
  { confirms with taken := nofun }

theorem unlink (queryId : String) : Confirms handles dispatcher (reader.unlink queryId) := by
  unfold SourceReader.unlink
  split
  · exact { confirms with resumed := nofun, handle := nofun }
  · exact confirms

theorem link {value} (unseeded : reader.seeded = false) (registered : handles.lookup reader.queryId = some value) :
    Confirms handles dispatcher (reader.link (some value)) := by
  refine { confirms with resumed := fun _ seeded => ?_, handle := fun _ => ?_ }
  · cases unseeded.symm.trans seeded
  · refine ⟨value, registered, ?_⟩
    by_cases unset : value = unconfirmed
    · exact .inl unset
    · exact .inr (.inl (by simp [SourceReader.link, unset]))

theorem seedHandle (done : dispatcher.phase = .done)
    (stored : reader.linked → ∀ sequence ∈ reader.seed, others.lookup reader.queryId = some sequence)
    (unseeded : reader.seed = none → others = handles) : Confirms others dispatcher reader.seedHandle := by
  refine ⟨confirms.query, confirms.committed, fun _ => done, fun _ => rfl, confirms.checkpoint, confirms.taken,
    confirms.upTo, ?_, ?_⟩
  · intro linked _ sequence seed
    have linked : reader.linked = true := linked
    have seed : reader.seed = some sequence := seed
    simp [SourceReader.seedHandle, linked, seed]
  · intro linked
    have linked : reader.linked = true := linked
    cases seed : reader.seed with
    | none =>
      rw [unseeded seed]
      simpa [SourceReader.seedHandle, linked, seed] using confirms.handle linked
    | some sequence =>
      refine ⟨sequence, stored linked sequence seed, .inr (.inl ?_)⟩
      simp [SourceReader.seedHandle, linked, seed]

theorem settled_of_skips (member : event ∈ dispatcher.channel.delivered) (skips : reader.skips event) :
    Settled reader event := by
  unfold SourceReader.skips at skips
  cases checkpoint : reader.checkpoint with
  | none => simp [checkpoint] at skips
  | some sequence =>
    have bound : event.sequence ≤ sequence := by simpa [checkpoint] using skips
    rcases confirms.checkpoint sequence checkpoint with seed | ⟨last, committed, rfl⟩
    · exact .inr ⟨sequence, seed, bound⟩
    · exact confirms.upTo event member last committed bound

end

section Receive

variable {rest : List (SourceEventWrapper P)}

theorem taken_receive (waiting : dispatcher.channel.waiting = event :: rest) :
    dispatcher.receive.channel.taken = dispatcher.channel.taken ++ [event] := by
  simp [SourceDispatcher.receive, Channel.receive, waiting]

theorem mem_delivered_of_waiting (waiting : dispatcher.channel.waiting = event :: rest) :
    event ∈ dispatcher.channel.delivered :=
  mem_append_right _ (waiting ▸ mem_cons_self)

theorem receive_halt (confirms : Confirms handles dispatcher reader) :
    Confirms handles dispatcher.receive { reader with running := false } := by
  have delivered : dispatcher.receive.channel.delivered = dispatcher.channel.delivered := Channel.delivered_receive _
  exact { confirms with committed := delivered ▸ confirms.committed, taken := nofun, upTo := delivered ▸ confirms.upTo }

theorem receive_settled (confirms : Confirms handles dispatcher reader) (running : reader.running)
    (waiting : dispatcher.channel.waiting = event :: rest) (settled : Settled reader event) :
    Confirms handles dispatcher.receive reader := by
  refine { confirms.receive_halt with taken := fun _ other member => ?_ }
  rw [taken_receive waiting] at member
  rcases mem_append.mp member with old | new
  · exact confirms.taken running other old
  · exact mem_singleton.mp new ▸ settled

def commit (reader : SourceReader P) (event : SourceEventWrapper P) : SourceReader P :=
  { reader with checkpoint := some event.sequence, committed := reader.committed ++ [event] }

theorem settled_commit {other} (settled : Settled reader other) : Settled (commit reader event) other :=
  settled.imp_left (mem_append_left _)

theorem settled_commit_self : Settled (commit reader event) event :=
  .inl (mem_append_right _ (mem_singleton_self _))

section

variable (ordered : dispatcher.channel.delivered.Pairwise (·.sequence < ·.sequence))
include ordered

/-- The processor commits an event. All that came before it was taken before. -/
theorem receive_commit (confirms : Confirms handles dispatcher reader) (seeded : reader.seeded) (running : reader.running)
    (waiting : dispatcher.channel.waiting = event :: rest)
    (stored : reader.linked → others.lookup reader.queryId = some event.sequence) :
    Confirms others dispatcher.receive (commit reader event) := by
  have delivered : dispatcher.receive.channel.delivered = dispatcher.channel.delivered := Channel.delivered_receive _
  have newest : event ∈ (commit reader event).committed := mem_append_right _ (mem_singleton_self _)
  refine ⟨confirms.query, ?_, confirms.done, fun _ => seeded, ?_, ?_, ?_, confirms.resumed, fun linked => ?_⟩
  · rw [delivered]
    intro other member
    rcases mem_append.mp member with old | new
    · exact confirms.committed old
    · exact mem_singleton.mp new ▸ mem_delivered_of_waiting waiting
  · intro sequence same
    cases same
    exact .inr ⟨event, newest, rfl⟩
  · intro _ other member
    rw [taken_receive waiting] at member
    rcases mem_append.mp member with old | new
    · exact settled_commit (confirms.taken running other old)
    · exact mem_singleton.mp new ▸ settled_commit_self
  · intro other member last committed bound
    rw [delivered] at member
    rcases mem_append.mp committed with old | new
    · exact settled_commit (confirms.upTo other member last old bound)
    · cases mem_singleton.mp new
      rw [Channel.delivered, waiting] at member ordered
      rcases mem_append.mp member with before | later
      · exact settled_commit (confirms.taken running other before)
      · rcases mem_cons.mp later with rfl | after
        · exact settled_commit_self
        · have above := (pairwise_cons.mp (pairwise_append.mp ordered).2.1).1 other after
          omega
  · exact ⟨event.sequence, stored linked, .inr (.inr ⟨event, newest, rfl⟩)⟩

theorem process (confirms : Confirms handles dispatcher reader) (seeded : reader.seeded)
    (running : reader.running) (waiting : dispatcher.channel.waiting = event :: rest) (succeeds : Bool)
    (stored : reader.linked → others.lookup reader.queryId =
      if reader.confirms event succeeds then some event.sequence else handles.lookup reader.queryId) :
    Confirms others dispatcher.receive (reader.process event succeeds) := by
  unfold SourceReader.process
  split
  · rename_i skips
    have settled := confirms.settled_of_skips (mem_delivered_of_waiting waiting) skips
    refine (confirms.receive_settled running waiting settled).withHandles fun linked => ?_
    rw [stored linked, SourceReader.confirms, skips]
    rfl
  · rename_i fresh
    cases succeeds with
    | false =>
      refine confirms.receive_halt.withHandles fun linked => ?_
      have stored := stored linked
      simpa [SourceReader.confirms] using stored
    | true =>
      refine confirms.receive_commit ordered seeded running waiting fun linked => ?_
      rw [stored linked, SourceReader.confirms, Bool.eq_false_iff.mpr fresh]
      rfl

end

end Receive

end Confirms

end Readers

variable {queryId : String}

theorem linked_of_unlink {reader : SourceReader P} (linked : (reader.unlink queryId).linked) :
    reader.linked ∧ reader.queryId ≠ queryId ∧ reader.unlink queryId = reader := by
  unfold SourceReader.unlink at linked ⊢
  split at linked
  · cases linked
  · rename_i different
    exact ⟨linked, different, if_neg different⟩

section

variable (reader : SourceReader P)

@[simp] theorem queryId_unlink (queryId : String) : (reader.unlink queryId).queryId = reader.queryId := by
  unfold SourceReader.unlink
  split <;> rfl

@[simp] theorem seeded_unlink (queryId : String) : (reader.unlink queryId).seeded = reader.seeded := by
  unfold SourceReader.unlink
  split <;> rfl

@[simp] theorem queryId_process (event : SourceEventWrapper P) (succeeds : Bool) :
    (reader.process event succeeds).queryId = reader.queryId := by
  unfold SourceReader.process
  split
  · rfl
  · split <;> rfl

@[simp] theorem linked_process (event : SourceEventWrapper P) (succeeds : Bool) :
    (reader.process event succeeds).linked = reader.linked := by
  unfold SourceReader.process
  split
  · rfl
  · split <;> rfl

end

section Handles

variable (base : SourceBase P)

theorem lookup_createPositionHandle (queryId : String) :
    ∃ value, (base.createPositionHandle queryId).positionHandles.lookup queryId = some value := by
  unfold createPositionHandle
  split
  · rename_i present
    exact Option.isSome_iff_exists.mp (AList.lookup_isSome.mpr present)
  · exact ⟨_, AList.lookup_insert _⟩

theorem lookup_createPositionHandle_of_ne {other} (different : other ≠ queryId) :
    (base.createPositionHandle queryId).positionHandles.lookup other = base.positionHandles.lookup other := by
  unfold createPositionHandle
  split
  · rfl
  · exact AList.lookup_insert_ne different

section

variable (reader : SourceReader P) (sequence : Nat)

theorem lookup_storeFor (linked : reader.linked) :
    (storeFor base reader sequence).positionHandles.lookup reader.queryId = some sequence := by
  rw [storeFor, if_pos linked]
  exact AList.lookup_insert _

theorem lookup_storeFor_of_ne (different : reader.linked → queryId ≠ reader.queryId) :
    (storeFor base reader sequence).positionHandles.lookup queryId =
      base.positionHandles.lookup queryId := by
  unfold storeFor
  split
  · rename_i linked
    exact AList.lookup_insert_ne (different linked)
  · rfl

@[simp] theorem dispatchers_storeFor : (storeFor base reader sequence).dispatchers = base.dispatchers := by
  unfold storeFor
  split <;> rfl

@[simp] theorem sequencePositionMap_storeFor :
    (storeFor base reader sequence).sequencePositionMap = base.sequencePositionMap := by
  unfold storeFor
  split <;> rfl

end

end Handles

variable {system : ConfirmingSystem P}

section System

variable [LT P] {next : ConfirmingSystem P}

structure Confirming (system : ConfirmingSystem P) : Prop where
  recorded : DispatchRecord system.source system.history
  paired : system.readers.length = system.source.base.dispatchers.length
  confirms : ∀ (own : Nat) dispatcher reader, system.source.base.dispatchers[own]? = some dispatcher →
    system.readers[own]? = some reader → Confirms system.source.base.positionHandles dispatcher reader
  /-- A handle belongs to one subscription. -/
  alone : ∀ (own other : Nat) reader rival, system.readers[own]? = some reader → system.readers[other]? = some rival →
    reader.linked → rival.linked → reader.queryId = rival.queryId → own = other

/-- An event gets a sequence above all before it, and its position is above those recorded. -/
def PositionsRise (system : ConfirmingSystem P) : ConfirmAction P → Prop
  | .source action => ∀ event ∈ action.begun system.source.base,
      (∀ earlier ∈ system.history, earlier.sequence < event.sequence) ∧
        ∀ entry ∈ system.source.base.sequencePositionMap.entries, ∀ position ∈ event.sourcePosition, entry.2 < position
  | _ => True

theorem PositionsRise.of_begun_eq_nil {action} (quiet : action.begun system.source.base = []) :
    PositionsRise system (.source action) :=
  fun _ member => absurd (quiet ▸ member) not_mem_nil

namespace Confirming

variable {own : Nat} {base : SourceBase P}

theorem start (id : String) : Confirming (.start (.new id) : ConfirmingSystem P) := by
  refine ⟨⟨.nil, ?_, fun _ member => absurd member not_mem_nil, ?_⟩, rfl, ?_, ?_⟩
  · intro event flies
    cases flies
  · intro index dispatcher here
    cases here
  · intro own dispatcher reader here
    cases here
  · intro own other reader rival here
    cases here

section

variable (confirming : Confirming system)
include confirming

theorem source {action source} (rises : PositionsRise system (.source action)) (plain : action.plain)
    (step : Step positionReached capacity action system.source source) :
    Confirming ⟨source, system.readers, system.history ++ action.begun system.source.base⟩ := by
  have recorded := confirming.recorded.step rises step
  refine ⟨recorded, confirming.paired.trans (length_dispatchers_step step plain).symm, ?_, confirming.alone⟩
  intro own after reader found reads
  obtain ⟨before, here, kept⟩ := KeptBy.of_step step plain found
  rw [positionHandles_step step plain]
  have confirms := confirming.confirms own before reader here reads
  have ordered := recorded.delivered_ordered found
  cases DispatcherStep.of_step step found with
  | same before' here' settings offered delivered =>
    cases here.symm.trans here'
    exact confirms.grow settings kept (delivered.trans (append_nil _).symm) ordered
  | deliver before' here' settings event comes passes offered delivered served =>
    cases here.symm.trans here'
    exact confirms.grow settings kept delivered ordered
  | suppress before' here' settings event comes held offered delivered served =>
    cases here.symm.trans here'
    exact confirms.grow settings kept (delivered.trans (append_nil _).symm) ordered
  | attach attaches last offered delivered =>
    subst attaches
    cases plain

theorem modify
    {serve change} (here : system.source.base.dispatchers[own]? = some dispatcher)
    (reads : system.readers[own]? = some reader)
    (recorded : DispatchRecord { system.source with base := base } system.history)
    (dispatchers : base.dispatchers = system.source.base.dispatchers.modify own serve)
    (handles : ∀ queryId, (reader.linked → queryId ≠ reader.queryId) →
      base.positionHandles.lookup queryId = system.source.base.positionHandles.lookup queryId)
    (linked : (change reader).linked → reader.linked ∨
      ∀ rival ∈ system.readers, rival.linked → rival.queryId ≠ reader.queryId)
    (query : (change reader).queryId = reader.queryId)
    (confirms : Confirms base.positionHandles (serve dispatcher) (change reader)) :
    Confirming { system.withBase base with readers := system.readers.modify own change } := by
  refine ⟨recorded, ?_, ?_, ?_⟩
  · simp [withBase, dispatchers, confirming.paired]
  · intro other after rival found reads'
    rw [withBase, dispatchers] at found
    rcases getElem?_modify_cases reads' with ⟨rfl, before, was, rfl⟩ | ⟨different, was⟩
    · cases reads.symm.trans was
      rcases getElem?_modify_cases found with ⟨-, before, was, rfl⟩ | ⟨different, -⟩
      · cases here.symm.trans was
        exact confirms
      · exact absurd rfl different
    · rcases getElem?_modify_cases found with ⟨same, -⟩ | ⟨-, found⟩
      · exact absurd same different
      · refine (confirming.confirms other after rival found was).withHandles fun rivals => handles _ ?_
        intro owns same
        exact different (confirming.alone own other reader rival reads was owns rivals same.symm)
  · -- The reader that changed was linked before, or no other reader of its query is.
    have lonely : ∀ {other : Nat} {rival : SourceReader P}, system.readers[other]? = some rival → rival.linked →
        (change reader).linked → rival.queryId = reader.queryId → own = other := by
      intro other rival found linkedRival linkedOwn same
      rcases linked linkedOwn with was | free
      · exact confirming.alone own other reader rival reads found was linkedRival same.symm
      · exact absurd same (free rival (mem_of_getElem? found) linkedRival)
    intro left right entry rival found foundRival linkedLeft linkedRight same
    rcases getElem?_modify_cases found with ⟨rfl, before, was, rfl⟩ | ⟨-, was⟩ <;>
      rcases getElem?_modify_cases foundRival with ⟨rfl, beforeRival, wasRival, rfl⟩ | ⟨-, wasRival⟩
    · rfl
    · cases reads.symm.trans was
      exact lonely wasRival linkedRight linkedLeft (same.symm.trans query)
    · cases reads.symm.trans wasRival
      exact (lonely was linkedLeft linkedRight (same.trans query)).symm
    · exact confirming.alone left right entry rival was wasRival linkedLeft linkedRight same

theorem reader_of_dispatcher (here : system.source.base.dispatchers[own]? = some dispatcher) :
    ∃ reader, system.readers[own]? = some reader := by
  have inside := (List.getElem?_eq_some_iff.mp here).1
  exact ⟨_, List.getElem?_eq_getElem (confirming.paired ▸ inside)⟩

theorem attach {settings before after} (seed : Option Nat)
    (started : system.source.starting = before ++ settings :: after) (unread : system.source.reading = false) :
    Confirming ⟨{ system.source with
        base := system.source.base.createStreamingReceiver settings capacity
        starting := before ++ after },
      system.readers ++ [.new settings.queryId seed], system.history⟩ := by
  have step : Step none capacity .attach system.source _ := .attach started unread
  refine ⟨confirming.recorded.step_of_begun_eq_nil rfl step, ?_, ?_, ?_⟩
  · simp [createStreamingReceiver, confirming.paired]
  · intro own dispatcher reader found reads
    rcases getElem?_concat_cases reads with old | ⟨last, rfl⟩
    · rcases getElem?_concat_cases found with here | ⟨rfl, -⟩
      · exact confirming.confirms own dispatcher reader here old
      · have inside := (List.getElem?_eq_some_iff.mp old).1
        exact absurd (confirming.paired ▸ inside) (Nat.lt_irrefl _)
    · rcases getElem?_concat_cases found with here | ⟨-, rfl⟩
      · have inside := (List.getElem?_eq_some_iff.mp here).1
        exact absurd (last ▸ confirming.paired ▸ inside) (Nat.lt_irrefl _)
      · exact .new _ settings capacity seed
  · intro own other reader rival found foundRival linked linkedRival same
    rcases getElem?_concat_cases found with old | ⟨-, rfl⟩
    · rcases getElem?_concat_cases foundRival with oldRival | ⟨-, rfl⟩
      · exact confirming.alone own other reader rival old oldRival linked linkedRival same
      · exact absurd linkedRival Bool.false_ne_true
    · exact absurd linked Bool.false_ne_true

theorem unlink (queryId : String) (recorded : DispatchRecord { system.source with base := base } system.history)
    (dispatchers : base.dispatchers = system.source.base.dispatchers)
    (handles : ∀ other ≠ queryId, base.positionHandles.lookup other = system.source.base.positionHandles.lookup other) :
    Confirming { system.withBase base with readers := system.readers.map (·.unlink queryId) } := by
  refine ⟨recorded, ?_, ?_, ?_⟩
  · simp [withBase, dispatchers, confirming.paired]
  · intro own dispatcher after here found
    rw [withBase, dispatchers] at here
    rw [getElem?_map] at found
    obtain ⟨reader, reads, rfl⟩ := Option.map_eq_some_iff.mp found
    refine ((confirming.confirms own dispatcher reader here reads).unlink queryId).withHandles fun linked => ?_
    obtain ⟨-, different, same⟩ := linked_of_unlink linked
    rw [same]
    exact handles _ different
  · intro own other after rivalAfter found foundRival linked linkedRival same
    rw [getElem?_map] at found foundRival
    obtain ⟨reader, reads, rfl⟩ := Option.map_eq_some_iff.mp found
    obtain ⟨rival, readsRival, rfl⟩ := Option.map_eq_some_iff.mp foundRival
    obtain ⟨was, -, keeps⟩ := linked_of_unlink linked
    obtain ⟨wasRival, -, keepsRival⟩ := linked_of_unlink linkedRival
    rw [keeps, keepsRival] at same
    exact confirming.alone own other reader rival reads readsRival was wasRival same

theorem createHandle (here : system.source.base.dispatchers[own]? = some dispatcher)
    (filtered : dispatcher.phase = .filtered) :
    Confirming ⟨system.source.withPhase (system.source.base.requestPositionHandle dispatcher.settings) own .done,
      if dispatcher.settings.requestPositionHandle then
        (system.readers.map (·.unlink dispatcher.settings.queryId)).modify own (·.link
          ((system.source.base.requestPositionHandle dispatcher.settings).positionHandles.lookup
            dispatcher.settings.queryId))
      else system.readers, system.history⟩ := by
  have step : Step none 0 (.createHandle own) system.source _ := .createHandle here filtered
  have recorded := confirming.recorded.step_of_begun_eq_nil rfl step
  obtain ⟨reader, reads⟩ := confirming.reader_of_dispatcher here
  have confirms := confirming.confirms own dispatcher reader here reads
  have unseeded : reader.seeded = false := by
    by_contra seeded
    have done := confirms.done (by simpa using seeded)
    exact absurd (filtered.symm.trans done) nofun
  by_cases requests : dispatcher.settings.requestPositionHandle
  · rw [if_pos requests]
    have registered : system.source.base.requestPositionHandle dispatcher.settings =
        system.source.base.createPositionHandle dispatcher.settings.queryId := if_pos requests
    have dispatchers := dispatchers_requestPositionHandle system.source.base dispatcher.settings
    have entries := sequencePositionMap_requestPositionHandle system.source.base dispatcher.settings
    rw [registered] at recorded dispatchers entries ⊢
    obtain ⟨value, lookup⟩ := lookup_createPositionHandle system.source.base dispatcher.settings.queryId
    rw [lookup]
    -- First the handle is taken from all, then given to the new subscription.
    have freed := confirming.unlink dispatcher.settings.queryId
      (confirming.recorded.withBase dispatchers (entries ▸ List.Subset.refl _)) dispatchers
      fun other different => lookup_createPositionHandle_of_ne _ different
    have readsFreed : (system.readers.map (·.unlink dispatcher.settings.queryId))[own]? =
        some (reader.unlink dispatcher.settings.queryId) := by
      rw [getElem?_map, reads]
      rfl
    have hereFreed := dispatchers ▸ here
    have confirmsFreed := freed.confirms own dispatcher _ hereFreed readsFreed
    refine freed.modify hereFreed readsFreed recorded rfl (fun _ _ => rfl) ?_ rfl (confirmsFreed.link ?_ ?_).enter_done
    · intro _
      refine .inr fun rival member linked => ?_
      obtain ⟨before, -, rfl⟩ := mem_map.mp member
      obtain ⟨-, different, same⟩ := linked_of_unlink linked
      rw [same, queryId_unlink, confirms.query]
      exact different
    · rw [seeded_unlink, unseeded]
    · rw [queryId_unlink, confirms.query]
      exact lookup
  · rw [if_neg requests]
    have same : system.source.base.requestPositionHandle dispatcher.settings = system.source.base := if_neg requests
    rw [same] at recorded ⊢
    rw [← modify_id own system.readers]
    exact confirming.modify here reads recorded rfl (fun _ _ => rfl) (fun linked => .inl linked) rfl confirms.enter_done

theorem seedHandle (here : system.source.base.dispatchers[own]? = some dispatcher) (done : dispatcher.phase = .done)
    (reads : system.readers[own]? = some reader) :
    Confirming { system.withBase (reader.seed.elim system.source.base
        (storeFor system.source.base reader)) with
      readers := system.readers.modify own (·.seedHandle) } := by
  have confirms := confirming.confirms own dispatcher reader here reads
  cases seed : reader.seed with
  | none =>
    refine confirming.modify here reads confirming.recorded (modify_id _ _).symm (fun _ _ => rfl)
      (fun linked => .inl linked) rfl (confirms.seedHandle done ?_ fun _ => rfl)
    intro _ sequence some
    exact absurd (seed.symm.trans some) nofun
  | some sequence =>
    refine confirming.modify here reads (confirming.recorded.withBase ?_ ?_)
      ((dispatchers_storeFor ..).trans (modify_id _ _).symm) (fun queryId different => ?_) (fun linked => .inl linked)
      rfl (confirms.seedHandle done ?_ ?_)
    · exact dispatchers_storeFor ..
    · rw [Option.elim_some, sequencePositionMap_storeFor]
      exact List.Subset.refl _
    · exact lookup_storeFor_of_ne _ _ _ different
    · intro linked other some
      cases seed.symm.trans some
      exact lookup_storeFor _ _ _ linked
    · intro none
      exact absurd (seed.symm.trans none) nofun

theorem process {event rest} (succeeds : Bool) (here : system.source.base.dispatchers[own]? = some dispatcher)
    (reads : system.readers[own]? = some reader) (seeded : reader.seeded) (running : reader.running)
    (waiting : dispatcher.channel.waiting = event :: rest) :
    Confirming { system.withBase ((if reader.confirms event succeeds then
          storeFor system.source.base reader event.sequence
        else system.source.base).modifyDispatcher own (·.receive)) with
      readers := system.readers.modify own (·.process event succeeds) } := by
  have confirms := confirming.confirms own dispatcher reader here reads
  have ordered := confirming.recorded.delivered_ordered here
  -- Storing the position changes no dispatcher, and receiving changes no handle.
  have stores : ∃ base : SourceBase P, base = (if reader.confirms event succeeds then
      storeFor system.source.base reader event.sequence else system.source.base) ∧
      base.dispatchers = system.source.base.dispatchers ∧
      base.sequencePositionMap = system.source.base.sequencePositionMap ∧
      (∀ queryId, (reader.linked → queryId ≠ reader.queryId) →
        base.positionHandles.lookup queryId = system.source.base.positionHandles.lookup queryId) ∧
      (reader.linked → base.positionHandles.lookup reader.queryId =
        if reader.confirms event succeeds then some event.sequence
        else system.source.base.positionHandles.lookup reader.queryId) := by
    by_cases commits : reader.confirms event succeeds
    · simp only [if_pos commits]
      exact ⟨_, rfl, dispatchers_storeFor .., sequencePositionMap_storeFor ..,
        fun _ different => lookup_storeFor_of_ne _ _ _ different, lookup_storeFor _ _ _⟩
    · simp only [if_neg commits]
      exact ⟨_, rfl, rfl, rfl, fun _ _ => rfl, fun _ => rfl⟩
  obtain ⟨base, same, dispatchers, entries, others, stored⟩ := stores
  rw [← same]
  have recorded := confirming.recorded.withBase dispatchers (entries ▸ List.Subset.refl _)
  have step : Step none 0 (.receive own) { system.source with base := base } _ :=
    .receive (dispatchers.symm ▸ here) (waiting ▸ cons_ne_nil _ _)
  refine confirming.modify here reads (recorded.step_of_begun_eq_nil rfl step) ?_ others ?_ ?_
    (confirms.process ordered seeded running waiting succeeds stored)
  · rw [modifyDispatcher, dispatchers]
  · intro linked
    exact .inl (linked_process reader event succeeds ▸ linked)
  · exact queryId_process reader event succeeds

theorem halt (own : Nat) :
    Confirming { system with readers := system.readers.modify own ({ · with running := false }) } := by
  cases reads : system.readers[own]? with
  | none =>
    rw [modify_eq_self (getElem?_eq_none_iff.mp reads)]
    exact confirming
  | some reader =>
    have inside := (List.getElem?_eq_some_iff.mp reads).1
    obtain ⟨dispatcher, here⟩ : ∃ dispatcher, system.source.base.dispatchers[own]? = some dispatcher :=
      ⟨_, List.getElem?_eq_getElem (confirming.paired ▸ inside)⟩
    exact confirming.modify here reads confirming.recorded (modify_id _ _).symm (fun _ _ => rfl)
      (fun linked => .inl linked) rfl (confirming.confirms own dispatcher reader here reads).halt

theorem forget (dispatchers : base.dispatchers = system.source.base.dispatchers)
    (handles : base.positionHandles = system.source.base.positionHandles)
    (entries : base.sequencePositionMap.entries ⊆ system.source.base.sequencePositionMap.entries) :
    Confirming (system.withBase base) := by
  refine ⟨confirming.recorded.withBase dispatchers entries, ?_, ?_, confirming.alone⟩
  · rw [withBase, dispatchers]
    exact confirming.paired
  · rw [withBase, dispatchers, handles]
    exact confirming.confirms

theorem step {action} (rises : PositionsRise system action)
    (step : ConfirmingSystem.Step positionReached capacity action system next) : Confirming next := by
  cases step with
  | source plain step => exact confirming.source rises plain step
  | attach seed started unread ended => exact confirming.attach seed started unread
  | createHandle here filtered => exact confirming.createHandle here filtered
  | seedHandle here done reads unseeded => exact confirming.seedHandle here done reads
  | process succeeds here reads seeded running waiting =>
    exact confirming.process succeeds here reads seeded running waiting
  | halt own => exact confirming.halt own
  | removeHandle queryId =>
    refine confirming.unlink queryId (confirming.recorded.withBase rfl (List.Subset.refl _)) rfl ?_
    intro other different
    exact AList.lookup_erase_ne different
  | prune upTo => exact confirming.forget rfl rfl filter_sublist.subset
  | clear => exact confirming.forget rfl rfl (nil_subset _)

end

theorem run {id} (reached : ConfirmingSystem.Reached positionReached capacity PositionsRise (.start (.new id)) system) :
    Confirming system := by
  induction reached with
  | refl => exact .start id
  | tail _ last ih =>
    obtain ⟨action, rises, step⟩ := last
    exact ih.step rises step

end Confirming

end System

section Release

/-- The sequence of the position for the upstream is confirmed by every handle that holds a position. -/
theorem exists_entry_of_confirmed {base : SourceBase P} {position}
    (confirmed : base.computeConfirmedSourcePosition = some position) {value}
    (lookup : base.positionHandles.lookup queryId = some value) (set : value ≠ unconfirmed) :
    ∃ sequence ≤ value, (sequence, position) ∈ base.sequencePositionMap.entries := by
  obtain ⟨least, minimum, found⟩ := Option.bind_eq_some_iff.mp confirmed
  obtain ⟨entry, last, rfl⟩ := Option.map_eq_some_iff.mp found
  have member := mem_filter.mp (mem_of_getLast? last)
  have held : value ∈ (base.positionHandles.entries.map (·.2)).filter (· ≠ unconfirmed) := by
    refine mem_filter.mpr ⟨mem_map.mpr ⟨⟨queryId, value⟩, AList.mem_lookup_iff.mp lookup, rfl⟩, ?_⟩
    exact decide_eq_true set
  have least_le := (min?_eq_some_iff.mp minimum).2 value held
  exact ⟨entry.1, le_trans (of_decide_eq_true member.2) least_le, member.1⟩

/-- What a subscriber that has confirmed a position got at or before the position for the upstream, it has committed since
it subscribed, or before. -/
theorem released_changes_committed [Preorder P] {id : String}
    (reached : ConfirmingSystem.Reached positionReached capacity PositionsRise (.start (.new id)) system) {position : P}
    (confirmed : system.source.base.computeConfirmedSourcePosition = some position) {own : Nat}
    {dispatcher : SourceDispatcher P} {reader : SourceReader P}
    (here : system.source.base.dispatchers[own]? = some dispatcher) (reads : system.readers[own]? = some reader)
    (linked : reader.linked) (set : system.source.base.positionHandles.lookup reader.queryId ≠ some unconfirmed)
    {event : SourceEventWrapper P} (delivered : event ∈ dispatcher.channel.delivered) {placed : P}
    (recorded : event.sourcePosition = some placed) (released : placed ≤ position) :
    event ∈ reader.committed ∨ ∃ sequence ∈ reader.resumed, event.sequence ≤ sequence := by
  have confirming := Confirming.run reached
  have confirms := confirming.confirms own dispatcher reader here reads
  obtain ⟨value, lookup, holds⟩ := confirms.handle linked
  have confirmedValue : value ≠ unconfirmed := fun unset => set (unset ▸ lookup)
  obtain ⟨sequence, bound, entered⟩ := exists_entry_of_confirmed confirmed lookup confirmedValue
  have dispatched := (confirming.recorded.delivered here).subset delivered
  -- An event after the entry would have a position after it.
  have before : event.sequence ≤ sequence := by
    by_contra after
    have above := confirming.recorded.placed _ entered event dispatched (Nat.lt_of_not_le after) placed recorded
    exact absurd (lt_of_lt_of_le above released) (lt_irrefl _)
  rcases holds with unset | resumed | ⟨last, committed, same⟩
  · exact absurd unset confirmedValue
  · exact .inr ⟨value, resumed, le_trans before bound⟩
  · rcases confirms.upTo event delivered last committed (by omega) with settled | ⟨seed, seeds, below⟩
    · exact .inl settled
    · have seeded := confirms.seeded (ne_nil_of_mem committed)
      exact .inr ⟨seed, confirms.resumed linked seeded seed seeds, below⟩

end Release

section Sample

def firstRun (queryId : String) : SourceSubscriptionSettings Nat := ⟨queryId, none, none, true⟩

def changeAtSeven : SourceEventWrapper Nat := ⟨"s", .delete ⟨⟨"s", "n"⟩, [], 0⟩, 0, 1, some 7⟩

/-- Two queries without a checkpoint subscribe and get one change, and the first of them commits it. -/
theorem exists_reached_one_committed : ∃ system : ConfirmingSystem Nat,
    ConfirmingSystem.Reached none 1 PositionsRise (.start (.new "s")) system ∧
    system.source.base.computeConfirmedSourcePosition = some 7 ∧
    (∃ dispatcher reader, system.source.base.dispatchers[0]? = some dispatcher ∧ system.readers[0]? = some reader ∧
      reader.linked ∧ system.source.base.positionHandles.lookup reader.queryId = some 1 ∧
      dispatcher.channel.delivered = [changeAtSeven]) ∧
    ∃ dispatcher reader, system.source.base.dispatchers[1]? = some dispatcher ∧ system.readers[1]? = some reader ∧
      reader.linked ∧ system.source.base.positionHandles.lookup reader.queryId = some unconfirmed ∧
      dispatcher.channel.delivered = [changeAtSeven] ∧ reader.committed = [] ∧ reader.resumed = none := by
  have begun : ConfirmingSystem.Reached none 1 PositionsRise (.start (.new "s")) _ :=
    .single ⟨.source (.subscribe (firstRun "a")), .of_begun_eq_nil rfl, .source rfl (.subscribe _)⟩
  have attached := begun.tail
    ⟨.attach none, trivial, @ConfirmingSystem.Step.attach _ _ 1 _ _ [] [] none rfl rfl (fun _ member => nomatch member)⟩
  have filtered := attached.tail
    ⟨.source (.registerFilter 0), .of_begun_eq_nil rfl, .source rfl (.noFilter rfl rfl rfl)⟩
  have handled := filtered.tail ⟨.createHandle 0, trivial, .createHandle rfl rfl⟩
  have seeded := handled.tail ⟨.seedHandle 0, trivial, .seedHandle rfl rfl rfl rfl⟩
  have begun' := seeded.tail ⟨.source (.subscribe (firstRun "b")), .of_begun_eq_nil rfl, .source rfl (.subscribe _)⟩
  have attached' := begun'.tail ⟨.attach none, trivial, @ConfirmingSystem.Step.attach _ _ 1 _ _ [] [] none rfl rfl
    (fun _ member same => absurd ((congrArg SourceReader.queryId (mem_singleton.mp member)).symm.trans same)
      (by decide : ¬ "a" = "b"))⟩
  have filtered' := attached'.tail
    ⟨.source (.registerFilter 1), .of_begun_eq_nil rfl, .source rfl (.noFilter rfl rfl rfl)⟩
  have handled' := filtered'.tail ⟨.createHandle 1, trivial, .createHandle rfl rfl⟩
  have seeded' := handled'.tail ⟨.seedHandle 1, trivial, .seedHandle rfl rfl rfl rfl⟩
  have ordered := seeded'.tail ⟨.source (.dispatchEvent changeAtSeven),
    fun _ _ => ⟨fun _ member => absurd member not_mem_nil, fun _ member => absurd member not_mem_nil⟩,
    .source rfl (.dispatchEvent _ rfl)⟩
  have recorded := ordered.tail ⟨.source .record, .of_begun_eq_nil rfl, .source rfl (.record rfl)⟩
  have locked := recorded.tail ⟨.source .lockDispatchers, .of_begun_eq_nil rfl, .source rfl (.lockDispatchers rfl)⟩
  have first := locked.tail ⟨.source .offer, .of_begun_eq_nil rfl, .source rfl (.deliver rfl rfl rfl rfl)⟩
  have second := first.tail ⟨.source .offer, .of_begun_eq_nil rfl, .source rfl (.deliver rfl rfl rfl rfl)⟩
  have released := second.tail ⟨.source .release, .of_begun_eq_nil rfl, .source rfl (.release rfl)⟩
  have committed := released.tail ⟨.process 0 true, trivial, .process true rfl rfl rfl rfl rfl⟩
  exact ⟨_, committed, rfl, ⟨_, _, rfl, rfl, rfl, rfl, rfl⟩, ⟨_, _, rfl, rfl, rfl, rfl, rfl, rfl, rfl⟩⟩

theorem released_changes_committed_first : ∃ (system : ConfirmingSystem Nat) (reader : SourceReader Nat),
    system.source.base.computeConfirmedSourcePosition = some 7 ∧ system.readers[0]? = some reader ∧
      (changeAtSeven ∈ reader.committed ∨ ∃ sequence ∈ reader.resumed, changeAtSeven.sequence ≤ sequence) := by
  obtain ⟨system, reached, confirmed, ⟨dispatcher, reader, here, reads, linked, held, delivered⟩, -⟩ :=
    exists_reached_one_committed
  have set : system.source.base.positionHandles.lookup reader.queryId ≠ some unconfirmed := by
    rw [held]
    decide
  have member : changeAtSeven ∈ dispatcher.channel.delivered := delivered ▸ mem_singleton_self _
  exact ⟨system, reader, confirmed, reads,
    released_changes_committed reached confirmed here reads linked set member rfl (Nat.le_refl 7)⟩

/-- A subscriber that has not confirmed anything does not hold back the position for the upstream. -/
theorem released_past_unconfirmed : ∃ (system : ConfirmingSystem Nat) (own : Nat) (dispatcher : SourceDispatcher Nat)
    (reader : SourceReader Nat) (event : SourceEventWrapper Nat) (position : Nat),
    ConfirmingSystem.Reached none 1 PositionsRise (.start (.new "s")) system ∧
      system.source.base.dispatchers[own]? = some dispatcher ∧ system.readers[own]? = some reader ∧ reader.linked ∧
      event ∈ dispatcher.channel.delivered ∧ event.sourcePosition = some position ∧
      system.source.base.computeConfirmedSourcePosition = some position ∧
      event ∉ reader.committed ∧ reader.resumed = none := by
  obtain ⟨system, reached, confirmed, -, dispatcher, reader, here, reads, linked, -, delivered, committed, resumed⟩ :=
    exists_reached_one_committed
  refine ⟨system, 1, dispatcher, reader, changeAtSeven, 7, reached, here, reads, linked, ?_, rfl, confirmed, ?_, resumed⟩
  · rw [delivered]
    exact mem_singleton_self _
  · rw [committed]
    exact not_mem_nil

end Sample

end DrasiCore.Proofs
