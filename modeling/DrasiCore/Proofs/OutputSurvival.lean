import DrasiCore.Proofs.DurableOutput

/-! Runs of a persistent query's output through commits, dispatches, crashes and stops. -/

namespace DrasiCore.Proofs

open Library LiveRows QueryResult List QueryOutputState DurableOutput CommittedOutput

variable {durable : DurableOutput} {staged : Option QueryResult} {memory : QueryOutputState}
  {committed : CommittedOutput} {positions : List (String × ByteString)}

theorem InStep.congr {one two} (inStep : InStep one durable) (rows : two.results = one.results)
    (sequence : two.asOfSequence = one.asOfSequence)
    (outbox : two.outbox.map withoutProfiling = one.outbox.map withoutProfiling)
    (capacity : two.outboxCapacity = one.outboxCapacity) : InStep two durable where
  rows := rows ▸ inStep.rows
  sequence := sequence ▸ inStep.sequence
  outbox := by rw [outbox, inStep.outbox, capacity]
  capacity := capacity ▸ inStep.capacity

theorem applyCommittedSequence_outbox (state : QueryOutputState) (sequence : Nat) (diffs : List ResultDiff)
    (result : QueryResult) :
    (state.applyCommittedSequence sequence diffs result).outbox.map withoutProfiling =
      (if state.outboxCapacity ≤ (state.outbox.map withoutProfiling).length
        then (state.outbox.map withoutProfiling).tail
        else state.outbox.map withoutProfiling) ++
        [{ result.withoutProfiling with sequence := sequence }] := by
  have pushed : (state.applyCommittedSequence sequence diffs result).outbox =
      (if state.outboxCapacity ≤ state.outbox.length then state.outbox.tail else state.outbox) ++
        [{ result with sequence := sequence }] := rfl
  rw [pushed, map_append, length_map]
  split
  · rw [map_tail]
    rfl
  · rfl

theorem dispatchQueryResults_initialized (state : QueryOutputState) (staged : Option QueryResult)
    (profiling : ProfilingMetadata) : (state.dispatchQueryResults staged profiling).initialized = state.initialized := by
  cases staged <;> rfl

theorem InStep.redispatch {state : QueryOutputState} {profiling}
    (inStep : InStep (state.dispatchQueryResults staged profiling) durable) (other : ProfilingMetadata) :
    InStep (state.dispatchQueryResults staged other) durable := by
  cases staged with
  | none => exact inStep
  | some staged =>
    refine inStep.congr rfl rfl ?_ rfl
    exact (applyCommittedSequence_outbox state _ _ (staged.overlayPostCommitProfiling other)).trans
      (applyCommittedSequence_outbox state _ _ (staged.overlayPostCommitProfiling profiling)).symm

theorem Recorded.resnapshot {one two} (recorded : Recorded durable ⟨one, []⟩) (same : one.view = two.view) :
    Recorded durable ⟨two, []⟩ :=
  ⟨recorded.numbered, recorded.sequence, recorded.rows.trans same, recorded.window, recorded.positioned, recorded.unnumbered⟩

theorem mem_handover {checkpoints checkpoint}
    (member : checkpoint ∈ (handover checkpoints positions).entries) :
    checkpoint ∈ checkpoints.entries ∨ ∃ sourceId position, checkpoint = ⟨sourceId, ⟨0, some position⟩⟩ := by
  unfold handover at member
  induction positions generalizing checkpoints with
  | nil => exact .inl member
  | cons position positions ih =>
    rcases ih member with earlier | later
    · rcases mem_entries_insert earlier with here | older
      · exact .inr ⟨_, _, here⟩
      · exact .inl older
    · exact .inr later

theorem handover_ne_nil (checkpoints : AList fun _ : String => SourceCheckpoint) (any : positions ≠ []) :
    (handover checkpoints positions).entries ≠ [] := by
  unfold handover
  induction positions using reverseRecOn with
  | nil => exact absurd rfl any
  | append_singleton positions position ih =>
    rw [foldl_append]
    exact entries_insert_ne_nil _ _ _

variable {queryId : String} {session : OutputCommit}

section

variable (recorded : Recorded durable committed)
include recorded

theorem InStep.stage (inStep : InStep memory durable) {diffs sourceId now profiling after}
    (stages : durable.stageDurableQueryOutput memory diffs sourceId queryId now profiling = (staged, after)) :
    InStep (memory.dispatchQueryResults staged fun _ => none) after := by
  unfold stageDurableQueryOutput at stages
  split at stages
  · cases stages
    exact inStep
  · obtain ⟨gone, inside, window⟩ := recorded.window
    have follows : memory.asOfSequence = committed.results.length := inStep.sequence.trans recorded.sequence
    simp only [Prod.mk.injEq] at stages
    obtain ⟨rfl, rfl⟩ := stages
    generalize same : QueryResult.mk queryId _ now diffs _ profiling = result
    have next : result.sequence = committed.results.length + 1 := by rw [← same, ← follows]
    have trimmed := appendAndTrim_window recorded.numbered window (by omega) next memory.outboxCapacity
    have held := inStep.outbox
    rw [values_of_window window, rtake_drop, map_drop, ← length_map withoutProfiling] at held
    refine ⟨?_, ?_, ?_, inStep.capacity⟩
    · rw [applyMutations_rowMutations, view_applyDiffs, ← inStep.rows, ← view_applyDiffs, ← same]
      rfl
    · rw [← same]
      rfl
    · have pushed := applyCommittedSequence_outbox memory result.sequence result.results
        (result.overlayPostCommitProfiling fun _ => none)
      have named : result.sequence = memory.asOfSequence + 1 := by rw [← same]
      rw [named] at trimmed
      refine pushed.trans ?_
      rw [held, push_window _ _ (by rw [length_map]; omega) inStep.capacity, values_of_window trimmed, rtake_drop,
        map_drop, map_append, length_map, length_append, length_singleton]
      simp only [map_singleton]
      congr 1
      show _ = max _ (_ - memory.outboxCapacity)
      omega

/-- A committed session is recorded, and memory is in step once its result is applied. -/
theorem Recorded.commit {after} (inStep : InStep memory durable) (live : session.checkpoint.all (0 < ·.sequence) = true)
    (commits : durable.commit memory queryId session = (staged, after)) :
    Recorded after { committed with results := committed.results ++ staged.toList } ∧
      InStep (memory.dispatchQueryResults staged fun _ => none) after := by
  -- The checkpoint goes first; it touches neither rows nor results.
  obtain ⟨checkpointed, same, recorded, inStep⟩ : ∃ checkpointed : DurableOutput,
      durable.commit memory queryId session = checkpointed.stageDurableQueryOutput memory session.diffs session.sourceId queryId
        session.timestamp session.profiling ∧ Recorded checkpointed committed ∧ InStep memory checkpointed := by
    cases found : session.checkpoint with
    | none => exact ⟨_, by rw [DurableOutput.commit, found]; rfl, recorded, inStep⟩
    | some checkpoint =>
      refine ⟨_, by rw [DurableOutput.commit, found]; rfl, recorded.stageCheckpoint _ ?_,
        ⟨inStep.rows, inStep.sequence, inStep.outbox, inStep.capacity⟩⟩
      simpa [found] using live
  rw [same] at commits
  exact ⟨recorded.stage (inStep.sequence.trans recorded.sequence) inStep.capacity commits, inStep.stage recorded commits⟩

theorem Recorded.inStep_restart {capacity} (restarts : durable.restart capacity = .ok memory) :
    InStep memory durable := by
  rw [recorded.restart capacity] at restarts
  cases restarts
  exact ⟨view_readSnapshot _, recorded.sequence.symm, rfl, by simp [new]⟩

/-- The boundary of a bootstrap over an empty output records the rows in memory. Rows need a source with a position. -/
theorem Recorded.boundary (unnumbered : committed.results = []) (rowless : durable.liveRows.entries = [])
    (unplaced : durable.checkpoints.entries = []) (quiet : positions = [] → memory.results.view = .empty) :
    Recorded (durable.persistBootstrapBoundary memory positions) ⟨memory.results, []⟩ := by
  have rows : (durable.persistBootstrapBoundary memory positions).liveRows = memory.results.readSnapshot := by
    simp only [persistBootstrapBoundary, eq_empty_of_entries rowless]
    exact applyMutations_entries _
  have window := recorded.window
  rw [unnumbered] at window
  refine ⟨numbered_nil, rfl, ?_, window, ?_, fun _ => ?_⟩
  · rw [rows, view_readSnapshot]
    rfl
  · intro checkpoint member
    rcases mem_handover member with older | ⟨_, position, same⟩
    · rw [unplaced] at older
      cases older
    · exact .inr (by rw [same]; rfl)
  · by_cases none : positions = []
    · left
      rw [rows]
      exact entries_eq_nil_of_view ((view_readSnapshot _).trans (quiet none))
    · exact .inr ⟨rfl, handover_ne_nil _ none⟩

end

/-- The database holds what was committed, and a process that holds the output is in step with it. -/
structure Maintained (system : OutputSystem) : Prop where
  recorded : Recorded system.durable system.committed
  inStep : system.memory.initialized = true →
    InStep (system.memory.dispatchQueryResults system.undelivered fun _ => none) system.durable
  prepared : system.running = true → system.memory.initialized = true
  idle : system.memory.initialized = false → system.undelivered = none

namespace Maintained

variable {system after : OutputSystem}

theorem initial (capacity : Nat) : Maintained (.initial capacity) where
  recorded := .fresh
  inStep := nofun
  prepared := nofun
  idle := fun _ => rfl

section

variable (maintained : Maintained system)
include maintained

theorem inStep_of_ready (ready : system.ready = true) :
    system.undelivered = none ∧ InStep system.memory system.durable := by
  obtain ⟨running, nothing⟩ := Bool.and_eq_true_iff.mp ready
  have idle : system.undelivered = none := by simpa using nothing
  have inStep := maintained.inStep (maintained.prepared running)
  rw [idle] at inStep
  exact ⟨idle, inStep⟩

theorem start : Maintained system.start := by
  unfold OutputSystem.start
  split
  · next ready => exact ⟨maintained.recorded, maintained.inStep, fun _ => ready, maintained.idle⟩
  · next fresh =>
    have idle := maintained.idle (by simpa using fresh)
    split
    · next memory restarts =>
      refine ⟨maintained.recorded, fun _ => ?_, fun _ => ?_, fun _ => idle⟩
      · simp only [idle]
        exact maintained.recorded.inStep_restart restarts
      · rw [maintained.recorded.restart] at restarts
        cases restarts
        rfl
    · exact maintained

theorem commit (ready : system.ready = true) (live : session.checkpoint.all (0 < ·.sequence) = true) (queryId : String) :
    Maintained (system.commit queryId session) := by
  have inStep := (maintained.inStep_of_ready ready).2
  have running : system.running = true := (Bool.and_eq_true_iff.mp ready).1
  obtain ⟨⟨staged, durable⟩, commits⟩ : ∃ pair, system.durable.commit system.memory queryId session = pair := ⟨_, rfl⟩
  obtain ⟨recorded, inStep⟩ := maintained.recorded.commit inStep live commits
  simp only [OutputSystem.commit, commits]
  exact ⟨recorded, fun _ => inStep, maintained.prepared,
    fun fresh => absurd (maintained.prepared running) (by simpa using fresh)⟩

theorem dispatch (profiling : ProfilingMetadata) : Maintained (system.dispatch profiling) := by
  have same := dispatchQueryResults_initialized system.memory system.undelivered profiling
  exact ⟨maintained.recorded, fun ready => (maintained.inStep (same ▸ ready)).redispatch profiling,
    fun running => same.trans (maintained.prepared running), fun _ => rfl⟩

theorem bootstrap (ready : system.ready = true) (untouched : system.untouched = true) {sources}
    (bounded : sources.all (·.hasBoundary) = true) : Maintained (system.bootstrap sources) := by
  obtain ⟨nothing, inStep⟩ := maintained.inStep_of_ready ready
  obtain ⟨unset, empty⟩ := Bool.and_eq_true_iff.mp untouched
  have unset : system.durable.resultSequence = none := by simpa using unset
  have empty : system.durable.checkpoints.entries = [] := by simpa using empty
  have recorded := maintained.recorded
  have unnumbered : system.committed.results = [] := by
    have counted := recorded.sequence
    rw [unset] at counted
    exact length_eq_zero_iff.mp counted.symm
  have rowless : system.durable.liveRows.entries = [] := by
    refine (recorded.unnumbered unnumbered).resolve_right ?_
    rw [unset]
    nofun
  have unseen : system.memory.results.view = .empty := by rw [inStep.rows, eq_empty_of_entries rowless]; rfl
  -- Sources without a position delivered nothing.
  have quiet : sources.filterMap (·.position) = [] →
      (system.memory.applyDiffs (sources.flatMap (·.events.flatten))).results.view = .empty := by
    intro unpositioned
    have silent : sources.flatMap (·.events.flatten) = [] := by
      rw [flatMap_eq_nil_iff]
      intro source member
      have boundary := all_eq_true.mp bounded source member
      have positionless : source.sourcePosition = none := by
        simpa [BootstrapSource.position] using filterMap_eq_nil_iff.mp unpositioned source member
      rw [BootstrapSource.hasBoundary, positionless] at boundary
      rw [isEmpty_iff.mp boundary, flatten_nil]
    rw [silent]
    exact unseen
  have boundary := recorded.boundary unnumbered rowless empty quiet
  refine ⟨?_, fun _ => ?_, maintained.prepared, fun _ => nothing⟩
  · simp only [OutputSystem.bootstrap, unnumbered]
    exact boundary
  · simp only [OutputSystem.bootstrap, nothing]
    refine ⟨boundary.rows.symm, inStep.sequence.trans (by rw [unset]; rfl), inStep.outbox, inStep.capacity⟩

theorem crash (capacity : Nat) : Maintained (system.crash capacity) :=
  ⟨maintained.recorded, nofun, nofun, fun _ => rfl⟩

theorem stop (delivered : system.undelivered = none) : Maintained system.stop := by
  refine ⟨maintained.recorded, fun ready => ?_, nofun, fun _ => rfl⟩
  have inStep := maintained.inStep ready
  rw [delivered] at inStep
  exact inStep

theorem step {event} (steps : system.step queryId event = some after) : Maintained after := by
  cases event with
  | start =>
    obtain ⟨_, ⟨⟩⟩ := Option.ite_none_left_eq_some.mp steps
    exact maintained.start
  | bootstrap sources =>
    obtain ⟨guard, ⟨⟩⟩ := Option.ite_none_right_eq_some.mp steps
    obtain ⟨both, bounded⟩ := Bool.and_eq_true_iff.mp guard
    obtain ⟨ready, untouched⟩ := Bool.and_eq_true_iff.mp both
    exact maintained.bootstrap ready untouched bounded
  | commit session =>
    obtain ⟨guard, ⟨⟩⟩ := Option.ite_none_right_eq_some.mp steps
    obtain ⟨ready, live⟩ := Bool.and_eq_true_iff.mp guard
    exact maintained.commit ready live queryId
  | dispatch profiling =>
    obtain ⟨_, ⟨⟩⟩ := Option.ite_none_right_eq_some.mp steps
    exact maintained.dispatch profiling
  | crash capacity =>
    cases steps
    exact maintained.crash capacity

theorem run {events} (ran : system.run queryId events = some after) : Maintained after := by
  induction events generalizing system with
  | nil =>
    cases ran
    exact maintained
  | cons event events ih =>
    obtain ⟨middle, first, rest⟩ := Option.bind_eq_some_iff.mp ran
    exact ih (maintained.step first) rest

end

end Maintained

theorem dispatched_eq (snapshot : LiveRows) {results} (numbered : Numbered QueryResult.sequence results)
    (capacity : Nat) :
    let dispatched := dispatched ⟨snapshot, results⟩ capacity
    dispatched.results = rows ⟨snapshot, results⟩ ∧ dispatched.asOfSequence = results.length ∧
      dispatched.outboxCapacity = (new capacity).outboxCapacity ∧
      dispatched.outbox = results.rtake (new capacity).outboxCapacity := by
  have positive : 0 < (new capacity).outboxCapacity := by simp [new]
  induction results using reverseRecOn with
  | nil => exact ⟨rfl, rfl, rfl, by simp [dispatched, new]⟩
  | append_singleton results result ih =>
    obtain ⟨front, next⟩ := numbered.of_append
    obtain ⟨rows, _, capacity_eq, outbox⟩ := ih front
    have folded : dispatched ⟨snapshot, results ++ [result]⟩ capacity =
        (dispatched ⟨snapshot, results⟩ capacity).applyCommittedSequence result.sequence result.results
          result := foldl_concat ..
    have window := push_window results result (Nat.zero_le _) positive
    simp only [Nat.zero_max, ← rtake_eq_drop] at window
    rw [folded]
    refine ⟨?_, ?_, capacity_eq, ?_⟩
    · rw [rows_append, ← rows]
      rfl
    · rw [length_append, length_singleton, ← next]
      rfl
    · rw [rtake_eq_drop, length_append, length_singleton, ← window, ← outbox, ← capacity_eq]
      rfl

/-- A restarted process has the output that dispatching all that was committed gives. -/
structure RestoresPrefix (system : OutputSystem) (capacity : Nat) (restarted : QueryOutputState) : Prop where
  rows : restarted.results.view = (system.committed.dispatched capacity).results.view
  sequence : restarted.asOfSequence = (system.committed.dispatched capacity).asOfSequence
  size : restarted.outbox.length = min restarted.outboxCapacity system.durable.outbox.entries.length
  outbox : restarted.outbox = (system.committed.dispatched capacity).outbox.rtake restarted.outbox.length
  consecutive : restarted.outbox.map (·.sequence) =
    range' (restarted.asOfSequence + 1 - restarted.outbox.length) restarted.outbox.length
  /-- So has the process that crashed, once it has dispatched what it committed. -/
  process : system.running = true → ∀ profiling, InStep (system.dispatch profiling).memory system.durable ∧
    restarted.results.view = (system.dispatch profiling).memory.results.view ∧
    restarted.asOfSequence = (system.dispatch profiling).memory.asOfSequence ∧
    (restarted.outboxCapacity = (system.dispatch profiling).memory.outboxCapacity →
      restarted.outbox.map withoutProfiling =
        (system.dispatch profiling).memory.outbox.map withoutProfiling)

theorem Maintained.restores {system : OutputSystem} (maintained : Maintained system) (capacity : Nat) :
    ∃ restarted, system.durable.restart capacity = .ok restarted ∧ RestoresPrefix system capacity restarted := by
  have recorded := maintained.recorded
  obtain ⟨restarted, restarts, rows, outbox, sequence, size⟩ : ∃ restarted, system.durable.restart capacity = .ok restarted ∧
      restarted.results = system.durable.liveRows.readSnapshot ∧
      restarted.outbox = system.durable.outbox.values.rtake restarted.outboxCapacity ∧
      restarted.asOfSequence = system.committed.results.length ∧
      restarted.outboxCapacity = (new capacity).outboxCapacity :=
    ⟨_, recorded.restart capacity, rfl, rfl, rfl, rfl⟩
  obtain ⟨gone, inside, window⟩ := recorded.window
  obtain ⟨allRows, allResults, _, lastResults⟩ := dispatched_eq system.committed.snapshot recorded.numbered capacity
  have seen : restarted.results.view = system.durable.liveRows.view := by rw [rows, view_readSnapshot]
  have retained : system.durable.outbox.entries.length = system.committed.results.length - gone := by
    rw [window, stored, length_map, length_drop]
  have tail : restarted.outbox =
      system.committed.results.drop (max gone (system.committed.results.length - restarted.outboxCapacity)) := by
    rw [outbox, values_of_window window, rtake_drop]
  have length : restarted.outbox.length = min restarted.outboxCapacity system.durable.outbox.entries.length := by
    rw [tail, length_drop, retained]
    omega
  refine ⟨restarted, restarts, ?_, ?_, length, ?_, ?_, ?_⟩
  · exact seen.trans (recorded.rows.trans (congrArg view allRows.symm))
  · exact sequence.trans allResults.symm
  · rw [lastResults, rtake_eq_drop system.committed.results, rtake_drop, length, retained, ← size, tail]
    congr 1
    omega
  · rw [sequence, length, retained, tail, recorded.numbered.drop]
    congr 1 <;> omega
  · intro running profiling
    have inStep := (maintained.inStep (maintained.prepared running)).redispatch profiling
    refine ⟨inStep, seen.trans inStep.rows.symm, ?_, fun same => ?_⟩
    · exact sequence.trans (recorded.sequence.symm.trans inStep.sequence.symm)
    · exact (congrArg _ (outbox.trans (by rw [same]; rfl))).trans inStep.outbox.symm

/-- Whenever the process dies, what the next one loads is the output after dispatching exactly what was committed. -/
theorem durable_output_survives {queryId : String} {capacity : Nat} {events : List OutputEvent} {system : OutputSystem}
    (ran : (OutputSystem.initial capacity).run queryId events = some system) (newCapacity : Nat) :
    ∃ restarted, system.durable.restart newCapacity = .ok restarted ∧ RestoresPrefix system newCapacity restarted :=
  ((Maintained.initial capacity).run ran).restores newCapacity

def sampleSession (number : Nat) : OutputCommit :=
  ⟨"source", some ⟨number, none⟩, [.add .empty (.solution [(number, none)])], number, fun _ => none⟩

theorem durable_output_survives_sample : ∃ system restarted,
    (OutputSystem.initial 1).run "query" [.start, .commit (sampleSession 1), .dispatch (fun _ => none),
      .commit (sampleSession 2)] = some system ∧
    system.durable.restart 5 = .ok restarted ∧ RestoresPrefix system 5 restarted := by
  obtain ⟨system, ran⟩ : ∃ system, (OutputSystem.initial 1).run "query" [.start, .commit (sampleSession 1),
      .dispatch (fun _ => none), .commit (sampleSession 2)] = some system := Option.isSome_iff_exists.mp (by decide)
  obtain ⟨restarted, restarts, restores⟩ := durable_output_survives ran 5
  exact ⟨system, restarted, ran, restarts, restores⟩

section Lifecycle

open OutputSystem

/-- No stop of the run cancels the processor between a commit and the dispatch of its result. -/
def StopsDelivered (queryId : String) (system : OutputSystem) (events : List LifecycleEvent) : Prop :=
  ∀ before rest, events = before ++ .stop :: rest →
    ∀ stopped, system.lifecycle queryId before = some stopped → stopped.undelivered = none

theorem Maintained.lifecycle {events system after} (maintained : Maintained system)
    (delivered : StopsDelivered queryId system events) (ran : system.lifecycle queryId events = some after) :
    Maintained after := by
  induction events generalizing system with
  | nil =>
    cases ran
    exact maintained
  | cons event events ih =>
    obtain ⟨middle, first, rest⟩ := Option.bind_eq_some_iff.mp ran
    have later : StopsDelivered queryId middle events := by
      intro before behind split stopped reached
      refine delivered (event :: before) behind (congrArg (event :: ·) split) stopped ?_
      exact Option.bind_eq_some_iff.mpr ⟨middle, first, reached⟩
    refine ih ?_ later rest
    cases event with
    | output event => exact maintained.step first
    | stop =>
      cases first
      exact maintained.stop (delivered [] events rfl system rfl)

/-- As long as no stop comes between a commit and its dispatch, a query that runs and takes the next event is in step with
its database, and no number is given to two results. -/
theorem memory_in_step {queryId : String} {capacity : Nat} {events : List LifecycleEvent} {system : OutputSystem}
    (ran : (OutputSystem.initial capacity).lifecycle queryId events = some system)
    (delivered : StopsDelivered queryId (.initial capacity) events) :
    (system.ready = true → InStep system.memory system.durable) ∧ (system.committed.results.map (·.sequence)).Nodup := by
  have maintained := (Maintained.initial capacity).lifecycle delivered ran
  exact ⟨fun ready => (maintained.inStep_of_ready ready).2, maintained.recorded.numbered.distinct⟩

def restartEvents : List LifecycleEvent :=
  [.output .start, .output (.commit (sampleSession 1)), .output (.dispatch fun _ => none), .stop, .output .start,
    .output (.commit (sampleSession 2)), .output (.dispatch fun _ => none)]

theorem memory_in_step_sample : ∃ system, (OutputSystem.initial 1).lifecycle "query" restartEvents = some system ∧
    system.ready = true ∧ InStep system.memory system.durable ∧ (system.committed.results.map (·.sequence)).Nodup := by
  have delivered : StopsDelivered "query" (.initial 1) restartEvents := by
    intro before rest parts stopped reached
    rcases before with _ | ⟨_, _ | ⟨_, _ | ⟨_, _ | ⟨_, _ | ⟨_, _ | ⟨_, _ | ⟨_, before⟩⟩⟩⟩⟩⟩⟩ <;>
      simp [restartEvents] at parts
    obtain ⟨rfl, rfl, rfl, rfl⟩ := parts
    cases reached
    rfl
  obtain ⟨inStep, distinct⟩ := memory_in_step rfl delivered
  exact ⟨_, rfl, rfl, inStep rfl, distinct⟩

/-- A stop between a commit and its dispatch: the next commit of the process takes the same number, and the row of the
first one never reaches memory. -/
theorem stop_loses_committed_result : ∃ system,
    (OutputSystem.initial 1).lifecycle "query" [.output .start, .output (.commit (sampleSession 1)), .stop, .output .start,
      .output (.commit (sampleSession 2)), .output (.dispatch fun _ => none)] = some system ∧ system.ready = true ∧
    ¬ InStep system.memory system.durable ∧ ¬ (system.committed.results.map (·.sequence)).Nodup := by
  refine ⟨_, rfl, rfl, fun inStep => ?_, by decide⟩
  have seen := congrFun inStep.rows (.solution [(1, none)])
  revert seen
  decide

end Lifecycle

end DrasiCore.Proofs
