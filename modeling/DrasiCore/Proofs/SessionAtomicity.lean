import DrasiCore.QueryDatabase

/-! A change is atomic. What processing and its hook call writes to nothing but the transaction while a session is open, so
an error leaves the six stores as they were, and a commit publishes the writes of the indexes and of the hook together. -/

namespace DrasiCore

open Library StoreProgram

variable {Contents : StoreFamily → Type}

namespace Stores

variable (stores : Stores Contents)

theorem apply_eq_self {write : StoreWrite Contents} (same : write.update (stores write.family) = stores write.family) :
    stores.apply write = stores := by
  rw [apply, same, Function.update_eq_self]

theorem applyAll_other {family written : StoreFamily} (other : family ≠ written)
    (updates : List (Contents written → Contents written)) :
    stores.applyAll (updates.map (⟨written, ·⟩)) family = stores family := by
  induction updates generalizing stores with
  | nil => rfl
  | cons update updates later => exact (later _).trans (Function.update_of_ne other _ _)

theorem applyAll_append (first second : List (StoreWrite Contents)) :
    stores.applyAll (first ++ second) = (stores.applyAll first).applyAll second := List.foldl_append

end Stores

variable {committed : Stores Contents} {Answer ε α : Type} {fromIndex : IndexError → ε} {depth : Nat}

namespace SessionState

variable {state after : SessionState Contents}
variable {family : StoreFamily} {outcome : CommitOutcome}

def Sound (state : SessionState Contents) : Prop := state.txn = none ↔ state.depth = 0

theorem view_of_closed (closed : state.txn = none) : state.view = state.committed := by
  simp [view, closed, Stores.applyAll]

theorem Sound.begin (sound : state.Sound) : state.begin.2.Sound := by
  unfold SessionState.begin
  split
  · exact sound
  split
  case isTrue nested => simpa [Sound] using mt sound.mp (by omega)
  · simp [Sound]

theorem Sound.commit (sound : state.Sound) (outcome : CommitOutcome) : (state.commit outcome).2.Sound := by
  unfold SessionState.commit
  split
  · exact sound
  split
  · exact sound
  split
  · exact sound
  · split
    · exact sound
    · split <;> simp [Sound]
  case h_3 depth single nested =>
    have isOpen : state.txn ≠ none := mt sound.mp (by omega)
    have deeper : depth ≠ 0 := fun zero => single (by omega)
    simp [Sound, isOpen, deeper]

theorem Sound.rollback (sound : state.Sound) : state.rollback.2.Sound := by
  unfold SessionState.rollback
  split
  · exact sound
  split
  · exact sound
  · simp [Sound]

theorem Sound.withTxn (sound : state.Sound) (call : StoreCall Contents Answer ε family) :
    (state.withTxn fromIndex family call).2.Sound := by
  unfold SessionState.withTxn
  split
  · exact sound
  split
  case h_1 staged isOpen => simpa [Sound, isOpen] using sound
  · split <;> exact sound

/-- A session is open over these committed contents, so many levels deep. -/
structure Open (committed : Stores Contents) (depth : Nat) (state : SessionState Contents) : Prop where
  txn : state.txn ≠ none
  committed : state.committed = committed
  depth : state.depth = depth

theorem Open.withTxn (isOpen : state.Open committed depth) (call : StoreCall Contents Answer ε family) :
    (state.withTxn fromIndex family call).2.Open committed depth := by
  unfold SessionState.withTxn
  split
  · exact isOpen
  split
  · exact ⟨by simp, isOpen.committed, isOpen.depth⟩
  case h_2 closed => exact absurd closed isOpen.txn

theorem withTxn_poisoned (poisoned : state.poisoned = true) (call : StoreCall Contents Answer ε family) :
    state.withTxn fromIndex family call = (.error (fromIndex .poison), state) := if_pos poisoned

theorem Open.withTxn_eq (fromIndex : IndexError → ε) (isOpen : state.Open committed depth)
    (healthy : state.poisoned = false) (call : StoreCall Contents Answer ε family) :
    (state.withTxn fromIndex family call).1 = (answered fromIndex (call committed state.view)).1 ∧
      (state.withTxn fromIndex family call).2.view =
        state.view.applyAll (answered fromIndex (call committed state.view)).2 ∧
      (state.withTxn fromIndex family call).2.poisoned = panicked (call committed state.view) := by
  obtain ⟨staged, txn⟩ := Option.ne_none_iff_exists'.mp isOpen.txn
  simp [SessionState.withTxn, healthy, txn, isOpen.committed, view, Stores.applyAll_append]

/-- A session that begins well sees what was seen before, and nothing is poisoned. -/
theorem Sound.open_begin (sound : state.Sound) (begun : state.begin = (.ok (), after)) :
    after.Open state.committed (state.depth + 1) ∧ after.view = state.view ∧ after.poisoned = false := by
  unfold SessionState.begin at begun
  split at begun
  · cases begun
  case isFalse healthy =>
    split at begun
    case isTrue nested =>
      cases begun
      exact ⟨⟨mt sound.mp (by omega), rfl, rfl⟩, rfl, by simpa using healthy⟩
    case isFalse outermost =>
      cases begun
      have depth : state.depth = 0 := by omega
      exact ⟨⟨by simp, rfl, by simp [depth]⟩, (view_of_closed (sound.mpr depth)).symm, by simpa using healthy⟩

theorem rollback_committed (state : SessionState Contents) : state.rollback.2.committed = state.committed := by
  unfold SessionState.rollback
  split
  · rfl
  · split <;> rfl

theorem commit_error {error} (failed : state.commit outcome = (.error error, after)) :
    after.committed = state.committed := by
  unfold SessionState.commit at failed
  repeat' split at failed
  all_goals cases failed
  all_goals rfl

theorem Open.commit_outermost (isOpen : state.Open committed 1) (commits : state.commit outcome = (.ok (), after)) :
    state.poisoned = false ∧ after.committed = state.view ∧ after.txn = none ∧ after.depth = 0 := by
  obtain ⟨staged, txn⟩ := Option.ne_none_iff_exists'.mp isOpen.txn
  simp only [SessionState.commit, isOpen.depth, txn] at commits
  split at commits
  · cases commits
  split at commits
  · cases commits
  case isFalse healthy =>
    split at commits
    · cases commits
    · cases commits
      exact ⟨by simpa using healthy, by simp [view, txn], rfl, rfl⟩

theorem Open.commit_nested (isOpen : state.Open committed (depth + 2))
    (commits : state.commit outcome = (.ok (), after)) :
    state.poisoned = false ∧ after.Open committed (depth + 1) ∧ after.view = state.view := by
  simp only [SessionState.commit, isOpen.depth] at commits
  split at commits
  · cases commits
  split at commits
  · cases commits
  case isFalse healthy =>
    cases commits
    exact ⟨by simpa using healthy, ⟨isOpen.txn, isOpen.committed, rfl⟩, rfl⟩

end SessionState

namespace StoreOperation

variable {operation : StoreOperation} {state : SessionState DatabaseStores}

theorem sound_perform (fault : CallFault (DatabaseStores operation.family)) (sound : state.Sound) :
    (operation.perform fault state).2.Sound := by
  unfold perform
  split
  · exact sound
  · exact sound.withTxn _

theorem perform_eq (session : operation.direct = false) (fault : CallFault (DatabaseStores operation.family))
    (state : SessionState DatabaseStores) :
    operation.perform fault state = state.withTxn id operation.family (operation.faultyCall fault) :=
  if_neg (by simp [session])

theorem open_perform {committed : Stores DatabaseStores} (session : operation.direct = false)
    (fault : CallFault (DatabaseStores operation.family)) (isOpen : state.Open committed depth) :
    (operation.perform fault state).2.Open committed depth := by
  rw [perform_eq session]
  exact isOpen.withTxn _

theorem direct_of_indexes (indexing : operation.indexes = true) : operation.direct = false := by
  simp only [indexes, Bool.and_eq_true, Bool.not_eq_true'] at indexing
  exact indexing.1

theorem family_of_indexes (indexing : operation.indexes = true) :
    operation.family ∈ [StoreFamily.elementIndex, .resultIndex, .futureQueue] := by
  simp only [indexes, Bool.and_eq_true] at indexing
  simpa using indexing.2

end StoreOperation

namespace StoreProgram

variable {β : Type} {allowed : StoreOperation → Prop} {program : StoreProgram ε α}

/-- Every operation the program may come to is allowed. -/
def Each (allowed : StoreOperation → Prop) : StoreProgram ε α → Prop
  | .done _ => True
  | .call operation _ next => allowed operation ∧ ∀ answer, (next answer).Each allowed

/-- Nothing in the program writes past the session. -/
abbrev Transactional : StoreProgram ε α → Prop := Each fun operation => operation.direct = false

abbrev Indexing : StoreProgram ε α → Prop := Each fun operation => operation.indexes = true

theorem Each.mono {wider : StoreOperation → Prop} (each : program.Each allowed)
    (widens : ∀ operation, allowed operation → wider operation) : program.Each wider := by
  induction program with
  | done result => trivial
  | call operation fault next later => exact ⟨widens _ each.1, fun answer => later answer (each.2 answer)⟩

theorem Each.bind {rest : α → StoreProgram ε β} (each : program.Each allowed)
    (later : ∀ value, (rest value).Each allowed) : (program >>= rest).Each allowed := by
  induction program with
  | done result =>
    cases result with
    | error error => trivial
    | ok value => exact later value
  | call operation fault next continues => exact ⟨each.1, fun answer => continues answer (each.2 answer)⟩

theorem Each.mapError {δ : Type} (convert : ε → δ) (each : program.Each allowed) :
    (program.mapError convert).Each allowed := by
  induction program with
  | done result => trivial
  | call operation fault next later => exact ⟨each.1, fun answer => later answer (each.2 answer)⟩

theorem transactional_perform {operation : StoreOperation} (session : operation.direct = false)
    (fault : CallFault (DatabaseStores operation.family)) : (perform operation fault).Transactional :=
  ⟨session, fun _ => trivial⟩

theorem Indexing.transactional (indexing : program.Indexing) : program.Transactional :=
  Each.mono indexing fun _ => StoreOperation.direct_of_indexes

/-- What a program means without sessions: every operation on one working copy of the contents. A panic has no meaning. -/
def effect (committed : Stores DatabaseStores) : StoreProgram ε α → Stores DatabaseStores →
    Option (Except ε α × Stores DatabaseStores)
  | .done result, working => some (result, working)
  | .call operation fault next, working =>
    match operation.faultyCall fault committed working with
    | .panics _ => none
    | .returns answer updates => (next answer).effect committed (working.applyAll (updates.map (⟨operation.family, ·⟩)))

section

variable {committed working after : Stores DatabaseStores}

theorem effect_bind_ok {rest : α → StoreProgram ε β} {value}
    (ends : (program >>= rest).effect committed working = some (.ok value, after)) :
    ∃ middle between, program.effect committed working = some (.ok middle, between) ∧
      (rest middle).effect committed between = some (.ok value, after) := by
  induction program generalizing working with
  | done result =>
    cases result with
    | error error => simp [Bind.bind, StoreProgram.bind, effect] at ends
    | ok middle => exact ⟨middle, working, rfl, ends⟩
  | call operation fault next later =>
    change (StoreProgram.call operation fault fun answer => next answer >>= rest).effect committed working = _ at ends
    rw [effect] at ends ⊢
    split at ends
    · cases ends
    case h_2 answer updates answers => exact later answer ends

theorem effect_done_ok {result : Except ε α} {value} (ends : (done result).effect committed working = some (.ok value, after)) :
    after = working := by
  cases ends
  rfl

theorem effect_mapError_ok {δ : Type} {convert : ε → δ} {value}
    (ends : (program.mapError convert).effect committed working = some (.ok value, after)) :
    program.effect committed working = some (.ok value, after) := by
  induction program generalizing working with
  | done result =>
    cases result with
    | error error => simp [mapError, effect, Except.mapError] at ends
    | ok middle => simpa [mapError, effect, Except.mapError] using ends
  | call operation fault next later =>
    simp only [mapError, effect] at ends ⊢
    split at ends
    · cases ends
    case h_2 answer updates answers => exact later answer ends

theorem effect_perform_ok {operation : StoreOperation} {fault : CallFault (DatabaseStores operation.family)} {answer}
    (ends : (StoreProgram.perform operation fault).effect committed working = some (.ok answer, after)) :
    ∃ updates, operation.call committed working = .returns (.ok answer) updates ∧
      after = working.applyAll (updates.map (⟨operation.family, ·⟩)) := by
  simp only [StoreProgram.perform, effect] at ends
  split at ends
  · cases ends
  case h_2 answered updates answers =>
    simp only [Option.some.injEq, Prod.mk.injEq] at ends
    obtain ⟨rfl, rfl⟩ := ends
    cases fault with
    | none => exact ⟨updates, answers, rfl⟩
    | fails error partway => simp [StoreOperation.faultyCall, CallFault.outcome] at answers
    | panics partway => simp [StoreOperation.faultyCall, CallFault.outcome] at answers

/-- The indexes' operations leave every other store alone. -/
theorem Indexing.effect_other (indexing : program.Indexing) {result}
    (ends : program.effect committed working = some (result, after))
    {family : StoreFamily} (other : family ∉ [StoreFamily.elementIndex, .resultIndex, .futureQueue]) :
    after family = working family := by
  induction program generalizing working with
  | done returned =>
    cases ends
    rfl
  | call operation fault next later =>
    rw [effect] at ends
    split at ends
    · cases ends
    case h_2 answer updates answers =>
      rw [later answer (indexing.2 answer) ends]
      have apart : family ≠ operation.family := fun same =>
        other (same ▸ StoreOperation.family_of_indexes indexing.1)
      exact Stores.applyAll_other _ apart updates

end

variable {state : SessionState DatabaseStores} {committed : Stores DatabaseStores}

theorem run_call (operation : StoreOperation) (fault : CallFault (DatabaseStores operation.family))
    (next : Except IndexError operation.Answer → StoreProgram ε α) (state : SessionState DatabaseStores) :
    (call operation fault next).run state =
      (next (operation.perform fault state).1).run (operation.perform fault state).2 := rfl

theorem Transactional.open_run (transactional : program.Transactional) (isOpen : state.Open committed depth) :
    (program.run state).2.Open committed depth := by
  induction program generalizing state with
  | done result => exact isOpen
  | call operation fault next later =>
    exact later _ (transactional.2 _) (operation.open_perform transactional.1 fault isOpen)

theorem Transactional.open_visited (transactional : program.Transactional) (isOpen : state.Open committed depth) :
    ∀ passed ∈ program.visited state, passed.Open committed depth := by
  induction program generalizing state with
  | done result => simpa [visited] using isOpen
  | call operation fault next later =>
    intro passed passes
    rcases List.mem_cons.mp passes with rfl | passes
    · exact isOpen
    · exact later _ (transactional.2 _) (operation.open_perform transactional.1 fault isOpen) passed passes

theorem Transactional.poisoned_run (transactional : program.Transactional) (poisoned : state.poisoned = true) :
    (program.run state).2.poisoned = true := by
  induction program generalizing state with
  | done result => exact poisoned
  | call operation fault next later =>
    have refuses : (operation.perform fault state).2 = state := by
      rw [operation.perform_eq transactional.1, SessionState.withTxn_poisoned poisoned]
    rw [run_call, refuses]
    exact later _ (transactional.2 _) poisoned

/-- In an open session that stays healthy, running is computing on one working copy. -/
theorem Transactional.run_effect (transactional : program.Transactional) (isOpen : state.Open committed depth)
    (healthy : (program.run state).2.poisoned = false) :
    program.effect committed state.view = some ((program.run state).1, (program.run state).2.view) := by
  induction program generalizing state with
  | done result => rfl
  | call operation fault next later =>
    have before : state.poisoned = false := by
      by_contra poisoned
      exact absurd healthy (by simp [Transactional.poisoned_run transactional (by simpa using poisoned)])
    obtain ⟨answers, views, poisons⟩ := isOpen.withTxn_eq id before (operation.faultyCall fault)
    have stays := operation.open_perform transactional.1 fault isOpen
    rw [← operation.perform_eq transactional.1] at answers views poisons
    rw [run_call] at healthy ⊢
    rw [effect]
    split
    case h_1 updates panics =>
      rw [panics] at poisons
      exact absurd healthy (by simp [Transactional.poisoned_run (transactional.2 _) poisons])
    case h_2 answer updates returns =>
      simp only [returns, SessionState.answered] at answers views
      rw [← answers, ← views]
      exact later _ (transactional.2 _) stays healthy

end StoreProgram

namespace OutputStage

variable {stage : OutputStage} {faults : HookFaults} {diffs : List ResultDiff} {sourceId : String}
variable {committed working after : Stores DatabaseStores}

/-- The stores after a hook: the position of the source, if there is one, and for a change of the result the entry of the
outbox, the rows and the sequence. -/
def published (stage : OutputStage) (sourceId : String) (checkpoint : Option SourceCheckpoint) (diffs : List ResultDiff)
    (stores : Stores DatabaseStores) : Stores DatabaseStores
  | .elementIndex => stores .elementIndex
  | .resultIndex => stores .resultIndex
  | .futureQueue => stores .futureQueue
  | .checkpoint =>
    let store : RocksDbCheckpointStore := stores .checkpoint
    { store with
      checkpoints := checkpoint.elim store.checkpoints fun checkpoint => store.checkpoints.insert sourceId
        { checkpoint with sourcePosition := checkpoint.sourcePosition.filter (·.length ≤ maxSourcePositionBytes) }
      resultSequences :=
        if diffs.isEmpty then store.resultSequences else store.resultSequences.insert stage.queryId stage.nextSeq }
  | .outbox =>
    let outbox : String → OrderedMap Nat QueryResult := stores .outbox
    if diffs.isEmpty then outbox
    else Function.update outbox stage.queryId (DurableOutput.appendAndTrim (outbox stage.queryId) stage.nextSeq
      (stage.queryResult diffs sourceId) stage.retainFrom)
  | .liveResults =>
    let rows : String → LiveRows := stores .liveResults
    if diffs.isEmpty then rows
    else Function.update rows stage.queryId ((rows stage.queryId).applyMutations (LiveRows.rowMutations diffs))

theorem published_empty (empty : diffs.isEmpty = true) : stage.published sourceId none diffs working = working := by
  funext family
  cases family with
  | elementIndex | resultIndex | futureQueue => rfl
  | checkpoint => simp only [published, empty, if_true, Option.elim]; rfl
  | outbox | liveResults => simp [published, empty]

theorem published_changes (changes : ¬diffs.isEmpty = true) :
    stage.published sourceId none diffs working =
      (((working.apply ⟨.outbox, fun outbox : String → OrderedMap Nat QueryResult => Function.update outbox stage.queryId
          ((outbox stage.queryId).insert stage.nextSeq (stage.queryResult diffs sourceId))⟩).apply
        ⟨.outbox, fun outbox : String → OrderedMap Nat QueryResult => Function.update outbox stage.queryId
          (trimOutbox (outbox stage.queryId) stage.retainFrom)⟩).apply
        ⟨.liveResults, fun rows : String → LiveRows => Function.update rows stage.queryId
          ((rows stage.queryId).applyMutations (LiveRows.rowMutations diffs))⟩).apply
        ⟨.checkpoint, fun store : RocksDbCheckpointStore =>
          { store with resultSequences := store.resultSequences.insert stage.queryId stage.nextSeq }⟩ := by
  funext family
  cases family with
  | elementIndex | resultIndex | futureQueue => rfl
  | checkpoint | liveResults =>
    simp only [published, changes]
    rfl
  | outbox =>
    let outbox : String → OrderedMap Nat QueryResult := working .outbox
    have trimmed entries : Function.update outbox stage.queryId (trimOutbox entries stage.retainFrom) =
        Function.update (Function.update outbox stage.queryId entries) stage.queryId
          (trimOutbox (Function.update outbox stage.queryId entries stage.queryId) stage.retainFrom) := by
      rw [Function.update_self, Function.update_idem]
    simp only [published, changes]
    exact trimmed _

theorem transactional_stage : (stage.stageDurableQueryOutput faults diffs sourceId).Transactional := by
  unfold stageDurableQueryOutput
  split
  · trivial
  refine .bind trivial fun _ => .bind (transactional_perform rfl _) fun _ => .bind (transactional_perform rfl _) fun _ =>
    .bind trivial fun _ => ?_
  split
  · exact .bind (transactional_perform rfl _) fun _ => .bind (transactional_perform rfl _) fun _ => trivial
  · exact .bind (transactional_perform rfl _) fun _ => trivial

theorem transactional_futureHook : (stage.futureHook faults diffs sourceId).Transactional :=
  .bind transactional_stage fun _ => trivial

theorem transactional_changeHook {checkpoint : SourceCheckpoint} :
    (stage.changeHook faults sourceId checkpoint diffs).Transactional :=
  .bind (transactional_perform rfl _) fun _ => transactional_futureHook

theorem stage_effect {result}
    (ends : (stage.stageDurableQueryOutput faults diffs sourceId).effect committed working = some (.ok result, after)) :
    after = stage.published sourceId none diffs working := by
  unfold stageDurableQueryOutput at ends
  split at ends
  case isTrue empty =>
    cases ends
    exact (published_empty empty).symm
  case isFalse changes =>
    obtain ⟨_, _, serialised, ends⟩ := effect_bind_ok ends
    cases effect_done_ok serialised
    obtain ⟨_, _, appends, ends⟩ := effect_bind_ok ends
    obtain ⟨_, calls, rfl⟩ := effect_perform_ok appends
    cases calls
    obtain ⟨_, _, trims, ends⟩ := effect_bind_ok ends
    obtain ⟨_, calls, rfl⟩ := effect_perform_ok trims
    cases calls
    obtain ⟨_, _, serialised, ends⟩ := effect_bind_ok ends
    cases effect_done_ok serialised
    split at ends
    · obtain ⟨_, _, mutates, ends⟩ := effect_bind_ok ends
      obtain ⟨_, calls, rfl⟩ := effect_perform_ok mutates
      cases calls
      obtain ⟨_, _, stages, ends⟩ := effect_bind_ok ends
      obtain ⟨_, calls, rfl⟩ := effect_perform_ok stages
      cases calls
      cases effect_done_ok ends
      exact (published_changes changes).symm
    case isFalse unmoved =>
      obtain ⟨_, _, stages, ends⟩ := effect_bind_ok ends
      obtain ⟨_, calls, rfl⟩ := effect_perform_ok stages
      cases calls
      cases effect_done_ok ends
      have none : LiveRows.rowMutations diffs = [] := by simpa using unmoved
      rw [published_changes changes, none]
      exact congrArg (Stores.apply · _) (Stores.apply_eq_self _ (Function.update_eq_self _ _)).symm

theorem futureHook_effect {result}
    (ends : (stage.futureHook faults diffs sourceId).effect committed working = some (.ok result, after)) :
    after = stage.published sourceId none diffs working := by
  obtain ⟨_, _, stages, ends⟩ := effect_bind_ok ends
  cases effect_done_ok ends
  exact stage_effect stages

theorem changeHook_effect {checkpoint : SourceCheckpoint} {result}
    (ends : (stage.changeHook faults sourceId checkpoint diffs).effect committed working = some (.ok result, after)) :
    after = stage.published sourceId (some checkpoint) diffs working := by
  obtain ⟨_, _, stages, ends⟩ := effect_bind_ok ends
  obtain ⟨_, calls, rfl⟩ := effect_perform_ok stages
  cases calls
  rw [futureHook_effect ends]
  funext family
  cases family <;> rfl

end OutputStage

/-- What a session state may have come to by any sequence of begins, operations, commits and rollbacks on a database. -/
inductive ReachedSession : SessionState DatabaseStores → Prop
  | new (committed : Stores DatabaseStores) : ReachedSession (.new committed)
  | begin {state} : ReachedSession state → ReachedSession state.begin.2
  | commit {state} (outcome : CommitOutcome) : ReachedSession state → ReachedSession (state.commit outcome).2
  | rollback {state} : ReachedSession state → ReachedSession state.rollback.2
  | perform {state} (operation : StoreOperation) (fault : CallFault (DatabaseStores operation.family)) :
      ReachedSession state → ReachedSession (operation.perform fault state).2

theorem ReachedSession.sound {state : SessionState DatabaseStores} (reached : ReachedSession state) : state.Sound := by
  induction reached with
  | new committed => simp [SessionState.Sound, SessionState.new]
  | begin _ sound => exact sound.begin
  | commit outcome _ sound => exact sound.commit outcome
  | rollback _ sound => exact sound.rollback
  | perform operation fault _ sound => exact operation.sound_perform fault sound

/-- All or nothing: an error leaves every store as it was, nothing of the body is committed while it runs, and success
publishes all that the body writes at once, with the commit of the outermost session. -/
structure Atomic {ε α : Type} (writes : Stores DatabaseStores → α → Stores DatabaseStores → Prop)
    (body : StoreProgram ε α) (state : SessionState DatabaseStores) (outcome : Except ε α × SessionState DatabaseStores) :
    Prop where
  failed : ∀ error, outcome.1 = .error error → outcome.2.committed = state.committed
  hidden : ∀ begun, state.begin = (.ok (), begun) → ∀ passed ∈ body.visited begun, passed.committed = state.committed
  together : state.txn = none → ∀ value, outcome.1 = .ok value →
    writes state.committed value outcome.2.committed ∧ outcome.2.txn = none
  nested : state.txn ≠ none → ∀ value, outcome.1 = .ok value →
    outcome.2.committed = state.committed ∧ writes state.view value outcome.2.view ∧
      ∀ finished, state.depth = 1 → outcome.2.commit .succeeds = (.ok (), finished) →
        finished.committed = outcome.2.view

namespace StoreProgram

variable {state after : SessionState DatabaseStores} {faults : SessionFaults} {program : StoreProgram ε α}

theorem guarded_ok {value} (succeeds : program.guarded fromIndex faults state = (.ok value, after)) :
    ∃ begun, state.begin = (.ok (), begun) ∧ (program.run begun).1 = .ok value ∧
      (program.run begun).2.commit faults.commitOutcome = (.ok (), after) := by
  unfold guarded at succeeds
  split at succeeds
  · cases succeeds
  split at succeeds
  · cases succeeds
  case h_2 begun begins =>
    split at succeeds
    · cases succeeds
    case h_2 result finished runs =>
      split at succeeds
      · case h_1 committed commits =>
        cases succeeds
        exact ⟨begun, begins, by rw [runs], by rw [runs, commits]⟩
      · cases succeeds

theorem Transactional.guarded_error (transactional : program.Transactional) (sound : state.Sound) {error}
    (fails : program.guarded fromIndex faults state = (.error error, after)) : after.committed = state.committed := by
  unfold guarded at fails
  split at fails
  · cases fails
    rfl
  split at fails
  case h_1 failure refused begins =>
    cases fails
    unfold SessionState.begin at begins
    repeat' split at begins
    all_goals cases begins
    rfl
  case h_2 begun begins =>
    have runs := transactional.open_run (sound.open_begin begins).1
    split at fails
    case h_1 failure unfinished stops =>
      rw [stops] at runs
      cases fails
      exact (SessionState.rollback_committed _).trans runs.committed
    case h_2 result finished ends =>
      rw [ends] at runs
      split at fails
      · cases fails
      case h_2 failure uncommitted commits =>
        cases fails
        exact (SessionState.rollback_committed _).trans ((SessionState.commit_error commits).trans runs.committed)

theorem Transactional.guarded_atomic (transactional : program.Transactional) (fromIndex : IndexError → ε)
    (faults : SessionFaults) (sound : state.Sound) {writes : Stores DatabaseStores → α → Stores DatabaseStores → Prop}
    (means : ∀ {working value published}, program.effect state.committed working = some (.ok value, published) →
      writes working value published) : Atomic writes program state (program.guarded fromIndex faults state) where
  failed error fails := transactional.guarded_error sound (Prod.ext fails rfl)
  hidden begun begins passed passes := (transactional.open_visited (sound.open_begin begins).1 passed passes).committed
  together closed value succeeds := by
    obtain ⟨begun, begins, runs, commits⟩ := guarded_ok (Prod.ext succeeds rfl)
    obtain ⟨isOpen, views, -⟩ := sound.open_begin begins
    have outermost : state.depth + 1 = 1 := by rw [sound.mp closed]
    have finishes := transactional.open_run (outermost ▸ isOpen)
    obtain ⟨healthy, published, ended, -⟩ := finishes.commit_outermost commits
    have computes := transactional.run_effect isOpen healthy
    rw [views, runs, ← published] at computes
    exact ⟨means (SessionState.view_of_closed closed ▸ computes), ended⟩
  nested inSession value succeeds := by
    obtain ⟨begun, begins, runs, commits⟩ := guarded_ok (Prod.ext succeeds rfl)
    obtain ⟨isOpen, views, -⟩ := sound.open_begin begins
    obtain ⟨outer, deep⟩ := Nat.exists_eq_succ_of_ne_zero (mt sound.mpr inSession)
    rw [deep] at isOpen
    obtain ⟨healthy, stays, sees⟩ := (transactional.open_run isOpen).commit_nested commits
    have computes := transactional.run_effect isOpen healthy
    rw [views, runs, ← sees] at computes
    refine ⟨stays.committed, means computes, fun finished single finishes => ?_⟩
    have outermost : outer = 0 := by omega
    exact ((outermost ▸ stays).commit_outermost finishes).2.1

end StoreProgram

namespace QuerySteps

variable {steps : QuerySteps ε} {change : SourceChange}
variable {stage : OutputStage} {hookFaults : HookFaults} {committed before after : Stores DatabaseStores}

/-- Middleware, solving and evaluation use the three indexes only, and clear none. -/
structure Indexing (steps : QuerySteps ε) : Prop where
  middleware (change : SourceChange) : (steps.executeSourceMiddleware change).Indexing
  processing (changes : List SourceChange) : (steps.processChangesInner changes).Indexing

/-- The writes of a change: the indexes as its solving leaves them, the other stores as its hook does. -/
def Writes (steps : QuerySteps ε) (committed : Stores DatabaseStores) (stage : OutputStage) (change : SourceChange)
    (sourceId : String) (checkpoint : Option SourceCheckpoint)
    (before : Stores DatabaseStores) (results : List QueryPartEvaluationContext)
    (after : Stores DatabaseStores) : Prop :=
  ∃ indexed, (steps.solve change).effect committed before = some (.ok results, indexed) ∧
    (∀ family ∈ [StoreFamily.checkpoint, .outbox, .liveResults], indexed family = before family) ∧
    after = stage.published sourceId checkpoint (evaluationContextsToDiffs results) indexed

/-- The writes of a due future: it leaves the queue, and what it means is a change without a position. -/
def FutureWrites (steps : QuerySteps ε) (committed : Stores DatabaseStores) (stage : OutputStage)
    (order : IterationOrder) (before : Stores DatabaseStores) :
    Option (List QueryPartEvaluationContext × String) → Stores DatabaseStores → Prop
  | none, after => RocksDbFutureQueue.head? (before .futureQueue) order = none ∧ after = before
  | some (results, sourceId), after => ∃ entry, RocksDbFutureQueue.head? (before .futureQueue) order = some entry ∧
    sourceId = entry.2.2.elementRef.sourceId ∧
    steps.Writes committed stage (.future entry.2.2) sourceId none
      (before.apply ⟨.futureQueue, fun queue => RocksDbFutureQueue.dropHead queue entry⟩) results after

theorem Indexing.solve (indexing : steps.Indexing) (change : SourceChange) : (steps.solve change).Indexing :=
  Each.bind (indexing.middleware change) indexing.processing

theorem Indexing.transactional_changeBody (indexing : steps.Indexing) (change : SourceChange)
    {preCommitHook : List ResultDiff → StoreProgram IndexError Unit} (hook : ∀ diffs, (preCommitHook diffs).Transactional) :
    (steps.changeBody change preCommitHook).Transactional :=
  Each.bind (indexing.solve change).transactional fun _ => Each.bind ((hook _).mapError _) fun _ => trivial

theorem Indexing.writes (indexing : steps.Indexing) {sourceId : String} {checkpoint : Option SourceCheckpoint} {results}
    {preCommitHook : List ResultDiff → StoreProgram IndexError Unit}
    (hook : ∀ {diffs working after}, (preCommitHook diffs).effect committed working = some (.ok (), after) →
      after = stage.published sourceId checkpoint diffs working)
    (ends : (steps.changeBody change preCommitHook).effect committed before = some (.ok results, after)) :
    steps.Writes committed stage change sourceId checkpoint before results after := by
  obtain ⟨_, indexed, solves, ends⟩ := effect_bind_ok ends
  obtain ⟨_, _, stages, ends⟩ := effect_bind_ok ends
  cases ends
  refine ⟨indexed, solves, fun family other => ?_, hook (effect_mapError_ok stages)⟩
  exact (indexing.solve change).effect_other solves (by revert other; cases family <;> decide)

theorem Indexing.futureWrites (indexing : steps.Indexing) {order : IterationOrder} {fault} {popped}
    (ends : (steps.futureBody order fault (stage.futureHook hookFaults)).effect committed before = some (.ok popped, after)) :
    steps.FutureWrites committed stage order before popped after := by
  obtain ⟨found, _, pops, ends⟩ := effect_bind_ok ends
  obtain ⟨updates, calls, rfl⟩ := effect_perform_ok (effect_mapError_ok pops)
  simp only [StoreOperation.call, RocksDbFutureQueue.popOutcome] at calls
  split at calls
  case h_1 entry heads =>
    cases calls
    obtain ⟨results, _, solves, ends⟩ := effect_bind_ok ends
    cases ends
    exact ⟨entry, heads, rfl, indexing.writes OutputStage.futureHook_effect solves⟩
  case h_2 heads =>
    cases calls
    cases ends
    exact ⟨heads, rfl⟩

end QuerySteps

/-- Both ways of processing are atomic from every state a session can be in, wherever a step, an operation or the hook
fails. -/
theorem processing_atomic {ε : Type} (steps : QuerySteps ε) (indexing : steps.Indexing)
    (stage : OutputStage) (hookFaults : HookFaults) (faults : SessionFaults) {state : SessionState DatabaseStores}
    (reached : ReachedSession state) :
    (∀ change sourceId checkpoint,
      Atomic (steps.Writes state.committed stage change sourceId (some checkpoint))
        (steps.changeBody change (stage.changeHook hookFaults sourceId checkpoint)) state
        (steps.processSourceChangeWithHook change (stage.changeHook hookFaults sourceId checkpoint) faults state)) ∧
    ∀ order popFault,
      Atomic (steps.FutureWrites state.committed stage order)
        (steps.futureBody order popFault (stage.futureHook hookFaults)) state
        (steps.processDueFuturesWithHook order popFault (stage.futureHook hookFaults) faults state) := by
  refine ⟨fun change sourceId checkpoint => ?_, fun order popFault => ?_⟩
  · exact (indexing.transactional_changeBody change fun _ => OutputStage.transactional_changeHook).guarded_atomic _ faults
      reached.sound (indexing.writes OutputStage.changeHook_effect)
  · have pops : (StoreProgram.perform (.pop order) popFault).Transactional := transactional_perform rfl _
    have body : (steps.futureBody order popFault (stage.futureHook hookFaults)).Transactional := by
      refine Each.bind (pops.mapError _) fun popped => ?_
      cases popped with
      | none => trivial
      | some futureRef =>
        exact Each.bind (indexing.transactional_changeBody _ fun _ => OutputStage.transactional_futureHook) fun _ => trivial
    exact body.guarded_atomic _ faults reached.sound indexing.futureWrites

def sampleStage : OutputStage := ⟨"query", { QueryOutputState.new 1 with asOfSequence := 1 }, 5, fun _ => none⟩

/-- A database whose outbox has one result, appended while no session was open. -/
def sampleState : SessionState DatabaseStores :=
  ((StoreOperation.append "query" 1 (sampleStage.queryResult [] "source")).perform .none (.new fun
    | .elementIndex => RocksDbElementIndex.new ⟨[], []⟩ []
    | .resultIndex => (⟨fun _ _ => none, fun _ => .empty, (0, "")⟩ : RocksDbResultIndex)
    | .futureQueue => RocksDbFutureQueue.empty
    | .checkpoint => (⟨∅, ∅, ∅, none⟩ : RocksDbCheckpointStore)
    | .outbox => fun _ => .empty
    | .liveResults => fun _ => ∅)).2

/-- A change enters its element, asks for it again at time nine and adds a row. -/
def sampleSteps : QuerySteps IndexError where
  executeSourceMiddleware change := pure [change]
  processChangesInner
    | [] => return []
    | change :: _ => do
      let element : Element := .node ⟨change.getReference, ["A"], 3⟩ .empty
      let _ ← StoreProgram.perform (.setElement .stored 0 element [0]) .none
      let _ ← StoreProgram.perform (.push .always 0 .zero change.getReference 3 9) .none
      return [.adding .empty (.element change.getReference)]
  fromIndex := id

def noFaults : HookFaults := ⟨.none, .ok (), .none, .none, .ok (), .none, .none, .ok ()⟩

/-- The change in the sample: what it answers and then the outbox, the position of the source, whether the element is
stored, the head of the queue and the number of live rows. -/
def sampleRun (hookFaults : HookFaults) :
    Bool × List Nat × Option SourceCheckpoint × Bool × Option ElementTimestamp × Nat :=
  let (answer, after) := sampleSteps.processSourceChangeWithHook (.insert (.node ⟨⟨"source", "n"⟩, ["A"], 3⟩ .empty))
    (sampleStage.changeHook hookFaults "source" ⟨7, none⟩) ⟨false, .succeeds⟩ sampleState
  let outbox : String → OrderedMap Nat QueryResult := after.committed .outbox
  let store : RocksDbCheckpointStore := after.committed .checkpoint
  let rows : String → LiveRows := after.committed .liveResults
  (answer.isOk, (outbox "query").entries.map (·.1), store.checkpoints.lookup "source",
    (RocksDbElementIndex.getElement (after.committed .elementIndex) ⟨"source", "n"⟩).isSome,
    RocksDbFutureQueue.peekDueTime (after.committed .futureQueue), (rows "query").entries.length)

/-- Without a fault the six stores change together; where the last write of the hook fails, none does. -/
theorem processing_atomic_sample :
    sampleRun noFaults = (true, [2], some ⟨7, none⟩, true, some 9, 1) ∧
    sampleRun { noFaults with sequence := .fails .poison id } = (false, [1], none, false, none, 0) ∧
    ReachedSession sampleState ∧
    ∀ hookFaults change sourceId checkpoint, Atomic
      (sampleSteps.Writes sampleState.committed sampleStage change sourceId (some checkpoint))
      (sampleSteps.changeBody change (sampleStage.changeHook hookFaults sourceId checkpoint)) sampleState
      (sampleSteps.processSourceChangeWithHook change (sampleStage.changeHook hookFaults sourceId checkpoint)
        ⟨false, .succeeds⟩ sampleState) := by
  have reached : ReachedSession sampleState := .perform _ _ (.new _)
  have indexing : sampleSteps.Indexing := by
    refine ⟨fun _ => trivial, fun changes => ?_⟩
    cases changes with
    | nil => trivial
    | cons change rest =>
      exact Each.bind ⟨rfl, fun _ => trivial⟩ fun _ => Each.bind ⟨rfl, fun _ => trivial⟩ fun _ => trivial
  exact ⟨by decide +kernel, by decide +kernel, reached,
    fun hookFaults => (processing_atomic sampleSteps indexing sampleStage hookFaults _ reached).1⟩

end DrasiCore
