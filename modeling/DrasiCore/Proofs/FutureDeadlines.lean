import DrasiCore.Expressions
import DrasiCore.FutureBag

/-! Deadlines of one call site for one row. The queue holds at most one future for it. `trueLater` and `trueNowOrLater`
replace it, the other two functions leave it as it is, also when they now wait for an earlier time; and a future whose
element has changed since it was due is taken from the queue and dropped. -/

namespace DrasiCore

open Library FutureBag Option

variable {position : Nat} {signature : Signature}

namespace InMemoryFutureQueue

variable {data : InMemoryFutureQueue} {pending : Option (ElementTimestamp × ElementTimestamp × ElementReference)}

/-- The future of a map entry of the function and group. -/
def futureOf (position : Nat) (signature : Signature) (entry : ElementTimestamp × ElementTimestamp × ElementReference) :
    Nat × FutureElementRef := (position, ⟨entry.2.2, entry.2.1, entry.1, signature⟩)

/-- What is held for a function and a group, in its map and in the queue. -/
structure Holds (data : InMemoryFutureQueue) (position : Nat) (signature : Signature)
    (pending : Option (ElementTimestamp × ElementTimestamp × ElementReference)) : Prop where
  nodup : data.queue.Nodup
  mapped : (data.map position signature).entries = pending.toList
  queued : ∀ future, future ∈ data.queue ∧ Concerns position signature future ↔
    pending.map (futureOf position signature) = some future

theorem Holds.empty : Holds .empty position signature none := ⟨List.nodup_nil, rfl, by simp [InMemoryFutureQueue.empty]⟩

theorem Holds.add (holds : data.Holds position signature none) (elementRef : ElementReference)
    (originalTime dueTime : ElementTimestamp) :
    (data.add position signature elementRef originalTime dueTime).Holds position signature
      (some (dueTime, originalTime, elementRef)) := by
  refine ⟨holds.nodup.insert, ?_, fun future => ?_⟩
  · have vacant : (data.map position signature).entries = [] := holds.mapped
    simp [InMemoryFutureQueue.add, OrderedMap.insert, vacant, insertEntry]
  · have other := holds.queued future
    simp only [map_none, reduceCtorEq, iff_false, not_and] at other
    change future ∈ data.queue.insert _ ∧ _ ↔ _
    rw [List.mem_insert_iff, map_some, some.injEq]
    constructor
    · rintro ⟨rfl | member, concerns⟩
      · rfl
      · exact absurd concerns (other member)
    · rintro rfl
      exact ⟨.inl rfl, rfl, rfl⟩

section

variable (holds : data.Holds position signature pending)
include holds

theorem Holds.remove : (data.remove position signature).Holds position signature none := by
  have queue : (data.remove position signature).queue =
      pending.toList.foldl (fun queue entry => queue.erase (futureOf position signature entry)) data.queue := by
    rw [← holds.mapped]
    rfl
  cases pending with
  | none => exact ⟨queue ▸ holds.nodup, by simp [InMemoryFutureQueue.remove, OrderedMap.empty], queue ▸ holds.queued⟩
  | some entry =>
    rw [toList_some, List.foldl_cons, List.foldl_nil] at queue
    refine ⟨queue ▸ holds.nodup.erase _, by simp [InMemoryFutureQueue.remove, OrderedMap.empty], fun future => ?_⟩
    rw [queue, holds.nodup.mem_erase_iff, and_assoc, holds.queued, map_some, some.injEq]
    simpa using fun different same => different same.symm

/-- A pop takes the one future of the call site, or leaves it. -/
theorem Holds.pop (order : IterationOrder) : ∃ left, (data.pop order).2.Holds position signature left ∧
    (left = none ∨ left = pending) := by
  unfold InMemoryFutureQueue.pop
  cases first : (order.arrange [] data.heads).head? with
  | none => exact ⟨pending, holds, .inr rfl⟩
  | some entry =>
    obtain ⟨other, future⟩ := entry
    have member : (other, future) ∈ data.queue :=
      List.mem_of_mem_filter ((order.mem_arrange [] _ _).mp (List.mem_of_head? first))
    by_cases own : Concerns position signature (other, future)
    · have taken := (holds.queued _).mp ⟨member, own⟩
      obtain ⟨entry, rfl, same⟩ := map_eq_some_iff.mp taken
      cases same
      refine ⟨none, ⟨holds.nodup.erase _, ?_, fun found => ?_⟩, .inl rfl⟩
      · have mapped := holds.mapped
        simp [OrderedMap.erase, mapped]
      · rw [holds.nodup.mem_erase_iff, and_assoc, holds.queued, map_some, some.injEq]
        simpa using fun different same => different same.symm
    · refine ⟨pending, ⟨holds.nodup.erase _, ?_, fun found => ?_⟩, .inr rfl⟩
      · rw [← holds.mapped]
        exact congrArg OrderedMap.entries (if_neg fun same => own ⟨same.1.symm, same.2.symm⟩)
      · rw [holds.nodup.mem_erase_iff, and_assoc, holds.queued, and_iff_right_iff_imp]
        rintro held rfl
        exact own ((holds.queued _).mpr held).2

theorem Holds.push_iff {pushType} (elementRef : ElementReference) (originalTime dueTime : ElementTimestamp)
    (guarded : pushType ≠ .always) :
    (∃ left, (data.push pushType position signature elementRef originalTime dueTime).Holds position signature left) ∧
    ((∃ future ∈ (data.push pushType position signature elementRef originalTime dueTime).queue,
        Concerns position signature future ∧ future.2.dueTime ≤ dueTime) ↔
      pushType = .overwrite ∨ ∀ future ∈ data.queue, Concerns position signature future → future.2.dueTime ≤ dueTime) := by
  have inTime : ∀ {after : InMemoryFutureQueue}, after.Holds position signature (some (dueTime, originalTime, elementRef)) →
      ∃ future ∈ after.queue, Concerns position signature future ∧ future.2.dueTime ≤ dueTime := fun added =>
    ⟨_, ((added.queued _).mpr rfl).1, ⟨rfl, rfl⟩, le_rfl⟩
  cases pushType with
  | always => exact absurd rfl guarded
  | overwrite =>
    have added := holds.remove.add elementRef originalTime dueTime
    exact ⟨⟨_, added⟩, iff_of_true (inTime added) (.inl rfl)⟩
  | ifNotExists =>
    cases pending with
    | none =>
      have vacant : (data.map position signature).entries.isEmpty = true := by simp [holds.mapped]
      have added := holds.add elementRef originalTime dueTime
      rw [InMemoryFutureQueue.push, if_pos vacant]
      refine ⟨⟨_, added⟩, iff_of_true (inTime added) (.inr fun future member concerns => ?_)⟩
      exact absurd ((holds.queued future).mp ⟨member, concerns⟩) nofun
    | some entry =>
      have filled : ¬ (data.map position signature).entries.isEmpty = true := by simp [holds.mapped]
      rw [InMemoryFutureQueue.push, if_neg filled]
      refine ⟨⟨_, holds⟩, ?_⟩
      -- the one future that is queued was asked for before
      have only : ∀ future, future ∈ data.queue ∧ Concerns position signature future ↔ futureOf position signature entry = future :=
        fun future => (holds.queued future).trans some_inj
      simp only [← and_assoc, only, exists_eq_left', reduceCtorEq, false_or]
      exact ⟨fun inTime future member concerns => (only future).mp ⟨member, concerns⟩ ▸ inTime,
        fun all => all _ ((only _).mpr rfl).1 ((only _).mpr rfl).2⟩

end

end InMemoryFutureQueue

namespace FutureFunction

variable {context : ExpressionEvaluationContext} {state : EngineState}

/-- How a function asks for a future. -/
def pushType : FutureFunction → PushType
  | .trueLater | .trueNowOrLater => .overwrite
  | .trueUntil | .trueFor => .ifNotExists

variable (function : FutureFunction)

/-- The time the function waits for: the one it is given, or a duration after the condition came to hold. -/
def deadline (context : ExpressionEvaluationContext) (positionInQuery : Nat) (argument : VariableValue)
    (key : ResultKey) (state : EngineState) : Option ElementTimestamp :=
  match function with
  | .trueLater | .trueUntil | .trueNowOrLater => (dueTimeArgument argument).toOption.join
  | .trueFor => (durationArgument 1 argument).toOption.join.map fun duration =>
    let since := match state.resultIndex.get key (.function positionInQuery) with
      | some (.timeMarker timestamp) => timestamp
      | _ => context.clock.transactionTime
    (since + millisAsU64 duration) % 2 ^ 64

/-- What a call may do: it waits and has asked for a future, or it drops the futures of the row, or it leaves the queue alone. -/
def Effect (context : ExpressionEvaluationContext) (position : Nat) (state : EngineState)
    (dueTime? : Option ElementTimestamp) (outcome : Except EvaluationError VariableValue × EngineState) : Prop :=
  (outcome.1 ≠ .ok .awaiting ∧ (outcome.2.futureQueue = state.futureQueue ∨
    outcome.2.futureQueue = state.futureQueue.remove position context.inputGroupingHash)) ∨
  outcome.1 = .ok .awaiting ∧ ∃ elementRef dueTime, dueTime? = some dueTime ∧ outcome.2.futureQueue =
    state.futureQueue.push function.pushType position context.inputGroupingHash elementRef context.clock.transactionTime dueTime

section

variable (applies : context.sideEffects = .apply)
include applies

section

variable (anchorRef : ElementReference) (holds : Bool) (dueTime : ElementTimestamp)

theorem callTrueLater_effect {function} (overwrites : pushType function = .overwrite) :
    Effect function context position state (some dueTime) (callTrueLater context position anchorRef holds dueTime state) := by
  unfold callTrueLater
  dsimp only
  by_cases due : dueTime ≤ context.clock.realtime
  · rw [if_pos due]
    exact .inl ⟨nofun, .inl rfl⟩
  · rw [if_neg due, if_pos applies]
    exact .inr ⟨rfl, anchorRef, dueTime, rfl, by rw [overwrites]; rfl⟩

theorem callTrueUntil_effect :
    Effect .trueUntil context position state (some dueTime) (callTrueUntil context position anchorRef holds dueTime state) := by
  unfold callTrueUntil
  dsimp only
  by_cases due : holds = false ∨ dueTime ≤ context.clock.realtime
  · rw [if_pos due, if_pos applies]
    exact .inl ⟨nofun, .inr rfl⟩
  · rw [if_neg due, if_pos applies]
    exact .inr ⟨rfl, anchorRef, dueTime, rfl, rfl⟩

theorem awaitDueTime_effect {later} (unchanged : later.futureQueue = state.futureQueue) :
    Effect .trueFor context position state (some dueTime) (awaitDueTime context position anchorRef holds dueTime later) := by
  unfold awaitDueTime
  dsimp only
  by_cases due : dueTime ≤ context.clock.realtime
  · rw [if_pos due, if_pos applies]
    exact .inl ⟨nofun, .inr (congrArg (·.remove position context.inputGroupingHash) unchanged)⟩
  · rw [if_neg due, if_pos applies]
    exact .inr ⟨rfl, anchorRef, dueTime, rfl,
      congrArg (·.push .ifNotExists position context.inputGroupingHash anchorRef context.clock.transactionTime dueTime) unchanged⟩

end

theorem heldSince_cases (key : ResultKey) (state : EngineState) :
    ∃ result later, heldSince context (.function position) key state = (result, later) ∧
      later.futureQueue = state.futureQueue ∧
      ∀ since, result = .ok since → since = match state.resultIndex.get key (.function position) with
        | some (.timeMarker timestamp) => timestamp
        | _ => context.clock.transactionTime := by
  refine ⟨_, _, rfl, ?_⟩
  dsimp only
  rcases state.resultIndex.get key (.function position) with _ | value
  · rw [if_pos applies]
    exact ⟨rfl, fun since held => (Except.ok.inj held).symm⟩
  · cases value with
    | timeMarker timestamp =>
      dsimp only
      rw [if_neg (by rw [applies]; decide)]
      exact ⟨rfl, fun since held => (Except.ok.inj held).symm⟩
    | _ => exact ⟨rfl, nofun⟩

theorem callTrueFor_effect (anchorRef : ElementReference) (holds : Bool) (duration : Int) (key : ResultKey) :
    Effect .trueFor context position state
      (some (((match state.resultIndex.get key (.function position) with
        | some (.timeMarker timestamp) => timestamp
        | _ => context.clock.transactionTime) + millisAsU64 duration) % 2 ^ 64))
      (callTrueFor context position anchorRef holds duration key state) := by
  unfold callTrueFor
  dsimp only
  cases holds with
  | false =>
    rw [if_pos rfl, if_pos applies]
    exact .inl ⟨nofun, .inr rfl⟩
  | true =>
    rw [if_neg nofun]
    obtain ⟨result, later, held, unchanged, since⟩ := heldSince_cases applies key state
    change Effect _ _ _ _ _ (Eval.bind (heldSince context (.function position) key) (fun since =>
      awaitDueTime context position anchorRef true ((since + millisAsU64 duration) % 2 ^ 64)) state)
    rw [Eval.bind, held]
    cases result with
    | error error => exact .inl ⟨nofun, .inl unchanged⟩
    | ok value =>
      rw [← since value rfl]
      exact awaitDueTime_effect applies anchorRef true _ unchanged

end

/-- Without the argument a call leaves the queue alone. -/
theorem effect_found {function} {α : Type} {found : Except FunctionEvaluationError (Option α)} {rename}
    {next : Option α → Eval VariableValue} {dueTime?} (absent : next none state = (.ok .null, state))
    (present : ∀ value, found = .ok (some value) → Effect function context position state dueTime? (next (some value) state)) :
    Effect function context position state dueTime? ((Eval.ofExcept (found.mapError rename) >>= next) state) := by
  obtain error | _ | value := found
  · exact .inl ⟨nofun, .inl rfl⟩
  · change Effect _ _ _ _ _ (next none state)
    rw [absent]
    exact .inl ⟨nofun, .inl rfl⟩
  · exact present value rfl

theorem call_effect (applies : context.sideEffects = .apply) (condition argument : VariableValue) (key : ResultKey)
    (state : EngineState) :
    Effect function context position state (function.deadline context position argument key state)
      (function.call context position condition argument (pure key) state) := by
  unfold call
  dsimp only
  cases context.anchorElement with
  | none => exact .inl ⟨nofun, .inl rfl⟩
  | some anchor =>
    refine effect_found rfl fun holds _ => ?_
    cases function with
    | trueLater =>
      refine effect_found rfl fun dueTime named => ?_
      rw [deadline, named]
      exact callTrueLater_effect applies _ _ _ rfl
    | trueUntil =>
      refine effect_found rfl fun dueTime named => ?_
      rw [deadline, named]
      exact callTrueUntil_effect applies _ _ _
    | trueFor =>
      refine effect_found rfl fun duration named => ?_
      rw [deadline, named]
      exact callTrueFor_effect applies _ _ _ _
    | trueNowOrLater =>
      cases holds with
      | true => exact .inl ⟨nofun, .inl rfl⟩
      | false =>
        refine effect_found rfl fun dueTime named => ?_
        rw [deadline, named]
        exact callTrueLater_effect applies _ _ _ rfl

end FutureFunction

/-! ### Runs of one row -/

/-- An evaluation of the call site, with the result index it finds. -/
structure RowCall where
  context : ExpressionEvaluationContext
  condition : VariableValue
  argument : VariableValue
  key : ResultKey
  results : InMemoryResultIndex

/-- The engine, and the time the row waits for since its last evaluation. -/
structure DeadlineRow where
  engine : EngineState
  awaited : Option ElementTimestamp

inductive RowAction where
  /-- A source change leaves its elements in the index; the call site is evaluated for the row. -/
  | evaluate (elements : InMemoryElementIndex) (call : RowCall)
  /-- The first future is taken from the queue; processing it evaluates the call site for the row, or does not. -/
  | pop (order : IterationOrder) (reprocess : Option RowCall)

section

variable (function : FutureFunction) (position : Nat) (signature : Signature)

namespace RowCall

variable (call : RowCall)

def outcome (engine : EngineState) : Except EvaluationError VariableValue × EngineState :=
  function.call call.context position call.condition call.argument (pure call.key)
    { engine with resultIndex := call.results }

def deadline (engine : EngineState) : Option ElementTimestamp :=
  function.deadline call.context position call.argument call.key { engine with resultIndex := call.results }

def run (engine : EngineState) : DeadlineRow :=
  ⟨(call.outcome function position engine).2,
    if (call.outcome function position engine).1 = .ok .awaiting then call.deadline function position engine else none⟩

structure Applies (signature : Signature) : Prop where
  effects : call.context.sideEffects = .apply
  row : call.context.inputGroupingHash = signature

/-- An evaluation that waits replaces the queued future or finds none that is later than the time it waits for. -/
def Spares (engine : EngineState) : Prop :=
  (call.outcome function position engine).1 = .ok .awaiting → function.pushType = .overwrite ∨
    ∀ dueTime, call.deadline function position engine = some dueTime →
      ∀ future ∈ engine.futureQueue.queue, Concerns position signature future → future.2.dueTime ≤ dueTime

end RowCall

namespace DeadlineRow

variable (row : DeadlineRow)

/-- While the row waits, a future of it is queued by the time it waits for. -/
def Kept : Prop :=
  ∀ dueTime, row.awaited = some dueTime →
    ∃ future ∈ row.engine.futureQueue.queue, Concerns position signature future ∧ future.2.dueTime ≤ dueTime

def popped (order : IterationOrder) : EngineState :=
  { row.engine with futureQueue := (row.engine.futureQueue.pop order).2 }

/-- What the source does. A future is processed only for an element in the index that is older than the due time, at
that time; a future of any other element is dropped. -/
def Occurs : RowAction → Prop
  | .evaluate _ call => call.Applies signature
  | .pop order none => (row.engine.futureQueue.pop order).1.isSome
  | .pop order (some call) => call.Applies signature ∧ ∃ futureRef element,
      (row.engine.futureQueue.pop order).1 = some futureRef ∧
      row.engine.elementIndex.getElement futureRef.elementRef = some element ∧
      element.getEffectiveFrom < futureRef.dueTime ∧ call.context.anchorElement = some element ∧
      call.context.clock = ⟨futureRef.originalTime, futureRef.dueTime⟩

def act : RowAction → DeadlineRow
  | .evaluate elements call => call.run function position { row.engine with elementIndex := elements }
  | .pop order none => ⟨row.popped order, row.awaited⟩
  | .pop order (some call) => call.run function position (row.popped order)

/-- The condition on a step: evaluations spare the deadline, and a row that waits does not lose its future to a pop
after which it is not evaluated. -/
def Spared : RowAction → Prop
  | .evaluate elements call => call.Spares function position signature { row.engine with elementIndex := elements }
  | .pop order none => row.awaited.isSome → ∀ future ∈ row.engine.futureQueue.queue,
      Concerns position signature future → future ∈ (row.popped order).futureQueue.queue
  | .pop order (some call) => call.Spares function position signature (row.popped order)

def SparedStep (row next : DeadlineRow) : Prop :=
  ∃ action, row.Occurs signature action ∧ row.Spared function position signature action ∧
    next = row.act function position action

end DeadlineRow

end

variable {function : FutureFunction} {row : DeadlineRow}

namespace RowCall

variable {call : RowCall} (applies : call.Applies signature) {engine : EngineState} {pending}
  (holds : engine.futureQueue.Holds position signature pending)

include applies holds

/-- After an evaluation the row still has at most one future, and its deadline is kept exactly where it is spared. -/
theorem run_kept_iff :
    (∃ left, (call.run function position engine).engine.futureQueue.Holds position signature left) ∧
    ((call.run function position engine).Kept position signature ↔ call.Spares function position signature engine) := by
  obtain ⟨effects, rfl⟩ := applies
  have guarded : function.pushType ≠ .always := by cases function <;> decide
  rcases function.call_effect effects call.condition call.argument call.key { engine with resultIndex := call.results }
    with ⟨returns, queue⟩ | ⟨waits, elementRef, dueTime, due, queue⟩
  · have idle : (call.run function position engine).awaited = none := if_neg returns
    refine ⟨?_, iff_of_true (fun dueTime awaited => ?_) fun waits => absurd waits returns⟩
    · rcases queue with same | removed
      · exact ⟨pending, same ▸ holds⟩
      · exact ⟨none, removed ▸ holds.remove⟩
    · rw [idle] at awaited
      cases awaited
  · obtain ⟨left, kept⟩ := holds.push_iff elementRef call.context.clock.transactionTime dueTime guarded
    have awaited : (call.run function position engine).awaited = some dueTime := (if_pos waits).trans due
    change (call.run function position engine).engine.futureQueue = _ at queue
    have deadline : call.deadline function position engine = some dueTime := due
    refine ⟨queue ▸ left, ?_⟩
    rw [DeadlineRow.Kept, awaited, queue]
    simp only [some.injEq, forall_eq', kept, Spares, deadline]
    exact ⟨fun spared _ => spared, fun spared => spared waits⟩

end RowCall

namespace DeadlineRow

/-- A pop after which the row is not evaluated keeps its deadline exactly where it leaves its future. -/
theorem pop_kept_iff {pending} (holds : row.engine.futureQueue.Holds position signature pending)
    (kept : row.Kept position signature) (order : IterationOrder) :
    (⟨row.popped order, row.awaited⟩ : DeadlineRow).Kept position signature ↔
      row.Spared function position signature (.pop order none) := by
  obtain ⟨left, after, which⟩ := holds.pop order
  constructor
  · intro still waiting future member concerns
    obtain ⟨dueTime, awaited⟩ := isSome_iff_exists.mp waiting
    obtain ⟨other, queued, own, _⟩ := still dueTime awaited
    have found := (after.queued other).mp ⟨queued, own⟩
    have same : left = pending := by
      rcases which with rfl | same
      · cases found
      · exact same
    have held := (holds.queued future).mp ⟨member, concerns⟩
    exact ((after.queued future).mpr (same ▸ held)).1
  · intro spared dueTime awaited
    obtain ⟨future, member, concerns, early⟩ := kept dueTime awaited
    exact ⟨future, spared (isSome_iff_exists.mpr ⟨dueTime, awaited⟩) future member concerns, concerns, early⟩

/-- One step of a row whose deadline is kept. -/
theorem act_kept_iff {pending} (holds : row.engine.futureQueue.Holds position signature pending)
    (kept : row.Kept position signature) {action} (occurs : row.Occurs signature action) :
    (∃ left, (row.act function position action).engine.futureQueue.Holds position signature left) ∧
    ((row.act function position action).Kept position signature ↔ row.Spared function position signature action) := by
  cases action with
  | evaluate elements call => exact RowCall.run_kept_iff occurs holds
  | pop order reprocess =>
    obtain ⟨left, after, _⟩ := holds.pop order
    cases reprocess with
    | none => exact ⟨⟨left, after⟩, pop_kept_iff holds kept order⟩
    | some call => exact RowCall.run_kept_iff occurs.1 after

theorem reached_kept (reached : Relation.ReflTransGen (SparedStep function position signature) ⟨.empty, none⟩ row) :
    (∃ pending, row.engine.futureQueue.Holds position signature pending) ∧ row.Kept position signature := by
  induction reached with
  | refl => exact ⟨⟨none, .empty⟩, nofun⟩
  | tail _ step ih =>
    obtain ⟨action, occurs, spared, rfl⟩ := step
    obtain ⟨⟨pending, holds⟩, kept⟩ := ih
    obtain ⟨left, iff⟩ := act_kept_iff holds kept occurs
    exact ⟨left, iff.mpr spared⟩

/-- In every state of a run whose steps are spared the deadline of the row is kept, and the next step keeps it exactly
if it is spared. -/
theorem deadline_kept_iff (reached : Relation.ReflTransGen (SparedStep function position signature) ⟨.empty, none⟩ row) :
    row.Kept position signature ∧ ∀ action, row.Occurs signature action →
      ((row.act function position action).Kept position signature ↔ row.Spared function position signature action) := by
  obtain ⟨⟨pending, holds⟩, kept⟩ := reached_kept reached
  exact ⟨kept, fun action occurs => (act_kept_iff holds kept occurs).2⟩

end DeadlineRow

/-! `trueUntil` for the row of one node, with a condition that holds. -/

def rowNode (effectiveFrom : ElementTimestamp) : Element := .node ⟨⟨"source", "row"⟩, [], effectiveFrom⟩ .empty

def untilCall (node : Element) (clock : InstantQueryClock) (dueTime : Nat) : RowCall :=
  ⟨⟨.empty, .apply, none, .zero, clock, some node⟩, .bool true, .integer dueTime, .inputHash .zero, .empty⟩

/-- The node changes at a time, with a new due time for its row. -/
def nodeChanges (effectiveFrom : ElementTimestamp) (dueTime : Nat) : RowAction :=
  .evaluate (InMemoryElementIndex.empty.setElement (rowNode effectiveFrom) [])
    (untilCall (rowNode effectiveFrom) ⟨effectiveFrom, effectiveFrom⟩ dueTime)

def afterActions (actions : List RowAction) : DeadlineRow :=
  actions.foldl (fun row action => row.act .trueUntil 0 action) ⟨.empty, none⟩

def queuedDues (row : DeadlineRow) : List (Nat × Signature × ElementTimestamp) :=
  row.engine.futureQueue.queue.map fun future => (future.1, future.2.groupSignature, future.2.dueTime)

theorem spares_of_early {call : RowCall} {engine : EngineState} {dueTime}
    (due : call.deadline .trueUntil 0 engine = some dueTime)
    (early : ∀ future ∈ engine.futureQueue.queue, future.2.dueTime ≤ dueTime) :
    call.Spares .trueUntil 0 .zero engine := by
  refine fun _ => .inr fun other same future member _ => ?_
  rw [due, some.injEq] at same
  exact same ▸ early future member

def reprocessed : List RowAction :=
  [nodeChanges 1 50, nodeChanges 20 100, .pop .stored (some (untilCall (rowNode 20) ⟨1, 50⟩ 100))]

/-- The row waits for time 50 and, after a change at time 20, for time 100. The future it asked for first is processed at
time 50, and the row asks for one at time 100. -/
theorem deadline_kept_iff_reprocessed :
    (afterActions reprocessed).awaited = some 100 ∧ (afterActions reprocessed).Kept 0 .zero ∧
    ∀ action, (afterActions reprocessed).Occurs .zero action →
      (((afterActions reprocessed).act .trueUntil 0 action).Kept 0 .zero ↔
        (afterActions reprocessed).Spared .trueUntil 0 .zero action) := by
  have first : DeadlineRow.SparedStep .trueUntil 0 .zero ⟨.empty, none⟩ (afterActions [nodeChanges 1 50]) :=
    ⟨nodeChanges 1 50, ⟨rfl, rfl⟩, spares_of_early rfl (by decide), rfl⟩
  have second : DeadlineRow.SparedStep .trueUntil 0 .zero (afterActions [nodeChanges 1 50])
      (afterActions [nodeChanges 1 50, nodeChanges 20 100]) :=
    ⟨nodeChanges 20 100, ⟨rfl, rfl⟩, spares_of_early rfl (by decide), rfl⟩
  have third : DeadlineRow.SparedStep .trueUntil 0 .zero (afterActions [nodeChanges 1 50, nodeChanges 20 100])
      (afterActions reprocessed) :=
    ⟨.pop .stored (some (untilCall (rowNode 20) ⟨1, 50⟩ 100)),
      ⟨⟨rfl, rfl⟩, ⟨⟨"source", "row"⟩, 1, 50, .zero⟩, rowNode 20, by rfl, by rfl, by decide, rfl, rfl⟩,
      spares_of_early rfl (by decide), rfl⟩
  exact ⟨by rfl, DeadlineRow.deadline_kept_iff (((Relation.ReflTransGen.refl.tail first).tail second).tail third)⟩

def lateChange : List RowAction := [nodeChanges 1 50, nodeChanges 60 100]

theorem lateChange_pop : ((afterActions lateChange).engine.futureQueue.pop .stored).1 =
    some ⟨⟨"source", "row"⟩, 1, 50, .zero⟩ := by rfl

/-- The row waits for time 100 and then for time 50; the queue wakes it at 100 only. Or it waits for time 50 and, after
a change of the node at time 60, for time 100: the future due at 50 is older than the node, so it is taken and dropped,
and nothing wakes the row. -/
theorem deadline_missed :
    ((afterActions [nodeChanges 1 100, nodeChanges 2 50]).awaited = some 50 ∧
      queuedDues (afterActions [nodeChanges 1 100, nodeChanges 2 50]) = [(0, .zero, 100)]) ∧
    (∀ call, ¬ (afterActions lateChange).Occurs .zero (.pop .stored (some call))) ∧
    (afterActions lateChange).Occurs .zero (.pop .stored none) ∧
    (afterActions (lateChange ++ [.pop .stored none])).awaited = some 100 ∧
      queuedDues (afterActions (lateChange ++ [.pop .stored none])) = [] := by
  refine ⟨⟨by rfl, by rfl⟩, ?_, ?_, by rfl, by rfl⟩
  · rintro call ⟨_, futureRef, element, taken, found, early, _⟩
    rw [lateChange_pop] at taken
    cases taken
    have newer : element = rowNode 60 := (some.inj found).symm
    rw [newer] at early
    exact absurd early (by decide)
  · rw [DeadlineRow.Occurs, lateChange_pop]
    rfl

end DrasiCore
