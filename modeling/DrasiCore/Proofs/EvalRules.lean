import DrasiCore.ContinuousQuery

/-! Rules for what evaluation may do to the state of the engine, for any relation between the state before and after
that holds of doing nothing and of one thing after another. -/

namespace DrasiCore

open Library FutureFunction

variable {relation : EngineState → EngineState → Prop}

namespace Eval

/-! ### Running a computation -/

theorem run_read_bind {α β : Type} (view : EngineState → α) (next : α → Eval β) (state : EngineState) :
    (read view >>= next) state = next (view state) state := rfl

theorem run_modify_bind {β : Type} (change : EngineState → EngineState) (next : Unit → Eval β) (state : EngineState) :
    (modify change >>= next) state = next () (change state) := rfl

theorem run_bind_of_ok {α β : Type} {first} {next : α → Eval β} {state reached value}
    (returned : first state = (.ok value, reached)) : (first >>= next) state = next value reached := by
  change Eval.bind first next state = _
  rw [Eval.bind, returned]

theorem run_bind_eq_ok {α β : Type} {first} {next : α → Eval β} {state reached value}
    (returned : (first >>= next) state = (.ok value, reached)) :
    ∃ middle between, first state = (.ok middle, between) ∧ next middle between = (.ok value, reached) := by
  change Eval.bind first next state = _ at returned
  unfold Eval.bind at returned
  split at returned
  next middle between found => exact ⟨middle, between, found, returned⟩
  next => cases returned

/-! ### Effects on the state -/

/-- Every run of the computation relates the state before to the state after, also a run that fails. -/
structure Keeps {α : Type} (relation : EngineState → EngineState → Prop) (program : Eval α) : Prop where
  kept : ∀ state, relation state (program state).2

/-- Every value the computation returns has the property. -/
structure Returns {α : Type} (property : α → Prop) (program : Eval α) : Prop where
  returned : ∀ state value reached, program state = (.ok value, reached) → property value

theorem returns_pure {α : Type} {property : α → Prop} {value} (holds : property value) :
    Returns property (pure value : Eval α) := by
  constructor
  intro state other reached same
  cases same
  exact holds

theorem returns_bind {α β : Type} {property : α → Prop} {result : β → Prop} {first} {next : α → Eval β}
    (one : Returns property first) (two : ∀ value, property value → Returns result (next value)) :
    Returns result (first >>= next) := by
  constructor
  intro state value reached same
  obtain ⟨middle, between, found, rest⟩ := run_bind_eq_ok same
  exact (two middle (one.returned state middle between found)).returned _ _ _ rest

theorem returns_true {α : Type} (program : Eval α) : Returns (fun _ => True) program := ⟨fun _ _ _ _ => trivial⟩

section

variable {α β : Type} {first : Eval α} {next : α → Eval β}

theorem keeps_mapError (rename : EvaluationError → EvaluationError) {program : Eval α} (keeps : Keeps relation program) :
    Keeps relation (program.mapError rename) :=
  ⟨keeps.kept⟩

theorem keeps_skipDivideByZero {program : Eval α} (keeps : Keeps relation program) :
    Keeps relation program.skipDivideByZero := by
  constructor
  intro state
  have kept := keeps.kept state
  unfold skipDivideByZero
  split
  · exact kept
  · exact kept
  · exact kept

theorem keeps_ite {condition : Prop} [Decidable condition] {one two : Eval α} (first : condition → Keeps relation one)
    (second : ¬condition → Keeps relation two) : Keeps relation (if condition then one else two) := by
  split
  next holds => exact first holds
  next fails => exact second fails

/-- What is known of the value of the first computation can be used for the second. -/
theorem keeps_bind_of_returns [IsTrans EngineState relation] {property : α → Prop} (one : Keeps relation first)
    (returns : Returns property first) (two : ∀ value, property value → Keeps relation (next value)) :
    Keeps relation (first >>= next) := by
  constructor
  intro state
  have start := one.kept state
  change relation state (Eval.bind first next state).2
  unfold Eval.bind
  split
  next value reached found =>
    rw [found] at start
    exact IsTrans.trans _ _ _ start ((two value (returns.returned state value reached found)).kept reached)
  next error reached found =>
    rw [found] at start
    exact start

theorem keeps_bind [IsTrans EngineState relation] (one : Keeps relation first)
    (two : ∀ value, Keeps relation (next value)) : Keeps relation (first >>= next) :=
  keeps_bind_of_returns one (returns_true first) fun value _ => two value

variable [Std.Refl relation]

theorem keeps_pure (value : α) : Keeps relation (pure value : Eval α) :=
  ⟨fun state => Std.Refl.refl state⟩

theorem keeps_ofExcept (result : Except EvaluationError α) : Keeps relation (ofExcept result) :=
  ⟨fun state => Std.Refl.refl state⟩

/-- What may be found in an argument decides how to go on. -/
theorem keeps_found [IsTrans EngineState relation] {found : Except EvaluationError (Option α)} {next : Option α → Eval β}
    (absent : Keeps relation (next none)) (present : ∀ value, Keeps relation (next (some value))) :
    Keeps relation (ofExcept found >>= next) := by
  refine keeps_bind (keeps_ofExcept _) fun value => ?_
  cases value with
  | none => exact absent
  | some value => exact present value

theorem keeps_read (view : EngineState → α) : Keeps relation (read view) :=
  ⟨fun state => Std.Refl.refl state⟩

theorem keeps_when {condition : Prop} [Decidable condition] {one : Eval α} {value : α}
    (keeps : condition → Keeps relation one) : Keeps relation (if condition then one else pure value) :=
  keeps_ite keeps fun _ => keeps_pure value

theorem keeps_map [IsTrans EngineState relation] {form : α → β} (one : Keeps relation first) :
    Keeps relation (first >>= fun value => pure (form value)) :=
  keeps_bind one fun _ => keeps_pure _

end

end Eval

namespace Expression

mutual

/-- No call of `drasi.future`, the one function that asks for futures without an anchor element. -/
def needsAnchor : Expression → Bool
  | .pureForm _ _ => true
  | .call _ _ args => allNeedAnchor args
  | .aliased source _ => source.needsAnchor
  | .aggregate _ arg _ => arg.needsAnchor
  | .future _ condition argument _ => condition.needsAnchor && argument.needsAnchor
  | .futureElement _ _ _ => false
  | .slidingWindow window expression _ => window.needsAnchor && expression.needsAnchor

def allNeedAnchor : List Expression → Bool
  | [] => true
  | expression :: expressions => expression.needsAnchor && allNeedAnchor expressions

end

end Expression

/-- What evaluation in a context can do to the state, as obligations on a relation: it stores results, drops futures
and, where it applies a change, asks for futures later than its clock. Unless `anchorless` is set it does the last for
an anchor element only. -/
structure AllowsEffects (relation : EngineState → EngineState → Prop) (anchorless : Bool)
    (context : ExpressionEvaluationContext) : Prop where
  results : ∀ state resultIndex, relation state { state with resultIndex }
  removes : ∀ positionInQuery groupSignature, Eval.Keeps relation (removeFutures positionInQuery groupSignature)
  pushes : context.sideEffects = .apply → anchorless = true ∨ context.anchorElement.isSome →
    ∀ pushType positionInQuery groupSignature elementRef originalTime dueTime, context.clock.realtime < dueTime →
      Eval.Keeps relation (pushFuture pushType positionInQuery groupSignature elementRef originalTime dueTime)

section

variable {context : ExpressionEvaluationContext} {dueTime : ElementTimestamp}
  {grouping : ExpressionEvaluationContext → Eval (List VariableValue)}

open Eval

variable {other : ExpressionEvaluationContext} {anchorless : Bool}

namespace AllowsEffects

section

variable (allowed : AllowsEffects relation anchorless context)
include allowed

theorem keeps_setResult (key : ResultKey) (owner : ResultOwner) (value : Option ValueAccumulator) :
    Keeps relation (setResult key owner value) :=
  ⟨fun state => allowed.results state _⟩

theorem of_le (effects : other.sideEffects = .apply → context.sideEffects = .apply)
    (anchor : other.anchorElement = context.anchorElement) (clock : other.clock = context.clock) :
    AllowsEffects relation anchorless other where
  results := allowed.results
  removes := allowed.removes
  pushes := by
    intro applies anchored
    rw [clock]
    exact allowed.pushes (effects applies) (anchor ▸ anchored)

theorem setOutputGroupingKey (groupingKey : List Expression) :
    AllowsEffects relation anchorless (context.setOutputGroupingKey groupingKey) :=
  allowed.of_le id rfl rfl

theorem setSideEffects_snapshot : AllowsEffects relation anchorless (context.setSideEffects .snapshot) := by
  refine allowed.of_le ?_ rfl rfl
  intro impossible
  cases impossible

end

end AllowsEffects

/-- What the contexts of one change can do: an obligation for the contexts before it, which take no effect of their
own, and for those after it. -/
structure AllowsChange (relation : EngineState → EngineState → Prop) (changeContext : ChangeContext) : Prop where
  results : ∀ state resultIndex, relation state { state with resultIndex }
  removes : ∀ positionInQuery groupSignature, Keeps relation (removeFutures positionInQuery groupSignature)
  pushes : ∀ pushType positionInQuery groupSignature elementRef originalTime dueTime,
    changeContext.afterClock.realtime < dueTime →
    Keeps relation (pushFuture pushType positionInQuery groupSignature elementRef originalTime dueTime)

variable {changeContext : ChangeContext}

namespace AllowsChange

variable (allowed : AllowsChange relation changeContext)

include allowed

theorem of_not_apply (effects : other.sideEffects ≠ .apply) : AllowsEffects relation true other :=
  ⟨allowed.results, allowed.removes, fun applies => absurd applies effects⟩

theorem fromAfterChange (queryVariables : QueryVariables) (part : QueryPart) :
    AllowsEffects relation true (.fromAfterChange queryVariables changeContext part) :=
  ⟨allowed.results, allowed.removes, fun _ _ => allowed.pushes⟩

theorem fromBeforeChange (queryVariables : QueryVariables) {directive : SideEffects} (effects : directive ≠ .apply)
    (part : QueryPart) : AllowsEffects relation true (.fromBeforeChange queryVariables directive changeContext part) :=
  allowed.of_not_apply effects

theorem aggregationAfterContext (part : QueryPart) (after : QueryVariables) (applies : Bool) :
    AllowsEffects relation true (DrasiCore.aggregationAfterContext part changeContext after applies) := by
  have whole := allowed.fromAfterChange after part
  cases applies with
  | true => exact whole
  | false => exact whole.setSideEffects_snapshot

theorem of_mem_passOn {order newContexts entry} (member : entry ∈ passOn order changeContext newContexts) :
    AllowsChange relation entry.2 := by
  rcases List.mem_append.mp member with plain | collapsed
  · obtain ⟨partContext, _, rfl⟩ := List.mem_map.mp plain
    exact allowed
  · obtain ⟨grouped, _, rfl⟩ := List.mem_map.mp collapsed
    exact ⟨allowed.results, allowed.removes, allowed.pushes⟩

end AllowsChange

variable (order : IterationOrder)

theorem returns_evaluateContexts (partNum : Nat) (part : QueryPart)
    (contexts : List (QueryPartEvaluationContext × ChangeContext))
    (allowed : ∀ entry ∈ contexts, AllowsChange relation entry.2) :
    Returns (fun passed => ∀ entry ∈ passed, AllowsChange relation entry.2)
      (evaluateContexts order partNum part contexts) := by
  induction contexts with
  | nil =>
    apply returns_pure
    intro entry member
    cases member
  | cons entry contexts ih =>
    rw [evaluateContexts]
    apply returns_bind (returns_true _)
    intro newContexts _
    apply returns_bind (ih fun other member => allowed other (by simp [member]))
    intro rest kept
    apply returns_pure
    intro other member
    rcases List.mem_append.mp member with here | later
    · exact (allowed entry (by simp)).of_mem_passOn here
    · exact kept other later

variable [Std.Refl relation] [IsTrans EngineState relation]

/-- The expression of a window is evaluated in the context of the call or in a snapshot of it. -/
theorem FutureFunction.returns_enterWindow (context : ExpressionEvaluationContext) (positionInQuery : Nat)
    (windowSize : Int) :
    Returns (fun inner => inner = context ∨ inner = context.setSideEffects .snapshot)
      (enterWindow context positionInQuery windowSize) := by
  unfold enterWindow
  dsimp only
  split
  · exact returns_pure (.inl rfl)
  · split
    · split
      · exact returns_bind (returns_true _) fun _ _ => returns_pure (.inr rfl)
      · exact returns_bind (returns_true _) fun _ _ => returns_pure (.inl rfl)
    case h_2 | h_3 =>
      apply returns_bind (returns_true _)
      intro stored _
      split
      · exact returns_bind (returns_true _) fun _ _ => returns_pure (.inr rfl)
      · exact returns_pure (.inl rfl)
    · exact returns_pure (.inl rfl)

section effects

variable (allowed : AllowsEffects relation anchorless context)

include allowed

theorem AggregateFunction.keeps_call (function : AggregateFunction) (positionInQuery : Nat) (sideEffects : SideEffects)
    (arg : VariableValue) (groupingKeys : List VariableValue) :
    Keeps relation (function.call positionInQuery sideEffects arg groupingKeys) := by
  unfold AggregateFunction.call
  apply keeps_bind (keeps_read _)
  intro store
  apply keeps_bind (keeps_ofExcept _)
  intro called
  obtain ⟨result, changed⟩ := called
  refine keeps_bind ⟨fun state => ?_⟩ fun _ => keeps_pure _
  cases changed <;> exact allowed.results state _

theorem FutureFunction.keeps_heldSince (resultOwner : ResultOwner) (resultKey : ResultKey) :
    Keeps relation (heldSince context resultOwner resultKey) := by
  unfold heldSince
  apply keeps_bind (keeps_read _)
  intro stored
  split
  · refine keeps_when fun _ => ?_
    exact keeps_map (allowed.keeps_setResult _ _ _)
  · refine keeps_when fun _ => ?_
    exact keeps_map (allowed.keeps_setResult _ _ _)
  · exact keeps_ofExcept _

theorem keeps_dropping {condition : Prop} [Decidable condition] {value : VariableValue} {position group} :
    Keeps relation (if condition then removeFutures position group >>= fun _ => pure value else pure value) :=
  keeps_when fun _ => keeps_map (allowed.removes _ _)

section

variable (anchored : anchorless = true ∨ context.anchorElement.isSome)
include anchored

theorem keeps_asking (later : context.clock.realtime < dueTime) {value : VariableValue} {push position group ref time} :
    Keeps relation (if context.sideEffects = .apply then
      pushFuture push position group ref time dueTime >>= fun _ => pure value else pure value) :=
  keeps_when fun applies => keeps_map (allowed.pushes applies anchored _ _ _ _ _ _ later)

theorem FutureFunction.keeps_callTrueLater (positionInQuery : Nat) (anchorRef : ElementReference) (condition : Bool) :
    Keeps relation (callTrueLater context positionInQuery anchorRef condition dueTime) := by
  unfold callTrueLater
  dsimp only
  refine keeps_ite (fun _ => keeps_pure _) fun later => ?_
  exact keeps_asking allowed anchored (Nat.lt_of_not_le later)

theorem FutureFunction.keeps_callTrueUntil (positionInQuery : Nat) (anchorRef : ElementReference) (condition : Bool) :
    Keeps relation (callTrueUntil context positionInQuery anchorRef condition dueTime) := by
  unfold callTrueUntil
  dsimp only
  refine keeps_ite (fun _ => ?_) fun waits => ?_
  · exact keeps_dropping allowed
  · exact keeps_asking allowed anchored (Nat.lt_of_not_le fun due => waits (Or.inr due))

theorem FutureFunction.keeps_awaitDueTime (positionInQuery : Nat) (anchorRef : ElementReference) (condition : Bool) :
    Keeps relation (awaitDueTime context positionInQuery anchorRef condition dueTime) := by
  unfold awaitDueTime
  dsimp only
  refine keeps_ite (fun _ => ?_) fun later => ?_
  · exact keeps_dropping allowed
  · exact keeps_asking allowed anchored (Nat.lt_of_not_le later)

theorem FutureFunction.keeps_callTrueFor (positionInQuery : Nat) (anchorRef : ElementReference) (condition : Bool)
    (duration : Int) (resultKey : ResultKey) :
    Keeps relation (callTrueFor context positionInQuery anchorRef condition duration resultKey) := by
  unfold callTrueFor
  dsimp only
  refine keeps_ite (fun _ => ?_) fun _ => ?_
  · refine keeps_when fun _ => ?_
    apply keeps_bind (allowed.keeps_setResult _ _ _)
    intro _
    exact keeps_map (allowed.removes _ _)
  · apply keeps_bind (keeps_heldSince allowed _ _)
    intro since
    exact keeps_awaitDueTime allowed anchored _ _ _

end

theorem FutureFunction.keeps_callFutureElement (anywhere : anchorless = true) (positionInQuery : Nat)
    (element argument : VariableValue) : Keeps relation (callFutureElement context positionInQuery element argument) := by
  unfold callFutureElement
  apply keeps_bind (keeps_ofExcept _)
  intro named
  obtain ⟨elementRef, dueTime⟩ := named
  refine keeps_ite (fun _ => ?_) fun later => ?_
  · exact keeps_dropping allowed
  · exact keeps_asking allowed (.inl anywhere) (Nat.lt_of_not_le later)

/-- The window asks for a future only for an anchor element. -/
theorem FutureFunction.keeps_enterWindow (positionInQuery : Nat) (windowSize : Int) :
    Keeps relation (enterWindow context positionInQuery windowSize) := by
  unfold enterWindow
  dsimp only
  split
  · exact keeps_pure _
  next anchor found =>
    split
    next applies =>
      refine keeps_ite (fun _ => ?_) fun later => ?_
      · exact keeps_map (allowed.keeps_setResult _ _ _)
      · exact keeps_map (allowed.pushes applies (.inr (by simp [found])) _ _ _ _ _ _ (Nat.lt_of_not_le later))
    case h_2 | h_3 =>
      apply keeps_bind (keeps_read _)
      intro stored
      split
      · exact keeps_map (allowed.keeps_setResult _ _ _)
      · exact keeps_pure _
    · exact keeps_pure _

end effects

theorem FutureFunction.keeps_call (allowed : AllowsEffects relation anchorless context) (function : FutureFunction)
    (positionInQuery : Nat) (condition argument : VariableValue) {resultKey} (key : Keeps relation resultKey) :
    Keeps relation (function.call context positionInQuery condition argument resultKey) := by
  unfold call
  dsimp only
  split
  · exact keeps_pure _
  next anchor found =>
    have anchored : anchorless = true ∨ context.anchorElement.isSome := .inr (by simp [found])
    refine keeps_found (keeps_pure _) fun holds => ?_
    cases function with
    | trueLater => exact keeps_found (keeps_pure _) fun _ => keeps_callTrueLater allowed anchored _ _ _
    | trueUntil => exact keeps_found (keeps_pure _) fun _ => keeps_callTrueUntil allowed anchored _ _ _
    | trueFor =>
      refine keeps_found (keeps_pure _) fun duration => ?_
      exact keeps_bind (keeps_mapError _ key) fun _ => keeps_callTrueFor allowed anchored _ _ _ _ _
    | trueNowOrLater =>
      refine keeps_ite (fun _ => keeps_pure _) fun _ => ?_
      exact keeps_found (keeps_pure _) fun _ => keeps_callTrueLater allowed anchored _ _ _

/-! ### Expressions -/

/-- Grouping keys keep the relation, in the contexts that have those of the given one. -/
def KeepsGrouping (relation : EngineState → EngineState → Prop) (anchorless : Bool)
    (context : ExpressionEvaluationContext) (grouping : ExpressionEvaluationContext → Eval (List VariableValue)) : Prop :=
  ∀ other, other.outputGroupingKey = context.outputGroupingKey → AllowsEffects relation anchorless other →
    Keeps relation (grouping other)

theorem keeps_resolveContextResultKey (keys : KeepsGrouping relation anchorless context grouping)
    (allowed : AllowsEffects relation anchorless context) :
    Keeps relation (resolveContextResultKey grouping context) := by
  unfold resolveContextResultKey
  split
  · exact keeps_map (keys _ rfl allowed.setSideEffects_snapshot)
  · exact keeps_pure _

theorem needsAnchor_and {one two : Bool} (fits : anchorless = true ∨ (one && two) = true) :
    (anchorless = true ∨ one = true) ∧ (anchorless = true ∨ two = true) := by
  rw [Bool.and_eq_true] at fits
  exact or_and_left.mp fits

mutual

theorem keeps_evaluateWith {context} (keys : KeepsGrouping relation anchorless context grouping)
    (allowed : AllowsEffects relation anchorless context) (expression : Expression)
    (fits : anchorless = true ∨ expression.needsAnchor = true) :
    Keeps relation (evaluateWith grouping context expression) := by
  cases expression with
  | pureForm name value =>
    rw [evaluateWith]
    exact keeps_ofExcept _
  | call name operation args =>
    rw [Expression.needsAnchor] at fits
    rw [evaluateWith]
    exact keeps_bind (keeps_evaluateAllWith keys allowed args fits) fun _ => keeps_ofExcept _
  | aliased source name =>
    rw [Expression.needsAnchor] at fits
    rw [evaluateWith]
    exact keeps_evaluateWith keys allowed source fits
  | aggregate function arg positionInQuery =>
    rw [Expression.needsAnchor] at fits
    rw [evaluateWith]
    apply keeps_bind (keeps_evaluateWith keys allowed arg fits)
    intro value
    apply keeps_bind (keys context rfl allowed)
    intro groupingKeys
    exact function.keeps_call allowed _ _ _ _
  | future function condition argument positionInQuery =>
    rw [Expression.needsAnchor] at fits
    obtain ⟨one, two⟩ := needsAnchor_and fits
    rw [evaluateWith]
    apply keeps_bind (keeps_evaluateWith keys allowed condition one)
    intro holds
    apply keeps_bind (keeps_evaluateWith keys allowed argument two)
    intro value
    exact function.keeps_call allowed _ _ _ (keeps_resolveContextResultKey keys allowed)
  | futureElement element dueTime positionInQuery =>
    rw [Expression.needsAnchor] at fits
    have anywhere : anchorless = true := fits.resolve_right Bool.false_ne_true
    rw [evaluateWith]
    apply keeps_bind (keeps_evaluateWith keys allowed element (.inl anywhere))
    intro value
    apply keeps_bind (keeps_evaluateWith keys allowed dueTime (.inl anywhere))
    intro argument
    exact keeps_callFutureElement allowed anywhere _ _ _
  | slidingWindow window expression positionInQuery =>
    rw [Expression.needsAnchor] at fits
    obtain ⟨one, two⟩ := needsAnchor_and fits
    rw [evaluateWith]
    apply keeps_bind (keeps_mapError _ (keeps_evaluateWith keys allowed window one))
    intro value
    refine keeps_found (keeps_pure _) fun size => ?_
    apply keeps_bind_of_returns (keeps_enterWindow allowed _ _) (returns_enterWindow _ _ _)
    intro inner which
    rcases which with rfl | rfl
    · exact keeps_mapError _ (keeps_evaluateWith keys allowed expression two)
    · have snapshotKeys : KeepsGrouping relation anchorless (context.setSideEffects .snapshot) grouping := keys
      exact keeps_mapError _ (keeps_evaluateWith snapshotKeys allowed.setSideEffects_snapshot expression two)

theorem keeps_evaluateAllWith {context} (keys : KeepsGrouping relation anchorless context grouping)
    (allowed : AllowsEffects relation anchorless context) (expressions : List Expression)
    (fits : anchorless = true ∨ Expression.allNeedAnchor expressions = true) :
    Keeps relation (evaluateAllWith grouping context expressions) := by
  cases expressions with
  | nil =>
    rw [evaluateAllWith]
    exact keeps_pure _
  | cons expression expressions =>
    rw [Expression.allNeedAnchor] at fits
    obtain ⟨one, two⟩ := needsAnchor_and fits
    rw [evaluateAllWith]
    apply keeps_bind (keeps_evaluateWith keys allowed expression one)
    intro value
    exact keeps_map (keeps_evaluateAllWith keys allowed expressions two)

end

theorem keeps_evaluateExpression (allowed : AllowsEffects relation anchorless context) (expression : Expression)
    (fits : anchorless = true ∨ expression.needsAnchor = true ∧ context.outputGroupingKey = none) :
    Keeps relation (evaluateExpression context expression) := by
  refine keeps_evaluateWith ?_ allowed expression (fits.imp_right And.left)
  intro other same within
  refine keeps_evaluateAllWith (fun _ _ _ => keeps_ofExcept _) within _ (fits.imp_right fun slot => ?_)
  rw [same, slot.2]
  rfl

theorem keeps_passesFilters (allowed : AllowsEffects relation anchorless context) (filters : List Expression)
    (fits : anchorless = true ∨ Expression.allNeedAnchor filters = true ∧ context.outputGroupingKey = none) :
    Keeps relation (passesFilters context filters) := by
  induction filters with
  | nil => exact keeps_pure _
  | cons filter filters ih =>
    rw [Expression.allNeedAnchor] at fits
    rw [passesFilters]
    have first : anchorless = true ∨ filter.needsAnchor = true ∧ context.outputGroupingKey = none := by grind
    have rest : anchorless = true ∨ Expression.allNeedAnchor filters = true ∧ context.outputGroupingKey = none := by
      grind
    apply keeps_bind (keeps_bind (keeps_evaluateExpression allowed filter first) fun _ => keeps_pure _)
    intro goesOn
    exact keeps_ite (fun _ => ih rest) fun _ => keeps_pure _

section

variable (allowed : AllowsEffects relation true context)
include allowed

/-! ### Parts -/

theorem keeps_projectFields (expressions : List Expression) (row : QueryVariables) :
    Keeps relation (projectFields context expressions row) := by
  induction expressions generalizing row with
  | nil => exact keeps_pure _
  | cons expression expressions ih =>
    rw [projectFields]
    apply keeps_bind (keeps_bind (keeps_evaluateExpression allowed expression (.inl rfl)) fun _ => keeps_pure _)
    intro field
    exact ih _

theorem keeps_project (projection : ProjectionClause) : Keeps relation (project context projection) := by
  cases projection with
  | item expressions => exact keeps_map (keeps_projectFields allowed _ _)
  | groupBy grouping aggregates =>
    apply keeps_bind (keeps_projectFields allowed _ _)
    intro groups
    exact keeps_map (keeps_projectFields (allowed.setOutputGroupingKey _) _ _)

end

section change

variable (allowed : AllowsChange relation changeContext)

include allowed

section

variable (part : QueryPart)

theorem keeps_aggregateSnapshot (queryVariables : QueryVariables) :
    Keeps relation (aggregateSnapshot part changeContext queryVariables) := by
  unfold aggregateSnapshot
  split
  · exact keeps_map (keeps_project (allowed.fromBeforeChange _ (by decide) _) _)
  · exact keeps_pure _

theorem keeps_reconcileCrossingAggregate (groupingKeys : List String) (beforeIn beforeOut : Option QueryVariables)
    (afterOut : QueryVariables) (snapshot : Option QueryVariables) :
    Keeps relation
      (reconcileCrossingAggregate part groupingKeys beforeIn beforeOut afterOut snapshot changeContext) := by
  unfold reconcileCrossingAggregate
  split
  next beforeIn beforeOut =>
    refine keeps_ite (fun _ => keeps_pure _) fun _ => ?_
    have snapshots : AllowsEffects relation true
        ((ExpressionEvaluationContext.new beforeIn changeContext.beforeClock).setSideEffects .snapshot) :=
      allowed.of_not_apply (by nofun)
    exact keeps_map (keeps_project snapshots _)
  · exact keeps_pure _

theorem keeps_evaluateAdding (after : QueryVariables) : Keeps relation (evaluateAdding part changeContext after) := by
  have applies := allowed.fromAfterChange after part
  apply keeps_bind (keeps_aggregateSnapshot allowed part after)
  intro aggSnapshot
  apply keeps_bind (keeps_passesFilters applies _ (.inl rfl))
  intro fits
  refine keeps_when fun _ => ?_
  apply keeps_bind (keeps_project applies _)
  intro projected
  obtain ⟨data, groupingKeys⟩ := projected
  cases part.returnClause <;> exact keeps_pure _

theorem keeps_evaluateRemoving (before : QueryVariables) :
    Keeps relation (evaluateRemoving part changeContext before) := by
  have reverts : AllowsEffects relation true (.fromBeforeChange before .revertForDelete changeContext part) :=
    allowed.fromBeforeChange before (by decide) part
  apply keeps_bind (keeps_aggregateSnapshot allowed part before)
  intro aggBefore
  apply keeps_bind (keeps_passesFilters reverts _ (.inl rfl))
  intro fits
  refine keeps_when fun _ => ?_
  apply keeps_bind (keeps_project reverts _)
  intro projected
  obtain ⟨data, groupingKeys⟩ := projected
  cases part.returnClause <;> exact keeps_pure _

theorem keeps_takeOutBefore (before : QueryVariables) : Keeps relation (takeOutBefore part changeContext before) := by
  have snapshots : AllowsEffects relation true (.fromBeforeChange before .snapshot changeContext part) :=
    allowed.fromBeforeChange before (by decide) part
  have reverts : AllowsEffects relation true (.fromBeforeChange before .revertForUpdate changeContext part) :=
    allowed.fromBeforeChange before (by decide) part
  apply keeps_bind (keeps_passesFilters snapshots _ (.inl rfl))
  intro fits
  refine keeps_when fun _ => ?_
  apply keeps_bind (keeps_project snapshots _)
  intro projected
  exact keeps_map (keeps_project reverts _)

theorem keeps_evaluateUpdating (before after : QueryVariables) :
    Keeps relation (evaluateUpdating part changeContext before after) := by
  have applies := allowed.fromAfterChange after part
  refine keeps_ite (fun _ => keeps_pure _) fun _ => ?_
  apply keeps_bind (keeps_aggregateSnapshot allowed part after)
  intro aggSnapshot
  apply keeps_bind (keeps_takeOutBefore allowed part before)
  intro taken
  apply keeps_bind (keeps_passesFilters applies _ (.inl rfl))
  intro fits
  refine keeps_ite (fun _ => ?_) fun _ => ?_
  · apply keeps_bind (keeps_project applies _)
    intro projected
    obtain ⟨afterOut, groupingKeys⟩ := projected
    dsimp only [updatingPassed]
    split
    · exact keeps_reconcileCrossingAggregate allowed _ _ _ _ _ _
    · exact keeps_pure _
    · exact keeps_pure _
  · unfold updatingFiltered
    split
    · exact keeps_reconcileCrossingAggregate allowed _ _ _ _ _ _
    · exact keeps_pure _
    · exact keeps_pure _

end

theorem keeps_shouldRevert (partNum : Nat) (resultKey : ResultKey) (groupingKeys : List String)
    (before : Option QueryVariables) (defaultBefore : Bool) :
    Keeps relation (shouldRevert partNum resultKey groupingKeys before defaultBefore) := by
  unfold shouldRevert
  split
  · exact keeps_pure _
  · refine keeps_when fun _ => ?_
    apply keeps_bind (keeps_read _)
    intro stored
    split
    · exact keeps_pure _
    · exact keeps_map ⟨fun state => allowed.results state _⟩
    · exact keeps_pure _

theorem keeps_shouldApply (partNum : Nat) (resultKey : ResultKey) (afterHash : Signature) (defaultAfter : Bool) :
    Keeps relation (shouldApply partNum resultKey afterHash defaultAfter) := by
  unfold shouldApply
  refine keeps_when fun _ => ?_
  apply keeps_bind (keeps_read _)
  intro stored
  split
  · refine keeps_when fun _ => ?_
    exact keeps_map ⟨fun state => allowed.results state _⟩
  · exact keeps_pure _

theorem keeps_revertBefore (part : QueryPart) (before : Option QueryVariables) (reverts : Bool) :
    Keeps relation (revertBefore part changeContext before reverts) := by
  unfold revertBefore
  split
  · refine keeps_when fun _ => ?_
    exact keeps_map (keeps_project (allowed.fromBeforeChange _ (by decide) _) _)
  · exact keeps_pure _

theorem keeps_evaluateAggregation (part : QueryPart) (partNum : Nat) (before : Option QueryVariables)
    (after : QueryVariables) (groupingKeys : List String) (defaultBefore defaultAfter : Bool) :
    Keeps relation
      (evaluateAggregation part partNum changeContext before after groupingKeys defaultBefore defaultAfter) := by
  refine keeps_ite (fun _ => keeps_pure _) fun _ => ?_
  apply keeps_bind (keeps_shouldRevert allowed _ _ _ _ _)
  intro reverts
  apply keeps_bind (keeps_shouldApply allowed _ _ _ _)
  intro applies
  have afterAllowed := allowed.aggregationAfterContext part after applies
  apply keeps_bind (keeps_ite (fun _ => ⟨fun state => allowed.results state _⟩) fun _ => keeps_pure _)
  intro _
  apply keeps_bind (keeps_aggregateSnapshot allowed part after)
  intro aggSnapshot
  apply keeps_bind
  · unfold projectBefore
    split
    · exact keeps_map (keeps_project (allowed.fromBeforeChange _ (by decide) _) _)
    · exact keeps_pure _
  intro nextBefore
  apply keeps_bind
  · unfold fitsBefore
    split
    · exact keeps_passesFilters (allowed.fromBeforeChange _ (by decide) _) _ (.inl rfl)
    · exact keeps_pure _
  intro beforeFits
  apply keeps_bind (keeps_revertBefore allowed part before _)
  intro reverted
  apply keeps_bind (keeps_passesFilters afterAllowed _ (.inl rfl))
  intro fits
  refine keeps_ite (fun _ => ?_) fun _ => ?_
  · apply keeps_bind (keeps_project afterAllowed _)
    intro projected
    obtain ⟨nextAfter, nextAfterGroupingKeys⟩ := projected
    dsimp only [aggregationPassed]
    split
    · exact keeps_reconcileCrossingAggregate allowed _ _ _ _ _ _
    · exact keeps_pure _
  · unfold aggregationFiltered
    split
    · exact keeps_reconcileCrossingAggregate allowed _ _ _ _ _ _
    · exact keeps_pure _

theorem keeps_evaluatePart (partContext : QueryPartEvaluationContext) (partNum : Nat) (part : QueryPart) :
    Keeps relation (evaluatePart partContext partNum part changeContext) := by
  cases partContext with
  | adding after _ => exact keeps_evaluateAdding allowed part after
  | updating before after _ => exact keeps_evaluateUpdating allowed part before after
  | removing before _ => exact keeps_evaluateRemoving allowed part before
  | aggregation before after groupingKeys defaultBefore defaultAfter _ =>
    exact keeps_evaluateAggregation allowed part partNum before after groupingKeys defaultBefore defaultAfter
  | noop => exact keeps_pure _

end change

/-! ### The parts of a query and a whole change -/

theorem keeps_evaluateContexts (partNum : Nat) (part : QueryPart)
    (contexts : List (QueryPartEvaluationContext × ChangeContext))
    (allowed : ∀ entry ∈ contexts, AllowsChange relation entry.2) :
    Keeps relation (evaluateContexts order partNum part contexts) := by
  induction contexts with
  | nil => exact keeps_pure _
  | cons entry contexts ih =>
    rw [evaluateContexts]
    apply keeps_bind (keeps_evaluatePart (allowed entry (by simp)) _ _ _)
    intro newContexts
    exact keeps_map (ih fun other member => allowed other (by simp [member]))

theorem keeps_evaluateParts (parts : List QueryPart) (partNum : Nat)
    (contexts : List (QueryPartEvaluationContext × ChangeContext))
    (allowed : ∀ entry ∈ contexts, AllowsChange relation entry.2) :
    Keeps relation (evaluateParts order parts partNum contexts) := by
  induction parts generalizing partNum contexts with
  | nil => exact keeps_pure _
  | cons part parts ih =>
    rw [evaluateParts]
    apply keeps_bind_of_returns (keeps_evaluateContexts _ _ _ _ allowed) (returns_evaluateContexts _ _ _ _ allowed)
    intro passed kept
    exact ih _ passed kept

theorem keeps_projectSolutions (query : ContinuousQuery) (order : IterationOrder) (contexts : Signature → ChangeContext)
    (allowed : ∀ signature, AllowsChange relation (contexts signature))
    (changes : List (Signature × QueryPartEvaluationContext)) (results : ChangeResults) :
    Keeps relation (query.projectSolutions order contexts changes results) := by
  induction changes generalizing results with
  | nil => exact keeps_pure _
  | cons change changes ih =>
    obtain ⟨signature, partContext⟩ := change
    have one : Keeps relation
        (projectSolution query.query (order.within [changes.length]) partContext (contexts signature)) := by
      refine keeps_bind (keeps_evaluateParts _ _ _ _ ?_) fun _ => keeps_pure _
      intro entry member
      rw [List.mem_singleton.mp member]
      exact allowed signature
    rw [ContinuousQuery.projectSolutions]
    exact keeps_bind (keeps_skipDivideByZero one) fun _ => ih _

/-- No pattern of the query calls `drasi.future`. -/
def ContinuousQuery.PatternsNeedAnchor (query : ContinuousQuery) : Prop :=
  ∀ slot ∈ query.matchPath.slots, Expression.allNeedAnchor slot.spec.predicates = true

section

variable (results : ∀ state resultIndex, relation state { state with resultIndex })
include results

theorem keeps_getSlotsWithAffinity
    (removes : ∀ positionInQuery groupSignature, Keeps relation (removeFutures positionInQuery groupSignature))
    (baseVariables : QueryVariables) (anchorElement : Element) (clock : InstantQueryClock) (slots : List MatchPathSlot)
    (plain : ∀ slot ∈ slots, Expression.allNeedAnchor slot.spec.predicates = true) (slotNum : Nat) :
    Keeps relation (getSlotsWithAffinity baseVariables anchorElement clock slots slotNum) := by
  induction slots generalizing slotNum with
  | nil => exact keeps_pure _
  | cons slot slots ih =>
    rw [getSlotsWithAffinity]
    -- a slot is matched without an anchor element, so only `drasi.future` could ask for futures there
    have unanchored : AllowsEffects relation false
        (.fromSlot (slot.spec.slotVariables baseVariables anchorElement) clock anchorElement.getReference) :=
      ⟨results, removes, fun _ impossible => by simp [ExpressionEvaluationContext.fromSlot] at impossible⟩
    have here := keeps_passesFilters unanchored _ (.inr ⟨plain slot (by simp), rfl⟩)
    apply keeps_bind (keeps_ite (fun _ => here) fun _ => keeps_pure _)
    intro fits
    exact keeps_map (ih (fun other member => plain other (by simp [member])) _)

/-- What processing a future can do: it leaves the element index alone and asks for later futures only. -/
theorem keeps_processFuture {query : ContinuousQuery} (plain : query.PatternsNeedAnchor)
    (order : IterationOrder) (futureRef : FutureElementRef)
    (removes : ∀ positionInQuery groupSignature, Keeps relation (removeFutures positionInQuery groupSignature))
    (pushes : ∀ pushType positionInQuery groupSignature elementRef originalTime dueTime,
      futureRef.dueTime < dueTime →
      Keeps relation (pushFuture pushType positionInQuery groupSignature elementRef originalTime dueTime)) :
    Keeps relation (query.processChangesInner order [.future futureRef]) := by
  have solutions : ∀ order baseVariables element clock,
      Keeps relation (query.elementSolutions order baseVariables element clock false) := by
    intro order baseVariables element clock
    apply keeps_bind (keeps_getSlotsWithAffinity results removes _ _ _ _ plain _)
    intro affinitySlots
    exact keeps_map (keeps_read _)
  have builds : Keeps relation (query.buildSolutionChanges ((order.within [0]).within [0]) .empty (.future futureRef)
      (.fromSourceChange (.future futureRef))) := by
    apply keeps_bind (keeps_read _)
    intro found
    cases found with
    | none => exact keeps_pure _
    | some element =>
      refine keeps_ite (fun _ => keeps_pure _) fun _ => ?_
      apply keeps_bind (solutions _ _ _ _)
      intro before
      exact keeps_map (solutions _ _ _ _)
  have processes : Keeps relation (query.processChange (order.within [0]) (.future futureRef)) := by
    apply keeps_bind builds
    intro solutionChanges
    cases solutionChanges with
    | none => exact keeps_pure _
    | some solutionChanges =>
      refine keeps_bind (keeps_projectSolutions _ _ _ (fun signature => ?_) _ _) fun _ => keeps_pure _
      exact ⟨results, removes, pushes⟩
  apply keeps_bind processes
  intro processed
  cases processed with
  | none => exact keeps_pure _
  | some processed => exact keeps_map (keeps_pure _)

end

end

end DrasiCore
