import DrasiCore.Proofs.EvalRules

/-! Expressions without aggregates and future functions. They read the variables of their context and nothing else, so
a part made of them is a function from rows to rows. -/

namespace DrasiCore

open Library Eval Expression QueryPartEvaluationContext

namespace Expression

mutual

/-- Neither an aggregate nor a future function occurs in the expression. -/
def isPure : Expression → Bool
  | .pureForm _ _ => true
  | .call _ _ args => allPure args
  | .aliased source _ => source.isPure
  | .aggregate _ _ _ => false
  | .future _ _ _ _ => false
  | .futureElement _ _ _ => false
  | .slidingWindow _ _ _ => false

def allPure : List Expression → Bool
  | [] => true
  | expression :: expressions => expression.isPure && allPure expressions

end

mutual

def value (queryVariables : QueryVariables) : Expression → Except EvaluationError VariableValue
  | .pureForm _ value => value queryVariables
  | .call _ operation args => (values queryVariables args).bind operation
  | .aliased source _ => source.value queryVariables
  | .aggregate _ _ _ => .error .corruptData
  | .future _ _ _ _ => .error .corruptData
  | .futureElement _ _ _ => .error .corruptData
  | .slidingWindow _ _ _ => .error .corruptData

def values (queryVariables : QueryVariables) : List Expression → Except EvaluationError (List VariableValue)
  | [] => .ok []
  | expression :: expressions =>
    (expression.value queryVariables).bind fun value =>
      (values queryVariables expressions).bind fun values => .ok (value :: values)

end

def scalarProperty (name key : String) : Expression :=
  .pureForm key fun queryVariables =>
    match queryVariables.get? name with
    | some (.element element) =>
      .ok (match element.getProperty key with
        | .bool value => .bool value
        | .float value => .float value
        | .integer value => .integer value
        | .string value => .string value
        | _ => .null)
    | _ => .error (.unknownIdentifier name)

def IsTrue (predicate : Expression) (queryVariables : QueryVariables) : Prop :=
  predicate.value queryVariables = .ok (.bool true)

end Expression

namespace Eval

theorem ofExcept_bind {α β : Type} (first : Except EvaluationError α) (next : α → Except EvaluationError β) :
    (ofExcept first >>= fun value => ofExcept (next value)) = ofExcept (first.bind next) := by
  cases first <;> rfl

theorem ofExcept_ok {α : Type} (value : α) : ofExcept (.ok value) = (pure value : Eval α) := rfl

end Eval

mutual

theorem evaluateWith_of_isPure (grouping : ExpressionEvaluationContext → Eval (List VariableValue))
    (context : ExpressionEvaluationContext) (expression : Expression) (plain : expression.isPure = true) :
    evaluateWith grouping context expression = ofExcept (expression.value context.queryVariables) := by
  cases expression with
  | pureForm name value => rw [evaluateWith, Expression.value]
  | call name operation args =>
    rw [Expression.isPure] at plain
    rw [evaluateWith, Expression.value, evaluateAllWith_of_allPure grouping context args plain, ofExcept_bind]
  | aliased source name =>
    rw [Expression.isPure] at plain
    rw [evaluateWith, Expression.value, evaluateWith_of_isPure grouping context source plain]
  | aggregate function arg positionInQuery =>
    rw [Expression.isPure] at plain
    cases plain
  | future function condition argument positionInQuery =>
    rw [Expression.isPure] at plain
    cases plain
  | futureElement element dueTime positionInQuery =>
    rw [Expression.isPure] at plain
    cases plain
  | slidingWindow window expression positionInQuery =>
    rw [Expression.isPure] at plain
    cases plain

theorem evaluateAllWith_of_allPure (grouping : ExpressionEvaluationContext → Eval (List VariableValue))
    (context : ExpressionEvaluationContext) (expressions : List Expression)
    (plain : allPure expressions = true) :
    evaluateAllWith grouping context expressions = ofExcept (values context.queryVariables expressions) := by
  cases expressions with
  | nil => rw [evaluateAllWith, values, ofExcept_ok]
  | cons expression expressions =>
    rw [allPure, Bool.and_eq_true] at plain
    rw [evaluateAllWith, values, evaluateWith_of_isPure grouping context expression plain.1,
      ← ofExcept_bind]
    congr 1
    funext value
    rw [evaluateAllWith_of_allPure grouping context expressions plain.2, ← ofExcept_bind]
    rfl

end

/-- Whether a row passes the filters; the first that does not hold ends the evaluation. -/
def filtersHold (queryVariables : QueryVariables) : List Expression → Except EvaluationError Bool
  | [] => .ok true
  | filter :: filters =>
    (filter.value queryVariables).bind fun value =>
      if value = .bool true then filtersHold queryVariables filters else .ok false

theorem filtersHold_iff {queryVariables filters} :
    filtersHold queryVariables filters = .ok true ↔ ∀ filter ∈ filters, filter.IsTrue queryVariables := by
  induction filters with
  | nil => exact ⟨fun _ _ => nofun, fun _ => rfl⟩
  | cons filter filters ih =>
    rw [List.forall_mem_cons, ← ih, filtersHold, Expression.IsTrue]
    cases filter.value queryVariables with
    | error error => exact ⟨nofun, fun both => nomatch both.1⟩
    | ok value =>
      change (if value = .bool true then _ else _) = _ ↔ _
      by_cases holds : value = .bool true
      · rw [if_pos holds, holds]
        exact ⟨fun rest => ⟨rfl, rest⟩, fun both => both.2⟩
      · rw [if_neg holds]
        exact ⟨nofun, fun both => absurd (Except.ok.inj both.1) holds⟩

def projectedRow (queryVariables : QueryVariables) :
    List Expression → QueryVariables → Except EvaluationError QueryVariables
  | [], row => .ok row
  | expression :: expressions, row =>
    (expression.value queryVariables).bind fun value =>
      projectedRow queryVariables expressions (row.insert expression.fieldName value)

section

variable (context : ExpressionEvaluationContext)

theorem evaluateExpression_of_isPure {expression} (plain : expression.isPure = true) :
    evaluateExpression context expression = ofExcept (expression.value context.queryVariables) :=
  evaluateWith_of_isPure _ context expression plain

theorem passesFilters_of_pure {filters} (plain : ∀ filter ∈ filters, filter.isPure = true) :
    passesFilters context filters = ofExcept (filtersHold context.queryVariables filters) := by
  induction filters with
  | nil => rfl
  | cons filter filters ih =>
    rw [passesFilters, filtersHold, evaluatePredicate, evaluateExpression_of_isPure context (plain filter (by simp)),
      ← ofExcept_bind]
    have rest := ih fun other member => plain other (by simp [member])
    cases filter.value context.queryVariables with
    | error error => rfl
    | ok value =>
      change (if decide (value = .bool true) = true then _ else _) = Eval.ofExcept (if _ then _ else _)
      by_cases holds : value = .bool true
      · simp only [holds, decide_true, if_true]
        exact rest
      · simp only [holds, decide_false, Bool.false_eq_true, if_false]
        rfl

theorem projectFields_of_pure {expressions} (plain : ∀ expression ∈ expressions, expression.isPure = true)
    (row : QueryVariables) :
    projectFields context expressions row = ofExcept (projectedRow context.queryVariables expressions row) := by
  induction expressions generalizing row with
  | nil => rfl
  | cons expression expressions ih =>
    have rest := ih fun other member => plain other (by simp [member])
    rw [projectFields, projectedRow, evaluateProjectionField,
      evaluateExpression_of_isPure context (plain expression (by simp)), ← ofExcept_bind]
    cases expression.value context.queryVariables with
    | error error => rfl
    | ok value => exact rest _

end

/-! ### Parts that project pure expressions -/

/-- A part that does not aggregate, made of pure expressions. -/
structure PureItems (part : QueryPart) (items : List Expression) : Prop where
  projects : part.returnClause = .item items
  filters : ∀ filter ∈ part.whereClauses, filter.isPure = true
  columns : ∀ expression ∈ items, expression.isPure = true

/-- The row a part makes of its variables; `none` for one the filters leave out. -/
def outputRow (part : QueryPart) (items : List Expression) (queryVariables : QueryVariables) :
    Except EvaluationError (Option QueryVariables) :=
  (filtersHold queryVariables part.whereClauses).bind fun fits =>
    if fits then (projectedRow queryVariables items .empty).map some else .ok none

def rowChange : Option QueryVariables → Option QueryVariables → QueryPartEvaluationContext
  | some before, some after => .updating before after .zero
  | some before, none => .removing before .zero
  | none, some after => .adding after .zero
  | none, none => .noop

namespace PureItems

variable {part : QueryPart} {items : List Expression} {changeContext : ChangeContext}

section

variable (plain : PureItems part items)
include plain

theorem aggregateSnapshot_eq (queryVariables : QueryVariables) :
    aggregateSnapshot part changeContext queryVariables = pure none := by
  rw [aggregateSnapshot, plain.projects]

section

variable (context : ExpressionEvaluationContext)

theorem project_eq :
    project context part.returnClause =
      ofExcept ((projectedRow context.queryVariables items .empty).map fun row => (row, [])) := by
  rw [plain.projects, project, projectFields_of_pure context plain.columns]
  cases projectedRow context.queryVariables items .empty <;> rfl

theorem passesFilters_eq :
    passesFilters context part.whereClauses = ofExcept (filtersHold context.queryVariables part.whereClauses) :=
  passesFilters_of_pure context plain.filters

theorem filter_project_eq {β : Type} (keep : QueryVariables × List String → Eval β) (skip : Eval β) :
    (do
      if ← passesFilters context part.whereClauses then
        let projected ← project context part.returnClause
        keep projected
      else skip) =
    (ofExcept (outputRow part items context.queryVariables) >>= fun row => row.elim skip fun row => keep (row, [])) := by
  rw [plain.passesFilters_eq, outputRow]
  cases filtersHold context.queryVariables part.whereClauses with
  | error error => rfl
  | ok fits =>
    cases fits with
    | false => rfl
    | true =>
      change (project context part.returnClause >>= keep) = _
      rw [plain.project_eq]
      cases projectedRow context.queryVariables items .empty <;> rfl

theorem filter_project_change (change : Option QueryVariables → QueryPartEvaluationContext) :
    (do
      if ← passesFilters context part.whereClauses then
        let projected ← project context part.returnClause
        pure [change (some projected.1)]
      else pure [change none]) =
    ofExcept ((outputRow part items context.queryVariables).map fun row => [change row]) := by
  rw [plain.filter_project_eq]
  cases outputRow part items context.queryVariables with
  | error error => rfl
  | ok row =>
    cases row <;> rfl

end

theorem evaluateAdding_eq (after : QueryVariables) :
    evaluateAdding part changeContext after =
      ofExcept ((outputRow part items after).map fun row => [rowChange none row]) := by
  refine Eq.trans ?_ (plain.filter_project_change (.fromAfterChange after changeContext part) (rowChange none))
  rw [evaluateAdding, plain.aggregateSnapshot_eq, plain.projects]
  rfl

theorem evaluateRemoving_eq (before : QueryVariables) :
    evaluateRemoving part changeContext before =
      ofExcept ((outputRow part items before).map fun row => [rowChange row none]) := by
  refine Eq.trans ?_
    (plain.filter_project_change (.fromBeforeChange before .revertForDelete changeContext part) (rowChange · none))
  rw [evaluateRemoving, plain.aggregateSnapshot_eq, plain.projects]
  rfl

theorem takeOutBefore_eq (before : QueryVariables) :
    takeOutBefore part changeContext before =
      ofExcept ((outputRow part items before).map fun row => row.map fun row => (row, [], row)) := by
  have steps : takeOutBefore part changeContext before =
      (do
        if ← passesFilters (.fromBeforeChange before .snapshot changeContext part) part.whereClauses then
          let projected ← project (.fromBeforeChange before .snapshot changeContext part) part.returnClause
          let reverted ← project (.fromBeforeChange before .revertForUpdate changeContext part) part.returnClause
          pure (some (projected.1, projected.2, reverted.1))
        else pure none) := rfl
  rw [steps, plain.filter_project_eq, plain.project_eq]
  change (ofExcept (outputRow part items before) >>= _) = _
  -- the second projection is that of the same row
  unfold outputRow
  cases filtersHold before part.whereClauses with
  | error error => rfl
  | ok fits =>
    cases fits with
    | false => rfl
    | true =>
      change (ofExcept ((projectedRow before items .empty).map some) >>= _) =
        ofExcept (((projectedRow before items .empty).map some).map _)
      change (_ >>= fun row : Option QueryVariables => row.elim (pure none) fun row =>
        ofExcept ((projectedRow before items .empty).map fun row => (row, [])) >>= _) = _
      cases projectedRow before items .empty <;> rfl

/-- The engine's change of a row that is updated: nothing for a row that is the same, else the change of output. -/
theorem evaluateUpdating_eq (before after : QueryVariables) :
    evaluateUpdating part changeContext before after =
      if queryVariablesUnchanged before after && !changeContext.isFutureReprocess then pure [.noop]
      else ofExcept ((outputRow part items before).bind fun before =>
        (outputRow part items after).map fun after => [rowChange before after]) := by
  unfold evaluateUpdating
  refine if_congr Iff.rfl rfl ?_
  rw [plain.aggregateSnapshot_eq, plain.takeOutBefore_eq]
  change (ofExcept ((outputRow part items before).map _) >>= fun taken => _) = _
  cases outputRow part items before with
  | error error => rfl
  | ok row =>
    have later := plain.filter_project_eq (.fromAfterChange after changeContext part)
      (fun projected => updatingPassed part changeContext before (row.map fun row => (row, [], row)) projected.1
        projected.2 none)
      (updatingFiltered part changeContext before (row.map fun row => (row, [], row)) none)
    refine Eq.trans later ?_
    change (ofExcept (outputRow part items after) >>= _) = ofExcept ((outputRow part items after).map _)
    cases outputRow part items after with
    | error error => rfl
    | ok changed =>
      cases changed with
      | none =>
        change updatingFiltered part changeContext before (row.map _) none = pure [rowChange row none]
        unfold updatingFiltered
        rw [plain.projects]
        cases row <;> rfl
      | some changed =>
        change updatingPassed part changeContext before (row.map _) changed [] none = pure [rowChange row (some changed)]
        unfold updatingPassed
        rw [plain.projects]
        cases row <;> rfl

end

end PureItems

end DrasiCore
