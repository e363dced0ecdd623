import DrasiCore.OutputState
import DrasiCore.Proofs.PureExpressions

/-! What one change does to the live results of a query with one pure, projecting part: every changed solution acts on
the row under its own signature. -/

namespace DrasiCore

open Library Eval IterationOrder List

variable {part : QueryPart} {items : List Expression}
variable {changeContext : ChangeContext} {partContext : QueryPartEvaluationContext}

/-- The output rows before and after a changed solution; both missing where the engine passes nothing on. -/
def outputSides (part : QueryPart) (items : List Expression) :
    QueryPartEvaluationContext → Except EvaluationError (Option QueryVariables × Option QueryVariables)
  | .adding after _ => (outputRow part items after).map (none, ·)
  | .removing before _ => (outputRow part items before).map (·, none)
  | .updating before after _ =>
    if queryVariablesUnchanged before after then .ok (none, none)
    else (outputRow part items before).bind fun before => (outputRow part items after).map (before, ·)
  | _ => .ok (none, none)

/-- The results of a changed solution under its signature. -/
def rowResults (rowSignature : Signature) :
    Option QueryVariables × Option QueryVariables → List QueryPartEvaluationContext
  | (some before, some after) => [.updating before after rowSignature]
  | (some before, none) => [.removing before rowSignature]
  | (none, some after) => [.adding after rowSignature]
  | (none, none) => []

theorem evaluatePart_eq (plain : PureItems part items) (source : changeContext.isFutureReprocess = false)
    (single : partContext.isAggregation = false) (partNum : Nat) :
    evaluatePart partContext partNum part changeContext =
      ofExcept ((outputSides part items partContext).map fun sides => [rowChange sides.1 sides.2]) := by
  cases partContext with
  | adding after _ =>
    refine (plain.evaluateAdding_eq after).trans ?_
    rw [outputSides]
    cases outputRow part items after <;> rfl
  | removing before _ =>
    refine (plain.evaluateRemoving_eq before).trans ?_
    rw [outputSides]
    cases outputRow part items before <;> rfl
  | updating before after _ =>
    refine (plain.evaluateUpdating_eq before after).trans ?_
    rw [source, Bool.not_false, Bool.and_true]
    rw [outputSides]
    split
    · rfl
    · cases outputRow part items before with
      | error error => rfl
      | ok row =>
        change ofExcept ((outputRow part items after).map _) = ofExcept (((outputRow part items after).map _).map _)
        cases outputRow part items after <;> rfl
  | aggregation before after groupingKeys defaultBefore defaultAfter _ => cases single
  | noop => rfl

theorem passOn_single (order : IterationOrder) (changeContext : ChangeContext)
    (single : partContext.isAggregation = false) :
    passOn order changeContext [partContext] = if partContext = .noop then [] else [(partContext, changeContext)] := by
  have collapsed : [partContext].foldl CollapsedAggregationResults.insert ∅ = ∅ := by
    cases partContext with
    | aggregation before after groupingKeys defaultBefore defaultAfter _ => cases single
    | _ => rfl
  rw [passOn, collapsed, CollapsedAggregationResults.intoVecWithContext, AList.empty_entries,
    arrange_nil]
  split
  next same => simp [same]
  next other => simp [single, other]

theorem passOn_rowChange (order : IterationOrder) {rowSignature}
    (before : changeContext.beforeGroupingHash = rowSignature) (after : changeContext.afterGroupingHash = rowSignature)
    (sides : Option QueryVariables × Option QueryVariables) :
    (passOn order changeContext [rowChange sides.1 sides.2]).map (fun entry => entry.1.stampRowSignature entry.2) =
      rowResults rowSignature sides := by
  obtain ⟨first, second⟩ := sides
  cases first <;> cases second <;> rw [passOn_single _ _ rfl] <;>
    simp [rowChange, rowResults, QueryPartEvaluationContext.stampRowSignature, before, after]

theorem projectSolution_eq (plain : PureItems part items) (source : changeContext.isFutureReprocess = false)
    {rowSignature} (before : changeContext.beforeGroupingHash = rowSignature)
    (after : changeContext.afterGroupingHash = rowSignature) (single : partContext.isAggregation = false)
    (order : IterationOrder) :
    projectSolution ⟨[part]⟩ order partContext changeContext =
      ofExcept ((outputSides part items partContext).map (rowResults rowSignature)) := by
  unfold projectSolution
  rw [evaluateParts, evaluateContexts, evaluatePart_eq plain source single]
  cases outputSides part items partContext with
  | error error => rfl
  | ok sides =>
    have passed := passOn_rowChange ((order.within [1]).within [0]) before after sides
    change ofExcept (.ok ((passOn _ changeContext _ ++ []).map _)) = ofExcept (.ok (rowResults rowSignature sides))
    rw [append_nil]
    exact congrArg (fun results => ofExcept (.ok results)) passed

/-! ### All solutions of a change -/

def keptResults (rowSignature : Signature) (sides : Option QueryVariables × Option QueryVariables) :
    List QueryPartEvaluationContext :=
  match sides with
  | (some before, some after) =>
    if queryVariablesUnchanged before after then [] else [.updating before after rowSignature]
  | sides => rowResults rowSignature sides

/-- The results of an entry of the changed solutions; none where its evaluation fails. -/
def entryResults (part : QueryPart) (items : List Expression) (entry : Signature × QueryPartEvaluationContext) :
    List QueryPartEvaluationContext :=
  match outputSides part items entry.2 with
  | .ok sides => keptResults entry.1 sides
  | .error _ => []

theorem collect_rowResults (results : ChangeResults) (rowSignature : Signature)
    (sides : Option QueryVariables × Option QueryVariables) :
    (rowResults rowSignature sides).foldl ChangeResults.collect results =
      { results with result := results.result ++ keptResults rowSignature sides } := by
  obtain ⟨first, second⟩ := sides
  cases first with
  | none => cases second <;> simp [rowResults, keptResults, ChangeResults.collect]
  | some before =>
    cases second with
    | none => simp [rowResults, keptResults, ChangeResults.collect]
    | some after =>
      simp only [rowResults, keptResults, foldl_cons, foldl_nil, ChangeResults.collect]
      split
      · simp
      · rfl

/-- Solutions are projected independently. -/
theorem projectSolutions_eq (plain : PureItems part items) {query : ContinuousQuery} (only : query.query = ⟨[part]⟩)
    {changeContext} (source : ∀ signature, (changeContext signature).isFutureReprocess = false)
    (before : ∀ signature, (changeContext signature).beforeGroupingHash = signature)
    (after : ∀ signature, (changeContext signature).afterGroupingHash = signature) (order : IterationOrder)
    (changes : List (Signature × QueryPartEvaluationContext)) (single : ∀ entry ∈ changes, entry.2.isAggregation = false)
    (succeeds : ∀ entry ∈ changes, ∃ sides, outputSides part items entry.2 = .ok sides)
    (results : ChangeResults) :
    query.projectSolutions order changeContext changes results =
      pure { results with result := results.result ++ changes.flatMap (entryResults part items) } := by
  induction changes generalizing results with
  | nil => simp [ContinuousQuery.projectSolutions]
  | cons entry changes ih =>
    obtain ⟨signature, partContext⟩ := entry
    have rest := ih (fun other member => single other (by simp [member]))
      (fun other member => succeeds other (by simp [member]))
    obtain ⟨sides, computed⟩ := succeeds (signature, partContext) (by simp)
    rw [ContinuousQuery.projectSolutions, only,
      projectSolution_eq plain (source signature) (before signature) (after signature)
        (single (signature, partContext) (by simp)), flatMap_cons, entryResults, computed]
    change query.projectSolutions order changeContext changes ((rowResults signature sides).foldl _ results) = _
    rw [collect_rowResults, rest]
    simp

/-! ### The live results -/

/-- What a changed solution does to the live row under its signature. -/
def rowEffect (outcome : Except EvaluationError (Option QueryVariables × Option QueryVariables))
    (live : Option QueryVariables) : Option QueryVariables :=
  match outcome with
  | .ok (some before, some after) => if queryVariablesUnchanged before after then live else some after
  | .ok (some _, none) => none
  | .ok (none, some after) => some after
  | .ok (none, none) => live
  | .error _ => live

variable (results : LiveResults)

theorem applyDiffs_append (first second : List QueryPartEvaluationContext) :
    results.applyDiffs (evaluationContextsToDiffs (first ++ second)) =
      (results.applyDiffs (evaluationContextsToDiffs first)).applyDiffs (evaluationContextsToDiffs second) := by
  simp [evaluationContextsToDiffs, LiveResults.applyDiffs]

theorem applyDiffs_entryResults (entry : Signature × QueryPartEvaluationContext) :
    results.applyDiffs (evaluationContextsToDiffs (entryResults part items entry)) =
      Function.update results entry.1 (rowEffect (outputSides part items entry.2) (results entry.1)) := by
  unfold entryResults
  cases outputSides part items entry.2 with
  | error error => exact (Function.update_eq_self _ _).symm
  | ok sides =>
    obtain ⟨first, second⟩ := sides
    cases first with
    | none =>
      cases second with
      | none => exact (Function.update_eq_self _ _).symm
      | some after => rfl
    | some before =>
      cases second with
      | none => rfl
      | some after =>
        dsimp only [keptResults, rowEffect]
        split
        · exact (Function.update_eq_self _ _).symm
        · rfl

/-- Every row is changed by the solution with its signature, if there is one, and by no other. -/
theorem applyDiffs_changes (changes : List (Signature × QueryPartEvaluationContext))
    (distinct : (changes.map (·.1)).Nodup) (signature : Signature) :
    results.applyDiffs (evaluationContextsToDiffs (changes.flatMap (entryResults part items))) signature =
      (changes.lookup signature).elim (results signature) fun partContext =>
        rowEffect (outputSides part items partContext) (results signature) := by
  induction changes generalizing results with
  | nil => rfl
  | cons entry changes ih =>
    obtain ⟨absent, rest⟩ := nodup_cons.mp distinct
    rw [flatMap_cons, applyDiffs_append, ih _ rest, applyDiffs_entryResults]
    by_cases same : signature = entry.1
    · subst same
      have missing : changes.lookup entry.1 = none := by
        apply lookup_eq_none_iff.mpr
        intro other member
        have different : entry.1 ≠ other.1 := by
          intro equal
          exact absent (mem_map.mpr ⟨other, member, equal.symm⟩)
        simpa using different
      rw [missing, lookup_cons]
      simp
    · have different : (signature == entry.1) = false := by simpa using same
      rw [lookup_cons, different, Function.update_of_ne same]

/-! ### Changed solutions by signature -/

/-- The variables of the solutions with a signature before and after a change, as the context passed to the part. -/
def sidesContext (row : MatchPathSolution → QueryVariables) :
    Option MatchPathSolution → Option MatchPathSolution → Option QueryPartEvaluationContext
  | some before, some after => some (.updating (row before) (row after) .zero)
  | some before, none => some (.removing (row before) .zero)
  | none, some after => some (.adding (row after) .zero)
  | none, none => none

section

variable (path : MatchPath) (order : IterationOrder) (baseVariables : QueryVariables) (before after : Solutions)

theorem mem_solutionChanges {entry} :
    entry ∈ solutionChanges path order baseVariables before after ↔
      sidesContext (·.intoQueryVariables path baseVariables) (before.lookup entry.1) (after.lookup entry.1) =
        some entry.2 := by
  obtain ⟨signature, partContext⟩ := entry
  have listed : ∀ (solutions : Solutions) (solution : MatchPathSolution),
      ⟨signature, solution⟩ ∈ solutions.entries ↔ solutions.lookup signature = some solution :=
    fun solutions solution => AList.mem_lookup_iff.symm
  constructor
  · intro member
    rcases mem_append.mp member with old | fresh
    · obtain ⟨found, inside, same⟩ := mem_map.mp old
      rw [mem_arrange] at inside
      cases same
      rw [AList.mem_lookup_iff.mpr inside]
      cases after.lookup found.1 <;> rfl
    · obtain ⟨found, inside, same⟩ := mem_map.mp fresh
      obtain ⟨stored, absent⟩ := mem_filter.mp inside
      rw [mem_arrange] at stored
      cases same
      rw [AList.mem_lookup_iff.mpr stored, Option.isNone_iff_eq_none.mp absent]
      rfl
  · intro sides
    apply mem_append.mpr
    dsimp only at sides
    cases old : before.lookup signature with
    | some solution =>
      left
      refine mem_map.mpr ⟨⟨signature, solution⟩, ?_, ?_⟩
      · rw [mem_arrange]
        exact (listed before solution).mpr old
      · rw [old] at sides
        cases new : after.lookup signature <;> rw [new] at sides <;> cases sides <;> rfl
    | none =>
      right
      rw [old] at sides
      cases new : after.lookup signature with
      | none => rw [new] at sides; cases sides
      | some solution =>
        rw [new] at sides
        cases sides
        refine mem_map.mpr ⟨⟨signature, solution⟩, mem_filter.mpr ⟨?_, ?_⟩, rfl⟩
        · rw [mem_arrange]
          exact (listed after solution).mpr new
        · simp [old]

theorem solutionChanges_distinct : ((solutionChanges path order baseVariables before after).map (·.1)).Nodup := by
  have keys : ∀ (solutions : Solutions) site, ((order.arrange site solutions.entries).map (·.1)).Nodup := by
    intro solutions site
    exact ((order.perm site solutions.entries).map _).nodup_iff.mpr solutions.nodupKeys
  unfold solutionChanges
  rw [map_append, map_map, map_map, nodup_append]
  refine ⟨keys before [0], (keys after [1]).sublist (filter_sublist.map _), ?_⟩
  intro signature old other fresh same
  obtain ⟨found, inside, rfl⟩ := mem_map.mp old
  obtain ⟨added, kept, equal⟩ := mem_map.mp fresh
  rw [mem_arrange] at inside
  have absent := (mem_filter.mp kept).2
  have key : added.1 = found.1 := equal.trans same.symm
  rw [key, AList.mem_lookup_iff.mpr inside] at absent
  cases absent

theorem applyDiffs_solutionChanges (results : LiveResults) (signature : Signature) :
    results.applyDiffs (evaluationContextsToDiffs
        ((solutionChanges path order baseVariables before after).flatMap (entryResults part items))) signature =
      (sidesContext (·.intoQueryVariables path baseVariables) (before.lookup signature) (after.lookup signature)).elim
        (results signature) fun partContext => rowEffect (outputSides part items partContext) (results signature) := by
  have distinct := solutionChanges_distinct path order baseVariables before after
  rw [applyDiffs_changes _ _ distinct]
  congr 1
  apply Option.ext
  intro partContext
  have listed : (solutionChanges path order baseVariables before after).lookup signature = some partContext ↔
      (signature, partContext) ∈ solutionChanges path order baseVariables before after :=
    ⟨mem_of_lookup_eq_some, lookup_eq_some_of_mem distinct⟩
  exact listed.trans (mem_solutionChanges path order baseVariables before after)

end

end DrasiCore
