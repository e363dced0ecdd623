import DrasiCore.Proofs.ItemChanges
import DrasiCore.Proofs.SolutionMaintenance

/-! Live results of a projecting query against its matches. After every change the live row under a signature is the
output row of the match with that signature, up to the equality by which the engine tells rows apart. -/

namespace DrasiCore.Proofs

open Library Eval InMemoryElementIndex VariableValue List

variable {path : MatchPath} {error : EvaluationError}

/-! ### The equality of rows -/

theorem queryVariablesUnchanged_iff (one two : QueryVariables) :
    queryVariablesUnchanged one two = true ↔
      canonicalEntries one.entries = canonicalEntries two.entries ∧
        groupingIdentityEntries one.entries = groupingIdentityEntries two.entries := by
  rw [queryVariablesUnchanged, Bool.and_eq_true, eqForGroupbyEntries_iff]
  exact and_congr_left (valueEqEntries_iff _ _)

theorem unchanged_refl (row : QueryVariables) : queryVariablesUnchanged row row = true :=
  (queryVariablesUnchanged_iff row row).mpr ⟨rfl, rfl⟩

theorem unchanged_trans {one two three} (first : queryVariablesUnchanged one two = true)
    (second : queryVariablesUnchanged two three = true) : queryVariablesUnchanged one three = true := by
  rw [queryVariablesUnchanged_iff] at first second ⊢
  exact ⟨first.1.trans second.1, first.2.trans second.2⟩

/-- Both rows are missing, or both are there and the engine does not tell them apart. -/
def RowAgrees : Option QueryVariables → Option QueryVariables → Prop
  | none, none => True
  | some live, some expected => queryVariablesUnchanged live expected = true
  | _, _ => False

theorem RowAgrees.eq_none {live} (agrees : RowAgrees live none) : live = none := by
  cases live with
  | none => rfl
  | some row => cases agrees

/-! ### The variables of a match -/

def assignmentVariables (path : MatchPath) (assignment : Nat → Element) : QueryVariables :=
  path.slots.zipIdx.foldl
    (fun result entry => entry.1.spec.annotationName.elim result fun name =>
      result.insert name (.element (assignment entry.2)))
    .empty

theorem intoQueryVariables_eq {solution assignment} (binds : Binds path solution assignment) :
    solution.intoQueryVariables path .empty = assignmentVariables path assignment := by
  refine foldl_ext _ _ _ fun result entry member => ?_
  have indexed := mem_zipIdx member
  simp only [binds entry.2 (by omega)]
  cases entry.1.spec.annotationName <;> rfl

/-- The output row of some variables; `none` also where evaluation fails. -/
def expectedRow (part : QueryPart) (items : List Expression) (queryVariables : QueryVariables) : Option QueryVariables :=
  match outputRow part items queryVariables with
  | .ok row => row
  | .error _ => none

variable {items : List Expression} {part : QueryPart}

section

variable {live : Option QueryVariables} (rowSignature : Signature)

theorem rowAgrees_adding {after} :
    RowAgrees (rowEffect (outputSides part items (.adding after rowSignature)) none) (expectedRow part items after) := by
  rw [outputSides, expectedRow]
  cases outputRow part items after with
  | error error => trivial
  | ok row =>
    cases row with
    | none => trivial
    | some row => exact unchanged_refl row

theorem rowEffect_removing {before} (agrees : RowAgrees live (expectedRow part items before)) :
    rowEffect (outputSides part items (.removing before rowSignature)) live = none := by
  rw [expectedRow] at agrees
  rw [outputSides]
  cases computed : outputRow part items before with
  | error error =>
    rw [computed] at agrees
    exact agrees.eq_none
  | ok row =>
    rw [computed] at agrees
    cases row with
    | none => exact agrees.eq_none
    | some row => rfl

theorem rowAgrees_ok {before after} (agrees : RowAgrees live before) :
    RowAgrees (rowEffect (.ok (before, after)) live) after := by
  cases before with
  | none =>
    cases after with
    | none => exact agrees
    | some after => exact unchanged_refl after
  | some before =>
    cases after with
    | none => trivial
    | some after =>
      dsimp only [rowEffect]
      split
      next same =>
        cases live with
        | none => cases agrees
        | some row => exact unchanged_trans agrees same
      next => exact unchanged_refl after

theorem rowAgrees_updating {before after row changed} (whole : queryVariablesUnchanged before after = true → before = after)
    (first : outputRow part items before = .ok row) (second : outputRow part items after = .ok changed)
    (agrees : RowAgrees live (expectedRow part items before)) :
    RowAgrees (rowEffect (outputSides part items (.updating before after rowSignature)) live)
      (expectedRow part items after) := by
  rw [outputSides]
  split
  next same =>
    rw [← whole same]
    exact agrees
  next =>
    rw [expectedRow, first] at agrees
    rw [expectedRow, first, second]
    exact rowAgrees_ok agrees

end

/-! ### Variables that hold elements are compared as they are -/

def HoldsElements (queryVariables : QueryVariables) : Prop :=
  ∀ entry ∈ queryVariables.entries, ∃ element, entry.2 = .element element

theorem canonicalEntries_eq {entries} (elements : ∀ entry ∈ entries, ∃ element, entry.2 = .element element) :
    canonicalEntries entries = entries := by
  induction entries with
  | nil => rw [canonicalEntries]
  | cons entry entries ih =>
    obtain ⟨name, value⟩ := entry
    obtain ⟨element, rfl⟩ := elements (name, value) mem_cons_self
    rw [canonicalEntries, ih fun other member => elements other (mem_cons_of_mem _ member),
      canonical]
    all_goals nofun

theorem eq_of_unchanged {one two} (first : HoldsElements one) (second : HoldsElements two)
    (same : queryVariablesUnchanged one two = true) : one = two := by
  have canonical := ((queryVariablesUnchanged_iff one two).mp same).1
  rw [canonicalEntries_eq first, canonicalEntries_eq second] at canonical
  cases one
  cases two
  cases canonical
  rfl

theorem assignmentVariables_holdsElements (path : MatchPath) (assignment : Nat → Element) :
    HoldsElements (assignmentVariables path assignment) := by
  have step : ∀ (entries : List (MatchPathSlot × Nat)) (start : QueryVariables), HoldsElements start →
      HoldsElements (entries.foldl (fun result entry => entry.1.spec.annotationName.elim result fun name =>
        result.insert name (.element (assignment entry.2))) start) := by
    intro entries
    induction entries with
    | nil => exact fun _ holds => holds
    | cons entry entries ih =>
      intro start holds
      rw [foldl_cons]
      apply ih
      cases entry.1.spec.annotationName with
      | none => exact holds
      | some name =>
        intro other member
        rcases mem_insertEntry member with rfl | old
        · exact ⟨_, rfl⟩
        · exact holds other old
  apply step
  intro entry member
  cases member

/-! ### One change -/

/-- The live row under every signature is the output row of the match with that signature. -/
structure LiveAgrees (path : MatchPath) (part : QueryPart) (items : List Expression) (index : InMemoryElementIndex)
    (live : LiveResults) : Prop where
  present : ∀ assignment, Matches path index assignment →
    RowAgrees (live (assignmentSignature path assignment)) (expectedRow part items (assignmentVariables path assignment))
  absent : ∀ signature, (∀ assignment, Matches path index assignment → signature ≠ assignmentSignature path assignment) →
    live signature = none

theorem uses_of_signature {one two reference} (same : assignmentSignature path one = assignmentSignature path two)
    (uses : Uses path one reference) : Uses path two reference := by
  obtain ⟨slot, inside, found⟩ := uses
  exact ⟨slot, inside, (getReference_eq_of_signature same slot inside).symm.trans found⟩

section

variable {index other : InMemoryElementIndex}
  {reference : ElementReference} {before after : Solutions} {live : LiveResults}

/-- Nothing fails on the elements and matches of a graph. -/
structure Evaluates (path : MatchPath) (part : QueryPart) (items : List Expression) (graph : Graph) : Prop where
  slots : TotalGraph path graph
  rows : ∀ assignment, GraphMatch path graph assignment →
    ∃ row, outputRow part items (assignmentVariables path assignment) = .ok row

theorem SolutionsOf.lookup_eq_none {solutions assignment} (exactly : SolutionsOf path index reference solutions)
    (unused : ¬ Uses path assignment reference) : solutions.lookup (assignmentSignature path assignment) = none := by
  cases found : solutions.lookup (assignmentSignature path assignment) with
  | none => rfl
  | some solution =>
    obtain ⟨one, _, used, same, _⟩ := exactly.sound _ _ found
    exact absurd (uses_of_signature same.symm used) unused

theorem SolutionsOf.not_uses {solutions assignment} (exactly : SolutionsOf path index reference solutions)
    (holds : Matches path index assignment) (unknown : solutions.lookup (assignmentSignature path assignment) = none) :
    ¬ Uses path assignment reference := by
  intro uses
  obtain ⟨_, found, _⟩ := exactly.complete assignment holds uses
  cases unknown.symm.trans found

/-- Changing the solutions of one element keeps the live results in step with the index. -/
theorem LiveAgrees.change (agrees : LiveAgrees path part items index live) (tracks : IndexTracks path index)
    (step : SolutionStep path reference index other before after)
    (evaluates : Evaluates path part items index.elements) (evaluatesNext : Evaluates path part items other.elements)
    (order : IterationOrder) : LiveAgrees path part items other (live.applyDiffs (evaluationContextsToDiffs
      ((solutionChanges path order .empty before after).flatMap (entryResults part items)))) := by
  obtain ⟨tracked, agree, old, new⟩ := step
  constructor
  · intro assignment holds
    rw [applyDiffs_solutionChanges]
    by_cases uses : Uses path assignment reference
    · obtain ⟨solution, found, bound⟩ := new.complete assignment holds uses
      rw [found]
      cases earlier : before.lookup (assignmentSignature path assignment) with
      | none =>
        have vacant : live (assignmentSignature path assignment) = none := by
          apply agrees.absent
          intro one matched same
          exact old.not_uses matched (same ▸ earlier) (uses_of_signature same uses)
        dsimp only [sidesContext, Option.elim]
        rw [vacant, intoQueryVariables_eq bound]
        exact rowAgrees_adding _
      | some solved =>
        obtain ⟨one, matched, used, same, binds⟩ := old.sound _ _ earlier
        dsimp only [sidesContext, Option.elim]
        rw [intoQueryVariables_eq bound, intoQueryVariables_eq binds]
        have held := agrees.present one matched
        rw [← same] at held
        obtain ⟨row, first⟩ := evaluates.rows one (tracks.matches_iff.mp matched)
        obtain ⟨changed, second⟩ := evaluatesNext.rows assignment (tracked.matches_iff.mp holds)
        refine rowAgrees_updating _ ?_ first second held
        exact eq_of_unchanged (assignmentVariables_holdsElements _ _) (assignmentVariables_holdsElements _ _)
    · rw [old.lookup_eq_none uses, new.lookup_eq_none uses]
      exact agrees.present assignment ((agree.matches_iff uses).mpr holds)
  · intro signature unmatched
    rw [applyDiffs_solutionChanges]
    have gone : after.lookup signature = none := by
      cases later : after.lookup signature with
      | none => rfl
      | some solved =>
        obtain ⟨one, matched, _, same, _⟩ := new.sound _ _ later
        exact absurd same (unmatched one matched)
    rw [gone]
    cases earlier : before.lookup signature with
    | none =>
      apply agrees.absent
      intro one matched same
      have unused := old.not_uses matched (same ▸ earlier)
      exact unmatched one ((agree.matches_iff unused).mp matched) same
    | some solved =>
      obtain ⟨one, matched, _, same, binds⟩ := old.sound _ _ earlier
      have held := agrees.present one matched
      rw [← same] at held
      dsimp only [sidesContext, Option.elim]
      rw [intoQueryVariables_eq binds]
      exact rowEffect_removing _ held

end

/-! ### Whole changes -/

/-- A query with one projecting part of pure expressions over a tree of required slots. -/
structure ProjectingQuery (query : ContinuousQuery) (part : QueryPart) (items : List Expression) : Prop where
  only : query.query = ⟨[part]⟩
  columns : PureItems part items
  tree : TreePath query.matchPath
  slots : PureSlots query.matchPath
  nonempty : 0 < query.matchPath.slots.length

variable {query : ContinuousQuery}

variable {partContext : QueryPartEvaluationContext}

theorem Evaluates.outputRow_ok {index reference solutions} (evaluates : Evaluates path part items index.elements)
    (tracks : IndexTracks path index) (exactly : SolutionsOf path index reference solutions) {signature solution}
    (found : solutions.lookup signature = some solution) :
    ∃ row, outputRow part items (solution.intoQueryVariables path .empty) = .ok row := by
  obtain ⟨assignment, holds, _, _, binds⟩ := exactly.sound _ _ found
  rw [intoQueryVariables_eq binds]
  exact evaluates.rows assignment (tracks.matches_iff.mp holds)

theorem outputSides_ok {index other : InMemoryElementIndex} {reference : ElementReference}
    {before after : Solutions} (tracks : IndexTracks path index)
    (step : SolutionStep path reference index other before after) (old : Evaluates path part items index.elements)
    (new : Evaluates path part items other.elements) {signature : Signature}
    (sides : sidesContext (·.intoQueryVariables path .empty) (before.lookup signature) (after.lookup signature) =
      some partContext) : ∃ rows, outputSides part items partContext = .ok rows := by
  cases first : before.lookup signature <;> cases second : after.lookup signature <;>
    rw [first, second] at sides <;> cases sides
  case none.some solution =>
    obtain ⟨row, computed⟩ := new.outputRow_ok step.tracks step.new second
    exact ⟨_, congrArg (Except.map _) computed⟩
  case some.none solution =>
    obtain ⟨row, computed⟩ := old.outputRow_ok tracks step.old first
    exact ⟨_, congrArg (Except.map _) computed⟩
  case some.some solution changed =>
    obtain ⟨row, computed⟩ := old.outputRow_ok tracks step.old first
    obtain ⟨next, computedNext⟩ := new.outputRow_ok step.tracks step.new second
    rw [outputSides, computed, computedNext]
    split
    · exact ⟨_, rfl⟩
    · exact ⟨_, rfl⟩

theorem isAggregation_of_sidesContext {row before after} (sides : sidesContext row before after = some partContext) :
    partContext.isAggregation = false := by
  cases before <;> cases after <;> cases sides <;> rfl

/-- Once the changed solutions are known, a change gives their results and leaves the engine as it is. -/
theorem run_processSourceChange (projecting : ProjectingQuery query part items)
    {order arranged change state reached before after anchorElement beforeAnchorElement beforeClock}
    (builds : query.buildSolutionChanges (((order.within [1]).within [0]).within [0]) .empty change
      (.fromSourceChange change) state =
        (.ok (some ⟨solutionChanges query.matchPath arranged .empty before after, anchorElement, beforeClock,
          beforeAnchorElement, false⟩), reached))
    (succeeds : ∀ entry ∈ solutionChanges query.matchPath arranged .empty before after,
      ∃ rows, outputSides part items entry.2 = .ok rows) :
    query.processSourceChange order change state =
      (.ok (some ((solutionChanges query.matchPath arranged .empty before after).flatMap (entryResults part items))),
        reached) := by
  let changes := solutionChanges query.matchPath arranged .empty before after
  let contexts : Signature → ChangeContext := fun signature =>
    ⟨signature, beforeAnchorElement, anchorElement, beforeClock.getD (.fromSourceChange change),
      .fromSourceChange change, false, signature, signature⟩
  have projected : query.projectSolutions (((order.within [1]).within [0]).within [1]) contexts changes ⟨[], ∅⟩ =
      pure ⟨[] ++ changes.flatMap (entryResults part items), ∅⟩ := by
    apply projectSolutions_eq projecting.columns projecting.only
    · exact fun _ => rfl
    · exact fun _ => rfl
    · exact fun _ => rfl
    · intro entry member
      exact isAggregation_of_sidesContext ((mem_solutionChanges _ _ _ _ _).mp member)
    · exact succeeds
  have one : query.processChange ((order.within [1]).within [0]) change state =
      (.ok (some (changes.flatMap (entryResults part items))), reached) := by
    rw [ContinuousQuery.processChange, run_bind_of_ok builds]
    dsimp only
    change (query.projectSolutions _ contexts changes ⟨[], ∅⟩ >>= _) reached = _
    rw [projected]
    change (Except.ok (some (([] ++ changes.flatMap _) ++ _)), reached) = _
    rw [nil_append, CollapsedAggregationResults.intoResultVec, AList.empty_entries, IterationOrder.arrange_nil,
      map_nil, append_nil]
  rw [ContinuousQuery.processSourceChange, ContinuousQuery.processChangesInner]
  rw [length_nil, run_bind_of_ok one]
  change (Except.ok (some (changes.flatMap _ ++ [])), reached) = _
  rw [append_nil]

end DrasiCore.Proofs
