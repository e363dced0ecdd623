import DrasiCore.Library.Forest
import DrasiCore.Proofs.IncrementalView
import DrasiCore.Proofs.TreePattern

/-! Runs of a projecting query: after any admissible changes the live results are the output rows of the matches in the
graph that the changes describe. -/

namespace DrasiCore.Proofs

open Library Eval InMemoryElementIndex QueryState

variable {query : ContinuousQuery} {part : QueryPart} {items : List Expression} {graph next : Graph}
variable {queryPart : QueryPart}

/-- The index holds the graph, and the live results are the output rows of its matches. -/
structure Maintains (query : ContinuousQuery) (part : QueryPart) (items : List Expression) (graph : Graph)
    (state : QueryState) : Prop where
  elements : state.engine.elementIndex.elements = graph
  tracks : IndexTracks query.matchPath state.engine.elementIndex
  agrees : LiveAgrees query.matchPath part items state.engine.elementIndex state.results

theorem not_graphMatch_empty {path} (nonempty : 0 < path.slots.length) (assignment : Nat → Element) :
    ¬ GraphMatch path .empty assignment := by
  intro holds
  have held := holds.1 0 nonempty
  cases held

section

variable (projecting : ProjectingQuery query part items)
include projecting

theorem Maintains.empty : Maintains query part items .empty .empty := by
  have tracks := IndexTracks.empty query.matchPath
  refine ⟨rfl, tracks, ?_, fun _ _ => rfl⟩
  intro assignment holds
  exact absurd (tracks.matches_iff.mp holds) (not_graphMatch_empty projecting.nonempty assignment)

theorem Maintains.step {state change} (maintains : Maintains query part items graph state)
    (evaluates : Evaluates query.matchPath part items graph) (sends : graph.Sends change)
    (applies : graph.apply change = some next) (evaluatesNext : Evaluates query.matchPath part items next)
    (order : IterationOrder) :
    ∃ reached, state.processChange query order change = some reached ∧ Maintains query part items next reached := by
  obtain ⟨rfl, tracks, agrees⟩ := maintains
  obtain ⟨before, after, other, anchorElement, beforeClock, beforeAnchorElement, builds, rfl, step⟩ :=
    run_buildSolutionChanges projecting.tree projecting.slots tracks sends applies evaluates.slots evaluatesNext.slots
  refine ⟨⟨{ state.engine with elementIndex := other }, _⟩, ?_, rfl, step.tracks,
    agrees.change tracks step evaluates evaluatesNext ((((order.within [1]).within [0]).within [0]).within [2])⟩
  rw [QueryState.processChange, run_processSourceChange projecting builds]
  · rfl
  · intro entry member
    exact outputSides_ok tracks step evaluates evaluatesNext ((mem_solutionChanges _ _ _ _ _).mp member)

theorem Maintains.run {steps last state} (maintains : Maintains query part items graph state)
    (evaluates : Evaluates query.matchPath part items graph)
    (leads : Graph.Leads (fun _ _ next => Evaluates query.matchPath part items next) graph (steps.map Prod.snd) last) :
    ∃ reached, processChanges query steps state = some reached ∧ Maintains query part items last reached := by
  induction steps generalizing graph state with
  | nil =>
    cases leads
    exact ⟨state, rfl, maintains⟩
  | cons step steps ih =>
    obtain ⟨order, change⟩ := step
    obtain _ | ⟨sends, applies, admitted, rest⟩ := leads
    obtain ⟨middle, processed, maintained⟩ :=
      maintains.step projecting evaluates sends applies admitted order
    obtain ⟨reached, runs, final⟩ := ih maintained admitted rest
    refine ⟨reached, ?_, final⟩
    rw [processChanges, processed]
    exact runs

end

/-! ### Queries over tree patterns -/

def singlePartQuery (queryPart : QueryPart) : ContinuousQuery := ⟨⟨[queryPart]⟩, .fromQuery queryPart⟩

theorem projectingQuery (pattern : TreePattern queryPart) (columns : PureItems queryPart items) :
    ProjectingQuery (singlePartQuery queryPart) queryPart items where
  only := rfl
  columns := columns
  tree := pattern.treePath
  slots := pattern.pureSlots
  nonempty := pattern.slots_nonempty

/-- A graph on which nothing fails, and in which no node is taken for a relation. -/
structure Regular (queryPart : QueryPart) (items : List Expression) (graph : Graph) : Prop where
  slots : TotalGraph (.fromQuery queryPart) graph
  rows : ∀ assignment, ClauseMatch queryPart.matchClauses graph assignment →
    ∃ row, outputRow queryPart items (assignmentVariables (.fromQuery queryPart) assignment) = .ok row
  kinds : KeepsKinds queryPart graph

section

variable (pattern : TreePattern queryPart)
include pattern

theorem Regular.empty (items : List Expression) : Regular queryPart items .empty := by
  have unmatched := not_graphMatch_empty pattern.slots_nonempty
  have kinds : KeepsKinds queryPart .empty := fun assignment holds => absurd holds (unmatched assignment)
  refine ⟨fun element => nofun, ?_, kinds⟩
  intro assignment holds
  exact absurd ((pattern.graphMatch_iff kinds).mpr holds) (unmatched assignment)

theorem Regular.evaluates (regular : Regular queryPart items graph) :
    Evaluates (.fromQuery queryPart) queryPart items graph :=
  ⟨regular.slots, fun assignment holds => regular.rows assignment ((pattern.graphMatch_iff regular.kinds).mp holds)⟩

theorem leads_of_regular (regular : Regular queryPart items graph) {changes last}
    (leads : Graph.Leads (fun _ _ next => Regular queryPart items next) graph changes last) :
    Regular queryPart items last ∧
      Graph.Leads (fun _ _ next => Evaluates (.fromQuery queryPart) queryPart items next) graph changes last := by
  induction leads with
  | nil graph => exact ⟨regular, .nil graph⟩
  | cons sends applies admitted rest ih =>
    obtain ⟨final, later⟩ := ih admitted
    exact ⟨final, .cons sends applies (admitted.evaluates pattern) later⟩

end

def arrowItems : List Expression := [.scalarProperty "a" "v"]

def arrowPart : QueryPart := { samplePart with returnClause := .item arrowItems }

def openPart : QueryPart := { arrowPart with whereClauses := [.scalarProperty "b" "v"] }

theorem openPart_pattern : TreePattern openPart := by
  have bare : ∀ occurrence ∈ Pattern.occurrences 0 openPart.matchClauses,
      occurrence.spec.labels = [] ∧ occurrence.spec.predicates = [] := by
    intro occurrence member
    rcases member with _ | ⟨_, _ | ⟨_, _ | ⟨_, ⟨⟩⟩⟩⟩
    · exact ⟨rfl, rfl⟩
    · exact ⟨rfl, rfl⟩
    · exact ⟨rfl, rfl⟩
  refine ⟨List.cons_ne_nil _ _, by simp [openPart, arrowPart, samplePart], samplePart_connected, ⟨?_, ?_⟩, ?_, ?_⟩
  · intro slot adjacent
    have := samplePart_adjacent.mp adjacent
    omega
  · apply isAcyclic_of_smaller_unique
    intro slot first second adjacent other
    have forth := adjacent.2.imp samplePart_adjacent.mp samplePart_adjacent.mp
    have back := other.2.imp samplePart_adjacent.mp samplePart_adjacent.mp
    omega
  · intro occurrence member predicate listed
    rw [(bare occurrence member).2] at listed
    cases listed
  · intro earlier occurrence later whole _
    exact bare occurrence (by rw [whole]; simp)

def Aimed : Element → Prop
  | .node .. => True
  | .relation _ inNode outNode _ => inNode = ⟨"source", "x"⟩ ∧ outNode = ⟨"source", "y"⟩

/-- Relations lead from the first node to the second. -/
def OneWay (graph : Graph) : Prop := ∀ element, graph.Holds element → Aimed element

theorem openPart_outward {assignment} (holds : GraphMatch (.fromQuery openPart) graph assignment) (source target)
    (entered : EnteredPair openPart.matchClauses source target) :
    OutwardLink (onVariables openPart.matchClauses assignment source)
      (onVariables openPart.matchClauses assignment target) := by
  refine ((satisfiesSlots_iff.mp holds.2).2 source target entered).resolve_right ?_
  rintro ⟨⟨step', member', back⟩, _⟩
  obtain ⟨step, member, pair⟩ := entered
  cases List.mem_singleton.mp member
  cases List.mem_singleton.mp member'
  simp only [PatternStep.outward, List.mem_cons, Prod.mk.injEq, List.not_mem_nil, or_false] at pair back
  rcases pair with ⟨rfl, rfl⟩ | ⟨rfl, rfl⟩ <;> simp [PatternVariable.of] at back

theorem OneWay.keepsKinds (oneWay : OneWay graph) : KeepsKinds openPart graph := by
  intro assignment holds
  have first : OutwardLink (assignment 0) (assignment 1) :=
    openPart_outward holds (.named "a") (.named "r") ⟨_, .head _, .head _⟩
  have second : OutwardLink (assignment 1) (assignment 2) :=
    openPart_outward holds (.named "r") (.named "b") ⟨_, .head _, .tail _ (.head _)⟩
  refine ⟨?_, ?_, fun step member _ source target pair _ => openPart_outward holds _ _ ⟨step, member, pair⟩⟩
  · intro step member
    cases List.mem_singleton.mp member
    change (assignment 1).IsRelation
    have left := holds.1 0 (by decide)
    have right := holds.1 2 (by decide)
    generalize assignment 0 = source, assignment 1 = middle, assignment 2 = target at *
    cases middle with
    | relation => trivial
    | node =>
      cases source with
      | node => cases first
      | relation =>
        cases target with
        | node => cases second
        | relation =>
          have apart := (oneWay _ left).2.symm.trans first
          have same := (oneWay _ right).1.symm.trans second
          exact absurd (apart.trans same.symm) (by decide)
  · intro step member either
    cases List.mem_singleton.mp member
    cases either

theorem openPart_regular (oneWay : OneWay graph) : Regular openPart arrowItems graph := by
  refine ⟨?_, ?_, oneWay.keepsKinds⟩
  · intro element _ slot member
    rcases member with _ | ⟨_, _ | ⟨_, _ | ⟨_, ⟨⟩⟩⟩⟩ <;> exact ⟨true, rfl⟩
  · intro assignment _
    obtain ⟨value, known⟩ : ∃ value, (Expression.scalarProperty "b" "v").value
        (assignmentVariables (.fromQuery openPart) assignment) = .ok value := ⟨_, rfl⟩
    change ∃ row, Except.bind (filtersHold _ [.scalarProperty "b" "v"]) _ = .ok row
    rw [filtersHold, known]
    change ∃ row, Except.bind (if value = .bool true then _ else _) _ = .ok row
    split
    · exact ⟨_, rfl⟩
    · exact ⟨_, rfl⟩

theorem OneWay.update (oneWay : OneWay graph) (element : Element) (fits : Aimed element) :
    OneWay (Function.update graph element.getReference (some element)) := by
  intro other holds
  rw [Graph.Holds, Function.update_apply] at holds
  split at holds
  · cases holds
    exact fits
  · exact oneWay other holds

def valueNode (id : String) (value : ElementValue) : Element :=
  .node ⟨⟨"source", id⟩, [], 0⟩ (OrderedMap.empty.insert "v" value)

def openAssignment (flag : Bool) : Nat → Element
  | 0 => valueNode "x" (.integer 1)
  | 1 => sampleRelation "e" "x" "y"
  | _ => valueNode "y" (.bool flag)

theorem openAssignment_clauseMatch {flag} (left : graph.Holds (valueNode "x" (.integer 1)))
    (middle : graph.Holds (sampleRelation "e" "x" "y")) (right : graph.Holds (valueNode "y" (.bool flag))) :
    ClauseMatch openPart.matchClauses graph (openAssignment flag) := by
  refine ⟨?_, ?_, ?_⟩
  · intro slot inside
    match slot with
    | 0 => exact left
    | 1 => exact middle
    | 2 => exact right
    | slot + 3 => exact absurd inside (Nat.not_lt.mpr (Nat.le_add_left 3 slot))
  · intro occurrence member
    rcases member with _ | ⟨_, _ | ⟨_, _ | ⟨_, ⟨⟩⟩⟩⟩ <;> exact ⟨rfl, nofun⟩
  · intro step member
    cases List.mem_singleton.mp member
    exact ⟨rfl, rfl⟩

def openSteps (flag : Bool) : List (IterationOrder × SourceChange) :=
  [.insert (valueNode "x" (.integer 1)), .insert (valueNode "y" (.bool !flag)), .insert (sampleRelation "e" "x" "y"),
    .update (valueNode "y" (.bool flag))].map fun change => (.stored, change)

def valueItems : List Expression := [.scalarProperty "n" "v"]

def valuePart : QueryPart := ⟨[⟨⟨some "n", [], []⟩, [], false⟩], [], .item valueItems⟩

def arrowSteps : List (IterationOrder × SourceChange) :=
  [sampleNode "x", sampleRelation "e" "x" "y", sampleRelation "f" "y" "z", sampleNode "z", sampleNode "y"].map
    fun element => (.stored, .insert element)

def confusedAssignment : Nat → Element
  | 0 => sampleRelation "e" "x" "y"
  | 1 => sampleNode "y"
  | _ => sampleRelation "f" "y" "z"

end DrasiCore.Proofs
