import DrasiCore.Proofs.SolutionMaintenance

/-! Tree-shaped patterns: what their compiled paths match in a graph are the matches of the clauses as written, as long
as no node is taken for a relation. -/

namespace DrasiCore.Proofs

open Library InMemoryElementIndex List

/-- Clauses none of which is optional, whose slot graph is a tree and whose constraints stand at first occurrences. -/
structure TreePattern (queryPart : QueryPart) : Prop where
  nonempty : queryPart.matchClauses ≠ []
  mandatory : ∀ clause ∈ queryPart.matchClauses, clause.optional = false
  connected : Connected (.fromQuery queryPart)
  acyclic : Acyclic (.fromQuery queryPart)
  plain : ∀ occurrence ∈ Pattern.occurrences 0 queryPart.matchClauses,
    ∀ predicate ∈ occurrence.spec.predicates, predicate.isPure = true
  bare : ∀ earlier occurrence later,
    Pattern.occurrences 0 queryPart.matchClauses = earlier ++ occurrence :: later →
      (∃ first ∈ earlier, first.subject = occurrence.subject) →
        occurrence.spec.labels = [] ∧ occurrence.spec.predicates = []

variable {queryPart : QueryPart}

namespace TreePattern

theorem treePath (pattern : TreePattern queryPart) : TreePath (.fromQuery queryPart) where
  closed := fromQuery_closed queryPart
  required := fromQuery_required pattern.mandatory
  mirrored := fromQuery_mirrored queryPart
  connected := pattern.connected
  acyclic := pattern.acyclic

theorem pureSlots (pattern : TreePattern queryPart) : PureSlots (.fromQuery queryPart) := by
  intro slot member predicate listed
  obtain ⟨slotNum, present⟩ := getElem?_of_mem member
  obtain ⟨subject, named⟩ := fromQuery_name present
  obtain ⟨found, there, slotOf⟩ := fromQuery_slot named
  cases present.symm.trans there
  obtain ⟨first, hit, spec⟩ := Option.map_eq_some_iff.mp slotOf.spec
  apply pattern.plain first (mem_of_find?_eq_some hit)
  rw [spec]
  exact listed

theorem slots_nonempty (pattern : TreePattern queryPart) : 0 < (MatchPath.fromQuery queryPart).slots.length := by
  rw [fromQuery_length]
  obtain ⟨clause, clauses, same⟩ := exists_cons_of_ne_nil pattern.nonempty
  apply length_pos_of_mem (a := PatternVariable.of clause.start.annotationName 0)
  rw [Pattern.distinctVariables, mem_eraseDups, same]
  exact mem_cons_self

end TreePattern

/-- Elements of the graph that satisfy the clauses as written. -/
def ClauseMatch (clauses : List MatchClause) (graph : Graph) (assignment : Nat → Element) : Prop :=
  (∀ slot < (Pattern.distinctVariables clauses).length, graph.Holds (assignment slot)) ∧
    Pattern.Satisfies Expression.IsTrue clauses (onVariables clauses assignment)

/-- What fits the slots and links neighbours has relations where relations are written, with the ends as written. -/
def KeepsKinds (queryPart : QueryPart) (graph : Graph) : Prop :=
  ∀ assignment, GraphMatch (.fromQuery queryPart) graph assignment →
    KeepsEnds queryPart.matchClauses (onVariables queryPart.matchClauses assignment)

theorem TreePattern.graphMatch_iff (pattern : TreePattern queryPart) {graph} (kinds : KeepsKinds queryPart graph)
    {assignment} :
    GraphMatch (.fromQuery queryPart) graph assignment ↔ ClauseMatch queryPart.matchClauses graph assignment := by
  have dropped : KeepsEnds queryPart.matchClauses (onVariables queryPart.matchClauses assignment) →
      KeepsDropped Expression.IsTrue queryPart.matchClauses (onVariables queryPart.matchClauses assignment) := by
    intro ends
    refine ⟨ends, ?_⟩
    intro earlier occurrence later whole before
    obtain ⟨labels, predicates⟩ := pattern.bare earlier occurrence later whole before
    rw [SlotElementSpec.Accepts, SlotElementSpec.labelMatch, labels, predicates]
    exact ⟨rfl, by simp⟩
  constructor
  · intro holds
    refine ⟨by rw [← fromQuery_length]; exact holds.1, ?_⟩
    exact (satisfies_iff_of_satisfiesFirst (satisfiesSlots_iff.mp holds.2)).mpr (dropped (kinds assignment holds))
  · rintro ⟨held, satisfies⟩
    rw [← fromQuery_length] at held
    exact ⟨held, satisfiesSlots_iff.mpr (satisfiesFirst_of_satisfies satisfies)⟩

end DrasiCore.Proofs
