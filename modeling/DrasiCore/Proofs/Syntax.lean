import DrasiCore.Syntax

/-! What the search for aggregating functions finds. -/

namespace DrasiCore.Syntax

variable {names : List String}

mutual

/-- The expressions in a literal. -/
def Literal.parts : Literal → List Expression
  | .null | .scalar _ => []
  | .object entries => entryParts entries
  | .expression held => [held]

def Literal.entryParts : List (String × Literal) → List Expression
  | [] => []
  | (_, value) :: entries => value.parts ++ entryParts entries

end

/-- Where an expression stands in the one around it. -/
inductive Place where
  | operand | value | source | argument | subject | condition | result | otherwise | element | iterated | filter
  | held | base | bound | mapped

/-- Whether the place is none of these: in a literal, the expression whose property is read, a bound of a range and the map
part of an iterator. -/
def Place.seen : Place → Bool
  | .held | .base | .bound | .mapped => false
  | _ => true

variable (expression : Expression)

namespace Expression

open List

/-- All expressions that an expression is made of, with their places. -/
def parts : Expression → List (Place × Expression)
  | .not operand | .existsOf operand | .isNull operand | .isNotNull operand => [(.operand, operand)]
  | .literal value => value.parts.map (.held, ·)
  | .property _ _ | .parameter _ | .identifier _ => []
  | .expressionProperty exp _ => [(.base, exp)]
  | .variableOf _ value => [(.value, value)]
  | .aliased source _ => [(.source, source)]
  | .listRange startBound endBound => (startBound.toList ++ endBound.toList).map (.bound, ·)
  | .binary _ left right => [(.operand, left), (.operand, right)]
  | .function _ args _ => args.map (.argument, ·)
  | .caseOf subject branches otherwise =>
    subject.toList.map (.subject, ·) ++
      (branches.flatMap fun (condition, result) => [(.condition, condition), (.result, result)]) ++
      otherwise.toList.map (.otherwise, ·)
  | .list elements => elements.map (.element, ·)
  | .object elements => (elements.map (·.2)).map (.element, ·)
  | .iterator _ listExpression filter mapExpression =>
    (.iterated, listExpression) :: (filter.toList.map (.filter, ·) ++ mapExpression.toList.map (.mapped, ·))

/-- The code lists exactly the parts at places that are seen. -/
theorem getChildren_eq : expression.getChildren = (expression.parts.filter (·.1.seen)).map (·.2) := by
  have all (place : Place) (seen : place.seen = true) (list : List Expression) :
      ((list.map (place, ·)).filter (·.1.seen)).map (·.2) = list := by
    simp [filter_map, Function.comp_def, seen]
  have none (place : Place) (hidden : place.seen = false) (list : List Expression) :
      (list.map (place, ·)).filter (·.1.seen) = [] := by
    simp [hidden]
  cases expression with
  | literal => simp [getChildren, parts, none .held rfl]
  | listRange => simp only [getChildren, parts, none .bound rfl, map_nil]
  | function _ args => exact (all .argument rfl args).symm
  | list elements => exact (all .element rfl elements).symm
  | object elements => exact (all .element rfl (elements.map (·.2))).symm
  | caseOf subject branches otherwise =>
    simp only [getChildren, parts, filter_append, map_append, all .subject rfl, all .otherwise rfl]
    simp [filter_flatMap, map_flatMap, Place.seen]
  | iterator name values filter mapped =>
    have seen : Place.iterated.seen = true := rfl
    simp only [getChildren, parts, filter_cons, seen, if_true, filter_append, none .mapped rfl, append_nil, map_cons,
      all .filter rfl]
  | _ => rfl

theorem mem_getChildren {child : Expression} :
    child ∈ expression.getChildren ↔ ∃ place : Place, place.seen ∧ (place, child) ∈ expression.parts := by
  simp [getChildren_eq, and_comm]

def Reaches (places : Place → Prop) : Expression → Expression → Prop :=
  Relation.ReflTransGen fun parent child => ∃ place, places place ∧ (place, child) ∈ parent.parts

/-- An aggregating function is called, and the way to the call is by such places. -/
def Calls (names : List String) (places : Place → Prop) : Prop :=
  ∃ call, Reaches places expression call ∧ call.isAggregating names = true

theorem calls_iff {places} :
    expression.Calls names places ↔ expression.isAggregating names = true ∨
      ∃ place child, places place ∧ (place, child) ∈ expression.parts ∧ child.Calls names places := by
  constructor
  · rintro ⟨call, reached, aggregating⟩
    rcases reached.cases_head with rfl | ⟨child, ⟨place, allowed, member⟩, rest⟩
    · exact .inl aggregating
    · exact .inr ⟨place, child, allowed, member, call, rest, aggregating⟩
  · rintro (aggregating | ⟨place, child, allowed, member, call, rest, aggregating⟩)
    · exact ⟨expression, .refl, aggregating⟩
    · exact ⟨call, .head ⟨place, allowed, member⟩ rest, aggregating⟩

theorem Calls.mono {expression : Expression} {places others : Place → Prop} (calls : expression.Calls names places)
    (implies : ∀ place, places place → others place) : expression.Calls names others := by
  obtain ⟨call, reached, aggregating⟩ := calls
  refine ⟨call, .mono (fun _ _ step => ?_) _ _ reached, aggregating⟩
  exact step.imp fun place held => ⟨implies place held.1, held.2⟩

end Expression

open Expression List

theorem containsAggregatingFunction_iff (stack : List Expression) :
    containsAggregatingFunction names stack = true ↔ ∃ expression ∈ stack, expression.Calls names (·.seen) := by
  fun_induction containsAggregatingFunction names stack with
  | case1 => simp
  | case2 expression stack ih =>
    have children : (∃ child ∈ expression.getChildren, child.Calls names (·.seen)) ↔
        ∃ place child, place.seen ∧ (place, child) ∈ expression.parts ∧ child.Calls names (·.seen) := by
      simp only [mem_getChildren]
      constructor
      · rintro ⟨child, ⟨place, seen, member⟩, calls⟩
        exact ⟨place, child, seen, member, calls⟩
      · rintro ⟨place, child, seen, member, calls⟩
        exact ⟨child, ⟨place, seen, member⟩, calls⟩
    simp only [Bool.or_eq_true, ih, mem_append, mem_reverse, mem_cons, or_and_right, exists_or,
      exists_eq_left, expression.calls_iff, or_assoc, children]

theorem isGroupBy_iff (items : List Expression) :
    (∃ keys aggregates, intoProjectionClause names items = .groupBy keys aggregates) ↔
      ∃ item ∈ items, item.Calls names (·.seen) := by
  have found (item : Expression) : containsAggregatingFunction names [item] = true ↔ item.Calls names (·.seen) := by
    simp [containsAggregatingFunction_iff]
  unfold intoProjectionClause
  dsimp only
  split
  next none =>
    refine iff_of_false (fun grouped => nomatch grouped.choose_spec.choose_spec) ?_
    rintro ⟨item, member, calls⟩
    exact filter_eq_nil_iff.mp (isEmpty_iff.mp none) item member ((found item).mpr calls)
  next some =>
    refine iff_of_true ⟨_, _, rfl⟩ ?_
    obtain ⟨item, member⟩ := exists_mem_of_ne_nil _ (mt isEmpty_iff.mpr some)
    obtain ⟨inside, contains⟩ := mem_filter.mp member
    exact ⟨item, inside, (found item).mp contains⟩

/-- **Detection of aggregates.** The search finds the calls at places that are seen. It is exact just where an aggregating
function that is called at all is also called at such a place. -/
theorem aggregates_detected_iff (names : List String) (expression : Expression) (items : List Expression) :
    (containsAggregatingFunction names [expression] = true ↔ expression.Calls names (·.seen)) ∧
    ((containsAggregatingFunction names [expression] = true ↔ expression.Calls names fun _ => True) ↔
      ((expression.Calls names fun _ => True) → expression.Calls names (·.seen))) ∧
    (((∃ keys aggregates, intoProjectionClause names items = .groupBy keys aggregates) ↔
        ∃ item ∈ items, item.Calls names fun _ => True) ↔
      ((∃ item ∈ items, item.Calls names fun _ => True) → ∃ item ∈ items, item.Calls names (·.seen))) := by
  have single : containsAggregatingFunction names [expression] = true ↔ expression.Calls names (·.seen) := by
    simp [containsAggregatingFunction_iff]
  have one (item : Expression) (calls : item.Calls names (·.seen)) : item.Calls names fun _ => True :=
    calls.mono fun _ _ => trivial
  have some (calls : ∃ item ∈ items, item.Calls names (·.seen)) : ∃ item ∈ items, item.Calls names fun _ => True :=
    calls.imp fun item held => ⟨held.1, one item held.2⟩
  rw [single, isGroupBy_iff]
  exact ⟨.rfl, ⟨Iff.mpr, fun shown => ⟨one expression, shown⟩⟩, ⟨Iff.mpr, fun shown => ⟨some, shown⟩⟩⟩

/-- A property of an aggregate is no aggregate to the search. -/
theorem aggregate_missed :
    containsAggregatingFunction ["max"] [.expressionProperty (.function "max" [.identifier "n"] 0) "size"] = false ∧
      (Expression.expressionProperty (.function "max" [.identifier "n"] 0) "size").Calls ["max"] fun _ => True := by
  constructor
  · rw [containsAggregatingFunction, getChildren, reverse_nil, nil_append, containsAggregatingFunction]
    rfl
  · exact ⟨_, .single ⟨.base, trivial, .head _⟩, rfl⟩

end DrasiCore.Syntax
