import Mathlib.Algebra.GroupWithZero.Nat
import Mathlib.Logic.Relation

/-! The syntax tree that the parsers of both query languages build, and how they tell grouping from projection. -/

namespace DrasiCore.Syntax

open List

inductive BinaryOperator where
  | and | or | eq | ne | lt | le | gt | ge | isIn | add | subtract | multiply | divide | modulo | exponent | hasLabel | index
  | startsWith | endsWith | contains
deriving DecidableEq

mutual

inductive Literal where
  | null
  /-- A number, a boolean, a text or a time, by its text. -/
  | scalar (text : String)
  | object (entries : List (String × Literal))
  | expression (expression : Expression)

inductive Expression where
  | not (operand : Expression)
  | existsOf (operand : Expression)
  | isNull (operand : Expression)
  | isNotNull (operand : Expression)
  | literal (literal : Literal)
  | property (name key : String)
  | expressionProperty (exp : Expression) (key : String)
  | parameter (name : String)
  | identifier (name : String)
  | variableOf (name : String) (value : Expression)
  | aliased (source : Expression) (name : String)
  | listRange (startBound endBound : Option Expression)
  | binary (operator : BinaryOperator) (left right : Expression)
  | function (name : String) (args : List Expression) (positionInQuery : Nat)
  | caseOf (subject : Option Expression) (branches : List (Expression × Expression)) (otherwise : Option Expression)
  | list (elements : List Expression)
  | object (elements : List (String × Expression))
  | iterator (itemIdentifier : String) (listExpression : Expression) (filter mapExpression : Option Expression)

end

namespace Expression

def getChildren : Expression → List Expression
  | .not operand | .existsOf operand | .isNull operand | .isNotNull operand => [operand]
  | .literal _ | .property _ _ | .expressionProperty _ _ | .parameter _ | .identifier _ | .listRange _ _ => []
  | .variableOf _ value => [value]
  | .aliased source _ => [source]
  | .binary _ left right => [left, right]
  | .function _ args _ => args
  | .caseOf subject branches otherwise =>
    subject.toList ++ (branches.flatMap fun (condition, result) => [condition, result]) ++ otherwise.toList
  | .list elements => elements
  | .object elements => elements.map (·.2)
  | .iterator _ listExpression filter _ => listExpression :: filter.toList

theorem sum_list_le (list : List Expression) : (list.map sizeOf).sum ≤ sizeOf list := by
  induction list with
  | nil => simp
  | cons first rest ih =>
    simp only [map_cons, sum_cons, cons.sizeOf_spec]
    omega

theorem sum_values_le (entries : List (String × Expression)) : ((entries.map (·.2)).map sizeOf).sum ≤ sizeOf entries := by
  induction entries with
  | nil => simp
  | cons first rest ih =>
    obtain ⟨key, value⟩ := first
    simp only [map_cons, sum_cons, cons.sizeOf_spec, Prod.mk.sizeOf_spec]
    omega

theorem sum_branches_le (branches : List (Expression × Expression)) :
    ((branches.flatMap fun branch => [branch.1, branch.2]).map sizeOf).sum ≤ sizeOf branches := by
  induction branches with
  | nil => simp
  | cons first rest ih =>
    obtain ⟨condition, result⟩ := first
    simp only [flatMap_cons, map_append, sum_append, map_cons, sum_cons, map_nil, sum_nil,
      cons.sizeOf_spec, Prod.mk.sizeOf_spec]
    omega

theorem sum_toList_le (option : Option Expression) : (option.toList.map sizeOf).sum ≤ sizeOf option := by
  cases option <;> simp

theorem sum_getChildren_lt (expression : Expression) : (expression.getChildren.map sizeOf).sum < sizeOf expression := by
  cases expression with
  | function name args position =>
    have := sum_list_le args
    simp only [getChildren, function.sizeOf_spec]
    omega
  | list elements =>
    have := sum_list_le elements
    simp only [getChildren, list.sizeOf_spec]
    omega
  | object elements =>
    have := sum_values_le elements
    simp only [getChildren, object.sizeOf_spec]
    omega
  | caseOf subject branches otherwise =>
    have := sum_toList_le subject
    have := sum_branches_le branches
    have := sum_toList_le otherwise
    simp only [getChildren, caseOf.sizeOf_spec, map_append, sum_append]
    omega
  | iterator name values filter mapped =>
    have := sum_toList_le filter
    simp only [getChildren, iterator.sizeOf_spec, map_cons, sum_cons]
    omega
  | _ => simp [getChildren] <;> omega

def isAggregating (names : List String) : Expression → Bool
  | .function name _ _ => names.contains name
  | _ => false

end Expression

/-- The search, the same in both front ends: the children of what is taken from the stack are put on it. -/
def containsAggregatingFunction (names : List String) : List Expression → Bool
  | [] => false
  | expression :: stack =>
    expression.isAggregating names || containsAggregatingFunction names (expression.getChildren.reverse ++ stack)
termination_by stack => (stack.map sizeOf).sum
decreasing_by
  have := expression.sum_getChildren_lt
  simp only [map_append, map_reverse, sum_append, sum_reverse, map_cons, sum_cons]
  omega

inductive ProjectionClause where
  | item (items : List Expression)
  | groupBy (grouping aggregates : List Expression)

def intoProjectionClause (names : List String) (items : List Expression) : ProjectionClause :=
  let aggregates := items.filter fun item => containsAggregatingFunction names [item]
  let keys := items.filter fun item => !containsAggregatingFunction names [item]
  if aggregates.isEmpty then .item keys else .groupBy keys aggregates

end DrasiCore.Syntax
