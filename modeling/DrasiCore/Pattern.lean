import DrasiCore.MatchPath

/-! The meaning of match clauses as they are written, apart from any compilation. A pattern is a list of occurrences of
variables with their constraints and a list of relation steps between variables. -/

namespace DrasiCore

/-- The variable of an occurrence: its alias, or its own position when it has none. -/
inductive PatternVariable where
  | named (name : String)
  | anonymous (position : Nat)
deriving DecidableEq

namespace PatternVariable

def of (annotationName : Option String) (position : Nat) : PatternVariable := annotationName.elim (.anonymous position) .named

end PatternVariable

structure Occurrence where
  subject : PatternVariable
  spec : SlotElementSpec
  optional : Bool

structure PatternStep where
  direction : Direction
  prev : PatternVariable
  rel : PatternVariable
  node : PatternVariable
deriving DecidableEq

namespace Element

def IsRelation : Element → Prop
  | .relation .. => True
  | .node .. => False

def IsLoop : Element → Prop
  | .relation _ inNode outNode _ => inNode = outNode
  | .node .. => False

end Element

def Connects (rel source target : Element) : Prop :=
  match rel, source, target with
  | .relation _ inNode outNode _, .node first _, .node second _ => inNode = first.reference ∧ outNode = second.reference
  | _, _, _ => False

namespace PatternStep

def Holds (step : PatternStep) (valuation : PatternVariable → Element) : Prop :=
  match step.direction with
  | .right => Connects (valuation step.rel) (valuation step.prev) (valuation step.node)
  | .left => Connects (valuation step.rel) (valuation step.node) (valuation step.prev)
  | .either =>
    Connects (valuation step.rel) (valuation step.prev) (valuation step.node) ∨
      Connects (valuation step.rel) (valuation step.node) (valuation step.prev)

def outward (step : PatternStep) : List (PatternVariable × PatternVariable) :=
  match step.direction with
  | .right => [(step.prev, step.rel), (step.rel, step.node)]
  | .left => [(step.node, step.rel), (step.rel, step.prev)]
  | .either => [(step.prev, step.rel), (step.rel, step.prev), (step.rel, step.node), (step.node, step.rel)]

end PatternStep

namespace SlotElementSpec

/-- The element has one of the labels and satisfies the predicates, for a given reading of expressions. -/
def Accepts (spec : SlotElementSpec) (truth : Expression → QueryVariables → Prop) (element : Element) : Prop :=
  spec.labelMatch element = true ∧ ∀ predicate ∈ spec.predicates, truth predicate (spec.slotVariables .empty element)

end SlotElementSpec

namespace Pattern

def pathOccurrences (optional : Bool) : Nat → List (RelationMatch × NodeMatch) → List Occurrence
  | _, [] => []
  | position, (relationMatch, nodeMatch) :: path =>
    ⟨.of relationMatch.annotationName position, .fromRelationMatch relationMatch, optional⟩ ::
      ⟨.of nodeMatch.annotationName (position + 1), .fromNodeMatch nodeMatch, optional⟩ ::
        pathOccurrences optional (position + 2) path

def clauseOccurrences (position : Nat) (clause : MatchClause) : List Occurrence :=
  ⟨.of clause.start.annotationName position, .fromNodeMatch clause.start, clause.optional⟩ ::
    pathOccurrences clause.optional (position + 1) clause.path

def occurrences : Nat → List MatchClause → List Occurrence
  | _, [] => []
  | position, clause :: clauses =>
    clauseOccurrences position clause ++ occurrences (position + 1 + 2 * clause.path.length) clauses

def pathSteps : Nat → PatternVariable → List (RelationMatch × NodeMatch) → List PatternStep
  | _, _, [] => []
  | position, prev, (relationMatch, nodeMatch) :: path =>
    ⟨relationMatch.direction, prev, .of relationMatch.annotationName position, .of nodeMatch.annotationName (position + 1)⟩ ::
      pathSteps (position + 2) (.of nodeMatch.annotationName (position + 1)) path

def clauseSteps (position : Nat) (clause : MatchClause) : List PatternStep :=
  pathSteps (position + 1) (.of clause.start.annotationName position) clause.path

def steps : Nat → List MatchClause → List PatternStep
  | _, [] => []
  | position, clause :: clauses =>
    clauseSteps position clause ++ steps (position + 1 + 2 * clause.path.length) clauses

/-- The distinct variables in the order of their first occurrences. -/
def distinctVariables (clauses : List MatchClause) : List PatternVariable :=
  ((occurrences 0 clauses).map (·.subject)).eraseDups

/-- Every label set, predicate and relation direction of the clauses, at every occurrence. -/
def Satisfies (truth : Expression → QueryVariables → Prop) (clauses : List MatchClause)
    (valuation : PatternVariable → Element) : Prop :=
  (∀ occurrence ∈ occurrences 0 clauses, occurrence.spec.Accepts truth (valuation occurrence.subject)) ∧
    ∀ step ∈ steps 0 clauses, step.Holds valuation

end Pattern

end DrasiCore
