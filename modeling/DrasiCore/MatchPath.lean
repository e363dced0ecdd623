import DrasiCore.Ast

/-! Compilation of match clauses into a graph of slots. Occurrences of one alias share a slot. -/

namespace DrasiCore

structure SlotElementSpec where
  annotationName : Option String
  labels : List String
  predicates : List Expression

namespace SlotElementSpec

def fromNodeMatch (nodeMatch : NodeMatch) : SlotElementSpec :=
  ⟨nodeMatch.annotationName, nodeMatch.labels, nodeMatch.propertyPredicates⟩

def fromRelationMatch (relationMatch : RelationMatch) : SlotElementSpec :=
  ⟨relationMatch.annotationName, relationMatch.labels, relationMatch.propertyPredicates⟩

/-- One of the labels is enough, and no label stands for any. -/
def labelMatch (spec : SlotElementSpec) (element : Element) : Bool :=
  spec.labels.isEmpty || spec.labels.any element.getMetadata.labels.contains

/-- What the predicates of a slot can refer to: the element under its alias and under the empty name. -/
def slotVariables (spec : SlotElementSpec) (baseVariables : QueryVariables) (element : Element) : QueryVariables :=
  let named := spec.annotationName.elim baseVariables fun annotationName => baseVariables.insert annotationName (.element element)
  named.insert "" (.element element)

end SlotElementSpec

structure MatchPathSlot where
  spec : SlotElementSpec
  inSlots : List Nat
  outSlots : List Nat
  paths : List Nat
  optional : Bool

structure MatchPath where
  slots : List MatchPathSlot
  optionalPaths : List Nat

/-- The slots built so far and the slot of every alias seen. -/
structure MatchPathBuilder where
  slots : List MatchPathSlot
  aliasMap : String → Option Nat

namespace MatchPathBuilder

def empty : MatchPathBuilder := ⟨[], fun _ => none⟩

variable (builder : MatchPathBuilder)

def pushSlot (spec : SlotElementSpec) (pathIndex : Nat) (optional : Bool) : MatchPathBuilder :=
  { builder with slots := builder.slots ++ [⟨spec, [], [], [pathIndex], optional⟩] }

/-- Find or add the slot of one occurrence. A repeated alias keeps the specification of its first occurrence. -/
def mergeMatch (spec : SlotElementSpec) (pathIndex : Nat) (optional : Bool) : MatchPathBuilder × Nat :=
  match spec.annotationName with
  | some name =>
    match builder.aliasMap name with
    | some slotNum =>
      ({ builder with
          slots := builder.slots.modify slotNum fun slot =>
            { slot with optional := optional && slot.optional, paths := slot.paths.insert pathIndex } },
        slotNum)
    | none =>
      let slotNum := builder.slots.length
      ({ builder.pushSlot spec pathIndex optional with
          aliasMap := fun other => if other = name then some slotNum else builder.aliasMap other },
        slotNum)
  | none => (builder.pushSlot spec pathIndex optional, builder.slots.length)

def mergeNodeMatch (nodeMatch : NodeMatch) (pathIndex : Nat) (optional : Bool) : MatchPathBuilder × Nat :=
  builder.mergeMatch (.fromNodeMatch nodeMatch) pathIndex optional

def mergeRelationMatch (relationMatch : RelationMatch) (pathIndex : Nat) (optional : Bool) : MatchPathBuilder × Nat :=
  builder.mergeMatch (.fromRelationMatch relationMatch) pathIndex optional

def pushOut (slotNum target : Nat) : MatchPathBuilder :=
  { builder with
    slots := builder.slots.modify slotNum fun slot => { slot with outSlots := slot.outSlots ++ [target] } }

def pushIn (slotNum target : Nat) : MatchPathBuilder :=
  { builder with
    slots := builder.slots.modify slotNum fun slot => { slot with inSlots := slot.inSlots ++ [target] } }

/-- Enter the neighbours of one relation step between the previous node slot and the next. -/
def connect (direction : Direction) (prev rel node : Nat) : MatchPathBuilder :=
  match direction with
  | .right => (((builder.pushOut prev rel).pushIn rel prev).pushOut rel node).pushIn node rel
  | .left => (((builder.pushIn prev rel).pushOut rel prev).pushIn rel node).pushOut node rel
  | .either =>
    let towardsPrev := (((builder.pushIn prev rel).pushOut prev rel).pushIn rel prev).pushOut rel prev
    (((towardsPrev.pushIn node rel).pushOut node rel).pushIn rel node).pushOut rel node

def addSteps (pathIndex : Nat) (optional : Bool) :
    MatchPathBuilder → Nat → List (RelationMatch × NodeMatch) → MatchPathBuilder
  | builder, _, [] => builder
  | builder, prev, (relationMatch, nodeMatch) :: steps =>
    let (withRelation, rel) := builder.mergeRelationMatch relationMatch pathIndex optional
    let (withNode, node) := withRelation.mergeNodeMatch nodeMatch pathIndex optional
    addSteps pathIndex optional (withNode.connect relationMatch.direction prev rel node) node steps

def addClause (pathIndex : Nat) (clause : MatchClause) : MatchPathBuilder :=
  let (withStart, start) := builder.mergeNodeMatch clause.start pathIndex clause.optional
  addSteps pathIndex clause.optional withStart start clause.path

def addClauses : MatchPathBuilder → Nat → List MatchClause → MatchPathBuilder
  | builder, _, [] => builder
  | builder, pathIndex, clause :: clauses => addClauses (builder.addClause pathIndex clause) (pathIndex + 1) clauses

end MatchPathBuilder

namespace MatchPath

def fromQuery (queryPart : QueryPart) : MatchPath where
  slots := (MatchPathBuilder.empty.addClauses 0 queryPart.matchClauses).slots
  optionalPaths := (queryPart.matchClauses.zipIdx.filter (·.1.optional)).map (·.2)

/-- Slots of one path that are blanked together with the anchor slot; `none` if one of them is blank already. -/
def optionalSlotsOnPath (matchPath : MatchPath) (anchorSlotNum : Nat) (emptySlots : List Nat) (path : Nat) :
    Option (List Nat) :=
  let onPath := matchPath.slots.zipIdx.filter fun entry => entry.1.optional && entry.1.paths.contains path
  if onPath.any fun entry => emptySlots.contains entry.2 then none
  else some ((onPath.filter fun entry => entry.2 = anchorSlotNum ∨ entry.1.paths.length ≤ 1).map (·.2))

def getOptionalSlotsOnCommonPaths (matchPath : MatchPath) (anchorSlotNum : Nat) (emptySlots : List Nat) : List Nat :=
  match matchPath.slots[anchorSlotNum]? with
  | none => []
  | some anchor =>
    anchor.paths.foldl
      (fun collected path => collected ∪ (matchPath.optionalSlotsOnPath anchorSlotNum emptySlots path).getD []) []

end MatchPath

end DrasiCore
