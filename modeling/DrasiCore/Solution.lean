import DrasiCore.MatchPath

/-! Bindings of pattern slots to elements, and the steps that extend them. -/

namespace DrasiCore

open Library

/-- A binding under construction. A slot is queued once, with the element it will be bound to, and solved when its turn
comes. A slot of an optional clause may be bound to nothing, which is `some none`. -/
structure MatchPathSolution where
  solvedSlots : Nat → Option (Option Element)
  totalSlots : Nat
  queuedSlots : Nat → Bool
  slotCursors : List (Nat × Option Element)
  solutionSignature : Option Signature
  anchorSlot : Nat

namespace MatchPathSolution

def new (totalSlots anchorSlot : Nat) : MatchPathSolution :=
  ⟨fun _ => none, totalSlots, fun _ => false, [], none, anchorSlot⟩

variable (solution : MatchPathSolution) (slotNum : Nat)

def isSlotSolved : Bool := (solution.solvedSlots slotNum).isSome

def solvedCount : Nat :=
  (List.range solution.totalSlots).countP solution.isSlotSolved

def slotReferences : List (Nat × Option ElementReference) :=
  (List.range solution.totalSlots).map fun slotNum =>
    (slotNum, ((solution.solvedSlots slotNum).getD none).map Element.getReference)

variable (value : Option Element)

def bindSlot : MatchPathSolution :=
  { solution with solvedSlots := fun other => if other = slotNum then some value else solution.solvedSlots other }

/-- Bind a slot; the binding that completes the solution signs it. -/
def markSlotSolved : MatchPathSolution :=
  let solved := solution.bindSlot slotNum value
  if solved.solvedCount = solved.totalSlots then { solved with solutionSignature := some (.solution solved.slotReferences) }
  else solved

def enqueueSlot : MatchPathSolution :=
  if solution.queuedSlots slotNum then solution
  else
    { solution with
      slotCursors := solution.slotCursors ++ [(slotNum, value)]
      queuedSlots := fun other => if other = slotNum then true else solution.queuedSlots other }

def getSolutionSignature : Option Signature := solution.solutionSignature

/-- The solution with the optional slots blanked that share a path with the anchor slot. -/
def getEmptyOptionalSolution (matchPath : MatchPath) : Option MatchPathSolution :=
  if (matchPath.slots[solution.anchorSlot]?).any (·.optional) then
    if solution.solvedCount = solution.totalSlots then
      let emptySlots := (List.range solution.totalSlots).filter fun slotNum => solution.solvedSlots slotNum = some none
      let optSlots := matchPath.getOptionalSlotsOnCommonPaths solution.anchorSlot emptySlots
      let blanked : MatchPathSolution :=
        { solution with
          solvedSlots := fun slotNum => if slotNum ∈ optSlots then none else solution.solvedSlots slotNum
          solutionSignature := none }
      some (optSlots.foldl (fun result slotNum => result.markSlotSolved slotNum none) blanked)
    else none
  else none

/-- One variable for every annotated slot that is solved. -/
def intoQueryVariables (matchPath : MatchPath) (baseVariables : QueryVariables) : QueryVariables :=
  matchPath.slots.zipIdx.foldl
    (fun result entry =>
      match solution.solvedSlots entry.2, entry.1.spec.annotationName with
      | some value, some annotationName => result.insert annotationName (value.elim .null .element)
      | _, _ => result)
    baseVariables

end MatchPathSolution

end DrasiCore
