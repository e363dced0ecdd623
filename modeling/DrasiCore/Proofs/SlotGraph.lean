import DrasiCore.PathSolver
import Mathlib.Combinatorics.SimpleGraph.Acyclic

/-! The graph of the slots of a path, and what its edges ask of the elements in the slots. -/

namespace DrasiCore.Proofs

variable (path : MatchPath)

/-- The slot graph: `other` is entered as a neighbour of `slot` in the given direction. -/
def Neighbour (slot other : Nat) (direction : SolveDirection) : Prop :=
  ∃ found, path.slots[slot]? = some found ∧
    match direction with
    | .outward => other ∈ found.outSlots
    | .inward => other ∈ found.inSlots

def Closed : Prop :=
  ∀ slot other direction, Neighbour path slot other direction → other < path.slots.length

def Required : Prop := ∀ slot ∈ path.slots, slot.optional = false

def Adjacent (slot other : Nat) : Prop := ∃ direction, Neighbour path slot other direction

def Connected : Prop :=
  ∀ slot other, slot < path.slots.length → other < path.slots.length →
    Relation.ReflTransGen (Adjacent path) slot other

def Mirrored : Prop :=
  ∀ slot other, Neighbour path slot other .outward ↔ Neighbour path other slot .inward

def slotGraph : SimpleGraph Nat := SimpleGraph.fromRel (Adjacent path)

structure Acyclic (path : MatchPath) : Prop where
  irreflexive : ∀ slot, ¬ Adjacent path slot slot
  acyclic : (slotGraph path).IsAcyclic

/-- The second element follows the first in the direction of relations. -/
def OutwardLink : Element → Element → Prop
  | .node metadata _, .relation _ inNode _ _ => inNode = metadata.reference
  | .relation _ _ outNode _, .node metadata _ => outNode = metadata.reference
  | _, _ => False

def Linked (direction : SolveDirection) (element other : Element) : Prop :=
  match direction with
  | .outward => OutwardLink element other
  | .inward => OutwardLink other element

def SatisfiesEndpoints (assignment : Nat → Element) : Prop :=
  ∀ slot other, Adjacent path slot other →
    ∃ direction, Neighbour path slot other direction ∧ Linked direction (assignment slot) (assignment other)

end DrasiCore.Proofs
