import DrasiCore.Library.OrderedMap
import Mathlib.Algebra.Group.Int.Defs
import Mathlib.Data.Rat.Defs
import Mathlib.Data.String.Basic

/-! The property graph: elements and their property values. -/

namespace DrasiCore

open Library

structure ElementReference where
  sourceId : String
  elementId : String
deriving DecidableEq, Repr

abbrev ElementTimestamp := Nat

/-- Property values. Floats are exact rationals and instants are numbers of nanoseconds. -/
inductive ElementValue where
  | null
  | bool (value : Bool)
  | float (value : Rat)
  | integer (value : Int)
  | string (value : String)
  | list (values : List ElementValue)
  | object (entries : List (String × ElementValue))
  | localDateTime (nanos : Int)
  | zonedDateTime (nanos offset : Int)

namespace ElementValue

mutual

def beq : ElementValue → ElementValue → Bool
  | .null, .null => true
  | .bool left, .bool right => left == right
  | .float left, .float right => left == right
  | .integer left, .integer right => left == right
  | .string left, .string right => left == right
  | .list left, .list right => beqList left right
  | .object left, .object right => beqEntries left right
  | .localDateTime left, .localDateTime right => left == right
  | .zonedDateTime left offset, .zonedDateTime right other => left == right && offset == other
  | _, _ => false

def beqList : List ElementValue → List ElementValue → Bool
  | [], [] => true
  | left :: lefts, right :: rights => beq left right && beqList lefts rights
  | _, _ => false

def beqEntries : List (String × ElementValue) → List (String × ElementValue) → Bool
  | [], [] => true
  | (key, left) :: lefts, (other, right) :: rights => key == other && beq left right && beqEntries lefts rights
  | _, _ => false

end

mutual

theorem beq_iff (left right : ElementValue) : beq left right = true ↔ left = right := by
  cases left <;> cases right
  case list.list lefts rights => simp [beq, beqList_iff lefts rights]
  case object.object lefts rights => simp [beq, beqEntries_iff lefts rights]
  all_goals simp [beq]

theorem beqList_iff : ∀ left right : List ElementValue, beqList left right = true ↔ left = right
  | [], [] => by simp [beqList]
  | [], _ :: _ => by simp [beqList]
  | _ :: _, [] => by simp [beqList]
  | left :: lefts, right :: rights => by simp [beqList, beq_iff left right, beqList_iff lefts rights]

theorem beqEntries_iff : ∀ left right : List (String × ElementValue), beqEntries left right = true ↔ left = right
  | [], [] => by simp [beqEntries]
  | [], _ :: _ => by simp [beqEntries]
  | _ :: _, [] => by simp [beqEntries]
  | (_, left) :: lefts, (_, right) :: rights => by
    simp [beqEntries, beq_iff left right, beqEntries_iff lefts rights]

end

instance : DecidableEq ElementValue := fun left right => decidable_of_iff _ (beq_iff left right)

end ElementValue

abbrev ElementPropertyMap := OrderedMap String ElementValue

namespace ElementPropertyMap

def index (properties : ElementPropertyMap) (key : String) : ElementValue := (properties.get? key).getD .null

/-- Add the entries of the other map whose keys are missing. -/
def merge (properties other : ElementPropertyMap) : ElementPropertyMap :=
  other.entries.foldl
    (fun merged entry => if (merged.get? entry.1).isSome then merged else merged.insert entry.1 entry.2) properties

end ElementPropertyMap

structure ElementMetadata where
  reference : ElementReference
  labels : List String
  effectiveFrom : ElementTimestamp
deriving DecidableEq

inductive Element where
  | node (metadata : ElementMetadata) (properties : ElementPropertyMap)
  | relation (metadata : ElementMetadata) (inNode outNode : ElementReference) (properties : ElementPropertyMap)
deriving DecidableEq

namespace Element

def getMetadata : Element → ElementMetadata
  | .node metadata _ => metadata
  | .relation metadata _ _ _ => metadata

variable (element : Element)

def getReference : ElementReference := element.getMetadata.reference

def getEffectiveFrom : ElementTimestamp := element.getMetadata.effectiveFrom

def getProperties : Element → ElementPropertyMap
  | .node _ properties => properties
  | .relation _ _ _ properties => properties

def getProperty (name : String) : ElementValue := element.getProperties.index name

/-- Keep the properties a partial update leaves out. The program panics when the two elements differ in kind or in
reference; that is `none` here. -/
def mergeMissingProperties : Element → Element → Option Element
  | .node metadata properties, .node otherMetadata otherProperties =>
    if metadata.reference = otherMetadata.reference then some (.node metadata (properties.merge otherProperties))
    else none
  | .relation metadata inNode outNode properties, .relation otherMetadata _ _ otherProperties =>
    if metadata.reference = otherMetadata.reference then
      some (.relation metadata inNode outNode (properties.merge otherProperties))
    else none
  | _, _ => none

theorem getReference_mergeMissingProperties {element previous merged : Element}
    (same : element.mergeMissingProperties previous = some merged) : merged.getReference = element.getReference := by
  cases element <;> cases previous <;> simp only [mergeMissingProperties] at same
  · split at same
    · cases same
      rfl
    · cases same
  · cases same
  · cases same
  · split at same
    · cases same
      rfl
    · cases same

end Element

end DrasiCore
