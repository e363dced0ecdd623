import DrasiCore.SourceChange
import DrasiCore.Library.IterationOrder

/-! The in-memory element index: elements by reference, the slots each has affinity for, and the lookups that follow
relations between slots. Hash sets are duplicate-free lists; where one is iterated an `IterationOrder` arranges it. -/

namespace DrasiCore

open Library

/-- `elementBySlotIn (slot, node)` holds the relations with affinity for the slot whose `in` end is the node, and
`elementBySlotOut` those whose `out` end it is. A missing entry is an empty list. -/
structure InMemoryElementIndex where
  elements : ElementReference → Option Element
  slotAffinity : ElementReference → List Nat
  elementBySlot : Nat → ElementReference → Bool
  elementBySlotIn : Nat → ElementReference → List ElementReference
  elementBySlotOut : Nat → ElementReference → List ElementReference

namespace InMemoryElementIndex

def empty : InMemoryElementIndex := ⟨fun _ => none, fun _ => [], fun _ _ => false, fun _ _ => [], fun _ _ => []⟩

variable (index : InMemoryElementIndex) (elementRef : ElementReference)

def getElement : Option Element :=
  index.elements elementRef

def getSlotElementByRef (slot : Nat) (elementRef : ElementReference) : Option Element :=
  if index.elementBySlot slot elementRef then index.elements elementRef else none

def getSlotElementsByInbound (order : IterationOrder) (slot : Nat) (inboundRef : ElementReference) : List Element :=
  (order.arrange [slot, 0] (index.elementBySlotIn slot inboundRef)).filterMap index.elements

def getSlotElementsByOutbound (order : IterationOrder) (slot : Nat) (outboundRef : ElementReference) : List Element :=
  (order.arrange [slot, 1] (index.elementBySlotOut slot outboundRef)).filterMap index.elements

variable (element : Element)

def clearSlotAffinity : InMemoryElementIndex :=
  let affinity := index.slotAffinity element.getReference
  let cleared : InMemoryElementIndex :=
    { index with slotAffinity := fun ref => if ref = element.getReference then [] else index.slotAffinity ref }
  match element with
  | .node metadata _ =>
    { cleared with
      elementBySlot := fun slot ref =>
        index.elementBySlot slot ref && !(affinity.contains slot && ref == metadata.reference) }
  | .relation metadata inNode outNode _ =>
    { cleared with
      elementBySlotIn := fun slot ref =>
        if affinity.contains slot && ref == inNode then (index.elementBySlotIn slot ref).erase metadata.reference
        else index.elementBySlotIn slot ref
      elementBySlotOut := fun slot ref =>
        if affinity.contains slot && ref == outNode then (index.elementBySlotOut slot ref).erase metadata.reference
        else index.elementBySlotOut slot ref }

def setSlotAffinity (slots : List Nat) : InMemoryElementIndex :=
  let noted : InMemoryElementIndex :=
    { index with
      slotAffinity := fun ref =>
        if ref = element.getReference then slots ∪ index.slotAffinity ref else index.slotAffinity ref }
  match element with
  | .node metadata _ =>
    { noted with
      elementBySlot := fun slot ref =>
        index.elementBySlot slot ref || (slots.contains slot && ref == metadata.reference) }
  | .relation metadata inNode outNode _ =>
    { noted with
      elementBySlotIn := fun slot ref =>
        if slots.contains slot && ref == inNode then (index.elementBySlotIn slot ref).insert metadata.reference
        else index.elementBySlotIn slot ref
      elementBySlotOut := fun slot ref =>
        if slots.contains slot && ref == outNode then (index.elementBySlotOut slot ref).insert metadata.reference
        else index.elementBySlotOut slot ref }

def setElement (slotAffinity : List Nat) : InMemoryElementIndex :=
  let stored : InMemoryElementIndex :=
    { index with elements := fun ref => if ref = element.getReference then some element else index.elements ref }
  let cleared :=
    match index.elements element.getReference with
    | some prev => stored.clearSlotAffinity prev
    | none => stored
  cleared.setSlotAffinity element slotAffinity

def deleteElement : InMemoryElementIndex :=
  let removed : InMemoryElementIndex :=
    { index with elements := fun ref => if ref = elementRef then none else index.elements ref }
  match index.elements elementRef with
  | some oldElement => removed.clearSlotAffinity oldElement
  | none => removed

def HasAffinity (slot : Nat) : Prop :=
  index.elements element.getReference = some element ∧ slot ∈ index.slotAffinity element.getReference

/-- The slot-affinity invariant: elements are filed under their own references, and the lookup tables hold exactly the
indexed elements, nodes by reference and relations by their ends, for the slots they have affinity for. -/
structure Consistent (index : InMemoryElementIndex) : Prop where
  filed : ∀ ref element, index.elements ref = some element → element.getReference = ref
  unfiled : ∀ ref, index.elements ref = none → index.slotAffinity ref = []
  nodes : ∀ slot ref, index.elementBySlot slot ref = true ↔
    ∃ metadata properties, metadata.reference = ref ∧ index.HasAffinity (.node metadata properties) slot
  inbound : ∀ slot node ref, ref ∈ index.elementBySlotIn slot node ↔
    ∃ metadata outNode properties, metadata.reference = ref ∧
      index.HasAffinity (.relation metadata node outNode properties) slot
  inboundNodup : ∀ slot node, (index.elementBySlotIn slot node).Nodup
  outbound : ∀ slot node ref, ref ∈ index.elementBySlotOut slot node ↔
    ∃ metadata inNode properties, metadata.reference = ref ∧
      index.HasAffinity (.relation metadata inNode node properties) slot
  outboundNodup : ∀ slot node, (index.elementBySlotOut slot node).Nodup

end InMemoryElementIndex

end DrasiCore
