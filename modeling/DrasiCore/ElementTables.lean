import DrasiCore.ElementIndex

/-! The hash maps of the in-memory element index as they are stored, where an entry is there or not and may hold an
empty set. `lookups` forgets which entries are there. -/

namespace DrasiCore

open Library

/-- Take a reference out of the set of a map entry; an entry whose set becomes empty goes with it. -/
def dropFromEntry (reference : ElementReference) : Option (List ElementReference) → Option (List ElementReference)
  | some set =>
    let rest := set.erase reference
    if rest.isEmpty then none else some rest
  | none => none

/-- Add a reference to the set of a map entry, which is created when there is none. -/
def addToEntry (reference : ElementReference) (entry : Option (List ElementReference)) :
    Option (List ElementReference) := some ((entry.getD []).insert reference)

structure ElementTables where
  elements : ElementReference → Option Element
  slotAffinity : ElementReference → Option (List Nat)
  elementBySlot : Nat → ElementReference → Bool
  elementBySlotIn : Nat → ElementReference → Option (List ElementReference)
  elementBySlotOut : Nat → ElementReference → Option (List ElementReference)

variable (tables : ElementTables) (element : Element) (elementRef : ElementReference) (order : IterationOrder)

namespace ElementTables

def empty : ElementTables := ⟨fun _ => none, fun _ => none, fun _ _ => false, fun _ _ => none, fun _ _ => none⟩

def lookups : InMemoryElementIndex where
  elements := tables.elements
  slotAffinity ref := (tables.slotAffinity ref).getD []
  elementBySlot := tables.elementBySlot
  elementBySlotIn slot node := (tables.elementBySlotIn slot node).getD []
  elementBySlotOut slot node := (tables.elementBySlotOut slot node).getD []

def getElement : Option Element := tables.elements elementRef

def getSlotElementByRef (slot : Nat) (elementRef : ElementReference) : Option Element :=
  if tables.elementBySlot slot elementRef then tables.elements elementRef else none

def getSlotElementsByInbound (slot : Nat) (inboundRef : ElementReference) : List Element :=
  match tables.elementBySlotIn slot inboundRef with
  | none => []
  | some elementRefs => (order.arrange [slot, 0] elementRefs).filterMap tables.elements

def getSlotElementsByOutbound (slot : Nat) (outboundRef : ElementReference) : List Element :=
  match tables.elementBySlotOut slot outboundRef with
  | none => []
  | some elementRefs => (order.arrange [slot, 1] elementRefs).filterMap tables.elements

def clearSlotAffinity : ElementTables :=
  match tables.slotAffinity element.getReference with
  | none => tables
  | some affinity =>
    let cleared : ElementTables :=
      { tables with slotAffinity := fun ref => if ref = element.getReference then none else tables.slotAffinity ref }
    match element with
    | .node metadata _ =>
      { cleared with
        elementBySlot := fun slot ref =>
          tables.elementBySlot slot ref && !(affinity.contains slot && ref == metadata.reference) }
    | .relation metadata inNode outNode _ =>
      { cleared with
        elementBySlotIn := fun slot ref =>
          if affinity.contains slot && ref == inNode then
            dropFromEntry metadata.reference (tables.elementBySlotIn slot ref)
          else tables.elementBySlotIn slot ref
        elementBySlotOut := fun slot ref =>
          if affinity.contains slot && ref == outNode then
            dropFromEntry metadata.reference (tables.elementBySlotOut slot ref)
          else tables.elementBySlotOut slot ref }

def setSlotAffinity (slots : List Nat) : ElementTables :=
  let noted : ElementTables :=
    { tables with
      slotAffinity := fun ref =>
        if ref = element.getReference then some (slots ∪ (tables.slotAffinity ref).getD [])
        else tables.slotAffinity ref }
  match element with
  | .node metadata _ =>
    { noted with
      elementBySlot := fun slot ref =>
        tables.elementBySlot slot ref || (slots.contains slot && ref == metadata.reference) }
  | .relation metadata inNode outNode _ =>
    { noted with
      elementBySlotIn := fun slot ref =>
        if slots.contains slot && ref == inNode then addToEntry metadata.reference (tables.elementBySlotIn slot ref)
        else tables.elementBySlotIn slot ref
      elementBySlotOut := fun slot ref =>
        if slots.contains slot && ref == outNode then addToEntry metadata.reference (tables.elementBySlotOut slot ref)
        else tables.elementBySlotOut slot ref }

def setElement (slotAffinity : List Nat) : ElementTables :=
  let stored : ElementTables :=
    { tables with elements := fun ref => if ref = element.getReference then some element else tables.elements ref }
  let cleared :=
    match tables.elements element.getReference with
    | some prev => stored.clearSlotAffinity prev
    | none => stored
  cleared.setSlotAffinity element slotAffinity

def deleteElement : ElementTables :=
  let removed : ElementTables :=
    { tables with elements := fun ref => if ref = elementRef then none else tables.elements ref }
  match tables.elements elementRef with
  | some oldElement => removed.clearSlotAffinity oldElement
  | none => removed

def clear (_ : ElementTables) : ElementTables := empty

end ElementTables

inductive IndexCall where
  | setElement (element : Element) (slotAffinity : List Nat)
  | deleteElement (elementRef : ElementReference)
  | clear

namespace ElementTables

def perform : IndexCall → ElementTables
  | .setElement element slotAffinity => tables.setElement element slotAffinity
  | .deleteElement elementRef => tables.deleteElement elementRef
  | .clear => tables.clear

def performAll (calls : List IndexCall) : ElementTables := calls.foldl perform tables

end ElementTables

/-- What an element index is for: the last version of every element that is set and not deleted, with its slots. -/
def LatestElements := ElementReference → Option (Element × List Nat)

namespace LatestElements

def none : LatestElements := fun _ => .none

def perform (latest : LatestElements) : IndexCall → LatestElements
  | .setElement element slotAffinity => fun ref =>
    if ref = element.getReference then some (element, slotAffinity) else latest ref
  | .deleteElement elementRef => fun ref => if ref = elementRef then .none else latest ref
  | .clear => none

def performAll (latest : LatestElements) (calls : List IndexCall) : LatestElements := calls.foldl perform latest

end LatestElements

end DrasiCore
