import DrasiCore.ElementIndex
import DrasiCore.MatchPath
import Mathlib.Data.List.AList

/-! Joins between nodes of different sources. Nodes are registered under the join keys they carry, and between two nodes
registered with one value under different keys of a join the index keeps a virtual relation in each direction. -/

namespace DrasiCore

open Library

structure QueryJoinKey where
  label : String
  property : String
deriving DecidableEq

structure QueryJoin where
  id : String
  keys : List QueryJoinKey
deriving DecidableEq

namespace ElementValue

mutual

/-- The hash of a value, assumed to tell apart all that compare different. Zoned instants compare without their offset. -/
def valueHash : ElementValue → ElementValue
  | .zonedDateTime nanos _ => .zonedDateTime nanos 0
  | .list values => .list (valueHashes values)
  | .object entries => .object (entryHashes entries)
  | value => value

def valueHashes : List ElementValue → List ElementValue
  | [] => []
  | value :: values => valueHash value :: valueHashes values

def entryHashes : List (String × ElementValue) → List (String × ElementValue)
  | [] => []
  | (key, value) :: entries => (key, valueHash value) :: entryHashes entries

end

end ElementValue

abbrev JoinSpec := AList fun _ : String => List (QueryJoin × List Nat)

variable (order : IterationOrder) (matchPath : MatchPath) (joins : List QueryJoin)

namespace JoinSpec

/-- The slots of the match path that accept the relations of the join. -/
def joinSlots (join : QueryJoin) : List Nat :=
  (List.range matchPath.slots.length).filter fun slot =>
    (matchPath.slots[slot]?).any fun pathSlot => pathSlot.spec.labels.contains join.id

def push (join : QueryJoin) (slots : List Nat) (spec : JoinSpec) (joinKey : QueryJoinKey) : JoinSpec :=
  spec.insert joinKey.label ((spec.lookup joinKey.label).getD [] ++ [(join, slots)])

def extract : JoinSpec :=
  joins.foldl
    (fun spec join =>
      let slots := joinSlots matchPath join
      if slots.isEmpty then spec else join.keys.foldl (push join slots) spec) ∅

/-- The turns of the loops over labels, joins and keys for an element with these labels. A join with two keys of one label
is listed twice under it. -/
def visits (spec : JoinSpec) (labels : List String) : List ((QueryJoin × List Nat) × QueryJoinKey) :=
  (order.arrange [0] spec.entries).flatMap fun entry =>
    if labels.contains entry.1 then
      entry.2.flatMap fun join => (join.1.keys.filter (·.label = entry.1)).map (join, ·)
    else []

end JoinSpec

def joinSource : String := "&join"

def getJoinVirtualRef (ref1 ref2 : ElementReference) : ElementReference :=
  ⟨joinSource, ref1.elementId ++ ":" ++ ref2.elementId⟩

def joinRelation (joinId : String) (effectiveFrom : ElementTimestamp) (inNode outNode : ElementReference) : Element :=
  .relation ⟨getJoinVirtualRef inNode outNode, [joinId], effectiveFrom⟩ inNode outNode .empty

/-- The element index with its registered join keys. A missing set is an empty list. -/
structure JoinIndex where
  index : InMemoryElementIndex
  joinSpecByLabel : JoinSpec
  partialJoins : String × ElementValue → QueryJoinKey → List ElementReference

variable (fuel : Nat) (state : JoinIndex)

namespace JoinIndex

def new : JoinIndex :=
  ⟨.empty, JoinSpec.extract matchPath joins, fun _ _ => []⟩

def setPartial (outerKey : String × ElementValue) (joinKey : QueryJoinKey) (references : List ElementReference) :
    JoinIndex :=
  { state with
    partialJoins := fun outer key => if outer = outerKey ∧ key = joinKey then references else state.partialJoins outer key }

/-- The nodes registered with the value under the other keys of the join. -/
def counterparts (order : IterationOrder) (join : QueryJoin) (joinKey : QueryJoinKey) (valueHash : ElementValue) :
    List ElementReference :=
  (join.keys.filter (· ≠ joinKey)).flatMap fun other => order.arrange [1] (state.partialJoins (join.id, valueHash) other)

def deleteSourceJoin (delete : JoinIndex → ElementReference → JoinIndex) (oldElement : ElementReference)
    (join : QueryJoin) (joinKey : QueryJoinKey) (value : ElementValue) (state : JoinIndex) : JoinIndex :=
  let outerKey := (join.id, value.valueHash)
  let elementSet := state.partialJoins outerKey joinKey
  if oldElement ∈ elementSet then
    let removed := state.setPartial outerKey joinKey (elementSet.filter (· ≠ oldElement))
    ((removed.counterparts order join joinKey value.valueHash).flatMap fun other =>
      [getJoinVirtualRef oldElement other, getJoinVirtualRef other oldElement]).foldl delete removed
  else state

def deleteSourceJoins (order : IterationOrder) (delete : JoinIndex → ElementReference → JoinIndex)
    (metadata : ElementMetadata) (properties : ElementPropertyMap) (state : JoinIndex) : JoinIndex :=
  (state.joinSpecByLabel.visits order metadata.labels).foldl
    (fun state visit => match properties.get? visit.2.property with
      | some value => state.deleteSourceJoin order delete metadata.reference visit.1.1 visit.2 value
      | none => state) state

/-- Deleting a node deletes its virtual relations, and where such a reference is that of a node again, that one too. Fuel
counts this nesting. -/
def deleteElement (order : IterationOrder) : Nat → JoinIndex → ElementReference → JoinIndex
  | fuel, state, elementRef =>
    let removed := { state with index := state.index.deleteElement elementRef }
    match state.index.elements elementRef, fuel with
    | some (.node metadata properties), fuel + 1 => removed.deleteSourceJoins order (deleteElement order fuel) metadata properties
    | _, _ => removed

/-- The value a node has for the property, whatever its labels are. -/
def nodeProperty (property : String) : Element → Option ElementValue
  | .node _ properties => properties.get? property
  | .relation .. => none

/-- One turn of the loop over the joins of a node that was set. -/
def updateSourceJoin (oldElement : Option Element) (metadata : ElementMetadata) (properties : ElementPropertyMap)
    (state : JoinIndex) (visit : (QueryJoin × List Nat) × QueryJoinKey) : JoinIndex :=
  let ((join, slots), joinKey) := visit
  match properties.get? joinKey.property with
  | none => state
  | some value =>
    let oldValue := oldElement.bind (nodeProperty joinKey.property)
    if oldValue.map (·.valueHash) = some value.valueHash then state
    else
      let outerKey := (join.id, value.valueHash)
      let elementSet := state.partialJoins outerKey joinKey
      if metadata.reference ∈ elementSet then state
      else
        let inserted := state.setPartial outerKey joinKey (metadata.reference :: elementSet)
        let elementsToSet := (inserted.counterparts order join joinKey value.valueHash).flatMap fun other =>
          [joinRelation join.id metadata.effectiveFrom metadata.reference other,
            joinRelation join.id metadata.effectiveFrom other metadata.reference]
        let withoutOld := oldValue.elim inserted fun oldValue =>
          inserted.deleteSourceJoin order (deleteElement order fuel) metadata.reference join joinKey oldValue
        { withoutOld with
          index := elementsToSet.foldl (fun index relation => index.setElement relation slots) withoutOld.index }

/-- Only nodes take part in joins, so setting a virtual relation ends here. -/
def setElement (element : Element) (slotAffinity : List Nat) : JoinIndex :=
  let stored := { state with index := state.index.setElement element slotAffinity }
  match element with
  | .node metadata properties =>
    (stored.joinSpecByLabel.visits order metadata.labels).foldl
      (updateSourceJoin order fuel (state.index.elements element.getReference) metadata properties) stored
  | .relation .. => stored

end JoinIndex

inductive NodeChange where
  | set (metadata : ElementMetadata) (properties : ElementPropertyMap) (slots : List Nat)
  | delete (elementRef : ElementReference)

namespace JoinIndex

def step : NodeChange → JoinIndex
  | .set metadata properties slots => state.setElement order fuel (.node metadata properties) slots
  | .delete elementRef => state.deleteElement order fuel elementRef

def run (changes : List (IterationOrder × NodeChange)) : JoinIndex :=
  changes.foldl (fun state change => state.step change.1 fuel change.2) state

end JoinIndex

end DrasiCore
