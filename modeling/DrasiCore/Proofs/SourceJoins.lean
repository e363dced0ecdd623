import DrasiCore.Proofs.JoinRegistrations

/-! Runs of source joins. A run whose steps keep to what registration can follow registers exactly the keys that live nodes
carry, so its virtual relations are those of the matching pairs. -/

namespace DrasiCore

open Library Proofs JoinSpec List Function JoinIndex InMemoryElementIndex

/-- The value a node carries for a join key, if it has the label and the property. -/
def Element.joinValue (joinKey : QueryJoinKey) : Element → Option ElementValue
  | .node metadata properties =>
    if joinKey.label ∈ metadata.labels then (properties.get? joinKey.property).map (·.valueHash) else none
  | .relation .. => none

variable {joinKey : QueryJoinKey} {value : ElementValue}

theorem Element.joinValue_property {element} (carries : element.joinValue joinKey = some value) :
    (nodeProperty joinKey.property element).map (·.valueHash) = some value := by
  cases element with
  | node metadata properties => exact (Option.ite_none_right_eq_some.mp carries).2
  | relation metadata inNode outNode properties => cases carries

def carried (joins : List QueryJoin) (elements : ElementReference → Option Element) : JoinRegistry :=
  fun join joinKey value ref => join ∈ joins ∧ joinKey ∈ join.keys ∧ (elements ref).bind (·.joinValue joinKey) = some value

variable {elements : ElementReference → Option Element} {join : QueryJoin}
variable {bound : JoinRegistry} {ref : ElementReference}

variable {joins : List QueryJoin} {state : JoinIndex} {matchPath : MatchPath} {order : IterationOrder}

namespace JoinIndex

/-- A node that is set, and what was stored under its reference before. -/
structure NodeUpdate where
  oldElement : Option Element
  metadata : ElementMetadata
  properties : ElementPropertyMap

namespace NodeUpdate

def newValue (update : NodeUpdate) (joinKey : QueryJoinKey) : Option ElementValue :=
  (Element.node update.metadata update.properties).joinValue joinKey

def oldValue (update : NodeUpdate) (joinKey : QueryJoinKey) : Option ElementValue :=
  update.oldElement.bind (·.joinValue joinKey)

/-- The update is one that registration can follow: the key is not dropped, and it is not carried anew by a mere label. -/
def Follows (update : NodeUpdate) (joinKey : QueryJoinKey) : Prop :=
  (update.oldValue joinKey ≠ none → update.newValue joinKey ≠ none) ∧
    (update.oldValue joinKey = none → ∀ value, update.newValue joinKey = some value →
      (update.oldElement.bind (nodeProperty joinKey.property)).map (·.valueHash) ≠ some value)

/-- The node is registered under the key with the given value and no other. -/
def RegisteredAs (update : NodeUpdate) (joins : List QueryJoin) (state : JoinIndex) (join : QueryJoin) (joinKey : QueryJoinKey)
    (value : Option ElementValue) : Prop :=
  ∀ value', state.registry joins join joinKey value' update.metadata.reference ↔ value = some value'

end NodeUpdate

/-- After its turn a key is registered with its new value, and nothing else has changed. -/
structure Visited (slots : QueryJoin → List Nat) (joins bound elements) (update : NodeUpdate) (join joinKey)
    (state after : JoinIndex) : Prop where
  linking : Linking slots joins bound elements after
  spec : after.joinSpecByLabel = state.joinSpecByLabel
  settled : update.RegisteredAs joins after join joinKey (update.newValue joinKey)
  frame : ∀ join' joinKey' value' ref', ¬ (join' = join ∧ joinKey' = joinKey ∧ ref' = update.metadata.reference) →
    (after.registry joins join' joinKey' value' ref' ↔ state.registry joins join' joinKey' value' ref')

section updates

variable {slots : QueryJoin → List Nat}
  {update : NodeUpdate}
  (wellNamed : WellNamed bound) (unique : UniqueIds joins)
  (bounded : ∀ {join joinKey value}, join ∈ joins → joinKey ∈ join.keys → update.newValue joinKey = some value →
    bound join joinKey value update.metadata.reference)

include wellNamed unique bounded

theorem Linking.visit (linking : Linking slots joins bound elements state) (order : IterationOrder) (fuel : Nat)
    (isJoin : join ∈ joins) (isKey : joinKey ∈ join.keys) (has : joinKey.label ∈ update.metadata.labels)
    (follows : update.Follows joinKey)
    (status : update.RegisteredAs joins state join joinKey (update.newValue joinKey) ∨
      update.RegisteredAs joins state join joinKey (update.oldValue joinKey)) :
    Visited slots joins bound elements update join joinKey state
      (state.updateSourceJoin order fuel update.oldElement update.metadata update.properties ((join, slots join), joinKey)) := by
  have unchanged : ∀ after : JoinIndex, after = state → update.RegisteredAs joins state join joinKey (update.newValue joinKey) →
      Visited slots joins bound elements update join joinKey state after := by
    rintro after rfl settled
    exact ⟨linking, rfl, settled, fun _ _ _ _ _ => .rfl⟩
  have carries : update.newValue joinKey = (update.properties.get? joinKey.property).map (·.valueHash) := if_pos has
  cases property : update.properties.get? joinKey.property with
  | none =>
    refine unchanged _ (by simp [updateSourceJoin, property]) ?_
    have dropped : update.newValue joinKey = none := by simp [carries, property]
    have absent : update.oldValue joinKey = none := by
      by_contra carried
      exact follows.1 carried dropped
    rw [absent, ← dropped, or_self] at status
    exact status
  | some value =>
    have carries' : update.newValue joinKey = some value.valueHash := by simp [carries, property]
    by_cases same : (update.oldElement.bind (nodeProperty joinKey.property)).map (·.valueHash) = some value.valueHash
    · refine unchanged _ (by simp [updateSourceJoin, property, same]) (status.elim id fun unsettled => ?_)
      -- The property is the old one, so the key was carried already.
      have carried : update.oldValue joinKey ≠ none := fun absent => follows.2 absent _ carries' same
      obtain ⟨old, carried⟩ := Option.ne_none_iff_exists'.mp carried
      obtain ⟨oldElement, stored, carries''⟩ := Option.bind_eq_some_iff.mp carried
      have hash := Element.joinValue_property carries''
      rw [stored, Option.bind_some, hash] at same
      rw [carries', ← same, ← carried]
      exact unsettled
    · by_cases registered : update.metadata.reference ∈ state.partialJoins (join.id, value.valueHash) joinKey
      · refine unchanged _ (by simp [updateSourceJoin, property, registered]) (status.elim id fun unsettled => ?_)
        have carried := (unsettled value.valueHash).mp ⟨isJoin, isKey, registered⟩
        rw [carries', ← carried]
        exact unsettled
      · have unsettled : update.RegisteredAs joins state join joinKey (update.oldValue joinKey) :=
          status.resolve_left fun settled => registered ((settled _).mpr carries').2.2
        have onlyOld : ∀ value', state.registry joins join joinKey value' update.metadata.reference →
            (update.oldElement.bind (nodeProperty joinKey.property)).map (·.valueHash) = some value' := by
          intro value' is
          obtain ⟨oldElement, stored, carries''⟩ := Option.bind_eq_some_iff.mp ((unsettled value').mp is)
          rw [stored]
          exact Element.joinValue_property carries''
        obtain ⟨linking', spec, registers⟩ := linking.register wellNamed unique isJoin isKey order fuel property same registered
          (bounded isJoin isKey carries') onlyOld
        refine ⟨linking', spec, fun value' => ?_, fun join' joinKey' value' ref' elsewhere => ?_⟩
        · rw [registers, if_pos ⟨rfl, rfl, rfl⟩, carries', Option.some.injEq, eq_comm]
        · rw [registers, if_neg elsewhere]

/-- Turn after turn: a key that is visited is registered with its new value, and so are those that were before. -/
theorem Linking.visits (linking : Linking slots joins bound elements state) (order : IterationOrder) (fuel : Nat)
    (follows : ∀ join ∈ joins, ∀ joinKey ∈ join.keys, update.Follows joinKey)
    {visits : List ((QueryJoin × List Nat) × QueryJoinKey)}
    (valid : ∀ visit ∈ visits, visit.1.1 ∈ joins ∧ visit.1.2 = slots visit.1.1 ∧ visit.2 ∈ visit.1.1.keys ∧
      visit.2.label ∈ update.metadata.labels)
    (status : ∀ join ∈ joins, ∀ joinKey ∈ join.keys,
      update.RegisteredAs joins state join joinKey (update.newValue joinKey) ∨
        update.RegisteredAs joins state join joinKey (update.oldValue joinKey)) :
    let after := visits.foldl (updateSourceJoin order fuel update.oldElement update.metadata update.properties) state
    Linking slots joins bound elements after ∧ after.joinSpecByLabel = state.joinSpecByLabel ∧
      (∀ join joinKey, update.RegisteredAs joins state join joinKey (update.newValue joinKey) ∨
        ((join, slots join), joinKey) ∈ visits → update.RegisteredAs joins after join joinKey (update.newValue joinKey)) ∧
      ∀ join joinKey value ref, ref ≠ update.metadata.reference →
        (after.registry joins join joinKey value ref ↔ state.registry joins join joinKey value ref) := by
  induction visits generalizing state with
  | nil => exact ⟨linking, rfl, by simp, fun _ _ _ _ _ => .rfl⟩
  | cons visit visits ih =>
    obtain ⟨⟨join, slots'⟩, joinKey⟩ := visit
    obtain ⟨isJoin, slotsOf, isKey, has⟩ := valid _ mem_cons_self
    dsimp only at isJoin slotsOf isKey has
    subst slotsOf
    obtain ⟨linking', spec, settles, frame⟩ := linking.visit wellNamed unique bounded order fuel isJoin isKey has
      (follows join isJoin joinKey isKey) (status join isJoin joinKey isKey)
    let next := state.updateSourceJoin order fuel update.oldElement update.metadata update.properties ((join, slots join), joinKey)
    have keeps : ∀ join' joinKey' value, ¬ (join' = join ∧ joinKey' = joinKey) →
        update.RegisteredAs joins state join' joinKey' value → update.RegisteredAs joins next join' joinKey' value :=
      fun join' joinKey' value elsewhere was value' =>
        (frame _ _ _ _ fun same => elsewhere ⟨same.1, same.2.1⟩).trans (was value')
    have settled : ∀ join' joinKey', update.RegisteredAs joins state join' joinKey' (update.newValue joinKey') →
        update.RegisteredAs joins next join' joinKey' (update.newValue joinKey') := by
      intro join' joinKey' was
      by_cases here : join' = join ∧ joinKey' = joinKey
      · obtain ⟨rfl, rfl⟩ := here
        exact settles
      · exact keeps _ _ _ here was
    obtain ⟨linking'', spec', later, others⟩ := ih linking' (fun visit member => valid visit (mem_cons_of_mem _ member))
      (by
        intro join' isJoin' joinKey' isKey'
        by_cases here : join' = join ∧ joinKey' = joinKey
        · obtain ⟨rfl, rfl⟩ := here
          exact .inl settles
        · exact (status join' isJoin' joinKey' isKey').imp (keeps _ _ _ here) (keeps _ _ _ here))
    refine ⟨linking'', spec'.trans spec, fun join' joinKey' was => later join' joinKey' ?_,
      fun join' joinKey' value ref differs => ?_⟩
    · rcases was with was | member
      · exact .inl (settled join' joinKey' was)
      · rcases mem_cons.mp member with same | member
        · cases same
          exact .inl settles
        · exact .inr member
    · exact (others join' joinKey' value ref differs).trans (frame _ _ _ _ fun same => differs same.2.2)

end updates

/-- The joins that have a slot in the match path; no other takes part. -/
def active (matchPath : MatchPath) (joins : List QueryJoin) : List QueryJoin :=
  joins.filter fun join => !(joinSlots matchPath join).isEmpty

theorem mem_visits_active {matchPath order labels slots} :
    ((join, slots), joinKey) ∈ (extract matchPath joins).visits order labels ↔
      join ∈ active matchPath joins ∧ slots = joinSlots matchPath join ∧ joinKey ∈ join.keys ∧ joinKey.label ∈ labels := by
  rw [mem_visits, active, mem_filter]
  constructor
  · rintro ⟨isJoin, rfl, nonempty, isKey, has⟩
    exact ⟨⟨isJoin, by simpa using nonempty⟩, rfl, isKey, has⟩
  · rintro ⟨⟨isJoin, nonempty⟩, rfl, isKey, has⟩
    exact ⟨isJoin, rfl, by simpa using nonempty, isKey, has⟩

/-- After every call: exactly what live nodes carry is registered, and the relations show its links. -/
structure Tracked (matchPath : MatchPath) (joins : List QueryJoin) (state : JoinIndex) : Prop where
  spec : state.joinSpecByLabel = extract matchPath joins
  consistent : state.index.Consistent
  real : ∀ {ref element}, ref.sourceId ≠ joinSource → state.index.elements ref = some element →
    ∃ metadata properties, element = .node metadata properties
  registered : state.registry (active matchPath joins) = carried (active matchPath joins) state.index.elements
  wellNamed : WellNamed (carried (active matchPath joins) state.index.elements)
  links : ShowsLinks (joinSlots matchPath) (carried (active matchPath joins) state.index.elements).Linked state.index

theorem carried_single :
    (carried joins elements).SingleValued := fun _ _ _ _ _ first second => Option.some.inj (first.2.2.symm.trans second.2.2)

theorem carried_node (is : carried joins elements join joinKey value ref) :
    ∃ metadata properties, elements ref = some (.node metadata properties) ∧ joinKey.label ∈ metadata.labels ∧
      (properties.get? joinKey.property).map (·.valueHash) = some value := by
  obtain ⟨element, stored, carries⟩ := Option.bind_eq_some_iff.mp is.2.2
  cases element with
  | node metadata properties =>
    obtain ⟨has, property⟩ := Option.ite_none_right_eq_some.mp carries
    exact ⟨metadata, properties, stored, has, property⟩
  | relation metadata inNode outNode properties => cases carries

theorem Tracked.carried_real (tracked : Tracked matchPath joins state)
    (is : carried (active matchPath joins) state.index.elements join joinKey value ref) : ref.sourceId ≠ joinSource := by
  obtain ⟨metadata, properties, stored, -⟩ := carried_node is
  exact fun virtual => virtualRelations_of_links tracked.links ref metadata properties virtual stored

/-- The invariant from what a step leaves: the links of its registrations, and the elements it was to leave. -/
theorem Linking.tracked
    (linking : Linking (joinSlots matchPath) (active matchPath joins) bound elements state)
    (wellNamed : WellNamed bound) (spec : state.joinSpecByLabel = extract matchPath joins)
    (real : ∀ {ref element}, ref.sourceId ≠ joinSource → elements ref = some element →
      ∃ metadata properties, element = .node metadata properties)
    (registered : ∀ join joinKey value ref, state.registry (active matchPath joins) join joinKey value ref ↔
      ref.sourceId ≠ joinSource ∧ carried (active matchPath joins) elements join joinKey value ref) :
    Tracked matchPath joins state := by
  have same : state.registry (active matchPath joins) = carried (active matchPath joins) state.index.elements := by
    funext join joinKey value ref
    rw [eq_iff_iff, registered]
    by_cases isReal : ref.sourceId ≠ joinSource
    · simp [isReal, carried, linking.elements ref isReal]
    · simp only [isReal, false_and, false_iff]
      intro is
      obtain ⟨metadata, properties, stored, -⟩ := carried_node is
      exact virtualRelations_of_links linking.links ref metadata properties (not_not.mp isReal) stored
  exact {
    spec
    consistent := linking.consistent
    real := fun isReal stored => real isReal (linking.elements _ isReal ▸ stored)
    registered := same
    wellNamed := same ▸ wellNamed.mono linking.within
    links := same ▸ linking.links }

end JoinIndex

/-- What joins can follow. The virtual source is nobody's. A node that is set keeps the keys it carried and does not come to
carry one by a label alone; and with what nodes carry before and after, no two are linked in two ways and no two linked
pairs share a virtual reference. -/
def NodeChange.Followed (matchPath : MatchPath) (joins : List QueryJoin) (index : InMemoryElementIndex) : NodeChange → Prop
  | .set metadata properties _ =>
    metadata.reference.sourceId ≠ joinSource ∧
    (∀ join ∈ active matchPath joins, ∀ joinKey ∈ join.keys,
      JoinIndex.NodeUpdate.Follows ⟨index.elements metadata.reference, metadata, properties⟩ joinKey) ∧
    WellNamed fun join joinKey value ref =>
      carried (active matchPath joins) index.elements join joinKey value ref ∨
        carried (active matchPath joins)
          (Function.update index.elements metadata.reference (some (.node metadata properties))) join joinKey value ref
  | .delete elementRef => elementRef.sourceId ≠ joinSource

namespace JoinIndex

section tracked

theorem UniqueIds.active (unique : UniqueIds joins) : UniqueIds (active matchPath joins) :=
  fun join isJoin join' isJoin' => unique join (mem_of_mem_filter isJoin) join' (mem_of_mem_filter isJoin')

theorem setNode_elements (index : InMemoryElementIndex) (metadata : ElementMetadata) (properties : ElementPropertyMap)
    (slots : List Nat) :
    (index.setElement (.node metadata properties) slots).elements =
      Function.update index.elements metadata.reference (some (.node metadata properties)) := by
  funext ref
  rw [setElement_elements, update_apply]
  rfl

theorem Tracked.stored (tracked : Tracked matchPath joins state) {metadata} (properties : ElementPropertyMap)
    (slots : List Nat) (isReal : metadata.reference.sourceId ≠ joinSource)
    (bound : JoinRegistry)
    (within : ∀ {join joinKey value ref}, carried (active matchPath joins) state.index.elements join joinKey value ref →
      bound join joinKey value ref) :
    Linking (joinSlots matchPath) (active matchPath joins) bound
      (Function.update state.index.elements metadata.reference (some (.node metadata properties)))
      { state with index := state.index.setElement (.node metadata properties) slots } where
  consistent := setElement_consistent tracked.consistent (.node metadata properties) slots
  links := by
    refine ShowsLinks.frame (tracked.registered ▸ tracked.links) fun ref virtual => ?_
    have differs : ref ≠ metadata.reference := fun same => isReal (same ▸ virtual)
    refine ⟨by rw [setNode_elements, update_of_ne differs], fun slot => ?_⟩
    rw [mem_setElement_slotAffinity tracked.consistent]
    exact iff_of_eq (if_neg differs)
  within is := within (tracked.registered ▸ is)
  single := fun _ _ _ _ _ first second => carried_single (tracked.registered ▸ first) (tracked.registered ▸ second)
  elements ref _ := by rw [setNode_elements]

theorem Tracked.setElement (tracked : Tracked matchPath joins state) (unique : UniqueIds joins) (order : IterationOrder)
    (fuel : Nat) {metadata : ElementMetadata} {properties : ElementPropertyMap} {slots : List Nat}
    (followed : (NodeChange.set metadata properties slots).Followed matchPath joins state.index) :
    Tracked matchPath joins (state.setElement order fuel (.node metadata properties) slots) := by
  obtain ⟨isReal, follows, wellNamed⟩ := followed
  let update : NodeUpdate := ⟨state.index.elements metadata.reference, metadata, properties⟩
  let elements := Function.update state.index.elements metadata.reference (some (.node metadata properties))
  let bound : JoinRegistry := fun join joinKey value ref =>
    carried (active matchPath joins) state.index.elements join joinKey value ref ∨
      carried (active matchPath joins) elements join joinKey value ref
  have real : ∀ {ref element}, ref.sourceId ≠ joinSource → elements ref = some element →
      ∃ metadata properties, element = .node metadata properties := by
    intro ref element isReal stored
    by_cases same : ref = metadata.reference
    · subst same
      have is : element = .node metadata properties := by simpa [elements] using stored.symm
      exact ⟨metadata, properties, is⟩
    · exact tracked.real isReal (by simpa [elements, same] using stored)
  have begun := tracked.stored properties slots isReal bound fun is => .inl is
  have unsettled : ∀ join ∈ active matchPath joins, ∀ joinKey ∈ join.keys,
      update.RegisteredAs (active matchPath joins) { state with index := state.index.setElement (.node metadata properties) slots }
        join joinKey (update.oldValue joinKey) := by
    intro join isJoin joinKey isKey value
    refine (iff_of_eq (congrFun (congrFun (congrFun (congrFun tracked.registered join) joinKey) value) metadata.reference)).trans ?_
    simp [carried, isJoin, isKey, update, NodeUpdate.oldValue]
  have carries : ∀ join joinKey value, carried (active matchPath joins) elements join joinKey value metadata.reference ↔
      join ∈ active matchPath joins ∧ joinKey ∈ join.keys ∧ update.newValue joinKey = some value := by
    intro join joinKey value
    have stored : elements metadata.reference = some (.node metadata properties) := update_self ..
    simp only [carried, stored, Option.bind_some]
    rfl
  have valid : ∀ visit ∈ (extract matchPath joins).visits order metadata.labels,
      visit.1.1 ∈ active matchPath joins ∧ visit.1.2 = joinSlots matchPath visit.1.1 ∧ visit.2 ∈ visit.1.1.keys ∧
        visit.2.label ∈ update.metadata.labels := fun visit member => mem_visits_active.mp member
  obtain ⟨linking, spec, settled, others⟩ := begun.visits wellNamed unique.active
    (fun isJoin isKey new => .inr ((carries _ _ _).mpr ⟨isJoin, isKey, new⟩)) order fuel follows valid
    fun join isJoin joinKey isKey => .inr (unsettled join isJoin joinKey isKey)
  have unfolds : state.setElement order fuel (.node metadata properties) slots =
      ((extract matchPath joins).visits order metadata.labels).foldl
        (updateSourceJoin order fuel update.oldElement update.metadata update.properties)
        { state with index := state.index.setElement (.node metadata properties) slots } := by
    rw [← tracked.spec]
    rfl
  rw [← unfolds] at linking spec settled others
  have newest : ∀ join ∈ active matchPath joins, ∀ joinKey ∈ join.keys, update.RegisteredAs (active matchPath joins)
      (state.setElement order fuel (.node metadata properties) slots) join joinKey (update.newValue joinKey) := by
    intro join isJoin joinKey isKey
    by_cases has : joinKey.label ∈ metadata.labels
    · exact settled join joinKey (.inr (mem_visits_active.mpr ⟨isJoin, rfl, isKey, has⟩))
    · -- A key that is not visited is not carried, and was not before.
      have new : update.newValue joinKey = none := if_neg has
      have old : update.oldValue joinKey = none := by
        by_contra carried
        exact (follows join isJoin joinKey isKey).1 carried new
      refine settled join joinKey (.inl ?_)
      rw [new, ← old]
      exact unsettled join isJoin joinKey isKey
  refine linking.tracked wellNamed (spec.trans tracked.spec) real fun join joinKey value ref => ?_
  by_cases same : ref = metadata.reference
  · subst same
    rw [carries]
    constructor
    · intro is
      exact ⟨isReal, is.1, is.2.1, (newest join is.1 joinKey is.2.1 value).mp is⟩
    · rintro ⟨-, isJoin, isKey, new⟩
      exact (newest join isJoin joinKey isKey value).mpr new
  · refine (others join joinKey value ref same).trans ?_
    have kept : carried (active matchPath joins) elements join joinKey value ref ↔
        carried (active matchPath joins) state.index.elements join joinKey value ref := by simp [carried, elements, same]
    rw [kept, ← tracked.registered]
    exact ⟨fun is => ⟨tracked.carried_real (tracked.registered ▸ is), is⟩, And.right⟩

theorem Linking.deletes {slots : QueryJoin → List Nat} (wellNamed : WellNamed bound) (unique : UniqueIds joins)
    (linking : Linking slots joins bound elements state) (order : IterationOrder) (fuel : Nat)
    (metadata : ElementMetadata) (properties : ElementPropertyMap) {visits : List ((QueryJoin × List Nat) × QueryJoinKey)}
    (valid : ∀ visit ∈ visits, visit.1.1 ∈ joins ∧ visit.2 ∈ visit.1.1.keys) :
    let after := visits.foldl (fun state visit => match properties.get? visit.2.property with
      | some value => state.deleteSourceJoin order (deleteElement order fuel) metadata.reference visit.1.1 visit.2 value
      | none => state) state
    Linking slots joins bound elements after ∧ after.joinSpecByLabel = state.joinSpecByLabel ∧
      ∀ join joinKey value ref, after.registry joins join joinKey value ref ↔
        state.registry joins join joinKey value ref ∧ ¬ (ref = metadata.reference ∧ (∃ slots, ((join, slots), joinKey) ∈ visits) ∧
          (properties.get? joinKey.property).map (·.valueHash) = some value) := by
  induction visits generalizing state with
  | nil => exact ⟨linking, rfl, by simp⟩
  | cons visit visits ih =>
    obtain ⟨⟨join, slots'⟩, joinKey⟩ := visit
    obtain ⟨isJoin, isKey⟩ := valid _ mem_cons_self
    have valid' := fun visit member => valid visit (mem_cons_of_mem _ member)
    rw [foldl_cons]
    cases property : properties.get? joinKey.property with
    | none =>
      obtain ⟨linking', spec, registers⟩ := ih linking valid'
      refine ⟨linking', spec, fun join' joinKey' value ref => (registers join' joinKey' value ref).trans ?_⟩
      grind
    | some oldValue =>
      obtain ⟨linking', spec, erased⟩ :=
        linking.deleteSourceJoin wellNamed unique isJoin isKey order fuel metadata.reference oldValue
      obtain ⟨linking'', spec', registers⟩ := ih linking' valid'
      refine ⟨linking'', spec'.trans spec, fun join' joinKey' value ref => (registers join' joinKey' value ref).trans ?_⟩
      rw [erased]
      simp only [Registry.erase]
      grind

theorem Tracked.deleteElement (tracked : Tracked matchPath joins state) (unique : UniqueIds joins)
    (order : IterationOrder) (fuel : Nat) {elementRef : ElementReference}
    (followed : (NodeChange.delete elementRef).Followed matchPath joins state.index) :
    Tracked matchPath joins (state.deleteElement order (fuel + 1) elementRef) := by
  have isReal : elementRef.sourceId ≠ joinSource := followed
  let elements := Function.update state.index.elements elementRef none
  have removed : Linking (joinSlots matchPath) (active matchPath joins)
      (carried (active matchPath joins) state.index.elements) elements
      { state with index := state.index.deleteElement elementRef } :=
    { consistent := deleteElement_consistent tracked.consistent elementRef
      links := by
        refine ShowsLinks.frame (tracked.registered ▸ tracked.links) fun ref virtual => ?_
        have differs : ref ≠ elementRef := fun same => isReal (same ▸ virtual)
        refine ⟨by rw [deleteElement_elements, if_neg differs], fun slot => ?_⟩
        rw [(deleteElement_cleared tracked.consistent elementRef).affinity, if_neg differs]
      within := fun is => tracked.registered ▸ is
      single := fun _ _ _ _ _ first second => carried_single (tracked.registered ▸ first) (tracked.registered ▸ second)
      elements := fun ref _ => (deleteElement_elements ..).trans (update_apply ..).symm }
  have stays : ∀ {ref element}, elements ref = some element → ref ≠ elementRef ∧ state.index.elements ref = some element := by
    intro ref element stored
    by_cases same : ref = elementRef
    · simp [elements, same] at stored
    · exact ⟨same, by simpa [elements, same] using stored⟩
  have gone : ∀ join joinKey value ref, carried (active matchPath joins) elements join joinKey value ref ↔
      carried (active matchPath joins) state.index.elements join joinKey value ref ∧ ref ≠ elementRef := by
    intro join joinKey value ref
    by_cases same : ref = elementRef <;> simp [carried, elements, same]
  have finish : ∀ after : JoinIndex, Linking (joinSlots matchPath) (active matchPath joins)
      (carried (active matchPath joins) state.index.elements) elements after →
      after.joinSpecByLabel = state.joinSpecByLabel →
      (∀ join joinKey value ref, after.registry (active matchPath joins) join joinKey value ref ↔
        carried (active matchPath joins) state.index.elements join joinKey value ref ∧ ref ≠ elementRef) →
      Tracked matchPath joins after := by
    intro after linking spec registers
    refine linking.tracked tracked.wellNamed (spec.trans tracked.spec) (fun isReal stored => tracked.real isReal (stays stored).2)
      fun join joinKey value ref => ?_
    rw [registers, gone, iff_and_self]
    exact fun is => tracked.carried_real is.1
  unfold JoinIndex.deleteElement
  split
  case h_1 metadata properties _ stored _ =>
    obtain rfl : metadata.reference = elementRef := tracked.consistent.filed elementRef _ stored
    have valid : ∀ visit ∈ state.joinSpecByLabel.visits order metadata.labels,
        visit.1.1 ∈ active matchPath joins ∧ visit.2 ∈ visit.1.1.keys := by
      rintro ⟨⟨join, slots⟩, joinKey⟩ member
      obtain ⟨isJoin, -, isKey, -⟩ := mem_visits_active.mp (tracked.spec ▸ member)
      exact ⟨isJoin, isKey⟩
    obtain ⟨linking, spec, registers⟩ := removed.deletes tracked.wellNamed unique.active order _ metadata properties valid
    refine finish _ linking spec fun join joinKey value ref => (registers join joinKey value ref).trans ?_
    change state.registry (active matchPath joins) join joinKey value ref ∧ _ ↔ _
    rw [tracked.registered]
    refine and_congr_right fun is => not_congr (and_iff_left_of_imp ?_)
    rintro rfl
    -- Every key the node carried has its turn.
    obtain ⟨metadata', properties', stored', has, property⟩ := carried_node is
    obtain ⟨rfl, rfl⟩ : metadata' = metadata ∧ properties' = properties := by simpa [stored] using stored'.symm
    exact ⟨⟨_, tracked.spec ▸ mem_visits_active.mpr ⟨is.1, rfl, is.2.1, has⟩⟩, property⟩
  case h_2 other =>
    refine finish _ removed rfl fun join joinKey value ref => ?_
    change state.registry (active matchPath joins) join joinKey value ref ↔ _
    rw [tracked.registered, iff_self_and]
    rintro is rfl
    obtain ⟨metadata, properties, stored, -⟩ := carried_node is
    exact other metadata properties fuel stored rfl

theorem Tracked.new : Tracked matchPath joins (.new matchPath joins) where
  spec := rfl
  consistent := empty_consistent
  real := fun _ stored => nomatch stored
  registered := by
    funext join joinKey value ref
    simp [registry, carried, JoinIndex.new, empty]
  wellNamed := ⟨fun _ _ _ _ _ _ _ _ ⟨_, _, is, _⟩ => (nomatch is.2.2), fun ⟨_, _, _, _, is, _⟩ => (nomatch is.2.2)⟩
  links := ⟨fun ⟨_, _, _, _, is, _⟩ => (nomatch is.2.2), fun _ present => absurd rfl present⟩

theorem Tracked.step (tracked : Tracked matchPath joins state) (unique : UniqueIds joins) (order : IterationOrder)
    (fuel : Nat) {change} (followed : change.Followed matchPath joins state.index) :
    Tracked matchPath joins (state.step order (fuel + 1) change) := by
  cases change with
  | set metadata properties slots => exact tracked.setElement unique order (fuel + 1) followed
  | delete elementRef => exact tracked.deleteElement unique order fuel followed

/-- Every change of the run is one that joins can follow from the state it meets. -/
def RunFollowed (matchPath : MatchPath) (joins : List QueryJoin) (fuel : Nat) :
    JoinIndex → List (IterationOrder × NodeChange) → Prop
  | _, [] => True
  | state, (order, change) :: changes =>
    change.Followed matchPath joins state.index ∧ RunFollowed matchPath joins fuel (state.step order fuel change) changes

theorem Tracked.run (unique : UniqueIds joins) (fuel : Nat) {changes} (tracked : Tracked matchPath joins state)
    (followed : RunFollowed matchPath joins (fuel + 1) state changes) :
    Tracked matchPath joins (state.run (fuel + 1) changes) := by
  induction changes generalizing state with
  | nil => exact tracked
  | cons change changes ih => exact ih (tracked.step unique change.1 fuel followed.1) followed.2

end tracked

end JoinIndex

/-- A relation of the join from the first node to the second. -/
def Element.IsJoinRelation (joinId : String) (first second : ElementReference) : Element → Prop
  | .relation metadata inNode outNode _ => metadata.labels = [joinId] ∧ inNode = first ∧ outNode = second
  | .node .. => False

def InMemoryElementIndex.Retrieves (index : InMemoryElementIndex) (order : IterationOrder) (slot : Nat) (node : ElementReference)
    (element : Element) : Prop :=
  element ∈ index.getSlotElementsByInbound order slot node ∨ element ∈ index.getSlotElementsByOutbound order slot node

/-- In the slots of the joins there is exactly one relation for each join and ordered pair of nodes that it links, found from
both ends, and no two share a reference. -/
structure JoinsExact (matchPath : MatchPath) (joins : List QueryJoin) (index : InMemoryElementIndex) : Prop where
  one : ∀ join ∈ joins, ∀ slot ∈ joinSlots matchPath join, ∀ first second,
    (carried joins index.elements).Linked join first second → ∃ relation, relation.IsJoinRelation join.id first second ∧
      ∀ order, relation ∈ index.getSlotElementsByInbound order slot first ∧
        relation ∈ index.getSlotElementsByOutbound order slot second ∧
        ∀ node other, index.Retrieves order slot node other → other.IsJoinRelation join.id first second → other = relation
  only : ∀ order slot node relation, index.Retrieves order slot node relation → ∃ join ∈ joins,
    slot ∈ joinSlots matchPath join ∧ ∃ first second, (carried joins index.elements).Linked join first second ∧
      relation.IsJoinRelation join.id first second
  unshared : ∀ order order' slot slot' node node' relation relation', index.Retrieves order slot node relation →
    index.Retrieves order' slot' node' relation' → relation.getReference = relation'.getReference → relation = relation'
  nodup : ∀ order slot node, (index.getSlotElementsByInbound order slot node).Nodup ∧
    (index.getSlotElementsByOutbound order slot node).Nodup

namespace JoinIndex

theorem mem_active {slot} (isJoin : join ∈ joins) (has : slot ∈ joinSlots matchPath join) :
    join ∈ active matchPath joins := by
  refine mem_filter.mpr ⟨isJoin, ?_⟩
  cases slots : joinSlots matchPath join with
  | nil =>
    rw [slots] at has
    cases has
  | cons _ _ => rfl

theorem linked_active (isJoin : join ∈ active matchPath joins) {first second} :
    (carried joins elements).Linked join first second ↔ (carried (active matchPath joins) elements).Linked join first second := by
  have isJoin' := mem_of_mem_filter isJoin
  simp [Registry.Linked, Registry.Way, carried, isJoin, isJoin']

end JoinIndex

namespace InMemoryElementIndex

variable {index : InMemoryElementIndex} {slot : Nat} {node : ElementReference} {element : Element}

section

variable (consistent : index.Consistent)
include consistent

theorem Retrieves.hasAffinity (retrieves : index.Retrieves order slot node element) :
    index.HasAffinity element slot ∧
      ∃ metadata inNode outNode properties, element = .relation metadata inNode outNode properties := by
  have found : index.HasAffinity element slot ∧ ∃ table : SlotTable, table.Fits element ∧ table ≠ .nodes := by
    rcases retrieves with inbound | outbound
    · obtain ⟨has, fits⟩ := (mem_inbound consistent).mp inbound
      exact ⟨has, _, fits, nofun⟩
    · obtain ⟨has, fits⟩ := (mem_outbound consistent).mp outbound
      exact ⟨has, _, fits, nofun⟩
  obtain ⟨has, table, fits, other⟩ := found
  cases element with
  | node => cases table <;> first | exact absurd rfl other | cases fits
  | relation metadata inNode outNode properties => exact ⟨has, metadata, inNode, outNode, properties, rfl⟩

end

end InMemoryElementIndex

/-- The invariant of the runs gives the relations that joins are for. -/
theorem JoinIndex.Tracked.exact {matchPath joins} {state : JoinIndex} (tracked : Tracked matchPath joins state) :
    JoinsExact matchPath joins state.index := by
  have consistent := tracked.consistent
  -- A retrieved relation is virtual, since real references hold nodes.
  have virtual : ∀ {order slot node relation}, state.index.Retrieves order slot node relation → ∃ join first second effectiveFrom,
      (carried (active matchPath joins) state.index.elements).Linked join first second ∧
        relation = joinRelation join.id effectiveFrom first second ∧ slot ∈ joinSlots matchPath join := by
    intro order slot node relation retrieves
    obtain ⟨has, metadata, inNode, outNode, properties, rfl⟩ := retrieves.hasAffinity consistent
    have isVirtual : metadata.reference.sourceId = joinSource := by
      by_contra isReal
      obtain ⟨_, _, isNode⟩ := tracked.real isReal has.1
      cases isNode
    obtain ⟨join, first, second, linked, same⟩ := tracked.links.only isVirtual (ne_of_eq_of_ne has.1 (by simp))
    obtain ⟨effectiveFrom, stored, affinity⟩ := tracked.links.stored linked
    rw [← same] at stored affinity
    exact ⟨join, first, second, effectiveFrom, linked, Option.some.inj (has.1.symm.trans stored), (affinity slot).mp has.2⟩
  refine ⟨fun join isJoin slot hasSlot first second linked => ?_, fun order slot node relation retrieves => ?_,
    fun order order' slot slot' node node' relation relation' retrieves retrieves' same => ?_, fun order slot node => ?_⟩
  · obtain ⟨effectiveFrom, stored, affinity⟩ := tracked.links.stored ((linked_active (mem_active isJoin hasSlot)).mp linked)
    have has : state.index.HasAffinity (joinRelation join.id effectiveFrom first second) slot :=
      ⟨stored, (affinity slot).mpr hasSlot⟩
    refine ⟨joinRelation join.id effectiveFrom first second, ⟨rfl, rfl, rfl⟩,
      fun order => ⟨?_, ?_, fun node other retrieves is => ?_⟩⟩
    · exact (mem_inbound consistent).mpr ⟨has, rfl⟩
    · exact (mem_outbound consistent).mpr ⟨has, rfl⟩
    · obtain ⟨join', first', second', effectiveFrom', -, rfl, -⟩ := virtual retrieves
      obtain ⟨-, rfl, rfl⟩ := is
      have stored' := (retrieves.hasAffinity consistent).1.1
      exact Option.some.inj (stored'.symm.trans stored)
  · obtain ⟨join, first, second, effectiveFrom, linked, rfl, hasSlot⟩ := virtual retrieves
    have isJoin : join ∈ active matchPath joins := let ⟨_, _, _, _, is, _⟩ := linked; is.1
    exact ⟨join, mem_of_mem_filter isJoin, hasSlot, first, second, (linked_active isJoin).mpr linked, rfl, rfl, rfl⟩
  · have stored := (retrieves.hasAffinity consistent).1.1
    have stored' := (retrieves'.hasAffinity consistent).1.1
    rw [same] at stored
    exact Option.some.inj (stored.symm.trans stored')
  · exact ⟨nodup_filterMap consistent ((order.perm _ _).nodup_iff.mpr (consistent.inboundNodup slot node)),
      nodup_filterMap consistent ((order.perm _ _).nodup_iff.mpr (consistent.outboundNodup slot node))⟩

/-- In every run that joins can follow, the virtual relations are exactly those of the matching pairs. -/
theorem joins_exact (matchPath : MatchPath) {joins : List QueryJoin} (unique : JoinIndex.UniqueIds joins) (fuel : Nat)
    {changes : List (IterationOrder × NodeChange)}
    (followed : JoinIndex.RunFollowed matchPath joins (fuel + 1) (.new matchPath joins) changes) :
    JoinsExact matchPath joins ((JoinIndex.new matchPath joins).run (fuel + 1) changes).index :=
  (JoinIndex.Tracked.new.run unique fuel followed).exact

/-- One slot for the relations of a join of `A.p` with `B.p`. -/
def joinSamplePath : MatchPath := ⟨[⟨⟨none, ["J"], []⟩, [], [], [0], false⟩], []⟩

def joinSample : QueryJoin := ⟨"J", [⟨"A", "p"⟩, ⟨"B", "p"⟩]⟩

def joinSampleNode (sourceId elementId label : String) (properties : ElementPropertyMap) : NodeChange :=
  .set ⟨⟨sourceId, elementId⟩, [label], 0⟩ properties []

def joinSampleProperties (value : Int) : ElementPropertyMap := .insert .empty "p" (.integer value)

/-- Two nodes carry a key of the join, one each. -/
def PairKey (ref : ElementReference) (joinKey : QueryJoinKey) : Prop :=
  ref = ⟨"s", "A"⟩ ∧ joinKey = ⟨"A", "p"⟩ ∨ ref = ⟨"t", "B"⟩ ∧ joinKey = ⟨"B", "p"⟩

instance (ref : ElementReference) (joinKey : QueryJoinKey) : Decidable (PairKey ref joinKey) :=
  inferInstanceAs (Decidable (_ ∨ _))

def PairOnly (elements : ElementReference → Option Element) : Prop :=
  ∀ ref, ∀ joinKey ∈ joinSample.keys, (elements ref).bind (·.joinValue joinKey) = none ∨ PairKey ref joinKey

theorem PairOnly.update (only : PairOnly elements) {metadata : ElementMetadata} {properties : ElementPropertyMap}
    (here : ∀ joinKey ∈ joinSample.keys, (Element.node metadata properties).joinValue joinKey = none ∨
      PairKey metadata.reference joinKey) :
    PairOnly (Function.update elements metadata.reference (some (.node metadata properties))) := by
  intro ref joinKey isKey
  by_cases same : ref = metadata.reference
  · subst same
    simpa using here joinKey isKey
  · simpa [same] using only ref joinKey isKey

theorem PairOnly.wellNamed {elements' : ElementReference → Option Element} (before : PairOnly elements)
    (after : PairOnly elements') :
    WellNamed fun join joinKey value ref => carried (active joinSamplePath [joinSample]) elements join joinKey value ref ∨
      carried (active joinSamplePath [joinSample]) elements' join joinKey value ref := by
  have single : ∀ {join joinKey value ref}, carried (active joinSamplePath [joinSample]) elements join joinKey value ref ∨
      carried (active joinSamplePath [joinSample]) elements' join joinKey value ref →
      join = joinSample ∧ PairKey ref joinKey := by
    rintro join joinKey value ref (⟨isJoin, isKey, carries⟩ | ⟨isJoin, isKey, carries⟩)
    all_goals obtain rfl : join = joinSample := mem_singleton.mp (mem_of_mem_filter isJoin)
    · exact ⟨rfl, (before ref joinKey isKey).resolve_left (by simp [carries])⟩
    · exact ⟨rfl, (after ref joinKey isKey).resolve_left (by simp [carries])⟩
  constructor
  · rintro join join' joinKey other joinKey' other' first second ⟨-, _, left, right⟩ ⟨-, _, left', right'⟩
    have one := single left
    have two := single left'
    have three := single right
    have four := single right'
    unfold PairKey at one two three four
    grind
  · rintro join join' first first' second second' ⟨_, _, differ, _, left, right⟩ ⟨_, _, differ', _, left', right'⟩ same
    obtain ⟨-, ⟨rfl, rfl⟩ | ⟨rfl, rfl⟩⟩ := single left <;> obtain ⟨-, ⟨rfl, rfl⟩ | ⟨rfl, rfl⟩⟩ := single right <;>
      obtain ⟨-, ⟨rfl, rfl⟩ | ⟨rfl, rfl⟩⟩ := single left' <;> obtain ⟨-, ⟨rfl, rfl⟩ | ⟨rfl, rfl⟩⟩ := single right' <;>
      first | exact absurd rfl differ | exact absurd rfl differ' | exact ⟨rfl, rfl⟩ | exact absurd same (by decide)

theorem JoinIndex.NodeUpdate.follows_of_carries {update : NodeUpdate}
    (carries : update.oldElement = none ∨ (update.oldValue joinKey ≠ none ∧ update.newValue joinKey ≠ none) ∨
      update.oldValue joinKey = none ∧ update.newValue joinKey = none) : update.Follows joinKey := by
  rcases carries with absent | ⟨old, new⟩ | ⟨old, new⟩
  · exact ⟨fun old => absurd (by simp [oldValue, absent]) old, fun _ _ _ => by simp [absent]⟩
  · exact ⟨fun _ => new, fun none_ => absurd none_ old⟩
  · exact ⟨fun some_ => absurd old some_, fun _ _ some_ => by simp [new] at some_⟩

/-- The nodes that do not carry a key have an id with a separator and the id of another node; one node changes its
value before the pair is complete. -/
def joinSampleChanges : List (IterationOrder × NodeChange) :=
  [(.stored, joinSampleNode "u" "A:B" "C" (joinSampleProperties 1)), (.stored, joinSampleNode "u" "A" "C" .empty),
    (.stored, joinSampleNode "s" "A" "A" (joinSampleProperties 2)),
    (.stored, joinSampleNode "s" "A" "A" (joinSampleProperties 1)),
    (.stored, joinSampleNode "t" "B" "B" (joinSampleProperties 1))]

def joinSampleState (count : Nat) : JoinIndex :=
  (JoinIndex.new joinSamplePath [joinSample]).run 1 (joinSampleChanges.take count)

theorem joins_exact_pair :
    joinRelation "J" 0 ⟨"s", "A"⟩ ⟨"t", "B"⟩ ∈
      (joinSampleState 5).index.getSlotElementsByInbound .stored 0 ⟨"s", "A"⟩ ∧
    JoinsExact joinSamplePath [joinSample] (joinSampleState 5).index := by
  have none_ : PairOnly InMemoryElementIndex.empty.elements := fun _ _ _ => .inl rfl
  have stored : ∀ count metadata properties,
      (joinSampleState (count + 1)).index = (joinSampleState count).index.setElement (.node metadata properties) [] →
      PairOnly (joinSampleState count).index.elements →
      (∀ joinKey ∈ joinSample.keys, (Element.node metadata properties).joinValue joinKey = none ∨
        PairKey metadata.reference joinKey) → PairOnly (joinSampleState (count + 1)).index.elements := by
    intro count metadata properties same only here
    rw [same, setNode_elements]
    exact only.update here
  have one := stored 0 ⟨⟨"u", "A:B"⟩, ["C"], 0⟩ (joinSampleProperties 1) rfl none_ (by decide)
  have two := stored 1 ⟨⟨"u", "A"⟩, ["C"], 0⟩ .empty rfl one (by decide)
  have three := stored 2 ⟨⟨"s", "A"⟩, ["A"], 0⟩ (joinSampleProperties 2) rfl two (by decide)
  have four := stored 3 ⟨⟨"s", "A"⟩, ["A"], 0⟩ (joinSampleProperties 1) rfl three (by decide)
  have followed : JoinIndex.RunFollowed joinSamplePath [joinSample] 1 (.new joinSamplePath [joinSample]) joinSampleChanges := by
    refine ⟨⟨by decide, ?_, none_.wellNamed (none_.update (by decide))⟩,
      ⟨by decide, ?_, one.wellNamed (one.update (by decide))⟩, ⟨by decide, ?_, two.wellNamed (two.update (by decide))⟩,
      ⟨by decide, ?_, three.wellNamed (three.update (by decide))⟩,
      ⟨by decide, ?_, four.wellNamed (four.update (by decide))⟩, trivial⟩
    all_goals
      intro join isJoin joinKey isKey
      obtain rfl : join = joinSample := mem_singleton.mp (mem_of_mem_filter isJoin)
      refine JoinIndex.NodeUpdate.follows_of_carries ?_
      revert joinKey
      decide
  exact ⟨by decide, joins_exact joinSamplePath (by simp [JoinIndex.UniqueIds]) 0 followed⟩

/-- A node loses its join property, and its relations stay. -/
theorem dropped_property_keeps_relation :
    ¬ JoinsExact joinSamplePath [joinSample] ((JoinIndex.new joinSamplePath [joinSample]).run 1
      [(.stored, joinSampleNode "s" "A" "A" (joinSampleProperties 1)),
        (.stored, joinSampleNode "t" "B" "B" (joinSampleProperties 1)),
        (.stored, joinSampleNode "s" "A" "A" .empty)]).index := by
  intro exactness
  obtain ⟨join, -, -, first, second, ⟨joinKey, -, -, value, carries, -⟩, -, rfl, -⟩ := exactness.only .stored 0 ⟨"s", "A"⟩
    (joinRelation "J" 0 ⟨"s", "A"⟩ ⟨"t", "B"⟩) (.inl (by decide))
  obtain ⟨metadata, properties, stored, -, property⟩ := carried_node carries
  obtain ⟨-, rfl⟩ : _ ∧ properties = .empty := by simpa using (stored.symm.trans (by rfl) : some _ = some (Element.node _ .empty))
  cases property

end DrasiCore
