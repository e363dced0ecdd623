import DrasiCore.ElementTables
import DrasiCore.Proofs.ElementIndexUpdates

/-! The stored hash maps agree with the lookup tables after every call, keep no empty set, and keep no affinity entry
without an element. Together with the slot-affinity invariant this makes every lookup exact. -/

namespace DrasiCore.Proofs

open Library InMemoryElementIndex

variable {tables : ElementTables} {latest : LatestElements}

/-! ### The maps and the lookup tables -/

variable (reference : ElementReference) (entry : Option (List ElementReference))

theorem getD_dropFromEntry : (dropFromEntry reference entry).getD [] = (entry.getD []).erase reference := by
  cases entry with
  | none => rfl
  | some set =>
    simp only [dropFromEntry]
    split
    · next emptied => simpa using (List.isEmpty_iff.mp emptied).symm
    · rfl

theorem getD_addToEntry :
    (addToEntry reference entry).getD [] = (entry.getD []).insert reference := rfl

section

variable (tables : ElementTables)

theorem lookups_clearSlotAffinity (element : Element) :
    (tables.clearSlotAffinity element).lookups = tables.lookups.clearSlotAffinity element := by
  unfold ElementTables.clearSlotAffinity
  split
  · next missing =>
    -- without an affinity entry the lookup tables change nothing either
    have noSlots : tables.lookups.slotAffinity element.getReference = [] := by
      simp [ElementTables.lookups, missing]
    have same : (fun ref => if ref = element.getReference then [] else tables.lookups.slotAffinity ref) =
        tables.lookups.slotAffinity := by
      funext ref
      split
      · next here => rw [here, noSlots]
      · rfl
    cases element with
    | node metadata properties => simp [clearSlotAffinity, noSlots, same]
    | relation metadata inNode outNode properties => simp [clearSlotAffinity, noSlots, same]
  · next affinity found =>
    have slots : tables.lookups.slotAffinity element.getReference = affinity := by
      simp [ElementTables.lookups, found]
    have cleared : (fun ref => (if ref = element.getReference then none else tables.slotAffinity ref).getD []) =
        fun ref => if ref = element.getReference then [] else tables.lookups.slotAffinity ref := by
      funext ref
      split <;> rfl
    cases element with
    | node metadata properties =>
      simp only [clearSlotAffinity, slots, ← cleared]
      rfl
    | relation metadata inNode outNode properties =>
      simp only [clearSlotAffinity, slots, ← cleared]
      simp only [ElementTables.lookups, apply_ite (Option.getD · []), getD_dropFromEntry]

theorem lookups_setSlotAffinity (element : Element) (slots : List Nat) :
    (tables.setSlotAffinity element slots).lookups = tables.lookups.setSlotAffinity element slots := by
  cases element with
  | node metadata properties =>
    simp only [ElementTables.setSlotAffinity, setSlotAffinity, ElementTables.lookups,
      apply_ite (Option.getD · []), Option.getD_some]
  | relation metadata inNode outNode properties =>
    simp only [ElementTables.setSlotAffinity, setSlotAffinity, ElementTables.lookups,
      apply_ite (Option.getD · []), Option.getD_some, getD_addToEntry]

theorem lookups_setElement (element : Element) (slots : List Nat) :
    (tables.setElement element slots).lookups = tables.lookups.setElement element slots := by
  unfold ElementTables.setElement setElement
  rw [lookups_setSlotAffinity]
  congr 1
  cases found : tables.elements element.getReference with
  | some prev =>
    have seen : tables.lookups.elements element.getReference = some prev := found
    simp only [seen]
    exact lookups_clearSlotAffinity _ _
  | none =>
    have seen : tables.lookups.elements element.getReference = none := found
    simp only [seen]
    rfl

theorem lookups_deleteElement (reference : ElementReference) :
    (tables.deleteElement reference).lookups = tables.lookups.deleteElement reference := by
  unfold ElementTables.deleteElement deleteElement
  cases found : tables.elements reference with
  | some oldElement =>
    have seen : tables.lookups.elements reference = some oldElement := found
    simp only [seen]
    exact lookups_clearSlotAffinity _ _
  | none =>
    have seen : tables.lookups.elements reference = none := found
    simp only [seen]
    rfl

end

/-! ### The entries that are kept -/

structure Filled (tables : ElementTables) : Prop where
  inbound : ∀ slot node, tables.elementBySlotIn slot node ≠ some []
  outbound : ∀ slot node, tables.elementBySlotOut slot node ≠ some []

theorem dropFromEntry_ne_empty {entry} (filled : entry ≠ some []) (reference : ElementReference) :
    dropFromEntry reference entry ≠ some [] := by
  cases entry with
  | none => exact filled
  | some set =>
    simp only [dropFromEntry]
    split
    · nofun
    · next rest =>
      intro emptied
      rw [Option.some.inj emptied] at rest
      exact rest rfl

theorem addToEntry_ne_empty : addToEntry reference entry ≠ some [] := by
  intro emptied
  have member : reference ∈ (entry.getD []).insert reference := List.mem_insert_self
  rw [Option.some.inj emptied] at member
  exact List.not_mem_nil member

section

variable (filled : Filled tables)
include filled

theorem Filled.withElements (elements : ElementReference → Option Element) : Filled { tables with elements } :=
  ⟨filled.inbound, filled.outbound⟩

theorem Filled.clearSlotAffinity (element : Element) : Filled (tables.clearSlotAffinity element) := by
  unfold ElementTables.clearSlotAffinity
  split
  · exact filled
  · cases element with
    | node metadata properties => exact ⟨filled.inbound, filled.outbound⟩
    | relation metadata inNode outNode properties =>
      refine ⟨fun slot node => ?_, fun slot node => ?_⟩
      · dsimp only
        split
        · exact dropFromEntry_ne_empty (filled.inbound slot node) _
        · exact filled.inbound slot node
      · dsimp only
        split
        · exact dropFromEntry_ne_empty (filled.outbound slot node) _
        · exact filled.outbound slot node

theorem Filled.setSlotAffinity (element : Element) (slots : List Nat) :
    Filled (tables.setSlotAffinity element slots) := by
  cases element with
  | node metadata properties => exact ⟨filled.inbound, filled.outbound⟩
  | relation metadata inNode outNode properties =>
    refine ⟨fun slot node => ?_, fun slot node => ?_⟩
    · simp only [ElementTables.setSlotAffinity]
      split
      · exact addToEntry_ne_empty _ _
      · exact filled.inbound slot node
    · simp only [ElementTables.setSlotAffinity]
      split
      · exact addToEntry_ne_empty _ _
      · exact filled.outbound slot node

theorem Filled.setElement (element : Element) (slots : List Nat) : Filled (tables.setElement element slots) := by
  unfold ElementTables.setElement
  apply Filled.setSlotAffinity
  split
  · exact (filled.withElements _).clearSlotAffinity _
  · exact filled.withElements _

theorem Filled.deleteElement (reference : ElementReference) : Filled (tables.deleteElement reference) := by
  unfold ElementTables.deleteElement
  dsimp only
  split
  · exact (filled.withElements _).clearSlotAffinity _
  · exact filled.withElements _

end

theorem clearSlotAffinity_slotAffinity (tables : ElementTables) (element : Element) (ref : ElementReference) :
    (tables.clearSlotAffinity element).slotAffinity ref =
      if ref = element.getReference then none else tables.slotAffinity ref := by
  unfold ElementTables.clearSlotAffinity
  split
  · next missing =>
    split
    · next here => rw [here, missing]
    · rfl
  · cases element <;> rfl

variable {ref : ElementReference} {element : Element}

theorem setSlotAffinity_slotAffinity_of_ne (tables : ElementTables) (slots : List Nat)
    (elsewhere : ref ≠ element.getReference) :
    (tables.setSlotAffinity element slots).slotAffinity ref = tables.slotAffinity ref := by
  cases element <;> exact if_neg elsewhere

theorem deleteElement_slotAffinity (consistent : tables.lookups.Consistent) (reference ref : ElementReference) :
    (tables.deleteElement reference).slotAffinity ref =
      if ref = reference ∧ tables.elements reference ≠ none then none else tables.slotAffinity ref := by
  unfold ElementTables.deleteElement
  cases found : tables.elements reference with
  | none => simp
  | some oldElement =>
    dsimp only
    rw [clearSlotAffinity_slotAffinity, consistent.filed reference oldElement found]
    simp

theorem setElement_slotAffinity_of_ne (consistent : tables.lookups.Consistent) (slots : List Nat)
    (elsewhere : ref ≠ element.getReference) :
    (tables.setElement element slots).slotAffinity ref = tables.slotAffinity ref := by
  unfold ElementTables.setElement
  rw [setSlotAffinity_slotAffinity_of_ne _ _ elsewhere]
  split
  · next prev found =>
    rw [clearSlotAffinity_slotAffinity, consistent.filed _ prev found, if_neg elsewhere]
  · rfl

/-! ### Lookups against the last versions -/

/-- The tables hold the last version of every element with its slots, and nothing else. -/
structure HoldsLatest (tables : ElementTables) (latest : LatestElements) : Prop where
  consistent : tables.lookups.Consistent
  filled : Filled tables
  elements : ∀ ref, tables.elements ref = (latest ref).map (·.1)
  slots : ∀ ref slot, slot ∈ tables.lookups.slotAffinity ref ↔ slot ∈ ((latest ref).map (·.2)).getD []
  released : ∀ ref, latest ref = none → tables.slotAffinity ref = none

theorem HoldsLatest.empty : HoldsLatest .empty .none where
  consistent := empty_consistent
  filled := ⟨fun _ _ => nofun, fun _ _ => nofun⟩
  elements _ := rfl
  slots _ _ := Iff.rfl
  released _ _ := rfl

section

variable (holds : HoldsLatest tables latest)
include holds

theorem HoldsLatest.setElement (element : Element) (slots : List Nat) :
    HoldsLatest (tables.setElement element slots) (latest.perform (.setElement element slots)) where
  consistent := lookups_setElement tables element slots ▸ setElement_consistent holds.consistent element slots
  filled := holds.filled.setElement element slots
  elements ref := by
    have seen := setElement_elements tables.lookups element slots ref
    rw [← lookups_setElement] at seen
    refine seen.trans ?_
    simp only [LatestElements.perform]
    split
    · rfl
    · exact holds.elements ref
  slots ref slot := by
    rw [lookups_setElement, mem_setElement_slotAffinity holds.consistent]
    simp only [LatestElements.perform]
    split
    · rfl
    · exact holds.slots ref slot
  released ref absent := by
    simp only [LatestElements.perform] at absent
    split at absent
    · cases absent
    · next elsewhere =>
      rw [setElement_slotAffinity_of_ne holds.consistent slots elsewhere]
      exact holds.released ref absent

theorem HoldsLatest.deleteElement (reference : ElementReference) :
    HoldsLatest (tables.deleteElement reference) (latest.perform (.deleteElement reference)) where
  consistent := lookups_deleteElement tables reference ▸ deleteElement_consistent holds.consistent reference
  filled := holds.filled.deleteElement reference
  elements ref := by
    have seen := deleteElement_elements tables.lookups reference ref
    rw [← lookups_deleteElement] at seen
    refine seen.trans ?_
    simp only [LatestElements.perform]
    split
    · rfl
    · exact holds.elements ref
  slots ref slot := by
    rw [lookups_deleteElement, (deleteElement_cleared holds.consistent reference).affinity]
    simp only [LatestElements.perform]
    split
    · exact Iff.rfl
    · exact holds.slots ref slot
  released ref absent := by
    rw [deleteElement_slotAffinity holds.consistent]
    split
    · rfl
    · next kept =>
      simp only [LatestElements.perform] at absent
      split at absent
      · next here =>
        refine holds.released ref ?_
        have missing : tables.elements ref = none := by
          by_contra present
          exact kept ⟨here, here ▸ present⟩
        rw [holds.elements] at missing
        exact Option.map_eq_none_iff.mp missing
      · exact holds.released ref absent

theorem HoldsLatest.performAll (calls : List IndexCall) :
    HoldsLatest (tables.performAll calls) (latest.performAll calls) := by
  induction calls generalizing tables latest with
  | nil => exact holds
  | cons call calls ih =>
    apply ih
    cases call with
    | setElement element slots => exact holds.setElement element slots
    | deleteElement reference => exact holds.deleteElement reference
    | clear => exact HoldsLatest.empty

end

theorem lookups_getSlotElementsByInbound (tables : ElementTables) (order : IterationOrder) (slot : Nat)
    (node : ElementReference) :
    tables.lookups.getSlotElementsByInbound order slot node = tables.getSlotElementsByInbound order slot node := by
  unfold ElementTables.getSlotElementsByInbound getSlotElementsByInbound ElementTables.lookups
  dsimp only
  split <;> simp_all

theorem lookups_getSlotElementsByOutbound (tables : ElementTables) (order : IterationOrder) (slot : Nat)
    (node : ElementReference) :
    tables.lookups.getSlotElementsByOutbound order slot node = tables.getSlotElementsByOutbound order slot node := by
  unfold ElementTables.getSlotElementsByOutbound getSlotElementsByOutbound ElementTables.lookups
  dsimp only
  split <;> simp_all

/-- Every lookup returns the last versions it should, each once, and nothing is kept for a deleted reference. -/
structure LookupsExact (tables : ElementTables) (latest : LatestElements) : Prop where
  element : ∀ ref, tables.getElement ref = (latest ref).map (·.1)
  slotElement : ∀ slot ref element, tables.getSlotElementByRef slot ref = some element ↔
    ∃ metadata properties slots, element = .node metadata properties ∧ latest ref = some (element, slots) ∧ slot ∈ slots
  inbound : ∀ order slot node element, element ∈ tables.getSlotElementsByInbound order slot node ↔
    ∃ metadata outNode properties slots, element = .relation metadata node outNode properties ∧
      latest metadata.reference = some (element, slots) ∧ slot ∈ slots
  inboundOnce : ∀ order slot node, (tables.getSlotElementsByInbound order slot node).Nodup
  outbound : ∀ order slot node element, element ∈ tables.getSlotElementsByOutbound order slot node ↔
    ∃ metadata inNode properties slots, element = .relation metadata inNode node properties ∧
      latest metadata.reference = some (element, slots) ∧ slot ∈ slots
  outboundOnce : ∀ order slot node, (tables.getSlotElementsByOutbound order slot node).Nodup
  noEmptySet : ∀ slot node, tables.elementBySlotIn slot node ≠ some [] ∧ tables.elementBySlotOut slot node ≠ some []
  released : ∀ ref, latest ref = none → tables.slotAffinity ref = none ∧
    (∀ slot, tables.elementBySlot slot ref = false) ∧
      ∀ slot node set, (tables.elementBySlotIn slot node = some set ∨ tables.elementBySlotOut slot node = some set) →
        ref ∉ set

section exact

variable (holds : HoldsLatest tables latest)

include holds

theorem HoldsLatest.hasAffinity_iff (element : Element) (slot : Nat) :
    tables.lookups.HasAffinity element slot ↔
      ∃ slots, latest element.getReference = some (element, slots) ∧ slot ∈ slots := by
  unfold InMemoryElementIndex.HasAffinity
  rw [holds.slots]
  change tables.elements _ = _ ∧ _ ↔ _
  rw [holds.elements]
  cases latest element.getReference with
  | none => simp
  | some version =>
    obtain ⟨stored, slots⟩ := version
    constructor
    · rintro ⟨same, member⟩
      cases same
      exact ⟨slots, rfl, member⟩
    · rintro ⟨_, same, member⟩
      cases same
      exact ⟨rfl, member⟩

theorem HoldsLatest.filed_latest {slots} (stored : latest ref = some (element, slots)) : element.getReference = ref :=
  holds.consistent.filed ref element ((holds.elements ref).trans (by rw [stored]; rfl))

/-- A table holds the references of the last versions that belong in it. -/
theorem HoldsLatest.holds_iff {table : SlotTable} {slot : Nat} : table.Holds tables.lookups slot ref ↔
    ∃ element slots, table.Fits element ∧ latest ref = some (element, slots) ∧ slot ∈ slots := by
  rw [holds_iff_due holds.consistent]
  constructor
  · rintro ⟨element, rfl, fits, has⟩
    obtain ⟨slots, stored, member⟩ := (holds.hasAffinity_iff element slot).mp has
    exact ⟨element, slots, fits, stored, member⟩
  · rintro ⟨element, slots, fits, stored, member⟩
    obtain rfl := holds.filed_latest stored
    exact ⟨element, rfl, fits, (holds.hasAffinity_iff element slot).mpr ⟨slots, stored, member⟩⟩

theorem HoldsLatest.slotElement (slot : Nat) (ref : ElementReference) (element : Element) :
    tables.getSlotElementByRef slot ref = some element ↔
      ∃ metadata properties slots, element = .node metadata properties ∧ latest ref = some (element, slots) ∧
        slot ∈ slots := by
  refine (getSlotElementByRef_eq_some holds.consistent).trans ?_
  rw [holds.hasAffinity_iff]
  constructor
  · rintro ⟨⟨slots, stored, member⟩, fits, rfl⟩
    cases element with
    | node metadata properties => exact ⟨metadata, properties, slots, rfl, stored, member⟩
    | relation => cases fits
  · rintro ⟨metadata, properties, slots, rfl, stored, member⟩
    obtain rfl := holds.filed_latest stored
    exact ⟨⟨slots, stored, member⟩, trivial, rfl⟩

section

variable (order : IterationOrder) (slot : Nat) (node : ElementReference)

theorem HoldsLatest.inbound (element : Element) :
    element ∈ tables.getSlotElementsByInbound order slot node ↔
      ∃ metadata outNode properties slots, element = .relation metadata node outNode properties ∧
        latest metadata.reference = some (element, slots) ∧ slot ∈ slots := by
  rw [← lookups_getSlotElementsByInbound, mem_inbound holds.consistent, holds.hasAffinity_iff]
  cases element <;> simp [Element.getReference, Element.getMetadata, and_comm]

theorem HoldsLatest.outbound (element : Element) :
    element ∈ tables.getSlotElementsByOutbound order slot node ↔
      ∃ metadata inNode properties slots, element = .relation metadata inNode node properties ∧
        latest metadata.reference = some (element, slots) ∧ slot ∈ slots := by
  rw [← lookups_getSlotElementsByOutbound, mem_outbound holds.consistent, holds.hasAffinity_iff]
  cases element <;> simp [Element.getReference, Element.getMetadata, and_comm]

theorem HoldsLatest.inboundOnce : (tables.getSlotElementsByInbound order slot node).Nodup := by
  rw [← lookups_getSlotElementsByInbound]
  exact nodup_filterMap holds.consistent ((order.perm _ _).nodup_iff.mpr (holds.consistent.inboundNodup slot node))

theorem HoldsLatest.outboundOnce : (tables.getSlotElementsByOutbound order slot node).Nodup := by
  rw [← lookups_getSlotElementsByOutbound]
  exact nodup_filterMap holds.consistent ((order.perm _ _).nodup_iff.mpr (holds.consistent.outboundNodup slot node))

end

end exact

/-- After any calls the lookups return exactly the last versions that were set and not deleted. -/
theorem lookups_exact (calls : List IndexCall) :
    LookupsExact (ElementTables.empty.performAll calls) (LatestElements.none.performAll calls) := by
  have holds := HoldsLatest.empty.performAll calls
  refine ⟨holds.elements, holds.slotElement, holds.inbound, holds.inboundOnce, holds.outbound, holds.outboundOnce,
    fun slot node => ⟨holds.filled.inbound slot node, holds.filled.outbound slot node⟩, fun ref absent => ?_⟩
  -- no table holds a reference without an element
  have unheld (table : SlotTable) (slot : Nat) : ¬table.Holds (ElementTables.empty.performAll calls).lookups slot ref := by
    rw [holds.holds_iff, absent]
    rintro ⟨_, _, _, stored, _⟩
    cases stored
  refine ⟨holds.released ref absent, fun slot => Bool.eq_false_iff.mpr (unheld .nodes slot), fun slot node set found => ?_⟩
  rcases found with found | found
  · simpa [SlotTable.Holds, ElementTables.lookups, found] using unheld (.inbound node) slot
  · simpa [SlotTable.Holds, ElementTables.lookups, found] using unheld (.outbound node) slot

end DrasiCore.Proofs
