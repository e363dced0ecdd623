import Mathlib.Data.List.Nodup
import DrasiCore.ElementIndex

/-! Storing and deleting an element keep the slot-affinity invariant. -/

namespace DrasiCore.Proofs

open Library InMemoryElementIndex

variable {index : InMemoryElementIndex}

/-- The lookup tables: the nodes of a slot, and its relations with one end at a node. -/
inductive SlotTable where
  | nodes
  | inbound (node : ElementReference)
  | outbound (node : ElementReference)

namespace SlotTable

variable (index : InMemoryElementIndex) (slot : Nat) (ref : ElementReference)

@[simp] def Fits : SlotTable → Element → Prop
  | nodes, .node .. => True
  | inbound node, .relation _ inNode .. => inNode = node
  | outbound node, .relation _ _ outNode _ => outNode = node
  | _, _ => False

def Holds : SlotTable → Prop
  | nodes => index.elementBySlot slot ref = true
  | inbound node => ref ∈ index.elementBySlotIn slot node
  | outbound node => ref ∈ index.elementBySlotOut slot node

/-- There is an element with the reference that belongs in the table. -/
def Due (table : SlotTable) : Prop :=
  ∃ element : Element, element.getReference = ref ∧ table.Fits element ∧ index.HasAffinity element slot

theorem exists_element {p : Element → Prop} : (∃ element, p element) ↔ (∃ metadata properties, p (.node metadata properties)) ∨
    ∃ metadata inNode outNode properties, p (.relation metadata inNode outNode properties) := by
  constructor
  · rintro ⟨_ | _, holds⟩
    · exact .inl ⟨_, _, holds⟩
    · exact .inr ⟨_, _, _, _, holds⟩
  · rintro (⟨_, _, holds⟩ | ⟨_, _, _, _, holds⟩) <;> exact ⟨_, holds⟩

theorem due_nodes : nodes.Due index slot ref ↔
    ∃ metadata properties, metadata.reference = ref ∧ index.HasAffinity (.node metadata properties) slot := by
  simp [Due, exists_element, Element.getReference, Element.getMetadata]

theorem due_inbound (node : ElementReference) : (inbound node).Due index slot ref ↔ ∃ metadata outNode properties,
    metadata.reference = ref ∧ index.HasAffinity (.relation metadata node outNode properties) slot := by
  simp [Due, exists_element, Element.getReference, Element.getMetadata]

theorem due_outbound (node : ElementReference) : (outbound node).Due index slot ref ↔ ∃ metadata inNode properties,
    metadata.reference = ref ∧ index.HasAffinity (.relation metadata inNode node properties) slot := by
  simp [Due, exists_element, Element.getReference, Element.getMetadata]

end SlotTable

/-- No relation is twice in a set. -/
structure Distinct (index : InMemoryElementIndex) : Prop where
  inbound : ∀ slot node, (index.elementBySlotIn slot node).Nodup
  outbound : ∀ slot node, (index.elementBySlotOut slot node).Nodup

variable {slot : Nat} {ref : ElementReference} {table : SlotTable} {reference : ElementReference}

theorem holds_iff_due (consistent : index.Consistent) : table.Holds index slot ref ↔ table.Due index slot ref := by
  cases table with
  | nodes => exact (consistent.nodes slot ref).trans (SlotTable.due_nodes ..).symm
  | inbound node => exact (consistent.inbound slot node ref).trans (SlotTable.due_inbound ..).symm
  | outbound node => exact (consistent.outbound slot node ref).trans (SlotTable.due_outbound ..).symm

section lookups

variable (consistent : index.Consistent) {element : Element}
include consistent

theorem listed_iff (table : SlotTable) : (∃ ref, table.Holds index slot ref ∧ index.elements ref = some element) ↔
    index.HasAffinity element slot ∧ table.Fits element := by
  constructor
  · rintro ⟨ref, held, stored⟩
    obtain ⟨other, rfl, fits, has⟩ := (holds_iff_due consistent).mp held
    cases has.1.symm.trans stored
    exact ⟨has, fits⟩
  · exact fun ⟨has, fits⟩ => ⟨_, (holds_iff_due consistent).mpr ⟨element, rfl, fits, has⟩, has.1⟩

theorem mem_inbound {order node} : element ∈ index.getSlotElementsByInbound order slot node ↔
    index.HasAffinity element slot ∧ (SlotTable.inbound node).Fits element := by
  rw [← listed_iff consistent, getSlotElementsByInbound, List.mem_filterMap]
  simp only [IterationOrder.mem_arrange, SlotTable.Holds]

theorem mem_outbound {order node} : element ∈ index.getSlotElementsByOutbound order slot node ↔
    index.HasAffinity element slot ∧ (SlotTable.outbound node).Fits element := by
  rw [← listed_iff consistent, getSlotElementsByOutbound, List.mem_filterMap]
  simp only [IterationOrder.mem_arrange, SlotTable.Holds]

theorem getSlotElementByRef_eq_some : index.getSlotElementByRef slot ref = some element ↔
    index.HasAffinity element slot ∧ SlotTable.nodes.Fits element ∧ element.getReference = ref := by
  rw [← and_assoc, ← listed_iff consistent, getSlotElementByRef, Option.ite_none_right_eq_some]
  constructor
  · exact fun found => ⟨⟨ref, found⟩, consistent.filed ref element found.2⟩
  · rintro ⟨⟨other, found⟩, rfl⟩
    exact consistent.filed other element found.2 ▸ found

theorem nodup_filterMap {refs : List ElementReference} (nodup : refs.Nodup) : (refs.filterMap index.elements).Nodup :=
  nodup.filterMap fun first second element stored stored' =>
    (consistent.filed first element stored).symm.trans (consistent.filed second element stored')

end lookups

theorem consistent_of_holds (filed : ∀ ref element, index.elements ref = some element → element.getReference = ref)
    (unfiled : ∀ ref, index.elements ref = none → index.slotAffinity ref = []) (distinct : Distinct index)
    (holds : ∀ {table : SlotTable} {slot ref}, table.Holds index slot ref ↔ table.Due index slot ref) : index.Consistent where
  filed := filed
  unfiled := unfiled
  nodes _ _ := (@holds .nodes _ _).trans (SlotTable.due_nodes ..)
  inbound _ _ _ := (@holds (.inbound _) _ _).trans (SlotTable.due_inbound ..)
  inboundNodup := distinct.inbound
  outbound _ _ _ := (@holds (.outbound _) _ _).trans (SlotTable.due_outbound ..)
  outboundNodup := distinct.outbound

section tables

variable (element : Element)

theorem holds_clearSlotAffinity (distinct : Distinct index) : table.Holds (index.clearSlotAffinity element) slot ref ↔
    table.Holds index slot ref ∧
      ¬(ref = element.getReference ∧ table.Fits element ∧ slot ∈ index.slotAffinity element.getReference) := by
  have erased {refs : List ElementReference} {reference : ElementReference} {clear : Prop} [Decidable clear] (nodup : refs.Nodup) :
      ref ∈ (if clear then refs.erase reference else refs) ↔ ref ∈ refs ∧ ¬(ref = reference ∧ clear) := by
    split <;> simp [*, nodup.mem_erase_iff, and_comm]
  cases element <;> cases table <;> simp [SlotTable.Holds, clearSlotAffinity, Element.getReference, Element.getMetadata,
    erased, distinct.inbound, distinct.outbound]
  all_goals tauto

theorem holds_setSlotAffinity (slots : List Nat) : table.Holds (index.setSlotAffinity element slots) slot ref ↔
    table.Holds index slot ref ∨ ref = element.getReference ∧ table.Fits element ∧ slot ∈ slots := by
  have added {refs : List ElementReference} {reference : ElementReference} {add : Prop} [Decidable add] :
      ref ∈ (if add then refs.insert reference else refs) ↔ ref ∈ refs ∨ ref = reference ∧ add := by
    split <;> simp [*, or_comm]
  cases element <;> cases table <;> simp [SlotTable.Holds, setSlotAffinity, Element.getReference, Element.getMetadata, added]
  all_goals tauto

theorem Distinct.clearSlotAffinity (distinct : Distinct index) : Distinct (index.clearSlotAffinity element) := by
  cases element with
  | node => exact ⟨distinct.inbound, distinct.outbound⟩
  | relation =>
    refine ⟨fun slot node => ?_, fun slot node => ?_⟩ <;> rw [InMemoryElementIndex.clearSlotAffinity] <;> dsimp only <;> split
    · exact (distinct.inbound slot node).erase _
    · exact distinct.inbound slot node
    · exact (distinct.outbound slot node).erase _
    · exact distinct.outbound slot node

theorem Distinct.setSlotAffinity (slots : List Nat) (distinct : Distinct index) :
    Distinct (index.setSlotAffinity element slots) := by
  cases element with
  | node => exact ⟨distinct.inbound, distinct.outbound⟩
  | relation =>
    refine ⟨fun slot node => ?_, fun slot node => ?_⟩ <;> rw [InMemoryElementIndex.setSlotAffinity] <;> dsimp only <;> split
    · exact (distinct.inbound slot node).insert
    · exact distinct.inbound slot node
    · exact (distinct.outbound slot node).insert
    · exact distinct.outbound slot node

end tables

/-- The lookup tables hold nothing for one reference and are unchanged for all others. -/
structure ClearedOf (index cleared : InMemoryElementIndex) (reference : ElementReference) : Prop where
  affinity : ∀ ref, cleared.slotAffinity ref = if ref = reference then [] else index.slotAffinity ref
  holds : ∀ {table : SlotTable} {slot ref}, table.Holds cleared slot ref ↔ table.Holds index slot ref ∧ ref ≠ reference
  distinct : Distinct cleared

theorem holds_withElements {elements : ElementReference → Option Element} :
    table.Holds { index with elements } slot ref ↔ table.Holds index slot ref := by
  cases table <;> rfl

section

variable (consistent : index.Consistent)
include consistent

theorem distinct_withElements {elements : ElementReference → Option Element} : Distinct { index with elements } :=
  ⟨consistent.inboundNodup, consistent.outboundNodup⟩

/-- Nothing is filed for a reference without an element. -/
theorem ClearedOf.absent (absent : index.elements reference = none) (elements : ElementReference → Option Element) :
    ClearedOf index { index with elements } reference where
  affinity ref := by
    split
    · next same => exact same ▸ consistent.unfiled reference absent
    · rfl
  holds {table slot ref} := by
    refine holds_withElements.trans ⟨fun present => ⟨present, ?_⟩, And.left⟩
    rintro rfl
    obtain ⟨_, rfl, _, stored, _⟩ := (holds_iff_due consistent).mp present
    exact nomatch stored.symm.trans absent
  distinct := distinct_withElements consistent

theorem ClearedOf.clearSlotAffinity {previous : Element} (present : index.elements previous.getReference = some previous)
    (elements : ElementReference → Option Element) :
    ClearedOf index ({ index with elements }.clearSlotAffinity previous) previous.getReference where
  affinity ref := by cases previous <;> rfl
  holds {table slot ref} := by
    refine (holds_clearSlotAffinity _ (distinct_withElements consistent)).trans ?_
    rw [holds_withElements]
    refine and_congr_right fun held => ⟨?_, fun other same => other same.1⟩
    rintro kept rfl
    obtain ⟨element, filed, fits, stored, affinity⟩ := (holds_iff_due consistent).mp held
    rw [filed] at stored affinity
    cases present.symm.trans stored
    exact kept ⟨rfl, fits, affinity⟩
  distinct := (distinct_withElements consistent).clearSlotAffinity _

end

/-! ### Deleting -/

@[simp] theorem deleteElement_elements (index : InMemoryElementIndex) (reference ref : ElementReference) :
    (index.deleteElement reference).elements ref = if ref = reference then none else index.elements ref := by
  unfold deleteElement
  dsimp only
  split
  · next oldElement _ => cases oldElement <;> rfl
  · rfl

/-- The index with the old version of an element taken out of the lookup tables and the new one stored. -/
def storeCleared (index : InMemoryElementIndex) (element : Element) : InMemoryElementIndex :=
  let stored : InMemoryElementIndex :=
    { index with elements := fun ref => if ref = element.getReference then some element else index.elements ref }
  match index.elements element.getReference with
  | some prev => stored.clearSlotAffinity prev
  | none => stored

theorem setElement_eq (index : InMemoryElementIndex) (element : Element) (slots : List Nat) :
    index.setElement element slots = (storeCleared index element).setSlotAffinity element slots := rfl

@[simp] theorem setElement_elements (index : InMemoryElementIndex) (element : Element) (slots : List Nat)
    (ref : ElementReference) :
    (index.setElement element slots).elements ref =
      if ref = element.getReference then some element else index.elements ref := by
  have stored : (storeCleared index element).elements =
      fun ref => if ref = element.getReference then some element else index.elements ref := by
    unfold storeCleared
    dsimp only
    split
    · next prev _ => cases prev <;> rfl
    · rfl
  rw [setElement_eq]
  cases element <;> exact congrFun stored ref

section

variable (consistent : index.Consistent)
include consistent

variable (reference : ElementReference)

theorem deleteElement_cleared : ClearedOf index (index.deleteElement reference) reference := by
  unfold deleteElement
  dsimp only
  split
  · next oldElement present =>
    have filed := consistent.filed reference oldElement present
    exact filed ▸ ClearedOf.clearSlotAffinity consistent (filed.symm ▸ present) _
  · next absent => exact ClearedOf.absent consistent absent _

theorem deleteElement_hasAffinity (element : Element) (slot : Nat) :
    (index.deleteElement reference).HasAffinity element slot ↔
      index.HasAffinity element slot ∧ element.getReference ≠ reference := by
  unfold HasAffinity
  rw [deleteElement_elements, (deleteElement_cleared consistent reference).affinity]
  by_cases same : element.getReference = reference <;> simp [same]

theorem deleteElement_consistent : (index.deleteElement reference).Consistent := by
  have cleared := deleteElement_cleared consistent reference
  refine consistent_of_holds (fun ref element stored => ?_) (fun ref absent => ?_) cleared.distinct ?_
  · rw [deleteElement_elements] at stored
    split at stored
    · cases stored
    · exact consistent.filed ref element stored
  · rw [deleteElement_elements] at absent
    rw [cleared.affinity]
    split
    · rfl
    · next different => exact consistent.unfiled ref (by simpa [different] using absent)
  · intro table slot ref
    rw [cleared.holds, holds_iff_due consistent]
    simp only [SlotTable.Due, deleteElement_hasAffinity consistent]
    constructor
    · rintro ⟨⟨element, rfl, fits, has⟩, different⟩
      exact ⟨element, rfl, fits, has, different⟩
    · rintro ⟨element, rfl, fits, has, different⟩
      exact ⟨⟨element, rfl, fits, has⟩, different⟩

theorem storeCleared_cleared (element : Element) : ClearedOf index (storeCleared index element) element.getReference := by
  unfold storeCleared
  dsimp only
  split
  · next prev present =>
    have filed := consistent.filed _ prev present
    exact filed ▸ ClearedOf.clearSlotAffinity consistent (filed.symm ▸ present) _
  · next absent => exact ClearedOf.absent consistent absent _

theorem mem_setElement_slotAffinity (element : Element) (slots : List Nat) (ref : ElementReference) (slot : Nat) :
    slot ∈ (index.setElement element slots).slotAffinity ref ↔
      if ref = element.getReference then slot ∈ slots else slot ∈ index.slotAffinity ref := by
  have cleared := (storeCleared_cleared consistent element).affinity ref
  have set : (index.setElement element slots).slotAffinity ref =
      if ref = element.getReference then slots ∪ (storeCleared index element).slotAffinity ref
      else (storeCleared index element).slotAffinity ref := by
    rw [setElement_eq]
    cases element <;> rfl
  rw [set, cleared]
  split <;> simp_all

theorem setElement_hasAffinity (element : Element) (slots : List Nat) (other : Element) (slot : Nat) :
    (index.setElement element slots).HasAffinity other slot ↔
      other = element ∧ slot ∈ slots ∨ index.HasAffinity other slot ∧ other.getReference ≠ element.getReference := by
  unfold HasAffinity
  rw [setElement_elements, mem_setElement_slotAffinity consistent]
  split
  · next same =>
    constructor
    · rintro ⟨stored, affinity⟩
      cases stored
      exact .inl ⟨rfl, affinity⟩
    · rintro (⟨rfl, affinity⟩ | ⟨-, different⟩)
      · exact ⟨rfl, affinity⟩
      · exact absurd same different
  · next different =>
    constructor
    · exact fun held => .inr ⟨held, different⟩
    · rintro (⟨rfl, -⟩ | ⟨held, -⟩)
      · exact absurd rfl different
      · exact held

end

theorem setElement_consistent (consistent : index.Consistent) (element : Element) (slots : List Nat) :
    (index.setElement element slots).Consistent := by
  have cleared := storeCleared_cleared consistent element
  refine consistent_of_holds (fun ref stored found => ?_) (fun ref absent => ?_) (cleared.distinct.setSlotAffinity element slots) ?_
  · rw [setElement_elements] at found
    split at found
    · next same => exact same ▸ Option.some.inj found ▸ rfl
    · exact consistent.filed ref stored found
  · rw [setElement_elements] at absent
    split at absent
    · cases absent
    · next different =>
      have none (slot : Nat) : slot ∉ (index.setElement element slots).slotAffinity ref := by
        rw [mem_setElement_slotAffinity consistent, if_neg different, consistent.unfiled ref absent]
        exact List.not_mem_nil
      exact List.eq_nil_iff_forall_not_mem.mpr none
  · intro table slot ref
    rw [setElement_eq, holds_setSlotAffinity, ← setElement_eq, cleared.holds, holds_iff_due consistent]
    simp only [SlotTable.Due, setElement_hasAffinity consistent]
    constructor
    · rintro (⟨⟨other, rfl, fits, has⟩, different⟩ | ⟨rfl, fits, member⟩)
      · exact ⟨other, rfl, fits, .inr ⟨has, different⟩⟩
      · exact ⟨element, rfl, fits, .inl ⟨rfl, member⟩⟩
    · rintro ⟨other, rfl, fits, ⟨rfl, member⟩ | ⟨has, different⟩⟩
      · exact .inr ⟨rfl, fits, member⟩
      · exact .inl ⟨⟨other, rfl, fits, has⟩, different⟩

theorem empty_consistent : InMemoryElementIndex.empty.Consistent where
  filed := nofun
  unfiled _ _ := rfl
  nodes _ _ := ⟨nofun, fun ⟨_, _, _, stored, _⟩ => nomatch stored⟩
  inbound _ _ _ := ⟨nofun, fun ⟨_, _, _, _, stored, _⟩ => nomatch stored⟩
  inboundNodup _ _ := List.nodup_nil
  outbound _ _ _ := ⟨nofun, fun ⟨_, _, _, _, stored, _⟩ => nomatch stored⟩
  outboundNodup _ _ := List.nodup_nil

end DrasiCore.Proofs
