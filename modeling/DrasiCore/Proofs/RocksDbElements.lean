import DrasiCore.RocksDbElementIndex
import DrasiCore.Proofs.SourceJoins

/-! The element index in RocksDB against the one in memory. As long as versions of an element keep their ends, deleted elements
leave nothing behind that another would take over, and no two nodes are to be joined, both answer every read alike. -/

namespace DrasiCore

open Library Proofs List Function RocksDbElementIndex

variable {known : ElementReference → Prop}

namespace Element

def inEnd : Element → Option ElementReference
  | .relation _ inNode _ _ => some inNode
  | .node .. => none

def outEnd : Element → Option ElementReference
  | .relation _ _ outNode _ => some outNode
  | .node .. => none

end Element

/-- The entries at one end of the relations: one for every slot, and what else there is belongs to no element. -/
structure EntriesMatch (endOf : Element → Option ElementReference) (index : InMemoryElementIndex)
    (elements : String → Option Element) (entries : String × Nat → List String) : Prop where
  filed : ∀ {element node slot}, index.HasAffinity element slot → endOf element = some node →
    hashElementRef element.getReference ∈ entries (hashElementRef node, slot)
  only : ∀ {key relation}, relation ∈ entries key → elements relation ≠ none → ∃ element node slot,
    index.HasAffinity element slot ∧ endOf element = some node ∧ relation = hashElementRef element.getReference ∧
      key = (hashElementRef node, slot)

/-- All references in use are told apart by the concatenation of their parts. -/
def DistinctHashes (known : ElementReference → Prop) : Prop :=
  ∀ {ref ref'}, known ref → known ref' → hashElementRef ref = hashElementRef ref' → ref = ref'

/-- What the elements of the index may be: their references are known, with those at their ends, they are what is read back from
storage, and their slots fit in two bytes. -/
structure Storable (known : ElementReference → Prop) (element : Element) (slots : List Nat) : Prop where
  reference : known element.getReference
  ends : ∀ node, element.inEnd = some node ∨ element.outEnd = some node → known node
  stored : element.stored = element
  slots : ∀ slot ∈ slots, slot < 65536

structure ElementsMatch (known : ElementReference → Prop) (index : InMemoryElementIndex) (db : RocksDbElementIndex) : Prop where
  consistent : index.Consistent
  storable : ∀ {ref element}, index.elements ref = some element → Storable known element (index.slotAffinity ref)
  elements : ∀ {ref}, known ref → db.elements (hashElementRef ref) = index.elements ref
  only : ∀ {key}, db.elements key ≠ none → ∃ ref, known ref ∧ key = hashElementRef ref
  absent : ∀ {ref}, known ref → index.elements ref = none → db.slots (hashElementRef ref) = none
  slots : ∀ {ref element}, index.elements ref = some element → ∃ slots, db.slots (hashElementRef ref) = some slots ∧
    ∀ slot, slot ∈ slots ↔ slot ∈ index.slotAffinity ref
  inbound : EntriesMatch Element.inEnd index db.elements db.inbound
  outbound : EntriesMatch Element.outEnd index db.elements db.outbound

variable {element : Element} {slots : List Nat} {key : String × Nat} {entries' : String × Nat → List String}

variable {index : InMemoryElementIndex} {endOf : Element → Option ElementReference} {entries : String × Nat → List String}

section entries

variable (distinct : DistinctHashes known)
  {db : RocksDbElementIndex} (elementsMatch : ElementsMatch known index db)
  (entriesMatch : EntriesMatch endOf index db.elements entries)

include elementsMatch entriesMatch

/-- Removing the entries of elements that are gone changes nothing. -/
theorem EntriesMatch.collect (key : String × Nat) :
    EntriesMatch endOf index db.elements (RocksDbElementIndex.collect db.elements entries key).2 where
  filed has atEnd := by
    have filed := entriesMatch.filed has atEnd
    simp only [RocksDbElementIndex.collect]
    split
    case isTrue same =>
      rw [← same]
      refine mem_filter.mpr ⟨filed, ?_⟩
      rw [elementsMatch.elements (elementsMatch.storable has.1).reference, has.1]
      rfl
    · exact filed
  only filed := by
    simp only [RocksDbElementIndex.collect] at filed
    split at filed
    case isTrue same =>
      subst same
      exact entriesMatch.only (mem_of_mem_filter filed)
    · exact entriesMatch.only filed

include distinct

theorem EntriesMatch.mem_collect
    (ends : ∀ {element node}, endOf element = some node → element.inEnd = some node ∨ element.outEnd = some node) {node}
    (isKnown : known node) (slot : Nat) (element : Element) :
    element ∈ (RocksDbElementIndex.collect db.elements entries (hashElementRef node, slot)).1 ↔
      index.HasAffinity element slot ∧ endOf element = some node := by
  simp only [RocksDbElementIndex.collect, mem_filterMap]
  constructor
  · rintro ⟨relation, filed, stored⟩
    obtain ⟨element', node', slot', has, atEnd, rfl, same⟩ := entriesMatch.only filed (by simp [stored])
    have storable := elementsMatch.storable has.1
    obtain ⟨sameNode, rfl⟩ := Prod.mk.inj same
    obtain rfl := distinct isKnown (storable.ends node' (ends atEnd)) sameNode
    rw [elementsMatch.elements storable.reference, has.1] at stored
    cases stored
    exact ⟨has, atEnd⟩
  · rintro ⟨has, atEnd⟩
    refine ⟨hashElementRef element.getReference, entriesMatch.filed has atEnd, ?_⟩
    rw [elementsMatch.elements (elementsMatch.storable has.1).reference, has.1]

theorem EntriesMatch.mem_iff (stored : index.elements element.getReference = some element) :
    hashElementRef element.getReference ∈ entries key ↔
      ∃ node slot, endOf element = some node ∧ slot ∈ index.slotAffinity element.getReference ∧
        key = (hashElementRef node, slot) := by
  have isKnown := (elementsMatch.storable stored).reference
  constructor
  · intro filed
    obtain ⟨element', node, slot, has, atEnd, same, rfl⟩ :=
      entriesMatch.only filed (by rw [elementsMatch.elements isKnown, stored]; simp)
    have sameRef := distinct isKnown (elementsMatch.storable has.1).reference same
    rw [sameRef, has.1] at stored
    cases stored
    exact ⟨node, slot, atEnd, has.2, rfl⟩
  · rintro ⟨node, slot, atEnd, has, rfl⟩
    exact entriesMatch.filed ⟨stored, has⟩ atEnd

/-- Setting an element: its own entries are to be those of its new slots at its end, the others stay. -/
theorem EntriesMatch.put (isKnown : known element.getReference)
    (others : ∀ key relation, relation ≠ hashElementRef element.getReference → (relation ∈ entries' key ↔ relation ∈ entries key))
    (own : ∀ key, hashElementRef element.getReference ∈ entries' key ↔
      ∃ node slot, endOf element = some node ∧ slot ∈ slots ∧ key = (hashElementRef node, slot)) :
    EntriesMatch endOf (index.setElement element slots)
      (update db.elements (hashElementRef element.getReference) (some element)) entries' where
  filed := by
    intro other node slot has atEnd
    rcases (setElement_hasAffinity elementsMatch.consistent element slots other slot).mp has with ⟨rfl, member⟩ | ⟨has, differs⟩
    · exact (own _).mpr ⟨node, slot, atEnd, member, rfl⟩
    · have differs' : hashElementRef other.getReference ≠ hashElementRef element.getReference := fun same =>
        differs (distinct (elementsMatch.storable has.1).reference isKnown same)
      exact (others _ _ differs').mpr (entriesMatch.filed has atEnd)
  only := by
    intro key relation filed present
    by_cases same : relation = hashElementRef element.getReference
    · subst same
      obtain ⟨node, slot, atEnd, member, rfl⟩ := (own key).mp filed
      exact ⟨element, node, slot, (setElement_hasAffinity elementsMatch.consistent element slots element slot).mpr
        (.inl ⟨rfl, member⟩), atEnd, rfl, rfl⟩
    · rw [update_of_ne same] at present
      obtain ⟨other, node, slot, has, atEnd, rfl, rfl⟩ := entriesMatch.only ((others _ _ same).mp filed) present
      exact ⟨other, node, slot, (setElement_hasAffinity elementsMatch.consistent element slots other slot).mpr
        (.inr ⟨has, fun sameRef => same (by rw [sameRef])⟩), atEnd, rfl, rfl⟩

omit distinct in
theorem EntriesMatch.remove {ref}
    (fewer : ∀ key relation, relation ∈ entries' key → relation ∈ entries key)
    (kept : ∀ {element node slot}, index.HasAffinity element slot → element.getReference ≠ ref → endOf element = some node →
      hashElementRef element.getReference ∈ entries' (hashElementRef node, slot)) :
    EntriesMatch endOf (index.deleteElement ref) (update db.elements (hashElementRef ref) none) entries' where
  filed := by
    intro element node slot has atEnd
    obtain ⟨has, differs⟩ := (deleteElement_hasAffinity elementsMatch.consistent ref element slot).mp has
    exact kept has differs atEnd
  only := by
    intro key relation filed present
    have differs : relation ≠ hashElementRef ref := by
      rintro rfl
      exact present (update_self ..)
    rw [update_of_ne differs] at present
    obtain ⟨element, node, slot, has, atEnd, rfl, rfl⟩ := entriesMatch.only (fewer _ _ filed) present
    exact ⟨element, node, slot, (deleteElement_hasAffinity elementsMatch.consistent ref element slot).mpr
      ⟨has, fun sameRef => differs (by rw [sameRef])⟩, atEnd, rfl, rfl⟩

end entries

theorem contains_slotAsU16 (small : ∀ slot ∈ slots, slot < 65536) {slot} :
    (slots.map slotAsU16).contains slot = true ↔ slot ∈ slots := by
  have same : slots.map slotAsU16 = slots := by
    refine (map_congr_left fun slot member => ?_).trans (map_id _)
    exact Nat.mod_eq_of_lt (small slot member)
  rw [same, contains_iff_mem]

variable (db : RocksDbElementIndex)

namespace RocksDbElementIndex

theorem sameSlots_iff {first second} : sameSlots first second = true ↔ ∀ slot, slot ∈ first ↔ slot ∈ second := by
  simp only [sameSlots, Bool.and_eq_true, all_eq_true, contains_iff_mem]
  exact ⟨fun ⟨left, right⟩ slot => ⟨left slot, right slot⟩, fun same => ⟨fun slot => (same slot).mp, fun slot => (same slot).mpr⟩⟩

theorem mem_moveEntries {node relation other prevSlots} :
    other ∈ moveEntries entries node relation prevSlots slots key ↔
      if other = relation then
        relation ∈ entries key ∧ ¬ (key.1 = node ∧ (prevSlots.map slotAsU16).contains key.2 = true) ∨
          key.1 = node ∧ (slots.map slotAsU16).contains key.2 = true
      else other ∈ entries key := by
  unfold moveEntries
  grind

def putEntries (entries : String × Nat → List String) (element : Element) (slots : List Nat) :
    Option ElementReference → String × Nat → List String
  | none => entries
  | some node =>
    let key := hashElementRef element.getReference
    if (db.slots key).any (sameSlots · slots) then entries
    else moveEntries entries (hashElementRef node) key ((db.slots key).getD []) slots

theorem putElement_eq (element : Element) (slots : List Nat) :
    db.putElement element slots = { db with
      elements := update db.elements (hashElementRef element.getReference) (some element.stored)
      slots := update db.slots (hashElementRef element.getReference) (some slots)
      inbound := db.putEntries db.inbound element slots element.inEnd
      outbound := db.putEntries db.outbound element slots element.outEnd } := by
  unfold putElement
  cases element with
  | node metadata properties => rfl
  | relation metadata inNode outNode properties =>
    simp only [putEntries, Element.inEnd, Element.outEnd]
    split <;> rfl

theorem mem_putEntries_of_ne {db : RocksDbElementIndex} {node relation}
    (differs : relation ≠ hashElementRef element.getReference) :
    relation ∈ db.putEntries entries element slots node key ↔ relation ∈ entries key := by
  cases node with
  | none => rfl
  | some node =>
    simp only [putEntries]
    split
    · rfl
    · rw [mem_moveEntries, if_neg differs]

end RocksDbElementIndex

/-- A version that is set keeps the ends of the stored one, and where none is stored it finds no entries but its own. -/
structure KeepsEntries (endOf : Element → Option ElementReference) (index : InMemoryElementIndex)
    (entries : String × Nat → List String) (element : Element) (slots : List Nat) : Prop where
  ends : ∀ previous, index.elements element.getReference = some previous → endOf element = endOf previous
  leftovers : index.elements element.getReference = none → ∀ key, hashElementRef element.getReference ∈ entries key →
    ∃ node slot, endOf element = some node ∧ slot ∈ slots ∧ key = (hashElementRef node, slot)

section put

variable (distinct : DistinctHashes known) {db : RocksDbElementIndex}
  (storable : Storable known element slots)

include distinct storable

theorem EntriesMatch.mem_putEntries (elementsMatch : ElementsMatch known index db)
    (entriesMatch : EntriesMatch endOf index db.elements entries) (keeps : KeepsEntries endOf index entries element slots)
    (key : String × Nat) :
    hashElementRef element.getReference ∈ db.putEntries entries element slots (endOf element) key ↔
      ∃ node slot, endOf element = some node ∧ slot ∈ slots ∧ key = (hashElementRef node, slot) := by
  cases stored : index.elements element.getReference with
  | none =>
    have leftovers := keeps.leftovers stored key
    have fresh := elementsMatch.absent storable.reference stored
    cases atEnd : endOf element with
    | none =>
      simp only [putEntries, atEnd] at leftovers ⊢
      simpa using leftovers
    | some node =>
      rw [atEnd] at leftovers
      simp only [putEntries, fresh, Option.any_none, Bool.false_eq_true, if_false, Option.getD_none,
        mem_moveEntries, if_true, contains_slotAsU16 storable.slots]
      constructor
      · rintro (⟨left, -⟩ | ⟨sameNode, member⟩)
        · exact leftovers left
        · exact ⟨node, key.2, rfl, member, Prod.ext sameNode rfl⟩
      · rintro ⟨_, slot, ⟨⟩, member, rfl⟩
        exact .inr ⟨rfl, member⟩
  | some previous =>
    have sameRef := elementsMatch.consistent.filed _ _ stored
    have own : hashElementRef element.getReference ∈ entries key ↔ ∃ node slot, endOf element = some node ∧
        slot ∈ index.slotAffinity element.getReference ∧ key = (hashElementRef node, slot) := by
      rw [keeps.ends previous stored, ← sameRef]
      exact entriesMatch.mem_iff distinct elementsMatch (sameRef ▸ stored)
    obtain ⟨prevSlots, prev, samePrev⟩ := elementsMatch.slots stored
    have small : ∀ slot ∈ prevSlots, slot < 65536 := fun slot member =>
      (elementsMatch.storable stored).slots slot ((samePrev slot).mp member)
    cases atEnd : endOf element with
    | none =>
      rw [atEnd] at own
      simpa [putEntries] using own
    | some node =>
      simp only [putEntries]
      split
      case isTrue same =>
        rw [prev, Option.any_some, sameSlots_iff] at same
        have members : ∀ slot, slot ∈ index.slotAffinity element.getReference ↔ slot ∈ slots := fun slot =>
          (samePrev slot).symm.trans (same slot)
        simp only [own, atEnd, members]
      case isFalse changed =>
        -- The old entries are exactly those that are removed.
        rw [mem_moveEntries, if_pos rfl, own, atEnd, prev, Option.getD_some, contains_slotAsU16 small,
          contains_slotAsU16 storable.slots]
        constructor
        · rintro (⟨⟨_, slot, ⟨⟩, member, rfl⟩, remains⟩ | ⟨sameNode, member⟩)
          · exact absurd ⟨rfl, (samePrev slot).mpr member⟩ remains
          · exact ⟨node, key.2, rfl, member, Prod.ext sameNode rfl⟩
        · rintro ⟨_, slot, ⟨⟩, member, rfl⟩
          exact .inr ⟨rfl, member⟩

theorem ElementsMatch.putElement (elementsMatch : ElementsMatch known index db)
    (inbound : KeepsEntries Element.inEnd index db.inbound element slots)
    (outbound : KeepsEntries Element.outEnd index db.outbound element slots) :
    ElementsMatch known (index.setElement element slots) (db.putElement element slots) := by
  have differs : ∀ {ref}, known ref → ref ≠ element.getReference → hashElementRef ref ≠ hashElementRef element.getReference :=
    fun isKnown differs same => differs (distinct isKnown storable.reference same)
  have affinity := mem_setElement_slotAffinity elementsMatch.consistent element slots
  rw [putElement_eq, storable.stored]
  refine {
    consistent := setElement_consistent elementsMatch.consistent element slots
    storable := fun {ref other} stored => ?_
    elements := fun {ref} isKnown => ?_
    only := fun {key} present => ?_
    absent := fun {ref} isKnown gone => ?_
    slots := fun {ref other} stored => ?_
    inbound := ?_
    outbound := ?_ }
  · rw [setElement_elements] at stored
    by_cases same : ref = element.getReference
    · rw [if_pos same] at stored
      cases stored
      exact ⟨storable.reference, storable.ends, storable.stored,
        fun slot member => storable.slots slot (by simpa [affinity, same] using member)⟩
    · rw [if_neg same] at stored
      have before := elementsMatch.storable stored
      exact ⟨before.reference, before.ends, before.stored,
        fun slot member => before.slots slot (by simpa [affinity, same] using member)⟩
  · rw [setElement_elements]
    by_cases same : ref = element.getReference
    · rw [if_pos same, same]
      exact update_self ..
    · rw [if_neg same, ← elementsMatch.elements isKnown]
      exact update_of_ne (differs isKnown same) ..
  · by_cases same : key = hashElementRef element.getReference
    · exact ⟨element.getReference, storable.reference, same⟩
    · exact elementsMatch.only (update_of_ne same (some element) db.elements ▸ present)
  · rw [setElement_elements] at gone
    split at gone
    · cases gone
    case isFalse same =>
      rw [← elementsMatch.absent isKnown gone]
      exact update_of_ne (differs isKnown same) ..
  · rw [setElement_elements] at stored
    by_cases same : ref = element.getReference
    · subst same
      exact ⟨slots, update_self .., fun slot => by rw [affinity, if_pos rfl]⟩
    · rw [if_neg same] at stored
      obtain ⟨prevSlots, prev, samePrev⟩ := elementsMatch.slots stored
      have isKnown := (elementsMatch.storable stored).reference
      rw [elementsMatch.consistent.filed _ _ stored] at isKnown
      refine ⟨prevSlots, (update_of_ne (differs isKnown same) ..).trans prev, fun slot => ?_⟩
      rw [affinity, if_neg same, samePrev]
  · exact elementsMatch.inbound.put distinct elementsMatch storable.reference
      (fun _ _ => mem_putEntries_of_ne) (elementsMatch.inbound.mem_putEntries distinct storable elementsMatch inbound)
  · exact elementsMatch.outbound.put distinct elementsMatch storable.reference
      (fun _ _ => mem_putEntries_of_ne) (elementsMatch.outbound.mem_putEntries distinct storable elementsMatch outbound)

end put

variable {ref : ElementReference}

section remove

variable (distinct : DistinctHashes known) {db : RocksDbElementIndex}
  (isKnown : known ref)

include distinct isKnown

theorem EntriesMatch.removeElement (elementsMatch : ElementsMatch known index db)
    (entriesMatch : EntriesMatch endOf index db.elements entries)
    (ends : ∀ {element node}, endOf element = some node → element.inEnd = some node ∨ element.outEnd = some node)
    (free : ∀ slot ∈ index.slotAffinity ref, ∀ element, index.HasAffinity element slot → endOf element ≠ some ref) :
    EntriesMatch endOf (index.deleteElement ref) (update db.elements (hashElementRef ref) none) fun key =>
      if key.1 = hashElementRef ref ∧ ((((db.slots (hashElementRef ref)).getD []).map slotAsU16).contains key.2) then []
      else entries key := by
  refine entriesMatch.remove elementsMatch (fun key relation filed => ?_) fun {element node slot} has differs atEnd => ?_
  · split at filed
    · cases filed
    · exact filed
  · rw [if_neg]
    · exact entriesMatch.filed has atEnd
    · rintro ⟨sameHash, member⟩
      obtain rfl := distinct ((elementsMatch.storable has.1).ends node (ends atEnd)) isKnown sameHash
      cases stored : index.elements node with
      | none =>
        rw [elementsMatch.absent isKnown stored] at member
        cases member
      | some previous =>
        obtain ⟨prevSlots, prev, samePrev⟩ := elementsMatch.slots stored
        have small : ∀ slot ∈ prevSlots, slot < 65536 := fun slot member =>
          (elementsMatch.storable stored).slots slot ((samePrev slot).mp member)
        rw [prev, Option.getD_some, contains_slotAsU16 small, samePrev] at member
        exact free slot member element has atEnd

theorem ElementsMatch.removeElement (elementsMatch : ElementsMatch known index db)
    (free : ∀ slot ∈ index.slotAffinity ref, ∀ element, index.HasAffinity element slot →
      element.inEnd ≠ some ref ∧ element.outEnd ≠ some ref) :
    ElementsMatch known (index.deleteElement ref) (db.removeElement (hashElementRef ref)) := by
  have affinity := (deleteElement_cleared elementsMatch.consistent ref).affinity
  have stays : ∀ {other element}, (index.deleteElement ref).elements other = some element →
      other ≠ ref ∧ index.elements other = some element := by
    intro other element stored
    rw [deleteElement_elements] at stored
    split at stored
    · cases stored
    case isFalse differs => exact ⟨differs, stored⟩
  have differs : ∀ {other}, known other → other ≠ ref → hashElementRef other ≠ hashElementRef ref :=
    fun isKnown' differs same => differs (distinct isKnown' isKnown same)
  refine {
    consistent := deleteElement_consistent elementsMatch.consistent ref
    storable := fun {other element} stored => ?_
    elements := fun {other} isKnown' => ?_
    only := fun {key} present => ?_
    absent := fun {other} isKnown' gone => ?_
    slots := fun {other element} stored => ?_
    inbound := elementsMatch.inbound.removeElement distinct isKnown elementsMatch .inl fun slot member element has =>
      (free slot member element has).1
    outbound := elementsMatch.outbound.removeElement distinct isKnown elementsMatch .inr fun slot member element has =>
      (free slot member element has).2 }
  · obtain ⟨different, stored⟩ := stays stored
    rw [affinity, if_neg different]
    exact elementsMatch.storable stored
  · rw [deleteElement_elements]
    by_cases same : other = ref
    · rw [if_pos same, same]
      exact update_self ..
    · rw [if_neg same, ← elementsMatch.elements isKnown']
      exact update_of_ne (differs isKnown' same) ..
  · refine elementsMatch.only fun gone => present ?_
    simp only [RocksDbElementIndex.removeElement, update_apply]
    split
    · rfl
    · exact gone
  · by_cases same : other = ref
    · rw [same]
      exact update_self ..
    · rw [deleteElement_elements, if_neg same] at gone
      rw [← elementsMatch.absent isKnown' gone]
      exact update_of_ne (differs isKnown' same) ..
  · obtain ⟨different, stored⟩ := stays stored
    obtain ⟨prevSlots, prev, samePrev⟩ := elementsMatch.slots stored
    have isKnown' := (elementsMatch.storable stored).reference
    rw [elementsMatch.consistent.filed _ _ stored] at isKnown'
    refine ⟨prevSlots, ?_, fun slot => by rw [affinity, if_neg different, samePrev]⟩
    rw [← prev]
    exact update_of_ne (differs isKnown' different) ..

end remove

/-- Which keys of which join are taken with which values. -/
abbrev TakenKeys := String → ElementValue → QueryJoinKey → Prop

namespace TakenKeys

/-- No value is taken under two keys of a join, so there is nobody to be joined. -/
def Apart (taken : TakenKeys) (joins : List QueryJoin) : Prop :=
  ∀ join ∈ joins, ∀ joinKey ∈ join.keys, ∀ other ∈ join.keys, other ≠ joinKey → ∀ value, taken join.id value joinKey →
    ¬ taken join.id value other

/-- Whatever is taken is taken in the bound, too. -/
abbrev Within (taken bound : TakenKeys) : Prop := ∀ joinId value joinKey, taken joinId value joinKey → bound joinId value joinKey

def ofValues (joins : List QueryJoin) (values : QueryJoinKey → Option ElementValue) : TakenKeys :=
  fun joinId value joinKey => ∃ join ∈ joins, join.id = joinId ∧ joinKey ∈ join.keys ∧ values joinKey = some value

theorem Apart.mono {taken larger : TakenKeys} {joins} (apart : larger.Apart joins) (sub : taken.Within larger) :
    taken.Apart joins :=
  fun join isJoin joinKey isKey other isOther differs value takes takes' =>
    apart join isJoin joinKey isKey other isOther differs value (sub _ _ _ takes) (sub _ _ _ takes')

end TakenKeys

variable {joins : List QueryJoin} {bound : TakenKeys} {state : JoinIndex} {order : IterationOrder}

variable {joinKey : QueryJoinKey} {value : ElementValue} {join : QueryJoin}

namespace JoinIndex

def taken (state : JoinIndex) : TakenKeys := fun joinId value joinKey => state.partialJoins (joinId, value) joinKey ≠ []

/-- Nothing but registrations has changed, and they stay within the bound. -/
structure Idle (bound : TakenKeys) (before after : JoinIndex) : Prop where
  index : after.index = before.index
  spec : after.joinSpecByLabel = before.joinSpecByLabel
  within : ∀ joinId value joinKey, after.taken joinId value joinKey → bound joinId value joinKey

variable {fuel : Nat}
  (apart : bound.Apart joins)
  (within : state.taken.Within bound)
  (isJoin : join ∈ joins) (isKey : joinKey ∈ join.keys)

include apart within isJoin isKey

theorem counterparts_eq_nil (takes : bound join.id value joinKey) : state.counterparts order join joinKey value = [] := by
  refine flatMap_eq_nil_iff.mpr fun other member => ?_
  obtain ⟨isOther, differs⟩ := mem_filter.mp member
  have free : ¬ state.taken join.id value other := fun taken =>
    apart join isJoin joinKey isKey other isOther (by simpa using differs) value takes (within _ _ _ taken)
  rw [not_not.mp free, IterationOrder.arrange_nil]

omit isJoin isKey apart in
theorem taken_setPartial (references : List ElementReference) (allowed : references ≠ [] → bound join.id value joinKey) :
    (state.setPartial (join.id, value) joinKey references).taken.Within bound := by
  intro joinId value' joinKey' takes
  simp only [taken, setPartial] at takes
  split at takes
  case isTrue same =>
    obtain ⟨⟨⟩, rfl⟩ := same
    exact allowed takes
  · exact within _ _ _ takes

theorem deleteSourceJoin_idle (order : IterationOrder) (delete : JoinIndex → ElementReference → JoinIndex)
    (ref : ElementReference) (value : ElementValue) :
    Idle bound state (state.deleteSourceJoin order delete ref join joinKey value) := by
  unfold deleteSourceJoin
  dsimp only
  split
  case isTrue registered =>
    have takes : bound join.id value.valueHash joinKey := within _ _ _ (ne_nil_of_mem registered)
    have within' := taken_setPartial within ((state.partialJoins (join.id, value.valueHash) joinKey).filter (· ≠ ref))
      fun _ => takes
    rw [counterparts_eq_nil apart within' isJoin isKey takes]
    exact ⟨rfl, rfl, within'⟩
  · exact ⟨rfl, rfl, within⟩

theorem updateSourceJoin_idle {oldElement metadata properties} (has : joinKey.label ∈ metadata.labels)
    (allowed : ∀ value, (Element.node metadata properties).joinValue joinKey = some value → bound join.id value joinKey) :
    Idle bound state (state.updateSourceJoin order fuel oldElement metadata properties ((join, slots), joinKey)) := by
  unfold updateSourceJoin
  dsimp only
  split
  · exact ⟨rfl, rfl, within⟩
  case h_2 value property =>
    have takes : bound join.id value.valueHash joinKey := allowed _ (by simp [Element.joinValue, has, property])
    split
    · exact ⟨rfl, rfl, within⟩
    split
    · exact ⟨rfl, rfl, within⟩
    have within' := taken_setPartial within (metadata.reference :: state.partialJoins (join.id, value.valueHash) joinKey)
      fun _ => takes
    rw [counterparts_eq_nil apart within' isJoin isKey takes]
    cases oldElement.bind (nodeProperty joinKey.property) with
    | none => exact ⟨rfl, rfl, within'⟩
    | some oldValue =>
      have idle := deleteSourceJoin_idle apart within' isJoin isKey order (deleteElement order fuel) metadata.reference oldValue
      exact ⟨idle.index, idle.spec, idle.within⟩

end JoinIndex

variable {visits : List ((QueryJoin × List Nat) × QueryJoinKey)} {matchPath : MatchPath}

namespace JoinIndex

theorem Idle.refl (within : state.taken.Within bound) :
    Idle bound state state := ⟨rfl, rfl, within⟩

theorem Idle.trans {middle after} (first : Idle bound state middle) (second : Idle bound middle after) :
    Idle bound state after := ⟨second.index.trans first.index, second.spec.trans first.spec, second.within⟩

theorem Idle.foldl {step}
    (idle : ∀ visit ∈ visits, ∀ state : JoinIndex, state.taken.Within bound → Idle bound state (step state visit))
    (within : state.taken.Within bound) : Idle bound state (visits.foldl step state) := by
  induction visits generalizing state with
  | nil => exact .refl within
  | cons visit visits ih =>
    have first := idle visit mem_cons_self state within
    exact first.trans (ih (fun visit member => idle visit (mem_cons_of_mem _ member)) first.within)

/-- Where nobody is to be joined, setting a node is setting its element. -/
theorem setElement_idle (order : IterationOrder) (fuel : Nat)
    (spec : state.joinSpecByLabel = JoinSpec.extract matchPath joins) (slots : List Nat)
    (apart : bound.Apart (active matchPath joins)) (within : state.taken.Within bound)
    (allowed : (TakenKeys.ofValues (active matchPath joins) (element.joinValue ·)).Within bound) :
    Idle bound { state with index := state.index.setElement element slots } (state.setElement order fuel element slots) := by
  cases element with
  | relation metadata inNode outNode properties => exact .refl within
  | node metadata properties =>
    refine .foldl (fun visit member state' within' => ?_) within
    obtain ⟨⟨join, slots'⟩, joinKey⟩ := visit
    obtain ⟨isJoin, -, isKey, has⟩ := mem_visits_active.mp (spec ▸ member)
    exact updateSourceJoin_idle apart within' isJoin isKey has
      fun value carries => allowed _ _ _ ⟨join, isJoin, rfl, isKey, carries⟩

theorem deleteElement_idle (order : IterationOrder) (fuel : Nat)
    (spec : state.joinSpecByLabel = JoinSpec.extract matchPath joins) (ref : ElementReference)
    (apart : state.taken.Apart (active matchPath joins)) :
    Idle state.taken { state with index := state.index.deleteElement ref } (state.deleteElement order fuel ref) := by
  unfold deleteElement
  split
  · refine .foldl (fun visit member state' within' => ?_) fun _ _ _ => id
    obtain ⟨⟨join, slots'⟩, joinKey⟩ := visit
    obtain ⟨isJoin, -, isKey, -⟩ := mem_visits_active.mp (spec ▸ member)
    dsimp only
    split
    · exact deleteSourceJoin_idle apart within' isJoin isKey order _ _ _
    · exact .refl within'
  · exact .refl fun _ _ _ => id

end JoinIndex

namespace RocksDbElementIndex

def taken : TakenKeys := fun joinId value joinKey => db.partialJoins (joinId, value, joinKey) ≠ []

/-- Nothing but registrations has changed, and they stay within the bound. -/
structure Idle (bound : TakenKeys) (before after : RocksDbElementIndex) : Prop where
  same : after = { before with partialJoins := after.partialJoins }
  within : ∀ joinId value joinKey, after.taken joinId value joinKey → bound joinId value joinKey

variable {db : RocksDbElementIndex}

section idle

variable {fuel : Nat}

theorem Idle.refl (within : db.taken.Within bound) : Idle bound db db :=
  ⟨rfl, within⟩

theorem Idle.trans {middle after} (first : Idle bound db middle) (second : Idle bound middle after) :
    Idle bound db after := ⟨by rw [second.same, first.same], second.within⟩

variable (apart : bound.Apart joins) (within : db.taken.Within bound)
  (isJoin : join ∈ joins) (isKey : joinKey ∈ join.keys)

include apart within isJoin isKey

theorem forCounterparts_idle (takes : bound join.id value joinKey)
    (action : RocksDbElementIndex → ElementReference → Option RocksDbElementIndex) :
    db.forCounterparts join joinKey value action = some db := by
  have free : ∀ other ∈ join.keys.filter (· ≠ joinKey), db.partialJoins (join.id, value, other) = [] := by
    intro other member
    obtain ⟨isOther, differs⟩ := mem_filter.mp member
    by_contra taken
    exact apart join isJoin joinKey isKey other isOther (by simpa using differs) value takes (within _ _ _ taken)
  unfold forCounterparts
  generalize join.keys.filter (· ≠ joinKey) = others at free ⊢
  induction others with
  | nil => rfl
  | cons other others ih =>
    rw [foldlM_cons, free other mem_cons_self]
    exact ih fun other member => free other (mem_cons_of_mem _ member)

omit apart isJoin isKey in
theorem setPartial_idle (keys : List ByteString) (allowed : keys ≠ [] → bound join.id value joinKey) :
    Idle bound db (db.setPartial (join.id, value, joinKey) keys) := by
  refine ⟨rfl, fun joinId value' joinKey' takes => ?_⟩
  simp only [taken, setPartial] at takes
  split at takes
  case isTrue same =>
    cases same
    exact allowed takes
  · exact within _ _ _ takes

theorem deleteSourceJoin_idle (order : IterationOrder)
    (delete : RocksDbElementIndex → String → Option RocksDbElementIndex) (ref : ElementReference) (value : ElementValue) :
    ∃ after, db.deleteSourceJoin order delete ref join joinKey value = some after ∧ Idle bound db after := by
  unfold deleteSourceJoin
  dsimp only
  split
  case isTrue registered =>
    have takes : bound join.id (value.hashed order) joinKey := within _ _ _ (ne_nil_of_mem registered)
    have removed := setPartial_idle within
      ((db.partialJoins (join.id, value.hashed order, joinKey)).filter (· ≠ encodePartialJoinKey ref)) fun _ => takes
    exact ⟨_, forCounterparts_idle apart removed.within isJoin isKey takes _, removed⟩
  · exact ⟨db, rfl, .refl within⟩

theorem updateSourceJoin_idle
    (allowed : ∀ value order, storedProperty joinKey.property element = some value →
      bound join.id (value.hashed order) joinKey) :
    ∃ after, db.updateSourceJoin order fuel element ((join, slots), joinKey) = some after ∧ Idle bound db after := by
  unfold updateSourceJoin
  dsimp only
  split
  · exact ⟨db, rfl, .refl within⟩
  case h_2 value property =>
    have takes := allowed value (order.within [2]) property
    split
    · exact ⟨db, rfl, .refl within⟩
    split
    · exact ⟨db, rfl, .refl within⟩
    have inserted := setPartial_idle within
      (encodePartialJoinKey element.getReference :: db.partialJoins (join.id, value.hashed (order.within [2]), joinKey))
      fun _ => takes
    cases (db.committed (hashElementRef element.getReference)).bind (storedProperty joinKey.property) with
    | none =>
      refine ⟨_, ?_, inserted⟩
      exact forCounterparts_idle apart inserted.within isJoin isKey takes _
    | some oldValue =>
      obtain ⟨after, deletes, idle⟩ := deleteSourceJoin_idle apart inserted.within isJoin isKey (order.within [3])
        (deleteElement order fuel) element.getReference oldValue
      refine ⟨after, ?_, inserted.trans idle⟩
      simp only [deletes, Option.bind_eq_bind, Option.bind_some]
      exact forCounterparts_idle apart idle.within isJoin isKey takes _

end idle

theorem Idle.foldlM {step}
    (idle : ∀ visit ∈ visits, ∀ db : RocksDbElementIndex, db.taken.Within bound →
      ∃ after, step db visit = some after ∧ Idle bound db after)
    (within : db.taken.Within bound) :
    ∃ after, visits.foldlM step db = some after ∧ Idle bound db after := by
  induction visits generalizing db with
  | nil => exact ⟨db, rfl, .refl within⟩
  | cons visit visits ih =>
    obtain ⟨middle, steps, first⟩ := idle visit mem_cons_self db within
    obtain ⟨after, rest, second⟩ := ih (fun visit member => idle visit (mem_cons_of_mem _ member)) first.within
    exact ⟨after, by rw [foldlM_cons, steps]; exact rest, first.trans second⟩

/-- The stored value of a join key that an element carries. -/
def storedJoinValue (element : Element) (joinKey : QueryJoinKey) : Option ElementValue :=
  if joinKey.label ∈ element.getMetadata.labels then storedProperty joinKey.property element else none

/-- The keys an element may take, for every order in which its values are hashed. -/
def takenBy (joins : List QueryJoin) (element : Element) : TakenKeys := fun joinId value joinKey =>
  ∃ order : IterationOrder,
    TakenKeys.ofValues joins (fun joinKey => (storedJoinValue element joinKey).map (·.hashed order)) joinId value joinKey

theorem setElement_idle (order : IterationOrder) (fuel : Nat)
    (spec : db.joinSpecByLabel = JoinSpec.extract matchPath joins) (stored : element.stored = element) (slots : List Nat)
    (apart : bound.Apart (JoinIndex.active matchPath joins)) (within : db.taken.Within bound)
    (allowed : (takenBy (JoinIndex.active matchPath joins) element).Within bound) :
    ∃ after, db.setElement order fuel element slots = some after ∧ Idle bound (db.putElement element slots) after := by
  have specs : (db.putElement element slots).joinSpecByLabel = .extract matchPath joins ∧
      (db.putElement element slots).partialJoins = db.partialJoins := by
    rw [putElement_eq]
    exact ⟨spec, rfl⟩
  have within' : (db.putElement element slots).taken.Within bound := by
    simpa only [TakenKeys.Within, taken, specs.2] using within
  cases element with
  | relation metadata inNode outNode properties => exact ⟨_, rfl, .refl within'⟩
  | node metadata properties =>
    refine Idle.foldlM (fun visit member db' within'' => ?_) within'
    obtain ⟨⟨join, slots'⟩, joinKey⟩ := visit
    obtain ⟨isJoin, -, isKey, has⟩ := JoinIndex.mem_visits_active.mp (specs.1 ▸ member)
    refine updateSourceJoin_idle apart within'' isJoin isKey fun value order carries =>
      allowed _ _ _ ⟨order, join, isJoin, rfl, isKey, ?_⟩
    rw [stored] at carries
    simp only [storedJoinValue, if_pos has, carries, Option.map_some]

theorem deleteElement_idle (order : IterationOrder) (fuel : Nat)
    (spec : db.joinSpecByLabel = JoinSpec.extract matchPath joins) (key : String)
    (apart : db.taken.Apart (JoinIndex.active matchPath joins)) :
    ∃ after, db.deleteElement order fuel key = some after ∧ Idle db.taken (db.removeElement key) after := by
  unfold deleteElement
  split
  case h_1 _ metadata properties nested stored =>
    obtain ⟨after, deletes, idle⟩ : ∃ after,
        db.deleteSourceJoins order (deleteElement order nested) (.node metadata properties) = some after ∧
        Idle db.taken db after := by
      refine Idle.foldlM (fun visit member db' within' => ?_) fun _ _ _ => id
      obtain ⟨⟨join, slots'⟩, joinKey⟩ := visit
      obtain ⟨isJoin, -, isKey, -⟩ := JoinIndex.mem_visits_active.mp (spec ▸ member)
      dsimp only
      split
      · exact deleteSourceJoin_idle apart within' isJoin isKey _ _ _ _
      · exact ⟨db', rfl, .refl within'⟩
    obtain ⟨partialJoins, rfl⟩ : ∃ partialJoins, after = { db with partialJoins } := ⟨_, idle.same⟩
    rw [deletes, Option.map_some]
    refine ⟨_, rfl, ⟨?_, fun joinId value joinKey takes => idle.within joinId value joinKey takes⟩⟩
    simp [removeElement]
  · exact ⟨_, rfl, .refl fun _ _ _ => id⟩

end RocksDbElementIndex

def SessionCall.Followed (known : ElementReference → Prop) (matchPath : MatchPath) (joins : List QueryJoin) (state : JoinIndex)
    (db : RocksDbElementIndex) : SessionCall → Prop
  | .setElement element slots =>
    Storable known element slots ∧ KeepsEntries Element.inEnd state.index db.inbound element slots ∧
    KeepsEntries Element.outEnd state.index db.outbound element slots ∧
    TakenKeys.Apart (fun joinId value joinKey => state.taken joinId value joinKey ∨
      TakenKeys.ofValues (JoinIndex.active matchPath joins) (element.joinValue ·) joinId value joinKey)
        (JoinIndex.active matchPath joins) ∧
    TakenKeys.Apart (fun joinId value joinKey => db.taken joinId value joinKey ∨
      takenBy (JoinIndex.active matchPath joins) element joinId value joinKey) (JoinIndex.active matchPath joins)
  | .deleteElement elementRef => known elementRef ∧ ∀ slot ∈ state.index.slotAffinity elementRef,
      state.index.elementBySlotIn slot elementRef = [] ∧ state.index.elementBySlotOut slot elementRef = []
  | .getElement elementRef => known elementRef
  | .getSlotElementByRef slot elementRef => known elementRef ∧ ∀ element, state.index.elements elementRef = some element →
      element.inEnd ≠ none → slot ∉ state.index.slotAffinity elementRef
  | .getSlotElementsByInbound slot inboundRef => known inboundRef ∧ slot < 65536
  | .getSlotElementsByOutbound slot outboundRef => known outboundRef ∧ slot < 65536
  | .commit => True

/-- The two indexes hold the same elements, and nobody is joined in either. -/
structure Simulates (known : ElementReference → Prop) (matchPath : MatchPath) (joins : List QueryJoin) (state : JoinIndex)
    (db : RocksDbElementIndex) : Prop where
  memorySpec : state.joinSpecByLabel = JoinSpec.extract matchPath joins
  rocksSpec : db.joinSpecByLabel = JoinSpec.extract matchPath joins
  elements : ElementsMatch known state.index db
  memoryApart : state.taken.Apart (JoinIndex.active matchPath joins)
  rocksApart : db.taken.Apart (JoinIndex.active matchPath joins)

section simulation

variable {db : RocksDbElementIndex}
variable {slot : Nat} {after : RocksDbElementIndex}

theorem ElementsMatch.congr (elementsMatch : ElementsMatch known index db) (elements : after.elements = db.elements)
    (slots : after.slots = db.slots) (inbound : after.inbound = db.inbound) (outbound : after.outbound = db.outbound) :
    ElementsMatch known index after where
  consistent := elementsMatch.consistent
  storable := elementsMatch.storable
  elements := elements ▸ elementsMatch.elements
  only := elements ▸ elementsMatch.only
  absent := slots ▸ elementsMatch.absent
  slots := slots ▸ elementsMatch.slots
  inbound := elements ▸ inbound ▸ elementsMatch.inbound
  outbound := elements ▸ outbound ▸ elementsMatch.outbound

theorem ElementsMatch.idle {bound} (elementsMatch : ElementsMatch known index db)
    (idle : RocksDbElementIndex.Idle bound db after) : ElementsMatch known index after :=
  elementsMatch.congr (by rw [idle.same]) (by rw [idle.same]) (by rw [idle.same]) (by rw [idle.same])

theorem mem_getSlotElementByRef (simulates : Simulates known matchPath joins state db) {elementRef}
    (isKnown : known elementRef) (notRelation : ∀ element, state.index.elements elementRef = some element → element.inEnd ≠ none →
      slot ∉ state.index.slotAffinity elementRef) :
    state.index.getSlotElementByRef slot elementRef = db.getSlotElementByRef slot elementRef := by
  have elementsMatch := simulates.elements
  unfold InMemoryElementIndex.getSlotElementByRef getSlotElementByRef
  rw [elementsMatch.elements isKnown]
  cases stored : state.index.elements elementRef with
  | none => simp [elementsMatch.absent isKnown stored]
  | some element =>
    obtain ⟨prevSlots, prev, samePrev⟩ := elementsMatch.slots stored
    have sameRef := elementsMatch.consistent.filed _ _ stored
    have filed : state.index.elementBySlot slot elementRef = true ↔ slot ∈ prevSlots := by
      rw [elementsMatch.consistent.nodes, samePrev]
      constructor
      · rintro ⟨metadata, properties, rfl, has⟩
        exact has.2
      · intro member
        cases element with
        | node metadata properties =>
          exact ⟨metadata, properties, sameRef, ⟨by rw [sameRef, stored], by rw [sameRef]; exact member⟩⟩
        | relation metadata inNode outNode properties => exact absurd member (notRelation _ stored (by simp [Element.inEnd]))
    simp only [prev, filed, contains_iff_mem]

section

variable (distinct : DistinctHashes known) (simulates : Simulates known matchPath joins state db)
include distinct simulates

theorem Simulates.setElement (memoryOrder rocksOrder : IterationOrder) (fuel : Nat)
    (followed : (SessionCall.setElement element slots).Followed known matchPath joins state db) :
    ∃ after, db.setElement rocksOrder fuel element slots = some after ∧
      Simulates known matchPath joins (state.setElement memoryOrder fuel element slots) after := by
  obtain ⟨storable, inbound, outbound, memoryApart, rocksApart⟩ := followed
  have memory := JoinIndex.setElement_idle memoryOrder fuel simulates.memorySpec slots memoryApart (fun _ _ _ => .inl)
    fun _ _ _ => .inr
  obtain ⟨after, sets, rocks⟩ := setElement_idle rocksOrder fuel simulates.rocksSpec storable.stored slots rocksApart
    (fun _ _ _ => .inl) fun _ _ _ => .inr
  have spec : after.joinSpecByLabel = db.joinSpecByLabel := by
    rw [rocks.same, putElement_eq]
  exact ⟨after, sets, memory.spec.trans simulates.memorySpec, spec.trans simulates.rocksSpec,
    memory.index ▸ (simulates.elements.putElement distinct storable inbound outbound).idle rocks,
    memoryApart.mono memory.within, rocksApart.mono rocks.within⟩

theorem Simulates.deleteElement (memoryOrder rocksOrder : IterationOrder) (fuel : Nat) {elementRef}
    (followed : (SessionCall.deleteElement elementRef).Followed known matchPath joins state db) :
    ∃ after, db.deleteElement rocksOrder fuel (hashElementRef elementRef) = some after ∧
      Simulates known matchPath joins (state.deleteElement memoryOrder fuel elementRef) after := by
  obtain ⟨isKnown, free⟩ := followed
  have consistent := simulates.elements.consistent
  have free' : ∀ slot ∈ state.index.slotAffinity elementRef, ∀ element, state.index.HasAffinity element slot →
      element.inEnd ≠ some elementRef ∧ element.outEnd ≠ some elementRef := by
    intro slot member element has
    obtain ⟨inbound, outbound⟩ := free slot member
    cases element with
    | node metadata properties => simp [Element.inEnd, Element.outEnd]
    | relation metadata inNode outNode properties =>
      constructor
      · rintro ⟨⟩
        exact ne_nil_of_mem ((consistent.inbound _ _ _).mpr ⟨metadata, outNode, properties, rfl, has⟩) inbound
      · rintro ⟨⟩
        exact ne_nil_of_mem ((consistent.outbound _ _ _).mpr ⟨metadata, inNode, properties, rfl, has⟩) outbound
  have memory := JoinIndex.deleteElement_idle memoryOrder fuel simulates.memorySpec elementRef simulates.memoryApart
  obtain ⟨after, deletes, rocks⟩ := deleteElement_idle rocksOrder fuel simulates.rocksSpec
    (hashElementRef elementRef) simulates.rocksApart
  have spec : after.joinSpecByLabel = db.joinSpecByLabel := by
    rw [rocks.same]
    rfl
  exact ⟨after, deletes, memory.spec.trans simulates.memorySpec, spec.trans simulates.rocksSpec,
    memory.index ▸ (simulates.elements.removeElement distinct isKnown free').idle rocks,
    simulates.memoryApart.mono memory.within, simulates.rocksApart.mono rocks.within⟩

theorem mem_inbound_iff (order : IterationOrder) {inboundRef} (isKnown : known inboundRef) (small : slot < 65536)
    (element : Element) :
    element ∈ state.index.getSlotElementsByInbound order slot inboundRef ↔
      element ∈ (db.getSlotElementsByInbound slot inboundRef).1 := by
  have found := simulates.elements.inbound.mem_collect distinct simulates.elements .inl isKnown slot element
  simp only [RocksDbElementIndex.getSlotElementsByInbound, slotAsU16, Nat.mod_eq_of_lt small, found,
    mem_inbound simulates.elements.consistent]
  refine and_congr_right fun _ => ?_
  cases element <;> simp [Element.inEnd]

theorem mem_outbound_iff (order : IterationOrder) {outboundRef} (isKnown : known outboundRef) (small : slot < 65536)
    (element : Element) :
    element ∈ state.index.getSlotElementsByOutbound order slot outboundRef ↔
      element ∈ (db.getSlotElementsByOutbound slot outboundRef).1 := by
  have found := simulates.elements.outbound.mem_collect distinct simulates.elements .inr isKnown slot element
  simp only [RocksDbElementIndex.getSlotElementsByOutbound, slotAsU16, Nat.mod_eq_of_lt small, found,
    mem_outbound simulates.elements.consistent]
  refine and_congr_right fun _ => ?_
  cases element <;> simp [Element.outEnd]

/-- One call: RocksDB answers what memory answers, and both are alike afterwards. -/
theorem Simulates.call (memoryOrder rocksOrder : IterationOrder) (fuel : Nat) {call}
    (followed : call.Followed known matchPath joins state db) :
    ∃ answer after, db.call rocksOrder fuel call = some (answer, after) ∧
      (∀ element, element ∈ (state.call memoryOrder fuel call).1 ↔ element ∈ answer) ∧
      Simulates known matchPath joins (state.call memoryOrder fuel call).2 after := by
  have elementsMatch := simulates.elements
  cases call with
  | setElement element slots =>
    obtain ⟨after, sets, simulates'⟩ := simulates.setElement distinct memoryOrder rocksOrder fuel followed
    exact ⟨[], after, by simp [RocksDbElementIndex.call, sets], fun _ => .rfl, simulates'⟩
  | deleteElement elementRef =>
    obtain ⟨after, deletes, simulates'⟩ := simulates.deleteElement distinct memoryOrder rocksOrder fuel followed
    exact ⟨[], after, by simp [RocksDbElementIndex.call, deletes], fun _ => .rfl, simulates'⟩
  | getElement elementRef =>
    refine ⟨_, db, rfl, fun element => ?_, simulates⟩
    simp [JoinIndex.call, RocksDbElementIndex.getElement, InMemoryElementIndex.getElement, elementsMatch.elements followed]
  | getSlotElementByRef slot elementRef =>
    refine ⟨_, db, rfl, fun element => ?_, simulates⟩
    rw [← mem_getSlotElementByRef simulates followed.1 followed.2]
    rfl
  | getSlotElementsByInbound slot inboundRef =>
    -- Reading removes entries that belong to no element.
    have cleaned : ElementsMatch known state.index (db.getSlotElementsByInbound slot inboundRef).2 :=
      { elementsMatch with inbound := elementsMatch.inbound.collect elementsMatch _ }
    exact ⟨_, _, rfl, mem_inbound_iff distinct simulates memoryOrder followed.1 followed.2,
      ⟨simulates.memorySpec, simulates.rocksSpec, cleaned, simulates.memoryApart, simulates.rocksApart⟩⟩
  | getSlotElementsByOutbound slot outboundRef =>
    have cleaned : ElementsMatch known state.index (db.getSlotElementsByOutbound slot outboundRef).2 :=
      { elementsMatch with outbound := elementsMatch.outbound.collect elementsMatch _ }
    exact ⟨_, _, rfl, mem_outbound_iff distinct simulates memoryOrder followed.1 followed.2,
      ⟨simulates.memorySpec, simulates.rocksSpec, cleaned, simulates.memoryApart, simulates.rocksApart⟩⟩
  | commit =>
    exact ⟨[], db.commit, rfl, fun _ => .rfl, ⟨simulates.memorySpec, simulates.rocksSpec, elementsMatch.congr rfl rfl rfl rfl,
      simulates.memoryApart, simulates.rocksApart⟩⟩

end

end simulation

/-- The calls of a run, each with the orders in which the two indexes visit their hash maps. -/
abbrev IndexRun := List ((IterationOrder × IterationOrder) × SessionCall)

/-- Every call of the run is one that both indexes follow alike from the states they are in. -/
def RunFollowed (known : ElementReference → Prop) (matchPath : MatchPath) (joins : List QueryJoin) (fuel : Nat) :
    JoinIndex → RocksDbElementIndex → IndexRun → Prop
  | _, _, [] => True
  | state, db, ((memoryOrder, rocksOrder), call) :: calls =>
    call.Followed known matchPath joins state db ∧ ∀ answer after, db.call rocksOrder fuel call = some (answer, after) →
      RunFollowed known matchPath joins fuel (state.call memoryOrder fuel call).2 after calls

/-- RocksDB answers every call of the run, and with the elements that memory answers. -/
def RunAgrees (fuel : Nat) : JoinIndex → RocksDbElementIndex → IndexRun → Prop
  | _, _, [] => True
  | state, db, ((memoryOrder, rocksOrder), call) :: calls =>
    ∃ answer after, db.call rocksOrder fuel call = some (answer, after) ∧
      (∀ element, element ∈ (state.call memoryOrder fuel call).1 ↔ element ∈ answer) ∧
      RunAgrees fuel (state.call memoryOrder fuel call).2 after calls

theorem Simulates.run (distinct : DistinctHashes known) {matchPath joins} (fuel : Nat) {state db calls}
    (simulates : Simulates known matchPath joins state db)
    (followed : RunFollowed known matchPath joins fuel state db calls) : RunAgrees fuel state db calls := by
  induction calls generalizing state db with
  | nil => trivial
  | cons call calls ih =>
    obtain ⟨⟨memoryOrder, rocksOrder⟩, call⟩ := call
    obtain ⟨answer, after, answers, agree, simulates'⟩ := simulates.call distinct memoryOrder rocksOrder fuel followed.1
    exact ⟨answer, after, answers, agree, ih simulates' (followed.2 answer after answers)⟩

theorem Simulates.new (matchPath : MatchPath) (joins : List QueryJoin) :
    Simulates known matchPath joins (.new matchPath joins) (.new matchPath joins) where
  memorySpec := rfl
  rocksSpec := rfl
  elements :=
    { consistent := empty_consistent
      storable := fun stored => by cases stored
      elements := fun _ => rfl
      only := fun present => absurd rfl present
      absent := fun _ _ => rfl
      slots := fun stored => by cases stored
      inbound := ⟨fun has => (by cases has.1), fun filed => absurd filed not_mem_nil⟩
      outbound := ⟨fun has => (by cases has.1), fun filed => absurd filed not_mem_nil⟩ }
  memoryApart := fun _ _ _ _ _ _ _ _ takes => absurd rfl takes
  rocksApart := fun _ _ _ _ _ _ _ _ takes => absurd rfl takes

/-- A relation of the one source, from the given node to another. -/
def sampleRelation (inId : String) : Element := .relation ⟨⟨"s", "r"⟩, ["R"], 0⟩ ⟨"s", inId⟩ ⟨"s", "b"⟩ .empty

/-! A node that carries a key of the sample join, and nobody to be joined with. -/

def sampleKey : QueryJoinKey := ⟨"A", "p"⟩

def TakenKeys.OnlySample (taken : TakenKeys) : Prop := ∀ joinId value joinKey, taken joinId value joinKey → joinKey = sampleKey

theorem TakenKeys.OnlySample.apart {taken : TakenKeys} (only : taken.OnlySample) (joins : List QueryJoin) :
    taken.Apart joins :=
  fun _ _ _ _ _ _ differs _ takes takes' => differs ((only _ _ _ takes').trans (only _ _ _ takes).symm)

def keyedNode (value : ElementValue) : Element := .node ⟨⟨"s", "a"⟩, ["A"], 0⟩ (.insert .empty "p" value)

theorem keyedNode_onlySample (value : ElementValue) :
    (TakenKeys.ofValues (JoinIndex.active joinSamplePath [joinSample]) ((keyedNode value).joinValue ·)).OnlySample ∧
      (takenBy (JoinIndex.active joinSamplePath [joinSample]) (keyedNode value)).OnlySample := by
  have keys : ∀ join ∈ JoinIndex.active joinSamplePath [joinSample], ∀ joinKey ∈ join.keys, joinKey.label ∈ ["A"] →
      joinKey = sampleKey := by
    intro join isJoin
    obtain rfl : join = joinSample := mem_singleton.mp (mem_of_mem_filter isJoin)
    decide
  constructor
  · rintro _ _ joinKey ⟨join, isJoin, rfl, isKey, carries⟩
    exact keys join isJoin joinKey isKey (Option.ite_none_right_eq_some.mp carries).1
  · rintro _ _ joinKey ⟨order, join, isJoin, rfl, isKey, carries⟩
    obtain ⟨_, stored, -⟩ := Option.map_eq_some_iff.mp carries
    exact keys join isJoin joinKey isKey (Option.ite_none_right_eq_some.mp stored).1

/-- What both indexes are while the node is all there is. -/
structure KeyedState (state : JoinIndex) (db : RocksDbElementIndex) : Prop where
  memorySpec : state.joinSpecByLabel = JoinSpec.extract joinSamplePath [joinSample]
  rocksSpec : db.joinSpecByLabel = JoinSpec.extract joinSamplePath [joinSample]
  memoryOnly : state.taken.OnlySample
  rocksOnly : db.taken.OnlySample
  alone : ∀ ref element, state.index.elements ref = some element → ref = ⟨"s", "a"⟩ ∧ ∃ value, element = keyedNode value
  unfiled : (∀ key, db.inbound key = []) ∧ ∀ key, db.outbound key = []

namespace KeyedState

variable {db : RocksDbElementIndex} (keyed : KeyedState state db)
include keyed

theorem followed (stored : value.stored = value) :
    (SessionCall.setElement (keyedNode value) [0]).Followed (·.sourceId = "s") joinSamplePath [joinSample] state db := by
  obtain ⟨memory, rocks⟩ := keyedNode_onlySample value
  have readsBack : (keyedNode value).stored = keyedNode value :=
    congrArg (fun value => keyedNode value) stored
  refine ⟨⟨rfl, (by rintro _ (found | found) <;> cases found), readsBack, by simp⟩, ⟨?_, ?_⟩, ⟨?_, ?_⟩, ?_, ?_⟩
  · intro previous found
    obtain ⟨-, _, rfl⟩ := keyed.alone _ _ found
    rfl
  · intro _ key filed
    rw [keyed.unfiled.1] at filed
    cases filed
  · intro previous found
    obtain ⟨-, _, rfl⟩ := keyed.alone _ _ found
    rfl
  · intro _ key filed
    rw [keyed.unfiled.2] at filed
    cases filed
  · exact TakenKeys.OnlySample.apart (fun _ _ _ takes => takes.elim (keyed.memoryOnly _ _ _) (memory _ _ _)) _
  · exact TakenKeys.OnlySample.apart (fun _ _ _ takes => takes.elim (keyed.rocksOnly _ _ _) (rocks _ _ _)) _

theorem set {answer} {after : RocksDbElementIndex}
    (sets : db.call .stored 1 (.setElement (keyedNode value) [0]) = some (answer, after)) (stored : value.stored = value) :
    KeyedState (state.setElement .stored 1 (keyedNode value) [0]) after := by
  obtain ⟨storable, -, -, memoryApart, rocksApart⟩ := keyed.followed stored
  obtain ⟨memory, rocks⟩ := keyedNode_onlySample value
  have idle := JoinIndex.setElement_idle .stored 1 keyed.memorySpec [0] memoryApart (fun _ _ _ => .inl) fun _ _ _ => .inr
  obtain ⟨after', sets', rocksIdle⟩ := setElement_idle .stored 1 keyed.rocksSpec storable.stored [0] rocksApart
    (fun _ _ _ => .inl) fun _ _ _ => .inr
  obtain rfl : after' = after := by
    rw [call, sets'] at sets
    cases sets
    rfl
  refine ⟨idle.spec.trans keyed.memorySpec, ?_, fun _ _ _ takes => (idle.within _ _ _ takes).elim
    (keyed.memoryOnly _ _ _) (memory _ _ _), fun _ _ _ takes => (rocksIdle.within _ _ _ takes).elim
    (keyed.rocksOnly _ _ _) (rocks _ _ _), fun ref element found => ?_, ?_⟩
  · rw [rocksIdle.same]
    exact keyed.rocksSpec
  · rw [idle.index, setElement_elements] at found
    split at found
    · next same => exact ⟨same, value, (Option.some.inj found).symm⟩
    · exact keyed.alone ref element found
  · rw [rocksIdle.same]
    exact keyed.unfiled

end KeyedState

def keyedCalls : IndexRun :=
  [((.stored, .stored), .setElement (keyedNode (.integer 1)) [0]), ((.stored, .stored), .commit),
    ((.stored, .stored), .setElement (keyedNode (.object [("x", .integer 1), ("y", .null)])) [0]),
    ((.stored, .stored), .setElement (sampleRelation "a") [1]), ((.stored, .stored), .commit),
    ((.stored, .stored), .getElement ⟨"s", "a"⟩), ((.stored, .stored), .getSlotElementsByInbound 1 ⟨"s", "a"⟩)]

end DrasiCore
