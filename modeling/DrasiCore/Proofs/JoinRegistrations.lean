import DrasiCore.SourceJoins
import DrasiCore.Library.LinkedPairs
import DrasiCore.Proofs.ElementIndexUpdates

/-! Registrations of source joins. The virtual relations stand for the links between registered nodes, and each registration
and its removal keeps that so. -/

namespace DrasiCore

open Library Proofs List InMemoryElementIndex

variable {join : QueryJoin} {joins : List QueryJoin} {slots : List Nat}

namespace JoinSpec

variable {matchPath : MatchPath} {label : String}

theorem mem_push {spec entry joinKey} :
    entry ∈ ((push join slots spec joinKey).lookup label).getD [] ↔
      entry ∈ (spec.lookup label).getD [] ∨ entry = (join, slots) ∧ joinKey.label = label := by
  unfold push
  by_cases same : label = joinKey.label
  · subst same
    simp
  · simp [AList.lookup_insert_ne same, Ne.symm same]

theorem mem_foldl_push {keys : List QueryJoinKey} {spec : JoinSpec} {entry} :
    entry ∈ ((keys.foldl (push join slots) spec).lookup label).getD [] ↔
      entry ∈ (spec.lookup label).getD [] ∨ entry = (join, slots) ∧ ∃ joinKey ∈ keys, joinKey.label = label := by
  induction keys generalizing spec with
  | nil => simp
  | cons joinKey keys ih =>
    rw [foldl_cons, ih, mem_push]
    grind

theorem mem_extract :
    (join, slots) ∈ ((extract matchPath joins).lookup label).getD [] ↔
      join ∈ joins ∧ slots = joinSlots matchPath join ∧ slots ≠ [] ∧ ∃ joinKey ∈ join.keys, joinKey.label = label := by
  have general : ∀ spec : JoinSpec,
      (join, slots) ∈ ((joins.foldl (fun spec join =>
        let slots := joinSlots matchPath join
        if slots.isEmpty then spec else join.keys.foldl (push join slots) spec) spec).lookup label).getD [] ↔
      (join, slots) ∈ (spec.lookup label).getD [] ∨
        join ∈ joins ∧ slots = joinSlots matchPath join ∧ slots ≠ [] ∧ ∃ joinKey ∈ join.keys, joinKey.label = label := by
    induction joins with
    | nil => simp
    | cons first joins ih =>
      intro spec
      rw [foldl_cons, ih]
      by_cases empty : joinSlots matchPath first = []
      · simp only [empty, isEmpty_nil, if_true]
        grind
      · simp only [List.isEmpty_iff, empty, if_false, mem_foldl_push]
        grind
  simpa [extract] using general ∅

/-- What is visited for an element: every join with slots, at every key whose label the element has. -/
theorem mem_visits {order labels joinKey} :
    ((join, slots), joinKey) ∈ (extract matchPath joins).visits order labels ↔
      join ∈ joins ∧ slots = joinSlots matchPath join ∧ slots ≠ [] ∧ joinKey ∈ join.keys ∧ joinKey.label ∈ labels := by
  have listed : ∀ entries, (⟨joinKey.label, entries⟩ : Sigma fun _ : String => List (QueryJoin × List Nat)) ∈
      (extract matchPath joins).entries → (((extract matchPath joins).lookup joinKey.label).getD [] = entries) := by
    intro entries member
    rw [AList.mem_lookup_iff.mpr member]
    rfl
  constructor
  · intro visited
    simp only [visits, mem_flatMap, IterationOrder.mem_arrange] at visited
    obtain ⟨⟨label, entries⟩, member, turn⟩ := visited
    split at turn
    case isFalse => cases turn
    case isTrue has =>
      simp only [mem_flatMap, mem_map, mem_filter, decide_eq_true_eq] at turn
      obtain ⟨entry, here, _, ⟨inKeys, rfl⟩, ⟨⟩⟩ := turn
      obtain ⟨isJoin, slotsOf, nonempty, -⟩ := mem_extract.mp (listed _ member ▸ here)
      exact ⟨isJoin, slotsOf, nonempty, inKeys, by simpa using has⟩
  · rintro ⟨isJoin, slotsOf, nonempty, inKeys, has⟩
    have here : (join, slots) ∈ ((extract matchPath joins).lookup joinKey.label).getD [] :=
      mem_extract.mpr ⟨isJoin, slotsOf, nonempty, joinKey, inKeys, rfl⟩
    cases entries : (extract matchPath joins).lookup joinKey.label with
    | none =>
      rw [entries] at here
      cases here
    | some entries' =>
      rw [entries] at here
      simp only [visits, mem_flatMap, IterationOrder.mem_arrange]
      refine ⟨⟨joinKey.label, entries'⟩, AList.mem_lookup_iff.mp entries, ?_⟩
      rw [if_pos (by simpa using has)]
      simp only [mem_flatMap, mem_map, mem_filter, decide_eq_true_eq]
      exact ⟨(join, slots), here, joinKey, ⟨inKeys, rfl⟩, rfl⟩

end JoinSpec

variable {refs : List ElementReference} {relations : List Element} {index : InMemoryElementIndex} {ref : ElementReference}

namespace InMemoryElementIndex

section

variable (consistent : index.Consistent)
include consistent

theorem foldl_setElement_frame (relations : List Element) (slots : List Nat)
    (others : ∀ relation ∈ relations, relation.getReference ≠ ref) :
    let after := relations.foldl (fun index relation => index.setElement relation slots) index
    after.Consistent ∧ after.elements ref = index.elements ref ∧
      ∀ slot, slot ∈ after.slotAffinity ref ↔ slot ∈ index.slotAffinity ref := by
  induction relations generalizing index with
  | nil => exact ⟨consistent, rfl, fun _ => .rfl⟩
  | cons relation relations ih =>
    have differs : ref ≠ relation.getReference := (others relation mem_cons_self).symm
    obtain ⟨kept, elements, affinity⟩ := ih (setElement_consistent consistent relation slots)
      fun other member => others other (mem_cons_of_mem _ member)
    refine ⟨kept, elements.trans (by simp [differs]), fun slot => (affinity slot).trans ?_⟩
    rw [mem_setElement_slotAffinity consistent, if_neg differs]

theorem foldl_setElement_consistent (relations : List Element) (slots : List Nat) :
    (relations.foldl (fun index relation => index.setElement relation slots) index).Consistent := by
  induction relations generalizing index with
  | nil => exact consistent
  | cons relation relations ih => exact ih (setElement_consistent consistent relation slots)

theorem foldl_setElement_mem {relation} (member : relation ∈ relations)
    (alone : ∀ other ∈ relations, other.getReference = relation.getReference → other = relation) :
    let after := relations.foldl (fun index relation => index.setElement relation slots) index
    after.elements relation.getReference = some relation ∧
      ∀ slot, slot ∈ after.slotAffinity relation.getReference ↔ slot ∈ slots := by
  induction relations generalizing index with
  | nil => cases member
  | cons first relations ih =>
    have consistent' := setElement_consistent consistent first slots
    by_cases later : relation ∈ relations
    · exact ih consistent' later fun other here => alone other (mem_cons_of_mem _ here)
    · -- Its last occurrence: the rest leaves it alone.
      obtain rfl : relation = first := (mem_cons.mp member).resolve_right later
      have others : ∀ other ∈ relations, other.getReference ≠ relation.getReference := fun other here same =>
        later (alone other (mem_cons_of_mem _ here) same ▸ here)
      obtain ⟨-, elements, affinity⟩ := foldl_setElement_frame consistent' relations slots others
      refine ⟨elements.trans (by simp), fun slot => (affinity slot).trans ?_⟩
      rw [mem_setElement_slotAffinity consistent, if_pos rfl]

theorem foldl_deleteElement_consistent (refs : List ElementReference) : (refs.foldl deleteElement index).Consistent := by
  induction refs generalizing index with
  | nil => exact consistent
  | cons first refs ih => exact ih (deleteElement_consistent consistent first)

end

theorem foldl_deleteElement_elements (refs : List ElementReference) (ref : ElementReference) :
    (refs.foldl deleteElement index).elements ref = if ref ∈ refs then none else index.elements ref := by
  induction refs generalizing index with
  | nil => simp
  | cons first refs ih =>
    rw [foldl_cons, ih, deleteElement_elements]
    grind

theorem foldl_deleteElement_slotAffinity (consistent : index.Consistent) (kept : ref ∉ refs) :
    (refs.foldl deleteElement index).slotAffinity ref = index.slotAffinity ref := by
  induction refs generalizing index with
  | nil => rfl
  | cons first refs ih =>
    obtain ⟨differs, rest⟩ := ne_and_not_mem_of_not_mem_cons kept
    rw [foldl_cons, ih (deleteElement_consistent consistent first) rest,
      (deleteElement_cleared consistent first).affinity, if_neg differs]

end InMemoryElementIndex

abbrev JoinLinks := QueryJoin → ElementReference → ElementReference → Prop

abbrev JoinRegistry := Registry QueryJoin QueryJoinKey ElementValue ElementReference

/-- The virtual relations of the index are those of the linked pairs, one for each, with the slots of its join. -/
structure ShowsLinks (slots : QueryJoin → List Nat) (linked : JoinLinks)
    (index : InMemoryElementIndex) : Prop where
  stored : ∀ {join first second}, linked join first second → ∃ effectiveFrom,
    index.elements (getJoinVirtualRef first second) = some (joinRelation join.id effectiveFrom first second) ∧
      ∀ slot, slot ∈ index.slotAffinity (getJoinVirtualRef first second) ↔ slot ∈ slots join
  only : ∀ {ref}, ref.sourceId = joinSource → index.elements ref ≠ none →
    ∃ join first second, linked join first second ∧ ref = getJoinVirtualRef first second

/-- Different linked pairs have different references, and no pair is linked by two joins. -/
def SeparateLinks (linked : JoinLinks) : Prop :=
  ∀ {join join' first first' second second'}, linked join first second → linked join' first' second' →
    getJoinVirtualRef first second = getJoinVirtualRef first' second' → join = join' ∧ first = first' ∧ second = second'

variable {slots : QueryJoin → List Nat}

namespace ShowsLinks

variable {linked : JoinLinks}

section

variable (links : ShowsLinks slots linked index)
include links

theorem congr {linked' : JoinLinks}
    (same : ∀ join first second, linked' join first second ↔ linked join first second) :
    ShowsLinks slots linked' index where
  stored is := links.stored ((same _ _ _).mp is)
  only virtual present := by simpa only [same] using links.only virtual present

theorem frame {index'}
    (agree : ∀ ref, ref.sourceId = joinSource → index'.elements ref = index.elements ref ∧
      ∀ slot, slot ∈ index'.slotAffinity ref ↔ slot ∈ index.slotAffinity ref) : ShowsLinks slots linked index' where
  stored is :=
    let ⟨effectiveFrom, element, affinity⟩ := links.stored is
    let ⟨elements, affinities⟩ := agree _ rfl
    ⟨effectiveFrom, elements.trans element, fun slot => (affinities slot).trans (affinity slot)⟩
  only virtual present := links.only virtual ((agree _ virtual).1 ▸ present)

theorem deleteAll (consistent : index.Consistent) (separate : SeparateLinks linked)
    (gone : JoinLinks)
    (within : ∀ {join first second}, gone join first second → linked join first second)
    (listed : ∀ ref, ref ∈ refs ↔ ∃ join first second, gone join first second ∧ ref = getJoinVirtualRef first second) :
    ShowsLinks slots (fun join first second => linked join first second ∧ ¬ gone join first second)
      (refs.foldl InMemoryElementIndex.deleteElement index) where
  stored := by
    rintro join first second ⟨is, stays⟩
    have kept : getJoinVirtualRef first second ∉ refs := by
      intro deleted
      obtain ⟨join', first', second', goes, same⟩ := (listed _).mp deleted
      obtain ⟨rfl, rfl, rfl⟩ := separate is (within goes) same
      exact stays goes
    obtain ⟨effectiveFrom, element, affinity⟩ := links.stored is
    refine ⟨effectiveFrom, ?_, fun slot => ?_⟩
    · rw [foldl_deleteElement_elements, if_neg kept, element]
    · rw [foldl_deleteElement_slotAffinity consistent kept, affinity]
  only := by
    intro ref virtual present
    rw [foldl_deleteElement_elements] at present
    split at present
    · exact absurd rfl present
    case isFalse kept =>
      obtain ⟨join, first, second, is, rfl⟩ := links.only virtual present
      exact ⟨join, first, second, ⟨is, fun goes => kept ((listed _).mpr ⟨join, first, second, goes, rfl⟩)⟩, rfl⟩

theorem setAll (consistent : index.Consistent) {join}
    (effectiveFrom : ElementTimestamp) (new : ElementReference → ElementReference → Prop)
    (separate : SeparateLinks fun join' first second => linked join' first second ∨ join' = join ∧ new first second)
    (listed : ∀ relation, relation ∈ relations ↔
      ∃ first second, new first second ∧ relation = joinRelation join.id effectiveFrom first second) :
    ShowsLinks slots (fun join' first second => linked join' first second ∨ join' = join ∧ new first second)
      (relations.foldl (fun index relation => index.setElement relation (slots join)) index) where
  stored := by
    intro join' first second is
    by_cases fresh : ∃ first' second', new first' second' ∧ getJoinVirtualRef first second = getJoinVirtualRef first' second'
    · obtain ⟨first', second', isNew, same⟩ := fresh
      obtain ⟨rfl, rfl, rfl⟩ := separate is (.inr ⟨rfl, isNew⟩) same
      refine ⟨effectiveFrom, foldl_setElement_mem consistent ((listed _).mpr ⟨first, second, isNew, rfl⟩) ?_⟩
      intro other member sameRef
      obtain ⟨first', second', isNew', rfl⟩ := (listed _).mp member
      obtain ⟨-, rfl, rfl⟩ := separate (.inr ⟨rfl, isNew'⟩) is sameRef
      rfl
    · have others : ∀ relation ∈ relations, relation.getReference ≠ getJoinVirtualRef first second := by
        intro relation member same
        obtain ⟨first', second', isNew, rfl⟩ := (listed _).mp member
        exact fresh ⟨first', second', isNew, same.symm⟩
      have old : linked join' first second := is.resolve_right fun ⟨_, isNew⟩ => fresh ⟨first, second, isNew, rfl⟩
      obtain ⟨effectiveFrom', element, affinity⟩ := links.stored old
      obtain ⟨-, elements, affinity'⟩ := foldl_setElement_frame consistent relations (slots join) others
      exact ⟨effectiveFrom', elements.trans element, fun slot => (affinity' slot).trans (affinity slot)⟩
  only := by
    intro ref virtual present
    by_cases fresh : ∃ relation ∈ relations, relation.getReference = ref
    · obtain ⟨relation, member, rfl⟩ := fresh
      obtain ⟨first, second, isNew, rfl⟩ := (listed _).mp member
      exact ⟨join, first, second, .inr ⟨rfl, isNew⟩, rfl⟩
    · have others : ∀ relation ∈ relations, relation.getReference ≠ ref := fun relation member same =>
        fresh ⟨relation, member, same⟩
      rw [(foldl_setElement_frame consistent relations (slots join) others).2.1] at present
      obtain ⟨join', first, second, is, same⟩ := links.only virtual present
      exact ⟨join', first, second, .inl is, same⟩

end

end ShowsLinks

/-- What holds of all registrations a step may meet, before or after: they are unambiguous, and different linked pairs
have different virtual references. -/
structure WellNamed (bound : JoinRegistry) : Prop where
  unambiguous : bound.Unambiguous
  distinct : ∀ {join join' first first' second second'}, bound.Linked join first second →
    bound.Linked join' first' second' → getJoinVirtualRef first second = getJoinVirtualRef first' second' →
    first = first' ∧ second = second'

variable {joinKey : QueryJoinKey} {value : ElementValue}

section links

variable {bound registry : JoinRegistry}
  (wellNamed : WellNamed bound)

include wellNamed

theorem WellNamed.separate
    (within : ∀ {join joinKey value ref}, registry join joinKey value ref → bound join joinKey value ref) :
    SeparateLinks registry.Linked := by
  rintro join join' first first' second second' linked linked' same
  obtain ⟨rfl, rfl⟩ := wellNamed.distinct (linked.mono within) (linked'.mono within) same
  obtain ⟨_, _, way⟩ := linked.mono within
  obtain ⟨_, _, way'⟩ := linked'.mono within
  exact ⟨(wellNamed.unambiguous way way').1, rfl, rfl⟩

theorem WellNamed.mono
    (within : ∀ {join joinKey value ref}, registry join joinKey value ref → bound join joinKey value ref) :
    WellNamed registry :=
  ⟨wellNamed.unambiguous.mono within, fun linked linked' => wellNamed.distinct (linked.mono within) (linked'.mono within)⟩

theorem ShowsLinks.unregister (links : ShowsLinks slots registry.Linked index) (consistent : index.Consistent)
    (within : ∀ {join joinKey value ref}, registry join joinKey value ref → bound join joinKey value ref)
    (single : registry.SingleValued)
    (listed : ∀ virtual, virtual ∈ refs ↔ registry join joinKey value ref ∧ ∃ other,
      registry.Partner join joinKey value other ∧ (virtual = getJoinVirtualRef ref other ∨ virtual = getJoinVirtualRef other ref)) :
    ShowsLinks slots (registry.erase join joinKey value ref).Linked (refs.foldl InMemoryElementIndex.deleteElement index) := by
  by_cases registered : registry join joinKey value ref
  · have unambiguous : registry.Unambiguous := wellNamed.unambiguous.mono within
    refine (links.deleteAll consistent (wellNamed.separate within) (registry.LinkedBy join joinKey value ref) ?_ ?_).congr
      fun _ _ _ => Registry.linked_erase unambiguous single registered
    · rintro join' first second ⟨rfl, ⟨rfl, other, differs, has⟩ | ⟨rfl, other, differs, has⟩⟩
      · exact ⟨joinKey, other, differs.symm, value, registered, has⟩
      · exact ⟨other, joinKey, differs, value, has, registered⟩
    · intro virtual
      rw [listed]
      constructor
      · rintro ⟨-, other, partner, rfl | rfl⟩
        · exact ⟨join, ref, other, ⟨rfl, .inl ⟨rfl, partner⟩⟩, rfl⟩
        · exact ⟨join, other, ref, ⟨rfl, .inr ⟨rfl, partner⟩⟩, rfl⟩
      · rintro ⟨join', first, second, ⟨rfl, ⟨rfl, partner⟩ | ⟨rfl, partner⟩⟩, rfl⟩
        · exact ⟨registered, second, partner, .inl rfl⟩
        · exact ⟨registered, first, partner, .inr rfl⟩
  · have none_ : refs = [] := eq_nil_iff_forall_not_mem.mpr fun virtual member => registered ((listed _).mp member).1
    have same : registry.erase join joinKey value ref = registry := by
      funext join' joinKey' value' ref'
      simp only [Registry.erase, eq_iff_iff, and_iff_left_iff_imp]
      rintro registered' ⟨rfl, rfl, rfl, rfl⟩
      exact registered registered'
    rw [none_, same]
    exact links

theorem ShowsLinks.register (links : ShowsLinks slots registry.Linked index) (consistent : index.Consistent)
    (within : ∀ {join' joinKey' value' ref'}, registry.insert join joinKey value ref join' joinKey' value' ref' →
      bound join' joinKey' value' ref') (effectiveFrom : ElementTimestamp)
    (listed : ∀ relation, relation ∈ relations ↔ ∃ other, registry.Partner join joinKey value other ∧
      (relation = joinRelation join.id effectiveFrom ref other ∨ relation = joinRelation join.id effectiveFrom other ref)) :
    ShowsLinks slots (registry.insert join joinKey value ref).Linked
      (relations.foldl (fun index relation => index.setElement relation (slots join)) index) := by
  let new : ElementReference → ElementReference → Prop := fun first second =>
    first = ref ∧ registry.Partner join joinKey value second ∨ second = ref ∧ registry.Partner join joinKey value first
  have linked : ∀ join' first second, (registry.insert join joinKey value ref).Linked join' first second ↔
      registry.Linked join' first second ∨ join' = join ∧ new first second := fun _ _ _ => Registry.linked_insert
  refine (links.setAll consistent effectiveFrom new ?_ ?_).congr linked
  · intro _ _ _ _ _ _ is is'
    exact wellNamed.separate within ((linked _ _ _).mpr is) ((linked _ _ _).mpr is')
  · intro relation
    rw [listed]
    constructor
    · rintro ⟨other, partner, rfl | rfl⟩
      · exact ⟨ref, other, .inl ⟨rfl, partner⟩, rfl⟩
      · exact ⟨other, ref, .inr ⟨rfl, partner⟩, rfl⟩
    · rintro ⟨first, second, ⟨rfl, partner⟩ | ⟨rfl, partner⟩, rfl⟩
      · exact ⟨second, partner, .inl rfl⟩
      · exact ⟨first, partner, .inr rfl⟩

end links

namespace JoinIndex

def registry (joins : List QueryJoin) (state : JoinIndex) : JoinRegistry :=
  fun join joinKey value ref => join ∈ joins ∧ joinKey ∈ join.keys ∧ ref ∈ state.partialJoins (join.id, value) joinKey

def VirtualRelations (index : InMemoryElementIndex) : Prop :=
  ∀ ref metadata properties, ref.sourceId = joinSource → index.elements ref ≠ some (.node metadata properties)

variable {state : JoinIndex} {order : IterationOrder} {fuel : Nat}

theorem foldl_deleteElement_virtual (virtual : ∀ ref ∈ refs, ref.sourceId = joinSource)
    (relations : VirtualRelations state.index) :
    refs.foldl (deleteElement order fuel) state =
      { state with index := refs.foldl InMemoryElementIndex.deleteElement state.index } := by
  induction refs generalizing state with
  | nil => rfl
  | cons first refs ih =>
    have single : state.deleteElement order fuel first = { state with index := state.index.deleteElement first } := by
      unfold deleteElement
      split
      case h_1 metadata properties _ stored =>
        exact absurd stored (relations first metadata properties (virtual first mem_cons_self))
      · rfl
    have relations' : VirtualRelations (state.index.deleteElement first) := by
      intro ref metadata properties isVirtual
      rw [deleteElement_elements]
      split
      · simp
      · exact relations ref metadata properties isVirtual
    rw [foldl_cons, single, ih (fun ref member => virtual ref (mem_cons_of_mem _ member)) relations']
    rfl

theorem mem_pairs {α : Type} {pair : ElementReference → ElementReference → α} {others : List ElementReference} {item} :
    (item ∈ others.flatMap fun other => [pair ref other, pair other ref]) ↔
      ∃ other ∈ others, item = pair ref other ∨ item = pair other ref := by simp

theorem sourceId_of_mem_pairs (ref : ElementReference) {others : List ElementReference} :
    ∀ virtual ∈ others.flatMap fun other => [getJoinVirtualRef ref other, getJoinVirtualRef other ref],
      virtual.sourceId = joinSource := by
  intro virtual member
  obtain ⟨other, -, rfl | rfl⟩ := mem_pairs.mp member <;> rfl

theorem mem_counterparts {other} (isJoin : join ∈ joins) :
    other ∈ state.counterparts order join joinKey value ↔ (state.registry joins).Partner join joinKey value other := by
  simp only [counterparts, mem_flatMap, mem_filter, decide_eq_true_eq, IterationOrder.mem_arrange, Registry.Partner,
    registry]
  constructor
  · rintro ⟨key, ⟨isKey, differs⟩, registered⟩
    exact ⟨key, differs, isJoin, isKey, registered⟩
  · rintro ⟨key, differs, -, isKey, registered⟩
    exact ⟨key, ⟨isKey, differs⟩, registered⟩

def UniqueIds (joins : List QueryJoin) : Prop := ∀ join ∈ joins, ∀ join' ∈ joins, join.id = join'.id → join = join'

section registration

variable (unique : UniqueIds joins) (isJoin : join ∈ joins) (isKey : joinKey ∈ join.keys)

include unique isJoin isKey

theorem registry_setPartial {references join' joinKey' value' ref'} :
    (state.setPartial (join.id, value) joinKey references).registry joins join' joinKey' value' ref' ↔
      if join' = join ∧ joinKey' = joinKey ∧ value' = value then ref' ∈ references
      else state.registry joins join' joinKey' value' ref' := by
  by_cases same : join' = join ∧ joinKey' = joinKey ∧ value' = value
  · rw [if_pos same]
    obtain ⟨rfl, rfl, rfl⟩ := same
    simp [registry, setPartial, isJoin, isKey]
  · rw [if_neg same]
    refine and_congr_right fun isJoin' => and_congr_right fun _ => ?_
    have elsewhere : ¬ ((join'.id, value') = (join.id, value) ∧ joinKey' = joinKey) := by
      rintro ⟨sameOuter, sameKey⟩
      obtain ⟨sameId, sameValue⟩ := Prod.mk.inj sameOuter
      exact same ⟨unique join' isJoin' join isJoin sameId, sameKey, sameValue⟩
    simp only [setPartial, if_neg elsewhere]

theorem registry_insert (state : JoinIndex) (value : ElementValue) (ref : ElementReference) :
    (state.setPartial (join.id, value) joinKey (ref :: state.partialJoins (join.id, value) joinKey)).registry joins =
      (state.registry joins).insert join joinKey value ref := by
  funext join' joinKey' value' ref'
  rw [eq_iff_iff, registry_setPartial unique isJoin isKey]
  split
  case isTrue same =>
    obtain ⟨rfl, rfl, rfl⟩ := same
    simp [Registry.insert, registry, isJoin, isKey, or_comm]
  case isFalse differs =>
    simp only [Registry.insert]
    grind

theorem registry_erase (state : JoinIndex) (value : ElementValue) (ref : ElementReference) :
    (state.setPartial (join.id, value) joinKey ((state.partialJoins (join.id, value) joinKey).filter (· ≠ ref))).registry joins =
      (state.registry joins).erase join joinKey value ref := by
  funext join' joinKey' value' ref'
  rw [eq_iff_iff, registry_setPartial unique isJoin isKey]
  split
  case isTrue same =>
    obtain ⟨rfl, rfl, rfl⟩ := same
    simp [Registry.erase, registry, isJoin, isKey]
  case isFalse differs =>
    simp only [Registry.erase]
    grind

/-- What removing a registration does: its entry goes, and the relations to its partners are deleted. -/
theorem deleteSourceJoin_spec (order : IterationOrder) (fuel : Nat) (ref : ElementReference) (value : ElementValue)
    (relations : VirtualRelations state.index) :
    let after := state.deleteSourceJoin order (deleteElement order fuel) ref join joinKey value
    after.joinSpecByLabel = state.joinSpecByLabel ∧
      after.registry joins = (state.registry joins).erase join joinKey value.valueHash ref ∧
      ∃ refs : List ElementReference, after.index = refs.foldl InMemoryElementIndex.deleteElement state.index ∧
        ∀ virtual, virtual ∈ refs ↔ state.registry joins join joinKey value.valueHash ref ∧ ∃ other,
          (state.registry joins).Partner join joinKey value.valueHash other ∧
            (virtual = getJoinVirtualRef ref other ∨ virtual = getJoinVirtualRef other ref) := by
  have iff_registered : ref ∈ state.partialJoins (join.id, value.valueHash) joinKey ↔
      state.registry joins join joinKey value.valueHash ref := by simp [registry, isJoin, isKey]
  unfold deleteSourceJoin
  dsimp only
  split
  case isTrue registered =>
    have erased := registry_erase unique isJoin isKey state value.valueHash ref
    have removed : VirtualRelations (state.setPartial (join.id, value.valueHash) joinKey
      ((state.partialJoins (join.id, value.valueHash) joinKey).filter (· ≠ ref))).index := relations
    rw [foldl_deleteElement_virtual (sourceId_of_mem_pairs ref) removed]
    refine ⟨rfl, erased, _, rfl, fun virtual => ?_⟩
    simp only [mem_pairs, mem_counterparts isJoin, erased]
    have partner : ∀ other, ((state.registry joins).erase join joinKey value.valueHash ref).Partner join joinKey
        value.valueHash other ↔ (state.registry joins).Partner join joinKey value.valueHash other := by
      intro other
      refine exists_congr fun key => and_congr_right fun differs => ?_
      simp [Registry.erase, differs]
    simp [partner, iff_registered.mp registered]
  case isFalse unregistered =>
    refine ⟨rfl, ?_, [], rfl, fun virtual => ?_⟩
    · funext join' joinKey' value' ref'
      simp only [Registry.erase, eq_iff_iff, iff_self_and]
      rintro registered ⟨rfl, rfl, rfl, rfl⟩
      exact unregistered registered.2.2
    · simp [← iff_registered, unregistered]

end registration

/-- The state inside a step: the relations show the links of what is registered, and nothing is registered outside the
bound. -/
structure Linking (slots : QueryJoin → List Nat) (joins : List QueryJoin)
    (bound : JoinRegistry) (elements : ElementReference → Option Element)
    (state : JoinIndex) : Prop where
  consistent : state.index.Consistent
  links : ShowsLinks slots (state.registry joins).Linked state.index
  within : ∀ {join joinKey value ref}, state.registry joins join joinKey value ref → bound join joinKey value ref
  single : (state.registry joins).SingleValued
  elements : ∀ ref, ref.sourceId ≠ joinSource → state.index.elements ref = elements ref

theorem virtualRelations_of_links {slots} {linked : JoinLinks} {index}
    (links : ShowsLinks slots linked index) : VirtualRelations index := by
  intro ref metadata properties virtual stored
  obtain ⟨join, first, second, is, rfl⟩ := links.only virtual (by simp [stored])
  obtain ⟨effectiveFrom, relation, -⟩ := links.stored is
  rw [relation] at stored
  simp [joinRelation] at stored

section steps

variable {bound : JoinRegistry}
  {elements : ElementReference → Option Element}
  (wellNamed : WellNamed bound) (unique : UniqueIds joins) (isJoin : join ∈ joins) (isKey : joinKey ∈ join.keys)

include wellNamed unique isJoin isKey

section

variable (linking : Linking slots joins bound elements state)
include linking

theorem Linking.deleteSourceJoin (order : IterationOrder) (fuel : Nat) (ref : ElementReference) (value : ElementValue) :
    let after := state.deleteSourceJoin order (deleteElement order fuel) ref join joinKey value
    Linking slots joins bound elements after ∧ after.joinSpecByLabel = state.joinSpecByLabel ∧
      after.registry joins = (state.registry joins).erase join joinKey value.valueHash ref := by
  obtain ⟨spec, erased, refs, deletes, listed⟩ := deleteSourceJoin_spec unique isJoin isKey order fuel ref value
    (virtualRelations_of_links linking.links)
  refine ⟨⟨?_, ?_, ?_, ?_, ?_⟩, spec, erased⟩
  · rw [deletes]
    exact foldl_deleteElement_consistent linking.consistent refs
  · rw [erased, deletes]
    exact linking.links.unregister wellNamed linking.consistent linking.within linking.single listed
  · intro _ _ _ _ registered
    rw [erased] at registered
    exact linking.within registered.1
  · rw [erased]
    exact linking.single.erase
  · intro real isReal
    rw [deletes, foldl_deleteElement_elements, if_neg, linking.elements real isReal]
    intro deleted
    obtain ⟨-, other, -, rfl | rfl⟩ := (listed _).mp deleted <;> exact isReal rfl

/-- A new registration while the old value's is removed, before the new relations are set. -/
theorem Linking.replace (order : IterationOrder) (fuel : Nat) (ref : ElementReference) {valueHash}
    {oldValue : Option ElementValue} (changed : oldValue.map (·.valueHash) ≠ some valueHash) :
    let inserted := state.setPartial (join.id, valueHash) joinKey (ref :: state.partialJoins (join.id, valueHash) joinKey)
    let after := oldValue.elim inserted fun oldValue =>
      inserted.deleteSourceJoin order (deleteElement order fuel) ref join joinKey oldValue
    ∃ kept : JoinRegistry,
      (∀ join' joinKey' value' ref', kept join' joinKey' value' ref' ↔ state.registry joins join' joinKey' value' ref' ∧
        ¬ (join' = join ∧ joinKey' = joinKey ∧ ref' = ref ∧ oldValue.map (·.valueHash) = some value')) ∧
      after.registry joins = kept.insert join joinKey valueHash ref ∧ ShowsLinks slots kept.Linked after.index ∧
      after.index.Consistent ∧ (∀ real, real.sourceId ≠ joinSource → after.index.elements real = elements real) ∧
      after.joinSpecByLabel = state.joinSpecByLabel := by
  have inserts := registry_insert unique isJoin isKey state valueHash ref
  cases oldValue with
  | none => exact ⟨state.registry joins, by simp, inserts, linking.links, linking.consistent, linking.elements, rfl⟩
  | some oldValue =>
    have differs : oldValue.valueHash ≠ valueHash := by simpa using changed
    have relations : VirtualRelations (state.setPartial (join.id, valueHash) joinKey
      (ref :: state.partialJoins (join.id, valueHash) joinKey)).index := virtualRelations_of_links linking.links
    obtain ⟨spec, erased, refs, deletes, listed⟩ := deleteSourceJoin_spec unique isJoin isKey order fuel ref oldValue relations
    rw [inserts] at erased listed
    -- The new entry is under the same key with another value, so it is no partner and is not erased.
    have listed' : ∀ virtual, virtual ∈ refs ↔ state.registry joins join joinKey oldValue.valueHash ref ∧ ∃ other,
        (state.registry joins).Partner join joinKey oldValue.valueHash other ∧
          (virtual = getJoinVirtualRef ref other ∨ virtual = getJoinVirtualRef other ref) := by
      intro virtual
      rw [listed]
      simp only [Registry.insert, Registry.Partner]
      grind
    refine ⟨(state.registry joins).erase join joinKey oldValue.valueHash ref, ?_, ?_, ?_, ?_, ?_, spec⟩
    · intro join' joinKey' value' ref'
      simp only [Registry.erase, Option.map_some, Option.some.injEq]
      grind
    · refine erased.trans ?_
      funext join' joinKey' value' ref'
      simp only [Registry.erase, Registry.insert, eq_iff_iff]
      grind
    · rw [Option.elim_some, deletes]
      exact linking.links.unregister wellNamed linking.consistent linking.within linking.single listed'
    · rw [Option.elim_some, deletes]
      exact foldl_deleteElement_consistent linking.consistent refs
    · intro real isReal
      have kept : real ∉ refs := by
        intro deleted
        obtain ⟨-, other, -, rfl | rfl⟩ := (listed _).mp deleted <;> exact isReal rfl
      rw [Option.elim_some, deletes, foldl_deleteElement_elements, if_neg kept]
      exact linking.elements real isReal

theorem Linking.register (order : IterationOrder) (fuel : Nat)
    {oldElement : Option Element} {metadata : ElementMetadata} {properties : ElementPropertyMap}
    (has : properties.get? joinKey.property = some value)
    (changed : (oldElement.bind (nodeProperty joinKey.property)).map (·.valueHash) ≠ some value.valueHash)
    (unregistered : metadata.reference ∉ state.partialJoins (join.id, value.valueHash) joinKey)
    (bounded : bound join joinKey value.valueHash metadata.reference)
    (onlyOld : ∀ value', state.registry joins join joinKey value' metadata.reference →
      (oldElement.bind (nodeProperty joinKey.property)).map (·.valueHash) = some value') :
    let after := state.updateSourceJoin order fuel oldElement metadata properties ((join, slots join), joinKey)
    Linking slots joins bound elements after ∧ after.joinSpecByLabel = state.joinSpecByLabel ∧
      ∀ join' joinKey' value' ref', after.registry joins join' joinKey' value' ref' ↔
        if join' = join ∧ joinKey' = joinKey ∧ ref' = metadata.reference then value' = value.valueHash
        else state.registry joins join' joinKey' value' ref' := by
  obtain ⟨kept, keeps, inserts, links, consistent, frame, spec⟩ :=
    linking.replace wellNamed unique isJoin isKey order fuel metadata.reference changed
  have registered : ∀ join' joinKey' value' ref',
      kept.insert join joinKey value.valueHash metadata.reference join' joinKey' value' ref' ↔
        if join' = join ∧ joinKey' = joinKey ∧ ref' = metadata.reference then value' = value.valueHash
        else state.registry joins join' joinKey' value' ref' := by
    intro join' joinKey' value' ref'
    simp only [Registry.insert, keeps]
    grind
  have within : ∀ {join' joinKey' value' ref'},
      kept.insert join joinKey value.valueHash metadata.reference join' joinKey' value' ref' →
        bound join' joinKey' value' ref' := by
    rintro join' joinKey' value' ref' (old | ⟨rfl, rfl, rfl, rfl⟩)
    · exact linking.within ((keeps _ _ _ _).mp old).1
    · exact bounded
  have partner : ∀ other, Registry.Partner ((state.setPartial (join.id, value.valueHash) joinKey
      (metadata.reference :: state.partialJoins (join.id, value.valueHash) joinKey)).registry joins) join joinKey
        value.valueHash other ↔ kept.Partner join joinKey value.valueHash other := by
    intro other
    rw [registry_insert unique isJoin isKey]
    refine exists_congr fun key => and_congr_right fun differs => ?_
    simp [Registry.insert, keeps, differs]
  simp only [updateSourceJoin, has, if_neg changed, if_neg unregistered]
  refine ⟨⟨?_, ?_, ?_, ?_, ?_⟩, spec, fun join' joinKey' value' ref' => ?_⟩
  · exact foldl_setElement_consistent consistent _ _
  · refine (links.register wellNamed consistent within metadata.effectiveFrom fun relation => ?_).congr
      fun _ _ _ => iff_of_eq (by rw [← inserts]; rfl)
    simp only [mem_pairs, mem_counterparts isJoin, partner]
  · intro join' joinKey' value' ref' is
    exact within (inserts ▸ is)
  · intro join' joinKey' value' value'' ref' first second
    have first' := (registered _ _ _ _).mp (inserts ▸ first)
    have second' := (registered _ _ _ _).mp (inserts ▸ second)
    split at first'
    case isTrue same =>
      rw [if_pos same] at second'
      exact first'.trans second'.symm
    case isFalse differs =>
      rw [if_neg differs] at second'
      exact linking.single first' second'
  · intro real isReal
    rw [← frame real isReal]
    refine (foldl_setElement_frame consistent _ _ ?_).2.1
    intro relation member same
    obtain ⟨other, -, rfl | rfl⟩ := mem_pairs.mp member <;> exact isReal (same ▸ rfl)
  · rw [← registered, ← inserts]
    rfl

end

end steps

end JoinIndex

end DrasiCore
