import DrasiCore.CachedElementIndex
import DrasiCore.Library.StepFaults
import DrasiCore.Proofs.SourceJoins

/-! What the cached element index reads, against the index behind it. Its own writes keep the caches right; what the index
does besides, for joins or in a rollback, they do not learn of. -/

namespace DrasiCore.Proofs

open Library ElementIndexStore CachedElementIndex Lru

variable {Index : Type} [ElementIndexStore Index] (elementIndex : Index)

/-- What a cached slot stands for: the element where the slot is had, nothing where it is not. -/
def knownSlot (elementRef : ElementReference) (has : Bool) : Option Element :=
  if has then getElement elementIndex elementRef else none

structure CoherentElements (index : CachedElementIndex Index) : Prop where
  elements : index.elementCache.Agrees (getElement index.elementIndex)
  slots : ∀ ref slots slot has, index.slotCache.peek ref = some slots → slots.lookup slot = some has →
    getSlotElementByRef index.elementIndex slot ref = knownSlot index.elementIndex ref has
  inbound : ∀ ref slot refs, index.inboundCache.peek (ref, slot) = some refs →
    getSlotElementsByInbound index.elementIndex slot ref = refs.filterMap (getElement index.elementIndex)
  outbound : ∀ ref slot refs, index.outboundCache.peek (ref, slot) = some refs →
    getSlotElementsByOutbound index.elementIndex slot ref = refs.filterMap (getElement index.elementIndex)

/-- An index before and after an update give the same element under the reference, and the same slots of it that are
cached. -/
structure SameCached (index : CachedElementIndex Index) (after : Index) (ref : ElementReference) : Prop where
  element : index.elementCache.peek ref ≠ none ∨ index.slotCache.peek ref ≠ none →
    getElement after ref = getElement index.elementIndex ref
  slots : ∀ slots slot, index.slotCache.peek ref = some slots → slots.lookup slot ≠ none →
    getSlotElementByRef after slot ref = getSlotElementByRef index.elementIndex slot ref

variable (index : CachedElementIndex Index)

/-- The index behind the cache changes nothing else that is cached: an element that is set is found as it was set, and an
update of an element leaves all other cached elements and slots as they were. The steps of a session leave all that is
cached. -/
def LeavesCached : ElementCall → Prop
  | .read _ => True
  | .update (.setElement element slotAffinity) =>
    let after := setElement index.elementIndex element slotAffinity
    getElement after element.getReference = some element ∧
      ∀ ref, ref ≠ element.getReference → SameCached index after ref
  | .update (.deleteElement elementRef) =>
    ∀ ref, ref ≠ elementRef → SameCached index (deleteElement index.elementIndex elementRef) ref
  | .update session =>
    let after := session.apply index.elementIndex
    (∀ ref, SameCached index after ref) ∧
      (∀ ref slot refs, index.inboundCache.peek (ref, slot) = some refs →
        getSlotElementsByInbound after slot ref = getSlotElementsByInbound index.elementIndex slot ref ∧
          ∀ element ∈ refs, getElement after element = getElement index.elementIndex element) ∧
      ∀ ref slot refs, index.outboundCache.peek (ref, slot) = some refs →
        getSlotElementsByOutbound after slot ref = getSlotElementsByOutbound index.elementIndex slot ref ∧
          ∀ element ∈ refs, getElement after element = getElement index.elementIndex element

section Reads

variable {elementIndex : Index} {cache : Lru ElementReference Element}

theorem getElementInternal_eq (agrees : cache.Agrees (getElement elementIndex)) (ref : ElementReference) :
    (getElementInternal elementIndex cache ref).1 = getElement elementIndex ref ∧
      (getElementInternal elementIndex cache ref).2.Agrees (getElement elementIndex) := by
  have looked := agrees.get ref
  have peeked := get_fst cache ref
  unfold getElementInternal
  split
  case h_1 element touched found =>
    rw [found] at looked peeked
    exact ⟨(agrees ref element peeked.symm).symm, looked⟩
  case h_2 touched found =>
    rw [found] at looked
    split
    case h_1 element held => exact ⟨held.symm, looked.put held⟩
    case h_2 absent => exact ⟨absent.symm, looked⟩

theorem getElements_eq (agrees : cache.Agrees (getElement elementIndex)) (refs : List ElementReference) :
    (getElements elementIndex cache refs).1 = refs.filterMap (getElement elementIndex) ∧
      (getElements elementIndex cache refs).2.Agrees (getElement elementIndex) := by
  induction refs generalizing cache with
  | nil => exact ⟨rfl, agrees⟩
  | cons ref refs ih =>
    obtain ⟨same, kept⟩ := getElementInternal_eq agrees ref
    obtain ⟨others, still⟩ := ih kept
    refine ⟨?_, still⟩
    simp only [getElements, same, others]
    cases held : getElement elementIndex ref with
    | none => simp [held]
    | some element => simp [held]

theorem filterMap_references {elements : List Element}
    (filed : ∀ element ∈ elements, getElement elementIndex element.getReference = some element) :
    (elements.map Element.getReference).filterMap (getElement elementIndex) = elements := by
  induction elements with
  | nil => rfl
  | cons element elements ih =>
    obtain ⟨own, others⟩ := List.forall_mem_cons.mp filed
    rw [List.map_cons, List.filterMap_cons_some own, ih others]

end Reads

/-- A cache of the references found at one end of relations. -/
def RightReferences (found : ElementReference × Nat → List Element)
    (cache : Lru (ElementReference × Nat) (List ElementReference)) : Prop :=
  ∀ key refs, cache.peek key = some refs → found key = refs.filterMap (getElement elementIndex)

theorem getSlotElements_eq {index : CachedElementIndex Index}
    (agrees : index.elementCache.Agrees (getElement index.elementIndex)) {found cache}
    (right : RightReferences index.elementIndex found cache) (key : ElementReference × Nat)
    (filed : ∀ element ∈ found key, getElement index.elementIndex element.getReference = some element) :
    (index.getSlotElements (found key) cache key).1 = found key ∧
      (index.getSlotElements (found key) cache key).2.1.Agrees (getElement index.elementIndex) ∧
      RightReferences index.elementIndex found (index.getSlotElements (found key) cache key).2.2 := by
  have peeked := get_fst cache key
  have kept := peek_get cache key
  unfold getSlotElements
  split
  case h_1 refs touched hit =>
    rw [hit] at peeked kept
    obtain ⟨same, still⟩ := getElements_eq agrees refs
    refine ⟨same.trans (right key refs peeked.symm).symm, still, fun other refs there => ?_⟩
    exact right other refs ((kept other).symm.trans there)
  case h_2 touched missed =>
    rw [missed] at kept
    refine ⟨rfl, agrees, fun other refs there => ?_⟩
    by_cases same : other = key
    · subst same
      rw [peek_put_self] at there
      obtain rfl := Option.some.inj there
      exact (filterMap_references filed).symm
    · exact right other refs ((kept other).symm.trans (peek_of_put same there))

namespace CoherentElements

variable {index : CachedElementIndex Index}

theorem new (cacheSize : Nat) : CoherentElements (.new elementIndex cacheSize) where
  elements := .new cacheSize
  slots _ _ _ _ found := nomatch found
  inbound _ _ _ found := nomatch found
  outbound _ _ _ found := nomatch found

theorem getElement_eq (coherent : CoherentElements index) (ref : ElementReference) :
    (index.getElement ref).1 = getElement index.elementIndex ref ∧ CoherentElements (index.getElement ref).2 := by
  obtain ⟨same, kept⟩ := getElementInternal_eq coherent.elements ref
  exact ⟨same, kept, coherent.slots, coherent.inbound, coherent.outbound⟩

variable [LawfulElementIndex Index]

theorem knownSlot_isSome (slot : Nat) (ref : ElementReference) :
    getSlotElementByRef elementIndex slot ref =
      knownSlot elementIndex ref (getSlotElementByRef elementIndex slot ref).isSome := by
  cases found : getSlotElementByRef elementIndex slot ref with
  | none => rfl
  | some element => exact (LawfulElementIndex.slot elementIndex slot ref element found).symm

theorem getSlotElementByRef_eq (coherent : CoherentElements index) (slot : Nat) (ref : ElementReference) :
    (index.getSlotElementByRef slot ref).1 = getSlotElementByRef index.elementIndex slot ref ∧
      CoherentElements (index.getSlotElementByRef slot ref).2 := by
  have peeked := get_fst index.slotCache ref
  have kept := peek_get index.slotCache ref
  let touched : CachedElementIndex Index := { index with slotCache := (index.slotCache.get ref).2 }
  have coherentTouched : CoherentElements touched :=
    ⟨coherent.elements, fun other slots slot has there known =>
      coherent.slots other slots slot has ((kept other).symm.trans there) known, coherent.inbound, coherent.outbound⟩
  have known (has : Bool) (cached : ((index.slotCache.get ref).1.bind (·.lookup slot)) = some has) :
      getSlotElementByRef index.elementIndex slot ref = knownSlot index.elementIndex ref has := by
    obtain ⟨slots, there, looked⟩ := Option.bind_eq_some_iff.mp cached
    exact coherent.slots ref slots slot has (peeked.symm.trans there) looked
  simp only [CachedElementIndex.getSlotElementByRef]
  split
  case h_1 cached =>
    obtain ⟨same, still⟩ := coherentTouched.getElement_eq ref
    exact ⟨same.trans (known true cached).symm, still⟩
  case h_2 cached => exact ⟨(known false cached).symm, coherentTouched⟩
  case h_3 unknown =>
    refine ⟨rfl, coherent.elements, fun other slots otherSlot has there looked => ?_, coherent.inbound, coherent.outbound⟩
    by_cases same : other = ref
    · subst same
      rw [peek_put_self] at there
      obtain rfl := Option.some.inj there
      by_cases own : otherSlot = slot
      · subst own
        rw [AList.lookup_insert] at looked
        obtain rfl := Option.some.inj looked
        exact knownSlot_isSome _ _ _
      · rw [AList.lookup_insert_ne own, peeked] at looked
        cases before : index.slotCache.peek other with
        | none =>
          rw [before] at looked
          exact nomatch looked
        | some slots =>
          rw [before] at looked
          exact coherent.slots other slots otherSlot has before looked
    · exact coherent.slots other slots otherSlot has ((kept other).symm.trans (peek_of_put same there)) looked

/-- Every read is answered as by the index, and leaves the caches coherent. -/
theorem read_eq (coherent : CoherentElements index) (read : ElementRead) :
    (index.read read).1 = read.of index.elementIndex ∧ CoherentElements (index.read read).2 := by
  cases read with
  | getElement ref =>
    obtain ⟨same, kept⟩ := coherent.getElement_eq ref
    exact ⟨congrArg Option.toList same, kept⟩
  | getSlotElementByRef slot ref =>
    obtain ⟨same, kept⟩ := coherent.getSlotElementByRef_eq slot ref
    exact ⟨congrArg Option.toList same, kept⟩
  | getSlotElementsByInbound slot ref =>
    have right : RightReferences index.elementIndex (fun key => getSlotElementsByInbound index.elementIndex key.2 key.1)
        index.inboundCache := fun key refs there => coherent.inbound key.1 key.2 refs there
    obtain ⟨same, elements, references⟩ := getSlotElements_eq coherent.elements right (ref, slot)
      (LawfulElementIndex.inbound index.elementIndex slot ref)
    exact ⟨same, elements, coherent.slots, fun ref slot refs there => references (ref, slot) refs there, coherent.outbound⟩
  | getSlotElementsByOutbound slot ref =>
    have right : RightReferences index.elementIndex (fun key => getSlotElementsByOutbound index.elementIndex key.2 key.1)
        index.outboundCache := fun key refs there => coherent.outbound key.1 key.2 refs there
    obtain ⟨same, elements, references⟩ := getSlotElements_eq coherent.elements right (ref, slot)
      (LawfulElementIndex.outbound index.elementIndex slot ref)
    exact ⟨same, elements, coherent.slots, coherent.inbound, fun ref slot refs there => references (ref, slot) refs there⟩

end CoherentElements

variable {element : Element}

namespace SameCached

variable {index : CachedElementIndex Index} {after : Index} {ref : ElementReference}

theorem element_eq (same : SameCached index after ref) (coherent : CoherentElements index)
    (cached : index.elementCache.peek ref = some element) : getElement after ref = some element :=
  (same.element (.inl (by simp [cached]))).trans (coherent.elements ref element cached)

theorem slot_eq (same : SameCached index after ref) (coherent : CoherentElements index) {slots slot has}
    (cached : index.slotCache.peek ref = some slots) (known : slots.lookup slot = some has) :
    getSlotElementByRef after slot ref = knownSlot after ref has := by
  have kept := same.slots slots slot cached (by simp [known])
  have element := same.element (.inr (by simp [cached]))
  rw [kept, coherent.slots ref slots slot has cached known, knownSlot, knownSlot, element]

end SameCached

namespace CoherentElements

variable {index : CachedElementIndex Index}

section

variable (coherent : CoherentElements index)
include coherent

theorem setElement {slotAffinity} (leaves : LeavesCached index (.update (.setElement element slotAffinity))) :
    CoherentElements (index.setElement element slotAffinity) where
  elements ref found there := by
    by_cases own : ref = element.getReference
    · subst own
      have put : some element = some found := (peek_put_self ..).symm.trans there
      exact leaves.1.trans put
    · exact (leaves.2 ref own).element_eq coherent (peek_of_put own there)
  slots ref slots slot has there known := by
    by_cases own : ref = element.getReference
    · subst own
      exact nomatch (peek_remove_self ..).symm.trans there
    · exact (leaves.2 ref own).slot_eq coherent ((peek_remove_of_ne own).symm.trans there) known
  inbound _ _ _ found := nomatch found
  outbound _ _ _ found := nomatch found

theorem deleteElement {elementRef} (leaves : LeavesCached index (.update (.deleteElement elementRef))) :
    CoherentElements (index.deleteElement elementRef) where
  elements ref found there := by
    by_cases own : ref = elementRef
    · subst own
      exact nomatch (peek_remove_self ..).symm.trans there
    · exact (leaves ref own).element_eq coherent ((peek_remove_of_ne own).symm.trans there)
  slots ref slots slot has there known := by
    by_cases own : ref = elementRef
    · subst own
      exact nomatch (peek_remove_self ..).symm.trans there
    · exact (leaves ref own).slot_eq coherent ((peek_remove_of_ne own).symm.trans there) known
  inbound _ _ _ found := nomatch found
  outbound _ _ _ found := nomatch found

/-- An index that replaces the one behind the cache and has the same where something is cached. -/
theorem replaced {after} (same : ∀ ref, SameCached index after ref)
    (inbound : ∀ ref slot refs, index.inboundCache.peek (ref, slot) = some refs →
      getSlotElementsByInbound after slot ref = getSlotElementsByInbound index.elementIndex slot ref ∧
        ∀ element ∈ refs, getElement after element = getElement index.elementIndex element)
    (outbound : ∀ ref slot refs, index.outboundCache.peek (ref, slot) = some refs →
      getSlotElementsByOutbound after slot ref = getSlotElementsByOutbound index.elementIndex slot ref ∧
        ∀ element ∈ refs, getElement after element = getElement index.elementIndex element) :
    CoherentElements { index with elementIndex := after } where
  elements ref _ there := (same ref).element_eq coherent there
  slots ref _ _ _ there known := (same ref).slot_eq coherent there known
  inbound ref slot refs there := by
    obtain ⟨found, elements⟩ := inbound ref slot refs there
    change getSlotElementsByInbound after slot ref = refs.filterMap (getElement after)
    rw [found, coherent.inbound ref slot refs there]
    exact List.filterMap_congr fun element member => (elements element member).symm
  outbound ref slot refs there := by
    obtain ⟨found, elements⟩ := outbound ref slot refs there
    change getSlotElementsByOutbound after slot ref = refs.filterMap (getElement after)
    rw [found, coherent.outbound ref slot refs there]
    exact List.filterMap_congr fun element member => (elements element member).symm

end

variable [LawfulElementIndex Index]

theorem perform (coherent : CoherentElements index) {call} (leaves : LeavesCached index call) :
    CoherentElements (index.perform call) := by
  cases call with
  | read read => exact (coherent.read_eq read).2
  | update update =>
    cases update with
    | setElement element slotAffinity => exact coherent.setElement leaves
    | deleteElement elementRef => exact coherent.deleteElement leaves
    | begin | commit | rollback => exact coherent.replaced leaves.1 leaves.2.1 leaves.2.2

end CoherentElements

theorem elementIndex_performAll (calls : List ElementCall) :
    (index.performAll calls).elementIndex = ElementCall.applyAll index.elementIndex calls := by
  induction calls generalizing index with
  | nil => rfl
  | cons call calls ih =>
    refine (ih _).trans (congrArg (ElementCall.applyAll · calls) ?_)
    cases call with
    | read read =>
      cases read with
      | getElement | getSlotElementsByInbound | getSlotElementsByOutbound => rfl
      | getSlotElementByRef slot ref =>
        simp only [CachedElementIndex.perform, CachedElementIndex.read, CachedElementIndex.getSlotElementByRef]
        split <;> rfl
    | update update => cases update <;> rfl

/-- **The cached element index is transparent** in every run of calls whose effect on the index behind it leaves what is
cached besides: after the calls, every read returns the elements that the index alone would return. -/
theorem cached_element_index_transparent [LawfulElementIndex Index] (elementIndex : Index) (cacheSize : Nat)
    {calls : List ElementCall}
    (leaves : ∀ before call after, calls = before ++ call :: after →
      LeavesCached ((CachedElementIndex.new elementIndex cacheSize).performAll before) call) (read : ElementRead) :
    (((CachedElementIndex.new elementIndex cacheSize).performAll calls).read read).1 =
      read.of (ElementCall.applyAll elementIndex calls) := by
  have each : EachStep CachedElementIndex.perform LeavesCached (.new elementIndex cacheSize) calls := leaves
  have coherent := each.keeps (fun _ _ coherent leaves => coherent.perform leaves) (CoherentElements.new elementIndex cacheSize)
  have inner := elementIndex_performAll (CachedElementIndex.new elementIndex cacheSize) calls
  have same := (coherent.read_eq read).1
  rw [← CachedElementIndex.performAll, inner] at same
  exact same

def Filed (index : InMemoryElementIndex) : Prop := ∀ ref element, index.elements ref = some element → element.getReference = ref

namespace Filed

variable {index : InMemoryElementIndex} {state : JoinIndex}

theorem setElement (filed : Filed index) (element : Element) (slots : List Nat) :
    Filed (index.setElement element slots) := by
  intro ref found stored
  rw [setElement_elements] at stored
  split at stored
  case isTrue same =>
    obtain rfl := Option.some.inj stored
    exact same.symm
  case isFalse => exact filed ref found stored

theorem deleteElement (filed : Filed index) (elementRef : ElementReference) : Filed (index.deleteElement elementRef) := by
  intro ref found stored
  rw [deleteElement_elements] at stored
  split at stored
  case isTrue => cases stored
  case isFalse => exact filed ref found stored

section

variable (filed : Filed state.index)
include filed

theorem deleteSourceJoin {delete} (keeps : ∀ state ref, Filed state.index → Filed (delete state ref).index)
    (order : IterationOrder) (oldElement : ElementReference) (join : QueryJoin) (joinKey : QueryJoinKey)
    (value : ElementValue) : Filed (state.deleteSourceJoin order delete oldElement join joinKey value).index := by
  simp only [JoinIndex.deleteSourceJoin]
  split
  · exact List.foldlRecOn (motive := fun state : JoinIndex => Filed state.index) _ delete filed
      fun state filed ref _ => keeps state ref filed
  · exact filed

variable (order : IterationOrder) (fuel : Nat)

theorem deleteElement_joins (elementRef : ElementReference) :
    Filed (JoinIndex.deleteElement order fuel state elementRef).index := by
  induction fuel generalizing state elementRef with
  | zero =>
    unfold JoinIndex.deleteElement
    dsimp only
    split
    case h_1 more => cases more
    case h_2 => exact filed.deleteElement elementRef
  | succ fuel ih =>
    unfold JoinIndex.deleteElement
    dsimp only
    split
    case h_1 more =>
      obtain rfl := Nat.succ.inj more
      refine List.foldlRecOn (motive := fun state : JoinIndex => Filed state.index) _ _ (filed.deleteElement elementRef) ?_
      intro state filed visit _
      split
      · exact filed.deleteSourceJoin (fun state ref filed => ih filed ref) order _ _ _ _
      · exact filed
    case h_2 => exact filed.deleteElement elementRef

theorem updateSourceJoin (oldElement : Option Element) (metadata : ElementMetadata) (properties : ElementPropertyMap)
    (visit : (QueryJoin × List Nat) × QueryJoinKey) :
    Filed (JoinIndex.updateSourceJoin order fuel oldElement metadata properties state visit).index := by
  simp only [JoinIndex.updateSourceJoin]
  split
  · exact filed
  split
  · exact filed
  split
  · exact filed
  refine List.foldlRecOn (motive := Filed) _ _ ?_ fun index filed relation _ => filed.setElement relation _
  cases oldElement.bind (JoinIndex.nodeProperty visit.2.property) with
  | none => exact filed
  | some oldValue =>
    refine deleteSourceJoin ?_ (fun state ref filed => filed.deleteElement_joins order fuel ref) order _ _ _ _
    exact filed

theorem setElement_joins (element : Element) (slots : List Nat) :
    Filed (state.setElement order fuel element slots).index := by
  cases element with
  | node metadata properties =>
    exact List.foldlRecOn (motive := fun state : JoinIndex => Filed state.index) _ _
      (filed.setElement (.node metadata properties) slots)
      fun state filed visit _ => filed.updateSourceJoin order fuel _ metadata properties visit
  | relation metadata inNode outNode properties => exact filed.setElement (.relation metadata inNode outNode properties) slots

end

end Filed

/-- The in-memory index with its joins, whose hash maps are visited in some order. Its sessions do nothing. -/
structure InMemoryElements (order : IterationOrder) (fuel : Nat) where
  joins : JoinIndex
  filed : Filed joins.index

namespace InMemoryElements

variable {order : IterationOrder} {fuel : Nat}

def new (order : IterationOrder) (fuel : Nat) (matchPath : MatchPath) (joins : List QueryJoin) : InMemoryElements order fuel :=
  ⟨.new matchPath joins, fun _ _ stored => nomatch stored⟩

instance : ElementIndexStore (InMemoryElements order fuel) where
  getElement elements := elements.joins.index.getElement
  getSlotElementByRef elements := elements.joins.index.getSlotElementByRef
  getSlotElementsByInbound elements := elements.joins.index.getSlotElementsByInbound order
  getSlotElementsByOutbound elements := elements.joins.index.getSlotElementsByOutbound order
  setElement elements element slots :=
    ⟨elements.joins.setElement order fuel element slots, elements.filed.setElement_joins order fuel element slots⟩
  deleteElement elements elementRef :=
    ⟨elements.joins.deleteElement order fuel elementRef, elements.filed.deleteElement_joins order fuel elementRef⟩
  begin elements := elements
  commit elements := elements
  rollback elements := elements

theorem filed_filterMap (elements : InMemoryElements order fuel) {refs : List ElementReference}
    (found : element ∈ refs.filterMap elements.joins.index.elements) :
    elements.joins.index.elements element.getReference = some element := by
  obtain ⟨ref, _, stored⟩ := List.mem_filterMap.mp found
  rw [elements.filed ref element stored]
  exact stored

instance : LawfulElementIndex (InMemoryElements order fuel) where
  slot elements slot ref element found := by
    change (if _ then _ else _) = _ at found
    split at found
    · exact found
    · cases found
  inbound elements _ _ _ found := elements.filed_filterMap found
  outbound elements _ _ _ found := elements.filed_filterMap found

end InMemoryElements

/-- An index in a store with transactions: a session works on a copy that replaces the index when it is committed. Writes
outside of a session fail. -/
structure SessionedElements (Index : Type) where
  committed : Index
  session : Option Index

namespace SessionedElements

def current (elements : SessionedElements Index) : Index := elements.session.getD elements.committed

def write (elements : SessionedElements Index) (change : Index → Index) : SessionedElements Index :=
  { elements with session := elements.session.map change }

instance : ElementIndexStore (SessionedElements Index) where
  getElement elements := getElement elements.current
  getSlotElementByRef elements := getSlotElementByRef elements.current
  getSlotElementsByInbound elements := getSlotElementsByInbound elements.current
  getSlotElementsByOutbound elements := getSlotElementsByOutbound elements.current
  setElement elements element slots := elements.write (setElement · element slots)
  deleteElement elements elementRef := elements.write (deleteElement · elementRef)
  begin elements := { elements with session := some elements.committed }
  commit elements := ⟨elements.current, none⟩
  rollback elements := { elements with session := none }

instance [LawfulElementIndex Index] : LawfulElementIndex (SessionedElements Index) where
  slot elements := LawfulElementIndex.slot elements.current
  inbound elements := LawfulElementIndex.inbound elements.current
  outbound elements := LawfulElementIndex.outbound elements.current

end SessionedElements

section Samples

def joinedNode (sourceId label : String) (value : Int) : Element :=
  .node ⟨⟨sourceId, label⟩, [label], 0⟩ (.insert .empty "p" (.integer value))

/-- Nothing but elements is cached, and an update leaves them all, except the one it is called for. -/
def leavesElements (index : CachedElementIndex Index) : ElementCall → Bool
  | .read _ => true
  | .update update =>
    let after := update.apply index.elementIndex
    let same (ref : ElementReference) : Bool := getElement after ref = getElement index.elementIndex ref
    index.slotCache.map.keys = [] && index.inboundCache.map.keys = [] && index.outboundCache.map.keys = [] &&
      match update with
      | .setElement element _ => getElement after element.getReference = some element &&
          index.elementCache.map.keys.all fun ref => ref = element.getReference || same ref
      | .deleteElement elementRef => index.elementCache.map.keys.all fun ref => ref = elementRef || same ref
      | _ => index.elementCache.map.keys.all same

theorem peek_eq_none {K V : Type} [DecidableEq K] {cache : Lru K V} (empty : cache.map.keys = []) (key : K) :
    cache.peek key = none :=
  AList.lookup_eq_none.mpr fun member => by simp [AList.mem_keys, empty] at member

theorem leavesCached_of_leavesElements {index : CachedElementIndex Index} {call : ElementCall}
    (leaves : leavesElements index call) : LeavesCached index call := by
  cases call with
  | read => trivial
  | update update =>
    simp only [leavesElements, Bool.and_eq_true, decide_eq_true_eq] at leaves
    obtain ⟨⟨⟨slots, inbound⟩, outbound⟩, elements⟩ := leaves
    have same {after : Index} {ref : ElementReference}
        (kept : ref ∈ index.elementCache.map.keys → getElement after ref = getElement index.elementIndex ref) :
        SameCached index after ref := by
      have absent := peek_eq_none slots ref
      refine ⟨fun cached => kept ?_, fun _ _ cached => nomatch absent.symm.trans cached⟩
      rcases cached with element | slot
      · by_contra missing
        exact element (AList.lookup_eq_none.mpr (mt AList.mem_keys.mp missing))
      · exact absurd absent slot
    cases update with
    | setElement element =>
      obtain ⟨found, others⟩ := Bool.and_eq_true_iff.mp elements
      refine ⟨of_decide_eq_true found, fun ref differs => same fun cached => ?_⟩
      exact of_decide_eq_true ((Bool.or_eq_true_iff.mp (List.all_eq_true.mp others ref cached)).resolve_left (by simpa))
    | deleteElement elementRef =>
      refine fun ref differs => same fun cached => ?_
      exact of_decide_eq_true ((Bool.or_eq_true_iff.mp (List.all_eq_true.mp elements ref cached)).resolve_left (by simpa))
    | begin | commit | rollback =>
      refine ⟨fun ref => same fun cached => ?_, fun ref slot _ cached => ?_, fun ref slot _ cached => ?_⟩
      · exact of_decide_eq_true (List.all_eq_true.mp elements ref cached)
      · cases (peek_eq_none inbound (ref, slot)).symm.trans cached
      · cases (peek_eq_none outbound (ref, slot)).symm.trans cached

def allLeave (index : CachedElementIndex Index) : List ElementCall → Bool
  | [] => true
  | call :: calls => leavesElements index call && allLeave (index.perform call) calls

theorem eachStep_of_allLeave {index : CachedElementIndex Index} {calls : List ElementCall} (all : allLeave index calls) :
    EachStep CachedElementIndex.perform LeavesCached index calls := by
  induction calls generalizing index with
  | nil => exact eachStep_nil
  | cons call calls ih =>
    obtain ⟨first, rest⟩ := Bool.and_eq_true_iff.mp all
    exact eachStep_cons.mpr ⟨leavesCached_of_leavesElements first, ih rest⟩

def sessionedSample : SessionedElements (InMemoryElements .stored 1) := ⟨.new .stored 1 joinSamplePath [joinSample], none⟩

/-- Two nodes are joined, in the next session both move to another value, and a third session deletes one and is rolled
back. -/
def sessionedCalls : List ElementCall :=
  [.update .begin, .update (.setElement (joinedNode "s" "A" 1) []), .update (.setElement (joinedNode "t" "B" 1) []),
    .update .commit, .update .begin, .update (.setElement (joinedNode "s" "A" 2) []),
    .update (.setElement (joinedNode "t" "B" 2) []), .update .commit, .update .begin, .update (.deleteElement ⟨"t", "B"⟩),
    .update .rollback, .read (.getElement (getJoinVirtualRef ⟨"s", "A"⟩ ⟨"t", "B"⟩))]

/-- The relation made for the new value is found, and so is the node whose deletion was rolled back. -/
theorem cached_element_index_transparent_sessions :
    (((CachedElementIndex.new sessionedSample 4).performAll sessionedCalls).read
        (.getElement (getJoinVirtualRef ⟨"s", "A"⟩ ⟨"t", "B"⟩))).1 =
      ElementRead.of (ElementCall.applyAll sessionedSample sessionedCalls)
        (.getElement (getJoinVirtualRef ⟨"s", "A"⟩ ⟨"t", "B"⟩)) ∧
    (((CachedElementIndex.new sessionedSample 4).performAll sessionedCalls).read (.getElement ⟨"t", "B"⟩)).1 =
      ElementRead.of (ElementCall.applyAll sessionedSample sessionedCalls) (.getElement ⟨"t", "B"⟩) := by
  have all : allLeave (CachedElementIndex.new sessionedSample 4) sessionedCalls := by decide +kernel
  have leaves := eachStep_of_allLeave all
  exact ⟨cached_element_index_transparent _ _ leaves _, cached_element_index_transparent _ _ leaves _⟩

/-- A node moves to another value of its join key: the index drops the virtual relation, and the cache still has it. A node
is set in a session that is rolled back: the cache still has it, too. -/
theorem moved_node_keeps_cached_relation :
    (¬ ∀ (elementIndex : InMemoryElements .stored 1) (cacheSize : Nat) (calls : List ElementCall) (read : ElementRead),
      (((CachedElementIndex.new elementIndex cacheSize).performAll calls).read read).1 =
        read.of (ElementCall.applyAll elementIndex calls)) ∧
    ¬ ∀ (calls : List ElementCall) (read : ElementRead),
      (((CachedElementIndex.new sessionedSample 4).performAll calls).read read).1 =
        read.of (ElementCall.applyAll sessionedSample calls) := by
  constructor
  · intro transparent
    have stale := transparent (.new .stored 1 joinSamplePath [joinSample]) 4
      [.update .begin, .update (.setElement (joinedNode "s" "A" 1) []), .update (.setElement (joinedNode "t" "B" 1) []),
        .read (.getElement (getJoinVirtualRef ⟨"s", "A"⟩ ⟨"t", "B"⟩)), .update (.setElement (joinedNode "s" "A" 2) []),
        .update .commit]
      (.getElement (getJoinVirtualRef ⟨"s", "A"⟩ ⟨"t", "B"⟩))
    revert stale
    decide +kernel
  · intro transparent
    have stale := transparent [.update .begin, .update (.setElement (joinedNode "s" "A" 1) []), .update .rollback]
      (.getElement ⟨"s", "A"⟩)
    revert stale
    decide +kernel

end Samples

end DrasiCore.Proofs
