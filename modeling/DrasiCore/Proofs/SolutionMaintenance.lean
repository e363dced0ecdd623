import DrasiCore.Graph
import DrasiCore.Proofs.PureExpressions
import DrasiCore.Proofs.SolverSoundness

/-! The solutions computed for one element are the matches that use it. -/

namespace DrasiCore.Proofs

open Library Eval InMemoryElementIndex ContinuousQuery List Option

variable {element : Element} {reference : ElementReference} {state : EngineState}

/-- A path without optional slots whose slot graph is a tree. -/
structure TreePath (path : MatchPath) : Prop where
  closed : Closed path
  required : Required path
  mirrored : Mirrored path
  connected : Connected path
  acyclic : Acyclic path

/-- An assignment of indexed elements to the slots they fit, with neighbours linked. -/
structure Matches (path : MatchPath) (index : InMemoryElementIndex) (assignment : Nat → Element) : Prop where
  affinity : ∀ slot < path.slots.length, index.HasAffinity (assignment slot) slot
  endpoints : SatisfiesEndpoints path assignment

def Uses (path : MatchPath) (assignment : Nat → Element) (reference : ElementReference) : Prop :=
  ∃ slot < path.slots.length, (assignment slot).getReference = reference

/-- A solution that binds the slots to the elements of an assignment. -/
def Binds (path : MatchPath) (solution : MatchPathSolution) (assignment : Nat → Element) : Prop :=
  ∀ slot < path.slots.length, solution.solvedSlots slot = some (some (assignment slot))

variable {path : MatchPath} {index : InMemoryElementIndex} {order : IterationOrder}

theorem matches_of_lookup_solve (tree : TreePath path) (consistent : index.Consistent) {anchor anchorSlot}
    (anchorAffinity : index.HasAffinity anchor anchorSlot) (anchorInside : anchorSlot < path.slots.length)
    {signature solution} (found : (solve path index order anchor anchorSlot).lookup signature = some solution) :
    ∃ assignment, Matches path index assignment ∧ assignment anchorSlot = anchor ∧
      signature = assignmentSignature path assignment ∧ Binds path solution assignment := by
  obtain ⟨assignment, anchored, signed, bound⟩ :=
    assignment_of_solve tree.closed tree.required consistent anchorAffinity anchorInside found
  have values : Binds path solution assignment := fun slot inside => (bound slot inside).1
  refine ⟨assignment, ⟨fun slot inside => (bound slot inside).2, ?_⟩, anchored, signed, values⟩
  have spans := yields_spans tree.closed tree.required consistent anchorInside
    (yields_of_solve tree.closed anchorInside found) values
  exact spans.satisfiesEndpoints tree.closed tree.mirrored tree.acyclic

/-- The solutions are those of the matches that use the element with the reference. -/
structure SolutionsOf (path : MatchPath) (index : InMemoryElementIndex) (reference : ElementReference)
    (solutions : Solutions) : Prop where
  sound : ∀ signature solution, solutions.lookup signature = some solution →
    ∃ assignment, Matches path index assignment ∧ Uses path assignment reference ∧
      signature = assignmentSignature path assignment ∧ Binds path solution assignment
  complete : ∀ assignment, Matches path index assignment → Uses path assignment reference →
    ∃ solution, solutions.lookup (assignmentSignature path assignment) = some solution ∧
      Binds path solution assignment

theorem lookup_foldl_union {K V : Type} [DecidableEq K] (maps : Nat → AList fun _ : K => V) (slots : List Nat)
    (start : AList fun _ : K => V) (key : K) :
    (∀ value, (slots.foldl (fun result slot => maps slot ∪ result) start).lookup key = some value →
      (∃ slot ∈ slots, (maps slot).lookup key = some value) ∨ start.lookup key = some value) ∧
    ((∃ slot ∈ slots, ((maps slot).lookup key).isSome) ∨ (start.lookup key).isSome →
      ((slots.foldl (fun result slot => maps slot ∪ result) start).lookup key).isSome) := by
  induction slots generalizing start with
  | nil => exact ⟨fun value found => .inr found, fun present => present.elim (by simp) id⟩
  | cons slot slots ih =>
    obtain ⟨back, forth⟩ := ih (maps slot ∪ start)
    have union : ∀ value, (maps slot ∪ start).lookup key = some value ↔
        (maps slot).lookup key = some value ∨ key ∉ maps slot ∧ start.lookup key = some value :=
      fun value => AList.mem_lookup_union
    constructor
    · intro value found
      rcases back value found with ⟨other, member, here⟩ | merged
      · exact .inl ⟨other, mem_cons_of_mem _ member, here⟩
      · rcases (union value).mp merged with here | ⟨_, before⟩
        · exact .inl ⟨slot, mem_cons_self, here⟩
        · exact .inr before
    · intro present
      apply forth
      by_cases here : ((maps slot).lookup key).isSome
      · obtain ⟨value, found⟩ := isSome_iff_exists.mp here
        exact .inr (isSome_iff_exists.mpr ⟨value, (union value).mpr (.inl found)⟩)
      · rcases present with ⟨other, member, found⟩ | before
        · rcases mem_cons.mp member with rfl | later
          · exact absurd found here
          · exact .inl ⟨other, later, found⟩
        · obtain ⟨value, found⟩ := isSome_iff_exists.mp before
          have outside : key ∉ maps slot := fun inside => here (AList.lookup_isSome.mpr inside)
          exact .inr (isSome_iff_exists.mpr ⟨value, (union value).mpr (.inr ⟨outside, found⟩)⟩)

theorem getReference_eq_of_signature {one two} (same : assignmentSignature path one = assignmentSignature path two) :
    ∀ slot < path.slots.length, (one slot).getReference = (two slot).getReference := by
  intro slot inside
  have entries := map_inj_left.mp (Signature.solution.inj same) slot (mem_range.mpr inside)
  exact some.inj (Prod.mk.inj entries).2

theorem eq_of_hasAffinity {one two slot other} (first : index.HasAffinity one slot) (second : index.HasAffinity two other)
    (same : one.getReference = two.getReference) : one = two := by
  have stored := second.1
  rw [← same, first.1] at stored
  exact some.inj stored

theorem Matches.eq_of_signature {one two} (first : Matches path index one) (second : Matches path index two)
    (same : assignmentSignature path one = assignmentSignature path two) :
    ∀ slot < path.slots.length, one slot = two slot := by
  intro slot inside
  exact eq_of_hasAffinity (first.affinity slot inside) (second.affinity slot inside)
    (getReference_eq_of_signature same slot inside)

/-- Solving from all slots an element fits gives the matches that use it. -/
theorem solutionsOf_foldl (tree : TreePath path) (consistent : index.Consistent)
    (stored : index.elements element.getReference = some element) {slots : List Nat}
    (fits : ∀ slot, slot ∈ slots ↔ index.HasAffinity element slot) (inside : ∀ slot ∈ slots, slot < path.slots.length)
    (orders : Nat → IterationOrder) :
    SolutionsOf path index element.getReference
      (slots.foldl (fun result slot => solve path index (orders slot) element slot ∪ result) ∅) := by
  have entries := lookup_foldl_union (fun slot => solve path index (orders slot) element slot) slots ∅
  have sound : ∀ signature solution,
      (slots.foldl (fun result slot => solve path index (orders slot) element slot ∪ result) ∅).lookup signature =
        some solution →
      ∃ assignment, Matches path index assignment ∧ Uses path assignment element.getReference ∧
        signature = assignmentSignature path assignment ∧ Binds path solution assignment := by
    intro signature solution found
    rcases (entries signature).1 solution found with ⟨slot, member, here⟩ | impossible
    · obtain ⟨assignment, holds, anchored, signed, bound⟩ :=
        matches_of_lookup_solve tree consistent ((fits slot).mp member) (inside slot member) here
      exact ⟨assignment, holds, ⟨slot, inside slot member, by rw [anchored]⟩, signed, bound⟩
    · cases impossible
  refine ⟨sound, ?_⟩
  intro assignment holds ⟨slot, within, same⟩
  have affinity := holds.affinity slot within
  -- the element is stored once, so the slot holds this version of it
  have anchored : assignment slot = element := by
    have version := affinity.1
    rw [same, stored] at version
    exact (some.inj version).symm
  have member : slot ∈ slots := (fits slot).mpr (anchored ▸ affinity)
  have solves : ∃ solution, (solve path index (orders slot) (assignment slot) slot).lookup
      (assignmentSignature path assignment) = some solution ∧
        ∀ slot < path.slots.length, solution.solvedSlots slot = some (some (assignment slot)) :=
    lookup_solve tree.closed tree.required tree.connected consistent within holds.affinity holds.endpoints
  obtain ⟨solved, here, _⟩ := solves
  rw [anchored] at here
  obtain ⟨solution, found⟩ := isSome_iff_exists.mp
    ((entries (assignmentSignature path assignment)).2 (.inl ⟨slot, member, by rw [here]; rfl⟩))
  obtain ⟨other, others, _, signed, bound⟩ := sound _ _ found
  refine ⟨solution, found, ?_⟩
  intro position positioned
  rw [bound position positioned, holds.eq_of_signature others signed position positioned]

/-! ### The slots an element fits -/

/-- Whether an element fits a slot whose predicates are pure. -/
def slotAccepts (spec : SlotElementSpec) (element : Element) : Except EvaluationError Bool :=
  if spec.labelMatch element then filtersHold (spec.slotVariables .empty element) spec.predicates else .ok false

theorem slotAccepts_iff {spec} : slotAccepts spec element = .ok true ↔ spec.Accepts Expression.IsTrue element := by
  rw [slotAccepts, SlotElementSpec.Accepts, ← filtersHold_iff]
  split
  next labelled => exact ⟨fun holds => ⟨labelled, holds⟩, fun both => both.2⟩
  next unlabelled => exact ⟨nofun, fun both => absurd both.1 unlabelled⟩

def PureSlots (path : MatchPath) : Prop :=
  ∀ slot ∈ path.slots, ∀ predicate ∈ slot.spec.predicates, predicate.isPure = true

/-- The predicates of all slots evaluate without error on an element. -/
def TotalSlots (path : MatchPath) (element : Element) : Prop :=
  ∀ slot ∈ path.slots, ∃ fits, slotAccepts slot.spec element = .ok fits

/-- The slots an element fits, counted from a given number. -/
def fittingSlots (element : Element) : List MatchPathSlot → Nat → List Nat
  | [], _ => []
  | slot :: slots, slotNum =>
    if slotAccepts slot.spec element = .ok true then slotNum :: fittingSlots element slots (slotNum + 1)
    else fittingSlots element slots (slotNum + 1)

theorem mem_fittingSlots {slots start slotNum} :
    slotNum ∈ fittingSlots element slots start ↔
      ∃ position slot, slotNum = start + position ∧ slots[position]? = some slot ∧
        slotAccepts slot.spec element = .ok true := by
  induction slots generalizing start with
  | nil => simp [fittingSlots]
  | cons first slots ih =>
    have later : slotNum ∈ fittingSlots element slots (start + 1) ↔
        ∃ position slot, slotNum = start + (position + 1) ∧ (first :: slots)[position + 1]? = some slot ∧
          slotAccepts slot.spec element = .ok true := by
      rw [ih]
      simp only [getElem?_cons_succ, Nat.add_assoc, Nat.add_comm 1]
    unfold fittingSlots
    constructor
    · intro member
      split at member
      next accepted =>
        rcases mem_cons.mp member with rfl | rest
        · exact ⟨0, first, rfl, rfl, accepted⟩
        · obtain ⟨position, found⟩ := later.mp rest
          exact ⟨position + 1, found⟩
      next =>
        obtain ⟨position, found⟩ := later.mp member
        exact ⟨position + 1, found⟩
    · intro ⟨position, slot, same, present, accepted⟩
      cases position with
      | zero =>
        cases present
        rw [if_pos accepted, same]
        exact mem_cons_self
      | succ position =>
        have rest := later.mpr ⟨position, slot, same, present, accepted⟩
        split
        · exact mem_cons_of_mem _ rest
        · exact rest

theorem matchElementToSlot_eq {spec} (plain : ∀ predicate ∈ spec.predicates, predicate.isPure = true)
    (clock : InstantQueryClock) (element : Element) :
    matchElementToSlot .empty clock spec element = ofExcept (slotAccepts spec element) := by
  unfold matchElementToSlot slotAccepts
  split
  · exact passesFilters_of_pure _ plain
  · rfl

theorem getSlotsWithAffinity_eq (element : Element) (clock : InstantQueryClock) {slots}
    (plain : ∀ slot ∈ slots, ∀ predicate ∈ slot.spec.predicates, predicate.isPure = true)
    (total : ∀ slot ∈ slots, ∃ fits, slotAccepts slot.spec element = .ok fits) (start : Nat) :
    getSlotsWithAffinity .empty element clock slots start = pure (fittingSlots element slots start) := by
  induction slots generalizing start with
  | nil => rfl
  | cons slot slots ih =>
    have rest := ih (fun other member => plain other (mem_cons_of_mem _ member))
      (fun other member => total other (mem_cons_of_mem _ member)) (start + 1)
    obtain ⟨fits, accepted⟩ := total slot mem_cons_self
    rw [getSlotsWithAffinity, matchElementToSlot_eq (plain slot mem_cons_self), accepted, rest, fittingSlots,
      accepted]
    cases fits <;> rfl

/-! ### The element index under changes -/

/-- Every stored element has affinity for exactly the slots it fits. -/
structure IndexTracks (path : MatchPath) (index : InMemoryElementIndex) : Prop where
  consistent : index.Consistent
  fits : ∀ element, index.elements element.getReference = some element → ∀ slot,
    slot ∈ index.slotAffinity element.getReference ↔ slot ∈ fittingSlots element path.slots 0

theorem IndexTracks.empty (path : MatchPath) : IndexTracks path .empty :=
  ⟨empty_consistent, fun _ impossible => by cases impossible⟩

theorem IndexTracks.setElement (tracks : IndexTracks path index) (element : Element) :
    IndexTracks path (index.setElement element (fittingSlots element path.slots 0)) := by
  refine ⟨setElement_consistent tracks.consistent _ _, ?_⟩
  intro other stored slot
  rw [mem_setElement_slotAffinity tracks.consistent]
  rw [setElement_elements] at stored
  split at stored
  next same =>
    cases stored
    rw [if_pos rfl]
  next different =>
    rw [if_neg different]
    exact tracks.fits other stored slot

theorem IndexTracks.deleteElement (tracks : IndexTracks path index) (reference : ElementReference) :
    IndexTracks path (index.deleteElement reference) := by
  refine ⟨deleteElement_consistent tracks.consistent reference, ?_⟩
  intro other stored slot
  have affinity := deleteElement_hasAffinity tracks.consistent reference other slot
  have kept := stored
  rw [deleteElement_elements] at kept
  split at kept
  · cases kept
  next different =>
    have same : slot ∈ (index.deleteElement reference).slotAffinity other.getReference ↔
        slot ∈ index.slotAffinity other.getReference := by
      constructor
      · intro member
        exact (affinity.mp ⟨stored, member⟩).1.2
      · intro member
        exact (affinity.mpr ⟨⟨kept, member⟩, different⟩).2
    exact same.trans (tracks.fits other kept slot)

/-- Elements of the graph in slots that accept them, with neighbours linked. -/
def GraphMatch (path : MatchPath) (graph : Graph) (assignment : Nat → Element) : Prop :=
  (∀ slot < path.slots.length, graph.Holds (assignment slot)) ∧ SatisfiesSlots Expression.IsTrue path assignment

theorem IndexTracks.matches_iff (tracks : IndexTracks path index) {assignment} :
    Matches path index assignment ↔ GraphMatch path index.elements assignment := by
  have accepted : ∀ slot, slot ∈ fittingSlots (assignment slot) path.slots 0 ↔
      ∃ found, path.slots[slot]? = some found ∧ found.spec.Accepts Expression.IsTrue (assignment slot) := by
    intro slot
    rw [mem_fittingSlots]
    constructor
    · intro ⟨position, found, same, present, accepts⟩
      rw [Nat.zero_add] at same
      exact ⟨found, same ▸ present, slotAccepts_iff.mp accepts⟩
    · intro ⟨found, present, accepts⟩
      exact ⟨slot, found, (Nat.zero_add slot).symm, present, slotAccepts_iff.mpr accepts⟩
  constructor
  · intro holds
    refine ⟨fun slot inside => (holds.affinity slot inside).1, ?_, holds.endpoints⟩
    intro slot found present
    have affinity := holds.affinity slot (List.getElem?_eq_some_iff.mp present).1
    obtain ⟨other, there, accepts⟩ := (accepted slot).mp ((tracks.fits _ affinity.1 slot).mp affinity.2)
    cases present.symm.trans there
    exact accepts
  · intro ⟨held, fits, endpoints⟩
    refine ⟨fun slot inside => ⟨held slot inside, ?_⟩, endpoints⟩
    have present := getElem?_eq_getElem inside
    exact (tracks.fits _ (held slot inside) slot).mpr ((accepted slot).mpr ⟨_, present, fits slot _ present⟩)

theorem fittingSlots_lt {slot} (member : slot ∈ fittingSlots element path.slots 0) : slot < path.slots.length := by
  obtain ⟨position, found, rfl, present, _⟩ := mem_fittingSlots.mp member
  rw [Nat.zero_add]
  exact (List.getElem?_eq_some_iff.mp present).1

/-- Two indexes that agree on every element but the one with the reference. -/
def AgreeBut (reference : ElementReference) (index other : InMemoryElementIndex) : Prop :=
  ∀ element slot, element.getReference ≠ reference → (index.HasAffinity element slot ↔ other.HasAffinity element slot)

theorem agreeBut_setElement (consistent : index.Consistent) (element : Element) (slots : List Nat) :
    AgreeBut element.getReference index (index.setElement element slots) := by
  intro other slot different
  rw [setElement_hasAffinity consistent]
  constructor
  · exact fun affinity => .inr ⟨affinity, different⟩
  · intro affinity
    rcases affinity with ⟨rfl, _⟩ | ⟨kept, _⟩
    · exact absurd rfl different
    · exact kept

theorem agreeBut_deleteElement (consistent : index.Consistent) (reference : ElementReference) :
    AgreeBut reference index (index.deleteElement reference) := by
  intro other slot different
  rw [deleteElement_hasAffinity consistent]
  exact ⟨fun affinity => ⟨affinity, different⟩, fun affinity => affinity.1⟩

theorem AgreeBut.matches_iff {other} (agree : AgreeBut reference index other) {assignment}
    (unused : ¬ Uses path assignment reference) : Matches path index assignment ↔ Matches path other assignment := by
  have same : ∀ slot < path.slots.length,
      (index.HasAffinity (assignment slot) slot ↔ other.HasAffinity (assignment slot) slot) := by
    intro slot inside
    apply agree
    exact fun equal => unused ⟨slot, inside, equal⟩
  constructor
  · intro holds
    exact ⟨fun slot inside => (same slot inside).mp (holds.affinity slot inside), holds.endpoints⟩
  · intro holds
    exact ⟨fun slot inside => (same slot inside).mpr (holds.affinity slot inside), holds.endpoints⟩

/-! ### Solutions computed for an element -/

theorem solutionsOf_tracked (tree : TreePath path) (tracks : IndexTracks path index)
    (stored : index.elements element.getReference = some element) (orders : Nat → IterationOrder) :
    SolutionsOf path index element.getReference ((fittingSlots element path.slots 0).foldl
      (fun result slot => solve path index (orders slot) element slot ∪ result) ∅) := by
  apply solutionsOf_foldl tree tracks.consistent stored
  · intro slot
    rw [← tracks.fits element stored slot]
    exact ⟨fun member => ⟨stored, member⟩, fun affinity => affinity.2⟩
  · exact fun slot => fittingSlots_lt

variable {query : ContinuousQuery} {element : Element} {clock : InstantQueryClock}

theorem run_elementSolutions (tree : TreePath query.matchPath) (plain : PureSlots query.matchPath)
    (total : TotalSlots query.matchPath element) (tracks : IndexTracks query.matchPath state.elementIndex)
    (stored : state.elementIndex.elements element.getReference = some element) :
    ∃ solutions, query.elementSolutions order .empty element clock false state = (.ok solutions, state) ∧
      SolutionsOf query.matchPath state.elementIndex element.getReference solutions := by
  refine ⟨_, ?_, solutionsOf_tracked tree tracks stored fun slot => order.within [slot]⟩
  rw [elementSolutions,
    getSlotsWithAffinity_eq element clock plain total]
  rfl

theorem run_elementSolutions_store (tree : TreePath query.matchPath) (plain : PureSlots query.matchPath)
    (total : TotalSlots query.matchPath element) (tracks : IndexTracks query.matchPath state.elementIndex) :
    ∃ solutions, query.elementSolutions order .empty element clock true state =
        (.ok solutions, { state with
          elementIndex := state.elementIndex.setElement element (fittingSlots element query.matchPath.slots 0) }) ∧
      SolutionsOf query.matchPath
        (state.elementIndex.setElement element (fittingSlots element query.matchPath.slots 0)) element.getReference
        solutions := by
  have stored : (state.elementIndex.setElement element (fittingSlots element query.matchPath.slots 0)).elements
      element.getReference = some element := by rw [setElement_elements, if_pos rfl]
  refine ⟨_, ?_, solutionsOf_tracked tree (tracks.setElement element) stored fun slot => order.within [slot]⟩
  rw [elementSolutions,
    getSlotsWithAffinity_eq element clock plain total]
  rfl

/-! ### Solutions of a whole change -/

theorem getEmptyOptionalSolution_eq_none (required : Required path) (solution : MatchPathSolution) :
    solution.getEmptyOptionalSolution path = none := by
  unfold MatchPathSolution.getEmptyOptionalSolution
  rw [if_neg]
  intro blank
  obtain ⟨slot, present, optional⟩ := (any_eq_true _ _).mp blank
  rw [required slot (mem_of_getElem? present)] at optional
  cases optional

theorem blankOptionalSolutions_eq_empty (required : Required path) (solutions : Solutions) :
    blankOptionalSolutions path solutions = ∅ := by
  unfold blankOptionalSolutions
  induction solutions.entries with
  | nil => rfl
  | cons entry entries ih =>
    rw [foldr_cons, getEmptyOptionalSolution_eq_none required, ih]
    rfl

theorem solutionChanges_empty (baseVariables : QueryVariables) : solutionChanges path order baseVariables ∅ ∅ = [] := by
  rw [solutionChanges, AList.empty_entries, IterationOrder.arrange_nil, IterationOrder.arrange_nil]
  rfl

theorem solutionsOf_absent (absent : index.elements reference = none) : SolutionsOf path index reference ∅ := by
  constructor
  · intro signature solution impossible
    cases impossible
  · intro assignment holds ⟨slot, inside, same⟩
    have stored := (holds.affinity slot inside).1
    rw [same, absent] at stored
    cases stored

theorem setElement_elements_eq (element : Element) (slots : List Nat) :
    (index.setElement element slots).elements = Function.update index.elements element.getReference (some element) := by
  funext ref
  rw [setElement_elements, Function.update_apply]

theorem deleteElement_elements_eq (reference : ElementReference) :
    (index.deleteElement reference).elements = Function.update index.elements reference none := by
  funext ref
  rw [deleteElement_elements, Function.update_apply]

/-- A change from one index to another, with the solutions that use the changed element before and after it. -/
structure SolutionStep (path : MatchPath) (reference : ElementReference) (index other : InMemoryElementIndex)
    (before after : Solutions) : Prop where
  tracks : IndexTracks path other
  agree : AgreeBut reference index other
  old : SolutionsOf path index reference before
  new : SolutionsOf path other reference after

theorem SolutionStep.setElement (tracks : IndexTracks path index) {before after}
    (old : SolutionsOf path index element.getReference before)
    (new : SolutionsOf path (index.setElement element (fittingSlots element path.slots 0)) element.getReference after) :
    SolutionStep path element.getReference index (index.setElement element (fittingSlots element path.slots 0))
      before after :=
  ⟨tracks.setElement element, agreeBut_setElement tracks.consistent element _, old, new⟩

theorem SolutionStep.deleteElement (tracks : IndexTracks path index) {before}
    (old : SolutionsOf path index reference before) :
    SolutionStep path reference index (index.deleteElement reference) before ∅ := by
  refine ⟨tracks.deleteElement reference, agreeBut_deleteElement tracks.consistent reference, old, ?_⟩
  apply solutionsOf_absent
  rw [deleteElement_elements, if_pos rfl]

theorem SolutionStep.unchanged (tracks : IndexTracks path index) (absent : index.elements reference = none) :
    SolutionStep path reference index index ∅ ∅ :=
  ⟨tracks, fun _ _ _ => Iff.rfl, solutionsOf_absent absent, solutionsOf_absent absent⟩

/-- The slot predicates evaluate without error on every element of the graph. -/
def TotalGraph (path : MatchPath) (graph : Graph) : Prop := ∀ element, graph.Holds element → TotalSlots path element

/-- Building the changes of a source change stores the graph after it and finds the solutions on both sides. -/
theorem run_buildSolutionChanges (tree : TreePath query.matchPath) (plain : PureSlots query.matchPath) {change}
    (tracks : IndexTracks query.matchPath state.elementIndex) {next}
    (sends : Graph.Sends state.elementIndex.elements change)
    (applies : Graph.apply state.elementIndex.elements change = some next)
    (total : TotalGraph query.matchPath state.elementIndex.elements) (totalNext : TotalGraph query.matchPath next) :
    ∃ before after other anchorElement beforeClock beforeAnchorElement,
      query.buildSolutionChanges order .empty change clock state =
        (.ok (some ⟨solutionChanges query.matchPath (order.within [2]) .empty before after, anchorElement, beforeClock,
          beforeAnchorElement, false⟩), { state with elementIndex := other }) ∧
      other.elements = next ∧ SolutionStep query.matchPath change.getReference state.elementIndex other before after := by
  have stores : ∀ element : Element, Function.update state.elementIndex.elements element.getReference (some element) =
      next → ∃ after, query.elementSolutions (order.within [1]) .empty element clock true state =
          (.ok after, { state with elementIndex :=
            state.elementIndex.setElement element (fittingSlots element query.matchPath.slots 0) }) ∧
        SolutionsOf query.matchPath
          (state.elementIndex.setElement element (fittingSlots element query.matchPath.slots 0)) element.getReference
          after := by
    intro element same
    apply run_elementSolutions_store tree plain _ tracks
    apply totalNext
    rw [← same, Graph.Holds, Function.update_self]
  cases change with
  | insert element =>
    have same := some.inj applies
    obtain ⟨after, runs, new⟩ := stores element same
    have absent : state.elementIndex.elements element.getReference = none := sends
    refine ⟨∅, after, _, some element, none, none, ?_, (setElement_elements_eq _ _).trans same,
      .setElement tracks (solutionsOf_absent absent) new⟩
    rw [buildSolutionChanges, run_bind_of_ok runs, blankOptionalSolutions_eq_empty tree.required]
    rfl
  | update element =>
    rw [Graph.apply] at applies
    rw [buildSolutionChanges, run_read_bind, getElement]
    cases stored : state.elementIndex.elements element.getReference with
    | none =>
      rw [stored] at applies
      have same := some.inj applies
      obtain ⟨after, runs, new⟩ := stores element same
      refine ⟨∅, after, _, some element, none, none, ?_, (setElement_elements_eq _ _).trans same,
        .setElement tracks (solutionsOf_absent stored) new⟩
      dsimp only
      rw [run_bind_of_ok runs]
      rfl
    | some previous =>
      rw [stored] at applies
      obtain ⟨merged, merges, same⟩ := map_eq_some_iff.mp applies
      have reference : merged.getReference = element.getReference :=
        Element.getReference_mergeMissingProperties merges
      have filed := tracks.consistent.filed _ _ stored
      rw [← reference] at same
      obtain ⟨after, runs, new⟩ := stores merged same
      have held : state.elementIndex.elements previous.getReference = some previous := by rw [filed, stored]
      let beforeClock : InstantQueryClock := ⟨previous.getEffectiveFrom, clock.realtime⟩
      have solves : ∃ before, query.elementSolutions (order.within [0]) .empty previous beforeClock false state =
          (.ok before, state) ∧ SolutionsOf query.matchPath state.elementIndex previous.getReference before :=
        run_elementSolutions tree plain (total previous held) tracks held
      obtain ⟨before, earlier, old⟩ := solves
      rw [filed, ← reference] at old
      have step := SolutionStep.setElement tracks old new
      rw [reference] at step
      refine ⟨before, after, _, some merged, some beforeClock, some previous, ?_,
        (setElement_elements_eq _ _).trans same, step⟩
      dsimp only
      rw [run_bind_of_ok earlier, merges]
      dsimp only
      rw [run_bind_of_ok runs]
      rfl
  | delete metadata =>
    have same := some.inj applies
    rw [buildSolutionChanges, run_read_bind, getElement]
    cases stored : state.elementIndex.elements metadata.reference with
    | none =>
      refine ⟨∅, ∅, state.elementIndex, none, none, none, ?_, ?_, .unchanged tracks stored⟩
      · rw [solutionChanges_empty]
        rfl
      · rw [← same, ← stored, Function.update_eq_self]
    | some element =>
      have filed := tracks.consistent.filed _ _ stored
      have held : state.elementIndex.elements element.getReference = some element := by rw [filed, stored]
      let beforeClock : InstantQueryClock := ⟨element.getEffectiveFrom, clock.realtime⟩
      have solves : ∃ before, query.elementSolutions (order.within [0]) .empty element beforeClock false state =
          (.ok before, state) ∧ SolutionsOf query.matchPath state.elementIndex element.getReference before :=
        run_elementSolutions tree plain (total element held) tracks held
      obtain ⟨before, earlier, old⟩ := solves
      rw [filed] at old
      refine ⟨before, ∅, _, none, some beforeClock, some element, ?_,
        (deleteElement_elements_eq _).trans same, .deleteElement tracks old⟩
      dsimp only
      rw [run_bind_of_ok earlier, blankOptionalSolutions_eq_empty tree.required]
      rfl
  | future futureRef => cases sends

end DrasiCore.Proofs
