import DrasiCore.Proofs.SolverResults

/-! The solver checks a link only when it reaches a slot for the first time. The links it has checked connect all slots;
in a slot graph without cycles there are no others, and around a cycle one of them is left unchecked. -/

namespace DrasiCore.Proofs

open Library Solution MatchPath List Option

variable {path : MatchPath} {index : InMemoryElementIndex} {order : IterationOrder} {anchorSlot : Nat}
  {anchor : Element} {solution : MatchPathSolution}
variable {slot slotNum : Nat} {value : Option Element} {cursors : List (Nat × Option Element)}
  {result : Signature × MatchPathSolution}

def Value (solution : MatchPathSolution) (slot : Nat) (value : Option Element) : Prop :=
  solution.solvedSlots slot = some value ∨ (slot, value) ∈ solution.slotCursors

def LinkedSlots (path : MatchPath) (solution : MatchPathSolution) (slot other : Nat) : Prop :=
  ∃ direction element found, Neighbour path slot other direction ∧ Value solution slot (some element) ∧
    Value solution other (some found) ∧ Linked direction element found

/-- Every queued slot is connected to the anchor slot by links. -/
def Traced (path : MatchPath) (anchorSlot : Nat) (solution : MatchPathSolution) : Prop :=
  ∀ slot, solution.queuedSlots slot = true → Relation.ReflTransGen (LinkedSlots path solution) anchorSlot slot

theorem Traced.mono {later} (kept : ∀ slot value, Value solution slot value → Value later slot value)
    (way : Relation.ReflTransGen (LinkedSlots path solution) anchorSlot slot) :
    Relation.ReflTransGen (LinkedSlots path later) anchorSlot slot := by
  refine Relation.ReflTransGen.mono ?_ _ _ way
  rintro here there ⟨direction, element, found, neighbour, first, second, link⟩
  exact ⟨direction, element, found, neighbour, kept _ _ first, kept _ _ second, link⟩

theorem Value.enqueueSlot (holds : Value solution slot value) (slotNum : Nat) (queued : Option Element) :
    Value (solution.enqueueSlot slotNum queued) slot value := by
  refine holds.imp (by simp) fun member => ?_
  cases fresh : solution.queuedSlots slotNum with
  | true => rwa [enqueueSlot_of_queued solution slotNum queued fresh]
  | false =>
    rw [enqueueSlot_slotCursors solution slotNum queued fresh]
    exact mem_append_left _ member

theorem Value.enqueueAll (items : List (Nat × Option Element)) (holds : Value solution slot value) :
    Value (enqueueAll items solution) slot value := by
  induction items generalizing solution with
  | nil => exact holds
  | cons item items ih => exact ih (holds.enqueueSlot item.1 item.2)

theorem Value.solveFirst {bound} (wellFormed : WellFormed path solution)
    (first : solution.slotCursors = (slotNum, bound) :: cursors) (holds : Value solution slot value) :
    Value (solveFirst solution slotNum bound cursors) slot value := by
  unfold Value
  rw [solveFirst_solvedSlots, solveFirst_slotCursors]
  rcases holds with solved | member
  · refine .inl ?_
    split
    · next same =>
      have unsolved := wellFormed.cursorUnsolved (slotNum, bound) (first ▸ mem_cons_self)
      rw [MatchPathSolution.isSlotSolved, ← same, solved] at unsolved
      cases unsolved
    · exact solved
  · rw [first, mem_cons] at member
    rcases member with same | later
    · cases same
      exact .inl (if_pos rfl)
    · exact .inr later

variable {items : List (Nat × Option Element)}

theorem enqueueAll_queued (queued : (enqueueAll items solution).queuedSlots slot = true) :
    solution.queuedSlots slot = true ∨ ∃ item ∈ items, item.1 = slot ∧ Value (enqueueAll items solution) slot item.2 := by
  induction items generalizing solution with
  | nil => exact .inl queued
  | cons item items ih =>
    have later : (enqueueAll items (solution.enqueueSlot item.1 item.2)).queuedSlots slot = true := queued
    rcases ih later with before | ⟨other, member, same, value⟩
    · cases fresh : solution.queuedSlots slot with
      | true => exact .inl rfl
      | false =>
        obtain rfl : slot = item.1 := by
          rw [enqueueSlot_queuedSlots, fresh] at before
          exact before.resolve_left Bool.false_ne_true
        refine .inr ⟨item, mem_cons_self, rfl, Value.enqueueAll items (.inr ?_)⟩
        rw [enqueueSlot_slotCursors solution _ _ fresh]
        exact mem_append_right _ (mem_singleton_self _)
    · exact .inr ⟨other, mem_cons_of_mem _ member, same, value⟩

theorem Traced.turn (required : Required path) (consistent : index.Consistent)
    (wellFormed : WellFormed path solution) (traced : Traced path anchorSlot solution)
    {element}
    (first : solution.slotCursors = (slotNum, some element) :: cursors) {extended}
    (extension : Extends path index slotNum (some element) (solveFirst solution slotNum (some element) cursors) extended
      items) : Traced path anchorSlot extended := by
  obtain ⟨rfl, offered⟩ := extension
  have kept (slot : Nat) (value : Option Element) (holds : Value solution slot value) :
      Value (enqueueAll items (solveFirst solution slotNum (some element) cursors)) slot value :=
    (holds.solveFirst wellFormed first).enqueueAll items
  intro slot queued
  rcases enqueueAll_queued queued with before | ⟨item, member, rfl, value⟩
  · exact Traced.mono kept (traced slot (by simpa using before))
  · -- the new slot is linked to the slot whose turn it is
    obtain ⟨direction, neighbour, -, offer⟩ := offered item member
    obtain ⟨found, same, -, link⟩ := (offers_iff required consistent).mp offer
    have here : Value solution slotNum (some element) := .inr (first ▸ mem_cons_self)
    have way := Traced.mono kept (traced slotNum
      (wellFormed.cursorQueued (slotNum, some element) (first ▸ mem_cons_self)))
    exact way.tail ⟨direction, element, found, neighbour, kept _ _ here, same ▸ value, link⟩

/-- Neighbouring slots whose elements are linked, in a direction in which the slots are entered. -/
def LinkedNeighbours (path : MatchPath) (assignment : Nat → Element) (slot other : Nat) : Prop :=
  ∃ direction, Neighbour path slot other direction ∧ Linked direction (assignment slot) (assignment other)

/-- Linked neighbours connect every slot to the anchor slot. -/
def Spans (path : MatchPath) (anchorSlot : Nat) (assignment : Nat → Element) : Prop :=
  ∀ slot < path.slots.length, Relation.ReflTransGen (LinkedNeighbours path assignment) anchorSlot slot

theorem LinkedNeighbours.symm (mirrored : Mirrored path) {assignment : Nat → Element} {other}
    (linked : LinkedNeighbours path assignment slot other) : LinkedNeighbours path assignment other slot := by
  obtain ⟨direction, neighbour, link⟩ := linked
  cases direction with
  | outward => exact ⟨.inward, (mirrored slot other).mp neighbour, link⟩
  | inward => exact ⟨.outward, (mirrored other slot).mpr neighbour, link⟩

/-- In a slot graph without cycles the links that connect all slots are all there are. -/
theorem Spans.satisfiesEndpoints (closed : Closed path) (mirrored : Mirrored path) (acyclic : Acyclic path)
    {assignment : Nat → Element} (spans : Spans path anchorSlot assignment) : SatisfiesEndpoints path assignment := by
  intro slot other adjacent
  have inside : slot < path.slots.length := by
    obtain ⟨_, _, present, -⟩ := id adjacent
    exact (List.getElem?_eq_some_iff.mp present).1
  have otherInside : other < path.slots.length := by
    obtain ⟨direction, neighbour⟩ := id adjacent
    exact closed slot other direction neighbour
  by_contra apart
  have different : slot ≠ other := fun same => acyclic.irreflexive slot (same ▸ adjacent)
  have edge : (slotGraph path).Adj slot other := ⟨different, .inl adjacent⟩
  have bridge := SimpleGraph.isAcyclic_iff_forall_adj_isBridge.mp acyclic.acyclic edge
  rw [SimpleGraph.isBridge_iff] at bridge
  have connects : ∀ target, Relation.ReflTransGen (LinkedNeighbours path assignment) anchorSlot target →
      ((slotGraph path).deleteEdges {s(slot, other)}).Reachable anchorSlot target := by
    intro target way
    induction way with
    | refl => exact .refl _
    | @tail middle last _ link ih =>
      refine ih.trans (SimpleGraph.Adj.reachable ?_)
      have joined : Adjacent path middle last := ⟨link.choose, link.choose_spec.1⟩
      rw [SimpleGraph.deleteEdges_adj, Set.mem_singleton_iff, Sym2.eq_iff]
      refine ⟨⟨fun same => acyclic.irreflexive middle (same ▸ joined), .inl joined⟩, ?_⟩
      rintro (⟨rfl, rfl⟩ | ⟨rfl, rfl⟩)
      · exact apart link
      · exact apart (link.symm mirrored)
  exact bridge ((connects slot (spans slot inside)).symm.trans (connects other (spans other otherInside)))

/-- Around every cycle the last link follows from the others, for the elements in the index. -/
def CyclesClose (path : MatchPath) (index : InMemoryElementIndex) (anchor : Element) (anchorSlot : Nat) : Prop :=
  ∀ assignment : Nat → Element, assignment anchorSlot = anchor →
    (∀ slot < path.slots.length, index.HasAffinity (assignment slot) slot) → Spans path anchorSlot assignment →
      SatisfiesEndpoints path assignment

theorem solved_of_value (wellFormed : WellFormed path solution) {bound}
    (first : solution.slotCursors = (slotNum, bound) :: cursors) (full : solution.solvedCount + 1 = path.slots.length)
    (holds : Value (solveFirst solution slotNum bound cursors) slot value) :
    (solveFirst solution slotNum bound cursors).solvedSlots slot = some value := by
  refine holds.resolve_right fun member => ?_
  rw [solveFirst_slotCursors] at member
  have listed : (slot, value) ∈ solution.slotCursors := first ▸ mem_cons_of_mem _ member
  have total : (solveFirst solution slotNum bound cursors).totalSlots = path.slots.length := by
    simpa using wellFormed.total
  have solved := (solvedCount_eq_iff total).mp ((solveFirst_solvedCount wellFormed first).trans full) slot
    (wellFormed.inside slot (wellFormed.cursorQueued _ listed))
  rcases (solveFirst_isSlotSolved slot).mp solved with rfl | before
  · have nodup := wellFormed.cursorNodup
    rw [first, map_cons, nodup_cons] at nodup
    exact nodup.1 (mem_map.mpr ⟨_, member, rfl⟩)
  · rw [wellFormed.cursorUnsolved _ listed] at before
    cases before

section

variable (closed : Closed path)
include closed

/-- The links of a complete solution connect all slots to the anchor slot. -/
theorem yields_traced (required : Required path) (consistent : index.Consistent)
    (anchorInside : anchorSlot < path.slots.length)
    (yields : WorkPool.Yields (solverProgram path index order closed) ([], startSolution path anchor anchorSlot) result) :
    (∀ slot value, Value result.2 slot value → result.2.solvedSlots slot = some value) ∧
      ∀ slot < path.slots.length, Relation.ReflTransGen (LinkedSlots path result.2) anchorSlot slot := by
  let bound := fun (_ : Nat) (value : Option Element) => ∃ element, value = some element
  have spec := (⟨?_, ?_⟩ : KeptByTurns path index (fun solution => Holds bound solution ∧ Traced path anchorSlot solution)
    fun solution => (∀ slot value, Value solution slot value → solution.solvedSlots slot = some value) ∧
      ∀ slot < path.slots.length, Relation.ReflTransGen (LinkedSlots path solution) anchorSlot slot).yielded yields
    (startSolution_wellFormed anchorInside) ⟨startSolution_holds ⟨anchor, rfl⟩, ?_⟩
  · exact spec.2.2
  · rintro solution slotNum value cursors wellFormed ⟨holds, traced⟩ first incomplete extended items extension
    obtain ⟨element, rfl⟩ := holds.queued (slotNum, value) (first ▸ mem_cons_self)
    refine ⟨?_, traced.turn required consistent wellFormed first extension⟩
    obtain ⟨rfl, offered⟩ := extension
    refine (holds.solveFirst first).enqueueAll fun item member => ?_
    obtain ⟨direction, -, -, offer⟩ := offered item member
    obtain ⟨found, same, -⟩ := (offers_iff required consistent).mp offer
    exact ⟨found, same⟩
  · rintro solution slotNum value cursors wellFormed ⟨holds, traced⟩ first full
    refine ⟨fun slot held => solved_of_value wellFormed first full, fun slot inside => ?_⟩
    have total : (solveFirst solution slotNum value cursors).totalSlots = path.slots.length := by
      simpa using wellFormed.total
    have solved := (solvedCount_eq_iff total).mp ((solveFirst_solvedCount wellFormed first).trans full) slot inside
    refine Traced.mono (fun _ _ held => held.solveFirst wellFormed first) (traced slot ?_)
    rcases (solveFirst_isSlotSolved slot).mp solved with rfl | before
    · exact wellFormed.cursorQueued (slot, value) (first ▸ mem_cons_self)
    · exact wellFormed.solvedQueued slot before
  · intro slot queued
    rw [startSolution, enqueueSlot_queuedSlots] at queued
    obtain rfl : slot = anchorSlot := queued.resolve_left Bool.false_ne_true
    exact .refl

theorem yields_spans (required : Required path) (consistent : index.Consistent)
    (anchorInside : anchorSlot < path.slots.length)
    (yields : WorkPool.Yields (solverProgram path index order closed) ([], startSolution path anchor anchorSlot) result)
    {assignment} (values : ∀ slot < path.slots.length, result.2.solvedSlots slot = some (some (assignment slot))) :
    Spans path anchorSlot assignment := by
  obtain ⟨only, traced⟩ := yields_traced closed required consistent anchorInside yields
  have bound : ∀ slot element, slot < path.slots.length → Value result.2 slot (some element) →
      element = assignment slot := by
    intro slot element inside held
    have value := (only _ _ held).symm.trans (values slot inside)
    exact some.inj (some.inj value)
  intro slot inside
  refine Relation.ReflTransGen.mono ?_ _ _ (traced slot inside)
  rintro here there ⟨direction, element, found, neighbour, first, second, link⟩
  have hereInside : here < path.slots.length := (List.getElem?_eq_some_iff.mp neighbour.choose_spec.1).1
  have thereInside := closed here there direction neighbour
  exact ⟨direction, neighbour, bound here element hereInside first ▸ bound there found thereInside second ▸ link⟩

theorem yields_anchor (anchorInside : anchorSlot < path.slots.length)
    (yields : WorkPool.Yields (solverProgram path index order closed) ([], startSolution path anchor anchorSlot) result) :
    result.2.solvedSlots anchorSlot = some (some anchor) := by
  have spec := (⟨?_, ?_⟩ : KeptByTurns path index (Value · anchorSlot (some anchor))
    fun solution => solution.solvedSlots anchorSlot = some (some anchor)).yielded yields
    (startSolution_wellFormed anchorInside) (.inr ?_)
  · exact spec.2.2
  · rintro solution slotNum value cursors wellFormed held first incomplete extended items ⟨rfl, -⟩
    exact (held.solveFirst wellFormed first).enqueueAll items
  · intro solution slotNum value cursors wellFormed held first full
    exact solved_of_value wellFormed first full (held.solveFirst wellFormed first)
  · rw [startSolution, enqueueSlot_slotCursors _ _ _ rfl]
    exact mem_append_right _ (mem_singleton_self _)

/-- What `solve` returns under a hash: an assignment of indexed elements with affinity, with the anchor in its slot. -/
theorem assignment_of_solve (required : Required path) (consistent : index.Consistent)
    (anchorAffinity : index.HasAffinity anchor anchorSlot) (anchorInside : anchorSlot < path.slots.length) {hash solution}
    (found : (solve path index order anchor anchorSlot).lookup hash = some solution) :
    ∃ assignment : Nat → Element, assignment anchorSlot = anchor ∧ hash = assignmentSignature path assignment ∧
      ∀ slot < path.slots.length, solution.solvedSlots slot = some (some (assignment slot)) ∧
        index.HasAffinity (assignment slot) slot := by
  have yields := yields_of_solve closed anchorInside found
  obtain ⟨signed, total, binds⟩ := yields_bindsIndexed closed required consistent anchorAffinity anchorInside yields
  have anchored := yields_anchor closed anchorInside yields
  let assignment : Nat → Element := fun slot => ((solution.solvedSlots slot).getD none).getD anchor
  have bound : ∀ slot < path.slots.length, solution.solvedSlots slot = some (some (assignment slot)) ∧
      index.HasAffinity (assignment slot) slot := by
    intro slot inside
    obtain ⟨element, (value : solution.solvedSlots slot = _), affinity⟩ := binds slot inside
    have same : assignment slot = element := by simp only [assignment, value, getD_some]
    exact ⟨same ▸ value, same ▸ affinity⟩
  have atAnchor : assignment anchorSlot = anchor := by
    have value := (bound anchorSlot anchorInside).1.symm.trans anchored
    exact some.inj (some.inj value)
  exact ⟨assignment, atAnchor, signed.trans (slotReferences_eq total fun slot inside => (bound slot inside).1), bound⟩

end

/-- The slots of a spanning assignment are connected. -/
theorem Spans.connected (mirrored : Mirrored path) {assignment : Nat → Element}
    (spans : Spans path anchorSlot assignment) : Connected path := by
  have adjacent : ∀ slot other, LinkedNeighbours path assignment slot other → Adjacent path slot other :=
    fun slot other ⟨direction, neighbour, _⟩ => ⟨direction, neighbour⟩
  intro slot other inside otherInside
  have back : Relation.ReflTransGen (LinkedNeighbours path assignment) slot anchorSlot := by
    have way := spans slot inside
    clear inside
    induction way with
    | refl => exact .refl
    | tail _ link ih => exact .head (link.symm mirrored) ih
  exact Relation.ReflTransGen.mono adjacent _ _ (back.trans (spans other otherInside))

/-- Soundness. Every slot of a returned solution is bound to an indexed element with affinity for it, and links between
neighbours connect all slots to the anchor. Where the other links of every cycle follow from these, as they do where
the slot graph has no cycle, the relations of all returned solutions have the ends written in the clauses exactly if in
the index no assignment that links all neighbours, in one of the directions in which they are entered, puts a node into
a relation slot, attaches a relation written without direction by one end only, or links neighbours entered in both
directions against the direction of a step. -/
theorem solve_sound (queryPart : QueryPart) (index : InMemoryElementIndex) (order : IterationOrder) (anchor : Element)
    (anchorSlot : Nat) (mandatory : ∀ clause ∈ queryPart.matchClauses, clause.optional = false)
    (consistent : index.Consistent) (anchorAffinity : index.HasAffinity anchor anchorSlot)
    (anchorInside : anchorSlot < (fromQuery queryPart).slots.length) :
    (∀ hash solution,
      (solve (fromQuery queryPart) index order anchor anchorSlot).lookup hash = some solution →
        BindsIndexed (fromQuery queryPart) index solution ∧
        ∀ assignment : Nat → Element, (∀ slot < (fromQuery queryPart).slots.length,
          solution.solvedSlots slot = some (some (assignment slot))) →
          Spans (fromQuery queryPart) anchorSlot assignment) ∧
      (Acyclic (fromQuery queryPart) → CyclesClose (fromQuery queryPart) index anchor anchorSlot) ∧
      (CyclesClose (fromQuery queryPart) index anchor anchorSlot →
        ((∀ hash solution (assignment : Nat → Element),
            (solve (fromQuery queryPart) index order anchor anchorSlot).lookup hash = some solution →
            (∀ slot < (fromQuery queryPart).slots.length,
              solution.solvedSlots slot = some (some (assignment slot))) →
            ∀ step ∈ Pattern.steps 0 queryPart.matchClauses,
              step.Holds (onVariables queryPart.matchClauses assignment)) ↔
          (Connected (fromQuery queryPart) → ∀ assignment : Nat → Element, assignment anchorSlot = anchor →
            (∀ slot < (fromQuery queryPart).slots.length, index.HasAffinity (assignment slot) slot) →
            SatisfiesEndpoints (fromQuery queryPart) assignment →
              KeepsEnds queryPart.matchClauses (onVariables queryPart.matchClauses assignment)))) := by
  have closed := fromQuery_closed queryPart
  have required := fromQuery_required mandatory
  have mirrored := fromQuery_mirrored queryPart
  refine ⟨fun hash solution found => ?_, fun acyclic assignment _ _ spans => ?_, fun closes =>
    ⟨fun sound connected assignment anchored affinity endpoints => ?_,
    fun kept hash solution assignment found values => ?_⟩⟩
  · have yields := yields_of_solve closed anchorInside found
    exact ⟨(yields_bindsIndexed closed required consistent anchorAffinity anchorInside yields).2.2,
      fun assignment values => yields_spans closed required consistent anchorInside yields values⟩
  · exact spans.satisfiesEndpoints closed mirrored acyclic
  · subst anchored
    obtain ⟨solution, found, values⟩ := lookup_solve closed required connected consistent anchorInside affinity endpoints
    exact (steps_hold_iff endpoints).mp (sound _ solution assignment found values)
  · have yields := yields_of_solve closed anchorInside found
    obtain ⟨-, -, binds⟩ := yields_bindsIndexed closed required consistent anchorAffinity anchorInside yields
    have spans := yields_spans closed required consistent anchorInside yields values
    have anchored : assignment anchorSlot = anchor := by
      have value := (values anchorSlot anchorInside).symm.trans (yields_anchor closed anchorInside yields)
      exact some.inj (some.inj value)
    have affinity : ∀ slot < (fromQuery queryPart).slots.length, index.HasAffinity (assignment slot) slot := by
      intro slot inside
      obtain ⟨element, value, affinity⟩ := binds slot inside
      cases (values slot inside).symm.trans value
      exact affinity
    have endpoints := closes assignment anchored affinity spans
    exact (steps_hold_iff endpoints).mpr (kept (spans.connected mirrored) assignment anchored affinity endpoints)

/-! `MATCH (a:A)-[r:R]->(b:B)-[s:S]->(a)`, whose slot graph is a cycle. -/

def cyclePart : QueryPart :=
  ⟨[⟨⟨some "a", ["A"], []⟩, [(⟨.right, some "r", ["R"], []⟩, ⟨some "b", ["B"], []⟩),
    (⟨.right, some "s", ["S"], []⟩, ⟨some "a", [], []⟩)], false⟩], [], .item []⟩

/-- Nodes `x` and `y`, a relation `e` from `x` to `y` and a relation `f` from `y` to the given node. -/
def cycleIndex (last : String) : InMemoryElementIndex :=
  (((InMemoryElementIndex.empty.setElement (sampleNode "x") [0]).setElement (sampleNode "y") [2]).setElement
    (sampleRelation "e" "x" "y") [1]).setElement (sampleRelation "f" "y" last) [3]

theorem cycleIndex_consistent (last : String) : (cycleIndex last).Consistent :=
  setElement_consistent (setElement_consistent (setElement_consistent (setElement_consistent empty_consistent _ _) _ _)
    _ _) _ _

def cycleAssignment (last : String) : Nat → Element
  | 0 => sampleNode "x"
  | 1 => sampleRelation "e" "x" "y"
  | 2 => sampleNode "y"
  | _ => sampleRelation "f" "y" last

/-- The index has one element for every slot. -/
theorem cycleIndex_only {last : String} {assignment : Nat → Element}
    (affinity : ∀ slot < 4, (cycleIndex last).HasAffinity (assignment slot) slot) :
    ∀ slot < 4, assignment slot = cycleAssignment last slot := by
  have known : ∀ element slot, (cycleIndex last).HasAffinity element slot → element = sampleNode "x" ∧ slot = 0 ∨
      element = sampleNode "y" ∧ slot = 2 ∨ element = sampleRelation "e" "x" "y" ∧ slot = 1 ∨
      element = sampleRelation "f" "y" last ∧ slot = 3 := by
    intro element slot has
    unfold cycleIndex at has
    rw [setElement_hasAffinity (setElement_consistent (setElement_consistent (setElement_consistent empty_consistent _ _)
        _ _) _ _), setElement_hasAffinity (setElement_consistent (setElement_consistent empty_consistent _ _) _ _),
      setElement_hasAffinity (setElement_consistent empty_consistent _ _), setElement_hasAffinity empty_consistent] at has
    simp only [mem_singleton, InMemoryElementIndex.HasAffinity, InMemoryElementIndex.empty] at has
    grind
  intro slot inside
  have here := known _ slot (affinity slot inside)
  match slot with
  | 0 => simpa [cycleAssignment] using here
  | 1 => simpa [cycleAssignment] using here
  | 2 => simpa [cycleAssignment] using here
  | 3 => simpa [cycleAssignment] using here

theorem cycle_satisfiesEndpoints {assignment : Nat → Element}
    (same : ∀ slot < 4, assignment slot = cycleAssignment "x" slot) :
    SatisfiesEndpoints (fromQuery cyclePart) assignment := by
  have compiled : (fromQuery cyclePart).slots =
      [⟨⟨some "a", ["A"], []⟩, [3], [1], [0], false⟩, ⟨⟨some "r", ["R"], []⟩, [0], [2], [0], false⟩,
        ⟨⟨some "b", ["B"], []⟩, [1], [3], [0], false⟩, ⟨⟨some "s", ["S"], []⟩, [2], [0], [0], false⟩] := rfl
  have linked : ∀ slot < 4, ∀ other < 4, ∀ direction,
      Linked direction (cycleAssignment "x" slot) (cycleAssignment "x" other) →
      Linked direction (assignment slot) (assignment other) :=
    fun slot inside other otherInside direction link => same slot inside ▸ same other otherInside ▸ link
  intro slot other adjacent
  obtain ⟨direction, neighbour⟩ := id adjacent
  refine ⟨direction, neighbour, ?_⟩
  obtain ⟨found, present, listed⟩ := neighbour
  rw [compiled] at present
  match slot with
  | 0 => cases present; cases direction <;> (cases mem_singleton.mp listed; exact linked _ (by decide) _ (by decide) _ rfl)
  | 1 => cases present; cases direction <;> (cases mem_singleton.mp listed; exact linked _ (by decide) _ (by decide) _ rfl)
  | 2 => cases present; cases direction <;> (cases mem_singleton.mp listed; exact linked _ (by decide) _ (by decide) _ rfl)
  | 3 => cases present; cases direction <;> (cases mem_singleton.mp listed; exact linked _ (by decide) _ (by decide) _ rfl)
  | slot + 4 => cases present

/-- A cycle of the data: the pattern is found, with the ends that are written. -/
theorem solve_sound_cycle :
    ((solve (fromQuery cyclePart) (cycleIndex "x") .stored (sampleNode "x") 0).lookup
      (assignmentSignature (fromQuery cyclePart) (cycleAssignment "x"))).isSome ∧
    ∀ hash solution (assignment : Nat → Element),
      (solve (fromQuery cyclePart) (cycleIndex "x") .stored (sampleNode "x") 0).lookup hash = some solution →
      (∀ slot < 4, solution.solvedSlots slot = some (some (assignment slot))) →
      ∀ step ∈ Pattern.steps 0 cyclePart.matchClauses,
        step.Holds (onVariables cyclePart.matchClauses assignment) := by
  have sound := (solve_sound cyclePart (cycleIndex "x") .stored (sampleNode "x") 0 (by simp [cyclePart])
    (cycleIndex_consistent "x") ⟨rfl, by decide⟩ (by decide)).2.2
      fun assignment _ affinity _ => cycle_satisfiesEndpoints (cycleIndex_only affinity)
  refine ⟨by decide, sound.mpr ?_⟩
  intro _ assignment _ affinity _
  have same := cycleIndex_only affinity
  have steps : ∀ step ∈ Pattern.steps 0 cyclePart.matchClauses, step = ⟨.right, .named "a", .named "r", .named "b"⟩ ∨
      step = ⟨.right, .named "b", .named "s", .named "a"⟩ := by decide
  have oneWay : ∀ step ∈ Pattern.steps 0 cyclePart.matchClauses, ∀ pair ∈ step.outward,
      ∀ other ∈ Pattern.steps 0 cyclePart.matchClauses, (pair.2, pair.1) ∉ other.outward := by decide
  refine ⟨fun step member => ?_, fun step member either => ?_, fun step member _ source target pair back => ?_⟩
  · rcases steps step member with rfl | rfl
    · show (assignment 1).IsRelation
      exact same 1 (by decide) ▸ trivial
    · show (assignment 3).IsRelation
      exact same 3 (by decide) ▸ trivial
  · rcases steps step member with rfl | rfl <;> cases either
  · obtain ⟨other, listed, reverse⟩ := back
    exact absurd reverse (oneWay step member (source, target) pair other listed)

/-- The second relation ends in a node `z`, not in `x`. The solver reaches its slot from `b`, finds the slot of `a`
solved and does not compare: the open path is returned as a cycle. -/
theorem solve_unsound_on_cycle :
    (cycleIndex "z").Consistent ∧ (cycleIndex "z").HasAffinity (sampleNode "x") 0 ∧
      ∃ hash solution, (solve (fromQuery cyclePart) (cycleIndex "z") .stored (sampleNode "x") 0).lookup hash =
          some solution ∧
        ∀ assignment : Nat → Element, (∀ slot < 4, solution.solvedSlots slot = some (some (assignment slot))) →
          ¬ ∀ step ∈ Pattern.steps 0 cyclePart.matchClauses,
            step.Holds (onVariables cyclePart.matchClauses assignment) := by
  refine ⟨cycleIndex_consistent "z", ⟨rfl, by decide⟩,
    assignmentSignature (fromQuery cyclePart) (cycleAssignment "z"), ?_⟩
  have present : ((solve (fromQuery cyclePart) (cycleIndex "z") .stored (sampleNode "x") 0).lookup
      (assignmentSignature (fromQuery cyclePart) (cycleAssignment "z"))).map (fun solution =>
        (solution.solvedSlots 0, solution.solvedSlots 3)) =
          some (some (some (sampleNode "x")), some (some (sampleRelation "f" "y" "z"))) := by
    decide
  obtain ⟨solution, found, values⟩ := map_eq_some_iff.mp present
  refine ⟨solution, found, fun assignment bound holds => ?_⟩
  have node : assignment 0 = sampleNode "x" := by
    have value := (bound 0 (by decide)).symm.trans (congrArg Prod.fst values)
    exact some.inj (some.inj value)
  have relation : assignment 3 = sampleRelation "f" "y" "z" := by
    have value := (bound 3 (by decide)).symm.trans (congrArg Prod.snd values)
    exact some.inj (some.inj value)
  have held := holds ⟨.right, .named "b", .named "s", .named "a"⟩ (by decide)
  have ends : Connects (assignment 3) (assignment 2) (assignment 0) := held
  rw [node, relation] at ends
  cases element : assignment 2 with
  | node metadata properties =>
    rw [element] at ends
    exact absurd ends.2 (by decide)
  | relation metadata inNode outNode properties =>
    rw [element] at ends
    exact ends

end DrasiCore.Proofs
