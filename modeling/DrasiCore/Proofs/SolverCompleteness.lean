import DrasiCore.Proofs.ElementIndexUpdates
import DrasiCore.Proofs.SolverProgram

/-! Every assignment of indexed elements to the slots of a connected pattern that has the anchor in its slot is found
by the solver. One branch of the search follows the assignment. -/

namespace DrasiCore.Proofs

open Library Solution MatchPathSolution List

variable {solution : MatchPathSolution} {index : InMemoryElementIndex} {direction : SolveDirection}

theorem mem_getAdjacentElements_iff (consistent : index.Consistent) {order element found slot} :
    found ∈ getAdjacentElements index order element slot direction ↔
      index.HasAffinity found slot ∧ Linked direction element found := by
  cases element with
  | node metadata properties =>
    cases direction with
    | outward =>
      rw [getAdjacentElements, mem_inbound consistent]
      cases found <;> rfl
    | inward =>
      rw [getAdjacentElements, mem_outbound consistent]
      cases found <;> rfl
  | relation metadata inNode outNode properties =>
    cases direction <;>
      simp only [getAdjacentElements, Option.mem_toList, getSlotElementByRef_eq_some consistent] <;>
      refine and_congr_right fun _ => ?_ <;> cases found <;> simp [Linked, OutwardLink]
    all_goals exact eq_comm

theorem offers_iff {path} (required : Required path) (consistent : index.Consistent) {element slot candidate} :
    Offers path index (some element) slot direction candidate ↔
      ∃ found, candidate = some found ∧ index.HasAffinity found slot ∧ Linked direction element found := by
  have mandatory : (path.slots[slot]?).any (·.optional) = false := by
    cases found : path.slots[slot]? with
    | none => rfl
    | some present => exact required present (mem_of_getElem? found)
  simp [Offers, slotCandidates, mandatory, mem_getAdjacentElements_iff consistent, and_comm, eq_comm]

/-- The solution follows the assignment: its values are those of the assignment, and all neighbours of its solved slots
are queued. -/
structure Follows (path : MatchPath) (anchorSlot : Nat) (assignment : Nat → Element) (solution : MatchPathSolution) :
    Prop where
  wellFormed : WellFormed path solution
  values : Holds (fun slot value => value = some (assignment slot)) solution
  anchored : solution.queuedSlots anchorSlot = true
  reached : ∀ slot other, solution.isSlotSolved slot = true → Adjacent path slot other →
    solution.queuedSlots other = true

theorem solvedCount_eq_iff {path : MatchPath} (total : solution.totalSlots = path.slots.length) :
    solution.solvedCount = path.slots.length ↔ ∀ slot < path.slots.length, solution.isSlotSolved slot = true := by
  unfold solvedCount
  rw [total]
  have whole := countP_eq_length (p := solution.isSlotSolved) (l := range path.slots.length)
  rw [length_range] at whole
  simpa using whole

variable {path : MatchPath} {order : IterationOrder} {anchorSlot : Nat}
  {assignment : Nat → Element}

theorem Follows.slotCursors_ne_nil (connected : Connected path) (anchorInside : anchorSlot < path.slots.length)
    (follows : Follows path anchorSlot assignment solution) : solution.slotCursors ≠ [] := by
  intro drained
  have solved : ∀ slot, solution.queuedSlots slot = true → solution.isSlotSolved slot = true := by
    intro slot queued
    refine (follows.wellFormed.waiting slot queued).resolve_right ?_
    simp [drained]
  have all : ∀ slot < path.slots.length, solution.isSlotSolved slot = true := by
    intro slot inside
    have way := connected anchorSlot slot anchorInside inside
    clear inside
    induction way with
    | refl => exact solved _ follows.anchored
    | tail _ step ih => exact solved _ (follows.reached _ _ ih step)
  have incomplete := follows.wellFormed.incomplete
  have complete := (solvedCount_eq_iff follows.wellFormed.total).mpr all
  omega

theorem Follows.extend (closed : Closed path)
    (follows : Follows path anchorSlot assignment solution) {slotNum value cursors}
    (first : solution.slotCursors = (slotNum, value) :: cursors)
    (incomplete : solution.solvedCount + 1 ≠ path.slots.length) {extended items}
    (extension : Extends path index slotNum value (solveFirst solution slotNum value cursors) extended items)
    (fits : ∀ item ∈ items, item.2 = some (assignment item.1))
    (covers : ∀ slot direction, Neighbour path slotNum slot direction →
      (solveFirst solution slotNum value cursors).isSlotSolved slot = false → slot ∈ items.map (·.1)) :
    Follows path anchorSlot assignment extended := by
  obtain ⟨rfl, offered⟩ := extension
  have marked := follows.wellFormed.solveFirst first incomplete
  refine ⟨marked.enqueueAll fun item member => ?_, (follows.values.solveFirst first).enqueueAll fits, ?_, ?_⟩
  · obtain ⟨direction, neighbour, -⟩ := offered item member
    exact closed _ _ _ neighbour
  · exact (enqueueAll_queuedSlots _ _ _).mpr (.inl (by simpa using follows.anchored))
  · intro slot other solved adjacent
    have before : (solveFirst solution slotNum value cursors).isSlotSolved slot = true := by
      simpa [isSlotSolved, enqueueAll_solvedSlots] using solved
    rw [enqueueAll_queuedSlots]
    rcases (solveFirst_isSlotSolved slot).mp before with rfl | old
    · obtain ⟨direction, neighbour⟩ := adjacent
      cases done : (solveFirst solution slot value cursors).isSlotSolved other with
      | true => exact .inl (marked.solvedQueued other done)
      | false => exact .inr (covers other direction neighbour done)
    · exact .inl (by simpa using follows.reached slot other old adjacent)

/-- The worker of a solution that follows an assignment completes it or sends a partial solution that follows it. -/
theorem tryCompleteSolution_follows (order : IterationOrder) (closed : Closed path) (required : Required path)
    (connected : Connected path) (consistent : index.Consistent) (anchorInside : anchorSlot < path.slots.length)
    (affinity : ∀ slot < path.slots.length, index.HasAffinity (assignment slot) slot)
    (endpoints : SatisfiesEndpoints path assignment) {fuel} (follows : Follows path anchorSlot assignment solution)
    (enough : path.slots.length < fuel + solution.solvedCount) :
    (∃ hash sent, .complete hash sent ∈ tryCompleteSolution path index order fuel solution ∧
        ∀ slot < path.slots.length, sent.solvedSlots slot = some (some (assignment slot))) ∨
      ∃ sent, .partialSolution sent ∈ tryCompleteSolution path index order fuel solution ∧
        Follows path anchorSlot assignment sent := by
  induction fuel generalizing solution with
  | zero =>
    have := follows.wellFormed.incomplete
    omega
  | succ fuel ih =>
    cases first : solution.slotCursors with
    | nil => exact absurd first (follows.slotCursors_ne_nil connected anchorInside)
    | cons cursor cursors =>
      obtain ⟨slotNum, value⟩ := cursor
      have count := solveFirst_solvedCount follows.wellFormed first
      by_cases full : solution.solvedCount + 1 = path.slots.length
      · rw [tryCompleteSolution_complete follows.wellFormed first full]
        refine .inl ⟨_, _, mem_singleton_self _, fun slot inside => ?_⟩
        have total : (solveFirst solution slotNum value cursors).totalSlots = path.slots.length := by
          simpa using follows.wellFormed.total
        have solved := (solvedCount_eq_iff total).mp (count.trans full) slot inside
        obtain ⟨bound, found⟩ := Option.isSome_iff_exists.mp solved
        rw [found, (follows.values.solveFirst first).solved slot bound found]
      · have here : value = some (assignment slotNum) :=
          follows.values.queued (slotNum, value) (first ▸ mem_cons_self)
        obtain ⟨extended, items, chosen, extension, fits, covers⟩ := extends_covers
          (turnEntries_perm path index order solution slotNum value cursors)
          (fun slot => some (assignment slot)) fun slot direction neighbour _ => by
            obtain ⟨reached, next, link⟩ := endpoints slotNum slot ⟨direction, neighbour⟩
            refine ⟨reached, next, here ▸ (offers_iff required consistent).mpr ⟨_, rfl, ?_, link⟩⟩
            exact affinity slot (closed _ _ _ neighbour)
        have next := follows.extend closed first full extension fits covers
        rw [tryCompleteSolution_turn index order fuel follows.wellFormed first full]
        rcases chosen with rfl | branch
        · have enough' : path.slots.length < fuel +
              (enqueueSingles (turnEntries path index order solution slotNum value cursors)
                (solveFirst solution slotNum value cursors)).solvedCount := by
            rw [extension.solvedCount_eq follows.wellFormed first]
            omega
          rcases ih next enough' with ⟨hash, sent, member, values⟩ | ⟨sent, member, later⟩
          · exact .inl ⟨hash, sent, mem_append_right _ member, values⟩
          · exact .inr ⟨sent, mem_append_right _ member, later⟩
        · exact .inr ⟨extended, mem_append_left _ (mem_map.mpr ⟨extended, branch, rfl⟩), next⟩

/-- The pool yields a complete solution with the values of the assignment. -/
theorem yields_of_follows (order : IterationOrder) (closed : Closed path) (required : Required path)
    (connected : Connected path) (consistent : index.Consistent) (anchorInside : anchorSlot < path.slots.length)
    (affinity : ∀ slot < path.slots.length, index.HasAffinity (assignment slot) slot)
    (endpoints : SatisfiesEndpoints path assignment) (task : SolverTask)
    (follows : Follows path anchorSlot assignment task.2) :
    ∃ hash sent, WorkPool.Yields (solverProgram path index order closed) task (hash, sent) ∧
      ∀ slot < path.slots.length, sent.solvedSlots slot = some (some (assignment slot)) := by
  induction count : path.slots.length - task.2.solvedCount using Nat.strong_induction_on generalizing task with
  | _ left ih =>
    rcases tryCompleteSolution_follows (order.within task.1) closed required connected consistent anchorInside
      affinity endpoints follows (by omega : path.slots.length < path.slots.length + 1 + task.2.solvedCount) with
      ⟨hash, sent, member, values⟩ | ⟨sent, member, later⟩
    · exact ⟨hash, sent, .here (done_mem_solverRun.mpr member), values⟩
    · obtain ⟨place, spawned⟩ := exists_spawn_mem_solverRun member
      have falls := (solverProgram path index order closed).rank_spawn follows.wellFormed spawned
      obtain ⟨hash, found, yields, values⟩ := ih _ (lt_of_lt_of_eq falls count) (place, sent) later rfl
      exact ⟨hash, found, .child spawned yields, values⟩

theorem startSolution_wellFormed {anchor} (anchorInside : anchorSlot < path.slots.length) :
    WellFormed path (startSolution path anchor anchorSlot) := by
  have fresh : WellFormed path (new path.slots.length anchorSlot) := by
    refine ⟨rfl, nofun, nofun, nofun, nofun, nodup_nil, nofun, rfl, ?_⟩
    have none : (new path.slots.length anchorSlot).solvedCount = 0 := by
      simp [solvedCount, countP_eq_zero, new,
        isSlotSolved]
    omega
  exact fresh.enqueueSlot anchorInside _

theorem startSolution_holds {property : Nat → Option Element → Prop} {anchor} (fits : property anchorSlot (some anchor)) :
    Holds property (startSolution path anchor anchorSlot) := by
  have fresh : Holds property (new path.slots.length anchorSlot) := ⟨nofun, nofun⟩
  exact fresh.enqueueSlot fits

theorem startSolution_follows (anchorInside : anchorSlot < path.slots.length) :
    Follows path anchorSlot assignment (startSolution path (assignment anchorSlot) anchorSlot) where
  wellFormed := startSolution_wellFormed anchorInside
  values := startSolution_holds rfl
  anchored := (enqueueSlot_queuedSlots _ _ _ _).mpr (.inr rfl)
  reached slot other solved := by
    rw [startSolution, enqueueSlot_isSlotSolved] at solved
    cases solved

end DrasiCore.Proofs
