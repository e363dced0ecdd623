import DrasiCore.Proofs.SolverCompleteness
import DrasiCore.Proofs.PatternFaithful

/-! What `solve` returns: the complete solutions its workers yield, one for each signature. All of them bind every slot
to an indexed element with affinity for it, so a signature determines its solution. -/

namespace DrasiCore.Proofs

open Library Solution MatchPath List MatchPathSolution

variable {path : MatchPath} {index : InMemoryElementIndex} {order : IterationOrder} {anchorSlot : Nat}
  {anchor : Element}
variable {result : Signature × MatchPathSolution} {solution : MatchPathSolution}

theorem KeptByTurns.yielded {incomplete complete} (kept : KeptByTurns path index incomplete complete) {closed} {task}
    (yields : WorkPool.Yields (solverProgram path index order closed) task result)
    (wellFormed : WellFormed path task.2) (holds : incomplete task.2) :
    result.1 = .solution result.2.slotReferences ∧ result.2.solvedCount = path.slots.length ∧ complete result.2 := by
  induction yields with
  | here member =>
    exact (kept.sent closed wellFormed holds).2 _ _ (done_mem_solverRun.mp member)
  | child member _ ih =>
    obtain ⟨childWellFormed, -, childHolds⟩ := (kept.sent closed wellFormed holds).1 _ (spawn_mem_solverRun member)
    exact ih childWellFormed childHolds

theorem startSolution_solvedCount : (startSolution path anchor anchorSlot).solvedCount = 0 := by
  simp [startSolution, solvedCount, countP_eq_zero, new,
    isSlotSolved]

theorem createSolutionStream_spec (index : InMemoryElementIndex) (order : IterationOrder) (anchor : Element)
    (closed : Closed path) (anchorInside : anchorSlot < path.slots.length) :
    let loop := (WorkPool.LoopState.start ([], startSolution path anchor anchorSlot)).rounds
      (solverRun path index order) (path.slots.length + 2)
    loop.stopped = true ∧ loop.queue = [] ∧
      ∀ result, result ∈ createSolutionStream path index order (startSolution path anchor anchorSlot) ↔
        WorkPool.Yields (solverProgram path index order closed) ([], startSolution path anchor anchorSlot) result := by
  have rank : (solverProgram path index order closed).rank ([], startSolution path anchor anchorSlot) =
      path.slots.length := by
    show path.slots.length - (startSolution path anchor anchorSlot).solvedCount = _
    rw [startSolution_solvedCount, Nat.sub_zero]
  have spec := WorkPool.LoopState.rounds_start (solverProgram path index order closed)
    ([], startSolution path anchor anchorSlot) (startSolution_wellFormed anchorInside)
  rw [rank] at spec
  exact spec

/-- Every slot is bound to an indexed element with affinity for it. -/
def BindsIndexed (path : MatchPath) (index : InMemoryElementIndex) (solution : MatchPathSolution) : Prop :=
  ∀ slot < path.slots.length, ∃ element, solution.solvedSlots slot = some (some element) ∧
    index.HasAffinity element slot

variable (closed : Closed path)

theorem yields_bindsIndexed (required : Required path) (consistent : index.Consistent)
    (anchorAffinity : index.HasAffinity anchor anchorSlot) (anchorInside : anchorSlot < path.slots.length)
    (yields : WorkPool.Yields (solverProgram path index order closed) ([], startSolution path anchor anchorSlot) result) :
    result.1 = .solution result.2.slotReferences ∧ result.2.totalSlots = path.slots.length ∧
      BindsIndexed path index result.2 := by
  let indexed := fun (slot : Nat) (value : Option Element) => ∃ element, value = some element ∧
    index.HasAffinity element slot
  have spec := (⟨?_, ?_⟩ : KeptByTurns path index (Holds indexed)
    fun solution => solution.totalSlots = path.slots.length ∧ Holds indexed solution).yielded yields
    (startSolution_wellFormed anchorInside) (startSolution_holds ⟨anchor, rfl, anchorAffinity⟩)
  · obtain ⟨hash, full, total, holds⟩ := spec
    refine ⟨hash, total, fun slot inside => ?_⟩
    have solved := (solvedCount_eq_iff total).mp full slot inside
    obtain ⟨value, found⟩ := Option.isSome_iff_exists.mp solved
    obtain ⟨element, rfl, affinity⟩ := holds.solved slot value found
    exact ⟨element, found, affinity⟩
  · rintro solution slotNum value cursors wellFormed holds first incomplete extended items ⟨rfl, offered⟩
    refine (holds.solveFirst first).enqueueAll fun item member => ?_
    obtain ⟨element, rfl, -⟩ := holds.queued (slotNum, value) (first ▸ mem_cons_self)
    obtain ⟨direction, -, -, offer⟩ := offered item member
    obtain ⟨found, same, affinity, -⟩ := (offers_iff required consistent).mp offer
    exact ⟨found, same, affinity⟩
  · intro solution slotNum value cursors wellFormed holds first complete
    exact ⟨by simpa using wellFormed.total, holds.solveFirst first⟩

/-- The signature of a solution that binds the slots to the elements of an assignment. -/
def assignmentSignature (path : MatchPath) (assignment : Nat → Element) : Signature :=
  .solution ((range path.slots.length).map fun slot => (slot, some (assignment slot).getReference))

theorem slotReferences_eq {assignment} (total : solution.totalSlots = path.slots.length)
    (values : ∀ slot < path.slots.length, solution.solvedSlots slot = some (some (assignment slot))) :
    .solution solution.slotReferences = assignmentSignature path assignment := by
  unfold assignmentSignature slotReferences
  rw [total]
  congr 1
  refine map_congr_left fun slot member => ?_
  rw [values slot (mem_range.mp member)]
  rfl

/-- Solutions over one index with the same signature bind the same elements. -/
theorem solvedSlots_eq_of_signature {other} (total : solution.totalSlots = path.slots.length)
    (otherTotal : other.totalSlots = path.slots.length) (binds : BindsIndexed path index solution)
    (otherBinds : BindsIndexed path index other) (same : solution.slotReferences = other.slotReferences) :
    ∀ slot < path.slots.length, solution.solvedSlots slot = other.solvedSlots slot := by
  intro slot inside
  obtain ⟨element, found, affinity⟩ := binds slot inside
  obtain ⟨element', found', affinity'⟩ := otherBinds slot inside
  unfold slotReferences at same
  rw [total, otherTotal] at same
  have entry := map_inj_left.mp same slot (mem_range.mpr inside)
  rw [found, found'] at entry
  have references : element.getReference = element'.getReference := by simpa using entry
  have elements : some element = some element' := by rw [← affinity.1, ← affinity'.1, references]
  rw [found, found', elements]

/-! ### The map of results -/

theorem lookup_foldl_insert (results : List (Signature × MatchPathSolution))
    (start : AList fun _ : Signature => MatchPathSolution) (hash : Signature) :
    (∀ found, (results.foldl (fun map entry => map.insert entry.1 entry.2) start).lookup hash = some found →
        (hash, found) ∈ results ∨ start.lookup hash = some found) ∧
      ((start.lookup hash).isSome ∨ hash ∈ results.map (·.1) →
        ((results.foldl (fun map entry => map.insert entry.1 entry.2) start).lookup hash).isSome) := by
  induction results generalizing start with
  | nil => simp
  | cons entry results ih =>
    obtain ⟨only, covers⟩ := ih (start.insert entry.1 entry.2)
    rw [foldl_cons]
    refine ⟨fun found same => ?_, fun present => covers ?_⟩
    · rcases only found same with later | inserted
      · exact .inl (mem_cons_of_mem _ later)
      · by_cases here : hash = entry.1
        · subst here
          rw [AList.lookup_insert] at inserted
          cases inserted
          exact .inl mem_cons_self
        · rw [AList.lookup_insert_ne here] at inserted
          exact .inr inserted
    · by_cases here : hash = entry.1
      · subst here
        exact .inl (by rw [AList.lookup_insert]; rfl)
      · rw [AList.lookup_insert_ne here]
        rcases present with before | listed
        · exact .inl before
        · rw [map_cons, mem_cons] at listed
          exact .inr (listed.resolve_left here)

theorem yields_of_solve (anchorInside : anchorSlot < path.slots.length) {hash}
    (found : (solve path index order anchor anchorSlot).lookup hash = some solution) :
    WorkPool.Yields (solverProgram path index order closed) ([], startSolution path anchor anchorSlot)
      (hash, solution) := by
  rcases (lookup_foldl_insert _ ∅ hash).1 solution found with listed | none
  · exact ((createSolutionStream_spec index order anchor closed anchorInside).2.2 _).mp listed
  · cases none

theorem solve_of_yields (anchorInside : anchorSlot < path.slots.length)
    (yields : WorkPool.Yields (solverProgram path index order closed) ([], startSolution path anchor anchorSlot) result) :
    ∃ solution, (solve path index order anchor anchorSlot).lookup result.1 = some solution := by
  have listed := ((createSolutionStream_spec index order anchor closed anchorInside).2.2 _).mpr yields
  exact Option.isSome_iff_exists.mp ((lookup_foldl_insert _ ∅ result.1).2 (.inr (mem_map.mpr ⟨_, listed, rfl⟩)))

/-- The solver returns every assignment with the anchor in its slot, under the assignment's signature. -/
theorem lookup_solve (closed : Closed path) (required : Required path) (connected : Connected path)
    (consistent : index.Consistent) {assignment} (anchorInside : anchorSlot < path.slots.length)
    (affinity : ∀ slot < path.slots.length, index.HasAffinity (assignment slot) slot)
    (endpoints : SatisfiesEndpoints path assignment) :
    ∃ solution, (solve path index order (assignment anchorSlot) anchorSlot).lookup
        (assignmentSignature path assignment) = some solution ∧
      ∀ slot < path.slots.length, solution.solvedSlots slot = some (some (assignment slot)) := by
  obtain ⟨hash, sent, yields, values⟩ := yields_of_follows order closed required connected consistent
    anchorInside affinity endpoints ([], _) (startSolution_follows anchorInside)
  have anchorAffinity := affinity anchorSlot anchorInside
  obtain ⟨signed, total, binds⟩ := yields_bindsIndexed closed required consistent anchorAffinity anchorInside yields
  obtain ⟨solution, found⟩ := solve_of_yields closed anchorInside yields
  obtain ⟨signed', total', binds'⟩ := yields_bindsIndexed closed required consistent anchorAffinity anchorInside
    (yields_of_solve closed anchorInside found)
  have same : solution.slotReferences = sent.slotReferences := by
    have := signed.symm.trans signed'
    exact (Signature.solution.inj this).symm
  have signature : hash = assignmentSignature path assignment := signed.trans (slotReferences_eq total values)
  refine ⟨solution, signature ▸ found, fun slot inside => ?_⟩
  rw [solvedSlots_eq_of_signature total' total binds' binds same slot inside, values slot inside]

/-- The workers of the solver when they run on their own, started from the anchor. -/
def SolverReachable (path : MatchPath) (index : InMemoryElementIndex) (order : IterationOrder) (closed : Closed path)
    (anchor : Element) (anchorSlot : Nat) : WorkPool.Pool SolverTask (Signature × MatchPathSolution) → Prop :=
  WorkPool.Pool.Reachable (solverProgram path index order closed) ([], startSolution path anchor anchorSlot)

/-- The solver terminates and is complete. The command loop and every worker come to an end by themselves. Every
assignment of indexed elements that has the anchor in its slot and satisfies affinity and relation endpoints is returned.
When the workers run on their own, no schedule goes on for ever or gets stuck before the counter is back at zero, and
then all messages of all workers have been received, each worker's last one being its only terminal command, and the
results are those of the sequential loop. -/
theorem solve_complete (path : MatchPath) (index : InMemoryElementIndex) (order : IterationOrder) (anchor : Element)
    (anchorSlot : Nat) (closed : Closed path) (required : Required path) (connected : Connected path)
    (consistent : index.Consistent) (anchorInside : anchorSlot < path.slots.length) :
    ((WorkPool.LoopState.start ([], startSolution path anchor anchorSlot)).rounds (solverRun path index order)
        (path.slots.length + 2)).stopped = true ∧
      (∀ solution, WellFormed path solution → ∀ fuel > path.slots.length,
        tryCompleteSolution path index order fuel solution =
          tryCompleteSolution path index order (path.slots.length + 1) solution) ∧
      (∀ assignment : Nat → Element, assignment anchorSlot = anchor →
        (∀ slot < path.slots.length, index.HasAffinity (assignment slot) slot) → SatisfiesEndpoints path assignment →
          ∃ solution, (solve path index order anchor anchorSlot).lookup (assignmentSignature path assignment) =
              some solution ∧
            ∀ slot < path.slots.length, solution.solvedSlots slot = some (some (assignment slot))) ∧
      (∀ schedule : Nat → WorkPool.Pool SolverTask (Signature × MatchPathSolution),
        schedule 0 = .start ([], startSolution path anchor anchorSlot) →
          ¬ ∀ time, WorkPool.Pool.Step (solverProgram path index order closed) (schedule time) (schedule (time + 1))) ∧
      ∀ pool, SolverReachable path index order closed anchor anchorSlot pool →
        (pool.boot ≠ none ∨ pool.inflight ≠ 0 →
          ∃ next, WorkPool.Pool.Step (solverProgram path index order closed) pool next) ∧
        (pool.boot = none → pool.inflight = 0 →
          (∀ worker ∈ pool.workers, worker.sent = [] ∧ worker.unsent = [] ∧
            ∃ (tasks : List SolverTask) (result : Option (Signature × MatchPathSolution)),
              worker.received = tasks.map .spawn ++ [.done result]) ∧
          ∀ result, result ∈ pool.outputs ↔
            result ∈ createSolutionStream path index order (startSolution path anchor anchorSlot)) := by
  have valid : (solverProgram path index order closed).Valid ([], startSolution path anchor anchorSlot) :=
    startSolution_wellFormed anchorInside
  have stream := createSolutionStream_spec index order anchor closed anchorInside
  refine ⟨stream.1, ?_, ?_, fun schedule starts => WorkPool.Pool.no_infinite_schedule valid schedule starts, ?_⟩
  · intro solution wellFormed fuel more
    exact tryCompleteSolution_fuel closed wellFormed (by omega) (by omega)
  · rintro assignment rfl affinity endpoints
    exact lookup_solve closed required connected consistent anchorInside affinity endpoints
  · intro pool reachable
    have pooled := WorkPool.Pool.Consistent.reachable valid reachable
    refine ⟨pooled.progress, fun booted finished => ?_⟩
    obtain ⟨received, outputs⟩ := WorkPool.Pool.finished valid reachable booted finished
    refine ⟨fun worker member => ?_, fun result => (outputs result).trans (stream.2.2 result).symm⟩
    have drained := pooled.inflight_eq_zero booted finished member
    obtain ⟨sent, unsent⟩ := append_eq_nil_iff.mp drained
    obtain ⟨tasks, result, shape⟩ := solverRun_shape path index order worker.task
    exact ⟨sent, unsent, tasks, result, (received worker member).trans shape⟩

/-! `MATCH (a)-[r]->(b)` over two nodes and a relation between them. -/

def samplePart : QueryPart :=
  ⟨[⟨⟨some "a", [], []⟩, [(⟨.right, some "r", [], []⟩, ⟨some "b", [], []⟩)], false⟩], [], .item []⟩

def sampleNode (id : String) : Element := .node ⟨⟨"source", id⟩, [], 0⟩ .empty

def sampleRelation (id inNode outNode : String) : Element :=
  .relation ⟨⟨"source", id⟩, [], 0⟩ ⟨"source", inNode⟩ ⟨"source", outNode⟩ .empty

def sampleIndex : InMemoryElementIndex :=
  ((InMemoryElementIndex.empty.setElement (sampleNode "x") [0, 2]).setElement (sampleNode "y") [0, 2]).setElement
    (sampleRelation "e" "x" "y") [1]

theorem sampleIndex_consistent : sampleIndex.Consistent :=
  setElement_consistent (setElement_consistent (setElement_consistent empty_consistent _ _) _ _) _ _

theorem samplePart_adjacent {slot other} :
    Adjacent (fromQuery samplePart) slot other ↔
      slot = 0 ∧ other = 1 ∨ slot = 1 ∧ other = 0 ∨ slot = 1 ∧ other = 2 ∨ slot = 2 ∧ other = 1 := by
  have compiled : (fromQuery samplePart).slots =
      [⟨⟨some "a", [], []⟩, [], [1], [0], false⟩, ⟨⟨some "r", [], []⟩, [0], [2], [0], false⟩,
        ⟨⟨some "b", [], []⟩, [1], [], [0], false⟩] := rfl
  constructor
  · rintro ⟨direction, found, present, listed⟩
    rw [compiled] at present
    match slot with
    | 0 => cases present; cases direction <;> simp_all
    | 1 => cases present; cases direction <;> simp_all
    | 2 => cases present; cases direction <;> simp_all
    | slot + 3 => cases present
  · rintro (⟨rfl, rfl⟩ | ⟨rfl, rfl⟩ | ⟨rfl, rfl⟩ | ⟨rfl, rfl⟩)
    · exact ⟨.outward, _, rfl, mem_singleton_self _⟩
    · exact ⟨.inward, _, rfl, mem_singleton_self _⟩
    · exact ⟨.outward, _, rfl, mem_singleton_self _⟩
    · exact ⟨.inward, _, rfl, mem_singleton_self _⟩

theorem samplePart_connected : Connected (fromQuery samplePart) := by
  have toRelation : ∀ slot < 3, Relation.ReflTransGen (Adjacent (fromQuery samplePart)) slot 1 ∧
      Relation.ReflTransGen (Adjacent (fromQuery samplePart)) 1 slot := by
    intro slot inside
    match slot with
    | 0 => exact ⟨.single (samplePart_adjacent.mpr (by simp)), .single (samplePart_adjacent.mpr (by simp))⟩
    | 1 => exact ⟨.refl, .refl⟩
    | 2 => exact ⟨.single (samplePart_adjacent.mpr (by simp)), .single (samplePart_adjacent.mpr (by simp))⟩
  exact fun slot other inside otherInside => (toRelation slot inside).1.trans (toRelation other otherInside).2

def sampleAssignment : Nat → Element
  | 0 => sampleNode "x"
  | 1 => sampleRelation "e" "x" "y"
  | _ => sampleNode "y"

theorem solve_complete_sample :
    ∃ solution, (solve (fromQuery samplePart) sampleIndex .stored (sampleNode "x") 0).lookup
        (assignmentSignature (fromQuery samplePart) sampleAssignment) = some solution ∧
      ∀ slot < 3, solution.solvedSlots slot = some (some (sampleAssignment slot)) := by
  refine (solve_complete (fromQuery samplePart) sampleIndex .stored (sampleNode "x") 0
    (fromQuery_closed samplePart) (fromQuery_required (by simp [samplePart])) samplePart_connected
    sampleIndex_consistent (by decide)).2.2.1 sampleAssignment rfl ?_ ?_
  · intro slot inside
    match slot with
    | 0 => exact ⟨rfl, by decide⟩
    | 1 => exact ⟨rfl, by decide⟩
    | 2 => exact ⟨rfl, by decide⟩
    | slot + 3 => exact absurd inside (Nat.not_lt.mpr (Nat.le_add_left 3 slot))
  · intro slot other adjacent
    rcases samplePart_adjacent.mp adjacent with ⟨rfl, rfl⟩ | ⟨rfl, rfl⟩ | ⟨rfl, rfl⟩ | ⟨rfl, rfl⟩
    · exact ⟨.outward, ⟨_, rfl, mem_singleton_self _⟩, rfl⟩
    · exact ⟨.inward, ⟨_, rfl, mem_singleton_self _⟩, rfl⟩
    · exact ⟨.outward, ⟨_, rfl, mem_singleton_self _⟩, rfl⟩
    · exact ⟨.inward, ⟨_, rfl, mem_singleton_self _⟩, rfl⟩

end DrasiCore.Proofs
