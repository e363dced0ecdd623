import DrasiCore.Proofs.SolverWorker
import DrasiCore.Library.WorkPoolSchedule

/-! The solver as a pool of workers: every worker ends with one terminal command, and the partial solutions it sends
have more slots solved than its own. -/

namespace DrasiCore.Proofs

open Library Solution List

variable {index : InMemoryElementIndex} {order : IterationOrder} {path : MatchPath}

section worker

variable {solution : MatchPathSolution}
  {fuel slotNum : Nat} {value : Option Element} {cursors : List (Nat × Option Element)}

/-- The candidates a worker sees after it has solved its first queued slot. -/
def turnAlternatives (path : MatchPath) (index : InMemoryElementIndex) (order : IterationOrder)
    (solution : MatchPathSolution) (slotNum : Nat) (value : Option Element) (cursors : List (Nat × Option Element)) :
    List (Nat × List (Option Element)) :=
  collectAlternatives path index (order.within [(solveFirst solution slotNum value cursors).solvedCount])
    (solveFirst solution slotNum value cursors) slotNum value

/-- These candidates in the order in which the worker goes through them. -/
def turnEntries (path : MatchPath) (index : InMemoryElementIndex) (order : IterationOrder)
    (solution : MatchPathSolution) (slotNum : Nat) (value : Option Element) (cursors : List (Nat × Option Element)) :
    List (Nat × List (Option Element)) :=
  order.arrange [(solveFirst solution slotNum value cursors).solvedCount]
    (turnAlternatives path index order solution slotNum value cursors)

theorem turnEntries_perm (path : MatchPath) (index : InMemoryElementIndex) (order : IterationOrder)
    (solution : MatchPathSolution) (slotNum : Nat) (value : Option Element) (cursors : List (Nat × Option Element)) :
    (turnEntries path index order solution slotNum value cursors).Perm
      (turnAlternatives path index order solution slotNum value cursors) := order.perm _ _

theorem tryCompleteSolution_nil (drained : solution.slotCursors = []) :
    tryCompleteSolution path index order (fuel + 1) solution = [.unsolvable] := by
  simp [tryCompleteSolution, drained]

theorem tryCompleteSolution_complete (wellFormed : WellFormed path solution)
    (first : solution.slotCursors = (slotNum, value) :: cursors)
    (complete : solution.solvedCount + 1 = path.slots.length) :
    tryCompleteSolution path index order (fuel + 1) solution =
      [.complete (.solution (solveFirst solution slotNum value cursors).slotReferences)
        (solveFirst solution slotNum value cursors)] := by
  have signature := solveFirst_signature wellFormed first
  rw [if_pos complete] at signature
  unfold solveFirst at signature ⊢
  simp [tryCompleteSolution, first, MatchPathSolution.getSolutionSignature, signature]

theorem tryCompleteSolution_turn (index : InMemoryElementIndex) (order : IterationOrder) (fuel : Nat)
    (wellFormed : WellFormed path solution) (first : solution.slotCursors = (slotNum, value) :: cursors)
    (incomplete : solution.solvedCount + 1 ≠ path.slots.length) :
    tryCompleteSolution path index order (fuel + 1) solution =
      (branches (turnAlternatives path index order solution slotNum value cursors)
        (branchPointers (turnEntries path index order solution slotNum value cursors))
        (enqueueSingles (turnEntries path index order solution slotNum value cursors)
          (solveFirst solution slotNum value cursors))).map .partialSolution ++
      tryCompleteSolution path index order fuel
        (enqueueSingles (turnEntries path index order solution slotNum value cursors)
          (solveFirst solution slotNum value cursors)) := by
  have signature := solveFirst_signature wellFormed first
  rw [if_neg incomplete] at signature
  unfold turnEntries turnAlternatives
  unfold solveFirst at signature ⊢
  simp [tryCompleteSolution, first, MatchPathSolution.getSolutionSignature, signature]

def EndsOnce (commands : List SolutionStreamCommand) : Prop :=
  ∃ (partials : List MatchPathSolution) (terminal : SolutionStreamCommand),
    commands = partials.map .partialSolution ++ [terminal] ∧ ∀ sent, terminal ≠ .partialSolution sent

theorem EndsOnce.append {commands} (ends : EndsOnce commands) (partials : List MatchPathSolution) :
    EndsOnce (partials.map .partialSolution ++ commands) := by
  obtain ⟨later, terminal, rfl, last⟩ := ends
  exact ⟨partials ++ later, terminal, by rw [map_append, append_assoc], last⟩

theorem tryCompleteSolution_endsOnce (path : MatchPath) (index : InMemoryElementIndex) (order : IterationOrder)
    (fuel : Nat) (solution : MatchPathSolution) : EndsOnce (tryCompleteSolution path index order fuel solution) := by
  induction fuel generalizing solution with
  | zero => exact ⟨[], .unsolvable, rfl, nofun⟩
  | succ fuel ih =>
    simp only [tryCompleteSolution]
    split
    · exact ⟨[], .unsolvable, rfl, nofun⟩
    · split
      · exact ⟨[], _, rfl, nofun⟩
      · exact (ih _).append _

variable {items : List (Nat × Option Element)} {extended : MatchPathSolution}

theorem Extends.solvedCount_eq (wellFormed : WellFormed path solution)
    (first : solution.slotCursors = (slotNum, value) :: cursors)
    (extension : Extends path index slotNum value (solveFirst solution slotNum value cursors) extended items) :
    extended.solvedCount = solution.solvedCount + 1 := by
  rw [extension.1, enqueueAll_solvedCount, solveFirst_solvedCount wellFormed first]

theorem Extends.wellFormed (closed : Closed path) (wellFormed : WellFormed path solution)
    (first : solution.slotCursors = (slotNum, value) :: cursors)
    (incomplete : solution.solvedCount + 1 ≠ path.slots.length)
    (extension : Extends path index slotNum value (solveFirst solution slotNum value cursors) extended items) :
    WellFormed path extended := by
  obtain ⟨rfl, offered⟩ := extension
  refine (wellFormed.solveFirst first incomplete).enqueueAll fun item member => ?_
  obtain ⟨direction, neighbour, -⟩ := offered item member
  exact closed _ _ _ neighbour

/-- A worker ends by itself: with a turn for every unsolved slot and one more, further turns change nothing. -/
theorem tryCompleteSolution_fuel (closed : Closed path) {more} (wellFormed : WellFormed path solution)
    (enough : path.slots.length < fuel + solution.solvedCount) (atLeast : fuel ≤ more) :
    tryCompleteSolution path index order more solution = tryCompleteSolution path index order fuel solution := by
  induction fuel generalizing solution more with
  | zero =>
    have := wellFormed.incomplete
    omega
  | succ fuel ih =>
    obtain ⟨more, rfl⟩ := Nat.exists_eq_add_one_of_ne_zero (by omega : more ≠ 0)
    cases first : solution.slotCursors with
    | nil => rw [tryCompleteSolution_nil first, tryCompleteSolution_nil first]
    | cons cursor cursors =>
      obtain ⟨slotNum, value⟩ := cursor
      by_cases full : solution.solvedCount + 1 = path.slots.length
      · rw [tryCompleteSolution_complete wellFormed first full, tryCompleteSolution_complete wellFormed first full]
      · have own := extends_singles (turnEntries_perm path index order solution slotNum value cursors)
        have count := own.solvedCount_eq wellFormed first
        rw [tryCompleteSolution_turn index order more wellFormed first full,
          tryCompleteSolution_turn index order fuel wellFormed first full,
          ih (own.wellFormed closed wellFormed first full) (by omega) (by omega)]

/-- What every turn keeps: `incomplete` is for solutions on their way, `complete` for those with all slots solved. -/
structure KeptByTurns (path : MatchPath) (index : InMemoryElementIndex) (incomplete complete : MatchPathSolution → Prop) :
    Prop where
  turn : ∀ solution slotNum value cursors, WellFormed path solution → incomplete solution →
    solution.slotCursors = (slotNum, value) :: cursors → solution.solvedCount + 1 ≠ path.slots.length →
    ∀ extended items, Extends path index slotNum value (solveFirst solution slotNum value cursors) extended items →
      incomplete extended
  last : ∀ solution slotNum value cursors, WellFormed path solution → incomplete solution →
    solution.slotCursors = (slotNum, value) :: cursors → solution.solvedCount + 1 = path.slots.length →
      complete (solveFirst solution slotNum value cursors)

/-- What holds of a solution and is kept by every turn holds of all partial and complete solutions a worker sends. -/
theorem KeptByTurns.sent {incomplete complete} (kept : KeptByTurns path index incomplete complete) (closed : Closed path)
    (wellFormed : WellFormed path solution) (holds : incomplete solution) :
    (∀ sent, .partialSolution sent ∈ tryCompleteSolution path index order fuel solution →
        WellFormed path sent ∧ solution.solvedCount < sent.solvedCount ∧ incomplete sent) ∧
      ∀ hash sent, .complete hash sent ∈ tryCompleteSolution path index order fuel solution →
        hash = .solution sent.slotReferences ∧ sent.solvedCount = path.slots.length ∧ complete sent := by
  induction fuel generalizing solution with
  | zero => simp [tryCompleteSolution]
  | succ fuel ih =>
    cases first : solution.slotCursors with
    | nil => simp [tryCompleteSolution_nil first]
    | cons cursor cursors =>
      obtain ⟨slotNum, value⟩ := cursor
      by_cases full : solution.solvedCount + 1 = path.slots.length
      · rw [tryCompleteSolution_complete wellFormed first full]
        refine ⟨by simp, fun hash sent member => ?_⟩
        cases mem_singleton.mp member
        exact ⟨rfl, (solveFirst_solvedCount wellFormed first).trans full,
          kept.last _ _ _ _ wellFormed holds first full⟩
      · have arranged := turnEntries_perm path index order solution slotNum value cursors
        have own := extends_singles arranged
        have ownCount := own.solvedCount_eq wellFormed first
        obtain ⟨partials, completes⟩ := ih (own.wellFormed closed wellFormed first full)
          (kept.turn _ _ _ _ wellFormed holds first full _ _ own)
        rw [tryCompleteSolution_turn index order fuel wellFormed first full]
        refine ⟨fun sent member => ?_, fun hash sent member => ?_⟩
        · rcases mem_append.mp member with branch | later
          · obtain ⟨extended, found, same⟩ := mem_map.mp branch
            cases same
            obtain ⟨items, extension⟩ := extends_branches arranged found
            have sentCount := extension.solvedCount_eq wellFormed first
            exact ⟨extension.wellFormed closed wellFormed first full, by omega,
              kept.turn _ _ _ _ wellFormed holds first full _ _ extension⟩
          · obtain ⟨sentWellFormed, grows, keeps⟩ := partials sent later
            exact ⟨sentWellFormed, by omega, keeps⟩
        · rcases mem_append.mp member with branch | later
          · obtain ⟨extended, -, different⟩ := mem_map.mp branch
            cases different
          · exact completes hash sent later

end worker

/-! ### The pool of workers -/

section pool

variable {task : SolverTask}

theorem spawn_mem_solverRun {child} :
    .spawn child ∈ solverRun path index order task → .partialSolution child.2 ∈
      tryCompleteSolution path index (order.within task.1) (path.slots.length + 1) task.2 := by
  intro member
  obtain ⟨⟨command, position⟩, listed, same⟩ := mem_map.mp member
  cases command with
  | partialSolution solution =>
    cases same
    exact mem_of_getElem? (mk_mem_zipIdx_iff_getElem?.mp listed)
  | complete hash solution => cases same
  | unsolvable => cases same

theorem done_mem_solverRun {hash solution} :
    .done (some (hash, solution)) ∈ solverRun path index order task ↔ .complete hash solution ∈
      tryCompleteSolution path index (order.within task.1) (path.slots.length + 1) task.2 := by
  constructor
  · intro member
    obtain ⟨⟨command, position⟩, listed, same⟩ := mem_map.mp member
    cases command with
    | partialSolution solution => cases same
    | complete hash solution =>
      cases same
      exact mem_of_getElem? (mk_mem_zipIdx_iff_getElem?.mp listed)
    | unsolvable => cases same
  · intro member
    obtain ⟨position, listed⟩ := getElem?_of_mem member
    exact mem_map.mpr ⟨_, mk_mem_zipIdx_iff_getElem?.mpr listed, rfl⟩

theorem exists_spawn_mem_solverRun {solution}
    (member : .partialSolution solution ∈
      tryCompleteSolution path index (order.within task.1) (path.slots.length + 1) task.2) :
    ∃ position, .spawn (position, solution) ∈ solverRun path index order task := by
  obtain ⟨position, listed⟩ := getElem?_of_mem member
  exact ⟨_, mem_map.mpr ⟨_, mk_mem_zipIdx_iff_getElem?.mpr listed, rfl⟩⟩

theorem solverRun_shape (path : MatchPath) (index : InMemoryElementIndex) (order : IterationOrder) (task : SolverTask) :
    ∃ (tasks : List SolverTask) (result : Option (Signature × MatchPathSolution)),
      solverRun path index order task = tasks.map .spawn ++ [.done result] := by
  obtain ⟨partials, terminal, commands, last⟩ := tryCompleteSolution_endsOnce path index
    (order.within task.1) (path.slots.length + 1) task.2
  have spawned : (partials.map SolutionStreamCommand.partialSolution).zipIdx.map (commandMessage task.1) =
      (partials.zipIdx.map fun entry => (entry.2 :: task.1, entry.1)).map .spawn := by
    rw [zipIdx_map, map_map, map_map]
    rfl
  unfold solverRun
  rw [commands, zipIdx_append, map_append, spawned]
  cases terminal with
  | partialSolution sent => exact absurd rfl (last sent)
  | complete hash sent => exact ⟨_, some (hash, sent), rfl⟩
  | unsolvable => exact ⟨_, none, rfl⟩

theorem wellFormed_of_spawn (closed : Closed path) {child} (wellFormed : WellFormed path task.2)
    (member : .spawn child ∈ solverRun path index order task) :
    WellFormed path child.2 ∧ task.2.solvedCount < child.2.solvedCount := by
  have kept : KeptByTurns path index (fun _ => True) fun _ => True :=
    ⟨fun _ _ _ _ _ _ _ _ _ _ _ => trivial, fun _ _ _ _ _ _ _ _ => trivial⟩
  obtain ⟨childWellFormed, grows, -⟩ := (kept.sent closed wellFormed trivial).1 _ (spawn_mem_solverRun member)
  exact ⟨childWellFormed, grows⟩

/-- The solver's workers as a pool program. A task's rank is the number of slots it has left to solve. -/
def solverProgram (path : MatchPath) (index : InMemoryElementIndex) (order : IterationOrder) (closed : Closed path) :
    WorkPool.Program SolverTask (Signature × MatchPathSolution) where
  run := solverRun path index order
  Valid task := WellFormed path task.2
  rank task := path.slots.length - task.2.solvedCount
  shape task _ := solverRun_shape path index order task
  valid_spawn valid member := (wellFormed_of_spawn closed valid member).1
  rank_spawn {task child} valid member := by
    obtain ⟨childValid, grows⟩ := wellFormed_of_spawn closed valid member
    have := childValid.incomplete
    omega

end pool

end DrasiCore.Proofs
