import DrasiCore.PathSolver

/-! What the steps on a solution under construction keep: every slot is queued at most once, is solved after it was
queued, and never changes its value. -/

namespace DrasiCore.Proofs

open Library List

namespace Solution

open MatchPathSolution

structure WellFormed (path : MatchPath) (solution : MatchPathSolution) : Prop where
  total : solution.totalSlots = path.slots.length
  inside : ∀ slot, solution.queuedSlots slot = true → slot < path.slots.length
  solvedQueued : ∀ slot, solution.isSlotSolved slot = true → solution.queuedSlots slot = true
  cursorQueued : ∀ cursor ∈ solution.slotCursors, solution.queuedSlots cursor.1 = true
  cursorUnsolved : ∀ cursor ∈ solution.slotCursors, solution.isSlotSolved cursor.1 = false
  cursorNodup : (solution.slotCursors.map (·.1)).Nodup
  waiting : ∀ slot, solution.queuedSlots slot = true →
    solution.isSlotSolved slot = true ∨ slot ∈ solution.slotCursors.map (·.1)
  unsigned : solution.solutionSignature = none
  incomplete : solution.solvedCount < path.slots.length

/-- Every value of the solution, bound or queued, has the property at its slot. -/
structure Holds (property : Nat → Option Element → Prop) (solution : MatchPathSolution) : Prop where
  solved : ∀ slot value, solution.solvedSlots slot = some value → property slot value
  queued : ∀ cursor ∈ solution.slotCursors, property cursor.1 cursor.2

def enqueueAll (items : List (Nat × Option Element)) (solution : MatchPathSolution) : MatchPathSolution :=
  items.foldl (fun result item => result.enqueueSlot item.1 item.2) solution

section enqueue

variable (solution : MatchPathSolution) (slotNum : Nat) (value : Option Element)

@[simp] theorem enqueueSlot_solvedSlots : (solution.enqueueSlot slotNum value).solvedSlots = solution.solvedSlots := by
  unfold enqueueSlot; split <;> rfl

@[simp] theorem enqueueSlot_isSlotSolved (slot : Nat) :
    (solution.enqueueSlot slotNum value).isSlotSolved slot = solution.isSlotSolved slot := by
  simp [isSlotSolved]

@[simp] theorem enqueueSlot_totalSlots : (solution.enqueueSlot slotNum value).totalSlots = solution.totalSlots := by
  unfold enqueueSlot; split <;> rfl

@[simp] theorem enqueueSlot_solvedCount : (solution.enqueueSlot slotNum value).solvedCount = solution.solvedCount := by
  have same : (solution.enqueueSlot slotNum value).isSlotSolved = solution.isSlotSolved := funext (by simp)
  simp [solvedCount, same]

@[simp] theorem enqueueSlot_solutionSignature :
    (solution.enqueueSlot slotNum value).solutionSignature = solution.solutionSignature := by
  unfold enqueueSlot; split <;> rfl

theorem enqueueSlot_queuedSlots (slot : Nat) :
    (solution.enqueueSlot slotNum value).queuedSlots slot = true ↔ solution.queuedSlots slot = true ∨ slot = slotNum := by
  unfold enqueueSlot
  split
  · next already =>
    constructor
    · exact .inl
    · rintro (queued | rfl)
      · exact queued
      · exact already
  · simp only
    split
    · next same => simp [same]
    · next different => simp [different]

theorem enqueueSlot_of_queued (already : solution.queuedSlots slotNum = true) :
    solution.enqueueSlot slotNum value = solution := by
  simp [enqueueSlot, already]

theorem enqueueSlot_slotCursors (fresh : solution.queuedSlots slotNum = false) :
    (solution.enqueueSlot slotNum value).slotCursors = solution.slotCursors ++ [(slotNum, value)] := by
  simp [enqueueSlot, fresh]

end enqueue

variable {path : MatchPath} {solution : MatchPathSolution}

theorem WellFormed.enqueueSlot (wellFormed : WellFormed path solution) {slotNum} (inside : slotNum < path.slots.length)
    (value : Option Element) : WellFormed path (solution.enqueueSlot slotNum value) := by
  have queued := enqueueSlot_queuedSlots solution slotNum value
  cases fresh : solution.queuedSlots slotNum with
  | true => rwa [enqueueSlot_of_queued solution slotNum value fresh]
  | false =>
    have cursors := enqueueSlot_slotCursors solution slotNum value fresh
    have unsolved : solution.isSlotSolved slotNum = false := by
      rw [← Bool.not_eq_true]
      intro solved
      rw [wellFormed.solvedQueued slotNum solved] at fresh
      cases fresh
    have old : ∀ slot, slot ∈ solution.slotCursors.map (·.1) → slot ≠ slotNum := by
      rintro slot before rfl
      obtain ⟨cursor, member, rfl⟩ := mem_map.mp before
      rw [wellFormed.cursorQueued cursor member] at fresh
      cases fresh
    refine ⟨by simpa using wellFormed.total, ?_, ?_, ?_, ?_, ?_, ?_, by simpa using wellFormed.unsigned,
      by simpa using wellFormed.incomplete⟩
    · intro slot isQueued
      rcases (queued slot).mp isQueued with before | rfl
      · exact wellFormed.inside slot before
      · exact inside
    · exact fun slot solved => (queued slot).mpr (.inl (wellFormed.solvedQueued slot (by simpa using solved)))
    · intro cursor member
      rw [cursors] at member
      rcases mem_append.mp member with before | new
      · exact (queued _).mpr (.inl (wellFormed.cursorQueued cursor before))
      · cases mem_singleton.mp new
        exact (queued _).mpr (.inr rfl)
    · intro cursor member
      rw [cursors] at member
      rcases mem_append.mp member with before | new
      · simpa using wellFormed.cursorUnsolved cursor before
      · cases mem_singleton.mp new
        simpa using unsolved
    · rw [cursors, map_append, nodup_append]
      refine ⟨wellFormed.cursorNodup, by simp, ?_⟩
      intro slot before other new
      obtain rfl : other = slotNum := by simpa using new
      exact old slot before
    · intro slot isQueued
      rw [cursors, map_append]
      rcases (queued slot).mp isQueued with before | rfl
      · rcases wellFormed.waiting slot before with solved | waits
        · exact .inl (by simpa using solved)
        · exact .inr (mem_append_left _ waits)
      · exact .inr (by simp)

variable {property : Nat → Option Element → Prop}

theorem Holds.enqueueSlot (holds : Holds property solution) {slotNum value} (fits : property slotNum value) :
    Holds property (solution.enqueueSlot slotNum value) := by
  refine ⟨fun slot bound found => holds.solved slot bound (by simpa using found), fun cursor member => ?_⟩
  cases fresh : solution.queuedSlots slotNum with
  | true =>
    rw [enqueueSlot_of_queued solution slotNum value fresh] at member
    exact holds.queued cursor member
  | false =>
    rw [enqueueSlot_slotCursors solution slotNum value fresh] at member
    rcases mem_append.mp member with before | new
    · exact holds.queued cursor before
    · cases mem_singleton.mp new
      exact fits

/-! ### Several slots at once -/

section

variable (items : List (Nat × Option Element)) (solution : MatchPathSolution)

theorem enqueueAll_solvedSlots : (enqueueAll items solution).solvedSlots = solution.solvedSlots := by
  induction items generalizing solution with
  | nil => rfl
  | cons item items ih => exact (ih _).trans (enqueueSlot_solvedSlots solution item.1 item.2)

theorem enqueueAll_solvedCount : (enqueueAll items solution).solvedCount = solution.solvedCount := by
  induction items generalizing solution with
  | nil => rfl
  | cons item items ih => exact (ih _).trans (enqueueSlot_solvedCount solution item.1 item.2)

theorem enqueueAll_queuedSlots (slot : Nat) :
    (enqueueAll items solution).queuedSlots slot = true ↔
      solution.queuedSlots slot = true ∨ slot ∈ items.map (·.1) := by
  induction items generalizing solution with
  | nil => simp [enqueueAll]
  | cons item items ih =>
    have later := ih (solution.enqueueSlot item.1 item.2)
    simp only [enqueueAll, foldl_cons, map_cons, mem_cons] at later ⊢
    rw [later, enqueueSlot_queuedSlots, or_assoc]

end

variable {items : List (Nat × Option Element)}

theorem WellFormed.enqueueAll (wellFormed : WellFormed path solution)
    (inside : ∀ item ∈ items, item.1 < path.slots.length) : WellFormed path (enqueueAll items solution) := by
  induction items generalizing solution with
  | nil => exact wellFormed
  | cons item items ih =>
    exact ih (wellFormed.enqueueSlot (inside item mem_cons_self) item.2) fun later member =>
      inside later (mem_cons_of_mem _ member)

theorem Holds.enqueueAll (holds : Holds property solution) (fits : ∀ item ∈ items, property item.1 item.2) :
    Holds property (enqueueAll items solution) := by
  induction items generalizing solution with
  | nil => exact holds
  | cons item items ih =>
    exact ih (holds.enqueueSlot (fits item mem_cons_self)) fun later member =>
      fits later (mem_cons_of_mem _ member)

/-! ### Solving the first queued slot -/

def solveFirst (solution : MatchPathSolution) (slotNum : Nat) (value : Option Element)
    (cursors : List (Nat × Option Element)) : MatchPathSolution :=
  { solution with slotCursors := cursors }.markSlotSolved slotNum value

private theorem countP_add_one {items : List Nat} (nodup : items.Nodup) {item} (member : item ∈ items)
    {test other : Nat → Bool} (fails : test item = false) (passes : other item = true)
    (same : ∀ different, different ≠ item → other different = test different) :
    items.countP other = items.countP test + 1 := by
  induction items with
  | nil => cases member
  | cons first rest ih =>
    obtain ⟨absent, nodup⟩ := nodup_cons.mp nodup
    rcases mem_cons.mp member with rfl | later
    · have tail : rest.countP other = rest.countP test :=
        countP_congr fun value inside => by rw [same value fun equal => absent (equal ▸ inside)]
      simp [fails, passes, tail]
    · have different : first ≠ item := fun equal => absent (equal ▸ later)
      simp only [countP_cons, same first different, ih nodup later]
      omega

section solveFirst

variable {slotNum : Nat} {value : Option Element} {cursors : List (Nat × Option Element)}

theorem solveFirst_solvedSlots (slot : Nat) :
    (solveFirst solution slotNum value cursors).solvedSlots slot =
      if slot = slotNum then some value else solution.solvedSlots slot := by
  unfold solveFirst markSlotSolved
  dsimp only
  split <;> rfl

@[simp] theorem solveFirst_slotCursors : (solveFirst solution slotNum value cursors).slotCursors = cursors := by
  unfold solveFirst markSlotSolved
  dsimp only
  split <;> rfl

@[simp] theorem solveFirst_queuedSlots :
    (solveFirst solution slotNum value cursors).queuedSlots = solution.queuedSlots := by
  unfold solveFirst markSlotSolved
  dsimp only
  split <;> rfl

@[simp] theorem solveFirst_totalSlots : (solveFirst solution slotNum value cursors).totalSlots = solution.totalSlots := by
  unfold solveFirst markSlotSolved
  dsimp only
  split <;> rfl

theorem solveFirst_isSlotSolved (slot : Nat) :
    (solveFirst solution slotNum value cursors).isSlotSolved slot = true ↔
      slot = slotNum ∨ solution.isSlotSolved slot = true := by
  unfold isSlotSolved
  rw [solveFirst_solvedSlots]
  split
  · next same => simp [same]
  · next different => simp [different]

section

variable (wellFormed : WellFormed path solution)
include wellFormed

theorem solveFirst_solvedCount (first : solution.slotCursors = (slotNum, value) :: cursors) :
    (solveFirst solution slotNum value cursors).solvedCount = solution.solvedCount + 1 := by
  have member : (slotNum, value) ∈ solution.slotCursors := first ▸ mem_cons_self
  have inside := wellFormed.inside slotNum (wellFormed.cursorQueued _ member)
  unfold solvedCount
  rw [solveFirst_totalSlots]
  refine countP_add_one nodup_range (mem_range.mpr (wellFormed.total ▸ inside))
    (wellFormed.cursorUnsolved _ member) ?_ ?_
  · exact (solveFirst_isSlotSolved slotNum).mpr (.inl rfl)
  · intro different unequal
    rw [Bool.eq_iff_iff, solveFirst_isSlotSolved]
    simp [unequal]

theorem solveFirst_signature (first : solution.slotCursors = (slotNum, value) :: cursors) :
    (solveFirst solution slotNum value cursors).solutionSignature =
      if solution.solvedCount + 1 = path.slots.length then
        some (.solution (solveFirst solution slotNum value cursors).slotReferences)
      else none := by
  have count := solveFirst_solvedCount wellFormed first
  have total := wellFormed.total
  revert count
  unfold solveFirst markSlotSolved
  dsimp only
  split
  · next complete =>
    intro count
    rw [if_pos (by rw [← count, ← total]; exact complete)]
    rfl
  · next incomplete =>
    intro count
    rw [if_neg (by rw [← count, ← total]; exact incomplete)]
    exact wellFormed.unsigned

theorem WellFormed.solveFirst (first : solution.slotCursors = (slotNum, value) :: cursors)
    (incomplete : solution.solvedCount + 1 ≠ path.slots.length) :
    WellFormed path (solveFirst solution slotNum value cursors) := by
  have member : (slotNum, value) ∈ solution.slotCursors := first ▸ mem_cons_self
  have nodup := wellFormed.cursorNodup
  rw [first, map_cons, nodup_cons] at nodup
  have rest : ∀ cursor ∈ cursors, cursor ∈ solution.slotCursors :=
    fun cursor inside => first ▸ mem_cons_of_mem _ inside
  refine ⟨by simpa using wellFormed.total, by simpa using wellFormed.inside, ?_, ?_, ?_, by simpa using nodup.2, ?_, ?_,
    ?_⟩
  · intro slot solved
    rw [solveFirst_queuedSlots]
    rcases (solveFirst_isSlotSolved slot).mp solved with rfl | before
    · exact wellFormed.cursorQueued _ member
    · exact wellFormed.solvedQueued slot before
  · intro cursor inside
    rw [solveFirst_queuedSlots]
    exact wellFormed.cursorQueued cursor (rest cursor (by simpa using inside))
  · intro cursor inside
    rw [solveFirst_slotCursors] at inside
    rw [← Bool.not_eq_true, solveFirst_isSlotSolved]
    rintro (same | solved)
    · exact nodup.1 (mem_map.mpr ⟨cursor, inside, same⟩)
    · rw [wellFormed.cursorUnsolved cursor (rest cursor inside)] at solved
      cases solved
  · intro slot queued
    rw [solveFirst_queuedSlots] at queued
    rw [solveFirst_isSlotSolved, solveFirst_slotCursors]
    rcases wellFormed.waiting slot queued with solved | waits
    · exact .inl (.inr solved)
    · rw [first, map_cons, mem_cons] at waits
      rcases waits with same | later
      · exact .inl (.inl same)
      · exact .inr later
  · rw [solveFirst_signature wellFormed first, if_neg incomplete]
  · rw [solveFirst_solvedCount wellFormed first]
    have := wellFormed.incomplete
    omega

end

theorem Holds.solveFirst (holds : Holds property solution) (first : solution.slotCursors = (slotNum, value) :: cursors) :
    Holds property (solveFirst solution slotNum value cursors) := by
  refine ⟨fun slot bound found => ?_, fun cursor inside => ?_⟩
  · rw [solveFirst_solvedSlots] at found
    split at found
    · next same =>
      cases found
      exact same ▸ holds.queued (slotNum, value) (first ▸ mem_cons_self)
    · exact holds.solved slot bound found
  · rw [solveFirst_slotCursors] at inside
    exact holds.queued cursor (first ▸ mem_cons_of_mem _ inside)

end solveFirst

end Solution

end DrasiCore.Proofs
