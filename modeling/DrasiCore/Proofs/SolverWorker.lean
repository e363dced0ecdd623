import DrasiCore.Proofs.SlotGraph
import DrasiCore.Proofs.SolutionSteps

/-! One worker of the solver: which candidates it sees, what it queues and what it sends. -/

namespace DrasiCore.Proofs

open Library List

variable {altBySlot : List (Nat × List (Option Element))} {slot : Nat} {entry : Nat × List (Option Element)}
  {direction : SolveDirection}

/-! ### The candidates of the neighbours of one slot -/

variable {candidates : List (Option Element)} {value : Option Element}

theorem mem_addCandidates (member : entry ∈ addCandidates altBySlot slot candidates) (inside : value ∈ entry.2) :
    (∃ present, (entry.1, present) ∈ altBySlot ∧ value ∈ present) ∨ entry.1 = slot ∧ value ∈ candidates := by
  induction altBySlot with
  | nil =>
    cases mem_singleton.mp member
    exact .inr ⟨rfl, inside⟩
  | cons first rest ih =>
    obtain ⟨other, present⟩ := first
    simp only [addCandidates] at member
    split at member
    · next same =>
      rcases mem_cons.mp member with rfl | later
      · rcases mem_append.mp inside with before | new
        · exact .inl ⟨present, mem_cons_self, before⟩
        · exact .inr ⟨same, new⟩
      · exact .inl ⟨entry.2, mem_cons_of_mem _ later, inside⟩
    · rcases mem_cons.mp member with rfl | later
      · exact .inl ⟨present, mem_cons_self, inside⟩
      · rcases ih later with ⟨kept, found, known⟩ | new
        · exact .inl ⟨kept, mem_cons_of_mem _ found, known⟩
        · exact .inr new

theorem addCandidates_self (altBySlot : List (Nat × List (Option Element))) (slot : Nat)
    (candidates : List (Option Element)) :
    ∃ values, (slot, values) ∈ addCandidates altBySlot slot candidates ∧ ∀ value ∈ candidates, value ∈ values := by
  induction altBySlot with
  | nil => exact ⟨candidates, mem_singleton_self _, fun _ inside => inside⟩
  | cons first rest ih =>
    obtain ⟨other, present⟩ := first
    simp only [addCandidates]
    split
    · next same =>
      exact ⟨present ++ candidates, same ▸ mem_cons_self, fun _ inside => mem_append_right _ inside⟩
    · obtain ⟨values, found, covers⟩ := ih
      exact ⟨values, mem_cons_of_mem _ found, covers⟩

theorem addCandidates_keeps (member : entry ∈ altBySlot) (slot : Nat) (candidates : List (Option Element)) :
    ∃ values, (entry.1, values) ∈ addCandidates altBySlot slot candidates ∧ ∀ value ∈ entry.2, value ∈ values := by
  induction altBySlot with
  | nil => cases member
  | cons first rest ih =>
    obtain ⟨other, present⟩ := first
    simp only [addCandidates]
    split
    · rcases mem_cons.mp member with rfl | later
      · exact ⟨present ++ candidates, mem_cons_self, fun _ inside => mem_append_left _ inside⟩
      · exact ⟨entry.2, mem_cons_of_mem _ later, fun _ inside => inside⟩
    · rcases mem_cons.mp member with rfl | later
      · exact ⟨present, mem_cons_self, fun _ inside => inside⟩
      · obtain ⟨values, found, covers⟩ := ih later
        exact ⟨values, mem_cons_of_mem _ found, covers⟩

theorem mem_keys_addCandidates {other} (member : other ∈ (addCandidates altBySlot slot candidates).map (·.1)) :
    other = slot ∨ other ∈ altBySlot.map (·.1) := by
  induction altBySlot with
  | nil => exact .inl (by simpa [addCandidates] using member)
  | cons first rest ih =>
    simp only [addCandidates] at member
    split at member <;> rw [map_cons, mem_cons] at member <;> rw [map_cons, mem_cons]
    · exact .inr member
    · rcases member with here | later
      · exact .inr (.inl here)
      · exact (ih later).imp_right .inr

theorem nodup_addCandidates (nodup : (altBySlot.map (·.1)).Nodup) (slot : Nat) (candidates : List (Option Element)) :
    ((addCandidates altBySlot slot candidates).map (·.1)).Nodup := by
  induction altBySlot with
  | nil => simp [addCandidates]
  | cons first rest ih =>
    obtain ⟨other, present⟩ := first
    rw [map_cons, nodup_cons] at nodup
    simp only [addCandidates]
    split
    · simpa using nodup
    · next different =>
      rw [map_cons, nodup_cons]
      refine ⟨fun again => ?_, ih nodup.2⟩
      rcases mem_keys_addCandidates again with same | known
      · exact different same
      · exact nodup.1 known

section collect

variable (path : MatchPath) (index : InMemoryElementIndex) (order : IterationOrder) (element : Option Element)

/-- What the fold over the neighbours collects: their candidates and nothing else, one entry for each slot. -/
theorem foldl_candidates (neighbours : List (Nat × SolveDirection)) (start : List (Nat × List (Option Element)))
    (nodup : (start.map (·.1)).Nodup) :
    let collected := neighbours.foldl (fun altBySlot neighbour =>
      addCandidates altBySlot neighbour.1 (slotCandidates path index order element neighbour.1 neighbour.2)) start
    (collected.map (·.1)).Nodup ∧
      (∀ entry ∈ collected, ∀ value ∈ entry.2, (∃ present, (entry.1, present) ∈ start ∧ value ∈ present) ∨
        ∃ direction, (entry.1, direction) ∈ neighbours ∧
          value ∈ slotCandidates path index order element entry.1 direction) ∧
      (∀ entry ∈ start, ∃ values, (entry.1, values) ∈ collected ∧ ∀ value ∈ entry.2, value ∈ values) ∧
      ∀ neighbour ∈ neighbours, ∃ values, (neighbour.1, values) ∈ collected ∧
        ∀ value ∈ slotCandidates path index order element neighbour.1 neighbour.2, value ∈ values := by
  induction neighbours generalizing start with
  | nil =>
    exact ⟨nodup, fun entry member value inside => .inl ⟨entry.2, member, inside⟩,
      fun entry member => ⟨entry.2, member, fun _ inside => inside⟩, fun _ member => by cases member⟩
  | cons neighbour neighbours ih =>
    obtain ⟨keys, only, keeps, covers⟩ :=
      ih (addCandidates start neighbour.1 (slotCandidates path index order element neighbour.1 neighbour.2))
        (nodup_addCandidates nodup _ _)
    refine ⟨keys, ?_, ?_, ?_⟩
    · intro entry member value inside
      rcases only entry member value inside with ⟨present, found, known⟩ | ⟨direction, found, known⟩
      · rcases mem_addCandidates found known with old | ⟨same, new⟩
        · exact .inl old
        · refine .inr ⟨neighbour.2, ?_, ?_⟩
          · rw [show entry.1 = neighbour.1 from same]
            exact mem_cons_self
          · rw [show entry.1 = neighbour.1 from same]
            exact new
      · exact .inr ⟨direction, mem_cons_of_mem _ found, known⟩
    · intro entry member
      obtain ⟨values, found, kept⟩ := addCandidates_keeps member neighbour.1
        (slotCandidates path index order element neighbour.1 neighbour.2)
      obtain ⟨later, foundLater, keptLater⟩ := keeps _ found
      exact ⟨later, foundLater, fun value inside => keptLater value (kept value inside)⟩
    · intro other member
      rcases mem_cons.mp member with rfl | later
      · obtain ⟨values, found, kept⟩ := addCandidates_self start other.1
          (slotCandidates path index order element other.1 other.2)
        obtain ⟨later, foundLater, keptLater⟩ := keeps _ found
        exact ⟨later, foundLater, fun value inside => keptLater value (kept value inside)⟩
      · exact covers other later

variable (solution : MatchPathSolution) (slotNum : Nat)

theorem collectAlternatives_nodup : ((collectAlternatives path index order solution slotNum element).map (·.1)).Nodup :=
  (foldl_candidates path index order element (unsolvedNeighbours path solution slotNum) [] nodup_nil).1

theorem collectAlternatives_only {slot values}
    (member : (slot, values) ∈ collectAlternatives path index order solution slotNum element) (inside : value ∈ values) :
    ∃ direction, (slot, direction) ∈ unsolvedNeighbours path solution slotNum ∧
      value ∈ slotCandidates path index order element slot direction := by
  rcases (foldl_candidates path index order element (unsolvedNeighbours path solution slotNum) []
    nodup_nil).2.1 _ member value inside with ⟨_, none, _⟩ | found
  · cases none
  · exact found

theorem collectAlternatives_covers {slot direction}
    (member : (slot, direction) ∈ unsolvedNeighbours path solution slotNum) :
    ∃ values, (slot, values) ∈ collectAlternatives path index order solution slotNum element ∧
      ∀ value ∈ slotCandidates path index order element slot direction, value ∈ values :=
  (foldl_candidates path index order element (unsolvedNeighbours path solution slotNum) [] nodup_nil).2.2.2 _
    member

end collect

/-! ### What a worker queues -/

def singleCandidate : Nat × List (Option Element) → Option (Nat × Option Element)
  | (slot, [value]) => some (slot, value)
  | _ => none

theorem singleCandidate_eq_some {item} : singleCandidate entry = some item ↔ entry = (item.1, [item.2]) := by
  obtain ⟨slot, values⟩ := entry
  obtain ⟨other, value⟩ := item
  match values with
  | [] => simp [singleCandidate]
  | [single] => simp [singleCandidate]
  | _ :: _ :: _ => simp [singleCandidate]

theorem enqueueSingles_eq (entries : List (Nat × List (Option Element))) (solution : MatchPathSolution) :
    enqueueSingles entries solution =
      Solution.enqueueAll (entries.filterMap singleCandidate) solution := by
  unfold enqueueSingles
  induction entries generalizing solution with
  | nil => rfl
  | cons entry entries ih =>
    obtain ⟨slot, values⟩ := entry
    rw [foldl_cons, ih]
    match values with
    | [] => rfl
    | [single] => rfl
    | _ :: _ :: _ => rfl

def chosenCandidate (altBySlot : List (Nat × List (Option Element))) (pointer : Nat × Nat) :
    Option (Nat × Option Element) :=
  (((altBySlot.lookup pointer.1).getD [])[pointer.2]?).map (pointer.1, ·)

theorem enqueueChoice_eq (altBySlot : List (Nat × List (Option Element))) (pointers : List (Nat × Nat))
    (solution : MatchPathSolution) :
    enqueueChoice altBySlot pointers solution =
      Solution.enqueueAll (pointers.filterMap (chosenCandidate altBySlot)) solution := by
  unfold enqueueChoice
  induction pointers generalizing solution with
  | nil => rfl
  | cons pointer pointers ih =>
    rw [foldl_cons, ih, filterMap_cons]
    unfold chosenCandidate
    cases ((altBySlot.lookup pointer.1).getD [])[pointer.2]? <;> rfl

def branchSlots (entries : List (Nat × List (Option Element))) : List Nat := (branchPointers entries).map (·.1)

section

variable (entries : List (Nat × List (Option Element)))
include entries

private theorem foldl_pointers (start : List (Nat × Nat)) (zeros : ∀ pointer ∈ start, pointer.2 = 0) :
    let pointers := entries.foldl
      (fun pointers entry => if 2 ≤ entry.2.length then insertEntry entry.1 0 pointers else pointers) start
    (∀ pointer ∈ pointers, pointer.2 = 0) ∧
      ∀ slot, slot ∈ pointers.map (·.1) ↔
        slot ∈ start.map (·.1) ∨ ∃ values, (slot, values) ∈ entries ∧ 2 ≤ values.length := by
  induction entries generalizing start with
  | nil => exact ⟨zeros, fun slot => by simp⟩
  | cons entry entries ih =>
    obtain ⟨slotNum, values⟩ := entry
    rw [foldl_cons]
    split
    · next several =>
      have zeros' : ∀ pointer ∈ insertEntry slotNum 0 start, pointer.2 = 0 := by
        intro pointer member
        rcases mem_insertEntry member with rfl | before
        · rfl
        · exact zeros pointer before
      obtain ⟨allZero, slots⟩ := ih _ zeros'
      refine ⟨allZero, fun slot => ?_⟩
      rw [slots slot, mem_keys_insertEntry]
      constructor
      · rintro ((rfl | before) | ⟨found, later, long⟩)
        · exact .inr ⟨values, mem_cons_self, several⟩
        · exact .inl before
        · exact .inr ⟨found, mem_cons_of_mem _ later, long⟩
      · rintro (before | ⟨found, member, long⟩)
        · exact .inl (.inr before)
        · rcases mem_cons.mp member with same | later
          · exact .inl (.inl (Prod.mk.inj same).1)
          · exact .inr ⟨found, later, long⟩
    · next few =>
      obtain ⟨allZero, slots⟩ := ih _ zeros
      refine ⟨allZero, fun slot => ?_⟩
      rw [slots slot]
      refine or_congr Iff.rfl ⟨fun ⟨found, later, long⟩ => ⟨found, mem_cons_of_mem _ later, long⟩, ?_⟩
      rintro ⟨found, member, long⟩
      rcases mem_cons.mp member with same | later
      · exact absurd ((Prod.mk.inj same).2 ▸ long) few
      · exact ⟨found, later, long⟩

theorem branchPointers_eq : branchPointers entries = (branchSlots entries).map (·, 0) := by
  have zeros := (foldl_pointers entries [] (fun _ none => by cases none)).1
  unfold branchSlots
  rw [map_map]
  refine (map_id _).symm.trans (map_congr_left fun pointer member => ?_)
  exact Prod.ext rfl (zeros pointer member)

theorem mem_branchSlots (slot : Nat) :
    slot ∈ branchSlots entries ↔ ∃ values, (slot, values) ∈ entries ∧ 2 ≤ values.length := by
  have slots := (foldl_pointers entries [] (fun _ none => by cases none)).2 slot
  simpa [branchSlots, branchPointers] using slots

end

/-! ### One turn of a worker -/

/-- The candidates for a slot next to a slot with the given value, in whatever order they are listed. -/
def Offers (path : MatchPath) (index : InMemoryElementIndex) (value : Option Element) (slot : Nat)
    (direction : SolveDirection) (candidate : Option Element) : Prop :=
  candidate ∈ slotCandidates path index .stored value slot direction

theorem mem_unsolvedNeighbours {path solution slotNum other} :
    (other, direction) ∈ unsolvedNeighbours path solution slotNum ↔
      Neighbour path slotNum other direction ∧ solution.isSlotSolved other = false := by
  unfold unsolvedNeighbours Neighbour
  cases path.slots[slotNum]? with
  | none => simp
  | some slot => cases direction <;> simp

theorem mem_getAdjacentElements {index} (order other : IterationOrder) {element found} :
    found ∈ getAdjacentElements index order element slot direction ↔
      found ∈ getAdjacentElements index other element slot direction := by
  cases element <;> cases direction <;>
    simp [getAdjacentElements, InMemoryElementIndex.getSlotElementsByInbound,
      InMemoryElementIndex.getSlotElementsByOutbound]

theorem mem_slotCandidates {path index order candidate} :
    candidate ∈ slotCandidates path index order value slot direction ↔
      Offers path index value slot direction candidate := by
  have same : ∀ element, (getAdjacentElements index order element slot direction).isEmpty =
      (getAdjacentElements index .stored element slot direction).isEmpty := by
    intro element
    rw [Bool.eq_iff_iff, List.isEmpty_iff, List.isEmpty_iff, List.eq_nil_iff_forall_not_mem,
      List.eq_nil_iff_forall_not_mem]
    exact forall_congr' fun found => not_congr (mem_getAdjacentElements order .stored)
  unfold Offers slotCandidates
  cases value with
  | none => simp
  | some element =>
    simp only [Option.elim_some, same, mem_append, mem_map, mem_getAdjacentElements order .stored]
    exact Iff.rfl

open Solution

/-- The solution extended by offered values of neighbours of the slot just solved. -/
def Extends (path : MatchPath) (index : InMemoryElementIndex) (slotNum : Nat) (value : Option Element)
    (marked extended : MatchPathSolution) (items : List (Nat × Option Element)) : Prop :=
  extended = enqueueAll items marked ∧ ∀ item ∈ items, ∃ direction, Neighbour path slotNum item.1 direction ∧
    marked.isSlotSolved item.1 = false ∧ Offers path index value item.1 direction item.2

section turn

variable {path : MatchPath} {index : InMemoryElementIndex} {order : IterationOrder} {marked : MatchPathSolution}
  {slotNum : Nat} {entries : List (Nat × List (Option Element))}

theorem extends_singles (arranged : entries.Perm (collectAlternatives path index order marked slotNum value)) :
    Extends path index slotNum value marked (enqueueSingles entries marked) (entries.filterMap singleCandidate) := by
  refine ⟨enqueueSingles_eq entries marked, fun item member => ?_⟩
  obtain ⟨entry, listed, single⟩ := mem_filterMap.mp member
  rw [singleCandidate_eq_some.mp single] at listed
  obtain ⟨direction, neighbour, offered⟩ := collectAlternatives_only path index order value marked slotNum
    (arranged.mem_iff.mp listed) (mem_singleton_self item.2)
  obtain ⟨next, unsolved⟩ := mem_unsolvedNeighbours.mp neighbour
  exact ⟨direction, next, unsolved, mem_slotCandidates.mp offered⟩

theorem enqueueAll_append (first second : List (Nat × Option Element)) (solution : MatchPathSolution) :
    enqueueAll (first ++ second) solution = enqueueAll second (enqueueAll first solution) :=
  foldl_append

section

variable (arranged : entries.Perm (collectAlternatives path index order marked slotNum value))
include arranged

theorem extends_branches
    {extended}
    (member : extended ∈ branches (collectAlternatives path index order marked slotNum value) (branchPointers entries)
      (enqueueSingles entries marked)) :
    ∃ items, Extends path index slotNum value marked extended items := by
  unfold branches at member
  split at member
  · cases member
  · obtain ⟨choice, -, rfl⟩ := mem_map.mp member
    obtain ⟨singles, offered⟩ := extends_singles arranged
    refine ⟨entries.filterMap singleCandidate ++
      choice.filterMap (chosenCandidate (collectAlternatives path index order marked slotNum value)), ?_, ?_⟩
    · rw [enqueueAll_append, ← singles, enqueueChoice_eq]
    · intro item inside
      rcases mem_append.mp inside with single | chosen
      · exact offered item single
      · obtain ⟨pointer, -, found⟩ := mem_filterMap.mp chosen
        obtain ⟨candidate, present, rfl⟩ := Option.map_eq_some_iff.mp found
        cases listed : (collectAlternatives path index order marked slotNum value).lookup pointer.1 with
        | none => simp [listed] at present
        | some values =>
          rw [listed, Option.getD_some] at present
          obtain ⟨direction, neighbour, known⟩ := collectAlternatives_only path index order value marked slotNum
            (mem_of_lookup_eq_some listed) (mem_of_getElem? present)
          obtain ⟨next, unsolved⟩ := mem_unsolvedNeighbours.mp neighbour
          exact ⟨direction, next, unsolved, mem_slotCandidates.mp known⟩

/-- Whatever values the unsolved neighbours are to get, if they are offered then the worker itself or one of the
partial solutions it sends queues just them. -/
theorem extends_covers
    (target : Nat → Option Element)
    (offered : ∀ slot direction, Neighbour path slotNum slot direction → marked.isSlotSolved slot = false →
      ∃ reached, Neighbour path slotNum slot reached ∧ Offers path index value slot reached (target slot)) :
    ∃ extended items, (extended = enqueueSingles entries marked ∨
        extended ∈ branches (collectAlternatives path index order marked slotNum value) (branchPointers entries)
          (enqueueSingles entries marked)) ∧
      Extends path index slotNum value marked extended items ∧ (∀ item ∈ items, item.2 = target item.1) ∧
      ∀ slot direction, Neighbour path slotNum slot direction → marked.isSlotSolved slot = false →
        slot ∈ items.map (·.1) := by
  have keys : (entries.map (·.1)).Nodup :=
    (arranged.map _).nodup_iff.mpr (collectAlternatives_nodup path index order value marked slotNum)
  have listed : ∀ slot direction, Neighbour path slotNum slot direction → marked.isSlotSolved slot = false →
      ∃ values, (slot, values) ∈ entries ∧ target slot ∈ values := by
    intro slot direction neighbour unsolved
    obtain ⟨reached, next, candidate⟩ := offered slot direction neighbour unsolved
    obtain ⟨values, found, covers⟩ := collectAlternatives_covers path index order value marked slotNum
      (mem_unsolvedNeighbours.mpr ⟨next, unsolved⟩)
    exact ⟨values, arranged.mem_iff.mpr found, covers _ (mem_slotCandidates.mpr candidate)⟩
  -- an entry with a candidate belongs to an unsolved neighbour, so its target is among its candidates
  have hasTarget : ∀ slot values candidate, (slot, values) ∈ entries → candidate ∈ values → target slot ∈ values := by
    intro slot values candidate member inside
    obtain ⟨direction, neighbour, -⟩ := collectAlternatives_only path index order value marked slotNum
      (arranged.mem_iff.mp member) inside
    obtain ⟨next, unsolved⟩ := mem_unsolvedNeighbours.mp neighbour
    obtain ⟨others, found, present⟩ := listed slot direction next unsolved
    have same : some others = some values := by
      rw [← lookup_eq_some_of_mem keys found, ← lookup_eq_some_of_mem keys member]
    cases same
    exact present
  have singlesFit : ∀ item ∈ entries.filterMap singleCandidate, item.2 = target item.1 := by
    intro item member
    obtain ⟨entry, found, single⟩ := mem_filterMap.mp member
    rw [singleCandidate_eq_some.mp single] at found
    exact (mem_singleton.mp (hasTarget _ _ _ found (mem_singleton_self item.2))).symm
  have queuedSingle : ∀ slot direction, Neighbour path slotNum slot direction → marked.isSlotSolved slot = false →
      slot ∈ (entries.filterMap singleCandidate).map (·.1) ∨ slot ∈ branchSlots entries := by
    intro slot direction neighbour unsolved
    obtain ⟨values, found, present⟩ := listed slot direction neighbour unsolved
    match values with
    | [] => cases present
    | [single] =>
      exact .inl (mem_map.mpr ⟨(slot, single), mem_filterMap.mpr ⟨_, found, rfl⟩, rfl⟩)
    | _ :: _ :: _ => exact .inr ((mem_branchSlots entries slot).mpr ⟨_, found, by simp⟩)
  by_cases alone : branchSlots entries = []
  · refine ⟨_, _, .inl rfl, extends_singles arranged, singlesFit, fun slot direction neighbour unsolved => ?_⟩
    exact (queuedSingle slot direction neighbour unsolved).resolve_right (by simp [alone])
  · have chosen : ∀ slot ∈ branchSlots entries,
        ∃ values, (collectAlternatives path index order marked slotNum value).lookup slot = some values ∧
          target slot ∈ values := by
      intro slot member
      obtain ⟨values, found, several⟩ := (mem_branchSlots entries slot).mp member
      obtain ⟨candidate, inside⟩ := exists_mem_of_length_pos (by omega : 0 < values.length)
      exact ⟨values, lookup_eq_some_of_mem (collectAlternatives_nodup path index order value marked slotNum)
        (arranged.mem_iff.mp found), hasTarget _ _ _ found inside⟩
    let alts := collectAlternatives path index order marked slotNum value
    let choice := fun slot => ((alts.lookup slot).getD []).idxOf (target slot)
    have within : ∀ slot ∈ branchSlots entries, choice slot < candidateCount alts slot := by
      intro slot member
      obtain ⟨values, found, present⟩ := chosen slot member
      simpa [choice, candidateCount, alts, found] using idxOf_lt_length_of_mem present
    have picked : ((branchSlots entries).map fun slot => (slot, choice slot)).filterMap (chosenCandidate alts) =
        (branchSlots entries).map fun slot => (slot, target slot) := by
      rw [filterMap_map, ← filterMap_eq_map]
      refine filterMap_congr fun slot member => ?_
      obtain ⟨values, found, present⟩ := chosen slot member
      simp [chosenCandidate, choice, alts, found, getElem?_idxOf present]
    refine ⟨enqueueChoice alts ((branchSlots entries).map fun slot => (slot, choice slot)) (enqueueSingles entries marked),
      entries.filterMap singleCandidate ++ (branchSlots entries).map (fun slot => (slot, target slot)), .inr ?_, ?_, ?_,
      ?_⟩
    · have visited := Odometer.mem_sweep (branchSlots entries) choice within
      rw [← branchPointers_eq] at visited
      have nonempty : (branchPointers entries).isEmpty = false := by
        rw [branchPointers_eq]
        simpa using alone
      unfold branches
      rw [nonempty]
      exact mem_map.mpr ⟨_, visited, rfl⟩
    · refine ⟨?_, ?_⟩
      · rw [enqueueAll_append, ← (extends_singles arranged).1, enqueueChoice_eq, picked]
      · intro item member
        rcases mem_append.mp member with single | branch
        · exact (extends_singles arranged).2 item single
        · obtain ⟨slot, inside, rfl⟩ := mem_map.mp branch
          obtain ⟨values, found, present⟩ := chosen slot inside
          obtain ⟨direction, neighbour, known⟩ := collectAlternatives_only path index order value marked slotNum
            (mem_of_lookup_eq_some found) present
          obtain ⟨next, unsolved⟩ := mem_unsolvedNeighbours.mp neighbour
          exact ⟨direction, next, unsolved, mem_slotCandidates.mp known⟩
    · intro item member
      rcases mem_append.mp member with single | branch
      · exact singlesFit item single
      · obtain ⟨slot, -, rfl⟩ := mem_map.mp branch
        rfl
    · intro slot direction neighbour unsolved
      rw [map_append, mem_append]
      refine (queuedSingle slot direction neighbour unsolved).imp_right fun branch => ?_
      rw [map_map]
      exact mem_map.mpr ⟨slot, branch, rfl⟩

end

end turn

end DrasiCore.Proofs
