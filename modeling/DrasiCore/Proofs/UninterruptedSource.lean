import DrasiCore.SourceDispatch

/-! What a dispatch that no other task interrupts does to one dispatcher and its mark. -/

namespace DrasiCore.Proofs

open Library SourceSystem SourceBase

variable {P : Type} {positionReached : Option (P → P → Bool)}

section Dispatch

variable (base : SourceBase P) (wrapper event : SourceEventWrapper P)

theorem mark_advanceHighWaterMarks (indices : List Nat) (position : P) (index : Nat) :
    (base.advanceHighWaterMarks (indices.map (·, position))).subscriberResumePositions index =
      if index ∈ indices then some position else base.subscriberResumePositions index := by
  induction indices generalizing base with
  | nil => rfl
  | cons first indices ih =>
    rw [List.map_cons, advanceHighWaterMarks, List.foldl_cons]
    apply (ih (base.insertResumePosition first position)).trans
    by_cases later : index ∈ indices
    · rw [if_pos later, if_pos (List.mem_cons_of_mem first later)]
    · by_cases same : index = first
      · simp [same, insertResumePosition]
      · simp [later, same, insertResumePosition]

theorem passes_dispatched (index : Nat) :
    ((base.orderEvent wrapper).1.recordPosition (base.orderEvent wrapper).2).passes positionReached index
      (base.orderEvent wrapper).2 = base.passes positionReached index wrapper := by
  unfold passes
  rw [subscriberResumePositions_recordPosition, subscriberResumePositions_orderEvent]
  rfl

theorem getElem?_dispatchEvent (index : Nat) :
    (base.dispatchEvent positionReached wrapper).dispatchers[index]? =
      (base.dispatchers[index]?).map fun dispatcher =>
        if base.passes positionReached index wrapper then dispatcher.deliver (base.orderEvent wrapper).2
        else dispatcher.suppress (base.orderEvent wrapper).2 := by
  unfold dispatchEvent
  rw [dispatchers_advanceHighWaterMarks, offerAll, List.getElem?_mapIdx,
    dispatchers_recordPosition, dispatchers_orderEvent]
  simp only [passes_dispatched]

theorem mark_dispatchEvent {position index} (carried : wrapper.sourcePosition = some position)
    (inside : index < base.dispatchers.length) :
    (base.dispatchEvent positionReached wrapper).subscriberResumePositions index =
      if base.passes positionReached index wrapper then some position else base.subscriberResumePositions index := by
  have event : (base.orderEvent wrapper).2.sourcePosition = some position := carried
  unfold dispatchEvent highWaterUpdates
  simp only [passes_dispatched, event, Option.map_some, Option.toList_some, dispatchers_recordPosition,
    dispatchers_orderEvent]
  rw [← List.map_eq_flatMap, mark_advanceHighWaterMarks]
  simp only [List.mem_filter, List.mem_range, inside, true_and]
  split
  · rfl
  · exact congrFun (subscriberResumePositions_recordPosition ..) index

end Dispatch

end DrasiCore.Proofs
