import DrasiCore.OutputState

/-! The query processor's answer to the signal that futures are due: a loop that pops and processes futures. -/

namespace DrasiCore

open Library

namespace QueryState

/-- The future one round of the loop takes from the queue. -/
def popped (state : QueryState) (order : IterationOrder) : Option FutureElementRef :=
  (state.engine.futureQueue.pop (order.within [0])).1

/-- One round. The loop ends, with `none`, when the queue is empty and when processing fails. -/
def drainRound (state : QueryState) (query : ContinuousQuery) (order : IterationOrder) : Option QueryState :=
  match query.processDueFutures order state.engine with
  | (.ok (some (some due)), engine) =>
    some ⟨engine, state.results.applyDiffs (evaluationContextsToDiffs due.results)⟩
  | _ => none

/-- The state before a round of the loop, if the loop gets there. -/
def beforeRound (state : QueryState) (query : ContinuousQuery) (order : IterationOrder) : Nat → Option QueryState
  | 0 => some state
  | round + 1 => (state.beforeRound query order round).bind (·.drainRound query (order.within [round]))

end QueryState

end DrasiCore
