import DrasiCore.DurableOutput
import DrasiCore.Library.Channel

/-! Subscribers of a query and the processor that publishes its results. A result gets its sequence under the lock of the
output state and is published after the lock is released, under the lock of the dispatchers. A subscriber samples the
sequence and attaches its dispatcher while it holds the first lock. -/

namespace DrasiCore

open Library

structure DispatchCall where
  queryId : String
  sourceId : String
  results : List QueryPartEvaluationContext
  /-- Whether output is staged with the commit of the change. -/
  durable : Bool
  stagedAt : Nat
  stagedProfiling : ProfilingMetadata
  dispatchedAt : Nat
  profiling : ProfilingMetadata

namespace DispatchCall

variable (call : DispatchCall)

def diffs : List ResultDiff := evaluationContextsToDiffs call.results

def stages : Bool := call.durable && !call.diffs.isEmpty

def stagedResult (state : QueryOutputState) : Option QueryResult :=
  if call.stages then
    some ⟨call.queryId, min (state.asOfSequence + 1) QueryOutputState.maxSequence, call.stagedAt, call.diffs,
      QueryResult.resultMetadata call.sourceId call.diffs.length, call.stagedProfiling⟩
  else none

/-- The diffs to publish; where there are none the dispatch returns at once. -/
def convertedResults (staged : Option QueryResult) : List ResultDiff :=
  staged.elim call.diffs (·.results)

/-- The part of a dispatch under the lock of the output state. -/
def assign (staged : Option QueryResult) (state : QueryOutputState) : QueryOutputState × QueryResult :=
  match staged with
  | some staged =>
    let queryResult := staged.overlayPostCommitProfiling call.profiling
    (state.applyCommittedSequence queryResult.sequence staged.results queryResult, queryResult)
  | none =>
    (state.applyDiffs call.diffs).advanceSequenceAndPush
      ⟨call.queryId, 0, call.dispatchedAt, call.diffs, QueryResult.resultMetadata call.sourceId call.diffs.length,
        call.profiling⟩

end DispatchCall

inductive ProcessorPhase where
  | idle
  /-- The change is committed, with what was staged. -/
  | committed (call : DispatchCall) (staged : Option QueryResult)
  /-- The result has its sequence, and the lock of the output state is released. -/
  | assigned (result : QueryResult)
  /-- The dispatchers are locked, and those before the next one have the result. -/
  | publishing (result : QueryResult) (next : Nat)

/-- A subscriber: the sequence it was given and the channel of its dispatcher. -/
structure QuerySubscription where
  asOfSequence : Nat
  channel : Channel QueryResult

namespace QuerySubscription

variable (subscription : QuerySubscription)

def send (result : QueryResult) : QuerySubscription :=
  { subscription with channel := subscription.channel.send result }

def receive : QuerySubscription :=
  { subscription with channel := subscription.channel.receive }

/-- The results after the sequence a subscriber was given. -/
def after (results : List QueryResult) : List QueryResult :=
  results.filter fun result => subscription.asOfSequence < result.sequence

end QuerySubscription

structure QueryDelivery where
  output : QueryOutputState
  /-- Dispatches to come. -/
  calls : List DispatchCall
  phase : ProcessorPhase
  subscriptions : List QuerySubscription
  /-- Calls of subscribe to come. -/
  callers : Nat
  /-- The sequence sampled by the caller that holds the lock of the output state. -/
  sampled : Option Nat
  /-- All results that got a sequence. No program state: deliveries are compared with it. -/
  results : List QueryResult

namespace QueryDelivery

def reading (node : QueryDelivery) : Bool := node.phase matches .publishing ..

def start (output : QueryOutputState) (calls : List DispatchCall) (callers : Nat) : QueryDelivery :=
  ⟨output, calls, .idle, [], callers, none, []⟩

inductive Step (capacity : Nat) : QueryDelivery → QueryDelivery → Prop where
  | stage {node call calls} (idle : node.phase = .idle)
      (next : node.calls = call :: calls) (free : call.stages → node.sampled = none) :
      Step capacity node { node with calls := calls, phase := .committed call (call.stagedResult node.output) }
  | nothing {node call staged}
      (committed : node.phase = .committed call staged) (empty : call.convertedResults staged = []) :
      Step capacity node { node with phase := .idle }
  | assign {node call staged}
      (committed : node.phase = .committed call staged) (some : call.convertedResults staged ≠ [])
      (free : node.sampled = none) :
      Step capacity node { node with
        output := (call.assign staged node.output).1
        phase := .assigned (call.assign staged node.output).2
        results := node.results ++ [(call.assign staged node.output).2] }
  | publish {node result} (assigned : node.phase = .assigned result) :
      Step capacity node { node with phase := .publishing result 0 }
  | send {node result index subscription}
      (publishing : node.phase = .publishing result index) (here : node.subscriptions[index]? = some subscription)
      (room : subscription.channel.hasRoom) :
      Step capacity node { node with
        phase := .publishing result (index + 1)
        subscriptions := node.subscriptions.modify index (·.send result) }
  | finish {node result}
      (publishing : node.phase = .publishing result node.subscriptions.length) :
      Step capacity node { node with phase := .idle }
  | sample {node callers} (caller : node.callers = callers + 1) (free : node.sampled = none) :
      Step capacity node { node with callers := callers, sampled := some node.output.asOfSequence }
  | attach {node asOfSequence} (sampled : node.sampled = some asOfSequence)
      (unread : node.reading = false) :
      Step capacity node { node with
        sampled := none
        subscriptions := node.subscriptions ++ [⟨asOfSequence, .new capacity⟩] }
  | receive {node index subscription}
      (here : node.subscriptions[index]? = some subscription) (some : subscription.channel.waiting ≠ []) :
      Step capacity node { node with subscriptions := node.subscriptions.modify index (·.receive) }

def Reached (capacity : Nat) (output : QueryOutputState) (calls : List DispatchCall) (callers : Nat) (node : QueryDelivery) :
    Prop :=
  Relation.ReflTransGen (Step capacity) (start output calls callers) node

/-- One result comes before another. Sequences increase until the counter stays at its last value. -/
def Precedes (earlier later : QueryResult) : Prop :=
  earlier.sequence < later.sequence ∨
    earlier.sequence = QueryOutputState.maxSequence ∧ later.sequence = QueryOutputState.maxSequence

/-- A subscriber gets the results after its sequence once and in order, and no result twice. -/
structure NoGap (node : QueryDelivery) (subscription : QuerySubscription) : Prop where
  once : subscription.channel.delivered.Sublist node.results
  increasing : subscription.channel.delivered.Pairwise Precedes
  ordered : subscription.after subscription.channel.delivered <+: subscription.after node.results
  /-- Between dispatches nothing is missing. -/
  complete : node.phase = .idle → subscription.after subscription.channel.delivered = subscription.after node.results

/-- All dispatches and subscriptions are done, and every subscriber has received what it is due. -/
structure Complete (node : QueryDelivery) (calls : List DispatchCall) (callers : Nat) : Prop where
  published : node.results.map (·.results) = (calls.map (·.diffs)).filter (· ≠ [])
  attached : node.subscriptions.length = callers
  received : ∀ subscription ∈ node.subscriptions,
    subscription.after subscription.channel.taken = subscription.after node.results

end QueryDelivery

end DrasiCore
