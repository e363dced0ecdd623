import DrasiCore.DurableOutput

/-! The task that forwards the results of a query to a reaction. Results reach it through a channel that may lose some; it
closes gaps from the outbox of the query, or recovers by the policy of the reaction. -/

namespace DrasiCore

inductive ReactionRecoveryPolicy where
  | strict
  | autoReset
  | autoSkipGap
deriving DecidableEq

inductive ReactionInput where
  | result (result : QueryResult)
  /-- A bootstrap, with the sequence of the snapshot it was started for. -/
  | bootstrap (sequence : Nat)

inductive ForwarderPhase where
  /-- Waits for the bootstrap of the reaction. -/
  | gated
  | receiving
  /-- A result came after a gap, and the entries of the outbox still to be enqueued. -/
  | catchingUp (result : QueryResult) (entries : List QueryResult)
  /-- A gap is to be handled by the policy: before a result, or after the channel lagged. -/
  | recovering (result : Option QueryResult)
  | stopped

structure ReactionForwarder where
  query : QueryOutputState
  /-- Results on their way to the forwarder. -/
  channel : List QueryResult
  policy : ReactionRecoveryPolicy
  /-- The checkpoint in the map shared with the other forwarders. -/
  checkpoint : Option Nat
  lastForwardedSeq : Nat
  phase : ForwarderPhase
  /-- All that was enqueued successfully. No program state. -/
  inputs : List ReactionInput

inductive ForwarderAction where
  | emit (call : OutputCall)
  | lose (index : Nat)
  | openGate
  /-- Take a result that is neither old nor after a gap, and enqueue it. -/
  | forward (succeeds : Bool)
  | skip
  /-- Take a result after a gap and ask the query for its outbox. -/
  | fetchOutbox (answers : Bool)
  | catchUp (succeeds : Bool)
  | leaveCatchUp
  | lag (lost : Nat)
  | recover (answers succeeds : Bool)
  | close

namespace ReactionForwarder

def start (query : QueryOutputState) (policy : ReactionRecoveryPolicy) (checkpoint : Option Nat) : ReactionForwarder :=
  ⟨query, [], policy, checkpoint, 0, .gated, []⟩

variable (forwarder : ReactionForwarder) (result : QueryResult)

/-- The result comes after a gap. Nothing counts as a gap as long as nothing was forwarded. -/
def gapBefore : Bool :=
  0 < forwarder.lastForwardedSeq && forwarder.lastForwardedSeq + 1 < result.sequence

/-- Enqueue a result of the channel; a failure is only logged. -/
def enqueueQueryResult (succeeds : Bool) : ReactionForwarder :=
  { forwarder with
    lastForwardedSeq := result.sequence
    phase := .receiving
    checkpoint := if succeeds then some result.sequence else forwarder.checkpoint
    inputs := forwarder.inputs ++ if succeeds then [.result result] else [] }

/-- Enqueue an entry of the outbox; a failure ends the catch-up. -/
def catchUpEntry (entry : QueryResult) (rest : List QueryResult) (succeeds : Bool) : ReactionForwarder :=
  if succeeds then
    { forwarder with
      lastForwardedSeq := entry.sequence
      phase := .catchingUp result rest
      inputs := forwarder.inputs ++ [.result entry] }
  else { forwarder with phase := .catchingUp result [] }

/-- The sequence at which the policy goes on, and what the reaction sees of it, depending on whether the query answers. -/
def handleBroadcastGap (answers : Bool) : Option (Nat × List ReactionInput) :=
  match forwarder.policy, answers with
  | .strict, _ | .autoReset, false => none
  | .autoReset, true => some (forwarder.query.asOfSequence, [.bootstrap forwarder.query.asOfSequence])
  | .autoSkipGap, true => some (forwarder.query.asOfSequence, [])
  | .autoSkipGap, false => some (forwarder.checkpoint.getD 0, [])

/-- Go on after the gap. Where a result was waiting, the forwarder continues from the checkpoint. -/
def resume (sequence : Nat) (seen : List ReactionInput) (result : Option QueryResult) (succeeds : Bool) :
    ReactionForwarder :=
  let recovered := { forwarder with checkpoint := some sequence, inputs := forwarder.inputs ++ seen, phase := .receiving }
  match result with
  | none => recovered
  | some result =>
    if result.sequence ≤ sequence then { recovered with lastForwardedSeq := sequence }
    else { recovered with lastForwardedSeq := sequence }.enqueueQueryResult result succeeds

inductive Step : ForwarderAction → ReactionForwarder → ReactionForwarder → Prop where
  | emit {forwarder : ReactionForwarder} (call : OutputCall) :
      Step (.emit call) forwarder
        { forwarder with
          query := (forwarder.query.perform call).1
          channel := forwarder.channel ++ [(forwarder.query.perform call).2] }
  | lose {forwarder : ReactionForwarder} (index : Nat) :
      Step (.lose index) forwarder { forwarder with channel := forwarder.channel.eraseIdx index }
  | openGate {forwarder : ReactionForwarder} (gated : forwarder.phase = .gated) :
      Step .openGate forwarder
        { forwarder with lastForwardedSeq := forwarder.checkpoint.getD 0, phase := .receiving }
  | skip {forwarder result rest}
      (receiving : forwarder.phase = .receiving) (next : forwarder.channel = result :: rest)
      (old : result.sequence ≤ forwarder.lastForwardedSeq) :
      Step .skip forwarder { forwarder with channel := rest }
  | forward {forwarder result rest} (succeeds : Bool)
      (receiving : forwarder.phase = .receiving) (next : forwarder.channel = result :: rest)
      (new : forwarder.lastForwardedSeq < result.sequence) (follows : forwarder.gapBefore result = false) :
      Step (.forward succeeds) forwarder ({ forwarder with channel := rest }.enqueueQueryResult result succeeds)
  | fetchOutbox {forwarder result rest entries}
      (receiving : forwarder.phase = .receiving) (next : forwarder.channel = result :: rest)
      (gap : forwarder.gapBefore result) (answer : forwarder.query.fetchOutboxAfter forwarder.lastForwardedSeq = .ok entries) :
      Step (.fetchOutbox true) forwarder { forwarder with channel := rest, phase := .catchingUp result entries }
  /-- The outbox does not reach back that far, or the query does not answer. -/
  | fetchFails {forwarder result rest}
      (receiving : forwarder.phase = .receiving) (next : forwarder.channel = result :: rest)
      (gap : forwarder.gapBefore result) :
      Step (.fetchOutbox false) forwarder { forwarder with channel := rest, phase := .recovering (some result) }
  | catchUp {forwarder result entry rest} (succeeds : Bool)
      (catching : forwarder.phase = .catchingUp result (entry :: rest)) :
      Step (.catchUp succeeds) forwarder (forwarder.catchUpEntry result entry rest succeeds)
  | caughtUp {forwarder : ReactionForwarder} {result : QueryResult} (catching : forwarder.phase = .catchingUp result [])
      (old : result.sequence ≤ forwarder.lastForwardedSeq) :
      Step .leaveCatchUp forwarder { forwarder with phase := .receiving }
  | stillBehind {forwarder : ReactionForwarder} {result : QueryResult} (catching : forwarder.phase = .catchingUp result [])
      (behind : forwarder.lastForwardedSeq < result.sequence) :
      Step .leaveCatchUp forwarder { forwarder with phase := .recovering (some result) }
  /-- The channel dropped its oldest results and says so. -/
  | lag {forwarder : ReactionForwarder} (lost : Nat) (receiving : forwarder.phase = .receiving) :
      Step (.lag lost) forwarder { forwarder with channel := forwarder.channel.drop lost, phase := .recovering none }
  | recover {forwarder result sequence seen}
      (answers succeeds : Bool) (recovering : forwarder.phase = .recovering result)
      (handled : forwarder.handleBroadcastGap answers = some (sequence, seen)) :
      Step (.recover answers succeeds) forwarder (forwarder.resume sequence seen result succeeds)
  /-- The policy does not allow it, or snapshot, bootstrap or checkpoint fail. -/
  | recoveryFails {forwarder : ReactionForwarder} {result}
      (recovering : forwarder.phase = .recovering result) :
      Step .close forwarder { forwarder with phase := .stopped }
  | close {forwarder : ReactionForwarder} (receiving : forwarder.phase = .receiving) :
      Step .close forwarder { forwarder with phase := .stopped }

/-- States reached by steps that are all allowed in the state they are taken in. -/
def Reached (allowed : ReactionForwarder → ForwarderAction → Prop) (start forwarder : ReactionForwarder) : Prop :=
  Relation.ReflTransGen (fun before after => ∃ action, allowed before action ∧ Step action before after) start forwarder

end ReactionForwarder

end DrasiCore
