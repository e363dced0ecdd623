import DrasiCore.ReactionForwarder
import DrasiCore.Proofs.OutboxReads

/-! What a reaction gets from the forwarder of a query: results one after another, and bootstraps that go ahead. -/

namespace DrasiCore

/-- Each result follows the one before it, and a bootstrap goes ahead to the sequence of its snapshot. -/
def ReactionInput.Continues : Nat → List ReactionInput → Prop
  | _, [] => True
  | last, .result entry :: rest => entry.sequence = last + 1 ∧ Continues entry.sequence rest
  | last, .bootstrap sequence :: rest => last ≤ sequence ∧ Continues sequence rest

def ReactionInput.position : Nat → List ReactionInput → Nat
  | last, [] => last
  | _, .result entry :: rest => position entry.sequence rest
  | _, .bootstrap sequence :: rest => position sequence rest

/-- The outbox has no holes and ends with the current sequence. -/
def QueryOutputState.Gapless (state : QueryOutputState) : Prop :=
  ∃ first count, state.outbox.map (·.sequence) = List.range' first count ∧ first + count = state.asOfSequence + 1

namespace Proofs

open ReactionInput (Continues position)
open ReactionForwarder

variable (last : Nat)

theorem position_append (one two : List ReactionInput) :
    position last (one ++ two) = position (position last one) two := by
  induction one generalizing last with
  | nil => rfl
  | cons input one ih => cases input <;> exact ih _

theorem position_result (inputs : List ReactionInput) (entry : QueryResult) :
    position last (inputs ++ [.result entry]) = entry.sequence := by
  rw [position_append]
  rfl

theorem position_bootstrap (inputs : List ReactionInput) (sequence : Nat) :
    position last (inputs ++ [.bootstrap sequence]) = sequence := by
  rw [position_append]
  rfl

theorem continues_append (one two : List ReactionInput) :
    Continues last (one ++ two) ↔ Continues last one ∧ Continues (position last one) two := by
  induction one generalizing last with
  | nil => simp [Continues, position]
  | cons input one ih => cases input <;> simp [Continues, position, ih, and_assoc]

section Outbox

variable {state : QueryOutputState}

theorem Gapless.push (gapless : state.Gapless) {result} (next : result.sequence = state.asOfSequence + 1) :
    (({ state with asOfSequence := state.asOfSequence + 1 }).pushOutbox result).Gapless := by
  obtain ⟨first, count, window, ends⟩ := gapless
  unfold QueryOutputState.pushOutbox
  split
  · -- The oldest result makes room.
    cases count with
    | zero =>
      refine ⟨state.asOfSequence + 1, 1, ?_, rfl⟩
      have empty : state.outbox = [] := List.map_eq_nil_iff.mp window
      simp [empty, next]
    | succ count =>
      refine ⟨first + 1, count + 1, ?_, ?_⟩
      · rw [List.map_append, List.map_tail, window, List.range'_succ, List.tail_cons, List.range'_concat, Nat.one_mul,
          List.map_singleton, next]
        congr 2
        omega
      · show first + 1 + (count + 1) = state.asOfSequence + 1 + 1
        omega
  · refine ⟨first, count + 1, ?_, ?_⟩
    · rw [List.map_append, window, List.range'_concat, Nat.one_mul, List.map_singleton, next, ends]
    · show first + (count + 1) = state.asOfSequence + 1 + 1
      omega

theorem Gapless.perform (gapless : state.Gapless) (call : OutputCall)
    (numbered : state.asOfSequence + 1 < QueryOutputState.maxSequence) : (state.perform call).1.Gapless := by
  cases call with
  | advance result =>
    have next : min (state.asOfSequence + 1) QueryOutputState.maxSequence = state.asOfSequence + 1 :=
      Nat.min_eq_left numbered.le
    simp only [QueryOutputState.perform, QueryOutputState.advanceSequenceAndPush, next]
    exact Gapless.push gapless rfl
  | committed diffs result => exact Gapless.push gapless rfl

theorem asOfSequence_perform (call : OutputCall) (numbered : state.asOfSequence + 1 < QueryOutputState.maxSequence) :
    (state.perform call).1.asOfSequence = state.asOfSequence + 1 ∧
      (state.perform call).2.sequence = state.asOfSequence + 1 := by
  cases call with
  | advance result => exact ⟨Nat.min_eq_left numbered.le, Nat.min_eq_left numbered.le⟩
  | committed diffs result => exact ⟨rfl, rfl⟩

end Outbox

/-- The first result of all is not lost, results of the channel can be enqueued, and a channel that lagged lost nothing.
The counter of the query does not come to its end. -/
def KeepsUp (forwarder : ReactionForwarder) : ForwarderAction → Prop
  | .emit _ => forwarder.query.asOfSequence + 1 < QueryOutputState.maxSequence
  | .forward succeeds => succeeds ∧
      (forwarder.lastForwardedSeq = 0 → ∀ result ∈ forwarder.channel.head?, result.sequence ≤ 1)
  | .recover _ _ => ∀ result, forwarder.phase = .recovering result → result = none →
      forwarder.query.asOfSequence = forwarder.lastForwardedSeq
  | _ => True

def PhaseHolds (forwarder : ReactionForwarder) : ForwarderPhase → Prop
  | .catchingUp result entries => result.sequence ≤ forwarder.query.asOfSequence ∧
      ∃ count, entries.map (·.sequence) = List.range' (forwarder.lastForwardedSeq + 1) count
  | .recovering (some result) => forwarder.lastForwardedSeq < result.sequence ∧
      result.sequence ≤ forwarder.query.asOfSequence
  | _ => True

structure Forwards (checkpoint : Nat) (forwarder : ReactionForwarder) : Prop where
  continues : Continues checkpoint forwarder.inputs
  last : forwarder.phase ≠ .gated → forwarder.lastForwardedSeq = position checkpoint forwarder.inputs
  gate : forwarder.phase = .gated → forwarder.inputs = [] ∧ forwarder.checkpoint.getD 0 = checkpoint
  emitted : ∀ result ∈ forwarder.channel, result.sequence ≤ forwarder.query.asOfSequence
  gapless : forwarder.query.Gapless
  holds : PhaseHolds forwarder forwarder.phase
  policy : forwarder.policy ≠ .autoSkipGap

namespace Forwards

variable {checkpoint : Nat} {forwarder next : ReactionForwarder} {result : QueryResult} {rest : List QueryResult}

theorem start {query} (gapless : query.Gapless) {policy} (noSkip : policy ≠ .autoSkipGap) (checkpoint : Option Nat) :
    Forwards (checkpoint.getD 0) (.start query policy checkpoint) :=
  ⟨trivial, fun opened => absurd rfl opened, fun _ => ⟨rfl, rfl⟩, fun _ member => absurd member List.not_mem_nil, gapless,
    trivial, noSkip⟩

section

variable (forwards : Forwards checkpoint forwarder)
include forwards

theorem withChannel {channel} (fewer : channel ⊆ forwarder.channel) :
    Forwards checkpoint { forwarder with channel := channel } := by
  refine { forwards with emitted := fun result member => forwards.emitted result (fewer member), holds := ?_ }
  have holds := forwards.holds
  cases phase : forwarder.phase with
  | recovering waiting => cases waiting <;> (rw [phase] at holds; exact holds)
  | _ =>
    rw [phase] at holds
    exact holds

theorem enter (opened : forwarder.phase ≠ .gated) {phase} (remains : phase ≠ .gated)
    (holds : PhaseHolds { forwarder with phase := phase } phase) :
    Forwards checkpoint { forwarder with phase := phase } :=
  { forwards with
    last := fun _ => forwards.last opened
    gate := fun gated => absurd gated remains
    holds := holds }

theorem emit (call : OutputCall) (numbered : forwarder.query.asOfSequence + 1 < QueryOutputState.maxSequence) :
    Forwards checkpoint { forwarder with
      query := (forwarder.query.perform call).1
      channel := forwarder.channel ++ [(forwarder.query.perform call).2] } := by
  obtain ⟨asOf, sequence⟩ := asOfSequence_perform call numbered
  have holds := forwards.holds
  refine { forwards with emitted := ?_, gapless := Gapless.perform forwards.gapless call numbered, holds := ?_ }
  · intro result member
    rw [asOf]
    rcases List.mem_append.mp member with old | new
    · exact Nat.le_succ_of_le (forwards.emitted result old)
    · rw [List.mem_singleton.mp new, sequence]
  · cases phase : forwarder.phase with
    | catchingUp result entries =>
      rw [phase] at holds
      exact ⟨asOf ▸ Nat.le_succ_of_le holds.1, holds.2⟩
    | recovering waiting =>
      cases waiting with
      | none => trivial
      | some result =>
        rw [phase] at holds
        exact ⟨holds.1, asOf ▸ Nat.le_succ_of_le holds.2⟩
    | _ => trivial

theorem enqueue (opened : forwarder.phase ≠ .gated) (follows : result.sequence = forwarder.lastForwardedSeq + 1) :
    Forwards checkpoint (forwarder.enqueueQueryResult result true) := by
  have last := forwards.last opened
  refine ⟨?_, fun _ => ?_, (fun gated => nomatch gated), forwards.emitted, forwards.gapless, trivial, forwards.policy⟩
  · rw [enqueueQueryResult, if_pos rfl, if_pos rfl]
    exact (continues_append _ _ _).mpr ⟨forwards.continues, last ▸ follows, trivial⟩
  · rw [enqueueQueryResult, if_pos rfl, if_pos rfl]
    exact (position_result _ _ _).symm

theorem catchUp {entry} (succeeds : Bool) (catching : forwarder.phase = .catchingUp result (entry :: rest)) :
    Forwards checkpoint (forwarder.catchUpEntry result entry rest succeeds) := by
  have opened : forwarder.phase ≠ .gated := by simp [catching]
  have holds := forwards.holds
  rw [catching] at holds
  obtain ⟨emitted, count, numbers⟩ := holds
  cases succeeds with
  | false => exact forwards.enter opened nofun ⟨emitted, 0, rfl⟩
  | true =>
    cases count with
    | zero => exact absurd numbers nofun
    | succ count =>
      rw [List.map_cons, List.range'_succ] at numbers
      obtain ⟨first, later⟩ := List.cons_eq_cons.mp numbers
      have last := forwards.last opened
      refine ⟨?_, fun _ => ?_, (fun gated => nomatch gated), forwards.emitted, forwards.gapless, ⟨emitted, count, ?_⟩,
        forwards.policy⟩
      · exact (continues_append _ _ _).mpr ⟨forwards.continues, last ▸ first, trivial⟩
      · exact (position_result _ _ _).symm
      · show rest.map (·.sequence) = List.range' (entry.sequence + 1) count
        rw [first]
        exact later

/-- The snapshot of a reset is ahead of the result that came after the gap. -/
theorem reset {waiting sequence seen answers} (succeeds : Bool) (recovering : forwarder.phase = .recovering waiting)
    (handled : forwarder.handleBroadcastGap answers = some (sequence, seen))
    (keepsUp : waiting = none → forwarder.query.asOfSequence = forwarder.lastForwardedSeq) :
    Forwards checkpoint (forwarder.resume sequence seen waiting succeeds) := by
  have opened : forwarder.phase ≠ .gated := by simp [recovering]
  have last := forwards.last opened
  have holds := forwards.holds
  rw [recovering] at holds
  have ahead : forwarder.lastForwardedSeq ≤ forwarder.query.asOfSequence := by
    cases waiting with
    | none => exact (keepsUp rfl).ge
    | some result => exact le_trans holds.1.le holds.2
  obtain ⟨rfl, rfl⟩ : sequence = forwarder.query.asOfSequence ∧ seen = [.bootstrap forwarder.query.asOfSequence] := by
    unfold handleBroadcastGap at handled
    split at handled
    · cases handled
    · cases handled
    · cases handled
      exact ⟨rfl, rfl⟩
    · exact absurd ‹_› forwards.policy
    · exact absurd ‹_› forwards.policy
  have continues : Continues checkpoint (forwarder.inputs ++ [.bootstrap forwarder.query.asOfSequence]) :=
    (continues_append _ _ _).mpr ⟨forwards.continues, last ▸ ahead, trivial⟩
  have reached : forwarder.query.asOfSequence =
      position checkpoint (forwarder.inputs ++ [.bootstrap forwarder.query.asOfSequence]) := (position_bootstrap _ _ _).symm
  cases waiting with
  | none =>
    exact ⟨continues, fun _ => (keepsUp rfl).symm.trans reached, (fun gated => nomatch gated), forwards.emitted,
      forwards.gapless, trivial, forwards.policy⟩
  | some result =>
    simp only [resume]
    rw [if_pos holds.2]
    exact ⟨continues, fun _ => reached, (fun gated => nomatch gated), forwards.emitted, forwards.gapless, trivial,
      forwards.policy⟩

theorem step {action} (keepsUp : KeepsUp forwarder action) (step : Step action forwarder next) :
    Forwards checkpoint next := by
  cases step with
  | emit call => exact forwards.emit call keepsUp
  | lose index => exact forwards.withChannel (List.eraseIdx_subset)
  | openGate gated =>
    obtain ⟨empty, same⟩ := forwards.gate gated
    refine { forwards with last := fun _ => ?_, gate := (fun gated => nomatch gated), holds := trivial }
    show forwarder.checkpoint.getD 0 = position checkpoint forwarder.inputs
    rw [empty, same]
    rfl
  | @skip _ result rest receiving pending old =>
    exact forwards.withChannel (pending ▸ List.subset_cons_self result rest)
  | @forward _ result rest succeeds receiving pending new follows =>
    obtain ⟨rfl, first⟩ := keepsUp
    have opened : forwarder.phase ≠ .gated := by simp [receiving]
    refine (forwards.withChannel (pending ▸ List.subset_cons_self result rest)).enqueue opened ?_
    have bound := first
    rw [pending] at bound
    have close : ¬ (0 < forwarder.lastForwardedSeq ∧ forwarder.lastForwardedSeq + 1 < result.sequence) := by
      simpa [gapBefore] using follows
    show result.sequence = forwarder.lastForwardedSeq + 1
    by_cases nothing : forwarder.lastForwardedSeq = 0
    · have single := bound nothing result rfl
      omega
    · omega
  | @fetchOutbox _ result rest entries receiving pending gap answer =>
    have opened : forwarder.phase ≠ .gated := by simp [receiving]
    obtain ⟨first, count, window, ends⟩ := forwards.gapless
    have read := (fetch_gapless window ends (fun _ member => member) _ entries answer).1
    have emitted := forwards.emitted result (pending ▸ List.mem_cons_self)
    have fewer : rest ⊆ forwarder.channel := pending ▸ List.subset_cons_self result rest
    refine (forwards.withChannel fewer).enter opened ?_ ⟨emitted, _, read⟩
    simp
  | @fetchFails _ result rest receiving pending gap =>
    have opened : forwarder.phase ≠ .gated := by simp [receiving]
    have emitted := forwards.emitted result (pending ▸ List.mem_cons_self)
    have wide : 0 < forwarder.lastForwardedSeq ∧ forwarder.lastForwardedSeq + 1 < result.sequence := by
      simpa [gapBefore] using gap
    have fewer : rest ⊆ forwarder.channel := pending ▸ List.subset_cons_self result rest
    refine (forwards.withChannel fewer).enter opened ?_ ⟨Nat.lt_of_succ_lt wide.2, emitted⟩
    simp
  | catchUp succeeds catching => exact forwards.catchUp succeeds catching
  | caughtUp catching old => exact forwards.enter (by simp [catching]) nofun trivial
  | stillBehind catching behind =>
    have holds := forwards.holds
    rw [catching] at holds
    exact forwards.enter (by simp [catching]) nofun ⟨behind, holds.1⟩
  | lag lost receiving =>
    exact (forwards.withChannel (List.drop_subset lost _)).enter (by simp [receiving]) nofun trivial
  | recover answers succeeds recovering handled =>
    exact forwards.reset succeeds recovering handled (keepsUp _ recovering)
  | recoveryFails recovering => exact forwards.enter (by simp [recovering]) nofun trivial
  | close receiving => exact forwards.enter (by simp [receiving]) nofun trivial

end

end Forwards

section Sample

def freshForwarder (policy : ReactionRecoveryPolicy) : ReactionForwarder := start (.new 4) policy none

/-- A query that has produced two results. -/
def runningQuery : QueryOutputState :=
  ((QueryOutputState.new 4).performAll [.advance (sampleResult 0), .advance (sampleResult 0)]).1

def nextResult : ForwarderAction := .emit (.advance (sampleResult 0))

end Sample

end Proofs

end DrasiCore
