import DrasiCore.ReactionCheckpoints

/-! Checkpoints of a reaction never go back, as long as the host does not write one between the read and the write of an
advance. -/

namespace DrasiCore.Proofs

open CheckpointSystem

/-- A write keeps the epoch and does not lower the sequence; only the host begins an epoch. -/
def CheckpointWrite.Forward (write : CheckpointWrite) : Prop :=
  ∀ old, write.replaced = some old →
    (write.written.configHash = old.configHash ∧ old.sequence ≤ write.written.sequence) ∨
      (write.byHost ∧ write.written.configHash ≠ old.configHash)

/-- The host stays away from a checkpoint that the reaction has read and is about to write. -/
def HostWaits (system : CheckpointSystem) : CheckpointAction → Prop
  | .hostWrite queryId _ => ∀ own checkpoint attempt rest policy,
      system.phase = .writing own checkpoint attempt rest policy → own ≠ queryId
  | _ => True

/-- What may replace a stored checkpoint within its epoch. -/
def Supersedes (checkpoint : ReactionCheckpoint) (stored : Option ReactionCheckpoint) : Prop :=
  ∀ old, stored = some old → checkpoint.configHash = old.configHash ∧ old.sequence ≤ checkpoint.sequence

theorem supersedes_refresh (state : CheckpointState) (queryId : String) (stored : Option ReactionCheckpoint) :
    Supersedes ((state.refresh queryId stored).current queryId) stored := by
  intro old same
  subst same
  have refreshed : (state.refresh queryId (some old)).current queryId =
      if old.configHash ≠ (state.current queryId).configHash ∨ (state.current queryId).sequence < old.sequence then old
      else state.current queryId := by
    simp only [CheckpointState.refresh, CheckpointState.current, CheckpointState.insert, Function.update_self,
      Option.getD_some]
  rw [refreshed]
  by_cases taken : old.configHash ≠ (state.current queryId).configHash ∨ (state.current queryId).sequence < old.sequence
  · rw [if_pos taken]
    exact ⟨rfl, Nat.le_refl _⟩
  · rw [if_neg taken]
    rw [not_or, not_not, Nat.not_lt] at taken
    exact ⟨taken.1.symm, taken.2⟩

structure NeverBack (system : CheckpointSystem) : Prop where
  forward : ∀ write ∈ system.writes, CheckpointWrite.Forward write
  pending : ∀ queryId checkpoint attempt rest policy, system.phase = .writing queryId checkpoint attempt rest policy →
    Supersedes checkpoint (system.store queryId)

namespace NeverBack

variable {system : CheckpointSystem}
variable {policy : ReactionRecoveryPolicy} {queryId : String} {checkpoint : ReactionCheckpoint} {attempt : Nat}
  {rest : List (String × Nat)}

theorem next_ne_writing {entries other} :
    AdvancePhase.next entries policy ≠ .writing queryId checkpoint attempt rest other := by
  cases entries <;> exact nofun

section

variable (holds : NeverBack system)
include holds

theorem settled {state phase}
    (none : ∀ queryId checkpoint attempt rest policy, phase ≠ .writing queryId checkpoint attempt rest policy) :
    NeverBack { system with state := state, phase := phase } :=
  ⟨holds.forward, fun queryId checkpoint attempt rest policy writing =>
    absurd writing (none queryId checkpoint attempt rest policy)⟩

theorem forward_put {byHost} (may : CheckpointWrite.Forward ⟨byHost, queryId, system.store queryId, checkpoint⟩) :
    ∀ write ∈ (system.put byHost queryId checkpoint).writes, CheckpointWrite.Forward write := by
  intro write member
  rcases List.mem_append.mp member with before | last
  · exact holds.forward write before
  · rw [List.mem_singleton.mp last]
    exact may

theorem afterRead (queryId : String) (sequence : Nat) (rest : List (String × Nat)) (policy : ReactionRecoveryPolicy) :
    NeverBack (system.afterRead queryId sequence rest policy) := by
  unfold CheckpointSystem.afterRead
  by_cases ahead : sequence ≤ ((system.state.refresh queryId
      (if system.state.hasStore then system.store queryId else none)).current queryId).sequence
  · rw [if_pos ahead]
    exact holds.settled fun _ _ _ _ _ => next_ne_writing
  · rw [if_neg ahead]
    cases has : system.state.hasStore with
    | false =>
      rw [if_neg (fun store : (system.state.refresh _ _).hasStore = true => Bool.false_ne_true (has.symm.trans store))]
      exact holds.settled fun _ _ _ _ _ => next_ne_writing
    | true =>
      rw [has, if_pos rfl] at ahead
      rw [if_pos (show (system.state.refresh _ _).hasStore = true from has), if_pos rfl]
      refine ⟨holds.forward, ?_⟩
      intro own checkpoint attempt others other writing
      cases writing
      intro old stored
      have refreshed := supersedes_refresh system.state queryId (system.store queryId) old stored
      exact ⟨refreshed.1, by dsimp only; omega⟩

section

variable (writing : system.phase = .writing queryId checkpoint attempt rest policy)
include writing

theorem write : NeverBack (system.put false queryId checkpoint) := by
  have supersedes := holds.pending queryId checkpoint attempt rest policy writing
  refine ⟨holds.forward_put fun old replaced => .inl (supersedes old replaced), ?_⟩
  intro own next count others other under
  have same := writing.symm.trans under
  cases same
  intro old stored
  simp only [CheckpointSystem.put, Function.update_self, Option.some.injEq] at stored
  subst stored
  exact ⟨rfl, Nat.le_refl _⟩

theorem afterFailedWrite : NeverBack (system.afterFailedWrite queryId checkpoint attempt rest policy) := by
  unfold CheckpointSystem.afterFailedWrite
  split
  · exact holds.settled fun _ _ _ _ _ => nofun
  · exact holds.settled fun _ _ _ _ _ => next_ne_writing
  · split
    · refine ⟨holds.forward, ?_⟩
      intro own next count others other under
      cases under
      exact holds.pending _ _ _ _ _ writing
    · exact holds.settled fun _ _ _ _ _ => nofun

end

theorem hostWrite (may : system.hostMayWrite queryId checkpoint)
    (waits : HostWaits system (.hostWrite queryId checkpoint)) : NeverBack (system.put true queryId checkpoint) := by
  constructor
  · apply holds.forward_put
    intro old replaced
    by_cases same : checkpoint.configHash = old.configHash
    · exact .inl ⟨same, ((may old replaced).resolve_left (not_not.mpr same)).le⟩
    · exact .inr ⟨rfl, same⟩
  · intro own next attempt rest policy writing old stored
    have other := waits own next attempt rest policy writing
    exact holds.pending own next attempt rest policy writing old ((Function.update_of_ne other _ _).symm.trans stored)

theorem step {action after} (waits : HostWaits system action) (step : Step action system after) : NeverBack after := by
  cases step with
  | call call idle => exact holds.settled fun _ _ _ _ _ => next_ne_writing
  | read reading => exact holds.afterRead ..
  | readFails reading => exact holds.settled fun _ _ _ _ _ => nofun
  | write writing => exact (holds.write writing).settled fun _ _ _ _ _ => next_ne_writing
  | writeFails lands writing =>
    cases lands with
    | true => exact (holds.write writing).afterFailedWrite writing
    | false => exact holds.afterFailedWrite writing
  | hostWrite may => exact holds.hostWrite may waits

end

end NeverBack

/-- **Reaction checkpoints never regress**: in every run in which the host does not write a checkpoint between the read and
the write of an advance, every write keeps the epoch and does not lower the sequence, or begins an epoch of the host. -/
theorem reaction_checkpoints_forward {store : String → Option ReactionCheckpoint} {state : CheckpointState}
    {system : CheckpointSystem} (reached : Reached HostWaits (.start store state) system) :
    ∀ write ∈ system.writes, CheckpointWrite.Forward write := by
  suffices holds : NeverBack system from holds.forward
  induction reached with
  | refl => exact ⟨fun _ member => absurd member List.not_mem_nil, fun _ _ _ _ _ writing => nomatch writing⟩
  | tail _ last ih =>
    obtain ⟨action, waits, step⟩ := last
    exact ih.step waits step

section Samples

/-- A reaction that has processed five results of a query. -/
def processedFive : CheckpointSystem := .start (fun _ => some ⟨5, 1⟩) (.load true)

/-- It has read its checkpoint and is about to advance it. -/
def advancingToSix : CheckpointSystem :=
  { processedFive with phase := .reading "query" 6 [] .strict }.afterRead "query" 6 [] .strict

/-- The host begins an epoch, and the reaction goes on in it. -/
theorem reaction_checkpoints_forward_epoch :
    ∃ system, Reached HostWaits processedFive system ∧ system.writes.map (·.written) = [⟨0, 2⟩, ⟨6, 2⟩] ∧
      ∀ write ∈ system.writes, CheckpointWrite.Forward write := by
  have host : Reached HostWaits processedFive (processedFive.put true "query" ⟨0, 2⟩) :=
    .single ⟨.hostWrite "query" ⟨0, 2⟩, (fun _ _ _ _ _ writing => nomatch writing), .hostWrite fun old stored => by
      cases stored
      exact .inl (by decide)⟩
  have called := host.tail ⟨.call (.advance "query" 6), trivial, .call (.advance "query" 6) rfl⟩
  have read := called.tail ⟨.read true, trivial, .read rfl⟩
  have written := read.tail ⟨.write true true, trivial, .write rfl⟩
  exact ⟨_, written, by decide +kernel, reaction_checkpoints_forward written⟩

/-- The host begins an epoch after the reaction has read its checkpoint: the reaction brings the old epoch back. -/
theorem advance_brings_back_epoch :
    ∃ system, Reached (fun _ _ => True) processedFive system ∧
      ∃ write ∈ system.writes, ¬ CheckpointWrite.Forward write := by
  have called : Reached (fun _ _ => True) processedFive { processedFive with phase := .reading "query" 6 [] .strict } :=
    .single ⟨.call (.advance "query" 6), trivial, .call (.advance "query" 6) rfl⟩
  have read : Reached (fun _ _ => True) processedFive advancingToSix := called.tail ⟨.read true, trivial, .read rfl⟩
  have host : Reached (fun _ _ => True) processedFive (advancingToSix.put true "query" ⟨0, 2⟩) :=
    read.tail ⟨.hostWrite "query" ⟨0, 2⟩, trivial, .hostWrite fun old stored => by
      cases stored
      exact .inl (by decide)⟩
  have written := host.tail ⟨.write true true, trivial, .write rfl⟩
  refine ⟨_, written, ⟨false, "query", some ⟨0, 2⟩, ⟨6, 1⟩⟩, ?_, ?_⟩
  · exact List.mem_append_right _ (List.mem_singleton_self _)
  · intro forward
    rcases forward ⟨0, 2⟩ rfl with same | host
    · exact absurd same.1 (by decide)
    · exact Bool.false_ne_true host.1

end Samples

end DrasiCore.Proofs
