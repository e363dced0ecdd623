import DrasiCore.StartRecovery
import DrasiCore.Proofs.OutputSurvival
import Mathlib.Tactic.IntervalCases

/-! Whatever a crash leaves of a rebuild, the next start refuses, rebuilds, or finds stores that belong together. -/

namespace DrasiCore.Proofs

open Library LiveRows GenerationContents RecoverySystem DurableStore List QueryOutputState

variable {Change Index : Type}

/-- All stores hold exactly what the entries of the log put there. -/
structure Belongs (core : QueryCore Change Index) (queryId : String) (store : DurableStore Index)
    (log : List (LogEntry Change)) : Prop where
  index : store.index = (ofLog core queryId log).index
  recorded : Recorded store.output (ofLog core queryId log).committed
  checkpoints : store.output.checkpoints = (ofLog core queryId log).checkpoints

/-- Changes of a bootstrap are committed, but its snapshot is not. -/
def bootstrapUnfinished (log : List (LogEntry Change)) : Bool := log.any (·.isBootstrap) && !log.any (·.isHandover)

structure BlankOutput (output : DurableOutput) : Prop where
  sequence : output.resultSequence.getD 0 = 0
  outbox : output.outbox.entries = []
  rows : output.liveRows = ∅
  checkpoints : output.checkpoints = ∅

structure BlankMemory (memory : QueryOutputState) : Prop where
  rows : memory.results = ∅
  sequence : memory.asOfSequence = 0
  outbox : memory.outbox = []

theorem BlankOutput.recorded {output} (blank : BlankOutput output) : Recorded output ⟨∅, []⟩ where
  numbered := numbered_nil
  sequence := blank.sequence
  rows := by rw [blank.rows]; rfl
  window := ⟨0, le_refl _, blank.outbox⟩
  positioned := by
    rw [blank.checkpoints]
    exact fun _ member => nomatch member
  unnumbered := fun _ => .inl (by rw [blank.rows]; rfl)

variable {memory : QueryOutputState}

theorem BlankOutput.inStep {output} (blank : BlankOutput output) (empty : BlankMemory memory)
    (capacity : 0 < memory.outboxCapacity) : InStep memory output where
  rows := by rw [empty.rows, blank.rows]
  sequence := by rw [empty.sequence, blank.sequence]
  outbox := by rw [empty.outbox, OrderedMap.values, blank.outbox]; simp
  capacity := capacity

variable {store : DurableStore Index} {core : QueryCore Change Index} {queryId : String}

theorem BlankOutput.belongs (blank : BlankOutput store.output) (empty : store.index = core.empty) :
    Belongs core queryId store [] :=
  ⟨empty, blank.recorded, blank.checkpoints⟩

/-- A query that may take events: its stores belong together and its memory shows them. -/
structure Serving (core : QueryCore Change Index) (queryId : String) (system : RecoverySystem Change Index) : Prop where
  initialized : system.memory.initialized = true
  finished : bootstrapUnfinished system.log = false
  belongs : Belongs core queryId system.store system.log
  inStep : InStep (system.memory.dispatchQueryResults system.undelivered fun _ => none) system.store.output

variable {system : RecoverySystem Change Index} {remaining : List DurableWrite} {done : Nat} {bootstrapPending : Bool}

variable {config : StartConfig}

section Rebuild

variable {plan : OutputGenerationPlan}

structure Rebuilding (core : QueryCore Change Index) (system : RecoverySystem Change Index) (config : StartConfig)
    (plan : OutputGenerationPlan) (done : Nat) : Prop where
  marked : 1 ≤ done → done ≤ 6 → system.store.configHash = some (outputResetInProgressHash config.configHash)
  sequence : 2 ≤ done → system.store.output.resultSequence = some 0
  kept : done ≤ 2 → system.store.output.outputGeneration.getD 0 = plan.persisted
  generation : 3 ≤ done → system.store.output.outputGeneration = some plan.next
  outbox : 4 ≤ done → system.store.output.outbox = .empty
  planned : done ≤ 4 → plan.next = nextOutputGeneration plan.persisted system.memory.generation
  rows : 5 ≤ done → system.store.output.liveRows = ∅
  memory : 5 ≤ done → BlankMemory system.memory ∧ system.memory.initialized = true ∧ system.memory.generation = plan.next
  index : 6 ≤ done → system.store.index = core.empty ∧ system.log = []
  checkpoints : 7 ≤ done → system.store.output.checkpoints = ∅
  unhashed : done = 7 → system.store.configHash = none
  hashed : done = 8 → system.store.configHash =
    some (if config.enableBootstrap then outputResetInProgressHash config.configHash else config.configHash)

/-- The third write of a rebuild is the new generation, and memory is reset with the fifth. -/
theorem rebuildWrites_at {hash generation write}
    (next : (rebuildWrites hash bootstrapPending generation).drop done = write :: remaining) :
    done < 8 ∧ (done = 2 → write = .outputGeneration generation) ∧
      (done ≠ 2 → ∀ other, write ≠ .outputGeneration other) ∧ (done ≠ 4 → write ≠ .clearLiveResults) ∧
      (remaining = [] ↔ done = 7) := by
  have bound : done < 8 := by
    have length := congrArg length next
    simp [rebuildWrites] at length
    omega
  interval_cases done <;> simp only [rebuildWrites, drop, cons.injEq] at next <;> obtain ⟨rfl, rfl⟩ := next <;>
    simp

theorem Rebuilding.write {write} (rebuilding : Rebuilding core system config plan done)
    (next : (rebuildWrites config.configHash config.enableBootstrap plan.next).drop done = write :: remaining) :
    Rebuilding core (system.perform core plan.persisted write) config plan (done + 1) := by
  have bound := (rebuildWrites_at next).1
  obtain ⟨marked, sequence, kept, generation, outbox, planned, rows, memory, index, checkpoints, unhashed, hashed⟩ := rebuilding
  -- Each write settles one field; what the earlier ones settled stays.
  interval_cases done <;> simp only [rebuildWrites, drop, cons.injEq] at next <;> obtain ⟨rfl, rfl⟩ := next <;>
    constructor <;> intros <;>
    first
      | omega
      | rfl
      | exact marked (by omega) (by omega)
      | exact sequence (by omega)
      | exact kept (by omega)
      | exact generation (by omega)
      | exact outbox (by omega)
      | exact planned (by omega)
      | exact rows (by omega)
      | exact memory (by omega)
      | exact ⟨⟨rfl, rfl, rfl⟩, rfl, (planned (by omega)).symm⟩
      | exact index (by omega)
      | exact ⟨rfl, rfl⟩
      | exact checkpoints (by omega)

theorem Rebuilding.withPhase (rebuilding : Rebuilding core system config plan done) (phase : QueryPhase) :
    Rebuilding core { system with phase := phase } config plan done :=
  ⟨rebuilding.marked, rebuilding.sequence, rebuilding.kept, rebuilding.generation, rebuilding.outbox, rebuilding.planned,
    rebuilding.rows, rebuilding.memory, rebuilding.index, rebuilding.checkpoints, rebuilding.unhashed, rebuilding.hashed⟩

structure RebuildProcess (system : RecoverySystem Change Index) (plan : OutputGenerationPlan) (done : Nat) : Prop where
  idle : system.undelivered = none
  capacity : 0 < system.memory.outboxCapacity
  blank : system.memory.initialized = false → BlankMemory system.memory
  larger : plan.persisted < plan.next
  generations : ∀ generation ∈ system.generations, generation ≤ if done ≤ 2 then plan.persisted else plan.next
  published : done ≤ 4 → system.memory.generation ≤ plan.persisted

theorem RebuildProcess.write {write} (process : RebuildProcess system plan done)
    (next : (rebuildWrites config.configHash config.enableBootstrap plan.next).drop done = write :: remaining) :
    RebuildProcess (system.perform core plan.persisted write) plan (done + 1) where
  idle := process.idle
  capacity := by
    simp only [RecoverySystem.perform]
    split <;> exact process.capacity
  blank := by
    simp only [RecoverySystem.perform]
    split
    · nofun
    · exact process.blank
  larger := process.larger
  generations := by
    obtain ⟨_, third, others, _⟩ := rebuildWrites_at next
    intro generation member
    by_cases here : done = 2
    · subst here
      rw [third rfl] at member
      rcases mem_append.mp member with earlier | new
      · exact (process.generations generation earlier).trans process.larger.le
      · exact (mem_singleton.mp new).le
    · have same : (system.perform core plan.persisted write).generations = system.generations := by
        simp only [RecoverySystem.perform]
        split
        · exact absurd rfl (others here _)
        · rfl
      have bound := process.generations generation (same ▸ member)
      have larger := process.larger
      split at bound <;> split <;> omega
  published := by
    intro early
    have process := process.published (by omega)
    simp only [RecoverySystem.perform, if_neg ((rebuildWrites_at next).2.2.2.1 (by omega))]
    exact process

theorem RebuildProcess.withPhase (process : RebuildProcess system plan done) (phase : QueryPhase) :
    RebuildProcess { system with phase := phase } plan done :=
  ⟨process.idle, process.capacity, process.blank, process.larger, process.generations, process.published⟩

end Rebuild

variable {after : RecoverySystem Change Index} {report : StoreReport}
variable {log : List (LogEntry Change)}

section Invariant

def KnownStart (hashes : Set ConfigHash) : RecoveryEvent Change → Prop
  | .start config _ => config.configHash ∈ hashes
  | _ => True

/-- A start over an unfinished bootstrap of its own configuration has bootstrap enabled. -/
def KeepsBootstrap (system : RecoverySystem Change Index) : RecoveryEvent Change → Prop
  | .start config _ => config.enableBootstrap = true ∨ system.store.configHash ≠ some config.configHash ∨
    bootstrapUnfinished system.log = false
  | _ => True

def BootstrapsKept (core : QueryCore Change Index) (queryId : String) (system : RecoverySystem Change Index)
    (events : List (RecoveryEvent Change)) : Prop :=
  ∀ before event rest, events = before ++ event :: rest →
    ∀ reached, system.run core queryId before = some reached → KeepsBootstrap reached event

/-- A start that waits for its bootstrap over cleared stores. -/
structure Awaiting (core : QueryCore Change Index) (system : RecoverySystem Change Index) (config : StartConfig) : Prop where
  log : system.log = []
  output : BlankOutput system.store.output
  index : system.store.index = core.empty
  memory : BlankMemory system.memory
  hash : system.store.configHash = some (outputResetInProgressHash config.configHash) ∨
    system.store.configHash = some config.configHash ∧ system.store.output.resultSequence = none

/-- A bootstrap under way: the indexes and the memory hold its changes, the output nothing. -/
structure Bootstrapping (core : QueryCore Change Index) (queryId : String) (system : RecoverySystem Change Index)
    (config : StartConfig) : Prop where
  initialized : system.memory.initialized = true
  log : ∀ entry ∈ system.log, entry.isBootstrap = true
  output : BlankOutput system.store.output
  index : system.store.index = (ofLog core queryId system.log).index
  rows : system.memory.results.view = (ofLog core queryId system.log).committed.snapshot.view
  sequence : system.memory.asOfSequence = 0
  outbox : system.memory.outbox = []
  hash : system.store.configHash = some (outputResetInProgressHash config.configHash) ∨
    system.store.configHash = some config.configHash ∧ system.store.output.resultSequence = none

/-- A first run: no hash, no output, and at most the clearing of the indexes done. -/
structure FirstRun (core : QueryCore Change Index) (system : RecoverySystem Change Index) (config : StartConfig)
    (remaining : List DurableWrite) : Prop where
  hash : system.store.configHash = none
  memory : system.memory.initialized = false
  output : BlankOutput system.store.output
  sequence : system.store.output.resultSequence = none
  progress : remaining = firstRunWrites config.configHash ∨
    remaining = [.configHash config.configHash] ∧ system.store.index = core.empty ∧ system.log = []

def PhaseSound (core : QueryCore Change Index) (queryId : String) (hashes : Set ConfigHash)
    (system : RecoverySystem Change Index) : Prop :=
  match system.phase with
  | .stopped => True
  | .rebuilding config plan remaining earlier => config.configHash ∈ hashes ∧ (∀ generation ∈ earlier, generation < plan.next) ∧
    ∃ done, remaining = (rebuildWrites config.configHash config.enableBootstrap plan.next).drop done ∧
      Rebuilding core system config plan done ∧ RebuildProcess system plan done
  | .firstRun config remaining => config.configHash ∈ hashes ∧ FirstRun core system config remaining
  | .subscribing config bootstrapPending rebuilt => config.configHash ∈ hashes ∧ Serving core queryId system ∧
    (bootstrapPending = true → Awaiting core system config) ∧
    ∀ earlier, rebuilt = some earlier → ∀ generation ∈ earlier, generation < system.memory.generation
  | .bootstrapping config => config.configHash ∈ hashes ∧ Bootstrapping core queryId system config
  | .handingOver config => config.configHash ∈ hashes ∧ Serving core queryId system
  | .running => Serving core queryId system

/-- A store that bears the hash of a configuration holds what was committed, or an unfinished first bootstrap. -/
structure Trusted (core : QueryCore Change Index) (queryId : String) (system : RecoverySystem Change Index) : Prop where
  belongs : bootstrapUnfinished system.log = false → Belongs core queryId system.store system.log
  inStep : bootstrapUnfinished system.log = false → system.memory.initialized = true →
    InStep (system.memory.dispatchQueryResults system.undelivered fun _ => none) system.store.output
  unfinished : bootstrapUnfinished system.log = true → system.store.output.resultSequence = none

theorem Serving.trusted (serving : Serving core queryId system) : Trusted core queryId system where
  belongs := fun _ => serving.belongs
  inStep := fun _ _ => serving.inStep
  unfinished := fun unfinished => by rw [serving.finished] at unfinished; cases unfinished

structure Sound (core : QueryCore Change Index) (queryId : String) (hashes : Set ConfigHash)
    (system : RecoverySystem Change Index) : Prop where
  generations : ∀ generation ∈ system.generations, generation ≤ system.store.output.outputGeneration.getD 0
  published : system.memory.generation ≤ system.store.output.outputGeneration.getD 0
  capacity : 0 < system.memory.outboxCapacity
  blank : system.memory.initialized = false → BlankMemory system.memory
  delivered : system.undelivered.isSome = true → system.isRunning = true
  trusted : ∀ hash ∈ hashes, system.store.configHash = some hash → Trusted core queryId system
  unhashed : system.store.configHash = none → 0 < system.store.output.outputGeneration.getD 0 ∨
    system.memory.initialized = false ∧ BlankOutput system.store.output ∧ system.store.output.resultSequence = none
  phase : PhaseSound core queryId hashes system

namespace Sound

variable {hashes : Set ConfigHash}

theorem initial (capacity : Nat) : Sound core queryId hashes (.initial core capacity) where
  generations := fun _ member => nomatch member
  published := Nat.zero_le _
  capacity := by simp [RecoverySystem.initial, new]
  blank := fun _ => ⟨rfl, rfl, rfl⟩
  delivered := nofun
  trusted := nofun
  unhashed := fun _ => .inr ⟨rfl, ⟨rfl, rfl, rfl, rfl⟩, rfl⟩
  phase := trivial

section

variable (sound : Sound core queryId hashes system)
include sound

theorem idle_at {phase} (here : system.phase = phase) (resting : phase ≠ .running) : system.undelivered = none := by
  by_contra waiting
  have running := sound.delivered (Option.isSome_iff_ne_none.mpr waiting)
  rw [isRunning, here] at running
  split at running
  · exact resting rfl
  · cases running

theorem enter (phase : QueryPhase) (idle : system.undelivered = none)
    (relies : PhaseSound core queryId hashes { system with phase := phase }) :
    Sound core queryId hashes { system with phase := phase } where
  generations := sound.generations
  published := sound.published
  capacity := sound.capacity
  blank := sound.blank
  delivered := fun waiting => by simp [idle] at waiting
  trusted := fun hash member stored =>
    have trusted := sound.trusted hash member stored
    ⟨trusted.belongs, trusted.inStep, trusted.unfinished⟩
  unhashed := sound.unhashed
  phase := relies

theorem beginRebuild (idle : system.undelivered = none) (member : config.configHash ∈ hashes) :
    Sound core queryId hashes (system.beginRebuild config) := by
  refine sound.enter _ idle ⟨member, fun generation earlier => ?_, 0, rfl, ?_⟩
  · have below := sound.generations generation earlier
    simp only [planOutputGeneration, nextOutputGeneration]
    omega
  · refine ⟨?_, idle, sound.capacity, sound.blank, ?_, sound.generations, fun _ => sound.published⟩
    · constructor <;> intros <;> first | omega | rfl
    · simp only [planOutputGeneration, nextOutputGeneration]
      omega

theorem inconsistent (idle : system.undelivered = none) (member : config.configHash ∈ hashes) :
    Sound core queryId hashes (system.inconsistent config) := by
  unfold RecoverySystem.inconsistent
  split
  · exact sound.enter _ idle trivial
  · exact sound.beginRebuild idle member

theorem crash (capacity : Nat) :
    Sound core queryId hashes { system with memory := .new capacity, phase := .stopped, undelivered := none } where
  generations := sound.generations
  published := Nat.zero_le _
  capacity := by simp [new]
  blank := fun _ => ⟨rfl, rfl, rfl⟩
  delivered := nofun
  trusted := fun hash member stored =>
    have trusted := sound.trusted hash member stored
    ⟨trusted.belongs, fun _ => nofun, trusted.unfinished⟩
  unhashed := fun none => (sound.unhashed none).imp_right fun ⟨_, output⟩ => ⟨rfl, output⟩
  phase := trivial

theorem resume (idle : system.undelivered = none) (member : config.configHash ∈ hashes)
    (stored : system.store.configHash = some config.configHash) (finished : bootstrapUnfinished system.log = false) :
    Sound core queryId hashes (system.resume config report) := by
  have trusted := sound.trusted _ member stored
  have belongs := trusted.belongs finished
  unfold RecoverySystem.resume
  split
  · next initialized =>
    exact sound.enter _ idle ⟨member, ⟨initialized, finished, belongs, trusted.inStep finished initialized⟩, by simp, by simp⟩
  · split
    · exact sound
    · split
      · exact sound.inconsistent idle member
      · split
        · next memory restarts =>
          have inStep := belongs.recorded.inStep_restart restarts
          rw [belongs.recorded.restart] at restarts
          cases restarts
          have serving : Serving core queryId { system with
              memory := _, phase := .subscribing config false none } := ⟨rfl, finished, belongs, by simp only [idle]; exact inStep⟩
          exact {
            generations := sound.generations
            published := le_refl _
            capacity := inStep.capacity
            blank := nofun
            delivered := fun waiting => by simp [idle] at waiting
            trusted := fun _ _ _ => serving.trusted
            unhashed := fun unhashed => by simp [stored] at unhashed
            phase := ⟨member, serving, by simp, by simp⟩ }
        · exact sound.inconsistent idle member

end

theorem startDecision_resume (decision : store.startDecision config report = .resume) :
    store.configHash = some config.configHash ∧ (config.enableBootstrap = true → store.output.resultSequence ≠ none) := by
  unfold startDecision at decision
  repeat' split at decision
  all_goals try cases decision
  next calm readable _ _ found same =>
    subst same
    refine ⟨found, fun enabled missing => calm ?_⟩
    simp [bootstrapProblem, enabled, found, missing, readable]

theorem startDecision_firstRun (decision : store.startDecision config report = .firstRun) :
    store.configHash = none ∧ store.output.outputGeneration.getD 0 = 0 := by
  unfold startDecision at decision
  repeat' split at decision
  all_goals try cases decision
  next found clean =>
    refine ⟨found, ?_⟩
    simp only [durableOutputIsDirty, Bool.or_eq_true, not_or, decide_eq_true_eq] at clean
    omega

theorem start (sound : Sound core queryId hashes system)
    (idle : system.undelivered = none) (member : config.configHash ∈ hashes)
    (allowed : config.enableBootstrap = true ∨ system.store.configHash ≠ some config.configHash ∨
      bootstrapUnfinished system.log = false) : Sound core queryId hashes (system.start config report) := by
  unfold RecoverySystem.start
  split
  · exact sound
  · exact sound.beginRebuild idle member
  · next decision =>
    obtain ⟨unhashed, zero⟩ := startDecision_firstRun decision
    rcases sound.unhashed unhashed with positive | ⟨fresh, output, sequence⟩
    · omega
    · exact sound.enter _ idle ⟨member, unhashed, fresh, output, sequence, .inl rfl⟩
  · next decision =>
    obtain ⟨stored, sequence⟩ := startDecision_resume decision
    have finished : bootstrapUnfinished system.log = false := by
      rcases allowed with enabled | other | finished
      · by_contra unfinished
        exact sequence enabled ((sound.trusted _ member stored).unfinished (by simpa using unfinished))
      · exact absurd stored other
      · exact finished
    exact sound.resume idle member stored finished

theorem not_marker (apart : ∀ one ∈ hashes, ∀ two ∈ hashes, one ≠ ~~~two) {hash current} (known : hash ∈ hashes)
    (member : current ∈ hashes) (stored : system.store.configHash = some (outputResetInProgressHash current)) :
    system.store.configHash ≠ some hash := by
  intro same
  rw [stored] at same
  exact apart hash known current member (Option.some.inj same).symm

section

variable (sound : Sound core queryId hashes system)
include sound

/-- One write of a rebuild: the marker keeps every other start from trusting the stores until they are empty. -/
theorem writeRebuild (apart : ∀ one ∈ hashes, ∀ two ∈ hashes, one ≠ ~~~two) {plan write earlier}
    (phase : system.phase = .rebuilding config plan (write :: remaining) earlier)
    (steps : system.writeNext core = some after) : Sound core queryId hashes after := by
  have relies := sound.phase
  simp only [PhaseSound, phase] at relies
  obtain ⟨member, above, done, same, rebuilding, process⟩ := relies
  have next := same.symm
  obtain ⟨bound, _, _, _, last⟩ := rebuildWrites_at next
  have tail : remaining = (rebuildWrites config.configHash config.enableBootstrap plan.next).drop (done + 1) := by
    rw [← tail_drop, next]
    rfl
  replace rebuilding := rebuilding.write next
  replace process : RebuildProcess (system.perform core plan.persisted write) plan (done + 1) := process.write next
  simp only [writeNext, phase, Option.some.injEq] at steps
  generalize system.perform core plan.persisted write = written at rebuilding process steps
  have generation : written.store.output.outputGeneration.getD 0 = if done + 1 ≤ 2 then plan.persisted else plan.next := by
    split
    · exact rebuilding.kept (by omega)
    · rw [rebuilding.generation (by omega)]
      rfl
  have published : written.memory.generation ≤ written.store.output.outputGeneration.getD 0 := by
    have larger := process.larger
    rw [generation]
    by_cases early : done + 1 ≤ 4
    · have below := process.published early
      split <;> omega
    · rw [(rebuilding.memory (by omega)).2.2, if_neg (by omega)]
  have generations : ∀ listed ∈ written.generations, listed ≤ written.store.output.outputGeneration.getD 0 := by
    rw [generation]
    exact process.generations
  have unhashed : written.store.configHash = none → 0 < written.store.output.outputGeneration.getD 0 := by
    intro none
    have larger := process.larger
    by_cases seventh : done + 1 = 7
    · rw [generation, if_neg (by omega)]
      omega
    · by_cases early : done + 1 ≤ 6
      · rw [rebuilding.marked (by omega) early] at none
        cases none
      · rw [rebuilding.hashed (by omega)] at none
        cases none
  by_cases finished : remaining = []
  · obtain rfl : done = 7 := last.mp finished
    obtain ⟨blankMemory, initialized, newest⟩ := rebuilding.memory (by omega)
    obtain ⟨index, log⟩ := rebuilding.index (by omega)
    have blankOutput : BlankOutput written.store.output :=
      ⟨by rw [rebuilding.sequence (by omega)]; rfl, by rw [rebuilding.outbox (by omega)]; rfl, rebuilding.rows (by omega),
        rebuilding.checkpoints (by omega)⟩
    have hash := rebuilding.hashed rfl
    have serving (phase : QueryPhase) : Serving core queryId { written with phase := phase } := by
      refine ⟨initialized, by rw [log]; rfl, by rw [log]; exact blankOutput.belongs index, ?_⟩
      simp only [process.idle]
      exact blankOutput.inStep blankMemory process.capacity
    rw [if_pos (by rw [finished]; rfl)] at steps
    cases steps
    exact {
      generations := generations
      published := published
      capacity := process.capacity
      blank := process.blank
      delivered := fun waiting => by simp [process.idle] at waiting
      trusted := fun _ _ _ => (serving _).trusted
      unhashed := fun none => .inl (unhashed none)
      phase := ⟨member, serving _, fun pending => ⟨log, blankOutput, index, blankMemory, .inl (by rw [hash, if_pos pending])⟩,
        fun _ same generation listed => by
          cases same
          rw [newest]
          exact above generation listed⟩ }
  · have early : done + 1 ≤ 7 := by
      have := mt last.mpr finished
      omega
    rw [if_neg (by simpa using finished)] at steps
    cases steps
    exact {
      generations := generations
      published := published
      capacity := process.capacity
      blank := process.blank
      delivered := fun waiting => by simp [process.idle] at waiting
      trusted := fun hash known stored => by
        by_cases seventh : done + 1 = 7
        · rw [rebuilding.unhashed seventh] at stored
          cases stored
        · exact absurd stored (not_marker apart known member (rebuilding.marked (by omega) (by omega)))
      unhashed := fun none => .inl (unhashed none)
      phase := ⟨member, above, done + 1, tail, rebuilding.withPhase _, process.withPhase _⟩ }

theorem writeFirstRun (phase : system.phase = .firstRun config remaining) (steps : system.writeNext core = some after) :
    Sound core queryId hashes after := by
  have relies := sound.phase
  simp only [PhaseSound, phase] at relies
  obtain ⟨member, hash, fresh, output, sequence, progress⟩ := relies
  have idle := sound.idle_at phase nofun
  rcases progress with rfl | ⟨rfl, index, log⟩
  · simp only [writeNext, phase, firstRunWrites, Option.some.injEq] at steps
    cases steps
    exact {
      generations := sound.generations
      published := sound.published
      capacity := sound.capacity
      blank := sound.blank
      delivered := fun waiting => by simp [RecoverySystem.perform, idle] at waiting
      trusted := fun _ _ stored => by simp [RecoverySystem.perform, DurableStore.apply, hash] at stored
      unhashed := fun _ => .inr ⟨fresh, output, sequence⟩
      phase := ⟨member, hash, fresh, output, sequence, .inr ⟨rfl, rfl, rfl⟩⟩ }
  · simp only [writeNext, phase, Option.some.injEq] at steps
    cases steps
    have blank := sound.blank fresh
    have serving : Serving core queryId { system.perform core 0 (.configHash config.configHash) with
        phase := .subscribing config config.enableBootstrap none, memory := system.memory.markInitialized } := by
      refine ⟨rfl, ?_, ?_, ?_⟩
      · simp only [RecoverySystem.perform, log]
        rfl
      · simp only [RecoverySystem.perform, log]
        exact ⟨index, output.recorded, output.checkpoints⟩
      · simp only [RecoverySystem.perform, idle]
        exact output.inStep ⟨blank.rows, blank.sequence, blank.outbox⟩ sound.capacity
    exact {
      generations := sound.generations
      published := sound.published
      capacity := sound.capacity
      blank := nofun
      delivered := fun waiting => by simp [RecoverySystem.perform, idle] at waiting
      trusted := fun _ _ _ => serving.trusted
      unhashed := nofun
      phase := ⟨member, serving, fun _ => ⟨log, output, index, ⟨blank.rows, blank.sequence, blank.outbox⟩, .inr ⟨rfl, sequence⟩⟩,
        nofun⟩ }

theorem subscribed {rebuilt} (phase : system.phase = .subscribing config bootstrapPending rebuilt)
    (idle : system.undelivered = none) (bootstrapChannels : Bool) :
    Sound core queryId hashes { system with
      phase := if bootstrapPending && bootstrapChannels then .bootstrapping config else .running
      generations := system.generations ++ [system.memory.generation] } := by
  have relies := sound.phase
  simp only [PhaseSound, phase] at relies
  obtain ⟨member, serving, awaiting, _⟩ := relies
  have generations : ∀ generation ∈ system.generations ++ [system.memory.generation],
      generation ≤ system.store.output.outputGeneration.getD 0 := by
    intro generation listed
    rcases mem_append.mp listed with earlier | here
    · exact sound.generations generation earlier
    · exact (mem_singleton.mp here) ▸ sound.published
  refine ⟨generations, sound.published, sound.capacity, sound.blank, fun waiting => by simp [idle] at waiting,
    fun _ _ _ => ?_, sound.unhashed, ?_⟩
  · exact ⟨serving.trusted.belongs, serving.trusted.inStep, serving.trusted.unfinished⟩
  · cases both : bootstrapPending && bootstrapChannels with
    | true =>
      obtain ⟨log, output, index, memory, hash⟩ := awaiting (Bool.and_eq_true_iff.mp both).1
      refine ⟨member, serving.initialized, ?_, output, ?_, ?_, memory.sequence, memory.outbox, hash⟩
      · simp [log]
      · simp only [log]
        exact index
      · simp only [log, memory.rows]
        rfl
    | false => exact ⟨serving.initialized, serving.finished, serving.belongs, serving.inStep⟩

end

theorem ofLog_append (log : List (LogEntry Change)) (entry : LogEntry Change) :
    ofLog core queryId (log ++ [entry]) = record core queryId (ofLog core queryId log) entry := foldl_concat ..

theorem unfinished_of_bootstraps (all : ∀ entry ∈ log, entry.isBootstrap = true) (any : log ≠ []) :
    bootstrapUnfinished log = true := by
  obtain ⟨entry, member⟩ := exists_mem_of_ne_nil log any
  rw [bootstrapUnfinished, Bool.and_eq_true_iff, Bool.not_eq_true', any_eq_true, any_eq_false]
  refine ⟨⟨entry, member, all entry member⟩, fun other listed => ?_⟩
  have bootstrap := all other listed
  cases other <;> simp_all [LogEntry.isBootstrap, LogEntry.isHandover]

theorem bootstrapChange (sound : Sound core queryId hashes system) (apart : ∀ one ∈ hashes, ∀ two ∈ hashes, one ≠ ~~~two)
    (phase : system.phase = .bootstrapping config) (idle : system.undelivered = none) (sourceId : String)
    (change : Change) : Sound core queryId hashes (system.bootstrapChange core sourceId change) := by
  have relies := sound.phase
  simp only [PhaseSound, phase] at relies
  obtain ⟨member, bootstrapping⟩ := relies
  obtain ⟨⟨index, diffs⟩, processed⟩ : ∃ pair, core.process change system.store.index = pair := ⟨_, rfl⟩
  have recorded : ofLog core queryId (system.log ++ [.bootstrap sourceId change]) =
      { ofLog core queryId system.log with
        index := index
        committed := { (ofLog core queryId system.log).committed with
          snapshot := (ofLog core queryId system.log).committed.snapshot.applyDiffs diffs } } := by
    rw [ofLog_append, record, ← bootstrapping.index, processed]
  have all : ∀ entry ∈ system.log ++ [.bootstrap sourceId change], entry.isBootstrap = true := by
    intro entry listed
    rcases mem_append.mp listed with earlier | here
    · exact bootstrapping.log entry earlier
    · rw [mem_singleton.mp here]
      rfl
  have unfinished := unfinished_of_bootstraps all (by simp)
  simp only [RecoverySystem.bootstrapChange, processed]
  refine ⟨sound.generations, sound.published, sound.capacity, fun fresh => ?_, fun waiting => by simp [idle] at waiting,
    fun hash known stored => ?_, fun none => ?_, ?_⟩
  · have fresh : system.memory.initialized = false := fresh
    rw [bootstrapping.initialized] at fresh
    cases fresh
  · rcases bootstrapping.hash with marker | ⟨_, sequence⟩
    · exact absurd stored (not_marker apart known member marker)
    · exact ⟨fun finished => by simp [unfinished] at finished, fun finished => by simp [unfinished] at finished, fun _ => sequence⟩
  · rcases bootstrapping.hash with marker | ⟨same, _⟩ <;> simp_all
  · simp only [PhaseSound, phase]
    refine ⟨member, bootstrapping.initialized, all, bootstrapping.output, ?_, ?_, bootstrapping.sequence, bootstrapping.outbox,
      bootstrapping.hash⟩
    · rw [recorded]
    · rw [recorded]
      simp only [QueryOutputState.applyDiffs]
      rw [view_applyDiffs, view_applyDiffs, bootstrapping.rows]

theorem ofLog_bootstraps (core : QueryCore Change Index) (queryId : String)
    (all : ∀ entry ∈ log, entry.isBootstrap = true) :
    (ofLog core queryId log).committed.results = [] ∧ (ofLog core queryId log).checkpoints = ∅ := by
  induction log using reverseRecOn with
  | nil => exact ⟨rfl, rfl⟩
  | append_singleton log entry ih =>
    have last := all entry (by simp)
    obtain ⟨results, checkpoints⟩ := ih fun other listed => all other (mem_append_left _ listed)
    rw [ofLog_append]
    cases entry with
    | bootstrap sourceId change => exact ⟨results, checkpoints⟩
    | handover positions => cases last
    | session sourceId checkpoint change timestamp profiling => cases last

theorem handover (sound : Sound core queryId hashes system) (phase : system.phase = .bootstrapping config)
    (idle : system.undelivered = none) {positions} (bounded : RecoverySystem.hasBoundary system.log positions = true) :
    Sound core queryId hashes { system with
      store := { system.store with output := system.store.output.persistBootstrapBoundary system.memory positions }
      log := system.log ++ [.handover positions]
      phase := .handingOver config } := by
  have relies := sound.phase
  simp only [PhaseSound, phase] at relies
  obtain ⟨member, bootstrapping⟩ := relies
  obtain ⟨results, checkpoints⟩ := ofLog_bootstraps core queryId bootstrapping.log
  have quiet : positions = [] → system.memory.results.view = .empty := by
    intro none
    have silent : system.log = [] := by
      rw [eq_nil_iff_forall_not_mem]
      intro entry listed
      have bootstrap := bootstrapping.log entry listed
      have covered := all_eq_true.mp (Bool.and_eq_true_iff.mp bounded).2 entry listed
      cases entry <;> simp_all [LogEntry.isBootstrap]
    rw [bootstrapping.rows, silent]
    rfl
  have recorded : Recorded (system.store.output.persistBootstrapBoundary system.memory positions)
      ⟨(ofLog core queryId system.log).committed.snapshot, []⟩ :=
    (bootstrapping.output.recorded.boundary rfl (by rw [bootstrapping.output.rows]; rfl)
      (by rw [bootstrapping.output.checkpoints]; rfl) quiet).resnapshot bootstrapping.rows
  have serving : Serving core queryId { system with
      store := { system.store with output := system.store.output.persistBootstrapBoundary system.memory positions }
      log := system.log ++ [.handover positions]
      phase := .handingOver config } := by
    refine ⟨bootstrapping.initialized, by simp [bootstrapUnfinished, LogEntry.isHandover], ⟨?_, ?_, ?_⟩, ?_⟩
    · rw [ofLog_append]
      exact bootstrapping.index
    · have whole : (ofLog core queryId system.log).committed = ⟨(ofLog core queryId system.log).committed.snapshot, []⟩ := by
        rw [← results]
      rw [ofLog_append]
      simp only [record]
      rw [whole]
      exact recorded
    · rw [ofLog_append]
      simp only [record, checkpoints, DurableOutput.persistBootstrapBoundary, bootstrapping.output.checkpoints]
    · simp only [idle]
      refine ⟨?_, bootstrapping.sequence, ?_, sound.capacity⟩
      · exact bootstrapping.rows.trans recorded.rows.symm
      · have none : (system.store.output.persistBootstrapBoundary system.memory positions).outbox.values = [] := by
          rw [OrderedMap.values]
          exact congrArg (map _) bootstrapping.output.outbox
        rw [none, rtake_nil]
        exact congrArg (map _) bootstrapping.outbox
  exact {
    generations := sound.generations
    published := sound.published
    capacity := sound.capacity
    blank := sound.blank
    delivered := fun waiting => by simp [idle] at waiting
    trusted := fun _ _ _ => serving.trusted
    unhashed := fun none => by rcases bootstrapping.hash with marker | ⟨same, _⟩ <;> simp_all
    phase := ⟨member, serving⟩ }

theorem completeBootstrap (sound : Sound core queryId hashes system) (phase : system.phase = .handingOver config)
    (idle : system.undelivered = none) :
    Sound core queryId hashes
      { system with store := system.store.apply core (.configHash config.configHash), phase := .running } := by
  have relies := sound.phase
  simp only [PhaseSound, phase] at relies
  obtain ⟨_, serving⟩ := relies
  have finished : Serving core queryId
      { system with store := system.store.apply core (.configHash config.configHash), phase := .running } :=
    ⟨serving.initialized, serving.finished, ⟨serving.belongs.index, serving.belongs.recorded, serving.belongs.checkpoints⟩,
      serving.inStep⟩
  exact {
    generations := sound.generations
    published := sound.published
    capacity := sound.capacity
    blank := sound.blank
    delivered := fun waiting => by simp [idle] at waiting
    trusted := fun _ _ _ => finished.trusted
    unhashed := nofun
    phase := finished }

theorem phase_of_running (running : system.isRunning = true) : system.phase = .running := by
  unfold isRunning at running
  split at running
  · next phase => exact phase
  · cases running

section

variable (sound : Sound core queryId hashes system) (running : system.isRunning = true)
include sound running

theorem serving_of_running : Serving core queryId system := by
  have relies := sound.phase
  simpa only [PhaseSound, phase_of_running running] using relies

theorem proceed {undelivered} (hash : store.configHash = system.store.configHash)
    (generation : store.output.outputGeneration = system.store.output.outputGeneration)
    (sameGeneration : memory.generation = system.memory.generation)
    (capacity : memory.outboxCapacity = system.memory.outboxCapacity)

    (serving : Serving core queryId { system with store := store, memory := memory, undelivered := undelivered, log := log }) :
    Sound core queryId hashes { system with store := store, memory := memory, undelivered := undelivered, log := log } where
  generations := by
    simp only [generation]
    exact sound.generations
  published := by
    simp only [generation, sameGeneration]
    exact sound.published
  capacity := capacity ▸ sound.capacity
  blank := fun fresh => by
    have initialized := serving.initialized
    rw [fresh] at initialized
    cases initialized
  delivered := fun _ => running
  trusted := fun _ _ _ => serving.trusted
  unhashed := fun none => by
    have before := serving_of_running sound running
    refine (sound.unhashed (hash ▸ none)).imp (fun positive => generation ▸ positive) fun ⟨fresh, _⟩ => ?_
    rw [before.initialized] at fresh
    cases fresh
  phase := by
    have phase := phase_of_running running
    simp only [PhaseSound, phase]
    exact ⟨serving.initialized, serving.finished, serving.belongs, serving.inStep⟩

theorem dispatch (profiling : ProfilingMetadata) :
    Sound core queryId hashes { system with
      memory := system.memory.dispatchQueryResults system.undelivered profiling, undelivered := none } := by
  have serving := serving_of_running sound running
  refine sound.proceed running rfl rfl ?_ ?_ ⟨?_, serving.finished, serving.belongs, serving.inStep.redispatch profiling⟩
  · cases system.undelivered <;> rfl
  · cases system.undelivered <;> rfl
  · exact (dispatchQueryResults_initialized _ _ _).trans serving.initialized

end

theorem commit_frame {durable after : DurableOutput} {session : OutputCommit} {staged}
    (commits : durable.commit memory queryId session = (staged, after)) :
    after.outputGeneration = durable.outputGeneration ∧
      after.checkpoints = (session.checkpoint.elim durable.checkpoints fun checkpoint =>
        durable.checkpoints.insert session.sourceId
          { checkpoint with sourcePosition := checkpoint.sourcePosition.filter (·.length ≤ maxSourcePositionBytes) }) ∧
      staged = if session.diffs.isEmpty then none else some ⟨queryId, memory.asOfSequence + 1, session.timestamp, session.diffs,
        QueryResult.resultMetadata session.sourceId session.diffs.length, session.profiling⟩ := by
  obtain ⟨sourceId, checkpoint, diffs, timestamp, profiling⟩ := session
  cases checkpoint <;> cases diffs <;> cases commits <;> exact ⟨rfl, rfl, rfl⟩

section

variable (sound : Sound core queryId hashes system)
include sound

theorem session (running : system.isRunning = true) (idle : system.undelivered = none)
    {checkpoint : Option SourceCheckpoint} (live : checkpoint.all (0 < ·.sequence) = true) (sourceId : String)
    (change : Change) (timestamp : Nat) (profiling : ProfilingMetadata) :
    Sound core queryId hashes (system.session core queryId sourceId checkpoint change timestamp profiling) := by
  have serving := serving_of_running sound running
  have inStep : InStep system.memory system.store.output := by
    have inStep := serving.inStep
    rw [idle] at inStep
    exact inStep
  obtain ⟨⟨index, diffs⟩, processed⟩ : ∃ pair, core.process change system.store.index = pair := ⟨_, rfl⟩
  obtain ⟨⟨staged, output⟩, commits⟩ : ∃ pair,
    system.store.output.commit system.memory queryId ⟨sourceId, checkpoint, diffs, timestamp, profiling⟩ = pair := ⟨_, rfl⟩
  obtain ⟨recorded, next⟩ := serving.belongs.recorded.commit inStep live commits
  obtain ⟨generation, checkpoints, result⟩ := commit_frame commits
  have follows : system.memory.asOfSequence = (ofLog core queryId system.log).committed.results.length :=
    inStep.sequence.trans serving.belongs.recorded.sequence
  have logged : ofLog core queryId (system.log ++ [.session sourceId checkpoint change timestamp profiling]) =
      { index := index
        committed := { (ofLog core queryId system.log).committed with
          results := (ofLog core queryId system.log).committed.results ++ staged.toList }
        checkpoints := output.checkpoints } := by
    rw [ofLog_append, record, ← serving.belongs.index, processed, result, checkpoints, serving.belongs.checkpoints, follows]
    cases diffs <;> simp
  have same : system.session core queryId sourceId checkpoint change timestamp profiling =
      { system with
        store := { system.store with index := index, output := output }
        memory := system.memory
        undelivered := staged
        log := system.log ++ [.session sourceId checkpoint change timestamp profiling] } := by
    simp only [RecoverySystem.session, processed, commits]
  rw [same]
  refine sound.proceed running rfl generation rfl rfl ⟨serving.initialized, ?_, ⟨?_, ?_, ?_⟩, next⟩
  · simpa [bootstrapUnfinished, LogEntry.isBootstrap, LogEntry.isHandover] using serving.finished
  · rw [logged]
  · rw [logged]
    exact recorded
  · rw [logged]

theorem step (apart : ∀ one ∈ hashes, ∀ two ∈ hashes, one ≠ ~~~two) {event} (known : KnownStart hashes event)
    (kept : KeepsBootstrap system event) (steps : system.step core queryId event = some after) :
    Sound core queryId hashes after := by
  cases event with
  | start config report =>
    simp only [RecoverySystem.step] at steps
    split at steps <;> cases steps
    next phase =>
      exact sound.start (sound.idle_at phase nofun) known kept
  | write =>
    cases phase : system.phase with
    | rebuilding config plan remaining earlier =>
      cases remaining with
      | nil => simp [RecoverySystem.step, writeNext, phase] at steps
      | cons write remaining => exact sound.writeRebuild apart phase steps
    | firstRun config remaining => exact sound.writeFirstRun phase steps
    | _ => simp [RecoverySystem.step, writeNext, phase] at steps
  | sourceGap =>
    simp only [RecoverySystem.step] at steps
    split at steps <;> cases steps
    next phase =>
      have relies := sound.phase
      simp only [PhaseSound, phase] at relies
      exact sound.inconsistent (sound.idle_at phase nofun) relies.1
  | subscribed bootstrapChannels =>
    simp only [RecoverySystem.step] at steps
    split at steps <;> cases steps
    next phase =>
      exact sound.subscribed phase (sound.idle_at phase nofun) _
  | bootstrapChange sourceId change =>
    simp only [RecoverySystem.step] at steps
    split at steps <;> cases steps
    next phase =>
      exact sound.bootstrapChange apart phase (sound.idle_at phase nofun) _ _
  | handover positions =>
    simp only [RecoverySystem.step] at steps
    split at steps
    · next phase =>
      obtain ⟨bounded, ⟨⟩⟩ := Option.ite_none_right_eq_some.mp steps
      exact sound.handover phase (sound.idle_at phase nofun) bounded
    · cases steps
  | completeBootstrap =>
    simp only [RecoverySystem.step] at steps
    split at steps <;> cases steps
    next phase =>
      exact sound.completeBootstrap phase (sound.idle_at phase nofun)
  | session sourceId checkpoint change timestamp profiling =>
    obtain ⟨guard, ⟨⟩⟩ := Option.ite_none_right_eq_some.mp steps
    obtain ⟨ready, live⟩ := Bool.and_eq_true_iff.mp guard
    obtain ⟨running, idle⟩ := Bool.and_eq_true_iff.mp ready
    exact sound.session running (by simpa using idle) live _ _ _ _
  | dispatch profiling =>
    obtain ⟨waiting, ⟨⟩⟩ := Option.ite_none_right_eq_some.mp steps
    exact sound.dispatch (sound.delivered waiting) profiling
  | stop =>
    obtain ⟨idle, ⟨⟩⟩ := Option.ite_none_right_eq_some.mp steps
    exact sound.enter _ (by simpa using idle) trivial
  | crash capacity =>
    cases steps
    exact sound.crash capacity

theorem run (apart : ∀ one ∈ hashes, ∀ two ∈ hashes, one ≠ ~~~two) {events}
    (known : ∀ event ∈ events, KnownStart hashes event) (kept : BootstrapsKept core queryId system events)
    (ran : system.run core queryId events = some after) : Sound core queryId hashes after := by
  induction events generalizing system with
  | nil =>
    cases ran
    exact sound
  | cons event events ih =>
    obtain ⟨middle, first, rest⟩ := Option.bind_eq_some_iff.mp ran
    have stepped := sound.step apart (known event mem_cons_self) (kept [] event events rfl system rfl) first
    refine ih stepped (fun other listed => known other (mem_cons_of_mem _ listed)) ?_ rest
    intro before next behind split reached ran
    refine kept (event :: before) next behind (congrArg (event :: ·) split) reached ?_
    exact Option.bind_eq_some_iff.mpr ⟨middle, first, ran⟩

end

end Sound

end Invariant

section Recovery

/-- The query has its stores and takes up, or goes on with, its work. -/
def Serves (system : RecoverySystem Change Index) : Prop := match system.phase with
  | .subscribing .. | .handingOver _ | .running => True
  | _ => False

/-- Indexes, checkpoints, rows, outbox and sequence all belong to one committed prefix of the generation. -/
def OnePrefix (core : QueryCore Change Index) (queryId : String) (system : RecoverySystem Change Index) : Prop :=
  ∃ part, part <+: system.log ∧ Belongs core queryId system.store part

structure RecoveredSafely (core : QueryCore Change Index) (queryId : String) (system : RecoverySystem Change Index) :
    Prop where
  onePrefix : Serves system → OnePrefix core queryId system
  memory : Serves system → InStep (system.memory.dispatchQueryResults system.undelivered fun _ => none) system.store.output
  /-- A rebuild comes out with a generation above all that were persisted or published before it. -/
  newer : ∀ config bootstrapPending earlier, system.phase = .subscribing config bootstrapPending (some earlier) →
    ∀ generation ∈ earlier, generation < system.memory.generation

theorem Sound.recoveredSafely {hashes} (sound : Sound core queryId hashes system) :
    RecoveredSafely core queryId system := by
  have relies := sound.phase
  have serving : Serves system → Serving core queryId system := by
    intro serves
    simp only [PhaseSound, Serves] at relies serves
    split at serves <;> simp_all
  refine ⟨fun serves => ⟨system.log, prefix_refl _, (serving serves).belongs⟩, fun serves => (serving serves).inStep, ?_⟩
  intro config bootstrapPending earlier phase
  simp only [PhaseSound, phase] at relies
  exact relies.2.2.2 earlier rfl

/-- If no start disables bootstrap over its own unfinished one, then in every state a run reaches, through any crashes, a
query at work has stores that belong to one prefix, and a rebuild has raised the generation. -/
theorem recovery_safe {core : QueryCore Change Index} {queryId : String} {capacity : Nat} {hashes : Set ConfigHash}
    (apart : ∀ one ∈ hashes, ∀ two ∈ hashes, one ≠ ~~~two) {events : List (RecoveryEvent Change)}
    (known : ∀ event ∈ events, KnownStart hashes event)
    (kept : BootstrapsKept core queryId (.initial core capacity) events) {system : RecoverySystem Change Index}
    (ran : (RecoverySystem.initial core capacity).run core queryId events = some system) :
    RecoveredSafely core queryId system :=
  ((Sound.initial capacity).run apart known kept ran).recoveredSafely

/-- A query that counts its changes and adds a row with each. -/
def countingCore : QueryCore Unit Nat := ⟨0, fun _ count => (count + 1, [.add .empty (.solution [(count, none)])])⟩

/-- A bootstrap is cut off after its first change. A start with bootstrap disabled resumes over it. -/
theorem resumes_unfinished_bootstrap : ∃ system,
    (RecoverySystem.initial countingCore 1).run countingCore "query" [.start ⟨1, true, .strict⟩ .healthy, .write, .write,
      .subscribed true, .bootstrapChange "source" (), .crash 1, .start ⟨1, false, .strict⟩ .healthy] = some system ∧
    Serves system ∧ ¬ OnePrefix countingCore "query" system := by
  refine ⟨_, rfl, trivial, fun ⟨part, cut, belongs⟩ => ?_⟩
  rcases prefix_cons_iff.mp cut with rfl | ⟨rest, rfl, nothing⟩
  · exact absurd belongs.index (by decide)
  · obtain rfl := prefix_nil.mp nothing
    exact absurd (congrFun belongs.recorded.rows (.solution [(0, none)])) (by decide)

/-- A bootstrap that is cut off, a rebuild that is cut off after three writes, and one that is not. -/
def interruptedRebuild : List (RecoveryEvent Unit) :=
  [.start ⟨1, true, .strict⟩ .healthy, .write, .write, .subscribed true, .bootstrapChange "source" (), .crash 1,
    .start ⟨1, true, .autoReset⟩ .healthy, .write, .write, .write, .crash 1, .start ⟨1, true, .autoReset⟩ .healthy] ++
    replicate 8 .write

theorem mem_interruptedRebuild (listed : RecoveryEvent.start config report ∈ interruptedRebuild) :
    config.configHash = 1 ∧ config.enableBootstrap = true := by
  simp only [interruptedRebuild, mem_append, mem_cons, RecoveryEvent.start.injEq, mem_replicate, reduceCtorEq,
    not_mem_nil, or_false, false_or, and_false] at listed
  rcases listed with ⟨rfl, _⟩ | ⟨rfl, _⟩ | ⟨rfl, _⟩ <;> exact ⟨rfl, rfl⟩

theorem recovery_safe_sample : ∃ system,
    (RecoverySystem.initial countingCore 1).run countingCore "query" interruptedRebuild = some system ∧ Serves system ∧
      RecoveredSafely countingCore "query" system := by
  obtain ⟨system, ran, serves⟩ : ∃ system,
      (RecoverySystem.initial countingCore 1).run countingCore "query" interruptedRebuild = some system ∧ Serves system :=
    ⟨_, rfl, trivial⟩
  have apart : ∀ one ∈ ({1} : Set ConfigHash), ∀ two ∈ ({1} : Set ConfigHash), one ≠ ~~~two := by
    intro one first two second
    rw [Set.mem_singleton_iff.mp first, Set.mem_singleton_iff.mp second]
    decide
  refine ⟨system, ran, serves, recovery_safe apart ?_ ?_ ran⟩
  · intro event listed
    cases event with
    | start config report => exact (mem_interruptedRebuild listed).1
    | _ => trivial
  · intro before event rest parts reached _
    have listed : event ∈ interruptedRebuild := by simp [parts]
    cases event with
    | start config report => exact .inl (mem_interruptedRebuild listed).2
    | _ => trivial

end Recovery

end DrasiCore.Proofs
