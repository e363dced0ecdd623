import DrasiCore.Library.WorkPool
import Mathlib.Tactic.Abel

/-! The same pool with workers that run at their own pace. Sending and receiving are separate steps and any step of any
worker may come next; only the messages of one worker keep their order. -/

namespace DrasiCore.Library.WorkPool

open List

variable {Task Out : Type} (program : Program Task Out)

def Message.rank : Message Task Out → Nat
  | .spawn task => program.rank task + 1
  | .done _ => 0

/-- A worker with the messages of its run, split into received ones, sent ones still on their way and unsent ones. -/
structure Worker (Task Out : Type) where
  task : Task
  received : List (Message Task Out)
  sent : List (Message Task Out)
  unsent : List (Message Task Out)

def Worker.pending (worker : Worker Task Out) : List (Message Task Out) := worker.sent ++ worker.unsent

/-- The worker runs a valid task, and its three lists together are the messages of that run. -/
def Worker.Sound (worker : Worker Task Out) : Prop :=
  program.Valid worker.task ∧ worker.received ++ worker.pending = program.run worker.task

theorem Worker.Sound.closing {program} {worker : Worker Task Out} (sound : worker.Sound program) :
    Closing worker.pending := by
  have whole : Closing (worker.received ++ worker.pending) := sound.2 ▸ Closing.append_run sound.1 []
  generalize worker.received = received at whole
  induction received with
  | nil => exact whole
  | cons message received ih => exact ih whole.tail

/-- `boot` is the first task while its message has not been received. -/
structure Pool (Task Out : Type) where
  boot : Option Task
  workers : List (Worker Task Out)
  inflight : Nat
  outputs : List Out

namespace Pool

variable {pool : Pool Task Out}

def start (task : Task) : Pool Task Out := ⟨some task, [], 0, []⟩

def pending (pool : Pool Task Out) : List (Message Task Out) := pool.workers.flatMap Worker.pending

inductive Step (program : Program Task Out) : Pool Task Out → Pool Task Out → Prop where
  | boot {task outputs} :
    Step program ⟨some task, [], 0, outputs⟩ ⟨none, [⟨task, [], [], program.run task⟩], 1, outputs⟩
  | send {before after task received sent message unsent inflight outputs} :
    Step program
      ⟨none, before ++ ⟨task, received, sent, message :: unsent⟩ :: after, inflight, outputs⟩
      ⟨none, before ++ ⟨task, received, sent ++ [message], unsent⟩ :: after, inflight, outputs⟩
  | receiveSpawn {before after task received child sent unsent inflight outputs} : inflight ≠ 0 →
    Step program
      ⟨none, before ++ ⟨task, received, .spawn child :: sent, unsent⟩ :: after, inflight, outputs⟩
      ⟨none, before ++ ⟨task, received ++ [.spawn child], sent, unsent⟩ :: (after ++ [⟨child, [], [], program.run child⟩]),
        inflight + 1, outputs⟩
  | receiveDone {before after task received result sent unsent inflight outputs} : inflight ≠ 0 →
    Step program
      ⟨none, before ++ ⟨task, received, .done result :: sent, unsent⟩ :: after, inflight, outputs⟩
      ⟨none, before ++ ⟨task, received ++ [.done result], sent, unsent⟩ :: after,
        inflight - 1, outputs ++ result.toList⟩

def Reachable (init : Task) : Pool Task Out → Prop :=
  Relation.ReflTransGen (Step program) (start init)

/-- The first message is waiting and nothing has happened, or the loop is live and every worker has its own messages. -/
structure Consistent (program : Program Task Out) (init : Task) (pool : Pool Task Out) : Prop where
  waiting : ∀ task, pool.boot = some task → pool = start init
  live : pool.boot = none → Live program init pool.pending pool.inflight pool.outputs
  sound : ∀ worker ∈ pool.workers, worker.Sound program

variable {program : Program Task Out} {init : Task}

theorem Consistent.inflight_eq_zero (consistent : Consistent program init pool) (booted : pool.boot = none)
    (finished : pool.inflight = 0) {worker : Worker Task Out} (member : worker ∈ pool.workers) : worker.pending = [] := by
  refine (consistent.sound worker member).closing.eq_nil ?_
  have none := (consistent.live booted).counted.symm.trans finished
  rw [countP_eq_zero] at none ⊢
  exact fun message inside => none message (mem_flatMap.mpr ⟨worker, member, inside⟩)

theorem Consistent.start : Consistent program init (start init) where
  waiting _ _ := rfl
  live booted := by cases booted
  sound _ member := by cases member

/-- All messages not yet received, the first one included. -/
def outstanding (pool : Pool Task Out) : Multiset (Message Task Out) :=
  ↑(pool.boot.toList.map Message.spawn ++ pool.pending : List (Message Task Out))

def unsentCount (pool : Pool Task Out) : Nat := (pool.workers.map fun worker => worker.unsent.length).sum

theorem rank_run {task} (valid : program.Valid task) {message} (member : message ∈ program.run task) :
    message.rank program < program.rank task + 1 := by
  cases message with
  | spawn child => exact Nat.succ_lt_succ (program.rank_spawn valid member)
  | done result => exact Nat.succ_pos _

/-- As long as the loop has not stopped, some worker can go on. -/
theorem Consistent.progress (consistent : Consistent program init pool) (running : pool.boot ≠ none ∨ pool.inflight ≠ 0) :
    ∃ next, Step program pool next := by
  obtain ⟨boot, workers, inflight, outputs⟩ := pool
  cases boot with
  | some task =>
    cases consistent.waiting task rfl
    exact ⟨_, .boot⟩
  | none =>
    have counting : inflight ≠ 0 := running.resolve_left fun booting => booting rfl
    have live := consistent.live rfl
    have occupied : pending ⟨none, workers, inflight, outputs⟩ ≠ [] := by
      intro drained
      apply counting
      have counted := live.counted
      rw [drained] at counted
      exact counted
    obtain ⟨message, inside⟩ := exists_mem_of_ne_nil _ occupied
    obtain ⟨⟨task, received, sent, unsent⟩, member, held⟩ := mem_flatMap.mp inside
    obtain ⟨first, last, rfl⟩ := append_of_mem member
    cases sent with
    | cons head sent =>
      cases head with
      | spawn child => exact ⟨_, .receiveSpawn counting⟩
      | done result => exact ⟨_, .receiveDone counting⟩
    | nil =>
      cases unsent with
      | cons head unsent => exact ⟨_, .send⟩
      | nil => exact absurd held not_mem_nil

section

variable (valid : program.Valid init)
include valid

theorem Consistent.step {before after} (consistent : Consistent program init before) (step : Step program before after) :
    Consistent program init after := by
  have sound := consistent.sound
  cases step with
  | @boot task outputs =>
    cases consistent.waiting task rfl
    refine ⟨fun _ waits => (by cases waits), fun _ => ?_, ?_⟩
    · simpa [pending, Worker.pending] using Live.initial valid
    · simp [Worker.Sound, Worker.pending, valid]
  | @send first last task received sent message unsent inflight outputs =>
    have live := consistent.live rfl
    simp only [forall_mem_append, forall_mem_cons] at sound
    obtain ⟨early, own, late⟩ := sound
    refine ⟨fun _ waits => (by cases waits), fun _ => ?_, ?_⟩
    · simpa [pending, Worker.pending] using live
    · simp only [forall_mem_append, forall_mem_cons]
      exact ⟨early, by simpa [Worker.Sound, Worker.pending] using own, late⟩
  | @receiveSpawn first last task received child sent unsent inflight outputs going =>
    have live := consistent.live rfl
    simp only [forall_mem_append, forall_mem_cons] at sound
    obtain ⟨early, own, late⟩ := sound
    have childValid : program.Valid child := live.valid child (by simp [pending, Worker.pending])
    have front := @perm_middle _ (.spawn child) (first.flatMap Worker.pending) (sent ++ unsent ++ last.flatMap Worker.pending)
    refine ⟨fun _ waits => (by cases waits), fun _ => ?_, ?_⟩
    · have next := (Live.perm (by simpa [pending, Worker.pending] using live) front).spawn
      simpa [pending, Worker.pending] using next
    · simp only [forall_mem_append, forall_mem_cons]
      refine ⟨early, by simpa [Worker.Sound, Worker.pending] using own, late, ?_⟩
      simp [Worker.Sound, Worker.pending, childValid]
  | @receiveDone first last task received result sent unsent inflight outputs going =>
    have live := consistent.live rfl
    simp only [forall_mem_append, forall_mem_cons] at sound
    obtain ⟨early, own, late⟩ := sound
    have front := @perm_middle _ (.done result) (first.flatMap Worker.pending) (sent ++ unsent ++ last.flatMap Worker.pending)
    refine ⟨fun _ waits => (by cases waits), fun _ => ?_, ?_⟩
    · have next := (Live.perm (by simpa [pending, Worker.pending] using live) front).done
      simpa [pending, Worker.pending] using next
    · simp only [forall_mem_append, forall_mem_cons]
      exact ⟨early, by simpa [Worker.Sound, Worker.pending] using own, late⟩

theorem Consistent.reachable (reachable : Reachable program init pool) : Consistent program init pool := by
  induction reachable with
  | refl => exact Consistent.start
  | tail _ step ih => exact ih.step valid step

/-- Receiving replaces a message by messages of smaller rank; sending lowers the number of unsent messages. -/
theorem step_decreases {before after} (consistent : Consistent program init before) (step : Step program before after) :
    Prod.Lex (Relation.CutExpand (InvImage (· < ·) (Message.rank program))) (· < ·)
      (after.outstanding, after.unsentCount) (before.outstanding, before.unsentCount) := by
  cases step with
  | @boot task outputs =>
    cases consistent.waiting task rfl
    refine Prod.Lex.left _ _ ⟨↑(program.run init), .spawn init, fun message member => rank_run valid member, ?_⟩
    simp [outstanding, pending, Worker.pending, add_comm]
  | @send first last task received sent message unsent inflight outputs =>
    have same : outstanding ⟨none, first ++ ⟨task, received, sent ++ [message], unsent⟩ :: last, inflight, outputs⟩ =
        outstanding ⟨none, first ++ ⟨task, received, sent, message :: unsent⟩ :: last, inflight, outputs⟩ := by
      simp [outstanding, pending, Worker.pending]
    rw [same]
    exact Prod.Lex.right _ (by simp [unsentCount])
  | @receiveSpawn first last task received child sent unsent inflight outputs going =>
    have childValid : program.Valid child := (consistent.live rfl).valid child (by simp [pending, Worker.pending])
    refine Prod.Lex.left _ _ ⟨↑(program.run child), .spawn child, fun message member => rank_run childValid member, ?_⟩
    simp only [outstanding, pending, Worker.pending, Option.toList_none, map_nil, nil_append,
      flatMap_append, flatMap_cons, flatMap_nil, append_nil, cons_append, ← Multiset.coe_add,
      ← Multiset.cons_coe, ← Multiset.singleton_add]
    abel
  | @receiveDone first last task received result sent unsent inflight outputs going =>
    refine Prod.Lex.left _ _ ⟨0, .done result, fun message member => (by simp at member), ?_⟩
    simp only [outstanding, pending, Worker.pending, Option.toList_none, map_nil, nil_append,
      flatMap_append, flatMap_cons, cons_append, ← Multiset.coe_add, ← Multiset.cons_coe,
      ← Multiset.singleton_add]
    abel

/-- No schedule of the workers goes on for ever. -/
theorem step_wellFounded :
    WellFounded fun after before : { pool : Pool Task Out // Consistent program init pool } =>
      Step program before.val after.val := by
  have order : WellFounded (Prod.Lex (Relation.CutExpand (InvImage (· < ·) (Message.rank program))) (· < ·) :
      Multiset (Message Task Out) × Nat → Multiset (Message Task Out) × Nat → Prop) :=
    WellFounded.prod_lex (InvImage.wf _ Nat.lt_wfRel.wf).cutExpand Nat.lt_wfRel.wf
  refine Subrelation.wf (fun {after before} step => ?_)
    (InvImage.wf (fun pool : { pool : Pool Task Out // Consistent program init pool } =>
      (pool.val.outstanding, pool.val.unsentCount)) order)
  exact step_decreases valid before.property step

theorem no_infinite_schedule (schedule : Nat → Pool Task Out) (starts : schedule 0 = start init) :
    ¬ ∀ time, Step program (schedule time) (schedule (time + 1)) := by
  intro steps
  have consistent : ∀ time, Consistent program init (schedule time) := by
    intro time
    induction time with
    | zero => exact starts ▸ Consistent.start
    | succ time ih => exact ih.step valid (steps time)
  obtain ⟨pool, ⟨time, rfl⟩, least⟩ := (step_wellFounded valid).has_min
    (Set.range fun time => (⟨schedule time, consistent time⟩ : { pool // Consistent program init pool })) ⟨_, 0, rfl⟩
  exact least _ ⟨time + 1, rfl⟩ (steps time)

/-- When the counter is back at zero every message of every worker has been received, and the outputs are the results
of the first task and of all tasks spawned from it. -/
theorem finished (reachable : Reachable program init pool) (booted : pool.boot = none) (finished : pool.inflight = 0) :
    (∀ worker ∈ pool.workers, worker.received = program.run worker.task) ∧
      ∀ out, out ∈ pool.outputs ↔ Yields program init out := by
  have consistent := Consistent.reachable valid reachable
  have drained : ∀ worker ∈ pool.workers, worker.pending = [] :=
    fun worker member => consistent.inflight_eq_zero booted finished member
  refine ⟨fun worker member => ?_, fun out => ?_⟩
  · have whole := (consistent.sound worker member).2
    rwa [drained worker member, append_nil] at whole
  · have nothing : pool.pending = [] := flatMap_eq_nil_iff.mpr drained
    rw [(consistent.live booted).yields out, nothing]
    simp

end

end Pool

end DrasiCore.Library.WorkPool
