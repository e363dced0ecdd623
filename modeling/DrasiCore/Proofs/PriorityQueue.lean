import DrasiCore.PriorityQueue
import DrasiCore.Library.Tally
import DrasiCore.Proofs.QueueCounts

/-! The priority queue under every schedule. With fewer producers than twice the capacity no wakeup is lost, so every run
ends with all events dequeued; with more, producers can take the notification that was meant for the consumer. -/

namespace DrasiCore

open Library List QueueTask

variable {E K : Type} [LinearOrder K] {count : Nat}

def QueueTask.index? : QueueTask count → Option (Fin count)
  | .producer index => some index
  | .consumer => none

namespace PriorityQueue

def inPhase (phase : TaskPhase) (producer : Producer E) : Nat := if producer.phase = phase then 1 else 0

def waitingProducers (queue : PriorityQueue E count) : List (Fin count) := queue.notify.waiters.filterMap index?

variable {phase : TaskPhase}

theorem inPhase_of_ne {producer : Producer E} (different : producer.phase ≠ phase) :
    inPhase phase producer = 0 := if_neg different

def producersIn (queue : PriorityQueue E count) (phase : TaskPhase) : Nat := tally (inPhase phase) queue.producers

def counts (queue : PriorityQueue E count) : QueueCounts where
  heap := queue.heap.length
  waiting := queue.waitingProducers.length
  woken := queue.producersIn .woken
  changing := queue.producersIn .notifying
  released := queue.consumer = .notifying
  ahead := if queue.consumer = .parked then some (queue.notify.waiters.idxOf .consumer) else none

/-- The waiters are the parked tasks, and a producer waits only with an event. -/
structure Booked (queue : PriorityQueue E count) : Prop where
  listed : ∀ task, task ∈ queue.notify.waiters ↔ queue.phase task = .parked
  distinct : queue.notify.waiters.Nodup
  pending : ∀ index, (queue.producers index).phase = .parked ∨ (queue.producers index).phase = .woken →
    (queue.producers index).events ≠ []

theorem booked_new (scripts : Fin count → List E) : Booked (new scripts) where
  listed task := by cases task <;> simp [new, phase, Notify.empty]
  distinct := nodup_nil
  pending index waiting := by simp [new] at waiting

theorem balanced_new (scripts : Fin count → List E) (capacity : Nat) :
    QueueCounts.Balanced capacity count (new scripts).counts :=
  .of_running rfl (Nat.zero_le _) (fun waits => absurd waits (Nat.lt_irrefl 0)) fun waits => absurd waits (Nat.lt_irrefl 0)

variable {index : Fin count}

section Phases

variable (queue : PriorityQueue E count)

theorem phase_setPhase (task other : QueueTask count) (phase : TaskPhase) :
    (queue.setPhase task phase).phase other = if other = task then phase else queue.phase other := by
  cases task with
  | consumer => cases other <;> simp [setPhase, PriorityQueue.phase]
  | producer index =>
    cases other with
    | consumer => simp [setPhase, PriorityQueue.phase]
    | producer other =>
      by_cases same : other = index
      · subst same
        simp [setPhase, PriorityQueue.phase]
      · simp [setPhase, PriorityQueue.phase, same]

section

variable (task : QueueTask count)

@[simp] theorem heap_setPhase (phase : TaskPhase) : (queue.setPhase task phase).heap = queue.heap := by
  cases task <;> rfl

@[simp] theorem notify_setPhase (phase : TaskPhase) :
    (queue.setPhase task phase).notify = queue.notify := by cases task <;> rfl

@[simp] theorem dequeued_setPhase (phase : TaskPhase) :
    (queue.setPhase task phase).dequeued = queue.dequeued := by cases task <;> rfl

theorem events_setPhase (phase : TaskPhase) (index : Fin count) :
    ((queue.setPhase task phase).producers index).events = (queue.producers index).events := by
  cases task with
  | consumer => rfl
  | producer other =>
    by_cases same : index = other
    · subst same
      simp [setPhase]
    · simp [setPhase, same]

end

section Counting

variable {queue} {counted : TaskPhase}

section

variable (notify : Notify (QueueTask count)) (queue : PriorityQueue E count)

@[simp] theorem notify_withNotify :
    (queue.withNotify notify).notify = notify := rfl

@[simp] theorem consumer_withNotify :
    (queue.withNotify notify).consumer = queue.consumer := rfl

@[simp] theorem phase_withNotify (task : QueueTask count) :
    (queue.withNotify notify).phase task = queue.phase task := by cases task <;> rfl

end

theorem producersIn_setPhase (counted phase : TaskPhase) (index : Fin count) :
    (queue.setPhase (.producer index) phase).producersIn counted + inPhase counted (queue.producers index) =
      queue.producersIn counted + if phase = counted then 1 else 0 := tally_update _ _ _ _

theorem producersIn_keep (before : (queue.producers index).phase ≠ counted) (after : phase ≠ counted) :
    (queue.setPhase (.producer index) phase).producersIn counted = queue.producersIn counted := by
  simpa [inPhase, before, after] using queue.producersIn_setPhase counted phase index

theorem producersIn_enter (before : (queue.producers index).phase ≠ counted) :
    (queue.setPhase (.producer index) counted).producersIn counted = queue.producersIn counted + 1 := by
  simpa [inPhase, before] using queue.producersIn_setPhase counted counted index

theorem producersIn_leave (before : (queue.producers index).phase = counted) (after : phase ≠ counted) :
    queue.producersIn counted = (queue.setPhase (.producer index) phase).producersIn counted + 1 := by
  simpa [inPhase, before, after] using (queue.producersIn_setPhase counted phase index).symm

theorem producersIn_run (after : phase ≠ .woken) :
    queue.producersIn .woken = (queue.setPhase (.producer index) phase).producersIn .woken ∨
      queue.producersIn .woken = (queue.setPhase (.producer index) phase).producersIn .woken + 1 := by
  by_cases woken : (queue.producers index).phase = .woken
  · exact .inr (producersIn_leave woken after)
  · exact .inl (producersIn_keep woken after).symm

end Counting

@[simp] theorem consumer_setPhase_producer (index : Fin count) (phase : TaskPhase) :
    (queue.setPhase (.producer index) phase).consumer = queue.consumer := rfl

@[simp] theorem consumer_setPhase_consumer (phase : TaskPhase) : (queue.setPhase .consumer phase).consumer = phase := rfl

end Phases

variable {task : QueueTask count} {rest : List (QueueTask count)} {first : QueueTask count}

variable {queue : PriorityQueue E count}

section Bookkeeping

theorem running_cases (running : phase.running) : phase = .idle ∨ phase = .woken := by
  cases phase <;> simp_all [TaskPhase.running]

theorem pending_setPhase
    (others : ∀ index, (queue.producers index).phase = .parked ∨ (queue.producers index).phase = .woken →
      (queue.producers index).events ≠ [])
    (own : ∀ index, task = .producer index → phase = .parked ∨ phase = .woken → (queue.producers index).events ≠ [])
    (index : Fin count) (waiting : ((queue.setPhase task phase).producers index).phase = .parked ∨
      ((queue.setPhase task phase).producers index).phase = .woken) :
    ((queue.setPhase task phase).producers index).events ≠ [] := by
  rw [events_setPhase]
  have phases : ((queue.setPhase task phase).producers index).phase =
      if producer index = task then phase else (queue.producers index).phase :=
    phase_setPhase queue task (.producer index) phase
  rw [phases] at waiting
  split at waiting
  · rename_i same
    exact own index same.symm waiting
  · exact others index waiting

theorem Booked.setPhase (booked : Booked queue) (runs : queue.phase task ≠ .parked) (moves : phase ≠ .parked)
    (pending : ∀ index, task = .producer index → phase = .woken → (queue.producers index).events ≠ []) :
    Booked (queue.setPhase task phase) := by
  refine ⟨fun other => ?_, by simpa using booked.distinct, pending_setPhase booked.pending fun index same waiting =>
    pending index same (waiting.resolve_left moves)⟩
  rw [notify_setPhase, booked.listed, phase_setPhase]
  split
  · rename_i same
    subst same
    simp [runs, moves]
  · rfl

section

variable (queue : PriorityQueue E count) (task : QueueTask count)

theorem await_of_kept (kept : queue.notify.permit = true) :
    ∃ notify, queue.await task = (queue.withNotify notify).setPhase task .idle ∧ notify.waiters = [] ∧
      notify.permit = false := by
  obtain ⟨taken, waiters, permit⟩ := Notify.enable_of_kept kept task
  refine ⟨(queue.notify.enable task).2, ?_, waiters, permit⟩
  rw [await]
  simp [taken]

theorem await_of_not_kept (none : queue.notify.permit = false) :
    ∃ notify, queue.await task = (queue.withNotify notify).setPhase task .parked ∧
      notify.waiters = queue.notify.waiters ++ [task] ∧ notify.permit = false := by
  obtain ⟨waits, waiters, permit⟩ := Notify.enable_of_not_kept none task
  refine ⟨(queue.notify.enable task).2, ?_, waiters, permit⟩
  rw [await]
  simp [waits]

theorem withNotify_setPhase (notify : Notify (QueueTask count)) (phase : TaskPhase) :
    (queue.withNotify notify).setPhase task phase = (queue.setPhase task phase).withNotify notify := by
  cases task <;> rfl

theorem notifyOne_of_nil (none : queue.notify.waiters = []) :
    ∃ notify, queue.notifyOne task = (queue.setPhase task .idle).withNotify notify ∧ notify.waiters = [] ∧
      notify.permit = true := by
  obtain ⟨nobody, waiters, permit⟩ := Notify.notifyOne_of_nil none
  refine ⟨queue.notify.notifyOne.2, ?_, waiters, permit⟩
  rw [← withNotify_setPhase, notifyOne]
  simp [nobody]

theorem notifyOne_of_cons (waiting : queue.notify.waiters = first :: rest) :
    ∃ notify, queue.notifyOne task = ((queue.setPhase task .idle).withNotify notify).setPhase first .woken ∧
      notify.waiters = rest ∧ notify.permit = queue.notify.permit := by
  obtain ⟨woken, waiters, permit⟩ := Notify.notifyOne_of_cons waiting
  refine ⟨queue.notify.notifyOne.2, ?_, waiters, permit⟩
  rw [← withNotify_setPhase, notifyOne]
  simp [woken]

end

end Bookkeeping

variable {scripts : Fin count → List E} {next : PriorityQueue E count} {orderKey : E → K} {capacity : Nat}

section Steps

theorem running_ne (running : phase.running) : phase ≠ .parked ∧ phase ≠ .notifying := by
  rcases running_cases running with rfl | rfl <;> exact ⟨nofun, nofun⟩

section

variable (booked : Booked queue)
include booked

/-- A producer finds room: seen as a change of phase, with the events apart. -/
theorem Booked.push (event : E) (events : List E) (running : (queue.producers index).phase.running)
    (room : queue.heap.length < capacity) :
    let pushed : PriorityQueue E count := { queue with
      heap := event :: queue.heap
      producers := Function.update queue.producers index ⟨.notifying, events⟩ }
    Booked pushed ∧ QueueCounts.Moves capacity count queue.counts pushed.counts := by
  intro pushed
  obtain ⟨notParked, notNotifying⟩ := running_ne running
  have moved : Booked (queue.setPhase (.producer index) .notifying) := booked.setPhase notParked nofun fun _ _ => nofun
  have phases (other : Fin count) : (pushed.producers other).phase =
      ((queue.setPhase (.producer index) .notifying).producers other).phase := by
    by_cases same : other = index
    · subst same
      simp [pushed, PriorityQueue.setPhase]
    · simp [pushed, PriorityQueue.setPhase, same]
  have same (counted : TaskPhase) :
      pushed.producersIn counted = (queue.setPhase (.producer index) .notifying).producersIn counted := by
    unfold producersIn tally inPhase
    simp only [phases]
  refine ⟨⟨fun task => ?_, booked.distinct, fun other waiting => ?_⟩, ?_⟩
  · rw [show pushed.phase task = (queue.setPhase (.producer index) .notifying).phase task by
      cases task with
      | consumer => rfl
      | producer other => exact phases other]
    exact moved.listed task
  · rw [phases] at waiting
    have different : other ≠ index := by
      intro same
      subst same
      simp [PriorityQueue.setPhase] at waiting
    simpa [pushed, PriorityQueue.setPhase, different] using moved.pending other waiting
  · have moves : pushed.counts = { queue.counts with
        heap := queue.counts.heap + 1
        woken := pushed.producersIn .woken
        changing := queue.counts.changing + 1 } := by
      ext1
      case changing => exact (same .notifying).trans (producersIn_enter notNotifying)
      all_goals rfl
    rw [moves, same]
    exact .push room (producersIn_run nofun)

theorem Booked.nobody (alone : queue.notify.waiters = []) (task : QueueTask count) : queue.phase task ≠ .parked := by
  intro parked
  have listed := (booked.listed task).mpr parked
  rw [alone] at listed
  exact absurd listed not_mem_nil

variable {notify : Notify (QueueTask count)}

theorem Booked.withNotify (same : notify.waiters = queue.notify.waiters) : Booked (queue.withNotify notify) where
  listed task := by
    rw [phase_withNotify, ← booked.listed task, ← same]
    rfl
  distinct := by
    have distinct := booked.distinct
    rwa [← same] at distinct
  pending := booked.pending

theorem Booked.counts_alone (alone : queue.notify.waiters = []) :
    queue.counts = ⟨queue.heap.length, 0, queue.producersIn .woken, queue.producersIn .notifying,
      queue.consumer = .notifying, none⟩ := by
  have runs : queue.consumer ≠ .parked := booked.nobody alone .consumer
  simp [counts, waitingProducers, alone, runs]

theorem Booked.retry (running : (queue.phase task).running) (kept : queue.notify.permit = true) :
    Booked (queue.await task) ∧ QueueCounts.Moves capacity count queue.counts (queue.await task).counts := by
  obtain ⟨notParked, notNotifying⟩ := running_ne running
  obtain ⟨notify, shape, alone, -⟩ := await_of_kept queue task kept
  have before := queue.notify.alone kept
  have next : Booked ((queue.withNotify notify).setPhase task .idle) :=
    (booked.withNotify (alone.trans before.symm)).setPhase notParked nofun fun _ _ => nofun
  rw [shape]
  refine ⟨next, ?_⟩
  rw [booked.counts_alone before, next.counts_alone (by rw [notify_setPhase]; exact alone)]
  cases task with
  | consumer =>
    rw [decide_eq_false (show ¬ queue.consumer = .notifying from notNotifying)]
    exact .retry rfl rfl
  | producer index =>
    have same : ((queue.withNotify notify).setPhase (.producer index) .idle).producersIn .notifying =
        queue.producersIn .notifying := producersIn_keep notNotifying nofun
    rw [same]
    exact .retry rfl rfl

theorem Booked.length_waiting (runs : queue.consumer ≠ .parked) :
    queue.waitingProducers.length = queue.notify.waiters.length := by
  have all : ∀ task ∈ queue.notify.waiters, (index? task).isSome := by
    intro task member
    cases task with
    | producer index => rfl
    | consumer => exact absurd ((booked.listed .consumer).mp member) runs
  unfold waitingProducers
  generalize queue.notify.waiters = waiters at all
  induction waiters with
  | nil => rfl
  | cons task tasks ih =>
    obtain ⟨index, some⟩ := Option.isSome_iff_exists.mp (all task mem_cons_self)
    rw [filterMap_cons_some some, length_cons, length_cons,
      ih fun other member => all other (mem_cons_of_mem _ member)]

theorem Booked.waiting_lt (runs : (queue.producers index).phase ≠ .parked) : queue.waitingProducers.length < count := by
  have distinct : (index :: queue.waitingProducers).Nodup := by
    refine nodup_cons.mpr ⟨fun member => ?_, booked.distinct.filterMap ?_⟩
    · obtain ⟨task, listed, same⟩ := mem_filterMap.mp member
      cases task with
      | consumer => cases same
      | producer other =>
        cases same
        exact runs ((booked.listed _).mp listed)
    · intro one two other first second
      cases one <;> cases two <;> simp_all [index?]
  have bounded := distinct.length_le_card
  rw [Fintype.card_fin, length_cons] at bounded
  exact bounded

theorem Booked.park (task : QueueTask count) (running : (queue.phase task).running)
    (events : ∀ index, task = .producer index → (queue.producers index).events ≠ [])
    (waiters : notify.waiters = queue.notify.waiters ++ [task]) :
    Booked ((queue.withNotify notify).setPhase task .parked) := by
  obtain ⟨notParked, -⟩ := running_ne running
  have absent : task ∉ queue.notify.waiters := fun listed => notParked ((booked.listed task).mp listed)
  refine ⟨fun other => ?_, ?_, pending_setPhase booked.pending fun index same _ => events index same⟩
  · rw [phase_setPhase, notify_setPhase, notify_withNotify, waiters, mem_append, mem_singleton, booked.listed]
    split
    · rename_i same
      simp [same]
    · rename_i different
      simp [different]
  · rw [notify_setPhase, notify_withNotify, waiters]
    exact nodup_append.mpr ⟨booked.distinct, nodup_singleton task, fun one member two single same =>
      absent (mem_singleton.mp single ▸ same ▸ member)⟩

theorem Booked.mem_consumer : QueueTask.consumer ∈ queue.notify.waiters ↔ queue.consumer = .parked :=
  booked.listed .consumer

theorem Booked.wait (running : (queue.producers index).phase.running) (events : (queue.producers index).events ≠ [])
    (full : capacity ≤ queue.heap.length) (none : queue.notify.permit = false) :
    Booked (queue.await (.producer index)) ∧
      QueueCounts.Moves capacity count queue.counts (queue.await (.producer index)).counts := by
  obtain ⟨notParked, notNotifying⟩ := running_ne running
  obtain ⟨notify, shape, waiters, -⟩ := await_of_not_kept queue (.producer index) none
  rw [shape]
  refine ⟨booked.park (.producer index) running (fun other same => by cases same; exact events) waiters, ?_⟩
  have waiting : ((queue.withNotify notify).setPhase (.producer index) .parked).waitingProducers.length =
      queue.waitingProducers.length + 1 := by
    rw [waitingProducers, notify_setPhase, notify_withNotify, waiters, filterMap_append, length_append]
    rfl
  have changing : ((queue.withNotify notify).setPhase (.producer index) .parked).producersIn .notifying =
      queue.producersIn .notifying := producersIn_keep notNotifying nofun
  have moves : ((queue.withNotify notify).setPhase (.producer index) .parked).counts = { queue.counts with
      waiting := queue.counts.waiting + 1
      woken := ((queue.withNotify notify).setPhase (.producer index) .parked).producersIn .woken } := by
    ext1
    case waiting => exact waiting
    case changing => exact changing
    case ahead =>
      simp only [counts, consumer_setPhase_producer, consumer_withNotify, notify_setPhase, notify_withNotify, waiters]
      split
      · rename_i parked
        rw [idxOf_append_of_mem (booked.mem_consumer.mpr parked)]
      · rfl
    all_goals rfl
  rw [moves]
  exact .wait full (booked.waiting_lt notParked) (producersIn_run nofun)

theorem Booked.starve (running : queue.consumer.running) (bare : queue.heap = []) (none : queue.notify.permit = false) :
    Booked (queue.await .consumer) ∧ QueueCounts.Moves capacity count queue.counts (queue.await .consumer).counts := by
  obtain ⟨notParked, notNotifying⟩ := running_ne running
  obtain ⟨notify, shape, waiters, -⟩ := await_of_not_kept queue .consumer none
  rw [shape]
  refine ⟨booked.park .consumer running (fun _ same => nomatch same) waiters, ?_⟩
  have absent : QueueTask.consumer ∉ queue.notify.waiters := fun listed => notParked (booked.mem_consumer.mp listed)
  have moves : ((queue.withNotify notify).setPhase .consumer .parked).counts =
      { queue.counts with ahead := some queue.counts.waiting } := by
    ext1
    case waiting =>
      simp only [counts, waitingProducers, notify_setPhase, notify_withNotify, waiters, filterMap_append, length_append]
      rfl
    case released => simp [counts, notNotifying]
    case ahead =>
      simp only [counts, consumer_setPhase_consumer, notify_setPhase, notify_withNotify, waiters, if_true]
      rw [idxOf_append_of_notMem absent, booked.length_waiting notParked]
      simp
    all_goals rfl
  rw [moves]
  refine .starve ?_ ?_ ?_
  · simp [counts, bare]
  · simp [counts, notNotifying]
  · simp [counts, notParked]

theorem Booked.pop {rest event} (running : queue.consumer.running) (taken : queue.heap.length = rest.length + 1) :
    let popped : PriorityQueue E count :=
      { queue with heap := rest, consumer := .notifying, dequeued := queue.dequeued ++ [event] }
    Booked popped ∧ QueueCounts.Moves capacity count queue.counts popped.counts := by
  intro popped
  obtain ⟨notParked, notNotifying⟩ := running_ne running
  have moved : Booked (queue.setPhase .consumer .notifying) := booked.setPhase notParked nofun fun _ => nofun
  refine ⟨⟨fun task => ?_, moved.distinct, moved.pending⟩, ?_⟩
  · rw [show popped.phase task = (queue.setPhase .consumer .notifying).phase task by cases task <;> rfl]
    exact moved.listed task
  · have moves : popped.counts = { queue.counts with heap := rest.length, released := true } := by
      ext1
      case ahead => simp [counts, popped, notParked]
      all_goals rfl
    rw [moves]
    refine .pop taken ?_ ?_
    · simp [counts, notNotifying]
    · simp [counts, notParked]

theorem Booked.wake (waiting : queue.notify.waiters = first :: rest) (waiters : notify.waiters = rest) :
    Booked ((queue.withNotify notify).setPhase first .woken) := by
  have distinct := booked.distinct
  rw [waiting, nodup_cons] at distinct
  have parked : queue.phase first = .parked := (booked.listed first).mp (waiting ▸ mem_cons_self)
  refine ⟨fun other => ?_, ?_, pending_setPhase booked.pending fun index same _ => ?_⟩
  · have listed := booked.listed other
    rw [waiting, mem_cons] at listed
    rw [phase_setPhase, notify_setPhase, notify_withNotify, waiters]
    split
    · rename_i same
      simp [same, distinct.1]
    · rename_i different
      simpa [different] using listed
  · rw [notify_setPhase, notify_withNotify, waiters]
    exact distinct.2
  · subst same
    exact booked.pending index (.inl parked)

theorem Booked.counts_wake (waiting : queue.notify.waiters = .producer index :: rest) (waiters : notify.waiters = rest) :
    queue.counts.waiting = (rest.filterMap index?).length + 1 ∧ queue.counts.ahead ≠ some 0 ∧
      ((queue.withNotify notify).setPhase (.producer index) .woken).counts = { queue.counts with
        waiting := (rest.filterMap index?).length
        woken := queue.counts.woken + 1
        ahead := queue.counts.ahead.map (· - 1) } := by
  have parked : (queue.producers index).phase = .parked :=
    (booked.listed (.producer index)).mp (waiting ▸ mem_cons_self)
  have place : (producer index :: rest).idxOf .consumer = rest.idxOf .consumer + 1 := idxOf_cons_ne _ nofun
  refine ⟨?_, ?_, ?_⟩
  · simp only [counts, waitingProducers, waiting]
    rfl
  · simp only [counts, waiting, place]
    split <;> simp
  · ext1
    case waiting => simp only [counts, waitingProducers, notify_setPhase, notify_withNotify, waiters]
    case woken => exact producersIn_enter fun woken => absurd (parked.symm.trans woken) nofun
    case changing => exact producersIn_keep (fun notifying => absurd (parked.symm.trans notifying) nofun) nofun
    case ahead =>
      simp only [counts, consumer_setPhase_producer, consumer_withNotify, notify_setPhase,
        notify_withNotify, waiters, waiting, place]
      split <;> simp
    all_goals rfl

end

theorem counts_sent_producer (changed : (queue.producers index).phase = .notifying) :
    ∃ changing, queue.counts.changing = changing + 1 ∧
      (queue.setPhase (.producer index) .idle).counts = { queue.counts with changing := changing } := by
  refine ⟨(queue.setPhase (.producer index) .idle).counts.changing, producersIn_leave changed nofun, ?_⟩
  ext1
  case woken => exact producersIn_keep (fun woken => absurd (changed.symm.trans woken) nofun) nofun
  case waiting => simp only [counts, waitingProducers, notify_setPhase]
  all_goals rfl

theorem counts_sent_consumer (changed : queue.consumer = .notifying) :
    queue.counts.released = true ∧ queue.counts.ahead = none ∧
      (queue.setPhase .consumer .idle).counts = { queue.counts with released := false } := by
  refine ⟨by simp [counts, changed], by simp [counts, changed], ?_⟩
  ext1
  case ahead => simp [counts, changed]
  all_goals rfl

theorem Booked.notify (booked : Booked queue) (changed : queue.phase task = .notifying) :
    Booked (queue.notifyOne task) ∧ QueueCounts.Moves capacity count queue.counts (queue.notifyOne task).counts := by
  have sent : Booked (queue.setPhase task .idle) := booked.setPhase (by rw [changed]; exact nofun) nofun fun _ _ => nofun
  cases waiting : queue.notify.waiters with
  | nil =>
    obtain ⟨notify, shape, alone, -⟩ := notifyOne_of_nil queue task waiting
    rw [shape]
    have before : (queue.setPhase task .idle).notify.waiters = [] := by rw [notify_setPhase, waiting]
    have next := sent.withNotify (alone.trans before.symm)
    have same : ((queue.setPhase task .idle).withNotify notify).counts =
        (queue.setPhase task .idle).counts := by
      simp only [counts, waitingProducers, notify_withNotify, alone, before]
      rfl
    refine ⟨next, ?_⟩
    rw [same]
    have nobody : queue.counts.waiting = 0 := by simp [counts, waitingProducers, waiting]
    have runs : queue.counts.ahead = none := by rw [booked.counts_alone waiting]
    cases task with
    | producer index =>
      obtain ⟨changing, one, after⟩ := counts_sent_producer changed
      rw [after]
      exact .keepPushed one nobody runs
    | consumer =>
      obtain ⟨released, -, after⟩ := counts_sent_consumer changed
      rw [after]
      exact .keepTaken released nobody runs
  | cons first rest =>
    obtain ⟨notify, shape, waiters, -⟩ := notifyOne_of_cons queue task waiting
    rw [shape]
    have before : (queue.setPhase task .idle).notify.waiters = first :: rest := by rw [notify_setPhase, waiting]
    refine ⟨sent.wake before waiters, ?_⟩
    cases first with
    | producer index =>
      obtain ⟨some, behind, woken⟩ := sent.counts_wake before waiters
      rw [woken]
      cases task with
      | producer sender =>
        obtain ⟨changing, one, after⟩ := counts_sent_producer changed
        rw [after] at some behind ⊢
        exact .wakeProducer one some behind
      | consumer =>
        obtain ⟨released, runs, after⟩ := counts_sent_consumer changed
        rw [after] at some ⊢
        simp only [runs, Option.map_none]
        have alone : queue.counts.ahead = none := runs
        rw [← alone]
        exact .wakeTaken released some runs
    | consumer =>
      cases task with
      | consumer =>
        have parked := (booked.listed .consumer).mp (waiting ▸ mem_cons_self)
        exact absurd (parked.symm.trans changed) nofun
      | producer sender =>
        obtain ⟨changing, one, after⟩ := counts_sent_producer changed
        have parked : queue.consumer = .parked := (booked.listed .consumer).mp (waiting ▸ mem_cons_self)
        have woken := congrArg QueueCounts.woken after
        have changes := congrArg QueueCounts.changing after
        have next : (((queue.setPhase (.producer sender) .idle).withNotify notify).setPhase .consumer .woken).counts =
            { queue.counts with changing := changing, ahead := none } := by
          ext1
          case waiting =>
            simp only [counts, waitingProducers, notify_setPhase, notify_withNotify, waiters, waiting]
            rfl
          case woken => exact woken
          case changing => exact changes
          case released => simp [counts, parked]
          all_goals rfl
        rw [next]
        refine .wakeConsumer one ?_
        simp [counts, parked, waiting]

theorem Booked.step (booked : Booked queue) (step : Step orderKey capacity queue next) :
    Booked next ∧ QueueCounts.Moves capacity count queue.counts next.counts := by
  cases step with
  | enqueue index running pending =>
    obtain ⟨event, events, shape⟩ := exists_cons_of_ne_nil pending
    simp only [enqueueWait, shape]
    split
    · rename_i room
      exact booked.push event events running room
    · rename_i full
      by_cases kept : queue.notify.permit = true
      · exact booked.retry running kept
      · exact booked.wait running pending (Nat.not_lt.mp full) (Bool.not_eq_true _ ▸ kept)
  | dequeue running pops => exact booked.pop running pops.1.length_eq
  | empty running none =>
    by_cases kept : queue.notify.permit = true
    · exact booked.retry running kept
    · exact booked.starve running none (Bool.not_eq_true _ ▸ kept)
  | notify task changed => exact booked.notify changed

theorem Reached.booked (reached : Reached orderKey capacity scripts queue) : Booked queue := by
  induction reached with
  | refl => exact booked_new scripts
  | tail _ step booked => exact (booked.step step).1

theorem Reached.balanced (few : count < 2 * capacity)
    (reached : Reached orderKey capacity scripts queue) : QueueCounts.Balanced capacity count queue.counts := by
  induction reached with
  | refl => exact balanced_new scripts capacity
  | tail earlier step balanced => exact balanced.moves few ((Reached.booked earlier).step step).2

end Steps

theorem exists_inPhase {queue : PriorityQueue E count} {counted} (some : 0 < queue.producersIn counted) :
    ∃ index, (queue.producers index).phase = counted := by
  obtain ⟨index, here⟩ := exists_of_tally_pos some
  refine ⟨index, ?_⟩
  by_contra different
  exact absurd (inPhase_of_ne different) here.ne'

section Progress

theorem exists_pops (orderKey : E → K) {heap} (filled : heap ≠ []) : ∃ event rest, Pops orderKey heap event rest := by
  obtain ⟨event, member, least⟩ : ∃ event ∈ heap, ∀ other ∈ heap, orderKey event ≤ orderKey other := by
    induction heap with
    | nil => exact absurd rfl filled
    | cons first rest ih =>
      by_cases more : rest = []
      · exact ⟨first, mem_cons_self, by simp [more]⟩
      · obtain ⟨event, member, least⟩ := ih more
        rcases le_total (orderKey first) (orderKey event) with below | above
        · refine ⟨first, mem_cons_self, fun other present => ?_⟩
          rcases mem_cons.mp present with rfl | later
          · exact le_rfl
          · exact below.trans (least other later)
        · refine ⟨event, mem_cons_of_mem _ member, fun other present => ?_⟩
          rcases mem_cons.mp present with rfl | later
          · exact above
          · exact least other later
  obtain ⟨front, back, rfl⟩ := append_of_mem member
  exact ⟨event, front ++ back, perm_middle, least⟩

/-- In a state without steps the consumer waits, and so does every producer that has events left. -/
theorem parked_of_stuck (booked : Booked queue) (stuck : ∀ next, ¬ Step orderKey capacity queue next) :
    queue.consumer = .parked ∧
      ∀ index, (queue.producers index).phase = .parked ∨ queue.producers index = ⟨.idle, []⟩ := by
  have silent (task : QueueTask count) : queue.phase task ≠ .notifying := fun changed => stuck _ (.notify task changed)
  constructor
  · cases consumer : queue.consumer with
    | parked => rfl
    | notifying => exact absurd consumer (silent .consumer)
    | idle | woken =>
      have running : queue.consumer.running := by simp [consumer, TaskPhase.running]
      by_cases filled : queue.heap = []
      · exact absurd (.empty running filled) (stuck _)
      · obtain ⟨event, rest, pops⟩ := exists_pops orderKey filled
        exact absurd (.dequeue running pops) (stuck _)
  · intro index
    have finished (running : (queue.producers index).phase.running) : (queue.producers index).events = [] := by
      by_contra more
      exact stuck _ (.enqueue index running more)
    cases phase : (queue.producers index).phase with
    | parked => exact .inl rfl
    | notifying => exact absurd phase (silent (.producer index))
    | woken => exact absurd (finished (by rw [phase]; rfl)) (booked.pending index (.inr phase))
    | idle =>
      right
      rw [← phase, ← finished (by rw [phase]; rfl)]

/-- With few producers a state without steps is complete but for the account of the events. -/
theorem Reached.finished (few : count < 2 * capacity)
    (reached : Reached orderKey capacity scripts queue) (stuck : ∀ next, ¬ Step orderKey capacity queue next) :
    (∀ index, queue.producers index = ⟨.idle, []⟩) ∧ queue.heap = [] := by
  have booked := reached.booked
  have balanced := reached.balanced few
  obtain ⟨parked, producers⟩ := parked_of_stuck booked stuck
  have quiet {counted : TaskPhase} (active : counted = .woken ∨ counted = .notifying) : queue.producersIn counted = 0 := by
    apply Nat.eq_zero_of_not_pos
    intro some
    obtain ⟨index, phase⟩ := exists_inPhase some
    rcases producers index with waits | done
    · rcases active with rfl | rfl <;> exact absurd (waits.symm.trans phase) nofun
    · rw [done] at phase
      rcases active with rfl | rfl <;> exact absurd phase nofun
  have woken : queue.counts.woken = 0 := quiet (.inl rfl)
  have changing : queue.counts.changing = 0 := quiet (.inr rfl)
  have released : queue.counts.released = false := by simp [counts, parked]
  have ahead : queue.counts.ahead = some (queue.notify.waiters.idxOf .consumer) := by simp [counts, parked]
  have bare : queue.counts.heap = 0 := by
    apply Nat.eq_zero_of_not_pos
    intro filled
    have noticed := balanced.consumer_noticed ahead filled
    omega
  have nobody : queue.counts.waiting = 0 := by
    apply Nat.eq_zero_of_not_pos
    intro waits
    have noticed := balanced.producer_noticed waits (by omega)
    rw [woken, released] at noticed
    exact absurd noticed (Nat.lt_irrefl 0)
  refine ⟨fun index => (producers index).resolve_left fun waits => ?_, eq_nil_of_length_eq_zero bare⟩
  have listed : index ∈ queue.waitingProducers :=
    mem_filterMap.mpr ⟨.producer index, (booked.listed _).mpr waits, rfl⟩
  rw [eq_nil_of_length_eq_zero nobody] at listed
  exact absurd listed not_mem_nil

end Progress

section Account

/-- All events: dequeued, in the heap, or still with their producers. -/
def account (queue : PriorityQueue E count) : Multiset E :=
  queue.dequeued + queue.heap + tally (fun producer => (producer.events : Multiset E)) queue.producers

section

variable (queue : PriorityQueue E count)

theorem account_setPhase (task : QueueTask count) (phase : TaskPhase) :
    (queue.setPhase task phase).account = queue.account := by
  unfold account tally
  simp only [dequeued_setPhase, heap_setPhase, events_setPhase]

theorem account_await (task : QueueTask count) : (queue.await task).account = queue.account :=
  account_setPhase _ _ _

theorem account_notifyOne (task : QueueTask count) : (queue.notifyOne task).account = queue.account := by
  have sent (notify : Notify (QueueTask count)) : ((queue.withNotify notify).setPhase task .idle).account = queue.account :=
    account_setPhase _ _ _
  simp only [notifyOne]
  split
  · rw [account_setPhase]
    exact sent _
  · exact sent _

end

/-- No step loses or doubles an event. -/
theorem account_step (step : Step orderKey capacity queue next) : next.account = queue.account := by
  cases step with
  | enqueue index running pending =>
    obtain ⟨event, events, shape⟩ := exists_cons_of_ne_nil pending
    simp only [enqueueWait, shape]
    split
    · have moved := tally_update (fun producer : Producer E => (producer.events : Multiset E)) queue.producers index
        ⟨.notifying, events⟩
      simp only [shape, ← Multiset.cons_coe, Multiset.add_cons] at moved
      rw [← Multiset.cons_add, Multiset.add_left_inj] at moved
      simp only [account, ← Multiset.cons_coe, ← moved, Multiset.add_cons, Multiset.cons_add]
    · exact account_await _ _
  | dequeue running pops =>
    simp only [account, Multiset.coe_eq_coe.mpr pops.1, ← Multiset.coe_add, ← Multiset.cons_coe]
    rw [add_assoc (queue.dequeued : Multiset E), Multiset.coe_nil, Multiset.cons_zero, Multiset.singleton_add]
  | empty running none => exact account_await _ _
  | notify task changed => exact account_notifyOne _ _

theorem Reached.account (reached : Reached orderKey capacity scripts queue) :
    queue.account = ∑ index, (scripts index : Multiset E) := by
  induction reached with
  | refl => simp [PriorityQueue.account, new, tally]
  | tail _ step same => exact (account_step step).trans same

/-- However many the producers, the capacity is kept and no event is doubled. -/
theorem queue_bounded (reached : Reached orderKey capacity scripts queue) :
    queue.heap.length ≤ capacity ∧ (queue.dequeued + queue.heap : Multiset E) ≤ ∑ index, (scripts index : Multiset E) := by
  refine ⟨?_, reached.account ▸ Multiset.le_add_right _ _⟩
  induction reached with
  | refl => exact Nat.zero_le _
  | tail before step bounded => exact ((Reached.booked before).step step).2.bounded bounded

end Account

section Termination

def weight : TaskPhase → Nat
  | .parked => 0
  | .idle => 1
  | .woken => 2
  | .notifying => 4

@[simp] theorem weight_parked : weight .parked = 0 := rfl

@[simp] theorem weight_idle : weight .idle = 1 := rfl

@[simp] theorem weight_woken : weight .woken = 2 := rfl

@[simp] theorem weight_notifying : weight .notifying = 4 := rfl

theorem weight_running (running : phase.running) : 0 < weight phase := by
  rcases running_cases running with rfl | rfl <;> decide

def load (producer : Producer E) : Nat := 8 * producer.events.length + weight producer.phase

/-- A number that every step lowers: an event is enqueued once and dequeued once, each wakes one task. -/
def size (queue : PriorityQueue E count) : Nat :=
  4 * queue.heap.length + tally load queue.producers + weight queue.consumer + queue.notify.permit.toNat

theorem size_setPhase (queue : PriorityQueue E count) (task : QueueTask count) (phase : TaskPhase) :
    (queue.setPhase task phase).size + weight (queue.phase task) = queue.size + weight phase := by
  cases task with
  | consumer =>
    simp only [size, setPhase, PriorityQueue.phase]
    omega
  | producer index =>
    have moved := tally_update load queue.producers index { queue.producers index with phase := phase }
    simp only [load] at moved
    simp only [size, setPhase, PriorityQueue.phase]
    omega

theorem size_withNotify (queue : PriorityQueue E count) (notify : Notify (QueueTask count)) :
    (queue.withNotify notify).size + queue.notify.permit.toNat = queue.size + notify.permit.toNat := by
  simp only [size, withNotify]
  omega

theorem size_await (running : (queue.phase task).running) : (queue.await task).size < queue.size := by
  have active := weight_running running
  by_cases kept : queue.notify.permit = true
  · obtain ⟨notify, shape, -, permit⟩ := await_of_kept queue task kept
    have phases := size_setPhase (queue.withNotify notify) task .idle
    have cells := size_withNotify queue notify
    rw [kept, permit] at cells
    rw [phase_withNotify] at phases
    rw [shape]
    simp only [weight_idle, Bool.toNat_true, Bool.toNat_false] at phases cells
    omega
  · have none : queue.notify.permit = false := Bool.not_eq_true _ ▸ kept
    obtain ⟨notify, shape, -, permit⟩ := await_of_not_kept queue task none
    have phases := size_setPhase (queue.withNotify notify) task .parked
    have cells := size_withNotify queue notify
    rw [none, permit] at cells
    rw [phase_withNotify] at phases
    rw [shape]
    rw [weight_parked] at phases
    omega

theorem size_notifyOne (changed : queue.phase task = .notifying) : (queue.notifyOne task).size < queue.size := by
  have phases := size_setPhase queue task .idle
  rw [changed] at phases
  cases waiting : queue.notify.waiters with
  | nil =>
    obtain ⟨notify, shape, -, permit⟩ := notifyOne_of_nil queue task waiting
    have cells := size_withNotify (queue.setPhase task .idle) notify
    rw [permit] at cells
    rw [shape]
    simp only [weight_idle, weight_notifying, Bool.toNat_true] at phases cells
    omega
  | cons first rest =>
    obtain ⟨notify, shape, -, permit⟩ := notifyOne_of_cons queue task waiting
    have cells := size_withNotify (queue.setPhase task .idle) notify
    have woken := size_setPhase ((queue.setPhase task .idle).withNotify notify) first .woken
    rw [permit, notify_setPhase] at cells
    rw [shape]
    simp only [weight_idle, weight_notifying, weight_woken] at phases woken
    omega

/-- Every step lowers the size, so every schedule ends. -/
theorem size_step (step : Step orderKey capacity queue next) : next.size < queue.size := by
  cases step with
  | enqueue index running pending =>
    obtain ⟨event, events, shape⟩ := exists_cons_of_ne_nil pending
    simp only [enqueueWait, shape]
    split
    · have moved := tally_update load queue.producers index ⟨.notifying, events⟩
      have active := weight_running running
      rw [show load (queue.producers index) = 8 * (events.length + 1) + weight (queue.producers index).phase by
          rw [load, shape, length_cons],
        show load (⟨.notifying, events⟩ : Producer E) = 8 * events.length + 4 from rfl] at moved
      simp only [size, length_cons]
      omega
    · exact size_await running
  | dequeue running pops =>
    have taken := pops.1.length_eq
    rw [length_cons] at taken
    have active := weight_running running
    simp only [size, taken, weight_notifying]
    omega
  | empty running none => exact size_await running
  | notify task changed => exact size_notifyOne changed

end Termination

/-- With fewer producers than twice the capacity nobody is left waiting: in every state reached no wakeup is lost, every
schedule ends, and where it ends all events have been dequeued, each once. -/
theorem queue_never_stalls (orderKey : E → K) {capacity : Nat} (few : count < 2 * capacity)
    (scripts : Fin count → List E) {queue : PriorityQueue E count} (reached : Reached orderKey capacity scripts queue) :
    NoLostWakeup orderKey capacity queue ∧ Acc (fun next state => Step orderKey capacity state next) queue ∧
      ((∀ next, ¬ Step orderKey capacity queue next) → queue.Complete scripts) := by
  have balanced := reached.balanced few
  refine ⟨⟨fun parked filled => ?_, fun index parked room stuck => ?_⟩, ?_, fun stuck => ?_⟩
  · have ahead : queue.counts.ahead = some (queue.notify.waiters.idxOf .consumer) := by simp [counts, parked]
    rcases Nat.add_pos_iff_pos_or_pos.mp (balanced.consumer_noticed ahead (length_pos_of_ne_nil filled)) with some | some
    · obtain ⟨index, phase⟩ := exists_inPhase some
      exact .inr ⟨.producer index, .inl phase⟩
    · obtain ⟨index, phase⟩ := exists_inPhase some
      exact .inr ⟨.producer index, .inr phase⟩
  · obtain ⟨done, -⟩ := reached.finished few stuck
    rw [done index] at parked
    exact absurd parked nofun
  · exact (Subrelation.wf (fun step => size_step step) (InvImage.wf size Nat.lt_wfRel.wf)).apply queue
  · obtain ⟨done, bare⟩ := reached.finished few stuck
    refine ⟨done, bare, ?_⟩
    have all := reached.account
    simpa [PriorityQueue.account, bare, tally, done] using all

section Waiting

/-- Three producers at a queue for two events. -/
def threeScripts : Fin 3 → List Nat
  | 0 => [1, 4]
  | 1 => [2, 5]
  | 2 => [3]

/-- Two events are in the heap, and the notifications found nobody. -/
def filled : PriorityQueue Nat 3 :=
  ((((new threeScripts).enqueueWait 2 0).notifyOne (.producer 0)).enqueueWait 2 1).notifyOne (.producer 1)

def allWait : PriorityQueue Nat 3 :=
  (((filled.enqueueWait 2 0).enqueueWait 2 0).enqueueWait 2 1).enqueueWait 2 2

def firstTaken : PriorityQueue Nat 3 := { allWait with heap := [2], consumer := .notifying, dequeued := [1] }

def secondTaken : PriorityQueue Nat 3 :=
  { firstTaken.notifyOne .consumer with heap := [], consumer := .notifying, dequeued := [1, 2] }

/-- The consumer took both events, woke two producers and waits behind the third. The first of the two pushes and wakes the
third, the second pushes, and the third finds the heap full again. -/
def consumerWaits : PriorityQueue Nat 3 :=
  (((((secondTaken.notifyOne .consumer).await .consumer).enqueueWait 2 0).notifyOne (.producer 0)).enqueueWait 2 1).enqueueWait
    2 2

theorem filled_reached : Reached (id : Nat → Nat) 2 threeScripts filled :=
  .tail (.tail (.tail (.tail .refl
    (.enqueue 0 (by decide) (by decide)))
    (.notify (.producer 0) (by decide)))
    (.enqueue 1 (by decide) (by decide)))
    (.notify (.producer 1) (by decide))

theorem allWait_reached : Reached (id : Nat → Nat) 2 threeScripts allWait :=
  .tail (.tail (.tail (.tail filled_reached
    (.enqueue 0 (by decide) (by decide)))
    (.enqueue 0 (by decide) (by decide)))
    (.enqueue 1 (by decide) (by decide)))
    (.enqueue 2 (by decide) (by decide))

theorem secondTaken_reached : Reached (id : Nat → Nat) 2 threeScripts secondTaken :=
  have first : Reached (id : Nat → Nat) 2 threeScripts firstTaken :=
    allWait_reached.tail (.dequeue (by decide +kernel) ⟨.swap .., by decide +kernel⟩)
  .tail (first.tail (.notify .consumer (by decide)))
    (.dequeue (by decide +kernel) ⟨.refl _, by decide +kernel⟩)

theorem consumerWaits_reached : Reached (id : Nat → Nat) 2 threeScripts consumerWaits :=
  .tail (.tail (.tail (.tail (.tail (.tail secondTaken_reached
    (.notify .consumer (by decide)))
    (.empty (by decide +kernel) (by decide +kernel)))
    (.enqueue 0 (by decide +kernel) (by decide +kernel)))
    (.notify (.producer 0) (by decide +kernel)))
    (.enqueue 1 (by decide +kernel) (by decide +kernel)))
    (.enqueue 2 (by decide +kernel) (by decide +kernel))

/-- The consumer waits and a producer waits while the heap is full: the notification is still to be sent. -/
theorem queue_never_stalls_waiting :
    consumerWaits.consumer = .parked ∧ (consumerWaits.producers 2).phase = .parked ∧ consumerWaits.heap = [5, 4] ∧
      NoLostWakeup (id : Nat → Nat) 2 consumerWaits ∧ Acc (fun next state => Step id 2 state next) consumerWaits ∧
      ((∀ next, ¬ Step id 2 consumerWaits next) → consumerWaits.Complete threeScripts) := by
  refine ⟨by decide +kernel, by decide +kernel, by decide +kernel, ?_⟩
  exact queue_never_stalls id (by decide) threeScripts consumerWaits_reached

end Waiting

section Stall

/-- Two producers: one with two events, one with a third. -/
def twoScripts : Fin 2 → List Nat
  | 0 => [1, 2]
  | 1 => [3]

def bothWait : PriorityQueue Nat 2 :=
  (((((new twoScripts).enqueueWait 1 0).notifyOne (.producer 0)).enqueueWait 1 0).enqueueWait 1 0).enqueueWait 1 1

def eventTaken : PriorityQueue Nat 2 := { bothWait with heap := [], consumer := .notifying, dequeued := [1] }

/-- The consumer took the event, woke the first producer and waits behind the second. The first producer pushes and
wakes the second, which finds the heap full again. -/
def stalled : PriorityQueue Nat 2 :=
  ((((eventTaken.notifyOne .consumer).await .consumer).enqueueWait 1 0).notifyOne (.producer 0)).enqueueWait 1 1

theorem bothWait_reached : Reached (id : Nat → Nat) 1 twoScripts bothWait :=
  .tail (.tail (.tail (.tail (.tail .refl
    (.enqueue 0 (by decide) (by decide)))
    (.notify (.producer 0) (by decide)))
    (.enqueue 0 (by decide) (by decide)))
    (.enqueue 0 (by decide) (by decide)))
    (.enqueue 1 (by decide) (by decide))

theorem eventTaken_reached : Reached (id : Nat → Nat) 1 twoScripts eventTaken :=
  bothWait_reached.tail (.dequeue (by decide) ⟨.refl _, by decide⟩)

theorem stalled_reached : Reached (id : Nat → Nat) 1 twoScripts stalled :=
  .tail (.tail (.tail (.tail (.tail eventTaken_reached
    (.notify .consumer (by decide)))
    (.empty (by decide) (by decide)))
    (.enqueue 0 (by decide) (by decide)))
    (.notify (.producer 0) (by decide)))
    (.enqueue 1 (by decide) (by decide))

theorem stalled_bounded : stalled.heap.length ≤ 1 := (queue_bounded stalled_reached).1

/-- The event waits, the consumer waits, and no notification is under way. -/
theorem producer_takes_wakeup :
    Reached (id : Nat → Nat) 1 twoScripts stalled ∧ ¬ NoLostWakeup (id : Nat → Nat) 1 stalled := by
  refine ⟨stalled_reached, fun noLost => ?_⟩
  rcases noLost.consumer (by decide) (by decide) with permit | ⟨task, moving⟩
  · exact absurd permit (by decide)
  · cases task with
    | consumer => exact absurd moving (by decide)
    | producer index =>
      revert index
      decide

end Stall

end PriorityQueue

end DrasiCore
