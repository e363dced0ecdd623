import Mathlib.Logic.Hydra
import Mathlib.Tactic.Linarith

/-! Tasks that spawn tasks, with one counter that tells when all of them are finished. A worker sends a message for
every task it spawns and then one message that it is done. The receiving loop starts a worker for every spawn message,
counts it, takes one off for every done message and stops when the counter is back at zero. -/

namespace DrasiCore.Library.WorkPool

open List

variable {Task Out : Type}

inductive Message (Task Out : Type) where
  | spawn (task : Task)
  | done (result : Option Out)

/-- What the workers do. Only valid tasks occur, and a spawned task has a smaller rank than its parent. -/
structure Program (Task Out : Type) where
  run : Task → List (Message Task Out)
  Valid : Task → Prop
  rank : Task → Nat
  shape : ∀ task, Valid task → ∃ (tasks : List Task) (result : Option Out), run task = tasks.map .spawn ++ [.done result]
  valid_spawn : ∀ {task child}, Valid task → .spawn child ∈ run task → Valid child
  rank_spawn : ∀ {task child}, Valid task → .spawn child ∈ run task → rank child < rank task

/-- The results of a task and of all tasks it spawns, directly or not. -/
inductive Yields (program : Program Task Out) : Task → Out → Prop where
  | here {task out} : .done (some out) ∈ program.run task → Yields program task out
  | child {task child out} : .spawn child ∈ program.run task → Yields program child out → Yields program task out

def Message.Brings (program : Program Task Out) (message : Message Task Out) (out : Out) : Prop :=
  match message with
  | .spawn task => Yields program task out
  | .done result => result = some out

variable {program : Program Task Out} {task : Task}

theorem yields_iff {out} : Yields program task out ↔ ∃ message ∈ program.run task, message.Brings program out := by
  constructor
  · intro yields
    cases yields with
    | here member => exact ⟨_, member, rfl⟩
    | child member later => exact ⟨_, member, later⟩
  · rintro ⟨message, member, brings⟩
    cases message with
    | spawn child => exact .child member brings
    | done result =>
      cases brings
      exact .here member

/-! ### One worker at a time, messages in arrival order -/

structure LoopState (Task Out : Type) where
  queue : List (Message Task Out)
  inflight : Nat
  outputs : List Out
  stopped : Bool

namespace LoopState

/-- Handle one received message; a worker runs to its end at once and its messages go to the end of the queue. -/
def receive (run : Task → List (Message Task Out)) (state : LoopState Task Out) (message : Message Task Out) :
    LoopState Task Out :=
  if state.stopped then state
  else
    let next : LoopState Task Out :=
      match message with
      | .spawn task => { state with queue := state.queue ++ run task, inflight := state.inflight + 1 }
      | .done result => { state with inflight := state.inflight - 1, outputs := state.outputs ++ result.toList }
    { next with stopped := next.inflight = 0 }

/-- Receive everything that was queued when the round began. -/
def round (run : Task → List (Message Task Out)) (state : LoopState Task Out) : LoopState Task Out :=
  state.queue.foldl (receive run) { state with queue := [] }

def rounds (run : Task → List (Message Task Out)) : Nat → LoopState Task Out → LoopState Task Out
  | 0, state => state
  | fuel + 1, state => if state.queue.isEmpty then state else rounds run fuel (round run state)

def start (task : Task) : LoopState Task Out := ⟨[.spawn task], 0, [], false⟩

end LoopState

def Message.isDone : Message Task Out → Bool
  | .spawn _ => false
  | .done _ => true

/-- A list of messages in which every spawn message is followed by a done message. -/
def Closing (messages : List (Message Task Out)) : Prop :=
  messages = [] ∨ ∃ before result, messages = before ++ [.done result]

variable {messages : List (Message Task Out)} {message : Message Task Out}

theorem Closing.tail (closing : Closing (message :: messages)) : Closing messages := by
  rcases closing with empty | ⟨before, result, same⟩
  · cases empty
  · cases before with
    | nil => exact .inl (cons.inj same).2
    | cons _ before => exact .inr ⟨before, result, (cons.inj same).2⟩

theorem Closing.append_run (valid : program.Valid task) (messages : List (Message Task Out)) :
    Closing (messages ++ program.run task) := by
  obtain ⟨tasks, result, shape⟩ := program.shape task valid
  exact .inr ⟨messages ++ tasks.map .spawn, result, by rw [shape, append_assoc]⟩

theorem Closing.eq_nil (closing : Closing messages) (none : messages.countP Message.isDone = 0) : messages = [] := by
  rcases closing with empty | ⟨before, result, same⟩
  · exact empty
  · simp [same, Message.isDone] at none

theorem countP_run (valid : program.Valid task) : (program.run task).countP Message.isDone = 1 := by
  obtain ⟨tasks, result, shape⟩ := program.shape task valid
  have spawns : (tasks.map fun task => (Message.spawn task : Message Task Out)).countP Message.isDone = 0 := by
    simp [countP_eq_zero, Message.isDone]
  rw [shape, countP_append, spawns]
  rfl

/-- What holds between receiving two messages, `pending` being all messages not yet received. -/
structure Live (program : Program Task Out) (init : Task) (pending : List (Message Task Out)) (inflight : Nat)
    (outputs : List Out) : Prop where
  valid : ∀ task, .spawn task ∈ pending → program.Valid task
  counted : inflight = pending.countP Message.isDone
  yields : ∀ out, Yields program init out ↔ out ∈ outputs ∨ ∃ message ∈ pending, message.Brings program out

namespace Live

variable {init : Task} {pending : List (Message Task Out)} {inflight : Nat}
  {outputs : List Out}

theorem inflight_eq_zero_iff (live : Live program init pending inflight outputs) (closing : Closing pending) :
    inflight = 0 ↔ pending = [] := by
  refine ⟨fun none => closing.eq_nil (live.counted ▸ none), ?_⟩
  rintro rfl
  exact live.counted

theorem perm {other} (live : Live program init pending inflight outputs) (same : pending.Perm other) :
    Live program init other inflight outputs where
  valid task member := live.valid task (same.mem_iff.mpr member)
  counted := live.counted.trans (same.countP_eq _)
  yields out := by simpa only [same.mem_iff] using live.yields out

theorem initial (valid : program.Valid init) : Live program init (program.run init) 1 [] where
  valid _ member := program.valid_spawn valid member
  counted := (countP_run valid).symm
  yields out := by simp [yields_iff]

theorem spawn {task} (live : Live program init (.spawn task :: pending) inflight outputs) :
    Live program init (pending ++ program.run task) (inflight + 1) outputs where
  valid child member := by
    rcases mem_append.mp member with waiting | spawned
    · exact live.valid child (mem_cons_of_mem _ waiting)
    · exact program.valid_spawn (live.valid task mem_cons_self) spawned
  counted := by
    rw [countP_append, countP_run (live.valid task mem_cons_self), live.counted]
    simp [Message.isDone]
  yields out := by
    have opened : (Message.spawn task).Brings program out ↔ ∃ message ∈ program.run task, message.Brings program out :=
      yields_iff
    rw [live.yields out]
    simp only [mem_cons, exists_eq_or_imp, opened, mem_append]
    simp only [or_and_right, exists_or]
    exact or_congr Iff.rfl or_comm

theorem done {result} (live : Live program init (.done result :: pending) inflight outputs) :
    Live program init pending (inflight - 1) (outputs ++ result.toList) where
  valid child member := live.valid child (mem_cons_of_mem _ member)
  counted := by rw [live.counted, countP_cons_of_pos rfl, Nat.add_sub_cancel]
  yields out := by
    rw [live.yields out]
    simp only [mem_cons, exists_eq_or_imp, Message.Brings, mem_append, Option.mem_toList]
    tauto

end Live

namespace LoopState

variable {init : Task}

/-- The loop between two messages: it has stopped exactly when nothing is pending. -/
structure Running (program : Program Task Out) (init : Task) (waiting : List (Message Task Out))
    (state : LoopState Task Out) : Prop where
  live : Live program init (waiting ++ state.queue) state.inflight state.outputs
  closing : Closing (waiting ++ state.queue)
  stopped : state.stopped = true ↔ waiting ++ state.queue = []

theorem Running.receive {waiting state} (running : Running program init (message :: waiting) state) :
    Running program init waiting (state.receive program.run message) := by
  have going : state.stopped = false := by
    rw [← Bool.not_eq_true, running.stopped]
    exact cons_ne_nil _ _
  have live := running.live
  cases message with
  | spawn task =>
    have next : Live program init (waiting ++ (state.queue ++ program.run task)) _ _ :=
      append_assoc waiting _ _ ▸ live.spawn
    have closing : Closing (waiting ++ (state.queue ++ program.run task)) :=
      append_assoc waiting _ _ ▸ Closing.append_run (live.valid task mem_cons_self) _
    refine ⟨?_, ?_, ?_⟩
    · simpa [LoopState.receive, going] using next
    · simpa [LoopState.receive, going] using closing
    · simpa [LoopState.receive, going] using next.inflight_eq_zero_iff closing
  | done result =>
    have next : Live program init (waiting ++ state.queue) _ _ := live.done
    have closing : Closing (waiting ++ state.queue) := running.closing.tail
    refine ⟨?_, ?_, ?_⟩
    · simpa [LoopState.receive, going] using next
    · simpa [LoopState.receive, going] using closing
    · simpa [LoopState.receive, going] using next.inflight_eq_zero_iff closing

theorem Running.round {state} (running : Running program init [] state) :
    Running program init [] (state.round program.run) := by
  have fold : ∀ (waiting : List (Message Task Out)) (current : LoopState Task Out),
      Running program init waiting current →
        Running program init [] (waiting.foldl (LoopState.receive program.run) current) := by
    intro waiting
    induction waiting with
    | nil => exact fun _ here => here
    | cons message waiting ih => exact fun current here => ih _ here.receive
  refine fold state.queue { state with queue := [] } ⟨?_, ?_, ?_⟩
  · simpa using running.live
  · simpa using running.closing
  · simpa using running.stopped

theorem queue_receive_subset (state : LoopState Task Out) (message later : Message Task Out)
    (member : later ∈ (state.receive program.run message).queue) :
    later ∈ state.queue ∨ ∃ task, message = .spawn task ∧ later ∈ program.run task := by
  unfold receive at member
  split at member
  · exact .inl member
  · cases message with
    | spawn task => exact (mem_append.mp member).imp_right fun spawned => ⟨task, rfl, spawned⟩
    | done result => exact .inl member

theorem queue_round_subset (state : LoopState Task Out) (later : Message Task Out)
    (member : later ∈ (state.round program.run).queue) :
    ∃ task, .spawn task ∈ state.queue ∧ later ∈ program.run task := by
  have fold : ∀ (waiting : List (Message Task Out)) (current : LoopState Task Out),
      later ∈ (waiting.foldl (receive program.run) current).queue →
        later ∈ current.queue ∨ ∃ task, .spawn task ∈ waiting ∧ later ∈ program.run task := by
    intro waiting
    induction waiting with
    | nil => exact fun _ here => .inl here
    | cons message waiting ih =>
      intro current here
      rcases ih _ here with early | ⟨task, spawned, inside⟩
      · rcases queue_receive_subset current message later early with kept | ⟨task, rfl, inside⟩
        · exact .inl kept
        · exact .inr ⟨task, mem_cons_self, inside⟩
      · exact .inr ⟨task, mem_cons_of_mem _ spawned, inside⟩
  rcases fold state.queue { state with queue := [] } member with none | some
  · cases none
  · exact some

/-- Ranks fall from round to round, so as many rounds as the ranks allow empty the queue. -/
theorem rounds_finish {bound} : ∀ {state : LoopState Task Out}, Running program init [] state →
    (∀ task, .spawn task ∈ state.queue → program.rank task < bound) →
      Running program init [] (state.rounds program.run (bound + 1)) ∧ (state.rounds program.run (bound + 1)).queue = [] := by
  induction bound with
  | zero =>
    intro state running small
    have drained : (state.round program.run).queue = [] := by
      refine eq_nil_iff_forall_not_mem.mpr fun later member => ?_
      obtain ⟨task, spawned, -⟩ := queue_round_subset state later member
      exact absurd (small task spawned) (Nat.not_lt_zero _)
    simp only [rounds]
    split
    · next empty => exact ⟨running, isEmpty_iff.mp empty⟩
    · exact ⟨running.round, drained⟩
  | succ bound ih =>
    intro state running small
    simp only [rounds]
    split
    · next empty => exact ⟨running, isEmpty_iff.mp empty⟩
    · refine ih running.round fun child member => ?_
      obtain ⟨task, spawned, inside⟩ := queue_round_subset state _ member
      have valid := running.live.valid task (by simpa using spawned)
      have falls := program.rank_spawn valid inside
      have := small task spawned
      omega

/-- The loop started with one task stops with an empty queue, and its outputs are the results of the task and of all
tasks spawned from it. -/
theorem rounds_start (program : Program Task Out) (init : Task) (valid : program.Valid init) :
    ((start init).rounds program.run (program.rank init + 2)).stopped = true ∧
      ((start init).rounds program.run (program.rank init + 2)).queue = [] ∧
        ∀ out, out ∈ ((start init).rounds program.run (program.rank init + 2)).outputs ↔ Yields program init out := by
  have first : (start init : LoopState Task Out).round program.run = ⟨program.run init, 1, [], false⟩ := by
    simp [round, start, receive]
  have running : Running program init [] (⟨program.run init, 1, [], false⟩ : LoopState Task Out) := by
    have closing : Closing (program.run init) := Closing.append_run valid []
    refine ⟨Live.initial valid, closing, ?_⟩
    simpa using (Live.initial valid).inflight_eq_zero_iff closing
  have unfolded : (start init).rounds program.run (program.rank init + 2) =
      (⟨program.run init, 1, [], false⟩ : LoopState Task Out).rounds program.run (program.rank init + 1) := by
    rw [← first]
    simp [rounds, start]
  obtain ⟨finished, drained⟩ := rounds_finish running fun task member => program.rank_spawn valid member
  rw [unfolded]
  refine ⟨finished.stopped.mpr (by simpa using drained), drained, fun out => ?_⟩
  rw [finished.live.yields out]
  simp [drained]

end LoopState

end DrasiCore.Library.WorkPool
