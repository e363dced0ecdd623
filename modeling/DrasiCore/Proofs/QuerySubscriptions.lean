import DrasiCore.QuerySubscriptions

/-! Whenever a subscriber comes, it misses no result. -/

namespace DrasiCore.Proofs

open Library QueryOutputState QueryDelivery List

variable {index : Nat} {subscription : QuerySubscription} {calls : List DispatchCall}

section Assign

variable {call : DispatchCall} {state : QueryOutputState} {staged : Option QueryResult}

section

variable (fits : staged = call.stagedResult state)
include fits

theorem assign_sequence : (call.assign staged state).2.sequence = min (state.asOfSequence + 1) maxSequence := by
  subst fits
  unfold DispatchCall.stagedResult
  split <;> rfl

theorem asOfSequence_assign : (call.assign staged state).1.asOfSequence = min (state.asOfSequence + 1) maxSequence := by
  subst fits
  unfold DispatchCall.stagedResult
  split <;> rfl

theorem convertedResults_eq : call.convertedResults staged = call.diffs := by
  subst fits
  unfold DispatchCall.stagedResult
  split <;> rfl

theorem assign_results : (call.assign staged state).2.results = call.diffs := by
  subst fits
  unfold DispatchCall.stagedResult
  split <;> rfl

end

end Assign

/-- The result a dispatcher has still to get in the present dispatch. -/
def owed : ProcessorPhase → Nat → List QueryResult
  | .idle, _ => []
  | .committed _ _, _ => []
  | .assigned result, _ => [result]
  | .publishing result next, index => if next ≤ index then [result] else []

/-- A subscriber has, or is owed, all results but some that come not after its sequence. -/
structure Attached (node : QueryDelivery) (index : Nat) (subscription : QuerySubscription) : Prop where
  positive : 0 < subscription.channel.capacity
  covers : ∃ earlier, node.results = earlier ++ (subscription.channel.delivered ++ owed node.phase index) ∧
    ∀ result ∈ earlier, result.sequence ≤ subscription.asOfSequence

def PhaseFits (node : QueryDelivery) : Prop :=
  match node.phase with
  | .idle => True
  | .committed call staged => staged = call.stagedResult node.output
  | .assigned result => ∃ earlier, node.results = earlier ++ [result]
  | .publishing _ next => next ≤ node.subscriptions.length

structure Consistent (node : QueryDelivery) : Prop where
  bounded : node.output.asOfSequence ≤ maxSequence
  below : ∀ result ∈ node.results, result.sequence ≤ node.output.asOfSequence
  increasing : node.results.Pairwise Precedes
  /-- The sequence cannot move while a caller holds the lock. -/
  current : ∀ sequence, node.sampled = some sequence → sequence = node.output.asOfSequence
  phase : PhaseFits node
  attached : ∀ index subscription, node.subscriptions[index]? = some subscription → Attached node index subscription

variable {capacity : Nat} {node next : QueryDelivery} {phase : ProcessorPhase}

theorem Attached.rephase (attached : Attached node index subscription) (same : owed phase index = owed node.phase index) :
    Attached { node with calls := calls, phase := phase } index subscription :=
  ⟨attached.positive, by simpa only [same] using attached.covers⟩

variable {subscriptions : List QuerySubscription}

theorem Attached.send {result} (attached : Attached node index subscription)
    (publishing : node.phase = .publishing result index) :
    Attached { node with phase := .publishing result (index + 1), subscriptions := subscriptions } index
      (subscription.send result) := by
  obtain ⟨earlier, all, old⟩ := attached.covers
  refine ⟨attached.positive, earlier, ?_, old⟩
  simp only [publishing, owed, Nat.le_refl, if_true] at all
  simp [owed, QuerySubscription.send, all]

theorem precedes_next {sequence earlier later} (bounded : sequence ≤ maxSequence) (before : earlier.sequence ≤ sequence)
    (after : later.sequence = min (sequence + 1) maxSequence) : Precedes earlier later := by
  unfold Precedes
  omega

section

variable (consistent : Consistent node)
include consistent

theorem Consistent.assign {call staged} (committed : node.phase = .committed call staged) (free : node.sampled = none) :
    Consistent { node with
      output := (call.assign staged node.output).1
      phase := .assigned (call.assign staged node.output).2
      results := node.results ++ [(call.assign staged node.output).2] } := by
  have fits : staged = call.stagedResult node.output := by simpa only [PhaseFits, committed] using consistent.phase
  have sequence := assign_sequence fits
  have advanced := asOfSequence_assign fits
  have bounded := consistent.bounded
  refine ⟨?_, ?_, ?_, ?_, ⟨node.results, rfl⟩, ?_⟩
  · simp only [advanced]
    exact Nat.min_le_right _ _
  · intro result member
    rcases mem_append.mp member with old | new
    · have before := consistent.below result old
      simp only [advanced]
      omega
    · rw [mem_singleton.mp new]
      exact (sequence.trans advanced.symm).le
  · rw [pairwise_append]
    refine ⟨consistent.increasing, pairwise_singleton _ _, ?_⟩
    intro earlier member later last
    rw [mem_singleton.mp last]
    exact precedes_next bounded (consistent.below earlier member) sequence
  · intro sampled held
    exact absurd (free.symm.trans held) nofun
  · intro index subscription here
    obtain ⟨positive, earlier, all, old⟩ := consistent.attached index subscription here
    refine ⟨positive, earlier, ?_, old⟩
    simp only [committed, owed, append_nil] at all
    simp [owed, all]

theorem Consistent.send {result} (publishing : node.phase = .publishing result index)
    (here : node.subscriptions[index]? = some subscription) :
    Consistent { node with
      phase := .publishing result (index + 1)
      subscriptions := node.subscriptions.modify index (·.send result) } := by
  refine ⟨consistent.bounded, consistent.below, consistent.increasing, consistent.current, ?_, ?_⟩
  · have inside : index + 1 ≤ node.subscriptions.length := (List.getElem?_eq_some_iff.mp here).1
    simpa only [PhaseFits, List.length_modify] using inside
  · intro other changed found
    rcases getElem?_modify_cases found with ⟨rfl, before, was, rfl⟩ | ⟨differs, was⟩
    · exact (consistent.attached _ _ was).send publishing
    · obtain ⟨positive, earlier, all, old⟩ := consistent.attached other changed was
      refine ⟨positive, earlier, ?_, old⟩
      have same : owed (.publishing result (index + 1)) other = owed node.phase other := by
        simp only [publishing, owed]
        congr 1
        simp only [eq_iff_iff]
        omega
      simpa only [same] using all

theorem Consistent.attach (positive : 0 < capacity) {sequence} (sampled : node.sampled = some sequence)
    (unread : node.reading = false) :
    Consistent { node with sampled := none, subscriptions := node.subscriptions ++ [⟨sequence, .new capacity⟩] } := by
  have current := consistent.current sequence sampled
  have fits := consistent.phase
  refine ⟨consistent.bounded, consistent.below, consistent.increasing, fun _ held => absurd held nofun, ?_, ?_⟩
  · cases phase : node.phase with
    | publishing result next => simp [reading, phase] at unread
    | idle => trivial
    | committed call staged => simpa only [PhaseFits, phase] using fits
    | assigned result => simpa only [PhaseFits, phase] using fits
  · intro index subscription here
    by_cases inside : index < node.subscriptions.length
    · rw [getElem?_append_left inside] at here
      exact ⟨(consistent.attached index subscription here).positive, (consistent.attached index subscription here).covers⟩
    · rw [getElem?_append_right (Nat.le_of_not_lt inside)] at here
      obtain rfl : (⟨sequence, .new capacity⟩ : QuerySubscription) = subscription :=
        (mem_singleton.mp (mem_of_getElem? here)).symm
      -- What is being dispatched now is still to come; all else is at or below the sampled sequence.
      have covered : ∃ earlier, node.results = earlier ++ owed node.phase index := by
        cases phase : node.phase with
        | publishing result next => simp [reading, phase] at unread
        | idle => exact ⟨node.results, (append_nil _).symm⟩
        | committed call staged => exact ⟨node.results, (append_nil _).symm⟩
        | assigned result => simpa only [PhaseFits, phase, owed] using fits
      obtain ⟨earlier, all⟩ := covered
      refine ⟨positive, earlier, all, fun result member => ?_⟩
      have before := consistent.below result (all ▸ mem_append_left _ member)
      simpa only [current] using before

theorem Consistent.receive (index : Nat) :
    Consistent { node with subscriptions := node.subscriptions.modify index (·.receive) } := by
  refine ⟨consistent.bounded, consistent.below, consistent.increasing, consistent.current, ?_, ?_⟩
  · have fits := consistent.phase
    simpa only [PhaseFits, List.length_modify] using fits
  · intro other changed found
    rcases getElem?_modify_cases found with ⟨rfl, before, was, rfl⟩ | ⟨-, was⟩
    · obtain ⟨positive, covers⟩ := consistent.attached _ _ was
      exact ⟨positive, by simpa only [QuerySubscription.receive, Channel.delivered_receive] using covers⟩
    · exact ⟨(consistent.attached other changed was).positive, (consistent.attached other changed was).covers⟩

theorem Consistent.rephase (fits : PhaseFits { node with calls := calls, phase := phase })
    (same : ∀ index < node.subscriptions.length, owed phase index = owed node.phase index) :
    Consistent { node with calls := calls, phase := phase } := by
  refine ⟨consistent.bounded, consistent.below, consistent.increasing, consistent.current, fits, ?_⟩
  intro index subscription here
  exact (consistent.attached index subscription here).rephase (same index (List.getElem?_eq_some_iff.mp here).1)

theorem Consistent.step (positive : 0 < capacity) (step : Step capacity node next) : Consistent next := by
  cases step with
  | stage idle call free => exact consistent.rephase rfl fun _ _ => by rw [idle]; rfl
  | nothing committed empty => exact consistent.rephase trivial fun _ _ => by rw [committed]; rfl
  | assign committed some free => exact consistent.assign committed free
  | publish assigned => exact consistent.rephase (Nat.zero_le _) fun index _ => by simp [assigned, owed]
  | send publishing here room => exact consistent.send publishing here
  | finish publishing =>
    refine consistent.rephase trivial fun index inside => ?_
    simp [publishing, owed, Nat.not_le_of_lt inside]
  | sample caller free =>
    refine ⟨consistent.bounded, consistent.below, consistent.increasing, ?_, consistent.phase, ?_⟩
    · intro sequence held
      exact (Option.some.inj held).symm
    · intro index subscription here
      exact ⟨(consistent.attached index subscription here).positive, (consistent.attached index subscription here).covers⟩
  | attach sampled unread => exact consistent.attach positive sampled unread
  | receive here some => exact consistent.receive _

end

theorem Consistent.of_reached (positive : 0 < capacity) {output} (bounded : output.asOfSequence ≤ maxSequence) {callers}
    (reached : Reached capacity output calls callers node) : Consistent node := by
  induction reached with
  | refl => exact ⟨bounded, nofun, .nil, nofun, trivial, fun _ _ here => absurd here (by simp [start])⟩
  | tail _ step consistent => exact consistent.step positive step

theorem Consistent.noGap (consistent : Consistent node) (member : subscription ∈ node.subscriptions) :
    NoGap node subscription := by
  obtain ⟨index, here⟩ := mem_iff_getElem?.mp member
  obtain ⟨-, earlier, all, old⟩ := consistent.attached index subscription here
  have none : subscription.after earlier = [] := by
    rw [QuerySubscription.after, filter_eq_nil_iff]
    intro result held
    simpa using old result held
  have due : subscription.after node.results =
      subscription.after subscription.channel.delivered ++ subscription.after (owed node.phase index) := by
    rw [all]
    simp only [QuerySubscription.after, filter_append] at none ⊢
    rw [none, nil_append]
  have once : subscription.channel.delivered.Sublist node.results := by
    rw [all]
    exact (sublist_append_left _ _).trans (sublist_append_right _ _)
  refine ⟨once, consistent.increasing.sublist once, ⟨_, due.symm⟩, fun idle => ?_⟩
  rw [due, idle]
  exact (append_nil _).symm

section Completion

/-- The diffs of the dispatch in which no result has its sequence yet. -/
def uncounted : ProcessorPhase → List (List ResultDiff)
  | .committed call _ => [call.diffs]
  | _ => []

structure Accounted (calls : List DispatchCall) (callers : Nat) (node : QueryDelivery) : Prop where
  published : node.results.map (·.results) ++ (uncounted node.phase ++ node.calls.map (·.diffs)).filter (· ≠ []) =
    (calls.map (·.diffs)).filter (· ≠ [])
  attached : node.subscriptions.length + node.callers + node.sampled.toList.length = callers

variable {callers : Nat}

theorem Accounted.step (consistent : Consistent node) (accounted : Accounted calls callers node)
    (step : Step capacity node next) : Accounted calls callers next := by
  obtain ⟨published, attached⟩ := accounted
  have phase := consistent.phase
  cases step with
  | stage idle following free =>
    refine ⟨?_, attached⟩
    simpa [idle, following, uncounted] using published
  | nothing committed empty =>
    simp only [PhaseFits, committed] at phase
    rw [convertedResults_eq phase] at empty
    refine ⟨?_, attached⟩
    simpa [committed, uncounted, empty] using published
  | assign committed some free =>
    simp only [PhaseFits, committed] at phase
    rw [convertedResults_eq phase] at some
    refine ⟨?_, attached⟩
    simpa [committed, uncounted, some, assign_results phase] using published
  | publish assigned =>
    refine ⟨?_, attached⟩
    simpa [assigned, uncounted] using published
  | send publishing here room =>
    refine ⟨?_, by simpa using attached⟩
    simpa [publishing, uncounted] using published
  | finish publishing =>
    refine ⟨?_, attached⟩
    simpa [publishing, uncounted] using published
  | sample caller free =>
    refine ⟨published, ?_⟩
    simp only [caller, free] at attached
    simp only [Option.toList_none, Option.toList_some, length_nil, length_singleton] at attached ⊢
    omega
  | attach sampled unread =>
    refine ⟨published, ?_⟩
    simp only [sampled, Option.toList_some, length_singleton] at attached
    simp only [length_append, length_singleton, Option.toList_none, length_nil]
    omega
  | receive here some => exact ⟨published, by simpa using attached⟩

theorem Accounted.of_reached (positive : 0 < capacity) {output} (bounded : output.asOfSequence ≤ maxSequence)
    (reached : Reached capacity output calls callers node) : Accounted calls callers node := by
  induction reached with
  | refl => exact ⟨rfl, by simp [start]⟩
  | tail before step accounted => exact accounted.step (.of_reached positive bounded before) step

/-- Where no task can run, all work is done. -/
theorem finished_of_stuck (consistent : Consistent node) (stuck : ∀ next, ¬ Step capacity node next) :
    node.phase = .idle ∧ node.calls = [] ∧ node.callers = 0 ∧ node.sampled = none ∧
      ∀ subscription ∈ node.subscriptions, subscription.channel.waiting = [] := by
  have drained : ∀ subscription ∈ node.subscriptions, subscription.channel.waiting = [] := by
    intro subscription member
    obtain ⟨index, here⟩ := mem_iff_getElem?.mp member
    by_contra waits
    exact stuck _ (.receive here waits)
  have unread : node.reading = false := by
    unfold reading
    cases phase : node.phase with
    | idle | committed | assigned => rfl
    | publishing result index =>
      exfalso
      have fits := consistent.phase
      simp only [PhaseFits, phase] at fits
      rcases Nat.lt_or_eq_of_le fits with inside | last
      · have here := getElem?_eq_getElem inside
        have positive := (consistent.attached _ _ here).positive
        exact stuck _ (.send phase here (Channel.hasRoom_of_empty (drained _ (getElem_mem inside)) positive))
      · exact stuck _ (.finish (last ▸ phase))
  have free : node.sampled = none := by
    cases sampled : node.sampled with
    | none => rfl
    | some sequence => exact absurd (.attach sampled unread) (stuck _)
  have idle : node.phase = .idle := by
    cases phase : node.phase with
    | idle => rfl
    | committed call staged =>
      by_cases empty : call.convertedResults staged = []
      · exact absurd (.nothing phase empty) (stuck _)
      · exact absurd (.assign phase empty free) (stuck _)
    | assigned result => exact absurd (.publish phase) (stuck _)
    | publishing result index => simp [reading, phase] at unread
  refine ⟨idle, ?_, ?_, free, drained⟩
  · cases calls : node.calls with
    | nil => rfl
    | cons call rest => exact absurd (.stage idle calls fun _ => free) (stuck _)
  · cases callers : node.callers with
    | zero => rfl
    | succ rest => exact absurd (.sample callers free) (stuck _)

theorem complete_of_stuck (consistent : Consistent node) (accounted : Accounted calls callers node)
    (stuck : ∀ next, ¬ Step capacity node next) : node.Complete calls callers := by
  obtain ⟨idle, noCalls, noCallers, free, drained⟩ := finished_of_stuck consistent stuck
  obtain ⟨published, attached⟩ := accounted
  refine ⟨?_, ?_, fun subscription member => ?_⟩
  · simpa [idle, noCalls, uncounted] using published
  · simpa [noCallers, free] using attached
  · rw [← Channel.delivered_of_empty (drained subscription member)]
    exact (consistent.noGap member).complete idle

end Completion

section Termination

/-- Steps the present dispatch can still take, with the receptions they lead to. -/
def phaseEffort (callers : Nat) : ProcessorPhase → Nat
  | .idle => 0
  | .committed _ _ => 2 * callers + 3
  | .assigned _ => 2 * callers + 2
  | .publishing _ next => 2 * (callers - next) + 1

def waitingTotal (subscriptions : List QuerySubscription) : Nat :=
  (subscriptions.map (·.channel.waiting.length)).sum

/-- Steps that can still be taken if no more than so many subscribe. -/
def effort (callers : Nat) (node : QueryDelivery) : Nat :=
  2 * node.callers + node.sampled.toList.length + node.calls.length * (2 * callers + 4) + phaseEffort callers node.phase +
    waitingTotal node.subscriptions

variable {callers : Nat}

theorem waitingTotal_send {index} (here : subscriptions[index]? = some subscription) (result : QueryResult) :
    waitingTotal (subscriptions.modify index (·.send result)) = waitingTotal subscriptions + 1 := by
  have moved := sum_map_modify (fun entry : QuerySubscription => entry.channel.waiting.length) (·.send result) here
  simp only [QuerySubscription.send, Channel.length_waiting_send] at moved
  unfold waitingTotal
  simp only [QuerySubscription.send]
  omega

theorem waitingTotal_receive {index} (here : subscriptions[index]? = some subscription)
    (some : subscription.channel.waiting ≠ []) :
    waitingTotal (subscriptions.modify index (·.receive)) + 1 = waitingTotal subscriptions := by
  have moved := sum_map_modify (fun entry : QuerySubscription => entry.channel.waiting.length) (·.receive) here
  have fewer := Channel.length_waiting_receive some
  simp only [QuerySubscription.receive] at moved
  unfold waitingTotal
  simp only [QuerySubscription.receive]
  omega

theorem effort_step (accounted : Accounted calls callers node) (step : Step capacity node next) :
    effort callers next < effort callers node := by
  have attached := accounted.attached
  unfold effort
  cases step with
  | stage idle following free =>
    simp only [idle, following, phaseEffort, length_cons, Nat.succ_mul]
    omega
  | nothing committed empty =>
    simp only [committed, phaseEffort]
    omega
  | assign committed some free =>
    simp only [committed, phaseEffort]
    omega
  | publish assigned =>
    simp only [assigned, phaseEffort]
    omega
  | send publishing here room =>
    have inside := (List.getElem?_eq_some_iff.mp here).1
    simp only [publishing, phaseEffort, waitingTotal_send here]
    omega
  | finish publishing =>
    simp only [publishing, phaseEffort]
    omega
  | sample caller free =>
    simp only [caller, free, Option.toList_none, Option.toList_some, length_nil, length_singleton]
    omega
  | attach sampled unread =>
    simp only [sampled, Option.toList_none, Option.toList_some, length_nil, length_singleton, waitingTotal,
      map_append, sum_append, map_cons, map_nil, sum_cons, sum_nil, Channel.new]
    omega
  | receive here some =>
    have fewer := waitingTotal_receive here some
    simp only
    omega

theorem acc_of_accounted (consistent : Consistent node) (accounted : Accounted calls callers node)
    (positive : 0 < capacity) : Acc (fun next node => Step capacity node next) node := by
  induction size : effort callers node using Nat.strong_induction_on generalizing node with
  | _ _ ih =>
    refine ⟨_, fun next step => ?_⟩
    exact ih _ (size ▸ effort_step accounted step) (consistent.step positive step) (accounted.step consistent step) rfl

end Termination

/-- For every schedule of dispatches and subscriptions: no subscriber misses a result after the sequence it was given or
gets one twice or out of order, every schedule ends, and where it ends everything has been received. -/
theorem subscribers_miss_no_result {capacity : Nat} (positive : 0 < capacity) {output : QueryOutputState}
    (bounded : output.asOfSequence ≤ maxSequence) (calls : List DispatchCall) (callers : Nat) {node : QueryDelivery}
    (reached : Reached capacity output calls callers node) :
    (∀ subscription ∈ node.subscriptions, NoGap node subscription) ∧
      Acc (fun next node => Step capacity node next) node ∧
      ((∀ next, ¬ Step capacity node next) → node.Complete calls callers) := by
  have consistent := Consistent.of_reached positive bounded reached
  have accounted := Accounted.of_reached positive bounded reached
  exact ⟨fun _ => consistent.noGap, acc_of_accounted consistent accounted positive, complete_of_stuck consistent accounted⟩

section Sample

def oneRow : DispatchCall := ⟨"q", "s", [.adding .empty (.solution [])], false, 0, fun _ => none, 0, fun _ => none⟩

/-- A subscriber that comes between the assignment of a sequence and the publication of its result gets that result and the
next one. -/
theorem subscribers_miss_no_result_between_locks :
    ∃ node, Reached 1 (.new 2) [oneRow, oneRow] 1 node ∧
      node.subscriptions.map (fun subscription =>
        (subscription.asOfSequence, subscription.channel.delivered.map (·.sequence))) = [(1, [1, 2])] ∧
      ∀ subscription ∈ node.subscriptions, NoGap node subscription := by
  have staged : Reached 1 (.new 2) [oneRow, oneRow] 1 _ := .single (.stage rfl rfl nofun)
  have attached := ((staged.tail (.assign rfl (cons_ne_nil _ _) rfl)).tail (.sample rfl rfl)).tail (.attach rfl rfl)
  have received := (((attached.tail (.publish rfl)).tail (.send rfl rfl rfl)).tail (.finish rfl)).tail
    (@Step.receive 1 _ 0 _ rfl (cons_ne_nil _ _))
  have again := (received.tail (.stage rfl rfl nofun)).tail (.assign rfl (cons_ne_nil _ _) rfl)
  have reached := (again.tail (.publish rfl)).tail (.send rfl rfl rfl)
  exact ⟨_, reached, rfl, (subscribers_miss_no_result (by decide) (by decide) _ 1 reached).1⟩

end Sample

end DrasiCore.Proofs
