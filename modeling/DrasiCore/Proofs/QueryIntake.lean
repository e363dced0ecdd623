import DrasiCore.QueryIntake

/-! Events that reach the forwarder of a source in order are dequeued in order, and none of them is skipped. -/

namespace DrasiCore.Proofs

open QueryIntake List

variable {P : Type}
variable {sourceId : String} {event : RankedSourceEvent P} {rest : List (RankedSourceEvent P)} {dedup : SequenceDedup}

/-- One event comes before another in sequence, and not after it in time. -/
def Earlier (one two : SourceEventWrapper P) : Prop := one.sequence < two.sequence ∧ one.timestamp ≤ two.timestamp

theorem orderKey_lt {one two : RankedSourceEvent P} (rank : one.sourceRank = two.sourceRank)
    (earlier : Earlier one.inner two.inner) : one.orderKey < two.orderKey := by
  unfold RankedSourceEvent.orderKey
  rw [Prod.Lex.toLex_lt_toLex]
  rcases lt_or_eq_of_le earlier.2 with before | same
  · exact .inl before
  · refine .inr ⟨same, ?_⟩
    rw [Prod.Lex.toLex_lt_toLex]
    exact .inr ⟨rank, earlier.1⟩

@[simp] theorem eventsOf_append (sourceId : String) (one two : List (RankedSourceEvent P)) :
    eventsOf sourceId (one ++ two) = eventsOf sourceId one ++ eventsOf sourceId two := by
  simp [eventsOf]

theorem eventsOf_cons_own (own : event.inner.sourceId = sourceId) (events : List (RankedSourceEvent P)) :
    eventsOf sourceId (event :: events) = event.inner :: eventsOf sourceId events := by
  simp [eventsOf, own]

theorem eventsOf_cons_other (other : event.inner.sourceId ≠ sourceId) (events : List (RankedSourceEvent P)) :
    eventsOf sourceId (event :: events) = eventsOf sourceId events := by
  simp [eventsOf, other]

theorem eventsOf_perm {one two : List (RankedSourceEvent P)} (same : one.Perm two) :
    (eventsOf sourceId one).Perm (eventsOf sourceId two) :=
  (same.map _).filter _

theorem mem_eventsOf {events} {event : SourceEventWrapper P} :
    event ∈ eventsOf sourceId events ↔ ∃ ranked ∈ events, ranked.inner = event ∧ event.sourceId = sourceId := by
  simp only [eventsOf, mem_filter, mem_map, decide_eq_true_eq]
  tauto

/-- What the query holds of one source, against all its forwarder took. -/
structure InOrder (sourceId : String) (rank : Nat) (seed : Option Nat) (taken : List (SourceEventWrapper P))
    (intake : QueryIntake P) : Prop where
  split : ∃ queued, taken = intake.dequeuedOf sourceId ++ (queued ++ intake.forwarding.toList) ∧
    (eventsOf sourceId intake.heap).Perm queued
  ranks : ∀ event ∈ intake.heap, event.inner.sourceId = sourceId → event.sourceRank = rank
  checkpoint : intake.dedup.checkpoints sourceId = seed ∨
    ∃ event ∈ intake.dequeuedOf sourceId, intake.dedup.checkpoints sourceId = some event.sequence
  kept : ∀ entry ∈ intake.dequeued, entry.1.inner.sourceId = sourceId → entry.2 = false

/-- What the receiver of a source gives in order, above the checkpoint the query begins with. -/
structure Ascending (sourceId : String) (seed : Option Nat) (taken : List (SourceEventWrapper P)) : Prop where
  ordered : taken.Pairwise Earlier
  above : ∀ event ∈ taken, ∀ checkpoint, seed = some checkpoint → checkpoint < event.sequence
  own : ∀ event ∈ taken, event.sourceId = sourceId

variable {sourceId : String} {rank capacity : Nat} {seed : Option Nat} {taken : List (SourceEventWrapper P)}
  {intake next : QueryIntake P}

section

variable (inOrder : InOrder sourceId rank seed taken intake)
include inOrder

theorem InOrder.forward (free : intake.forwarding = none) (event : SourceEventWrapper P) :
    InOrder sourceId rank seed (taken ++ [event]) (intake.forward event) := by
  obtain ⟨⟨queued, all, same⟩, ranks, checkpoint, kept⟩ := inOrder
  refine ⟨⟨queued, ?_, same⟩, ranks, checkpoint, kept⟩
  rw [all, free]
  simp [QueryIntake.forward, dequeuedOf]

theorem InOrder.enqueue (ascending : Ascending sourceId seed taken) {event}
    (forwarding : intake.forwarding = some event) :
    InOrder sourceId rank seed taken { intake with forwarding := none, heap := ⟨event, rank⟩ :: intake.heap } := by
  obtain ⟨⟨queued, all, same⟩, ranks, checkpoint, kept⟩ := inOrder
  have own : event.sourceId = sourceId := by
    apply ascending.own
    rw [all, forwarding]
    simp
  refine ⟨⟨queued ++ [event], ?_, ?_⟩, ?_, checkpoint, kept⟩
  · rw [all, forwarding]
    simp [dequeuedOf]
  · rw [eventsOf_cons_own own]
    exact (same.cons event).trans (perm_append_singleton event queued).symm
  · intro other member belongs
    rcases mem_cons.mp member with rfl | old
    · rfl
    · exact ranks other old belongs

theorem InOrder.enqueueOther (other : event.inner.sourceId ≠ sourceId) :
    InOrder sourceId rank seed taken { intake with heap := event :: intake.heap } := by
  obtain ⟨⟨queued, all, same⟩, ranks, checkpoint, kept⟩ := inOrder
  refine ⟨⟨queued, all, ?_⟩, ?_, checkpoint, kept⟩
  · rw [eventsOf_cons_other other]
    exact same
  · intro ranked member belongs
    rcases mem_cons.mp member with rfl | old
    · exact absurd belongs other
    · exact ranks ranked old belongs

end

theorem first_of_pops {heap} {queued : List (SourceEventWrapper P)}
    (pops : PriorityQueue.Pops RankedSourceEvent.orderKey heap event rest) (own : event.inner.sourceId = sourceId)
    (same : (eventsOf sourceId heap).Perm queued)
    (ranks : ∀ event ∈ heap, event.inner.sourceId = sourceId → event.sourceRank = rank)
    (ordered : queued.Pairwise Earlier) :
    ∃ later, queued = event.inner :: later ∧ (eventsOf sourceId rest).Perm later := by
  have here : event ∈ heap := pops.1.symm.subset mem_cons_self
  have split : (event.inner :: eventsOf sourceId rest).Perm queued := by
    rw [← eventsOf_cons_own own]
    exact (eventsOf_perm pops.1).symm.trans same
  cases queued with
  | nil => exact absurd split.length_eq nofun
  | cons first later =>
    rcases mem_cons.mp (split.subset mem_cons_self) with isFirst | isLater
    · rw [isFirst] at split
      exact ⟨later, by rw [isFirst], split.cons_inv⟩
    · -- The first one is in the heap too and would have been popped before.
      exfalso
      obtain ⟨ranked, inHeap, inner, belongs⟩ := mem_eventsOf.mp (same.symm.subset mem_cons_self)
      have earlier := (pairwise_cons.mp ordered).1 event.inner isLater
      have equal : ranked.sourceRank = event.sourceRank :=
        (ranks ranked inHeap (inner ▸ belongs)).trans (ranks event here own).symm
      have before := orderKey_lt equal (inner ▸ earlier)
      exact absurd (pops.2 ranked inHeap) (not_le_of_gt before)

theorem shouldSkip_of_below {sequence}
    (below : ∀ checkpoint, dedup.checkpoints sourceId = some checkpoint → checkpoint < sequence) :
    dedup.shouldSkip sourceId sequence = false := by
  unfold SequenceDedup.shouldSkip
  cases here : dedup.checkpoints sourceId with
  | none => rfl
  | some checkpoint => simpa using below checkpoint here

theorem advance_of_below {sequence}
    (below : ∀ checkpoint, dedup.checkpoints sourceId = some checkpoint → checkpoint < sequence) :
    (dedup.advance sourceId sequence).checkpoints sourceId = some sequence := by
  unfold SequenceDedup.advance
  cases here : dedup.checkpoints sourceId with
  | none => simp
  | some checkpoint => simp [below checkpoint here]

theorem advance_other {other} (differs : other ≠ sourceId) (sequence : Nat) :
    (dedup.advance other sequence).checkpoints sourceId = dedup.checkpoints sourceId :=
  Function.update_of_ne differs.symm _ _

theorem dequeuedOf_process (intake : QueryIntake P) (event : RankedSourceEvent P) (rest : List (RankedSourceEvent P))
    (succeeds : Bool) :
    (intake.process event rest succeeds).dequeuedOf sourceId = intake.dequeuedOf sourceId ++ eventsOf sourceId [event] := by
  simp [dequeuedOf, process]

section

variable (inOrder : InOrder sourceId rank seed taken intake)
include inOrder

theorem InOrder.dequeue_own (ascending : Ascending sourceId seed taken) (succeeds : Bool)
    (pops : PriorityQueue.Pops RankedSourceEvent.orderKey intake.heap event rest)
    (own : event.inner.sourceId = sourceId) :
    InOrder sourceId rank seed taken (intake.process event rest succeeds) := by
  obtain ⟨⟨queued, all, same⟩, ranks, checkpoint, kept⟩ := inOrder
  have ordered := ascending.ordered
  rw [all, pairwise_append] at ordered
  obtain ⟨-, laterOrdered, across⟩ := ordered
  obtain ⟨later, rfl, remaining⟩ := first_of_pops pops own same ranks (pairwise_append.mp laterOrdered).1
  have below : ∀ reached, intake.dedup.checkpoints sourceId = some reached → reached < event.inner.sequence := by
    intro reached held
    rcases checkpoint with seeded | ⟨earlier, member, advanced⟩
    · refine ascending.above event.inner ?_ reached (seeded.symm.trans held)
      rw [all]
      simp
    · obtain rfl : earlier.sequence = reached := Option.some.inj (advanced.symm.trans held)
      exact (across earlier member event.inner (by simp)).1
  have unskipped : intake.dedup.shouldSkip sourceId event.inner.sequence = false := shouldSkip_of_below below
  have dequeued : (intake.process event rest succeeds).dequeuedOf sourceId =
      intake.dequeuedOf sourceId ++ [event.inner] := by
    rw [dequeuedOf_process, eventsOf_cons_own own]
    rfl
  refine ⟨⟨later, ?_, remaining⟩, ?_, ?_, ?_⟩
  · rw [all, dequeued]
    simp [process]
  · intro ranked member
    exact ranks ranked (pops.1.symm.subset (mem_cons_of_mem _ member))
  · rw [dequeued]
    cases succeeds with
    | true =>
      refine .inr ⟨event.inner, by simp, ?_⟩
      simp only [process, own, unskipped, Bool.not_true, Bool.or_false, Bool.false_eq_true, if_false]
      exact advance_of_below below
    | false =>
      simp only [process, Bool.not_false, Bool.or_true, if_true]
      rcases checkpoint with seeded | ⟨earlier, member, advanced⟩
      · exact .inl seeded
      · exact .inr ⟨earlier, mem_append_left _ member, advanced⟩
  · intro entry member belongs
    rcases mem_append.mp member with old | new
    · exact kept entry old belongs
    · rw [mem_singleton.mp new, own]
      exact unskipped

theorem InOrder.dequeue_other (succeeds : Bool)
    (pops : PriorityQueue.Pops RankedSourceEvent.orderKey intake.heap event rest)
    (other : event.inner.sourceId ≠ sourceId) :
    InOrder sourceId rank seed taken (intake.process event rest succeeds) := by
  obtain ⟨⟨queued, all, same⟩, ranks, checkpoint, kept⟩ := inOrder
  have dequeued : (intake.process event rest succeeds).dequeuedOf sourceId = intake.dequeuedOf sourceId := by
    rw [dequeuedOf_process, eventsOf_cons_other other]
    exact append_nil _
  have unmoved : (intake.process event rest succeeds).dedup.checkpoints sourceId = intake.dedup.checkpoints sourceId := by
    simp only [process]
    split
    · rfl
    · exact advance_other other _
  refine ⟨⟨queued, ?_, ?_⟩, ?_, ?_, ?_⟩
  · rw [dequeued]
    exact all
  · have fewer : (eventsOf sourceId (event :: rest)).Perm queued := (eventsOf_perm pops.1).symm.trans same
    rw [eventsOf_cons_other other] at fewer
    exact fewer
  · intro ranked member
    exact ranks ranked (pops.1.symm.subset (mem_cons_of_mem _ member))
  · rw [dequeued, unmoved]
    exact checkpoint
  · intro entry member belongs
    rcases mem_append.mp member with old | new
    · exact kept entry old belongs
    · rw [mem_singleton.mp new] at belongs
      exact absurd belongs other

theorem InOrder.step {action} (ascending : Ascending sourceId seed taken)
    (step : Step sourceId rank capacity action intake next) : InOrder sourceId rank seed taken next := by
  cases step with
  | enqueue forwarding room => exact inOrder.enqueue ascending forwarding
  | enqueueOther event other room => exact inOrder.enqueueOther other
  | @dequeue _ event rest succeeds running pops =>
    by_cases own : event.inner.sourceId = sourceId
    · exact inOrder.dequeue_own ascending succeeds pops own
    · exact inOrder.dequeue_other succeeds pops own

end

end DrasiCore.Proofs
