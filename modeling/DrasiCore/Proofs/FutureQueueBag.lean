import DrasiCore.FutureBag
import DrasiCore.Proofs.FutureDrain

/-! The in-memory queue of futures answers like a bag as long as no two futures of one function and group fall due at
one time: the per-group map keeps one future for a due time, and the queue tells futures apart by all their fields. -/

namespace DrasiCore

open Library List InMemoryFutureQueue

namespace InMemoryFutureQueue

variable {data : InMemoryFutureQueue} {position : Nat}

/-- The per-group maps hold exactly the queued futures, whose due times compare as signed numbers. -/
structure Mirrored (data : InMemoryFutureQueue) : Prop where
  nodup : data.queue.Nodup
  bounded : ∀ entry ∈ data.queue, entry.2.dueTime < 2 ^ 63
  mapped : ∀ position signature dueTime originalTime elementRef,
    (data.map position signature).get? dueTime = some (originalTime, elementRef) ↔
      (position, ⟨elementRef, originalTime, dueTime, signature⟩) ∈ data.queue

theorem Mirrored.empty : Mirrored .empty := ⟨nodup_nil, nofun, fun _ _ _ _ _ => ⟨nofun, nofun⟩⟩

/-- What the queue needs of a call: due times below 2^63, and no second future of one group at one due time. -/
def Admits (data : InMemoryFutureQueue) : QueueCall → Prop
  | .push pushType position signature _ _ dueTime =>
    dueTime < 2 ^ 63 ∧ (pushType = .always → ∀ entry ∈ data.queue,
      FutureBag.Concerns position signature entry → entry.2.dueTime ≠ dueTime)
  | .remove .. => True
  | .pop => True
  | .peekDueTime => True

/-- Every call finds the queue in a state that admits it. -/
def AdmitsAll : InMemoryFutureQueue → List (IterationOrder × QueueCall) → Prop
  | _, [] => True
  | data, (order, call) :: calls => data.Admits call ∧ AdmitsAll (data.perform order call).2 calls

theorem add_map (data : InMemoryFutureQueue) (position : Nat) (signature : Signature) (elementRef : ElementReference)
    (originalTime dueTime : ElementTimestamp) (other : Nat) (group : Signature) :
    (data.add position signature elementRef originalTime dueTime).map other group =
      if other = position ∧ group = signature then (data.map other group).insert dueTime (originalTime, elementRef)
      else data.map other group := rfl

theorem remove_map (data : InMemoryFutureQueue) (position : Nat) (signature : Signature) (other : Nat)
    (group : Signature) :
    (data.remove position signature).map other group =
      if other = position ∧ group = signature then .empty else data.map other group := rfl

theorem Mirrored.add (mirrored : data.Mirrored) {signature elementRef originalTime dueTime} (bounded : dueTime < 2 ^ 63)
    (free : ∀ entry ∈ data.queue, FutureBag.Concerns position signature entry → entry.2.dueTime ≠ dueTime) :
    (data.add position signature elementRef originalTime dueTime).Mirrored ∧
      (data.add position signature elementRef originalTime dueTime).queue =
        (position, ⟨elementRef, originalTime, dueTime, signature⟩) :: data.queue := by
  have absent : (position, (⟨elementRef, originalTime, dueTime, signature⟩ : FutureElementRef)) ∉ data.queue :=
    fun member => free _ member ⟨rfl, rfl⟩ rfl
  have queue : (data.add position signature elementRef originalTime dueTime).queue =
      (position, ⟨elementRef, originalTime, dueTime, signature⟩) :: data.queue := insert_of_not_mem absent
  refine ⟨⟨?_, ?_, ?_⟩, queue⟩
  · rw [queue]
    exact nodup_cons.mpr ⟨absent, mirrored.nodup⟩
  · rw [queue]
    intro entry member
    rcases mem_cons.mp member with rfl | old
    · exact bounded
    · exact mirrored.bounded entry old
  · intro otherPosition otherSignature otherDue otherOriginal otherRef
    rw [queue, mem_cons, ← mirrored.mapped]
    rw [add_map]
    split
    · next same =>
      obtain ⟨rfl, rfl⟩ := same
      by_cases sameDue : otherDue = dueTime
      · -- the map entry is replaced, and no other future had this due time
        subst sameDue
        have vacant : (data.map otherPosition otherSignature).get? otherDue ≠ some (otherOriginal, otherRef) :=
          fun found => free _ ((mirrored.mapped _ _ _ _ _).mp found) ⟨rfl, rfl⟩ rfl
        rw [OrderedMap.get?_insert_self]
        simp only [vacant, or_false, Option.some.injEq, Prod.mk.injEq, FutureElementRef.mk.injEq, true_and, and_true]
        exact ⟨fun ⟨first, second⟩ => ⟨second.symm, first.symm⟩, fun ⟨first, second⟩ => ⟨second.symm, first.symm⟩⟩
      · rw [OrderedMap.get?_insert_of_ne _ _ sameDue]
        simp [sameDue]
    · next elsewhere =>
      refine (or_iff_right ?_).symm
      intro same
      cases same
      exact elsewhere ⟨rfl, rfl⟩

theorem nodup_foldl_erase {α β : Type} [BEq α] [LawfulBEq α] (item : β → α) (entries : List β) {queue : List α}
    (nodup : queue.Nodup) : (entries.foldl (fun queue entry => queue.erase (item entry)) queue).Nodup := by
  induction entries generalizing queue with
  | nil => exact nodup
  | cons entry entries ih => exact ih (nodup.erase _)

theorem mem_foldl_erase {α β : Type} [BEq α] [LawfulBEq α] (item : β → α) (entries : List β) {queue : List α}
    (nodup : queue.Nodup) (member : α) :
    member ∈ entries.foldl (fun queue entry => queue.erase (item entry)) queue ↔
      member ∈ queue ∧ ∀ entry ∈ entries, item entry ≠ member := by
  induction entries generalizing queue with
  | nil => simp
  | cons entry entries ih =>
    rw [foldl_cons, ih (nodup.erase _), nodup.mem_erase_iff, forall_mem_cons]
    constructor
    · rintro ⟨⟨different, listed⟩, rest⟩
      exact ⟨listed, different.symm, rest⟩
    · rintro ⟨listed, different, rest⟩
      exact ⟨⟨different.symm, listed⟩, rest⟩

theorem Mirrored.mem_remove (mirrored : data.Mirrored) (position : Nat) (signature : Signature)
    (entry : Nat × FutureElementRef) :
    entry ∈ (data.remove position signature).queue ↔
      entry ∈ data.queue ∧ ¬FutureBag.Concerns position signature entry := by
  have erased := mem_foldl_erase
    (fun entry : ElementTimestamp × ElementTimestamp × ElementReference =>
      (position, (⟨entry.2.2, entry.2.1, entry.1, signature⟩ : FutureElementRef)))
    (data.map position signature).entries mirrored.nodup entry
  refine erased.trans (and_congr_right fun queued => ?_)
  obtain ⟨otherPosition, ⟨elementRef, originalTime, dueTime, otherSignature⟩⟩ := entry
  constructor
  · rintro kept ⟨rfl, rfl⟩
    have found := (mirrored.mapped _ _ _ _ _).mpr queued
    exact kept _ (OrderedMap.mem_entries_iff.mpr found) rfl
  · intro elsewhere other listed same
    cases same
    exact elsewhere ⟨rfl, rfl⟩

theorem Mirrored.remove (mirrored : data.Mirrored) (position : Nat) (signature : Signature) :
    (data.remove position signature).Mirrored ∧
      ((data.remove position signature).queue : FutureBag) = FutureBag.without data.queue position signature := by
  have nodup : (data.remove position signature).queue.Nodup := nodup_foldl_erase
    (fun entry : ElementTimestamp × ElementTimestamp × ElementReference =>
      (position, (⟨entry.2.2, entry.2.1, entry.1, signature⟩ : FutureElementRef))) _ mirrored.nodup
  refine ⟨⟨nodup, ?_, ?_⟩, ?_⟩
  · intro entry member
    exact mirrored.bounded entry ((mirrored.mem_remove _ _ _).mp member).1
  · intro otherPosition otherSignature dueTime originalTime elementRef
    rw [mirrored.mem_remove]
    rw [remove_map]
    split
    · next same =>
      refine ⟨nofun, fun kept => absurd ?_ kept.2⟩
      exact same
    · next elsewhere =>
      rw [mirrored.mapped]
      exact (and_iff_left elsewhere).symm
  · unfold FutureBag.without
    rw [Multiset.filter_coe, Multiset.coe_eq_coe]
    refine (perm_ext_iff_of_nodup nodup (mirrored.nodup.filter _)).mpr fun entry => ?_
    rw [mirrored.mem_remove, mem_filter, decide_eq_true_iff]

theorem duePriority_eq {dueTime : Nat} (bounded : dueTime < 2 ^ 63) : duePriority dueTime = -(dueTime : Int) := by
  have signed : timestampAsI64 dueTime = dueTime := by
    unfold timestampAsI64 i64Max
    rw [Nat.mod_eq_of_lt (by omega)]
    exact if_pos (by omega)
  unfold duePriority i64Min
  rw [signed]
  exact if_neg (by omega)

section

variable (mirrored : data.Mirrored)
include mirrored

theorem Mirrored.mem_heads (entry : Nat × FutureElementRef) :
    entry ∈ data.heads ↔ entry ∈ data.queue ∧ ∀ other ∈ data.queue, entry.2.dueTime ≤ other.2.dueTime := by
  unfold heads
  rw [mem_filter]
  refine and_congr_right fun queued => ?_
  simp only [all_eq_true, decide_eq_true_iff]
  refine forall₂_congr fun other listed => ?_
  rw [duePriority_eq (mirrored.bounded entry queued), duePriority_eq (mirrored.bounded other listed),
    Int.neg_le_neg_iff]
  exact Int.ofNat_le

theorem Mirrored.heads_eq_nil (vacant : data.heads = []) : data.queue = [] := by
  by_contra filled
  obtain ⟨entry, queued, earliest⟩ := data.queue.toFinset.exists_min_image (·.2.dueTime)
    (toFinset_nonempty_iff _ |>.mpr filled)
  have head : entry ∈ data.heads := (mirrored.mem_heads entry).mpr
    ⟨mem_toFinset.mp queued, fun other listed => earliest other (mem_toFinset.mpr listed)⟩
  rw [vacant] at head
  cases head

theorem Mirrored.peekDueTime : HasLeast ((data.queue : FutureBag).map (·.2.dueTime)) data.peekDueTime := by
  unfold InMemoryFutureQueue.peekDueTime
  cases first : data.heads.head? with
  | none =>
    have emptied := mirrored.heads_eq_nil (head?_eq_none_iff.mp first)
    simp [HasLeast, emptied]
  | some entry =>
    obtain ⟨queued, earliest⟩ := (mirrored.mem_heads entry).mp (mem_of_head? first)
    refine ⟨Multiset.mem_map.mpr ⟨entry, queued, rfl⟩, fun dueTime listed => ?_⟩
    obtain ⟨other, member, rfl⟩ := Multiset.mem_map.mp listed
    exact earliest other member

theorem Mirrored.popped {future} (queued : (position, future) ∈ data.queue) :
    Mirrored
      { queue := data.queue.erase (position, future)
        map := fun other signature =>
          if other = position ∧ signature = future.groupSignature then
            (data.map other signature).erase future.dueTime
          else data.map other signature } := by
  refine ⟨mirrored.nodup.erase _, ?_, ?_⟩
  · intro entry member
    exact mirrored.bounded entry (mem_of_mem_erase member)
  · intro otherPosition otherSignature dueTime originalTime elementRef
    dsimp only
    rw [mirrored.nodup.mem_erase_iff, ← mirrored.mapped]
    split
    · next same =>
      obtain ⟨rfl, rfl⟩ := same
      rw [OrderedMap.get?_erase]
      split
      · next sameDue =>
        -- the map holds one future for a due time, so it is the popped one
        refine ⟨nofun, fun ⟨different, found⟩ => absurd ?_ different⟩
        have stored := (mirrored.mapped otherPosition future.groupSignature future.dueTime future.originalTime
          future.elementRef).mpr queued
        rw [sameDue, stored] at found
        cases found
        rw [sameDue]
      · next otherDue =>
        refine (and_iff_right ?_).symm
        intro same
        exact otherDue (congrArg (·.2.dueTime) same)
    · next elsewhere =>
      refine (and_iff_right ?_).symm
      intro same
      cases same
      exact elsewhere ⟨rfl, rfl⟩

theorem Mirrored.pop (order : IterationOrder) :
    (data.pop order).2.Mirrored ∧
      FutureBag.Answers data.queue .pop (.popped (data.pop order).1) (data.pop order).2.queue := by
  unfold InMemoryFutureQueue.pop
  cases first : (order.arrange [] data.heads).head? with
  | none =>
    refine ⟨mirrored, .inl ⟨rfl, ?_, rfl⟩⟩
    have arranged := order.perm [] data.heads
    rw [head?_eq_none_iff.mp first] at arranged
    rw [mirrored.heads_eq_nil arranged.symm.eq_nil]
    rfl
  | some entry =>
    obtain ⟨position, future⟩ := entry
    have head : (position, future) ∈ data.heads := (order.mem_arrange [] _ _).mp (mem_of_head? first)
    obtain ⟨queued, earliest⟩ := (mirrored.mem_heads _).mp head
    refine ⟨mirrored.popped queued, .inr ⟨position, future, rfl, queued, earliest, ?_⟩⟩
    rw [Multiset.coe_erase]
    congr!

theorem Mirrored.shouldPush_ifNotExists (position : Nat) (signature : Signature) :
    data.shouldPush .ifNotExists position signature = true ↔
      ∀ entry ∈ data.queue, ¬FutureBag.Concerns position signature entry := by
  change (data.map position signature).entries.isEmpty = true ↔ _
  rw [List.isEmpty_iff]
  constructor
  · rintro vacant ⟨_, ⟨elementRef, originalTime, dueTime, _⟩⟩ queued ⟨rfl, rfl⟩
    have listed := OrderedMap.mem_entries_iff.mpr ((mirrored.mapped _ _ _ _ _).mpr queued)
    dsimp only at listed vacant
    rw [vacant] at listed
    cases listed
  · intro free
    refine eq_nil_iff_forall_not_mem.mpr fun entry listed => ?_
    have queued := (mirrored.mapped _ _ _ _ _).mp (OrderedMap.mem_entries_iff.mp listed)
    exact free _ queued ⟨rfl, rfl⟩

theorem Mirrored.push {pushType signature elementRef originalTime dueTime}
    (admits : data.Admits (.push pushType position signature elementRef originalTime dueTime)) :
    (data.push pushType position signature elementRef originalTime dueTime).Mirrored ∧
      FutureBag.Answers data.queue (.push pushType position signature elementRef originalTime dueTime)
        (.pushed (data.shouldPush pushType position signature))
        (data.push pushType position signature elementRef originalTime dueTime).queue := by
  obtain ⟨bounded, free⟩ := admits
  cases pushType with
  | always =>
    obtain ⟨kept, queue⟩ := mirrored.add bounded (free rfl)
    exact ⟨kept, rfl, congrArg _ queue⟩
  | ifNotExists =>
    have decides := mirrored.shouldPush_ifNotExists position signature
    unfold InMemoryFutureQueue.push
    dsimp only
    split
    · next vacant =>
      have none := decides.mp vacant
      obtain ⟨kept, queue⟩ := mirrored.add bounded fun entry queued concerns => absurd concerns (none entry queued)
      exact ⟨kept, .inr ⟨congrArg _ vacant, none, congrArg _ queue⟩⟩
    · next filled =>
      have refused : data.shouldPush .ifNotExists position signature = false := Bool.eq_false_iff.mpr filled
      have some : ¬∀ entry ∈ data.queue, ¬FutureBag.Concerns position signature entry := mt decides.mpr filled
      push Not at some
      exact ⟨mirrored, .inl ⟨congrArg _ refused, some, rfl⟩⟩
  | overwrite =>
    obtain ⟨removed, others⟩ := mirrored.remove position signature
    obtain ⟨kept, queue⟩ := removed.add bounded fun entry queued concerns =>
      absurd concerns ((mirrored.mem_remove _ _ _).mp queued).2
    refine ⟨kept, rfl, ?_⟩
    rw [← others]
    exact congrArg _ queue

/-- One admitted call is answered as by a bag and leaves the maps in step with the queue. -/
theorem Mirrored.perform (order : IterationOrder) {call} (admits : data.Admits call) :
    (data.perform order call).2.Mirrored ∧
      FutureBag.Answers data.queue call (data.perform order call).1 (data.perform order call).2.queue := by
  cases call with
  | push pushType position signature elementRef originalTime dueTime => exact mirrored.push admits
  | remove position signature =>
    obtain ⟨kept, others⟩ := mirrored.remove position signature
    exact ⟨kept, rfl, others⟩
  | pop => exact mirrored.pop order
  | peekDueTime => exact ⟨mirrored, _, rfl, mirrored.peekDueTime, rfl⟩

theorem Mirrored.performAll {calls} (admits : data.AdmitsAll calls) :
    FutureBag.Allows data.queue (data.performAll calls) := by
  induction calls generalizing data with
  | nil => trivial
  | cons step calls ih =>
    obtain ⟨order, call⟩ := step
    obtain ⟨first, rest⟩ := admits
    obtain ⟨kept, answers⟩ := mirrored.perform order first
    exact ⟨_, answers, ih kept rest⟩

end

end InMemoryFutureQueue

/-- The queue answers every admitted sequence of calls as a bag of futures does. -/
theorem future_queue_refines_bag (calls : List (IterationOrder × QueueCall))
    (admits : empty.AdmitsAll calls) :
    FutureBag.Allows 0 (empty.performAll calls) :=
  InMemoryFutureQueue.Mirrored.empty.performAll admits

/-- A future for an element of the source `s`, asked for at time 0. -/
def sampleFuture (pushType : PushType) (elementId : String) (dueTime : ElementTimestamp) : QueueCall :=
  .push pushType 0 .zero ⟨"s", elementId⟩ 0 dueTime

/-- Futures of one group at different due times, put in, replaced and taken out. -/
def sampleCalls : List (IterationOrder × QueueCall) :=
  [sampleFuture .always "a" 5, sampleFuture .always "b" 7, sampleFuture .ifNotExists "c" 9, .peekDueTime, .pop,
    sampleFuture .overwrite "c" 9, .pop, sampleFuture .ifNotExists "a" 5, .remove 0 .zero, .pop].map (.stored, ·)

theorem future_queue_refines_bag_sample :
    empty.AdmitsAll sampleCalls ∧
      FutureBag.Allows 0 (empty.performAll sampleCalls) := by
  have admits : empty.AdmitsAll sampleCalls := by
    refine ⟨⟨by decide, fun _ => nofun⟩, ⟨by decide, fun _ => ?_⟩, ⟨by decide, nofun⟩, trivial, trivial,
      ⟨by decide, nofun⟩, trivial, ⟨by decide, nofun⟩, trivial, trivial, trivial⟩
    decide
  exact ⟨admits, future_queue_refines_bag sampleCalls admits⟩

/-- Two futures of one group at one due time: only the second is in the group's map, so the first survives a
removal of the group. -/
def sameDueCalls : List (IterationOrder × QueueCall) :=
  [sampleFuture .always "a" 5, sampleFuture .always "b" 5, .remove 0 .zero, .pop].map (.stored, ·)

theorem future_queue_not_bag : ¬FutureBag.Allows 0 (empty.performAll sameDueCalls) := by
  have answers : empty.performAll sameDueCalls =
      [(sampleFuture .always "a" 5, .pushed true), (sampleFuture .always "b" 5, .pushed true),
        (.remove 0 .zero, .removed), (.pop, .popped (some ⟨⟨"s", "a"⟩, 0, 5, .zero⟩))] := by decide +kernel
  rw [answers]
  rintro ⟨_, ⟨-, rfl⟩, _, ⟨-, rfl⟩, _, ⟨-, rfl⟩, _, popped, -⟩
  rcases popped with ⟨none, -⟩ | ⟨position, future, -, listed, -⟩
  · cases none
  · have emptied : FutureBag.without
        ((0, ⟨⟨"s", "b"⟩, 0, 5, .zero⟩) ::ₘ (0, ⟨⟨"s", "a"⟩, 0, 5, .zero⟩) ::ₘ 0) 0 .zero = 0 := by decide
    rw [emptied] at listed
    exact Multiset.notMem_zero _ listed

end DrasiCore
