import DrasiCore.Proofs.DurableOutput

/-! Reads of the outbox after a recovery. The durable state was accepted, its results hydrated, and more results follow:
a read must return all results after the position it asks for, or say that they are gone. -/

namespace DrasiCore

open Library QueryOutputState List

namespace QueryOutputState

def performAll (state : QueryOutputState) : List OutputCall → QueryOutputState × List QueryResult
  | [] => (state, [])
  | call :: calls =>
    let (next, result) := state.perform call
    let (final, results) := next.performAll calls
    (final, result :: results)

/-- A read that answers gives exactly the results after the position, in order, out of those known. -/
def ReadsExactly (state : QueryOutputState) (known : List QueryResult) (afterSequence : Nat) : Prop :=
  ∀ read, state.fetchOutboxAfter afterSequence = .ok read →
    read.map (·.sequence) = range' (afterSequence + 1) (state.asOfSequence - afterSequence) ∧
      ∀ result ∈ read, result ∈ known

end QueryOutputState

namespace Proofs

section Accepted

variable {storedSequence : Option Nat} {sequences : List Nat} {liveRowCount asOf : Nat} {readable : Bool}

/-- What the validation of the durable state guarantees: the sequences are consecutive and do not pass the stored one. -/
theorem accepted_sequences (accepted : reconcileDurableOutput storedSequence sequences liveRowCount readable = .ok asOf) :
    ∃ first, sequences.insertionSort (· ≤ ·) = range' first sequences.length ∧
      (sequences ≠ [] → first + sequences.length ≤ asOf + 1) := by
  simp only [reconcileDurableOutput] at accepted
  split at accepted
  · cases accepted
  split at accepted
  · cases accepted
  rename_i contiguous
  split at accepted
  · cases accepted
  cases sorted : sequences.insertionSort (· ≤ ·) with
  | nil =>
    have none : sequences = [] := by
      apply eq_nil_of_length_eq_zero
      rw [← length_insertionSort (· ≤ ·), sorted]
      rfl
    exact ⟨0, by rw [none]; rfl, fun some => absurd none some⟩
  | cons first rest =>
    have long : rest.length + 1 = sequences.length := by
      rw [← length_insertionSort (· ≤ ·) sequences, sorted]
      rfl
    rw [sorted] at contiguous
    have range : first :: rest = range' first (rest.length + 1) := by
      apply eq_range'_of_consecutive
      intro window member
      by_contra gap
      exact contiguous ⟨cons_ne_nil _ _, .inr (any_eq_true.mpr ⟨window, member, by simpa using gap⟩)⟩
    refine ⟨first, by rw [range, long], fun _ => ?_⟩
    rw [sorted, range, getLast?_range', if_neg (Nat.succ_ne_zero _)] at accepted
    simp only at accepted
    split at accepted
    · cases accepted
    · cases accepted
      omega

end Accepted

variable {state : QueryOutputState}

section Calls

/-- The outbox holds the last results of a log, as many as it has room for. -/
structure Retains (state : QueryOutputState) (log : List QueryResult) : Prop where
  room : 0 < state.outboxCapacity
  window : state.outbox = log.rtake state.outboxCapacity

variable {log : List QueryResult}

theorem Retains.push (retains : Retains state log) (result : QueryResult) :
    Retains (state.pushOutbox result) (log ++ [result]) := by
  refine ⟨retains.room, ?_⟩
  have pushed := push_window log result (Nat.zero_le log.length) retains.room
  rw [Nat.zero_max, Nat.zero_max, ← rtake_eq_drop, ← retains.window] at pushed
  rw [rtake_eq_drop, length_append]
  exact pushed

theorem Retains.perform (retains : Retains state log) (call : OutputCall)
    (numbered : state.asOfSequence + 1 < maxSequence) :
    Retains (state.perform call).1 (log ++ [(state.perform call).2]) ∧
      (state.perform call).1.asOfSequence = state.asOfSequence + 1 ∧
      (state.perform call).2.sequence = state.asOfSequence + 1 ∧
      (state.perform call).1.outboxCapacity = state.outboxCapacity := by
  cases call with
  | advance result =>
    have next : min (state.asOfSequence + 1) maxSequence = state.asOfSequence + 1 :=
      Nat.min_eq_left numbered.le
    refine ⟨?_, next, next, rfl⟩
    apply Retains.push
    exact ⟨retains.room, retains.window⟩
  | committed diffs result =>
    refine ⟨?_, rfl, rfl, rfl⟩
    apply Retains.push
    exact ⟨retains.room, retains.window⟩

theorem Retains.hydrate (rows : LiveRows) (entries : List QueryResult) (capacity asOf generation : Nat) :
    Retains ((QueryOutputState.new capacity).hydrate rows entries asOf generation)
      (entries.insertionSort fun one two => one.sequence ≤ two.sequence) := by
  refine ⟨Nat.le_max_left _ _, ?_⟩
  unfold rtake
  dsimp only [QueryOutputState.hydrate]
  split
  · rfl
  · rename_i fits
    rw [Nat.sub_eq_zero_of_le (Nat.le_of_not_lt fits)]
    rfl

theorem Retains.performAll (calls : List OutputCall) (state : QueryOutputState) (log : List QueryResult)
    (retains : Retains state log) (numbered : state.asOfSequence + calls.length < maxSequence) :
    Retains (state.performAll calls).1 (log ++ (state.performAll calls).2) ∧
      (state.performAll calls).1.asOfSequence = state.asOfSequence + calls.length ∧
      (state.performAll calls).2.map (·.sequence) = range' (state.asOfSequence + 1) calls.length ∧
      (state.performAll calls).1.outboxCapacity = state.outboxCapacity := by
  induction calls generalizing state log with
  | nil => exact ⟨by simpa [QueryOutputState.performAll] using retains, rfl, rfl, rfl⟩
  | cons call calls ih =>
    rw [length_cons] at numbered
    obtain ⟨kept, asOf, sequence, room⟩ := retains.perform call (by omega)
    obtain ⟨all, last, sequences, same⟩ := ih _ _ kept (by omega)
    refine ⟨?_, ?_, ?_, same.trans room⟩
    · simpa [QueryOutputState.performAll, append_assoc] using all
    · rw [asOf] at last
      exact last.trans (by rw [length_cons]; omega)
    · rw [asOf] at sequences
      rw [length_cons, range'_succ, ← sequences, ← sequence]
      rfl

end Calls

section Reads

variable {first count : Nat}

theorem filter_sequences (results : List QueryResult) (position : Nat) :
    (results.map (·.sequence)).filter (fun number => position < number) =
      (results.filter fun result => position < result.sequence).map (·.sequence) := filter_map

theorem fetch_gapless (window : state.outbox.map (·.sequence) = range' first count)
    (ends : first + count = state.asOfSequence + 1) {known} (listed : ∀ result ∈ state.outbox, result ∈ known)
    (afterSequence : Nat) : state.ReadsExactly known afterSequence := by
  intro read answer
  unfold fetchOutboxAfter at answer
  split at answer
  · rename_i reached
    cases answer
    rw [Nat.sub_eq_zero_of_le reached]
    exact ⟨rfl, nofun⟩
  rename_i behind
  have earliest : (state.outbox.head?.map (·.sequence)).getD (state.asOfSequence + 1) = first := by
    rw [← head?_map, window, head?_range']
    split
    · simp only [Option.getD_none]
      omega
    · rfl
  simp only [earliest] at answer
  split at answer
  · exact absurd answer nofun
  · cases answer
    refine ⟨?_, fun result member => listed result (mem_filter.mp member).1⟩
    rw [← filter_sequences, window, filter_range'_beyond (by omega)]
    congr 1
    omega

/-- A read below a gap in the outbox answers without the results of the gap. -/
theorem fetch_across_gap {front back} (position : Nat) (window : state.outbox.map (·.sequence) = front ++ back)
    (retained : front ≠ []) (below : ∀ number ∈ front, number ≤ position) (behind : position < state.asOfSequence) :
    ∃ read, state.fetchOutboxAfter position = .ok read ∧
      read.map (·.sequence) = back.filter fun number => position < number := by
  obtain ⟨earliest, rest, shape⟩ := exists_cons_of_ne_nil retained
  have head : (state.outbox.head?.map (·.sequence)).getD (state.asOfSequence + 1) = earliest := by
    rw [← head?_map, window, shape]
    rfl
  have early : earliest ≤ position := below earliest (shape ▸ mem_cons_self)
  refine ⟨state.outbox.filter fun result => position < result.sequence, ?_, ?_⟩
  · simp only [fetchOutboxAfter, head]
    rw [if_neg (by omega), if_neg (by omega)]
  · rw [← filter_sequences, window, filter_append, filter_eq_nil_iff.mpr, nil_append]
    intro number member
    simpa using below number member

end Reads

/-- The outbox after a recovery and some results: the hydrated sequences, then those of the calls, cut to the capacity. -/
theorem recovered_sequences {storedSequence entries liveRowCount asOf readable} (rows : LiveRows)
    (capacity generation : Nat) (calls : List OutputCall)
    (accepted : reconcileDurableOutput storedSequence (entries.map (·.sequence)) liveRowCount readable = .ok asOf)
    (numbered : asOf + calls.length < maxSequence) :
    ∃ first, (entries ≠ [] → first + entries.length ≤ asOf + 1) ∧
      (∀ number, number ∈ entries.map (·.sequence) ↔ number ∈ range' first entries.length) ∧
      let recovered := ((QueryOutputState.new capacity).hydrate rows entries asOf generation).performAll calls
      recovered.1.asOfSequence = asOf + calls.length ∧
      (∀ result ∈ recovered.1.outbox, result ∈ entries ++ recovered.2) ∧
      recovered.1.outbox.map (·.sequence) =
        (range' first entries.length ++ range' (asOf + 1) calls.length).drop
          (entries.length + calls.length - (QueryOutputState.new capacity).outboxCapacity) := by
  obtain ⟨first, range, bound⟩ := accepted_sequences accepted
  rw [length_map] at range bound
  have start : ((QueryOutputState.new capacity).hydrate rows entries asOf generation).asOfSequence = asOf := Nat.zero_max _
  obtain ⟨retains, last, results, room⟩ :=
    Retains.performAll calls _ _ (Retains.hydrate rows entries capacity asOf generation) (start.symm ▸ numbered)
  rw [start] at last results
  refine ⟨first, fun some => bound fun none => some (map_eq_nil_iff.mp none), ?_, last, ?_, ?_⟩
  · intro number
    rw [← range, mem_insertionSort]
  · intro result member
    rw [retains.window] at member
    have inLog := mem_of_mem_drop member
    rw [mem_append, mem_insertionSort] at inLog
    exact mem_append.mpr inLog
  · have hydrated : (entries.insertionSort fun one two => one.sequence ≤ two.sequence).map (·.sequence) =
        range' first entries.length := by
      rw [← range]
      exact map_insertionSort _ _ _ _ fun _ _ _ _ => Iff.rfl
    have emitted := congrArg length results
    rw [length_map, length_range'] at emitted
    rw [retains.window, rtake_eq_drop, map_drop, map_append, hydrated, results, length_append,
      length_insertionSort, room, emitted]
    rfl

/-- Reads after a recovery are exact as long as the retained results reach up to the stored sequence, there are none, or
all of them have been evicted. -/
theorem outbox_reads_exact_iff {storedSequence : Option Nat} {entries : List QueryResult} {liveRowCount asOf : Nat}
    {readable : Bool} (rows : LiveRows) (capacity generation : Nat) (calls : List OutputCall)
    (accepted : reconcileDurableOutput storedSequence (entries.map (·.sequence)) liveRowCount readable = .ok asOf)
    (numbered : asOf + calls.length < maxSequence) :
    let recovered := ((QueryOutputState.new capacity).hydrate rows entries asOf generation).performAll calls
    (∀ afterSequence, recovered.1.ReadsExactly (entries ++ recovered.2) afterSequence) ↔
      entries = [] ∨ asOf ∈ entries.map (·.sequence) ∨ (QueryOutputState.new capacity).outboxCapacity ≤ calls.length := by
  intro recovered
  obtain ⟨first, bound, members, last, listed, sequences⟩ :=
    recovered_sequences rows capacity generation calls accepted numbered
  generalize (QueryOutputState.new capacity).outboxCapacity = room at sequences ⊢
  constructor
  · intro exact
    by_contra gap
    rw [not_or, not_or] at gap
    obtain ⟨retained, missing, short⟩ := gap
    have ends := bound retained
    have some : 0 < entries.length := length_pos_of_ne_nil retained
    rw [members, mem_range'_1] at missing
    rw [drop_append_of_le_length (by rw [length_range']; omega), drop_range', Nat.mul_one] at sequences
    -- The read starts at the last hydrated result, which lies below the stored sequence.
    have front : range' (first + (entries.length + calls.length - room))
        (entries.length - (entries.length + calls.length - room)) ≠ [] := by
      rw [Ne, range'_eq_nil_iff]
      omega
    have below : ∀ number ∈ range' (first + (entries.length + calls.length - room))
        (entries.length - (entries.length + calls.length - room)), number ≤ first + entries.length - 1 := by
      intro number member
      rw [mem_range'_1] at member
      omega
    obtain ⟨read, answer, numbers⟩ := fetch_across_gap (first + entries.length - 1) sequences front below (by omega)
    have all := congrArg length (exact _ read answer).1
    have few := length_filter_le (fun number => decide (first + entries.length - 1 < number))
      (range' (asOf + 1) calls.length)
    rw [numbers, length_range', last] at all
    rw [length_range'] at few
    omega
  · intro reaches
    have gapless : ∃ earliest count, recovered.1.outbox.map (·.sequence) = range' earliest count ∧
        earliest + count = recovered.1.asOfSequence + 1 := by
      rw [last, sequences]
      rcases reaches with none | reached | evicted
      · subst none
        refine ⟨asOf + 1 + (calls.length - room), calls.length - (calls.length - room), ?_, by omega⟩
        simp [drop_range']
      · rw [members, mem_range'_1] at reached
        have ends := bound (ne_nil_of_length_pos (by omega))
        have joins : asOf + 1 = first + entries.length := by omega
        rw [joins, range'_append_1, drop_range']
        exact ⟨_, _, rfl, by omega⟩
      · rw [drop_append, length_range', drop_eq_nil_of_le (by rw [length_range']; omega),
          nil_append, drop_range']
        exact ⟨_, _, rfl, by omega⟩
    obtain ⟨earliest, count, window, ends⟩ := gapless
    exact fetch_gapless window ends listed

def sampleResult (sequence : Nat) : QueryResult := ⟨"query", sequence, 0, [], [], fun _ => none⟩

theorem outbox_reads_exact_iff_two :
    let recovered := ((QueryOutputState.new 4).hydrate ∅ [sampleResult 3, sampleResult 4] 4 0).performAll
      [.advance (sampleResult 0)]
    ∀ afterSequence, recovered.1.ReadsExactly ([sampleResult 3, sampleResult 4] ++ recovered.2) afterSequence := by
  have accepted : reconcileDurableOutput (some 4) ([sampleResult 3, sampleResult 4].map (·.sequence)) 1 true = .ok 4 := by
    decide
  have reaches : 4 ∈ [sampleResult 3, sampleResult 4].map (·.sequence) := by decide
  exact (outbox_reads_exact_iff ∅ 4 0 [.advance (sampleResult 0)] accepted (by decide)).mpr (.inr (.inl reaches))

/-- The durable outbox ends with 4 while the stored sequence is 5: the read after 3 leaves 5 out. -/
theorem outbox_read_misses_stored_sequence :
    reconcileDurableOutput (some 5) ([sampleResult 3, sampleResult 4].map (·.sequence)) 1 true = .ok 5 ∧
      ¬ ((QueryOutputState.new 4).hydrate ∅ [sampleResult 3, sampleResult 4] 5 0).ReadsExactly
        [sampleResult 3, sampleResult 4] 3 := by
  refine ⟨by decide, fun exact => ?_⟩
  have read := (exact [sampleResult 4] rfl).1
  exact absurd read (by decide)

end Proofs

end DrasiCore
