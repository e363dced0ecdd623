import DrasiCore.Proofs.ReactionCheckpoints

/-! Batches of items are acknowledged in order. What is then checkpointed for a query is the largest sequence all of whose
items have been acknowledged, unless the reaction had a larger one from the start. -/

namespace DrasiCore.Proofs

open CheckpointSystem Library List

variable (checkpoint : ReactionCheckpoint) (sequence : Nat)

section Advance

variable (system : CheckpointSystem) (queryId : String)

/-- The checkpoint that an advance begins with. -/
def known : ReactionCheckpoint :=
  (system.state.refresh queryId (if system.state.hasStore then system.store queryId else none)).current queryId

def raised : ReactionCheckpoint :=
  if sequence ≤ checkpoint.sequence then checkpoint else ⟨sequence, checkpoint.configHash⟩

variable {system queryId} {state : CheckpointState}

theorem current_insert {checkpoint} : (state.insert queryId checkpoint).current queryId = checkpoint := by
  simp only [CheckpointState.insert, CheckpointState.current, Function.update_self, Option.getD_some]

theorem insert_insert {first second} :
    (state.insert queryId first).insert queryId second = state.insert queryId second := by
  simp only [CheckpointState.insert, Function.update_idem]

theorem refresh_eq :
    system.state.refresh queryId (if system.state.hasStore then system.store queryId else none) =
      system.state.insert queryId (known system queryId) :=
  congrArg (system.state.insert queryId) current_insert.symm

variable (system queryId) in
/-- An advance raises the checkpoint in memory, and writes it where it is raised and the write is not lost. -/
theorem advance_eq (policy : ReactionRecoveryPolicy) (lost : Bool) (sequence : Nat) :
    (system.advance policy lost (queryId, sequence)).state = system.state.insert queryId (raised (known system queryId) sequence) ∧
      (system.advance policy lost (queryId, sequence)).store =
        if (known system queryId).sequence < sequence ∧ system.state.hasStore ∧ ¬ (lost ∧ policy = .autoSkipGap) then
          Function.update system.store queryId (some (raised (known system queryId) sequence))
        else system.store := by
  unfold advance afterRead raised
  simp only [refresh_eq, current_insert, insert_insert]
  by_cases ahead : sequence ≤ (known system queryId).sequence
  · simp only [if_pos ahead, Nat.not_lt.mpr ahead, false_and, if_false]
    exact ⟨rfl, rfl⟩
  · have above := Nat.lt_of_not_le ahead
    simp only [if_neg ahead, above, true_and]
    by_cases has : system.state.hasStore = true
    · have same : (system.state.insert queryId (known system queryId)).hasStore = true := has
      simp only [same, has, if_true, true_and]
      by_cases skipped : lost = true ∧ policy = .autoSkipGap
      · simp only [skipped, and_self, if_true, not_true, if_false]
        exact ⟨insert_insert, rfl⟩
      · simp only [if_neg skipped, if_pos skipped]
        exact ⟨insert_insert, rfl⟩
    · have same : ¬ (system.state.insert queryId (known system queryId)).hasStore = true := has
      simp only [if_neg same, has]
      exact ⟨rfl, rfl⟩

theorem known_of_eq {before after : CheckpointSystem} (hasStore : after.state.hasStore = before.state.hasStore)
    (state : after.state.current queryId = before.state.current queryId) (store : after.store queryId = before.store queryId) :
    known after queryId = known before queryId := by
  simp only [known, CheckpointState.refresh, current_insert, hasStore, state, store]

theorem raised_raised (first second : Nat) :
    raised (raised checkpoint first) second = raised checkpoint (max first second) := by
  unfold raised
  grind

theorem known_of_supersedes
    (supersedes : Supersedes (system.state.current queryId) (if system.state.hasStore then system.store queryId else none)) :
    known system queryId = system.state.current queryId := by
  unfold known CheckpointState.refresh
  rw [current_insert]
  split
  · rfl
  · next stored held =>
    obtain ⟨sameEpoch, notBehind⟩ := supersedes _ held
    exact if_neg (not_or.mpr ⟨not_not.mpr sameEpoch.symm, Nat.not_lt.mpr notBehind⟩)

theorem Supersedes.raised {checkpoint stored} (supersedes : Supersedes checkpoint stored) (sequence : Nat) :
    Supersedes (raised checkpoint sequence) stored := by
  intro old held
  obtain ⟨sameEpoch, notBehind⟩ := supersedes old held
  unfold Proofs.raised
  split
  · exact ⟨sameEpoch, notBehind⟩
  · next ahead => exact ⟨sameEpoch, by dsimp only; omega⟩

variable (system queryId) in
theorem known_advance_self (policy : ReactionRecoveryPolicy) (lost : Bool) (sequence : Nat) :
    known (system.advance policy lost (queryId, sequence)) queryId = raised (known system queryId) sequence := by
  obtain ⟨state, store⟩ := advance_eq system queryId policy lost sequence
  have current : (system.advance policy lost (queryId, sequence)).state.current queryId =
      raised (known system queryId) sequence := by
    rw [state, current_insert]
  have hasStore : (system.advance policy lost (queryId, sequence)).state.hasStore = system.state.hasStore := by
    rw [state]
    rfl
  refine (known_of_supersedes ?_).trans current
  rw [current, hasStore]
  by_cases writes : (known system queryId).sequence < sequence ∧ system.state.hasStore ∧ ¬ (lost ∧ policy = .autoSkipGap)
  · rw [store, if_pos writes, Function.update_self, if_pos writes.2.1]
    rintro old held
    obtain rfl := Option.some.inj held
    exact ⟨rfl, Nat.le_refl _⟩
  · rw [store, if_neg writes]
    exact (supersedes_refresh system.state queryId _).raised sequence

theorem store_advance_of_ne {other} (different : other ≠ queryId) (policy : ReactionRecoveryPolicy) (lost : Bool)
    (sequence : Nat) : (system.advance policy lost (queryId, sequence)).store other = system.store other := by
  rw [(advance_eq system queryId policy lost sequence).2]
  split
  · exact Function.update_of_ne different _ _
  · rfl

theorem known_advance_of_ne {other} (different : other ≠ queryId) (policy : ReactionRecoveryPolicy) (lost : Bool)
    (sequence : Nat) : known (system.advance policy lost (queryId, sequence)) other = known system other := by
  obtain ⟨state, -⟩ := advance_eq system queryId policy lost sequence
  refine known_of_eq ?_ ?_ (store_advance_of_ne different policy lost sequence)
  · rw [state]
    rfl
  · rw [state]
    simp only [CheckpointState.insert, CheckpointState.current, Function.update_of_ne different]

/-- What is stored for the query is its checkpoint, as soon as that has moved on from the first one. -/
structure Persisted (first : ReactionCheckpoint) (stored : Option ReactionCheckpoint) (queryId : String)
    (system : CheckpointSystem) : Prop where
  hasStore : system.state.hasStore = true
  moved : known system queryId = first ∧ system.store queryId = stored ∨
    first.sequence < (known system queryId).sequence ∧ system.store queryId = some (known system queryId)

theorem Persisted.advance {first stored} (persisted : Persisted first stored queryId system) {policy lost} (own : String)
    (keeps : lost = true → own = queryId → policy ≠ .autoSkipGap) (sequence : Nat) :
    Persisted first stored queryId (system.advance policy lost (own, sequence)) := by
  obtain ⟨state, store⟩ := advance_eq system own policy lost sequence
  refine ⟨by rw [state]; exact persisted.hasStore, ?_⟩
  by_cases same : own = queryId
  · subst same
    rw [known_advance_self, store]
    by_cases above : (known system own).sequence < sequence
    · have writes : (known system own).sequence < sequence ∧ system.state.hasStore ∧ ¬ (lost ∧ policy = .autoSkipGap) :=
        ⟨above, persisted.hasStore, fun skipped => keeps skipped.1 rfl skipped.2⟩
      rw [if_pos writes, Function.update_self]
      have grown : (raised (known system own) sequence).sequence = sequence := by
        rw [raised, if_neg (Nat.not_le.mpr above)]
      refine .inr ⟨?_, rfl⟩
      rw [grown]
      rcases persisted.moved with ⟨start, -⟩ | ⟨below, -⟩
      · exact start ▸ above
      · exact below.trans above
    · rw [raised, if_pos (Nat.not_lt.mp above), if_neg fun writes => above writes.1]
      exact persisted.moved
  · rw [known_advance_of_ne (Ne.symm same), store_advance_of_ne (Ne.symm same)]
    exact persisted.moved

end Advance

section Batches

variable {queryId : String}

/-- The sequences of which the last item is among the items. -/
def terminals (queryId : String) (items : List BatchItem) : List Nat :=
  (items.filter fun item => item.1 = queryId ∧ item.2.2).map (·.2.1)

theorem candidates_fold (items : List BatchItem) (maps : OrderedMap String Nat × OrderedMap String Nat) :
    ((items.foldl batchCandidate maps).1.get? queryId).elim checkpoint (raised checkpoint) =
      (terminals queryId items).foldl raised ((maps.1.get? queryId).elim checkpoint (raised checkpoint)) := by
  induction items generalizing maps with
  | nil => rfl
  | cons item items ih =>
    obtain ⟨own, sequence, isTerminal⟩ := item
    rw [foldl_cons, ih]
    by_cases counts : own = queryId ∧ isTerminal = true
    · obtain ⟨rfl, rfl⟩ := counts
      have step : ((batchCandidate maps (own, sequence, true)).1.get? own).elim checkpoint (raised checkpoint) =
          raised ((maps.1.get? own).elim checkpoint (raised checkpoint)) sequence := by
        simp only [batchCandidate, if_true, raiseCandidate, OrderedMap.get?_insert_self]
        cases maps.1.get? own with
        | none => simp
        | some before => exact (raised_raised checkpoint before sequence).symm
      rw [step]
      simp [terminals]
    · have step : (batchCandidate maps (own, sequence, isTerminal)).1.get? queryId = maps.1.get? queryId := by
        unfold batchCandidate
        cases isTerminal with
        | false => rfl
        | true => exact OrderedMap.get?_insert_of_ne _ _ fun same => counts ⟨same.symm, rfl⟩
      rw [step]
      simp [terminals, counts]

theorem known_advances {system : CheckpointSystem} {policy} {lost : String → Bool} {entries : List (String × Nat)}
    (distinct : (entries.map (·.1)).Nodup) :
    known (entries.foldl (fun system entry => system.advance policy (lost entry.1) entry) system) queryId =
      (entries.lookup queryId).elim (known system queryId) (raised (known system queryId)) := by
  induction entries generalizing system with
  | nil => rfl
  | cons entry entries ih =>
    obtain ⟨own, sequence⟩ := entry
    obtain ⟨absent, distinct⟩ := nodup_cons.mp distinct
    rw [foldl_cons, ih distinct]
    by_cases same : queryId = own
    · subst same
      have none : entries.lookup queryId = none := by
        refine Option.eq_none_iff_forall_ne_some.mpr fun value held => absent ?_
        exact mem_map.mpr ⟨_, mem_of_lookup_eq_some held, rfl⟩
      rw [none, known_advance_self, lookup_cons_self]
      rfl
    · rw [known_advance_of_ne same, lookup_cons, beq_eq_false_iff_ne.mpr same]

variable (policy : ReactionRecoveryPolicy) (system : CheckpointSystem)

theorem known_acknowledge (batch : List BatchItem × (String → Bool)) :
    known (system.acknowledge policy batch) queryId = (terminals queryId batch.1).foldl raised (known system queryId) := by
  have sorted := (batchCheckpointCandidates batch.1).1.sorted
  have inOrder : (batchCheckpointCandidates batch.1).1.entries.mergeSort (fun left right => left.1 ≤ right.1) =
      (batchCheckpointCandidates batch.1).1.entries :=
    mergeSort_of_pairwise (sorted.imp fun below => decide_eq_true below.le)
  unfold acknowledge CheckpointCall.entries
  dsimp only
  rw [inOrder, known_advances ((pairwise_map.mpr sorted).imp fun below => below.ne)]
  exact candidates_fold (known system queryId) batch.1 (.empty, .empty)

theorem known_acknowledged
    (batches : List (List BatchItem × (String → Bool))) :
    known (batches.foldl (acknowledge policy) system) queryId =
      (terminals queryId (batches.flatMap (·.1))).foldl raised (known system queryId) := by
  induction batches generalizing system with
  | nil => rfl
  | cons batch batches ih =>
    rw [foldl_cons, ih, known_acknowledge, flatMap_cons, terminals, terminals, terminals, filter_append,
      map_append, foldl_append]

theorem Persisted.acknowledged {first stored} {system} (persisted : Persisted first stored queryId system)
    (batches : List (List BatchItem × (String → Bool)))
    (keeps : ∀ batch ∈ batches, batch.2 queryId = true → policy ≠ .autoSkipGap) :
    Persisted first stored queryId (batches.foldl (acknowledge policy) system) := by
  refine foldlRecOn _ _ persisted fun system persisted batch member => ?_
  refine foldlRecOn _ _ persisted fun system persisted entry _ => ?_
  exact persisted.advance entry.1 (fun lost same => keeps batch member (same ▸ lost)) entry.2

variable {sequences : List Nat}

theorem foldl_raised_le {checkpoint} (below : ∀ sequence ∈ sequences, sequence ≤ checkpoint.sequence) :
    sequences.foldl raised checkpoint = checkpoint := by
  induction sequences with
  | nil => rfl
  | cons first rest ih =>
    obtain ⟨firstBelow, restBelow⟩ := forall_mem_cons.mp below
    rw [foldl_cons, raised, if_pos firstBelow]
    exact ih restBelow

theorem foldl_raised_greatest {greatest} (member : greatest ∈ sequences)
    (upper : ∀ sequence ∈ sequences, sequence ≤ greatest) (checkpoint : ReactionCheckpoint) :
    sequences.foldl raised checkpoint = raised checkpoint greatest := by
  induction sequences generalizing checkpoint with
  | nil => cases member
  | cons first rest ih =>
    obtain ⟨firstBelow, restBelow⟩ := forall_mem_cons.mp upper
    rw [foldl_cons]
    by_cases later : greatest ∈ rest
    · rw [ih later restBelow, raised_raised, max_eq_right firstBelow]
    · obtain rfl := (mem_cons.mp member).resolve_right later
      refine foldl_raised_le fun sequence inside => (restBelow sequence inside).trans ?_
      unfold raised
      split
      · assumption
      · exact Nat.le_refl _

end Batches

section Streams

/-- A result of a query as it is sent: some items and a last one. -/
structure SentResult where
  queryId : String
  sequence : Nat
  otherItems : Nat

def SentResult.items (result : SentResult) : List BatchItem :=
  replicate result.otherItems (result.queryId, result.sequence, false) ++ [(result.queryId, result.sequence, true)]

/-- All items of a result are acknowledged: there are some, and none is among the others. -/
def Acknowledged (queryId : String) (acknowledged others : List BatchItem) (sequence : Nat) : Prop :=
  (∃ isTerminal, (queryId, sequence, isTerminal) ∈ acknowledged) ∧ ∀ isTerminal, (queryId, sequence, isTerminal) ∉ others

variable {results : List SentResult}

theorem SentResult.mem_items {result : SentResult} {item} (member : item ∈ result.items) :
    item.1 = result.queryId ∧ item.2.1 = result.sequence := by
  rcases mem_append.mp member with early | last
  · rw [eq_of_mem_replicate early]
    exact ⟨rfl, rfl⟩
  · rw [mem_singleton.mp last]
    exact ⟨rfl, rfl⟩

theorem exists_terminal {queryId sequence isTerminal}
    (member : (queryId, sequence, isTerminal) ∈ results.flatMap SentResult.items) :
    (queryId, sequence, true) ∈ results.flatMap SentResult.items := by
  obtain ⟨result, inside, listed⟩ := mem_flatMap.mp member
  obtain ⟨rfl, rfl⟩ := SentResult.mem_items listed
  exact mem_flatMap.mpr ⟨result, inside, mem_append_right _ (mem_singleton_self _)⟩

/-- Nothing of a result comes after its last item. -/
theorem nothing_after_terminal
    (rising : results.Pairwise fun earlier later => earlier.queryId = later.queryId → earlier.sequence < later.sequence) :
    (results.flatMap SentResult.items).Pairwise fun earlier later =>
      earlier.2.2 = true → ¬ (earlier.1 = later.1 ∧ earlier.2.1 = later.2.1) := by
  refine pairwise_flatMap.mpr ⟨fun result _ => ?_, rising.imp fun {earlier later} apart item member other otherMember _ same => ?_⟩
  · refine pairwise_append.mpr ⟨pairwise_replicate.mpr (.inr nofun), pairwise_singleton _ _, ?_⟩
    intro item early _ _ isTerminal
    rw [eq_of_mem_replicate early] at isTerminal
    cases isTerminal
  · obtain ⟨query, sequence⟩ := SentResult.mem_items member
    obtain ⟨otherQuery, otherSequence⟩ := SentResult.mem_items otherMember
    have below := apart (query.symm.trans (same.1.trans otherQuery))
    have equal := sequence.symm.trans (same.2.trans otherSequence)
    omega

theorem mem_terminals_iff
    (rising : results.Pairwise fun earlier later => earlier.queryId = later.queryId → earlier.sequence < later.sequence)
    {acknowledged others} (stream : results.flatMap SentResult.items = acknowledged ++ others) {queryId sequence} :
    sequence ∈ terminals queryId acknowledged ↔ Acknowledged queryId acknowledged others sequence := by
  have listed : sequence ∈ terminals queryId acknowledged ↔ (queryId, sequence, true) ∈ acknowledged := by
    simp [terminals]
  rw [listed]
  have order := nothing_after_terminal rising
  rw [stream, pairwise_append] at order
  constructor
  · intro terminal
    exact ⟨⟨true, terminal⟩, fun isTerminal later => order.2.2 _ terminal _ later rfl ⟨rfl, rfl⟩⟩
  · rintro ⟨⟨isTerminal, item⟩, none⟩
    have terminal : (queryId, sequence, true) ∈ results.flatMap SentResult.items :=
      exists_terminal (stream.symm ▸ mem_append_left others item)
    rw [stream] at terminal
    exact (mem_append.mp terminal).resolve_right (none true)

/-- **Checkpoints of batches.** When the items of results are acknowledged batch by batch, the checkpoint of a query is the
largest sequence all of whose items have been acknowledged, if that is above its first checkpoint, and else the first one.
With a store, and as long as no write is skipped, it is stored as soon as it has moved on from the first one. -/
theorem batch_checkpoints_exact
    (rising : results.Pairwise fun earlier later => earlier.queryId = later.queryId → earlier.sequence < later.sequence)
    (policy : ReactionRecoveryPolicy) (start : CheckpointSystem) (batches : List (List BatchItem × (String → Bool)))
    (others : List BatchItem) (stream : results.flatMap SentResult.items = batches.flatMap (·.1) ++ others) (queryId : String) :
    let after := batches.foldl (acknowledge policy) start
    (∀ sequence, IsGreatest { sequence | Acknowledged queryId (batches.flatMap (·.1)) others sequence} sequence →
      known after queryId = raised (known start queryId) sequence) ∧
    ((∀ sequence, ¬ Acknowledged queryId (batches.flatMap (·.1)) others sequence) →
      known after queryId = known start queryId) ∧
    (start.state.hasStore = true → (∀ batch ∈ batches, batch.2 queryId = true → policy ≠ .autoSkipGap) →
      after.store queryId =
        if known after queryId = known start queryId then start.store queryId else some (known after queryId)) := by
  intro after
  refine ⟨?_, ?_, fun hasStore keeps => ?_⟩
  · rintro sequence ⟨held, upper⟩
    rw [known_acknowledged]
    refine foldl_raised_greatest ((mem_terminals_iff rising stream).mpr held) (fun other member => upper ?_) _
    exact (mem_terminals_iff rising stream).mp member
  · intro none
    rw [known_acknowledged]
    refine foldl_raised_le fun sequence member => ?_
    exact absurd ((mem_terminals_iff rising stream).mp member) (none sequence)
  · have first : Persisted (known start queryId) (start.store queryId) queryId start := ⟨hasStore, .inl ⟨rfl, rfl⟩⟩
    rcases (first.acknowledged policy batches keeps).moved with ⟨same, stored⟩ | ⟨above, stored⟩
    · rw [if_pos same, stored]
    · rw [if_neg fun same => absurd (same ▸ above) (Nat.lt_irrefl _), stored]

section Samples

/-- A reaction that has stored a checkpoint of one query. -/
def storedAt : CheckpointSystem :=
  .start (Function.update (fun _ => none) "query" (some ⟨sequence, 1⟩)) (.load true)

def splitBatches : List (List BatchItem × (String → Bool)) :=
  [([("query", 6, false), ("query", 6, true), ("other", 2, true)], fun _ => false), ([("query", 7, false)], fun _ => false)]

/-- The second result of the query is acknowledged in part: the first one is checkpointed and stored. -/
theorem batch_checkpoints_exact_split :
    known (splitBatches.foldl (acknowledge .strict) (storedAt 5)) "query" = ⟨6, 1⟩ ∧
      (splitBatches.foldl (acknowledge .strict) (storedAt 5)).store "query" = some ⟨6, 1⟩ := by
  have rising : [(⟨"query", 6, 1⟩ : SentResult), ⟨"other", 2, 0⟩, ⟨"query", 7, 1⟩].Pairwise fun earlier later =>
      earlier.queryId = later.queryId → earlier.sequence < later.sequence := by
    simp
  have exact_ := batch_checkpoints_exact rising .strict (storedAt 5) splitBatches [("query", 7, true)] rfl "query"
  have checkpoint : known (splitBatches.foldl (acknowledge .strict) (storedAt 5)) "query" = ⟨6, 1⟩ := by
    refine (exact_.1 6 ?_).trans (by decide +kernel)
    simp [splitBatches, IsGreatest, Acknowledged, upperBounds]
    omega
  refine ⟨checkpoint, (exact_.2.2 rfl (by simp)).trans ?_⟩
  rw [checkpoint]
  decide +kernel

/-- A result below the first checkpoint is acknowledged, and the checkpoint stays. -/
theorem batch_checkpoints_keep_larger :
    IsGreatest { sequence | Acknowledged "query" [("query", 3, true)] [] sequence} 3 ∧
      known (acknowledge .strict (storedAt 5) ([("query", 3, true)], fun _ => false)) "query" = ⟨5, 1⟩ := by
  constructor
  · simp [IsGreatest, Acknowledged, upperBounds]
  · rw [known_acknowledge]
    decide +kernel

end Samples

end Streams

end DrasiCore.Proofs
