import DrasiCore.OutputLifecycle
import DrasiCore.Library.NumberedLog

/-! What the database keeps of a query's output is the tail of what was committed, and the memory of the process follows
one dispatch behind. -/

namespace DrasiCore.Proofs

open Library LiveRows DurableOutput List

section Rows

theorem view_empty : (∅ : LiveRows).view = .empty := rfl

variable (rows : LiveRows) (rowSignature : Signature)

theorem view_insert (data : QueryVariables) :
    view (rows.insert rowSignature data) = Function.update rows.view rowSignature (some data) := by
  funext other
  by_cases same : other = rowSignature
  · subst same
    simp [view]
  · simp [view, same]

theorem view_erase : view (rows.erase rowSignature) = Function.update rows.view rowSignature none := by
  funext other
  by_cases same : other = rowSignature
  · subst same
    simp [view]
  · simp [view, same]

theorem view_applyDiff (diff : ResultDiff) : (rows.applyDiff diff).view = rows.view.applyDiff diff := by
  cases diff <;> simp [applyDiff, LiveResults.applyDiff, view_insert, view_erase]

theorem view_applyDiffs (diffs : List ResultDiff) : (rows.applyDiffs diffs).view = rows.view.applyDiffs diffs := by
  unfold applyDiffs LiveResults.applyDiffs
  induction diffs generalizing rows with
  | nil => rfl
  | cons diff diffs ih => rw [foldl_cons, foldl_cons, ih, view_applyDiff]

theorem applyMutations_rowMutations (diffs : List ResultDiff) :
    rows.applyMutations (rowMutations diffs) = rows.applyDiffs diffs := by
  induction diffs generalizing rows with
  | nil => rfl
  | cons diff diffs ih =>
    rw [show rows.applyDiffs (diff :: diffs) = (rows.applyDiff diff).applyDiffs diffs from rfl, ← ih]
    cases diff <;> rfl

theorem view_insertAll (entries : List (Sigma fun _ : Signature => QueryVariables)) (rows : LiveRows)
    (distinct : entries.NodupKeys) (rowSignature : Signature) :
    view (entries.foldl (fun results row => results.insert row.1 row.2) rows) rowSignature =
      (entries.dlookup rowSignature).or (rows.view rowSignature) := by
  induction entries generalizing rows with
  | nil => rfl
  | cons entry entries ih =>
    obtain ⟨key, value⟩ := entry
    obtain ⟨absent, rest⟩ := nodupKeys_cons.mp distinct
    rw [foldl_cons, ih _ rest, view_insert]
    by_cases same : rowSignature = key
    · subst same
      simp [dlookup_eq_none.mpr absent]
    · simp [same, dlookup_cons_ne entries ⟨key, value⟩ same]

theorem view_readSnapshot : rows.readSnapshot.view = rows.view := by
  funext rowSignature
  unfold readSnapshot
  rw [view_insertAll rows.entries ∅ rows.nodupKeys, view_empty]
  exact Option.or_none

theorem applyMutations_entries :
    (∅ : LiveRows).applyMutations (rows.entries.map fun row => ⟨row.1, some row.2⟩) = rows.readSnapshot := by
  unfold applyMutations readSnapshot
  rw [foldl_map]

theorem entries_eq_nil_of_view {rows : LiveRows} (unseen : rows.view = .empty) : rows.entries = [] := by
  apply eq_nil_iff_forall_not_mem.mpr
  intro row member
  have found := AList.mem_lookup_iff.mpr (show (⟨row.1, row.2⟩ : Sigma _) ∈ rows.entries from member)
  exact absurd ((congrFun unseen row.1).symm.trans found) nofun

theorem mem_entries_insert {V : Type} {map : AList fun _ : String => V} {key value entry}
    (member : entry ∈ (map.insert key value).entries) : entry = ⟨key, value⟩ ∨ entry ∈ map.entries := by
  rw [AList.entries_insert] at member
  exact (mem_cons.mp member).imp_right fun older => (kerase_sublist _ _).subset older

theorem entries_insert_ne_nil {V : Type} (map : AList fun _ : String => V) (key : String) (value : V) :
    (map.insert key value).entries ≠ [] := by
  rw [AList.entries_insert]
  exact cons_ne_nil _ _

theorem eq_empty_of_entries {rows : LiveRows} (none : rows.entries = []) : rows = ∅ := AList.ext none

end Rows

section Reconcile

theorem sorted_range' (first count : Nat) : (range' first count).insertionSort (· ≤ ·) = range' first count :=
  ((pairwise_lt_range' 1).imp le_of_lt).insertionSort_eq

theorem consecutive_range' (first count : Nat) :
    ((range' first count).zip (range' first count).tail).any (fun window => window.2 ≠ window.1 + 1) = false := by
  rw [any_eq_false]
  intro window member
  obtain ⟨place, inside, rfl⟩ := getElem_of_mem member
  simp [getElem_zip]
  omega

theorem reconcile_window {first count stored} (liveRowCount : Nat) (positive : 0 < count) (begins : 0 < first)
    (ends : first + count = stored + 1) :
    reconcileDurableOutput (some stored) (range' first count) liveRowCount true = .ok stored := by
  have chain : ((range' first count).destutter (· ≠ ·)).length = (range' first count).length := by
    rw [destutter_of_isChain]
    exact (pairwise_lt_range' 1).isChain.imp fun _ _ below => below.ne
  have last : (range' first count).getLast? = some stored := by
    rw [getLast?_range', if_neg positive.ne']
    congr 1
    omega
  have nonzero : ¬ (stored = 0 ∧ (0 < liveRowCount ∨ (some stored).isSome = true)) := fun zero => by omega
  simp only [reconcileDurableOutput, Option.getD_some, sorted_range', last, chain, consecutive_range']
  rw [if_neg (by simp), if_neg (by simp), if_neg nonzero, if_neg (lt_irrefl _)]

theorem reconcile_empty {storedSequence} (zero : storedSequence.getD 0 = 0) :
    reconcileDurableOutput storedSequence [] 0 true = .ok 0 := by
  simp [reconcileDurableOutput, zero]

end Reconcile

variable {outbox : OrderedMap Nat QueryResult}

section Outbox

variable {results : List QueryResult} {gone : Nat}

def stored (results : List QueryResult) : List (Nat × QueryResult) := results.map fun result => (result.sequence, result)

theorem stored_append (results more : List QueryResult) : stored (results ++ more) = stored results ++ stored more :=
  map_append

section

variable (numbered : Numbered QueryResult.sequence results)
include numbered

theorem stored_below {entry} (member : entry ∈ stored (results.drop gone)) : entry.1 ≤ results.length := by
  obtain ⟨result, listed, rfl⟩ := mem_map.mp member
  have counted : result.sequence ∈ (results.drop gone).map QueryResult.sequence := mem_map_of_mem listed
  rw [numbered.drop, mem_range'_1] at counted
  omega

theorem stored_dropWhile (first : Nat) :
    (stored (results.drop gone)).dropWhile (fun entry => entry.1 < first) = stored (results.drop (max gone (first - 1))) := by
  unfold stored
  rw [dropWhile_map, ← numbered.dropWhile_below]
  rfl

theorem appendAndTrim_window (window : outbox.entries = stored (results.drop gone)) (inside : gone ≤ results.length)
    {result} (next : result.sequence = results.length + 1) (capacity : Nat) :
    (appendAndTrim outbox result.sequence result (result.sequence - capacity + 1)).entries =
      stored ((results ++ [result]).drop (max gone (results.length + 1 - capacity))) := by
  have beyond : ∀ entry ∈ outbox.entries, entry.1 < result.sequence := by
    intro entry member
    have below := stored_below numbered (window ▸ member)
    omega
  have appended : (outbox.insert result.sequence result).entries = stored ((results ++ [result]).drop gone) := by
    rw [drop_append_of_le_length inside, stored_append, ← window]
    exact insertEntry_last result beyond
  simp only [appendAndTrim, appended]
  rw [stored_dropWhile (numbered.append next), next]
  rfl

theorem numbers_stored : (stored (results.drop gone)).map (·.1) = range' (1 + gone) (results.length - gone) := by
  rw [stored, map_map, ← numbered.drop]
  rfl

theorem last_stored (inside : gone < results.length) :
    ((stored (results.drop gone)).map (·.1)).getLast? = some results.length := by
  rw [numbers_stored numbered, getLast?_range', if_neg (by omega)]
  congr 1
  omega

theorem readFrom_window {durable : DurableOutput} (window : durable.outbox.entries = stored (results.drop gone))
    (afterSequence : Nat) : durable.readFrom afterSequence = stored (results.drop (max gone afterSequence)) := by
  rw [DurableOutput.readFrom, window, ← Nat.add_sub_cancel afterSequence 1, ← stored_dropWhile numbered]
  simp only [Nat.add_sub_cancel, Nat.lt_succ_iff]

end

end Outbox

theorem rows_append (snapshot : LiveRows) (results : List QueryResult) (result : QueryResult) :
    CommittedOutput.rows ⟨snapshot, results ++ [result]⟩ =
      (CommittedOutput.rows ⟨snapshot, results⟩).applyDiffs result.results := foldl_concat ..

/-- The database holds the output that was committed: all its rows, its sequence, and the last results. -/
structure Recorded (durable : DurableOutput) (committed : CommittedOutput) : Prop where
  numbered : Numbered QueryResult.sequence committed.results
  sequence : durable.resultSequence.getD 0 = committed.results.length
  rows : durable.liveRows.view = committed.rows.view
  window : ∃ gone ≤ committed.results.length - 1, durable.outbox.entries = stored (committed.results.drop gone)
  positioned : ∀ checkpoint ∈ durable.checkpoints.entries, 0 < checkpoint.2.sequence ∨ checkpoint.2.sourcePosition.isSome
  /-- Rows without a numbered result come from a bootstrap, which left its checkpoints. -/
  unnumbered : committed.results = [] →
    durable.liveRows.entries = [] ∨ durable.resultSequence = some 0 ∧ durable.checkpoints.entries ≠ []

/-- The memory shows what the database holds, up to the times of dispatch. -/
structure InStep (memory : QueryOutputState) (durable : DurableOutput) : Prop where
  rows : memory.results.view = durable.liveRows.view
  sequence : memory.asOfSequence = durable.resultSequence.getD 0
  outbox : memory.outbox.map QueryResult.withoutProfiling =
    (durable.outbox.values.rtake memory.outboxCapacity).map QueryResult.withoutProfiling
  capacity : 0 < memory.outboxCapacity

theorem values_of_window {results} (window : outbox.entries = stored results) : outbox.values = results := by
  rw [OrderedMap.values, window, stored, map_map]
  exact map_id results

namespace Recorded

variable {durable : DurableOutput} {committed : CommittedOutput}

theorem fresh : Recorded .fresh ⟨∅, []⟩ where
  numbered := numbered_nil
  sequence := rfl
  rows := rfl
  window := ⟨0, le_refl _, rfl⟩
  positioned := fun _ member => nomatch member
  unnumbered := fun _ => .inl rfl

section

variable (recorded : Recorded durable committed)
include recorded

/-- A load of the recorded output succeeds, with the last results that are both retained and within the capacity. -/
theorem load {capacity} (positive : 0 < capacity) :
    durable.loadDurableOutput capacity = .ok (durable.liveRows.readSnapshot, durable.outbox.values.rtake capacity,
      committed.results.length, durable.outputGeneration.getD 0) := by
  obtain ⟨gone, inside, window⟩ := recorded.window
  have values := values_of_window window
  by_cases none : committed.results = []
  · have sequence := recorded.sequence
    have outbox : durable.outbox.entries = [] := by rw [window, none, drop_nil]; rfl
    rw [none, drop_nil] at values
    rw [none, length_nil] at sequence
    simp only [loadDurableOutput, readLatestSequence, outbox, getLast?_nil, Option.map_none,
      Option.elim_none, map_nil, values, none, length_nil, rtake_nil]
    split
    · rfl
    · next incomplete =>
      have rows : durable.liveRows.entries = [] := by
        apply (recorded.unnumbered none).resolve_right
        intro ⟨zero, checkpoints⟩
        apply incomplete
        simp only [completedSnapshot, zero, isEmpty_nil, Bool.and_eq_true, all_eq_true]
        refine ⟨by simpa using checkpoints, fun checkpoint member => ?_⟩
        simpa using recorded.positioned checkpoint member
      rw [rows, length_nil, reconcile_empty sequence]
      rfl
  · have positiveLength : 0 < committed.results.length := length_pos_iff.mpr none
    have begins : gone < committed.results.length := by omega
    have latest : durable.readLatestSequence = some committed.results.length := by
      rw [readLatestSequence, ← getLast?_map, window]
      exact last_stored recorded.numbered begins
    have sequence : durable.resultSequence = some committed.results.length := by
      have known := recorded.sequence
      cases found : durable.resultSequence with
      | none => simp only [found, Option.getD_none] at known; omega
      | some number => simp only [found, Option.getD_some] at known; rw [known]
    have read := readFrom_window recorded.numbered window (committed.results.length - capacity)
    rw [values, rtake_drop]
    have kept : max gone (committed.results.length - capacity) < committed.results.length := by omega
    generalize max gone (committed.results.length - capacity) = first at read kept ⊢
    have last := last_stored recorded.numbered kept
    have unfinished : durable.completedSnapshot ((stored (committed.results.drop first)).map (·.1)) = false := by
      rw [completedSnapshot, sequence]
      simp [positiveLength.ne']
    have reconciled : reconcileDurableOutput (some committed.results.length) ((stored (committed.results.drop first)).map (·.1))
        durable.liveRows.entries.length true = .ok committed.results.length := by
      rw [numbers_stored recorded.numbered]
      exact reconcile_window _ (by omega) (by omega) (by omega)
    simp only [loadDurableOutput, latest, Option.elim_some, read, last, if_true, unfinished, Bool.false_eq_true,
      if_false, sequence, reconciled]
    simp only [Except.map, stored, map_map]
    rw [show (fun entry : Nat × QueryResult => { entry.2 with sequence := entry.1 }) ∘
      (fun result : QueryResult => (result.sequence, result)) = id from rfl, map_id]

/-- A new process gets the committed rows and sequence and the results that are retained and fit its capacity. -/
theorem restart (capacity : Nat) :
    durable.restart capacity = .ok { QueryOutputState.new capacity with
      results := durable.liveRows.readSnapshot
      outbox := durable.outbox.values.rtake (QueryOutputState.new capacity).outboxCapacity
      asOfSequence := committed.results.length
      generation := durable.outputGeneration.getD 0
      initialized := true } := by
  have positive : 0 < (QueryOutputState.new capacity).outboxCapacity := by simp [QueryOutputState.new]
  obtain ⟨gone, _, window⟩ := recorded.window
  have sorted : (durable.outbox.values.rtake (QueryOutputState.new capacity).outboxCapacity).Pairwise
      fun one two => one.sequence ≤ two.sequence := by
    rw [values_of_window window, rtake_drop, ← pairwise_map, recorded.numbered.drop]
    exact (pairwise_lt_range' 1).imp le_of_lt
  have fits : (durable.outbox.values.rtake (QueryOutputState.new capacity).outboxCapacity).length ≤
      (QueryOutputState.new capacity).outboxCapacity := by
    rw [rtake_eq_drop, length_drop]
    omega
  rw [DurableOutput.restart, recorded.load positive]
  simp only [Except.map, QueryOutputState.hydrate]
  rw [sorted.insertionSort_eq, if_neg fits.not_gt]
  simp [QueryOutputState.new]

theorem stageCheckpoint (sourceId : String) {checkpoint : SourceCheckpoint} (positive : 0 < checkpoint.sequence) :
    Recorded (durable.stageCheckpoint sourceId checkpoint) committed where
  numbered := recorded.numbered
  sequence := recorded.sequence
  rows := recorded.rows
  window := recorded.window
  positioned := by
    intro entry member
    rcases mem_entries_insert member with rfl | older
    · exact .inl positive
    · exact recorded.positioned entry older
  unnumbered := fun none => (recorded.unnumbered none).imp_right fun ⟨zero, _⟩ => ⟨zero, entries_insert_ne_nil _ _ _⟩

theorem stage {state} (follows : state.asOfSequence = committed.results.length) (positive : 0 < state.outboxCapacity)
    {diffs sourceId queryId now profiling staged after}
    (stages : durable.stageDurableQueryOutput state diffs sourceId queryId now profiling = (staged, after)) :
    Recorded after { committed with results := committed.results ++ staged.toList } := by
  unfold DurableOutput.stageDurableQueryOutput at stages
  split at stages
  · cases stages
    simpa using recorded
  · obtain ⟨gone, inside, window⟩ := recorded.window
    simp only [Prod.mk.injEq] at stages
    obtain ⟨rfl, rfl⟩ := stages
    generalize result : QueryResult.mk queryId _ now diffs _ profiling = staged
    have next : staged.sequence = committed.results.length + 1 := by rw [← result, ← follows]
    have trimmed := appendAndTrim_window recorded.numbered window (by omega) next state.outboxCapacity
    rw [← result] at trimmed ⊢
    exact {
      numbered := recorded.numbered.append (by rw [follows])
      sequence := by simp [follows]
      rows := by
        simp only [Option.toList_some]
        rw [rows_append, applyMutations_rowMutations, view_applyDiffs, view_applyDiffs, recorded.rows]
      window := ⟨max gone (committed.results.length + 1 - state.outboxCapacity), by simp; omega, trimmed⟩
      positioned := recorded.positioned
      unnumbered := fun none => absurd none (by simp) }

end

end Recorded

end DrasiCore.Proofs
