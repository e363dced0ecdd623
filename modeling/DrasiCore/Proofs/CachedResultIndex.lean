import DrasiCore.CachedResultIndex
import DrasiCore.Library.SortedBag
import DrasiCore.Library.StepFaults

/-! What the cached result index answers, against the index behind it. The accumulator cache never differs from that index;
the cache of counts does after an increment of a count it did not know, or of one the index refused. -/

namespace DrasiCore

open Library CachedResultIndex LawfulResultIndex

theorem getD_recount (set : OrderedMap Rat Int) (value other : Rat) (count : Int) :
    ((if count = 0 then set.erase value else set.insert value count).get? other).getD 0 =
      if other = value then count else (set.get? other).getD 0 := by
  by_cases same : other = value <;> by_cases gone : count = 0
  · simp [gone, same, OrderedMap.get?_erase]
  · simp [gone, same]
  · simp [gone, same, OrderedMap.get?_erase]
  · simp [gone, same, OrderedMap.get?_insert_of_ne]

instance : LawfulResultIndex Rat InMemoryResultIndex where
  get_set _ _ _ _ _ _ := rfl
  count_set _ _ _ _ _ _ := rfl
  get_increment index setId value delta key owner := by
    simp only [ResultIndex.incrementValueCount, InMemoryResultIndex.incrementValueCount]
    split
    · rfl
    · split <;> rfl
  count_increment index setId value delta otherId other := by
    simp only [ResultIndex.incrementValueCount, InMemoryResultIndex.incrementValueCount, ResultIndex.getValueCount]
    split
    case isTrue none =>
      split
      case isTrue same => simp [same, none]
      case isFalse => rfl
    case isFalse =>
      -- reported or not, the set changes in the same way
      have changed : ∀ error : EvaluationError, ∀ next : InMemoryResultIndex, ∀ below : Prop, ∀ _ : Decidable below,
          (if below then ((.error error, next) : Except EvaluationError Unit × InMemoryResultIndex) else (.ok (), next)).2 =
            next := by
        intro error next below _
        split <;> rfl
      rw [changed]
      by_cases ownSet : otherId = setId
      · subst ownSet
        simp only [InMemoryResultIndex.getValueCount, if_true, true_and]
        exact getD_recount _ _ _ _
      · simp [InMemoryResultIndex.getValueCount, ownSet]
  get_clear _ _ _ := rfl
  count_clear _ _ _ := rfl

namespace Proofs

variable {Value Index : Type} [DecidableEq Value] [ResultIndex Value Index] 

/-- The accumulators of an index, by the keys of the cache. -/
def heldValues (index : Index) (key : ResultOwner × ResultKey) : Option ValueAccumulator :=
  ResultIndex.get index key.2 key.1

def heldCounts (index : Index) (key : SortedSetId × Value) : Option Int :=
  some (ResultIndex.getValueCount index key.1 key.2)

section Held

variable [LawfulResultIndex Value Index] (index : Index)

theorem heldValues_set (key : ResultKey) (owner : ResultOwner) (value : Option ValueAccumulator) :
    heldValues (ResultIndex.set index key owner value) = Function.update (heldValues index) (owner, key) value := by
  funext ⟨otherOwner, other⟩
  simp only [heldValues, get_set, Function.update_apply, Prod.mk.injEq]

theorem heldCounts_set (key : ResultKey) (owner : ResultOwner) (value : Option ValueAccumulator) :
    heldCounts (ResultIndex.set index key owner value) = heldCounts index := by
  funext counted
  simp only [heldCounts, count_set]

theorem heldValues_increment (setId : SortedSetId) (value : Value) (delta : Int) :
    heldValues (ResultIndex.incrementValueCount index setId value delta).2 = heldValues index := by
  funext key
  simp only [heldValues, get_increment]

theorem heldCounts_increment (setId : SortedSetId) (value : Value) (delta : Int) :
    heldCounts (ResultIndex.incrementValueCount index setId value delta).2 =
      Function.update (heldCounts index) (setId, value) (some (ResultIndex.getValueCount index setId value + delta)) := by
  funext ⟨otherId, other⟩
  simp only [heldCounts, count_increment, Function.update_apply, Prod.mk.injEq]
  split <;> rfl

end Held

/-- Both caches have only what the index behind them has. -/
structure CoherentCaches (index : CachedResultIndex Value Index) : Prop where
  values : index.valueCache.Agrees (heldValues index.inner)
  counts : index.setCountCache.Agrees (heldCounts index.inner)

variable (index : CachedResultIndex Value Index)

/-- Whatever is called next, the answer is that of the inner index. -/
def AnswersAsInner : Prop :=
  ∀ call, (index.perform call).1 = (ResultIndex.perform index.inner call).1

/-- An increment after which the cache has a count which is not that of the inner index: the count was not cached and not
zero, or it was cached and the inner index changes it while reporting an error. -/
def Miscounts : ResultCall Value → Prop
  | .incrementValueCount setId value delta =>
    if index.setCountCache.peek (setId, value) = none then
      ¬ ResultIndex.Refuses index.inner setId value delta ∧ ResultIndex.getValueCount index.inner setId value ≠ 0
    else ResultIndex.Refuses index.inner setId value delta ∧ delta ≠ 0
  | _ => False

section Calls

variable (index : CachedResultIndex Value Index)

theorem get_eq (key : ResultKey) (owner : ResultOwner) :
    (index.get key owner).1 = (index.valueCache.peek (owner, key)).or (ResultIndex.get index.inner key owner) := by
  have looked := Lru.get_fst index.valueCache (owner, key)
  unfold CachedResultIndex.get
  split
  case h_1 value cache found => simp [← looked, found]
  case h_2 cache found =>
    split
    case h_1 value held => simp [← looked, found, held]
    case h_2 absent => simp [← looked, found, absent]

theorem getValueCount_eq (setId : SortedSetId) (value : Value) :
    (index.getValueCount setId value).1 =
      (index.setCountCache.peek (setId, value)).getD (ResultIndex.getValueCount index.inner setId value) := by
  have looked := Lru.get_fst index.setCountCache (setId, value)
  unfold CachedResultIndex.getValueCount
  split
  case h_1 count cache found => simp [← looked, found]
  case h_2 cache found => simp [← looked, found]

theorem incrementValueCount_fst (setId : SortedSetId) (value : Value) (delta : Int) :
    (index.incrementValueCount setId value delta).1 = (ResultIndex.incrementValueCount index.inner setId value delta).1 := by
  unfold CachedResultIndex.incrementValueCount
  split
  case h_1 refused => simp [refused]
  case h_2 done => simp [done]

theorem inner_perform (call : ResultCall Value) :
    (index.perform call).2.inner = (ResultIndex.perform index.inner call).2 := by
  cases call with
  | get key owner =>
    simp only [CachedResultIndex.perform, CachedResultIndex.get, ResultIndex.perform]
    split
    · rfl
    · split <;> rfl
  | set key owner value => cases value <;> rfl
  | getNext setId after => rfl
  | getValueCount setId value =>
    simp only [CachedResultIndex.perform, CachedResultIndex.getValueCount, ResultIndex.perform]
    split <;> rfl
  | incrementValueCount setId value delta =>
    simp only [CachedResultIndex.perform, CachedResultIndex.incrementValueCount, ResultIndex.perform]
    split
    case h_1 refused => simp [refused]
    case h_2 done => simp [done]
  | clear => rfl

theorem inner_performAll (calls : List (ResultCall Value)) :
    (index.performAll calls).inner = ResultIndex.performAll index.inner calls := by
  induction calls generalizing index with
  | nil => rfl
  | cons call calls ih => exact (ih _).trans (congrArg (ResultIndex.performAll · calls) (inner_perform index call))

end Calls

namespace CoherentCaches

variable {index : CachedResultIndex Value Index}

theorem new (inner : Index) (cacheSize : Nat) : CoherentCaches (new inner cacheSize) :=
  ⟨.new cacheSize, .new cacheSize⟩

section

variable (coherent : CoherentCaches index)
include coherent

theorem count_of_peek {setId value count} (cached : index.setCountCache.peek (setId, value) = some count) :
    ResultIndex.getValueCount index.inner setId value = count :=
  Option.some.inj (coherent.counts _ _ cached)

theorem answersAsInner : AnswersAsInner index := by
  intro call
  cases call with
  | get key owner =>
    simp only [CachedResultIndex.perform, ResultIndex.perform, get_eq]
    cases cached : index.valueCache.peek (owner, key) with
    | none => rfl
    | some value => exact congrArg ResultAnswer.accumulator (coherent.values _ _ cached).symm
  | getValueCount setId value =>
    simp only [CachedResultIndex.perform, ResultIndex.perform, getValueCount_eq]
    cases cached : index.setCountCache.peek (setId, value) with
    | none => rfl
    | some count => exact congrArg ResultAnswer.count (coherent.count_of_peek cached).symm
  | incrementValueCount setId value delta =>
    exact congrArg ResultAnswer.done (incrementValueCount_fst index setId value delta)
  | _ => rfl

theorem get (key : ResultKey) (owner : ResultOwner) : CoherentCaches (index.get key owner).2 := by
  have looked := coherent.values.get (owner, key)
  unfold CachedResultIndex.get
  split
  case h_1 value cache found =>
    rw [found] at looked
    exact ⟨looked, coherent.counts⟩
  case h_2 cache found =>
    rw [found] at looked
    split
    case h_1 value held => exact ⟨looked.put held, coherent.counts⟩
    case h_2 => exact ⟨looked, coherent.counts⟩

theorem getValueCount (setId : SortedSetId) (value : Value) : CoherentCaches (index.getValueCount setId value).2 := by
  have looked := coherent.counts.get (setId, value)
  unfold CachedResultIndex.getValueCount
  split
  case h_1 count cache found =>
    rw [found] at looked
    exact ⟨coherent.values, looked⟩
  case h_2 cache found =>
    rw [found] at looked
    exact ⟨coherent.values, looked.put rfl⟩

end

variable [LawfulResultIndex Value Index] {call : ResultCall Value}

section

variable (coherent : CoherentCaches index)
include coherent

theorem set (key : ResultKey) (owner : ResultOwner) (value : Option ValueAccumulator) :
    CoherentCaches (index.set key owner value) := by
  have counts : index.setCountCache.Agrees (heldCounts (ResultIndex.set index.inner key owner value)) := by
    rw [heldCounts_set]
    exact coherent.counts
  cases value with
  | none =>
    refine ⟨?_, counts⟩
    simp only [CachedResultIndex.set, heldValues_set]
    exact coherent.values.remove_update _ _
  | some value =>
    refine ⟨?_, counts⟩
    simp only [CachedResultIndex.set, heldValues_set]
    exact coherent.values.put_update _ _

theorem incrementValueCount {setId value delta} (right : ¬ Miscounts index (.incrementValueCount setId value delta)) :
    CoherentCaches (index.incrementValueCount setId value delta).2 := by
  have values := heldValues_increment index.inner setId value delta
  have counts := heldCounts_increment index.inner setId value delta
  have looked := coherent.counts.get (setId, value)
  have peeked := Lru.get_fst index.setCountCache (setId, value)
  unfold CachedResultIndex.incrementValueCount
  split
  case h_1 error inner refused =>
    rw [refused] at values counts
    have refuses : ResultIndex.Refuses index.inner setId value delta := ⟨error, by rw [refused]⟩
    refine ⟨values ▸ coherent.values, ?_⟩
    simp only [counts]
    cases cached : index.setCountCache.peek (setId, value) with
    | none =>
      intro other count there
      have different : other ≠ (setId, value) := by
        rintro rfl
        exact nomatch cached.symm.trans there
      rw [Function.update_of_ne different]
      exact coherent.counts other count there
    | some count =>
      have none : delta = 0 := by
        by_contra change
        exact right (by simp [Miscounts, cached, refuses, change])
      have same : Function.update (heldCounts index.inner) (setId, value)
          (some (ResultIndex.getValueCount index.inner setId value + delta)) = heldCounts index.inner := by
        rw [none, Int.add_zero]
        exact Function.update_eq_self _ _
      rw [same]
      exact coherent.counts
  case h_2 inner done =>
    rw [done] at values counts
    refine ⟨values ▸ coherent.values, ?_⟩
    have accepts : ¬ ResultIndex.Refuses index.inner setId value delta := by
      rintro ⟨error, refused⟩
      exact nomatch (congrArg Prod.fst done).symm.trans refused
    simp only [counts]
    split
    case h_1 cache found =>
      rw [found] at looked peeked
      have zero : ResultIndex.getValueCount index.inner setId value = 0 := by
        by_contra some
        exact right (by simp [Miscounts, ← peeked, accepts, some])
      rw [zero, Int.zero_add]
      exact looked.put_update _ _
    case h_2 count cache found =>
      rw [found] at looked peeked
      rw [coherent.count_of_peek peeked.symm]
      exact looked.put_update _ _

theorem perform (right : ¬ Miscounts index call) : CoherentCaches (index.perform call).2 := by
  cases call with
  | get key owner => exact coherent.get key owner
  | set key owner value => exact coherent.set key owner value
  | getNext setId after => exact coherent
  | getValueCount setId value => exact coherent.getValueCount setId value
  | incrementValueCount setId value delta => exact coherent.incrementValueCount right
  | clear => exact ⟨.purge, .purge⟩

/-- After an increment that miscounts, asking for the count gives another answer. -/
theorem not_answersAsInner (wrong : Miscounts index call) : ¬ AnswersAsInner (index.perform call).2 := by
  intro answers
  cases call with
  | incrementValueCount setId value delta =>
    have asked := ResultAnswer.count.inj (answers (.getValueCount setId value))
    rw [getValueCount_eq, inner_perform] at asked
    have counted := count_increment index.inner setId value delta setId value
    rw [if_pos ⟨rfl, rfl⟩] at counted
    simp only [ResultIndex.perform, counted] at asked
    have peeked := Lru.get_fst index.setCountCache (setId, value)
    simp only [CachedResultIndex.perform, CachedResultIndex.incrementValueCount] at asked
    cases cached : index.setCountCache.peek (setId, value) with
    | none =>
      obtain ⟨accepts, some⟩ : ¬ ResultIndex.Refuses index.inner setId value delta ∧
          ResultIndex.getValueCount index.inner setId value ≠ 0 := by simpa [Miscounts, cached] using wrong
      split at asked
      case h_1 error inner refused => exact accepts ⟨error, by rw [refused]⟩
      case h_2 inner done =>
        split at asked
        case h_1 cache found =>
          rw [Lru.peek_put_self, Option.getD_some] at asked
          omega
        case h_2 count cache found =>
          rw [found, cached] at peeked
          cases peeked
    | some count =>
      obtain ⟨refuses, change⟩ : ResultIndex.Refuses index.inner setId value delta ∧ delta ≠ 0 := by
        simpa [Miscounts, cached] using wrong
      have before := coherent.count_of_peek cached
      split at asked
      case h_1 error inner refused =>
        rw [cached, Option.getD_some] at asked
        omega
      case h_2 inner done =>
        obtain ⟨error, refused⟩ := refuses
        exact nomatch (congrArg Prod.fst done).symm.trans refused
  | _ => exact wrong

end

end CoherentCaches

/-- After every beginning of the calls, each further call through the wrapper is answered as the inner index alone answers
it after the same calls. -/
def Transparent (inner : Index) (cacheSize : Nat) (calls : List (ResultCall Value)) : Prop :=
  ∀ before after, calls = before ++ after → ∀ next,
    (((new inner cacheSize).performAll before).perform next).1 =
      (ResultIndex.perform (ResultIndex.performAll inner before) next).1

/-- **The cached result index is transparent** just for the calls without an increment that miscounts. -/
theorem cached_result_index_transparent_iff [LawfulResultIndex Value Index] (inner : Index) (cacheSize : Nat)
    (calls : List (ResultCall Value)) :
    Transparent inner cacheSize calls ↔
      ∀ before call after, calls = before ++ call :: after →
        ¬ Miscounts ((new inner cacheSize).performAll before) call := by
  let step := fun (index : CachedResultIndex Value Index) call => (index.perform call).2
  have faults : HoldsThroughout step AnswersAsInner (.new inner cacheSize) calls ↔
      NoFault step Miscounts (.new inner cacheSize) calls :=
    holdsThroughout_iff_noFault (fun _ coherent => coherent.answersAsInner) (fun _ _ coherent right => coherent.perform right)
      (fun _ _ coherent wrong => coherent.not_answersAsInner wrong) (CoherentCaches.new inner cacheSize)
  refine Iff.trans ?_ faults
  have same (before : List (ResultCall Value)) (next : ResultCall Value) :
      (ResultIndex.perform (ResultIndex.performAll inner before) next).1 =
        (ResultIndex.perform ((new inner cacheSize).performAll before).inner next).1 := by
    rw [inner_performAll]
    rfl
  constructor
  · intro transparent before after split next
    exact (transparent before after split next).trans (same before next)
  · intro answers before after split next
    exact (answers before after split next).trans (same before next).symm

/-- A value is counted twice, forgotten for another one, asked for again and taken back once, over the in-memory index. -/
theorem cached_result_index_transparent_recount :
    Transparent InMemoryResultIndex.empty 1 [.incrementValueCount ⟨0, []⟩ (1 : Rat) 2, .getValueCount ⟨0, []⟩ 2,
      .getValueCount ⟨0, []⟩ 1, .incrementValueCount ⟨0, []⟩ 1 (-1)] := by
  refine (cached_result_index_transparent_iff _ _ _).mpr ?_
  change NoFault (fun index call => (CachedResultIndex.perform index call).2) Miscounts _ _
  refine eachStep_cons.mpr ⟨?_, eachStep_cons.mpr ⟨id, eachStep_cons.mpr ⟨id, eachStep_cons.mpr ⟨?_, eachStep_nil⟩⟩⟩⟩
  · rintro ⟨_, some⟩
    exact some rfl
  · rintro ⟨⟨error, refused⟩, _⟩
    exact nomatch refused

/-- With room for one count, a value counted again after another one was asked for shows one instead of two. -/
theorem increment_on_miss_miscounts :
    ¬ ∀ (inner : InMemoryResultIndex) (cacheSize : Nat) (calls : List (ResultCall Rat)), 1 ≤ cacheSize →
      Transparent inner cacheSize calls := by
  intro transparent
  have asked := transparent .empty 1 [.incrementValueCount ⟨0, []⟩ 1 1, .getValueCount ⟨0, []⟩ 2,
    .incrementValueCount ⟨0, []⟩ 1 1] (Nat.le_refl 1) _ [] (List.append_nil _).symm (.getValueCount ⟨0, []⟩ 1)
  revert asked
  decide +kernel

end Proofs

end DrasiCore
