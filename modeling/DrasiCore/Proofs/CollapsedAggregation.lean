import DrasiCore.ContinuousQuery

/-! The changes of groups that one source change makes are collapsed to one for each group, which goes from what the group
was before the first of them to what it is after the last. -/

namespace DrasiCore.CollapsedAggregation

open Library List

structure AggregationChange where
  before : Option QueryVariables
  after : QueryVariables
  groupingKeys : List String
  defaultBefore : Bool
  defaultAfter : Bool
  rowSignature : Signature

namespace AggregationChange

variable (change : AggregationChange)

def toContext : QueryPartEvaluationContext :=
  .aggregation change.before change.after change.groupingKeys change.defaultBefore change.defaultAfter change.rowSignature

def afterKey : Signature := extractGroupingValueHash change.groupingKeys change.after

def beforeKey : Signature := change.before.elim change.afterKey (extractGroupingValueHash change.groupingKeys)

def groupingValues : List (Option VariableValue) := change.groupingKeys.map change.after.get?

end AggregationChange

open AggregationChange

def equalValues : List (Option VariableValue) → List (Option VariableValue) → Bool
  | [], [] => true
  | none :: lefts, none :: rights => equalValues lefts rights
  | some left :: lefts, some right :: rights => left.eqForGroupby right && equalValues lefts rights
  | _, _ => false

/-- The keys of the group are equal as grouping keys. -/
def sameGroup (left right : AggregationChange) : Bool := equalValues left.groupingValues right.groupingValues

/-- What a group was before `first` and is after `last`. -/
def upTo (first last : AggregationChange) : AggregationChange :=
  { last with before := first.before, defaultBefore := first.defaultBefore, rowSignature := last.afterKey }

/-- Put the row of a group in the place of the one it had. -/
def replaceRow (rows : Signature → Option QueryVariables) : QueryPartEvaluationContext → Signature → Option QueryVariables
  | .aggregation _ row groupingKeys _ _ _ => Function.update rows (extractGroupingValueHash groupingKeys row) (some row)
  | _ => rows

theorem equalValues_iff (lefts rights : List (Option VariableValue)) : equalValues lefts rights = true ↔
    lefts.map (Option.map VariableValue.groupingIdentity) = rights.map (Option.map VariableValue.groupingIdentity) := by
  fun_induction equalValues with
  | case1 => simp
  | case2 lefts rights ih => simp [ih]
  | case3 left lefts right rights ih => simp [ih, VariableValue.eqForGroupby_iff]
  | case4 lefts rights neither missing present =>
    refine iff_of_false Bool.noConfusion fun same => ?_
    cases lefts with
    | nil => exact neither rfl (map_eq_nil_iff.mp same.symm)
    | cons left lefts =>
      obtain ⟨right, rights, rfl⟩ := exists_cons_of_ne_nil fun empty : rights = [] => by simp [empty] at same
      cases left <;> cases right
      · exact missing _ _ rfl rfl
      · simp at same
      · simp at same
      · exact present _ _ _ _ rfl rfl

theorem sameGroup_iff (left right : AggregationChange) : sameGroup left right = true ↔ right.afterKey = left.afterKey := by
  simp only [sameGroup, equalValues_iff, afterKey, extractGroupingValueHash, Signature.grouping.injEq, groupingValues, map_map]
  exact eq_comm

def collapse (changes : List AggregationChange) : CollapsedAggregationResults :=
  (changes.map toContext).foldl .insert ∅

variable (changes : List AggregationChange) (key : Signature)

def ofGroup : List AggregationChange := changes.filter (·.afterKey = key)

section

variable (data : CollapsedAggregationResults) (change : AggregationChange)

theorem lookup_insert_new (absent : data.lookup change.afterKey = none) :
    (data.insert change.toContext).lookup change.afterKey = some ((upTo change change).toContext, change.beforeKey) := by
  unfold afterKey at absent
  unfold toContext CollapsedAggregationResults.insert
  simp only [absent]
  exact AList.lookup_insert data

theorem lookup_insert_again {first last earlierKey}
    (present : data.lookup change.afterKey = some ((upTo first last).toContext, earlierKey)) :
    (data.insert change.toContext).lookup change.afterKey = some ((upTo first change).toContext, earlierKey) := by
  unfold afterKey toContext at present
  unfold toContext CollapsedAggregationResults.insert
  simp only [present]
  exact AList.lookup_insert data

variable {key} in
theorem lookup_insert_other (other : key ≠ change.afterKey) :
    (data.insert change.toContext).lookup key = data.lookup key := by
  unfold toContext CollapsedAggregationResults.insert
  dsimp only
  split
  · exact AList.lookup_insert_ne other
  · exact AList.lookup_erase_ne other
  · exact AList.lookup_insert_ne other

end

theorem lookup_collapse : (collapse changes).lookup key = (ofGroup changes key).head?.bind fun first =>
    (ofGroup changes key).getLast?.map fun last => ((upTo first last).toContext, first.beforeKey) := by
  induction changes using reverseRecOn with
  | nil => rfl
  | append_singleton changes change ih =>
    have step : collapse (changes ++ [change]) = (collapse changes).insert change.toContext := by
      rw [collapse, map_append, foldl_append]
      rfl
    have grouped : ofGroup (changes ++ [change]) key = ofGroup changes key ++ if change.afterKey = key then [change] else [] := by
      rw [ofGroup, filter_append, filter_singleton, Bool.cond_decide]
      rfl
    rw [step, grouped]
    split
    · next same =>
      subst same
      rw [getLast?_concat]
      cases here : ofGroup changes change.afterKey with
      | nil =>
        rw [here] at ih
        exact lookup_insert_new _ _ ih
      | cons first rest =>
        rw [here, getLast?_cons] at ih
        exact lookup_insert_again _ _ ih
    · next other => rw [append_nil, lookup_insert_other _ _ (Ne.symm other), ih]

theorem toContext_injective : Function.Injective toContext := by
  intro left right same
  cases left
  cases right
  cases same
  rfl

/-- The group of `key` is changed, for the first time by `first` and for the last by `last`. -/
structure IsNet (first last : AggregationChange) : Prop where
  isFirst : (ofGroup changes key).head? = some first
  isLast : (ofGroup changes key).getLast? = some last

variable {changes key}

theorem IsNet.afterKey {first last} (net : IsNet changes key first last) : last.afterKey = key :=
  of_decide_eq_true (mem_filter.mp (mem_of_getLast? net.isLast)).2

theorem mem_entries_iff {value} : ⟨key, value⟩ ∈ (collapse changes).entries ↔
    ∃ first last, IsNet changes key first last ∧ value = ((upTo first last).toContext, first.beforeKey) := by
  rw [← AList.mem_lookup_iff, lookup_collapse, Option.mem_def, Option.bind_eq_some_iff]
  constructor
  · rintro ⟨first, isFirst, found⟩
    obtain ⟨last, isLast, same⟩ := Option.map_eq_some_iff.mp found
    exact ⟨first, last, ⟨isFirst, isLast⟩, same.symm⟩
  · rintro ⟨first, last, net, rfl⟩
    exact ⟨first, net.isFirst, Option.map_eq_some_iff.mpr ⟨last, net.isLast, rfl⟩⟩

variable (order : IterationOrder)

variable (changes) in
theorem intoResultVec_eq : (collapse changes).intoResultVec order = (order.arrange [] (collapse changes).entries).map (·.2.1) := by
  refine map_congr_left fun entry member => ?_
  obtain ⟨first, last, net, isValue⟩ := mem_entries_iff.mp ((order.mem_arrange [] _ entry).mp member)
  rw [isValue, ← net.afterKey]
  rfl

theorem mem_intoResultVec {context} : context ∈ (collapse changes).intoResultVec order ↔
    ∃ key first last, IsNet changes key first last ∧ context = (upTo first last).toContext := by
  rw [intoResultVec_eq, mem_map]
  constructor
  · rintro ⟨⟨key, _⟩, member, rfl⟩
    obtain ⟨first, last, net, rfl⟩ := mem_entries_iff.mp ((order.mem_arrange [] _ _).mp member)
    exact ⟨key, first, last, net, rfl⟩
  · rintro ⟨key, first, last, net, rfl⟩
    exact ⟨⟨key, _⟩, (order.mem_arrange [] _ _).mpr (mem_entries_iff.mpr ⟨first, last, net, rfl⟩), rfl⟩

variable (changes) in
theorem nodup_intoResultVec : ((collapse changes).intoResultVec order).Nodup := by
  have keys : (order.arrange [] (collapse changes).entries).Pairwise fun left right => left.1 ≠ right.1 :=
    ((order.perm [] _).pairwise_iff fun different => Ne.symm different).mpr (nodupKeys_iff_pairwise.mp (collapse changes).nodupKeys)
  rw [intoResultVec_eq, Nodup, pairwise_map]
  refine keys.imp_of_mem fun {left right} here there different same => different ?_
  obtain ⟨_, last, net, isLeft⟩ := mem_entries_iff.mp ((order.mem_arrange [] _ left).mp here)
  obtain ⟨_, last', net', isRight⟩ := mem_entries_iff.mp ((order.mem_arrange [] _ right).mp there)
  rw [isLeft, isRight] at same
  exact net.afterKey.symm.trans ((congrArg AggregationChange.afterKey (toContext_injective same)).trans net'.afterKey)

variable (changes key) in
theorem foldl_replaceRow (rows : Signature → Option QueryVariables) : (changes.map toContext).foldl replaceRow rows key =
    (ofGroup changes key).getLast?.elim (rows key) fun last => some last.after := by
  induction changes using reverseRecOn with
  | nil => rfl
  | append_singleton changes change ih =>
    rw [map_append, foldl_append, ofGroup, filter_append, filter_singleton, Bool.cond_decide]
    split
    · next same =>
      rw [getLast?_concat]
      exact same ▸ Function.update_self ..
    · next other =>
      rw [append_nil]
      exact (Function.update_of_ne (Ne.symm other) ..).trans ih

theorem foldl_intoResultVec (rows : Signature → Option QueryVariables) :
    ((collapse changes).intoResultVec order).foldl replaceRow rows = (changes.map toContext).foldl replaceRow rows := by
  obtain ⟨summaries, isSummaries⟩ : (collapse changes).intoResultVec order ∈ Set.range (map toContext) := by
    rw [Set.range_list_map]
    intro context member
    obtain ⟨_, first, last, _, isContext⟩ := (mem_intoResultVec order).mp member
    exact ⟨upTo first last, isContext.symm⟩
  funext key
  rw [← isSummaries, foldl_replaceRow, foldl_replaceRow]
  cases isSummary : (ofGroup summaries key).getLast? with
  | some summary =>
    obtain ⟨member, grouped⟩ := mem_filter.mp (mem_of_getLast? isSummary)
    obtain ⟨other, first, last, net, isContext⟩ := (mem_intoResultVec order).mp (isSummaries ▸ mem_map_of_mem member)
    cases toContext_injective isContext
    have same : other = key := net.afterKey.symm.trans (of_decide_eq_true grouped)
    rw [← same, net.isLast]
    rfl
  | none =>
    cases isLast : (ofGroup changes key).getLast? with
    | none => rfl
    | some last =>
      -- a changed group has a result
      have net : IsNet changes key _ last := ⟨head?_eq_some_head (ne_nil_of_mem (mem_of_getLast? isLast)), isLast⟩
      obtain ⟨summary, member, same⟩ := mem_map.mp (isSummaries.symm ▸ (mem_intoResultVec order).mpr ⟨key, _, _, net, rfl⟩)
      cases toContext_injective same
      exact absurd (mem_filter.mpr ⟨member, decide_eq_true net.afterKey⟩) (getLast?_eq_none_iff.mp isSummary ▸ not_mem_nil)

variable (changes) in
/-- Every group is passed on once, from its first change to its last, and the rows end as with all the changes in turn. -/
theorem collapse_keeps_net_effect (changeContext : ChangeContext) (rows : Signature → Option QueryVariables) :
    let results := (collapse changes).intoResultVec order
    results.Nodup ∧
      (∀ context, context ∈ results ↔ ∃ change ∈ changes, ∃ first last,
        (changes.filter (sameGroup change)).head? = some first ∧ (changes.filter (sameGroup change)).getLast? = some last ∧
          context = (upTo first last).toContext) ∧
      ((collapse changes).intoVecWithContext order changeContext).map (·.1) = results ∧
      results.foldl replaceRow rows = (changes.map toContext).foldl replaceRow rows := by
  intro results
  have inGroup (change : AggregationChange) : changes.filter (sameGroup change) = ofGroup changes change.afterKey :=
    filter_congr fun other _ => Bool.eq_iff_iff.mpr ((sameGroup_iff change other).trans decide_eq_true_iff.symm)
  refine ⟨nodup_intoResultVec changes order, fun context => ?_, ?_, foldl_intoResultVec order rows⟩
  · rw [mem_intoResultVec]
    constructor
    · rintro ⟨_, first, last, net, isContext⟩
      obtain rfl := net.afterKey
      exact ⟨last, (mem_filter.mp (mem_of_getLast? net.isLast)).1, first, last, (inGroup last).symm ▸ net.isFirst,
        (inGroup last).symm ▸ net.isLast, isContext⟩
    · rintro ⟨change, _, first, last, isFirst, isLast, isContext⟩
      rw [inGroup] at isFirst isLast
      exact ⟨_, first, last, ⟨isFirst, isLast⟩, isContext⟩
  · rw [CollapsedAggregationResults.intoVecWithContext, map_map]
    exact (intoResultVec_eq changes order).symm

end DrasiCore.CollapsedAggregation
