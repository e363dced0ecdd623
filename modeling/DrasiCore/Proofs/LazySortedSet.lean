import DrasiCore.Aggregation
import DrasiCore.Library.SortedBag
import Mathlib.Data.Set.Finite.Lattice

/-! The head of a sorted set with a log of changes on top. The walk along the log moves the cursor over the stored values one
step per logged value, so a logged value that is not stored and has come back to nothing makes it pass over one that is. -/

namespace DrasiCore.LazySortedSet

open Library OrderedMap List InMemoryResultIndex

section Scan

variable {K : Type} [LinearOrder K]

/-- The walk over logged values with their totals and stored values. -/
def scan : List (K × Int) → List K → Option K
  | [], stored => stored.head?
  | (value, total) :: log, stored =>
    if (stored.head?).any (· < value) then stored.head? else if 0 < total then some value else scan log stored.tail

/-- A value that is there: a logged one with a positive total, or a stored one that is not logged. -/
def Live (log : List (K × Int)) (stored : List K) (value : K) : Prop :=
  (∃ total, (value, total) ∈ log ∧ 0 < total) ∨ value ∈ stored ∧ value ∉ log.map (·.1)

def IsHead (live : K → Prop) : Option K → Prop
  | none => ∀ value, ¬ live value
  | some head => live head ∧ ∀ value, live value → head ≤ value

theorem IsHead.unique {live : K → Prop} {one two} (first : IsHead live one) (second : IsHead live two) : one = two := by
  cases one with
  | none =>
    cases two with
    | none => rfl
    | some head => exact absurd second.1 (first head)
  | some head =>
    cases two with
    | none => exact absurd first.1 (second head)
    | some other => exact congrArg some (le_antisymm (first.2 other second.1) (second.2 head first.1))

theorem mem_of_scan {log : List (K × Int)} {stored head} (found : scan log stored = some head) :
    head ∈ log.map (·.1) ∨ head ∈ stored := by
  induction log generalizing stored with
  | nil => exact .inr (mem_of_mem_head? found)
  | cons entry log ih =>
    rw [scan] at found
    split at found
    · exact .inr (mem_of_mem_head? found)
    · split at found
      · exact .inl (by simpa using .inl (Option.some.inj found).symm)
      · exact (ih found).imp (mem_cons_of_mem _) mem_of_mem_tail

/-- The walk with a cursor that is `lost` stored values ahead finds the least value unless that is a stored one it has passed
over, or will pass over because of a logged value below it that is not stored and not there. -/
theorem scan_isHead_iff {log : List (K × Int)} {stored : List K} (lost : Nat)
    (logged : log.Pairwise fun left right => left.1 < right.1) (sorted : stored.Pairwise (· < ·)) :
    IsHead (Live log stored) (scan log (stored.drop lost)) ↔
      ∀ head, IsHead (Live log stored) (some head) → head ∈ log.map (·.1) ∨
        lost = 0 ∧ ∀ value ∈ log.map (·.1), value ∉ stored → ¬ Live log stored value → ¬ value < head := by
  induction log generalizing stored lost with
  | nil =>
    cases stored with
    | nil => simp [scan, IsHead, Live]
    | cons first rest =>
      have head : IsHead (Live [] (first :: rest)) (some first) := by
        refine ⟨by simp [Live], fun value live => ?_⟩
        have live : value = first ∨ value ∈ rest := by simpa [Live] using live
        exact live.elim (·.ge) fun later => ((pairwise_cons.mp sorted).1 value later).le
      cases lost with
      | zero => simpa [scan] using head
      | succ lost =>
        refine iff_of_false (fun other => ?_) fun all => by simpa using all first head
        have later : first ∈ rest.drop lost := mem_of_mem_head? (head.unique other).symm
        exact lt_irrefl _ ((pairwise_cons.mp sorted).1 first (mem_of_mem_drop later))
  | cons entry log ih =>
    obtain ⟨value, total⟩ := entry
    obtain ⟨above, logged⟩ := pairwise_cons.mp logged
    have later : ∀ other ∈ log.map (·.1), value < other := forall_mem_map.mpr above
    by_cases below : stored.head?.any (· < value)
    · -- a stored value comes before all that is logged
      obtain ⟨first, rest, rfl, first_lt⟩ : ∃ first rest, stored = first :: rest ∧ first < value := by
        cases stored <;> simp_all
      have unlogged : ∀ other ∈ ((value, total) :: log).map (·.1), first < other :=
        forall_mem_cons.mpr ⟨first_lt, fun other member => first_lt.trans (later other member)⟩
      have ahead := (pairwise_cons.mp sorted).1
      have head : IsHead (Live ((value, total) :: log) (first :: rest)) (some first) := by
        refine ⟨.inr ⟨mem_cons_self, fun member => lt_irrefl _ (unlogged first member)⟩, fun other live => ?_⟩
        rcases live with ⟨count, member, -⟩ | ⟨member, -⟩
        · exact (unlogged other (mem_map_of_mem member)).le
        · exact (mem_cons.mp member).elim (·.ge) fun member => (ahead other member).le
      cases lost with
      | zero =>
        refine iff_of_true (by simpa [scan, first_lt] using head) fun other isHead => .inr ⟨rfl, fun logged member _ _ => ?_⟩
        rw [Option.some.inj (isHead.unique head)]
        exact (unlogged logged member).asymm
      | succ lost =>
        refine iff_of_false (fun other => ?_) fun all => ?_
        · rcases mem_of_scan (head.unique other).symm with member | member
          · exact lt_irrefl _ (unlogged first member)
          · exact lt_irrefl _ (ahead first (mem_of_mem_drop member))
        · rcases all first head with member | ⟨impossible, -⟩
          · exact lt_irrefl _ (unlogged first member)
          · cases impossible
    · have atLeast : ∀ other ∈ stored, value ≤ other := by
        cases stored with
        | nil => simp
        | cons first rest =>
          have first_ge : value ≤ first := by simpa using below
          exact forall_mem_cons.mpr
            ⟨first_ge, fun other member => first_ge.trans ((pairwise_cons.mp sorted).1 other member).le⟩
      have passes : (stored.drop lost).head?.any (· < value) = false := by
        rw [Option.any_eq_false]
        intro other member
        simpa using atLeast other (mem_of_mem_drop (mem_of_mem_head? member))
      rw [scan, passes, if_neg Bool.false_ne_true]
      by_cases positive : 0 < total
      · rw [if_pos positive]
        have head : IsHead (Live ((value, total) :: log) stored) (some value) := by
          refine ⟨.inl ⟨total, mem_cons_self, positive⟩, fun other live => ?_⟩
          rcases live with ⟨count, member, -⟩ | ⟨member, -⟩
          · exact (mem_cons.mp member).elim (fun same => (congrArg Prod.fst same).ge) fun member => (above _ member).le
          · exact atLeast other member
        refine iff_of_true head fun other isHead => .inl ?_
        rw [Option.some.inj (isHead.unique head)]
        exact mem_cons_self
      · rw [if_neg positive, tail_drop]
        have dead : ¬ Live ((value, total) :: log) stored value := by
          rintro (⟨count, member, counted⟩ | ⟨-, unlogged⟩)
          · rcases mem_cons.mp member with same | member
            · cases same
              exact positive counted
            · exact lt_irrefl value (above (value, count) member)
          · exact unlogged mem_cons_self
        have live : ∀ rest : List K, (∀ other, other ≠ value → (other ∈ rest ↔ other ∈ stored)) → value ∉ rest →
            Live ((value, total) :: log) stored = Live log rest := by
          intro rest same gone
          funext other
          by_cases isValue : other = value
          · subst isValue
            refine propext (iff_of_false dead ?_)
            rintro (⟨count, member, -⟩ | ⟨member, -⟩)
            · exact lt_irrefl other (above (other, count) member)
            · exact gone member
          · simp [Live, isValue, same other isValue]
        have ne_value : ∀ head, IsHead (Live ((value, total) :: log) stored) (some head) → head ≠ value := by
          rintro head isHead rfl
          exact dead isHead.1
        by_cases isFirst : stored.head? = some value
        · -- the logged value is the one under the cursor
          obtain ⟨rest, rfl⟩ : ∃ rest, stored = value :: rest := by cases stored <;> simp_all
          have gone : value ∉ rest := fun member => lt_irrefl _ ((pairwise_cons.mp sorted).1 value member)
          have same := live rest (fun other differs => by simp [differs]) gone
          rw [drop_succ_cons, same, ih lost logged (pairwise_cons.mp sorted).2, ← same]
          refine forall₂_congr fun head isHead => ?_
          simp only [map_cons, mem_cons, ne_value head isHead, false_or, forall_eq_or_imp, true_or, not_true_eq_false,
            false_implies, true_and]
          refine or_congr_right (and_congr_right fun _ => forall₂_congr fun other member => ?_)
          simp [(later other member).ne']
        · -- it is not stored, and the cursor moves on all the same
          have gone : value ∉ stored := by
            cases stored with
            | nil => simp
            | cons first rest =>
              have first_gt : value < first := lt_of_le_of_ne (atLeast first mem_cons_self) (by simpa [eq_comm] using isFirst)
              exact fun member => (mem_cons.mp member).elim (first_gt.ne ·)
                fun member => lt_asymm first_gt ((pairwise_cons.mp sorted).1 value member)
          have same := live stored (fun _ _ => Iff.rfl) gone
          rw [same, ih (lost + 1) logged sorted, ← same]
          refine forall₂_congr fun head isHead => ?_
          have passed : value < head := by
            rcases isHead.1 with ⟨count, member, -⟩ | ⟨member, -⟩
            · rcases mem_cons.mp member with same | member
              · exact absurd (congrArg Prod.fst same) (ne_value head isHead)
              · exact above _ member
            · exact lt_of_le_of_ne (atLeast head member) fun same => gone (same ▸ member)
          simp [ne_value head isHead, gone, dead, passed]

end Scan

section Log

variable {store : InMemoryResultIndex} {set : LazySortedSet} {setId : SortedSetId}
variable {count : Rat → Int} {value : Rat} {calls : List (Rat × Bool)}

theorem getNext_none_eq_head? : store.getNext setId none = (store.sortedSets setId).entries.head? := by
  simp [getNext]

variable {log : List (Rat × SortedSetEntryCount)}

/-- The walk of the code, from a cursor on the first of the stored values that are left. -/
theorem headFrom_eq_scan {passed left} (split : (store.sortedSets set.setId).entries = passed ++ left) :
    set.headFrom store log left.head? =
      scan (log.map fun entry => (entry.1, entry.2.snapshot + entry.2.delta)) (left.map (·.1)) := by
  induction log generalizing passed left with
  | nil => simp [headFrom, scan]
  | cons entry log ih =>
    cases left with
    | nil => simpa [headFrom, scan] using if_congr Iff.rfl rfl (ih split)
    | cons first rest =>
      have next : store.getNext set.setId (some first.1) = rest.head? := by
        have sorted := (store.sortedSets set.setId).sorted
        rw [split] at sorted
        obtain ⟨-, later, earlier⟩ := pairwise_append.mp sorted
        have none : passed.find? (first.1 < ·.1) = none := by
          simpa using fun value count member => (earlier (value, count) member first mem_cons_self).le
        simp only [getNext, split, find?_append, none, Option.none_or]
        rw [find?_cons_of_neg (by simp)]
        cases rest with
        | nil => rfl
        | cons second rest => simp [(pairwise_cons.mp later).1 second mem_cons_self]
      have advanced : (store.sortedSets set.setId).entries = (passed ++ [first]) ++ rest := by simpa using split
      simp only [head?_cons, headFrom, next, ih advanced, scan, map_cons, Option.any_some, decide_eq_true_eq, tail_cons]

/-- What calls of `insert` and `remove` add up to for a value. -/
def net (calls : List (Rat × Bool)) (value : Rat) : Int :=
  ((calls.filter (·.1 = value)).map fun call => if call.2 then 1 else -1).sum

/-- The set after some calls: true inserts a value, false removes it. -/
def perform (store : InMemoryResultIndex) (set : LazySortedSet) (calls : List (Rat × Bool)) : LazySortedSet :=
  calls.foldl (fun set call => if call.2 then set.insert store call.1 else set.remove store call.1) set

theorem setId_perform (calls : List (Rat × Bool)) : (perform store set calls).setId = set.setId := by
  induction calls generalizing set with
  | nil => rfl
  | cons call calls ih =>
    rw [perform, foldl_cons]
    refine ih.trans ?_
    split <;> simp only [insert, remove, change] <;> split <;> rfl

theorem get?_change (value : Rat) (delta : Int) (other : Rat) :
    (set.change store value delta).changeLog.get? other =
      if other = value then
        let entry := (set.changeLog.get? value).getD ⟨store.getValueCount set.setId value, 0⟩
        some ⟨entry.snapshot, entry.delta + delta⟩
      else set.changeLog.get? other := by
  unfold change
  by_cases same : other = value
  · subst same
    rw [if_pos rfl]
    split <;> simp [*]
  · rw [if_neg same]
    split <;> exact get?_insert_of_ne _ _ same

theorem get?_perform (calls : List (Rat × Bool)) (value : Rat) :
    (perform store ⟨setId, .empty⟩ calls).changeLog.get? value =
      if value ∈ calls.map (·.1) then some ⟨store.getValueCount setId value, net calls value⟩ else none := by
  induction calls using reverseRecOn with
  | nil => rfl
  | append_singleton calls call ih =>
    have step : (perform store ⟨setId, .empty⟩ (calls ++ [call])) =
        (perform store ⟨setId, .empty⟩ calls).change store call.1 (if call.2 then 1 else -1) := by
      obtain ⟨value, inserted⟩ := call
      rw [perform, foldl_append]
      cases inserted <;> rfl
    rw [step, get?_change, setId_perform]
    by_cases same : value = call.1
    · subst same
      have called : call.1 ∈ (calls ++ [call]).map (·.1) := mem_map_of_mem (by simp)
      rw [if_pos rfl, ih, if_pos called]
      by_cases before : call.1 ∈ calls.map (·.1)
      · simp only [if_pos before, Option.getD_some, net, filter_append, map_append, sum_append]
        simp
      · have none : calls.filter (·.1 = call.1) = [] := by
          refine filter_eq_nil_iff.mpr fun other member => ?_
          exact fun same => before (mem_map.mpr ⟨other, member, by simpa using same⟩)
        simp only [if_neg before, Option.getD_none, net, filter_append, none, nil_append]
        simp
    · simp [same, ih, net, Ne.symm same]

def Counts (store : InMemoryResultIndex) (setId : SortedSetId) (count : Rat → Int) : Prop :=
  ∀ value, (store.sortedSets setId).get? value = if count value = 0 then none else some (count value)

section

variable (counts : Counts store setId count)
include counts

theorem Counts.getValueCount (value : Rat) : store.getValueCount setId value = count value := by
  rw [InMemoryResultIndex.getValueCount, counts]
  split <;> simp_all

theorem Counts.increment {delta} (enough : 0 ≤ count value + delta) :
    ∃ next, store.incrementValueCount setId value delta = (.ok (), next) ∧
      Counts next setId (Function.update count value (count value + delta)) := by
  by_cases none : delta = 0
  · subst none
    exact ⟨store, by simp [incrementValueCount], by simpa using counts⟩
  · simp only [incrementValueCount, if_neg none, counts.getValueCount, if_neg enough.not_gt]
    refine ⟨_, rfl, fun other => ?_⟩
    simp only [↓reduceIte, Function.update_apply]
    by_cases same : other = value
    · subst same
      split <;> simp_all [get?_erase]
    · rw [if_neg same, ← counts other]
      split
      · rw [get?_erase, if_neg same]
      · exact get?_insert_of_ne _ _ same

theorem Counts.commit (distinct : (log.map (·.1)).Nodup) (enough : ∀ entry ∈ log, 0 ≤ count entry.1 + entry.2.delta) :
    ∃ next, commitFrom setId log store = (.ok (), next) ∧
      Counts next setId fun value => count value + ((log.lookup value).map (·.delta)).getD 0 := by
  induction log generalizing store count with
  | nil => exact ⟨store, rfl, by simpa using counts⟩
  | cons entry log ih =>
    obtain ⟨value, entry⟩ := entry
    obtain ⟨absent, distinct⟩ := nodup_cons.mp distinct
    obtain ⟨first, rest⟩ := forall_mem_cons.mp enough
    obtain ⟨middle, increments, counts'⟩ := counts.increment first
    have differs : ∀ other ∈ log, other.1 ≠ value := fun other member same =>
      absent (mem_map.mpr ⟨other, member, same⟩)
    obtain ⟨next, commits, final⟩ := ih counts' distinct fun other member => by
      rw [Function.update_of_ne (differs other member)]
      exact rest other member
    refine ⟨next, by rw [commitFrom, increments]; exact commits, ?_⟩
    convert final using 2 with other
    by_cases same : other = value
    · subst same
      have none : log.lookup other = none := by
        exact lookup_eq_none_iff.mpr fun entry member => bne_iff_ne.mpr (differs entry member).symm
      simp [none]
    · simp [lookup_cons, beq_eq_false_iff_ne.mpr same, same]

theorem Counts.mem_keys (value : Rat) : value ∈ (store.sortedSets setId).entries.map (·.1) ↔ count value ≠ 0 := by
  simp only [mem_map, Prod.exists, exists_and_right, exists_eq_right, mem_entries_iff, counts value]
  split <;> simp_all

theorem Counts.isHead (nonneg : ∀ value, 0 ≤ count value) :
    IsHead (0 < count ·) ((store.getNext setId none).map (·.1)) := by
  have live : ∀ value, 0 < count value ↔ value ∈ (store.sortedSets setId).entries.map (·.1) := fun value =>
    (nonneg value).lt_iff_ne'.trans (counts.mem_keys value).symm
  have sorted := (store.sortedSets setId).sorted
  simp only [live, getNext_none_eq_head?]
  cases entries : (store.sortedSets setId).entries with
  | nil => simp [IsHead]
  | cons first rest =>
    rw [entries] at sorted
    refine ⟨by simp, fun value listed => ?_⟩
    obtain ⟨entry, member, rfl⟩ := mem_map.mp listed
    rcases mem_cons.mp member with rfl | later
    · exact le_rfl
    · exact ((pairwise_cons.mp sorted).1 entry later).le

end

theorem Counts.of_positive (positive : ∀ entry ∈ (store.sortedSets setId).entries, 0 < entry.2) :
    Counts store setId (store.getValueCount setId) := by
  intro value
  unfold InMemoryResultIndex.getValueCount
  cases found : (store.sortedSets setId).get? value with
  | none => simp
  | some count => simp [(positive (value, count) (mem_entries_iff.mpr found)).ne']

theorem net_eq_zero (uncalled : value ∉ calls.map (·.1)) : net calls value = 0 := by
  have none : calls.filter (·.1 = value) = [] :=
    filter_eq_nil_iff.mpr fun call member same => uncalled (mem_map.mpr ⟨call, member, by simpa using same⟩)
  simp [net, none]

theorem mem_changeLog {entry} :
    (value, entry) ∈ (perform store ⟨setId, .empty⟩ calls).changeLog.entries ↔
      value ∈ calls.map (·.1) ∧ entry = ⟨store.getValueCount setId value, net calls value⟩ := by
  rw [mem_entries_iff, get?_perform]
  split <;> simp_all [eq_comm]

def totals (set : LazySortedSet) : List (Rat × Int) :=
  set.changeLog.entries.map fun entry => (entry.1, entry.2.snapshot + entry.2.delta)

theorem mem_totals {total} :
    (value, total) ∈ (perform store ⟨setId, .empty⟩ calls).totals ↔
      value ∈ calls.map (·.1) ∧ total = store.getValueCount setId value + net calls value := by
  rw [totals, mem_map]
  constructor
  · rintro ⟨⟨value, entry⟩, listed, same⟩
    obtain ⟨rfl, rfl⟩ := Prod.mk.inj same
    obtain ⟨called, rfl⟩ := mem_changeLog.mp listed
    exact ⟨called, rfl⟩
  · rintro ⟨called, rfl⟩
    exact ⟨(value, _), mem_changeLog.mpr ⟨called, rfl⟩, rfl⟩

theorem mem_keys_totals : value ∈ (perform store ⟨setId, .empty⟩ calls).totals.map (·.1) ↔ value ∈ calls.map (·.1) := by
  rw [mem_map]
  constructor
  · rintro ⟨⟨value, total⟩, listed, rfl⟩
    exact (mem_totals.mp listed).1
  · exact fun called => ⟨(value, _), mem_totals.mpr ⟨called, rfl⟩, rfl⟩

theorem live_totals_iff (counts : Counts store setId (store.getValueCount setId))
    (nonneg : 0 ≤ store.getValueCount setId value) :
    Live (perform store ⟨setId, .empty⟩ calls).totals ((store.sortedSets setId).entries.map (·.1)) value ↔
      0 < store.getValueCount setId value + net calls value := by
  rw [Live, mem_keys_totals, counts.mem_keys]
  simp only [mem_totals]
  by_cases called : value ∈ calls.map (·.1)
  · simp [called]
  · simp only [called, false_and, exists_false, false_or, not_false_eq_true, and_true, net_eq_zero called, add_zero]
    omega

/-- What the walk finds is the least value unless that is stored, not in a call, and above one that came and went. -/
theorem getHead_isHead (counts : Counts store setId (store.getValueCount setId))
    (nonneg : ∀ value, 0 ≤ store.getValueCount setId value) :
    IsHead (fun value => 0 < store.getValueCount setId value + net calls value)
        ((perform store ⟨setId, .empty⟩ calls).getHead store) ↔
      ∀ head, IsHead (fun value => 0 < store.getValueCount setId value + net calls value) (some head) →
        head ∈ calls.map (·.1) ∨ ∀ gone ∈ calls.map (·.1), store.getValueCount setId gone = 0 →
          ¬ 0 < store.getValueCount setId gone + net calls gone → ¬ gone < head := by
  have head : (perform store ⟨setId, .empty⟩ calls).getHead store =
      scan (perform store ⟨setId, .empty⟩ calls).totals (((store.sortedSets setId).entries.map (·.1)).drop 0) := by
    rw [getHead, getNext_none_eq_head?, headFrom_eq_scan (nil_append _).symm, setId_perform]
    rfl
  have logged : (perform store ⟨setId, .empty⟩ calls).totals.Pairwise fun left right => left.1 < right.1 :=
    pairwise_map.mpr (perform store ⟨setId, .empty⟩ calls).changeLog.sorted
  have live : Live (perform store ⟨setId, .empty⟩ calls).totals ((store.sortedSets setId).entries.map (·.1)) =
      fun value => 0 < store.getValueCount setId value + net calls value :=
    funext fun value => propext (live_totals_iff counts (nonneg value))
  have walk := scan_isHead_iff 0 logged (pairwise_map.mpr (store.sortedSets setId).sorted)
  simpa only [live, ← head, mem_keys_totals, counts.mem_keys, not_not, true_and] using walk

/-- The head of the set after some calls is the least value there, and stays so once they are committed, exactly if every
stored value that was not in a call and is above one that came and went has a smaller one below it. -/
theorem getHead_isHead_iff (store : InMemoryResultIndex) (setId : SortedSetId)
    (positive : ∀ entry ∈ (store.sortedSets setId).entries, 0 < entry.2) (calls : List (Rat × Bool))
    (enough : ∀ value, 0 ≤ store.getValueCount setId value + net calls value) :
    (IsHead (fun value => 0 < store.getValueCount setId value + net calls value)
        ((perform store ⟨setId, .empty⟩ calls).getHead store) ∧
      ∃ committed, (perform store ⟨setId, .empty⟩ calls).commit store = (.ok (), committed) ∧
        (committed.getNext setId none).map (·.1) = (perform store ⟨setId, .empty⟩ calls).getHead store) ↔
    ∀ gone ∈ calls.map (·.1), store.getValueCount setId gone = 0 → net calls gone = 0 →
      ∀ stored ∉ calls.map (·.1), 0 < store.getValueCount setId stored → gone < stored →
        ∃ value < stored, 0 < store.getValueCount setId value + net calls value := by
  have counts := Counts.of_positive positive
  have nonneg : ∀ value, 0 ≤ store.getValueCount setId value := by
    intro value
    unfold InMemoryResultIndex.getValueCount
    cases found : (store.sortedSets setId).get? value with
    | none => simp
    | some count => exact (positive (value, count) (mem_entries_iff.mpr found)).le
  obtain ⟨committed, commits, final⟩ := counts.commit (perform store ⟨setId, .empty⟩ calls).changeLog.keys_nodup
    fun entry listed => by
      rw [(mem_changeLog.mp listed).2]
      exact enough entry.1
  have final : Counts committed setId fun value => store.getValueCount setId value + net calls value := by
    convert final using 3 with value
    change _ = (((perform store ⟨setId, .empty⟩ calls).changeLog.get? value).map (·.delta)).getD 0
    rw [get?_perform]
    split
    · rfl
    · exact net_eq_zero ‹_›
  have stays : IsHead (fun value => 0 < store.getValueCount setId value + net calls value)
      ((committed.getNext setId none).map (·.1)) := final.isHead enough
  have commits : (perform store ⟨setId, .empty⟩ calls).commit store = (.ok (), committed) := by
    rw [commit, setId_perform]
    exact commits
  constructor
  · rintro ⟨isHead, -⟩ gone called absent nothing stored uncalled present above
    by_contra lowest
    push Not at lowest
    have least : IsHead (fun value => 0 < store.getValueCount setId value + net calls value) (some stored) :=
      ⟨by simpa [net_eq_zero uncalled] using present, fun value live => not_lt.mp fun below => (lowest value below).not_gt live⟩
    rcases (getHead_isHead counts nonneg).mp isHead stored least with called' | none
    · exact uncalled called'
    · exact none gone called absent (by omega) above
  · intro free
    have isHead : IsHead (fun value => 0 < store.getValueCount setId value + net calls value)
        ((perform store ⟨setId, .empty⟩ calls).getHead store) := (getHead_isHead counts nonneg).mpr fun head least => by
      by_contra passed
      push Not at passed
      obtain ⟨uncalled, gone, called, absent, dead, above⟩ := passed
      have present : 0 < store.getValueCount setId head := by simpa [net_eq_zero uncalled] using least.1
      have zero : net calls gone = 0 := by have := enough gone; omega
      obtain ⟨value, below, live⟩ := free gone called absent zero head uncalled present above
      exact below.not_ge (least.2 value live)
    exact ⟨isHead, committed, commits, stays.unique isHead⟩

end Log

def onlyFive : InMemoryResultIndex := { empty with sortedSets := fun _ => OrderedMap.empty.insert 5 1 }

theorem getValueCount_onlyFive (setId : SortedSetId) (value : Rat) :
    onlyFive.getValueCount setId value = if value = 5 then 1 else 0 := by
  rw [InMemoryResultIndex.getValueCount, onlyFive]
  split
  · simp [*]
  · rw [get?_insert_of_ne _ _ ‹_›]
    rfl

/-- A value comes and goes while a smaller one stays. -/
theorem getHead_isHead_iff_smaller_inserted :
    let calls := [(4, true), (3, true), (4, false)]
    IsHead (fun value => 0 < onlyFive.getValueCount ⟨0, []⟩ value + net calls value)
      ((perform onlyFive ⟨⟨0, []⟩, .empty⟩ calls).getHead onlyFive) := by
  intro calls
  refine ((getHead_isHead_iff onlyFive ⟨0, []⟩ (by decide +kernel) calls fun value => ?_).mpr ?_).1
  · rw [getValueCount_onlyFive]
    by_cases three : (3 : Rat) = value <;> by_cases four : (4 : Rat) = value <;>
      simp [calls, net, three, four] <;> split <;> simp
  · intro gone called _ _ stored _ _ above
    have least : ∀ called ∈ calls.map (·.1), 3 ≤ called := by decide +kernel
    exact ⟨3, lt_of_le_of_lt (least gone called) above, by decide +kernel⟩

/-- A value below the stored one comes and goes, and the head of the set is lost. -/
theorem getHead_lost : ∃ (store : InMemoryResultIndex) (setId : SortedSetId) (calls : List (Rat × Bool)),
    (∀ entry ∈ (store.sortedSets setId).entries, 0 < entry.2) ∧
    (∀ count, ∀ value, 0 ≤ store.getValueCount setId value + net (calls.take count) value) ∧
    ¬ IsHead (fun value => 0 < store.getValueCount setId value + net calls value)
        ((perform store ⟨setId, .empty⟩ calls).getHead store) := by
  refine ⟨onlyFive, ⟨0, []⟩, [(3, true), (3, false)], by decide +kernel, fun count value => ?_, ?_⟩
  · rw [getValueCount_onlyFive]
    rcases count with - | - | count <;> by_cases same : (3 : Rat) = value <;> simp [net, same] <;> split <;> simp
  · have lost : (perform onlyFive ⟨⟨0, []⟩, .empty⟩ [(3, true), (3, false)]).getHead onlyFive = none := by decide +kernel
    rw [lost]
    exact fun nothing => nothing 5 (by decide +kernel)

end DrasiCore.LazySortedSet
