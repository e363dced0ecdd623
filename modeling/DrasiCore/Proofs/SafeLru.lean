import DrasiCore.SafeLru
import Mathlib.Data.List.Induction

/-! The cache against the history of its operations. -/

namespace DrasiCore.SafeLru

open Library List AList Lru

variable {K V : Type} [DecidableEq K]

namespace Operation

/-- The key that is put or got. -/
def usedKey : Operation K V → Option K
  | .put key _ | .get key | .getMut key _ => some key
  | .remove _ | .purge => none

/-- The values last written, with one more operation. -/
def writes (written : K → Option V) : Operation K V → K → Option V
  | .put key value => Function.update written key (some value)
  | .getMut key write => Function.update written key ((written key).map write)
  | .get _ | .remove _ | .purge => written

end Operation

/-- The number of the last operation that puts or gets a key; zero for none. -/
def lastUse (operations : List (Operation K V)) (key : K) : Nat :=
  operations.zipIdx.foldl (fun last entry => if entry.1.usedKey = some key then entry.2 + 1 else last) 0

def lastWritten (operations : List (Operation K V)) : K → Option V := operations.foldl Operation.writes fun _ => none

variable {operations : List (Operation K V)} {operation : Operation K V} {cache : SafeLru K V} {key other : K}

theorem lastUse_concat :
    lastUse (operations ++ [operation]) key =
      if operation.usedKey = some key then operations.length + 1 else lastUse operations key := by
  simp [lastUse, zipIdx_append]

theorem lastUse_le : lastUse operations key ≤ operations.length := by
  induction operations using reverseRecOn with
  | nil => exact Nat.le_refl _
  | append_singleton operations operation ih =>
    rw [lastUse_concat, length_append, length_singleton]
    split <;> omega

def ByUse (operations : List (Operation K V)) (order : List K) : Prop :=
  order.Pairwise fun older newer => lastUse operations older < lastUse operations newer

/-- The keys are in the order of their last use, and the values are those last written. -/
structure Tracks (operations : List (Operation K V)) (cache : SafeLru K V) : Prop where
  recency : ByUse operations cache.order
  values : cache.Agrees (lastWritten operations)

theorem nodup_order (cache : SafeLru K V) : cache.order.Nodup := cache.ordered.nodup_iff.mpr cache.map.nodupKeys

theorem mem_order : key ∈ cache.order ↔ key ∈ cache.map := cache.ordered.mem_iff.trans mem_keys.symm

theorem recency_of_sublist {order} (sublist : order.Sublist cache.order)
    (recency : ByUse operations cache.order)
    (unused : ∀ key ∈ order, operation.usedKey ≠ some key) :
    ByUse (operations ++ [operation]) order := by
  refine (recency.sublist sublist).imp_of_mem fun older newer below => ?_
  rwa [lastUse_concat, lastUse_concat, if_neg (unused _ older), if_neg (unused _ newer)]

theorem recency_concat {order} (sublist : order.Sublist cache.order)
    (recency : ByUse operations cache.order)
    (used : operation.usedKey = some key) (unused : ∀ other ∈ order, operation.usedKey ≠ some other) :
    ByUse (operations ++ [operation]) (order ++ [key]) := by
  refine pairwise_append.mpr ⟨recency_of_sublist sublist recency unused, pairwise_singleton _ _, ?_⟩
  intro older member newer last
  rw [mem_singleton.mp last, lastUse_concat, lastUse_concat, if_neg (unused older member), if_pos used]
  exact Nat.lt_succ_of_le lastUse_le

variable (cap : Nat)

theorem evict_sublist (order : List K) (map : AList fun _ : K => V) : (evict cap order map).1.Sublist order := by
  induction order generalizing map with
  | nil => exact .refl _
  | cons oldest order ih =>
    unfold evict
    split
    · exact (ih _).cons oldest
    · exact .refl _

namespace Tracks

variable (tracks : Tracks operations cache)
include tracks

theorem moveToEnd (used : operation.usedKey = some key) :
    ByUse (operations ++ [operation]) (Lru.moveToEnd cache.order key) := by
  unfold Lru.moveToEnd
  split
  · refine recency_concat erase_sublist tracks.recency used fun other member same => ?_
    have apart := (cache.nodup_order.mem_erase_iff.mp member).1
    exact apart (Option.some.inj (same.symm.trans used))
  · next absent =>
    refine recency_of_sublist (.refl _) tracks.recency fun other member same => absent ?_
    rwa [← Option.some.inj (same.symm.trans used)]

theorem put (used : operation.usedKey = some key) (value : V) :
    ByUse (operations ++ [operation]) (cache.put key value).order := by
  unfold Lru.put
  split
  · exact tracks.moveToEnd used
  · next absent =>
    refine recency_concat (evict_sublist _ _ _) tracks.recency used fun other member same => absent ?_
    rw [Option.some.inj (used.symm.trans same)]
    exact mem_order.mp ((evict_sublist _ _ _).subset member)

theorem recency_perform : ByUse (operations ++ [operation]) (perform cache operation).order := by
  have unusedKey {key : K} (absent : cache.peek key = none) (used : operation.usedKey = some key) :
      ByUse (operations ++ [operation]) cache.order := by
    refine recency_of_sublist (.refl _) tracks.recency fun other member same => ?_
    rw [← Option.some.inj (used.symm.trans same)] at member
    exact lookup_eq_none.mp absent (mem_order.mp member)
  cases operation with
  | put key value => exact tracks.put rfl value
  | get key =>
    rw [perform, Lru.get]
    split
    · exact tracks.moveToEnd rfl
    · next absent => exact unusedKey absent rfl
  | getMut key write =>
    rw [perform, getMut]
    split
    · exact tracks.put rfl _
    · next absent => exact unusedKey absent rfl
  | remove key => exact recency_of_sublist erase_sublist tracks.recency fun _ _ => nofun
  | purge => exact .nil

theorem values_perform : (perform cache operation).Agrees (operation.writes (lastWritten operations)) := by
  cases operation with
  | put key value => exact tracks.values.put_update key value
  | get key => exact tracks.values.get key
  | getMut key write =>
    rw [perform, getMut]
    split
    · next value found =>
      rw [Operation.writes, tracks.values key value found]
      exact tracks.values.put_update key (write value)
    · next absent =>
      intro other value found
      have different : other ≠ key := fun same => Option.some_ne_none value (found.symm.trans (same ▸ absent))
      rw [Operation.writes, Function.update_of_ne different]
      exact tracks.values other value found
  | remove key =>
    have removed := tracks.values.remove_update key (lastWritten operations key)
    rwa [Function.update_eq_self] at removed
  | purge => exact Lru.Agrees.purge

end Tracks

theorem tracks_run (operations : List (Operation K V)) : Tracks operations (run cap operations) := by
  induction operations using reverseRecOn with
  | nil => exact ⟨.nil, .new cap⟩
  | append_singleton operations operation ih =>
    rw [run, foldl_append]
    refine ⟨ih.recency_perform, ?_⟩
    rw [lastWritten, foldl_append]
    exact ih.values_perform

theorem cap_run (operations : List (Operation K V)) : (run cap operations).cap = max cap 1 := by
  induction operations using reverseRecOn with
  | nil => rfl
  | append_singleton operations operation ih =>
    rw [run, foldl_append]
    refine Eq.trans ?_ ih
    change (perform (run cap operations) operation).cap = _
    have put (key : K) (value : V) : ((run cap operations).put key value).cap = (run cap operations).cap := by
      unfold Lru.put
      split <;> rfl
    cases operation with
    | put key value => exact put key value
    | get key =>
      rw [perform, Lru.get]
      split <;> rfl
    | getMut key write =>
      rw [perform, getMut]
      split
      · exact put key _
      · rfl
    | remove | purge => rfl

variable {map : AList fun _ : K => V}

theorem evict_full {oldest order} (ordered : (oldest :: order).Perm map.keys) :
    evict map.keys.length (oldest :: order) map = (order, map.erase oldest) := by
  have fewer : ¬ map.keys.length ≤ (map.erase oldest).keys.length := by
    have length := ordered.length_eq
    rw [keys_erase, length_erase_of_mem (ordered.mem_iff.mp mem_cons_self), ← length, length_cons]
    omega
  rw [evict, if_pos (Nat.le_refl _)]
  cases order with
  | nil => rfl
  | cons next order => rw [evict, if_neg fewer]

theorem evict_room {cap order} (room : map.keys.length < cap) :
    evict cap order map = (order, map) := by
  cases order with
  | nil => rfl
  | cons oldest order => rw [evict, if_neg (Nat.not_le.mpr room)]

theorem mem_put_of_absent (absent : key ∉ cache.map) (value : V) :
    other ∈ (cache.put key value).map ↔ other = key ∨ other ∈ (evict cache.cap cache.order cache.map).2 := by
  rw [Lru.put, dif_neg absent]
  exact mem_insert _

theorem mem_put_of_mem (present : key ∈ cache.map) (value : V) : other ∈ (cache.put key value).map ↔ other ∈ cache.map := by
  rw [Lru.put, dif_pos present]
  exact (mem_insert _).trans (or_iff_right_of_imp fun same => same ▸ present)

/-- **The cache keeps the least recently used keys out.** After any operations the order holds the keys of the map once
each and there are at most as many as the capacity; a get returns the value last written for a key that is there; only a
put of a new key into a full cache drops a key, the one whose last use is oldest; the other operations keep, remove or
clear what they name. -/
theorem safeLru_is_lru (cap : Nat) (room : 1 ≤ cap) (operations : List (Operation K V)) :
    let cache := run cap operations
    cache.order.Nodup ∧ (∀ key, key ∈ cache.order ↔ key ∈ cache.map) ∧ cache.map.keys.length ≤ cap ∧
    (∀ key, (cache.get key).1 = if key ∈ cache.map then lastWritten operations key else none) ∧
    (∀ key value, key ∈ cache.map ∨ cache.map.keys.length < cap →
      ∀ other, other ∈ (cache.put key value).map ↔ other = key ∨ other ∈ cache.map) ∧
    (∀ key value, key ∉ cache.map → cache.map.keys.length = cap → ∃ oldest ∈ cache.map,
      (∀ other ∈ cache.map, other ≠ oldest → lastUse operations oldest < lastUse operations other) ∧
      ∀ other, other ∈ (cache.put key value).map ↔ other = key ∨ other ∈ cache.map ∧ other ≠ oldest) ∧
    (∀ key write other, (other ∈ (cache.get key).2.map ↔ other ∈ cache.map) ∧
      (other ∈ (getMut cache key write).map ↔ other ∈ cache.map) ∧
      (other ∈ (cache.remove key).map ↔ other ∈ cache.map ∧ other ≠ key) ∧ other ∉ cache.purge.map) := by
  intro cache
  have tracks : Tracks operations cache := tracks_run cap operations
  have capacity : cache.cap = cap := (cap_run cap operations).trans (max_eq_left room)
  have keeps (key : K) (write : V → V) (other : K) : other ∈ (getMut cache key write).map ↔ other ∈ cache.map := by
    rw [getMut]
    split
    · next found => exact mem_put_of_mem (lookup_isSome.mp (Option.isSome_of_eq_some found)) _
    · rfl
  refine ⟨cache.nodup_order, fun _ => mem_order, capacity ▸ cache.bounded, fun key => ?_, fun key value kept other => ?_,
    fun key value absent full => ?_, fun key write other => ⟨?_, keeps key write other, ?_, notMem_empty _⟩⟩
  · rw [get_fst]
    cases found : cache.peek key with
    | none => exact (if_neg (lookup_eq_none.mp found)).symm
    | some value =>
      rw [if_pos (lookup_isSome.mp (Option.isSome_of_eq_some found))]
      exact (tracks.values key value found).symm
  · by_cases present : key ∈ cache.map
    · exact (mem_put_of_mem present value).trans (or_iff_right_of_imp fun same => same ▸ present).symm
    · have below := kept.resolve_left present
      rw [mem_put_of_absent present, evict_room (capacity ▸ below)]
  · cases isOrder : cache.order with
    | nil =>
      have none := cache.ordered.length_eq
      rw [isOrder, full] at none
      exact absurd none (Nat.ne_of_lt room)
    | cons oldest order =>
      have ordered : (oldest :: order).Perm cache.map.keys := isOrder ▸ cache.ordered
      have recency : ByUse operations (oldest :: order) := isOrder ▸ tracks.recency
      refine ⟨oldest, mem_keys.mpr (ordered.mem_iff.mp mem_cons_self), fun other member different => ?_, fun other => ?_⟩
      · have inOrder := ordered.mem_iff.mpr (mem_keys.mp member)
        exact rel_of_pairwise_cons recency ((mem_cons.mp inOrder).resolve_left different)
      · rw [mem_put_of_absent absent, isOrder, capacity, ← full, evict_full ordered]
        exact or_congr_right ((mem_erase).trans and_comm)
  · rw [Lru.get]
    split <;> rfl
  · exact mem_erase.trans and_comm

/-- The key that was got stays, and the other one goes. -/
theorem safeLru_is_lru_two : (run 2 [.put 1 "a", .put 2 "b", .get 1, .put 3 "c"] : SafeLru Nat String).map.keys = [3, 1] ∧
    ((run 2 [.put 1 "a", .put 2 "b", .get 1] : SafeLru Nat String).get 1).1 = some "a" := by
  have holds := safeLru_is_lru 2 (by decide) [.put 1 "a", .put 2 "b", .get 1]
  refine ⟨by decide +kernel, (holds.2.2.2.1 1).trans (by decide +kernel)⟩

end DrasiCore.SafeLru
