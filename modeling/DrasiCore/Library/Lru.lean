import Mathlib.Data.List.AList

/-! A bounded map that forgets its least recently used keys: the entries, and their keys from the longest unused to the
last used. -/

namespace DrasiCore.Library

open AList

variable {K V : Type*} [DecidableEq K]

structure Lru (K V : Type*) [DecidableEq K] where
  map : AList fun _ : K => V
  order : List K
  cap : Nat
  /-- Exactly the keys of the map are ordered, each once. -/
  ordered : order.Perm map.keys
  room : 0 < cap
  bounded : map.keys.length ≤ cap

namespace Lru

def moveToEnd (order : List K) (key : K) : List K :=
  if key ∈ order then order.erase key ++ [key] else order

theorem moveToEnd_perm (order : List K) (key : K) : (moveToEnd order key).Perm order := by
  unfold moveToEnd
  split
  case isTrue member => exact (List.perm_append_singleton _ _).trans (List.perm_cons_erase member).symm
  case isFalse => exact .refl _

def evict (cap : Nat) : List K → (AList fun _ : K => V) → List K × AList fun _ : K => V
  | [], map => ([], map)
  | oldest :: order, map =>
    if cap ≤ map.keys.length then evict cap order (map.erase oldest) else (oldest :: order, map)

section

variable (map : AList fun _ : K => V)

theorem evict_perm (cap : Nat) (order : List K) (ordered : order.Perm map.keys) :
    (evict cap order map).1.Perm (evict cap order map).2.keys := by
  induction order generalizing map with
  | nil => exact ordered
  | cons oldest order ih =>
    unfold evict
    split
    · apply ih
      rw [keys_erase]
      exact (List.cons_perm_iff_perm_erase.mp ordered).2
    · exact ordered

theorem evict_length (cap : Nat) (order : List K) (ordered : order.Perm map.keys) (room : 0 < cap) :
    (evict cap order map).2.keys.length < cap := by
  induction order generalizing map with
  | nil =>
    have none : map.keys = [] := ordered.nil_eq.symm
    simpa [evict, none] using room
  | cons oldest order ih =>
    unfold evict
    split
    · apply ih
      rw [keys_erase]
      exact (List.cons_perm_iff_perm_erase.mp ordered).2
    case isFalse below => exact Nat.lt_of_not_le below

theorem lookup_of_evict (cap : Nat) (order : List K) {key value} (found : (evict cap order map).2.lookup key = some value) :
    map.lookup key = some value := by
  induction order generalizing map with
  | nil => exact found
  | cons oldest order ih =>
    unfold evict at found
    split at found
    · have kept := ih _ found
      by_cases same : key = oldest
      · subst same
        simp at kept
      · rwa [lookup_erase_ne same] at kept
    · exact found

end

def new (cap : Nat) : Lru K V := ⟨∅, [], max cap 1, .refl _, by omega, Nat.zero_le _⟩

variable (cache : Lru K V) (key : K)

def touch : Lru K V :=
  { cache with
    order := moveToEnd cache.order key
    ordered := (moveToEnd_perm _ _).trans cache.ordered }

def peek : Option V := cache.map.lookup key

def get (key : K) : Option V × Lru K V :=
  match cache.peek key with
  | some value => (some value, cache.touch key)
  | none => (none, cache)

def replace (value : V) (present : key ∈ cache.map) : Lru K V :=
  let same : (cache.map.insert key value).keys.Perm cache.map.keys := by
    rw [keys_insert]
    exact (List.perm_cons_erase (mem_keys.mp present)).symm
  { cache with
    map := cache.map.insert key value
    ordered := cache.ordered.trans same.symm
    bounded := same.length_eq ▸ cache.bounded }

def put (value : V) : Lru K V :=
  if present : key ∈ cache.map then (cache.replace key value present).touch key
  else
    let kept := evict cache.cap cache.order cache.map
    { cache with
      map := kept.2.insert key value
      order := kept.1 ++ [key]
      ordered := by
        have absent : key ∉ kept.2.keys := by
          intro member
          obtain ⟨old, found⟩ := Option.isSome_iff_exists.mp (lookup_isSome.mpr (mem_keys.mpr member))
          have before := lookup_of_evict _ _ _ found
          exact present (lookup_isSome.mp (before ▸ rfl))
        rw [keys_insert, List.erase_of_not_mem absent]
        exact (List.perm_append_singleton _ _).trans ((evict_perm _ _ _ cache.ordered).cons key)
      bounded := by
        have below := evict_length _ _ _ cache.ordered cache.room
        rw [keys_insert, List.length_cons]
        exact Nat.succ_le_of_lt (Nat.lt_of_le_of_lt (List.length_erase_le) below) }

def remove : Lru K V :=
  { cache with
    map := cache.map.erase key
    order := cache.order.erase key
    ordered := by
      rw [keys_erase]
      exact cache.ordered.erase key
    bounded := by
      rw [keys_erase]
      exact Nat.le_trans List.length_erase_le cache.bounded }

def purge : Lru K V :=
  { cache with
    map := ∅
    order := []
    ordered := .refl _
    bounded := Nat.zero_le _ }

@[simp] theorem get_fst : (cache.get key).1 = cache.peek key := by
  unfold get
  split <;> simp_all

@[simp] theorem peek_get (used key : K) : (cache.get used).2.peek key = cache.peek key := by
  unfold get
  split <;> rfl

@[simp] theorem peek_put_self (value : V) : (cache.put key value).peek key = some value := by
  unfold put
  split
  · exact lookup_insert _
  · exact lookup_insert _

theorem peek_of_put {cache : Lru K V} {key other value found} (different : other ≠ key)
    (there : (cache.put key value).peek other = some found) : cache.peek other = some found := by
  unfold put at there
  split at there
  · exact (lookup_insert_ne different).symm.trans there
  · exact lookup_of_evict _ _ _ ((lookup_insert_ne different).symm.trans there)

@[simp] theorem peek_remove_self : (cache.remove key).peek key = none :=
  lookup_erase _ _

@[simp] theorem peek_remove_of_ne {cache : Lru K V} {key other} (different : other ≠ key) :
    (cache.remove key).peek other = cache.peek other := lookup_erase_ne different

/-- Every entry of the cache is one of the ground it stands before. -/
def Agrees (ground : K → Option V) : Prop :=
  ∀ key value, cache.peek key = some value → ground key = some value

namespace Agrees

variable {cache : Lru K V} {ground : K → Option V}

theorem new (cap : Nat) : (Lru.new cap : Lru K V).Agrees ground := fun _ _ found => nomatch found

theorem purge : cache.purge.Agrees ground := fun _ _ found => nomatch found

section

variable (agrees : cache.Agrees ground)
include agrees

theorem get (key : K) : (cache.get key).2.Agrees ground := by
  intro other value found
  exact agrees other value ((peek_get cache key other).symm.trans found)

theorem put {key value} (now : ground key = some value) : (cache.put key value).Agrees ground := by
  intro other found there
  by_cases same : other = key
  · subst same
    rw [peek_put_self] at there
    exact now.trans there
  · exact agrees other found (peek_of_put same there)

theorem put_update (key : K) (value : V) : (cache.put key value).Agrees (Function.update ground key (some value)) := by
  intro other found there
  by_cases same : other = key
  · subst same
    rw [peek_put_self] at there
    rw [Function.update_self]
    exact there
  · rw [Function.update_of_ne same]
    exact agrees other found (peek_of_put same there)

theorem remove_update (key : K) (value : Option V) : (cache.remove key).Agrees (Function.update ground key value) := by
  intro other found there
  by_cases same : other = key
  · subst same
    simp at there
  · rw [Function.update_of_ne same]
    exact agrees other found ((peek_remove_of_ne same).symm.trans there)

end

end Agrees

end Lru

end DrasiCore.Library
