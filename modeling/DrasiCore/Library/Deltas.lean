import Mathlib.Data.Finset.Basic
import Mathlib.Data.List.AList

/-! A map kept as changes to a ground it does not see: entries added, and keys removed. An entry that was added and is
removed again just leaves the additions, so that what the ground has under its key shows through. -/

namespace DrasiCore.Library

variable {K V : Type*} [DecidableEq K]

structure Deltas (K V : Type*) [DecidableEq K] where
  added : AList fun _ : K => V
  removed : Finset K

namespace Deltas

variable {deltas : Deltas K V}

def empty : Deltas K V := ⟨∅, ∅⟩

def add (deltas : Deltas K V) (key : K) (value : V) : Deltas K V :=
  ⟨deltas.added.insert key value, deltas.removed.erase key⟩

def remove (deltas : Deltas K V) (key : K) : Deltas K V :=
  if key ∈ deltas.added then { deltas with added := deltas.added.erase key }
  else { deltas with removed := insert key deltas.removed }

def onto (deltas : Deltas K V) (ground : K → Option V) (key : K) : Option V :=
  (deltas.added.lookup key).or (if key ∈ deltas.removed then none else ground key)

def Apart (deltas : Deltas K V) : Prop := ∀ key ∈ deltas.added, key ∉ deltas.removed

/-- A removal that takes back an addition and uncovers the ground. -/
def Uncovers (deltas : Deltas K V) (ground : K → Option V) (key : K) : Prop :=
  key ∈ deltas.added ∧ ground key ≠ none

@[simp] theorem over_empty (ground : K → Option V) : (empty : Deltas K V).onto ground = ground := rfl

theorem over_add (deltas : Deltas K V) (ground : K → Option V) (key : K) (value : V) :
    (deltas.add key value).onto ground = Function.update (deltas.onto ground) key (some value) := by
  funext other
  by_cases same : other = key
  · subst same
    simp [onto, add]
  · simp [onto, add, same, AList.lookup_insert_ne same]

theorem over_remove {ground key} (covered : ¬ deltas.Uncovers ground key) :
    (deltas.remove key).onto ground = Function.update (deltas.onto ground) key none := by
  funext other
  by_cases present : key ∈ deltas.added
  · have absent : ground key = none := by
      by_contra some
      exact covered ⟨present, some⟩
    by_cases same : other = key
    · subst same
      simp [onto, remove, present, absent]
    · simp [onto, remove, present, same, AList.lookup_erase_ne same]
  · by_cases same : other = key
    · subst same
      simp [onto, remove, present, AList.lookup_eq_none.mpr present]
    · simp [onto, remove, present, same]

theorem over_remove_of_uncovers {ground key} (apart : deltas.Apart) (uncovers : deltas.Uncovers ground key) :
    (deltas.remove key).onto ground key = ground key := by
  simp [onto, remove, uncovers.1, apart key uncovers.1]

theorem apart_empty : (empty : Deltas K V).Apart := fun _ member => absurd member (AList.notMem_empty _)

theorem Apart.add (apart : deltas.Apart) (key : K) (value : V) : (deltas.add key value).Apart := by
  intro other member removed
  rcases AList.mem_insert _ |>.mp member with rfl | before
  · exact Finset.notMem_erase _ _ removed
  · exact apart other before (Finset.mem_of_mem_erase removed)

theorem Apart.remove (apart : deltas.Apart) (key : K) : (deltas.remove key).Apart := by
  unfold Deltas.remove
  split
  · intro other member
    exact apart other (AList.mem_erase.mp member).2
  next absent =>
    intro other member removed
    rcases Finset.mem_insert.mp removed with rfl | before
    · exact absent member
    · exact apart other member before

section

variable {refused : V} (lacks : ∀ key, deltas.added.lookup key ≠ some refused)
include lacks

theorem lookup_add_ne {value} (different : value ≠ refused) (key other : K) :
    (deltas.add key value).added.lookup other ≠ some refused := by
  rw [add]
  by_cases same : other = key
  · rw [same, AList.lookup_insert]
    exact fun equal => different (Option.some.inj equal)
  · rw [AList.lookup_insert_ne same]
    exact lacks other

theorem lookup_remove_ne (key other : K) : (deltas.remove key).added.lookup other ≠ some refused := by
  rw [remove]
  split
  · by_cases same : other = key
    · rw [same, AList.lookup_erase]
      simp
    · rw [AList.lookup_erase_ne same]
      exact lacks other
  · exact lacks other

end

end Deltas

end DrasiCore.Library
