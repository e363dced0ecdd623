import DrasiCore.Library.OrderedMap
import Mathlib.Data.Multiset.Count

/-! Multisets over a linear order, kept as ordered maps from their elements to how often they occur. -/

namespace DrasiCore.Library

variable {K V : Type} [LinearOrder K]

namespace OrderedMap

theorem keys_nodup (map : OrderedMap K V) : (map.entries.map (·.1)).Nodup := by
  rw [List.nodup_iff_pairwise_ne, List.pairwise_map]
  exact map.sorted.imp fun below => below.ne

theorem mem_entries_iff {map : OrderedMap K V} {key value} : (key, value) ∈ map.entries ↔ map.get? key = some value :=
  ⟨lookup_eq_some_of_mem map.keys_nodup, mem_of_lookup_eq_some⟩

theorem get?_erase (map : OrderedMap K V) (key other : K) :
    (map.erase key).get? other = if other = key then none else map.get? other := by
  apply Option.ext
  intro value
  rw [← mem_entries_iff]
  change (other, value) ∈ map.entries.filter _ ↔ _
  rw [List.mem_filter, mem_entries_iff]
  split
  next same => simp [same]
  next different => simp [different]

end OrderedMap

def HasLeast (bag : Multiset K) : Option K → Prop
  | none => bag = 0
  | some least => least ∈ bag ∧ ∀ key ∈ bag, least ≤ key

end DrasiCore.Library
