import Mathlib.Order.Lattice
import Mathlib.Data.List.Pairwise

/-! Maps kept as association lists in increasing key order, with one entry per key. Iteration visits the entries in
key order, and inserting under a present key replaces its value. -/

namespace DrasiCore.Library

open List

variable {K V : Type} [LinearOrder K]
variable {entries : List (K × V)}

/-- Put an entry at the place its key has in the order, replacing an entry with the same key. -/
def insertEntry (key : K) (value : V) : List (K × V) → List (K × V)
  | [] => [(key, value)]
  | (k, v) :: rest =>
    if key < k then (key, value) :: (k, v) :: rest
    else if key = k then (key, value) :: rest
    else (k, v) :: insertEntry key value rest

theorem lookup_insertEntry_self (key : K) (value : V) (entries : List (K × V)) :
    (insertEntry key value entries).lookup key = some value := by
  induction entries with
  | nil => simp [insertEntry]
  | cons entry rest ih =>
    obtain ⟨k, v⟩ := entry
    simp only [insertEntry]
    split
    · simp
    · split
      · simp
      · next different =>
        simpa [lookup_cons, beq_eq_false_iff_ne.mpr different] using ih

theorem lookup_insertEntry_of_ne {key other} (value : V) (different : other ≠ key) (entries : List (K × V)) :
    (insertEntry key value entries).lookup other = entries.lookup other := by
  have skip : (other == key) = false := beq_eq_false_iff_ne.mpr different
  induction entries with
  | nil => simp [insertEntry, lookup_cons, skip]
  | cons entry rest ih =>
    obtain ⟨k, v⟩ := entry
    simp only [insertEntry]
    split
    · simp [lookup_cons, skip]
    · split
      · next same => simp [lookup_cons, ← same, skip]
      · simp only [lookup_cons, ih]

theorem mem_insertEntry {key value entry} (member : entry ∈ insertEntry key value entries) :
    entry = (key, value) ∨ entry ∈ entries := by
  induction entries with
  | nil => exact .inl (by simpa [insertEntry] using member)
  | cons first rest ih =>
    obtain ⟨k, v⟩ := first
    simp only [insertEntry] at member
    split at member
    · simpa using member
    · split at member
      · rcases mem_cons.mp member with here | later
        · exact .inl here
        · exact .inr (mem_cons_of_mem _ later)
      · rcases mem_cons.mp member with here | later
        · exact .inr (here ▸ mem_cons_self)
        · exact (ih later).imp_right (mem_cons_of_mem _)

theorem mem_keys_insertEntry {key other value} :
    other ∈ (insertEntry key value entries).map (·.1) ↔ other = key ∨ other ∈ entries.map (·.1) := by
  induction entries with
  | nil => simp [insertEntry]
  | cons first rest ih =>
    obtain ⟨k, v⟩ := first
    simp only [insertEntry]
    split
    · simp
    · split
      · next same => simp [same]
      · rw [map_cons, mem_cons, ih, map_cons, mem_cons]
        exact or_left_comm

theorem sorted_insertEntry (key : K) (value : V) (sorted : entries.Pairwise fun left right => left.1 < right.1) :
    (insertEntry key value entries).Pairwise fun left right => left.1 < right.1 := by
  induction entries with
  | nil => simp [insertEntry]
  | cons first rest ih =>
    obtain ⟨k, v⟩ := first
    obtain ⟨above, tail⟩ := pairwise_cons.mp sorted
    simp only [insertEntry]
    split
    · next below =>
      refine pairwise_cons.mpr ⟨?_, sorted⟩
      intro entry member
      rcases mem_cons.mp member with rfl | later
      · exact below
      · exact below.trans (above entry later)
    · next notBelow =>
      split
      · next same => exact pairwise_cons.mpr ⟨fun entry later => same ▸ above entry later, tail⟩
      · next different =>
        have beyond : k < key := lt_of_le_of_ne (not_lt.mp notBelow) (Ne.symm different)
        refine pairwise_cons.mpr ⟨?_, ih tail⟩
        intro entry member
        rcases mem_insertEntry member with rfl | later
        · exact beyond
        · exact above entry later

/-- A map in key order: the proof of the order travels with the entries. -/
structure OrderedMap (K V : Type) [LinearOrder K] where
  entries : List (K × V)
  sorted : entries.Pairwise fun left right => left.1 < right.1
deriving DecidableEq

namespace OrderedMap

def empty : OrderedMap K V := ⟨[], List.Pairwise.nil⟩

variable (map : OrderedMap K V)

def get? (key : K) : Option V := map.entries.lookup key

def insert (key : K) (value : V) : OrderedMap K V :=
  ⟨insertEntry key value map.entries, sorted_insertEntry key value map.sorted⟩

def erase (key : K) : OrderedMap K V :=
  ⟨map.entries.filter fun entry => entry.1 ≠ key, map.sorted.filter _⟩

def values : List V := map.entries.map (·.2)

def mapValues {W : Type} (convert : V → W) (map : OrderedMap K V) : OrderedMap K W :=
  ⟨map.entries.map fun entry => (entry.1, convert entry.2), pairwise_map.mpr map.sorted⟩

@[simp] theorem get?_insert_self (key : K) (value : V) :
    (map.insert key value).get? key = some value := lookup_insertEntry_self key value map.entries

theorem get?_insert_of_ne {key other} (value : V) (different : other ≠ key) :
    (map.insert key value).get? other = map.get? other := lookup_insertEntry_of_ne value different map.entries

end OrderedMap

theorem lookup_eq_some_of_mem {K V : Type} [DecidableEq K] {entries : List (K × V)} (nodup : (entries.map (·.1)).Nodup)
    {key value} (member : (key, value) ∈ entries) : entries.lookup key = some value := by
  induction entries with
  | nil => cases member
  | cons entry entries ih =>
    rw [map_cons, nodup_cons] at nodup
    rcases mem_cons.mp member with rfl | later
    · simp
    · have different : key ≠ entry.1 := fun same => nodup.1 (mem_map.mpr ⟨(key, value), later, same⟩)
      rw [lookup_cons, beq_eq_false_iff_ne.mpr different]
      exact ih nodup.2 later

theorem mem_of_lookup_eq_some {K V : Type} [DecidableEq K] {entries : List (K × V)} {key value}
    (found : entries.lookup key = some value) : (key, value) ∈ entries := by
  induction entries with
  | nil => cases found
  | cons entry entries ih =>
    rw [lookup_cons] at found
    split at found
    · next same =>
      cases found
      rw [eq_of_beq same]
      exact mem_cons_self
    · exact mem_cons_of_mem _ (ih found)

end DrasiCore.Library
