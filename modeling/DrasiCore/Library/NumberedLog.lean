import DrasiCore.Library.OrderedMap
import Mathlib.Data.List.DropRight

/-! Logs whose entries carry consecutive numbers from one on, and the windows at their end that a bounded buffer keeps. -/

namespace DrasiCore.Library

open List

variable {A : Type}

/-- The entries carry the numbers one, two, three and so on. -/
def Numbered (number : A → Nat) (log : List A) : Prop := log.map number = range' 1 log.length

variable {number : A → Nat} {log : List A}

theorem numbered_nil : Numbered number [] := rfl

theorem Numbered.append (numbered : Numbered number log) {entry} (next : number entry = log.length + 1) :
    Numbered number (log ++ [entry]) := by
  unfold Numbered at numbered ⊢
  rw [map_append, numbered, length_append, length_singleton, range'_concat]
  simp [next, Nat.add_comm]

theorem Numbered.of_append {entry} (numbered : Numbered number (log ++ [entry])) :
    Numbered number log ∧ number entry = log.length + 1 := by
  unfold Numbered at numbered ⊢
  rw [map_append, length_append, length_singleton, range'_concat] at numbered
  obtain ⟨front, last⟩ := append_inj numbered (by simp)
  refine ⟨front, ?_⟩
  simpa [Nat.add_comm] using last

section

variable (numbered : Numbered number log)
include numbered

theorem Numbered.drop (count : Nat) : (log.drop count).map number = range' (1 + count) (log.length - count) := by
  rw [map_drop, numbered, drop_range']
  simp

theorem Numbered.distinct : (log.map number).Nodup := by
  rw [numbered]
  exact nodup_range'

/-- The entries from a number on. -/
theorem Numbered.dropWhile_below (count first : Nat) :
    (log.drop count).dropWhile (fun entry => number entry < first) = log.drop (max count (first - 1)) := by
  have numbers := numbered.drop count
  induction remaining : log.length - count generalizing count with
  | zero =>
    rw [drop_eq_nil_of_le (by omega), drop_eq_nil_of_le (by omega)]
    rfl
  | succ remaining ih =>
    have inside : count < log.length := by omega
    rw [drop_eq_getElem_cons inside] at numbers ⊢
    rw [show log.length - count = (log.length - (count + 1)) + 1 by omega, map_cons, range'_succ] at numbers
    obtain ⟨here, later⟩ := cons.inj numbers
    by_cases below : number log[count] < first
    · rw [dropWhile_cons_of_pos (by simpa using below), ih (count + 1) (numbered.drop _) (by omega)]
      congr 1
      omega
    · rw [dropWhile_cons_of_neg (by simpa using below), ← drop_eq_getElem_cons inside]
      congr 1
      omega

/-- The same entries, sought one by one. -/
theorem Numbered.filter_from (count first : Nat) :
    (log.drop count).filter (fun entry => first ≤ number entry) = log.drop (max count (first - 1)) := by
  rw [← numbered.dropWhile_below]
  have increasing : ((log.drop count).map number).Pairwise (· < ·) := by
    rw [numbered.drop]
    exact pairwise_lt_range' 1
  generalize log.drop count = entries at increasing
  induction entries with
  | nil => rfl
  | cons entry entries ih =>
    rw [map_cons, pairwise_cons] at increasing
    by_cases below : number entry < first
    · rw [filter_cons_of_neg (by simpa using below), dropWhile_cons_of_pos (by simpa using below),
        ih increasing.2]
    · rw [dropWhile_cons_of_neg (by simpa using below), filter_eq_self.mpr]
      intro other member
      rcases mem_cons.mp member with rfl | later
      · simpa using below
      · have above := increasing.1 _ (mem_map_of_mem later)
        simp only [decide_eq_true_eq]
        omega

end

theorem rtake_drop (log : List A) (count size : Nat) :
    (log.drop count).rtake size = log.drop (max count (log.length - size)) := by
  unfold rtake
  rw [drop_drop, length_drop]
  by_cases inside : count ≤ log.length
  · congr 1
    omega
  · rw [drop_eq_nil_of_le (by omega), drop_eq_nil_of_le (by omega)]

theorem rtake_eq_drop (log : List A) (size : Nat) : log.rtake size = log.drop (log.length - size) := rfl

theorem push_window (log : List A) (entry : A) {gone size} (inside : gone ≤ log.length) (positive : 0 < size) :
    (if size ≤ (log.drop (max gone (log.length - size))).length then (log.drop (max gone (log.length - size))).tail
      else log.drop (max gone (log.length - size))) ++ [entry] =
      (log ++ [entry]).drop (max gone (log.length + 1 - size)) := by
  rw [drop_append_of_le_length (by omega), length_drop]
  congr 1
  split
  · rw [tail_drop]
    congr 1
    omega
  · congr 1
    omega

theorem eq_range'_of_consecutive {first rest}
    (consecutive : ∀ window ∈ (first :: rest).zip rest, window.2 = window.1 + 1) :
    first :: rest = range' first (rest.length + 1) := by
  induction rest generalizing first with
  | nil => rfl
  | cons next rest ih =>
    have follows : next = first + 1 := consecutive (first, next) mem_cons_self
    subst follows
    rw [ih fun window member => consecutive window (mem_cons_of_mem _ member), length_range']
    rfl

/-- The numbers of a range beyond one that is not too small. -/
theorem filter_range'_beyond {first count position} (reached : first ≤ position + 1) :
    (range' first count).filter (fun number => position < number) =
      range' (position + 1) (first + count - (position + 1)) := by
  induction count generalizing first with
  | zero =>
    have none : first + 0 - (position + 1) = 0 := Nat.sub_eq_zero_of_le reached
    rw [none]
    rfl
  | succ count ih =>
    rw [range'_succ]
    by_cases beyond : position < first
    · have here : first = position + 1 := by omega
      subst here
      rw [filter_eq_self.mpr]
      · rw [show position + 1 + (count + 1) - (position + 1) = count + 1 by omega, range'_succ]
      · intro number member
        have above : position + 1 ≤ number := (mem_cons.mp member).elim (fun same => same ▸ le_rfl)
          fun later => le_of_lt (mem_range'_1.mp later).1
        simpa using Nat.lt_of_succ_le above
    · rw [filter_cons_of_neg (by simpa using beyond), ih (by omega)]
      congr 1
      omega

theorem insertEntry_last {K V : Type} [LinearOrder K] {entries : List (K × V)} {key : K} (value : V)
    (beyond : ∀ entry ∈ entries, entry.1 < key) : insertEntry key value entries = entries ++ [(key, value)] := by
  induction entries with
  | nil => rfl
  | cons entry entries ih =>
    have below : entry.1 < key := beyond entry mem_cons_self
    rw [insertEntry, if_neg below.not_gt, if_neg below.ne', ih fun other member => beyond other (mem_cons_of_mem _ member)]
    rfl

end DrasiCore.Library
