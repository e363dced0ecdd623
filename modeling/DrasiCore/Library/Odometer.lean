import Mathlib.Algebra.BigOperators.Group.List.Basic
import Mathlib.Tactic.Ring

/-! Counting through all combinations of digits, the first digit running fastest. Every key has its own number of
digits. -/

namespace DrasiCore.Library.Odometer

variable {K : Type} (size : K → Nat)
variable {rest : List (K × Nat)}

def advance : List (K × Nat) → Option (List (K × Nat))
  | [] => none
  | (key, digit) :: rest =>
    if digit < size key - 1 then some ((key, digit + 1) :: rest) else (advance rest).map ((key, 0) :: ·)

def sweep : Nat → List (K × Nat) → List (List (K × Nat))
  | 0, _ => []
  | fuel + 1, digits => digits :: (advance size digits).elim [] (sweep fuel)

def capacity (keys : List K) : Nat := (keys.map size).prod

def value : List (K × Nat) → Nat
  | [] => 0
  | (key, digit) :: rest => digit + size key * value rest

def InRange (digits : List (K × Nat)) : Prop := ∀ entry ∈ digits, entry.2 < size entry.1

variable {size}

theorem InRange.head {key digit} (inRange : InRange size ((key, digit) :: rest)) :
    digit < size key := inRange (key, digit) List.mem_cons_self

theorem InRange.tail {entry} (inRange : InRange size (entry :: rest)) :
    InRange size rest := fun other member => inRange other (List.mem_cons_of_mem _ member)

theorem InRange.cons {key digit} (small : digit < size key) (inRange : InRange size rest) :
    InRange size ((key, digit) :: rest) := by
  intro entry member
  rcases List.mem_cons.mp member with rfl | later
  · exact small
  · exact inRange entry later

theorem value_lt : ∀ {digits : List (K × Nat)}, InRange size digits → value size digits < capacity size (digits.map (·.1))
  | [], _ => by simp [value, capacity]
  | (key, digit) :: rest, inRange => by
    have small := inRange.head
    have below := value_lt inRange.tail
    have step : size key * (value size rest + 1) ≤ size key * capacity size (rest.map (·.1)) :=
      Nat.mul_le_mul_left _ below
    simp only [value, capacity, List.map_cons, List.prod_cons] at step ⊢
    rw [Nat.mul_add] at step
    omega

theorem value_injective : ∀ {left right : List (K × Nat)}, left.map (·.1) = right.map (·.1) → InRange size left →
    InRange size right → value size left = value size right → left = right
  | [], [], _, _, _, _ => rfl
  | (key, digit) :: rest, (other, digit') :: rest', keys, inRange, inRange', same => by
    obtain ⟨rfl, tails⟩ : key = other ∧ rest.map (·.1) = rest'.map (·.1) := by simpa using keys
    have positive : 0 < size key := Nat.zero_lt_of_lt inRange.head
    have digits : digit = digit' := by
      have low := congrArg (· % size key) same
      simpa [value, Nat.add_mul_mod_self_left, Nat.mod_eq_of_lt inRange.head, Nat.mod_eq_of_lt inRange'.head] using low
    have rests : value size rest = value size rest' := by
      have high := congrArg (· / size key) same
      simpa [value, Nat.add_mul_div_left _ _ positive, Nat.div_eq_of_lt inRange.head,
        Nat.div_eq_of_lt inRange'.head] using high
    rw [digits, value_injective tails inRange.tail inRange'.tail rests]

theorem advance_some : ∀ {digits next : List (K × Nat)}, InRange size digits → advance size digits = some next →
    next.map (·.1) = digits.map (·.1) ∧ InRange size next ∧ value size next = value size digits + 1
  | (key, digit) :: rest, next, inRange, found => by
    simp only [advance] at found
    split at found
    · next room =>
      cases found
      refine ⟨rfl, InRange.cons (by omega) inRange.tail, ?_⟩
      simp only [value]
      omega
    · next full =>
      obtain ⟨later, carried, rfl⟩ := Option.map_eq_some_iff.mp found
      obtain ⟨keys, range, count⟩ := advance_some inRange.tail carried
      have small := inRange.head
      refine ⟨by simp [keys], InRange.cons (by omega) range, ?_⟩
      simp only [value, count]
      have last : digit + 1 = size key := by omega
      calc 0 + size key * (value size rest + 1) = size key + size key * value size rest := by ring
        _ = digit + size key * value size rest + 1 := by omega

theorem advance_none : ∀ {digits : List (K × Nat)}, InRange size digits → advance size digits = none →
    value size digits + 1 = capacity size (digits.map (·.1))
  | [], _, _ => by simp [value, capacity]
  | (key, digit) :: rest, inRange, stopped => by
    simp only [advance] at stopped
    split at stopped
    · cases stopped
    · next full =>
      have last := advance_none inRange.tail (Option.map_eq_none_iff.mp stopped)
      have small := inRange.head
      simp only [value, capacity, List.map_cons, List.prod_cons] at last ⊢
      rw [← last, Nat.mul_add]
      omega

/-- A sweep visits every combination from its start on for which it has the fuel. -/
theorem mem_sweep_of_value {target} (targetRange : InRange size target) :
    ∀ {fuel : Nat} {digits : List (K × Nat)}, InRange size digits → target.map (·.1) = digits.map (·.1) →
      value size digits ≤ value size target → value size target < value size digits + fuel →
        target ∈ sweep size fuel digits := by
  intro fuel
  induction fuel with
  | zero =>
    intro digits _ _ reached ends
    omega
  | succ fuel ih =>
    intro digits inRange keys reached ends
    rcases Nat.eq_or_lt_of_le reached with same | before
    · rw [value_injective keys targetRange inRange same.symm]
      exact List.mem_cons_self
    · refine List.mem_cons_of_mem _ ?_
      cases next : advance size digits with
      | none =>
        have last := advance_none inRange next
        have bound := value_lt targetRange
        rw [keys] at bound
        omega
      | some later =>
        obtain ⟨laterKeys, laterRange, count⟩ := advance_some inRange next
        exact ih laterRange (keys.trans laterKeys.symm) (by omega) (by omega)

/-- With as much fuel as there are combinations, the sweep from the zeros visits all of them. -/
theorem mem_sweep (keys : List K) (choice : K → Nat) (inside : ∀ key ∈ keys, choice key < size key) :
    keys.map (fun key => (key, choice key)) ∈ sweep size (capacity size keys) (keys.map fun key => (key, 0)) := by
  have choiceRange : InRange size (keys.map fun key => (key, choice key)) := by
    intro entry member
    obtain ⟨key, present, rfl⟩ := List.mem_map.mp member
    exact inside key present
  have zeroRange : InRange size (keys.map fun key => (key, 0)) := by
    intro entry member
    obtain ⟨key, present, rfl⟩ := List.mem_map.mp member
    exact Nat.zero_lt_of_lt (inside key present)
  have zero : ∀ listed : List K, value size (listed.map fun key => (key, 0)) = 0 := by
    intro listed
    induction listed with
    | nil => rfl
    | cons key listed ih => simp [value, ih]
  refine mem_sweep_of_value choiceRange zeroRange (by simp) (by simp [zero]) ?_
  have bound := value_lt choiceRange
  rw [List.map_map] at bound
  simpa [zero, Function.comp_def] using bound

end DrasiCore.Library.Odometer
