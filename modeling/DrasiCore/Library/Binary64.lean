import Mathlib.Algebra.Order.Ring.Int
import Mathlib.Tactic.Ring

/-! Double-precision numbers by their fields. A number that is not a NaN is compared by its multiple of the least positive
double, an integer; infinities are multiples beyond all others. -/

namespace DrasiCore.Library

structure Binary64 where
  negative : Bool
  exponent : Fin 2048
  mantissa : Fin (2 ^ 52)
deriving DecidableEq

namespace Binary64

variable {left right number : Binary64}

def unit : Nat := 2 ^ 1074

def isNan (number : Binary64) : Bool := number.exponent.val = 2047 && number.mantissa.val ≠ 0

def magnitude (number : Binary64) : Nat :=
  if number.exponent.val = 0 then number.mantissa.val
  else (2 ^ 52 + number.mantissa.val) * 2 ^ (number.exponent.val - 1)

def scaled (number : Binary64) : Int := if number.negative then -number.magnitude else number.magnitude

/-- Comparison for equality: no NaN equals anything, and both zeros are equal. -/
def eq (left right : Binary64) : Bool := !left.isNan && !right.isNan && left.scaled = right.scaled

def toBits (number : Binary64) : Nat :=
  (if number.negative then 2 ^ 63 else 0) + number.exponent.val * 2 ^ 52 + number.mantissa.val

/-- The fractional part is zero. That of an infinity is a NaN. -/
def isIntegral (number : Binary64) : Bool := number.exponent.val ≠ 2047 && number.magnitude % unit = 0

def zero : Binary64 := ⟨false, 0, 0⟩

def neg (number : Binary64) : Binary64 := { number with negative := !number.negative }

theorem ext_fields (sign : left.negative = right.negative) (exponent : left.exponent.val = right.exponent.val)
    (mantissa : left.mantissa.val = right.mantissa.val) : left = right := by
  obtain ⟨negative, e, m⟩ := left
  obtain ⟨negative', e', m'⟩ := right
  obtain rfl : negative = negative' := sign
  obtain rfl := Fin.ext exponent
  obtain rfl := Fin.ext mantissa
  rfl

theorem magnitude_lt (below : left.exponent.val < right.exponent.val) : left.magnitude < right.magnitude := by
  have bound := left.mantissa.isLt
  have positive : right.exponent.val ≠ 0 := by omega
  unfold magnitude
  rw [if_neg positive]
  split
  case isTrue =>
    calc left.mantissa.val < 2 ^ 52 := bound
      _ ≤ 2 ^ 52 + right.mantissa.val := Nat.le_add_right _ _
      _ ≤ (2 ^ 52 + right.mantissa.val) * 2 ^ (right.exponent.val - 1) := Nat.le_mul_of_pos_right _ (Nat.two_pow_pos _)
  case isFalse some =>
    have step : 2 ^ left.exponent.val ≤ 2 ^ (right.exponent.val - 1) := Nat.pow_le_pow_right (by decide) (by omega)
    have double : 2 ^ left.exponent.val = 2 * 2 ^ (left.exponent.val - 1) := by
      rw [← pow_succ']
      congr 1
      omega
    calc (2 ^ 52 + left.mantissa.val) * 2 ^ (left.exponent.val - 1)
        < (2 ^ 52 + 2 ^ 52) * 2 ^ (left.exponent.val - 1) := Nat.mul_lt_mul_of_pos_right (by omega) (Nat.two_pow_pos _)
      _ = 2 ^ 52 * 2 ^ left.exponent.val := by rw [double]; ring
      _ ≤ 2 ^ 52 * 2 ^ (right.exponent.val - 1) := Nat.mul_le_mul_left _ step
      _ ≤ (2 ^ 52 + right.mantissa.val) * 2 ^ (right.exponent.val - 1) := Nat.mul_le_mul_right _ (Nat.le_add_right _ _)

theorem magnitude_inj (same : left.magnitude = right.magnitude) :
    left.exponent.val = right.exponent.val ∧ left.mantissa.val = right.mantissa.val := by
  have exponent : left.exponent.val = right.exponent.val := by
    rcases Nat.lt_trichotomy left.exponent.val right.exponent.val with below | equal | above
    · exact absurd same (magnitude_lt below).ne
    · exact equal
    · exact absurd same (magnitude_lt above).ne'
  refine ⟨exponent, ?_⟩
  unfold magnitude at same
  rw [exponent] at same
  split at same
  · exact same
  · have := Nat.eq_of_mul_eq_mul_right (Nat.two_pow_pos _) same
    omega

theorem natAbs_scaled (number : Binary64) : number.scaled.natAbs = number.magnitude := by
  unfold scaled
  split <;> simp

theorem eq_of_scaled (same : left.scaled = right.scaled) (nonzero : left.scaled ≠ 0) : left = right := by
  have magnitudes : left.magnitude = right.magnitude := by
    rw [← natAbs_scaled, ← natAbs_scaled, same]
  obtain ⟨exponent, mantissa⟩ := magnitude_inj magnitudes
  refine ext_fields ?_ exponent mantissa
  unfold scaled at same nonzero
  rw [magnitudes] at same nonzero
  cases leftSign : left.negative <;> cases rightSign : right.negative <;> simp only [leftSign, rightSign] at same nonzero ⊢
  all_goals
    simp only [if_true, Bool.false_eq_true, if_false] at same nonzero
    omega

theorem eq_iff : left.eq right = true ↔ left.isNan = false ∧ right.isNan = false ∧ left.scaled = right.scaled := by
  simp [eq, and_assoc]

theorem scaled_of_isIntegral (integral : number.isIntegral = true) : number.scaled = number.scaled / unit * unit := by
  have divides : (unit : Int) ∣ number.scaled := by
    have := Nat.dvd_of_mod_eq_zero (of_decide_eq_true (Bool.and_eq_true_iff.mp integral).2)
    rw [← natAbs_scaled] at this
    exact Int.natCast_dvd.mpr this
  exact (Int.ediv_mul_cancel divides).symm

theorem not_isNan_of_isIntegral (integral : number.isIntegral = true) : number.isNan = false := by
  have finite := of_decide_eq_true (Bool.and_eq_true_iff.mp integral).1
  simp [isNan, finite]

theorem not_isNan_of_zero (zero : number.scaled = 0) : number.isNan = false := by
  have same : number.magnitude = Binary64.zero.magnitude := by
    rw [← natAbs_scaled, zero]
    rfl
  obtain ⟨exponent, _⟩ := magnitude_inj same
  have small : number.exponent.val = 0 := exponent
  simp [isNan, small]

theorem toBits_inj (same : left.toBits = right.toBits) : left = right := by
  have bounds := And.intro left.exponent.isLt right.exponent.isLt
  have bounds' := And.intro left.mantissa.isLt right.mantissa.isLt
  unfold toBits at same
  cases leftSign : left.negative <;> cases rightSign : right.negative <;> simp only [leftSign, rightSign] at same
  all_goals simp only [if_true, Bool.false_eq_true, if_false] at same
  all_goals first
    | exact ext_fields (leftSign.trans rightSign.symm) (by omega) (by omega)
    | exact absurd same (by omega)

end Binary64

end DrasiCore.Library
