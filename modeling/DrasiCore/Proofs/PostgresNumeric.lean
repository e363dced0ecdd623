import DrasiCore.PostgresNumeric
import Mathlib.Tactic.FieldSimp
import Mathlib.Tactic.Linarith
import Mathlib.Tactic.Positivity

/-! Reading a numeric gives its value just when it has no fraction to display and the first digit is in the range of decimals. -/

namespace DrasiCore.PostgresNumeric

open Library List Option

/-- A well-formed numeric. -/
structure Numeric where
  weight : Int
  negative : Bool
  dscale : Nat
  digits : List Nat
  weightRange : -2 ^ 15 ≤ weight ∧ weight < 2 ^ 15
  dscaleRange : dscale < 2 ^ 16
  count : digits.length < 2 ^ 16
  small : ∀ digit ∈ digits, digit < 10000

variable (weight : Int) (entries : List (Nat × Nat))

namespace Numeric

variable (numeric : Numeric)

def words : List Nat :=
  [numeric.digits.length, (numeric.weight % 2 ^ 16).toNat, if numeric.negative then signNegative else 0, numeric.dscale] ++
    numeric.digits

def encode : ByteString := numeric.words.flatMap (bigEndian 2)

def sum : Rat := (entries.map fun entry => (entry.1 : Rat) * 10000 ^ (weight - entry.2)).sum

def value : Rat := (if numeric.negative then -1 else 1) * sum numeric.weight numeric.digits.zipIdx

/-- In range and with at most 28 decimals. -/
def Fits : Prop := |numeric.value| ≤ decimalMax ∧ ∃ number : Int, numeric.value * 10 ^ 28 = number

end Numeric

section Loops

variable {value : Rat}

theorem decimal_of_le (nonneg : 0 ≤ value) (fits : value ≤ decimalMax) : decimal value = some value :=
  if_pos ((abs_of_nonneg nonneg).trans_le fits)

theorem decimal_of_lt (large : decimalMax < value) : decimal value = none :=
  if_neg (not_le.mpr (large.trans_le (le_abs_self value)))

theorem repeated_mul {factor} (large : 1 ≤ factor) (count : Nat) (positive : 0 < value) (fits : value ≤ decimalMax) :
    repeated (fun result => decimal (result * factor)) count value = decimal (value * factor ^ count) := by
  induction count generalizing value with
  | zero => rw [repeated, pow_zero, mul_one, decimal_of_le positive.le fits]
  | succ count ih =>
    have factorPositive : 0 < factor := one_pos.trans_le large
    have split : value * factor ^ (count + 1) = value * factor * factor ^ count := by rw [pow_succ', mul_assoc]
    rw [repeated, split]
    rcases le_or_gt (value * factor) decimalMax with inRange | beyond
    · rw [decimal_of_le (by positivity) inRange, bind_some, ih (by positivity) inRange]
    · have grows : value * factor ≤ value * factor * factor ^ count :=
        le_mul_of_one_le_right (by positivity) (one_le_pow₀ large)
      rw [decimal_of_lt beyond, decimal_of_lt (beyond.trans_le grows)]
      rfl

theorem repeated_div (count : Nat) (positive : 0 < value) (fits : value ≤ decimalMax) :
    repeated (fun result => decimal (result / 10000)) count value = some (value / 10000 ^ count) := by
  induction count generalizing value with
  | zero => rw [repeated, pow_zero, div_one]
  | succ count ih =>
    have smaller : value / 10000 ≤ decimalMax := (div_le_self positive.le (by norm_num)).trans fits
    rw [repeated, decimal_of_le (by positivity) smaller, bind_some, ih (by positivity) smaller, div_div, pow_succ']

theorem multiplier_eq (power : Int) : multiplier power = if power ≤ 7 then some (10000 ^ power) else none := by
  have one : (1 : Rat) ≤ decimalMax := by norm_num [decimalMax]
  unfold multiplier
  split
  · next nonneg =>
    obtain ⟨exponent, rfl⟩ := Int.eq_ofNat_of_zero_le nonneg
    rw [Int.toNat_natCast, repeated_mul (by norm_num) exponent one_pos one, one_mul, zpow_natCast]
    split
    · next bound =>
      have most : (10000 : Rat) ^ exponent ≤ 10000 ^ 7 := pow_le_pow_right₀ (by norm_num) (by omega)
      exact decimal_of_le (by positivity) (most.trans (by norm_num [decimalMax]))
    · next bound =>
      have least : (10000 : Rat) ^ 8 ≤ 10000 ^ exponent := pow_le_pow_right₀ (by norm_num) (by omega)
      exact decimal_of_lt (lt_of_lt_of_le (by norm_num [decimalMax]) least)
  · next negative =>
    obtain ⟨exponent, rfl⟩ : ∃ exponent : Nat, power = -exponent := ⟨(-power).toNat, by omega⟩
    rw [neg_neg, Int.toNat_natCast, repeated_div exponent one_pos one, if_pos (by omega), zpow_neg, zpow_natCast, one_div]

theorem term_nonneg (entry : Nat × Nat) : (0 : Rat) ≤ entry.1 * 10000 ^ (weight - entry.2) :=
  mul_nonneg (Nat.cast_nonneg _) (zpow_nonneg (by norm_num) _)

theorem sum_nonneg : 0 ≤ Numeric.sum weight entries := by
  refine List.sum_nonneg fun term member => ?_
  obtain ⟨entry, _, rfl⟩ := mem_map.mp member
  exact term_nonneg weight entry

theorem foldlM_addDigit {weight : Int} {entries : List (Nat × Nat)} (powers : ∀ entry ∈ entries, weight - entry.2 ≤ 7)
    {result : Rat} (nonneg : 0 ≤ result) (fits : result + Numeric.sum weight entries ≤ decimalMax) :
    entries.foldlM (addDigit weight) result = some (result + Numeric.sum weight entries) := by
  induction entries generalizing result with
  | nil => simp [Numeric.sum]
  | cons entry entries ih =>
    obtain ⟨first, rest⟩ := forall_mem_cons.mp powers
    have term := term_nonneg weight entry
    have others := sum_nonneg weight entries
    have split : Numeric.sum weight (entry :: entries) = entry.1 * 10000 ^ (weight - entry.2) + Numeric.sum weight entries := by
      simp [Numeric.sum]
    rw [split, ← add_assoc] at fits ⊢
    have added : addDigit weight result entry = some (result + entry.1 * 10000 ^ (weight - entry.2)) := by
      simp only [addDigit, multiplier_eq, if_pos first, bind_eq_bind, bind_some]
      rw [decimal_of_le term (by linarith), bind_some, decimal_of_le (by linarith) (by linarith)]
    rw [foldlM_cons, added]
    exact ih rest (by linarith) fits

end Loops

section Words

variable {numeric : Numeric}

theorem word_lt {word} (member : word ∈ numeric.words) : word < 256 ^ 2 := by
  have weight := numeric.weightRange
  have dscale := numeric.dscaleRange
  have count := numeric.count
  rcases mem_append.mp member with field | digit
  · simp only [mem_cons, not_mem_nil, or_false] at field
    rcases field with rfl | rfl | rfl | rfl
    · exact count
    · omega
    · split <;> decide
    · exact dscale
  · have small := numeric.small word digit
    omega

theorem readU16_encode {index word} (here : numeric.words[index]? = some word) : readU16 numeric.encode index = word := by
  rw [readU16, Numeric.encode, take_drop_flatMap (length_bigEndian 2) here]
  exact ofBigEndian_bigEndian (word_lt (mem_of_getElem? here))

theorem length_encode : numeric.encode.length = 8 + 2 * numeric.digits.length := by
  rw [Numeric.encode, length_flatMap_of_fixed (length_bigEndian 2)]
  simp only [Numeric.words, length_append, length_cons, length_nil]
  omega

theorem decodeNumeric_encode :
    decodeNumeric numeric.encode =
      .ok (toDecimal numeric.weight (if numeric.negative then signNegative else 0) numeric.dscale numeric.digits) := by
  have weight : toI16 (numeric.weight % 2 ^ 16).toNat = numeric.weight := by
    have range := numeric.weightRange
    unfold toI16
    split <;> omega
  have digits : (range numeric.digits.length).map (fun index => readU16 numeric.encode (4 + index)) = numeric.digits := by
    refine ext_getElem (by simp) fun index _ inside => ?_
    rw [getElem_map, getElem_range, readU16_encode]
    rw [Numeric.words, getElem?_append_right (Nat.le_add_right 4 index)]
    simp
  have notNaN : (if numeric.negative then signNegative else 0) ≠ signNaN := by split <;> decide
  have ndigits : readU16 numeric.encode 0 = numeric.digits.length := readU16_encode rfl
  have sign : readU16 numeric.encode 2 = if numeric.negative then signNegative else 0 := readU16_encode rfl
  have dscale : readU16 numeric.encode 3 = numeric.dscale := readU16_encode rfl
  have weightWord : readU16 numeric.encode 1 = (numeric.weight % 2 ^ 16).toNat := readU16_encode rfl
  have long : ¬ 8 + 2 * numeric.digits.length < 8 := by omega
  simp only [decodeNumeric, length_encode, ndigits, sign, dscale, weightWord, weight, digits, if_neg long, if_neg notNaN,
    lt_irrefl, if_false]

end Words

theorem abs_value (numeric : Numeric) : |numeric.value| = Numeric.sum numeric.weight numeric.digits.zipIdx := by
  rw [Numeric.value, abs_mul, abs_of_nonneg (sum_nonneg _ _)]
  split <;> simp

variable {numeric : Numeric}

theorem foldlM_digits (fits : numeric.Fits) :
    numeric.digits.zipIdx.foldlM (addDigit numeric.weight) 0 =
      if numeric.digits = [] ∨ numeric.weight ≤ 7 then some (Numeric.sum numeric.weight numeric.digits.zipIdx) else none := by
  split
  · next start =>
    have inRange := fits.1
    rw [abs_value] at inRange
    have powers : ∀ entry ∈ numeric.digits.zipIdx, numeric.weight - entry.2 ≤ 7 := by
      intro entry member
      rcases start with none | low
      · rw [none] at member
        cases member
      · omega
    rw [foldlM_addDigit powers le_rfl (by rwa [zero_add]), zero_add]
  · next start =>
    obtain ⟨some', high⟩ := not_or.mp start
    obtain ⟨first, rest, same⟩ := exists_cons_of_ne_nil some'
    have noMultiplier : multiplier (numeric.weight - (0 : Nat)) = none := by
      rw [multiplier_eq, if_neg (by omega)]
    have panics : addDigit numeric.weight 0 (first, 0) = none := by
      simp only [addDigit, noMultiplier, bind_eq_bind, bind_none]
    rw [same, zipIdx_cons, foldlM_cons, panics]
    rfl

theorem divide_eq_some_iff (scale : 0 < numeric.dscale) (fits : numeric.Fits) :
    ((repeated (fun divisor => decimal (divisor * 10)) numeric.dscale 1).bind fun divisor => decimal (numeric.value / divisor)) =
      some numeric.value ↔ numeric.value = 0 ∧ numeric.dscale ≤ 28 := by
  rw [repeated_mul (by norm_num) numeric.dscale one_pos (by norm_num [decimalMax]), one_mul]
  rcases Nat.lt_or_ge 28 numeric.dscale with large | small
  · have least : (10 : Rat) ^ 29 ≤ 10 ^ numeric.dscale := pow_le_pow_right₀ (by norm_num) large
    rw [decimal_of_lt (lt_of_lt_of_le (by norm_num [decimalMax]) least)]
    exact iff_of_false nofun (by omega)
  · have most : (10 : Rat) ^ numeric.dscale ≤ 10 ^ 28 := pow_le_pow_right₀ (by norm_num) small
    have large : (1 : Rat) < 10 ^ numeric.dscale := one_lt_pow₀ (by norm_num) (by omega)
    have inRange : |numeric.value / 10 ^ numeric.dscale| ≤ decimalMax := by
      rw [abs_div, abs_of_pos (zero_lt_one.trans large)]
      exact (div_le_self (abs_nonneg _) large.le).trans fits.1
    rw [decimal_of_le (by positivity) (most.trans (by norm_num [decimalMax])), bind_some, decimal, if_pos inRange,
      some.injEq, and_iff_left small, div_eq_iff (by positivity)]
    constructor
    · intro same
      by_contra nonzero
      exact large.ne' ((mul_eq_left₀ nonzero).mp same.symm)
    · intro zero
      rw [zero, zero_mul]

/-- **Numerics.** One that fits a decimal is read as its value just when the multiplier of its first digit is in range, and
it has no display scale or is zero with a scale in range. -/
theorem postgres_numeric_exact_iff (numeric : Numeric) (fits : numeric.Fits) :
    decodeNumeric numeric.encode = .ok (some numeric.value) ↔
      (numeric.digits = [] ∨ numeric.weight ≤ 7) ∧ (numeric.dscale = 0 ∨ numeric.value = 0 ∧ numeric.dscale ≤ 28) := by
  have signed : (if (if numeric.negative then signNegative else 0) = signNegative then
      -Numeric.sum numeric.weight numeric.digits.zipIdx else Numeric.sum numeric.weight numeric.digits.zipIdx) = numeric.value := by
    unfold Numeric.value
    cases numeric.negative <;> simp [signNegative]
  rw [decodeNumeric_encode, Except.ok.injEq, toDecimal, foldlM_digits fits]
  by_cases start : numeric.digits = [] ∨ numeric.weight ≤ 7
  · rw [if_pos start, and_iff_right start]
    simp only [bind_eq_bind, bind_some, signed]
    by_cases scale : 0 < numeric.dscale
    · rw [if_pos scale, divide_eq_some_iff scale fits]
      exact (or_iff_right (Nat.pos_iff_ne_zero.mp scale)).symm
    · rw [if_neg scale]
      exact iff_of_true rfl (.inl (by omega))
  · rw [if_neg start]
    exact iff_of_false nofun fun holds => start holds.1

/-- One and a half, with one digit to display. -/
def oneAndHalf : Numeric := ⟨0, false, 1, [1, 5000], by decide, by decide, by decide, by decide⟩

theorem oneAndHalf_value : oneAndHalf.value = 3 / 2 := by
  norm_num [Numeric.value, Numeric.sum, oneAndHalf]

/-- It is read as fifteen hundredths. -/
theorem postgres_numeric_scaled_twice :
    oneAndHalf.Fits ∧ oneAndHalf.value = 3 / 2 ∧ decodeNumeric oneAndHalf.encode = .ok (some (3 / 20)) := by
  refine ⟨⟨?_, 15000000000000000000000000000, ?_⟩, oneAndHalf_value, by decide +kernel⟩
  · rw [oneAndHalf_value]
    norm_num [decimalMax, abs_of_nonneg]
  · rw [oneAndHalf_value]
    norm_num

/-- Minus twelve thousand and one without a fraction. -/
theorem postgres_numeric_exact_iff_integer :
    decodeNumeric (⟨1, true, 0, [1, 2001], by decide, by decide, by decide, by decide⟩ : Numeric).encode = .ok (some (-12001)) := by
  let numeric : Numeric := ⟨1, true, 0, [1, 2001], by decide, by decide, by decide, by decide⟩
  have value : numeric.value = -12001 := by
    norm_num [numeric, Numeric.value, Numeric.sum]
  have fits : numeric.Fits := by
    refine ⟨?_, -120010000000000000000000000000000, ?_⟩
    · rw [value]
      norm_num [decimalMax]
    · rw [value]
      norm_num
  rw [← value]
  exact (postgres_numeric_exact_iff numeric fits).mpr ⟨.inr (by decide), .inl rfl⟩

end DrasiCore.PostgresNumeric
