import DrasiCore.LinearGradient
import Mathlib.Tactic.FieldSimp
import Mathlib.Tactic.Linarith
import Mathlib.Tactic.LinearCombination
import Mathlib.Tactic.Positivity
import Mathlib.Tactic.Ring

/-! The slope kept call by call is that of the pairs at hand. Means and sums of products are compared with plain sums over
the pairs, so that adding and taking out a pair are one identity read in two directions. -/

namespace DrasiCore.LinearGradient

open Prod

variable {x y : VariableValue}

def mean (pairs : Multiset (Rat × Rat)) (quantity : Rat × Rat → Rat) : Rat := (pairs.map quantity).sum / pairs.card

/-- The sum of the products of the deviations of two quantities from their means. -/
def deviations (pairs : Multiset (Rat × Rat)) (first second : Rat × Rat → Rat) : Rat :=
  (pairs.map fun pair => (first pair - mean pairs first) * (second pair - mean pairs second)).sum

/-- The accumulator holds what a computation from all pairs gives. -/
structure Holds (state : LinearGradient) (pairs : Multiset (Rat × Rat)) : Prop where
  count : state.count = pairs.card
  meanX : state.meanX = mean pairs fst
  meanY : state.meanY = mean pairs snd
  m2 : state.m2 = deviations pairs fst fst
  cov : state.cov = deviations pairs fst snd

variable {pairs : Multiset (Rat × Rat)} {pair : Rat × Rat} {first second : Rat × Rat → Rat}

theorem card_mul_mean (pairs : Multiset (Rat × Rat)) (first : Rat × Rat → Rat) :
    (pairs.card : Rat) * mean pairs first = (pairs.map first).sum := by
  by_cases none : pairs = 0
  · simp [none]
  · have positive : (pairs.card : Rat) ≠ 0 := by simpa using none
    rw [mean, mul_div_cancel₀ _ positive]

theorem sum_deviations (a b : Rat) :
    (pairs.map fun pair => (first pair - a) * (second pair - b)).sum =
      (pairs.map fun pair => first pair * second pair).sum - b * (pairs.map first).sum - a * (pairs.map second).sum +
        pairs.card * (a * b) := by
  induction pairs using Multiset.induction_on with
  | empty => simp
  | cons pair pairs ih =>
    simp only [Multiset.map_cons, Multiset.sum_cons, Multiset.card_cons, ih]
    push_cast
    ring

theorem deviations_eq : deviations pairs first second =
    (pairs.map fun pair => first pair * second pair).sum - pairs.card * (mean pairs first * mean pairs second) := by
  rw [deviations, sum_deviations, ← card_mul_mean pairs first, ← card_mul_mean pairs second]
  ring

theorem mean_cons (pairs : Multiset (Rat × Rat)) (pair : Rat × Rat) (first : Rat × Rat → Rat) :
    (pairs.card + 1 : Rat) * mean (pair ::ₘ pairs) first = pairs.card * mean pairs first + first pair := by
  rw [card_mul_mean]
  simpa [add_comm] using card_mul_mean (pair ::ₘ pairs) first

theorem deviations_cons : deviations (pair ::ₘ pairs) first second =
    deviations pairs first second + (first pair - mean pairs first) * (second pair - mean (pair ::ₘ pairs) second) := by
  rw [deviations_eq, deviations_eq]
  simp only [Multiset.map_cons, Multiset.sum_cons, Multiset.card_cons]
  push_cast
  linear_combination (-mean (pair ::ₘ pairs) second) * mean_cons pairs pair first - mean pairs first * mean_cons pairs pair second

theorem deviations_cons_swap :
    (first pair - mean pairs first) * (second pair - mean (pair ::ₘ pairs) second) =
      (first pair - mean (pair ::ₘ pairs) first) * (second pair - mean pairs second) := by
  have swapped : deviations (pair ::ₘ pairs) first second = deviations (pair ::ₘ pairs) second first := by
    simp only [deviations, mul_comm]
  rw [deviations_cons, deviations_cons, show deviations pairs first second = deviations pairs second first by
    simp only [deviations, mul_comm]] at swapped
  linear_combination swapped

variable {state : LinearGradient}

theorem holds_initial : Holds initializeAccumulator 0 := by
  constructor <;> simp [initializeAccumulator, mean, deviations]

theorem Holds.add (holds : Holds state pairs) : Holds (state.add pair.1 pair.2) (pair ::ₘ pairs) := by
  have positive : (pairs.card + 1 : Rat) ≠ 0 := by positivity
  have next : ∀ quantity : Rat × Rat → Rat,
      mean pairs quantity + (quantity pair - mean pairs quantity) / ((pairs.card : Int) + 1 : Int) =
        mean (pair ::ₘ pairs) quantity := by
    intro quantity
    push_cast
    field_simp
    linear_combination -mean_cons pairs pair quantity
  have meanX := next fst
  have meanY := next snd
  constructor
  · simp [LinearGradient.add, holds.count]
  · simpa only [LinearGradient.add, holds.count, holds.meanX] using meanX
  · simpa only [LinearGradient.add, holds.count, holds.meanY] using meanY
  · simp only [LinearGradient.add, holds.count, holds.meanX, holds.m2, meanX, deviations_cons]
  · simp only [LinearGradient.add, holds.count, holds.meanX, holds.meanY, holds.cov, meanY, deviations_cons]

theorem Holds.subtract (holds : Holds state (pair ::ₘ pairs)) (rest : pairs ≠ 0) :
    Holds (state.subtract pair.1 pair.2) pairs := by
  have nonzero : (pairs.card : Rat) ≠ 0 := by simpa using rest
  have count : state.count - 1 = pairs.card := by simp [holds.count]
  have previous : ∀ quantity : Rat × Rat → Rat, mean (pair ::ₘ pairs) quantity -
      (quantity pair - mean (pair ::ₘ pairs) quantity) / ((pairs.card : Int) : Rat) = mean pairs quantity := by
    intro quantity
    push_cast
    field_simp
    linear_combination mean_cons pairs pair quantity
  have meanX := previous fst
  have meanY := previous snd
  constructor
  · exact count
  · simpa only [LinearGradient.subtract, count, holds.meanX] using meanX
  · simpa only [LinearGradient.subtract, count, holds.meanY] using meanY
  · simp only [LinearGradient.subtract, count, holds.meanX, holds.m2, meanX, deviations_cons, ← deviations_cons_swap]
    ring
  · simp only [LinearGradient.subtract, count, holds.meanX, holds.meanY, holds.cov, meanY, deviations_cons,
      ← deviations_cons_swap]
    ring

/-- The slope of the line through two or more pairs that do not lie above each other. -/
theorem Holds.result (holds : Holds state pairs) (several : 2 ≤ pairs.card)
    (spread : deviations pairs fst fst ≠ 0) :
    state.result = .float (deviations pairs fst snd / deviations pairs fst fst) := by
  have large : ¬ state.count < 2 := by
    rw [holds.count]
    omega
  have positive : ((state.count : Rat) - 1) ≠ 0 := by
    have : (2 : Rat) ≤ state.count := by exact_mod_cast not_lt.mp large
    linarith
  simp only [LinearGradient.result, variance, covariance, if_neg large, holds.m2, holds.cov]
  rw [if_neg (div_ne_zero spread positive), div_div_div_cancel_right₀ positive]

inductive Call where
  | apply (x y : VariableValue)
  | revert (x y : VariableValue)

def Call.perform (state : LinearGradient) : Call → Except FunctionError (VariableValue × LinearGradient)
  | .apply x y => state.apply [x, y]
  | .revert x y => state.revert [x, y]

def Reads (x y : VariableValue) (pair : Rat × Rat) : Prop :=
  extractParameter x 0 = .ok pair.1 ∧ extractParameter y 1 = .ok pair.2

/-- The calls lead from some pairs to others; only pairs that are there are reverted. -/
inductive Leads : Multiset (Rat × Rat) → List Call → Multiset (Rat × Rat) → Prop
  | nil (pairs : Multiset (Rat × Rat)) : Leads pairs [] pairs
  | apply {pairs rest pair calls x y} : Reads x y pair → Leads (pair ::ₘ pairs) calls rest →
      Leads pairs (.apply x y :: calls) rest
  | revert {pairs rest pair calls x y} : Reads x y pair → Leads pairs calls rest →
      Leads (pair ::ₘ pairs) (.revert x y :: calls) rest

/-- The accumulator after some calls, with what the last one returned. -/
def run : VariableValue → LinearGradient → List Call → Except FunctionError (VariableValue × LinearGradient)
  | value, state, [] => .ok (value, state)
  | _, state, call :: calls => do
    let (value, next) ← call.perform state
    run value next calls

theorem Reads.ne_null (reads : Reads x y pair) : ¬ (x = .null ∨ y = .null) := by
  rintro (rfl | rfl)
  · cases reads.1
  · cases reads.2

theorem perform_apply (reads : Reads x y pair) :
    (Call.apply x y).perform state = .ok ((state.add pair.1 pair.2).result, state.add pair.1 pair.2) := by
  rw [Call.perform, LinearGradient.apply, if_neg reads.ne_null, reads.1, reads.2]
  rfl

theorem perform_revert (reads : Reads x y pair) (holds : Holds state (pair ::ₘ pairs)) :
    ∃ value next, (Call.revert x y).perform state = .ok (value, next) ∧ Holds next pairs ∧
      (2 ≤ pairs.card → value = next.result) := by
  have count : state.count - 1 = pairs.card := by simp [holds.count]
  rw [Call.perform, LinearGradient.revert, if_neg reads.ne_null, reads.1, reads.2]
  simp only [bind, Except.bind, count]
  by_cases last : pairs = 0
  · subst last
    exact ⟨_, _, rfl, holds_initial, by simp⟩
  · rw [if_neg (by simpa using last)]
    exact ⟨_, _, rfl, holds.subtract last, fun _ => rfl⟩

theorem run_holds {calls rest} (leads : Leads pairs calls rest) {value} (holds : Holds state pairs)
    (returned : 2 ≤ pairs.card → value = state.result) :
    ∃ last final, run value state calls = .ok (last, final) ∧ Holds final rest ∧ (2 ≤ rest.card → last = final.result) := by
  induction leads generalizing state value with
  | nil => exact ⟨value, state, rfl, holds, returned⟩
  | apply reads leads ih =>
    rw [run, perform_apply reads]
    exact ih holds.add fun _ => rfl
  | revert reads leads ih =>
    obtain ⟨value', next, performs, holds', returned'⟩ := perform_revert reads holds
    rw [run, performs]
    exact ih holds' returned'

/-- After any calls the accumulator holds the moments of the current pairs, and the last call and a snapshot return their
slope. -/
theorem gradient_of_current_pairs (calls : List Call) (pairs : Multiset (Rat × Rat)) (leads : Leads 0 calls pairs) :
    ∃ last final, run .null initializeAccumulator calls = .ok (last, final) ∧ Holds final pairs ∧
      (2 ≤ pairs.card → deviations pairs fst fst ≠ 0 →
        let slope := VariableValue.float (deviations pairs fst snd / deviations pairs fst fst)
        last = slope ∧ ∀ x y, final.snapshot [x, y] = .ok slope) := by
  obtain ⟨last, final, runs, holds, returned⟩ := run_holds leads holds_initial fun impossible => absurd impossible (by simp)
  refine ⟨last, final, runs, holds, fun several spread => ⟨?_, fun x y => ?_⟩⟩
  · rw [returned several, holds.result several spread]
  · have counted : final.count ≠ 0 := by
      rw [holds.count]
      omega
    have two : [x, y].length = 2 := rfl
    rw [snapshot, if_pos two, if_neg counted, holds.result several spread]

theorem gradient_of_current_pairs_two :
    Leads 0 [.apply (.integer 1) (.float 2), .apply (.integer 3) (.float 8), .apply (.integer 5) (.float 1),
        .revert (.integer 5) (.float 1)] {(1, 2), (3, 8)} ∧
      (run .null initializeAccumulator [.apply (.integer 1) (.float 2), .apply (.integer 3) (.float 8),
        .apply (.integer 5) (.float 1), .revert (.integer 5) (.float 1)]).map fst = .ok (.float 3) := by
  have leads : Leads 0 [.apply (.integer 1) (.float 2), .apply (.integer 3) (.float 8), .apply (.integer 5) (.float 1),
      .revert (.integer 5) (.float 1)] {(1, 2), (3, 8)} := by
    have one : Reads (.integer 1) (.float 2) (1, 2) := ⟨rfl, rfl⟩
    have three : Reads (.integer 3) (.float 8) (3, 8) := ⟨rfl, rfl⟩
    have five : Reads (.integer 5) (.float 1) (5, 1) := ⟨rfl, rfl⟩
    rw [Multiset.pair_comm]
    exact .apply one (.apply three (.apply five (.revert five (.nil _))))
  obtain ⟨last, final, runs, -, slope⟩ := gradient_of_current_pairs _ _ leads
  obtain ⟨same, -⟩ := slope (by decide) (by decide +kernel)
  refine ⟨leads, ?_⟩
  rw [runs, same]
  exact congrArg (fun value => Except.ok (VariableValue.float value)) (by decide +kernel)

end DrasiCore.LinearGradient
