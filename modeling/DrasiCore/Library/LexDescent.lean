import Mathlib.Data.DFinsupp.WellFounded

/-! Runs that end because they lower a tuple of counters. A step lowers one counter, raises none before it and may
raise those after it as it likes. -/

namespace DrasiCore.Library

theorem toLex_lt_of_le_of_lt {n} {after before : Fin n → Nat} (i : Fin n) (earlier : ∀ j < i, after j ≤ before j)
    (lowered : after i < before i) : toLex after < toLex before := by
  induction i using WellFoundedLT.induction with
  | ind i ih =>
    by_cases same : ∀ j < i, after j = before j
    · exact ⟨i, same, lowered⟩
    · push Not at same
      obtain ⟨j, before_i, differs⟩ := same
      apply ih j before_i
      · intro k before_j
        exact earlier k (before_j.trans before_i)
      · have := earlier j before_i
        omega

variable {σ : Type*}

/-- A run all of whose steps lower the counters comes to an end. -/
theorem exists_eq_none_of_descent {n} (run : Nat → Option σ) (counters : σ → Fin n → Nat)
    (step : ∀ round state next, run round = some state → run (round + 1) = some next →
      toLex (counters next) < toLex (counters state)) : ∃ round, run round = none := by
  have ends : ∀ (rank : Lex (Fin n → Nat)) round state, run round = some state → toLex (counters state) = rank →
      ∃ later, run later = none := by
    intro rank
    induction rank using WellFoundedLT.induction with
    | ind rank ih =>
      intro round state found same
      cases following : run (round + 1) with
      | none => exact ⟨round + 1, following⟩
      | some next =>
        have smaller := step round state next found following
        exact ih _ (same ▸ smaller) (round + 1) next following rfl
  cases start : run 0 with
  | none => exact ⟨0, start⟩
  | some state => exact ends _ 0 state start rfl

end DrasiCore.Library
