import Mathlib.Algebra.Order.BigOperators.Group.Finset

/-! Sums over a finite family of which one member changes. -/

namespace DrasiCore.Library

variable {I A M : Type} [Fintype I] [AddCommMonoid M]

def tally (measure : A → M) (family : I → A) : M := ∑ index, measure (family index)

theorem tally_update [DecidableEq I] (measure : A → M) (family : I → A) (index : I) (value : A) :
    tally measure (Function.update family index value) + measure (family index) = tally measure family + measure value := by
  unfold tally
  have others : ∑ other ∈ Finset.univ.erase index, measure (Function.update family index value other) =
      ∑ other ∈ Finset.univ.erase index, measure (family other) := by
    apply Finset.sum_congr rfl
    intro other member
    rw [Function.update_of_ne (Finset.ne_of_mem_erase member)]
  rw [← Finset.add_sum_erase _ _ (Finset.mem_univ index), others, Function.update_self,
    ← Finset.add_sum_erase _ (fun other => measure (family other)) (Finset.mem_univ index)]
  ac_rfl

theorem exists_of_tally_pos {measure : A → Nat} {family : I → A} (positive : 0 < tally measure family) :
    ∃ index, 0 < measure (family index) := by
  obtain ⟨index, -, some⟩ := Finset.exists_ne_zero_of_sum_ne_zero positive.ne'
  exact ⟨index, Nat.pos_of_ne_zero some⟩

end DrasiCore.Library
