import Mathlib.Data.List.Basic

/-! Iteration over a hash map visits its entries in an order the program does not control. An `IterationOrder` fixes
one such order for every place of a run; a result that holds for all of them does not depend on the order. -/

namespace DrasiCore.Library

/-- One arrangement of any finite collection for every visit. A visit is named by the list of numbers that says where
in the run the iteration happens. -/
structure IterationOrder where
  arrange : List Nat → {α : Type} → List α → List α
  perm : ∀ (site : List Nat) {α : Type} (items : List α), (arrange site items).Perm items

namespace IterationOrder

def stored : IterationOrder := ⟨fun _ _ items => items, fun _ _ items => List.Perm.refl items⟩

variable (order : IterationOrder)

def within (part : List Nat) : IterationOrder :=
  ⟨fun site _ items => order.arrange (part ++ site) items, fun site _ items => order.perm (part ++ site) items⟩

@[simp] theorem mem_arrange {α : Type} (site : List Nat) (items : List α) (item : α) :
    item ∈ order.arrange site items ↔ item ∈ items := (order.perm site items).mem_iff

@[simp] theorem arrange_nil {α : Type} (site : List Nat) :
    order.arrange site ([] : List α) = [] := (order.perm site []).eq_nil

end IterationOrder

end DrasiCore.Library
