import Mathlib.Data.List.Forall2

/-! What values tell a hasher, and lists that are related element by element. -/

namespace DrasiCore.Library

open List

inductive HashWrite where
  | u8 (value : Nat)
  | i32 (value : Int)
  | u64 (value : Nat)
  | i64 (value : Int)
  | usize (value : Nat)
  | isize (value : Int)
  | str (text : String)
deriving DecidableEq

section Pairs

variable {α : Type} {R S : α → α → Prop}

theorem forall₂_imp_mem {lefts rights} (pairs : List.Forall₂ R lefts rights)
    (implies : ∀ left ∈ lefts, ∀ right, R left right → S left right) : List.Forall₂ S lefts rights := by
  induction pairs with
  | nil => exact .nil
  | cons first rest ih =>
    obtain ⟨own, others⟩ := forall_mem_cons.mp implies
    exact .cons (own _ first) (ih others)

theorem forall₂_trans_mem {lefts middles rights} (first : List.Forall₂ R lefts middles)
    (second : List.Forall₂ R middles rights)
    (trans : ∀ left ∈ lefts, ∀ middle right, R left middle → R middle right → R left right) :
    List.Forall₂ R lefts rights := by
  induction first generalizing rights with
  | nil =>
    cases second
    exact .nil
  | cons head tail ih =>
    cases second with
    | cons head' tail' =>
      obtain ⟨own, others⟩ := forall_mem_cons.mp trans
      exact .cons (own _ _ head head') (ih tail' others)

end Pairs

end DrasiCore.Library
