import Mathlib.Order.Lattice
import Mathlib.Tactic.Common

/-! Items of a stream that are kept if they lie above a floor and above all kept before. Items without a position are
always kept. -/

namespace DrasiCore.Library

variable {A P : Type} [LinearOrder P] (position : A → Option P) (floor : Option P)

def due (kept : List A) (item : A) : Bool :=
  (position item).all fun place => floor.all (· < place) && kept.all fun other => (position other).all (· < place)

def rising (items : List A) : List A :=
  items.foldl (fun kept item => if due position floor kept item then kept ++ [item] else kept) []

def exceeds (mark : Option P) (item : A) : Bool := (position item).all fun place => mark.all (· < place)

/-- One mark decides what comes next as all that was kept does. -/
def Tracks (kept : List A) (mark : Option P) : Prop :=
  ∀ item, due position floor kept item = exceeds position mark item

variable {position} {floor mark : Option P} {kept : List A} {item : A}

theorem Tracks.nil (floor : Option P) : Tracks position floor [] floor := by
  intro item
  simp [due, exceeds]

theorem Tracks.append (tracks : Tracks position floor kept mark) (above : exceeds position mark item) :
    Tracks position floor (kept ++ [item]) ((position item).or mark) := by
  intro next
  have before := tracks next
  cases here : position item with
  | none =>
    rw [Option.none_or, ← before]
    simp [due, here]
  | some place =>
    cases there : position next with
    | none => simp [due, exceeds, there]
    | some other =>
      simp only [due, exceeds, there, here, Option.all_some, List.all_append, List.all_cons, List.all_nil, Bool.and_true,
        Option.some_or] at before above ⊢
      rw [← Bool.and_assoc, before]
      cases mark with
      | none => simp
      | some mark =>
        simp only [Option.all_some, decide_eq_true_eq] at above ⊢
        rw [Bool.and_eq_right_iff_imp]
        intro later
        exact decide_eq_true (lt_trans above (of_decide_eq_true later))

theorem rising_append (floor : Option P) (items : List A) (item : A) :
    rising position floor (items ++ [item]) =
      if due position floor (rising position floor items) item then rising position floor items ++ [item]
      else rising position floor items := by
  unfold rising
  rw [List.foldl_append]
  rfl

end DrasiCore.Library
