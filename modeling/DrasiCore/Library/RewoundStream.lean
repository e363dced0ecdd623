import Mathlib.Data.List.Pairwise

/-! A sorted stream that is read with rewinds, through a filter that lets pass what lies above all that has passed. -/

namespace DrasiCore.Library

open Std

variable {S : Type} (cmp : S → S → Ordering)

/-- What passes a mark that is advanced to everything that passes. -/
def passing (mark : S) : List S → List S
  | [] => []
  | item :: rest => if (cmp item mark).isGT then item :: passing item rest else passing mark rest

/-- Reads of a stream from an index on: the next read goes on, or goes back to any earlier index. -/
def Rewound (stream : List S) : Nat → List S → Prop
  | _, [] => True
  | next, item :: rest => ∃ index ≤ next, stream[index]? = some item ∧ Rewound stream (index + 1) rest

variable {cmp} {stream : List S}

theorem Rewound.exists_index {next items item} (rewound : Rewound stream next items) (member : item ∈ items) :
    ∃ index : Nat, stream[index]? = some item := by
  induction items generalizing next with
  | nil => cases member
  | cons first rest ih =>
    obtain ⟨index, _, found, later⟩ := rewound
    rcases List.mem_cons.mp member with rfl | inside
    · exact ⟨index, found⟩
    · exact ih later inside

variable [TransCmp cmp]

theorem isLE_of_index_le (sorted : stream.Pairwise fun earlier later => (cmp earlier later).isLE) {one two : Nat} {first second}
    (order : one ≤ two) (atOne : stream[one]? = some first) (atTwo : stream[two]? = some second) : (cmp first second).isLE := by
  obtain ⟨inside, rfl⟩ := List.getElem?_eq_some_iff.mp atOne
  obtain ⟨insideTwo, rfl⟩ := List.getElem?_eq_some_iff.mp atTwo
  rcases Nat.lt_or_eq_of_le order with less | rfl
  · exact List.pairwise_iff_getElem.mp sorted one two inside insideTwo less
  · exact ReflCmp.isLE_rfl

/-- Every value above the mark that is read passes once. -/
theorem countP_passing (sorted : stream.Pairwise fun earlier later => (cmp earlier later).isLE) {mark next items}
    (passed : ∀ index < next, ∀ item, stream[index]? = some item → (cmp item mark).isLE)
    (rewound : Rewound stream next items) (value : S) :
    (passing cmp mark items).countP (cmp · value = .eq) =
      if cmp value mark = .gt ∧ ∃ item ∈ items, cmp item value = .eq then 1 else 0 := by
  induction items generalizing mark next with
  | nil => simp [passing]
  | cons item rest ih =>
    obtain ⟨index, bound, found, later⟩ := rewound
    rw [passing]
    by_cases above : cmp item mark = .gt
    · -- nothing before it is above the mark, so nothing between the mark and it is still to come
      have passedItem : ∀ other < index + 1, ∀ earlier, stream[other]? = some earlier → (cmp earlier item).isLE :=
        fun other before earlier there => isLE_of_index_le sorted (Nat.le_of_lt_succ before) there found
      have between : ∀ other ∈ rest, cmp other mark = .gt → (cmp item other).isLE := by
        intro other member aboveMark
        obtain ⟨place, there⟩ := later.exists_index member
        refine isLE_of_index_le sorted (Nat.not_lt.mp fun before => ?_) found there
        have := passed place (by omega) other there
        simp [aboveMark] at this
      rw [if_pos (by rw [above]; rfl), List.countP_cons, ih passedItem later]
      by_cases same : cmp item value = .eq
      · have notLess : cmp value item = .eq := OrientedCmp.eq_symm same
        have aboveMark : cmp value mark = .gt := TransCmp.gt_of_eq_of_gt notLess above
        simp [same, notLess, aboveMark]
      · have order : (cmp value item = .gt ∧ ∃ other ∈ rest, cmp other value = .eq) ↔
            cmp value mark = .gt ∧ ∃ other ∈ rest, cmp other value = .eq := by
          refine and_congr_left fun ⟨other, member, equal⟩ => ?_
          refine ⟨fun aboveItem => TransCmp.gt_trans aboveItem above, fun aboveMark => ?_⟩
          have upper := between other member (TransCmp.gt_of_eq_of_gt equal aboveMark)
          rw [TransCmp.congr_right equal] at upper
          refine OrientedCmp.gt_of_lt ?_
          cases final : cmp item value <;> simp_all
        simp [same, order]
    · have notAbove : (cmp item mark).isLE := by
        cases order : cmp item mark <;> simp_all
      have passedItem : ∀ other < index + 1, ∀ earlier, stream[other]? = some earlier → (cmp earlier mark).isLE := by
        intro other before earlier there
        rcases Nat.lt_or_eq_of_le (Nat.le_of_lt_succ before) with less | rfl
        · exact passed other (by omega) earlier there
        · rwa [← Option.some.inj (found.symm.trans there)]
      have hidden : cmp value mark = .gt → cmp item value ≠ .eq := fun aboveMark equal =>
        above (TransCmp.gt_of_eq_of_gt equal aboveMark)
      rw [if_neg (by simpa using above), ih passedItem later]
      refine if_congr (and_congr_right fun aboveMark => ?_) rfl rfl
      simp [hidden aboveMark]

end DrasiCore.Library
