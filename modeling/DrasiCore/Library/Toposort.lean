import Mathlib.Data.List.Sort

/-! Orders of numbered nodes along arcs. -/

namespace DrasiCore.Library

open List

/-- A function that orders the nodes below a count along arcs between them. It fails only where the arcs have a cycle: arcs
that climb in a rank have none. -/
structure Toposort where
  order : (count : Nat) → (arcs : List (Nat × Nat)) → Option (List Nat)
  lists : ∀ {count arcs sorted}, order count arcs = some sorted → sorted.Perm (range count)
  forward : ∀ {count arcs sorted}, order count arcs = some sorted →
    ∀ arc ∈ arcs, arc.1 < count → arc.2 < count → [arc.1, arc.2].Sublist sorted
  succeeds : ∀ {count arcs} (rank : Nat → Nat), (∀ arc ∈ arcs, rank arc.1 < rank arc.2) → (order count arcs).isSome

namespace Toposort

theorem sublist_of_rank {rank : Nat → Nat} {sorted : List Nat} (climbs : sorted.Pairwise (rank · ≤ rank ·)) {low high}
    (lowMember : low ∈ sorted) (highMember : high ∈ sorted) (below : rank low < rank high) : [low, high].Sublist sorted := by
  obtain ⟨before, later, rfl⟩ := append_of_mem lowMember
  have ordered := (pairwise_append.mp climbs).2.2
  rcases mem_append.mp highMember with early | here
  · exact absurd (ordered high early low mem_cons_self) below.not_ge
  · rcases mem_cons.mp here with rfl | late
    · exact absurd below (lt_irrefl _)
    · exact ((singleton_sublist.mpr late).cons_cons low).trans (sublist_append_right ..)

open Classical in
/-- Such a function sorts the nodes by a rank, if there is one. -/
noncomputable def byRank : Toposort where
  order count arcs := if climbs : ∃ rank : Nat → Nat, ∀ arc ∈ arcs, rank arc.1 < rank arc.2
    then some ((range count).insertionSort (climbs.choose · ≤ climbs.choose ·)) else none
  lists done := by
    obtain ⟨_, ⟨⟩⟩ := Option.dite_none_right_eq_some.mp done
    exact perm_insertionSort ..
  forward done arc member source target := by
    obtain ⟨climbs, ⟨⟩⟩ := Option.dite_none_right_eq_some.mp done
    have : Std.Total (climbs.choose · ≤ climbs.choose ·) := ⟨fun _ _ => Nat.le_total ..⟩
    have : IsTrans Nat (climbs.choose · ≤ climbs.choose ·) := ⟨fun _ _ _ => Nat.le_trans⟩
    exact sublist_of_rank (pairwise_insertionSort ..) ((perm_insertionSort ..).mem_iff.mpr (mem_range.mpr source))
      ((perm_insertionSort ..).mem_iff.mpr (mem_range.mpr target)) (climbs.choose_spec arc member)
  succeeds rank climbs := by
    rw [dif_pos ⟨rank, climbs⟩]
    rfl

end Toposort

end DrasiCore.Library
