import Mathlib.Combinatorics.SimpleGraph.Acyclic

/-! A numbering that shows a graph to be a forest. -/

namespace DrasiCore.Library

open SimpleGraph.Walk

/-- A graph on numbers in which no vertex has two smaller neighbours has no cycle: the largest vertex of a cycle has
two. -/
theorem isAcyclic_of_smaller_unique (graph : SimpleGraph Nat)
    (unique : ∀ vertex first second, graph.Adj vertex first → graph.Adj vertex second → first < vertex →
      second < vertex → first = second) : graph.IsAcyclic := by
  intro start cycle isCycle
  obtain ⟨top, member, largest⟩ := cycle.support.toFinset.exists_max_image id
    ⟨start, List.mem_toFinset.mpr cycle.start_mem_support⟩
  rw [List.mem_toFinset] at member
  have turned := isCycle.rotate member
  have below : ∀ vertex ∈ (cycle.rotate top member).support, graph.Adj top vertex → vertex < top := by
    intro vertex inside adjacent
    have old := (mem_support_rotate_iff cycle top member).mp inside
    exact lt_of_le_of_ne (largest vertex (List.mem_toFinset.mpr old)) adjacent.ne'
  have next := adj_snd turned.not_nil
  have last := (adj_penultimate turned.not_nil).symm
  refine turned.snd_ne_penultimate (unique top _ _ next last ?_ ?_)
  · exact below _ (getVert_mem_support _ _) next
  · exact below _ (getVert_mem_support _ _) last

end DrasiCore.Library
