import DrasiCore.Library.SortedBag

/-! Seeking in maps kept in key order: the last entry at or before a key, and the entries from a key on. -/

namespace DrasiCore.Library

open List

/-- Two lists with strictly increasing keys and the same entries are one list. -/
theorem eq_of_increasing {K V : Type} [LinearOrder K] {one two : List (K × V)}
    (first : one.Pairwise fun left right => left.1 < right.1) (second : two.Pairwise fun left right => left.1 < right.1)
    (same : ∀ entry, entry ∈ one ↔ entry ∈ two) : one = two := by
  have distinct {list : List (K × V)} (increasing : list.Pairwise fun left right => left.1 < right.1) : list.Nodup :=
    increasing.imp fun below equal => below.ne (congrArg Prod.fst equal)
  have perm := (perm_ext_iff_of_nodup (distinct first) (distinct second)).mpr same
  exact perm.eq_of_pairwise (fun left right _ _ below above => absurd (below.trans above) (lt_irrefl _)) first second

/-- On an increasing list a test that only later entries can fail takes all the entries that pass it. -/
theorem takeWhile_eq_filter {A : Type} {before : A → A → Prop} {test : A → Bool} {items : List A}
    (increasing : items.Pairwise before)
    (closed : ∀ early ∈ items, ∀ late ∈ items, before early late → test late = true → test early = true) :
    items.takeWhile test = items.filter test := by
  induction items with
  | nil => rfl
  | cons item items ih =>
    obtain ⟨above, rest⟩ := pairwise_cons.mp increasing
    have tail := ih rest fun early earlier late later =>
      closed early (mem_cons_of_mem _ earlier) late (mem_cons_of_mem _ later)
    by_cases passes : test item = true
    · rw [takeWhile_cons_of_pos passes, filter_cons_of_pos passes, tail]
    · rw [takeWhile_cons_of_neg passes, filter_cons_of_neg passes]
      symm
      rw [filter_eq_nil_iff]
      intro late later passesLate
      exact passes (closed item mem_cons_self late (mem_cons_of_mem _ later) (above late later) passesLate)

variable {K V : Type} [LinearOrder K]

namespace OrderedMap

def lastAtMost (map : OrderedMap K V) (key : K) : Option (K × V) :=
  (map.entries.filter fun entry => entry.1 ≤ key).getLast?

theorem lastAtMost_eq_some_iff {map : OrderedMap K V} {key} {entry : K × V} :
    map.lastAtMost key = some entry ↔
      entry ∈ map.entries ∧ entry.1 ≤ key ∧ ∀ other ∈ map.entries, other.1 ≤ key → other.1 ≤ entry.1 := by
  have within (other : K × V) : other ∈ map.entries.filter (fun entry => entry.1 ≤ key) ↔
      other ∈ map.entries ∧ other.1 ≤ key := by simp [mem_filter]
  have increasing := map.sorted.filter fun entry => entry.1 ≤ key
  have last {found : K × V} (seek : map.lastAtMost key = some found) :
      found ∈ map.entries ∧ found.1 ≤ key ∧ ∀ other ∈ map.entries, other.1 ≤ key → other.1 ≤ found.1 := by
    obtain ⟨earlier, whole⟩ := getLast?_eq_some_iff.mp seek
    rw [whole] at increasing within
    obtain ⟨member, below⟩ := (within found).mp (by simp)
    refine ⟨member, below, fun other listed otherBelow => ?_⟩
    rcases mem_append.mp ((within other).mpr ⟨listed, otherBelow⟩) with early | here
    · exact ((pairwise_append.mp increasing).2.2 other early found (by simp)).le
    · rw [mem_singleton.mp here]
  refine ⟨last, fun ⟨member, below, latest⟩ => ?_⟩
  cases seek : map.lastAtMost key with
  | none =>
    have empty := getLast?_eq_none_iff.mp seek
    have inside := (within entry).mpr ⟨member, below⟩
    rw [empty] at inside
    cases inside
  | some found =>
    obtain ⟨foundMember, foundBelow, foundLatest⟩ := last seek
    have sameKey : found.1 = entry.1 :=
      le_antisymm (latest found foundMember foundBelow) (foundLatest entry member below)
    have values := (mem_entries_iff.mp foundMember).symm.trans (sameKey ▸ mem_entries_iff.mp member)
    exact congrArg some (Prod.ext sameKey (Option.some.inj values))

theorem lastAtMost_eq_none_iff {map : OrderedMap K V} {key} :
    map.lastAtMost key = none ↔ ∀ entry ∈ map.entries, key < entry.1 := by
  unfold lastAtMost
  rw [getLast?_eq_none_iff, filter_eq_nil_iff]
  simp

end OrderedMap

end DrasiCore.Library
