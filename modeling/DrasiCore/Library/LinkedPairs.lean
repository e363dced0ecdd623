import Mathlib.Logic.Basic

/-! Items registered with values under the keys of groups. Two items are linked in a group when they are registered with one
value under two of its keys. How links come and go as single registrations do. -/

namespace DrasiCore.Library

variable {Group Key Value Item : Type}

/-- Which item is registered with which value under which key of which group. -/
abbrev Registry (Group Key Value Item : Type) := Group → Key → Value → Item → Prop

namespace Registry

variable (registry : Registry Group Key Value Item) (group : Group) (key : Key)

/-- The first item under the first key and the second under the second, with one value. -/
def Way (other : Key) (first second : Item) : Prop :=
  key ≠ other ∧ ∃ value, registry group key value first ∧ registry group other value second

def Linked (first second : Item) : Prop :=
  ∃ key other, registry.Way group key other first second

/-- No two items are linked in more than one way; an item is linked with itself in both directions at once. -/
def Unambiguous : Prop :=
  ∀ ⦃group group' key other key' other' first second⦄, registry.Way group key other first second →
    registry.Way group' key' other' first second →
    group = group' ∧ (key = key' ∧ other = other' ∨ first = second ∧ key = other' ∧ other = key')

def SingleValued : Prop :=
  ∀ ⦃group key value value' item⦄, registry group key value item → registry group key value' item → value = value'

variable (value : Value) (item : Item)

def insert : Registry Group Key Value Item :=
  fun group' key' value' item' => registry group' key' value' item' ∨ group' = group ∧ key' = key ∧ value' = value ∧ item' = item

def erase : Registry Group Key Value Item :=
  fun group' key' value' item' =>
    registry group' key' value' item' ∧ ¬ (group' = group ∧ key' = key ∧ value' = value ∧ item' = item)

def Partner : Prop :=
  ∃ other, other ≠ key ∧ registry group other value item

/-- The two items are linked in the group by the registration of one of them. -/
def LinkedBy (group' : Group) (first second : Item) : Prop :=
  group' = group ∧
    (first = item ∧ registry.Partner group key value second ∨ second = item ∧ registry.Partner group key value first)

variable {registry larger : Registry Group Key Value Item} {group group' : Group} {key other : Key} {value : Value}
  {item first second : Item}

theorem Unambiguous.mono (unambiguous : larger.Unambiguous)
    (sub : ∀ {group key value item}, registry group key value item → larger group key value item) :
    registry.Unambiguous :=
  fun _ _ _ _ _ _ _ _ ⟨differ, _, registered, registered'⟩ ⟨differ', _, also, also'⟩ =>
    unambiguous ⟨differ, _, sub registered, sub registered'⟩ ⟨differ', _, sub also, sub also'⟩

theorem Linked.mono (linked : registry.Linked group first second)
    (sub : ∀ {group key value item}, registry group key value item → larger group key value item) :
    larger.Linked group first second :=
  let ⟨key, other, differ, value, registered, registered'⟩ := linked
  ⟨key, other, differ, value, sub registered, sub registered'⟩

theorem SingleValued.erase (single : registry.SingleValued) : (registry.erase group key value item).SingleValued :=
  fun _ _ _ _ _ registered registered' => single registered.1 registered'.1

theorem Way.symm (way : registry.Way group key other first second) : registry.Way group other key second first :=
  ⟨way.1.symm, way.2.imp fun _ => And.symm⟩

theorem linked_insert :
    (registry.insert group key value item).Linked group' first second ↔
      registry.Linked group' first second ∨ registry.LinkedBy group key value item group' first second := by
  constructor
  · rintro ⟨k, o, differ, v, registered | new, registered' | new'⟩
    · exact .inl ⟨k, o, differ, v, registered, registered'⟩
    · obtain ⟨rfl, rfl, rfl, rfl⟩ := new'
      exact .inr ⟨rfl, .inr ⟨rfl, k, differ, registered⟩⟩
    · obtain ⟨rfl, rfl, rfl, rfl⟩ := new
      exact .inr ⟨rfl, .inl ⟨rfl, o, differ.symm, registered'⟩⟩
    · exact absurd (new.2.1.trans new'.2.1.symm) differ
  · rintro (⟨k, o, differ, v, registered, registered'⟩ | ⟨rfl, ⟨rfl, o, differ, registered⟩ | ⟨rfl, o, differ, registered⟩⟩)
    · exact ⟨k, o, differ, v, .inl registered, .inl registered'⟩
    · exact ⟨key, o, differ.symm, value, .inr ⟨rfl, rfl, rfl, rfl⟩, .inl registered⟩
    · exact ⟨o, key, differ, value, .inl registered, .inr ⟨rfl, rfl, rfl, rfl⟩⟩

/-- Without the registration there is no other way left for the items it linked. -/
theorem not_linked_erase_left (unambiguous : registry.Unambiguous) (single : registry.SingleValued)
    (registered : registry group key value item) (partner : registry.Partner group key value second) :
    ¬ (registry.erase group key value item).Linked group item second := by
  obtain ⟨other, differs, other'⟩ := partner
  rintro ⟨k, o, differ, v, kept, kept'⟩
  obtain ⟨-, ⟨rfl, rfl⟩ | ⟨rfl, rfl, rfl⟩⟩ :=
    unambiguous (⟨differs.symm, value, registered, other'⟩ : registry.Way group key other item second) ⟨differ, v, kept.1, kept'.1⟩
  · exact kept.2 ⟨rfl, rfl, single kept.1 registered, rfl⟩
  · exact kept'.2 ⟨rfl, rfl, single kept'.1 registered, rfl⟩

theorem linked_symm (linked : registry.Linked group first second) : registry.Linked group second first :=
  let ⟨key, other, way⟩ := linked
  ⟨other, key, way.symm⟩

theorem linked_erase (unambiguous : registry.Unambiguous) (single : registry.SingleValued)
    (registered : registry group key value item) :
    (registry.erase group key value item).Linked group' first second ↔
      registry.Linked group' first second ∧ ¬ registry.LinkedBy group key value item group' first second := by
  constructor
  · intro linked
    refine ⟨linked.imp fun k => Exists.imp fun o => ?_, ?_⟩
    · rintro ⟨differ, v, kept, kept'⟩
      exact ⟨differ, v, kept.1, kept'.1⟩
    · rintro ⟨rfl, ⟨rfl, partner⟩ | ⟨rfl, partner⟩⟩
      · exact not_linked_erase_left unambiguous single registered partner linked
      · exact not_linked_erase_left unambiguous single registered partner (linked_symm linked)
  · rintro ⟨⟨k, o, differ, v, left, right⟩, unlinked⟩
    refine ⟨k, o, differ, v, ⟨left, ?_⟩, right, ?_⟩
    · rintro ⟨rfl, rfl, rfl, rfl⟩
      exact unlinked ⟨rfl, .inl ⟨rfl, o, differ.symm, right⟩⟩
    · rintro ⟨rfl, rfl, rfl, rfl⟩
      exact unlinked ⟨rfl, .inr ⟨rfl, k, differ, left⟩⟩

end Registry

end DrasiCore.Library
