import Mathlib.Data.List.Nodup
import Mathlib.Data.List.Perm.Basic
import Mathlib.Tactic.TypeStar

/-! Directed graphs whose nodes and edges keep their numbers while others are removed. A number that has become free is used
again before a new one. -/

namespace DrasiCore.Library

open List

/-- A table of numbered entries, the latest first, with the numbers that are free below the bound. -/
structure Slots (α : Type) where
  occupied : List (Nat × α)
  free : List Nat
  bound : Nat
  distinct : (occupied.map Prod.fst ++ free).Nodup
  bounded : ∀ number ∈ occupied.map Prod.fst ++ free, number < bound

namespace Slots

variable {α : Type}
variable {slots : Slots α}

def empty : Slots α := ⟨[], [], 0, .nil, fun _ member => nomatch member⟩

abbrev numbers (slots : Slots α) : List Nat := slots.occupied.map Prod.fst

theorem nodup_numbers (slots : Slots α) : slots.numbers.Nodup := (nodup_append.mp slots.distinct).1

def next (slots : Slots α) : Nat := slots.free.head?.getD slots.bound

def insert (slots : Slots α) (value : α) : Slots α :=
  match shape : slots.free with
  | number :: rest => {
      occupied := (number, value) :: slots.occupied
      free := rest
      bound := slots.bound
      distinct := by
        have distinct := slots.distinct
        rw [shape] at distinct
        exact perm_middle.nodup_iff.mp distinct
      bounded := by
        have bounded := slots.bounded
        rw [shape] at bounded
        exact fun other member => bounded other (perm_middle.mem_iff.mpr member) }
  | [] => {
      occupied := (slots.bound, value) :: slots.occupied
      free := []
      bound := slots.bound + 1
      distinct := by
        have distinct := slots.distinct
        rw [shape] at distinct
        refine nodup_cons.mpr ⟨fun member => ?_, distinct⟩
        rw [← shape] at member
        exact Nat.lt_irrefl _ (slots.bounded _ member)
      bounded := by
        refine forall_mem_cons.mpr ⟨Nat.lt_succ_self _, fun number member => ?_⟩
        rw [← shape] at member
        exact Nat.lt_succ_of_lt (slots.bounded number member) }

theorem insert_occupied (slots : Slots α) (value : α) :
    (slots.insert value).occupied = (slots.next, value) :: slots.occupied := by
  unfold insert next
  split
  case h_1 shape => simp [shape]
  case h_2 shape => simp [shape]

theorem next_vacant (slots : Slots α) : slots.next ∉ slots.numbers := by
  intro member
  obtain ⟨entry, _, _⟩ := mem_map.mp member
  have distinct := (slots.insert entry.2).nodup_numbers
  rw [numbers, insert_occupied, map_cons] at distinct
  exact (nodup_cons.mp distinct).1 member

def erase (slots : Slots α) (number : Nat) : Slots α :=
  if held : number ∈ slots.numbers then {
    occupied := slots.occupied.filter (·.1 ≠ number)
    free := number :: slots.free
    bound := slots.bound
    distinct := by
      have keep : ((slots.occupied.filter (·.1 ≠ number)).map Prod.fst).Sublist slots.numbers := filter_sublist.map _
      have others : ((slots.occupied.filter (·.1 ≠ number)).map Prod.fst ++ slots.free).Nodup :=
        slots.distinct.sublist (keep.append_right _)
      refine perm_middle.nodup_iff.mpr (nodup_cons.mpr ⟨fun member => ?_, others⟩)
      rcases mem_append.mp member with kept | vacant
      · obtain ⟨entry, inside, rfl⟩ := mem_map.mp kept
        simp at inside
      · exact (nodup_append.mp slots.distinct).2.2 number held number vacant rfl
    bounded := by
      intro other member
      rcases mem_append.mp member with kept | vacant
      · exact slots.bounded other (mem_append_left _ ((filter_sublist.map _).subset kept))
      · rcases mem_cons.mp vacant with rfl | free
        · exact slots.bounded other (mem_append_left _ held)
        · exact slots.bounded other (mem_append_right _ free) }
  else slots

theorem erase_occupied (slots : Slots α) (number : Nat) :
    (slots.erase number).occupied = slots.occupied.filter (·.1 ≠ number) := by
  unfold erase
  split
  · rfl
  case isFalse absent =>
    refine (filter_eq_self.mpr fun entry member => ?_).symm
    have other : entry.1 ≠ number := fun same => absent (same ▸ mem_map_of_mem member)
    simpa using other

theorem mem_erase {number entry} : entry ∈ (slots.erase number).occupied ↔ entry ∈ slots.occupied ∧ entry.1 ≠ number := by
  simp [erase_occupied]

def eraseAll (slots : Slots α) (numbers : List Nat) : Slots α := numbers.foldl erase slots

theorem eraseAll_occupied (slots : Slots α) (numbers : List Nat) :
    (slots.eraseAll numbers).occupied = slots.occupied.filter (·.1 ∉ numbers) := by
  induction numbers generalizing slots with
  | nil => simp [eraseAll]
  | cons number numbers ih =>
    rw [eraseAll, foldl_cons, ← eraseAll, ih, erase_occupied, filter_filter]
    refine filter_congr fun entry _ => ?_
    simp [Bool.and_comm]

theorem mem_eraseAll_filter {kind : α → Bool} {entry} :
    entry ∈ (slots.eraseAll ((slots.occupied.filter fun entry => kind entry.2).map Prod.fst)).occupied ↔
      entry ∈ slots.occupied ∧ kind entry.2 = false := by
  rw [eraseAll_occupied, mem_filter, decide_eq_true_eq]
  refine and_congr_right fun member => ?_
  constructor
  · intro spared
    by_contra isKind
    exact spared (mem_map_of_mem (mem_filter.mpr ⟨member, by simpa using isKind⟩))
  · intro otherKind erased
    obtain ⟨other, found, same⟩ := mem_map.mp erased
    obtain ⟨inside, isKind⟩ := mem_filter.mp found
    obtain rfl := inj_on_of_nodup_map slots.nodup_numbers inside member same
    rw [otherKind] at isKind
    cases isKind

def get (slots : Slots α) (number : Nat) : Option α := (slots.occupied.find? (·.1 = number)).map Prod.snd

theorem get_eq_some {number value} : slots.get number = some value ↔ (number, value) ∈ slots.occupied := by
  constructor
  · intro found
    obtain ⟨entry, first, rfl⟩ := Option.map_eq_some_iff.mp found
    have same : entry.1 = number := by simpa using find?_some first
    exact same ▸ mem_of_find?_eq_some first
  · intro member
    obtain ⟨entry, first⟩ : ∃ entry, slots.occupied.find? (·.1 = number) = some entry := by
      refine Option.isSome_iff_exists.mp (find?_isSome.mpr ⟨_, member, by simp⟩)
    have same : entry.1 = number := by simpa using find?_some first
    obtain rfl := inj_on_of_nodup_map slots.nodup_numbers (mem_of_find?_eq_some first) member same
    rw [get, first]
    rfl

end Slots

structure Arrow (E : Type) where
  source : Nat
  target : Nat
  weight : E
deriving DecidableEq

structure StableGraph (N E : Type) where
  nodes : Slots N
  edges : Slots (Arrow E)

namespace StableGraph

variable {N E : Type}
variable {graph : StableGraph N E}

def empty : StableGraph N E := ⟨.empty, .empty⟩

def nodeWeight (graph : StableGraph N E) (node : Nat) : Option N := graph.nodes.get node

def addNode (graph : StableGraph N E) (weight : N) : Nat × StableGraph N E :=
  (graph.nodes.next, { graph with nodes := graph.nodes.insert weight })

def addEdge (graph : StableGraph N E) (source target : Nat) (weight : E) : Nat × StableGraph N E :=
  (graph.edges.next, { graph with edges := graph.edges.insert ⟨source, target, weight⟩ })

def removeEdge (graph : StableGraph N E) (edge : Nat) : StableGraph N E :=
  { graph with edges := graph.edges.erase edge }

def incident (node : Nat) (arrow : Arrow E) : Bool := arrow.source = node || arrow.target = node

def removeNode (graph : StableGraph N E) (node : Nat) : StableGraph N E where
  nodes := graph.nodes.erase node
  edges := graph.edges.eraseAll ((graph.edges.occupied.filter fun edge => incident node edge.2).map Prod.fst)

/-- The first edge of this kind from one node to another. -/
def findEdge [DecidableEq E] (graph : StableGraph N E) (source target : Nat) (weight : E) : Option Nat :=
  (graph.edges.occupied.find? (·.2 = ⟨source, target, weight⟩)).map Prod.fst

def SameContents (left right : StableGraph N E) : Prop :=
  left.nodes.occupied = right.nodes.occupied ∧ left.edges.occupied = right.edges.occupied

theorem mem_removeNode_edges {node edge} :
    edge ∈ (graph.removeNode node).edges.occupied ↔
      edge ∈ graph.edges.occupied ∧ edge.2.source ≠ node ∧ edge.2.target ≠ node := by
  rw [removeNode, Slots.mem_eraseAll_filter]
  simp [incident]

theorem findEdge_eq_none [DecidableEq E] {source target weight} :
    graph.findEdge source target weight = none ↔
      ∀ edge ∈ graph.edges.occupied, edge.2 ≠ ⟨source, target, weight⟩ := by
  simp [findEdge]

theorem findEdge_eq_some [DecidableEq E] {source target weight number}
    (found : graph.findEdge source target weight = some number) :
    (number, ⟨source, target, weight⟩) ∈ graph.edges.occupied := by
  obtain ⟨edge, first, rfl⟩ := Option.map_eq_some_iff.mp found
  have same : edge.2 = ⟨source, target, weight⟩ := by simpa using find?_some first
  exact same ▸ mem_of_find?_eq_some first

end StableGraph

end DrasiCore.Library
