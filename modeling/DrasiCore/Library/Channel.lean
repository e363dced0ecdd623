import Mathlib.Algebra.BigOperators.Group.List.Basic
import Mathlib.Algebra.GroupWithZero.Nat

/-! A bounded channel with one receiver, and a list of such channels that one sender serves in turn. -/

namespace DrasiCore.Library

open List

structure Channel (M : Type*) where
  capacity : Nat
  /-- Sent and not received yet, oldest first. -/
  waiting : List M
  /-- Received, in the order of arrival. -/
  taken : List M

namespace Channel

variable {M : Type*}
variable {channel : Channel M}

def new (capacity : Nat) : Channel M := ⟨capacity, [], []⟩

def hasRoom (channel : Channel M) : Bool := channel.waiting.length < channel.capacity

def send (channel : Channel M) (message : M) : Channel M := { channel with waiting := channel.waiting ++ [message] }

def receive (channel : Channel M) : Channel M :=
  { channel with waiting := channel.waiting.tail, taken := channel.taken ++ channel.waiting.head?.toList }

def delivered (channel : Channel M) : List M := channel.taken ++ channel.waiting

section

variable (channel : Channel M)

@[simp] theorem delivered_send (message : M) : (channel.send message).delivered = channel.delivered ++ [message] :=
  (append_assoc ..).symm

@[simp] theorem delivered_receive : channel.receive.delivered = channel.delivered := by
  cases waiting : channel.waiting <;> simp [receive, delivered, waiting]

end

theorem hasRoom_of_empty (empty : channel.waiting = []) (positive : 0 < channel.capacity) : channel.hasRoom := by
  simpa [hasRoom, empty] using positive

theorem delivered_of_empty (empty : channel.waiting = []) : channel.delivered = channel.taken := by
  simp [delivered, empty]

theorem length_waiting_send (channel : Channel M) (message : M) :
    (channel.send message).waiting.length = channel.waiting.length + 1 := by
  simp [send]

theorem length_waiting_receive (some : channel.waiting ≠ []) :
    channel.receive.waiting.length + 1 = channel.waiting.length := by
  have positive := length_pos_of_ne_nil some
  simp only [receive, length_tail]
  omega

end Channel

theorem getElem?_modify_cases {A} {entries : List A} {index other change entry}
    (here : (entries.modify index change)[other]? = some entry) :
    (index = other ∧ ∃ before, entries[index]? = some before ∧ entry = change before) ∨
      index ≠ other ∧ entries[other]? = some entry := by
  rw [getElem?_modify] at here
  by_cases same : index = other
  · subst same
    simp only [if_true] at here
    obtain ⟨before, at_, changed⟩ := Option.map_eq_some_iff.mp here
    exact .inl ⟨rfl, before, at_, changed.symm⟩
  · simp only [if_neg same] at here
    exact .inr ⟨same, by simpa using here⟩

theorem getElem?_concat_cases {A} {entries : List A} {index last entry}
    (here : (entries ++ [last])[index]? = some entry) :
    entries[index]? = some entry ∨ index = entries.length ∧ entry = last := by
  by_cases inside : index < entries.length
  · rw [getElem?_append_left inside] at here
    exact .inl here
  · have bound := (List.getElem?_eq_some_iff.mp here).1
    simp only [List.length_append, List.length_singleton] at bound
    rw [List.getElem?_append_right (Nat.le_of_not_lt inside)] at here
    exact .inr ⟨by omega, mem_singleton.mp (mem_of_getElem? here)⟩

theorem sum_map_modify {A} (measure : A → Nat) (change : A → A) {entries : List A} {index entry}
    (here : entries[index]? = some entry) :
    ((entries.modify index change).map measure).sum + measure entry = (entries.map measure).sum + measure (change entry) := by
  induction entries generalizing index with
  | nil => cases here
  | cons first rest ih =>
    cases index with
    | zero =>
      cases here
      simp only [modify_zero_cons, map_cons, sum_cons]
      omega
    | succ index =>
      have moved := ih here
      simp only [modify_succ_cons, map_cons, sum_cons]
      omega

end DrasiCore.Library
