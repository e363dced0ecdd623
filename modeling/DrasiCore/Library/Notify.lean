import Mathlib.Data.List.Basic

/-! A notification cell: tasks wait in order of arrival, each notification wakes the first of them, and one that finds
nobody waiting is kept, but never more than one. -/

namespace DrasiCore.Library

structure Notify (T : Type) where
  waiters : List T
  permit : Bool
  /-- A kept notification means that nobody waits. -/
  alone : permit = true → waiters = []

namespace Notify

variable {T : Type}

def empty : Notify T := ⟨[], false, nofun⟩

def notifyOne (notify : Notify T) : Option T × Notify T :=
  match waiting : notify.waiters with
  | [] => (none, ⟨[], true, fun _ => rfl⟩)
  | first :: rest =>
    (some first, ⟨rest, notify.permit, fun kept => absurd (notify.alone kept) (waiting ▸ List.cons_ne_nil first rest)⟩)

/-- Begin to wait, unless a notification was kept: then take it. -/
def enable (notify : Notify T) (task : T) : Bool × Notify T :=
  if kept : notify.permit = true then (true, ⟨notify.waiters, false, nofun⟩)
  else (false, ⟨notify.waiters ++ [task], notify.permit, fun permit => absurd permit kept⟩)

variable {notify : Notify T}

theorem notifyOne_of_nil (none : notify.waiters = []) :
    (notify.notifyOne).1 = Option.none ∧ (notify.notifyOne).2.waiters = [] ∧ (notify.notifyOne).2.permit = true := by
  unfold notifyOne
  split
  · exact ⟨rfl, rfl, rfl⟩
  · rename_i waiting
    exact absurd (none.symm.trans waiting) nofun

theorem notifyOne_of_cons {first rest} (waiting : notify.waiters = first :: rest) :
    (notify.notifyOne).1 = some first ∧ (notify.notifyOne).2.waiters = rest ∧
      (notify.notifyOne).2.permit = notify.permit := by
  unfold notifyOne
  split
  · rename_i none
    exact absurd (none.symm.trans waiting) nofun
  · rename_i head tail shape
    obtain ⟨rfl, rfl⟩ := List.cons.inj (shape.symm.trans waiting)
    exact ⟨rfl, rfl, rfl⟩

theorem enable_of_kept (kept : notify.permit = true) (task : T) :
    (notify.enable task).1 = true ∧ (notify.enable task).2.waiters = [] ∧ (notify.enable task).2.permit = false := by
  unfold enable
  rw [dif_pos kept]
  exact ⟨rfl, notify.alone kept, rfl⟩

theorem enable_of_not_kept (none : notify.permit = false) (task : T) :
    (notify.enable task).1 = false ∧ (notify.enable task).2.waiters = notify.waiters ++ [task] ∧
      (notify.enable task).2.permit = false := by
  unfold enable
  rw [dif_neg (by rw [none]; exact Bool.false_ne_true)]
  exact ⟨rfl, rfl, none⟩

end Notify

end DrasiCore.Library
