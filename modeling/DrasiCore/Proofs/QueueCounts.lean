import Mathlib.Logic.Relation
import Mathlib.Tactic.Common

/-! The priority queue reduced to numbers: how full it is, how many producers wait, and how many notifications are under
way. This is enough to see who can be left waiting. -/

namespace DrasiCore

@[ext]
structure QueueCounts where
  heap : Nat
  /-- Producers that wait for room. -/
  waiting : Nat
  /-- Producers that were woken and did not run since. -/
  woken : Nat
  /-- Producers that pushed an event and have not sent its notification. -/
  changing : Nat
  /-- Whether the consumer took an event and has not sent its notification. -/
  released : Bool
  /-- The number of producers before the consumer, if the consumer waits. -/
  ahead : Option Nat

namespace QueueCounts

inductive Moves (capacity count : Nat) : QueueCounts → QueueCounts → Prop where
  /-- A producer, woken or not, finds room. -/
  | push {counts woken} (room : counts.heap < capacity)
      (ran : counts.woken = woken ∨ counts.woken = woken + 1) :
      Moves capacity count counts { counts with heap := counts.heap + 1, woken := woken, changing := counts.changing + 1 }
  /-- A task takes a kept notification and tries again. -/
  | retry {counts woken} (nobody : counts.waiting = 0) (alone : counts.ahead = none) :
      Moves capacity count counts { counts with woken := woken }
  | wait {counts woken} (full : capacity ≤ counts.heap) (few : counts.waiting < count)
      (ran : counts.woken = woken ∨ counts.woken = woken + 1) :
      Moves capacity count counts { counts with waiting := counts.waiting + 1, woken := woken }
  | pop {counts heap} (filled : counts.heap = heap + 1) (done : counts.released = false)
      (runs : counts.ahead = none) : Moves capacity count counts { counts with heap := heap, released := true }
  | starve {counts} (bare : counts.heap = 0) (done : counts.released = false) (runs : counts.ahead = none) :
      Moves capacity count counts { counts with ahead := some counts.waiting }
  /-- The notification of an event that was pushed. -/
  | keepPushed {counts changing} (sent : counts.changing = changing + 1) (nobody : counts.waiting = 0)
      (alone : counts.ahead = none) : Moves capacity count counts { counts with changing := changing }
  | wakeProducer {counts changing waiting} (sent : counts.changing = changing + 1)
      (first : counts.waiting = waiting + 1) (behind : counts.ahead ≠ some 0) :
      Moves capacity count counts { counts with
        changing := changing, waiting := waiting, woken := counts.woken + 1, ahead := counts.ahead.map (· - 1) }
  | wakeConsumer {counts changing} (sent : counts.changing = changing + 1)
      (first : counts.ahead = some 0) : Moves capacity count counts { counts with changing := changing, ahead := none }
  /-- The notification of an event that was taken. -/
  | keepTaken {counts} (sent : counts.released = true) (nobody : counts.waiting = 0)
      (alone : counts.ahead = none) : Moves capacity count counts { counts with released := false }
  | wakeTaken {counts waiting} (sent : counts.released = true) (first : counts.waiting = waiting + 1)
      (alone : counts.ahead = none) :
      Moves capacity count counts { counts with released := false, waiting := waiting, woken := counts.woken + 1 }

/-- The invariant of the numbers; the last two fields need that the producers are few. -/
structure Balanced (capacity count : Nat) (counts : QueueCounts) : Prop where
  bounded : counts.heap ≤ capacity
  /-- While producers wait, free places are matched by notifications for producers. -/
  matched : 0 < counts.waiting → capacity ≤ counts.heap + counts.woken + counts.released.toNat
  /-- Producers began to wait when the heap was full, and every event taken since has woken one. -/
  drained : 0 < counts.waiting → counts.waiting + capacity ≤ counts.heap + count + counts.released.toNat
  /-- The notifications of the events pushed since the consumer waits reach it before the heap is full. -/
  reaches : ∀ ahead, counts.ahead = some ahead → ahead + counts.heap + 1 ≤ capacity + counts.changing
  noticed : ∀ ahead, counts.ahead = some ahead → 0 < counts.heap → 0 < counts.changing + counts.woken

variable {capacity count : Nat} {counts next : QueueCounts}

theorem Moves.bounded (moves : Moves capacity count counts next) (bounded : counts.heap ≤ capacity) : next.heap ≤ capacity := by
  cases moves <;> grind

theorem Balanced.of_running (runs : counts.ahead = none) (bounded : counts.heap ≤ capacity)
    (matched : 0 < counts.waiting → capacity ≤ counts.heap + counts.woken + counts.released.toNat)
    (drained : 0 < counts.waiting → counts.waiting + capacity ≤ counts.heap + count + counts.released.toNat) :
    Balanced capacity count counts :=
  ⟨bounded, matched, drained, fun _ parked => absurd (runs.symm.trans parked) nofun,
    fun _ parked => absurd (runs.symm.trans parked) nofun⟩

section

variable (balanced : Balanced capacity count counts)
include balanced

theorem Balanced.moves (few : count < 2 * capacity) (moves : Moves capacity count counts next) :
    Balanced capacity count next := by
  obtain ⟨bounded, matched, drained, reaches, noticed⟩ := balanced
  cases moves with
  | push room ran =>
    refine ⟨room, fun waits => ?_, fun waits => ?_, fun ahead parked => ?_, fun ahead parked filled => ?_⟩
    · have before := matched waits
      simp only
      omega
    · have before := drained waits
      simp only
      omega
    · have before := reaches ahead parked
      simp only
      omega
    · exact Nat.add_pos_left (Nat.succ_pos _) _
  | retry nobody alone => exact .of_running alone bounded (fun waits => absurd nobody (Nat.ne_of_gt waits)) drained
  | wait full fewer ran =>
    refine ⟨bounded, fun _ => ?_, fun _ => ?_, reaches, fun ahead parked filled => ?_⟩
    · simp only
      omega
    · simp only
      omega
    · -- The heap is full, so a push since the consumer waits has its notification still to send.
      have before := reaches ahead parked
      simp only
      omega
  | pop filled done runs =>
    simp only [done, Bool.toNat_false] at matched drained
    refine .of_running runs (by simp only; omega) (fun waits => ?_) fun waits => ?_
    · have before := matched waits
      simp only [Bool.toNat_true]
      omega
    · have before := drained waits
      simp only [Bool.toNat_true]
      omega
  | starve bare done runs =>
    refine ⟨bounded, matched, drained, fun ahead parked => ?_, fun _ _ filled => absurd bare (Nat.ne_of_gt filled)⟩
    -- All waiting producers are before the consumer. Since the heap is empty, they are fewer than the places.
    cases parked
    simp only [done, Bool.toNat_false] at drained ⊢
    omega
  | keepPushed sent nobody alone => exact .of_running alone bounded matched drained
  | wakeProducer sent first behind =>
    refine ⟨bounded, fun waits => ?_, fun waits => ?_, fun ahead parked => ?_, fun ahead parked filled => ?_⟩
    · have before := matched (by omega)
      simp only
      omega
    · have before := drained (by omega)
      simp only
      omega
    · obtain ⟨position, place, rfl⟩ := Option.map_eq_some_iff.mp parked
      have before := reaches position place
      have later : position ≠ 0 := fun zero => behind (zero ▸ place)
      simp only
      omega
    · exact Nat.add_pos_right _ (Nat.succ_pos _)
  | wakeConsumer sent first => exact .of_running rfl bounded matched drained
  | keepTaken sent nobody alone =>
    exact .of_running alone bounded (fun waits => absurd nobody (Nat.ne_of_gt waits))
      fun waits => absurd nobody (Nat.ne_of_gt waits)
  | wakeTaken sent first alone =>
    simp only [sent, Bool.toNat_true] at matched drained
    refine .of_running alone bounded (fun waits => ?_) fun waits => ?_
    · have before := matched (by omega)
      simp only [Bool.toNat_false]
      omega
    · have before := drained (by omega)
      simp only [Bool.toNat_false]
      omega

theorem Balanced.consumer_noticed {ahead} (parked : counts.ahead = some ahead) (filled : 0 < counts.heap) :
    0 < counts.changing + counts.woken :=
  balanced.noticed ahead parked filled

theorem Balanced.producer_noticed (waits : 0 < counts.waiting) (room : counts.heap < capacity) :
    0 < counts.woken + counts.released.toNat := by
  have before := balanced.matched waits
  omega

end

end QueueCounts

end DrasiCore
