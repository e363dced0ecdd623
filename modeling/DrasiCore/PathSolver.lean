import DrasiCore.Solution
import DrasiCore.ElementIndex
import DrasiCore.Library.Odometer
import DrasiCore.Library.WorkPool
import Mathlib.Data.List.AList

/-! The solver: from an anchor element in a slot it follows the slot graph through the element index and returns the
complete bindings it finds. Where a neighbour has several candidates it sends one partial solution for every
combination of them, and goes on with its own. -/

namespace DrasiCore

open Library

inductive SolveDirection where
  | inward | outward
deriving DecidableEq

inductive SolutionStreamCommand where
  | partialSolution (solution : MatchPathSolution)
  | complete (signature : Signature) (solution : MatchPathSolution)
  | unsolvable

/-- Indexed elements next to the given one, in the direction of the relation's `out` end or against it. -/
def getAdjacentElements (index : InMemoryElementIndex) (order : IterationOrder) (element : Element) (targetSlot : Nat)
    (direction : SolveDirection) : List Element :=
  match element, direction with
  | .node metadata _, .outward => index.getSlotElementsByInbound order targetSlot metadata.reference
  | .node metadata _, .inward => index.getSlotElementsByOutbound order targetSlot metadata.reference
  | .relation _ _ outNode _, .outward => (index.getSlotElementByRef targetSlot outNode).toList
  | .relation _ inNode _ _, .inward => (index.getSlotElementByRef targetSlot inNode).toList

variable (path : MatchPath)

/-- The candidates one neighbour entry adds for a slot; an optional slot without any may stay empty. -/
def slotCandidates (index : InMemoryElementIndex) (order : IterationOrder) (element : Option Element) (targetSlot : Nat)
    (direction : SolveDirection) : List (Option Element) :=
  let adjacentElements := element.elim [] fun found => getAdjacentElements index order found targetSlot direction
  adjacentElements.map some ++
    if (path.slots[targetSlot]?).any (·.optional) && adjacentElements.isEmpty then [none] else []

def addCandidates (altBySlot : List (Nat × List (Option Element))) (slot : Nat) (candidates : List (Option Element)) :
    List (Nat × List (Option Element)) :=
  match altBySlot with
  | [] => [(slot, candidates)]
  | (other, present) :: rest =>
    if other = slot then (other, present ++ candidates) :: rest else (other, present) :: addCandidates rest slot candidates

/-- The unsolved neighbours of a slot, each with the direction in which it is reached. -/
def unsolvedNeighbours (solution : MatchPathSolution) (slotNum : Nat) : List (Nat × SolveDirection) :=
  match path.slots[slotNum]? with
  | none => []
  | some slot =>
    (slot.outSlots.map (·, SolveDirection.outward) ++ slot.inSlots.map (·, SolveDirection.inward)).filter
      fun neighbour => !solution.isSlotSolved neighbour.1

def collectAlternatives (index : InMemoryElementIndex) (order : IterationOrder) (solution : MatchPathSolution)
    (slotNum : Nat) (element : Option Element) : List (Nat × List (Option Element)) :=
  (unsolvedNeighbours path solution slotNum).foldl
    (fun altBySlot neighbour =>
      addCandidates altBySlot neighbour.1 (slotCandidates path index order element neighbour.1 neighbour.2))
    []

variable (entries : List (Nat × List (Option Element)))

def enqueueSingles (solution : MatchPathSolution) : MatchPathSolution :=
  entries.foldl
    (fun result entry =>
      match entry.2 with
      | [value] => result.enqueueSlot entry.1 value
      | _ => result)
    solution

/-- The slots with several candidates in increasing order, all pointers at zero. -/
def branchPointers : List (Nat × Nat) :=
  entries.foldl (fun pointers entry => if 2 ≤ entry.2.length then insertEntry entry.1 0 pointers else pointers) []

variable (altBySlot : List (Nat × List (Option Element))) (pointers : List (Nat × Nat))

def enqueueChoice (solution : MatchPathSolution) : MatchPathSolution :=
  pointers.foldl
    (fun result entry =>
      match ((altBySlot.lookup entry.1).getD [])[entry.2]? with
      | some value => result.enqueueSlot entry.1 value
      | none => result)
    solution

def candidateCount (slot : Nat) : Nat :=
  ((altBySlot.lookup slot).getD []).length

/-- The partial solutions sent for all combinations of candidates. -/
def branches (solution : MatchPathSolution) : List MatchPathSolution :=
  if pointers.isEmpty then []
  else
    (Odometer.sweep (candidateCount altBySlot) (Odometer.capacity (candidateCount altBySlot) (pointers.map (·.1)))
      pointers).map fun choice => enqueueChoice altBySlot choice solution

/-- One worker: solve the queued slots one after another. It sends partial solutions where candidates branch and ends
with one command, `complete` or `unsolvable`. -/
def tryCompleteSolution (path : MatchPath) (index : InMemoryElementIndex) (order : IterationOrder) :
    Nat → MatchPathSolution → List SolutionStreamCommand
  | 0, _ => [.unsolvable]
  | fuel + 1, solution =>
    match solution.slotCursors with
    | [] => [.unsolvable]
    | (slotNum, element) :: cursors =>
      let marked := { solution with slotCursors := cursors }.markSlotSolved slotNum element
      match marked.getSolutionSignature with
      | some hash => [.complete hash marked]
      | none =>
        let altBySlot := collectAlternatives path index (order.within [marked.solvedCount]) marked slotNum element
        let entries := order.arrange [marked.solvedCount] altBySlot
        let queued := enqueueSingles entries marked
        (branches altBySlot (branchPointers entries) queued).map .partialSolution ++
          tryCompleteSolution path index order fuel queued

/-- A partial solution with its place in the tree of spawned workers. -/
abbrev SolverTask := List Nat × MatchPathSolution

/-- A command as a message of the worker pool; a partial solution is a task of its own. -/
def commandMessage (place : List Nat) (entry : SolutionStreamCommand × Nat) :
    WorkPool.Message SolverTask (Signature × MatchPathSolution) :=
  match entry.1 with
  | .partialSolution solution => .spawn (entry.2 :: place, solution)
  | .complete hash solution => .done (some (hash, solution))
  | .unsolvable => .done none

/-- The messages of the worker for one partial solution. It can solve every slot once. -/
def solverRun (index : InMemoryElementIndex) (order : IterationOrder) (task : SolverTask) :
    List (WorkPool.Message SolverTask (Signature × MatchPathSolution)) :=
  (tryCompleteSolution path index (order.within task.1) (path.slots.length + 1) task.2).zipIdx.map
    (commandMessage task.1)

def startSolution (anchorElement : Element) (anchorSlot : Nat) : MatchPathSolution :=
  (MatchPathSolution.new path.slots.length anchorSlot).enqueueSlot anchorSlot (some anchorElement)

/-- The complete solutions in the order the command loop yields them. -/
def createSolutionStream (index : InMemoryElementIndex) (order : IterationOrder) (initial : MatchPathSolution) :
    List (Signature × MatchPathSolution) :=
  ((WorkPool.LoopState.start ([], initial)).rounds (solverRun path index order) (path.slots.length + 2)).outputs

/-- All solutions with the anchor element in the anchor slot, by signature. -/
def solve (index : InMemoryElementIndex) (order : IterationOrder) (anchorElement : Element) (anchorSlot : Nat) :
    AList fun _ : Signature => MatchPathSolution :=
  (createSolutionStream path index order (startSolution path anchorElement anchorSlot)).foldl
    (fun result entry => result.insert entry.1 entry.2) ∅

end DrasiCore
