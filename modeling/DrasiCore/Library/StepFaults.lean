import Mathlib.Data.List.Basic

/-! Runs of a machine that goes wrong at single steps: as long as no step is at fault an invariant holds, and a state
reached by a faulty step shows it. -/

namespace DrasiCore.Library

variable {S Op : Type*} (step : S → Op → S)

def HoldsThroughout (Good : S → Prop) (start : S) (ops : List Op) : Prop :=
  ∀ before after, ops = before ++ after → Good (before.foldl step start)

/-- Every step of the run is as allowed in the state it is taken from. -/
def EachStep (Allowed : S → Op → Prop) (start : S) (ops : List Op) : Prop :=
  ∀ before op after, ops = before ++ op :: after → Allowed (before.foldl step start) op

abbrev NoFault (Fault : S → Op → Prop) (start : S) (ops : List Op) : Prop :=
  EachStep step (fun state op => ¬ Fault state op) start ops

variable {step : S → Op → S} {Good Inv : S → Prop} {Fault Allowed : S → Op → Prop} {start : S} {op : Op} {ops : List Op}

theorem HoldsThroughout.first (holds : HoldsThroughout step Good start ops) : Good start := holds [] ops rfl

theorem holdsThroughout_cons :
    HoldsThroughout step Good start (op :: ops) ↔ Good start ∧ HoldsThroughout step Good (step start op) ops := by
  constructor
  · intro holds
    exact ⟨holds.first, fun before after split => holds (op :: before) after (congrArg (op :: ·) split)⟩
  · rintro ⟨first, rest⟩ before after split
    cases before with
    | nil => exact first
    | cons head before =>
      obtain ⟨rfl, tails⟩ := List.cons.inj split
      exact rest before after tails

theorem eachStep_nil : EachStep step Allowed start [] := by
  intro before op after split
  cases before <;> cases split

theorem eachStep_cons :
    EachStep step Allowed start (op :: ops) ↔ Allowed start op ∧ EachStep step Allowed (step start op) ops := by
  constructor
  · intro each
    exact ⟨each [] op ops rfl, fun before other after split => each (op :: before) other after (congrArg (op :: ·) split)⟩
  · rintro ⟨first, rest⟩ before other after split
    cases before with
    | nil =>
      obtain ⟨rfl, _⟩ := List.cons.inj split
      exact first
    | cons head before =>
      obtain ⟨rfl, tails⟩ := List.cons.inj split
      exact rest before other after tails

theorem EachStep.keeps (each : EachStep step Allowed start ops)
    (keeps : ∀ state op, Inv state → Allowed state op → Inv (step state op)) (inv : Inv start) :
    Inv (ops.foldl step start) := by
  induction ops generalizing start with
  | nil => exact inv
  | cons op ops ih =>
    obtain ⟨first, rest⟩ := eachStep_cons.mp each
    exact ih rest (keeps start op inv first)

/-- **Runs without fault**: the property holds throughout just when no step is at fault, where sound steps keep an
invariant that gives the property and a faulty step from the invariant breaks the property. -/
theorem holdsThroughout_iff_noFault (good : ∀ state, Inv state → Good state)
    (keeps : ∀ state op, Inv state → ¬ Fault state op → Inv (step state op))
    (breaks : ∀ state op, Inv state → Fault state op → ¬ Good (step state op)) (inv : Inv start) :
    HoldsThroughout step Good start ops ↔ NoFault step Fault start ops := by
  induction ops generalizing start with
  | nil =>
    refine ⟨fun _ => eachStep_nil, fun _ before after split => ?_⟩
    obtain ⟨rfl, rfl⟩ := List.append_eq_nil_iff.mp split.symm
    exact good start inv
  | cons op ops ih =>
    rw [holdsThroughout_cons, NoFault, eachStep_cons]
    constructor
    · rintro ⟨_, rest⟩
      have sound : ¬ Fault start op := fun fault => breaks start op inv fault rest.first
      exact ⟨sound, (ih (keeps start op inv sound)).mp rest⟩
    · rintro ⟨sound, rest⟩
      exact ⟨good start inv, (ih (keeps start op inv sound)).mpr rest⟩

end DrasiCore.Library
