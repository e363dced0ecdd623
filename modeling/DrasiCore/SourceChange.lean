import DrasiCore.VariableValue

/-! Signatures and the changes a source sends. -/

namespace DrasiCore

/-- The 64-bit digests of the engine, with hashing taken to be free of collisions: a digest is represented by what was
hashed. `zero` is the literal `0` the engine writes where no digest is known yet, `one` the mark of a row that has left
its sliding window. -/
inductive Signature where
  | zero
  | one
  /-- Slots of a complete solution in slot order, each with the reference it is bound to. -/
  | solution (slots : List (Nat × Option ElementReference))
  /-- Grouping identities in the order of the grouping keys. -/
  | grouping (values : List (Option VariableValue))
  | element (reference : ElementReference)
  /-- Output columns with their values, grouping columns by identity. -/
  | snapshot (columns : List (String × VariableValue))
deriving DecidableEq

/-- An expression asked to be evaluated again at `dueTime` for the element `elementRef`. -/
structure FutureElementRef where
  elementRef : ElementReference
  originalTime : ElementTimestamp
  dueTime : ElementTimestamp
  groupSignature : Signature
deriving DecidableEq

inductive SourceChange where
  | insert (element : Element)
  | update (element : Element)
  | delete (metadata : ElementMetadata)
  | future (futureRef : FutureElementRef)
deriving DecidableEq

namespace SourceChange

def getReference : SourceChange → ElementReference
  | .insert element => element.getReference
  | .update element => element.getReference
  | .delete metadata => metadata.reference
  | .future futureRef => futureRef.elementRef

def getTransactionTime : SourceChange → ElementTimestamp
  | .insert element => element.getEffectiveFrom
  | .update element => element.getEffectiveFrom
  | .delete metadata => metadata.effectiveFrom
  | .future futureRef => futureRef.originalTime

def getRealtime : SourceChange → ElementTimestamp
  | .insert element => element.getEffectiveFrom
  | .update element => element.getEffectiveFrom
  | .delete metadata => metadata.effectiveFrom
  | .future futureRef => futureRef.dueTime

end SourceChange

end DrasiCore
