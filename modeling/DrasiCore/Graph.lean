import DrasiCore.Pattern

/-! The graph that the changes of a source describe, apart from any index, and the matches of clauses in it. -/

namespace DrasiCore

abbrev Graph := ElementReference → Option Element

namespace Graph

def empty : Graph := fun _ => none

def Holds (graph : Graph) (element : Element) : Prop := graph element.getReference = some element

/-- The graph after a change. An update keeps the properties it leaves out; there is no graph after one that turns a
node into a relation or a relation into a node. -/
def apply (graph : Graph) : SourceChange → Option Graph
  | .insert element => some (Function.update graph element.getReference (some element))
  | .update element =>
    match graph element.getReference with
    | none => some (Function.update graph element.getReference (some element))
    | some previous =>
      (element.mergeMissingProperties previous).map fun merged =>
        Function.update graph element.getReference (some merged)
  | .delete metadata => some (Function.update graph metadata.reference none)
  | .future _ => some graph

/-- Sources insert only what is not there, and futures are not theirs. -/
def Sends (graph : Graph) : SourceChange → Prop
  | .insert element => graph element.getReference = none
  | .update _ => True
  | .delete _ => True
  | .future _ => False

inductive Leads (admits : Graph → SourceChange → Graph → Prop) : Graph → List SourceChange → Graph → Prop where
  | nil (graph : Graph) : Leads admits graph [] graph
  | cons {graph next last change changes} (sends : graph.Sends change)
      (applies : graph.apply change = some next) (admitted : admits graph change next)
      (rest : Leads admits next changes last) : Leads admits graph (change :: changes) last

end Graph

end DrasiCore
