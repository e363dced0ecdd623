import DrasiCore.Library.StableGraph
import DrasiCore.Library.Toposort

/-! The graph of components: what an instance consists of, how its parts are related, and transactions that are undone when
they are dropped. -/

namespace DrasiCore

open Library Function

inductive ComponentType where
  | source | query | reaction | bootstrapProvider | identityProvider
deriving DecidableEq

inductive ComponentStatus where
  | added | starting | running | stopping | stopped | removed | reconfiguring | error
deriving DecidableEq

inductive ComponentKind where
  | instanceNode | source | query | reaction | bootstrapProvider | identityProvider
deriving DecidableEq

namespace ComponentKind

def display : ComponentKind → String
  | instanceNode => "instance"
  | source => "source"
  | query => "query"
  | reaction => "reaction"
  | bootstrapProvider => "bootstrap_provider"
  | identityProvider => "identity_provider"

def toComponentType : ComponentKind → Option ComponentType
  | source => some .source
  | query => some .query
  | reaction => some .reaction
  | bootstrapProvider => some .bootstrapProvider
  | identityProvider => some .identityProvider
  | instanceNode => none

end ComponentKind

inductive RelationshipKind where
  | owns | ownedBy | feeds | subscribesTo | bootstraps | bootstrappedBy | authenticates | authenticatedBy
deriving DecidableEq

namespace RelationshipKind

def reverse : RelationshipKind → RelationshipKind
  | owns => ownedBy
  | ownedBy => owns
  | feeds => subscribesTo
  | subscribesTo => feeds
  | bootstraps => bootstrappedBy
  | bootstrappedBy => bootstraps
  | authenticates => authenticatedBy
  | authenticatedBy => authenticates

def debug : RelationshipKind → String
  | owns => "Owns"
  | ownedBy => "OwnedBy"
  | feeds => "Feeds"
  | subscribesTo => "SubscribesTo"
  | bootstraps => "Bootstraps"
  | bootstrappedBy => "BootstrappedBy"
  | authenticates => "Authenticates"
  | authenticatedBy => "AuthenticatedBy"

end RelationshipKind

def isValidRelationship : ComponentKind → ComponentKind → RelationshipKind → Bool
  | .source, .query, .feeds => true
  | .query, .reaction, .feeds => true
  | .instanceNode, _, .owns => true
  | .bootstrapProvider, .source, .bootstraps => true
  | .identityProvider, _, .authenticates => true
  | _, _, _ => false

structure ComponentNode where
  id : String
  kind : ComponentKind
  status : ComponentStatus
  metadata : List (String × String)
deriving DecidableEq

structure ComponentEvent where
  componentId : String
  componentType : ComponentType
  status : ComponentStatus
  message : Option String
deriving DecidableEq

def defaultMaxEventsPerComponent : Nat := 100

/-- The events of a component with one more, without the oldest where there are too many. -/
def recordIn (history : List ComponentEvent) (event : ComponentEvent) : List ComponentEvent :=
  (if defaultMaxEventsPerComponent ≤ history.length then history.tail else history) ++ [event]

/-- The graph with its index by ids. What has been broadcast is kept in order; runtimes are opaque. -/
structure ComponentGraph (Runtime : Type) where
  graph : StableGraph ComponentNode RelationshipKind
  index : String → Option Nat
  instanceIdx : Nat
  runtimes : String → Option Runtime
  eventHistory : String → List ComponentEvent
  sent : List ComponentEvent

variable {Runtime : Type}

namespace ComponentGraph

def new (instanceId : String) : ComponentGraph Runtime :=
  let node : ComponentNode := ⟨instanceId, .instanceNode, .running, []⟩
  let (instanceIdx, graph) := StableGraph.empty.addNode node
  { graph
    index := update (fun _ => none) instanceId (some instanceIdx)
    instanceIdx
    runtimes := fun _ => none
    eventHistory := fun _ => []
    sent := [] }

variable (self : ComponentGraph Runtime) (id : String)

def contains : Bool := (self.index id).isSome

def setRuntime (id : String) (runtime : Runtime) : Except String (ComponentGraph Runtime) :=
  if self.contains id then .ok { self with runtimes := update self.runtimes id (some runtime) }
  else .error ("set_runtime called for component '" ++ id ++ "' which is not in the graph")

def emitEvent (kind : ComponentKind) (status : ComponentStatus) (message : Option String) : ComponentGraph Runtime :=
  match kind.toComponentType with
  | some componentType => { self with sent := self.sent ++ [⟨id, componentType, status, message⟩] }
  | none => self

def publish (event : ComponentEvent) : ComponentGraph Runtime :=
  { self with
    sent := self.sent ++ [event]
    eventHistory := update self.eventHistory event.componentId (recordIn (self.eventHistory event.componentId) event) }

structure AddedComponent where
  nodeIdx : Nat
  event : Option ComponentEvent
  ownsEdge : Nat
  ownedByEdge : Nat

def addComponentInternal (node : ComponentNode) : Except String (AddedComponent × ComponentGraph Runtime) :=
  if self.contains node.id then .error (node.kind.display ++ " '" ++ node.id ++ "' already exists in the graph")
  else
    let (nodeIdx, withNode) := self.graph.addNode node
    let (ownsEdge, owning) := withNode.addEdge self.instanceIdx nodeIdx .owns
    let (ownedByEdge, graph) := owning.addEdge nodeIdx self.instanceIdx .ownedBy
    let event := node.kind.toComponentType.map fun componentType =>
      ⟨node.id, componentType, node.status, some (node.kind.display ++ " added")⟩
    .ok (⟨nodeIdx, event, ownsEdge, ownedByEdge⟩,
      { self with graph, index := update self.index node.id (some nodeIdx) })

def addComponent (node : ComponentNode) : Except String (Nat × ComponentGraph Runtime) := do
  let (added, graph) ← self.addComponentInternal node
  match added.event with
  | some event => return (added.nodeIdx, graph.publish event)
  | none => return (added.nodeIdx, graph)

def notFound : String := "Component '" ++ id ++ "' not found in graph"

def indexOf : Except String Nat :=
  match self.index id with
  | some idx => .ok idx
  | none => .error (notFound id)

/-- An index whose node is missing would end the process. -/
def nodeAt (idx : Nat) : Except String ComponentNode :=
  match self.graph.nodeWeight idx with
  | some node => .ok node
  | none => .error "panic"

def removeComponent : Except String (ComponentNode × ComponentGraph Runtime) := do
  let nodeIdx ← self.indexOf id
  if nodeIdx = self.instanceIdx then throw "Cannot remove the instance root node"
  let node ← self.nodeAt nodeIdx
  let removed := { self with
    index := update self.index id none
    runtimes := update self.runtimes id none
    eventHistory := update self.eventHistory id []
    graph := self.graph.removeNode nodeIdx }
  return (node, removed.emitEvent id node.kind .removed (some (node.kind.display ++ " removed")))

/-- The two new edges, unless the first is there already. -/
def addRelationshipInternal (fromId toId : String) (forward : RelationshipKind) :
    Except String (Option (Nat × Nat) × ComponentGraph Runtime) := do
  let fromIdx ← self.indexOf fromId
  let toIdx ← self.indexOf toId
  let fromNode ← self.nodeAt fromIdx
  let toNode ← self.nodeAt toIdx
  if !isValidRelationship fromNode.kind toNode.kind forward then
    throw ("Invalid relationship: " ++ forward.debug ++ " from " ++ fromNode.kind.display ++ " '" ++ fromId ++ "' to " ++
      toNode.kind.display ++ " '" ++ toId ++ "'")
  if (self.graph.findEdge fromIdx toIdx forward).isSome then return (none, self)
  let (fwdEdge, pointing) := self.graph.addEdge fromIdx toIdx forward
  let (revEdge, graph) := pointing.addEdge toIdx fromIdx forward.reverse
  return (some (fwdEdge, revEdge), { self with graph })

def addRelationship (fromId toId : String) (forward : RelationshipKind) :
    Except String (ComponentGraph Runtime) := do
  let (_, graph) ← self.addRelationshipInternal fromId toId forward
  return graph

/-- The graph without the first edge of this kind between the nodes, if there is one. -/
def dropEdge (graph : StableGraph ComponentNode RelationshipKind) (source target : Nat) (kind : RelationshipKind) :
    StableGraph ComponentNode RelationshipKind :=
  match graph.findEdge source target kind with
  | some edge => graph.removeEdge edge
  | none => graph

def removeRelationship (fromId toId : String) (forward : RelationshipKind) :
    Except String (ComponentGraph Runtime) := do
  let fromIdx ← self.indexOf fromId
  let toIdx ← self.indexOf toId
  return { self with graph := dropEdge (dropEdge self.graph fromIdx toIdx forward) toIdx fromIdx forward.reverse }

/-- The components at the other ends of the outgoing edges along which data flows. -/
def getDependents : List ComponentNode :=
  match self.index id with
  | none => []
  | some idx =>
    (self.graph.edges.occupied.filter fun edge => edge.2.source = idx ∧ edge.2.weight = .feeds).filterMap fun edge =>
      self.graph.nodeWeight edge.2.target

def deregister : Except String (ComponentNode × ComponentGraph Runtime) :=
  match self.getDependents id with
  | [] => self.removeComponent id
  | dependents =>
    .error ("Cannot deregister '" ++ id ++ "': depended on by: " ++ ", ".intercalate (dependents.map ComponentNode.id))

/-- The edges along which data flows, between the positions of their ends among the nodes. -/
def orderArcs : List (Nat × Nat) :=
  (self.graph.edges.occupied.filter (·.2.weight = .feeds)).filterMap fun edge =>
    match self.graph.nodes.numbers.idxOf? edge.2.source, self.graph.nodes.numbers.idxOf? edge.2.target with
    | some newFrom, some newTo => some (newFrom, newTo)
    | _, _ => none

/-- All components but the root, along the edges on which data flows. -/
def topologicalOrder (toposort : Toposort) (self : ComponentGraph Runtime) : Except String (List ComponentNode) :=
  let nodeIndices := self.graph.nodes.numbers
  match toposort.order nodeIndices.length self.orderArcs with
  | some sorted =>
    let indices := (sorted.filterMap fun newIdx => nodeIndices[newIdx]?).filter (· ≠ self.instanceIdx)
    .ok (indices.filterMap self.graph.nodeWeight)
  | none => .error "Cycle detected in component graph — cannot determine lifecycle order"

end ComponentGraph

/-- Changes to a graph that are made at once, with what is needed to undo them and the events that wait. -/
structure GraphTransaction (Runtime : Type) where
  graph : ComponentGraph Runtime
  addedNodes : List (Nat × String)
  addedEdges : List Nat
  pendingEvents : List ComponentEvent

def ComponentGraph.begin {Runtime : Type} (self : ComponentGraph Runtime) : GraphTransaction Runtime := ⟨self, [], [], []⟩

namespace GraphTransaction

variable (self : GraphTransaction Runtime)

def addComponent (node : ComponentNode) :
    Except String (Nat × GraphTransaction Runtime) := do
  let (added, graph) ← self.graph.addComponentInternal node
  return (added.nodeIdx, {
    graph
    addedNodes := self.addedNodes ++ [(added.nodeIdx, node.id)]
    addedEdges := self.addedEdges ++ [added.ownsEdge, added.ownedByEdge]
    pendingEvents := self.pendingEvents ++ added.event.toList })

def addRelationship (fromId toId : String) (forward : RelationshipKind) :
    Except String (GraphTransaction Runtime) := do
  let (edges, graph) ← self.graph.addRelationshipInternal fromId toId forward
  match edges with
  | some (fwd, rev) => return { self with graph, addedEdges := self.addedEdges ++ [fwd, rev] }
  | none => return { self with graph }

def commit : ComponentGraph Runtime :=
  self.pendingEvents.foldl ComponentGraph.publish self.graph

/-- Without a commit, first the edges and then the nodes are removed, the latest first. -/
def drop : ComponentGraph Runtime :=
  let withoutEdges := { self.graph with graph := self.addedEdges.reverse.foldl StableGraph.removeEdge self.graph.graph }
  self.addedNodes.reverse.foldl (fun graph added =>
    { graph with index := update graph.index added.2 none, graph := graph.graph.removeNode added.1 }) withoutEdges

/-- Relationships one after the other, up to the first that fails. -/
def addRelationships (self : GraphTransaction Runtime) :
    List (String × String × RelationshipKind) → Except String Unit × GraphTransaction Runtime
  | [] => (.ok (), self)
  | (fromId, toId, forward) :: rest =>
    match self.addRelationship fromId toId forward with
    | .ok next => next.addRelationships rest
    | .error message => (.error message, self)

end GraphTransaction

namespace ComponentGraph

variable (self : ComponentGraph Runtime)

def register (node : ComponentNode) (links : List (String × String × RelationshipKind)) :
    Except String Unit × ComponentGraph Runtime :=
  match self.begin.addComponent node with
  | .error message => (.error message, self.begin.drop)
  | .ok (_, transaction) =>
    match transaction.addRelationships links with
    | (.ok (), linked) => (.ok (), linked.commit)
    | (.error message, linked) => (.error message, linked.drop)

/-- Registration of a component after a check that what it refers to is there. -/
def registerLinked (title dependency : String) (node : ComponentNode) (ids : List String)
    (link : String → String × String × RelationshipKind) : Except String Unit × ComponentGraph Runtime :=
  match ids.find? fun id => !self.contains id with
  | some missing =>
    (.error ("Cannot register " ++ title ++ " '" ++ node.id ++ "': referenced " ++ dependency ++ " '" ++ missing ++
      "' does not exist in the graph"), self)
  | none => self.register node (ids.map link)

def registerSource (id : String) (metadata : List (String × String)) : Except String Unit × ComponentGraph Runtime :=
  self.register ⟨id, .source, .added, metadata⟩ []

variable (id : String) (metadata : List (String × String)) (sourceIds : List String)

def registerQuery : Except String Unit × ComponentGraph Runtime :=
  self.registerLinked "query" "source" ⟨id, .query, .added, metadata⟩ sourceIds fun sourceId => (sourceId, id, .feeds)

def registerReaction (queryIds : List String) : Except String Unit × ComponentGraph Runtime :=
  self.registerLinked "reaction" "query" ⟨id, .reaction, .added, metadata⟩ queryIds fun queryId => (queryId, id, .feeds)

def registerBootstrapProvider : Except String Unit × ComponentGraph Runtime :=
  self.registerLinked "bootstrap provider" "source" ⟨id, .bootstrapProvider, .added, metadata⟩ sourceIds fun sourceId =>
    (id, sourceId, .bootstraps)

def registerIdentityProvider (componentIds : List String) : Except String Unit × ComponentGraph Runtime :=
  self.registerLinked "identity provider" "component" ⟨id, .identityProvider, .added, metadata⟩ componentIds
    fun componentId => (id, componentId, .authenticates)

end ComponentGraph

inductive TransactionStep where
  | addComponent (node : ComponentNode)
  | addRelationship (fromId toId : String) (forward : RelationshipKind)

def GraphTransaction.perform {Runtime : Type} (self : GraphTransaction Runtime) :
    TransactionStep → GraphTransaction Runtime
  | .addComponent node =>
    match self.addComponent node with
    | .ok (_, next) => next
    | .error _ => self
  | .addRelationship fromId toId forward =>
    match self.addRelationship fromId toId forward with
    | .ok next => next
    | .error _ => self

/-- A call on the graph; a transaction is its calls up to its end, by a commit or not. -/
inductive GraphOperation (Runtime : Type) where
  | addComponent (node : ComponentNode)
  | removeComponent (id : String)
  | addRelationship (fromId toId : String) (forward : RelationshipKind)
  | removeRelationship (fromId toId : String) (forward : RelationshipKind)
  | setRuntime (id : String) (runtime : Runtime)
  | registerSource (id : String) (metadata : List (String × String))
  | registerQuery (id : String) (metadata : List (String × String)) (sourceIds : List String)
  | registerReaction (id : String) (metadata : List (String × String)) (queryIds : List String)
  | registerBootstrapProvider (id : String) (metadata : List (String × String)) (sourceIds : List String)
  | registerIdentityProvider (id : String) (metadata : List (String × String)) (componentIds : List String)
  | deregister (id : String)
  | transaction (steps : List TransactionStep) (commits : Bool)

namespace ComponentGraph

variable (self : ComponentGraph Runtime)

def settle {α : Type} (next : α → ComponentGraph Runtime) :
    Except String α → Except String Unit × ComponentGraph Runtime
  | .ok result => (.ok (), next result)
  | .error message => (.error message, self)

def perform : GraphOperation Runtime → Except String Unit × ComponentGraph Runtime
  | .addComponent node => self.settle Prod.snd (self.addComponent node)
  | .removeComponent id => self.settle Prod.snd (self.removeComponent id)
  | .addRelationship fromId toId forward => self.settle id (self.addRelationship fromId toId forward)
  | .removeRelationship fromId toId forward => self.settle id (self.removeRelationship fromId toId forward)
  | .setRuntime component runtime => self.settle id (self.setRuntime component runtime)
  | .registerSource id metadata => self.registerSource id metadata
  | .registerQuery id metadata sourceIds => self.registerQuery id metadata sourceIds
  | .registerReaction id metadata queryIds => self.registerReaction id metadata queryIds
  | .registerBootstrapProvider id metadata sourceIds => self.registerBootstrapProvider id metadata sourceIds
  | .registerIdentityProvider id metadata componentIds => self.registerIdentityProvider id metadata componentIds
  | .deregister id => self.settle Prod.snd (self.deregister id)
  | .transaction steps commits =>
    let transaction := steps.foldl GraphTransaction.perform self.begin
    (.ok (), if commits then transaction.commit else transaction.drop)

def run (operations : List (GraphOperation Runtime)) : ComponentGraph Runtime :=
  operations.foldl (fun graph operation => (graph.perform operation).2) self

end ComponentGraph

end DrasiCore
