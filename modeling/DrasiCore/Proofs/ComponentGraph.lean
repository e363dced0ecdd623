import DrasiCore.ComponentGraph

/-! The graph of components stays consistent: ids and nodes correspond, relationships come in pairs between the right kinds,
data flows in an order. A transaction that is dropped has not happened. -/

namespace DrasiCore.Proofs

open Library ComponentGraph Function Except

variable {arrow : Arrow RelationshipKind}

abbrev RelationGraph := StableGraph ComponentNode RelationshipKind

@[simp] theorem reverse_reverse (kind : RelationshipKind) : kind.reverse.reverse = kind := by
  cases kind <;> rfl

theorem reverse_ne (kind : RelationshipKind) : kind.reverse ≠ kind := by
  cases kind <;> nofun

def opposite (arrow : Arrow RelationshipKind) : Arrow RelationshipKind := ⟨arrow.target, arrow.source, arrow.weight.reverse⟩

@[simp] theorem opposite_opposite (arrow : Arrow RelationshipKind) : opposite (opposite arrow) = arrow := by
  simp [opposite]

theorem opposite_ne (arrow : Arrow RelationshipKind) : opposite arrow ≠ arrow := by
  intro same
  exact reverse_ne arrow.weight (congrArg Arrow.weight same)

variable (graph : RelationGraph)

def arrows : List (Arrow RelationshipKind) := graph.edges.occupied.map Prod.snd

@[simp] theorem arrows_addEdge (source target : Nat) (kind : RelationshipKind) :
    arrows (graph.addEdge source target kind).2 = ⟨source, target, kind⟩ :: arrows graph := by
  simp [arrows, StableGraph.addEdge, Slots.insert_occupied]

theorem mem_arrows_removeNode {graph node} :
    arrow ∈ arrows (graph.removeNode node) ↔ arrow ∈ arrows graph ∧ arrow.source ≠ node ∧ arrow.target ≠ node := by
  simp only [arrows, List.mem_map]
  constructor
  · rintro ⟨edge, member, rfl⟩
    obtain ⟨inside, source, target⟩ := StableGraph.mem_removeNode_edges.mp member
    exact ⟨⟨edge, inside, rfl⟩, source, target⟩
  · rintro ⟨⟨edge, member, rfl⟩, source, target⟩
    exact ⟨edge, StableGraph.mem_removeNode_edges.mpr ⟨member, source, target⟩, rfl⟩

theorem arrows_removeNode_sublist (node : Nat) : (arrows (graph.removeNode node)).Sublist (arrows graph) := by
  rw [arrows, StableGraph.removeNode, Slots.eraseAll_occupied]
  exact List.filter_sublist.map _

theorem arrows_dropEdge_sublist (source target : Nat) (kind : RelationshipKind) :
    (arrows (dropEdge graph source target kind)).Sublist (arrows graph) := by
  unfold dropEdge
  split
  · rw [arrows, StableGraph.removeEdge, Slots.erase_occupied]
    exact List.filter_sublist.map _
  · exact .refl _

/-- Where edges are single, removing the first of a kind removes it. -/
theorem mem_arrows_dropEdge {graph} (single : (arrows graph).Nodup) {source target kind} :
    arrow ∈ arrows (dropEdge graph source target kind) ↔
      arrow ∈ arrows graph ∧ arrow ≠ ⟨source, target, kind⟩ := by
  unfold dropEdge
  split
  case h_1 number found =>
    have held := StableGraph.findEdge_eq_some found
    simp only [arrows, StableGraph.removeEdge, List.mem_map, Slots.mem_erase]
    constructor
    · rintro ⟨edge, ⟨member, other⟩, rfl⟩
      refine ⟨⟨edge, member, rfl⟩, fun same => other ?_⟩
      exact congrArg Prod.fst (List.inj_on_of_nodup_map single member held same)
    · rintro ⟨⟨edge, member, rfl⟩, other⟩
      refine ⟨edge, ⟨member, fun same => other ?_⟩, rfl⟩
      exact congrArg Prod.snd (List.inj_on_of_nodup_map graph.edges.nodup_numbers member held same)
  case h_2 missing =>
    refine ⟨fun member => ⟨member, ?_⟩, And.left⟩
    obtain ⟨edge, inside, rfl⟩ := List.mem_map.mp member
    exact StableGraph.findEdge_eq_none.mp missing edge inside

/-- The edge joins two nodes of kinds for which it, or its opposite, is a relationship. -/
def Joins (nodes : List (Nat × ComponentNode)) (arrow : Arrow RelationshipKind) : Prop :=
  ∃ fromNode toNode, (arrow.source, fromNode) ∈ nodes ∧ (arrow.target, toNode) ∈ nodes ∧
    (isValidRelationship fromNode.kind toNode.kind arrow.weight = true ∨
      isValidRelationship toNode.kind fromNode.kind arrow.weight.reverse = true)

variable {nodes : List (Nat × ComponentNode)}

theorem Joins.mono {more} (joins : Joins nodes arrow) (subset : nodes ⊆ more) : Joins more arrow := by
  obtain ⟨fromNode, toNode, source, target, valid⟩ := joins
  exact ⟨fromNode, toNode, subset source, subset target, valid⟩

theorem Joins.opposite (joins : Joins nodes arrow) : Joins nodes (opposite arrow) := by
  obtain ⟨fromNode, toNode, source, target, valid⟩ := joins
  refine ⟨toNode, fromNode, target, source, ?_⟩
  simpa [Proofs.opposite] using valid.symm

theorem Joins.ends {slots : Slots ComponentNode} (joins : Joins slots.occupied arrow) :
    arrow.source ∈ slots.numbers ∧ arrow.target ∈ slots.numbers := by
  obtain ⟨fromNode, toNode, source, target, _⟩ := joins
  exact ⟨List.mem_map_of_mem source, List.mem_map_of_mem target⟩

structure Wired (graph : RelationGraph) (index : String → Option Nat) (root : Nat) : Prop where
  indexed : ∀ id idx, index id = some idx ↔ ∃ node, (idx, node) ∈ graph.nodes.occupied ∧ node.id = id
  rooted : ∃ node, (root, node) ∈ graph.nodes.occupied ∧ node.kind = .instanceNode
  joined : ∀ arrow ∈ arrows graph, Joins graph.nodes.occupied arrow
  paired : ∀ arrow ∈ arrows graph, opposite arrow ∈ arrows graph
  single : (arrows graph).Nodup

variable {node : ComponentNode} {idx : Nat} {index : String → Option Nat}

namespace Wired

variable {graph : RelationGraph} {root : Nat}

theorem off_vacant (wired : Wired graph index root) (member : arrow ∈ arrows graph) (vacant : idx ∉ graph.nodes.numbers) :
    arrow.source ≠ idx ∧ arrow.target ≠ idx := by
  obtain ⟨source, target⟩ := (wired.joined arrow member).ends
  exact ⟨fun same => vacant (same ▸ source), fun same => vacant (same ▸ target)⟩

theorem addNode (wired : Wired graph index root) (fresh : index node.id = none) :
    Wired (graph.addNode node).2 (update index node.id (some graph.nodes.next)) root := by
  have nodes : (graph.addNode node).2.nodes.occupied = (graph.nodes.next, node) :: graph.nodes.occupied :=
    Slots.insert_occupied _ _
  have same : arrows (graph.addNode node).2 = arrows graph := rfl
  refine ⟨fun id idx => ?_, ?_, ?_, same ▸ wired.paired, same ▸ wired.single⟩
  · rw [nodes, update_apply]
    split
    case isTrue own =>
      subst own
      constructor
      · intro here
        obtain rfl := Option.some.inj here
        exact ⟨node, List.mem_cons_self, rfl⟩
      · rintro ⟨other, member, sameId⟩
        rcases List.mem_cons.mp member with new | old
        · rw [(Prod.mk.inj new).1]
        · have := (wired.indexed node.id idx).mpr ⟨other, old, sameId⟩
          rw [fresh] at this
          cases this
    case isFalse other =>
      rw [wired.indexed]
      refine exists_congr fun held => and_congr_left fun sameId => ?_
      refine ⟨List.mem_cons_of_mem _, fun member => (List.mem_cons.mp member).resolve_left fun new => other ?_⟩
      rw [← sameId, (Prod.mk.inj new).2]
  · obtain ⟨held, member, kind⟩ := wired.rooted
    exact ⟨held, nodes ▸ List.mem_cons_of_mem _ member, kind⟩
  · rw [nodes, same]
    exact fun arrow member => (wired.joined arrow member).mono (List.subset_cons_self _ _)

end Wired

def linked (source target : Nat) (kind : RelationshipKind) : RelationGraph :=
  ((graph.addEdge source target kind).2.addEdge target source kind.reverse).2

@[simp] theorem arrows_linked (source target : Nat) (kind : RelationshipKind) :
    arrows (linked graph source target kind) = opposite ⟨source, target, kind⟩ :: ⟨source, target, kind⟩ :: arrows graph := by
  simp [linked, opposite]

namespace Wired

variable {graph : RelationGraph} {root : Nat}

theorem linked (wired : Wired graph index root) {source target kind}
    (joins : Joins graph.nodes.occupied ⟨source, target, kind⟩) (absent : ⟨source, target, kind⟩ ∉ arrows graph) :
    Wired (linked graph source target kind) index root := by
  have absent' : opposite ⟨source, target, kind⟩ ∉ arrows graph := by
    intro member
    have := wired.paired _ member
    rw [opposite_opposite] at this
    exact absent this
  refine ⟨wired.indexed, wired.rooted, ?_, ?_, ?_⟩ <;> rw [arrows_linked]
  · simp only [List.forall_mem_cons]
    exact ⟨joins.opposite, joins, wired.joined⟩
  · simp only [List.forall_mem_cons, opposite_opposite]
    refine ⟨List.mem_cons_of_mem _ List.mem_cons_self, List.mem_cons_self, fun arrow member => ?_⟩
    exact List.mem_cons_of_mem _ (List.mem_cons_of_mem _ (wired.paired arrow member))
  · refine List.nodup_cons.mpr ⟨fun member => ?_, List.nodup_cons.mpr ⟨absent, wired.single⟩⟩
    rcases List.mem_cons.mp member with same | inside
    · exact opposite_ne _ same
    · exact absent' inside

theorem unlinked (wired : Wired graph index root) (source target : Nat) (kind : RelationshipKind) :
    Wired (dropEdge (dropEdge graph source target kind) target source kind.reverse) index root := by
  have firstSingle := wired.single.sublist (arrows_dropEdge_sublist graph source target kind)
  have nodes : (dropEdge (dropEdge graph source target kind) target source kind.reverse).nodes =
      graph.nodes := by
    unfold dropEdge
    split <;> split <;> rfl
  have members (arrow : Arrow RelationshipKind) :
      arrow ∈ arrows (dropEdge (dropEdge graph source target kind) target source kind.reverse) ↔
        arrow ∈ arrows graph ∧ arrow ≠ ⟨source, target, kind⟩ ∧ arrow ≠ opposite ⟨source, target, kind⟩ := by
    rw [mem_arrows_dropEdge firstSingle, mem_arrows_dropEdge wired.single, and_assoc, opposite]
  refine ⟨nodes ▸ wired.indexed, nodes ▸ wired.rooted, fun arrow member => ?_, fun arrow member => ?_, ?_⟩
  · rw [nodes]
    exact wired.joined arrow ((members arrow).mp member).1
  · obtain ⟨inside, notForward, notReverse⟩ := (members arrow).mp member
    refine (members _).mpr ⟨wired.paired arrow inside, fun same => notReverse ?_, fun same => notForward ?_⟩
    · rw [← same, opposite_opposite]
    · rw [← opposite_opposite arrow, same, opposite_opposite]
  · exact firstSingle.sublist (arrows_dropEdge_sublist _ _ _ _)

theorem removeNode (wired : Wired graph index root) {id} (here : index id = some idx) (other : idx ≠ root) :
    Wired (graph.removeNode idx) (update index id none) root := by
  obtain ⟨own, ownMember, ownId⟩ := (wired.indexed id idx).mp here
  have nodes (entry : Nat × ComponentNode) :
      entry ∈ (graph.removeNode idx).nodes.occupied ↔ entry ∈ graph.nodes.occupied ∧ entry.1 ≠ idx := Slots.mem_erase
  refine ⟨fun otherId otherIdx => ?_, ?_, fun arrow member => ?_, fun arrow member => ?_, ?_⟩
  · rw [update_apply]
    split
    case isTrue same =>
      subst same
      refine iff_of_false (by simp) ?_
      rintro ⟨node, member, sameId⟩
      obtain ⟨inside, different⟩ := (nodes _).mp member
      have again := (wired.indexed otherId otherIdx).mpr ⟨node, inside, sameId⟩
      rw [here] at again
      exact different (Option.some.inj again).symm
    case isFalse different =>
      rw [wired.indexed]
      refine exists_congr fun node => and_congr_left fun sameId => ?_
      rw [nodes]
      refine ⟨fun inside => ⟨inside, fun same => different ?_⟩, And.left⟩
      have again := (wired.indexed otherId otherIdx).mpr ⟨node, inside, sameId⟩
      obtain ⟨held, heldMember, heldId⟩ := (wired.indexed otherId otherIdx).mp again
      obtain rfl : otherIdx = idx := same
      have one := List.inj_on_of_nodup_map graph.nodes.nodup_numbers ownMember heldMember rfl
      rw [← heldId, ← ownId, (Prod.mk.inj one).2]
  · obtain ⟨node, member, kind⟩ := wired.rooted
    exact ⟨node, (nodes _).mpr ⟨member, fun same => other same.symm⟩, kind⟩
  · obtain ⟨inside, notSource, notTarget⟩ := mem_arrows_removeNode.mp member
    obtain ⟨fromNode, toNode, source, target, valid⟩ := wired.joined arrow inside
    exact ⟨fromNode, toNode, (nodes _).mpr ⟨source, notSource⟩, (nodes _).mpr ⟨target, notTarget⟩, valid⟩
  · obtain ⟨inside, notSource, notTarget⟩ := mem_arrows_removeNode.mp member
    exact mem_arrows_removeNode.mpr ⟨wired.paired arrow inside, notTarget, notSource⟩
  · exact wired.single.sublist (arrows_removeNode_sublist graph idx)

end Wired

variable {Runtime : Type}

section Calls

variable (self : ComponentGraph Runtime)

def withComponent (node : ComponentNode) : ComponentGraph Runtime :=
  { self with
    graph := linked (self.graph.addNode node).2 self.instanceIdx self.graph.nodes.next .owns
    index := update self.index node.id (some self.graph.nodes.next) }

theorem addComponentInternal_cases (node : ComponentNode) :
    (∃ message, self.addComponentInternal node = .error message) ∨
      self.index node.id = none ∧ ∃ event, self.addComponentInternal node =
        .ok (⟨self.graph.nodes.next, event, self.graph.edges.next,
          (self.graph.edges.insert ⟨self.instanceIdx, self.graph.nodes.next, .owns⟩).next⟩, withComponent self node) := by
  unfold addComponentInternal
  split
  case isTrue => exact .inl ⟨_, rfl⟩
  case isFalse absent =>
    refine .inr ⟨?_, _, rfl⟩
    simpa [contains] using absent

theorem indexOf_cases (id : String) :
    (∃ message, self.indexOf id = .error message) ∨ ∃ idx, self.index id = some idx ∧ self.indexOf id = .ok idx := by
  unfold indexOf
  cases found : self.index id with
  | none => exact .inl ⟨_, rfl⟩
  | some idx => exact .inr ⟨idx, rfl, rfl⟩

theorem nodeAt_cases (idx : Nat) :
    (∃ message, self.nodeAt idx = .error message) ∨
      ∃ node, (idx, node) ∈ self.graph.nodes.occupied ∧ self.nodeAt idx = .ok node := by
  unfold nodeAt
  cases found : self.graph.nodeWeight idx with
  | none => exact .inl ⟨_, rfl⟩
  | some node => exact .inr ⟨node, Slots.get_eq_some.mp found, rfl⟩

/-- A relationship fails, is there already, or is added with its opposite. -/
theorem addRelationshipInternal_cases (fromId toId : String) (forward : RelationshipKind) :
    (∃ message, self.addRelationshipInternal fromId toId forward = .error message) ∨
      self.addRelationshipInternal fromId toId forward = .ok (none, self) ∨
      ∃ source target, Joins self.graph.nodes.occupied ⟨source, target, forward⟩ ∧
        ⟨source, target, forward⟩ ∉ arrows self.graph ∧
        self.addRelationshipInternal fromId toId forward =
          .ok (some (self.graph.edges.next, (self.graph.edges.insert ⟨source, target, forward⟩).next),
            { self with graph := linked self.graph source target forward }) := by
  unfold addRelationshipInternal
  rcases indexOf_cases self fromId with ⟨message, failed⟩ | ⟨source, _, found⟩
  · exact .inl ⟨message, by simp only [failed, bind, Except.bind]⟩
  rcases indexOf_cases self toId with ⟨message, failed⟩ | ⟨target, _, found'⟩
  · exact .inl ⟨message, by simp only [found, failed, bind, Except.bind]⟩
  rcases nodeAt_cases self source with ⟨message, failed⟩ | ⟨fromNode, sourceHeld, held⟩
  · exact .inl ⟨message, by simp only [found, found', failed, bind, Except.bind]⟩
  rcases nodeAt_cases self target with ⟨message, failed⟩ | ⟨toNode, targetHeld, held'⟩
  · exact .inl ⟨message, by simp only [found, found', held, failed, bind, Except.bind]⟩
  simp only [found, found', held, held', bind, Except.bind]
  split
  case isTrue => exact .inl ⟨_, rfl⟩
  case isFalse valid =>
    split
    case isTrue => exact .inr (.inl rfl)
    case isFalse absent =>
      refine .inr (.inr ⟨source, target, ⟨fromNode, toNode, sourceHeld, targetHeld, .inl (by simpa using valid)⟩, ?_, rfl⟩)
      intro member
      obtain ⟨edge, inside, same⟩ := List.mem_map.mp member
      have missing : self.graph.findEdge source target forward = none := by simpa using absent
      exact StableGraph.findEdge_eq_none.mp missing edge inside same

theorem removeRelationship_cases (fromId toId : String) (forward : RelationshipKind) :
    (∃ message, self.removeRelationship fromId toId forward = .error message) ∨
      ∃ source target, self.removeRelationship fromId toId forward = .ok { self with
        graph := dropEdge (dropEdge self.graph source target forward) target source
          forward.reverse } := by
  unfold removeRelationship
  rcases indexOf_cases self fromId with ⟨message, failed⟩ | ⟨source, _, found⟩
  · exact .inl ⟨message, by simp only [failed, bind, Except.bind]⟩
  rcases indexOf_cases self toId with ⟨message, failed⟩ | ⟨target, _, found'⟩
  · exact .inl ⟨message, by simp only [found, failed, bind, Except.bind]⟩
  exact .inr ⟨source, target, by simp only [found, found', bind, Except.bind, pure, Except.pure]⟩

theorem emitEvent_eq (id : String) (kind : ComponentKind) (status : ComponentStatus) (message : Option String) :
    ∃ sent, self.emitEvent id kind status message = { self with sent } := by
  unfold emitEvent
  split
  · exact ⟨_, rfl⟩
  · exact ⟨self.sent, rfl⟩

theorem removeComponent_cases (id : String) :
    (∃ message, self.removeComponent id = .error message) ∨
      ∃ idx node runtimes eventHistory sent, self.index id = some idx ∧ idx ≠ self.instanceIdx ∧
        self.removeComponent id = .ok (node, { self with
          index := update self.index id none, runtimes, eventHistory, graph := self.graph.removeNode idx, sent }) := by
  unfold removeComponent
  rcases indexOf_cases self id with ⟨message, failed⟩ | ⟨idx, here, found⟩
  · exact .inl ⟨message, by simp only [failed, bind, Except.bind]⟩
  by_cases isRoot : idx = self.instanceIdx
  · exact .inl ⟨_, by simp only [found, isRoot, bind, Except.bind, if_true]; rfl⟩
  rcases nodeAt_cases self idx with ⟨message, failed⟩ | ⟨node, _, held⟩
  · exact .inl ⟨message, by simp only [found, isRoot, failed, bind, Except.bind, if_false]⟩
  simp only [found, isRoot, held, bind, Except.bind, if_false, pure, Except.pure]
  obtain ⟨sent, emitted⟩ := emitEvent_eq { self with
    index := update self.index id none, runtimes := update self.runtimes id none,
    eventHistory := update self.eventHistory id [], graph := self.graph.removeNode idx } id node.kind .removed
    (some (node.kind.display ++ " removed"))
  rw [emitted]
  exact .inr ⟨idx, node, _, _, sent, here, isRoot, rfl⟩

end Calls

variable {forward : RelationshipKind}

section Transactions

variable {base : ComponentGraph Runtime} {transaction : GraphTransaction Runtime}

abbrev SoundGraph (self : ComponentGraph Runtime) : Prop := Wired self.graph self.index self.instanceIdx

theorem SoundGraph.withComponent {self : ComponentGraph Runtime} (sound : SoundGraph self)
    (fresh : self.index node.id = none) : SoundGraph (withComponent self node) := by
  obtain ⟨root, member, kind⟩ := sound.rooted
  have nodes : (self.graph.addNode node).2.nodes.occupied = (self.graph.nodes.next, node) :: self.graph.nodes.occupied :=
    Slots.insert_occupied _ _
  refine (sound.addNode fresh).linked ?_ ?_
  · rw [nodes]
    refine ⟨root, node, List.mem_cons_of_mem _ member, List.mem_cons_self, .inl ?_⟩
    rw [kind]
    rfl
  · intro inside
    exact (sound.off_vacant inside self.graph.nodes.next_vacant).2 rfl

/-- What a transaction has added to the graph it began with. -/
structure AddsTo (base : ComponentGraph Runtime) (transaction : GraphTransaction Runtime) : Prop where
  sound : SoundGraph transaction.graph
  nodes : ∃ added, transaction.graph.graph.nodes.occupied = added ++ base.graph.nodes.occupied ∧
    added.map Prod.fst = (transaction.addedNodes.map Prod.fst).reverse
  edges : ∃ added, transaction.graph.graph.edges.occupied = added ++ base.graph.edges.occupied ∧
    added.map Prod.fst = transaction.addedEdges.reverse
  kept : ∀ id, id ∉ transaction.addedNodes.map Prod.snd → transaction.graph.index id = base.index id
  fresh : ∀ id ∈ transaction.addedNodes.map Prod.snd, base.index id = none
  others : ∃ graph index, transaction.graph = { base with graph, index }

theorem AddsTo.begin (sound : SoundGraph base) : AddsTo base base.begin where
  sound := sound
  nodes := ⟨[], rfl, rfl⟩
  edges := ⟨[], rfl, rfl⟩
  kept := fun _ _ => rfl
  fresh := fun _ member => nomatch member
  others := ⟨base.graph, base.index, rfl⟩

theorem edges_linked (source target : Nat) (kind : RelationshipKind) :
    (linked graph source target kind).edges.occupied =
      [((graph.edges.insert ⟨source, target, kind⟩).next, ⟨target, source, kind.reverse⟩),
        (graph.edges.next, ⟨source, target, kind⟩)] ++ graph.edges.occupied := by
  simp [linked, StableGraph.addEdge, Slots.insert_occupied]

section

variable (ext : AddsTo base transaction)
include ext

theorem AddsTo.addComponent {next} (done : transaction.addComponent node = .ok (idx, next)) : AddsTo base next := by
  unfold GraphTransaction.addComponent at done
  rcases addComponentInternal_cases transaction.graph node with ⟨message, failed⟩ | ⟨fresh, event, added⟩
  · rw [failed] at done
    cases done
  · rw [added] at done
    obtain rfl := (Prod.mk.inj (ok.inj done)).2
    obtain ⟨nodes, nodesEq, numbers⟩ := ext.nodes
    obtain ⟨edges, edgesEq, edgeNumbers⟩ := ext.edges
    obtain ⟨graph, index, others⟩ := ext.others
    refine ⟨ext.sound.withComponent fresh, ?_, ?_, fun id absent => ?_, fun id member => ?_, ?_⟩
    · refine ⟨(transaction.graph.graph.nodes.next, node) :: nodes, ?_, by simp [numbers]⟩
      exact (Slots.insert_occupied _ _).trans (congrArg _ nodesEq)
    · refine ⟨_ ++ edges, ((edges_linked _ _ _ _).trans (congrArg _ edgesEq)).trans (List.append_assoc _ _ _).symm, ?_⟩
      simp [edgeNumbers]
    · simp only [List.map_append, List.mem_append, not_or, List.map_cons, List.mem_singleton, List.map_nil] at absent
      exact (update_of_ne absent.2 _ _).trans (ext.kept id absent.1)
    · simp only [List.map_append, List.mem_append, List.map_cons, List.mem_singleton, List.map_nil] at member
      by_cases earlier : id ∈ transaction.addedNodes.map Prod.snd
      · exact ext.fresh id earlier
      · obtain rfl := member.resolve_left earlier
        rw [← ext.kept _ earlier, fresh]
    · exact ⟨_, _, by rw [withComponent, others]⟩

theorem AddsTo.addRelationship {next fromId toId} (done : transaction.addRelationship fromId toId forward = .ok next) :
    AddsTo base next := by
  unfold GraphTransaction.addRelationship at done
  rcases addRelationshipInternal_cases transaction.graph fromId toId forward with
    ⟨message, failed⟩ | same | ⟨source, target, joins, absent, added⟩
  · rw [failed] at done
    cases done
  · rw [same] at done
    obtain rfl := ok.inj done
    exact ext
  · rw [added] at done
    obtain rfl := ok.inj done
    obtain ⟨edges, edgesEq, edgeNumbers⟩ := ext.edges
    obtain ⟨graph, index, others⟩ := ext.others
    refine ⟨ext.sound.linked joins absent, ext.nodes, ?_, ext.kept, ext.fresh, ?_⟩
    · refine ⟨_ ++ edges, ((edges_linked _ _ _ _).trans (congrArg _ edgesEq)).trans (List.append_assoc _ _ _).symm, ?_⟩
      simp [edgeNumbers]
    · exact ⟨_, _, by rw [others]⟩

theorem AddsTo.perform (step : TransactionStep) : AddsTo base (transaction.perform step) := by
  cases step with
  | addComponent node =>
    simp only [GraphTransaction.perform]
    split
    case h_1 done => exact ext.addComponent done
    case h_2 => exact ext
  | addRelationship fromId toId forward =>
    simp only [GraphTransaction.perform]
    split
    case h_1 done => exact ext.addRelationship done
    case h_2 => exact ext

theorem AddsTo.performAll (steps : List TransactionStep) :
    AddsTo base (steps.foldl GraphTransaction.perform transaction) := by
  induction steps generalizing transaction with
  | nil => exact ext
  | cons step steps ih => exact ih (ext.perform step)

theorem AddsTo.addRelationships (links : List (String × String × RelationshipKind)) :
    AddsTo base (transaction.addRelationships links).2 := by
  induction links generalizing transaction with
  | nil => exact ext
  | cons link links ih =>
    unfold GraphTransaction.addRelationships
    cases done : transaction.addRelationship link.1 link.2.1 link.2.2 with
    | ok next => exact ih (ext.addRelationship done)
    | error => exact ext

end

/-- Nothing that is seen of the graph differs, and nothing was broadcast. -/
structure SameGraph (left right : ComponentGraph Runtime) : Prop where
  contents : left.graph.SameContents right.graph
  others : ∃ graph, left = { right with graph }

theorem removeEdges_eq (edges : List Nat) :
    edges.foldl StableGraph.removeEdge graph = { graph with edges := graph.edges.eraseAll edges } := by
  induction edges generalizing graph with
  | nil => rfl
  | cons edge edges ih => exact ih _

def dropNode (graph : ComponentGraph Runtime) (added : Nat × String) : ComponentGraph Runtime :=
  { graph with index := update graph.index added.2 none, graph := graph.graph.removeNode added.1 }

variable (index : String → Option Nat)

def without (ids : List String) : String → Option Nat :=
  fun id => if id ∈ ids then none else index id

theorem without_nil : without index [] = index := by
  funext id
  simp [without]

theorem without_update (id : String) (ids : List String) :
    without (update index id none) ids = without index (id :: ids) := by
  funext other
  by_cases own : other = id
  · simp [without, own]
  · simp [without, own]

theorem dropNodes_eq (graph : ComponentGraph Runtime) (added : List (Nat × String))
    (apart : ∀ arrow ∈ arrows graph.graph, ∀ entry ∈ added, arrow.source ≠ entry.1 ∧ arrow.target ≠ entry.1) :
    let dropped := added.foldl dropNode graph
    dropped.graph.nodes.occupied = graph.graph.nodes.occupied.filter (·.1 ∉ added.map Prod.fst) ∧
      dropped.graph.edges.occupied = graph.graph.edges.occupied ∧
      ∃ final, dropped = { graph with graph := final, index := without graph.index (added.map Prod.snd) } := by
  induction added generalizing graph with
  | nil => exact ⟨by simp, rfl, graph.graph, by simp [without_nil]⟩
  | cons entry added ih =>
    obtain ⟨number, id⟩ := entry
    have edges : (dropNode graph (number, id)).graph.edges.occupied = graph.graph.edges.occupied := by
      simp only [dropNode, StableGraph.removeNode, Slots.eraseAll_occupied]
      refine List.filter_eq_self.mpr fun edge member => ?_
      have far := apart edge.2 (List.mem_map_of_mem member) _ List.mem_cons_self
      have none : graph.graph.edges.occupied.filter (fun edge => StableGraph.incident number edge.2) = [] := by
        refine List.filter_eq_nil_iff.mpr fun other inside => ?_
        have := apart other.2 (List.mem_map_of_mem inside) _ List.mem_cons_self
        simp [StableGraph.incident, this.1, this.2]
      simp [none]
    have arrowsEq : arrows (dropNode graph (number, id)).graph = arrows graph.graph := congrArg (List.map Prod.snd) edges
    obtain ⟨nodesLater, edgesLater, final, rest⟩ := ih (dropNode graph (number, id)) (by
      rw [arrowsEq]
      exact fun arrow member other inside => apart arrow member other (List.mem_cons_of_mem _ inside))
    refine ⟨?_, edgesLater.trans edges, final, ?_⟩
    · refine nodesLater.trans ?_
      rw [dropNode, StableGraph.removeNode, Slots.erase_occupied, List.filter_filter]
      refine List.filter_congr fun node _ => ?_
      simp only [List.map_cons, List.mem_cons, not_or, Bool.decide_and, Bool.and_comm]
    · refine rest.trans ?_
      simp only [dropNode, List.map_cons, without_update]

theorem filter_added {α : Type} {slots : Slots α} {added kept : List (Nat × α)}
    (occupied : slots.occupied = added ++ kept) {erased : List Nat} (same : added.map Prod.fst = erased.reverse) :
    slots.occupied.filter (·.1 ∉ erased) = kept := by
  have distinct := slots.nodup_numbers
  rw [Slots.numbers, occupied, List.map_append] at distinct
  have members (number : Nat) : number ∈ erased ↔ number ∈ added.map Prod.fst := by rw [same, List.mem_reverse]
  rw [occupied, List.filter_append, List.filter_eq_nil_iff.mpr, List.filter_eq_self.mpr, List.nil_append]
  · intro entry member
    have apart : entry.1 ∉ erased := fun inside =>
      (List.nodup_append.mp distinct).2.2 _ ((members _).mp inside) _ (List.mem_map_of_mem member) rfl
    simpa using apart
  · intro entry member
    simpa using (members entry.1).mpr (List.mem_map_of_mem member)

/-- The graph of a transaction without the edges it has added. -/
def withoutEdges (transaction : GraphTransaction Runtime) : ComponentGraph Runtime :=
  { transaction.graph with graph :=
      ⟨transaction.graph.graph.nodes, transaction.graph.graph.edges.eraseAll transaction.addedEdges.reverse⟩ }

theorem drop_eq (transaction : GraphTransaction Runtime) :
    transaction.drop = transaction.addedNodes.reverse.foldl dropNode (withoutEdges transaction) := by
  rw [GraphTransaction.drop, removeEdges_eq]
  rfl

theorem AddsTo.drop (sound : SoundGraph base) (ext : AddsTo base transaction) : SameGraph transaction.drop base := by
  obtain ⟨nodes, nodesEq, numbers⟩ := ext.nodes
  obtain ⟨edges, edgesEq, edgeNumbers⟩ := ext.edges
  obtain ⟨graph, index, others⟩ := ext.others
  have edgesBack : (withoutEdges transaction).graph.edges.occupied = base.graph.edges.occupied := by
    rw [withoutEdges, Slots.eraseAll_occupied]
    simpa only [List.mem_reverse] using filter_added edgesEq edgeNumbers
  have nodesBack : transaction.graph.graph.nodes.occupied.filter (·.1 ∉ transaction.addedNodes.map Prod.fst) =
      base.graph.nodes.occupied := filter_added nodesEq numbers
  -- The edges that were there before are not at the nodes that were added.
  have apart : ∀ arrow ∈ arrows (withoutEdges transaction).graph, ∀ entry ∈ transaction.addedNodes.reverse,
      arrow.source ≠ entry.1 ∧ arrow.target ≠ entry.1 := by
    rw [arrows, edgesBack]
    intro arrow member entry inside
    refine sound.off_vacant member fun held => ?_
    rw [Slots.numbers, ← nodesBack] at held
    obtain ⟨node, found, same⟩ := List.mem_map.mp held
    have spared : node.1 ∉ transaction.addedNodes.map Prod.fst := of_decide_eq_true (List.mem_filter.mp found).2
    exact spared (same ▸ List.mem_map_of_mem (List.mem_reverse.mp inside))
  obtain ⟨nodesAfter, edgesAfter, final, rest⟩ := dropNodes_eq _ _ apart
  rw [drop_eq]
  refine ⟨⟨?_, edgesAfter.trans edgesBack⟩, final, ?_⟩
  · refine nodesAfter.trans (Eq.trans ?_ nodesBack)
    simp only [List.map_reverse, List.mem_reverse]
    rfl
  · rw [rest, withoutEdges, others]
    simp only [mk.injEq, true_and, and_true]
    funext id
    unfold without
    split
    case isTrue member => exact (ext.fresh id (by simpa using member)).symm
    case isFalse absent =>
      have same := ext.kept id (by simpa using absent)
      rw [others] at same
      exact same

theorem sound_publish {self : ComponentGraph Runtime} (sound : SoundGraph self) (event : ComponentEvent) :
    SoundGraph (self.publish event) := sound

theorem AddsTo.commit (ext : AddsTo base transaction) : SoundGraph transaction.commit := by
  have published (events : List ComponentEvent) (graph : ComponentGraph Runtime) (sound : SoundGraph graph) :
      SoundGraph (events.foldl publish graph) := by
    induction events generalizing graph with
    | nil => exact sound
    | cons event events ih => exact ih _ (sound_publish sound event)
  exact published _ _ ext.sound

end Transactions

section Runs

variable {self next : ComponentGraph Runtime}

theorem SameGraph.sound {left right : ComponentGraph Runtime} (same : SameGraph left right) (sound : SoundGraph right) :
    SoundGraph left := by
  obtain ⟨⟨nodes, edges⟩, graph, rfl⟩ := same
  have arrowsEq : arrows graph = arrows right.graph := congrArg (List.map Prod.snd) edges
  exact {
    indexed := nodes ▸ sound.indexed
    rooted := nodes ▸ sound.rooted
    joined := by
      rw [arrowsEq, nodes]
      exact sound.joined
    paired := arrowsEq ▸ sound.paired
    single := arrowsEq ▸ sound.single }

theorem SameGraph.refl (self : ComponentGraph Runtime) : SameGraph self self := ⟨⟨rfl, rfl⟩, self.graph, rfl⟩

/-- A registration keeps the graph consistent and leaves it as it was when it fails. -/
def Registers (self : ComponentGraph Runtime) (result : Except String Unit × ComponentGraph Runtime) : Prop :=
  SoundGraph result.2 ∧ ((∃ message, result.1 = .error message) → SameGraph result.2 self)

section

variable (sound : SoundGraph self)
include sound

theorem registers_failed {result : ComponentGraph Runtime} (same : SameGraph result self) (message : String) :
    Registers self (.error message, result) :=
  ⟨same.sound sound, fun _ => same⟩

theorem registers_register (node : ComponentNode) (links : List (String × String × RelationshipKind)) :
    Registers self (self.register node links) := by
  have start := AddsTo.begin sound
  unfold register
  split
  case h_1 message _ => exact registers_failed sound (start.drop sound) message
  case h_2 transaction added =>
    have linked := (start.addComponent added).addRelationships links
    split
    case h_1 final done =>
      rw [done] at linked
      exact ⟨linked.commit, fun ⟨_, failed⟩ => nomatch failed⟩
    case h_2 message final done =>
      rw [done] at linked
      exact registers_failed sound (linked.drop sound) message

theorem registers_registerLinked (title dependency : String) (node : ComponentNode) (ids : List String)
    (link : String → String × String × RelationshipKind) :
    Registers self (self.registerLinked title dependency node ids link) := by
  unfold registerLinked
  split
  case h_1 => exact registers_failed sound (.refl self) _
  case h_2 => exact registers_register sound node _

theorem sound_addComponent (done : self.addComponent node = .ok (idx, next)) : SoundGraph next := by
  unfold addComponent at done
  rcases addComponentInternal_cases self node with ⟨message, failed⟩ | ⟨fresh, event, added⟩
  · rw [failed] at done
    cases done
  · rw [added] at done
    cases event with
    | none =>
      obtain rfl := (Prod.mk.inj (ok.inj done)).2
      exact sound.withComponent fresh
    | some event =>
      obtain rfl := (Prod.mk.inj (ok.inj done)).2
      exact sound_publish (sound.withComponent fresh) event

theorem sound_removeComponent {id} (done : self.removeComponent id = .ok (node, next)) : SoundGraph next := by
  rcases removeComponent_cases self id with ⟨message, failed⟩ | ⟨idx, held, _, _, _, here, notRoot, removed⟩
  · rw [failed] at done
    cases done
  · rw [removed] at done
    obtain rfl := (Prod.mk.inj (ok.inj done)).2
    exact sound.removeNode here notRoot

theorem sound_addRelationship {fromId toId} (done : self.addRelationship fromId toId forward = .ok next) :
    SoundGraph next := by
  unfold addRelationship at done
  rcases addRelationshipInternal_cases self fromId toId forward with
    ⟨message, failed⟩ | same | ⟨source, target, joins, absent, added⟩
  · rw [failed] at done
    cases done
  · rw [same] at done
    obtain rfl := ok.inj done
    exact sound
  · rw [added] at done
    obtain rfl := ok.inj done
    exact sound.linked joins absent

theorem sound_removeRelationship {fromId toId} (done : self.removeRelationship fromId toId forward = .ok next) :
    SoundGraph next := by
  rcases removeRelationship_cases self fromId toId forward with ⟨message, failed⟩ | ⟨source, target, removed⟩
  · rw [failed] at done
    cases done
  · rw [removed] at done
    obtain rfl := ok.inj done
    exact sound.unlinked source target forward

theorem sound_settle {α : Type} {next : α → ComponentGraph Runtime} {result}
    (keeps : ∀ value, result = .ok value → SoundGraph (next value)) : SoundGraph (self.settle next result).2 := by
  cases result with
  | ok value => exact keeps value rfl
  | error => exact sound

theorem sound_perform (operation : GraphOperation Runtime) : SoundGraph (self.perform operation).2 := by
  cases operation with
  | addComponent node => exact sound_settle sound fun _ done => sound_addComponent sound done
  | removeComponent id => exact sound_settle sound fun _ done => sound_removeComponent sound done
  | addRelationship fromId toId forward => exact sound_settle sound fun _ done => sound_addRelationship sound done
  | removeRelationship fromId toId forward => exact sound_settle sound fun _ done => sound_removeRelationship sound done
  | setRuntime id runtime =>
    refine sound_settle sound fun next done => ?_
    unfold setRuntime at done
    split at done
    · obtain rfl := ok.inj done
      exact sound
    · cases done
  | registerSource id metadata => exact (registers_register sound _ _).1
  | registerQuery id metadata sourceIds => exact (registers_registerLinked sound _ _ _ _ _).1
  | registerReaction id metadata queryIds => exact (registers_registerLinked sound _ _ _ _ _).1
  | registerBootstrapProvider id metadata sourceIds => exact (registers_registerLinked sound _ _ _ _ _).1
  | registerIdentityProvider id metadata componentIds => exact (registers_registerLinked sound _ _ _ _ _).1
  | deregister id =>
    refine sound_settle sound fun next done => ?_
    unfold deregister at done
    split at done
    · exact sound_removeComponent sound done
    · cases done
  | transaction steps commits =>
    have done := (AddsTo.begin sound).performAll steps
    cases commits with
    | true => exact done.commit
    | false => exact (done.drop sound).sound sound

end

theorem sound_new (instanceId : String) : SoundGraph (new instanceId : ComponentGraph Runtime) := by
  have nodes : (new instanceId : ComponentGraph Runtime).graph.nodes.occupied =
      [(0, ⟨instanceId, .instanceNode, .running, []⟩)] := rfl
  have none : arrows (new instanceId : ComponentGraph Runtime).graph = [] := rfl
  refine ⟨fun id idx => ?_, ⟨_, nodes ▸ List.mem_singleton_self _, rfl⟩, ?_, ?_, none ▸ List.nodup_nil⟩
  · rw [nodes]
    simp only [List.mem_singleton, Prod.mk.injEq]
    constructor
    · intro here
      by_cases own : id = instanceId
      · subst own
        have : (0 : Nat) = idx := by simpa [new, StableGraph.addNode, Slots.next, StableGraph.empty,
          Slots.empty] using here
        exact ⟨_, ⟨this.symm, rfl⟩, rfl⟩
      · simp [new, own] at here
    · rintro ⟨node, ⟨rfl, rfl⟩, rfl⟩
      simp [new, StableGraph.addNode, Slots.next, StableGraph.empty, Slots.empty]
  · simp [none]
  · simp [none]

theorem sound_run (sound : SoundGraph self) (operations : List (GraphOperation Runtime)) :
    SoundGraph (self.run operations) := by
  induction operations generalizing self with
  | nil => exact sound
  | cons operation operations ih => exact ih (sound_perform sound operation)

end Runs

section Order

variable {self : ComponentGraph Runtime}

def level : ComponentKind → Nat
  | .source => 0
  | .query => 1
  | _ => 2

theorem level_lt {fromKind toKind} (valid : isValidRelationship fromKind toKind .feeds = true) :
    level fromKind < level toKind := by
  cases fromKind <;> cases toKind <;> first | exact Bool.noConfusion valid | decide

theorem valid_feeds (joins : Joins nodes arrow) (feeds : arrow.weight = .feeds) :
    ∃ fromNode toNode, (arrow.source, fromNode) ∈ nodes ∧ (arrow.target, toNode) ∈ nodes ∧
      isValidRelationship fromNode.kind toNode.kind .feeds = true := by
  obtain ⟨fromNode, toNode, source, target, valid⟩ := joins
  rw [feeds] at valid
  refine ⟨fromNode, toNode, source, target, valid.resolve_right fun backward => ?_⟩
  cases toKind : toNode.kind <;> cases fromKind : fromNode.kind <;> rw [toKind, fromKind] at backward <;>
    exact Bool.noConfusion backward

theorem not_root_of_feeds {fromKind toKind} (valid : isValidRelationship fromKind toKind .feeds = true) :
    fromKind ≠ .instanceNode ∧ toKind ≠ .instanceNode := by
  cases fromKind <;> cases toKind <;> first | exact Bool.noConfusion valid | decide

def levelAt (self : ComponentGraph Runtime) (position : Nat) : Nat :=
  ((self.graph.nodes.numbers[position]?.bind self.graph.nodeWeight).map fun node => level node.kind).getD 0

theorem getElem?_idxOf? {numbers : List Nat} {number position} (found : numbers.idxOf? number = some position) :
    numbers[position]? = some number := by
  obtain ⟨inside, same, _⟩ := List.idxOf?_eq_some_iff.mp found
  exact List.getElem?_eq_some_iff.mpr ⟨inside, same⟩

theorem exists_idxOf? {numbers : List Nat} {number} (member : number ∈ numbers) :
    ∃ position, numbers.idxOf? number = some position :=
  Option.isSome_iff_exists.mp (List.isSome_idxOf?.mpr member)

theorem mem_orderArcs {arc : Nat × Nat} :
    arc ∈ self.orderArcs ↔ ∃ arrow ∈ arrows self.graph, arrow.weight = .feeds ∧
      self.graph.nodes.numbers.idxOf? arrow.source = some arc.1 ∧
      self.graph.nodes.numbers.idxOf? arrow.target = some arc.2 := by
  simp only [orderArcs, List.mem_filterMap, List.mem_filter, decide_eq_true_eq, arrows, List.mem_map]
  constructor
  · rintro ⟨edge, ⟨member, feeds⟩, found⟩
    split at found
    case h_1 source target =>
      obtain rfl := Option.some.inj found
      exact ⟨edge.2, ⟨edge, member, rfl⟩, feeds, source, target⟩
    case h_2 => cases found
  · rintro ⟨_, ⟨edge, member, rfl⟩, feeds, source, target⟩
    exact ⟨edge, ⟨member, feeds⟩, by rw [source, target]⟩

/-- The arcs climb in the level, so that there is an order. -/
theorem orderArcs_climb (sound : SoundGraph self) : ∀ arc ∈ self.orderArcs, levelAt self arc.1 < levelAt self arc.2 := by
  intro arc member
  obtain ⟨arrow, inside, feeds, source, target⟩ := mem_orderArcs.mp member
  obtain ⟨fromNode, toNode, fromHeld, toHeld, valid⟩ := valid_feeds (sound.joined arrow inside) feeds
  have fromWeight : self.graph.nodeWeight arrow.source = some fromNode := Slots.get_eq_some.mpr fromHeld
  have toWeight : self.graph.nodeWeight arrow.target = some toNode := Slots.get_eq_some.mpr toHeld
  rw [levelAt, levelAt, getElem?_idxOf? source, getElem?_idxOf? target, Option.bind_some, Option.bind_some, fromWeight, toWeight]
  exact level_lt valid

/-- All components but the root, once each, and none before one that feeds it. -/
structure LifecycleOrder (self : ComponentGraph Runtime) (order : List ComponentNode) : Prop where
  lists : order.Perm ((self.graph.nodes.occupied.filter (·.1 ≠ self.instanceIdx)).map Prod.snd)
  forward : ∀ arrow ∈ arrows self.graph, arrow.weight = .feeds → ∀ fromNode toNode,
    (arrow.source, fromNode) ∈ self.graph.nodes.occupied → (arrow.target, toNode) ∈ self.graph.nodes.occupied →
    [fromNode, toNode].Sublist order

theorem filterMap_range_getElem? (numbers : List Nat) :
    (List.range numbers.length).filterMap (fun position => numbers[position]?) = numbers := by
  have positions : (List.range numbers.length).map (fun position => numbers[position]?) = numbers.map some := by
    refine List.ext_getElem (by simp) fun position inside _ => ?_
    have : position < numbers.length := by simpa using inside
    simp [this]
  calc (List.range numbers.length).filterMap (fun position => numbers[position]?)
      = ((List.range numbers.length).map fun position => numbers[position]?).filterMap id := by
        rw [List.filterMap_map]
        rfl
    _ = numbers := by
        rw [positions, List.filterMap_map, id_comp, List.filterMap_some]

theorem filterMap_numbers (slots : Slots ComponentNode) (root : Nat) :
    (slots.numbers.filter (· ≠ root)).filterMap slots.get = (slots.occupied.filter (·.1 ≠ root)).map Prod.snd := by
  rw [Slots.numbers, List.filter_map, List.filterMap_map, ← List.filterMap_eq_map]
  refine List.filterMap_congr fun entry member => ?_
  exact Slots.get_eq_some.mpr (List.mem_of_mem_filter member)

theorem ne_root (sound : SoundGraph self) (held : (idx, node) ∈ self.graph.nodes.occupied)
    (kind : node.kind ≠ .instanceNode) : idx ≠ self.instanceIdx := by
  rintro rfl
  obtain ⟨root, rootHeld, rootKind⟩ := sound.rooted
  have one := List.inj_on_of_nodup_map self.graph.nodes.nodup_numbers held rootHeld rfl
  rw [(Prod.mk.inj one).2] at kind
  exact kind rootKind

theorem topologicalOrder_ok (toposort : Toposort) (sound : SoundGraph self) :
    ∃ order, self.topologicalOrder toposort = .ok order ∧ LifecycleOrder self order := by
  have sorts : (toposort.order self.graph.nodes.numbers.length self.orderArcs).isSome :=
    toposort.succeeds (levelAt self) (orderArcs_climb sound)
  obtain ⟨sorted, done⟩ := Option.isSome_iff_exists.mp sorts
  refine ⟨_, by rw [topologicalOrder, done], ?_, ?_⟩
  · have numbers := (toposort.lists done).filterMap fun position => self.graph.nodes.numbers[position]?
    rw [filterMap_range_getElem?] at numbers
    have nodes := (numbers.filter (· ≠ self.instanceIdx)).filterMap self.graph.nodeWeight
    exact nodes.trans (.of_eq (filterMap_numbers self.graph.nodes self.instanceIdx))
  · intro arrow member feeds fromNode toNode fromHeld toHeld
    obtain ⟨newFrom, source⟩ := exists_idxOf? (List.mem_map_of_mem fromHeld : arrow.source ∈ self.graph.nodes.numbers)
    obtain ⟨newTo, target⟩ := exists_idxOf? (List.mem_map_of_mem toHeld : arrow.target ∈ self.graph.nodes.numbers)
    have fromNumber := getElem?_idxOf? source
    have toNumber := getElem?_idxOf? target
    have arc : [newFrom, newTo].Sublist sorted := toposort.forward done (newFrom, newTo)
      (mem_orderArcs.mpr ⟨arrow, member, feeds, source, target⟩) (List.getElem?_eq_some_iff.mp fromNumber).1
      (List.getElem?_eq_some_iff.mp toNumber).1
    obtain ⟨_, _, fromAgain, toAgain, valid⟩ := valid_feeds (sound.joined arrow member) feeds
    have fromKind := ne_root sound fromAgain (not_root_of_feeds valid).1
    have toKind := ne_root sound toAgain (not_root_of_feeds valid).2
    have fromWeight : self.graph.nodeWeight arrow.source = some fromNode := Slots.get_eq_some.mpr fromHeld
    have toWeight : self.graph.nodeWeight arrow.target = some toNode := Slots.get_eq_some.mpr toHeld
    have placed := ((arc.filterMap fun position => self.graph.nodes.numbers[position]?).filter
      (· ≠ self.instanceIdx)).filterMap self.graph.nodeWeight
    have numbers : [newFrom, newTo].filterMap (fun position => self.graph.nodes.numbers[position]?) =
        [arrow.source, arrow.target] := by
      rw [List.filterMap_cons_some fromNumber, List.filterMap_cons_some toNumber, List.filterMap_nil]
    have spared : [arrow.source, arrow.target].filter (· ≠ self.instanceIdx) = [arrow.source, arrow.target] := by
      simp [fromKind, toKind]
    rw [numbers, spared, List.filterMap_cons_some fromWeight, List.filterMap_cons_some toWeight, List.filterMap_nil] at placed
    exact placed

end Order

/-- Ids and nodes correspond, edges along which data flows have their opposites and the right ends, no two nodes have two
edges of one kind, and the components have an order. -/
structure ConsistentGraph {Runtime : Type} (toposort : Toposort) (self : ComponentGraph Runtime) : Prop where
  indexed : ∀ id idx, self.index id = some idx ↔ ∃ node, self.graph.nodeWeight idx = some node ∧ node.id = id
  paired : ∀ arrow ∈ arrows self.graph, arrow.weight = .feeds → ⟨arrow.target, arrow.source, .subscribesTo⟩ ∈ arrows self.graph
  allowed : ∀ arrow ∈ arrows self.graph, arrow.weight = .feeds → ∃ fromNode toNode,
    self.graph.nodeWeight arrow.source = some fromNode ∧ self.graph.nodeWeight arrow.target = some toNode ∧
      isValidRelationship fromNode.kind toNode.kind .feeds = true
  single : (arrows self.graph).Nodup
  ordered : ∃ order, self.topologicalOrder toposort = .ok order ∧ LifecycleOrder self order

theorem consistent_of_sound (toposort : Toposort) {self : ComponentGraph Runtime} (sound : SoundGraph self) :
    ConsistentGraph toposort self where
  indexed id idx := (sound.indexed id idx).trans
    (exists_congr fun _ => and_congr_left fun _ => Slots.get_eq_some.symm)
  paired arrow member feeds := by
    have reversed := sound.paired arrow member
    rw [opposite, feeds] at reversed
    exact reversed
  allowed arrow member feeds := by
    obtain ⟨fromNode, toNode, source, target, valid⟩ := valid_feeds (sound.joined arrow member) feeds
    exact ⟨fromNode, toNode, Slots.get_eq_some.mpr source, Slots.get_eq_some.mpr target, valid⟩
  single := sound.single
  ordered := topologicalOrder_ok toposort sound

def undone : GraphOperation Runtime → Except String Unit → Prop
  | .registerSource .., .error _ | .registerQuery .., .error _ | .registerReaction .., .error _
  | .registerBootstrapProvider .., .error _ | .registerIdentityProvider .., .error _ => True
  | .transaction _ commits, _ => commits = false
  | _, _ => False

variable {operation : GraphOperation Runtime}

theorem failed_of_undone {result} (isUndone : undone operation result) :
    (∃ message, result = .error message) ∨ ∃ steps, operation = .transaction steps false := by
  cases result with
  | error message => exact .inl ⟨message, rfl⟩
  | ok =>
    cases operation with
    | transaction steps commits =>
      obtain rfl : commits = false := isUndone
      exact .inr ⟨steps, rfl⟩
    | _ => exact isUndone.elim

theorem sameGraph_of_undone {self : ComponentGraph Runtime} (sound : SoundGraph self)
    (isUndone : undone operation (self.perform operation).1) : SameGraph (self.perform operation).2 self := by
  rcases failed_of_undone isUndone with failed | ⟨steps, rfl⟩
  · cases operation with
    | registerSource id metadata => exact (registers_register sound _ _).2 failed
    | registerQuery id metadata sourceIds => exact (registers_registerLinked sound _ _ _ _ _).2 failed
    | registerReaction id metadata queryIds => exact (registers_registerLinked sound _ _ _ _ _).2 failed
    | registerBootstrapProvider id metadata sourceIds => exact (registers_registerLinked sound _ _ _ _ _).2 failed
    | registerIdentityProvider id metadata componentIds => exact (registers_registerLinked sound _ _ _ _ _).2 failed
    | transaction steps commits =>
      obtain ⟨_, failed⟩ := failed
      cases failed
    | _ =>
      obtain ⟨_, failed⟩ := failed
      rw [failed] at isUndone
      exact isUndone.elim
  · exact ((AddsTo.begin sound).performAll steps).drop sound

/-- Whatever is done to the graph, it is consistent, and a failed registration or a dropped transaction leaves it as it was
and broadcasts nothing. -/
theorem component_graph_consistent_with_rollback {Runtime : Type} (toposort : Toposort) (instanceId : String)
    (operations : List (GraphOperation Runtime)) :
    ConsistentGraph toposort ((new instanceId).run operations) ∧
      ∀ operation, undone operation (((new instanceId).run operations).perform operation).1 →
        SameGraph (((new instanceId).run operations).perform operation).2
          ((new instanceId).run operations) := by
  have sound := sound_run (sound_new instanceId) operations
  exact ⟨consistent_of_sound toposort sound, fun _ isUndone => sameGraph_of_undone sound isUndone⟩

/-- A source, a query and a reaction. -/
def sampleComponents : List (GraphOperation Unit) :=
  [.registerSource "source" [], .registerQuery "query" [] ["source"], .registerReaction "reaction" [] ["query"]]

/-- The transaction adds a second query to the source before it is dropped. -/
theorem component_graph_consistent_with_rollback_sample :
    let self := (new "instance").run sampleComponents
    let steps := [.addComponent ⟨"other", .query, .added, []⟩, .addRelationship "source" "other" .feeds]
    ConsistentGraph .byRank self ∧ SameGraph (self.perform (.transaction steps false)).2 self ∧
      (arrows self.graph).length = 10 ∧ (arrows (self.perform (.transaction steps true)).2.graph).length = 14 := by
  intro self steps
  obtain ⟨consistent, undoes⟩ := component_graph_consistent_with_rollback .byRank "instance" sampleComponents
  exact ⟨consistent, undoes _ rfl, by decide +kernel, by decide +kernel⟩

end DrasiCore.Proofs
